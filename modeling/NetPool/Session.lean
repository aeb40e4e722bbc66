import NetPool.Hypervisor.Virsh
import NetPool.Ledger
import NetPool.Lock
import NetPool.Settings

/-! # Sessions

A session is how one test run takes assets from the shared ledger and gives them back. It keeps
the entries that it wrote, stamps included, so that giving back removes exactly those. The ledger
is read and written under its lock only. -/

namespace NetPool

structure Session where
  ledgerPath : String
  lockPath : String
  lockTimeoutSecs : Nat
  template : Template
  maxAttempts : Nat
  hypervisor : Hypervisor
  /-- The interfaces of the host, as far as they are looked at. -/
  interfaces : List HostInterface
  /-- The entries that were acquired and not yet given back. -/
  pending : List Asset

namespace Session

/-- A session with those settings. The interfaces of the host count only if the hypervisor runs
on it. -/
def new (s : Settings) (hypervisor : Hypervisor) (interfaces : List HostInterface) : Session where
  ledgerPath := s.ledgerPath
  lockPath := s.lockPath
  lockTimeoutSecs := s.lockTimeoutSecs
  template := s.template
  maxAttempts := s.maxAttempts
  hypervisor := hypervisor
  interfaces := if s.isLocal then interfaces else []
  pending := []

/-- The session that looks at the given interfaces, whichever host the hypervisor runs on. -/
def withInterfaces (s : Session) (interfaces : List HostInterface) : Session :=
  { s with interfaces := interfaces }

def underLock {α : Type} (s : Session) (action : Action α) : Action α :=
  Lock.holding s.lockPath s.lockTimeoutSecs action

/-- The outcome of a search. A failure records nothing that lasts. -/
def chosen (t : CheckedTemplate) (maxAttempts : Nat) (o : Occupancy) : Except Error Asset :=
  ((Allocation.allocate t maxAttempts).outcome o).1.mapError .exhausted

/-- All that an acquisition must keep clear of: the entries, the interfaces of the host and the
leases of the hypervisor. -/
def inUse (s : Session) (entries : List Asset) : Action Occupancy := do
  let leased ← Action.ask s.hypervisor.survey
  return ((Occupancy.ofAssets entries).union (Occupancy.ofInterfaces s.interfaces)).union leased

/-- The asset with the stamps of an acquisition that happens now. -/
def stamped (a : Asset) : Action Asset := Effect.of fun w =>
  let (t, w) := w.now
  (.ok { a with allocatedAt := some t, ownerPid := some w.process }, w)

/-- Chooses an asset and appends it to the ledger. -/
def reserve (s : Session) (t : CheckedTemplate) : Action Asset := do
  let entries ← Ledger.load s.ledgerPath
  let used ← s.inUse entries
  let free ← Action.observe fun _ => chosen t s.maxAttempts used
  let asset ← stamped free
  -- Last of all, so that a failure before it leaves the ledger as it is.
  Ledger.store s.ledgerPath (entries ++ [asset])
  return asset

/-- The entries without those of the session. -/
def others (s : Session) (entries : List Asset) : List Asset :=
  entries.filter fun e => !s.pending.contains e

/-- Removes the entries of the session from the ledger; how many there were. -/
def giveBack (s : Session) : Action Nat := do
  let entries ← Ledger.load s.ledgerPath
  Ledger.store s.ledgerPath (s.others entries)
  return entries.length - (s.others entries).length

/-! ## Operations that change the session -/

/-- An operation of a session. It may change the session and the world, also if it fails. -/
abbrev Operation (α : Type) : Type := Effect (Session × World) α

namespace Operation

variable {α : Type}

/-- Acts on the world in the way of the session. -/
def act (action : Session → Action α) : Operation α := Effect.of fun (s, w) =>
  let (r, w) := (action s).outcome w
  (r, s, w)

def changePending (f : List Asset → List Asset) : Operation Unit :=
  modify fun (s, w) => ({ s with pending := f s.pending }, w)

/-- Acquires an asset. The template is checked before anything else happens. -/
def acquire : Operation Asset := do
  let t ← act fun s => Action.observe fun _ => s.template.check.mapError .template
  let asset ← act fun s => s.underLock (s.reserve t)
  changePending (· ++ [asset])
  return asset

/-- Gives back all that the session acquired. With nothing pending, nothing is touched. -/
def releaseAll : Operation Nat := do
  let (s, _) ← get
  if s.pending.isEmpty then return 0
  let removed ← act fun s => s.underLock s.giveBack
  changePending fun _ => []
  return removed

/-- The operation of that session. If it succeeds, the session after it is returned, too. -/
def actionOf (op : Operation α) (s : Session) : Action (α × Session) := Effect.of fun w =>
  match op.outcome (s, w) with
  | (.ok a, s, w) => (.ok (a, s), w)
  | (.error e, _, w) => (.error e, w)

end Operation

def acquire (s : Session) : Action (Asset × Session) := Operation.acquire.actionOf s

def releaseAll (s : Session) : Action (Nat × Session) := Operation.releaseAll.actionOf s

/-! ## Operations that leave the session -/

/-- The entries of the ledger. -/
def snapshot (s : Session) : Action (List Asset) := s.underLock (Ledger.load s.ledgerPath)

/-- Removes the first entry with that primary bridge, whoever owns it, and returns it. Without
one, the ledger is not written. -/
def reclaim (s : Session) (networkIf : String) : Action (Option Asset) := s.underLock do
  let entries ← Ledger.load s.ledgerPath
  match entries.find? (·.networkIf = networkIf) with
  | none => return none
  | some asset =>
    Ledger.store s.ledgerPath (entries.eraseP (·.networkIf = networkIf))
    return some asset

/-! ## Several assets -/

/-- What a sequence of acquisitions has led to: the session and the assets acquired, or the
failure that ended it. -/
structure Progress where
  session : Session
  assets : List Asset
  failure : Option Error

/-- Acquires assets one after the other, `count` at most, and stops at the first failure. -/
def acquireMany (s : Session) : Nat → World → Progress × World
  | 0, w => (⟨s, [], none⟩, w)
  | n + 1, w =>
    match Operation.acquire.outcome (s, w) with
    | (.error e, s, w) => (⟨s, [], some e⟩, w)
    | (.ok asset, s, w) =>
      let (p, w) := s.acquireMany n w
      ({ p with assets := asset :: p.assets }, w)

/-- What the use of some assets has led to, with the session and the world after it. -/
structure Use (α : Type) where
  result : Except Error α
  session : Session
  world : World

/-- Gives back all that is pending. -/
def settle (s : Session) (w : World) : Except Error Nat × Session × World :=
  Operation.releaseAll.outcome (s, w)

/-- Acquires `count` assets, does something with them, and gives them back however that ends. The
failure of the use counts more than that of giving back. -/
def useAndReturn {α : Type} (s : Session) (count : Nat) (body : List Asset → Action α) (w : World) :
    Use α :=
  let (p, w) := s.acquireMany count w
  match p.failure with
  | some e =>
    -- What was acquired before is given back. Whether that fails is not told.
    let (_, s, w) := p.session.settle w
    ⟨.error e, s, w⟩
  | none =>
    let (outcome, w) := (body p.assets).outcome w
    let (released, s, w) := p.session.settle w
    match outcome, released with
    | .ok a, .ok _ => ⟨.ok a, s, w⟩
    | .ok _, .error e => ⟨.error e, s, w⟩
    | .error e, _ => ⟨.error e, s, w⟩

/-- The scoped use of `count` assets. The list of the assets is made first: if memory cannot hold it,
nothing is acquired or given back. -/
def borrow {α : Type} (s : Session) (count : Nat) (body : List Asset → Action α) (w : World) :
    Use α :=
  if w.canHold count then s.useAndReturn count body w else ⟨.error (.outOfRange .count), s, w⟩

end Session
end NetPool
