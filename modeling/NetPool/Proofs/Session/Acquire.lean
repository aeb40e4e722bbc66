import NetPool.Proofs.Ledger.Disjoint
import NetPool.Proofs.Ledger.RoundTrip
import NetPool.Proofs.Lock
import NetPool.Proofs.Session.Operation

/-! # Acquisitions

An acquisition is first-fit with respect to the entries of the ledger, the interfaces of the host
and the leases that the hypervisor reports. -/

namespace NetPool

open NetPool.Effect NetPool.Action
open Allocation (FirstFit NoFit Allocates)

/-! ## Leases -/

namespace Hypervisor

/-- The leases of the networks, in order. A network whose leases cannot be read has none. -/
def leasesOf (h : Hypervisor) (m : Machine) (networks : List String) : List Lease :=
  networks.flatMap fun n =>
    match (h.leases m n).result with
    | .ok ls => ls
    | .error _ => []

theorem collect_result (h : Hypervisor) (m : Machine) (o : Occupancy) (networks : List String) :
    (h.collect m o networks).result =
      .ok ((h.leasesOf m networks).foldl Occupancy.addLease o) := by
  induction networks generalizing o with
  | nil => rfl
  | cons n networks ih =>
      rw [collect, leasesOf, List.flatMap_cons, List.foldl_append, ← leasesOf]
      cases hresult : (h.leases m n).result with
      | ok ls =>
          simp only [Answer.andThen, Answer.attempt, hresult]
          exact ih _
      | error e =>
          simp only [Answer.andThen, Answer.attempt, hresult]
          exact ih _

/-- The leases that a hypervisor tells of, if it lists its networks. -/
def told (h : Hypervisor) (m : Machine) : Except Error (List Lease) :=
  (h.networks m).result.map (h.leasesOf m)

/-- A survey records the leases of all networks, and fails only if these cannot be listed. -/
theorem survey_result (h : Hypervisor) (m : Machine) :
    (h.survey m).result = (h.told m).map Occupancy.ofLeases := by
  rw [survey, Answer.andThen, told]
  cases (h.networks m).result with
  | ok networks => exact h.collect_result m .empty networks
  | error e => rfl

end Hypervisor

namespace Session

/-- All that an acquisition has to keep clear of: the subnets and bridges of the entries, the names
and addresses of the interfaces of the host, and the bridges and addresses of the leases. -/
def uses (s : Session) (es : List Asset) (m : Machine) (networks : List String) : Uses :=
  ((Uses.ofAssets es).append (.ofInterfaces s.interfaces)).append
    (.ofLeases (s.hypervisor.leasesOf m networks))

theorem mem_uses_ranges {s : Session} {es : List Asset} {m : Machine} {networks : List String}
    {e : Asset} (he : e ∈ es) {r : AnySubnet} (hr : r ∈ e.subnets) :
    r ∈ (s.uses es m networks).ranges := by
  have hmem : r ∈ es.flatMap (·.subnets) := List.mem_flatMap.mpr ⟨e, he, hr⟩
  simp [uses, Uses.append, Uses.ofAssets, Uses.ofInterfaces, Uses.ofLeases, hmem]

theorem mem_uses_names {s : Session} {es : List Asset} {m : Machine} {networks : List String}
    {e : Asset} (he : e ∈ es) {n : String} (hn : n ∈ e.bridges) :
    n ∈ (s.uses es m networks).names := by
  have hmem : n ∈ es.flatMap (·.bridges) := List.mem_flatMap.mpr ⟨e, he, hn⟩
  simp [uses, Uses.append, Uses.ofAssets, hmem]

/-- The occupancy of the entries, of the interfaces that the session looks at, and of leases. -/
def occupied (s : Session) (es : List Asset) (ls : List Lease) : Occupancy :=
  ((Occupancy.ofAssets es).union (.ofInterfaces s.interfaces)).union (.ofLeases ls)

theorem holds_occupied (s : Session) (es : List Asset) (ls : List Lease) :
    (s.occupied es ls).Holds
      (((Uses.ofAssets es).append (.ofInterfaces s.interfaces)).append (.ofLeases ls)) :=
  ((Occupancy.holds_ofAssets es).union (Occupancy.holds_ofInterfaces s.interfaces)).union
    (Occupancy.holds_ofLeases ls)

theorem outcome_inUse (s : Session) (es : List Asset) (w : World) :
    ∃ calls, (s.inUse es).outcome w =
      ((s.hypervisor.told w.machine).map (s.occupied es), w.logged calls) := by
  refine ⟨(s.hypervisor.survey w.machine).calls, ?_⟩
  rw [inUse, outcome_bind, outcome_ask, Hypervisor.survey_result]
  cases s.hypervisor.told w.machine with
  | ok ls => rfl
  | error e => rfl

/-! ## Stamps -/

/-- The asset as it is acquired in a world. -/
def stampedIn (w : World) (a : Asset) : Asset :=
  { a with allocatedAt := some (w.clock w.ticks), ownerPid := some w.process }

theorem firstFit_stampedIn {t : CheckedTemplate} {maxAttempts : Nat} {u : Uses} {a : Asset}
    {f : Field} (h : FirstFit t maxAttempts u a f) (w : World) :
    FirstFit t maxAttempts u (stampedIn w a) f := by
  cases f with
  | machineCidr => exact h
  | machineCidr6 => exact h
  | provisioningCidr => exact h
  | provisioningCidr6 => exact h
  | networkIf => exact h
  | secondaryNetworkIf => exact h

/-! ## Reservations -/

/-- How storing an asset ends, for the acquisition that stores it. -/
def stored (path : String) (es : List Asset) (a : Asset) : Action Asset := do
  Ledger.store path (es ++ [a])
  return a

theorem outcome_stored (path : String) (es : List Asset) (a : Asset) (w : World) :
    (stored path es a).outcome w =
      match (Ledger.store path (es ++ [a])).outcome w with
      | (.ok _, w') => (.ok a, w')
      | (.error e, w') => (.error e, w') := by
  rw [stored, outcome_bind]
  rcases (Ledger.store path (es ++ [a])).outcome w with ⟨r, w'⟩
  cases r with
  | ok u => rfl
  | error e => rfl

/-- What is left of a reservation once the ledger is loaded. -/
def reserveFrom (s : Session) (t : CheckedTemplate) (entries : List Asset) : Action Asset := do
  let used ← s.inUse entries
  let free ← Action.observe fun _ => chosen t s.maxAttempts used
  let asset ← stamped free
  stored s.ledgerPath entries asset

theorem outcome_reserve {s : Session} {w : World} {es : List Asset} (t : CheckedTemplate)
    (hload : Ledger.entries w.files s.ledgerPath = .ok es) :
    (s.reserve t).outcome w = (s.reserveFrom t es).outcome w :=
  outcome_bind_ok (Ledger.outcome_load_of_entries hload) _

/-- A reservation goes as far as the hypervisor lists its networks and every field has a fit; then
it stores the stamped asset. Until then no file is touched. -/
inductive Reserves (s : Session) (t : CheckedTemplate) (w : World) (es : List Asset) :
    Except Error Asset × World → Prop
  | unlisted {e w'} (hnetworks : (s.hypervisor.networks w.machine).result = .error e)
      (hfiles : w'.files = w.files) : Reserves s t w es (.error e, w')
  | exhausted {networks e w'} (hnetworks : (s.hypervisor.networks w.machine).result = .ok networks)
      (hallocates : Allocates t s.maxAttempts (s.uses es w.machine networks) (.error e))
      (hfiles : w'.files = w.files) : Reserves s t w es (.error (.exhausted e), w')
  | found {networks a w'} (hnetworks : (s.hypervisor.networks w.machine).result = .ok networks)
      (hallocates : Allocates t s.maxAttempts (s.uses es w.machine networks) (.ok a))
      (hfiles : w'.files = w.files) :
      Reserves s t w es ((stored s.ledgerPath es (stampedIn w a)).outcome w')

theorem reserve_spec (s : Session) (t : CheckedTemplate) {w : World} {es : List Asset}
    (hload : Ledger.entries w.files s.ledgerPath = .ok es) :
    Reserves s t w es ((s.reserve t).outcome w) := by
  obtain ⟨calls, hused⟩ := outcome_inUse s es w
  rw [Hypervisor.told] at hused
  rw [outcome_reserve t hload, reserveFrom]
  cases hnetworks : (s.hypervisor.networks w.machine).result with
  | error e =>
      rw [hnetworks] at hused
      rw [outcome_bind_error hused]
      exact .unlisted hnetworks rfl
  | ok networks =>
      rw [hnetworks] at hused
      have hholds : (s.occupied es _).Holds (s.uses es w.machine networks) := s.holds_occupied es _
      have hspec := Allocation.allocate_spec hholds t s.maxAttempts
      rw [outcome_bind_ok hused, outcome_bind, outcome_observe, chosen]
      cases hallocate : ((Allocation.allocate t s.maxAttempts).outcome _).1 with
      | error e =>
          rw [hallocate] at hspec
          exact .exhausted hnetworks hspec rfl
      | ok a =>
          rw [hallocate] at hspec
          exact .found hnetworks hspec rfl

/-- A reservation whose search succeeds stores the stamped asset. -/
theorem reserve_of_chosen {s : Session} {t : CheckedTemplate} {w : World} {es : List Asset}
    {ls : List Lease} {a : Asset} (hload : Ledger.entries w.files s.ledgerPath = .ok es)
    (htold : s.hypervisor.told w.machine = .ok ls)
    (hchosen : chosen t s.maxAttempts (s.occupied es ls) = .ok a) :
    ∃ w', w'.files = w.files ∧
      (s.reserve t).outcome w = (stored s.ledgerPath es (stampedIn w a)).outcome w' := by
  obtain ⟨calls, hused⟩ := outcome_inUse s es w
  rw [htold] at hused
  refine ⟨(w.logged calls).now.2, rfl, ?_⟩
  rw [outcome_reserve t hload, reserveFrom, outcome_bind_ok hused, outcome_bind, outcome_observe,
    hchosen]
  rfl

/-- With a single attempt for each field, nothing is found while an entry bears the first name. -/
theorem reserve_fails_of_single {s : Session} {t : CheckedTemplate} {w : World} {es : List Asset}
    {e : Asset} (hsingle : s.maxAttempts = 1)
    (hload : Ledger.entries w.files s.ledgerPath = .ok es) (he : e ∈ es)
    (hname : e.networkIf = Allocation.numbered t.networkIf.text 0) :
    ∃ e' w', (s.reserve t).outcome w = (.error e', w') := by
  have hspec := reserve_spec s t hload
  generalize (s.reserve t).outcome w = ending at hspec
  cases hspec with
  | unlisted _ _ => exact ⟨_, _, rfl⟩
  | exhausted _ _ _ => exact ⟨_, _, rfl⟩
  | @found networks a w' _ hallocates _ =>
      cases hallocates with
      | ok _ hfit =>
          obtain ⟨k, hk, hcandidate, _⟩ := hfit .networkIf
          obtain rfl : k = 0 := by omega
          have hsame : e.networkIf = a.networkIf := hname.trans (Option.some.inj hcandidate)
          have hseparate := Allocation.separate_of_firstFit hfit
            (fun _ => mem_uses_ranges he) fun _ => mem_uses_names he
          exact absurd (hsame ▸ List.mem_cons_self) (hseparate.2 e.networkIf List.mem_cons_self)

/-! ## Small sessions and ledgers -/

/-- A session with the standard template and without anything to keep clear of. -/
def plain (ledgerPath lockPath : String) (maxAttempts : Nat) : Session where
  ledgerPath := ledgerPath
  lockPath := lockPath
  lockTimeoutSecs := 0
  template := .standard
  maxAttempts := maxAttempts
  hypervisor := .known []
  interfaces := []
  pending := []

theorem apart_plain {files : FileSystem} (hdir : files.workDir = []) :
    files.Apart "l" "ledger" := by
  have hapart : FileSystem.Apart (.empty []) "l" "ledger" :=
    FileSystem.apart_of_incomparable (by decide) (by decide) (by decide) (by decide)
  exact hapart.of_workDir hdir

/-- A world with a ledger of the entries and nothing else. -/
def keeping (es : List Asset) : World :=
  quiet ((FileSystem.empty []).set ["ledger"] (some (.file 0 (Ledger.encode es))))

/-- An asset apart from those that the standard template leads to. -/
def guest : Asset where
  machineCidr := ⟨⟨0x0A030000, by decide⟩, 21, by decide⟩
  machineCidr6 := ⟨⟨0xFD000000000000000000000000000100, by decide⟩, 122, by decide⟩
  provisioningCidr := ⟨⟨0x0A040000, by decide⟩, 22, by decide⟩
  provisioningCidr6 := ⟨⟨0xFD000000000000000000000000000200, by decide⟩, 123, by decide⟩
  networkIf := "guest"
  secondaryNetworkIf := "sguest"
  allocatedAt := none
  ownerPid := some 7

/-- Another such asset. -/
def lodger : Asset where
  machineCidr := ⟨⟨0x0A050000, by decide⟩, 19, by decide⟩
  machineCidr6 := ⟨⟨0xFD000000000000000000000000000300, by decide⟩, 124, by decide⟩
  provisioningCidr := ⟨⟨0x0A060000, by decide⟩, 23, by decide⟩
  provisioningCidr6 := ⟨⟨0xFD000000000000000000000000000400, by decide⟩, 125, by decide⟩
  networkIf := "lodger"
  secondaryNetworkIf := "slodger"
  allocatedAt := none
  ownerPid := some 1

/-! ## First fit -/

/-- A template with a fault is all that an acquisition looks at. -/
theorem outcome_acquire_of_fault {s : Session} {fault : TemplateError}
    (htemplate : s.template.check = .error fault) (w : World) :
    s.acquire.outcome w = (.error (.template fault), w) := by
  rw [acquire_eq, outcome_bind, outcome_observe, htemplate]
  rfl

theorem outcome_acquire (s : Session) {w w' : World} {g : Guard} {t : CheckedTemplate}
    (htemplate : s.template.check = .ok t)
    (hlock : (Lock.acquire s.lockPath s.lockTimeoutSecs).outcome w = (.ok g, w')) :
    s.acquire.outcome w =
      match (s.reserve t).outcome w' with
      | (.ok a, w₁) => (.ok (a, { s with pending := s.pending ++ [a] }), w₁.release g)
      | (.error e, w₁) => (.error e, w₁.release g) := by
  rw [acquire_eq, outcome_bind, outcome_observe, htemplate]
  simp only [mapError_ok, outcome_bind, underLock, Lock.outcome_holding, hlock]
  rcases (s.reserve t).outcome w' with ⟨r, w₁⟩
  cases r with
  | ok a => rfl
  | error e => rfl

/-- With a valid template, a free lock, a ledger that loads and a hypervisor that lists its networks,
an acquisition takes the first fit in every field and stores it with its stamps, unless writing the
ledger fails. If a field has no fit, the first such field is reported and no file is touched. -/
theorem acquire_first_fit (s : Session) {w w' : World} {g : Guard} {t : CheckedTemplate}
    {es : List Asset} {networks : List String} (htemplate : s.template.check = .ok t)
    (hlock : (Lock.acquire s.lockPath s.lockTimeoutSecs).outcome w = (.ok g, w'))
    (hledger : Ledger.entries w'.files s.ledgerPath = .ok es)
    (hnetworks : (s.hypervisor.networks w'.machine).result = .ok networks) :
    (∃ a w₁, w₁.files = w'.files ∧ a.allocatedAt = some (w'.clock w'.ticks) ∧
        a.ownerPid = some w'.process ∧
        (∀ f, FirstFit t s.maxAttempts (s.uses es w'.machine networks) a f) ∧
        s.acquire.outcome w =
          match (Ledger.store s.ledgerPath (es ++ [a])).outcome w₁ with
          | (.ok _, w₂) => (.ok (a, { s with pending := s.pending ++ [a] }), w₂.release g)
          | (.error e, w₂) => (.error e, w₂.release g)) ∨
      ∃ a f attempts w₁, w₁.files = w'.files ∧
        (∀ f' ∈ f.earlier, FirstFit t s.maxAttempts (s.uses es w'.machine networks) a f') ∧
        NoFit t s.maxAttempts (s.uses es w'.machine networks) a f ∧
        s.acquire.outcome w = (.error (.exhausted ⟨f, attempts⟩), w₁) := by
  have hreserve := reserve_spec s t hledger
  rw [outcome_acquire s htemplate hlock]
  generalize (s.reserve t).outcome w' = outcome at hreserve
  cases hreserve with
  | unlisted herror _ =>
      rw [hnetworks] at herror
      cases herror
  | @exhausted networks' e w₁ hnetworks' hallocates hfiles =>
      rw [hnetworks] at hnetworks'
      obtain rfl := Except.ok.inj hnetworks'
      cases hallocates with
      | exhausted a hfit hnone =>
          exact .inr ⟨a, e.field, e.attempts, w₁.release g, hfiles, hfit, hnone, rfl⟩
  | @found networks' a w₁ hnetworks' hallocates hfiles =>
      rw [hnetworks] at hnetworks'
      obtain rfl := Except.ok.inj hnetworks'
      cases hallocates with
      | ok _ hfit =>
          refine .inl ⟨stampedIn w' a, w₁, hfiles, rfl, rfl,
            fun f => firstFit_stampedIn (hfit f) w', ?_⟩
          rw [outcome_stored]
          rcases (Ledger.store s.ledgerPath (es ++ [stampedIn w' a])).outcome w₁ with ⟨r, w₂⟩
          cases r with
          | ok u => rfl
          | error e => rfl

/-! ## A crowded host -/

/-- The entry that takes the first candidate of every field. -/
def firstOf (t : CheckedTemplate) : Asset where
  machineCidr := t.machineCidr
  machineCidr6 := t.machineCidr6
  provisioningCidr := t.provisioningCidr
  provisioningCidr6 := t.provisioningCidr6
  networkIf := Allocation.numbered t.networkIf.text 0
  secondaryNetworkIf := Allocation.numbered t.secondaryNetworkIf.text 0
  allocatedAt := none
  ownerPid := none

/-- A lease in the third candidates. -/
def thirdLease : Lease := ⟨"test2", ⟨.v4, ⟨0xC0A88107, by decide⟩, 16, by decide⟩⟩

/-- A session on a host with an interface in the second candidates, which asks a hypervisor with a
lease in the third ones. -/
def crowded : Session :=
  { plain "ledger" "l" 4 with
    hypervisor := .known [("net", some [thirdLease])]
    interfaces := [⟨"test1", [⟨.v4, ⟨0xC0A88005, by decide⟩⟩]⟩] }

/-- What is left are the fourth bridge and the fourth machine network. The range of the lease is not
in the way, only its address. -/
theorem crowded_chooses : ∃ t a, crowded.template.check = .ok t ∧
    chosen t 4 (crowded.occupied [firstOf t] [thirdLease]) = .ok a ∧ a.networkIf = "test3" ∧
      a.machineCidr.address.value = 0xC0A88200 := by
  have hfound : (crowded.template.check.toOption.bind fun t =>
      (chosen t 4 (crowded.occupied [firstOf t] [thirdLease])).toOption.map fun a =>
        (a.networkIf, a.machineCidr.address.value)) = some ("test3", 0xC0A88200) := by
    decide +kernel
  cases htemplate : crowded.template.check with
  | error fault =>
      rw [htemplate] at hfound
      cases hfound
  | ok t =>
      rw [htemplate] at hfound
      obtain ⟨a, hchosen, hvalues⟩ := Option.map_eq_some_iff.mp hfound
      refine ⟨t, a, rfl, ?_, congrArg Prod.fst hvalues, congrArg Prod.snd hvalues⟩
      cases houtcome : chosen t 4 (crowded.occupied [firstOf t] [thirdLease]) with
      | error e =>
          rw [houtcome] at hchosen
          cases hchosen
      | ok b =>
          rw [houtcome] at hchosen
          rw [Option.some.inj hchosen]

/-- The candidates before are taken by an entry of the ledger, by the interface and by the lease: the
acquisition passes them over. -/
theorem acquire_first_fit_crowded : ∃ t a s' w, crowded.template.check = .ok t ∧
    crowded.acquire.outcome (keeping [firstOf t]) = (.ok (a, s'), w) ∧
    (∀ f, FirstFit t 4 (crowded.uses [firstOf t] (keeping []).machine ["net"]) a f) ∧
    a.networkIf = "test3" ∧ a.machineCidr.address.value = 0xC0A88200 := by
  obtain ⟨t, a, htemplate, hchosen, hname, hvalue⟩ := crowded_chooses
  obtain ⟨g, w₁, hlock, hread, hrules⟩ : ∃ g w₁,
      (Lock.acquire "l" 0).outcome (keeping [firstOf t]) = (.ok g, w₁) ∧
        w₁.files.read "ledger" = .ok (Ledger.encode [firstOf t]) ∧
        w₁.files.refusal? = fun _ _ => none := ⟨_, _, rfl, rfl, rfl⟩
  have hledger : Ledger.entries w₁.files "ledger" = .ok [firstOf t] :=
    (Ledger.entries_of_content hread).trans (Ledger.decode_encode _)
  obtain ⟨w₂, hfiles, hreserve⟩ := reserve_of_chosen (s := crowded) hledger rfl hchosen
  rw [← hfiles] at hledger hrules
  obtain ⟨w₃, hstore⟩ : ∃ w₃,
      (Ledger.store "ledger" [firstOf t, stampedIn w₁ a]).outcome w₂ = (.ok (), w₃) :=
    Ledger.exists_store_of_entries hledger (fun hes => by cases hes)
      (by rw [FileSystem.Allows, hrules])
  have hacquired := outcome_acquire crowded htemplate hlock
  have hstored := outcome_stored "ledger" [firstOf t] (stampedIn w₁ a) w₂
  rw [List.singleton_append, hstore] at hstored
  rw [hreserve, show crowded.ledgerPath = "ledger" from rfl, hstored] at hacquired
  rw [hfiles] at hledger
  rcases acquire_first_fit crowded htemplate hlock hledger rfl with
    ⟨a', w₄, _, _, _, hfit, houtcome⟩ | ⟨_, _, _, _, _, _, _, hexhausted⟩
  · rcases hstore' : (Ledger.store crowded.ledgerPath ([firstOf t] ++ [a'])).outcome w₄ with
      ⟨_ | _, w₅⟩
    · rw [hstore'] at houtcome
      cases hacquired.symm.trans houtcome
    · rw [hstore'] at houtcome
      have hsame : some (stampedIn w₁ a) = some a' :=
        congrArg (·.1.toOption.map Prod.fst) (hacquired.symm.trans houtcome)
      obtain rfl := Option.some.inj hsame
      exact ⟨t, _, _, _, htemplate, hacquired, hfit, hname, hvalue⟩
  · cases hacquired.symm.trans hexhausted

/-- Where the path of the ledger names a directory that does not exist, the ledger loads as one
without entries, but nothing can be stored: there is a fit in every field, and the acquisition
fails. -/
theorem acquire_directory_path :
    (∃ t, (plain "out/" "l" 1).template.check = .ok t) ∧
      (∃ g w, (Lock.acquire "l" 0).outcome (quiet (.empty [])) = (.ok g, w) ∧
        Ledger.entries w.files "out/" = .ok [] ∧
        ((plain "out/" "l" 1).hypervisor.networks w.machine).result = .ok []) ∧
      ((plain "out/" "l" 1).acquire.outcome (quiet (.empty []))).1 = .error (.io .isDirectory) :=
  ⟨⟨_, rfl⟩, ⟨_, _, rfl, rfl, rfl⟩, rfl⟩

end Session

end NetPool
