import NetPool.Proofs.Ledger.RoundTrip
import NetPool.Proofs.Occupancy.Order
import NetPool.Proofs.Session.Acquire

/-! # Acquisitions and order

What an acquisition chooses does not depend on the order in which it finds the entries of the ledger,
the interfaces of the host, the networks of the hypervisor and their leases, nor on how often it finds
them. -/

namespace NetPool

namespace Action

/-- Both outcomes are the same failure, or they are values that are related. -/
inductive Agree {α β : Type} (R : α → β → Prop) : Except Error α → Except Error β → Prop
  | ok {a b} (h : R a b) : Agree R (.ok a) (.ok b)
  | error (e : Error) : Agree R (.error e) (.error e)

theorem Agree.bind {α β α' β' : Type} {R : α → β → Prop} {S : α' → β' → Prop}
    {x : Except Error α} {y : Except Error β} {f : α → Except Error α'} {g : β → Except Error β'}
    (h : Agree R x y) (hfg : ∀ a b, R a b → Agree S (f a) (g b)) : Agree S (x.bind f) (y.bind g) := by
  cases h with
  | ok h => exact hfg _ _ h
  | error e => exact .error e

end Action

open NetPool.Effect NetPool.Action FileSystem

/-! ## Storing -/

namespace Ledger

/-- Why nothing can be written at a path whose place is free: it names nothing, or only a directory
could be meant. -/
def noFile? (path : String) : Option IoError :=
  if path.isEmpty then some .notFound
  else
    match (Path.ofText path).ending with
    | .plain => none
    | .slash => some .isDirectory
    | .point => some .notFound

variable {path : String} {es : List Asset} {w : World}

/-- Why a content cannot be written into a place that is free or has a file: the path is not written as
that of a file, or it is refused. -/
def writeFault? (files : FileSystem) (path : String) (content : ByteArray) : Option IoError :=
  (noFile? path).or ((files.refusal? (files.placeOf path) (some content)).map Refusal.error)

/-- In an open slot, writing fails only for the way in which the path is written, or if it is
refused. -/
theorem write_of_slot {files : FileSystem} {dirs : List String} {name : String}
    {content? : Option ByteArray} (hslot : Slot files path dirs name content?)
    (hopen : Open files path dirs) (content : ByteArray) :
    match writeFault? files path content with
    | none => ∃ files', files.write path content = .ok files'
    | some fault => files.write path content = .error fault := by
  have hpath : ¬ path.isEmpty = true := by
    intro hempty
    have hfault := hslot.fault
    rw [String.isEmpty_iff.mp hempty] at hfault
    cases hfault
  -- A file fills the slot only of a path that ends as that of a file.
  have hvacant : (Path.ofText path).ending ≠ .plain → files.node? (files.placeOf path) = none := by
    intro hending
    cases content? with
    | none => exact hslot.vacant rfl
    | some old => exact absurd (hslot.filled old rfl).1 hending
  have hlocate := hslot.locate hopen
  rw [writeFault?, noFile?, if_neg hpath]
  cases hending : (Path.ofText path).ending with
  | plain =>
      cases hrefusal : files.refusal? (files.placeOf path) (some content) with
      | none =>
          obtain ⟨files', hwrite, _⟩ := hslot.exists_write hopen hending hrefusal
          exact ⟨files', hwrite⟩
      | some r => exact hslot.write_of_refused hopen hending hrefusal
  | slash =>
      simp [FileSystem.write, openOrCreate, hlocate, hending]
  | point =>
      simp [FileSystem.write, openOrCreate, hlocate, hending, hvacant (by simp [hending])]

/-- Whether entries can be stored in a ledger that lists what it holds depends only on how its path
is written and on what is refused. -/
theorem store_of_lists (h : Lists w.files path es) {new : List Asset} (hnew : new ≠ []) :
    ((store path new).outcome w).1 =
      match writeFault? w.files path (encode new) with
      | none => .ok ()
      | some fault => .error (.io fault) := by
  obtain ⟨e, new, rfl⟩ := List.exists_cons_of_ne_nil hnew
  cases lists_iff.mp h with
  | nowhere hpath _ =>
      subst hpath
      rfl
  | slot hslot _ _ =>
      obtain ⟨hmade, hspares, hopen⟩ := hslot.makeParents
      have hwrite := write_of_slot (hslot.spared hspares) hopen (encode (e :: new))
      rw [writeFault?, (sameRules_makeParents w.files path).refusal?_placeOf, ← writeFault?] at hwrite
      rw [store, outcome_bind, outcome_changingFiles, hmade]
      simp only [mapError_ok, outcome_onFiles, World.withFiles]
      cases hfault : writeFault? w.files path (encode (e :: new)) with
      | none =>
          rw [hfault] at hwrite
          obtain ⟨files', hwrite⟩ := hwrite
          rw [hwrite]
      | some fault =>
          rw [hfault] at hwrite
          rw [hwrite]

end Ledger

namespace Hypervisor

/-- Hypervisors with the same networks tell of the same leases if each network has the same leases in
both, in any order. -/
theorem agree_told {h h' : Hypervisor} {m m' : Machine} {ns ns' : List String}
    (hnetworks : (h.networks m).result = .ok ns) (hnetworks' : (h'.networks m').result = .ok ns')
    (hsame : ∀ n, n ∈ ns ↔ n ∈ ns')
    (hleases : ∀ n ∈ ns, ∀ l, l ∈ h.leasesOf m [n] ↔ l ∈ h'.leasesOf m' [n]) :
    Agree (fun ls ls' => ∀ l, l ∈ ls ↔ l ∈ ls') (h.told m) (h'.told m') := by
  rw [told, told, hnetworks, hnetworks']
  refine .ok fun l => ?_
  simp only [leasesOf, List.mem_flatMap, List.mem_singleton, exists_eq_left] at hleases ⊢
  constructor
  · rintro ⟨n, hn, hl⟩
    exact ⟨n, (hsame n).mp hn, (hleases n hn l).mp hl⟩
  · rintro ⟨n, hn, hl⟩
    have hn' := (hsame n).mpr hn
    exact ⟨n, hn', (hleases n hn' l).mpr hl⟩

end Hypervisor

namespace Session

variable {s s' : Session} {w w' : World}

/-- The world in which a session has its lock. -/
def locked (s : Session) (w : World) : Except Error World :=
  match (Lock.acquire s.lockPath s.lockTimeoutSecs).outcome w with
  | (.ok _, w') => .ok w'
  | (.error e, _) => .error e

/-- What two sessions find differs in order and repetition only, and so does what they may write. -/
structure Alike (s s' : Session) (w w' : World) : Prop where
  writes : ∀ content content', Ledger.writeFault? w.files s.ledgerPath content =
    Ledger.writeFault? w'.files s'.ledgerPath content'
  entries : ∃ es es', Ledger.Lists w.files s.ledgerPath es ∧ Ledger.Lists w'.files s'.ledgerPath es' ∧
    ∀ e, e ∈ es ↔ e ∈ es'
  interfaces : ∀ i, i ∈ s.interfaces ↔ i ∈ s'.interfaces
  leases : Agree (fun ls ls' => ∀ l, l ∈ ls ↔ l ∈ ls') (s.hypervisor.told w.machine)
    (s'.hypervisor.told w'.machine)

/-! ## What is in use -/

theorem occupied_eq {es es' : List Asset} {ls ls' : List Lease} (hes : ∀ e, e ∈ es ↔ e ∈ es')
    (his : ∀ i, i ∈ s.interfaces ↔ i ∈ s'.interfaces) (hls : ∀ l, l ∈ ls ↔ l ∈ ls') :
    s.occupied es ls = s'.occupied es' ls' :=
  (s.holds_occupied es ls).eq_of_alike (s'.holds_occupied es' ls')
    (((Uses.alike_ofAssets hes).append (Uses.alike_ofInterfaces his)).append (Uses.alike_ofLeases hls))

/-! ## The asset that is chosen -/

theorem stored_result {path : String} {es : List Asset} (h : Ledger.Lists w.files path es)
    (a : Asset) :
    ((stored path es a).outcome w).1 =
      match Ledger.writeFault? w.files path (Ledger.encode (es ++ [a])) with
      | none => .ok a
      | some fault => .error (.io fault) := by
  have hne : es ++ [a] ≠ [] := by simp
  have hstore := Ledger.store_of_lists h hne
  rw [outcome_stored]
  rcases houtcome : (Ledger.store path (es ++ [a])).outcome w with ⟨r, w'⟩
  rw [houtcome] at hstore
  obtain rfl : r = _ := hstore
  cases Ledger.writeFault? w.files path (Ledger.encode (es ++ [a])) with
  | none => rfl
  | some fault => rfl

/-- What a reservation comes to: the leases are told, something is chosen, and it can be stored. -/
theorem reserve_result (t : CheckedTemplate) {es : List Asset}
    (h : Ledger.Lists w.files s.ledgerPath es) :
    ((s.reserve t).outcome w).1 =
      (s.hypervisor.told w.machine).bind fun ls =>
        (chosen t s.maxAttempts (s.occupied es ls)).bind fun a =>
          match Ledger.writeFault? w.files s.ledgerPath
              (Ledger.encode (es ++ [stampedIn w a])) with
          | none => .ok (stampedIn w a)
          | some fault => .error (.io fault) := by
  obtain ⟨calls, hused⟩ := outcome_inUse s es w
  cases htold : s.hypervisor.told w.machine with
  | error e =>
      rw [htold] at hused
      rw [outcome_reserve t h.1, reserveFrom, outcome_bind_error hused]
      rfl
  | ok ls =>
      rw [htold] at hused
      simp only [Except.bind]
      cases hchosen : chosen t s.maxAttempts (s.occupied es ls) with
      | error e =>
          rw [outcome_reserve t h.1, reserveFrom, outcome_bind_ok hused, outcome_bind,
            outcome_observe, hchosen]
      | ok a =>
          -- Neither the survey nor the clock touches a file.
          obtain ⟨w', hfiles, hreserve⟩ := reserve_of_chosen h.1 htold hchosen
          rw [← hfiles] at h
          rw [hreserve, stored_result h, hfiles]

/-- Whether the session has its lock, and what it reserves then, is what an acquisition comes to. -/
theorem acquire_result {t : CheckedTemplate} (htemplate : s.template.check = .ok t) :
    (s.acquire.outcome w).1.map (·.1) =
      (s.locked w).bind fun w₁ => ((s.reserve t).outcome w₁).1 := by
  rw [acquire_eq, outcome_bind, outcome_observe, htemplate, locked]
  simp only [mapError_ok, outcome_bind, underLock, Lock.outcome_holding]
  rcases (Lock.acquire s.lockPath s.lockTimeoutSecs).outcome w with ⟨r, w₁⟩
  cases r with
  | error e => rfl
  | ok g =>
      simp only [Except.bind]
      rcases (s.reserve t).outcome w₁ with ⟨r, w₂⟩
      cases r with
      | error e => rfl
      | ok a => rfl

theorem reserve_agree (t : CheckedTemplate) (hattempts : s.maxAttempts = s'.maxAttempts)
    (h : Alike s s' w w') :
    Agree (fun a a' : Asset => ∀ f, a.value f = a'.value f) ((s.reserve t).outcome w).1
      ((s'.reserve t).outcome w').1 := by
  obtain ⟨es, es', hlists, hlists', hes⟩ := h.entries
  rw [reserve_result t hlists, reserve_result t hlists']
  refine h.leases.bind fun ls ls' hls => ?_
  rw [occupied_eq hes h.interfaces hls, hattempts]
  cases chosen t s'.maxAttempts (s'.occupied es' ls') with
  | error e => exact .error e
  | ok a =>
      simp only [Except.bind, h.writes _ (Ledger.encode (es' ++ [stampedIn w' a]))]
      cases Ledger.writeFault? w'.files s'.ledgerPath (Ledger.encode (es' ++ [stampedIn w' a])) with
      | some fault => exact .error _
      | none => exact .ok fun f => by cases f <;> rfl

/-! ## Order and repetition -/

/-- Whatever was inserted, an occupancy is determined by the ranges without their host bits, the
addresses and the names, which it lists in order and once each, and so is what an allocation chooses
and records. Two sessions with the same template and the same number of attempts that both get their
locks, or fail to for one reason, and then find the same entries, interfaces and leases in any order
and any number of times acquire assets with the same six values or fail for one reason. The ledgers must
list the entries, also once the missing directories above them are made, and both can be written,
whatever the content, or neither can for one reason. -/
theorem choice_ignores_order :
    (∀ h h' : History, h.uses.Alike h'.uses →
      h.occupancy = h'.occupancy ∧ h.occupancy.Listed h.uses ∧ h'.occupancy.Listed h'.uses ∧
        ∀ t maxAttempts, (Allocation.allocate t maxAttempts).outcome h.occupancy =
          (Allocation.allocate t maxAttempts).outcome h'.occupancy) ∧
      ∀ (s s' : Session) (w w' : World), s.template = s'.template → s.maxAttempts = s'.maxAttempts →
        Agree (Alike s s') (s.locked w) (s'.locked w') →
        Agree (fun a a' : Asset => ∀ f, a.value f = a'.value f)
          ((s.acquire.outcome w).1.map (·.1)) ((s'.acquire.outcome w').1.map (·.1)) := by
  refine ⟨fun h h' halike => ?_, fun s s' w w' htemplate hattempts hlocked => ?_⟩
  · have hsame := h.holds.eq_of_alike h'.holds halike
    exact ⟨hsame, h.holds.listed, h'.holds.listed, fun t maxAttempts => by rw [hsame]⟩
  · cases hcheck : s.template.check with
    | error fault =>
        rw [outcome_acquire_of_fault hcheck, outcome_acquire_of_fault (htemplate ▸ hcheck)]
        exact .error _
    | ok t =>
        rw [acquire_result hcheck, acquire_result (htemplate ▸ hcheck)]
        exact hlocked.bind fun w₁ w₁' halike => reserve_agree t hattempts halike

/-- A session that asks a hypervisor of known networks. -/
def asking (ns : Hypervisor.KnownNetworks) : Session :=
  { plain "ledger" "l" 4 with hypervisor := .known ns }

theorem locked_keeping (ns : Hypervisor.KnownNetworks) (es : List Asset) :
    ∃ w₁, (asking ns).locked (keeping es) = .ok w₁ ∧ Ledger.Lists w₁.files "ledger" es ∧
      ∀ content, Ledger.writeFault? w₁.files "ledger" content = none := by
  obtain ⟨g, w₁, hlock, hread, hallowed⟩ : ∃ g w₁,
      (Lock.acquire "l" 0).outcome (keeping es) = (.ok g, w₁) ∧
      w₁.files.read "ledger" = .ok (Ledger.encode es) ∧
      ∀ content, Ledger.writeFault? w₁.files "ledger" content = none := ⟨_, _, rfl, rfl, fun _ => rfl⟩
  have hlocked : (asking ns).locked (keeping es) = .ok w₁ := by
    rw [locked, asking, plain, hlock]
  have hdecode := Ledger.decode_encode es
  exact ⟨w₁, hlocked, ⟨(Ledger.entries_of_content hread).trans hdecode,
    .inr ((Ledger.entries_of_content (read_makeParents hread).2).trans hdecode)⟩, hallowed⟩

/-- Two ways of recording a range and a name, with other host bits in one of them, and two ways of
listing two entries and the leases of two networks. -/
theorem choice_ignores_order_twice :
    (∃ r r' : AnySubnet, r ≠ r' ∧ ((History.start.network r).name "b").occupancy =
        ((History.start.name "b").extend ((History.start.network r').network r)).occupancy) ∧
      ∃ (e e' : Asset) (l l' : Lease), e ≠ e' ∧ l ≠ l' ∧
        Agree (fun a a' : Asset => ∀ f, a.value f = a'.value f)
          (((asking [("a", some [l]), ("b", some [l'])]).acquire.outcome (keeping [e, e'])).1.map
            (·.1))
          (((asking [("b", some [l', l']), ("a", some [l])]).acquire.outcome
            (keeping [e', e, e'])).1.map (·.1)) := by
  obtain ⟨hhistories, hsessions⟩ := choice_ignores_order
  obtain ⟨r, r', hne, hr⟩ : ∃ r r' : AnySubnet, r ≠ r' ∧ r.masked = r'.masked :=
    ⟨.of Ledger.intricate.machineCidr, .of Ledger.intricate.machineCidr.masked, by decide, by decide⟩
  obtain ⟨e, e', he⟩ : ∃ e e' : Asset, e ≠ e' :=
    ⟨Ledger.intricate, { Ledger.intricate with ownerPid := none }, by decide⟩
  obtain ⟨l, l', hl⟩ : ∃ l l' : Lease, l ≠ l' := ⟨⟨"a", r⟩, ⟨"b", r⟩, by simp⟩
  refine ⟨⟨r, r', hne, (hhistories _ _ ⟨fun s => ?_, fun a => ?_, fun n => ?_⟩).1⟩, e, e', l, l', he, hl,
    hsessions _ _ _ _ rfl rfl ?_⟩
  · simp [History.uses, Uses.append, Uses.ofRanges, Uses.ofNames, Uses.nothing, hr]
  · simp [History.uses, Uses.append, Uses.ofRanges, Uses.ofNames, Uses.nothing]
  · simp [History.uses, Uses.append, Uses.ofRanges, Uses.ofNames, Uses.nothing]
  · obtain ⟨w₁, hlocked, hlists, hallowed⟩ :=
      locked_keeping [("a", some [l]), ("b", some [l'])] [e, e']
    obtain ⟨w₂, hlocked', hlists', hallowed'⟩ :=
      locked_keeping [("b", some [l', l']), ("a", some [l])] [e', e, e']
    rw [hlocked, hlocked']
    refine .ok ⟨fun content content' => (hallowed content).trans (hallowed' content').symm,
      ⟨_, _, hlists, hlists', fun e => ?_⟩, fun i => Iff.rfl,
      Hypervisor.agree_told rfl rfl (fun n => ?_) fun n hn k => ?_⟩
    · simp [or_comm, or_left_comm]
    · simp [or_comm]
    · obtain rfl | rfl : n = "a" ∨ n = "b" := by simpa using hn
      · simp [asking, Hypervisor.leasesOf, Hypervisor.known, Answer.ofResult, List.lookup_cons]
      · simp [asking, Hypervisor.leasesOf, Hypervisor.known, Answer.ofResult, List.lookup_cons]

/-- Beyond a missing directory, a directory and nothing at all both load as a ledger without entries.
Only in place of the latter an asset can be acquired. -/
theorem hidden_directory_is_found :
    ∃ w w' : World,
      (∃ g w₁, (Lock.acquire "l" 0).outcome w = (.ok g, w₁) ∧
        Ledger.entries w₁.files "x/../h" = .ok []) ∧
      (∃ g w₁, (Lock.acquire "l" 0).outcome w' = (.ok g, w₁) ∧
        Ledger.entries w₁.files "x/../h" = .ok []) ∧
      ((plain "x/../h" "l" 1).acquire.outcome w).1 = .error (.io .isDirectory) ∧
      ∃ a s w₁, (plain "x/../h" "l" 1).acquire.outcome w' = (.ok (a, s), w₁) :=
  ⟨quiet ((FileSystem.empty []).set ["h"] (some .directory)), quiet (.empty []),
    ⟨_, _, rfl, rfl⟩, ⟨_, _, rfl, rfl⟩, rfl, _, _, _, rfl⟩

end Session

end NetPool
