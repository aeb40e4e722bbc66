import NetPool.Proofs.Ledger.RoundTrip
import NetPool.Proofs.Lock.Usable
import NetPool.Proofs.Session.Steps

/-! # Scoped use

The assets that are acquired for a use are given back however that ends, along with all that was
pending before. -/

namespace NetPool.Session

open NetPool.Effect NetPool.Action FileSystem Ledger

variable {s : Session} {es : List Asset} {w w' : World}

/-! ## The lock of a session -/

theorem leavesAlone_store (path lockPath : String) (es : List Asset) :
    Leads (Lock.LeavesAlone path lockPath) (Ledger.store path es) := by
  cases es with
  | nil => exact Lock.leavesAlone_onFiles fun hremove hapart => hapart.removeIfPresent hremove
  | cons e es =>
      exact (Lock.composes_leavesAlone path lockPath).bind Lock.leavesAlone_makeParents fun _ =>
        Lock.leavesAlone_onFiles fun hwrite hapart => hapart.write hwrite

theorem leavesAlone_reserve (s : Session) (t : CheckedTemplate) :
    Leads (Lock.LeavesAlone s.ledgerPath s.lockPath) (s.reserve t) := by
  have hR := Lock.composes_leavesAlone s.ledgerPath s.lockPath
  have hasks : ∀ entries, Leads (Lock.LeavesAlone s.ledgerPath s.lockPath) (s.inUse entries) := by
    intro entries
    exact hR.bind (fun w => .of_files rfl rfl rfl) fun _ => hR.pure _
  have hstamps : ∀ a, Leads (Lock.LeavesAlone s.ledgerPath s.lockPath) (stamped a) :=
    fun a w => .of_files rfl rfl rfl
  refine hR.bind (hR.observe _) fun entries => hR.bind (hasks entries) fun used =>
    hR.bind (hR.observe _) fun free => hR.bind (hstamps free) fun asset => ?_
  exact hR.bind (leavesAlone_store _ _ _) fun _ => hR.pure asset

/-- The session is in order: its lock can be taken and is apart from its ledger, which loads to the
entries, also once the directories above it are made. -/
structure InOrder (s : Session) (es : List Asset) (w : World) : Prop where
  apart : Apart w.files s.lockPath s.ledgerPath
  lists : Lists w.files s.ledgerPath es
  usable : Lock.Usable s.lockPath s.lockTimeoutSecs w

theorem InOrder.shown (h : s.InOrder es w) :
    At (fun content? es => decodeSlot content? = .ok es) w.files.workDir s.ledgerPath es w.files :=
  ⟨rfl, lists_iff.mp h.lists⟩

theorem usable_acquire (h : s.InOrder es w) :
    Lock.Usable s.lockPath s.lockTimeoutSecs (s.acquire.outcome w).2 := by
  rw [acquire_eq, outcome_bind, outcome_observe]
  cases s.template.check with
  | error e => exact h.usable
  | ok t =>
      have hlock := h.usable.holding h.apart (leavesAlone_reserve s t)
      simp only [mapError_ok, outcome_bind]
      rcases houtcome : (s.underLock (s.reserve t)).outcome w with ⟨r, w'⟩
      rw [underLock] at houtcome
      rw [houtcome] at hlock
      cases r with
      | error e => exact hlock
      | ok a => exact hlock

theorem owing_nil (s : Session) : s.owing [] = s := by
  rw [owing, List.append_nil]

theorem owing_owing (s : Session) (assets more : List Asset) :
    (s.owing assets).owing more = s.owing (assets ++ more) := by
  simp only [owing, List.append_assoc]

/-- What is acquired is appended to the ledger and to what is pending. -/
theorem acquire_inOrder (h : s.InOrder es w) :
    match s.acquire.outcome w with
    | (.ok (a, s'), w') => s' = s.owing [a] ∧ (s.owing [a]).InOrder (es ++ [a]) w' ∧ a ∉ es
    | (.error _, w') => s.InOrder es w' := by
  have hacquire := acquire_at represents_decodeSlot h.apart h.shown
  have husable := usable_acquire h
  rcases houtcome : s.acquire.outcome w with ⟨r, w'⟩
  rw [houtcome] at hacquire husable
  cases r with
  | error e => exact ⟨h.apart.of_workDir hacquire.workDir, lists_iff.mpr hacquire.shows, husable⟩
  | ok result =>
      obtain ⟨a, s'⟩ := result
      obtain ⟨rfl, hat, _, hseparate⟩ := hacquire
      exact ⟨rfl, ⟨h.apart.of_workDir hat.workDir, lists_iff.mpr hat.shows, husable⟩,
        fun ha => (hseparate a ha).ne rfl⟩

/-! ## Several acquisitions -/

/-- Acquisitions one after the other, all of which succeed. -/
inductive Acquisitions : Session → World → List Asset → Session → World → Prop
  | nil (s : Session) (w : World) : Acquisitions s w [] s w
  | cons {s s₁ s₂ : Session} {w w₁ w₂ : World} {a : Asset} {assets : List Asset}
      (hfirst : s.acquire.outcome w = (.ok (a, s₁), w₁))
      (hrest : Acquisitions s₁ w₁ assets s₂ w₂) : Acquisitions s w (a :: assets) s₂ w₂

/-- The assets were acquired one after the other. None of them is among the entries before. -/
structure Gains (s : Session) (es : List Asset) (w : World) (assets : List Asset) (w₁ : World) :
    Prop where
  acquired : Acquisitions s w assets (s.owing assets) w₁
  new : ∀ a ∈ assets, a ∉ es
  inOrder : (s.owing assets).InOrder (es ++ assets) w₁
  rules : SameRules w.files w₁.files

/-- How several acquisitions end: after the last one, or with the failure of the next one. -/
inductive AcquiresMany (s : Session) (es : List Asset) (w : World) (count : Nat) :
    Progress × World → Prop
  | complete {assets w₁} (hgains : Gains s es w assets w₁) (hcount : assets.length = count) :
      AcquiresMany s es w count (⟨s.owing assets, assets, none⟩, w₁)
  | stopped {assets w₁ e w₂} (hgains : Gains s es w assets w₁) (hcount : assets.length < count)
      (hfails : (s.owing assets).acquire.outcome w₁ = (.error e, w₂))
      (hinOrder : (s.owing assets).InOrder (es ++ assets) w₂) :
      AcquiresMany s es w count (⟨s.owing assets, assets, some e⟩, w₂)

theorem gains_nil (h : s.InOrder es w) : Gains s es w [] w := by
  refine ⟨?_, fun a ha => absurd ha List.not_mem_nil, ?_, .refl w.files⟩
  · rw [owing_nil]
    exact .nil s w
  · rw [owing_nil, List.append_nil]
    exact h

theorem sameRules_of_acquire {r : Except Error (Asset × Session)} {w₁ : World}
    (h : s.acquire.outcome w = (r, w₁)) : SameRules w.files w₁.files := by
  have hrules := keepsRules_acquire s w
  rwa [h] at hrules

theorem Gains.cons {a : Asset} {assets : List Asset} {w₁ w₂ : World}
    (hfirst : s.acquire.outcome w = (.ok (a, s.owing [a]), w₁)) (hnew : a ∉ es)
    (h : Gains (s.owing [a]) (es ++ [a]) w₁ assets w₂) : Gains s es w (a :: assets) w₂ := by
  obtain ⟨hacquired, hothers, hinOrder, hrules⟩ := h
  rw [owing_owing, List.singleton_append] at hacquired hinOrder
  rw [List.append_assoc, List.singleton_append] at hinOrder
  refine ⟨.cons hfirst hacquired, fun b hb hmem => ?_, hinOrder,
    (sameRules_of_acquire hfirst).trans hrules⟩
  rcases List.mem_cons.mp hb with rfl | hb
  · exact hnew hmem
  · exact hothers b hb (List.mem_append_left _ hmem)

theorem acquireMany_of_error {e : Error} (h : s.acquire.outcome w = (.error e, w'))
    (count : Nat) : s.acquireMany (count + 1) w = (⟨s, [], some e⟩, w') := by
  rw [acquireMany_succ, h]

theorem acquireMany_acquires (h : s.InOrder es w) (count : Nat) :
    AcquiresMany s es w count (s.acquireMany count w) := by
  -- The next acquisition starts from a session and a ledger with one entry more.
  induction count generalizing s es w with
  | zero =>
      have hnone := AcquiresMany.complete (gains_nil h) List.length_nil
      rw [owing_nil] at hnone
      exact hnone
  | succ count ih =>
      have hfirst := acquire_inOrder h
      rcases houtcome : s.acquire.outcome w with ⟨r, w₁⟩
      rw [houtcome] at hfirst
      cases r with
      | error e =>
          rw [acquireMany_of_error houtcome]
          have hstopped := AcquiresMany.stopped (gains_nil h) (Nat.succ_pos count)
            (by rw [owing_nil]; exact houtcome) (by rw [owing_nil, List.append_nil]; exact hfirst)
          rw [owing_nil] at hstopped
          exact hstopped
      | ok result =>
          obtain ⟨a, s₁⟩ := result
          obtain ⟨rfl, hinOrder, hnew⟩ := hfirst
          have hrest := ih hinOrder
          rcases hmany : (s.owing [a]).acquireMany count w₁ with ⟨p, w₂⟩
          rw [hmany] at hrest
          rw [acquireMany_succ, houtcome]
          simp only [hmany]
          cases hrest with
          | complete hgains hcount =>
              have hgains' := hgains.cons houtcome hnew
              rw [owing_owing, List.singleton_append]
              exact .complete hgains' (congrArg Nat.succ hcount)
          | stopped hgains hcount hfails hinOrder =>
              have hgains' := hgains.cons houtcome hnew
              rw [owing_owing, List.singleton_append] at hfails hinOrder ⊢
              rw [List.append_assoc, List.singleton_append] at hinOrder
              exact .stopped hgains' (Nat.succ_lt_succ hcount) hfails hinOrder

/-! ## Giving back at the end -/

/-- A session in order gives back all that is pending, unless storing the rest is refused. -/
theorem settle_of_inOrder (h : s.InOrder es w)
    (hallowed : w.files.Allows s.ledgerPath (image? (s.others es))) :
    ∃ n w', s.settle w = (.ok n, { s with pending := [] }, w') ∧
      Lists w'.files s.ledgerPath (s.others es) := by
  have hback := releaseAll_at represents_decodeSlot h.apart h.shown
  have hreleased : ∃ n w', s.releaseAll.outcome w = (.ok (n, { s with pending := [] }), w') := by
    by_cases hpending : s.pending = []
    · refine ⟨0, w, ?_⟩
      rw [releaseAll_eq, if_pos (by simp [hpending]), outcome_pure, ← hpending]
    · obtain ⟨g, w₁, hlock⟩ := h.usable
      have hspares := @Lock.leads_acquire s.lockPath s.ledgerPath s.lockTimeoutSecs w h.apart
      have hrules := (holdsOfSteps_keepsRules s.lockPath).acquire s.lockTimeoutSecs w
      rw [hlock] at hspares hrules
      have hledger := (h.shown.spared hspares).shows.entries represents_decodeSlot
      have hothers : es = [] → s.others es = [] := fun hes => by rw [hes]; rfl
      obtain ⟨w₂, hstore⟩ :=
        exists_store_of_entries hledger hothers (SameRules.allows hrules hallowed)
      have hrelease := outcome_releaseAll hpending hlock hledger
      rw [hstore] at hrelease
      exact ⟨_, _, hrelease⟩
  obtain ⟨n, w', hrelease⟩ := hreleased
  rw [hrelease] at hback
  refine ⟨n, w', ?_, lists_iff.mpr hback.2.1.shows⟩
  rw [settle_eq, hrelease]

theorem settle_of_error {e : Error} (h : s.releaseAll.outcome w = (.error e, w')) :
    s.settle w = (.error e, s, w') := by
  rw [settle_eq, h]

/-! ## The use -/

section Use

variable {α : Type} {count : Nat} {assets : List Asset} {s₁ s₂ : Session} {w₁ w₂ w₃ : World}
  {released : Except Error Nat}

theorem borrow_of_canHold (hmemory : w.canHold count = true) (body : List Asset → Action α) :
    s.borrow count body w = s.useAndReturn count body w := by
  rw [borrow, if_pos hmemory]

theorem useAndReturn_of_stopped {e : Error}
    (hmany : s.acquireMany count w = (⟨s₁, assets, some e⟩, w₁))
    (hsettle : s₁.settle w₁ = (released, s₂, w₂)) (body : List Asset → Action α) :
    s.useAndReturn count body w = ⟨.error e, s₂, w₂⟩ := by
  rw [useAndReturn, hmany]
  simp only [hsettle]

theorem useAndReturn_of_complete {body : List Asset → Action α} {r : Except Error α}
    (hmany : s.acquireMany count w = (⟨s₁, assets, none⟩, w₁))
    (hbody : (body assets).outcome w₁ = (r, w₂))
    (hsettle : s₁.settle w₂ = (released, s₂, w₃)) :
    s.useAndReturn count body w =
      match r, released with
      | .ok a, .ok _ => ⟨.ok a, s₂, w₃⟩
      | .ok _, .error e => ⟨.error e, s₂, w₃⟩
      | .error e, _ => ⟨.error e, s₂, w₃⟩ := by
  rw [useAndReturn, hmany]
  simp only [hbody, hsettle]
  cases r with
  | error e => rfl
  | ok a =>
      cases released with
      | ok n => rfl
      | error e => rfl

/-- A use of more assets than memory can hold the list of does not begin, and nothing is touched. Any
other use of a session in order acquires one asset after the other, up to `count`. If one cannot be
acquired, the use does not take place and fails for that reason. Otherwise it gets all of them and ends
as the body does. Either way nothing is pending then, and the ledger lists what it listed before,
without what was pending before, unless storing just that is refused. Only if the body keeps the assets
from being given back, everything stays pending, and the failure of the body counts more than that of
giving back. -/
theorem borrow_gives_back (s : Session) {es : List Asset} {w : World} (h : s.InOrder es w)
    (hallowed : w.files.Allows s.ledgerPath (image? (s.others es))) (count : Nat) :
    (w.canHold count = false → ∀ body : List Asset → Action α,
      s.borrow count body w = ⟨.error (.outOfRange .count), s, w⟩) ∧
    (w.canHold count = true →
      ∃ assets w₁, Acquisitions s w assets (s.owing assets) w₁ ∧
        (s.owing assets).InOrder (es ++ assets) w₁ ∧
        ((assets.length < count ∧ ∃ e w₂ w₃,
            (s.owing assets).acquire.outcome w₁ = (.error e, w₂) ∧
            Lists w₃.files s.ledgerPath (s.others es) ∧
            ∀ body : List Asset → Action α,
              s.borrow count body w = ⟨.error e, { s with pending := [] }, w₃⟩) ∨
          (assets.length = count ∧ ∀ (body : List Asset → Action α) r w₂,
            (body assets).outcome w₁ = (r, w₂) →
              ((s.owing assets).InOrder (es ++ assets) w₂ →
                  w₂.files.Allows s.ledgerPath (image? (s.others es)) →
                ∃ w₃, s.borrow count body w = ⟨r, { s with pending := [] }, w₃⟩ ∧
                  Lists w₃.files s.ledgerPath (s.others es)) ∧
                ∀ e w₃, (s.owing assets).releaseAll.outcome w₂ = (.error e, w₃) →
                  s.borrow count body w =
                    ⟨match r with
                      | .ok _ => .error e
                      | .error e' => .error e', s.owing assets, w₃⟩))) := by
  refine ⟨fun hmemory body => by rw [borrow, hmemory]; rfl, fun hmemory => ?_⟩
  simp only [borrow_of_canHold hmemory]
  have hmany := acquireMany_acquires h count
  generalize hprogress : s.acquireMany count w = progress at hmany
  cases hmany with
  | @stopped assets w₁ e w₂ hgains hcount hfails hinOrder =>
      -- What is given back is stored under the rules from before the acquisitions.
      have hrules := hgains.rules.trans (sameRules_of_acquire hfails)
      have hsettles := settle_of_inOrder hinOrder
      rw [others_owing hgains.new] at hsettles
      obtain ⟨n, w₃, hsettle, hlists⟩ := hsettles (hrules.allows hallowed)
      exact ⟨assets, w₁, hgains.acquired, hgains.inOrder, .inl ⟨hcount, e, w₂, w₃, hfails, hlists,
        useAndReturn_of_stopped hprogress hsettle⟩⟩
  | @complete assets w₁ hgains hcount =>
      refine ⟨assets, w₁, hgains.acquired, hgains.inOrder, .inr ⟨hcount, ?_⟩⟩
      intro body r w₂ hbody
      constructor
      · intro hinOrder hallowed'
        have hsettles := settle_of_inOrder hinOrder
        rw [others_owing hgains.new] at hsettles
        obtain ⟨n, w₃, hsettle, hlists⟩ := hsettles hallowed'
        refine ⟨w₃, ?_, hlists⟩
        rw [useAndReturn_of_complete hprogress hbody hsettle]
        cases r with
        | ok a => rfl
        | error e => rfl
      · intro e w₃ hrelease
        rw [useAndReturn_of_complete hprogress hbody (settle_of_error hrelease)]
        cases r with
        | ok a => rfl
        | error e' => rfl

/-- A session with one of two entries pending. -/
def lodging : Session := { plain "ledger" "l" 1 with pending := [lodger] }

/-- Such a session acquires an asset. If the ledger is overwritten then, it cannot give it back. -/
theorem lodging_acquires : ∃ a w₁ w₂ w₃,
    lodging.acquire.outcome (keeping [guest, lodger]) = (.ok (a, lodging.owing [a]), w₁) ∧
      w₁.files.refusal? = (fun _ _ => none) ∧
      (onFiles (·.write "ledger" ⟨#[0xff]⟩)).outcome w₁ = (.ok (), w₂) ∧
      (lodging.owing [a]).releaseAll.outcome w₂ = (.error (.io .invalidUtf8), w₃) := by
  obtain ⟨t, g, w₁, a, w₂, w₃, w₄, htemplate, hlock, hread, hreserve, hrules, hwrite, hrelease⟩ :
      ∃ t g w₁ a w₂ w₃ w₄, lodging.template.check = .ok t ∧
        (Lock.acquire "l" 0).outcome (keeping [guest, lodger]) = (.ok g, w₁) ∧
        w₁.files.read "ledger" = .ok (encode [guest, lodger]) ∧
        (lodging.reserveFrom t [guest, lodger]).outcome w₁ = (.ok a, w₂) ∧
        (w₂.release g).files.refusal? = (fun _ _ => none) ∧
        (onFiles (·.write "ledger" ⟨#[0xff]⟩)).outcome (w₂.release g) = (.ok (), w₃) ∧
        (lodging.owing [a]).releaseAll.outcome w₃ = (.error (.io .invalidUtf8), w₄) :=
    ⟨_, _, _, _, _, _, _, rfl, rfl, rfl, rfl, rfl, rfl, rfl⟩
  have hledger : entries w₁.files lodging.ledgerPath = .ok [guest, lodger] :=
    (entries_of_content hread).trans (decode_encode _)
  have hacquire := outcome_acquire lodging htemplate hlock
  rw [outcome_reserve t hledger, hreserve] at hacquire
  exact ⟨a, _, w₃, w₄, hacquire, hrules, hwrite, hrelease⟩

/-- With the asset that is acquired, the entry that was pending before is given back, and the other one
stays, unless what is written meanwhile keeps the ledger from being loaded. Too many assets are not even
asked for. -/
theorem borrow_gives_back_lodging :
    (∃ w, lodging.borrow 1 (fun _ => pure ()) (keeping [guest, lodger]) =
        ⟨.ok (), plain "ledger" "l" 1, w⟩ ∧ Lists w.files "ledger" [guest]) ∧
      (∃ a w, lodging.borrow 1 (fun _ => onFiles (·.write "ledger" ⟨#[0xff]⟩))
          (keeping [guest, lodger]) = ⟨.error (.io .invalidUtf8), lodging.owing [a], w⟩) ∧
      lodging.borrow 0x1000000000 (fun _ => pure ()) (keeping [guest, lodger]) =
        ⟨.error (.outOfRange .count), lodging, keeping [guest, lodger]⟩ := by
  have hread : (keeping [guest, lodger]).files.read "ledger" = .ok (encode [guest, lodger]) := rfl
  have hentries : entries (keeping [guest, lodger]).files "ledger" = .ok [guest, lodger] :=
    (entries_of_content hread).trans (decode_encode _)
  have hothers : lodging.others [guest, lodger] = [guest] := rfl
  have hinOrder : lodging.InOrder [guest, lodger] (keeping [guest, lodger]) :=
    ⟨apart_plain rfl,
      ⟨hentries, .inr ((entries_of_content (read_makeParents hread).2).trans (decode_encode _))⟩,
      _, _, rfl⟩
  have hborrow := @borrow_gives_back Unit lodging [guest, lodger] (keeping [guest, lodger]) hinOrder rfl
  rw [hothers] at hborrow
  obtain ⟨a, w₁, w₂, w₃, hfirst, hrules, hwrite, hrelease⟩ := lodging_acquires
  obtain ⟨assets, w₁', hacquired, hinOrder', hend⟩ := (hborrow 1).2 rfl
  cases hacquired with
  | nil =>
      rcases hend with ⟨_, e, _, _, hfails, _⟩ | ⟨hcount, _⟩
      · rw [owing_nil, hfirst] at hfails
        cases hfails
      · cases hcount
  | @cons _ _ _ _ _ _ _ assets hfirst' hrest =>
      rcases hend with ⟨hcount, _⟩ | ⟨hcount, hbody⟩
      · exact absurd hcount (by simp)
      · obtain rfl : assets = [] := by simpa using hcount
        rw [hfirst] at hfirst'
        cases hfirst'
        cases hrest
        obtain ⟨_, hunreadable⟩ := hbody (fun _ => onFiles (·.write "ledger" ⟨#[0xff]⟩)) _ w₂ hwrite
        have hallowed : w₁.files.Allows "ledger" (image? [guest]) := by rw [Allows, hrules]
        exact ⟨(hbody _ _ w₁ rfl).1 hinOrder' hallowed, ⟨a, w₃, hunreadable _ w₃ hrelease⟩,
          (hborrow 0x1000000000).1 rfl _⟩

/-- A world with a file of one entry and nothing else. -/
def listed : World :=
  quiet ((FileSystem.empty []).set ["h"] (some (.file 0 (encode [intricate]))))

/-- Beyond a missing directory, that file cannot be read, and the ledger loads as one without entries.
Once the directory is made for the lock, the entry is found. -/
theorem borrow_finds_entry :
    entries listed.files "x/../h" = .ok [] ∧ Ledger.Disjoint [] ∧
      Apart listed.files "x/lock" "x/../h" ∧ Lock.Usable "x/lock" 0 listed ∧
      (plain "x/../h" "x/lock" 0).others [] = [] ∧
      ∃ w, (plain "x/../h" "x/lock" 0).borrow 1 (fun _ => pure ()) listed =
          ⟨.error (.exhausted ⟨.machineCidr, 0⟩), plain "x/../h" "x/lock" 0, w⟩ ∧
        entries w.files "x/../h" = .ok [intricate] := by
  obtain ⟨t, htemplate⟩ : ∃ t, (plain "x/../h" "x/lock" 0).template.check = .ok t := ⟨_, rfl⟩
  obtain ⟨g, w₁, hlock, hread⟩ : ∃ g w₁, (Lock.acquire "x/lock" 0).outcome listed = (.ok g, w₁) ∧
      w₁.files.read "x/../h" = .ok (encode [intricate]) := ⟨_, _, rfl, rfl⟩
  have hentries : entries w₁.files "x/../h" = .ok [intricate] := by
    rw [entries, hread]
    exact decode_encode [intricate]
  obtain ⟨w₂, hreserve, hfiles⟩ : ∃ w₂, ((plain "x/../h" "x/lock" 0).reserve t).outcome w₁ =
      (.error (.exhausted ⟨.machineCidr, 0⟩), w₂) ∧ w₂.files = w₁.files := by
    rw [outcome_reserve t hentries]
    exact ⟨_, rfl, rfl⟩
  have hacquire := outcome_acquire (plain "x/../h" "x/lock" 0) htemplate hlock
  rw [hreserve] at hacquire
  refine ⟨rfl, disjoint_nil, ⟨by decide, by decide, by decide⟩, ⟨g, w₁, hlock⟩, rfl, w₂.release g,
    ?_, ?_⟩
  · rw [borrow_of_canHold rfl]
    exact useAndReturn_of_stopped (acquireMany_of_error hacquire 0) rfl _
  · rw [World.release, hfiles, hentries]

end Use

end NetPool.Session
