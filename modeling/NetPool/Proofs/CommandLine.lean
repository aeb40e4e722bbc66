import NetPool.CommandLine
import NetPool.Proofs.Session.Borrow

/-! # Acquiring from the command line

Each of several assets is acquired on its own, and they are printed together at the end. If one of
them cannot be acquired, nothing is printed, and those before it stay in the ledger. -/

namespace NetPool

open NetPool.Effect NetPool.Action FileSystem Ledger

namespace Session

variable {R : Option ByteArray → List Asset → Prop} (hR : Represents R) {dir : List String}

/-- How several acquisitions end, whether the lock can be taken or not: all of them succeed, or one
of them fails and those before it stay in the ledger. -/
inductive Leaves (R : Option ByteArray → List Asset → Prop) (dir : List String) (s : Session)
    (es : List Asset) (w : World) (count : Nat) : Progress × World → Prop
  | complete {assets : List Asset} {w₁ : World}
      (hacquired : Acquisitions s w assets (s.owing assets) w₁) (hcount : assets.length = count)
      (hledger : At R dir s.ledgerPath (es ++ assets) w₁.files) :
      Leaves R dir s es w count (⟨s.owing assets, assets, none⟩, w₁)
  | stopped {assets : List Asset} {w₁ w₂ : World} {e : Error}
      (hacquired : Acquisitions s w assets (s.owing assets) w₁) (hcount : assets.length < count)
      (hfails : (s.owing assets).acquire.outcome w₁ = (.error e, w₂))
      (hledger : At R dir s.ledgerPath (es ++ assets) w₂.files) :
      Leaves R dir s es w count (⟨s.owing assets, assets, some e⟩, w₂)

include hR in
theorem acquireMany_leaves {s : Session} {es : List Asset} {w : World}
    (hapart : Apart w.files s.lockPath s.ledgerPath) (h : At R dir s.ledgerPath es w.files)
    (count : Nat) : Leaves R dir s es w count (s.acquireMany count w) := by
  -- The next acquisition starts from a session and a ledger with one entry more.
  induction count generalizing s es w with
  | zero =>
      have hnone : Leaves R dir s es w 0 (⟨s.owing [], [], none⟩, w) :=
        .complete (by rw [owing_nil]; exact .nil s w) List.length_nil (by rwa [List.append_nil])
      rw [owing_nil] at hnone
      exact hnone
  | succ count ih =>
      have hfirst := acquire_at hR hapart h
      rcases houtcome : s.acquire.outcome w with ⟨r, w₁⟩
      rw [houtcome] at hfirst
      cases r with
      | error e =>
          rw [acquireMany_of_error houtcome]
          have hstopped : Leaves R dir s es w (count + 1) (⟨s.owing [], [], some e⟩, w₁) :=
            .stopped (by rw [owing_nil]; exact .nil s w) (Nat.succ_pos count)
              (by rw [owing_nil]; exact houtcome) (by rwa [List.append_nil])
          rw [owing_nil] at hstopped
          exact hstopped
      | ok result =>
          obtain ⟨a, s₁⟩ := result
          obtain ⟨rfl, hat, _⟩ := hfirst
          have hrest := ih (s := s.owing [a]) (hapart.of_workDir (hat.workDir.trans h.workDir.symm)) hat
          rcases hmany : (s.owing [a]).acquireMany count w₁ with ⟨p, w₂⟩
          rw [hmany] at hrest
          rw [acquireMany_succ, houtcome]
          simp only
          rw [show ({ s with pending := s.pending ++ [a] } : Session) = s.owing [a] from rfl, hmany]
          cases hrest with
          | complete hacquired hcount hledger =>
              rw [owing_owing] at hacquired ⊢
              rw [List.append_assoc] at hledger
              exact .complete (.cons houtcome hacquired) (congrArg Nat.succ hcount) hledger
          | stopped hacquired hcount hfails hledger =>
              rw [owing_owing] at hacquired hfails ⊢
              rw [List.append_assoc] at hledger
              exact .stopped (.cons houtcome hacquired) (Nat.succ_lt_succ hcount) hfails hledger

end Session

namespace CommandLine

variable {s : Settings} {es assets : List Asset} {count : Nat} {asksHypervisor : Bool} {w : World}

/-- Trying out the program of the hypervisor touches no file and leaves as much memory. -/
theorem connect_spares (s : Settings) (asksHypervisor : Bool) (w : World) :
    ((connect s asksHypervisor).outcome w).2.files = w.files ∧
      ((connect s asksHypervisor).outcome w).2.memory = w.memory := by
  have hsame : Composes fun w w' : World => w'.files = w.files ∧ w'.memory = w.memory :=
    ⟨fun _ => ⟨rfl, rfl⟩, fun h h' => ⟨h'.1.trans h.1, h'.2.trans h.2⟩⟩
  cases asksHypervisor with
  | false => exact ⟨rfl, rfl⟩
  | true =>
      rw [connect, if_pos rfl, Functor.discard, map_const, Function.comp_apply, map_eq_pure_bind]
      exact (hsame.bind (hsame.bind (fun _ => ⟨rfl, rfl⟩) fun _ => hsame.pure _)
        fun _ => hsame.pure _) w

theorem canHold_connect (s : Settings) (asksHypervisor : Bool) (w : World) (count : Nat) :
    ((connect s asksHypervisor).outcome w).2.canHold count = w.canHold count := by
  rw [World.canHold, (connect_spares s asksHypervisor w).2, ← World.canHold]

/-- With a hypervisor to ask, and if memory can hold that many, the assets are acquired one after the
other. -/
theorem outcome_acquire {hypervisor : Hypervisor} {w₀ w₁ : World} {p : Session.Progress}
    (hconnect : (connect s asksHypervisor).outcome w = (.ok hypervisor, w₀))
    (hmemory : w₀.canHold count = true)
    (hmany : (Session.new s hypervisor w₀.interfaces).acquireMany count w₀ = (p, w₁)) :
    (acquire s count asksHypervisor).outcome w =
      match p.failure with
      | some e => (.error e, w₁)
      | none => (.ok (Asset.listJson p.assets), w₁) := by
  rw [acquire, outcome_bind_ok hconnect, outcome_bind_ok (outcome_get w₀), hmemory]
  cases hfailure : p.failure with
  | none => simp only [Bool.not_true, Bool.false_eq_true, if_false, outcome_of, hmany, hfailure]
  | some e => simp only [Bool.not_true, Bool.false_eq_true, if_false, outcome_of, hmany, hfailure]

theorem outcome_acquire_of_not_canHold {hypervisor : Hypervisor} {w₀ : World}
    (hconnect : (connect s asksHypervisor).outcome w = (.ok hypervisor, w₀))
    (hmemory : w₀.canHold count = false) :
    (acquire s count asksHypervisor).outcome w = (.error (.outOfRange .count), w₀) := by
  rw [acquire, outcome_bind_ok hconnect, outcome_bind_ok (outcome_get w₀), hmemory]
  rfl

/-- Nothing is acquired: the hypervisor cannot be asked, or memory cannot hold that many assets. -/
def Refuses (s : Settings) (count : Nat) (asksHypervisor : Bool) (w : World) : Prop :=
  (∃ e, ((connect s asksHypervisor).outcome w).1 = .error e) ∨ w.canHold count = false

/-- The assets were acquired, and then the next of `count` failed. -/
def Stops (s : Settings) (count : Nat) (asksHypervisor : Bool) (w : World) (assets : List Asset)
    (e : Error) : Prop :=
  ∃ hypervisor w₀ w₁ w₂, (connect s asksHypervisor).outcome w = (.ok hypervisor, w₀) ∧
    Session.Acquisitions (.new s hypervisor w₀.interfaces) w₀ assets
      ((Session.new s hypervisor w₀.interfaces).owing assets) w₁ ∧
    ((Session.new s hypervisor w₀.interfaces).owing assets).acquire.outcome w₁ = (.error e, w₂) ∧
    assets.length < count

/-- How acquiring ends: refused, or with all the assets, or with those before a failure. Those that
were acquired are in the ledger. -/
inductive Outcome (s : Settings) (es : List Asset) (count : Nat) (asksHypervisor : Bool) (w : World) :
    Except Error String × World → Prop
  | refused {e : Error} {w' : World} (hrefuses : Refuses s count asksHypervisor w)
      (hledger : Lists w'.files s.ledgerPath es) :
      Outcome s es count asksHypervisor w (.error e, w')
  | complete {assets : List Asset} {w' : World} (hcount : assets.length = count)
      (hledger : Lists w'.files s.ledgerPath (es ++ assets)) :
      Outcome s es count asksHypervisor w (.ok (Asset.listJson assets), w')
  | stopped {assets : List Asset} {e : Error} {w' : World}
      (hstops : Stops s count asksHypervisor w assets e)
      (hledger : Lists w'.files s.ledgerPath (es ++ assets)) :
      Outcome s es count asksHypervisor w (.error e, w')

theorem acquire_outcome (hapart : Apart w.files s.lockPath s.ledgerPath)
    (hlists : Lists w.files s.ledgerPath es) (count : Nat) (asksHypervisor : Bool) :
    Outcome s es count asksHypervisor w ((acquire s count asksHypervisor).outcome w) := by
  have hfiles := (connect_spares s asksHypervisor w).1
  have hmemory := canHold_connect s asksHypervisor w count
  rcases hconnect : (connect s asksHypervisor).outcome w with ⟨r, w₀⟩
  rw [hconnect] at hfiles hmemory
  rw [← hfiles] at hapart hlists
  cases r with
  | error e =>
      rw [acquire, outcome_bind_error hconnect]
      exact .refused (.inl ⟨e, congrArg Prod.fst hconnect⟩) hlists
  | ok hypervisor =>
      cases hcan : w₀.canHold count with
      | false =>
          rw [outcome_acquire_of_not_canHold hconnect hcan]
          exact .refused (.inr (hmemory.symm.trans hcan)) hlists
      | true =>
          have hleaves := Session.acquireMany_leaves represents_decodeSlot
            (s := .new s hypervisor w₀.interfaces) hapart ⟨rfl, lists_iff.mp hlists⟩ count
          rcases hmany : (Session.new s hypervisor w₀.interfaces).acquireMany count w₀ with ⟨p, w₁⟩
          rw [outcome_acquire hconnect hcan hmany]
          rw [hmany] at hleaves
          cases hleaves with
          | complete _ hcount hledger => exact .complete hcount (lists_iff.mpr hledger.shows)
          | stopped hacquired hcount hfails hledger =>
              exact .stopped ⟨hypervisor, w₀, _, _, hconnect, hacquired, hfails, hcount⟩
                (lists_iff.mpr hledger.shows)

theorem failureCode_ne (f : Failure) : f.code ≠ successCode := by
  cases f with
  | error e =>
      rw [Failure.code]
      split
      · decide
      · decide
  | noEntry networkIf => exact Nat.one_ne_zero

theorem run_acquire {others : Settings.OtherFormats} {env : List (String × String)}
    {args : List String} {settingsName : String}
    (hrequest : requestOf args = .run settingsName (.acquire count asksHypervisor))
    (hload : Settings.loadReading others w.files env settingsName = .ok s) :
    runReading others env args w = (.of (((acquire s count asksHypervisor).outcome w).1.mapError .error),
      ((acquire s count asksHypervisor).outcome w).2) := by
  rw [runReading, hrequest]
  simp only [hload, perform]

/-- A run that is to acquire assets appends some to the ledger. If it succeeds, these are the assets
that it prints, as many as it was asked for. If it fails, it prints nothing, and yet the ledger keeps
what was acquired before the failure. Without settings it does nothing. -/
theorem acquired_stays (others : Settings.OtherFormats) (env : List (String × String))
    {args : List String} (w : World)
    {settingsName : String} {count : Nat} {asksHypervisor : Bool}
    (hrequest : requestOf args = .run settingsName (.acquire count asksHypervisor)) :
    (∀ fault, Settings.loadReading others w.files env settingsName = .error fault →
      (runReading others env args w).1.code ≠ successCode ∧
        (runReading others env args w).1.stdout = "" ∧ (runReading others env args w).2 = w) ∧
    ∀ s es, Settings.loadReading others w.files env settingsName = .ok s →
      Apart w.files s.lockPath s.ledgerPath → Lists w.files s.ledgerPath es →
      ∃ assets, Lists (runReading others env args w).2.files s.ledgerPath (es ++ assets) ∧
        (((runReading others env args w).1.code = successCode ∧
            (runReading others env args w).1.stdout = Asset.listJson assets ++ "\n" ∧
            assets.length = count) ∨
          ((runReading others env args w).1.code ≠ successCode ∧
            (runReading others env args w).1.stdout = "" ∧
            (assets = [] ∧ Refuses s count asksHypervisor w ∨
              ∃ e, Stops s count asksHypervisor w assets e))) := by
  refine ⟨fun fault hload => ?_, fun s es hload hapart hlists => ?_⟩
  · rw [runReading, hrequest]
    simp only [hload]
    exact ⟨failureCode_ne (.error (.configuration fault)), rfl, trivial⟩
  · have houtcome := acquire_outcome hapart hlists count asksHypervisor
    rw [run_acquire hrequest hload]
    generalize (acquire s count asksHypervisor).outcome w = ending at houtcome
    cases houtcome with
    | @refused e w' hrefuses hledger =>
        refine ⟨[], ?_, .inr ⟨failureCode_ne (.error e), rfl, .inl ⟨rfl, hrefuses⟩⟩⟩
        rwa [List.append_nil]
    | complete hcount hledger => exact ⟨_, hledger, .inl ⟨rfl, rfl, hcount⟩⟩
    | @stopped assets e w' hstops hledger =>
        exact ⟨assets, hledger, .inr ⟨failureCode_ne (.error e), rfl, .inr ⟨e, hstops⟩⟩⟩

/-! ## A run that stops halfway -/

/-- A ledger nearby, and a single attempt for each field. -/
def singleEnv : List (String × String) :=
  [("NETRES__RESERVE__LEDGER_PATH", "ledger"), ("NETRES__RESERVE__MAX_ATTEMPTS", "1")]

def single : Settings := { Settings.standard with ledgerPath := "ledger", maxAttempts := 1 }

def singleSession : Session := .new single (.known []) []

theorem load_singleEnv :
    Settings.load (Session.quiet (.empty [])).files singleEnv usualSettings = .ok single := by
  have hload : (Settings.load (Session.quiet (.empty [])).files singleEnv usualSettings).toOption =
      some single := by decide +kernel
  cases hresult : Settings.load (Session.quiet (.empty [])).files singleEnv usualSettings with
  | error fault =>
      rw [hresult] at hload
      cases hload
  | ok s =>
      rw [hresult] at hload
      rw [Option.some.inj hload]

/-- In a world without anything else, such a session acquires one asset and no second one. -/
theorem singleSession_acquires : ∃ a w₁ e w₂,
    singleSession.acquire.outcome (Session.quiet (.empty [])) =
        (.ok (a, singleSession.owing [a]), w₁) ∧
      (singleSession.owing [a]).acquire.outcome w₁ = (.error e, w₂) := by
  obtain ⟨t, a, w₁, g, w₂, htemplate, hname, hfirst, hlock, hread⟩ : ∃ t a w₁ g w₂,
      single.template.check = .ok t ∧ a.networkIf = Allocation.numbered t.networkIf.text 0 ∧
      singleSession.acquire.outcome (Session.quiet (.empty [])) =
        (.ok (a, singleSession.owing [a]), w₁) ∧
      (Lock.acquire single.lockPath single.lockTimeoutSecs).outcome w₁ = (.ok g, w₂) ∧
      w₂.files.read single.ledgerPath = .ok (encode [a]) :=
    ⟨_, _, _, _, _, rfl, rfl, rfl, rfl, rfl⟩
  have hentries : entries w₂.files single.ledgerPath = .ok [a] := by
    rw [entries, hread]
    exact decode_encode [a]
  obtain ⟨e, w₃, hreserve⟩ := Session.reserve_fails_of_single (s := singleSession.owing [a]) rfl
    hentries List.mem_cons_self hname
  have hsecond := Session.outcome_acquire (singleSession.owing [a]) htemplate hlock
  rw [hreserve] at hsecond
  exact ⟨a, w₁, e, _, hfirst, hsecond⟩

/-- Of two assets the first is acquired and the second is not: nothing is printed, and yet the ledger
has an entry. -/
theorem acquired_stays_single : ∃ report w a,
    run singleEnv ["acquire", "--no-hypervisor", "--count", "2"] (Session.quiet (.empty [])) =
        (report, w) ∧
      report.code ≠ successCode ∧ report.stdout = "" ∧ Lists w.files single.ledgerPath [a] := by
  have hrequest : requestOf ["acquire", "--no-hypervisor", "--count", "2"] =
      .run usualSettings (.acquire 2 false) := by decide +kernel
  obtain ⟨a, w₁, e, w₂, hfirst, hsecond⟩ := singleSession_acquires
  have hmany : singleSession.acquireMany 2 (Session.quiet (.empty [])) =
      (⟨singleSession.owing [a], [a], some e⟩, w₂) := by
    rw [Session.acquireMany_succ, hfirst]
    simp only [Session.acquireMany_of_error hsecond]
  have hconnect : (connect single false).outcome (Session.quiet (.empty [])) =
      (.ok (.known []), Session.quiet (.empty [])) := rfl
  have hacquire := outcome_acquire hconnect rfl hmany
  have hrun := run_acquire hrequest load_singleEnv
  obtain ⟨assets, hlists, hend⟩ :=
    (acquired_stays Settings.unreadable singleEnv (Session.quiet (.empty [])) hrequest).2
    single [] load_singleEnv
    (apart_of_incomparable (by decide) (by decide) (by decide) (by decide)) ⟨rfl, .inr rfl⟩
  rw [hacquire] at hrun
  rw [hrun] at hlists hend
  rw [run, hrun]
  rcases hend with ⟨hcode, _⟩ | ⟨hcode, hstdout, ⟨_, hrefuses⟩ | ⟨e', _, _, _, _, hconnect',
    hacquired, hfails, hcount⟩⟩
  · exact absurd hcode (failureCode_ne (.error e))
  · rcases hrefuses with ⟨_, hfails⟩ | hlimit
    · rw [hconnect] at hfails
      cases hfails
    · cases hlimit
  · rw [hconnect] at hconnect'
    cases hconnect'
    cases hacquired with
    | nil =>
        rw [Session.owing_nil] at hfails
        cases hfirst.symm.trans hfails
    | @cons _ _ _ _ _ _ a' assets hfirst' _ =>
        obtain rfl : assets = [] :=
          List.length_eq_zero_iff.mp (Nat.lt_one_iff.mp (Nat.lt_of_succ_lt_succ hcount))
        exact ⟨_, _, a', rfl, hcode, hstdout, hlists⟩

end CommandLine

end NetPool
