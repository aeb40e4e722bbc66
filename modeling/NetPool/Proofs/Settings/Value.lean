import NetPool.Proofs.Net.Notation
import NetPool.Proofs.Settings.Source
import NetPool.Proofs.Settings.Variable

/-! # Values of settings

What becomes of a value on its way from a variable or the file to the settings. A text is guessed to
be of a type before it is known which type is due. Mostly that is undone later on, and the value is
the one that was written; where the guess is a number in another form, or one of more bits than the
double format has, it is not. -/

namespace NetPool.Settings

/-! ## Texts of variables -/

/-- A text that comes back as it is in a field of texts. -/
inductive Stays : String → Prop where
  | character {text : String} {c : Char} (hmem : c ∈ text.toList) (hc : ¬ IsValueCharacter c) :
    Stays text
  | plain {text : String} (h : LooksPlain text) : Stays text
  | boolean (b : Bool) : Stays (booleanText b)
  | integer {i : Int} (hleast : -(Numeral.signedBound : Int) ≤ i)
    (hbound : i < Numeral.signedBound) : Stays (Numeral.integerText i)

/-- A text that does not fit the kind of value that is due. -/
inductive Misfit : Kind → String → Prop where
  | plain {w : Width} {text : String} (h : LooksPlain text) (hword : textNatural? text = none) :
    Misfit (.number w) text
  | negative {w : Width} {text : String} {i : Int}
    (h : integerText? text.toList = some (.integer i)) (hneg : i < 0) : Misfit (.number w) text
  | large {text : String} {n : Nat}
    (h : Numeral.natural? (Numeral.dropPlus text.toList) = some n) (hlarge : attemptsLimit ≤ n) :
    Misfit (.number .short) text
  | subnet {f : Family} {text : String} (h : Subnet.ofText? f text = none) : Misfit (.subnet f) text

theorem Stays.scalarText {text : String} (h : Stays text) :
    scalarText (variableValue text) = text := by
  cases h with
  | character hmem hc => rw [(looksPlain_of_mem hc (.inl hmem)).variableValue, Settings.scalarText]
  | plain h => rw [h.variableValue, Settings.scalarText]
  | boolean b => cases b <;> decide
  | integer hleast hbound =>
      rw [variableValue_of_integer (integerText?_integerText hleast hbound), Settings.scalarText]

/-- Only a text with a slash is a subnet, and such a text is not taken for anything else. -/
theorem ofText?_scalarText {f : Family} {text : String} {n : Subnet f}
    (h : Subnet.ofText? f (scalarText (variableValue text)) = some n) :
    Subnet.ofText? f text = some n := by
  have hslash := Notation.slash_mem_of_subnet? h
  rwa [(looksPlain_of_mem (by decide) (.inr hslash)).variableValue, scalarText] at h

theorem Misfit.read_ne_ok {κ : Kind} {text : String} (h : Misfit κ text) (origin : String)
    (a : κ.Value) : κ.read (.scalar origin (variableValue text)) ≠ .ok a := by
  intro hread
  cases h with
  | plain h hword =>
      have hnatural := (Kind.read_number_eq_ok hread).1
      rw [h.variableValue, scalarNatural, hword] at hnatural
      cases hnatural
  | negative h hneg =>
      have hnatural := (Kind.read_number_eq_ok hread).1
      rw [variableValue_of_integer h, scalarNatural, if_neg (by omega)] at hnatural
      cases hnatural
  | large h hlarge =>
      obtain ⟨hnatural, hlimit⟩ := Kind.read_number_eq_ok hread
      rw [scalarNatural_of_natural? h] at hnatural
      obtain rfl := Except.ok.inj hnatural
      have hsmall := hlimit rfl
      rw [heldNatural_of_lt (Nat.lt_trans hsmall (by decide))] at hsmall
      exact Nat.not_lt_of_le hlarge hsmall
  | subnet h =>
      rw [ofText?_scalarText (Kind.read_subnet_eq_ok hread)] at h
      cases h

/-! ## Values of the file -/

theorem eq_of_scalarNatural_integer {origin : String} {i : Int} {n : Nat}
    (h : scalarNatural origin (.integer i) = .ok n) : i = n := by
  rw [scalarNatural] at h
  split at h
  · obtain rfl := Except.ok.inj h
    omega
  · cases h

/-- A list, or a table that is not empty. -/
inductive HasParts : Toml.Value → Prop where
  | list (items : List Toml.Value) : HasParts (.list items)
  | tables (elements : List Toml.Entries) : HasParts (.tables elements)
  | table (form : Toml.TableForm) (e : String × Toml.Value) (entries : Toml.Entries) :
    HasParts (.table form (e :: entries))

/-- Only a plain value is read. -/
theorem Kind.exists_scalar_of_read {κ : Kind} {v : Layered} {a : κ.Value} (h : κ.read v = .ok a) :
    ∃ origin s, v = .scalar origin s := by
  cases v with
  | scalar origin s => exact ⟨origin, s, rfl⟩
  | list | table | gap =>
      cases κ with
      | text => cases h
      | number w => cases w <;> cases h
      | subnet f => cases h

theorem HasParts.laidOver_cases {v : Toml.Value} (h : HasParts v) (origin : String)
    (old : Option Layered) :
    (∃ o items, (Layered.ofValue origin v).laidOver old = .list o items) ∨
      ∃ o entries, (Layered.ofValue origin v).laidOver old = .table o entries := by
  cases h with
  | list items => exact .inl ⟨_, _, rfl⟩
  | tables elements => exact .inl ⟨_, _, rfl⟩
  | table form e entries =>
      rw [Layered.ofValue, Layered.ofEntries, Layered.laidOver]
      exact .inr (Layered.exists_table_of_merge _ _ _)

theorem HasParts.read_ne_ok {v : Toml.Value} (h : HasParts v) {κ : Kind} (origin : String)
    (old : Option Layered) (a : κ.Value) :
    κ.read ((Layered.ofValue origin v).laidOver old) ≠ .ok a := by
  intro hread
  obtain ⟨o, s, hscalar⟩ := Kind.exists_scalar_of_read hread
  rcases h.laidOver_cases origin old with ⟨_, _, hlist⟩ | ⟨_, _, htable⟩
  · cases hscalar.symm.trans hlist
  · cases hscalar.symm.trans htable

theorem HasParts.laidOver_ne_gap {v : Toml.Value} (h : HasParts v) (origin : String)
    (old : Option Layered) : (Layered.ofValue origin v).laidOver old ≠ .gap := by
  rcases h.laidOver_cases origin old with ⟨o, items, hlist⟩ | ⟨o, entries, htable⟩
  · rw [hlist]
    nofun
  · rw [htable]
    nofun

/-! ## Loading -/

section Load

variable {others : OtherFormats} {fs : FileSystem} {env : List (String × String)} {name : String}
  {s : Settings} {κ : Kind} {k : Key κ} (hload : loadReading others fs env name = .ok s)
include hload

theorem SetByVariable.value? {text : String} (h : SetByVariable env k.path text) :
    ∃ a, κ.read (.scalar Layers.environmentName (variableValue text)) = .ok a ∧
      k.value? s = some a := by
  obtain ⟨ls, hread, hget⟩ := exists_of_load_of_variables hload
  obtain ⟨old, hget⟩ := hget _ _ h.lastSets
  exact k.value?_of_get? hread nofun hget

theorem SetInFile.value? {v : Toml.Value} (h : SetInFile fs env name k.path v)
    (hgap : ∀ origin old, (Layered.ofValue origin v).laidOver old ≠ .gap) :
    ∃ origin old a, κ.read ((Layered.ofValue origin v).laidOver old) = .ok a ∧
      k.value? s = some a := by
  obtain ⟨hformat, origin, text, entries, hsource, hentries, hsets, hspares⟩ := h
  obtain ⟨layings, ls, hfile, hread, hget⟩ := exists_of_load_of_lastSets hformat hload
  rw [fileLayings?, hsource] at hfile
  simp only [hentries, Option.map_some, Option.some.injEq] at hfile
  obtain ⟨old, hget⟩ := hget _ _ (hfile ▸ hsets.append hspares)
  exact ⟨origin, old, k.value?_of_get? hread (hgap origin old) hget⟩

theorem SetInFile.value?_scalar {v : Toml.Scalar} (h : SetInFile fs env name k.path (.scalar v)) :
    ∃ origin a, κ.read (.scalar origin v) = .ok a ∧ k.value? s = some a := by
  obtain ⟨origin, _, hread⟩ := h.value? hload fun _ _ => nofun
  exact ⟨origin, hread⟩

end Load

/-- What settings that were loaded hold of what was set. -/
structure Reflects (fs : FileSystem) (env : List (String × String)) (name : String) (s : Settings) :
    Prop where
  /-- What a variable sets is read from the value that its text looks like. -/
  guess : ∀ {κ} (k : Key κ) {text}, SetByVariable env k.path text →
    ∃ a, κ.read (.scalar Layers.environmentName (variableValue text)) = .ok a ∧ k.value? s = some a
  /-- A text is that of the value it looks like, which mostly is the text itself. -/
  text : ∀ (k : Key .text) {text}, SetByVariable env k.path text →
    k.value? s = some (scalarText (variableValue text)) ∧ (Stays text → k.value? s = some text)
  /-- A natural number is the nearest one that could be held, which is the number itself where few
  attempts are due or it has less than 64 bits. -/
  natural : ∀ {w} (k : Key (.number w)) {text n}, SetByVariable env k.path text →
    Numeral.natural? (Numeral.dropPlus text.toList) = some n →
      k.value? s = some (heldNatural n) ∧
        (k.value? s = some n ↔
          w = .short ∨ n < Numeral.signedBound ∨ n = wordLimit - 1 ∨ n < wordLimit ∧ 2048 ∣ n)
  subnet : ∀ {f} (k : Key (.subnet f)) {text}, SetByVariable env k.path text →
    k.value? s = Subnet.ofText? f text
  /-- The file keeps every text. -/
  fileText : ∀ (k : Key .text) {text}, SetInFile fs env name k.path (.scalar (.text text)) →
    k.value? s = some text
  /-- The file keeps every integer. -/
  fileInteger : ∀ {w} (k : Key (.number w)) {i},
    SetInFile fs env name k.path (.scalar (.integer i)) → ∃ n : Nat, i = n ∧ k.value? s = some n

theorem reflects_of_load {others : OtherFormats} {fs : FileSystem} {env : List (String × String)}
    {name : String} {s : Settings} (hload : loadReading others fs env name = .ok s) :
    Reflects fs env name s where
  guess _ _ hset := hset.value? hload
  text k text hset := by
    obtain ⟨a, hread, hvalue⟩ := hset.value? hload
    obtain rfl := Except.ok.inj hread
    exact ⟨hvalue, fun hstays => hvalue.trans (congrArg some hstays.scalarText)⟩
  natural k text n hset hn := by
    obtain ⟨a, hread, hvalue⟩ := hset.value? hload
    obtain ⟨hnatural, hlimit⟩ := Kind.read_number_eq_ok hread
    rw [scalarNatural_of_natural? hn] at hnatural
    obtain rfl := Except.ok.inj hnatural
    have hkept : k.value? s = some n ↔ heldNatural n = n := by
      rw [hvalue]
      exact Option.some_inj
    refine ⟨hvalue, hkept.trans ⟨fun h => .inr ((heldNatural_eq_self_iff n).mp h), ?_⟩⟩
    rintro (hshort | hn)
    · exact heldNatural_of_lt (Nat.lt_trans (hlimit hshort) (by decide))
    · exact (heldNatural_eq_self_iff n).mpr hn
  subnet k text hset := by
    obtain ⟨a, hread, hvalue⟩ := hset.value? hload
    exact hvalue.trans (ofText?_scalarText (Kind.read_subnet_eq_ok hread)).symm
  fileText k text hset := by
    obtain ⟨origin, a, hread, hvalue⟩ := hset.value?_scalar hload
    obtain rfl := Except.ok.inj hread
    exact hvalue
  fileInteger k i hset := by
    obtain ⟨origin, n, hread, hvalue⟩ := hset.value?_scalar hload
    exact ⟨n, eq_of_scalarNatural_integer (Kind.read_number_eq_ok hread).1, hvalue⟩

theorem exists_error_of_ne_ok {others : OtherFormats} {fs : FileSystem}
    {env : List (String × String)} {name : String} (h : ∀ s, loadReading others fs env name ≠ .ok s) :
    ∃ fault, loadReading others fs env name = .error fault := by
  cases hload : loadReading others fs env name with
  | error fault => exact ⟨fault, rfl⟩
  | ok s => exact absurd hload (h s)

/-- What keeps settings from loading. -/
structure Refuses (others : OtherFormats) (fs : FileSystem) (env : List (String × String))
    (name : String) : Prop where
  misfit : ∀ {κ} (k : Key κ) {text}, SetByVariable env k.path text → Misfit κ text →
    ∃ fault, loadReading others fs env name = .error fault
  /-- A plain value of the file from which cannot be read what is due. -/
  fileScalar : ∀ {κ} (k : Key κ) {v : Toml.Scalar}, SetInFile fs env name k.path (.scalar v) →
    (∀ origin a, κ.read (.scalar origin v) ≠ .ok a) →
      ∃ fault, loadReading others fs env name = .error fault
  fileInteger : ∀ {w} (k : Key (.number w)) {i},
    SetInFile fs env name k.path (.scalar (.integer i)) → i < 0 ∨ w = .short ∧ attemptsLimit ≤ i →
      ∃ fault, loadReading others fs env name = .error fault
  fileParts : ∀ {κ} (k : Key κ) {v}, SetInFile fs env name k.path v → HasParts v →
    ∃ fault, loadReading others fs env name = .error fault

theorem refuses (others : OtherFormats) (fs : FileSystem) (env : List (String × String))
    (name : String) : Refuses others fs env name where
  misfit k text hset hmisfit := by
    refine exists_error_of_ne_ok fun s hload => ?_
    obtain ⟨a, hread, -⟩ := hset.value? hload
    exact hmisfit.read_ne_ok _ a hread
  fileScalar k v hset hunread := by
    refine exists_error_of_ne_ok fun s hload => ?_
    obtain ⟨origin, a, hread, -⟩ := hset.value?_scalar hload
    exact hunread origin a hread
  fileInteger k i hset hmisfit := by
    refine exists_error_of_ne_ok fun s hload => ?_
    obtain ⟨origin, n, hread, -⟩ := hset.value?_scalar hload
    obtain ⟨hnatural, hlimit⟩ := Kind.read_number_eq_ok hread
    have hi := eq_of_scalarNatural_integer hnatural
    rcases hmisfit with hneg | ⟨hshort, hlarge⟩
    · omega
    · have hsmall := hlimit hshort
      omega
  fileParts k v hset hparts := by
    refine exists_error_of_ne_ok fun s hload => ?_
    obtain ⟨origin, old, a, hread, -⟩ := hset.value? hload hparts.laidOver_ne_gap
    exact hparts.read_ne_ok origin old a hread

/-- What becomes of values, for every file and all variables. If it is sure to be taken, the file keeps
texts and integers. Whichever file is taken, and whatever is read from one in another format, a
variable keeps a text unless that looks like a boolean or a number in another form, and a natural
number unless that has 64 bits or more and the double format does not have it. What does not fit the
kind of value that is due keeps the settings from loading. -/
theorem values_of_load (others : OtherFormats) (fs : FileSystem) (env : List (String × String))
    (name : String) :
    (∀ s, loadReading others fs env name = .ok s → Reflects fs env name s) ∧
      Refuses others fs env name :=
  ⟨fun _ => reflects_of_load, refuses others fs env name⟩

/-! ## A load -/

/-- A working directory with a settings file. -/
def filesWith (text : String) : FileSystem :=
  (FileSystem.empty []).set ["netres.toml"] (some (.file 0 text.toUTF8))

theorem isInOtherFormat_filesWith (text : String) :
    isInOtherFormat (filesWith text) "netres" = false := rfl

theorem source?_filesWith (text : String) :
    source? (filesWith text) "netres" = some ("netres.toml", text) := by
  have hfile : file? (filesWith text) "netres" = some ⟨false, ["netres.toml"], .plain⟩ := by rfl
  have hcontent : content? (filesWith text) (Path.text ⟨false, ["netres.toml"], .plain⟩) =
      some text.toUTF8 := by rfl
  have horigin : originOf (filesWith text) ⟨false, ["netres.toml"], .plain⟩ = "netres.toml" := by
    rfl
  rw [source?_eq_some hfile hcontent, horigin]

/-- A name of digits, a number that the double format does not have, and two plain texts. -/
def givenEnv : List (String × String) := [
  (Key.ledgerPath.variableName, "007"),
  (Key.lockTimeout.variableName, "9223372036854775809"),
  (Key.virshPath.variableName, "/bin/virsh"),
  (Key.machineCidr.variableName, "10.0.0.0/24")]

example : Key.lockTimeout.variableName = "NETRES__RESERVE__LOCK_TIMEOUT_SECS" := by decide +kernel

/-- The entries of a settings file that only says how many attempts are due. -/
def givenEntries (attempts : Int) : Toml.Entries :=
  [(groupKey, .table .headed [(maxAttemptsKey, .scalar (.integer attempts))])]

/-- Whether entries were read that say how many attempts are due and nothing else. -/
def saysAttempts (attempts : Int) : Option Toml.Entries → Bool
  | some [(group, .table .headed [(key, .scalar (.integer n))])] =>
      group = groupKey && key = maxAttemptsKey && n = attempts
  | _ => false

theorem eq_of_saysAttempts {attempts : Int} {entries? : Option Toml.Entries}
    (h : saysAttempts attempts entries? = true) : entries? = some (givenEntries attempts) := by
  unfold saysAttempts at h
  split at h
  · simp only [Bool.and_eq_true, decide_eq_true_eq] at h
    obtain ⟨⟨rfl, rfl⟩, rfl⟩ := h
    rfl
  · cases h

theorem read?_seven : Toml.read? "[reserve]\nmax_attempts = 7" = some (givenEntries 7) :=
  eq_of_saysAttempts (by decide +kernel)

theorem read?_negative : Toml.read? "[reserve]\nmax_attempts = -7" = some (givenEntries (-7)) :=
  eq_of_saysAttempts (by decide +kernel)

theorem setInFile_given {text : String} {attempts : Int}
    (hread : Toml.read? text = some (givenEntries attempts)) :
    SetInFile (filesWith text) givenEnv "netres" Key.maxAttempts.path
      (.scalar (.integer attempts)) :=
  setInFile_of_entry [] [] [] [] (by decide) (isInOtherFormat_filesWith text) (source?_filesWith _) hread
    nofun nofun
    (spares_of_variableForks (by decide +kernel))

theorem load_filesWith {text : String} {entries : Toml.Entries}
    (hread : Toml.read? text = some entries) (env : List (String × String)) :
    load (filesWith text) env "netres" = (do
      let layers ← Layers.overlayFile "netres.toml" entries []
      ofLayers (← layers.overlayVariables env)) := by
  rw [load, loadReading, fileLayers_eq_tomlLayers (isInOtherFormat_filesWith text), tomlLayers,
    source?_filesWith]
  simp only [hread]

theorem exists_ok_of_isSome {x : Except Fault Settings} (h : x.toOption.isSome = true) :
    ∃ s, x = .ok s := by
  cases x with
  | error fault => cases h
  | ok s => exact ⟨s, rfl⟩

theorem exists_load_given :
    ∃ s, load (filesWith "[reserve]\nmax_attempts = 7") givenEnv "netres" = .ok s := by
  rw [load_filesWith read?_seven]
  exact exists_ok_of_isSome (by decide +kernel)

/-- The ledger is another file than the one that was named, and the time to wait is another one. The
rest is as it was written. -/
theorem values_of_load_given :
    (∃ s, load (filesWith "[reserve]\nmax_attempts = 7") givenEnv "netres" = .ok s ∧
      s.ledgerPath = "7" ∧ s.lockTimeoutSecs = 9223372036854775808 ∧ s.virshPath = "/bin/virsh" ∧
      s.template.machineCidr = Subnet.ofText? .v4 "10.0.0.0/24" ∧ s.maxAttempts = 7) ∧
    (∃ fault, load (.empty []) [(Key.maxAttempts.variableName, "4294967296")] "netres" =
      .error fault) ∧
    ∃ fault, load (filesWith "[reserve]\nmax_attempts = -7") givenEnv "netres" = .error fault := by
  obtain ⟨s, hload⟩ := exists_load_given
  have hledgerPath : SetByVariable givenEnv Key.ledgerPath.path "007" :=
    Key.ledgerPath.setByVariable [] _ _ (spares_of_variableForks (by decide +kernel))
  have hlockTimeout : SetByVariable givenEnv Key.lockTimeout.path "9223372036854775809" :=
    Key.lockTimeout.setByVariable [_] _ _ (spares_of_variableForks (by decide +kernel))
  have hvirshPath : SetByVariable givenEnv Key.virshPath.path "/bin/virsh" :=
    Key.virshPath.setByVariable [_, _] _ _ (spares_of_variableForks (by decide +kernel))
  have hmachineCidr : SetByVariable givenEnv Key.machineCidr.path "10.0.0.0/24" :=
    Key.machineCidr.setByVariable [_, _, _] [] _ nofun
  have hmaxAttempts := Key.maxAttempts.setByVariable [] [] "4294967296" nofun
  obtain ⟨hloaded, -⟩ :=
    values_of_load unreadable (filesWith "[reserve]\nmax_attempts = 7") givenEnv "netres"
  have hs := hloaded s hload
  refine ⟨⟨s, hload, ?_, ?_, ?_, ?_, ?_⟩, ?_, ?_⟩
  · have hvalue := (hs.text .ledgerPath hledgerPath).1
    rw [show scalarText (variableValue "007") = "7" by decide +kernel] at hvalue
    exact Option.some.inj hvalue
  · have hnatural : Numeral.natural? (Numeral.dropPlus "9223372036854775809".toList) =
        some 9223372036854775809 := by decide +kernel
    exact Option.some.inj (hs.natural .lockTimeout hlockTimeout hnatural).1
  · have hstays : Stays "/bin/virsh" := .character (by decide : '/' ∈ _) (by decide)
    exact Option.some.inj ((hs.text .virshPath hvirshPath).2 hstays)
  · exact hs.subnet .machineCidr hmachineCidr
  · obtain ⟨n, hn, hvalue⟩ := hs.fileInteger .maxAttempts (setInFile_given read?_seven)
    obtain rfl : n = 7 := by omega
    exact Option.some.inj hvalue
  · have hnatural : Numeral.natural? (Numeral.dropPlus "4294967296".toList) = some 4294967296 := by
      decide +kernel
    have hlarge : Misfit (.number .short) "4294967296" := .large hnatural (by decide)
    exact (values_of_load _ _ _ _).2.misfit .maxAttempts hmaxAttempts hlarge
  · have hnegative := setInFile_given read?_negative
    exact (values_of_load _ _ _ _).2.fileInteger .maxAttempts hnegative (.inl (by decide))

end NetPool.Settings
