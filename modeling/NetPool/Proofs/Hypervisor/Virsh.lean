import Mathlib.Data.List.TakeDrop
import NetPool.Hypervisor.Virsh
import NetPool.Proofs.Hypervisor.Known
import NetPool.Proofs.Net.Notation
import NetPool.Proofs.Text.Blank
import NetPool.Proofs.Text.Bytes

/-! # Networks read off the output of virsh

Whatever the layout of the tables, the networks, their bridges and their leases are read off as they
are. A survey of the networks of virsh thus finds what it finds of the same networks when they are
known beforehand. -/

namespace NetPool

namespace Answer

variable {α β : Type} {a : Answer α}

theorem result_andThen_ok {v : α} (h : a.result = .ok v) (f : α → Answer β) :
    (a.andThen f).result = (f v).result := by
  rw [andThen, h]

theorem result_andThen_error {e : Error} (h : a.result = .error e) (f : α → Answer β) :
    (a.andThen f).result = .error e := by
  rw [andThen, h]

end Answer

namespace Virsh

open Text

/-! ## What the program prints

The rows of an output are its lines, with the end of each left out. -/

/-- One name in each row, and rows without one. -/
inductive NameRows : List (List Char) → List String → Prop
  | nil : NameRows [] []
  | blank {row : List Char} {rows : List (List Char)} {names : List String} (hblank : Blank row)
      (hrest : NameRows rows names) : NameRows (row :: rows) names
  | name {row : List Char} {rows : List (List Char)} {name : String} {names : List String}
      (hrow : Padded name.toList row) (hrest : NameRows rows names) :
      NameRows (row :: rows) (name :: names)

/-- The key is that of the bridge, in any case. -/
def NamesBridge (key : List Char) : Prop :=
  ∃ word, Padded word key ∧ word.map Char.toLower = "bridge".toList

/-- Rows with a key and a value, among them one for the bridge if there is a bridge. -/
inductive InfoRows : List (List Char) → Option String → Prop
  | nil : InfoRows [] none
  | plain {row : List Char} {rows : List (List Char)} {bridge? : Option String} (hrow : ':' ∉ row)
      (hrest : InfoRows rows bridge?) : InfoRows (row :: rows) bridge?
  | other {key value : List Char} {rows : List (List Char)} {bridge? : Option String}
      (hcolon : ':' ∉ key) (hkey : ¬ NamesBridge key) (hrest : InfoRows rows bridge?) :
      InfoRows ((key ++ ':' :: value) :: rows) bridge?
  | bridge {key value : List Char} {rows : List (List Char)} {name : String} (hcolon : ':' ∉ key)
      (hkey : NamesBridge key) (hvalue : Padded name.toList value) (hrest : InfoRows rows none) :
      InfoRows ((key ++ ':' :: value) :: rows) (some name)

/-- One lease in each row: columns without a slash, the address, and any other columns. There may be
rows without a slash, such as a heading. -/
inductive LeaseRows : List (List Char) → List AnySubnet → Prop
  | nil : LeaseRows [] []
  | heading {row : List Char} {rows : List (List Char)} {addresses : List AnySubnet}
      (hrow : '/' ∉ row) (hrest : LeaseRows rows addresses) : LeaseRows (row :: rows) addresses
  | lease {before word after : List Char} {rows : List (List Char)} {a : AnySubnet}
      {addresses : List AnySubnet} (hbefore : '/' ∉ before)
      (hleft : ∀ c ∈ before.getLast?, isBlank c = true)
      (hword : ∀ c ∈ word, isBlank c = false)
      (haddress : AnySubnet.ofText? (String.ofList word) = some a)
      (hright : ∀ c ∈ after.head?, isBlank c = true) (hrest : LeaseRows rows addresses) :
      LeaseRows ((before ++ word ++ after) :: rows) (a :: addresses)

/-- The program ends with success after it has printed such rows. -/
def Prints (m : Machine) (program uri : String) (args : List String)
    (shape : List (List Char) → Prop) : Prop :=
  ∃ rows, (∀ row ∈ rows, '\n' ∉ row) ∧ shape rows ∧ ∃ stderr,
    m program (connection uri ++ args) =
      .ok ⟨(String.ofList (List.intercalate ['\n'] rows)).toUTF8, stderr, some 0⟩

/-- The program cannot be started, or it does not end with success. -/
def Refuses (m : Machine) (program uri : String) (args : List String) : Prop :=
  ∀ out, m program (connection uri ++ args) = .ok out → out.code ≠ some 0

/-- What there is to know of a network: its bridge, if it has one, and the leased addresses, unless
it fails when it is asked for. -/
inductive NetworkState where
  | failing
  | answering (bridge? : Option String) (addresses : List AnySubnet)

/-- The leases of a network, which bear its name if it has no bridge. -/
def NetworkState.leases? (name : String) : NetworkState → Option (List Lease)
  | .failing => none
  | .answering bridge? addresses => some (addresses.map fun a => ⟨bridge?.getD name, a⟩)

/-- The name stands on a line by itself: it is not empty, and neither begins nor ends with a blank. -/
structure Proper (name : String) : Prop where
  ne_nil : name.toList ≠ []
  trimmed : Trimmed name.toList

instance (name : String) : Decidable (Proper name) :=
  decidable_of_iff (name.toList ≠ [] ∧ Trimmed name.toList)
    ⟨fun ⟨hne, htrimmed⟩ => ⟨hne, htrimmed⟩, fun ⟨hne, htrimmed⟩ => ⟨hne, htrimmed⟩⟩

/-- The program answers for the networks. -/
structure Describes (m : Machine) (program uri : String) (ns : List (String × NetworkState)) :
    Prop where
  listed : Prints m program uri ["net-list", "--all", "--name"] (NameRows · (ns.map Prod.fst))
  asked : ∀ n ∈ ns, match n.2 with
    | .failing => Refuses m program uri ["net-info", n.1] ∨
        Refuses m program uri ["net-dhcp-leases", n.1]
    | .answering bridge? addresses => Prints m program uri ["net-info", n.1] (InfoRows · bridge?) ∧
        Prints m program uri ["net-dhcp-leases", n.1] (LeaseRows · addresses)

/-! ## Names -/

/-- The name in a row. -/
def nameOfLine? (line : List Char) : Option String :=
  if (trim line).isEmpty then none else some (String.ofList (trim line))

theorem networkNames_eq (cs : List Char) : networkNames cs = (lines cs).filterMap nameOfLine? := by
  rw [networkNames]
  induction lines cs with
  | nil => rfl
  | cons l ls ih =>
      rw [List.map_cons, List.filter_cons, List.filterMap_cons, nameOfLine?, ← ih]
      cases (trim l).isEmpty with
      | true => rfl
      | false => rfl

theorem nameOfLine?_append_return (line : List Char) :
    nameOfLine? (line ++ ['\r']) = nameOfLine? line := by
  rw [nameOfLine?, trim_append_blank line blank_return, nameOfLine?]

theorem filterMap_nameRows {rows : List (List Char)} {names : List String} (h : NameRows rows names)
    (hproper : ∀ name ∈ names, Proper name) : rows.filterMap nameOfLine? = names := by
  induction h with
  | nil => rfl
  | @blank row rows names hblank _ ih =>
      have hrow : nameOfLine? row = none := by
        rw [nameOfLine?, trim_of_blank hblank]
        rfl
      rw [List.filterMap_cons_none hrow, ih hproper]
  | @name row rows name names hpadded _ ih =>
      obtain ⟨hne, htrimmed⟩ := hproper name List.mem_cons_self
      have hrow : nameOfLine? row = some name := by
        rw [nameOfLine?, trim_of_padded hpadded, htrimmed.trim, String.ofList_toList,
          if_neg (by simpa using hne)]
      rw [List.filterMap_cons_some hrow, ih fun n hn => hproper n (List.mem_cons_of_mem name hn)]

/-! ## Bridges -/

theorem keyValue?_append {key : List Char} (h : ':' ∉ key) (value : List Char) :
    keyValue? (key ++ ':' :: value) = some (trim key, trim value) := by
  have hkey : ∀ c ∈ key, decide (c ≠ ':') = true := by
    intro c hc
    exact decide_eq_true fun hcolon => h (hcolon ▸ hc)
  rw [keyValue?, List.span_eq_takeWhile_dropWhile, List.takeWhile_append_of_pos hkey,
    List.dropWhile_append_of_pos hkey]
  simp

theorem keyValue?_of_not_mem {line : List Char} (h : ':' ∉ line) : keyValue? line = none := by
  have hline : ∀ c ∈ line, decide (c ≠ ':') = true := by
    intro c hc
    exact decide_eq_true fun hcolon => h (hcolon ▸ hc)
  rw [keyValue?, List.span_eq_takeWhile_dropWhile, ← List.append_nil line,
    List.dropWhile_append_of_pos hline]
  rfl

theorem toLower_of_blank {c : Char} (h : isBlank c = true) : c.toLower = c := by
  refine dif_neg ?_
  rintro ⟨hlow, hhigh⟩
  have hlow : 65 ≤ c.toNat := UInt32.le_iff_toNat_le.mp hlow
  have hhigh : c.toNat ≤ 90 := UInt32.le_iff_toNat_le.mp hhigh
  simp only [isBlank, Bool.or_eq_true, Bool.and_eq_true, decide_eq_true_eq] at h
  omega

/-- A blank has no case, so no letter of a word is a blank in another case. -/
theorem not_blank_of_toLower {c d : Char} (h : c.toLower = d) (hd : isBlank d = false) :
    isBlank c = false := by
  cases hc : isBlank c with
  | false => rfl
  | true =>
      rw [toLower_of_blank hc] at h
      rw [h, hd] at hc
      cases hc

theorem namesBridge_iff {key : List Char} :
    NamesBridge key ↔ (trim key).map Char.toLower = "bridge".toList := by
  constructor
  · rintro ⟨word, hpadded, hword⟩
    have htrimmed : Trimmed word := by
      refine ⟨fun c hc => ?_, fun c hc => ?_⟩
      · have hhead : (word.map Char.toLower).head? = some c.toLower := by
          rw [List.head?_map, hc]
          rfl
        rw [hword] at hhead
        exact not_blank_of_toLower (Option.some.inj hhead).symm (by decide)
      · have hlast : (word.map Char.toLower).getLast? = some c.toLower := by
          rw [List.getLast?_map, hc]
          rfl
        rw [hword] at hlast
        exact not_blank_of_toLower (Option.some.inj hlast).symm (by decide)
    rw [trim_of_padded hpadded, htrimmed.trim, hword]
  · intro h
    exact ⟨trim key, padded_trim key, h⟩

theorem bridgeOfLine?_of_bridge {key value : List Char} {name : String} (hcolon : ':' ∉ key)
    (hkey : NamesBridge key) (hvalue : Padded name.toList value) (hname : Proper name) :
    bridgeOfLine? (key ++ ':' :: value) = some name := by
  have hnonempty : (!name.toList.isEmpty) = true := by simpa using hname.ne_nil
  rw [bridgeOfLine?, keyValue?_append hcolon, trim_of_padded hvalue, hname.trimmed.trim]
  simp only
  rw [if_pos ⟨namesBridge_iff.mp hkey, hnonempty⟩, String.ofList_toList]

theorem bridgeOfLine?_of_other {key : List Char} (hcolon : ':' ∉ key) (hkey : ¬ NamesBridge key)
    (value : List Char) : bridgeOfLine? (key ++ ':' :: value) = none := by
  rw [bridgeOfLine?, keyValue?_append hcolon]
  exact if_neg fun hboth => hkey (namesBridge_iff.mpr hboth.1)

theorem bridgeOfLine?_of_not_mem {line : List Char} (h : ':' ∉ line) :
    bridgeOfLine? line = none := by
  rw [bridgeOfLine?, keyValue?_of_not_mem h]

theorem bridgeOfLine?_append_return (line : List Char) :
    bridgeOfLine? (line ++ ['\r']) = bridgeOfLine? line := by
  by_cases hcolon : ':' ∈ line
  · obtain ⟨key, value, rfl, hkey⟩ := List.eq_append_cons_of_mem hcolon
    rw [List.append_assoc, List.cons_append, bridgeOfLine?, bridgeOfLine?, keyValue?_append hkey,
      keyValue?_append hkey, trim_append_blank value blank_return]
  · rw [bridgeOfLine?_of_not_mem hcolon, bridgeOfLine?_of_not_mem (by simpa using hcolon)]

theorem filterMap_infoRows {rows : List (List Char)} {bridge? : Option String}
    (h : InfoRows rows bridge?) (hproper : ∀ name, bridge? = some name → Proper name) :
    rows.filterMap bridgeOfLine? = bridge?.toList := by
  induction h with
  | nil => rfl
  | plain hrow _ ih => rw [List.filterMap_cons_none (bridgeOfLine?_of_not_mem hrow), ih hproper]
  | other hcolon hkey _ ih =>
      rw [List.filterMap_cons_none (bridgeOfLine?_of_other hcolon hkey _), ih hproper]
  | @bridge _ _ _ name hcolon hkey hvalue _ ih =>
      have hrow := bridgeOfLine?_of_bridge hcolon hkey hvalue (hproper name rfl)
      rw [List.filterMap_cons_some hrow, ih fun name hname => absurd hname nofun]
      rfl

/-! ## Leases -/

theorem leaseOfLine?_append_return (line : List Char) :
    leaseOfLine? (line ++ ['\r']) = leaseOfLine? line := by
  rw [leaseOfLine?, words_append_return, leaseOfLine?]

theorem leaseOfLine?_of_no_slash {line : List Char} (h : '/' ∉ line) :
    leaseOfLine? line = none := by
  refine List.findSome?_eq_none_iff.mpr fun word hword => ?_
  refine Option.eq_none_iff_forall_ne_some.mpr fun a ha => ?_
  have hslash := AnySubnet.slash_mem_of_ofText? ha
  rw [String.toList_ofList] at hslash
  exact h (mem_of_mem_words hword hslash)

/-- The address is found behind columns without a slash. -/
theorem leaseOfLine?_of_lease {before word after : List Char} {a : AnySubnet}
    (hbefore : '/' ∉ before) (hleft : ∀ c ∈ before.getLast?, isBlank c = true)
    (hword : ∀ c ∈ word, isBlank c = false)
    (haddress : AnySubnet.ofText? (String.ofList word) = some a)
    (hright : ∀ c ∈ after.head?, isBlank c = true) :
    leaseOfLine? (before ++ word ++ after) = some a := by
  have hne : word ≠ [] := by
    rintro rfl
    have hslash := AnySubnet.slash_mem_of_ofText? haddress
    rw [String.toList_ofList] at hslash
    exact List.not_mem_nil hslash
  have hwords : ∃ more, words (word ++ after) = word :: more := by
    cases after with
    | nil => exact ⟨[], by rw [List.append_nil, words_of_no_blank hne hword]⟩
    | cons c after =>
        refine ⟨words after, ?_⟩
        rw [words_append_blank (hright c rfl), words_of_no_blank hne hword, List.singleton_append]
  obtain ⟨more, hwords⟩ := hwords
  rw [leaseOfLine?, List.append_assoc]
  rcases List.eq_nil_or_concat before with rfl | ⟨front, c, rfl⟩
  · rw [List.nil_append, hwords, List.findSome?_cons, haddress]
  · rw [List.concat_eq_append] at hbefore hleft ⊢
    have hc : isBlank c = true := hleft c List.getLast?_concat
    have hfront := leaseOfLine?_of_no_slash fun hmem => hbefore (List.mem_append_left [c] hmem)
    rw [leaseOfLine?] at hfront
    rw [List.append_assoc, List.singleton_append, words_append_blank hc, hwords,
      List.findSome?_append, hfront, List.findSome?_cons, haddress]
    rfl

theorem filterMap_leaseRows {rows : List (List Char)} {addresses : List AnySubnet}
    (h : LeaseRows rows addresses) : rows.filterMap leaseOfLine? = addresses := by
  induction h with
  | nil => rfl
  | heading hrow _ ih => rw [List.filterMap_cons_none (leaseOfLine?_of_no_slash hrow), ih]
  | lease hbefore hleft hword haddress hright _ ih =>
      rw [List.filterMap_cons_some (leaseOfLine?_of_lease hbefore hleft hword haddress hright), ih]

/-! ## The survey -/

theorem run_of_prints {m : Machine} {program uri : String} {args : List String}
    {shape : List (List Char) → Prop} (h : Prints m program uri args shape) :
    ∃ rows, (∀ row ∈ rows, '\n' ∉ row) ∧ shape rows ∧
      (run m program uri args).result = .ok (List.intercalate ['\n'] rows) := by
  obtain ⟨rows, hrows, hshape, stderr, hout⟩ := h
  refine ⟨rows, hrows, hshape, ?_⟩
  rw [run, hout]
  simp only [if_pos, outputText, decodeLossy_toUTF8, String.toList_ofList]

theorem run_of_refuses {m : Machine} {program uri : String} {args : List String}
    (h : Refuses m program uri args) : ∃ e, (run m program uri args).result = .error e := by
  rw [run]
  cases hout : m program (connection uri ++ args) with
  | error e => exact ⟨_, rfl⟩
  | ok out => exact ⟨_, if_neg (h out hout)⟩

/-- The networks of a program that answers for them are listed as they are. -/
theorem networks_of_prints {m : Machine} {program uri : String} {names : List String}
    (hproper : ∀ name ∈ names, Proper name)
    (h : Prints m program uri ["net-list", "--all", "--name"] (NameRows · names)) :
    (networks m program uri).result = .ok names := by
  obtain ⟨rows, hrows, hshape, hrun⟩ := run_of_prints h
  have hread : networkNames (List.intercalate ['\n'] rows) = names := by
    rw [networkNames_eq, filterMap_lines nameOfLine?_append_return rfl hrows,
      filterMap_nameRows hshape hproper]
  rw [networks, Answer.result_andThen_ok hrun, hread]
  rfl

theorem leases_of_prints {m : Machine} {program uri name : String} {bridge? : Option String}
    {addresses : List AnySubnet} (hproper : ∀ bridge, bridge? = some bridge → Proper bridge)
    (hinfo : Prints m program uri ["net-info", name] (InfoRows · bridge?))
    (htable : Prints m program uri ["net-dhcp-leases", name] (LeaseRows · addresses)) :
    (leases m program uri name).result =
      .ok (addresses.map fun a => ⟨bridge?.getD name, a⟩) := by
  obtain ⟨rows, hrows, hshape, hrun⟩ := run_of_prints hinfo
  obtain ⟨rows', hrows', hshape', hrun'⟩ := run_of_prints htable
  have hbridge : Virsh.bridge? (List.intercalate ['\n'] rows) = bridge? := by
    rw [Virsh.bridge?, ← List.head?_filterMap, filterMap_lines bridgeOfLine?_append_return rfl hrows,
      filterMap_infoRows hshape hproper]
    cases bridge? with
    | none => rfl
    | some bridge => rfl
  have haddresses : leaseAddresses (List.intercalate ['\n'] rows') = addresses := by
    rw [leaseAddresses, filterMap_lines leaseOfLine?_append_return rfl hrows',
      filterMap_leaseRows hshape']
  rw [leases, Answer.result_andThen_ok hrun, Answer.result_andThen_ok hrun', hbridge, haddresses]
  rfl

theorem leases_of_refuses {m : Machine} {program uri name : String}
    (h : Refuses m program uri ["net-info", name] ∨ Refuses m program uri ["net-dhcp-leases", name]) :
    ∃ e, (leases m program uri name).result = .error e := by
  rw [leases]
  cases hinfo : (run m program uri ["net-info", name]).result with
  | error e => exact ⟨e, Answer.result_andThen_error hinfo _⟩
  | ok info =>
      rw [Answer.result_andThen_ok hinfo]
      rcases h with h | h
      · obtain ⟨e, he⟩ := run_of_refuses h
        rw [hinfo] at he
        cases he
      · obtain ⟨e, he⟩ := run_of_refuses h
        exact ⟨e, Answer.result_andThen_error he _⟩

/-- The networks as they are known beforehand. -/
def knownNetworks (ns : List (String × NetworkState)) : List (String × Option (List Lease)) :=
  ns.map fun n => (n.1, n.2.leases? n.1)

/-- A survey through a program that answers for some networks, and a survey of the same networks that
are known beforehand, both find the same in use: the leases of the networks that do not fail. -/
theorem survey_agrees {m : Machine} {program uri : String} {ns : List (String × NetworkState)}
    (hnames : ∀ n ∈ ns, Proper n.1) (hdistinct : (ns.map Prod.fst).Nodup)
    (hbridges : ∀ n ∈ ns, ∀ bridge addresses, n.2 = .answering (some bridge) addresses →
      Proper bridge)
    (h : Describes m program uri ns) (m' : Machine) :
    ∃ o, ((hypervisor program uri).survey m).result = .ok o ∧
      ((Hypervisor.known (.ofList (knownNetworks ns))).survey m').result = .ok o ∧
      o.Holds (.ofLeases (Hypervisor.leasesIn (knownNetworks ns))) := by
  have hsame : (knownNetworks ns).map Prod.fst = ns.map Prod.fst := by
    rw [knownNetworks, List.map_map]
    rfl
  refine ⟨Occupancy.ofLeases (Hypervisor.leasesIn (knownNetworks ns)), ?_, ?_, ?_⟩
  · refine Hypervisor.survey_eq ?_ fun p hp => ?_
    · rw [hsame]
      refine networks_of_prints (fun name hname => ?_) h.listed
      obtain ⟨n, hn, rfl⟩ := List.mem_map.mp hname
      exact hnames n hn
    · obtain ⟨n, hn, rfl⟩ := List.mem_map.mp hp
      have hasked := h.asked n hn
      have hproper := hbridges n hn
      change (leases m program uri n.1).result.toOption = n.2.leases? n.1
      cases hstate : n.2 with
      | failing =>
          rw [hstate] at hasked
          obtain ⟨e, he⟩ := leases_of_refuses hasked
          rw [he]
          rfl
      | answering bridge? addresses =>
          rw [hstate] at hasked hproper
          have hleases := leases_of_prints (fun bridge hbridge => hproper bridge addresses
            (hbridge ▸ rfl)) hasked.1 hasked.2
          rw [hleases]
          rfl
  · exact Hypervisor.survey_known (hsame ▸ hdistinct) m'
  · exact Occupancy.holds_empty.addLeases _

/-! ## Two networks -/

/-- The rows, printed with success. -/
def printed (rows : List (List Char)) : Output :=
  ⟨(String.ofList (List.intercalate ['\n'] rows)).toUTF8, .empty, some 0⟩

def twoNames : List (List Char) := ["lan".toList, " gone\r".toList, []]

def lanInfo : List (List Char) := ["Name: lan".toList, "BRIDGE:  br0".toList]

def lanLeases : List (List Char) :=
  [" MAC address  IP address  Hostname".toList, "-----".toList,
    " 52:54:00:aa  10.0.0.5/24  vm/1".toList]

/-- A program that knows the network `lan`, with a bridge and a lease, and fails for `gone`. -/
def twoNetworks : Machine := fun _ args =>
  if args = connection "" ++ ["net-list", "--all", "--name"] then .ok (printed twoNames)
  else if args = connection "" ++ ["net-info", "lan"] then .ok (printed lanInfo)
  else if args = connection "" ++ ["net-dhcp-leases", "lan"] then .ok (printed lanLeases)
  else .ok ⟨.empty, .empty, some 1⟩

theorem lan_length_le : 24 ≤ Family.v4.width := by decide

def lanAddress : AnySubnet := .of (⟨⟨0x0a000005, by decide⟩, 24, lan_length_le⟩ : Subnet .v4)

def twoStates : List (String × NetworkState) :=
  [("lan", .answering (some "br0") [lanAddress]), ("gone", .failing)]

theorem twoNetworks_describes : Describes twoNetworks "virsh" "" twoStates := by
  have hnames : NameRows twoNames ["lan", "gone"] :=
    .name ⟨[], [], by decide, by decide, rfl⟩ <|
      .name ⟨[' '], ['\r'], by decide, by decide, by decide⟩ <| .blank (by decide) .nil
  have hinfo : InfoRows lanInfo (some "br0") := by
    change InfoRows ["Name".toList ++ ':' :: " lan".toList, "BRIDGE".toList ++ ':' :: "  br0".toList]
      (some "br0")
    refine .other (by decide) ?_ (.bridge (by decide) ?_ ⟨"  ".toList, [], ?_, ?_, rfl⟩ .nil)
    · rw [namesBridge_iff]
      decide
    · rw [namesBridge_iff]
      decide
    · decide
    · decide
  have hleases : LeaseRows lanLeases [lanAddress] := by
    refine .heading (by decide) (.heading (by decide) ?_)
    change LeaseRows [" 52:54:00:aa  ".toList ++ "10.0.0.5/24".toList ++ "  vm/1".toList] [lanAddress]
    refine .lease (by decide) (fun c hc => ?_) (fun c hc => ?_) (by decide +kernel) (fun c hc => ?_)
      .nil
    · obtain rfl : ' ' = c := Option.some.inj hc
      decide
    · have hword : "10.0.0.5/24".toList.all (!isBlank ·) = true := by decide
      simpa using List.all_eq_true.mp hword c hc
    · obtain rfl : ' ' = c := Option.some.inj hc
      decide
  refine ⟨⟨twoNames, by decide, hnames, .empty, rfl⟩, fun n hn => ?_⟩
  rcases List.mem_cons.mp hn with rfl | hn
  · exact ⟨⟨lanInfo, by decide, hinfo, .empty, rfl⟩, ⟨lanLeases, by decide, hleases, .empty, rfl⟩⟩
  · rw [List.mem_singleton.mp hn]
    refine .inl fun out hout => ?_
    cases hout
    decide

/-- The bridge of `lan` is in use, and not the network that fails. -/
theorem survey_agrees_twoNetworks : ∃ o,
    ((hypervisor "virsh" "").survey twoNetworks).result = .ok o ∧
      ((Hypervisor.known (.ofList (knownNetworks twoStates))).survey twoNetworks).result = .ok o ∧
      o.hasName "br0" = true ∧ o.hasName "gone" = false := by
  have hbridges : ∀ n ∈ twoStates, ∀ bridge addresses,
      n.2 = .answering (some bridge) addresses → Proper bridge := by
    intro n hn bridge addresses hstate
    rcases List.mem_cons.mp hn with rfl | hn
    · cases hstate
      decide
    · rw [List.mem_singleton.mp hn] at hstate
      cases hstate
  obtain ⟨o, hvirsh, hknown, hholds⟩ :=
    survey_agrees (by decide) (by decide) hbridges twoNetworks_describes twoNetworks
  refine ⟨o, hvirsh, hknown, hholds.hasName_iff.mpr (by decide), ?_⟩
  exact Bool.eq_false_iff.mpr (mt hholds.hasName_iff.mp (by decide))

end Virsh

end NetPool
