import NetPool.Net.Notation
import NetPool.Proofs.Text.Numeral

/-! # Written subnets

Reading the text of a subnet gives back that subnet, host bits included. The one hard part is the
gap of a long address: whatever run of zeros the writer leaves out, the reader puts back. -/

namespace NetPool.Notation

open Numeral Text

/-! ## Four octets -/

@[simp] theorem expect_cons_self (c : Char) (cs : List Char) : expect c (c :: cs) = some cs := by
  simp [expect]

theorem expect_eq_none {c : Char} {cs : List Char} (h : cs.head? ≠ some c) :
    expect c cs = none := by
  cases cs with
  | nil => rfl
  | cons d cs =>
      have hne : d ≠ c := by simpa using h
      simp [expect, hne]

/-- Leading zeros are tolerated in a subnet, so an octet is read like any numeral. -/
theorem readOctet_subnetTolerance (cs : List Char) :
    readOctet subnetTolerance cs = Numeral.read 10 3 256 cs := by
  unfold readOctet
  split <;> simp [subnetTolerance]

theorem readOctet_decimal {n : Nat} (hn : n < 256) {rest : List Char}
    (hrest : EndsRun (isDigit 10) rest) :
    readOctet subnetTolerance (decimal n ++ rest) = some (n, rest) := by
  rw [readOctet_subnetTolerance]
  refine read_toDigits (by decide) (by decide) ?_ hn hrest
  exact (Nat.length_toDigits_le_iff (by decide) (by decide)).mpr (by omega)

theorem quad_append (n : Nat) (rest : List Char) :
    quad n ++ rest =
      decimal (n / 0x1000000 % 256) ++ '.' :: (decimal (n / 0x10000 % 256) ++ '.' ::
        (decimal (n / 0x100 % 256) ++ '.' :: (decimal (n % 256) ++ rest))) := by
  simp [quad, octets, List.intercalate]

theorem readQuad_quad {n : Nat} (hn : n < 0x100000000) {rest : List Char}
    (hrest : EndsRun (isDigit 10) rest) :
    readQuad subnetTolerance (quad n ++ rest) = some (n, rest) := by
  have hpoint : ∀ cs, EndsRun (isDigit 10) ('.' :: cs) := fun cs => endsRun_cons (by decide)
  have hoctet : ∀ m, m % 256 < 256 := fun m => Nat.mod_lt _ (by decide)
  have hsum : ((n / 0x1000000 % 256 * 256 + n / 0x10000 % 256) * 256 + n / 0x100 % 256) * 256 +
      n % 256 = n := by omega
  rw [quad_append, readQuad]
  simp only [readOctet_decimal (hoctet _) (hpoint _), readOctet_decimal (hoctet _) hrest,
    expect_cons_self, Option.bind_eq_bind, Option.bind_some, hsum]

/-- A text that starts with hexadecimal digits and goes on without a point is no four octets. -/
theorem readQuad_eq_none {run rest : List Char} (hrun : ∀ c ∈ run, isDigit 16 c = true)
    (hrest : EndsRun (isDigit 16) rest) (hpoint : rest.head? ≠ some '.') :
    readQuad subnetTolerance (run ++ rest) = none := by
  have hten : ∀ c, isDigit 16 c = false → isDigit 10 c = false := by
    intro c hc
    unfold isDigit at hc ⊢
    split at hc
    · simp only [decide_eq_false_iff_not] at hc ⊢
      omega
    · rfl
  have hleft : ((run ++ rest).dropWhile (isDigit 10)).head? ≠ some '.' := by
    rw [List.dropWhile_append]
    split
    · rw [dropWhile_of_endsRun fun c hc => hten c (hrest c hc)]
      exact hpoint
    · rename_i hne
      obtain ⟨c, cs, hcs⟩ := List.exists_cons_of_ne_nil (l := run.dropWhile (isDigit 10))
        (by simpa using hne)
      have hc : c ∈ run := (List.dropWhile_sublist _).subset (hcs ▸ List.mem_cons_self)
      rw [hcs]
      intro hdot
      obtain rfl : c = '.' := by simpa using hdot
      exact absurd (hrun '.' hc) (by decide)
  rw [readQuad, readOctet_subnetTolerance, Numeral.read]
  dsimp only
  split
  · rfl
  · simp [expect_eq_none hleft]

/-! ## Groups -/

/-- Groups, each with the colon before it. -/
def colonsBefore (gs : List Nat) : List Char := gs.flatMap fun g => ':' :: hex g

theorem colonated_cons (g : Nat) (gs : List Nat) :
    colonated (g :: gs) = hex g ++ colonsBefore gs := by
  induction gs generalizing g with
  | nil => simp [colonated, colonsBefore, List.intercalate]
  | cons h gs ih =>
      have hstep : colonated (g :: h :: gs) = hex g ++ ':' :: colonated (h :: gs) := by
        simp [colonated, List.intercalate]
      rw [hstep, ih]
      simp [colonsBefore]

/-- A text after which no further group is read. -/
structure EndsGroups (rest : List Char) : Prop where
  digits : EndsRun (isDigit 16) rest
  point : rest.head? ≠ some '.'

theorem readGroup_hex {g : Nat} (hg : g < 65536) {rest : List Char} (hrest : EndsGroups rest) :
    Numeral.read 16 4 65536 (hex g ++ rest) = some (g, rest) ∧
      readQuad subnetTolerance (hex g ++ rest) = none := by
  constructor
  · refine read_toDigits (by decide) (by decide) ?_ hg hrest.digits
    exact (Nat.length_toDigits_le_iff (by decide) (by decide)).mpr (by omega)
  · exact readQuad_eq_none
      (fun c hc => isDigit_of_mem_toDigits (by decide) (by decide) hc) hrest.digits hrest.point

theorem endsGroups_colonsBefore (gs : List Nat) {rest : List Char} (hrest : EndsGroups rest) :
    EndsGroups (colonsBefore gs ++ rest) := by
  cases gs with
  | nil => simpa [colonsBefore] using hrest
  | cons g gs => exact ⟨endsRun_cons (by decide), by simp [colonsBefore]⟩

/-- Where neither a colon nor a group follows, no group is read. -/
theorem readGroups_stop {k : Nat} {isStart : Bool} {rest : List Char}
    (hstart : isStart = true → EndsGroups rest)
    (hcolon : isStart = false → ∀ more, expect ':' rest = some more → EndsGroups more) :
    readGroups subnetTolerance k isStart rest = ⟨[], false, rest⟩ := by
  have hnone : ∀ {body : List Char}, EndsGroups body →
      readQuad subnetTolerance body = none ∧ Numeral.read 16 4 65536 body = none := by
    intro body hbody
    refine ⟨?_, read_eq_none hbody.digits⟩
    simpa using readQuad_eq_none (fun c hc => absurd hc List.not_mem_nil) hbody.digits hbody.point
  cases k with
  | zero => rfl
  | succ k =>
      unfold readGroups
      cases isStart with
      | true =>
          obtain ⟨hquad, hread⟩ := hnone (hstart rfl)
          simp [hquad, hread]
      | false =>
          cases hbody : expect ':' rest with
          | none => simp
          | some body =>
              obtain ⟨hquad, hread⟩ := hnone (hcolon rfl body hbody)
              simp [hquad, hread]

/-- Groups with colons before them are read one by one, up to a text where no group follows. -/
theorem readGroups_colonsBefore {gs : List Nat} (hgs : ∀ g ∈ gs, g < 65536) {k : Nat}
    (hk : gs.length ≤ k) {rest : List Char} (hrest : EndsGroups rest)
    (hstop : readGroups subnetTolerance (k - gs.length) false rest = ⟨[], false, rest⟩) :
    readGroups subnetTolerance k false (colonsBefore gs ++ rest) = ⟨gs, false, rest⟩ := by
  induction gs generalizing k with
  | nil => simpa [colonsBefore] using hstop
  | cons g gs ih =>
      obtain ⟨k, rfl⟩ : ∃ j, k = j + 1 := ⟨k - 1, by simp only [List.length_cons] at hk; omega⟩
      have htext : colonsBefore (g :: gs) ++ rest = ':' :: (hex g ++ (colonsBefore gs ++ rest)) := by
        simp [colonsBefore]
      obtain ⟨hread, hquad⟩ := readGroup_hex (hgs g (by simp)) (endsGroups_colonsBefore gs hrest)
      have hmore := ih (fun x hx => hgs x (List.mem_cons_of_mem g hx)) (k := k) (by simpa using hk)
        (by simpa using hstop)
      rw [htext, readGroups]
      simp [hread, hquad, hmore]

theorem readGroups_colonated {gs : List Nat} (hgs : ∀ g ∈ gs, g < 65536) {k : Nat}
    (hk : gs.length ≤ k) {rest : List Char} (hrest : EndsGroups rest)
    (hstop : readGroups subnetTolerance (k - gs.length) false rest = ⟨[], false, rest⟩) :
    readGroups subnetTolerance k true (colonated gs ++ rest) = ⟨gs, false, rest⟩ := by
  cases gs with
  | nil => exact readGroups_stop (fun _ => by simpa [colonated] using hrest) (by simp)
  | cons g gs =>
      obtain ⟨k, rfl⟩ : ∃ j, k = j + 1 := ⟨k - 1, by simp only [List.length_cons] at hk; omega⟩
      obtain ⟨hread, hquad⟩ := readGroup_hex (hgs g (by simp)) (endsGroups_colonsBefore gs hrest)
      have hmore := readGroups_colonsBefore (fun x hx => hgs x (List.mem_cons_of_mem g hx)) (k := k)
        (by simpa using hk) hrest (by simpa using hstop)
      rw [colonated_cons, List.append_assoc, readGroups]
      simp [hread, hquad, hmore]

/-! ## The gap -/

/-- The places from `run.1` on, `run.2` of them, hold zeros. -/
def IsZeroRun (gs : List Nat) (run : Nat × Nat) : Prop := ∀ j < run.2, gs[run.1 + j]? = some 0

/-- The run that is found is one of zeros; the invariant is that the `seen` places before the
present one hold zeros, too. -/
theorem longestRun_isZeroRun (front gs : List Nat) {seen : Nat} {best : Nat × Nat}
    (hseen : seen ≤ front.length) (hzeros : IsZeroRun (front ++ gs) (front.length - seen, seen))
    (hbest : IsZeroRun (front ++ gs) best) :
    IsZeroRun (front ++ gs) (longestRun gs front.length seen best) := by
  induction gs generalizing front seen best with
  | nil => exact hbest
  | cons g gs ih =>
      have hsplit : front ++ g :: gs = (front ++ [g]) ++ gs := by simp
      have hlength : (front ++ [g]).length = front.length + 1 := by simp
      rw [longestRun, ← hlength]
      split
      · rename_i hg
        have hrun : IsZeroRun (front ++ g :: gs) (front.length - seen, seen + 1) := by
          intro j hj
          by_cases hlast : j = seen
          · rw [hlast, Nat.sub_add_cancel hseen, hg]
            simp
          · exact hzeros j (by simp only at hj; omega)
        rw [hsplit] at hrun hbest ⊢
        refine ih (front ++ [g]) (by omega) ?_ ?_
        · rwa [hlength, Nat.add_sub_add_right]
        · split
          · exact hrun
          · exact hbest
      · rw [hsplit] at hbest ⊢
        exact ih (front ++ [g]) (by omega) (fun j hj => absurd hj (by simp)) hbest

/-- What a run of zeros leaves out is put back by as many zeros. -/
theorem take_append_drop_of_isZeroRun {gs : List Nat} {start len : Nat} (hpos : 0 < len)
    (h : IsZeroRun gs (start, len)) :
    start + len ≤ gs.length ∧
      gs.take start ++ List.replicate len 0 ++ gs.drop (start + len) = gs := by
  have hlast := h (len - 1) (by simp only; omega)
  have hbound : start + len ≤ gs.length := by
    have hlt := (List.getElem?_eq_some_iff.mp hlast).1
    simp only at hlt
    omega
  refine ⟨hbound, ?_⟩
  have hzeros : (gs.drop start).take len = List.replicate len 0 := by
    apply List.ext_getElem?
    intro j
    by_cases hj : j < len
    · rw [List.getElem?_take_of_lt hj, List.getElem?_drop, h j hj]
      simp [hj]
    · rw [List.getElem?_take_eq_none (by omega), List.getElem?_eq_none (by simpa using hj)]
  calc
    gs.take start ++ List.replicate len 0 ++ gs.drop (start + len)
        = gs.take start ++ ((gs.drop start).take len ++ (gs.drop start).drop len) := by
          rw [hzeros, List.drop_drop, List.append_assoc]
    _ = gs := by rw [List.take_append_drop, List.take_append_drop]

/-! ## Eight groups -/

theorem length_groups (n : Nat) : (groups n).length = 8 := by simp [groups]

theorem lt_of_mem_groups {n g : Nat} (h : g ∈ groups n) : g < 65536 := by
  obtain ⟨i, -, rfl⟩ := List.mem_map.mp h
  exact Nat.mod_lt _ (by decide)

theorem ofGroups_groups {n : Nat} (h : n < Family.v6.size) : ofGroups (groups n) = n := by
  -- each group continues the number that the groups before it write
  have hnext : ∀ k, n >>> (k + 16) * 65536 + n >>> k % 65536 = n >>> k := by
    intro k
    have hdiv : n >>> k >>> 16 = n >>> k / 65536 := Nat.shiftRight_eq_div_pow (n >>> k) 16
    rw [Nat.shiftRight_add, hdiv]
    exact Nat.div_add_mod' _ _
  have htop : n >>> 128 = 0 := (Nat.shiftRight_eq_div_pow n 128).trans (Nat.div_eq_of_lt h)
  have h₇ := hnext 112
  have h₆ := hnext 96
  have h₅ := hnext 80
  have h₄ := hnext 64
  have h₃ := hnext 48
  have h₂ := hnext 32
  have h₁ := hnext 16
  have h₀ := hnext 0
  simp only [Nat.reduceAdd, htop, Nat.zero_mul, Nat.zero_add, Nat.shiftRight_zero] at *
  simp only [ofGroups, groups, List.range, List.range.loop, List.map, List.foldl, Nat.reduceSub,
    Nat.reduceMul, Nat.zero_mul, Nat.zero_add, Nat.shiftRight_zero, *]

/-! ## Addresses and subnets -/

theorem endsGroups_slash (cs : List Char) : EndsGroups ('/' :: cs) :=
  ⟨endsRun_cons (by decide), by simp⟩

theorem endsGroups_colon (cs : List Char) : EndsGroups (':' :: cs) :=
  ⟨endsRun_cons (by decide), by simp⟩

/-- At the two colons of a gap the groups before it end. -/
theorem readGroups_gap (k : Nat) (isStart : Bool) (cs : List Char) :
    readGroups subnetTolerance k isStart (':' :: ':' :: cs) = ⟨[], false, ':' :: ':' :: cs⟩ := by
  refine readGroups_stop (fun _ => endsGroups_colon _) fun _ more hmore => ?_
  obtain rfl : ':' :: cs = more := by simpa using hmore
  exact endsGroups_colon cs

/-- At the slash before the prefix length the groups end. -/
theorem readGroups_slash (k : Nat) (isStart : Bool) (cs : List Char) :
    readGroups subnetTolerance k isStart ('/' :: cs) = ⟨[], false, '/' :: cs⟩ := by
  refine readGroups_stop (fun _ => endsGroups_slash cs) fun _ more hmore => ?_
  simp [expect] at hmore

/-- An address that embeds a short one is read back. -/
theorem readLong_embedded {n : Nat} (hn : n / 0x100000000 = 0xffff) (cs : List Char) :
    readLong subnetTolerance ("::ffff:".toList ++ quad (n % 0x100000000) ++ '/' :: cs) =
      some (n, '/' :: cs) := by
  obtain ⟨q, hq⟩ : ∃ q, q = n % 0x100000000 := ⟨_, rfl⟩
  have hlt : q < 0x100000000 := by omega
  have hslash : EndsRun (isDigit 10) ('/' :: cs) := endsRun_cons (by decide)
  obtain ⟨hread, hquad⟩ := readGroup_hex (g := 0xffff) (by decide)
    (endsGroups_colon (quad q ++ '/' :: cs))
  have hback : readGroups subnetTolerance 8 true (hex 0xffff ++ ':' :: (quad q ++ '/' :: cs)) =
      ⟨[0xffff, q / 65536, q % 65536], true, '/' :: cs⟩ := by
    rw [readGroups]
    simp only [hread, hquad, Nat.reduceEqDiff, ite_true, ite_false]
    rw [readGroups]
    simp [readQuad_quad hlt hslash]
  have hsum : ofGroups ([] ++ List.replicate 5 0 ++ [0xffff, q / 65536, q % 65536]) = n := by
    simp only [ofGroups, List.nil_append, List.replicate, List.cons_append, List.foldl]
    omega
  have htext : "::ffff:".toList ++ quad q ++ '/' :: cs =
      ':' :: ':' :: (hex 0xffff ++ ':' :: (quad q ++ '/' :: cs)) := by
    rw [show hex 0xffff = ['f', 'f', 'f', 'f'] by decide]
    simp
  rw [← hq, htext, readLong, readGroups_gap]
  simp only [List.length_nil, expect_cons_self, Option.bind_eq_bind, Option.bind_some]
  have hidle : subnetTolerance.idleGap = true := rfl
  simpa [hidle, hback] using hsum

/-- Eight groups with a gap for a run of zeros are read back. -/
theorem readLong_gap {gs : List Nat} (hvalues : ∀ g ∈ gs, g < 65536) (hall : gs.length = 8)
    {run : Nat × Nat} (hpos : 0 < run.2) (hrun : IsZeroRun gs run) (cs : List Char) :
    readLong subnetTolerance (colonated (gs.take run.1) ++ "::".toList ++
      colonated (gs.drop (run.1 + run.2)) ++ '/' :: cs) = some (ofGroups gs, '/' :: cs) := by
  obtain ⟨start, len⟩ := run
  obtain ⟨hbound, hfill⟩ := take_append_drop_of_isZeroRun hpos hrun
  rw [hall] at hbound
  have hstart : (gs.take start).length = start := by
    rw [List.length_take, hall]
    omega
  have hend : (gs.drop (start + len)).length = 8 - (start + len) := by
    rw [List.length_drop, hall]
  let back := colonated (gs.drop (start + len)) ++ '/' :: cs
  have hfront : readGroups subnetTolerance 8 true
      (colonated (gs.take start) ++ ':' :: ':' :: back) =
      ⟨gs.take start, false, ':' :: ':' :: back⟩ :=
    readGroups_colonated (fun g hg => hvalues g (List.mem_of_mem_take hg)) (by omega)
      (endsGroups_colon _) (readGroups_gap _ _ _)
  have hback : readGroups subnetTolerance (8 - start) true back =
      ⟨gs.drop (start + len), false, '/' :: cs⟩ :=
    readGroups_colonated (fun g hg => hvalues g (List.mem_of_mem_drop hg)) (by omega)
      (endsGroups_slash cs) (readGroups_slash _ _ _)
  have hgap : 8 - start - (8 - (start + len)) = len := by omega
  have hshort : start ≠ 8 := by omega
  have hidle : subnetTolerance.idleGap = true := rfl
  have htext : colonated (gs.take start) ++ "::".toList ++ colonated (gs.drop (start + len)) ++
      '/' :: cs = colonated (gs.take start) ++ ':' :: ':' :: back := by simp [back]
  rw [htext, readLong, hfront]
  simp only [hstart, hshort, expect_cons_self, hidle, hback, hend, hgap, hfill,
    Option.bind_eq_bind, Option.bind_some, ite_true, ite_false, Nat.sub_zero, Bool.false_eq_true]

/-- Eight groups without a gap are read back. -/
theorem readLong_colonated {gs : List Nat} (hvalues : ∀ g ∈ gs, g < 65536) (hall : gs.length = 8)
    (cs : List Char) :
    readLong subnetTolerance (colonated gs ++ '/' :: cs) = some (ofGroups gs, '/' :: cs) := by
  have hfront : readGroups subnetTolerance 8 true (colonated gs ++ '/' :: cs) =
      ⟨gs, false, '/' :: cs⟩ :=
    readGroups_colonated hvalues (by omega) (endsGroups_slash cs) (readGroups_slash _ _ _)
  rw [readLong, hfront]
  simp [hall]

/-- The address part of a written long subnet is read back. -/
theorem readLong_long {n : Nat} (hn : n < Family.v6.size) (cs : List Char) :
    readLong subnetTolerance (long n ++ '/' :: cs) = some (n, '/' :: cs) := by
  have hvalues : ∀ g ∈ groups n, g < 65536 := fun g hg => lt_of_mem_groups hg
  have hrun : IsZeroRun (groups n) (longestRun (groups n) 0 0 (0, 0)) :=
    longestRun_isZeroRun [] (groups n) (Nat.le_refl 0) (fun j hj => absurd hj (by simp))
      (fun j hj => absurd hj (by simp))
  rw [long]
  split
  · rename_i hembedded
    exact readLong_embedded hembedded cs
  · dsimp only
    split
    · rename_i hlen
      rw [readLong_gap hvalues (length_groups n) (Nat.zero_lt_of_lt hlen) hrun, ofGroups_groups hn]
    · rw [readLong_colonated hvalues (length_groups n), ofGroups_groups hn]

theorem readValue_ofAddress {f : Family} (a : Address f) (cs : List Char) :
    readValue subnetTolerance f (ofAddress a ++ '/' :: cs) = some (a.value, '/' :: cs) := by
  cases f with
  | v4 => exact readQuad_quad a.value_lt (endsRun_cons (by decide))
  | v6 => exact readLong_long a.value_lt cs

theorem subnet?_ofSubnet {f : Family} (s : Subnet f) : subnet? f (ofSubnet s) = some s := by
  have hlength : Numeral.read 10 (lengthPlaces f) (f.width + 1) (decimal s.length) =
      some (s.length, []) := by
    have hle := s.length_le
    rw [← List.append_nil (decimal s.length)]
    refine read_toDigits (by decide) (by decide) ?_ (by omega) (endsRun_nil _)
    cases f with
    | v4 =>
        have hlt : s.length < 100 := Nat.lt_of_le_of_lt hle (by decide)
        exact (Nat.length_toDigits_le_iff (by decide) (by decide)).mpr hlt
    | v6 =>
        have hlt : s.length < 1000 := Nat.lt_of_le_of_lt hle (by decide)
        exact (Nat.length_toDigits_le_iff (by decide) (by decide)).mpr hlt
  rw [subnet?, ofSubnet, readValue_ofAddress]
  simp [hlength, Address.ofNat?, s.address.value_lt, s.length_le]

/-! ## Texts without a slash

Whatever is left unread is the end of the text, so a slash that follows an address stands in the
text. -/

variable {t : Tolerance}

theorem read_suffix {base places limit n : Nat} {cs rest : List Char}
    (h : Numeral.read base places limit cs = some (n, rest)) : rest <:+ cs := by
  rw [Numeral.read] at h
  split at h
  · cases h
  · cases h
    exact List.dropWhile_suffix _

theorem eq_cons_of_expect {c : Char} {cs rest : List Char} (h : expect c cs = some rest) :
    cs = c :: rest := by
  cases cs with
  | nil => cases h
  | cons d cs =>
      rw [expect] at h
      split at h
      · rename_i hd
        cases h
        rw [hd]
      · cases h

theorem readOctet_suffix {n : Nat} {cs rest : List Char}
    (h : readOctet t cs = some (n, rest)) : rest <:+ cs := by
  unfold readOctet at h
  split at h
  · split at h
    · cases h
    · exact read_suffix h
  · exact read_suffix h

/-- An octet after the character that must come first. -/
theorem readOctet_expect_suffix {c : Char} {n : Nat} {cs mid rest : List Char}
    (hc : expect c cs = some mid) (h : readOctet t mid = some (n, rest)) : rest <:+ cs := by
  rw [eq_cons_of_expect hc]
  exact (readOctet_suffix h).trans (List.suffix_cons c mid)

theorem readQuad_suffix {n : Nat} {cs rest : List Char} (h : readQuad t cs = some (n, rest)) :
    rest <:+ cs := by
  simp only [readQuad, Option.bind_eq_bind, Option.bind_eq_some_iff, Prod.exists] at h
  obtain ⟨a, cs₁, h₁, cs₂, h₂, b, cs₃, h₃, cs₄, h₄, c, cs₅, h₅, cs₆, h₆, d, cs₇, h₇, heq⟩ := h
  cases heq
  have hsecond := (readOctet_expect_suffix h₂ h₃).trans (readOctet_suffix h₁)
  have hthird := (readOctet_expect_suffix h₄ h₅).trans hsecond
  exact (readOctet_expect_suffix h₆ h₇).trans hthird

theorem readGroups_suffix (k : Nat) (isStart : Bool) (cs : List Char) :
    (readGroups t k isStart cs).rest <:+ cs := by
  induction k generalizing isStart cs with
  | zero => exact List.suffix_refl cs
  | succ k ih =>
      rw [readGroups]
      split
      · exact List.suffix_refl cs
      · rename_i body hbody
        have hstart : body <:+ cs := by
          cases isStart with
          | true =>
              cases hbody
              exact List.suffix_refl cs
          | false =>
              rw [eq_cons_of_expect hbody]
              exact List.suffix_cons _ _
        split
        · rename_i q rest hquad
          split at hquad
          · cases hquad
          · exact (readQuad_suffix hquad).trans hstart
        · split
          · exact List.suffix_refl cs
          · rename_i g rest hread
            exact (ih false rest).trans ((read_suffix hread).trans hstart)

theorem readLong_suffix {n : Nat} {cs rest : List Char} (h : readLong t cs = some (n, rest)) :
    rest <:+ cs := by
  rw [readLong] at h
  simp only at h
  split at h
  · cases h
    exact readGroups_suffix 8 true cs
  · split at h
    · cases h
    · simp only [Option.bind_eq_bind, Option.bind_eq_some_iff] at h
      obtain ⟨cs₁, h₁, cs₂, h₂, heq⟩ := h
      cases heq
      have hgap : cs₂ <:+ cs := by
        have hfront := readGroups_suffix (t := t) 8 true cs
        rw [eq_cons_of_expect h₁, eq_cons_of_expect h₂] at hfront
        exact (List.suffix_cons _ _).trans ((List.suffix_cons _ _).trans hfront)
      exact (readGroups_suffix _ true cs₂).trans hgap

theorem readValue_suffix {f : Family} {n : Nat} {cs rest : List Char}
    (h : readValue t f cs = some (n, rest)) : rest <:+ cs := by
  cases f with
  | v4 => exact readQuad_suffix h
  | v6 => exact readLong_suffix h

/-- A written subnet has a slash. -/
theorem slash_mem_of_subnet? {f : Family} {cs : List Char} {s : Subnet f}
    (h : subnet? f cs = some s) : '/' ∈ cs := by
  simp only [subnet?, Option.bind_eq_bind, Option.bind_eq_some_iff, Prod.exists] at h
  obtain ⟨n, rest, hvalue, body, hslash, _⟩ := h
  have hsuffix := readValue_suffix hvalue
  rw [eq_cons_of_expect hslash] at hsuffix
  exact hsuffix.subset List.mem_cons_self

end NetPool.Notation

namespace NetPool

/-- The text of a subnet is read back as that subnet. -/
theorem Subnet.ofText?_text {f : Family} (s : Subnet f) : Subnet.ofText? f s.text = some s := by
  rw [Subnet.ofText?, Subnet.text, String.toList_ofList, Notation.subnet?_ofSubnet]

theorem AnySubnet.slash_mem_of_ofText? {s : String} {a : AnySubnet}
    (h : AnySubnet.ofText? s = some a) : '/' ∈ s.toList := by
  rw [AnySubnet.ofText?, Option.orElse_eq_orElse, Option.orElse_eq_or, Option.or_eq_some_iff] at h
  rcases h with h | ⟨_, h⟩
  · obtain ⟨n, hn, _⟩ := Option.map_eq_some_iff.mp h
    exact Notation.slash_mem_of_subnet? hn
  · obtain ⟨n, hn, _⟩ := Option.map_eq_some_iff.mp h
    exact Notation.slash_mem_of_subnet? hn

end NetPool
