import Mathlib.Data.List.Basic
import NetPool.Proofs.Text.Numeral
import NetPool.Settings

/-! # Connections

The text of a connection is a scheme, a user, a host, a port and a rest, of which all but the host may
be absent. Whether it leads to this machine is decided by the host alone, whatever stands around it. -/

namespace NetPool

/-- None of the characters occurs in the text. -/
def Text.Avoids (signs : List Char) (cs : List Char) : Prop := ∀ c ∈ cs, c ∉ signs

namespace Text.Avoids

instance (signs cs : List Char) : Decidable (Avoids signs cs) := List.decidableBAll _ cs

variable {signs : List Char} {cs ds : List Char}

theorem mono {fewer : List Char} (h : Avoids signs cs) (hsub : fewer ⊆ signs) : Avoids fewer cs :=
  fun c hc hmem => h c hc (hsub hmem)

theorem append (hc : Avoids signs cs) (hd : Avoids signs ds) : Avoids signs (cs ++ ds) :=
  List.forall_mem_append.mpr ⟨hc, hd⟩

theorem ne {sign : Char} (h : Avoids signs cs) (hsign : sign ∈ signs) : ∀ c ∈ cs, c ≠ sign := by
  rintro c hc rfl
  exact h c hc hsign

end Text.Avoids

/-- The host in the text of a connection. -/
inductive Host where
  /-- A name or a short address. -/
  | plain (name : String) (legal : Text.Avoids ['/', '?', '@', ':'] name.toList)
    (bare : name.toList.head? ≠ some '[')
  /-- A long address, which has colons of its own. -/
  | bracketed (name : String) (legal : Text.Avoids ['/', '?', '@', ']'] name.toList)

namespace Host

def name : Host → String
  | plain name _ _ => name
  | bracketed name _ => name

def text : Host → String
  | plain name _ _ => name
  | bracketed name _ => "[" ++ name ++ "]"

end Host

/-- What the text of a connection is made of. A scheme has letters, digits and a few signs; all that
counts is that none of them is a colon. -/
structure Connection where
  scheme : String
  user? : Option String
  host : Host
  port? : Option String
  rest : String
  scheme_legal : Text.Avoids [':'] scheme.toList
  user_legal : ∀ user ∈ user?, Text.Avoids ['/', '?'] user.toList
  port_legal : ∀ port ∈ port?, Text.Avoids ['/', '?', '@'] port.toList
  rest_legal : ∀ c ∈ rest.toList.head?, c ∈ ['/', '?']

namespace Connection

/-- The user with the sign after it. -/
def userText (c : Connection) : String :=
  match c.user? with
  | some user => user ++ "@"
  | none => ""

/-- The port with the sign before it. -/
def portText (c : Connection) : String :=
  match c.port? with
  | some port => ":" ++ port
  | none => ""

def hostPort (c : Connection) : String := c.host.text ++ c.portText

def authority (c : Connection) : String := c.userText ++ c.hostPort

def text (c : Connection) : String := c.scheme ++ "://" ++ c.authority ++ c.rest

end Connection

namespace Settings

/-! ## Parts of a text -/

theorem afterScheme?_append {scheme : List Char} (h : Text.Avoids [':'] scheme)
    (rest : List Char) : afterScheme? (scheme ++ "://".toList ++ rest) = some rest := by
  induction scheme with
  | nil => rfl
  | cons c scheme ih =>
      obtain ⟨hc, hscheme⟩ := List.forall_mem_cons.mp h
      rw [List.cons_append, List.cons_append, afterScheme?]
      · exact ih hscheme
      · rintro rest rfl -
        exact hc (by decide)

theorem afterScheme?_eq_none {cs : List Char} (h : ¬ "://".toList <:+: cs) :
    afterScheme? cs = none := by
  fun_induction afterScheme? cs with
  | case1 rest => exact absurd (List.prefix_append _ rest).isInfix h
  | case2 c cs _ ih => exact ih fun hinfix => h (List.infix_cons hinfix)
  | case3 => rfl

theorem takeWhile_reverse {cs : List Char} (h : ∀ c ∈ cs, c ≠ '@') {rest : List Char}
    (hrest : Text.EndsRun (· ≠ '@') rest) : (cs.reverse ++ rest).takeWhile (· ≠ '@') = cs.reverse :=
  Text.takeWhile_append_of_endsRun (by simpa using h) hrest

theorem afterUser_append (user : List Char) {cs : List Char} (h : ∀ c ∈ cs, c ≠ '@') :
    afterUser (user ++ '@' :: cs) = cs := by
  rw [afterUser, List.reverse_append, List.reverse_cons, List.append_assoc, List.singleton_append,
    takeWhile_reverse h (Text.endsRun_cons (by decide)), List.reverse_reverse]

theorem afterUser_eq_self {cs : List Char} (h : ∀ c ∈ cs, c ≠ '@') : afterUser cs = cs := by
  have htake := takeWhile_reverse h (Text.endsRun_nil _)
  rw [List.append_nil] at htake
  rw [afterUser, htake, List.reverse_reverse]

theorem hostOf_of_bracket {cs rest : List Char} (h : afterUser cs = '[' :: rest) :
    hostOf cs = rest.takeWhile (· ≠ ']') := by
  simp only [hostOf, h]

theorem hostOf_of_bare {cs : List Char} (h : (afterUser cs).head? ≠ some '[') :
    hostOf cs = (afterUser cs).takeWhile (· ≠ ':') := by
  unfold hostOf
  split
  case h_1 rest heq =>
    rw [heq] at h
    exact absurd rfl h
  case h_2 => rfl

end Settings

namespace Connection

variable (c : Connection)

/-! ## The characters of the parts -/

theorem portText_cases :
    c.portText.toList = [] ∨
      ∃ port, c.portText.toList = ':' :: port ∧ Text.Avoids ['/', '?', '@'] port := by
  rw [portText]
  cases hport : c.port? with
  | none => exact .inl rfl
  | some port =>
      refine .inr ⟨port.toList, ?_, c.port_legal port hport⟩
      rw [String.toList_append]
      rfl

theorem portText_endsRun {p : Char → Bool} (h : p ':' = false) :
    Text.EndsRun p c.portText.toList := by
  rcases c.portText_cases with hport | ⟨port, hport, -⟩
  · rw [hport]
    exact Text.endsRun_nil p
  · rw [hport]
    exact Text.endsRun_cons h

theorem hostText_avoids (host : Host) : Text.Avoids ['/', '?', '@'] host.text.toList := by
  cases host with
  | plain name legal bare => exact legal.mono (by simp)
  | bracketed name legal =>
      have hname : Text.Avoids ['/', '?', '@'] name.toList := legal.mono (by simp)
      have hopen : Text.Avoids ['/', '?', '@'] "[".toList := by decide
      have hclose : Text.Avoids ['/', '?', '@'] "]".toList := by decide
      rw [Host.text, String.toList_append, String.toList_append]
      exact (hopen.append hname).append hclose

theorem hostPort_avoids : Text.Avoids ['/', '?', '@'] c.hostPort.toList := by
  rw [hostPort, String.toList_append]
  refine (hostText_avoids c.host).append ?_
  rcases c.portText_cases with hport | ⟨port, hport, havoids⟩
  · rw [hport]
    nofun
  · rw [hport]
    exact List.forall_mem_cons.mpr ⟨by decide, havoids⟩

theorem authority_avoids : Text.Avoids ['/', '?'] c.authority.toList := by
  have hhostPort : Text.Avoids ['/', '?'] c.hostPort.toList := c.hostPort_avoids.mono (by simp)
  rw [authority, String.toList_append]
  refine Text.Avoids.append ?_ hhostPort
  rw [userText]
  cases huser : c.user? with
  | none => nofun
  | some user =>
      have hsign : Text.Avoids ['/', '?'] "@".toList := by decide
      rw [String.toList_append]
      exact (c.user_legal user huser).append hsign

/-! ## The host is found -/

/-- The last `@` stands before the host, since there is none in a host or a port. -/
theorem afterUser_authority : Settings.afterUser c.authority.toList = c.hostPort.toList := by
  have hnone := c.hostPort_avoids.ne (by decide : '@' ∈ _)
  rw [authority, String.toList_append, userText]
  cases c.user? with
  | none => exact Settings.afterUser_eq_self hnone
  | some user =>
      rw [String.toList_append, List.append_assoc]
      exact Settings.afterUser_append user.toList hnone

theorem hostOf_authority : Settings.hostOf c.authority.toList = c.host.name.toList := by
  have hafter := c.afterUser_authority
  rw [hostPort, String.toList_append] at hafter
  cases hhost : c.host with
  | plain name legal bare =>
      have hrun := legal.ne (by decide : ':' ∈ _)
      have hbare : (name.toList ++ c.portText.toList).head? ≠ some '[' := by
        cases hname : name.toList with
        | nil =>
            intro hbracket
            cases c.portText_endsRun (p := (· = '[')) (by decide) '[' hbracket
        | cons d ds => rwa [hname] at bare
      rw [hhost, Host.text] at hafter
      rw [Settings.hostOf_of_bare (hafter ▸ hbare), hafter, Host.name]
      exact Text.takeWhile_append_of_endsRun (by simpa using hrun) (c.portText_endsRun (by decide))
  | bracketed name legal =>
      have hrun := legal.ne (by decide : ']' ∈ _)
      rw [hhost, Host.text, String.toList_append, String.toList_append, List.append_assoc,
        List.append_assoc] at hafter
      rw [Settings.hostOf_of_bracket hafter, Host.name]
      exact Text.takeWhile_append_of_endsRun (by simpa using hrun) (Text.endsRun_cons (by decide))

/-- The authority ends where the rest begins. -/
theorem takeWhile_authority :
    (c.authority.toList ++ c.rest.toList).takeWhile (fun d => d ≠ '/' && d ≠ '?') =
      c.authority.toList := by
  apply Text.takeWhile_append_of_endsRun
  · intro d hd
    have hslash := c.authority_avoids.ne (by decide : '/' ∈ _) d hd
    have hquestion := c.authority_avoids.ne (by decide : '?' ∈ _) d hd
    simp [hslash, hquestion]
  · intro d hd
    have hstart : d = '/' ∨ d = '?' := by simpa using c.rest_legal d hd
    rcases hstart with rfl | rfl <;> decide

theorem isLocalUri_text :
    Settings.isLocalUri c.text = Settings.localHosts.contains c.host.name.toList := by
  have htext : c.text.toList =
      c.scheme.toList ++ "://".toList ++ (c.authority.toList ++ c.rest.toList) := by
    simp only [text, String.toList_append, List.append_assoc]
  have hafter := Settings.afterScheme?_append c.scheme_legal (c.authority.toList ++ c.rest.toList)
  rw [← htext] at hafter
  simp only [Settings.isLocalUri, hafter]
  rw [takeWhile_authority, hostOf_authority]

end Connection

/-- The text of a connection is local exactly if its host is absent or one of the names of this
machine. A text without a scheme is always local. -/
theorem Settings.isLocalUri_iff_host :
    (∀ c : Connection, isLocalUri c.text = true ↔
      c.host.name ∈ ["", "localhost", "127.0.0.1", "::1"]) ∧
    ∀ uri : String, ¬ "://".toList <:+: uri.toList → isLocalUri uri = true := by
  constructor
  · intro c
    rw [c.isLocalUri_text, List.contains_iff_mem, localHosts]
    exact List.mem_map_of_injective fun _ _ => String.toList_injective
  · intro uri huri
    rw [isLocalUri, afterScheme?_eq_none huri]

/-- A connection of this machine with separators in all places where they may stand. -/
def Connection.crowded : Connection where
  scheme := "qemu+ssh"
  user? := some "root:a@b[c"
  host := .bracketed "::1" (by decide)
  port? := some "22"
  rest := "/system?socket=x://@[hv]:1"
  scheme_legal := by decide
  user_legal := by decide
  port_legal := by decide
  rest_legal _ hc := by
    obtain rfl := Option.some.inj hc
    decide

theorem Settings.isLocalUri_iff_host_crowded :
    Connection.crowded.text = "qemu+ssh://root:a@b[c@[::1]:22/system?socket=x://@[hv]:1" ∧
      isLocalUri Connection.crowded.text = true ∧ isLocalUri "qemu:/system" = true := by
  obtain ⟨hhost, hplain⟩ := isLocalUri_iff_host
  have hname : Connection.crowded.host.name ∈ ["", "localhost", "127.0.0.1", "::1"] := by
    simp [Connection.crowded, Host.name]
  exact ⟨by decide +kernel, (hhost Connection.crowded).mpr hname,
    hplain "qemu:/system" (by decide +kernel)⟩

end NetPool
