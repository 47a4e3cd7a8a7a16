import ExprRegistry.Proofs.Http.Joined
import ExprRegistry.Proofs.Log.Redact
import ExprRegistry.Proofs.Text.Digits
import ExprRegistry.Proofs.Text.Lowercase

/-!
What a URL that is shown still says of where it leads. Scheme, host, port, path and fragment are kept, and showing
the URL again changes nothing, exactly where the host can stand in an authority without brackets. Main statement:
`keepsLocation_iff`.
-/

namespace ExprRegistry.Http

open Text (IsMark)

/-- The host of a URL, in lower case; without one it is empty. -/
def Url.host (u : Url) : List Char := hostName (hostAndPort u.authority).1

/-- Whether a URL has a port, or has none. -/
def Url.HasPort (u : Url) : Option Nat → Prop
  | none => (hostAndPort u.authority).2 = []
  | some n => (hostAndPort u.authority).2 ≠ [] ∧ portNumber? (hostAndPort u.authority).2 = some n

/-- Whether two URLs lead to the same place. -/
structure Url.SameLocation (u v : Url) (port : Option Nat) : Prop where
  scheme : v.scheme = u.scheme
  host : v.host = u.host
  port : v.HasPort port
  path : v.path = u.path
  fragment : v.fragment = u.fragment

/-- Whether a text is accepted as a URL that leads to the same place as another one does, without user
information, and is shown as it is. -/
def KeepsLocation (u : Url) (port : Option Nat) (shown : String) : Prop :=
  (∃ v, Url.split? shown.toList = some v ∧ u.SameLocation v port ∧ '@' ∉ v.authority) ∧ safe? shown = some shown

/-! ### Hosts -/

variable {host authority : List Char} {c m : Char}

theorem isMark_percent : IsMark '%' := by decide +kernel

theorem hostName_of_zone {name : List Char} (none : ∀ c ∈ name, (c == '%') = false) (zone : List Char) :
    hostName (name ++ '%' :: zone) = Text.lower name ++ '%' :: zone := by
  rw [hostName, Text.cutAt_mark none rfl]

theorem hostName_of_none (none : ∀ c ∈ host, (c == '%') = false) : hostName host = Text.lower host := by
  rw [hostName, Text.cutAt_eq_self none]

theorem lower_no_percent {name : List Char} (none : ∀ c ∈ name, (c == '%') = false) :
    ∀ c ∈ Text.lower name, (c == '%') = false := by
  rw [Text.no_mark_iff] at none ⊢
  rwa [Text.mem_lower_iff isMark_percent]

/-- The host has the marks that were written, in whatever case. -/
theorem mem_hostName_iff (mark : IsMark m) (host : List Char) : m ∈ hostName host ↔ m ∈ host := by
  rcases Text.mark_cases (· == '%') host with none | ⟨name, sign, zone, rfl, none, same⟩
  · rw [hostName_of_none none, Text.mem_lower_iff mark]
  · cases eq_of_beq same
    rw [hostName_of_zone none, List.mem_append, List.mem_append, Text.mem_lower_iff mark]

theorem hostName_hostName (host : List Char) : hostName (hostName host) = hostName host := by
  rcases Text.mark_cases (· == '%') host with none | ⟨name, sign, zone, rfl, none, same⟩
  · rw [hostName_of_none none, hostName_of_none (lower_no_percent none), Text.lower_lower]
  · cases eq_of_beq same
    rw [hostName_of_zone none, hostName_of_zone (lower_no_percent none), Text.lower_lower]

/-! ### Authorities -/

theorem mem_afterLast (member : c ∈ afterLast m authority) : c ∈ authority ∧ c ≠ m := by
  have inside := List.mem_reverse.mp member
  have other := List.mem_takeWhile_imp (p := (· != m)) inside
  exact ⟨List.mem_reverse.mp ((List.takeWhile_sublist _).subset inside), by simpa using other⟩

theorem afterLast_of_none (none : m ∉ authority) : afterLast m authority = authority := by
  have all : ∀ c ∈ authority.reverse, (c != m) = true := fun c member =>
    congrArg (!·) (Text.no_mark_iff.mpr none c (List.mem_reverse.mp member))
  rw [afterLast, List.takeWhile_eq_self_iff.mpr all, List.reverse_reverse]

/-- The host is what stands up to a closing bracket behind an opening one, or, without brackets, up to a colon. -/
theorem hostAndPort_cases (authority : List Char) :
    (∃ before bracketed, afterLast '@' authority = before ++ '[' :: bracketed ∧
      (hostAndPort authority).1 = (Text.cutAt (· == ']') bracketed).1) ∨
    (∀ c ∈ afterLast '@' authority, (c == '[') = false) ∧
      hostAndPort authority = ((Text.cutAt (· == ':') (afterLast '@' authority)).1,
        (Text.cutAt (· == ':') (afterLast '@' authority)).2.getD []) := by
  rcases Text.mark_cases (· == '[') (afterLast '@' authority) with none | ⟨before, sign, bracketed, located, none, same⟩
  · refine .inr ⟨none, ?_⟩
    rw [hostAndPort, Text.cutAt_eq_self none]
  · cases eq_of_beq same
    refine .inl ⟨before, bracketed, located, ?_⟩
    rw [hostAndPort, located, Text.cutAt_mark none rfl]

theorem mem_hostAndPort (member : c ∈ (hostAndPort authority).1) : c ∈ authority ∧ c ≠ '@' := by
  rcases hostAndPort_cases authority with ⟨before, bracketed, located, host⟩ | ⟨_, parts⟩
  · rw [host] at member
    refine mem_afterLast (located ▸ ?_)
    exact List.mem_append_right _ (List.mem_cons_of_mem _ (Text.mem_cutAt_fst member).1)
  · rw [parts] at member
    exact mem_afterLast (Text.mem_cutAt_fst member).1

/-- No host holds both brackets. -/
theorem hostAndPort_brackets (authority : List Char) :
    '[' ∉ (hostAndPort authority).1 ∨ ']' ∉ (hostAndPort authority).1 := by
  rcases hostAndPort_cases authority with ⟨_, bracketed, _, host⟩ | ⟨none, parts⟩
  · refine .inr fun member => ?_
    rw [host] at member
    simpa using (Text.mem_cutAt_fst member).2
  · refine .inl fun member => ?_
    rw [parts] at member
    simpa using none '[' (Text.mem_cutAt_fst member).1

/-! ### Ports -/

/-- A port as it is written behind a host. -/
def portText : Option Nat → List Char
  | none => []
  | some n => ':' :: (toString n).toList

theorem portNumber?_toString {n : Nat} (small : n ≤ 65535) : portNumber? (toString n).toList = some n := by
  have digits : (Nat.toDigits 10 n).all Text.isAsciiDigit = true :=
    List.all_eq_true.mpr Text.isAsciiDigit_of_mem_toDigits
  have short : (Nat.toDigits 10 n).length ≤ 5 := (Nat.length_toDigits_le_iff (by decide) (by decide)).mpr (by omega)
  have fits : ¬ Text.maxDigits < (Nat.toDigits 10 n).length := by
    unfold Text.maxDigits
    omega
  rw [Text.toList_toString, portNumber?, digits, Text.numberOf_toDigits]
  simp [fits, small]

theorem mem_portText {port : Option Nat} (member : c ∈ portText port) : c = ':' ∨ Text.isAsciiDigit c = true := by
  cases port with
  | none => cases member
  | some n =>
      rw [portText, Text.toList_toString, List.mem_cons] at member
      exact member.imp_right (Text.isAsciiDigit_of_mem_toDigits c)

namespace Url

variable {u v : Url} {port : Option Nat}

theorem HasPort.le {n : Nat} (ported : u.HasPort (some n)) : n ≤ 65535 := by
  have number := ported.2
  unfold portNumber? at number
  split at number
  · cases number
  · dsimp only at number
    split at number
    case isTrue small =>
      cases number
      exact small
    case isFalse => cases number

/-! ### The form that is shown -/

/-- The form of a URL that is shown: the host and the port alone, and the query masked. -/
def shown (u : Url) (port : Option Nat) : Url :=
  { u with authority := u.host ++ portText port, query := redactFrom false [] u.query }

theorem safe?_eq (ported : u.HasPort port) (nonzero : port ≠ some 0) : u.safe? = some (u.shown port) := by
  cases port with
  | none =>
      have text : (hostAndPort u.authority).2 = [] := ported
      have zero : portNumber? [] = some 0 := rfl
      rw [Url.safe?]
      dsimp only
      rw [text, zero]
      rfl
  | some n =>
      have positive : (n == 0) = false := beq_eq_false_iff_ne.mpr fun zero => nonzero (congrArg some zero)
      rw [Url.safe?]
      dsimp only
      rw [ported.2, Option.map_some, positive]
      rfl

/-- A mark that is written neither in nor before a port. -/
def IsBare (c : Char) : Prop := IsMark c ∧ c ≠ ':' ∧ Text.isAsciiDigit c = false

instance (c : Char) : Decidable (IsBare c) := inferInstanceAs (Decidable (_ ∧ _))

theorem mem_host_iff (bare : IsBare m) : m ∈ u.host ↔ m ∈ (hostAndPort u.authority).1 := mem_hostName_iff bare.1 _

theorem mem_shown_iff (bare : IsBare m) (port : Option Nat) : m ∈ (u.shown port).authority ↔ m ∈ u.host := by
  refine ⟨fun member => (List.mem_append.mp member).resolve_right fun inside => ?_, List.mem_append_left _⟩
  rcases mem_portText inside with same | digit
  · exact bare.2.1 same
  · exact ne_true_of_eq_false bare.2.2 digit

theorem eq_false_of_mem_shown {p : Char → Bool} (bare : ∀ c, p c = true → IsBare c)
    (none : ∀ c ∈ u.authority, p c = false) (port : Option Nat) : ∀ c ∈ (u.shown port).authority, p c = false := by
  intro c member
  refine eq_false_of_ne_true fun holds => ?_
  have inside := (mem_host_iff (bare c holds)).mp ((mem_shown_iff (bare c holds) port).mp member)
  exact ne_true_of_eq_false (none c (mem_hostAndPort inside).1) holds

theorem isBare_of_endsAuthority (ends : endsAuthority c = true) : IsBare c := by
  have all : IsBare '/' ∧ IsBare '?' ∧ IsBare '#' := by decide +kernel
  simp only [endsAuthority, Bool.or_eq_true, beq_iff_eq] at ends
  rcases ends with (rfl | rfl) | rfl
  · exact all.1
  · exact all.2.1
  · exact all.2.2

theorem isBare_of_isDropped (dropped : isDropped c = true) : IsBare c := by
  have all : IsBare '\t' ∧ IsBare '\r' ∧ IsBare '\n' := by decide +kernel
  simp only [isDropped, Bool.or_eq_true, beq_iff_eq] at dropped
  rcases dropped with (rfl | rfl) | rfl
  · exact all.1
  · exact all.2.1
  · exact all.2.2

theorem isBare_of_lookalike (lookalike : delimiterLookalikes.contains c.toNat = true) : IsBare c := by
  have all : ∀ n ∈ delimiterLookalikes, IsBare (Char.ofNat n) := by decide +kernel
  have same := all c.toNat (List.contains_iff_mem.mp lookalike)
  rwa [Char.ofNat_toNat] at same

theorem Formed.shown (formed : u.Formed) (port : Option Nat) : (u.shown port).Formed where
  authority := eq_false_of_mem_shown (fun _ => isBare_of_endsAuthority) formed.authority port
  path := formed.path
  query := by
    intro c member
    rcases mem_redactFrom member with inside | rfl
    · exact formed.query c inside
    · rfl
  rooted := formed.rooted
  clean := by
    have authority := eq_false_of_mem_shown (fun _ => isBare_of_isDropped)
      (fun c member => formed.clean c (.inl member)) port
    rintro c (member | member | member)
    · exact authority c member
    · exact formed.clean c (.inr (.inl member))
    · rcases member with member | member
      · rcases mem_redactFrom member with inside | rfl
        · exact formed.clean c (.inr (.inr (.inl inside)))
        · rfl
      · exact formed.clean c (.inr (.inr (.inr member)))

theorem isBare_bracket : IsBare '[' ∧ IsBare ']' ∧ IsBare '@' := by decide +kernel

theorem no_userinfo (port : Option Nat) : '@' ∉ (u.shown port).authority := by
  intro member
  have inside := (mem_host_iff isBare_bracket.2.2).mp ((mem_shown_iff isBare_bracket.2.2 port).mp member)
  exact (mem_hostAndPort inside).2 rfl

/-- The authority that is shown is well formed unless there is a bracket left in the host. -/
theorem authorityOk_shown (ok : authorityOk u.authority = true) (port : Option Nat) :
    authorityOk (u.shown port).authority = true ↔ '[' ∉ u.host ∧ ']' ∉ u.host := by
  obtain ⟨opens, closes, _⟩ := isBare_bracket
  have plain : (u.shown port).authority.all (fun c => !delimiterLookalikes.contains c.toNat) = true := by
    have all := List.all_eq_true.mp (Bool.and_eq_true_iff.mp ok).2
    have none := eq_false_of_mem_shown (p := fun c => delimiterLookalikes.contains c.toNat)
      (fun _ => isBare_of_lookalike) (fun c member => by simpa using all c member) port
    exact List.all_eq_true.mpr fun c member => congrArg (!·) (none c member)
  have apart : '[' ∉ u.host ∨ ']' ∉ u.host := by
    rw [mem_host_iff opens, mem_host_iff closes]
    exact hostAndPort_brackets u.authority
  rw [← mem_shown_iff opens port, ← mem_shown_iff closes port] at apart ⊢
  rw [authorityOk, plain, Bool.and_true]
  by_cases first : '[' ∈ (u.shown port).authority
  · simp [first, apart.resolve_left (not_not_intro first)]
  · by_cases last : ']' ∈ (u.shown port).authority
    · simp [first, last]
    · simp [first, last]

theorem no_colon_of_no_bracket (none : '[' ∉ authority) : ':' ∉ (hostAndPort authority).1 := by
  intro member
  rcases hostAndPort_cases authority with ⟨before, bracketed, located, _⟩ | ⟨_, parts⟩
  · have inside : '[' ∈ afterLast '@' authority :=
      located ▸ List.mem_append_right before List.mem_cons_self
    exact none (mem_afterLast inside).1
  · rw [parts] at member
    simpa using (Text.mem_cutAt_fst member).2

/-- Where the host has neither a colon nor a bracket, host and port are read back from the authority that is shown. -/
theorem hostAndPort_shown (colon : ':' ∉ u.host) (bracket : '[' ∉ u.host) :
    hostAndPort (u.shown port).authority = (u.host, (portText port).tail) := by
  have located : afterLast '@' (u.shown port).authority = u.host ++ portText port := afterLast_of_none (no_userinfo port)
  have opens : ∀ c ∈ u.host ++ portText port, (c == '[') = false :=
    Text.no_mark_iff.mpr fun member => bracket ((mem_shown_iff isBare_bracket.1 port).mp member)
  have host : ∀ c ∈ u.host, (c == ':') = false := Text.no_mark_iff.mpr colon
  rw [hostAndPort, located, Text.cutAt_eq_self opens]
  dsimp only
  cases port with
  | none =>
      rw [portText, List.append_nil, Text.cutAt_eq_self host]
      rfl
  | some n =>
      rw [portText, Text.cutAt_mark host rfl]
      rfl

theorem sameLocation_shown (ported : u.HasPort port) (colon : ':' ∉ u.host) (bracket : '[' ∉ u.host) :
    u.SameLocation (u.shown port) port where
  scheme := rfl
  host := by
    rw [host, hostAndPort_shown colon bracket]
    exact hostName_hostName _
  port := by
    cases port with
    | none => exact congrArg Prod.snd (hostAndPort_shown colon bracket)
    | some n =>
        rw [HasPort, hostAndPort_shown colon bracket]
        refine ⟨?_, portNumber?_toString ported.le⟩
        rw [portText, List.tail_cons, Text.toList_toString]
        exact Nat.toDigits_ne_nil
  path := rfl
  fragment := rfl

/-- Showing what is shown already changes nothing. -/
theorem shown_shown (ported : u.HasPort port) (colon : ':' ∉ u.host) (bracket : '[' ∉ u.host) :
    (u.shown port).shown port = u.shown port := by
  have host := (sameLocation_shown ported colon bracket).host
  unfold shown at host ⊢
  dsimp only at host ⊢
  rw [host, redactFrom_redactFrom]

theorem authority_ne_nil (host : u.host ≠ []) : u.authority ≠ [] := by
  intro empty
  refine host ?_
  rw [Url.host, empty]
  rfl

theorem safe?_of_split? {url : String} (accepted : split? url.toList = some u) (web : u.scheme ∈ webSchemes) :
    Http.safe? url = u.safe?.map fun v => String.ofList v.join := by
  have given : ¬ url.isEmpty = true := by
    intro empty
    rw [String.isEmpty_iff.mp empty] at accepted
    cases accepted
    revert web
    decide
  rw [Http.safe?, if_neg given, accepted]
  rfl

theorem split?_shown {url : String} (accepted : split? url.toList = some u) (web : u.scheme ∈ webSchemes)
    (host : u.host ≠ []) (port : Option Nat) :
    split? (String.ofList (u.shown port).join).toList =
      if authorityOk (u.shown port).authority then some (u.shown port) else none := by
  have formed := (formed_of_split? accepted (authority_ne_nil host)).shown port
  have located : (u.shown port).authority ≠ [] := List.append_ne_nil_of_left_ne_nil host _
  rw [String.toList_ofList]
  exact split?_join web formed located

end Url

/-- Of a URL of the web with a host, and with no port or one that is not zero, the form that is shown leads to the
same place, and is shown as it is, exactly if there is neither a colon nor a bracket in the host. -/
theorem keepsLocation_iff {url : String} {u : Url} {port : Option Nat} (accepted : Url.split? url.toList = some u)
    (web : u.scheme ∈ webSchemes) (host : u.host ≠ []) (ported : u.HasPort port) (nonzero : port ≠ some 0) :
    ∃ shown, safe? url = some shown ∧ (KeepsLocation u port shown ↔ ':' ∉ u.host ∧ '[' ∉ u.host ∧ ']' ∉ u.host) := by
  have once : safe? url = some (String.ofList (u.shown port).join) := by
    rw [Url.safe?_of_split? accepted web, Url.safe?_eq ported nonzero]
    rfl
  have again := Url.split?_shown accepted web host port
  have ok := Url.authorityOk_shown (Url.authorityOk_of_split? accepted) port
  refine ⟨_, once, ?_, ?_⟩
  · rintro ⟨⟨v, read, same, _⟩, _⟩
    rw [again] at read
    split at read
    case isFalse => cases read
    case isTrue formed =>
      cases read
      have brackets := ok.mp formed
      refine ⟨fun colon => ?_, brackets⟩
      -- a colon in the host would end it where the authority that is shown is read
      have mark : IsMark ':' := by decide +kernel
      rw [← same.host, Url.host, mem_hostName_iff mark] at colon
      refine Url.no_colon_of_no_bracket (fun bracket => ?_) colon
      exact brackets.1 ((Url.mem_shown_iff Url.isBare_bracket.1 port).mp bracket)
  · rintro ⟨colon, brackets⟩
    rw [if_pos (ok.mpr brackets)] at again
    have same := Url.sameLocation_shown ported colon brackets.1
    refine ⟨⟨u.shown port, again, same, Url.no_userinfo port⟩, ?_⟩
    rw [Url.safe?_of_split? again web, Url.safe?_eq same.port nonzero, Url.shown_shown ported colon brackets.1]
    rfl

/-- A host of letters, with user information and a port, keeps its place. -/
theorem keepsLocation_registry : ∃ u : Url, ∃ shown,
    Url.split? "https://User:pw@Registry.test:8443/api?token=abc&page=2#x".toList = some u ∧
      safe? "https://User:pw@Registry.test:8443/api?token=abc&page=2#x" = some shown ∧
      KeepsLocation u (some 8443) shown := by
  let u : Url := ⟨"https".toList, "User:pw@Registry.test:8443".toList, "/api".toList, "token=abc&page=2".toList,
    "x".toList⟩
  have accepted : Url.split? "https://User:pw@Registry.test:8443/api?token=abc&page=2#x".toList = some u := by
    decide +kernel
  have name : u.host = "registry.test".toList := by decide +kernel
  have web : u.scheme ∈ webSchemes := List.mem_cons_of_mem _ List.mem_cons_self
  have ported : u.HasPort (some 8443) := ⟨by decide +kernel, by decide +kernel⟩
  obtain ⟨shown, once, keeps⟩ := keepsLocation_iff accepted web (by rw [name]; decide) ported (by decide)
  exact ⟨u, shown, accepted, once, keeps.mpr (by rw [name]; decide)⟩

/-- An address in brackets loses them, and what is shown is no URL. -/
theorem bracketed_host_lost :
    (Url.split? "http://[::1]:8080/x".toList).map Url.host = some "::1".toList ∧
      safe? "http://[::1]:8080/x" = some "http://::1:8080/x" ∧ safe? "http://::1:8080/x" = none := by
  decide +kernel

end ExprRegistry.Http
