import ExprRegistry.Http.Url
import ExprRegistry.Proofs.Text.Cut

/-!
Addresses that are accepted. Whether an address can be shown depends on its authority alone, and a path that is
added at the end of an address leaves the authority as it is, unless there was none. Main statement:
`safe?_isSome_append`.
-/

namespace ExprRegistry.Http

/-- Whether a character ends an authority. -/
def endsAuthority (c : Char) : Bool := c == '/' || c == '?' || c == '#'

/-- The authority and what is behind it, in what follows the scheme of an address. -/
def authorityPart : List Char → List Char × List Char
  | '/' :: '/' :: more =>
    (more.takeWhile fun c => !endsAuthority c, more.dropWhile fun c => !endsAuthority c)
  | rest => ([], rest)

theorem authorityPart_of_none {rest : List Char} (none : ∀ more, rest ≠ '/' :: '/' :: more) :
    authorityPart rest = ([], rest) := by
  rw [authorityPart]
  exact none

/-- The parts of an address from its scheme, its authority and what is behind the authority. -/
def Url.ofParts? (scheme : List Char) (located : List Char × List Char) : Option Url :=
  let (rest, fragment) := Text.cutAt (· == '#') located.2
  let (path, query) := Text.cutAt (· == '?') rest
  if authorityOk located.1 then some ⟨scheme, located.1, path, query.getD [], fragment.getD []⟩ else none

theorem Url.split?_eq (cs : List Char) :
    split? cs = ofParts? (splitScheme (cleaned cs)).1 (authorityPart (splitScheme (cleaned cs)).2) := by
  unfold split?
  rcases splitScheme (cleaned cs) with ⟨scheme, rest⟩
  dsimp only
  split
  · rfl
  case h_2 none => rw [authorityPart_of_none none, ofParts?]

/-- Whether an authority is well formed and its port, if it has one, is a port. -/
def Locates (authority : List Char) : Prop :=
  authorityOk authority = true ∧ (portNumber? (hostAndPort authority).2).isSome = true

instance (authority : List Char) : Decidable (Locates authority) := inferInstanceAs (Decidable (_ ∧ _))

theorem Url.safe?_ofParts? (scheme : List Char) (located : List Char × List Char) :
    ((ofParts? scheme located).bind safe?).isSome = true ↔ Locates located.1 := by
  unfold ofParts? Locates
  by_cases formed : authorityOk located.1 = true
  · simp [formed, safe?, Option.isSome_map]
  · simp [formed]

/-- The authority of an address; without one it is empty. -/
def authorityOf (cs : List Char) : List Char := (authorityPart (splitScheme (cleaned cs)).2).1

theorem safe?_isSome_iff (url : String) : (safe? url).isSome = true ↔ Locates (authorityOf url.toList) := by
  unfold safe?
  split
  case isTrue empty =>
    rw [String.isEmpty_iff.mp empty]
    decide
  case isFalse => rw [Option.isSome_map, Url.split?_eq, Url.safe?_ofParts?, authorityOf]

/-! ### A path at the end -/

/-- The characters that are not dropped wherever they stand. -/
def kept (cs : List Char) : List Char := cs.filter fun c => !(c == '\t' || c == '\r' || c == '\n')

theorem cleaned_append_slash (cs more : List Char) :
    cleaned (cs ++ '/' :: more) = cleaned cs ++ '/' :: kept more := by
  have mark : (decide ('/'.toNat ≤ 0x20)) = false := rfl
  rw [cleaned, Text.dropWhile_append_mark mark, List.filter_append]
  rfl

theorem splitScheme_of_colon {before : List Char} (none : ∀ c ∈ before, (c == ':') = false) (after : List Char) :
    splitScheme (before ++ ':' :: after) =
      match before with
      | [] => ([], ':' :: after)
      | c :: rest =>
        if Text.isAsciiLetter c && rest.all isSchemeChar then ((c :: rest).map Text.lowerAscii, after)
        else ([], before ++ ':' :: after) := by
  rw [splitScheme, Text.cutAt_mark none rfl]
  cases before <;> rfl

theorem splitScheme_of_none {cs : List Char} (none : ∀ c ∈ cs, (c == ':') = false) :
    splitScheme cs = ([], cs) := by
  rw [splitScheme, Text.cutAt_eq_self none]
  cases cs <;> rfl

theorem splitScheme_append_slash (cs more : List Char) :
    splitScheme (cs ++ '/' :: more) = ((splitScheme cs).1, (splitScheme cs).2 ++ '/' :: more) := by
  rcases Text.mark_cases (· == ':') cs with none | ⟨before, m, after, rfl, none, mark⟩
  · rw [splitScheme_of_none none]
    -- a colon behind the slash ends no scheme
    rcases Text.mark_cases (· == ':') more with none' | ⟨before, m, after, rfl, none', mark⟩
    · exact splitScheme_of_none (List.forall_mem_append.mpr ⟨none, List.forall_mem_cons.mpr ⟨rfl, none'⟩⟩)
    · cases eq_of_beq mark
      have front : ∀ c ∈ cs ++ '/' :: before, (c == ':') = false :=
        List.forall_mem_append.mpr ⟨none, List.forall_mem_cons.mpr ⟨rfl, none'⟩⟩
      rw [← List.cons_append, ← List.append_assoc, splitScheme_of_colon front]
      cases cs with
      | nil => rfl
      | cons c cs => simp [isSchemeChar, Text.isAsciiLetter, Text.isAsciiDigit]
  · cases eq_of_beq mark
    rw [List.append_assoc, List.cons_append, splitScheme_of_colon none, splitScheme_of_colon none]
    cases before with
    | nil => rfl
    | cons c before =>
        dsimp only
        split
        · rfl
        · rw [List.append_assoc]
          rfl

/-- A path that is added leaves the authority as it is; only where a single slash was all there was, its first
segment becomes the authority. -/
theorem authorityPart_append_slash (rest more : List Char) (segment : more.head? ≠ some '/') :
    (authorityPart (rest ++ '/' :: more)).1 = (authorityPart rest).1 ∨
      (authorityPart (rest ++ '/' :: more)).1 = more.takeWhile fun c => !endsAuthority c := by
  by_cases located : ∃ x, rest = '/' :: '/' :: x
  · obtain ⟨x, rfl⟩ := located
    exact .inl (Text.takeWhile_append_mark rfl x more)
  have none := authorityPart_of_none fun x same => located ⟨x, same⟩
  by_cases slashes : ∃ x, rest ++ '/' :: more = '/' :: '/' :: x
  · obtain ⟨x, slashes⟩ := slashes
    match rest, slashes with
    | [], slashes =>
        rw [List.nil_append, List.cons.injEq] at slashes
        exact absurd (congrArg List.head? slashes.2) segment
    | [c], slashes =>
        cases slashes
        exact .inr rfl
    | c :: d :: rest, slashes =>
        cases slashes
        exact absurd ⟨rest, rfl⟩ located
  · rw [authorityPart_of_none fun x same => slashes ⟨x, same⟩, none]
    exact .inl rfl

theorem locates_authorityOf_append {cs : List Char} (more : List Char) (accepted : Locates (authorityOf cs)) :
    Locates (authorityOf (cs ++ '/' :: ("expressions".toList ++ '/' :: more))) := by
  rw [authorityOf, cleaned_append_slash, splitScheme_append_slash]
  rcases authorityPart_append_slash (splitScheme (cleaned cs)).2 (kept ("expressions".toList ++ '/' :: more))
    nofun with same | first
  · rw [same]
    exact accepted
  · rw [first]
    have word : (kept ("expressions".toList ++ '/' :: more)).takeWhile (fun c => !endsAuthority c) =
      "expressions".toList := rfl
    rw [word]
    decide

theorem safe?_isSome_append {base : String} (accepted : (safe? base).isSome = true) (segment : String) :
    (safe? (base ++ "/expressions/" ++ segment)).isSome = true := by
  rw [safe?_isSome_iff] at accepted ⊢
  have chars : (base ++ "/expressions/" ++ segment).toList =
      base.toList ++ '/' :: ("expressions".toList ++ '/' :: segment.toList) := by
    simp
  rw [chars]
  exact locates_authorityOf_append segment.toList accepted

end ExprRegistry.Http
