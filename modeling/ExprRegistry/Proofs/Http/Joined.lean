import ExprRegistry.Proofs.Http.Url
import Mathlib.Data.List.Basic

/-!
Taking a URL apart and putting it together. The parts of a URL that was taken apart keep apart from each other, so
that a URL that is put together from such parts, with an authority, is taken apart into them again. Main
statements: `Url.formed_of_split?` and `Url.split?_join`.
-/

namespace ExprRegistry.Http

/-- The characters that are dropped wherever they stand. -/
def isDropped (c : Char) : Bool := c == '\t' || c == '\r' || c == '\n'

/-- The parts of a URL with an authority keep apart: no part holds a character at which it would be taken apart,
nor one that would be dropped. -/
structure Url.Formed (u : Url) : Prop where
  authority : ∀ c ∈ u.authority, endsAuthority c = false
  path : ∀ c ∈ u.path, (c == '#') = false ∧ (c == '?') = false
  query : ∀ c ∈ u.query, (c == '#') = false
  /-- A path is empty or begins with a slash. -/
  rooted : ∀ c ∈ u.path.head?, c = '/'
  clean : ∀ c, c ∈ u.authority ∨ c ∈ u.path ∨ c ∈ u.query ∨ c ∈ u.fragment → isDropped c = false

/-! ### Taking apart -/

theorem mem_cleaned {cs : List Char} {c : Char} (member : c ∈ cleaned cs) : isDropped c = false := by
  have inside := (List.mem_filter.mp member).2
  simpa [isDropped] using inside

theorem authorityPart_cases (rest : List Char) :
    (∃ more, rest = '/' :: '/' :: more ∧ authorityPart rest =
      (more.takeWhile (fun c => !endsAuthority c), more.dropWhile fun c => !endsAuthority c)) ∨
    authorityPart rest = ([], rest) := by
  by_cases located : ∃ more, rest = '/' :: '/' :: more
  · obtain ⟨more, rfl⟩ := located
    exact .inl ⟨more, rfl, rfl⟩
  · exact .inr (authorityPart_of_none fun more same => located ⟨more, same⟩)

theorem mem_authorityPart {rest : List Char} {c : Char}
    (member : c ∈ (authorityPart rest).1 ∨ c ∈ (authorityPart rest).2) : c ∈ rest := by
  rcases authorityPart_cases rest with ⟨more, rfl, parts⟩ | parts
  · rw [parts] at member
    refine List.mem_cons_of_mem _ (List.mem_cons_of_mem _ ?_)
    rcases member with inside | behind
    · exact (List.takeWhile_sublist _).subset inside
    · exact (List.dropWhile_sublist _).subset behind
  · rw [parts] at member
    exact member.resolve_left List.not_mem_nil

theorem endsAuthority_of_mem {rest : List Char} {c : Char} (member : c ∈ (authorityPart rest).1) :
    endsAuthority c = false := by
  rcases authorityPart_cases rest with ⟨more, rfl, parts⟩ | parts
  · rw [parts] at member
    have inside := List.mem_takeWhile_imp (p := fun c => !endsAuthority c) member
    simpa using inside
  · rw [parts] at member
    cases member

/-- What is behind an authority is empty or begins with a character that ends the authority. -/
theorem endsAuthority_of_head {rest : List Char} (located : (authorityPart rest).1 ≠ []) :
    ∀ c ∈ (authorityPart rest).2.head?, endsAuthority c = true := by
  rcases authorityPart_cases rest with ⟨more, rfl, parts⟩ | parts
  · intro c head
    have stop := List.head?_dropWhile_not (fun c => !endsAuthority c) more
    rw [parts, Option.mem_def] at head
    rw [head] at stop
    simpa using stop
  · rw [parts] at located
    exact absurd rfl located

theorem mem_splitScheme {cs : List Char} {c : Char} (member : c ∈ (splitScheme cs).2) : c ∈ cs := by
  rcases Text.mark_cases (· == ':') cs with none | ⟨before, m, after, rfl, none, mark⟩
  · rw [splitScheme_of_none none] at member
    exact member
  · cases eq_of_beq mark
    rw [splitScheme_of_colon none] at member
    cases before with
    | nil => exact member
    | cons d before =>
        dsimp only at member
        split at member
        · exact List.mem_append_right _ (List.mem_cons_of_mem _ member)
        · exact member

variable {u : Url}

theorem Url.authority_of_ofParts? {scheme : List Char} {located : List Char × List Char}
    (h : ofParts? scheme located = some u) : u.authority = located.1 ∧ authorityOk located.1 = true := by
  unfold ofParts? at h
  dsimp only at h
  split at h
  case isTrue ok =>
    cases h
    exact ⟨rfl, ok⟩
  case isFalse => cases h

theorem Url.formed_of_ofParts? {scheme : List Char} {located : List Char × List Char}
    (h : ofParts? scheme located = some u) (inside : ∀ c ∈ located.1, endsAuthority c = false)
    (ends : ∀ c ∈ located.2.head?, endsAuthority c = true)
    (clean : ∀ c, c ∈ located.1 ∨ c ∈ located.2 → isDropped c = false) : u.Formed := by
  unfold ofParts? at h
  dsimp only at h
  split at h
  case isFalse => cases h
  case isTrue =>
    cases h
    have path {c : Char} (member : c ∈ (Text.cutAt (· == '?') (Text.cutAt (· == '#') located.2).1).1) :
        c ∈ located.2 ∧ (c == '#') = false ∧ (c == '?') = false := by
      obtain ⟨within, noQuery⟩ := Text.mem_cutAt_fst member
      obtain ⟨behind, noFragment⟩ := Text.mem_cutAt_fst within
      exact ⟨behind, noFragment, noQuery⟩
    refine ⟨inside, fun c member => (path member).2, fun c member => ?_, fun c head => ?_, ?_⟩
    · exact (Text.mem_cutAt_fst (Text.mem_cutAt_snd member)).2
    · have first := ends c (Text.head_cutAt (Text.head_cutAt head))
      obtain ⟨_, noFragment, noQuery⟩ := path (List.mem_of_mem_head? head)
      simpa [endsAuthority, noFragment, noQuery] using first
    · rintro c (member | member | member | member)
      · exact clean c (.inl member)
      · exact clean c (.inr (path member).1)
      · exact clean c (.inr (Text.mem_cutAt_fst (Text.mem_cutAt_snd member)).1)
      · exact clean c (.inr (Text.mem_cutAt_snd member))

theorem Url.authorityOk_of_split? {cs : List Char} (h : split? cs = some u) : authorityOk u.authority = true := by
  rw [split?_eq] at h
  obtain ⟨same, ok⟩ := authority_of_ofParts? h
  rwa [same]

theorem Url.formed_of_split? {cs : List Char} (h : split? cs = some u) (located : u.authority ≠ []) :
    u.Formed := by
  rw [split?_eq] at h
  rw [(authority_of_ofParts? h).1] at located
  exact formed_of_ofParts? h (fun c member => endsAuthority_of_mem member) (endsAuthority_of_head located)
    fun c member => mem_cleaned (mem_splitScheme (mem_authorityPart member))

/-! ### Putting together -/

/-- A part of a URL with the mark that begins it, if there is anything in it. -/
def written (mark : Char) (part : List Char) : List Char := if part.isEmpty then [] else mark :: part

theorem mem_written {mark c : Char} {part : List Char} (member : c ∈ written mark part) : c = mark ∨ c ∈ part := by
  cases part with
  | nil => cases member
  | cons d part => exact List.mem_cons.mp member

theorem head_written {mark c : Char} {part : List Char} (head : c ∈ (written mark part).head?) : c = mark := by
  cases part with
  | nil => cases head
  | cons d part =>
      cases head
      rfl

theorem cutAt_written {p : Char → Bool} {mark : Char} {cs : List Char} (none : ∀ c ∈ cs, p c = false)
    (cuts : p mark = true) (part : List Char) :
    (Text.cutAt p (cs ++ written mark part)).1 = cs ∧
      (Text.cutAt p (cs ++ written mark part)).2.getD [] = part := by
  cases part with
  | nil =>
      have alone := Text.cutAt_eq_self none
      rw [written, List.isEmpty_nil, if_pos rfl, List.append_nil, alone]
      exact ⟨rfl, rfl⟩
  | cons d part =>
      have first := Text.cutAt_mark none cuts (d :: part)
      rw [written, List.isEmpty_cons, if_neg Bool.false_ne_true, first]
      exact ⟨rfl, rfl⟩

/-- What is written behind the authority of a URL. -/
def Url.behind (u : Url) : List Char := u.path ++ written '?' u.query ++ written '#' u.fragment

/-- The schemes of the web. -/
def webSchemes : List (List Char) := ["http".toList, "https".toList]

theorem Url.join_eq (web : u.scheme ∈ webSchemes) (located : u.authority ≠ [])
    (rooted : ∀ c ∈ u.path.head?, c = '/') :
    u.join = u.scheme ++ ':' :: '/' :: '/' :: (u.authority ++ u.behind) := by
  have scheme : u.scheme.isEmpty = false := by
    rcases List.mem_pair.mp web with same | same
    all_goals
      rw [same]
      rfl
  have authority : u.authority.isEmpty = false := List.isEmpty_eq_false_iff.mpr located
  cases path : u.path with
  | nil => simp [join, behind, written, path, scheme, authority]
  | cons c rest =>
      rw [path] at rooted
      cases rooted c rfl
      simp [join, behind, written, path, scheme, authority]

namespace Url

theorem Formed.cleaned (formed : u.Formed) (web : u.scheme ∈ webSchemes) :
    cleaned (u.scheme ++ ':' :: '/' :: '/' :: (u.authority ++ u.behind)) =
      u.scheme ++ ':' :: '/' :: '/' :: (u.authority ++ u.behind) := by
  have later : (u.authority ++ u.behind).filter (fun c => !(c == '\t' || c == '\r' || c == '\n')) =
      u.authority ++ u.behind := by
    refine List.filter_eq_self.mpr fun c member => ?_
    have kept : isDropped c = false := by
      simp only [behind, List.mem_append] at member
      rcases member with member | (member | member) | member
      · exact formed.clean c (.inl member)
      · exact formed.clean c (.inr (.inl member))
      · rcases mem_written member with rfl | member
        · rfl
        · exact formed.clean c (.inr (.inr (.inl member)))
      · rcases mem_written member with rfl | member
        · rfl
        · exact formed.clean c (.inr (.inr (.inr member)))
    simpa [isDropped] using kept
  rcases List.mem_pair.mp web with same | same
  · rw [same]
    exact congrArg ("http://".toList ++ ·) later
  · rw [same]
    exact congrArg ("https://".toList ++ ·) later

theorem no_colon_web : ∀ scheme ∈ webSchemes, scheme.all (fun c => !(c == ':')) = true := by decide

theorem splitScheme_web {scheme : List Char} (web : scheme ∈ webSchemes) (rest : List Char) :
    splitScheme (scheme ++ ':' :: rest) = (scheme, rest) := by
  have plain : ∀ c ∈ scheme, (c == ':') = false := by simpa using no_colon_web scheme web
  rw [splitScheme_of_colon plain]
  rcases List.mem_pair.mp web with rfl | rfl
  · rfl
  · rfl

theorem Formed.head_behind (formed : u.Formed) : ∀ c ∈ u.behind.head?, endsAuthority c = true := by
  intro c head
  simp only [behind, List.head?_append, Option.mem_def, Option.or_eq_some_iff] at head
  rcases head with (path | ⟨_, query⟩) | ⟨_, fragment⟩
  · rw [formed.rooted c path]
    rfl
  · rw [head_written query]
    rfl
  · rw [head_written fragment]
    rfl

theorem Formed.authorityPart (formed : u.Formed) :
    authorityPart ('/' :: '/' :: (u.authority ++ u.behind)) = (u.authority, u.behind) := by
  have inside : ∀ c ∈ u.authority, (!endsAuthority c) = true := fun c member =>
    congrArg (!·) (formed.authority c member)
  have stop := formed.head_behind
  change ((u.authority ++ u.behind).takeWhile _, (u.authority ++ u.behind).dropWhile _) = _
  rw [List.takeWhile_append_of_pos inside, List.dropWhile_append_of_pos inside]
  cases behind : u.behind with
  | nil => simp
  | cons c rest =>
      rw [behind] at stop
      have ends : (!endsAuthority c) = false := congrArg (!·) (stop c rfl)
      simp [ends]

theorem Formed.ofParts? (formed : u.Formed) :
    ofParts? u.scheme (u.authority, u.behind) = if authorityOk u.authority then some u else none := by
  have front : ∀ c ∈ u.path ++ written '?' u.query, (c == '#') = false := by
    refine List.forall_mem_append.mpr ⟨fun c member => (formed.path c member).1, fun c member => ?_⟩
    rcases mem_written member with rfl | member
    · rfl
    · exact formed.query c member
  obtain ⟨first, fragment⟩ := cutAt_written front (beq_self_eq_true '#') u.fragment
  obtain ⟨path, query⟩ := cutAt_written (fun c member => (formed.path c member).2) (beq_self_eq_true '?') u.query
  rw [Url.ofParts?, behind]
  dsimp only
  rw [first, fragment, path, query]

/-- A URL of the web that is put together from parts that keep apart is taken apart into them again, if its
authority is well formed. -/
theorem split?_join (web : u.scheme ∈ webSchemes) (formed : u.Formed) (located : u.authority ≠ []) :
    split? u.join = if authorityOk u.authority then some u else none := by
  rw [join_eq web located formed.rooted, split?_eq, formed.cleaned web, splitScheme_web web]
  dsimp only
  rw [formed.authorityPart, formed.ofParts?]

end Url

end ExprRegistry.Http
