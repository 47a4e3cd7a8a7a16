import ExprRegistry.Text.Blank
import Mathlib.Data.List.TakeWhile

/-!
Cutting a list of characters at a mark. What stands before the first mark is cut off whatever follows it, and a
run of other characters ends at a mark as it ends at the end of the list. Cut at every mark, a list falls into the
pieces that give it back with the marks between them.
-/

namespace ExprRegistry.Text

variable {p : Char → Bool} {m : Char} {cs : List Char}

theorem takeWhile_append_mark (h : p m = false) (cs more : List Char) :
    (cs ++ m :: more).takeWhile p = cs.takeWhile p := by
  induction cs with
  | nil => exact List.takeWhile_cons_of_neg (ne_true_of_eq_false h)
  | cons c cs ih =>
      rw [List.cons_append, List.takeWhile_cons, List.takeWhile_cons, ih]

theorem dropWhile_append_mark (h : p m = false) (cs more : List Char) :
    (cs ++ m :: more).dropWhile p = cs.dropWhile p ++ m :: more := by
  induction cs with
  | nil => exact List.dropWhile_cons_of_neg (ne_true_of_eq_false h)
  | cons c cs ih =>
      rw [List.cons_append, List.dropWhile_cons, List.dropWhile_cons, ih]
      split
      · rfl
      · rfl

theorem cutAt_append (h : ∀ c ∈ cs, p c = false) (more : List Char) :
    cutAt p (cs ++ more) = (cs ++ (cutAt p more).1, (cutAt p more).2) := by
  induction cs with
  | nil => rfl
  | cons c cs ih =>
      obtain ⟨first, rest⟩ := List.forall_mem_cons.mp h
      rw [List.cons_append, cutAt, if_neg (ne_true_of_eq_false first), ih rest]
      rfl

theorem cutAt_eq_self (h : ∀ c ∈ cs, p c = false) : cutAt p cs = (cs, none) := by
  have alone := cutAt_append h []
  rwa [List.append_nil, cutAt, List.append_nil] at alone

theorem cutAt_mark (h : ∀ c ∈ cs, p c = false) (mark : p m = true) (more : List Char) :
    cutAt p (cs ++ m :: more) = (cs, some more) := by
  rw [cutAt_append h, cutAt, if_pos mark, List.append_nil]

theorem no_mark_iff : (∀ c ∈ cs, (c == m) = false) ↔ m ∉ cs := by
  constructor
  · intro none member
    simpa using none m member
  · intro absent c member
    refine beq_eq_false_iff_ne.mpr ?_
    rintro rfl
    exact absent member

/-- There is no mark, or there is a first one. -/
theorem mark_cases (p : Char → Bool) (cs : List Char) :
    (∀ c ∈ cs, p c = false) ∨
      ∃ before m after, cs = before ++ m :: after ∧ (∀ c ∈ before, p c = false) ∧ p m = true := by
  induction cs with
  | nil => exact .inl nofun
  | cons c cs ih =>
      cases here : p c with
      | true => exact .inr ⟨[], c, cs, rfl, nofun, here⟩
      | false =>
          rcases ih with none | ⟨before, m, after, rfl, none, mark⟩
          · exact .inl (List.forall_mem_cons.mpr ⟨here, none⟩)
          · exact .inr ⟨c :: before, m, after, rfl, List.forall_mem_cons.mpr ⟨here, none⟩, mark⟩

theorem cutAt_fst (p : Char → Bool) (cs : List Char) : (cutAt p cs).1 = cs.takeWhile fun c => !p c := by
  induction cs with
  | nil => rfl
  | cons c cs ih =>
      rw [cutAt, List.takeWhile_cons]
      cases p c with
      | true => rfl
      | false => exact congrArg (c :: ·) ih

theorem cutAt_snd (p : Char → Bool) (cs : List Char) :
    (cutAt p cs).2.getD [] = (cs.dropWhile fun c => !p c).tail := by
  induction cs with
  | nil => rfl
  | cons c cs ih =>
      rw [cutAt, List.dropWhile_cons]
      cases p c with
      | true => rfl
      | false => exact ih

theorem mem_cutAt_fst {c : Char} (member : c ∈ (cutAt p cs).1) : c ∈ cs ∧ p c = false := by
  rw [cutAt_fst] at member
  have before := List.mem_takeWhile_imp (p := fun c => !p c) member
  exact ⟨(List.takeWhile_sublist _).subset member, by simpa using before⟩

theorem mem_cutAt_snd {c : Char} (member : c ∈ (cutAt p cs).2.getD []) : c ∈ cs := by
  rw [cutAt_snd] at member
  exact (List.dropWhile_sublist _).subset (List.mem_of_mem_tail member)

theorem head_cutAt {c : Char} (head : c ∈ (cutAt p cs).1.head?) : c ∈ cs.head? := by
  cases cs with
  | nil => exact head
  | cons d cs =>
      rw [cutAt] at head
      split at head
      · cases head
      · exact head

/-! ### Cutting at every mark -/

theorem pieces_eq_splitOn (m : Char) (cs : List Char) : pieces m cs = cs.splitOn m := by
  induction cs with
  | nil => rfl
  | cons d rest ih =>
      rw [pieces, List.splitOn, List.splitOnP_cons_eq_if_modifyHead]
      change _ = if (d == m) = true then [] :: rest.splitOn m else (rest.splitOn m).modifyHead (List.cons d)
      rw [← ih]
      cases cut : pieces m rest with
      | nil => exact absurd (ih.symm.trans cut) (List.splitOnP_ne_nil _ rest)
      | cons first others => rfl

/-- A piece holds characters of the list, and no mark. -/
theorem mem_of_mem_pieces {m : Char} {cs piece : List Char} (member : piece ∈ pieces m cs) :
    ∀ d ∈ piece, d ∈ cs ∧ d ≠ m := by
  induction cs generalizing piece with
  | nil =>
      cases List.mem_singleton.mp member
      exact List.forall_mem_nil _
  | cons c rest ih =>
      have later {piece : List Char} (h : piece ∈ pieces m rest) : ∀ d ∈ piece, d ∈ c :: rest ∧ d ≠ m :=
        fun d inside => ⟨List.mem_cons_of_mem c (ih h d inside).1, (ih h d inside).2⟩
      rw [pieces] at member
      split at member
      case isTrue =>
        rcases List.mem_cons.mp member with rfl | member
        · exact List.forall_mem_nil _
        · exact later member
      case isFalse other =>
        have first : c ∈ c :: rest ∧ c ≠ m := ⟨List.mem_cons_self, fun same => other (beq_iff_eq.mpr same)⟩
        split at member
        case h_1 =>
          cases List.mem_singleton.mp member
          exact List.forall_mem_singleton.mpr first
        case h_2 front others cut =>
          rw [cut] at later
          rcases List.mem_cons.mp member with rfl | member
          · exact List.forall_mem_cons.mpr ⟨first, later List.mem_cons_self⟩
          · exact later (List.mem_cons_of_mem front member)

/-! ### Dropping a character at the end -/

theorem dropTrailing_of_stop {s : String} {before after : List Char} {c last : Char}
    (h : s.toList = before ++ last :: after) (stop : last ≠ c) :
    (dropTrailing c s).toList = before ++ last :: (dropTrailing c (String.ofList after)).toList := by
  have other : (last == c) = false := beq_eq_false_iff_ne.mpr stop
  simp only [dropTrailing, h, String.toList_ofList, List.reverse_append, List.reverse_cons, List.append_assoc,
    List.singleton_append]
  rw [dropWhile_append_mark (p := (· == c)) other, List.reverse_append, List.reverse_cons, List.reverse_reverse,
    List.append_assoc, List.singleton_append]

/-- What is dropped at the end is the character alone, and it is dropped as often as it stands there. -/
theorem exists_dropTrailing (c : Char) (s : String) :
    ∃ n, s.toList = (dropTrailing c s).toList ++ List.replicate n c ∧ (dropTrailing c s).toList.getLast? ≠ some c := by
  rw [dropTrailing, String.toList_ofList]
  have same : ∀ d ∈ s.toList.reverse.takeWhile (· == c), d = c := fun d member =>
    eq_of_beq (List.mem_takeWhile_imp (p := (· == c)) member)
  refine ⟨(s.toList.reverse.takeWhile (· == c)).length, ?_, ?_⟩
  · have cut := congrArg List.reverse (List.takeWhile_append_dropWhile (p := (· == c)) (l := s.toList.reverse))
    rw [List.reverse_append, List.reverse_reverse, List.eq_replicate_of_mem same, List.reverse_replicate] at cut
    exact cut.symm
  · intro last
    have stop := List.head?_dropWhile_not (· == c) s.toList.reverse
    rw [List.getLast?_reverse] at last
    simp [last] at stop

theorem mem_of_mem_dropTrailing {s : String} {c x : Char} (member : x ∈ (dropTrailing c s).toList) :
    x ∈ s.toList := by
  rw [dropTrailing, String.toList_ofList, List.mem_reverse] at member
  exact List.mem_reverse.mp ((List.dropWhile_sublist _).subset member)

end ExprRegistry.Text
