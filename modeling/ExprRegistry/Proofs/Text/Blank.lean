import ExprRegistry.Proofs.Version.Grammar

/-!
Blanks around a text. Digits and the characters of identifiers are no blanks. What is left when the blanks around a
text are dropped neither begins nor ends with one, and there is no other way to set a text between blanks that
does so. Main statements: `exists_trimBy` and `trimBy_append`.
-/

namespace ExprRegistry.Text

variable {c : Char} {cs : List Char} {p : Char → Bool}

/-- The digits of a script stand before, between or after the blanks. -/
theorem zeros_apart : ∀ z ∈ digitZeros, z = 0x30 ∨ 0x660 ≤ z ∧ z + 10 ≤ 0x1680 ∨
    0x1681 ≤ z ∧ z + 10 ≤ 0x2000 ∨ 0x3001 ≤ z := by decide

theorem isBlank_of_isDigit (h : isDigit c = true) : isBlank c = false := by
  rw [isDigit, digitValue?, Option.isSome_map, List.find?_isSome] at h
  obtain ⟨z, member, inside⟩ := h
  have range := zeros_apart z member
  simp only [Bool.and_eq_true, decide_eq_true_eq] at inside
  simp only [isBlank, Bool.or_eq_false_iff, Bool.and_eq_false_iff, decide_eq_false_iff_not, beq_eq_false_iff_ne]
  omega

theorem isBlank_of_visible (above : 0x20 < c.toNat) (below : c.toNat < 0x7F) : isBlank c = false := by
  simp only [isBlank, Bool.or_eq_false_iff, Bool.and_eq_false_iff, decide_eq_false_iff_not, beq_eq_false_iff_ne]
  omega

theorem isBlank_of_isIdentifierChar (h : Version.isIdentifierChar c = true) : isBlank c = false := by
  simp only [Version.isIdentifierChar, isAsciiDigit, isAsciiLetter, Bool.or_eq_true, Bool.and_eq_true,
    decide_eq_true_eq, beq_iff_eq, Char.le_def, UInt32.le_iff_toNat_le] at h
  rcases h with ((⟨low, high⟩ | ⟨low, high⟩ | ⟨low, high⟩) | rfl) | rfl
  · exact isBlank_of_visible (Nat.lt_of_lt_of_le (by decide) low) (Nat.lt_of_le_of_lt high (by decide))
  · exact isBlank_of_visible (Nat.lt_of_lt_of_le (by decide) low) (Nat.lt_of_le_of_lt high (by decide))
  · exact isBlank_of_visible (Nat.lt_of_lt_of_le (by decide) low) (Nat.lt_of_le_of_lt high (by decide))
  · decide
  · decide

theorem trimBy_eq_self (h : ∀ c ∈ cs, p c = false) : trimBy p cs = cs := by
  have front : Version.Stops p cs := fun c head => h c (List.mem_of_mem_head? head)
  have back : Version.Stops p cs.reverse := fun c head =>
    h c (List.mem_reverse.mp (List.mem_of_mem_head? head))
  rw [trimBy, Version.dropWhile_of_stops front, Version.dropWhile_of_stops back, List.reverse_reverse]

/-! ### What is left between blanks -/

variable {before mid after : List Char}

theorem stops_left (after : List Char) (h : Version.Stops p (cs ++ after)) : Version.Stops p cs := by
  intro c head
  apply h c
  rw [List.head?_append, Option.mem_def.mp head]
  rfl

theorem stops_reverse_append (some : mid ≠ []) (h : Version.Stops p mid.reverse) (before : List Char) :
    Version.Stops p (before ++ mid).reverse := by
  intro c head
  apply h c
  cases back : mid.reverse with
  | nil => exact absurd (List.reverse_eq_nil_iff.mp back) some
  | cons d rest =>
      rw [List.reverse_append, back] at head
      exact head

/-- Only characters at the two ends are dropped, and as many as there are of the kind. -/
theorem exists_trimBy (p : Char → Bool) (cs : List Char) :
    ∃ before after, cs = before ++ (trimBy p cs ++ after) ∧ (∀ c ∈ before, p c = true) ∧
      (∀ c ∈ after, p c = true) ∧ Version.Stops p (trimBy p cs) ∧ Version.Stops p (trimBy p cs).reverse := by
  have front : cs.takeWhile p ++ cs.dropWhile p = cs := List.takeWhile_append_dropWhile
  have back : cs.dropWhile p = trimBy p cs ++ ((cs.dropWhile p).reverse.takeWhile p).reverse := by
    rw [trimBy, ← List.reverse_append, List.takeWhile_append_dropWhile, List.reverse_reverse]
  refine ⟨cs.takeWhile p, ((cs.dropWhile p).reverse.takeWhile p).reverse, ?_, ?_, ?_, ?_, ?_⟩
  · rw [← back, front]
  · intro c member
    exact List.mem_takeWhile_imp member
  · intro c member
    exact List.mem_takeWhile_imp (List.mem_reverse.mp member)
  · apply stops_left ((cs.dropWhile p).reverse.takeWhile p).reverse
    rw [← back]
    exact Version.stops_dropWhile p cs
  · rw [trimBy, List.reverse_reverse]
    exact Version.stops_dropWhile p _

theorem trimBy_append (first : ∀ c ∈ before, p c = true) (last : ∀ c ∈ after, p c = true)
    (begins : Version.Stops p mid) (ends : Version.Stops p mid.reverse) :
    trimBy p (before ++ (mid ++ after)) = mid := by
  have last' : ∀ c ∈ after.reverse, p c = true := fun c member => last c (List.mem_reverse.mp member)
  rw [trimBy, List.dropWhile_append_of_pos first]
  cases mid with
  | nil =>
      rw [List.nil_append, List.dropWhile_eq_nil_iff.mpr last]
      rfl
  | cons c mid =>
      have here : p c = false := begins c rfl
      rw [List.cons_append, List.dropWhile_cons_of_neg (ne_true_of_eq_false here), ← List.cons_append,
        List.reverse_append, List.dropWhile_append_of_pos last', Version.dropWhile_of_stops ends,
        List.reverse_reverse]

theorem trimBy_blanks_append (first : ∀ c ∈ before, p c = true) (cs : List Char) :
    trimBy p (before ++ cs) = trimBy p cs := by
  rw [trimBy, List.dropWhile_append_of_pos first, trimBy]

theorem trimBy_append_left (first : ∀ c ∈ before, p c = true) (begins : Version.Stops p mid)
    (ends : Version.Stops p mid.reverse) : trimBy p (before ++ mid) = mid := by
  have alone := trimBy_append first (List.forall_mem_nil _) begins ends
  rwa [List.append_nil] at alone

/-- A text that does not end with a blank only loses blanks in front. -/
theorem exists_gap (ends : Version.Stops p cs.reverse) :
    ∃ gap, (∀ c ∈ gap, p c = true) ∧ cs = gap ++ trimBy p cs := by
  obtain ⟨gap, after, whole, blank, last, -, -⟩ := exists_trimBy p cs
  have none : after = [] := by
    by_contra some
    obtain ⟨init, c, rfl⟩ := List.eq_nil_or_concat after |>.resolve_left some
    have kept : p c = false := by
      apply ends c
      rw [whole]
      simp
    have dropped : p c = true := last c (by simp)
    rw [kept] at dropped
    cases dropped
  refine ⟨gap, blank, ?_⟩
  rw [none, List.append_nil] at whole
  exact whole

end ExprRegistry.Text
