import ExprRegistry.Text.Lowercase
import Mathlib.Data.List.Basic

/-!
Writing in lower case. The forms that the table of letters gives are not letters of the table themselves, so a text
in lower case stays as it is when it is written in lower case again. Marks are neither letters of the table nor
forms of such letters, so they stay where they are and no others come up. Main statements: `lower_lower` and
`mem_lower_iff`.
-/

namespace ExprRegistry.Text

/-- The number of the first lower-case form of a run. -/
def LetterRun.low (run : LetterRun) : Nat := ((run.first : Int) + run.shift).toNat

/-- The number of the last lower-case form of a run. -/
def LetterRun.high (run : LetterRun) : Nat := ((run.last : Int) + run.shift).toNat

/-- Whether none of the numbers from `low` to `high` is in a run; of the numbers only every second one may count. -/
def LetterRun.avoids (run : LetterRun) (low high : Nat) (alternate : Bool) : Bool :=
  high.blt run.first || run.last.blt low || alternate && run.step.beq 2 && ((low + run.first) % 2).beq 1

/-- Whether no letter of a run has a given number for its lower-case form. -/
def LetterRun.misses (run : LetterRun) (n : Nat) : Bool := run.high < n || n < run.low

/-- A character that has no other form in lower case. -/
def Settled (c : Char) : Prop := c ≠ '\u03A3' ∧ lowerChar c = [c]

instance (c : Char) : Decidable (Settled c) := inferInstanceAs (Decidable (_ ∧ _))

/-- A character that is in no run of letters and is the lower-case form of none. -/
def IsMark (m : Char) : Prop :=
  (capitals.all fun run => (m.toNat < run.first || run.last < m.toNat) && run.misses m.toNat) = true ∧
    m ∉ ['\u0130', 'i', '\u0307', '\u03C2', '\u03C3']

instance (m : Char) : Decidable (IsMark m) := inferInstanceAs (Decidable (_ ∧ _))

/-! ### The table -/

/-- No letter of a run has its lower-case form among the letters of another. -/
theorem capitals_clear : (capitals.all fun run => capitals.all fun other =>
    other.avoids run.low run.high (run.step.beq 2 || run.first.beq run.last)) = true := by decide +kernel

theorem capitals_valid : ∀ run ∈ capitals, (run.step = 1 ∨ run.step = 2) ∧ 0 ≤ run.first + run.shift ∧
    (run.high < 0xD800 ∨ 0xDFFF < run.low ∧ run.high < 0x110000) ∧
    run.misses 0x130 = true ∧ run.misses 0x3A3 = true := by
  decide +kernel

variable {run other : LetterRun} {c d : Char} {cs : List Char} {n m : Nat}

theorem holds_iff : run.holds n = true ↔ run.first ≤ n ∧ n ≤ run.last ∧ (n - run.first) % run.step = 0 := by
  simp only [LetterRun.holds, Bool.and_eq_true, decide_eq_true_eq, beq_iff_eq, and_assoc]

/-- The lower-case form of a letter of a run. -/
theorem toNat_shifted (member : run ∈ capitals) (held : run.holds c.toNat = true) :
    ((Char.ofNat ((c.toNat : Int) + run.shift).toNat).toNat : Int) = c.toNat + run.shift := by
  obtain ⟨low, high, _⟩ := holds_iff.mp held
  obtain ⟨_, positive, valid, _⟩ := capitals_valid run member
  have isValid : ((c.toNat : Int) + run.shift).toNat.isValidChar := by
    unfold LetterRun.low LetterRun.high at valid
    unfold Nat.isValidChar
    omega
  have back : (Char.ofNat ((c.toNat : Int) + run.shift).toNat).toNat = ((c.toNat : Int) + run.shift).toNat := by
    rw [Char.ofNat, dif_pos isValid]
    rfl
  rw [back]
  omega

variable {t : Nat}

theorem not_holds_shifted (member : run ∈ capitals) (listed : other ∈ capitals) (held : run.holds n = true)
    (shifted : (t : Int) = n + run.shift) : other.holds t = false := by
  refine eq_false_of_ne_true fun holds => ?_
  have clears := List.all_eq_true.mp (List.all_eq_true.mp capitals_clear run member) other listed
  obtain ⟨step, positive, _⟩ := capitals_valid run member
  simp only [LetterRun.avoids, LetterRun.low, LetterRun.high, Bool.or_eq_true, Bool.and_eq_true, Nat.blt_eq,
    Nat.beq_eq] at clears
  rw [holds_iff] at held holds
  rcases clears with (above | below) | ⟨⟨_, two⟩, odd⟩
  · omega
  · omega
  · rw [two] at holds
    rcases step with step | step
    all_goals
      rw [step] at held
      omega

theorem ne_of_misses (misses : run.misses m = true) (held : run.holds n = true)
    (shifted : (t : Int) = n + run.shift) : t ≠ m := by
  simp only [LetterRun.misses, Bool.or_eq_true, decide_eq_true_eq] at misses
  unfold LetterRun.low LetterRun.high at misses
  rw [holds_iff] at held
  omega

/-! ### One character -/

theorem lowerChar_of_run (plain : c ≠ '\u0130') (found : capitals.find? (fun run => run.holds c.toNat) = some run) :
    lowerChar c = [Char.ofNat ((c.toNat : Int) + run.shift).toNat] := by
  rw [lowerChar, if_neg (by simpa using plain), found]

theorem lowerChar_of_none (plain : c ≠ '\u0130')
    (none : capitals.find? (fun run => run.holds c.toNat) = none) : lowerChar c = [c] := by
  rw [lowerChar, if_neg (by simpa using plain), none]

theorem settled_shifted (member : run ∈ capitals) (held : run.holds c.toNat = true) :
    Settled (Char.ofNat ((c.toNat : Int) + run.shift).toNat) := by
  have shifted := toNat_shifted member held
  obtain ⟨_, _, _, dotted, sigma⟩ := capitals_valid run member
  refine ⟨fun same => ne_of_misses sigma held shifted (by rw [same]; rfl), lowerChar_of_none ?_ ?_⟩
  · exact fun same => ne_of_misses dotted held shifted (by rw [same]; rfl)
  · exact List.find?_eq_none.mpr fun other listed =>
      ne_true_of_eq_false (not_holds_shifted member listed held shifted)

theorem settled_special : Settled 'i' ∧ Settled '\u0307' ∧ Settled '\u03C2' ∧ Settled '\u03C3' := by
  decide +kernel

theorem settled_of_mem_lowerChar (plain : c ≠ '\u03A3') (member : d ∈ lowerChar c) : Settled d := by
  by_cases dotted : c = '\u0130'
  · subst dotted
    have forms : lowerChar '\u0130' = ['i', '\u0307'] := rfl
    rw [forms, List.mem_pair] at member
    rcases member with rfl | rfl
    · exact settled_special.1
    · exact settled_special.2.1
  cases found : capitals.find? (fun run => run.holds c.toNat) with
  | none =>
      have same := lowerChar_of_none dotted found
      rw [same, List.mem_singleton] at member
      subst member
      exact ⟨plain, same⟩
  | some run =>
      rw [lowerChar_of_run dotted found, List.mem_singleton] at member
      subst member
      have held : run.holds c.toNat = true := List.find?_some (p := fun run : LetterRun => run.holds c.toNat) found
      exact settled_shifted (List.mem_of_find?_eq_some found) held

theorem IsMark.lowerChar {c m : Char} (mark : IsMark m) (member : m ∈ lowerChar c) : c = m := by
  by_cases dotted : c = '\u0130'
  · subst dotted
    have forms : Text.lowerChar '\u0130' = ['i', '\u0307'] := rfl
    rw [forms] at member
    exact absurd (List.mem_cons_of_mem _ (List.mem_append_left ['\u03C2', '\u03C3'] member)) mark.2
  cases found : capitals.find? (fun run => run.holds c.toNat) with
  | none =>
      rw [lowerChar_of_none dotted found, List.mem_singleton] at member
      exact member.symm
  | some run =>
      have held : run.holds c.toNat = true := List.find?_some (p := fun run : LetterRun => run.holds c.toNat) found
      have listed := List.mem_of_find?_eq_some found
      have misses := (Bool.and_eq_true_iff.mp (List.all_eq_true.mp mark.1 run listed)).2
      rw [lowerChar_of_run dotted found, List.mem_singleton] at member
      exact absurd (congrArg Char.toNat member.symm) (ne_of_misses misses held (toNat_shifted listed held))

theorem IsMark.settled {m : Char} (mark : IsMark m) : Settled m := by
  have apart : capitals.find? (fun run => run.holds m.toNat) = none := by
    refine List.find?_eq_none.mpr fun run listed held => ?_
    have outside := (Bool.and_eq_true_iff.mp (List.all_eq_true.mp mark.1 run listed)).1
    simp only [Bool.or_eq_true, decide_eq_true_eq] at outside
    rw [holds_iff] at held
    omega
  have plain : m ≠ '\u0130' := fun same => mark.2 (same ▸ List.mem_cons_self)
  refine ⟨?_, lowerChar_of_none plain apart⟩
  rintro rfl
  revert apart
  decide +kernel

/-! ### Texts -/

/-- A character in lower case, as it stands between others. -/
def lowered (before : List Char) (c : Char) (after : List Char) : List Char :=
  if c == '\u03A3' then [if endsWord before after then '\u03C2' else '\u03C3'] else lowerChar c

theorem lowerFrom_cons (before : List Char) (c : Char) (rest : List Char) :
    lowerFrom before (c :: rest) = lowered before c rest ++ lowerFrom (c :: before) rest := rfl

variable {before after : List Char}

theorem settled_of_mem_lowered (member : d ∈ lowered before c after) : Settled d := by
  unfold lowered at member
  split at member
  case isTrue =>
    rw [List.mem_singleton] at member
    subst member
    split
    · exact settled_special.2.2.1
    · exact settled_special.2.2.2
  case isFalse other => exact settled_of_mem_lowerChar (fun same => other (beq_iff_eq.mpr same)) member

theorem lowered_of_settled (settled : Settled c) (before after : List Char) : lowered before c after = [c] := by
  rw [lowered, if_neg (by simpa using settled.1), settled.2]

theorem IsMark.lowered {m : Char} (mark : IsMark m) (member : m ∈ lowered before c after) : c = m := by
  unfold Text.lowered at member
  split at member
  case isTrue =>
    have special : m ∈ ['\u03C2', '\u03C3'] := by
      rw [List.mem_singleton] at member
      subst member
      split <;> decide
    exact absurd (List.mem_append_right ['\u0130', 'i', '\u0307'] special) mark.2
  case isFalse => exact mark.lowerChar member

theorem settled_of_mem_lowerFrom (member : d ∈ lowerFrom before cs) : Settled d := by
  induction cs generalizing before with
  | nil => cases member
  | cons c rest ih =>
      rw [lowerFrom_cons] at member
      rcases List.mem_append.mp member with here | later
      · exact settled_of_mem_lowered here
      · exact ih later

theorem lowerFrom_of_settled (settled : ∀ c ∈ cs, Settled c) (before : List Char) : lowerFrom before cs = cs := by
  induction cs generalizing before with
  | nil => rfl
  | cons c rest ih =>
      obtain ⟨first, later⟩ := List.forall_mem_cons.mp settled
      rw [lowerFrom_cons, lowered_of_settled first, ih later, List.singleton_append]

theorem lower_lower (cs : List Char) : lower (lower cs) = lower cs :=
  lowerFrom_of_settled (fun _ member => settled_of_mem_lowerFrom member) []

theorem mem_lowerFrom_iff {m : Char} (mark : IsMark m) : m ∈ lowerFrom before cs ↔ m ∈ cs := by
  induction cs generalizing before with
  | nil => exact Iff.rfl
  | cons c rest ih =>
      rw [lowerFrom_cons, List.mem_append, ih, List.mem_cons]
      refine or_congr ⟨fun member => (mark.lowered member).symm, ?_⟩ Iff.rfl
      rintro rfl
      rw [lowered_of_settled mark.settled]
      exact List.mem_singleton_self m

theorem mem_lower_iff {m : Char} (mark : IsMark m) (cs : List Char) : m ∈ lower cs ↔ m ∈ cs := mem_lowerFrom_iff mark

end ExprRegistry.Text
