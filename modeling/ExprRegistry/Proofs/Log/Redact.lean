import ExprRegistry.Log.Redact
import Mathlib.Data.List.Basic

/-!
What masking leaves of a query. The value of a credential is dropped up to the next ampersand, and what stands
before an ampersand has no part in the names behind it, so two queries that differ in the value of a credential
only are masked alike. What is masked once stays as it is when it is masked again. Main statements:
`redactFrom_value` and `redactFrom_redactFrom`.
-/

namespace ExprRegistry

variable {b before after v w : List Char}

/-- No letter is an ampersand in some case, so a name of a credential does not reach beyond one. -/
theorem endsIn_append_ampersand {word : List Char} (letters : ∀ letter ∈ word, foldsTo letter '&' = false)
    (nonempty : word ≠ []) (before b : List Char) :
    endsIn word (before ++ '&' :: b) = endsIn word before := by
  induction before generalizing word with
  | nil =>
      cases word with
      | nil => exact absurd rfl nonempty
      | cons letter word =>
          have stops : foldsTo letter '&' = false := letters letter List.mem_cons_self
          rw [List.nil_append, endsIn, endsIn, stops, Bool.false_and]
  | cons c before ih =>
      cases word with
      | nil => exact absurd rfl nonempty
      | cons letter word =>
          rw [List.cons_append, endsIn, endsIn]
          cases word with
          | nil => rfl
          | cons next word => rw [ih (fun x member => letters x (List.mem_cons_of_mem _ member)) nofun]

theorem namesCredential_append_ampersand (before b : List Char) :
    namesCredential (before ++ '&' :: b) = namesCredential before := by
  have words : ∀ word ∈ credentialWords, word.toList.reverse.all (fun letter => !foldsTo letter '&') = true ∧
      word.toList.reverse ≠ [] := by decide
  unfold namesCredential
  rw [Bool.eq_iff_iff, List.any_eq_true, List.any_eq_true]
  refine exists_congr fun word => and_congr_right fun member => ?_
  obtain ⟨letters, given⟩ := words word member
  rw [endsIn_append_ampersand (by simpa using letters) given]

/-- Where no letter is dropped a name keeps its end. -/
theorem endsIn_filter {p : Char → Bool} {word : List Char}
    (letters : ∀ letter ∈ word, ∀ c, foldsTo letter c = true → p c = true) (h : endsIn word b = true) :
    endsIn word (b.filter p) = true := by
  induction word generalizing b with
  | nil => cases b.filter p <;> rfl
  | cons letter word ih =>
      cases b with
      | nil => cases h
      | cons c b =>
          rw [endsIn, Bool.and_eq_true] at h
          rw [List.filter_cons_of_pos (letters letter List.mem_cons_self c h.1), endsIn, h.1, Bool.true_and]
          exact ih (fun x member => letters x (List.mem_cons_of_mem _ member)) h.2

theorem namesCredential_filter {p : Char → Bool}
    (letters : ∀ word ∈ credentialWords, ∀ letter ∈ word.toList.reverse, ∀ c, foldsTo letter c = true → p c = true)
    (h : namesCredential b = true) : namesCredential (b.filter p) = true := by
  obtain ⟨word, listed, ends⟩ := List.any_eq_true.mp h
  exact List.any_eq_true.mpr ⟨word, listed, endsIn_filter (letters word listed) ends⟩

/-- Behind an ampersand masking goes on as at the beginning of a query. -/
theorem redactFrom_append_ampersand (masking : Bool) (before b query : List Char) :
    redactFrom masking (before ++ '&' :: b) query = redactFrom masking before query := by
  induction query generalizing masking before with
  | nil => rfl
  | cons c rest ih =>
      have next (masking : Bool) := ih masking (c :: before)
      simp only [List.cons_append] at next
      rw [redactFrom, redactFrom, namesCredential_append_ampersand, next, next]

/-- While masking, everything up to an ampersand is dropped. -/
theorem redactFrom_masked (none : ∀ c ∈ w, c ≠ '&') (b query : List Char) :
    redactFrom true b (w ++ query) = redactFrom true (w.reverse ++ b) query := by
  induction w generalizing b with
  | nil => rfl
  | cons c w ih =>
      obtain ⟨first, rest⟩ := List.forall_mem_cons.mp none
      rw [List.cons_append, redactFrom, if_pos (by simpa using first), ih rest, List.reverse_cons,
        List.append_assoc, List.singleton_append]

/-- An ampersand ends a value, and masking goes on as at the beginning of a query. -/
theorem redactFrom_masked_ampersand (b query : List Char) :
    redactFrom true b ('&' :: query) = '&' :: redactFrom false [] query := by
  rw [← redactFrom_append_ampersand false [] b]
  rfl

/-- What stands before a value is all that its masking depends on. -/
theorem redactFrom_masked_end (hv : ∀ c ∈ v, c ≠ '&') (hw : ∀ c ∈ w, c ≠ '&')
    (last : ∀ c ∈ after.head?, c = '&') (b : List Char) :
    redactFrom true b (v ++ after) = redactFrom true b (w ++ after) := by
  rw [redactFrom_masked hv, redactFrom_masked hw]
  cases after with
  | nil => rfl
  | cons c rest =>
      cases last c rfl
      rw [redactFrom_masked_ampersand, redactFrom_masked_ampersand]

/-- Two queries that differ in the value of a credential only are masked alike. -/
theorem redactFrom_value (credential : namesCredential (before.reverse ++ b) = true) (hv : ∀ c ∈ v, c ≠ '&')
    (hw : ∀ c ∈ w, c ≠ '&') (given : v ≠ []) (given' : w ≠ [])
    (last : ∀ c ∈ after.head?, c = '&') (masking : Bool) :
    redactFrom masking b (before ++ '=' :: (v ++ after)) =
      redactFrom masking b (before ++ '=' :: (w ++ after)) := by
  induction before generalizing b masking with
  | nil =>
      have masked := redactFrom_masked_end hv hw last ('=' :: b)
      have first {x : List Char} (hx : ∀ c ∈ x, c ≠ '&') (given : x ≠ []) : hasValue (x ++ after) = true := by
        obtain ⟨c, x, rfl⟩ := List.exists_cons_of_ne_nil given
        simpa [hasValue] using hx c List.mem_cons_self
      rw [List.reverse_nil, List.nil_append] at credential
      rw [List.nil_append, List.nil_append, redactFrom, redactFrom, first hv given, first hw given', masked,
        credential]
      rfl
  | cons c before ih =>
      rw [List.reverse_cons, List.append_assoc, List.singleton_append] at credential
      have later := ih credential
      have values : hasValue (before ++ '=' :: (v ++ after)) = hasValue (before ++ '=' :: (w ++ after)) := by
        cases before <;> rfl
      rw [List.cons_append, List.cons_append, redactFrom, redactFrom, values, later, later]

/-! ### Masking again -/

theorem mem_redactFrom {c : Char} {masking : Bool} {query : List Char} (member : c ∈ redactFrom masking b query) :
    c ∈ query ∨ c = '*' := by
  induction query generalizing masking b with
  | nil => cases member
  | cons d rest ih =>
      have later {masking : Bool} {b : List Char} (member : c ∈ redactFrom masking b rest) : c ∈ d :: rest ∨ c = '*' :=
        (ih member).imp_left (List.mem_cons_of_mem d)
      rw [redactFrom] at member
      split at member
      case isTrue => exact later member
      case isFalse =>
        split at member
        case isTrue credential =>
          have sign : '=' ∈ d :: rest := by
            rw [Bool.and_eq_true, Bool.and_eq_true, beq_iff_eq] at credential
            exact credential.1.1 ▸ List.mem_cons_self
          simp only [List.mem_cons] at member
          rcases member with rfl | rfl | rfl | rfl | member
          · exact .inl sign
          · exact .inr rfl
          · exact .inr rfl
          · exact .inr rfl
          · exact later member
        case isFalse =>
          rcases List.mem_cons.mp member with rfl | member
          · exact .inl List.mem_cons_self
          · exact later member

theorem hasValue_redactFrom (b query : List Char) : hasValue (redactFrom false b query) = hasValue query := by
  cases query with
  | nil => rfl
  | cons c rest =>
      rw [redactFrom, Bool.false_and, if_neg Bool.false_ne_true]
      split
      case isTrue credential =>
        rw [Bool.and_eq_true, Bool.and_eq_true, beq_iff_eq] at credential
        rw [credential.1.1]
        rfl
      case isFalse => rfl

/-- Masking changes nothing in what is masked: not from its beginning on, nor from within a value on. -/
theorem redactFrom_redactFrom_both (query : List Char) :
    (∀ b, redactFrom false b (redactFrom false b query) = redactFrom false b query) ∧
      ∀ b b', redactFrom true b' (redactFrom true b query) = redactFrom true b query := by
  induction query with
  | nil => exact ⟨fun _ => rfl, fun _ _ => rfl⟩
  | cons c rest ih =>
      obtain ⟨plain, masked⟩ := ih
      refine ⟨fun b => ?_, fun b b' => ?_⟩
      · by_cases credential : (c == '=' && namesCredential b && hasValue rest) = true
        · have once : redactFrom false b (c :: rest) = '=' :: '*' :: '*' :: '*' :: redactFrom true (c :: b) rest := by
            rw [redactFrom, Bool.false_and, if_neg Bool.false_ne_true, if_pos credential]
          have named : namesCredential b = true := by
            rw [Bool.and_eq_true, Bool.and_eq_true] at credential
            exact credential.1.2
          rw [once]
          simp [redactFrom, named, hasValue, masked]
        · have once : redactFrom false b (c :: rest) = c :: redactFrom false (c :: b) rest := by
            rw [redactFrom, Bool.false_and, if_neg Bool.false_ne_true, if_neg credential]
          rw [once, redactFrom, Bool.false_and, if_neg Bool.false_ne_true, hasValue_redactFrom, if_neg credential,
            plain]
      · by_cases last : c = '&'
        · subst last
          rw [redactFrom_masked_ampersand, redactFrom_masked_ampersand, plain]
        · have dropped (x : List Char) : redactFrom true x (c :: rest) = redactFrom true (c :: x) rest := by
            rw [redactFrom, if_pos (by simpa using last)]
          rw [dropped, masked]

/-- What is masked already is not changed by masking it. -/
theorem redactFrom_redactFrom (b query : List Char) :
    redactFrom false b (redactFrom false b query) = redactFrom false b query := (redactFrom_redactFrom_both query).1 b

example : redact "a=1&api_key=abc&b=2" = "a=1&api_key=***&b=2" := by decide +kernel

end ExprRegistry
