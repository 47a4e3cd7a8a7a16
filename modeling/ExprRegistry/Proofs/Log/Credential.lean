import ExprRegistry.Proofs.Data.Pairing
import ExprRegistry.Proofs.Log.Redact
import ExprRegistry.Text.DecimalDigit
import Mathlib.Data.Nat.Find

/-!
Credentials in a query, and what masking makes of them. Masking begins anew behind every ampersand. Between two
ampersands the credential that stands first has its value masked, which is all that follows it, and nothing else
changes. Main statement: `redact_segmentwise`.
-/

namespace ExprRegistry

/-- A character that is a letter in some case. Two characters beyond ASCII are letters in that sense. -/
def IsCaseOf (letter c : Char) : Prop :=
  c = letter ∨ c = Text.upperAscii letter ∨ letter = 's' ∧ c = '\u017F' ∨ letter = 'k' ∧ c = '\u212A'

/-- A credential in characters: one of the words, in any case, directly followed by an equals sign and a value. -/
structure Credential (cs front name value : List Char) : Prop where
  whole : cs = front ++ (name ++ '=' :: value)
  named : ∃ word ∈ credentialWords, List.Forall₂ IsCaseOf word.toList name
  given : value ≠ []

/-- The credential that begins first. -/
structure FirstCredential (cs front name value : List Char) : Prop extends Credential cs front name value where
  first : ∀ {front' name' value'}, Credential cs front' name' value' → front.length ≤ front'.length

variable {b cs l r front name value before : List Char}

/-! ### Names -/

theorem of_credentialWords {p : Char → Bool} (all : (credentialWords.all fun word => word.toList.all p) = true)
    {word : String} (listed : word ∈ credentialWords) {letter : Char} (member : letter ∈ word.toList) :
    p letter = true :=
  List.all_eq_true.mp (List.all_eq_true.mp all word listed) letter member

theorem foldsTo_iff {word : String} (listed : word ∈ credentialWords) {letter c : Char}
    (member : letter ∈ word.toList) : foldsTo letter c = true ↔ IsCaseOf letter c := by
  have here := of_credentialWords (p := fun letter => (Text.upperAscii letter).toNat + 32 == letter.toNat) (by decide)
    listed member
  rw [beq_iff_eq] at here
  have raised : c.toNat + 32 = letter.toNat ↔ c = Text.upperAscii letter := by
    rw [← Char.toNat_inj]
    omega
  simp only [foldsTo, IsCaseOf, Bool.or_eq_true, Bool.and_eq_true, beq_iff_eq, raised, or_assoc]

theorem endsIn_iff {word : List Char} :
    endsIn word b = true ↔ ∃ name rest, b = name ++ rest ∧ List.Forall₂ (fun l c => foldsTo l c = true) word name := by
  induction word generalizing b with
  | nil =>
      have ends : endsIn [] b = true := by cases b <;> rfl
      exact iff_of_true ends ⟨[], b, rfl, .nil⟩
  | cons letter word ih =>
      cases b with
      | nil =>
          refine iff_of_false nofun ?_
          rintro ⟨name, rest, whole, spelled⟩
          cases spelled
          cases whole
      | cons c b =>
          rw [endsIn, Bool.and_eq_true, ih]
          constructor
          · rintro ⟨first, name, rest, rfl, spelled⟩
            exact ⟨c :: name, rest, rfl, .cons first spelled⟩
          · rintro ⟨name, rest, whole, spelled⟩
            cases spelled with
            | cons first spelled =>
                cases whole
                exact ⟨first, _, rest, rfl, spelled⟩

/-- Characters name a credential if they end in one of the words. -/
theorem namesCredential_reverse_iff :
    namesCredential l.reverse = true ↔
      ∃ front name, l = front ++ name ∧ ∃ word ∈ credentialWords, List.Forall₂ IsCaseOf word.toList name := by
  have spells {word : String} (listed : word ∈ credentialWords) (name : List Char) :
      List.Forall₂ (fun l c => foldsTo l c = true) word.toList name ↔ List.Forall₂ IsCaseOf word.toList name := by
    constructor
    · exact forall₂_mono fun letter member c => (foldsTo_iff listed member).mp
    · exact forall₂_mono fun letter member c => (foldsTo_iff listed member).mpr
  rw [namesCredential, List.any_eq_true]
  constructor
  · rintro ⟨word, listed, ends⟩
    obtain ⟨name, rest, whole, spelled⟩ := endsIn_iff.mp ends
    have turned : l = rest.reverse ++ name.reverse := by
      rw [← List.reverse_append, ← whole, List.reverse_reverse]
    have spelled := List.rel_reverse spelled
    rw [List.reverse_reverse, spells listed] at spelled
    exact ⟨rest.reverse, name.reverse, turned, word, listed, spelled⟩
  · rintro ⟨front, name, rfl, word, listed, spelled⟩
    refine ⟨word, listed, endsIn_iff.mpr ⟨name.reverse, front.reverse, List.reverse_append, ?_⟩⟩
    exact List.rel_reverse ((spells listed name).mpr spelled)

theorem no_equals_of_named {word : String} (listed : word ∈ credentialWords)
    (spelled : List.Forall₂ IsCaseOf word.toList name) : '=' ∉ name := by
  have apart : List.Forall₂ (fun _ c => c ≠ '=') word.toList name := by
    refine forall₂_mono (fun letter among c spelled same => ?_) spelled
    have folds := (foldsTo_iff listed among).mpr spelled
    have never := of_credentialWords (p := fun letter => !foldsTo letter '=') (by decide) listed among
    rw [← same, folds] at never
    cases never
  intro member
  obtain ⟨_, other⟩ := exists_of_forall₂ apart.flip '=' member
  exact other rfl

/-! ### Where masking begins -/

/-- Characters stay as they are up to the first place where masking begins. -/
theorem redactFrom_append (r : List Char)
    (quiet : ∀ x y, l = x ++ '=' :: y → (namesCredential (x.reverse ++ b) && hasValue (y ++ r)) = false) :
    redactFrom false b (l ++ r) = l ++ redactFrom false (l.reverse ++ b) r := by
  induction l generalizing b with
  | nil => rfl
  | cons c l ih =>
      have here : ¬(c == '=' && namesCredential b && hasValue (l ++ r)) = true := by
        rw [Bool.and_eq_true, Bool.and_eq_true, beq_iff_eq]
        rintro ⟨⟨rfl, named⟩, given⟩
        have stays := quiet [] l rfl
        rw [List.reverse_nil, List.nil_append, named, given] at stays
        cases stays
      have later : ∀ x y, l = x ++ '=' :: y → (namesCredential (x.reverse ++ c :: b) && hasValue (y ++ r)) = false := by
        rintro x y rfl
        have stays := quiet (c :: x) y rfl
        rwa [List.reverse_cons, List.append_assoc, List.singleton_append] at stays
      rw [List.cons_append, redactFrom, Bool.false_and, if_neg Bool.false_ne_true, if_neg here, ih later,
        List.reverse_cons, List.append_assoc, List.singleton_append, List.cons_append]

theorem hasValue_append_ampersand (l r : List Char) : hasValue (l ++ '&' :: r) = hasValue l := by
  cases l <;> rfl

/-- Two queries joined by an ampersand are masked one by one. -/
theorem redactFrom_join (masking : Bool) (b l r : List Char) :
    redactFrom masking b (l ++ '&' :: r) = redactFrom masking b l ++ '&' :: redactFrom false [] r := by
  induction l generalizing masking b with
  | nil =>
      have anew := redactFrom_append_ampersand false [] b r
      rw [List.nil_append] at anew
      rw [List.nil_append, redactFrom, ← anew]
      cases masking <;> rfl
  | cons c l ih =>
      rw [List.cons_append, redactFrom, redactFrom, hasValue_append_ampersand]
      split
      case isTrue => exact ih true (c :: b)
      case isFalse =>
        split
        case isTrue => rw [ih]; rfl
        case isFalse => rw [ih]; rfl

theorem hasValue_iff (single : '&' ∉ value) : hasValue value = true ↔ value ≠ [] := by
  cases value with
  | nil => exact iff_of_false nofun fun given => given rfl
  | cons c value =>
      have other : c ≠ '&' := fun same => single (same ▸ List.mem_cons_self)
      exact iff_of_true (bne_iff_ne.mpr other) nofun

/-! ### Between two ampersands -/

/-- Masking begins in the middle of characters exactly where a credential has its equals sign. -/
theorem begins_iff (single : '&' ∉ value) :
    (namesCredential l.reverse && hasValue value) = true ↔
      ∃ front name, l = front ++ name ∧ Credential (l ++ '=' :: value) front name value := by
  rw [Bool.and_eq_true, hasValue_iff single, namesCredential_reverse_iff]
  constructor
  · rintro ⟨⟨front, name, rfl, named⟩, given⟩
    exact ⟨front, name, rfl, List.append_assoc _ _ _, named, given⟩
  · rintro ⟨front, name, rfl, credential⟩
    exact ⟨⟨front, name, rfl, credential.named⟩, credential.given⟩

theorem redactFrom_of_no_credential (single : '&' ∉ cs)
    (none : ∀ front name value, ¬Credential cs front name value) : redactFrom false [] cs = cs := by
  have quiet : ∀ x y, cs = x ++ '=' :: y → (namesCredential (x.reverse ++ []) && hasValue (y ++ [])) = false := by
    rintro x y rfl
    rw [List.append_nil, List.append_nil]
    refine eq_false_of_ne_true fun begins => ?_
    have behind : '&' ∉ y := fun member => single (List.mem_append_right _ (List.mem_cons_of_mem _ member))
    obtain ⟨front, name, -, credential⟩ := (begins_iff behind).mp begins
    exact none front name y credential
  have same := redactFrom_append [] quiet
  rwa [List.append_nil, redactFrom, List.append_nil] at same

/-- No credential has its equals sign before that of the first one. -/
theorem FirstCredential.quiet (h : FirstCredential cs front name value) (single : '&' ∉ cs) (x y : List Char)
    (split : front ++ name = x ++ '=' :: y) :
    (namesCredential (x.reverse ++ []) && hasValue (y ++ '=' :: value)) = false := by
  have whole : cs = x ++ '=' :: (y ++ '=' :: value) := by
    rw [h.whole, ← List.append_assoc, split, List.append_assoc, List.cons_append]
  have behind : '&' ∉ y ++ '=' :: value := by
    intro member
    apply single
    rw [whole]
    exact List.mem_append_right _ (List.mem_cons_of_mem _ member)
  rw [List.append_nil]
  refine eq_false_of_ne_true fun begins => ?_
  obtain ⟨front', name', rfl, credential⟩ := (begins_iff behind).mp begins
  rw [← whole] at credential
  have later : front.length ≤ front'.length := h.first credential
  -- then the earlier equals sign stands within the name of the first credential, which has none
  obtain ⟨word, listed, spelled⟩ := h.named
  apply no_equals_of_named listed spelled
  have inside := congrArg (List.drop front.length) split
  rw [List.drop_left, List.append_assoc, List.drop_append_of_le_length later] at inside
  rw [inside]
  simp

theorem redactFrom_of_firstCredential (h : FirstCredential cs front name value) (single : '&' ∉ cs) :
    redactFrom false [] cs = front ++ (name ++ '=' :: ['*', '*', '*']) := by
  have whole : cs = (front ++ name) ++ '=' :: value := h.whole.trans (List.append_assoc _ _ _).symm
  have behind : ∀ c ∈ value, c ≠ '&' := by
    rintro c member rfl
    rw [whole] at single
    exact single (List.mem_append_right _ (List.mem_cons_of_mem _ member))
  have begins : (namesCredential (front ++ name).reverse && hasValue value) = true := by
    refine (begins_iff fun member => behind _ member rfl).mpr ⟨front, name, rfl, ?_⟩
    rw [← whole]
    exact h.toCredential
  have masked : redactFrom true ('=' :: (front ++ name).reverse) value = [] := by
    have dropped := redactFrom_masked behind ('=' :: (front ++ name).reverse) []
    rwa [List.append_nil] at dropped
  rw [whole, redactFrom_append _ (h.quiet single), List.append_nil, redactFrom, Bool.false_and,
    if_neg Bool.false_ne_true, beq_self_eq_true, Bool.true_and, if_pos begins, masked, List.append_assoc]

theorem exists_firstCredential (h : ∃ front name value, Credential cs front name value) :
    ∃ front name value, FirstCredential cs front name value := by
  classical
  have lengths : ∃ n front name value, Credential cs front name value ∧ front.length = n := by
    obtain ⟨front, name, value, credential⟩ := h
    exact ⟨_, front, name, value, credential, rfl⟩
  obtain ⟨front, name, value, credential, least⟩ := Nat.find_spec lengths
  refine ⟨front, name, value, credential, fun {front' name' value'} other => ?_⟩
  rw [least]
  exact Nat.find_min' lengths ⟨front', name', value', other, rfl⟩

/-- Masking goes segment by segment. A segment, which has no ampersand in it, keeps everything up to the equals sign of
the first credential in it, and has stars for what follows; a segment without a credential keeps everything. What is
masked already stays as it is. -/
theorem redact_segmentwise :
    (∀ a b : String, redact (a ++ "&" ++ b) = redact a ++ "&" ++ redact b) ∧
    (∀ t : String, '&' ∉ t.toList →
      (∀ front name value, FirstCredential t.toList front name value →
        redact t = String.ofList (front ++ name) ++ "=***") ∧
      ((∃ front name value, Credential t.toList front name value) →
        ∃ front name value, FirstCredential t.toList front name value) ∧
      ((∀ front name value, ¬Credential t.toList front name value) → redact t = t)) ∧
    ∀ u : String, redact (redact u) = redact u := by
  refine ⟨fun a b => ?_, fun t single => ⟨fun front name value first => ?_, exists_firstCredential, fun none => ?_⟩,
    fun u => ?_⟩
  · have chars : (a ++ "&" ++ b).toList = a.toList ++ '&' :: b.toList := by
      rw [String.toList_append, String.toList_append, List.append_assoc]
      rfl
    apply String.toList_inj.mp
    rw [redact, String.toList_ofList, chars, redactFrom_join]
    simp [redact]
  · rw [redact, redactFrom_of_firstCredential first single, ← List.append_assoc, String.ofList_append]
  · rw [redact, redactFrom_of_no_credential single none, String.ofList_toList]
  · rw [redact, redact, String.toList_ofList, redactFrom_redactFrom]

/-- A query that begins with a credential, written with the Kelvin sign, whose value looks like a credential. -/
def nestedCredential : String := "\u212Aey=token=1"

theorem firstCredential_nested :
    FirstCredential nestedCredential.toList [] ['\u212A', 'e', 'y'] "token=1".toList where
  whole := rfl
  named := ⟨"key", by decide, .cons (.inr (.inr (.inr ⟨rfl, rfl⟩))) (.cons (.inl rfl) (.cons (.inl rfl) .nil))⟩
  given := nofun
  first := fun _ => Nat.zero_le _

theorem redact_segmentwise_nested :
    FirstCredential nestedCredential.toList [] ['\u212A', 'e', 'y'] "token=1".toList ∧
      redact nestedCredential = "\u212Aey=***" ∧
      (∀ front name value, ¬Credential "tokens".toList front name value) ∧ redact "tokens" = "tokens" := by
  have single : '&' ∉ nestedCredential.toList := by decide
  have none : ∀ front name value, ¬Credential "tokens".toList front name value := by
    intro front name value credential
    have sign : '=' ∈ "tokens".toList := by
      rw [credential.whole]
      simp
    exact absurd sign (by decide)
  exact ⟨firstCredential_nested, (redact_segmentwise.2.1 nestedCredential single).1 _ _ _ firstCredential_nested, none,
    (redact_segmentwise.2.1 "tokens" (by decide)).2.2 none⟩

end ExprRegistry
