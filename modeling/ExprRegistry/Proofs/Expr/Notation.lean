import ExprRegistry.Proofs.Data.Marked
import ExprRegistry.Proofs.Expr.RoundTrip
import ExprRegistry.Proofs.Expr.Shown
import ExprRegistry.Proofs.Json.Canonical

/-!
Call notation. An expression is written as its tag and, in parentheses, its parts; a part ends before a mark that
stands in no name and with which no value goes on. So a text that begins with an expression tells the expression and
what follows it. Main statement: expressions without a match that are written alike are the same.
-/

namespace ExprRegistry

/-! ### Words that are told by the text they begin -/

/-- A character before which a part of a call ends. -/
def EndsPart (c : Char) : Prop := c = ',' ∨ c = ']' ∨ c = ')'

/-- A text before which a part of a call ends. -/
def Closing (rest : List Char) : Prop := ∀ c ∈ rest.head?, EndsPart c

theorem closing_nil : Closing [] := fun _ first => nomatch first

theorem closing_comma (rest : List Char) : Closing (',' :: rest) := by
  rintro c ⟨⟩
  exact .inl rfl

theorem closing_bracket (rest : List Char) : Closing (']' :: rest) := by
  rintro c ⟨⟩
  exact .inr (.inl rfl)

theorem closing_paren (rest : List Char) : Closing (')' :: rest) := by
  rintro c ⟨⟩
  exact .inr (.inr rfl)

theorem Closing.stops {rest : List Char} (h : Closing rest) : Version.Stops Json.goesOn rest := by
  intro c first
  obtain rfl | rfl | rfl := h c first
  all_goals rfl

theorem not_endsPart_of_isNameChar {c : Char} (h : isNameChar c = true) : ¬EndsPart c := by
  rintro (rfl | rfl | rfl)
  all_goals cases h

theorem IsParameter.not_endsPart {name : String} (h : IsParameter name) : ∀ c ∈ name.toList, ¬EndsPart c := by
  obtain ⟨c, rest, written, start, all⟩ := h
  have first : isNameChar c = true := by rw [isNameChar, start, Bool.true_or]
  rw [written]
  exact List.forall_mem_cons.mpr
    ⟨not_endsPart_of_isNameChar first, fun d member => not_endsPart_of_isNameChar (all d member)⟩

theorem IsReference.not_endsPart {name : String} (h : IsReference name) : ∀ c ∈ name.toList, ¬EndsPart c := by
  obtain ⟨stem, parameter, rfl | rfl⟩ := h
  · exact parameter.not_endsPart
  · rw [String.toList_append, List.forall_mem_append]
    refine ⟨parameter.not_endsPart, List.forall_mem_singleton.mpr ?_⟩
    rintro (ends | ends | ends)
    all_goals cases ends

section Words

variable {α : Type} {R : α → List Char → Prop} {as bs : List α} {words others : List (List Char)} {x y : List Char}

/-- Where a mark follows, a word for `a` is told by the text: no other word stands there before a mark, and no word
for anything else. -/
def Tells (R : α → List Char → Prop) (a : α) : Prop :=
  ∀ ⦃b word other x y⦄, R a word → R b other → Closing x → Closing y → word ++ x = other ++ y → a = b ∧ x = y

/-- The words of a list from the second on, and its closing bracket. -/
def listed : List (List Char) → List Char
  | [] => [']']
  | word :: words => ',' :: ' ' :: (word ++ listed words)

/-- Words in brackets, with commas between them. -/
def bracketed (words : List (List Char)) : List Char := '[' :: ([',', ' '].intercalate words ++ [']'])

theorem bracketed_cons (word : List Char) (words : List (List Char)) :
    bracketed (word :: words) = '[' :: (word ++ listed words) := by
  induction words generalizing word with
  | nil => rw [bracketed, List.intercalate_singleton, listed]
  | cons next words ih =>
      have tail := (List.cons.inj (ih next)).2
      rw [bracketed, List.intercalate_cons_cons, List.append_assoc, List.append_assoc, tail, listed]
      rfl

theorem closing_listed (words : List (List Char)) (x : List Char) : Closing (listed words ++ x) := by
  cases words with
  | nil => exact closing_bracket _
  | cons word words => exact closing_comma _

theorem listed_inj (told : ∀ a ∈ as, Tells R a) (h : List.Forall₂ R as words) (h' : List.Forall₂ R bs others)
    (same : listed words ++ x = listed others ++ y) : as = bs ∧ x = y := by
  induction h generalizing bs others with
  | nil =>
      cases h' with
      | nil => exact ⟨rfl, (List.cons.inj same).2⟩
      | cons _ _ => cases same
  | @cons a word as words first rest ih =>
      cases h' with
      | nil => cases same
      | @cons b other bs others first' rest' =>
          rw [listed, listed, List.cons_append, List.cons_append, List.cons_append, List.cons_append,
            List.append_assoc, List.append_assoc] at same
          obtain ⟨rfl, later⟩ := told a List.mem_cons_self first first' (closing_listed words x)
            (closing_listed others y) (List.cons.inj (List.cons.inj same).2).2
          obtain ⟨rfl, ends⟩ := ih (fun a member => told a (List.mem_cons_of_mem _ member)) rest' later
          exact ⟨rfl, ends⟩

/-- Words in brackets tell what they stand for, if none of them begins with the closing bracket. -/
theorem bracketed_inj (opens : ∀ a word, R a word → ∃ c cs, word = c :: cs ∧ c ≠ ']') (told : ∀ a ∈ as, Tells R a)
    (h : List.Forall₂ R as words) (h' : List.Forall₂ R bs others)
    (same : bracketed words ++ x = bracketed others ++ y) : as = bs ∧ x = y := by
  have apart {b : α} {word : List Char} (written : R b word) (words : List (List Char)) (y z : List Char) :
      bracketed (word :: words) ++ y ≠ '[' :: ']' :: z := by
    obtain ⟨c, cs, rfl, other⟩ := opens b word written
    rw [bracketed_cons]
    exact fun same => other (List.cons.inj (List.cons.inj same).2).1
  cases h with
  | nil =>
      cases h' with
      | nil => exact ⟨rfl, (List.cons.inj (List.cons.inj same).2).2⟩
      | cons first _ => exact absurd same.symm (apart first _ _ _)
  | @cons a word as words first rest =>
      cases h' with
      | nil => exact absurd same (apart first _ _ _)
      | @cons b other bs others first' rest' =>
          rw [bracketed_cons, bracketed_cons, List.cons_append, List.cons_append, List.append_assoc,
            List.append_assoc] at same
          obtain ⟨rfl, later⟩ := told a List.mem_cons_self first first' (closing_listed words x)
            (closing_listed others y) (List.cons.inj same).2
          obtain ⟨rfl, ends⟩ := listed_inj (fun a member => told a (List.mem_cons_of_mem _ member)) rest rest' later
          exact ⟨rfl, ends⟩

end Words

namespace Expr

variable {P : Json → Prop} {e : Expr} {cs : List Char}

/-! ### Expressions without a match -/

/-- Terms without a match and without a branch, all of whose values are `P`: those of literals, and those that stand
among the items of vectors. -/
inductive MatchFree (P : Json → Prop) : Expr → Prop
  | literal {v : Json} (value : P v) : MatchFree P (literal v)
  | reference (name : Json) : MatchFree P (reference name)
  | vector {items : List Expr} (all : ∀ e ∈ items, MatchFree P e) : MatchFree P (vector items)
  | application {f : Expr} {argument : Option Expr} (function : MatchFree P f)
      (argued : ∀ a, argument = some a → MatchFree P a) : MatchFree P (application f argument)
  | lambda (params : List Json) {body : Expr} (inside : MatchFree P body) : MatchFree P (lambda params body)
  | fixpoint {inner : Expr} (inside : MatchFree P inner) : MatchFree P (fixpoint inner)
  | raw {v : Json} (value : P v) : MatchFree P (raw v)

theorem MatchFree.blankedItem_eq (h : e.MatchFree P) : blankedItem e = e.blanked := by
  cases h <;> rfl

/-- No branch has to be replaced where there is none. -/
theorem MatchFree.blanked_eq (h : e.MatchFree P) : e.blanked = e := by
  induction h with
  | literal value => rfl
  | reference name => rfl
  | @vector items all ih =>
      have same : ∀ e ∈ items, blankedItem e = e := fun e member => (all e member).blankedItem_eq.trans (ih e member)
      rw [blanked, blankedItems_eq_map, map_eq_self_iff.mpr same]
  | @application f argument _ _ ih ihArgument =>
      cases argument with
      | none => rw [blanked, ih]
      | some a => rw [blanked, ih, ihArgument a rfl]
  | lambda params _ ih => rw [blanked, ih]
  | fixpoint _ ih => rw [blanked, ih]
  | raw value => rfl

/-- A well-formed expression without matches is what some document is read as. -/
theorem MatchFree.exists_decode (h : e.MatchFree P) (formed : e.WellFormed) : ∃ v, decode v = .ok e := by
  obtain ⟨v, _, read⟩ := formed.exists_document
  exact ⟨v, by rw [read, h.blanked_eq]⟩

/-! ### What is written of an expression -/

/-- An expression that its text tells, and that text. -/
structure Notated (e : Expr) (cs : List Char) : Prop where
  formed : e.WellFormed
  free : e.MatchFree fun v => v.Regular ∧ v.Exact
  shown : ∃ text, e.pretty = .ok text ∧ text.toList = cs

/-- An item of a vector: a value, or an expression. -/
inductive NotatedItem : Expr → List Char → Prop
  | value {v : Json} (regular : v.Regular) (exact : v.Exact) : NotatedItem (raw v) (v.write .spaced 0)
  | expression {e : Expr} {cs : List Char} (notated : Notated e cs) : NotatedItem e cs

/-- A parameter is written as its name. -/
def NotatedParam (p : Json) (cs : List Char) : Prop := ∃ name, p = .str name ∧ IsParameter name ∧ name.toList = cs

/-- What stands between the parentheses of an expression, for each form. -/
inductive Call : Form → Expr → List Char → Prop
  | literal {v : Json} (regular : v.Regular) (exact : v.Exact) : Call .literal (literal v) (v.write .spaced 0)
  | reference {name : String} (named : IsReference name) : Call .reference (reference (.str name)) name.toList
  | vector {items : List Expr} {words : List (List Char)} (all : List.Forall₂ NotatedItem items words) :
      Call .vector (vector items) (bracketed words)
  | partialApplication {f : Expr} {cs : List Char} (function : Notated f cs) :
      Call .application (application f none) cs
  | application {f a : Expr} {cs ds : List Char} (function : Notated f cs) (argument : Notated a ds) :
      Call .application (application f (some a)) (cs ++ ',' :: ' ' :: ds)
  | lambda {params : List Json} {words : List (List Char)} {body : Expr} {cs : List Char}
      (named : List.Forall₂ NotatedParam params words) (inside : Notated body cs) :
      Call .lambda (lambda params body) (bracketed words ++ ',' :: ' ' :: cs)
  | fixpoint {inner : Expr} {cs : List Char} (inside : Notated inner cs) : Call .fixpoint (fixpoint inner) cs

theorem toList_bracketed (texts : List String) :
    ("[" ++ ", ".intercalate texts ++ "]").toList = bracketed (texts.map String.toList) := by
  rw [String.toList_append, String.toList_append, String.toList_intercalate]
  rfl

theorem prettyItems_cons (h : e.isExpression = true) (items : List Expr) :
    prettyItems (e :: items) = (do
      let text ← pretty e
      let texts ← prettyItems items
      pure (text :: texts)) := by
  cases e with
  | raw v => cases h
  | branch pattern result => cases h
  | _ => rfl

theorem notatedItems {items : List Expr} {texts : List String}
    (formed : ∀ e ∈ items, e.isExpression = true → e.WellFormed)
    (free : ∀ e ∈ items, e.MatchFree fun v => v.Regular ∧ v.Exact) (shown : prettyItems items = .ok texts) :
    List.Forall₂ NotatedItem items (texts.map String.toList) := by
  induction items generalizing texts with
  | nil =>
      cases shown
      exact .nil
  | cons e items ih =>
      obtain ⟨here, laterFormed⟩ := List.forall_mem_cons.mp formed
      obtain ⟨first, laterFree⟩ := List.forall_mem_cons.mp free
      rcases isExpression_cases e with expression | ⟨v, rfl⟩ | ⟨pattern, result, rfl⟩
      · rw [prettyItems_cons expression] at shown
        obtain ⟨text, item, shown⟩ := bind_eq_ok_iff.mp shown
        obtain ⟨texts, others, same⟩ := bind_eq_ok_iff.mp shown
        cases same
        exact .cons (.expression ⟨here expression, first, text, item, rfl⟩) (ih laterFormed laterFree others)
      · rw [prettyItems] at shown
        obtain ⟨text, item, shown⟩ := bind_eq_ok_iff.mp shown
        obtain ⟨texts, others, same⟩ := bind_eq_ok_iff.mp shown
        obtain ⟨_, rfl⟩ := written_eq_ok_iff.mp item
        cases same
        cases first with
        | raw value =>
            refine .cons ?_ (ih laterFormed laterFree others)
            rw [Json.toList_render]
            exact .value value.1 value.2
      · cases first

theorem notatedParams {params : List Json} {names : List String}
    (named : ∀ p ∈ params, ∃ name, p = .str name ∧ IsParameter name) (shown : paramTexts params = .ok names) :
    List.Forall₂ NotatedParam params (names.map String.toList) := by
  induction params generalizing names with
  | nil =>
      cases shown
      exact .nil
  | cons p params ih =>
      obtain ⟨⟨name, rfl, parameter⟩, rest⟩ := List.forall_mem_cons.mp named
      rw [paramTexts, map_eq_ok_iff] at shown
      obtain ⟨names, others, rfl⟩ := shown
      exact .cons ⟨name, rfl, parameter, rfl⟩ (ih rest others)

/-- An expression is written as its tag and, in parentheses, its parts. -/
theorem Notated.call (h : Notated e cs) :
    ∃ form inner, Call form e inner ∧ cs = form.tag.toList ++ '(' :: (inner ++ [')']) := by
  obtain ⟨formed, free, text, shown, rfl⟩ := h
  cases free with
  | literal value =>
      obtain ⟨_, item, same⟩ := bind_eq_ok_iff.mp shown
      obtain ⟨_, rfl⟩ := written_eq_ok_iff.mp item
      cases same
      refine ⟨_, _, .literal value.1 value.2, ?_⟩
      rw [String.toList_append, String.toList_append, Json.toList_render]
      rfl
  | reference name =>
      cases formed with
      | reference named =>
          cases shown
          refine ⟨_, _, .reference named, ?_⟩
          rw [String.toList_append, String.toList_append]
          rfl
  | vector all =>
      cases formed with
      | vector parts untagged =>
          rw [pretty] at shown
          obtain ⟨texts, items, same⟩ := bind_eq_ok_iff.mp shown
          cases same
          refine ⟨_, _, .vector (notatedItems parts all items), ?_⟩
          rw [← toList_bracketed]
          simp [Form.tag]
  | @application f argument function argued =>
      cases formed with
      | application functionFormed argumentFormed =>
          cases argument with
          | none =>
              rw [pretty] at shown
              obtain ⟨text, shownFunction, same⟩ := bind_eq_ok_iff.mp shown
              cases same
              refine ⟨_, _, .partialApplication ⟨functionFormed, function, text, shownFunction, rfl⟩, ?_⟩
              simp [Form.tag]
          | some a =>
              rw [pretty] at shown
              obtain ⟨text, shownFunction, shown⟩ := bind_eq_ok_iff.mp shown
              obtain ⟨other, shownArgument, same⟩ := bind_eq_ok_iff.mp shown
              cases same
              refine ⟨_, _, .application ⟨functionFormed, function, text, shownFunction, rfl⟩
                ⟨argumentFormed a rfl, argued a rfl, other, shownArgument, rfl⟩, ?_⟩
              simp [Form.tag]
  | lambda params inside =>
      cases formed with
      | lambda named bodyFormed =>
          rw [pretty] at shown
          obtain ⟨names, listed, shown⟩ := bind_eq_ok_iff.mp shown
          obtain ⟨text, shownBody, same⟩ := bind_eq_ok_iff.mp shown
          cases same
          refine ⟨_, _, .lambda (notatedParams named listed) ⟨bodyFormed, inside, text, shownBody, rfl⟩, ?_⟩
          rw [← toList_bracketed]
          simp [Form.tag]
  | fixpoint inside =>
      cases formed with
      | fixpoint innerFormed =>
          rw [pretty] at shown
          obtain ⟨text, shownInner, same⟩ := bind_eq_ok_iff.mp shown
          cases same
          refine ⟨_, _, .fixpoint ⟨innerFormed, inside, text, shownInner, rfl⟩, ?_⟩
          simp [Form.tag]
  | raw value => cases formed

/-! ### What is told -/

/-- No value begins as a call does. -/
theorem readValue_call (form : Form) (fuel : Nat) (rest : List Char) :
    ∃ r, Json.readValue false (fuel + 1) (form.tag.toList ++ '(' :: rest) = .error r := by
  cases form
  all_goals exact ⟨_, rfl⟩

theorem Notated.ne_write {v : Json} {x y : List Char} (h : Notated e cs) (regular : v.Regular) (ends : Closing x) :
    v.write .spaced 0 ++ x ≠ cs ++ y := by
  intro same
  obtain ⟨form, inner, _, rfl⟩ := h.call
  obtain ⟨fuel, length⟩ := Nat.exists_eq_add_one.mpr (Json.length_write_pos .spaced 0 v)
  obtain ⟨w, _, read⟩ :=
    regular.readsBack Json.Layout.spaced_standard 0 _ x (Nat.le_of_eq length) ends.stops
  obtain ⟨r, refused⟩ := readValue_call form fuel (inner ++ [')'] ++ y)
  rw [same, List.append_assoc, List.cons_append, refused] at read
  cases read

theorem tells_value (v : Json) : Tells NotatedItem (raw v) := by
  intro b word other x y h h' ends ends' same
  cases h with
  | value regular exact =>
      cases h' with
      | value regular' exact' =>
          obtain ⟨rfl, rest⟩ := Json.eq_of_write Json.Layout.spaced_standard 0 regular exact regular' exact' ends.stops
            ends'.stops same
          exact ⟨rfl, rest⟩
      | expression notated => exact absurd same (notated.ne_write regular ends)
  -- a value is no expression, so it is not written as one
  | expression notated => cases notated.formed

theorem tells_item (h : Tells Notated e) : Tells NotatedItem e := by
  intro b word other x y item item' ends ends' same
  cases item with
  | value regular exact => exact tells_value _ (.value regular exact) item' ends ends' same
  | expression notated =>
      cases item' with
      | value regular exact => exact absurd same.symm (notated.ne_write regular ends')
      | expression notated' => exact h notated notated' ends ends' same

theorem tells_param (p : Json) : Tells NotatedParam p := by
  rintro q word other x y ⟨name, rfl, parameter, rfl⟩ ⟨name', rfl, parameter', rfl⟩ ends ends' same
  obtain ⟨spelled, rest⟩ := append_inj_of_marks parameter.not_endsPart parameter'.not_endsPart ends ends' same
  rw [String.toList_inj.mp spelled]
  exact ⟨rfl, rest⟩

theorem NotatedItem.opens (h : NotatedItem e cs) : ∃ c rest, cs = c :: rest ∧ c ≠ ']' := by
  cases h with
  | @value v regular exact =>
      obtain ⟨c, rest, begins, _, other, _⟩ := Json.head_write .spaced 0 v
      exact ⟨c, rest, begins, other⟩
  | expression notated =>
      obtain ⟨form, inner, _, rfl⟩ := notated.call
      cases form
      all_goals exact ⟨_, _, rfl, by decide⟩

theorem NotatedParam.opens {p : Json} (h : NotatedParam p cs) : ∃ c rest, cs = c :: rest ∧ c ≠ ']' := by
  obtain ⟨name, _, ⟨c, rest, written, start, _⟩, rfl⟩ := h
  refine ⟨c, rest, written, ?_⟩
  rintro rfl
  cases start

theorem tag_inj {form other : Form} (h : form.tag = other.tag) : form = other :=
  Option.some.inj ((Form.ofTag?_eq_some_iff.mpr h).symm.trans (Form.ofTag?_eq_some_iff.mpr rfl))

/-- Texts that begin with expressions begin with expressions of one form. -/
theorem Notated.same_form {e' : Expr} {cs' x y : List Char} (h : Notated e cs) (h' : Notated e' cs')
    (same : cs ++ x = cs' ++ y) :
    ∃ form inner inner', Call form e inner ∧ Call form e' inner' ∧ inner ++ ')' :: x = inner' ++ ')' :: y := by
  obtain ⟨form, inner, call, rfl⟩ := h.call
  obtain ⟨form', inner', call', rfl⟩ := h'.call
  have noParen (form : Form) : ∀ c ∈ form.tag.toList, ¬c = '(' := by
    have absent : '(' ∉ form.tag.toList := by
      cases form
      all_goals decide
    exact fun c member => ne_of_mem_of_not_mem member absent
  have opens (rest : List Char) : ∀ c ∈ ('(' :: rest).head?, c = '(' := by
    rintro c ⟨⟩
    rfl
  simp only [List.append_assoc, List.cons_append, List.nil_append] at same
  obtain ⟨tags, inside⟩ := append_inj_of_marks (noParen form) (noParen form') (opens _) (opens _) same
  obtain rfl := tag_inj (String.toList_inj.mp tags)
  exact ⟨form, inner, inner', call, call', (List.cons.inj inside).2⟩

theorem tells_of_calls (told : ∀ {form e' inner inner' x y}, Call form e inner → Call form e' inner' →
    inner ++ ')' :: x = inner' ++ ')' :: y → e = e' ∧ ')' :: x = ')' :: y) : Tells Notated e := by
  intro e' _ _ x y h h' _ _ same
  obtain ⟨form, inner, inner', call, call', inside⟩ := h.same_form h' same
  obtain ⟨rfl, rest⟩ := told call call' inside
  exact ⟨rfl, (List.cons.inj rest).2⟩

theorem tells_literal (v : Json) : Tells Notated (literal v) := by
  refine tells_of_calls fun {_ _ _ _ x y} call call' same => ?_
  cases call with
  | literal regular exact =>
      cases call' with
      | literal regular' exact' =>
          obtain ⟨⟨⟩, rest⟩ := tells_value v (.value regular exact) (.value regular' exact') (closing_paren x)
            (closing_paren y) same
          exact ⟨rfl, rest⟩

theorem tells_reference (name : Json) : Tells Notated (reference name) := by
  refine tells_of_calls fun {_ _ _ _ x y} call call' same => ?_
  cases call with
  | reference named =>
      cases call' with
      | reference named' =>
          obtain ⟨spelled, rest⟩ := append_inj_of_marks named.not_endsPart named'.not_endsPart (closing_paren x)
            (closing_paren y) same
          rw [String.toList_inj.mp spelled]
          exact ⟨rfl, rest⟩

theorem tells_vector {items : List Expr} (told : ∀ e ∈ items, Tells Notated e) : Tells Notated (vector items) := by
  refine tells_of_calls fun call call' same => ?_
  cases call with
  | vector all =>
      cases call' with
      | vector all' =>
          have toldItems : ∀ e ∈ items, Tells NotatedItem e := fun e member => tells_item (told e member)
          obtain ⟨rfl, rest⟩ := bracketed_inj (fun _ _ => NotatedItem.opens) toldItems all all' same
          exact ⟨rfl, rest⟩

theorem tells_application {f : Expr} {argument : Option Expr} (told : Tells Notated f)
    (toldArgument : ∀ a, argument = some a → Tells Notated a) : Tells Notated (application f argument) := by
  refine tells_of_calls fun {_ _ _ _ x y} call call' same => ?_
  cases call with
  | partialApplication function =>
      cases call' with
      | partialApplication function' =>
          obtain ⟨rfl, rest⟩ := told function function' (closing_paren x) (closing_paren y) same
          exact ⟨rfl, rest⟩
      | application function' argument' =>
          -- the functions are the same, but a parenthesis follows the one and a comma the other
          rw [List.append_assoc] at same
          obtain ⟨_, ⟨⟩⟩ := told function function' (closing_paren x) (closing_comma _) same
  | @application _ a _ _ function argument =>
      rw [List.append_assoc] at same
      cases call' with
      | partialApplication function' =>
          obtain ⟨_, ⟨⟩⟩ := told function function' (closing_comma _) (closing_paren y) same
      | application function' argument' =>
          rw [List.append_assoc] at same
          obtain ⟨rfl, rest⟩ := told function function' (closing_comma _) (closing_comma _) same
          obtain ⟨rfl, rest⟩ := toldArgument a rfl argument argument' (closing_paren x) (closing_paren y)
            (List.cons.inj (List.cons.inj rest).2).2
          exact ⟨rfl, rest⟩

theorem tells_lambda (params : List Json) {body : Expr} (told : Tells Notated body) :
    Tells Notated (lambda params body) := by
  refine tells_of_calls fun {_ _ _ _ x y} call call' same => ?_
  cases call with
  | lambda named inside =>
      cases call' with
      | lambda named' inside' =>
          rw [List.append_assoc, List.append_assoc] at same
          obtain ⟨rfl, rest⟩ := bracketed_inj (fun _ _ => NotatedParam.opens) (fun p _ => tells_param p) named
            named' same
          obtain ⟨rfl, rest⟩ := told inside inside' (closing_paren x) (closing_paren y)
            (List.cons.inj (List.cons.inj rest).2).2
          exact ⟨rfl, rest⟩

theorem tells_fixpoint {inner : Expr} (told : Tells Notated inner) : Tells Notated (fixpoint inner) := by
  refine tells_of_calls fun {_ _ _ _ x y} call call' same => ?_
  cases call with
  | fixpoint inside =>
      cases call' with
      | fixpoint inside' =>
          obtain ⟨rfl, rest⟩ := told inside inside' (closing_paren x) (closing_paren y) same
          exact ⟨rfl, rest⟩

/-- A text that begins with an expression tells the expression and what follows it: its parts are told one after the
other, each up to the mark before which it ends. -/
theorem tells (e : Expr) : Tells Notated e := by
  induction e using induct with
  | literal v => exact tells_literal v
  | reference name => exact tells_reference name
  | vector items ih => exact tells_vector ih
  | application f argument ih ihArgument => exact tells_application ih ihArgument
  | lambda params body ih => exact tells_lambda params ih
  | fixpoint inner ih => exact tells_fixpoint ih
  | cases e branches ih ihResult => exact tells_of_calls fun call => nomatch call
  | raw v => exact tells_of_calls fun call => nomatch call
  | branch pattern result => exact tells_of_calls fun call => nomatch call

/-- Expressions that are read from documents, have no match, and whose values are regular and without doubles have the
same text in call notation only if they are the same, the order of keys included. An expression has such a text if its
document has a text. -/
theorem call_notation_tells {e e' : Expr} (formed : e.WellFormed) (formed' : e'.WellFormed)
    (free : e.MatchFree fun v => v.Regular ∧ v.Exact) (free' : e'.MatchFree fun v => v.Regular ∧ v.Exact) :
    (∀ text, e.format .pretty = .ok text → e'.format .pretty = .ok text → e = e') ∧
      ∀ w, e.encode = .ok w → w.hasText = true → ∃ text, e.format .pretty = .ok text := by
  constructor
  · intro text shown shown'
    have notated : e.Notated text.toList := ⟨formed, free, text, shown, rfl⟩
    have notated' : e'.Notated text.toList := ⟨formed', free', text, shown', rfl⟩
    exact (tells e notated notated' closing_nil closing_nil rfl).1
  · intro w written text
    obtain ⟨_, written', read⟩ := decode_encode_iff.mpr ⟨formed, blanked_of_encode written⟩
    obtain rfl := Except.ok.inj (written.symm.trans written')
    exact exists_format read text .pretty

theorem told_text (s : String) : (Json.str s).Regular ∧ (Json.str s).Exact := by
  refine ⟨.scalar rfl, .scalar fun x same => ?_⟩
  cases same

/-- A vector of a text that is written as a call, and the call itself. -/
def quotedAndCalled : Expr := vector [raw (.str "ref(x)"), reference (.str "x")]

/-- A vector of one text, in which the items of `quotedAndCalled` stand one after the other. -/
def quotedOnce : Expr := vector [raw (.str "ref(x)\", ref(x)")]

theorem call_notation_tells_quoted :
    ∃ text text', quotedAndCalled.format .pretty = .ok text ∧ quotedOnce.format .pretty = .ok text' ∧ text ≠ text' := by
  have named : IsReference "x" := isReferenceName_iff.mp rfl
  have items : ∀ e ∈ [raw (.str "ref(x)"), reference (.str "x")], e.isExpression = true → e.WellFormed := by
    intro e member expression
    rcases List.mem_pair.mp member with rfl | rfl
    · cases expression
    · exact .reference named
  have formed : quotedAndCalled.WellFormed := .vector items (by simp)
  have formed' : quotedOnce.WellFormed := .vector (by simp [isExpression, form?]) (by simp)
  have free : quotedAndCalled.MatchFree fun v => v.Regular ∧ v.Exact :=
    .vector (List.forall_mem_cons.mpr ⟨.raw (told_text _), List.forall_mem_singleton.mpr (.reference _)⟩)
  have free' : quotedOnce.MatchFree fun v => v.Regular ∧ v.Exact :=
    .vector (List.forall_mem_singleton.mpr (.raw (told_text _)))
  obtain ⟨tells, exists_text⟩ := call_notation_tells formed formed' free free'
  obtain ⟨_, exists_text'⟩ := call_notation_tells formed' formed free' free
  obtain ⟨t, shown⟩ := exists_text _ rfl rfl
  obtain ⟨t', shown'⟩ := exists_text' _ rfl rfl
  refine ⟨t, t', shown, shown', ?_⟩
  rintro rfl
  exact absurd (tells t shown shown') (by decide)

end Expr

end ExprRegistry
