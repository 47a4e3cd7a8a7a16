import ExprRegistry.Http.Client
import ExprRegistry.Proofs.Data.Table
import ExprRegistry.Proofs.Text.Quoted

/-!
The text under which a reply is kept. Address and headers are joined by a colon without any escaping of the
address, and the headers are shown sorted by name. Main statement: `cacheKey_eq_iff`, such texts are the same
for the same address and the same mapping of headers only.
-/

namespace ExprRegistry.Http

/-- A mapping of header names to texts. -/
structure HeaderMap where
  entries : Table String String
  distinct : entries.Distinct

namespace HeaderMap

/-- The headers of a call that may be without any. -/
def listed : Option HeaderMap → Table String String
  | none => []
  | some headers => headers.entries

theorem listed_distinct (headers : Option HeaderMap) : (listed headers).Distinct := by
  cases headers with
  | none => exact .nil
  | some headers => exact headers.distinct

/-- Two calls have the same headers when there is the same text under each name; where a call is without any
there is none under any name. -/
def Same (a b : Option HeaderMap) : Prop := ∀ name, (listed a).get? name = (listed b).get? name

/-- Headers as values. -/
def texts (entries : Table String String) : Table String Json := entries.map fun e => (e.1, .str e.2)

/-- The headers of a call as it is given them. -/
def toJson : Option HeaderMap → Json
  | none => .null
  | some headers => .obj (headers.entries.map fun e => (.str e.1, .str e.2))

theorem headersOf_toJson (headers : Option HeaderMap) :
    headersOf (toJson headers) = .ok (texts (listed headers)) := by
  cases headers with
  | none => rfl
  | some headers =>
      have named : (headers.entries.map fun e => (Scalar.str e.1, Json.str e.2)).all
          (fun e => e.1.isWhole) = true := by
        simp [Scalar.isWhole, Text.isWhole]
      simp only [toJson, headersOf, named, if_true, List.map_map, texts, listed]
      rfl

/-! ### Headers in the order of their names -/

def sorted (entries : Table String String) : Table String String :=
  entries.mergeSort fun a b => decide (a.1 ≤ b.1)

theorem sortedFields_texts (entries : Table String String) :
    sortedFields (texts entries) = texts (sorted entries) :=
  (List.map_mergeSort (f := fun e : String × String => (e.1, Json.str e.2)) fun _ _ _ _ => rfl).symm

theorem sorted_perm (entries : Table String String) : (sorted entries).Perm entries :=
  List.mergeSort_perm entries _

theorem pairwise_sorted (entries : Table String String) :
    (sorted entries).Pairwise fun a b => a.1 ≤ b.1 := by
  have pairwise : (sorted entries).Pairwise fun a b => decide (a.1 ≤ b.1) = true := by
    refine List.pairwise_mergeSort ?_ ?_ entries
    · intro a b c hab hbc
      exact decide_eq_true (String.le_trans (of_decide_eq_true hab) (of_decide_eq_true hbc))
    · intro a b
      simpa using String.le_total a.1 b.1
  exact pairwise.imp of_decide_eq_true

theorem sorted_eq_iff {a b : Table String String} (ha : a.Distinct) (hb : b.Distinct) :
    sorted a = sorted b ↔ ∀ name, a.get? name = b.get? name := by
  constructor
  · intro same name
    rw [← ha.get?_perm (sorted_perm a), same, hb.get?_perm (sorted_perm b)]
  · intro same
    have members : a.Perm b := by
      refine (List.perm_ext_iff_of_nodup ha.nodup hb.nodup).mpr ?_
      rintro ⟨name, text⟩
      rw [ha.mem_iff, hb.mem_iff, same]
    have aligned : (sorted a).Perm (sorted b) :=
      ((sorted_perm a).trans members).trans (sorted_perm b).symm
    refine aligned.eq_of_pairwise ?_ (pairwise_sorted a) (pairwise_sorted b)
    rintro ⟨name, text⟩ ⟨other, word⟩ here there le ge
    obtain rfl : name = other := String.le_antisymm le ge
    have found : b.get? name = some text := by
      rw [← same, ← ha.mem_iff]
      exact (sorted_perm a).mem_iff.mp here
    have written : b.get? name = some word := hb.mem_iff.mp ((sorted_perm b).mem_iff.mp there)
    rw [found, Option.some_inj] at written
    rw [written]

/-! ### The text of headers -/

def entryChars (e : String × String) : List Char :=
  '(' :: ((Text.quoted e.1).toList ++ ',' :: ' ' :: ((Text.quoted e.2).toList ++ [')']))

/-- What stands behind the first entries of the headers. -/
def restChars : Table String String → List Char
  | [] => [']']
  | e :: rest => ',' :: ' ' :: (entryChars e ++ restChars rest)

def chars : Table String String → List Char
  | [] => []
  | e :: rest => '[' :: (entryChars e ++ restChars rest)

def entryText (e : String × String) : String := "(" ++ Text.quoted e.1 ++ ", " ++ Text.quoted e.2 ++ ")"

theorem toList_entryText (e : String × String) : (entryText e).toList = entryChars e := by
  simp [entryText, entryChars]

theorem headersText_texts (entries : Table String String) :
    headersText (texts entries) =
      if entries.isEmpty then "" else "[" ++ ", ".intercalate ((sorted entries).map entryText) ++ "]" := by
  have shown : (fun e : String × Json => "(" ++ Text.quoted e.1 ++ ", " ++ e.2.shown ++ ")") ∘
      (fun e : String × String => (e.1, Json.str e.2)) = entryText := by
    funext e
    simp only [Function.comp_apply, Json.shown, Scalar.shown, Text.shown, entryText]
  rw [headersText, sortedFields_texts, texts, List.isEmpty_map, ← shown, ← List.map_map]
  rfl

theorem toList_intercalate (e : String × String) (rest : Table String String) :
    (", ".intercalate ((e :: rest).map entryText)).toList ++ [']'] = entryChars e ++ restChars rest := by
  induction rest generalizing e with
  | nil => simp [restChars, toList_entryText]
  | cons f rest ih =>
      rw [List.map_cons, String.intercalate_cons_of_ne_nil (by simp), String.toList_append,
        List.append_assoc, ih, String.toList_append, toList_entryText, restChars]
      simp

theorem toList_headersText (entries : Table String String) :
    (headersText (texts entries)).toList = chars (sorted entries) := by
  have empty : entries.isEmpty = (sorted entries).isEmpty :=
    (sorted_perm entries).isEmpty_eq.symm
  rw [headersText_texts, empty]
  cases sorted entries with
  | nil => rfl
  | cons e rest =>
      rw [List.isEmpty_cons, if_neg Bool.false_ne_true, chars, ← toList_intercalate]
      simp

theorem entryChars_append_inj {e f : String × String} {x y : List Char}
    (h : entryChars e ++ x = entryChars f ++ y) : e = f ∧ x = y := by
  obtain ⟨name, text⟩ := e
  obtain ⟨other, word⟩ := f
  simp only [entryChars, List.cons_append, List.append_assoc, List.cons.injEq, true_and] at h
  obtain ⟨rfl, later⟩ := Text.quoted_append_inj h
  simp only [List.cons.injEq, true_and] at later
  obtain ⟨rfl, last⟩ := Text.quoted_append_inj later
  simp only [List.nil_append, List.cons.injEq, true_and] at last
  exact ⟨rfl, last⟩

theorem restChars_injective : Function.Injective restChars := by
  intro a b h
  induction a generalizing b with
  | nil =>
      cases b with
      | nil => rfl
      | cons f b => cases (List.cons.inj h).1
  | cons e a ih =>
      cases b with
      | nil => cases (List.cons.inj h).1
      | cons f b =>
          obtain ⟨rfl, rest⟩ := entryChars_append_inj (List.cons.inj (List.cons.inj h).2).2
          rw [ih rest]

theorem chars_injective : Function.Injective chars := by
  intro a b h
  cases a with
  | nil =>
      cases b with
      | nil => rfl
      | cons f b => cases h
  | cons e a =>
      cases b with
      | nil => cases h
      | cons f b =>
          obtain ⟨rfl, rest⟩ := entryChars_append_inj (List.cons.inj h).2
          rw [restChars_injective rest]

theorem passes_entryChars (e : String × String) : Text.Passes .outside (entryChars e) .outside := by
  refine .cons_plain (by decide) ((Text.Passes.quoted e.1).append ?_)
  refine .cons_plain (by decide) (.cons_plain (by decide) ((Text.Passes.quoted e.2).append ?_))
  exact .cons_plain (by decide) (.nil _)

theorem passes_restChars (entries : Table String String) :
    Text.Passes .outside (restChars entries) .outside := by
  induction entries with
  | nil => exact .cons_plain (by decide) (.nil _)
  | cons e rest ih => exact .cons_plain (by decide) (.cons_plain (by decide) ((passes_entryChars e).append ih))

theorem passes_chars (entries : Table String String) : Text.Passes .outside (chars entries) .outside := by
  cases entries with
  | nil => exact .nil _
  | cons e rest => exact .cons_plain (by decide) ((passes_entryChars e).append (passes_restChars rest))

theorem toList_cacheKey (url : String) (entries : Table String String) :
    (cacheKey url (texts entries)).toList = "GET:".toList ++ (url.toList ++ ':' :: chars (sorted entries)) := by
  rw [cacheKey, String.toList_append, toList_headersText]
  simp

/-- Keys are the same for the same address and the same mapping of headers only, although an address may look
like the beginning of a list of headers. -/
theorem cacheKey_eq_iff (url other : String) (a b : Option HeaderMap) :
    cacheKey url (texts (listed a)) = cacheKey other (texts (listed b)) ↔ url = other ∧ Same a b := by
  have sameSorted := sorted_eq_iff (listed_distinct a) (listed_distinct b)
  rw [← String.toList_inj, toList_cacheKey, toList_cacheKey, List.append_cancel_left_eq]
  constructor
  · intro h
    obtain ⟨address, headers⟩ := Text.Passes.split_inj (passes_chars _) (passes_chars _) h
    exact ⟨String.toList_inj.mp address, sameSorted.mp (chars_injective headers)⟩
  · rintro ⟨rfl, same⟩
    rw [sameSorted.mpr same]

example :
    cacheKey "http://h/:[('n', 't')]" [] = "GET:http://h/:[('n', 't')]:" ∧
      cacheKey "http://h/" [("n", .str "t")] = "GET:http://h/:[('n', 't')]" := by
  decide +kernel

end HeaderMap

end ExprRegistry.Http
