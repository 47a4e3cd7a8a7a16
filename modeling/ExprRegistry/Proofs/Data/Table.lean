import ExprRegistry.Data.Table
import Mathlib.Data.List.Forall2

/-!
Looking up in tables, and adding to them. Adding a key that is not there puts it at the end. `extend` adds
the entries whose keys are not there yet, so of several entries with one key the first one stays; `firsts`
is what it makes of a list of entries by itself. Main statement: `get?_extend`.
-/

namespace ExprRegistry.Table

variable {κ ν : Type} [BEq κ]

/-- Adds the entries whose keys are not there yet. It is no `put`: what is there stays as it is. -/
def extend (t entries : Table κ ν) : Table κ ν :=
  entries.foldl (fun t e => if t.has e.1 then t else t ++ [e]) t

/-- The first entry of each key, in order of first occurrence. -/
def firsts (entries : Table κ ν) : Table κ ν := extend [] entries

@[simp] theorem get?_nil (k : κ) : get? k ([] : Table κ ν) = none := rfl

omit [BEq κ] in
theorem eq_of_keys_of_values {t u : Table κ ν} (keys : t.keys = u.keys) (values : t.values = u.values) : t = u :=
  (List.zip_of_prod keys values).trans (List.zip_of_prod rfl rfl).symm

theorem get?_cons (k : κ) (e : κ × ν) (t : Table κ ν) :
    get? k (e :: t) = if e.1 == k then some e.2 else get? k t := rfl

theorem get?_append (k : κ) (t u : Table κ ν) : get? k (t ++ u) = (get? k t).or (get? k u) := by
  induction t with
  | nil => rfl
  | cons e t ih =>
      simp only [List.cons_append, get?_cons]
      split
      · rfl
      · exact ih

theorem get?_append_of_some {k : κ} {v : ν} {t : Table κ ν} (h : get? k t = some v) (u : Table κ ν) :
    get? k (t ++ u) = some v := by
  rw [get?_append, h, Option.some_or]

theorem mem_of_get? {k : κ} {v : ν} {t : Table κ ν} (h : get? k t = some v) :
    ∃ k', (k', v) ∈ t ∧ (k' == k) = true := by
  induction t with
  | nil => cases h
  | cons e t ih =>
      rw [get?_cons] at h
      split at h
      case isTrue same =>
        cases h
        exact ⟨e.1, List.mem_cons_self, same⟩
      case isFalse =>
        obtain ⟨k', member, same⟩ := ih h
        exact ⟨k', List.mem_cons_of_mem e member, same⟩

theorem has_iff_mem {k : κ} {t : Table κ ν} : t.has k = true ↔ ∃ e ∈ t, (e.1 == k) = true := by
  induction t with
  | nil => simp [has]
  | cons e t ih =>
      rw [has, get?_cons]
      by_cases same : (e.1 == k) = true
      · simp [same]
      · simpa [same, has] using ih

theorem has_iff_keys {k : κ} {t : Table κ ν} : t.has k = true ↔ ∃ l ∈ t.keys, (l == k) = true := by
  rw [has_iff_mem, keys]
  constructor
  · rintro ⟨e, member, same⟩
    exact ⟨e.1, List.mem_map_of_mem member, same⟩
  · rintro ⟨l, listed, same⟩
    obtain ⟨e, member, rfl⟩ := List.mem_map.mp listed
    exact ⟨e, member, same⟩

theorem has_of_get? {k : κ} {v : ν} {t : Table κ ν} (h : get? k t = some v) : t.has k = true := by
  rw [has, h, Option.isSome_some]

theorem get?_of_has {k : κ} {t : Table κ ν} (h : t.has k = true) : ∃ v, get? k t = some v :=
  Option.isSome_iff_exists.mp h

theorem has_eq_false_iff {k : κ} {t : Table κ ν} : t.has k = false ↔ ∀ e ∈ t, (e.1 == k) = false := by
  rw [← Bool.not_eq_true, has_iff_mem]
  simp

theorem get?_eq_none_iff {k : κ} {t : Table κ ν} : get? k t = none ↔ t.has k = false := by
  rw [has, Option.isSome_eq_false_iff, Option.isNone_iff_eq_none]

theorem has_append (k : κ) (t u : Table κ ν) : has k (t ++ u) = (has k t || has k u) := by
  rw [has, get?_append, Option.isSome_or, has, has]

theorem get?_snoc [ReflBEq κ] {k : κ} {t : Table κ ν} (absent : t.has k = false) (v : ν) :
    get? k (t ++ [(k, v)]) = some v := by
  rw [get?_append, get?_eq_none_iff.mpr absent, Option.none_or, get?_cons, if_pos BEq.rfl]

theorem has_singleton (k l : κ) (v : ν) : has k [(l, v)] = (l == k) := by
  rw [has, get?_cons]
  cases l == k <;> rfl

theorem has_congr [PartialEquivBEq κ] {k l : κ} (same : (k == l) = true) (t : Table κ ν) :
    t.has k = t.has l := by
  rw [Bool.eq_iff_iff, has_iff_mem, has_iff_mem]
  constructor
  · rintro ⟨e, member, h⟩
    exact ⟨e, member, BEq.trans h same⟩
  · rintro ⟨e, member, h⟩
    exact ⟨e, member, BEq.trans h (BEq.symm same)⟩

theorem get?_congr [PartialEquivBEq κ] {k l : κ} (same : (k == l) = true) (t : Table κ ν) :
    t.get? k = t.get? l := by
  induction t with
  | nil => rfl
  | cons e t ih =>
      rw [get?_cons, get?_cons, BEq.congr_right same, ih]

theorem has_of_mem [ReflBEq κ] {e : κ × ν} {t : Table κ ν} (h : e ∈ t) : t.has e.1 = true :=
  has_iff_mem.mpr ⟨e, h, BEq.rfl⟩

theorem put_of_get?_eq_none {k : κ} {t : Table κ ν} (h : get? k t = none) (v : ν) :
    t.put k v = t ++ [(k, v)] := by
  induction t with
  | nil => rfl
  | cons e t ih =>
      rw [get?_cons] at h
      split at h
      case isTrue => cases h
      case isFalse different =>
        simp only [put, if_neg different, List.cons_append, ih h]

theorem get?_put [PartialEquivBEq κ] (k l : κ) (v : ν) (t : Table κ ν) :
    get? l (t.put k v) = if k == l then some v else get? l t := by
  induction t with
  | nil => rfl
  | cons e t ih =>
      rw [put]
      by_cases here : (e.1 == k) = true
      · rw [if_pos here, get?_cons, get?_cons, BEq.congr_left here]
        split <;> rfl
      · rw [if_neg here, get?_cons, get?_cons, ih]
        by_cases there : (e.1 == l) = true
        · rw [if_pos there, if_neg fun same => here (BEq.trans there (BEq.symm same)), if_pos there]
        · rw [if_neg there, if_neg there]

/-- What holds of the keys and values of a table and of a new entry, holds when the entry has been put. -/
theorem forall_mem_put {p : κ → Prop} {q : ν → Prop} {k : κ} {v : ν} {t : Table κ ν} (hk : p k) (hv : q v)
    (h : ∀ e ∈ t, p e.1 ∧ q e.2) : ∀ e ∈ t.put k v, p e.1 ∧ q e.2 := by
  induction t with
  | nil => exact List.forall_mem_singleton.mpr ⟨hk, hv⟩
  | cons e t ih =>
      obtain ⟨first, others⟩ := List.forall_mem_cons.mp h
      rw [put]
      split
      · exact List.forall_mem_cons.mpr ⟨⟨first.1, hv⟩, others⟩
      · exact List.forall_mem_cons.mpr ⟨first, ih others⟩

theorem modify_eq_map (k : κ) (f : ν → ν) (t : Table κ ν) :
    t.modify k f = t.map fun e => (e.1, if e.1 == k then f e.2 else e.2) := by
  refine List.map_congr_left fun e _ => ?_
  by_cases here : (e.1 == k) = true <;> simp [here]

theorem erase_eq_filter (k : κ) (t : Table κ ν) : t.erase k = t.filter fun e => !(e.1 == k) := rfl

theorem get?_modify [PartialEquivBEq κ] (k l : κ) (f : ν → ν) (t : Table κ ν) :
    get? l (t.modify k f) = if k == l then (get? l t).map f else get? l t := by
  induction t with
  | nil => cases k == l <;> rfl
  | cons e t ih =>
      rw [modify_eq_map] at ih ⊢
      rw [List.map_cons, get?_cons, get?_cons, ih]
      by_cases here : (e.1 == l) = true
      · rw [if_pos here, if_pos here, BEq.congr_left here, BEq.comm]
        split <;> rfl
      · rw [if_neg here, if_neg here]

theorem get?_erase [PartialEquivBEq κ] (k l : κ) (t : Table κ ν) :
    get? l (t.erase k) = if k == l then none else get? l t := by
  induction t with
  | nil => cases k == l <;> rfl
  | cons e t ih =>
      rw [erase_eq_filter] at ih ⊢
      rw [List.filter_cons, get?_cons]
      by_cases gone : (e.1 == k) = true
      · simp only [gone, Bool.not_true, Bool.false_eq_true, if_false, ih, BEq.congr_left gone]
        split <;> rfl
      · simp only [gone, Bool.not_false, if_true, get?_cons, ih]
        by_cases here : (e.1 == l) = true
        · rw [if_pos here, if_pos here, if_neg fun same => gone (BEq.trans here (BEq.symm same))]
        · rw [if_neg here, if_neg here]

theorem erase_modify (k : κ) (f : ν → ν) (t : Table κ ν) : (t.modify k f).erase k = t.erase k := by
  induction t with
  | nil => rfl
  | cons e t ih =>
      rw [modify_eq_map, erase_eq_filter] at ih ⊢
      by_cases here : (e.1 == k) = true <;> simp [here, ih, erase_eq_filter]

theorem modify_eq_self {k : κ} {t : Table κ ν} (absent : t.has k = false) (f : ν → ν) :
    t.modify k f = t := by
  rw [modify_eq_map]
  refine (List.map_congr_left fun e member => ?_).trans (List.map_id t)
  rw [if_neg (ne_true_of_eq_false (has_eq_false_iff.mp absent e member))]
  rfl

theorem modify_append (k : κ) (f : ν → ν) (t u : Table κ ν) :
    modify k f (t ++ u) = t.modify k f ++ u.modify k f := List.map_append

theorem modify_snoc [ReflBEq κ] {k : κ} {t : Table κ ν} (absent : t.has k = false) (v : ν) (f : ν → ν) :
    modify k f (t ++ [(k, v)]) = t ++ [(k, f v)] := by
  rw [modify_append, modify_eq_self absent, modify_eq_map, List.map_singleton, if_pos BEq.rfl]

theorem erase_erase (k : κ) (t : Table κ ν) : (t.erase k).erase k = t.erase k := by
  simp [erase_eq_filter]

theorem erase_snoc {k l : κ} (same : (l == k) = true) (t : Table κ ν) (v : ν) :
    (t ++ [(l, v)]).erase k = t.erase k := by
  simp [erase_eq_filter, same]

theorem extend_cons (t : Table κ ν) (e : κ × ν) (entries : Table κ ν) :
    t.extend (e :: entries) = extend (if t.has e.1 then t else t ++ [e]) entries := rfl

theorem extend_append (t entries more : Table κ ν) :
    t.extend (entries ++ more) = (t.extend entries).extend more := List.foldl_append

theorem extend_eq_self {t entries : Table κ ν} (h : ∀ e ∈ entries, t.has e.1 = true) :
    t.extend entries = t := by
  induction entries with
  | nil => rfl
  | cons e entries ih =>
      rw [extend_cons, if_pos (h e List.mem_cons_self)]
      exact ih fun x member => h x (List.mem_cons_of_mem e member)

theorem extend_of_get?_eq_none {k : κ} {t : Table κ ν} (h : get? k t = none) (v : ν) :
    t.extend [(k, v)] = t.put k v := by
  rw [put_of_get?_eq_none h, extend_cons, has, h]
  rfl

/-- What is there is found as before, and a new key has the value of its first entry. -/
theorem get?_extend [EquivBEq κ] (k : κ) (t entries : Table κ ν) :
    get? k (t.extend entries) = (get? k t).or (get? k entries) := by
  induction entries generalizing t with
  | nil => exact (Option.or_none).symm
  | cons e entries ih =>
      rw [extend_cons, ih, get?_cons]
      by_cases present : t.has e.1 = true
      · rw [if_pos present]
        by_cases same : (e.1 == k) = true
        · obtain ⟨v, found⟩ := get?_of_has ((has_congr same t).symm.trans present)
          rw [found, Option.some_or, Option.some_or]
        · rw [if_neg same]
      · rw [if_neg present, get?_append, get?_cons, get?_nil, Option.or_assoc]
        split <;> rfl

theorem get?_firsts [EquivBEq κ] (k : κ) (entries : Table κ ν) :
    get? k entries.firsts = get? k entries := get?_extend k [] entries

/-- Each key of a table stands there once. -/
def Distinct (t : Table κ ν) : Prop := t.Pairwise fun a b => (a.1 == b.1) = false

theorem distinct_iff_keys {t : Table κ ν} : t.Distinct ↔ t.keys.Pairwise fun a b => (a == b) = false := by
  rw [Distinct, keys, List.pairwise_map]

theorem Distinct.nodup [ReflBEq κ] {t : Table κ ν} (h : t.Distinct) : t.Nodup := by
  refine h.imp ?_
  intro a b apart same
  rw [same, BEq.rfl] at apart
  cases apart

theorem Distinct.snoc {t : Table κ ν} (h : t.Distinct) {e : κ × ν} (absent : t.has e.1 = false) :
    Distinct (t ++ [e]) := by
  refine List.pairwise_append.mpr ⟨h, List.pairwise_singleton _ e, ?_⟩
  intro a member b last
  rw [List.mem_singleton.mp last]
  exact has_eq_false_iff.mp absent a member

theorem Distinct.get?_eq_some [ReflBEq κ] {t : Table κ ν} (h : t.Distinct) {e : κ × ν} (member : e ∈ t) :
    get? e.1 t = some e.2 := by
  induction t with
  | nil => cases member
  | cons a t ih =>
      obtain ⟨first, rest⟩ := List.pairwise_cons.mp h
      rw [get?_cons]
      rcases List.mem_cons.mp member with rfl | later
      · rw [if_pos BEq.rfl]
      · rw [if_neg (ne_true_of_eq_false (first e later)), ih rest later]

theorem Distinct.get?_eq_some_iff [EquivBEq κ] {k : κ} {v : ν} {t : Table κ ν} (h : t.Distinct) :
    get? k t = some v ↔ ∃ l, (l, v) ∈ t ∧ (l == k) = true := by
  constructor
  · exact mem_of_get?
  · rintro ⟨l, listed, same⟩
    rw [← get?_congr same, h.get?_eq_some listed]

theorem Distinct.mem_iff [LawfulBEq κ] {k : κ} {v : ν} {t : Table κ ν} (h : t.Distinct) :
    (k, v) ∈ t ↔ get? k t = some v := by
  rw [h.get?_eq_some_iff]
  simp

theorem Distinct.perm [PartialEquivBEq κ] {t u : Table κ ν} (h : t.Distinct) (same : u.Perm t) :
    u.Distinct := by
  refine (same.pairwise_iff ?_).mpr h
  intro a b apart
  rwa [BEq.comm] at apart

/-- With distinct keys the order of the entries is of no account. -/
theorem Distinct.get?_perm [EquivBEq κ] {t u : Table κ ν} (h : t.Distinct) (same : u.Perm t) (k : κ) :
    get? k u = get? k t := by
  ext v
  rw [(h.perm same).get?_eq_some_iff, h.get?_eq_some_iff]
  simp only [same.mem_iff]

theorem Distinct.modify {t : Table κ ν} (h : t.Distinct) (k : κ) (f : ν → ν) : (t.modify k f).Distinct :=
  modify_eq_map k f t ▸ List.pairwise_map.mpr h

/-- With distinct keys a change reaches one entry only, the one that is found. -/
theorem Distinct.mem_modify [EquivBEq κ] {k : κ} {v : ν} {f : ν → ν} {t : Table κ ν} (h : t.Distinct)
    (found : get? k t = some v) {e : κ × ν} (member : e ∈ t.modify k f) :
    e ∈ t ∨ ∃ l, (l, v) ∈ t ∧ e = (l, f v) := by
  rw [modify_eq_map] at member
  obtain ⟨⟨l, w⟩, listed, rfl⟩ := List.mem_map.mp member
  by_cases here : (l == k) = true
  · have same : some w = some v := by
      rw [← h.get?_eq_some listed, ← found]
      exact get?_congr here t
    cases same
    rw [if_pos here]
    exact .inr ⟨l, listed, rfl⟩
  · rw [if_neg here]
    exact .inl listed

theorem Distinct.put {t : Table κ ν} (h : t.Distinct) (k : κ) (v : ν) : (t.put k v).Distinct := by
  induction t with
  | nil => exact List.pairwise_singleton _ _
  | cons e t ih =>
      obtain ⟨apart, later⟩ := List.pairwise_cons.mp h
      rw [Table.put]
      split
      case isTrue => exact List.pairwise_cons.mpr ⟨apart, later⟩
      case isFalse here =>
        refine List.pairwise_cons.mpr ⟨fun x member => ?_, ih later⟩
        have kept := forall_mem_put (p := fun l => (e.1 == l) = false) (q := fun _ => True) (v := v)
          (eq_false_of_ne_true here) trivial (fun x member => ⟨apart x member, trivial⟩)
        exact (kept x member).1

theorem Distinct.erase {t : Table κ ν} (h : t.Distinct) (k : κ) : (t.erase k).Distinct := h.filter _

theorem Distinct.extend {t : Table κ ν} (h : t.Distinct) (entries : Table κ ν) :
    (t.extend entries).Distinct := by
  induction entries generalizing t with
  | nil => exact h
  | cons e entries ih =>
      rw [extend_cons]
      split
      · exact ih h
      case isFalse absent => exact ih (h.snoc (eq_false_of_ne_true absent))

theorem distinct_firsts (entries : Table κ ν) : entries.firsts.Distinct :=
  Distinct.extend List.Pairwise.nil entries

theorem get?_of_mem_firsts [EquivBEq κ] {e : κ × ν} {entries : Table κ ν} (h : e ∈ entries.firsts) :
    get? e.1 entries = some e.2 := by
  rw [← get?_firsts]
  exact (distinct_firsts entries).get?_eq_some h

theorem extend_cons_left {e : κ × ν} {entries : Table κ ν} (h : ∀ x ∈ entries, (e.1 == x.1) = false)
    (t : Table κ ν) : extend (e :: t) entries = e :: t.extend entries := by
  induction entries generalizing t with
  | nil => rfl
  | cons x entries ih =>
      have apart : (e.1 == x.1) = false := h x List.mem_cons_self
      have later : ∀ y ∈ entries, (e.1 == y.1) = false := fun y member => h y (List.mem_cons_of_mem x member)
      rw [extend_cons, extend_cons, has, get?_cons, if_neg (ne_true_of_eq_false apart), ← has]
      split
      · exact ih later t
      · rw [List.cons_append, ih later]

variable {μ : Type}

/-- Which entries come first is a matter of the keys alone. -/
theorem extend_map (f : κ × ν → μ) (t entries : Table κ ν) :
    extend (t.map fun e => (e.1, f e)) (entries.map fun e => (e.1, f e)) =
      (t.extend entries).map fun e => (e.1, f e) := by
  induction entries generalizing t with
  | nil => rfl
  | cons e entries ih =>
      have agree : has e.1 (t.map fun e => (e.1, f e)) = has e.1 t := by
        rw [Bool.eq_iff_iff, has_iff_mem, has_iff_mem]
        constructor
        · rintro ⟨x, member, same⟩
          obtain ⟨y, listed, rfl⟩ := List.mem_map.mp member
          exact ⟨y, listed, same⟩
        · rintro ⟨y, member, same⟩
          exact ⟨_, List.mem_map.mpr ⟨y, member, rfl⟩, same⟩
      rw [List.map_cons, extend_cons, extend_cons, agree, ← ih]
      split
      · rfl
      · rw [List.map_append, List.map_singleton]

theorem firsts_map (f : κ × ν → μ) (entries : Table κ ν) :
    firsts (entries.map fun e => (e.1, f e)) = entries.firsts.map fun e => (e.1, f e) :=
  extend_map f [] entries

/-- Two lists of entries that differ at most in how their keys are spelled. -/
def Alike (t u : Table κ ν) : Prop := List.Forall₂ (fun a b => (a.1 == b.1) = true ∧ a.2 = b.2) t u

theorem Alike.has [PartialEquivBEq κ] {t u : Table κ ν} (h : Alike t u) (k : κ) : t.has k = u.has k := by
  induction h with
  | nil => rfl
  | @cons a b t u same _ ih =>
      rw [Table.has, Table.has, get?_cons, get?_cons, BEq.congr_left same.1, same.2]
      cases b.1 == k
      · exact ih
      · rfl

theorem Alike.exists_of_mem {t u : Table κ ν} (h : Alike t u) :
    ∀ e ∈ t, ∃ x ∈ u, (e.1 == x.1) = true ∧ e.2 = x.2 := by
  induction h with
  | nil => intro e member; cases member
  | cons same _ ih =>
      intro e member
      rcases List.mem_cons.mp member with rfl | later
      · exact ⟨_, List.mem_cons_self, same⟩
      · obtain ⟨x, listed, alike⟩ := ih e later
        exact ⟨x, List.mem_cons_of_mem _ listed, alike⟩

theorem Alike.append {t u l m : Table κ ν} (ht : Alike t u) (h : Alike l m) : Alike (t ++ l) (u ++ m) := by
  induction ht with
  | nil => exact h
  | cons same _ ih => exact .cons same ih

theorem Alike.extend [PartialEquivBEq κ] {t u l m : Table κ ν} (ht : Alike t u) (h : Alike l m) :
    Alike (t.extend l) (u.extend m) := by
  induction h generalizing t u with
  | nil => exact ht
  | @cons a b l m same _ ih =>
      rw [extend_cons, extend_cons, ht.has, has_congr same.1]
      split
      · exact ih ht
      · exact ih (ht.append (.cons same .nil))

theorem Alike.firsts [PartialEquivBEq κ] {t u : Table κ ν} (h : Alike t u) : Alike t.firsts u.firsts :=
  Alike.extend .nil h

end ExprRegistry.Table
