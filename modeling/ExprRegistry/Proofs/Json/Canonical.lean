import ExprRegistry.Expr.Encode
import ExprRegistry.Proofs.Json.Rearranged
import ExprRegistry.Proofs.Json.Written

/-!
The canonical text of a value. Sorting finds the one arrangement of a value whose keys are in order, and without
doubles a value can be read off its text. Main statement: the bytes that a checksum is taken of are the same for two
values exactly when the values are the same up to the order of keys.
-/

namespace ExprRegistry

/-! ### Bytes of texts -/

theorem toList_loop (bytes : ByteArray) (i : Nat) (before : List UInt8) :
    ByteArray.toList.loop bytes i before = before.reverse ++ bytes.data.toList.drop i := by
  induction i, before using ByteArray.toList.loop.induct bytes with
  | case1 i before inside ih =>
      have here : i < bytes.data.toList.length := inside
      have byte : bytes.get! i = bytes.data.toList[i] := getElem!_pos bytes.data i inside
      rw [ByteArray.toList.loop, if_pos inside, ih, List.drop_eq_getElem_cons here, byte]
      simp
  | case2 i before outside =>
      have past : bytes.data.toList.length ≤ i := Nat.le_of_not_lt outside
      rw [ByteArray.toList.loop, if_neg outside, List.drop_eq_nil_of_le past, List.append_nil]

/-- A text is what its bytes are. -/
theorem toUTF8_toList_inj {s t : String} : s.toUTF8.toList = t.toUTF8.toList ↔ s = t := by
  constructor
  · intro same
    rw [ByteArray.toList, ByteArray.toList, toList_loop, toList_loop] at same
    exact String.toByteArray_inj.mp (ByteArray.ext (Array.toList_inj.mp same))
  · rintro rfl
    rfl

namespace Json

variable {v w a b : Json} {fields : Fields}

/-! ### Values that are told by their text -/

/-- A value without doubles. -/
inductive Exact : Json → Prop
  | scalar {k : Scalar} (noDouble : ∀ x, k ≠ .float x) : Exact (.scalar k)
  | arr {items : List Json} (all : ∀ v ∈ items, Exact v) : Exact (.arr items)
  | obj {fields : Fields} (all : ∀ e ∈ fields, Exact e.2) : Exact (.obj fields)

theorem Exact.empty : Exact (.obj []) := .obj (List.forall_mem_nil _)

theorem Exact.cons (k : Scalar) (first : v.Exact) (rest : Exact (.obj fields)) : Exact (.obj ((k, v) :: fields)) := by
  cases rest with
  | obj all => exact .obj (List.forall_mem_cons.mpr ⟨first, all⟩)

theorem Reread.eq_of_exact (h : Reread v w) (exact : v.Exact) : v = w := by
  induction exact generalizing w with
  | scalar noDouble =>
      cases h with
      | scalar k => rfl
      | float x y => exact absurd rfl (noDouble x)
  | arr _ ih =>
      cases h with
      | arr all => rw [eq_of_forall₂ (fun v member w reread => ih v member reread) all]
  | @obj fields _ ih =>
      cases h with
      | obj keys all =>
          have each : ∀ v ∈ fields.values, ∀ w, Reread v w → v = w := by
            intro v member w reread
            obtain ⟨e, listed, rfl⟩ := List.mem_map.mp member
            exact ih e listed reread
          rw [Table.eq_of_keys_of_values keys (eq_of_forall₂ each all)]

theorem Layout.canonical_standard : Layout.canonical.Standard where
  items := ⟨[], rfl, nofun⟩
  keys := ⟨[], rfl, nofun⟩

/-- Reading undoes writing, so a text that begins with a value tells the value and what follows it. -/
theorem eq_of_write {layout : Layout} (standard : layout.Standard) (level : Nat) (regular : v.Regular) (exact : v.Exact)
    (regular' : w.Regular) (exact' : w.Exact) {rest rest' : List Char} (stop : Version.Stops goesOn rest)
    (stop' : Version.Stops goesOn rest') (same : write layout level v ++ rest = write layout level w ++ rest') :
    v = w ∧ rest = rest' := by
  have room := Nat.le_add_right (write layout level v).length (write layout level w).length
  have room' := Nat.le_add_left (write layout level w).length (write layout level v).length
  obtain ⟨x, reread, read⟩ := regular.readsBack standard level _ rest room stop
  obtain ⟨y, reread', read'⟩ := regular'.readsBack standard level _ rest' room' stop'
  rw [same, read'] at read
  cases read
  exact ⟨(reread.eq_of_exact exact).trans (reread'.eq_of_exact exact').symm, rfl⟩

theorem toList_render (layout : Layout) (v : Json) : (v.render layout).toList = write layout 0 v := String.toList_ofList

/-- Values with one text are one value. -/
theorem eq_of_render {layout : Layout} (standard : layout.Standard) (regular : v.Regular) (exact : v.Exact)
    (regular' : w.Regular) (exact' : w.Exact) (same : v.render layout = w.render layout) : v = w := by
  have texts : write layout 0 v ++ [] = write layout 0 w ++ [] := by
    rw [List.append_nil, List.append_nil, ← toList_render, ← toList_render, same]
  exact (eq_of_write standard 0 regular exact regular' exact' Version.stops_nil Version.stops_nil texts).1

/-! ### The arrangement in which keys are in order -/

/-- In all objects of a value the keys are different texts, in order. -/
inductive Sorted : Json → Prop
  | scalar (k : Scalar) : Sorted (.scalar k)
  | arr {items : List Json} (all : ∀ v ∈ items, Sorted v) : Sorted (.arr items)
  | obj {fields : Fields} (texts : ∀ e ∈ fields, e.1.isText = true) (distinct : Table.Distinct fields)
      (rising : fields.Pairwise fun a b => keyName a.1 ≤ keyName b.1) (all : ∀ e ∈ fields, Sorted e.2) :
      Sorted (.obj fields)

theorem Sorted.orderly (h : v.Sorted) : v.Orderly := by
  induction h with
  | scalar k => exact .scalar k
  | arr _ ih => exact .arr ih
  | obj texts distinct _ _ ih => exact .obj texts distinct ih

theorem le_of_texts {k l : Scalar} (text : k.isText = true) (other : l.isText = true) :
    Scalar.le k l = decide (keyName k ≤ keyName l) := by
  cases k with
  | str s =>
      cases l with
      | str t => rfl
      | _ => cases other
  | _ => cases text

theorem eq_of_keyName {k l : Scalar} (text : k.isText = true) (other : l.isText = true)
    (same : keyName k = keyName l) : k = l := by
  cases k with
  | str s =>
      cases l with
      | str t => exact congrArg Scalar.str same
      | _ => cases other
  | _ => cases text

/-- The order of all scalars is no order, but that of texts is one. -/
theorem sortBy_texts (texts : ∀ e ∈ fields, e.1.isText = true) :
    ∃ sorted, Scalar.sortBy Prod.fst fields = .ok sorted ∧ sorted.Perm fields ∧
      sorted.Pairwise fun a b => keyName a.1 ≤ keyName b.1 := by
  have ordered : Scalar.areOrdered (fields.map Prod.fst) = true := by
    rw [Scalar.areOrdered, List.all_eq_true.mpr (List.forall_mem_map.mpr texts), Bool.true_or, Bool.true_or]
  have named : (fields.mergeSort fun a b => Scalar.le a.1 b.1).map id =
      (fields.map id).mergeSort fun a b => decide (keyName a.1 ≤ keyName b.1) :=
    List.map_mergeSort fun a listed b listed' => le_of_texts (texts a listed) (texts b listed')
  have rising : (fields.mergeSort fun a b => decide (keyName a.1 ≤ keyName b.1)).Pairwise
      fun a b => decide (keyName a.1 ≤ keyName b.1) = true := by
    refine List.pairwise_mergeSort (fun a b c ab bc => ?_) (fun a b => ?_) fields
    · exact decide_eq_true (Text.le_trans (of_decide_eq_true ab) (of_decide_eq_true bc))
    · simpa using Text.le_total (keyName a.1) (keyName b.1)
  rw [List.map_id, List.map_id] at named
  refine ⟨_, by rw [Scalar.sortBy, if_pos ordered], List.mergeSort_perm _ _, ?_⟩
  rw [named]
  exact rising.imp of_decide_eq_true

/-- How a value is sorted. -/
structure SortsTo (v w : Json) : Prop where
  sorts : v.sortKeys = .ok w
  sorted : w.Sorted
  rearranged : v.Rearranged w
  whole : v.isWhole = true → w.isWhole = true

theorem sortItems_of_forall₂ {items sorted : List Json} (h : List.Forall₂ SortsTo items sorted) :
    sortItems items = .ok sorted := by
  induction h with
  | nil => rfl
  | cons first _ ih =>
      rw [sortItems, first.sorts, ih]
      rfl

/-- An entry whose value is sorted, and whose key stays. -/
def EntrySortsTo (e f : Scalar × Json) : Prop := f.1 = e.1 ∧ SortsTo e.2 f.2

theorem sortFields_of_forall₂ {sorted : Fields} (h : List.Forall₂ EntrySortsTo fields sorted) :
    sortFields fields = .ok sorted := by
  induction h with
  | nil => rfl
  | @cons e f _ _ first _ ih =>
      obtain ⟨key, value⟩ := f
      obtain ⟨same, first⟩ := first
      cases same
      rw [sortFields, first.sorts, ih]
      rfl

theorem keys_of_forall₂ {sorted : Fields} (h : List.Forall₂ EntrySortsTo fields sorted) :
    sorted.keys = fields.keys := by
  induction h with
  | nil => rfl
  | cons first _ ih => exact congrArg₂ List.cons first.1 ih

theorem rel_get?_of_forall₂ {sorted : Fields} (h : List.Forall₂ EntrySortsTo fields sorted) (key : Scalar) :
    Option.Rel Rearranged (Table.get? key fields) (Table.get? key sorted) := by
  induction h with
  | nil => exact .none
  | cons first _ ih =>
      rw [Table.get?_cons, Table.get?_cons, first.1]
      split
      case isTrue => exact .some first.2.rearranged
      case isFalse => exact ih

theorem Orderly.exists_sortsTo (h : v.Orderly) : ∃ w, SortsTo v w := by
  induction h with
  | scalar k => exact ⟨.scalar k, rfl, .scalar k, .scalar k, id⟩
  | arr _ ih =>
      obtain ⟨sorted, each⟩ := exists_forall₂ ih
      refine ⟨.arr sorted, ?_, .arr fun w member => ?_, .arr (each.imp fun _ _ sorts => sorts.rearranged), ?_⟩
      · rw [sortKeys, sortItems_of_forall₂ each]
        rfl
      · obtain ⟨_, sorts⟩ := exists_of_forall₂ each.flip w member
        exact sorts.sorted
      · refine fun whole => all_arr_iff.mpr fun w member => ?_
        have left := forall₂_mono (fun v member w sorts => sorts.whole (all_arr_iff.mp whole v member)) each
        obtain ⟨_, holds⟩ := exists_of_forall₂ left.flip w member
        exact holds
  | @obj fields texts distinct _ ih =>
      have entries : ∀ e ∈ fields, ∃ f, EntrySortsTo e f := by
        intro e member
        obtain ⟨w, sorts⟩ := ih e member
        exact ⟨(e.1, w), rfl, sorts⟩
      obtain ⟨inside, each⟩ := exists_forall₂ entries
      have keys := keys_of_forall₂ each
      have texts : ∀ k ∈ inside.map Prod.fst, k.isText = true := by
        rw [show inside.map Prod.fst = fields.map Prod.fst from keys]
        exact List.forall_mem_map.mpr texts
      have texts : ∀ f ∈ inside, f.1.isText = true := List.forall_mem_map.mp texts
      have distinct : Table.Distinct inside := by
        rwa [Table.distinct_iff_keys, keys, ← Table.distinct_iff_keys]
      obtain ⟨sorted, ordered, same, rising⟩ := sortBy_texts texts
      refine ⟨.obj sorted, ?_, .obj (fun f member => texts f (same.mem_iff.mp member)) (distinct.perm same) rising
        fun f member => ?_, .obj fun key => ?_, fun whole => all_obj_iff.mpr fun f member => ?_⟩
      · simp only [sortKeys, sortFields_of_forall₂ each, ordered, bind, Except.bind]
        rfl
      · obtain ⟨_, _, sorts⟩ := exists_of_forall₂ each.flip f (same.mem_iff.mp member)
        exact sorts.sorted
      · rw [distinct.get?_perm same]
        exact rel_get?_of_forall₂ each key
      · have left : List.Forall₂ (fun _ f => f.1.isWhole = true ∧ f.2.isWhole = true) fields inside := by
          refine forall₂_mono (fun e member f sorts => ?_) each
          obtain ⟨name, value⟩ := all_obj_iff.mp whole e member
          exact ⟨sorts.1 ▸ name, sorts.2.whole value⟩
        obtain ⟨_, holds⟩ := exists_of_forall₂ left.flip f (same.mem_iff.mp member)
        exact holds

/-! ### There is one such arrangement -/

/-- An entry of one object is one of another in which the same value is found under its key. -/
theorem mem_of_rel {R : Json → Json → Prop} {others : Fields} (distinct : Table.Distinct fields)
    {e : Scalar × Json} (member : e ∈ fields) (text : e.1.isText = true)
    (related : Option.Rel R (Table.get? e.1 fields) (Table.get? e.1 others))
    (same : ∀ w, (e.1, w) ∈ others → R e.2 w → e.2 = w) : e ∈ others := by
  rw [distinct.get?_eq_some member] at related
  generalize found : Table.get? e.1 others = r at related
  cases related with
  | some rel =>
      obtain ⟨k, listed, here⟩ := Table.mem_of_get? found
      obtain ⟨name, spelled⟩ := Scalar.exists_of_isText text
      rw [spelled] at here
      rw [Scalar.eq_str_of_same here, ← spelled] at listed
      have value := same _ listed rel
      rwa [← value] at listed

/-- Two objects with the same entries list them in the same order, if both have their keys in order. -/
theorem eq_of_rising {others : Fields} (distinct : Table.Distinct fields) (texts : ∀ e ∈ fields, e.1.isText = true)
    (distinct' : Table.Distinct others) (texts' : ∀ e ∈ others, e.1.isText = true)
    (rising : fields.Pairwise fun a b => keyName a.1 ≤ keyName b.1)
    (rising' : others.Pairwise fun a b => keyName a.1 ≤ keyName b.1) (members : ∀ e, e ∈ fields ↔ e ∈ others) :
    fields = others := by
  have same : fields.Perm others := (List.perm_ext_iff_of_nodup distinct.nodup distinct'.nodup).mpr members
  refine same.eq_of_pairwise (fun a b member member' le ge => ?_) rising rising'
  have key := eq_of_keyName (texts a member) (texts' b member') (Text.le_antisymm le ge)
  have found := distinct'.get?_eq_some ((members a).mp member)
  rw [key, distinct'.get?_eq_some member'] at found
  exact Prod.ext key (Option.some.inj found).symm

/-- Two sorted values that are rearrangements of each other are one value. -/
theorem Sorted.eq_of_rearranged (h : v.Sorted) (k : w.Sorted) (related : v.Rearranged w) : v = w := by
  induction v using Json.induct generalizing w with
  | scalar _ =>
      cases related
      rfl
  | arr items ih =>
      cases related with
      | @arr _ others related =>
          cases h with
          | arr all =>
              cases k with
              | arr all' =>
                  have right := forall₂_mono (Q := fun w v => Rearranged v w ∧ w.Sorted)
                    (fun w member v rel => ⟨rel, all' w member⟩) related.flip
                  rw [eq_of_forall₂ (fun v member w rel => ih v member (all v member) rel.2 rel.1) right.flip]
  | obj fields ih =>
      cases related with
      | @obj _ others related =>
          cases h with
          | obj texts distinct rising all =>
              cases k with
              | obj texts' distinct' rising' all' =>
                  have value : ∀ key v w, (key, v) ∈ fields → (key, w) ∈ others → v.Rearranged w → v = w := by
                    intro key v w member member' rel
                    exact ih key v (distinct.get?_eq_some member) (all _ member) (all' _ member') rel
                  have members : ∀ e, e ∈ fields ↔ e ∈ others := by
                    intro e
                    constructor
                    · intro member
                      exact mem_of_rel distinct member (texts e member) (related e.1)
                        fun w member' rel => value e.1 e.2 w member member' rel
                    · intro member'
                      have back := rel_symm (fun _ _ _ rel => rel) (related e.1)
                      exact mem_of_rel distinct' member' (texts' e member') back
                        fun v member rel => (value e.1 v e.2 member member' rel).symm
                  rw [eq_of_rising distinct texts distinct' texts' rising rising' members]

/-- A rearrangement of a value without doubles is without doubles. -/
theorem Exact.rearranged (h : v.Exact) (sorted : w.Sorted) (related : v.Rearranged w) : w.Exact := by
  induction sorted generalizing v with
  | scalar _ =>
      cases related
      exact h
  | @arr others _ ih =>
      cases related with
      | @arr items _ related =>
          cases h with
          | arr all =>
              refine .arr fun w member => ?_
              have left := forall₂_mono (Q := fun v w => v.Exact ∧ Rearranged v w)
                (fun v member w rel => ⟨all v member, rel⟩) related
              obtain ⟨v, exact, rel⟩ := exists_of_forall₂ left.flip w member
              exact ih w member exact rel
  | @obj others _ distinct _ _ ih =>
      cases related with
      | @obj fields _ related =>
          cases h with
          | obj all =>
              refine .obj fun f member => ?_
              have rel := related f.1
              rw [distinct.get?_eq_some member] at rel
              generalize found : Table.get? f.1 fields = r at rel
              cases rel with
              | some rel =>
                  obtain ⟨k, listed, _⟩ := Table.mem_of_get? found
                  exact ih f member (all _ listed) rel

/-! ### Bytes of a value -/

/-- The bytes that the checksum of a value is taken of. -/
def canonicalBytes (v : Json) : Except Unfit (List UInt8) := v.canonicalText.map fun text => text.toUTF8.toList

theorem checksum_eq (v : Json) : v.checksum = v.canonicalBytes.map Sha256.hexDigest := by
  rw [checksum, canonicalBytes]
  cases v.canonicalText <;> rfl

/-- A whole value has bytes if it has a text: those of the text of its arrangement whose keys are in order. -/
theorem canonicalBytes_eq_ok_iff {bytes : List UInt8} (h : SortsTo v w) (whole : v.isWhole = true) :
    v.canonicalBytes = .ok bytes ↔ v.hasText = true ∧ (w.render .canonical).toUTF8.toList = bytes := by
  simp only [canonicalBytes, canonicalText, h.sorts, whole, bind, Except.bind]
  cases v.hasText with
  | false =>
      refine iff_of_false (fun made => ?_) fun made => Bool.false_ne_true made.1
      cases made
  | true => exact ⟨fun made => ⟨rfl, Except.ok.inj made⟩, fun made => congrArg Except.ok made.2⟩

theorem canonicalBytes_eq_iff {x y : Json} (ha : SortsTo a x) (hb : SortsTo b y) (whole : a.isWhole = true)
    (whole' : b.isWhole = true) (exact : a.Exact) (exact' : b.Exact) :
    (x.render .canonical).toUTF8.toList = (y.render .canonical).toUTF8.toList ↔ a.Rearranged b := by
  rw [toUTF8_toList_inj]
  constructor
  · intro same
    have here := exact.rearranged ha.sorted ha.rearranged
    have there := exact'.rearranged hb.sorted hb.rearranged
    have regular : x.Regular := ⟨ha.sorted.orderly, ha.whole whole⟩
    have regular' : y.Regular := ⟨hb.sorted.orderly, hb.whole whole'⟩
    obtain rfl := eq_of_render Layout.canonical_standard regular here regular' there same
    exact ha.rearranged.trans hb.rearranged.symm
  · intro related
    have across := (ha.rearranged.symm.trans related).trans hb.rearranged
    rw [ha.sorted.eq_of_rearranged hb.sorted across]

end Json

/-- The checksum of an expression is that of its document; there is none where there is no document. -/
theorem Expr.checksum_eq_bind {e : Expr} (expression : e.isExpression = true) :
    e.checksum = e.encode >>= fun w => (Expr.raw w).checksum := by
  rw [Expr.checksum.eq_def]
  split
  case h_1 => cases expression
  case h_2 => cases expression
  case h_3 => cases e.encode <;> rfl

/-- A checksum is taken of bytes that are the same for two values exactly when the values are the same up to the
order of keys at every depth. A value has such bytes exactly if it has a text, and the checksum of an expression is that
of its document. -/
theorem checksum_tells_content {a b : Json} (regular : a.Regular) (exact : a.Exact) (regular' : b.Regular)
    (exact' : b.Exact) :
    (∀ s t, a.canonicalBytes = .ok s → b.canonicalBytes = .ok t →
      a.checksum = .ok (Sha256.hexDigest s) ∧ b.checksum = .ok (Sha256.hexDigest t) ∧ (s = t ↔ a.Rearranged b)) ∧
    ((∃ s, a.canonicalBytes = .ok s) ↔ a.hasText = true) ∧
    ∀ e : Expr, e.isExpression = true → e.checksum = e.encode >>= fun w => (Expr.raw w).checksum := by
  obtain ⟨x, ha⟩ := regular.orderly.exists_sortsTo
  obtain ⟨y, hb⟩ := regular'.orderly.exists_sortsTo
  refine ⟨fun s t bytes bytes' => ?_, ?_, fun e => Expr.checksum_eq_bind⟩
  · refine ⟨by rw [Json.checksum_eq, bytes]; rfl, by rw [Json.checksum_eq, bytes']; rfl, ?_⟩
    obtain ⟨_, rfl⟩ := (Json.canonicalBytes_eq_ok_iff ha regular.whole).mp bytes
    obtain ⟨_, rfl⟩ := (Json.canonicalBytes_eq_ok_iff hb regular'.whole).mp bytes'
    exact Json.canonicalBytes_eq_iff ha hb regular.whole regular'.whole exact exact'
  · simp only [Json.canonicalBytes_eq_ok_iff ha regular.whole]
    exact ⟨fun ⟨_, text, _⟩ => text, fun text => ⟨_, text, rfl⟩⟩

/-- An object in a list, whose keys are not in order. -/
def unsortedDocument : Json := .arr [.obj [("v", .obj [("b", .null), ("a", .int 1)]), ("g", .str "lit")], .bool true]

/-- The same in another order of keys. -/
def reorderedDocument : Json := .arr [.obj [("g", .str "lit"), ("v", .obj [("a", .int 1), ("b", .null)])], .bool true]

theorem unsortedDocument_rearranged : unsortedDocument.Rearranged reorderedDocument := by
  have swapped (x y : Scalar × Json) : [y, x].Perm [x, y] := .swap x y []
  have inside := Json.Rearranged.of_perm (List.pairwise_pair.mpr rfl) (swapped (.str "b", .null) (.str "a", .int 1))
  have kept := inside.cons "v" (.refl (.obj [("g", .str "lit")]))
  have outside := kept.trans (.of_perm (List.pairwise_pair.mpr rfl) (swapped _ _))
  exact .arr (.cons outside (.cons (.refl _) .nil))

theorem checksum_tells_content_reordered :
    ∃ bytes, unsortedDocument.canonicalBytes = .ok bytes ∧ reorderedDocument.canonicalBytes = .ok bytes ∧
      unsortedDocument.checksum = reorderedDocument.checksum := by
  have exact : unsortedDocument.Exact :=
    .arr (List.forall_mem_cons.mpr ⟨.cons "v" (.cons "b" (.scalar nofun) (.cons "a" (.scalar nofun) .empty))
      (.cons "g" (.scalar nofun) .empty), List.forall_mem_singleton.mpr (.scalar nofun)⟩)
  have exact' : reorderedDocument.Exact :=
    .arr (List.forall_mem_cons.mpr ⟨.cons "g" (.scalar nofun) (.cons "v" (.cons "a" (.scalar nofun)
      (.cons "b" (.scalar nofun) .empty)) .empty), List.forall_mem_singleton.mpr (.scalar nofun)⟩)
  have regular := Json.regular_of_isRegular (v := unsortedDocument) rfl
  have regular' := Json.regular_of_isRegular (v := reorderedDocument) rfl
  obtain ⟨_, exists_bytes, _⟩ := checksum_tells_content regular exact regular exact
  obtain ⟨tells, exists_bytes', _⟩ := checksum_tells_content regular' exact' regular exact
  obtain ⟨s, bytes⟩ := exists_bytes.mpr (by decide +kernel)
  obtain ⟨t, bytes'⟩ := exists_bytes'.mpr (by decide +kernel)
  obtain ⟨digest', digest, same⟩ := tells t s bytes' bytes
  obtain rfl := same.mpr unsortedDocument_rearranged.symm
  exact ⟨_, bytes, bytes', digest.trans digest'.symm⟩

end ExprRegistry
