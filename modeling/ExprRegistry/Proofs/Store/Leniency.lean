import ExprRegistry.Proofs.Data.Pairing
import ExprRegistry.Proofs.Json.TextKeyed
import ExprRegistry.Proofs.Resolve.Resemblance
import ExprRegistry.Proofs.Store.Uniqueness
import ExprRegistry.Proofs.Store.Verdict

/-!
Strict and lenient loads of one document. What a strict load takes is what a lenient one takes, with the
checksums of data taken anew, so resolving cannot tell the two stores apart. Main statement: a strict load
refines a lenient one, and where it refuses what the lenient one takes, a release with data is invalid, its
version was there before, or its data can be neither taken nor refused in words.
-/

namespace ExprRegistry

/-- The same release, but for the checksum of data. -/
structure Release.SameContent (r s : Release) : Prop where
  version : r.version = s.version
  data : r.data = s.data
  bare : r.data = .null → r.checksum = s.checksum

/-- The same package, but for the checksums of data. -/
structure Package.SameContent (p q : Package) : Prop where
  name : p.name = q.name
  dependencies : p.dependencies = q.dependencies
  releases : List.Forall₂ Release.SameContent p.releases q.releases
  title : p.title = q.title
  description : p.description = q.description

/-- The same packages in the same order, but for the checksums of data. -/
def Store.SameContent : Store → Store → Prop :=
  List.Forall₂ fun a b => a.1 = b.1 ∧ a.2.SameContent b.2

theorem Release.SameContent.refl (r : Release) : r.SameContent r := ⟨rfl, rfl, fun _ => rfl⟩

theorem Release.Taken.sameContent {earlier given taken : List Release} (h : Taken earlier given taken) :
    List.Forall₂ SameContent taken given := by
  induction h with
  | nil => exact .nil
  | @bare _ _ _ r _ _ ih => exact .cons (.refl r) ih
  | published given version data _ _ _ ih =>
      exact .cons ⟨version, data, fun empty => absurd (data.symm.trans empty) given⟩ ih

theorem Package.SameContent.resembles {p q : Package} (h : p.SameContent q) : p.Resembles q := by
  have texts : p.versionTexts = q.versionTexts :=
    List.forall₂_eq_eq_eq ▸ List.forall₂_map_left_iff.mpr
      (List.forall₂_map_right_iff.mpr (h.releases.imp fun _ _ same => same.version))
  exact ⟨h.name, h.dependencies, by rw [versions, versions, texts]⟩

namespace Store

variable {store lenient : Store} {document record : Json}

theorem Entry.exists_lenient {e : Scalar × Package} (h : Entry true record e) :
    ∃ x, Entry false record x ∧ e.1 = x.1 ∧ e.2.SameContent x.2 := by
  obtain ⟨p, read, named, releases, taken, same⟩ := h
  refine ⟨(e.1, p), ⟨p, read, named, p.releases, rfl, rfl⟩, rfl, ?_⟩
  rw [same]
  exact ⟨rfl, rfl, taken.sameContent, rfl, rfl⟩

theorem SameContent.keys (h : SameContent store lenient) : Table.keys store = Table.keys lenient := by
  induction h with
  | nil => rfl
  | cons same _ ih => rw [Table.keys, List.map_cons, same.1, ← Table.keys, ih]; rfl

/-- What a strict load takes, a lenient one takes as well. -/
theorem exists_lenient (loaded : (ofDocument true document).result = .ok store) :
    ∃ lenient, (ofDocument false document).result = .ok lenient ∧ SameContent store lenient := by
  obtain ⟨formed, entries, distinct⟩ := ofDocument_eq_ok_iff.mp loaded
  obtain ⟨lenient, taken, same⟩ :=
    exists_forall₂_between (entries.imp fun _ _ entry => entry.exists_lenient).flip
  have same : SameContent store lenient := same.flip
  rw [Table.distinct_iff_keys, same.keys, ← Table.distinct_iff_keys] at distinct
  exact ⟨lenient, ofDocument_eq_ok_iff.mpr ⟨formed, taken, distinct⟩, same⟩

/-! ### Resolving -/

theorem SameContent.resembling (h : SameContent store lenient) (k : Scalar) :
    Lookup.Resembling (.ok (Table.get? k store)) (.ok (Table.get? k lenient)) := by
  induction h with
  | nil => exact .missing
  | @cons a b _ _ same _ ih =>
      rw [Table.get?_cons, Table.get?_cons, same.1]
      split
      · exact .found same.2.resembles
      · exact ih

theorem sameContent_simulates : Source.ofTable.Simulates Source.ofTable SameContent where
  answer same name := by
    cases name with
    | scalar k => exact same.resembling k
    | arr items => exact .error _
    | obj fields => exact .error _
  state same name := by
    cases name with
    | scalar k => exact same
    | arr items => exact same
    | obj fields => exact same

/-- Two stores between which resolving makes no difference: results, failures and the names looked up on the
way are the same for every root and for all requirements. -/
structure SameResolutions (store other : Store) : Prop where
  resolve : ∀ root, SameResolution (resolve Source.ofTable root store) (resolve Source.ofTable root other)
  resolveRequirements : ∀ requirements, SameResolution
    (resolveRequirements Source.ofTable requirements store)
    (resolveRequirements Source.ofTable requirements other)
  dependencyTree : ∀ root, SameResolution
    (dependencyTree Source.ofTable root store) (dependencyTree Source.ofTable root other)

theorem SameContent.sameResolutions (h : SameContent store lenient) : SameResolutions store lenient where
  resolve root := (sameContent_simulates.resolve_ends h (List.Forall₂.length_eq h) root).same
  resolveRequirements requirements :=
    (sameContent_simulates.resolveRequirements_ends h (List.Forall₂.length_eq h) requirements).same
  dependencyTree root := (sameContent_simulates.dependencyTree_ends h (List.Forall₂.length_eq h) root).same

/-! ### Refusals -/

theorem inside_of_indexEntries : ∀ v ∈ document.indexEntries, v.Inside document := by
  intro v member
  rw [Json.indexEntries.eq_def] at member
  split at member
  case h_1 fields =>
    split at member
    case h_1 packages found => exact .field found (.item member (.self v))
    case h_2 => cases member
  case h_2 => cases member

end Store

/-- What a value runs through stands in it, if it is no scalar. -/
theorem Json.inside_of_elementsIfGiven {v w : Json} {items : List Json} (read : v.elementsIfGiven = .ok items)
    (member : w ∈ items) : (∃ k, w = .scalar k) ∨ w.Inside v := by
  rw [Json.elementsIfGiven] at read
  split at read
  case isFalse =>
    cases read
    cases member
  case isTrue =>
    rw [elements.eq_def] at read
    split at read
    case h_1 =>
      cases read
      exact .inr (.item member (.self w))
    case h_2 =>
      cases read
      obtain ⟨c, _, rfl⟩ := List.mem_map.mp member
      exact .inl ⟨_, rfl⟩
    case h_3 =>
      cases read
      obtain ⟨e, _, rfl⟩ := List.mem_map.mp member
      exact .inl ⟨_, rfl⟩
    case h_4 => cases read

/-- The data of a release, if there are any, stand in the value that the release is read from. -/
theorem Release.inside_ofJson (v : Json) : (ofJson v).data = .null ∨ (ofJson v).data.Inside v := by
  cases v with
  | scalar k => exact .inl rfl
  | arr items => exact .inl rfl
  | obj fields => exact Json.inside_fieldOrNull fields "expression_data"

theorem Package.inside_of_release {record : Json} {p : Package} {r : Release} (read : Package.ofJson record = .ok p)
    (member : r ∈ p.releases) : r.data = .null ∨ r.data.Inside record := by
  rw [Package.ofJson.eq_def] at read
  split at read
  case h_2 => cases read
  case h_1 fields =>
    rw [ofFields] at read
    split at read
    case h_1 => cases read
    case h_2 versions given =>
      split at read
      case h_1 => cases read
      case h_2 name _ =>
        split at read
        case h_1 => cases read
        case h_2 dependencies _ =>
          cases read
          obtain ⟨v, listed, rfl⟩ := List.mem_map.mp member
          rcases Json.inside_of_elementsIfGiven given listed with ⟨k, rfl⟩ | inside
          · exact .inl rfl
          · rcases Json.inside_fieldOrNull fields "versions" with null | within
            · rw [null] at given
              cases given
              cases listed
            · exact (Release.inside_ofJson v).imp_right fun stands => stands.trans (inside.trans within)

theorem Package.digestible_data {record : Json} {p : Package} (h : record.Digestible)
    (read : Package.ofJson record = .ok p) : ∀ r ∈ p.releases, r.data.Digestible := by
  intro r member
  rcases inside_of_release read member with null | within
  · rw [null]
    exact Json.digestible_null
  · exact within.digestible h

namespace Store

variable {store lenient : Store} {document record : Json}

/-- Data that are neither taken nor refused in words: they are an expression that cannot be written and encoded to
take a checksum of, or they are none, and the message about it cannot be written. -/
inductive Unanswered (data : Json) : Unfit → Prop
  | undigested {how : Unfit} (valid : ∃ e, Expr.decode data = .ok e) (unwritable : data.Unwritable how) :
      Unanswered data how
  | untold {e : Invalid} (invalid : Expr.decode data = .error e) (silent : e.fault.hasMessage = false) :
      Unanswered data .value

/-- A document with such data. -/
def HoldsUnanswered (document : Json) (how : Unfit) : Prop :=
  ∃ data : Json, data.Inside document ∧ Unanswered data how

theorem not_holdsUnanswered {how : Unfit} (digestible : document.Digestible) : ¬ HoldsUnanswered document how := by
  rintro ⟨data, inside, unanswered⟩
  obtain ⟨_, texted, whole⟩ := inside.digestible digestible
  cases unanswered with
  | undigested _ unwritable =>
      cases unwritable with
      | overlong none => cases texted.symm.trans none
      | torn _ torn => cases whole.symm.trans torn
  | untold invalid silent => cases (Expr.hasMessage_of_refused invalid texted).symm.trans silent

/-- Where the keys of a document are texts, a release is refused in words unless its data can be neither taken nor
refused so. -/
theorem refused_of_textKeyed {error : IndexError} (texts : document.TextKeyed)
    (taken : (ofDocument false document).result = .ok lenient)
    (refused : (ofDocument true document).result = .error error) :
    (∃ e, error = .store (.invalid e)) ∨ (∃ name version, error = .store (.versionExists name version)) ∨
      ∃ how, error = .store (.unfit how) ∧ HoldsUnanswered document how := by
  obtain ⟨record, listed, p, read, r, member, reason⟩ := ofDocument_error taken refused
  have inside (given : r.data ≠ .null) : r.data.Inside document :=
    ((Package.inside_of_release read member).resolve_left given).trans (inside_of_indexEntries record listed)
  cases reason with
  | invalid e => exact .inl ⟨e, rfl⟩
  | repeated name version => exact .inr (.inl ⟨name, _, rfl⟩)
  | @undigested how valid none =>
      have given : r.data ≠ .null := by
        intro null
        rw [null] at valid
        obtain ⟨_, ⟨⟩⟩ := valid
      have keyed := (inside given).textKeyed texts
      rcases keyed.digestible_or_unwritable with digestible | ⟨other, unwritable⟩
      · obtain ⟨digest, digested⟩ := digestible.checksum_eq_ok
        rw [none] at digested
        cases digested
      · obtain rfl := Except.error.inj (none.symm.trans (keyed.checksum_eq_error unwritable))
        exact .inr (.inr ⟨how, rfl, r.data, inside given, .undigested valid unwritable⟩)
  | untold invalid silent =>
      have given : r.data ≠ .null := by
        intro null
        rw [null] at invalid
        cases invalid
        cases silent
      exact .inr (.inr ⟨_, rfl, r.data, inside given, .untold invalid silent⟩)

/-- A strict load refines a lenient one of the same document. It refuses what the lenient one takes for a release that
is invalid or was there before, or else for data that it can neither take nor refuse in words. -/
theorem strict_load_refines_lenient (document : Json) (texts : document.TextKeyed) :
    (∀ store, (ofDocument true document).result = .ok store →
      ∃ lenient, (ofDocument false document).result = .ok lenient ∧ SameContent store lenient ∧
        SameResolutions store lenient) ∧
    ∀ lenient error, (ofDocument false document).result = .ok lenient →
      (ofDocument true document).result = .error error →
        (∃ e, error = .store (.invalid e)) ∨ (∃ name version, error = .store (.versionExists name version)) ∨
          ∃ how, error = .store (.unfit how) ∧ HoldsUnanswered document how := by
  constructor
  · intro store loaded
    obtain ⟨lenient, taken, same⟩ := exists_lenient loaded
    exact ⟨lenient, taken, same, same.sameResolutions⟩
  · exact fun lenient error taken refused => refused_of_textKeyed texts taken refused

theorem singleDocument_textKeyed {versions : List Json} (h : ∀ v ∈ versions, v.TextKeyed) :
    (singleDocument versions).TextKeyed := by
  have package : (Json.obj [("name", .str "logic"), ("versions", .arr versions)]).TextKeyed :=
    .cons "name" (.scalar _) (.cons "versions" (.arr h) .empty)
  exact .cons "packages" (.arr (List.forall_mem_singleton.mpr package)) .empty

theorem checkedRelease_textKeyed : checkedRelease.TextKeyed :=
  .cons "version" (.scalar _) (.cons "expression_data" (.cons "g" (.scalar _) (.cons "v" (.scalar _) .empty)) .empty)

theorem strict_load_refines_lenient_single :
    let apart := singleDocument [.str "0.9.0", checkedRelease]
    let repeated := singleDocument [.str "1.0.0", checkedRelease]
    (apart.TextKeyed ∧ ∃ store lenient, (ofDocument true apart).result = .ok store ∧
      (ofDocument false apart).result = .ok lenient ∧ SameContent store lenient ∧
      SameResolutions store lenient) ∧
    (repeated.TextKeyed ∧ ∃ lenient error, (ofDocument false repeated).result = .ok lenient ∧
      (ofDocument true repeated).result = .error error ∧
      ((∃ e, error = .store (.invalid e)) ∨
        ∃ name version, error = .store (.versionExists name version))) := by
  intro apart repeated
  have texts (first : String) : (singleDocument [.str first, checkedRelease]).TextKeyed :=
    singleDocument_textKeyed
      (List.forall_mem_cons.mpr ⟨.scalar _, List.forall_mem_singleton.mpr checkedRelease_textKeyed⟩)
  obtain ⟨lenient, taken, same, resolutions⟩ := (strict_load_refines_lenient apart (texts _)).1 _ rfl
  have refused := (strict_load_refines_lenient repeated (texts _)).2 _ _ rfl rfl
  refine ⟨⟨texts _, _, lenient, rfl, taken, same, resolutions⟩, texts _, _, _, rfl, rfl, ?_⟩
  rcases refused with invalid | exists_ | ⟨how, _, unanswered⟩
  · exact .inl invalid
  · exact .inr exists_
  · exact absurd unanswered (not_holdsUnanswered ⟨texts _, rfl, rfl⟩)

/-- The record of a release of a literal. -/
def literalRelease (value : Json) : Json :=
  .obj [("version", .str "1.0.0"), ("expression_data", Expr.tagged .literal value)]

/-- A release of a literal without a checksum ends a strict load. -/
theorem ofDocument_of_undigested {value : Json} {how : Unfit} (notObject : ∀ parts, value ≠ .obj parts)
    (undigested : (Expr.tagged .literal value).checksum = .error how) :
    (ofDocument true (singleDocument [literalRelease value])).result = .error (.store (.unfit how)) := by
  let release : Release := ⟨"1.0.0", Expr.tagged .literal value, .null⟩
  have refused := addVersion_of_undigested emptyLogic (.str "logic")
    (isVersionText_iff.mp (by decide : isVersionText "1.0.0" = true)) (decode_literal notObject) undigested
  have given : release.data ≠ .null := nofun
  have releases : (loadReleases emptyLogic (.str "logic") [release]).result = .error (.store (.unfit how)) := by
    simp only [loadReleases, loadRelease, if_neg given, release, refused]
  have package : (loadPackage true [] (.obj [("name", .str "logic"), ("versions", .arr [literalRelease value])])).result =
      (loadReleases emptyLogic (.str "logic") [release]).result := rfl
  change (loadPackages true [] [_]).result = _
  simp only [loadPackages, package, releases]

/-- A document that a lenient load takes, and that a strict one ends at with an error of another kind than those of
invalid releases and of repeated ones. -/
structure EndsOtherwise (document : Json) : Prop where
  keyed : document.TextKeyed
  taken : ∃ lenient, (ofDocument false document).result = .ok lenient
  refused : ∃ error, (ofDocument true document).result = .error error ∧
    ¬ ((∃ e, error = .store (.invalid e)) ∨ ∃ name version, error = .store (.versionExists name version))

theorem literal_endsOtherwise {value : Scalar} {how : Unfit}
    (undigested : (Expr.tagged .literal (.scalar value)).checksum = .error how) :
    EndsOtherwise (singleDocument [literalRelease (.scalar value)]) := by
  have texts : (singleDocument [literalRelease (.scalar value)]).TextKeyed :=
    singleDocument_textKeyed (List.forall_mem_singleton.mpr
      (.cons "version" (.scalar _) (.cons "expression_data" (literal_scalar_textKeyed value) .empty)))
  refine ⟨texts, ⟨_, rfl⟩, _, ofDocument_of_undigested nofun undigested, ?_⟩
  rintro (⟨_, ⟨⟩⟩ | ⟨_, _, ⟨⟩⟩)

theorem unwritable_refused : EndsOtherwise (singleDocument [literalRelease tornText]) ∧
    EndsOtherwise (singleDocument [literalRelease longNumber]) :=
  ⟨literal_endsOtherwise checksum_tornText, literal_endsOtherwise checksum_longNumber⟩

end Store

end ExprRegistry
