import ExprRegistry.Proofs.Store.Sound
import ExprRegistry.Store.Load
import Mathlib.Data.List.Forall2

/-!
What a load makes of an index document. `Entry` says it of one record and `Taken` of the releases in it,
without mention of the store that the load builds. Main statements: `ofDocument_eq_ok_iff`, by which a document
is loaded exactly when every record is and no two have one name, and `ofDocument_error`, by which a strict
load of a document that a lenient one accepts fails at a release with data only.
-/

namespace ExprRegistry

/-- What a strict load makes of releases, after some that it has taken before: a release without data stays
as it is, and of one with data its checked form is published, if the version is new. -/
inductive Release.Taken : List Release → List Release → List Release → Prop
  | nil {earlier : List Release} : Taken earlier [] []
  | bare {earlier rest taken : List Release} {r : Release} (empty : r.data = .null)
      (later : Taken (earlier ++ [r]) rest taken) : Taken earlier (r :: rest) (r :: taken)
  | published {earlier rest taken : List Release} {r s : Release} (given : r.data ≠ .null)
      (version : s.version = r.version) (data : s.data = r.data) (published : s.Published)
      (new : s.version ∉ earlier.map (·.version)) (later : Taken (earlier ++ [s]) rest taken) :
      Taken earlier (r :: rest) (s :: taken)

/-- Why a strict load refuses a release. -/
inductive Release.Refused (r : Release) : IndexError → Prop
  | invalid (e : ValidationError) : Refused r (.store (.invalid e))
  | repeated (name : Json) {text : String} (version : r.version = .whole text) :
      Refused r (.store (.versionExists name text))
  | undigested {how : Unfit} (valid : ∃ e, Expr.decode r.data = .ok e) (none : r.data.checksum = .error how) :
      Refused r (.store (.unfit how))
  | untold {e : Invalid} (invalid : Expr.decode r.data = .error e) (silent : e.fault.hasMessage = false) :
      Refused r (.store (.unfit .value))

namespace Store

/-- What a load makes of the releases of one package. -/
def Loads : Bool → List Release → List Release → Prop
  | true, given, loaded => Release.Taken [] given loaded
  | false, given, loaded => loaded = given

/-- The entry that a record of a package becomes. -/
structure Entry (strict : Bool) (record : Json) (e : Scalar × Package) : Prop where
  read : ∃ p, Package.ofJson record = .ok p ∧ p.name = .scalar e.1 ∧
    ∃ releases, Loads strict p.releases releases ∧ e.2 = { p with releases := releases }

variable {store after entries : Store} {k : Scalar} {p : Package} {rest : List Release} {record : Json}
  {records : List Json} {strict : Bool}

/-! ### Releases -/

theorem loadReleases_bare {r : Release} (absent : Table.has k store = false) (empty : r.data = .null) :
    (loadReleases (store ++ [(k, p)]) k (r :: rest)).result =
      (loadReleases (store ++ [(k, { p with releases := p.releases ++ [r] })]) k rest).result := by
  simp only [loadReleases, loadRelease, if_pos empty, Table.modify_snoc absent]

theorem loadReleases_published {r s : Release} (absent : Table.has k store = false)
    (given : r.data ≠ .null) (version : s.version = r.version) (data : s.data = r.data)
    (published : s.Published) (new : s.version ∉ p.versionTexts) :
    (loadReleases (store ++ [(k, p)]) k (r :: rest)).result =
      (loadReleases (store ++ [(k, { p with releases := p.releases ++ [s] })]) k rest).result := by
  have effect := (effect_addVersion_snoc_iff absent).mpr
    ⟨s, version, data, published, version ▸ new, rfl, rfl⟩
  obtain ⟨stored, answered⟩ := perform_of_effect effect
  simp only [loadReleases, loadRelease, if_neg given, answered, stored]

theorem addVersion_error {name : Json} {r : Release} {found : Scalar × Package} {e : StoreError}
    (required : store.require name = .ok found) (h : (store.addVersion name (.text r.version) r.data).2 = .error e) :
    r.Refused (.store e) := by
  rw [Store.addVersion.eq_def] at h
  simp only [required] at h
  split at h
  case h_2 =>
    cases h
    rw [StoreError.refused_of_told rfl]
    exact .invalid _
  case h_1 text same =>
    split at h
    case isTrue =>
      cases h
      exact .invalid _
    case isFalse =>
      split at h
      case h_1 fault invalid =>
        cases h
        cases silent : (ValidationError.expression fault).hasMessage with
        | true =>
            rw [StoreError.refused_of_told silent]
            exact .invalid _
        | false =>
            rw [StoreError.refused_of_silent silent]
            exact .untold invalid silent
      case h_2 term read =>
        split at h
        case h_1 undigested =>
          cases h
          exact .undigested ⟨term, read⟩ undigested
        case h_2 =>
          split at h
          case isTrue =>
            cases h
            exact .repeated _ (Scalar.str.inj (Json.scalar.inj same))
          case isFalse => cases h

/-- A release with data is published, or it is refused and the load ends there. -/
theorem loadReleases_given {r : Release} (absent : Table.has k store = false) (given : r.data ≠ .null)
    (p : Package) (rest : List Release) :
    (∃ s : Release, s.version = r.version ∧ s.data = r.data ∧ s.Published ∧ s.version ∉ p.versionTexts) ∨
      ∃ e, (loadReleases (store ++ [(k, p)]) k (r :: rest)).result = .error e ∧ r.Refused e := by
  rcases perform_cases (store ++ [(k, p)]) (.addVersion (.scalar k) (.text r.version) r.data) with
    ⟨e, failed, _⟩ | ⟨answer, _, effect⟩
  · refine .inr ⟨.store e, ?_, ?_⟩
    · simp only [loadReleases, loadRelease, if_neg given, failed]
    · have required := require_eq_ok_iff.mpr ⟨rfl, Table.get?_snoc absent p⟩
      exact addVersion_error required (ofEnd_answer_eq_error_iff.mp failed)
  · obtain ⟨s, version, data, published, new, _⟩ := (effect_addVersion_snoc_iff absent).mp effect
    exact .inl ⟨s, version, data, published, version ▸ new⟩

/-- The releases of the package that stands last are taken one by one, so what was taken before grows with
each of them. -/
theorem loadReleases_eq_ok_iff (absent : Table.has k store = false) :
    (loadReleases (store ++ [(k, p)]) k rest).result = .ok after ↔
      ∃ taken, Release.Taken p.releases rest taken ∧
        after = store ++ [(k, { p with releases := p.releases ++ taken })] := by
  induction rest generalizing p with
  | nil =>
      constructor
      · rintro ⟨⟩
        exact ⟨[], .nil, by rw [List.append_nil]⟩
      · rintro ⟨taken, h, rfl⟩
        cases h
        rw [List.append_nil]
        rfl
  | cons r rest ih =>
      by_cases empty : r.data = .null
      · rw [loadReleases_bare absent empty, ih]
        constructor
        · rintro ⟨taken, later, rfl⟩
          exact ⟨r :: taken, .bare empty later, by rw [List.append_assoc, List.singleton_append]⟩
        · rintro ⟨taken, h, rfl⟩
          cases h with
          | @bare _ _ taken _ _ later =>
              exact ⟨taken, later, by rw [List.append_assoc, List.singleton_append]⟩
          | published given => exact absurd empty given
      · constructor
        · intro loaded
          rcases loadReleases_given absent empty p rest with
            ⟨s, version, data, published, new⟩ | ⟨e, failed, _⟩
          · rw [loadReleases_published absent empty version data published new, ih] at loaded
            obtain ⟨taken, later, rfl⟩ := loaded
            refine ⟨s :: taken, .published empty version data published new later, ?_⟩
            rw [List.append_assoc, List.singleton_append]
          · rw [failed] at loaded
            cases loaded
        · rintro ⟨taken, h, rfl⟩
          cases h with
          | bare empty' => exact absurd empty' empty
          | @published _ _ taken _ s _ version data published new later =>
              rw [loadReleases_published absent empty version data published new, ih]
              exact ⟨taken, later, by rw [List.append_assoc, List.singleton_append]⟩

theorem loadReleases_error {e : IndexError} (absent : Table.has k store = false)
    (h : (loadReleases (store ++ [(k, p)]) k rest).result = .error e) : ∃ r ∈ rest, r.Refused e := by
  induction rest generalizing p with
  | nil => cases h
  | cons r rest ih =>
      by_cases empty : r.data = .null
      · rw [loadReleases_bare absent empty] at h
        obtain ⟨s, member, refused⟩ := ih h
        exact ⟨s, List.mem_cons_of_mem r member, refused⟩
      · rcases loadReleases_given absent empty p rest with
          ⟨s, version, data, published, new⟩ | ⟨_, failed, refused⟩
        · rw [loadReleases_published absent empty version data published new] at h
          obtain ⟨t, member, refused⟩ := ih h
          exact ⟨t, List.mem_cons_of_mem r member, refused⟩
        · rw [failed] at h
          cases h
          exact ⟨r, List.mem_cons_self, refused⟩

/-! ### Packages -/

theorem loadPackage_eq_ok_iff :
    (loadPackage strict store record).result = .ok after ↔
      ∃ e, Entry strict record e ∧ Table.has e.1 store = false ∧ after = store ++ [e] := by
  rw [loadPackage]
  constructor
  · intro h
    split at h
    case h_1 => cases h
    case h_2 p read =>
      split at h
      case h_1 k named =>
        split at h
        case isTrue => cases h
        case isFalse absent =>
          have absent := eq_false_of_ne_true absent
          have unstored := Table.get?_eq_none_iff.mpr absent
          rw [Table.put_of_get?_eq_none unstored, Table.put_of_get?_eq_none unstored] at h
          cases strict with
          | true =>
              rw [if_pos rfl] at h
              obtain ⟨taken, all, rfl⟩ := (loadReleases_eq_ok_iff absent).mp h
              exact ⟨(k, { p with releases := taken }), ⟨p, read, named, taken, all, rfl⟩, absent, rfl⟩
          | false =>
              rw [if_neg Bool.false_ne_true] at h
              cases h
              exact ⟨(k, p), ⟨p, read, named, p.releases, rfl, rfl⟩, absent, rfl⟩
      case h_2 => cases h
  · rintro ⟨⟨k, q⟩, ⟨p, read, named, releases, loads, rfl⟩, absent, rfl⟩
    have unstored := Table.get?_eq_none_iff.mpr absent
    simp only [read, named, absent, Bool.false_eq_true, if_false, Table.put_of_get?_eq_none unstored]
    cases strict with
    | true =>
        rw [if_pos rfl, loadReleases_eq_ok_iff absent, ← named]
        exact ⟨releases, loads, rfl⟩
    | false =>
        cases loads
        rw [if_neg Bool.false_ne_true, ← named]

theorem loadPackages_eq_ok_iff (distinct : Table.Distinct store) :
    (loadPackages strict store records).result = .ok after ↔
      ∃ entries : Store, List.Forall₂ (Entry strict) records entries ∧ after = store ++ entries ∧
        Table.Distinct (store ++ entries) := by
  induction records generalizing store with
  | nil =>
      constructor
      · intro h
        refine ⟨[], .nil, ?_, ?_⟩
        · rw [List.append_nil]
          exact (Except.ok.inj h).symm
        · rwa [List.append_nil]
      · rintro ⟨entries, related, rfl, _⟩
        cases related
        rw [List.append_nil]
        rfl
  | cons record records ih =>
      constructor
      · intro h
        rw [loadPackages] at h
        split at h
        case h_1 => cases h
        case h_2 next loaded =>
          obtain ⟨e, entry, absent, rfl⟩ := loadPackage_eq_ok_iff.mp loaded
          obtain ⟨entries, related, rfl, apart⟩ := (ih (distinct.snoc absent)).mp h
          rw [← List.append_cons] at apart ⊢
          exact ⟨e :: entries, .cons entry related, rfl, apart⟩
      · rintro ⟨_, related, rfl, apart⟩
        cases related with
        | @cons _ e _ entries entry related =>
            rw [List.append_cons] at apart
            have first := (List.pairwise_append.mp apart).1
            have absent : Table.has e.1 store = false :=
              Table.has_eq_false_iff.mpr fun x member =>
                (List.pairwise_append.mp first).2.2 x member e List.mem_cons_self
            have loaded := loadPackage_eq_ok_iff.mpr ⟨e, entry, absent, rfl⟩
            simp only [loadPackages, loaded]
            exact (ih (distinct.snoc absent)).mpr ⟨entries, related, List.append_cons store e entries, apart⟩

/-- A document is loaded when it has the format, each of its records can be loaded, and no two packages have
one name. The store holds the packages in the order of their records. -/
theorem ofDocument_eq_ok_iff {document : Json} :
    (ofDocument strict document).result = .ok store ↔
      document.indexFault? = .ok none ∧
        List.Forall₂ (Entry strict) document.indexEntries store ∧ Table.Distinct store := by
  rw [ofDocument]
  have nothing : Table.Distinct ([] : Store) := List.Pairwise.nil
  split
  case h_1 how faulty => simp [faulty]
  case h_2 f faulty => simp [faulty]
  case h_3 formed =>
    rw [loadPackages_eq_ok_iff nothing]
    simp [formed]

/-! ### Refused documents -/

theorem Entry.same_key {e x : Scalar × Package} {other : Bool} (h : Entry strict record e)
    (k : Entry other record x) : e.1 = x.1 := by
  obtain ⟨p, read, named, _⟩ := h
  obtain ⟨q, read', named', _⟩ := k
  rw [read] at read'
  cases read'
  rw [named] at named'
  exact Json.scalar.inj named'

/-- A release of a record that a strict load refuses. -/
def RefusedIn (record : Json) (error : IndexError) : Prop :=
  ∃ p, Package.ofJson record = .ok p ∧ ∃ r ∈ p.releases, r.Refused error

theorem loadPackage_error {e : Scalar × Package} {error : IndexError} (lenient : Entry false record e)
    (absent : Table.has e.1 store = false)
    (h : (loadPackage true store record).result = .error error) : RefusedIn record error := by
  obtain ⟨p, read, named, _⟩ := lenient
  have unstored := Table.get?_eq_none_iff.mpr absent
  simp only [loadPackage, read, named, absent, Bool.false_eq_true, if_false, if_true,
    Table.put_of_get?_eq_none unstored] at h
  exact ⟨p, read, loadReleases_error absent h⟩

/-- Where a lenient load finds nothing to refuse, a strict one can only refuse a release. -/
theorem loadPackages_error {error : IndexError} (lenient : List.Forall₂ (Entry false) records entries)
    (distinct : Table.Distinct entries) (absent : ∀ e ∈ entries, Table.has e.1 store = false)
    (h : (loadPackages true store records).result = .error error) :
    ∃ record ∈ records, RefusedIn record error := by
  induction lenient generalizing store with
  | nil => cases h
  | @cons record e records entries entry _ ih =>
      obtain ⟨apart, distinct⟩ := List.pairwise_cons.mp distinct
      have new := absent e List.mem_cons_self
      rw [loadPackages] at h
      split at h
      case h_1 refused =>
        cases h
        exact ⟨record, List.mem_cons_self, loadPackage_error entry new refused⟩
      case h_2 next loaded =>
        obtain ⟨x, taken, _, rfl⟩ := loadPackage_eq_ok_iff.mp loaded
        have later : ∀ y ∈ entries, Table.has y.1 (store ++ [x]) = false := by
          intro y member
          rw [Table.has_append, absent y (List.mem_cons_of_mem e member), Bool.false_or,
            Table.has_singleton, taken.same_key entry]
          exact apart y member
        obtain ⟨record, member, refused⟩ := ih distinct later h
        exact ⟨record, List.mem_cons_of_mem _ member, refused⟩

theorem ofDocument_error {document : Json} {error : IndexError}
    (lenient : (ofDocument false document).result = .ok store)
    (h : (ofDocument true document).result = .error error) :
    ∃ record ∈ document.indexEntries, RefusedIn record error := by
  obtain ⟨formed, entries, distinct⟩ := ofDocument_eq_ok_iff.mp lenient
  rw [ofDocument, formed] at h
  exact loadPackages_error entries distinct (fun _ _ => rfl) h

end Store

end ExprRegistry
