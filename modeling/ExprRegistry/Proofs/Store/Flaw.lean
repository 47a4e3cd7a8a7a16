import ExprRegistry.Proofs.Resolve.FirstFailure
import ExprRegistry.Proofs.Store.Formed
import ExprRegistry.Proofs.Store.Leniency

/-!
Where a strict load stops. A flaw of an index document is a package whose name was there before, a release with data
that is no version or no expression, or a release with data whose version was there before in its record; a release
without data has none. The flaws are told from the document alone. Main statement: a strict load of a document that
has the format comes to what its first flaw says, and where there is none the document is loaded.
-/

namespace ExprRegistry

def Json.isExpression (v : Json) : Bool := (Expr.decode v).isOk

theorem isExpression_iff {v : Json} : v.isExpression = true ↔ ∃ e, Expr.decode v = .ok e := by
  rw [Json.isExpression]
  cases Expr.decode v with
  | ok e => exact ⟨fun _ => ⟨e, rfl⟩, fun _ => rfl⟩
  | error e => exact ⟨nofun, nofun⟩

/-- What a strict load does not take from an index document. -/
inductive Flaw where
  | repeatedPackage
  | invalidRelease
  | repeatedRelease
  deriving DecidableEq

/-- The flaw of a release, after those of some versions in the same record. -/
def Release.flaw? (r : Release) (earlier : List Text) : Option Flaw :=
  if r.data = .null then none
  else if !(r.version.string?.any isVersionText && r.data.isExpression) then some .invalidRelease
  else if r.version ∈ earlier then some .repeatedRelease
  else none

/-- The first flaw of releases, after those of some versions in the same record. -/
def Release.firstFlaw? (earlier : List Text) : List Release → Option Flaw
  | [] => none
  | r :: rest => (r.flaw? earlier).or (firstFlaw? (earlier ++ [r.version]) rest)

/-- The first flaw of packages, after those of some names. -/
def Package.firstFlaw? (earlier : List Json) : List Package → Option Flaw
  | [] => none
  | p :: rest =>
    if p.name ∈ earlier then some .repeatedPackage
    else (Release.firstFlaw? [] p.releases).or (firstFlaw? (earlier ++ [p.name]) rest)

/-- The packages that the records of an index document describe. -/
def Json.indexPackages (document : Json) : List Package :=
  document.indexEntries.filterMap fun record => (Package.ofJson record).toOption

/-- The first flaw of an index document. -/
def Json.firstFlaw? (document : Json) : Option Flaw := Package.firstFlaw? [] document.indexPackages

namespace Store

/-- What a load comes to by the first flaw that it meets. -/
inductive Meets : Option Flaw → Except IndexError Store → Prop
  | nothing (after : Store) : Meets none (.ok after)
  | repeatedPackage (name : Scalar) : Meets (some .repeatedPackage) (.error (.duplicate name))
  | invalidRelease (e : ValidationError) : Meets (some .invalidRelease) (.error (.store (.invalid e)))
  | repeatedRelease (name : Json) (version : String) :
      Meets (some .repeatedRelease) (.error (.store (.versionExists name version)))

theorem Meets.exists_error {flaw : Flaw} {result : Except IndexError Store} (h : Meets (some flaw) result) :
    ∃ e, result = .error e := by
  cases h with
  | repeatedPackage name => exact ⟨_, rfl⟩
  | invalidRelease e => exact ⟨_, rfl⟩
  | repeatedRelease name version => exact ⟨_, rfl⟩

theorem Meets.exists_ok {result : Except IndexError Store} (h : Meets none result) :
    ∃ after, result = .ok after := by
  cases h with
  | nothing after => exact ⟨after, rfl⟩

variable {store : Store} {k : Scalar} {p : Package} {r : Release} {rest : List Release} {record : Json}
  {records : List Json} {document : Json}

/-! ### Releases -/

theorem any_isVersionText_iff {t : Text} :
    t.string?.any isVersionText = true ↔ ∃ text, t = .whole text ∧ IsVersionText text := by
  cases t with
  | whole s =>
      refine isVersionText_iff.trans ⟨fun written => ⟨s, rfl, written⟩, ?_⟩
      rintro ⟨_, ⟨⟩, written⟩
      exact written
  | torn front h rest => exact ⟨nofun, nofun⟩

/-- A release with data and without a flaw can be published. -/
theorem exists_published {earlier : List Text} (given : r.data ≠ .null) (digestible : r.data.Digestible)
    (sound : r.flaw? earlier = none) :
    ∃ s : Release, s.version = r.version ∧ s.data = r.data ∧ s.Published ∧ s.version ∉ earlier := by
  rw [Release.flaw?, if_neg given] at sound
  split at sound
  case isTrue => cases sound
  case isFalse valid =>
    split at sound
    case isTrue => cases sound
    case isFalse new =>
      rw [Bool.not_eq_true', Bool.not_eq_false, Bool.and_eq_true] at valid
      obtain ⟨digest, digested⟩ := digestible.checksum_eq_ok
      have published : Release.Published ⟨r.version, r.data, .str digest⟩ :=
        ⟨any_isVersionText_iff.mp valid.1, isExpression_iff.mp valid.2, digest, digested, rfl⟩
      exact ⟨⟨r.version, r.data, .str digest⟩, rfl, rfl, published, new⟩

/-- Publishing a release with a flaw fails, and the failure tells the flaw. -/
theorem addVersion_meets {flaw : Flaw} (absent : Table.has k store = false) (digestible : r.data.Digestible)
    (flawed : r.flaw? p.versionTexts = some flaw) :
    ∃ e, ((store ++ [(k, p)]).addVersion (.scalar k) (.text r.version) r.data).2 = .error e ∧
      Meets (some flaw) (.error (.store e)) := by
  have required := require_eq_ok_iff.mpr ⟨rfl, Table.get?_snoc absent p⟩
  rw [Release.flaw?] at flawed
  split at flawed
  case isTrue => cases flawed
  case isFalse =>
    split at flawed
    case isTrue invalid =>
      cases flawed
      rw [Bool.not_eq_true', Bool.and_eq_false_iff] at invalid
      rw [Store.addVersion.eq_def]
      split
      case h_2 => exact ⟨_, rfl, .invalidRelease _⟩
      case h_1 text same =>
        rw [Scalar.str.inj (Json.scalar.inj same)] at invalid
        split
        case isTrue => exact ⟨_, rfl, .invalidRelease _⟩
        case isFalse written =>
          split
          case h_1 e refused =>
            have told : (ValidationError.expression e).hasMessage = true :=
              Expr.hasMessage_of_refused refused digestible.texted
            rw [StoreError.refused_of_told told]
            exact ⟨_, rfl, .invalidRelease _⟩
          case h_2 e read =>
            rcases invalid with unwritten | undecoded
            · exact absurd (congrArg not unwritten) written
            · rw [isExpression_iff.mpr ⟨e, read⟩] at undecoded
              cases undecoded
    case isFalse valid =>
      split at flawed
      case isFalse => cases flawed
      case isTrue old =>
        cases flawed
        rw [Bool.not_eq_true', Bool.not_eq_false, Bool.and_eq_true] at valid
        obtain ⟨text, whole, written⟩ := any_isVersionText_iff.mp valid.1
        obtain ⟨e, read⟩ := isExpression_iff.mp valid.2
        obtain ⟨digest, digested⟩ := digestible.checksum_eq_ok
        rw [whole] at old ⊢
        have known : (p.release? (.str text)).isSome = true :=
          Option.isSome_iff_ne_none.mpr fun unknown => Package.release?_eq_none_iff.mp unknown old
        simp only [Store.addVersion, isVersionText_iff.mpr written, read, digested, required, known]
        exact ⟨_, rfl, .repeatedRelease _ _⟩

/-- A load of releases comes to what their first flaw says: what was taken before grows with each of them. -/
theorem loadReleases_meets (absent : Table.has k store = false) (digestible : ∀ r ∈ rest, r.data.Digestible)
    (p : Package) :
    Meets (Release.firstFlaw? p.versionTexts rest) (loadReleases (store ++ [(k, p)]) k rest).result := by
  induction rest generalizing p with
  | nil => exact .nothing _
  | cons r rest ih =>
      obtain ⟨first, digestible⟩ := List.forall_mem_cons.mp digestible
      rw [Release.firstFlaw?]
      by_cases given : r.data = .null
      · rw [loadReleases_bare absent given, Release.flaw?, if_pos given, Option.none_or]
        have later := ih digestible { p with releases := p.releases ++ [r] }
        rwa [Package.versionTexts, List.map_append] at later
      · cases flawed : r.flaw? p.versionTexts with
        | some flaw =>
            obtain ⟨e, failed, meets⟩ := addVersion_meets absent first flawed
            have refused : ((store ++ [(k, p)]).perform (.addVersion (.scalar k) (.text r.version) r.data)).answer =
                .error e := ofEnd_answer_eq_error_iff.mpr failed
            simp only [loadReleases, loadRelease, if_neg given, refused, Option.some_or]
            exact meets
        | none =>
            obtain ⟨s, version, data, published, new⟩ := exists_published given first flawed
            rw [loadReleases_published absent given version data published new, Option.none_or]
            have later := ih digestible { p with releases := p.releases ++ [s] }
            rwa [Package.versionTexts, List.map_append, List.map_singleton, version] at later

/-! ### Packages -/

theorem has_iff_mem_keys (text : String) :
    Table.has (.str text) store = true ↔ Json.str text ∈ (Table.keys store).map .scalar := by
  rw [Table.has_iff_mem, Table.keys, List.map_map, List.mem_map]
  constructor
  · rintro ⟨e, member, same⟩
    exact ⟨e, member, congrArg Json.scalar (Scalar.eq_str_of_same same)⟩
  · rintro ⟨e, member, same⟩
    refine ⟨e, member, ?_⟩
    rw [show e.1 = .str text from Json.scalar.inj same]
    exact BEq.rfl

theorem loadPackages_meets (store : Store)
    (formed : ∀ record ∈ records, ∃ p, Package.ofJson record = .ok p ∧ p.Formed)
    (digestible : ∀ record ∈ records, record.Digestible) :
    Meets
      (Package.firstFlaw? ((Table.keys store).map .scalar)
        (records.filterMap fun record => (Package.ofJson record).toOption))
      (loadPackages true store records).result := by
  induction records generalizing store with
  | nil => exact .nothing _
  | cons record records ih =>
      obtain ⟨⟨p, read, ⟨text, named⟩, _⟩, formed⟩ := List.forall_mem_cons.mp formed
      obtain ⟨first, digestible⟩ := List.forall_mem_cons.mp digestible
      have listed : (record :: records).filterMap (fun record => (Package.ofJson record).toOption) =
          p :: records.filterMap fun record => (Package.ofJson record).toOption :=
        List.filterMap_cons_some (by rw [read]; rfl)
      rw [listed, Package.firstFlaw?, named]
      by_cases old : Table.has (.str text) store = true
      · rw [if_pos ((has_iff_mem_keys text).mp old)]
        simp only [loadPackages, loadPackage, read, named, old, if_true]
        exact .repeatedPackage _
      · rw [if_neg (mt (has_iff_mem_keys text).mpr old)]
        have absent := eq_false_of_ne_true old
        have load : (loadPackage true store record).result =
            (loadReleases (store ++ [(.str text, { p with releases := [] })]) (.str text) p.releases).result := by
          simp only [loadPackage, read, named, absent, Bool.false_eq_true, if_false, if_true,
            Table.put_of_get?_eq_none (Table.get?_eq_none_iff.mpr absent)]
        have meets : Meets (Release.firstFlaw? [] p.releases) (loadPackage true store record).result :=
          load ▸ loadReleases_meets absent (Package.digestible_data first read) { p with releases := [] }
        cases flawed : Release.firstFlaw? [] p.releases with
        | some flaw =>
            rw [flawed] at meets
            obtain ⟨e, failed⟩ := meets.exists_error
            rw [failed] at meets
            simp only [loadPackages, failed, Option.some_or]
            exact meets
        | none =>
            rw [flawed] at meets
            obtain ⟨after, loaded⟩ := meets.exists_ok
            obtain ⟨e, ⟨q, read', key, _⟩, _, rfl⟩ := loadPackage_eq_ok_iff.mp loaded
            cases read.symm.trans read'
            have keys : (Table.keys (store ++ [e])).map Json.scalar =
                (Table.keys store).map Json.scalar ++ [.str text] := by
              rw [Table.keys, List.map_append, List.map_append, List.map_singleton, List.map_singleton, ← key, named]
              rfl
            simp only [loadPackages, loaded, Option.none_or]
            rw [← keys]
            exact ih _ formed digestible

/-- A strict load of a document that a checksum could be taken of is refused for a fault of the format, or else it comes
to what the first flaw of the document says. -/
theorem ofDocument_meets (digestible : document.Digestible) :
    (∃ f, document.indexFault? = .ok (some f) ∧ (ofDocument true document).result = .error (.format f)) ∨
      document.indexFault? = .ok none ∧ Meets document.firstFlaw? (ofDocument true document).result := by
  obtain ⟨first, told, formed⟩ := Json.indexFault?_eq_ok digestible.keyed digestible.whole
  cases first with
  | some f => exact .inl ⟨f, told, by rw [ofDocument, told]⟩
  | none =>
      refine .inr ⟨told, ?_⟩
      rw [ofDocument, told]
      exact loadPackages_meets [] (formed rfl) fun record listed => (inside_of_indexEntries record listed).digestible digestible

/-- Packages that are formed, each under its name. -/
def Formed (store : Store) : Prop := ∀ e ∈ store, e.2.name = .scalar e.1 ∧ e.2.Formed

theorem formed_of_load (texts : document.TextKeyed) (whole : document.isWhole = true)
    (loaded : (ofDocument true document).result = .ok store) :
    store.Formed := by
  obtain ⟨told, entries, _⟩ := ofDocument_eq_ok_iff.mp loaded
  obtain ⟨first, told', formed⟩ := Json.indexFault?_eq_ok texts whole
  cases told.symm.trans told'
  have all : List.Forall₂ (fun _ e => e.2.name = .scalar e.1 ∧ e.2.Formed) document.indexEntries store := by
    refine forall₂_mono (fun record listed e entry => ?_) entries
    obtain ⟨p, read, named, _, _, same⟩ := entry
    obtain ⟨q, read', formed⟩ := formed rfl record listed
    cases read.symm.trans read'
    rw [same]
    exact ⟨named, formed.named, ⟨formed.textual.dependencies, formed.textual.title, formed.textual.description⟩,
      formed.dependencies, formed.title⟩
  exact fun e member => (exists_of_forall₂ all.flip e member).elim fun _ held => held

end Store

end ExprRegistry
