import ExprRegistry.Proofs.Json.Parts
import ExprRegistry.Proofs.Store.Loading
import ExprRegistry.Proofs.Store.Reachable

/-!
Stores as index documents. A store whose dependencies and captions are texts is written as a document that a
strict load takes back, in whatever order its packages are written. Main statement: so does every store
that operations have built with such arguments.
-/

namespace ExprRegistry

/-- Requirements by name: names and requirements are texts. -/
def Fields.AreTexts (entries : Fields) : Prop := ∀ e ∈ entries, e.1.isText = true ∧ e.2.isText = true

/-- A title or a description: a text, or nothing. -/
def Json.IsCaption (v : Json) : Prop := v.isText = true ∨ v = .null

/-- An operation whose arguments are of the kinds that the format of index documents has. What it takes for
dependencies may be written in any way; what is read from it counts. -/
def Operation.Textual : Operation → Prop
  | .create _ dependencies title description =>
    (∀ entries, dependencies.entriesIfGiven = .ok entries → Fields.AreTexts entries) ∧ title.IsCaption ∧
      description.IsCaption
  | .setDependencies _ dependencies => ∀ entries, dependencies.entries = .ok entries → Fields.AreTexts entries
  | .addVersion _ _ _ => True
  | .deleteVersion _ _ => True
  | .deletePackage _ => True

/-- A package whose dependencies and captions are texts. -/
structure Package.Textual (p : Package) : Prop where
  dependencies : Fields.AreTexts p.dependencies
  title : p.title.IsCaption
  description : p.description.IsCaption

/-! ### Records are read back -/

namespace Package

variable (p : Package)

/-- The fields of the record of a package. -/
def record : Fields :=
  [("name", p.name), ("title", p.title), ("description", p.description),
    ("dependencies", .obj p.dependencies), ("versions", .arr (p.releases.map Release.toJson))]

theorem toJson_eq : p.toJson = .obj p.record := rfl

theorem record_name : Json.field? p.record "name" = some p.name := rfl

theorem record_title : Json.field? p.record "title" = some p.title := rfl

theorem record_description : Json.field? p.record "description" = some p.description := rfl

theorem record_dependencies : Json.field? p.record "dependencies" = some (.obj p.dependencies) := rfl

theorem record_versions :
    Json.field? p.record "versions" = some (.arr (p.releases.map Release.toJson)) := rfl

end Package

theorem Json.elementsIfGiven_arr (items : List Json) : (Json.arr items).elementsIfGiven = .ok items := by
  cases items <;> rfl

theorem Release.ofJson_toJson (r : Release) : Release.ofJson r.toJson = r := rfl

theorem Package.ofJson_toJson (p : Package) : Package.ofJson p.toJson = .ok p := by
  have releases : (p.releases.map Release.toJson).map Release.ofJson = p.releases := by
    rw [List.map_map]
    exact List.map_id p.releases
  simp only [toJson_eq, ofJson, ofFields, Json.fieldOrNull, record_name, record_title, record_description,
    record_dependencies, record_versions, Option.getD_some, Json.elementsIfGiven_arr,
    Json.entriesIfGiven_obj, releases]

/-! ### Records have the format -/

theorem Json.requirementFault?_of_isText {v : Json} (h : v.isText = true) : v.requirementFault? = none := by
  obtain ⟨s, rfl⟩ := Json.exists_of_isText h
  rfl

theorem Json.IsCaption.captionFault? {v : Json} (h : v.IsCaption) : v.captionFault? = none := by
  rcases h with text | rfl
  · obtain ⟨s, rfl⟩ := Json.exists_of_isText text
    rfl
  · rfl

theorem Json.nameFault?_of_isPackageName {name : String} (h : IsPackageName name) :
    Json.nameFault? (.str name) = none := by
  have given : name ≠ "" := by
    rintro rfl
    exact absurd h.least (by decide)
  rw [nameFault?.eq_def]
  split
  case h_1 same =>
    cases same
    exact absurd rfl given
  case h_2 => rfl
  case h_3 notText => exact absurd rfl (notText name)

theorem Json.versionFault?_toJson (r : Release) : r.toJson.versionFault? = none := rfl

theorem Fields.AreTexts.dependenciesFault? {entries : Fields} (h : Fields.AreTexts entries) :
    (Json.obj entries).dependenciesFault? = .ok none := by
  have faultless : entries.filterMap (fun e => e.2.requirementFault?.map fun c => (e.1, c)) = [] := by
    rw [List.filterMap_eq_nil_iff]
    intro e member
    rw [Json.requirementFault?_of_isText (h e member).2, Option.map_none]
  simp [Json.dependenciesFault?, faultless, Scalar.sortBy, Scalar.areOrdered, Except.map]

theorem Json.versionsFault?_toJson (releases : List Release) :
    (Json.arr (releases.map Release.toJson)).versionsFault? = none := by
  rw [versionsFault?, List.findSome?_eq_none_iff]
  rintro ⟨v, i⟩ member
  obtain ⟨r, _, rfl⟩ := List.mem_map.mp (List.fst_mem_of_mem_zipIdx member)
  simp only [versionFault?_toJson, Option.map_none]

theorem Package.packageFault?_toJson {p : Package} (sound : p.Sound) (textual : p.Textual) :
    p.toJson.packageFault? = .ok none := by
  obtain ⟨name, spelled, valid⟩ := sound.named
  have named : Json.hasField p.record "name" = true := rfl
  simp only [toJson_eq, Json.packageFault?, Json.fieldFault?, record_name, record_title, record_description,
    record_dependencies, record_versions, textual.dependencies.dependenciesFault?, Option.bind_some,
    textual.title.captionFault?, textual.description.captionFault?, spelled,
    Json.nameFault?_of_isPackageName valid, Json.versionsFault?_toJson, named]
  rfl

theorem Json.packagesFault?_eq_ok_none {packages : List Json} (index : Nat)
    (h : ∀ v ∈ packages, v.packageFault? = .ok none) : packagesFault? index packages = .ok none := by
  induction packages generalizing index with
  | nil => rfl
  | cons v packages ih =>
      have later := ih (index + 1) fun w member => h w (List.mem_cons_of_mem v member)
      rw [packagesFault?, h v List.mem_cons_self, later]
      rfl

/-! ### Releases are taken back -/

/-- What has been published is data. -/
theorem Release.Published.given {r : Release} (h : r.Published) : r.data ≠ .null := by
  obtain ⟨e, valid⟩ := h.valid
  intro empty
  rw [empty] at valid
  cases valid

theorem Release.taken_self {earlier rest : List Release} (published : ∀ r ∈ rest, r.Published)
    (distinct : ((earlier ++ rest).map (·.version)).Nodup) : Release.Taken earlier rest rest := by
  induction rest generalizing earlier with
  | nil => exact .nil
  | cons r rest ih =>
      have first := published r List.mem_cons_self
      have new : r.version ∉ earlier.map (·.version) := by
        rw [List.map_append] at distinct
        exact fun old => List.disjoint_of_nodup_append distinct old List.mem_cons_self
      rw [List.append_cons] at distinct
      have later := ih (fun s member => published s (List.mem_cons_of_mem r member)) distinct
      exact .published first.given rfl rfl first new later

namespace Store

theorem entry_toJson {e : Scalar × Package} (named : e.2.name = .scalar e.1) (sound : e.2.Sound) :
    Entry true e.2.toJson e :=
  ⟨e.2, e.2.ofJson_toJson, named, e.2.releases,
    Release.taken_self sound.published sound.distinct, rfl⟩

variable {store after : Store} {op : Operation} {answer : Answer}

/-- The document of a sound store is taken back, whatever order its packages have. -/
theorem ofDocument_toDocument (sound : store.Sound) (textual : ∀ e ∈ store, e.2.Textual) :
    (ofDocument true (toDocument (Table.values store))).result = .ok store := by
  have entries : (toDocument (Table.values store)).indexEntries = store.map fun e => e.2.toJson := by
    rw [Table.values]
    exact List.map_map
  rw [ofDocument_eq_ok_iff, entries]
  refine ⟨?_, ?_, sound.distinct⟩
  · have formed : ∀ v ∈ store.map (fun e => e.2.toJson), v.packageFault? = .ok none := by
      intro v member
      obtain ⟨e, listed, rfl⟩ := List.mem_map.mp member
      exact Package.packageFault?_toJson (sound.packages e listed).2 (textual e listed)
    rw [← entries] at formed
    exact Json.packagesFault?_eq_ok_none 0 formed
  · rw [List.forall₂_map_left_iff, List.forall₂_same]
    intro e listed
    exact entry_toJson (sound.packages e listed).1 (sound.packages e listed).2

theorem Sound.perm (sound : store.Sound) (same : after.Perm store) : after.Sound :=
  ⟨sound.distinct.perm same, fun e member => sound.packages e (same.mem_iff.mp member)⟩

/-! ### Operations keep texts -/

theorem Effect.textual (effect : Effect store op after answer) (distinct : Table.Distinct store)
    (kind : op.Textual) (all : ∀ e ∈ store, e.2.Textual) : ∀ e ∈ after, e.2.Textual := by
  cases effect with
  | create named new read =>
      refine List.forall_mem_append.mpr ⟨all, List.forall_mem_singleton.mpr ?_⟩
      exact ⟨kind.1 _ read, kind.2.1, kind.2.2⟩
  | setDependencies found read =>
      exact forall_mem_modify (I := fun _ => Package.Textual) distinct found all fun _ h =>
        ⟨kind _ read, h.title, h.description⟩
  | addVersion found written valid digest new =>
      exact forall_mem_modify (I := fun _ => Package.Textual) distinct found all fun _ h =>
        ⟨h.dependencies, h.title, h.description⟩
  | deleteVersion found =>
      exact forall_mem_modify (I := fun _ => Package.Textual) distinct found all fun _ h =>
        ⟨h.dependencies, h.title, h.description⟩
  | deletePackage => exact fun e member => all e (List.mem_of_mem_filter member)
  | deleteNothing empty noKey => exact all

theorem performAll_textual {operations : List Operation} (distinct : Table.Distinct store)
    (kinds : ∀ op ∈ operations, op.Textual) (all : ∀ e ∈ store, e.2.Textual) :
    ∀ e ∈ store.performAll operations, e.2.Textual := by
  have kept : Table.Distinct (store.performAll operations) ∧ ∀ e ∈ store.performAll operations, e.2.Textual := by
    refine performAll_of_effects (P := fun store => Table.Distinct store ∧ ∀ e ∈ store, e.2.Textual)
      ⟨distinct, all⟩ ?_
    rintro op member before after answer ⟨distinct, all⟩ effect
    exact ⟨effect.distinct distinct, effect.textual distinct (kinds op member) all⟩
  exact kept.2

/-- A store that operations have built from nothing with textual arguments is taken back from its document,
whatever order the packages have there: the same packages with the same releases, and so the same
answer to every look-up. -/
theorem exported_loads (operations : List Operation) (textual : ∀ op ∈ operations, op.Textual)
    (exported : Store) (order : exported.Perm (performAll [] operations)) :
    (ofDocument true (toDocument (Table.values exported))).result = .ok exported ∧
      ∀ name, Table.get? name exported = Table.get? name (performAll [] operations) := by
  have sound := performAll_sound operations
  have nothing : Table.Distinct ([] : Store) := List.Pairwise.nil
  have texts := performAll_textual nothing textual nofun
  refine ⟨?_, sound.distinct.get?_perm order⟩
  exact ofDocument_toDocument (sound.perm order) fun e member => texts e (order.mem_iff.mp member)

/-- Two packages are created, and a version is published that is published again in vain. -/
def shortHistory : List Operation :=
  [.create (.str "logic") .null (.str "Logic") .null,
    .addVersion (.str "logic") (.str "1.0.0") (.obj [("g", .str "ref"), ("v", .str "and")]),
    .create (.str "sets") (.obj [("logic", .str "~> 1.0")]) .null .null,
    .addVersion (.str "logic") (.str "1.0.0") (.obj [("g", .str "ref"), ("v", .str "or")]),
    .setDependencies (.str "sets") (.arr [.arr [.str "logic", .str ">= 1.0.0"]])]

theorem shortHistory_textual : ∀ op ∈ shortHistory, op.Textual := by
  have alone (requirement : String) : Fields.AreTexts [(.str "logic", .str requirement)] := by
    intro e member
    rw [List.mem_singleton.mp member]
    exact ⟨rfl, rfl⟩
  intro op member
  simp only [shortHistory, List.mem_cons, List.not_mem_nil, or_false] at member
  rcases member with rfl | rfl | rfl | rfl | rfl
  · exact ⟨fun entries read => Except.ok.inj read ▸ nofun, .inl rfl, .inr rfl⟩
  · trivial
  · exact ⟨fun entries read => Except.ok.inj read ▸ alone "~> 1.0", .inr rfl, .inr rfl⟩
  · trivial
  · exact fun entries read => Except.ok.inj read ▸ alone ">= 1.0.0"

theorem exported_loads_shortHistory :
    let store := performAll [] shortHistory
    (∀ op ∈ shortHistory, op.Textual) ∧ store.reverse.Perm store ∧
      store.map (fun e => (e.1, e.2.versions)) = [(.str "logic", ["1.0.0"]), (.str "sets", [])] ∧
      (ofDocument true (toDocument (Table.values store.reverse))).result = .ok store.reverse ∧
      ∀ name, Table.get? name store.reverse = Table.get? name store := by
  intro store
  have order : store.reverse.Perm store := List.reverse_perm store
  exact ⟨shortHistory_textual, order, rfl, exported_loads shortHistory shortHistory_textual _ order⟩

end Store

end ExprRegistry
