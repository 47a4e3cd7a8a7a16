import ExprRegistry.Proofs.Expr.Reading
import ExprRegistry.Proofs.Http.Lookup
import ExprRegistry.Proofs.Resolve.Outcome
import ExprRegistry.Proofs.Store.Export

/-!
A server that publishes the packages of a table. Each stands at its address in the record that it is written as,
and there is nothing elsewhere. What is kept of the replies of such a server is what it would reply again, so
look-ups find the packages of the table whatever was looked up before. Main statement: `Index.agrees`, also for
resolutions and trees.
-/

namespace ExprRegistry.Http

/-- A reply that gives what there is under a name: the record of a package, or none. -/
def Reply.Gives (r : Reply) : Option Package → Prop
  | some p => r.status = 200 ∧ Json.load r.body = .ok (.obj [("data", p.toJson)])
  | none => r.status = 404

/-- A transport behind which the packages of a table stand at their addresses, and nothing elsewhere. Whatever
it was sent before, it goes by the address of the last request. -/
structure Transport.Publishes (t : Transport) (index : Index) (packages : Table Scalar Package) : Prop where
  stored : ∀ (name : String) p, packages.get? (.str name) = some p → ∀ sent q, q.url = index.packageUrl name →
    ∃ r, t.outcome (sent ++ [q]) = .reply r ∧ r.Gives (some p)
  elsewhere : ∀ sent q, (∀ (name : String) p, packages.get? (.str name) = some p → q.url ≠ index.packageUrl name) →
    ∃ r, t.outcome (sent ++ [q]) = .reply r ∧ r.Gives none
  reach : packages.length ≤ t.reach

/-- A client of such a server that makes at least one attempt, and keeps nothing else than its replies. -/
structure Session.Mirrors (s : Session) (index : Index) (packages : Table Scalar Package) : Prop where
  publishes : s.transport.Publishes index packages
  allowed : ∃ more, attempts s.settings.retryMax = .ok (more + 1)
  timed : s.settings.cacheTtl.number?.isSome = true
  kept : ∀ (name : String) held, s.cache.get? (index.lookupKey name) = some held →
    held.reply.Gives (packages.get? (.str name))

variable {index : Index} {packages : Table Scalar Package} {s now : Session} {name : String}

theorem Transport.Publishes.reply {t : Transport} (h : t.Publishes index packages) (name : String)
    (sent : List Request) {q : Request} (address : q.url = index.packageUrl name) :
    ∃ r, t.outcome (sent ++ [q]) = .reply r ∧ r.Gives (packages.get? (.str name)) := by
  cases found : packages.get? (.str name) with
  | some p => exact h.stored name p found sent q address
  | none =>
      refine h.elsewhere sent q fun other p stored same => ?_
      rw [← index.packageUrl_injective (address.symm.trans same), found] at stored
      cases stored

namespace Session

/-- A remembered reply is one that is kept. -/
theorem get?_of_kept {call : Call} {r : Reply} (remembered : s.kept call = .ok (some r)) :
    ∃ held, s.cache.get? (cacheKey call.url call.headers) = some held ∧ held.reply = r := by
  unfold kept at remembered
  split at remembered
  case isFalse => cases remembered
  case isTrue =>
    split at remembered
    case h_1 => cases remembered
    case h_2 held found =>
      refine ⟨held, found, ?_⟩
      cases fresh : isFresh (s.clock.sub held.arrived) s.settings.cacheTtl with
      | error how =>
          rw [fresh] at remembered
          cases remembered
      | ok young =>
          rw [fresh] at remembered
          cases young with
          | true =>
              cases remembered
              rfl
          | false => cases remembered

namespace Mirrors

/-- The call of a look-up. -/
def exchange (index : Index) (name : String) (s : Session) : Exchange :=
  ⟨index.packageUrl name, Index.acceptsJson, index.useCache, s⟩

theorem frame (m : s.Mirrors index packages) (settings : now.settings = s.settings)
    (transport : now.transport = s.transport) (cache : now.cache = s.cache) : now.Mirrors index packages := by
  refine ⟨transport ▸ m.publishes, settings ▸ m.allowed, settings ▸ m.timed, ?_⟩
  rw [cache]
  exact m.kept

/-- Each attempt of a look-up is replied to with what there is under the name. -/
theorem outcomeOf (m : s.Mirrors index packages) (name : String) (earlier : Nat) :
    ∃ r, s.outcomeOf (s.requestOf (exchange index name s).call) (earlier + 1) = .reply r ∧
      r.Gives (packages.get? (.str name)) := by
  rw [Session.outcomeOf, List.replicate_succ', ← List.append_assoc]
  exact m.publishes.reply name _ rfl

theorem of_cacheAfter {r : Reply} (m : s.Mirrors index packages) (gives : r.Gives (packages.get? (.str name)))
    (settings : now.settings = s.settings) (transport : now.transport = s.transport)
    (cache : now.cache = s.cacheAfter (exchange index name s).call r) : now.Mirrors index packages := by
  unfold cacheAfter at cache
  split at cache
  case isFalse => exact m.frame settings transport cache
  case isTrue =>
    refine ⟨transport ▸ m.publishes, settings ▸ m.allowed, settings ▸ m.timed, fun other held found => ?_⟩
    rw [cache, Table.get?_put] at found
    split at found
    case isTrue same =>
      cases index.lookupKey_injective (beq_iff_eq.mp same)
      cases found
      exact gives
    case isFalse => exact m.kept other held found

/-- A call of a look-up comes to what there is under the name, from the cache or by the first attempt. -/
theorem perform (m : s.Mirrors index packages) (name : String) :
    ∃ r, (s.perform (exchange index name s).call).2 = .ok r ∧ r.Gives (packages.get? (.str name)) ∧
      (s.perform (exchange index name s).call).1.Mirrors index packages := by
  obtain ⟨found, remembered⟩ := kept_eq_ok m.timed (exchange index name s).call
  cases found with
  | some r =>
      obtain ⟨held, found, rfl⟩ := get?_of_kept remembered
      rw [perform_of_some remembered]
      exact ⟨held.reply, rfl, m.kept name held found, m.frame rfl rfl rfl⟩
  | none =>
      obtain ⟨more, counted⟩ := m.allowed
      have tried := perform_of_none remembered counted rfl
      obtain ⟨r, first, _⟩ := m.outcomeOf name 0
      generalize (s.perform (exchange index name s).call).2 = answer at tried
      cases tried with
      | @replied earlier r _ _ reply made cache =>
          obtain ⟨r', same, gives⟩ := m.outcomeOf name earlier
          cases reply.symm.trans same
          exact ⟨r, rfl, gives, m.of_cacheAfter gives made.settings made.transport cache⟩
      | exhausted silent _ _ => exact absurd first (silent 0 (Nat.succ_pos _) r)
      | unpaused _ silent _ _ _ => exact absurd first (silent 0 (Nat.succ_pos _) r)

end Mirrors

end Session

/-- Beside what its request does, reading a reply only logs. -/
theorem getJson_state (url : String) (headers : Json) (useCache : Bool) (extra : Table String Json) (s : Session) :
    ∃ log, (getJson url headers useCache extra s).1 =
      { (get url headers useCache extra s).1 with log := log } := by
  unfold getJson
  split
  case h_1 after how failed => exact ⟨after.log, by rw [failed]⟩
  case h_2 after r replied =>
    rw [replied]
    split
    · split
      · exact ⟨after.log, rfl⟩
      · split
        · exact ⟨after.log, rfl⟩
        · exact ⟨_, rfl⟩
    · exact ⟨after.log, rfl⟩

namespace Index

theorem lookup_state (index : Index) (name : String) (s : Session) :
    ∃ log, (index.lookup (.str name) s).1 =
      { (get (index.packageUrl name) lookupHeaders index.useCache [] s).1 with log := log } := by
  obtain ⟨log, state⟩ := getJson_state (index.packageUrl name) lookupHeaders index.useCache [] s
  rw [lookup, lookupText]
  split
  case h_1 failed =>
    rw [failed] at state
    exact ⟨log, state⟩
  case h_2 replied =>
    rw [replied] at state
    cases state
    exact ⟨_, rfl⟩

theorem interpret_record (index : Index) (name : String) (headers : Table String Json) (p : Package) :
    index.interpret name ⟨200, headers, .obj [("data", p.toJson)]⟩ = .ok (some p) := by
  have read : Package.ofFields (withName name p.record) = .ok p := Package.ofJson_toJson p
  have record : recordOf [("data", p.toJson)] = .obj p.record := rfl
  unfold interpret
  simp only [record, read]
  rfl

theorem interpret_missing (index : Index) (name : String) (headers : Table String Json) (body : Json) :
    index.interpret name ⟨404, headers, body⟩ = .ok none := rfl

/-- A reply that gives what there is under a name is read as that. -/
theorem lookup_of_gives {r : Reply} {found : Option Package}
    (replied : (get (index.packageUrl name) lookupHeaders index.useCache [] s).2 = .ok r)
    (gives : r.Gives found) : (index.lookup (.str name) s).2 = .ok found := by
  have got : get (index.packageUrl name) lookupHeaders index.useCache [] s =
      ((get (index.packageUrl name) lookupHeaders index.useCache [] s).1, .ok r) := Prod.ext rfl replied
  rw [lookup, lookupText, getJson, got]
  cases found with
  | none =>
      have status : r.status = 404 := gives
      simp only [status]
      exact index.interpret_missing name r.headers .null
  | some p =>
      obtain ⟨status, read⟩ := gives
      have given : r.body.isEmpty = false := by
        refine eq_false_of_ne_true fun empty => ?_
        rw [String.isEmpty_iff.mp empty] at read
        cases read
      simp only [status, given, read]
      exact index.interpret_record name r.headers p

/-- A look-up finds the package of the table, and leaves the client such that the next one does too. -/
theorem lookup_mirrored (accepted : (safe? index.base).isSome = true) (m : s.Mirrors index packages)
    (name : String) :
    (index.lookup (.str name) s).2 = .ok (packages.get? (.str name)) ∧
      (index.lookup (.str name) s).1.Mirrors index packages := by
  obtain ⟨r, performed, gives, mirrors⟩ := m.perform name
  have url := Option.isSome_iff_ne_none.mp (packageUrl_accepted accepted name)
  obtain ⟨after, answer⟩ := Exchange.performed (x := Session.Mirrors.exchange index name s) url
  refine ⟨lookup_of_gives (answer.trans performed) gives, ?_⟩
  obtain ⟨log, state⟩ := index.lookup_state name s
  rw [state]
  exact (after ▸ mirrors : Session.Mirrors (Exchange.after _) index packages).frame rfl rfl rfl

end Index

/-! ### Whatever was done before -/

namespace Session.Mirrors

theorem withUseCache (m : s.Mirrors index packages) (useCache : Bool) :
    s.Mirrors { index with useCache := useCache } packages :=
  ⟨⟨m.publishes.stored, m.publishes.elsewhere, m.publishes.reach⟩, m.allowed, m.timed, m.kept⟩

theorem visit (accepted : (safe? index.base).isSome = true) (m : s.Mirrors index packages) (v : Visit) :
    (s.visit index.base v).1.Mirrors index packages := by
  cases v with
  | lookup name useCache =>
      cases name with
      | whole name =>
          have shown : (safe? (Index.mk index.base useCache).base).isSome = true := accepted
          have found := Index.lookup_mirrored shown (m.withUseCache useCache) name
          exact found.2.withUseCache index.useCache
      | torn _ _ _ => exact m
  | wait seconds =>
      rw [Session.visit]
      split
      case h_1 later waited =>
        obtain ⟨clock, rfl⟩ := advance_eq waited
        exact m.frame rfl rfl rfl
      case h_2 => exact m

theorem visitAll (accepted : (safe? index.base).isSome = true) (m : s.Mirrors index packages)
    (visits : List Visit) : (s.visitAll index.base visits).1.Mirrors index packages := by
  induction visits generalizing s with
  | nil => exact m
  | cons v visits ih => exact ih (m.visit accepted v)

end Session.Mirrors

/-! ### Resolving with either -/

/-- A table whose packages stand under their names, which are texts, and depend on whole texts only. -/
structure Named (packages : Table Scalar Package) : Prop where
  named : ∀ e ∈ packages, e.1.isText = true ∧ e.2.name = .scalar e.1
  declared : ∀ e ∈ packages, ∀ d ∈ e.2.dependencies, d.1.isString = true

/-- Every package that is found depends on whole texts. -/
theorem Named.spelled (h : Named packages) {n : Scalar} {package : Package}
    (found : Lookup.ofTable packages n = some package) : ∀ d ∈ package.dependencies, d.1.isString = true := by
  obtain ⟨k, member, _⟩ := Table.mem_of_get? found
  exact h.declared _ member

theorem Named.textual (h : Named packages) : (Lookup.ofTable packages).Textual := by
  intro n package found e member
  exact (Scalar.isString_iff.mp (h.spelled found e member)).1

theorem Named.constant (h : Named packages) : Source.ofTable.Constant packages (Lookup.ofTable packages) :=
  Source.ofTable_constant fun e member => (h.named e member).2

/-- The source that answers from a table, with another bound. -/
def tableWithin (bound : Nat) : Source (Table Scalar Package) := { Source.ofTable with bound := fun _ => bound }

theorem Named.constant_within (h : Named packages) (bound : Nat) :
    (tableWithin bound).Constant packages (Lookup.ofTable packages) := ⟨h.constant.toByName, h.constant.answers⟩

theorem finite_within {bound : Nat} (room : packages.length ≤ bound) :
    (tableWithin bound).Finite packages (Lookup.ofTable packages) :=
  fun names simple => (Lookup.ofTable_atMost packages names simple).trans room

/-- Asked for whole texts the remote index answers as the table does. -/
theorem Index.source_simulates (accepted : (safe? index.base).isSome = true) (h : Named packages) (bound : Nat) :
    index.source.SimulatesOn (tableWithin bound) (fun v => ∃ text : String, v = .str text)
      (fun s t => s.Mirrors index packages ∧ t = packages) := by
  refine ⟨?_, ?_, ?_⟩
  · rintro s t ⟨m, rfl⟩ name ⟨text, rfl⟩
    have found := (lookup_mirrored accepted (m.frame rfl rfl rfl : Session.Mirrors { s with log := [] } _ _) text).1
    change Lookup.Resembling (index.lookup (.str text) { s with log := [] }).2 (.ok (t.get? (.str text)))
    rw [found]
    exact .refl _
  · rintro s t ⟨m, rfl⟩ name ⟨text, rfl⟩
    have found := (lookup_mirrored accepted (m.frame rfl rfl rfl : Session.Mirrors { s with log := [] } _ _) text).2
    exact ⟨found.frame rfl rfl rfl, rfl⟩
  · rintro s t ⟨m, rfl⟩ name ⟨text, rfl⟩ q found e member
    obtain ⟨word, same⟩ := Scalar.exists_of_isString (h.spelled (Except.ok.inj found) e member)
    exact ⟨word, congrArg Json.scalar same⟩

/-- Looking up and resolving against the remote index comes to what it comes to against the table, except for names
that are not whole: they have no address. -/
structure Index.Agrees (index : Index) (packages : Table Scalar Package) (s : Session) : Prop where
  lookup : ∀ name : Text, (index.lookup (.text name) s).2 = .ok (packages.get? (.str name)) ↔ name.isWhole = true
  resolve : ∀ root : String, SameResolution (resolve index.source (.str root) s)
    (resolve Source.ofTable (.str root) packages)
  resolveRequirements : ∀ requirements : Fields, (∀ e ∈ requirements, e.1.isString = true) →
    SameResolution (resolveRequirements index.source requirements s)
      (resolveRequirements Source.ofTable requirements packages)
  dependencyTree : ∀ root : String, SameResolution (dependencyTree index.source (.str root) s)
    (dependencyTree Source.ofTable (.str root) packages)

/-- A look-up comes to what the table holds exactly when the name is whole. -/
theorem Index.lookup_agrees_iff (accepted : (safe? index.base).isSome = true) (m : s.Mirrors index packages)
    (name : Text) :
    (index.lookup (.text name) s).2 = .ok (packages.get? (.str name)) ↔ name.isWhole = true := by
  cases name with
  | whole name => exact iff_of_true (lookup_mirrored accepted m name).1 rfl
  | torn front half rest =>
      refine iff_of_false ?_ Bool.false_ne_true
      intro found
      cases found

theorem Index.agrees_of_mirrors (accepted : (safe? index.base).isSome = true) (h : Named packages)
    (m : s.Mirrors index packages) : index.Agrees packages s := by
  have room : packages.length ≤ index.source.bound s := m.publishes.reach.trans (Nat.le_add_left _ _)
  have sim := source_simulates accepted h (index.source.bound s)
  have alike := h.constant_within (index.source.bound s)
  have finite := Source.ofTable_finite packages
  refine ⟨fun name => ?_, fun root => ?_, fun requirements whole => ?_, fun root => ?_⟩
  · exact lookup_agrees_iff accepted m name
  · have ends := sim.resolve_ends ⟨m, rfl⟩ rfl ⟨root, rfl⟩
    exact ends.same.trans (alike.resolve_same (finite_within room) h.constant finite (.str root))
  · have asked : ∀ e ∈ requirements, ∃ text : String, Json.scalar e.1 = .str text := by
      intro e member
      obtain ⟨word, same⟩ := Scalar.exists_of_isString (whole e member)
      exact ⟨word, congrArg Json.scalar same⟩
    have ends := sim.resolveRequirements_ends ⟨m, rfl⟩ rfl asked
    exact ends.same.trans (alike.resolveRequirements_same (finite_within room) h.constant finite requirements)
  · have ends := sim.dependencyTree_ends ⟨m, rfl⟩ rfl ⟨root, rfl⟩
    exact ends.same.trans (alike.dependencyTree_same (finite_within room) h.constant finite h.textual root)

/-- A client of a server that publishes the packages of a table looks up and resolves what the table holds, with
or without the cache, whatever it has looked up before and however long it waited. -/
theorem Index.agrees (accepted : (safe? index.base).isSome = true) (h : Named packages)
    (publishes : s.transport.Publishes index packages) (empty : s.cache = [])
    (allowed : ∃ more, attempts s.settings.retryMax = .ok (more + 1))
    (timed : s.settings.cacheTtl.number?.isSome = true) (visits : List Visit) :
    index.Agrees packages (s.visitAll index.base visits).1 := by
  have fresh : s.Mirrors index packages := by
    refine ⟨publishes, allowed, timed, fun name held found => ?_⟩
    rw [empty] at found
    cases found
  exact agrees_of_mirrors accepted h (fresh.visitAll accepted visits)

/-- A package and the one that it depends on. -/
def pair : Table Scalar Package :=
  [Package.ofTexts "app" [("base", ">= 1.0.0")] ["1.0.0"], Package.ofTexts "base" [] ["1.2.0"]]

def appBody : String :=
  "\x7b\"data\":\x7b\"name\":\"app\",\"title\":null,\"description\":null," ++
    "\"dependencies\":\x7b\"base\":\">= 1.0.0\"\x7d," ++
    "\"versions\":[\x7b\"version\":\"1.0.0\",\"expression_data\":null,\"checksum\":null\x7d]\x7d\x7d"

def baseBody : String :=
  "\x7b\"data\":\x7b\"name\":\"base\",\"title\":null,\"description\":null,\"dependencies\":\x7b\x7d," ++
    "\"versions\":[\x7b\"version\":\"1.2.0\",\"expression_data\":null,\"checksum\":null\x7d]\x7d\x7d"

/-- What stands at an address of a server of the pair. -/
def pairOutcome (url : String) : Outcome :=
  if url = Index.localhost.packageUrl "app" then .reply ⟨200, [], appBody⟩
  else if url = Index.localhost.packageUrl "base" then .reply ⟨200, [], baseBody⟩
  else .reply ⟨404, [], ""⟩

theorem ofServer_outcome (server : String → Outcome) (reach : Nat) (sent : List Request) (q : Request) :
    (Transport.ofServer server reach).outcome (sent ++ [q]) = server q.url := by
  simp only [Transport.ofServer, List.getLast?_concat]
  rfl

theorem pair_publishes : (Transport.ofServer pairOutcome 2).Publishes .localhost pair := by
  refine ⟨?_, ?_, Nat.le_refl 2⟩
  · intro name p found sent q address
    rw [ofServer_outcome, address]
    obtain ⟨k, member, same⟩ := Table.mem_of_get? found
    cases Scalar.eq_str_of_same same
    rcases List.mem_pair.mp member with here | here
    · cases here
      exact ⟨⟨200, [], appBody⟩, if_pos rfl, rfl, eq_ok_of_toOption (by decide +kernel)⟩
    · cases here
      exact ⟨⟨200, [], baseBody⟩, by decide +kernel, rfl, eq_ok_of_toOption (by decide +kernel)⟩
  · intro sent q other
    rw [ofServer_outcome, pairOutcome, if_neg (other "app" _ rfl), if_neg (other "base" _ rfl)]
    exact ⟨_, rfl, rfl⟩

theorem Index.agrees_pair :
    Named pair ∧ (Transport.ofServer pairOutcome 2).Publishes .localhost pair ∧
      Index.localhost.Agrees pair ((Session.start {} (.ofServer pairOutcome 2)).visitAll Index.localhost.base
        [.lookup "app" true, .wait (.int 10), .lookup "gone" false]).1 := by
  have named : Named pair := ⟨by decide, by decide⟩
  exact ⟨named, pair_publishes, agrees (by decide +kernel) named pair_publishes rfl ⟨2, rfl⟩ rfl _⟩

/-- The pair holds nothing under a half of a character, and a look-up of it at a server of the pair fails; so does any
look-up of a client that may make no attempt. -/
theorem Index.unaddressed_pair :
    let s := Session.start {} (.ofServer pairOutcome 2)
    let idle := Session.start { retryMax := .int 0 } (.ofServer pairOutcome 2)
    Named pair ∧ s.transport.Publishes .localhost pair ∧
      (pair.get? (.str (.torn "" 0 "")) = none ∧
        (Index.localhost.lookup (.text (.torn "" 0 "")) s).2 = .error (.unfit .encoding)) ∧
      (pair.get? (.str "app")).isSome = true ∧
        (Index.localhost.lookup (.str "app") idle).2 = .error (.unreachable "http://localhost:4000/api/v1") := by
  intro s idle
  exact ⟨⟨by decide, by decide⟩, pair_publishes, ⟨by decide, rfl⟩, by decide, by decide +kernel⟩

end ExprRegistry.Http
