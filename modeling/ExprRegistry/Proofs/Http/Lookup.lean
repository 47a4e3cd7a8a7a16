import ExprRegistry.Http.Index
import ExprRegistry.Proofs.Http.Cache
import ExprRegistry.Proofs.Http.Percent
import ExprRegistry.Proofs.Http.Url
import ExprRegistry.Proofs.Json.Regular

/-!
How a lookup at a remote index can end. A request at an accepted address always has a reply, also where every
attempt failed, and a reply is read as a package, as none or as one of the declared errors, unless its body has an
integer of too many digits or its record holds something else than lists where versions and dependencies stand. A
name with a half of a character has no address at all. Main statement: `Index.declared_iff`.
-/

namespace ExprRegistry.Http

/-- A client that can carry out every request: there is a number of attempts, before each of them but the first
a pause that its clock takes, and a time to live. -/
structure Workable (s : Session) : Prop where
  attempts : ∃ count ps, attempts s.settings.retryMax = .ok count ∧
    pauses s.transport.clock s.settings.retryDelay (count - 1) = .ok ps
  ttl : s.settings.cacheTtl.number?.isSome = true

namespace Session

variable {s now : Session} {call : Call}

/-- Attempts always come to a reply where there is a pause for each of them. -/
theorem Retried.exists_reply {count : Nat} {ps : List Json} {answer : Except Unfit Reply}
    (tried : s.Retried call count now answer) (paused : pauses s.transport.clock s.settings.retryDelay (count - 1) = .ok ps) :
    ∃ r, answer = .ok r := by
  cases tried with
  | replied _ _ _ _ _ => exact ⟨_, rfl⟩
  | exhausted _ _ _ => exact ⟨_, rfl⟩
  | unpaused within _ _ _ failed =>
      obtain ⟨p, possible⟩ := pause_of_pauses paused (Nat.lt_sub_of_add_lt within)
      cases failed.symm.trans possible

theorem kept_eq_ok (timed : s.settings.cacheTtl.number?.isSome = true) (call : Call) :
    ∃ found, s.kept call = .ok found := by
  unfold kept
  split
  case isFalse => exact ⟨none, rfl⟩
  case isTrue =>
    split
    · exact ⟨none, rfl⟩
    · rename_i held _
      obtain ⟨fresh, computed⟩ := isFresh_of_number timed (s.clock.sub held.arrived)
      rw [computed]
      exact ⟨_, rfl⟩

theorem perform_eq_ok (workable : Workable s) (call : Call)
    (free : Table.has "timeout" call.extra = false) :
    ∃ r, (s.perform call).2 = .ok r := by
  obtain ⟨count, ps, counted, paused⟩ := workable.attempts
  obtain ⟨found, remembered⟩ := kept_eq_ok workable.ttl call
  cases found with
  | some r =>
      rw [perform_of_some remembered]
      exact ⟨r, rfl⟩
  | none => exact (perform_of_none remembered counted free).exists_reply paused

end Session

theorem get_eq_ok {s : Session} (workable : Workable s) {url : String}
    (accepted : (safe? url).isSome = true) (headers : Option HeaderMap) (useCache : Bool) :
    ∃ r, (get url (HeaderMap.toJson headers) useCache [] s).2 = .ok r := by
  let x : Exchange := ⟨url, headers, useCache, s⟩
  obtain ⟨r, replied⟩ := Session.perform_eq_ok workable x.call rfl
  exact ⟨r, (Exchange.performed (x := x) (Option.isSome_iff_ne_none.mp accepted)).2.trans replied⟩

/-- A reply whose body is read but has an integer of too many digits. -/
def Reply.Overlong (r : Reply) : Prop := r.status = 200 ∧ Json.Overlong r.body

/-- A reply is read unless its body has an integer of too many digits. -/
theorem getJson_cases {url : String} {headers : Json} {useCache : Bool} {extra : Table String Json}
    {s : Session} {r : Reply} (replied : (get url headers useCache extra s).2 = .ok r) :
    (r.Overlong ∧ (getJson url headers useCache extra s).2 = .error .value) ∨
      (¬ r.Overlong ∧ ∃ reply, (getJson url headers useCache extra s).2 = .ok reply) := by
  unfold getJson
  split
  case h_1 failed =>
    rw [failed] at replied
    cases replied
  case h_2 later found got =>
    rw [got] at replied
    cases replied
    split
    case isTrue loads =>
      rw [Bool.and_eq_true, beq_iff_eq] at loads
      cases read : Json.load r.body with
      | ok v =>
          exact .inr ⟨fun long => Json.not_overlong_of_load read long.2, _, rfl⟩
      | error e =>
          dsimp only
          split
          case isTrue digits => exact .inl ⟨⟨loads.1, e, read, digits⟩, rfl⟩
          case isFalse other =>
            refine .inr ⟨?_, _, rfl⟩
            rintro ⟨_, e', refused, digits⟩
            cases read.symm.trans refused
            exact other digits
    case isFalse skipped =>
      refine .inr ⟨?_, _, rfl⟩
      rintro ⟨status, e, refused, digits⟩
      -- An empty body is not read at all, and nothing in it is too long.
      rw [status, beq_self_eq_true, Bool.true_and, Bool.not_eq_true, Bool.not_eq_false', String.isEmpty_iff] at skipped
      rw [skipped] at refused
      cases refused
      cases digits

namespace Index

/-- The headers of a lookup. -/
def acceptsJson : Option HeaderMap :=
  some ⟨[("Accept", "application/json")], List.pairwise_singleton _ _⟩

theorem lookupHeaders_eq : lookupHeaders = HeaderMap.toJson acceptsJson := rfl

theorem packageUrl_accepted {index : Index} (accepted : (safe? index.base).isSome = true) (name : String) :
    (safe? (index.packageUrl name)).isSome = true :=
  safe?_isSome_append accepted (percentEncode name)

theorem packageUrl_injective (index : Index) : Function.Injective index.packageUrl := by
  intro name other same
  simp only [packageUrl, ← String.toList_inj, String.toList_append, List.append_cancel_left_eq] at same
  exact percentEncode_injective (String.toList_inj.mp same)

/-- The text under which the reply to a lookup is kept. -/
def lookupKey (index : Index) (name : String) : String :=
  cacheKey (index.packageUrl name) (HeaderMap.texts (HeaderMap.listed acceptsJson))

theorem lookupKey_injective (index : Index) : Function.Injective index.lookupKey := by
  intro name other same
  exact index.packageUrl_injective ((HeaderMap.cacheKey_eq_iff _ _ acceptsJson acceptsJson).mp same).1

/-- The reply that a lookup goes by. -/
def Replies (index : Index) (name : String) (s : Session) (reply : JsonReply) : Prop :=
  (getJson (index.packageUrl name) lookupHeaders index.useCache [] s).2 = .ok reply

/-- The reply that a lookup comes to has a body that cannot be loaded for the digits of an integer. -/
def Overlong (index : Index) (name : String) (s : Session) : Prop :=
  ∃ r, (get (index.packageUrl name) lookupHeaders index.useCache [] s).2 = .ok r ∧ r.Overlong

theorem reply_cases {index : Index} {s : Session} (accepted : (safe? index.base).isSome = true)
    (workable : Workable s) (name : String) :
    (index.Overlong name s ∧ (getJson (index.packageUrl name) lookupHeaders index.useCache [] s).2 = .error .value) ∨
      (¬ index.Overlong name s ∧ ∃ reply, index.Replies name s reply) := by
  obtain ⟨r, replied⟩ := get_eq_ok workable (packageUrl_accepted accepted name) acceptsJson index.useCache
  rw [← lookupHeaders_eq] at replied
  rcases getJson_cases replied with ⟨long, failed⟩ | ⟨short, read⟩
  · exact .inl ⟨⟨r, replied, long⟩, failed⟩
  · refine .inr ⟨?_, read⟩
    rintro ⟨other, same, long⟩
    cases replied.symm.trans same
    exact short long

theorem lookup_of_reply {index : Index} {name : String} {s : Session} {reply : JsonReply}
    (replied : index.Replies name s reply) : (index.lookup (.str name) s).2 = index.interpret name reply := by
  unfold Replies at replied
  rw [lookup, lookupText]
  split
  case h_1 failed =>
    rw [failed] at replied
    cases replied
  case h_2 found =>
    rw [found] at replied
    cases replied
    rfl

theorem lookup_of_failure {index : Index} {name : String} {s : Session} {how : Unfit}
    (failed : (getJson (index.packageUrl name) lookupHeaders index.useCache [] s).2 = .error how) :
    (index.lookup (.str name) s).2 = .error (.unfit how) := by
  rw [lookup, lookupText]
  split
  case h_1 found =>
    rw [found] at failed
    cases failed
    rfl
  case h_2 found =>
    rw [found] at failed
    cases failed

/-- A lookup may end with a package, without one, or with one of the errors that it declares. A value that
does not fit where it is used is none of them. -/
def Declared (answer : Except LookupError (Option Package)) : Prop := ∀ how, answer ≠ .error (.unfit how)

/-- The record in the reply that a lookup goes by: an object in the body of a reply with status 200. -/
def Receives (index : Index) (name : String) (s : Session) (fields : Fields) : Prop :=
  ∃ reply body, index.Replies name s reply ∧ reply.status = 200 ∧ reply.body = .obj body ∧
    recordOf body = .obj fields

/-- Whether the versions of a record can be run through and its dependencies are entries, where there are
any. -/
structure Readable (fields : Fields) : Prop where
  versions : ∃ items, (Json.fieldOrNull fields "versions").elementsIfGiven = .ok items
  dependencies : ∃ entries, (Json.fieldOrNull fields "dependencies").entriesIfGiven = .ok entries

theorem field?_withName (name : String) (fields : Fields) {key : String} (other : key ≠ "name") :
    Json.field? (withName name fields) key = Json.field? fields key := by
  unfold withName
  split
  · rfl
  · have apart : ((Scalar.str "name" : Scalar) == Scalar.str key) = false :=
      decide_eq_false fun same => other (Text.whole.inj (Scalar.str.inj same)).symm
    rw [Json.field?, List.concat_eq_append, Table.get?_append, Table.get?_cons, apart, Json.field?]
    exact Option.or_none

theorem hasField_withName (name : String) (fields : Fields) :
    ∃ v, Json.field? (withName name fields) "name" = some v := by
  unfold withName
  split
  case isTrue named => exact Json.hasField_iff.mp named
  case isFalse unnamed =>
    have absent : Table.get? (.str "name") fields = none := by
      rw [Json.hasField, Json.field?] at unnamed
      exact Option.not_isSome_iff_eq_none.mp unnamed
    rw [Json.field?, List.concat_eq_append, Table.get?_append, absent]
    exact ⟨.str name, rfl⟩

/-- A record that takes the name that was asked for is a package if it can be read, and does not fit otherwise. -/
theorem ofFields_withName (name : String) (fields : Fields) :
    (Readable fields ∧ ∃ package, Package.ofFields (withName name fields) = .ok package) ∨
      (¬Readable fields ∧ ∃ how, Package.ofFields (withName name fields) = .error (.unfit how)) := by
  obtain ⟨v, named⟩ := hasField_withName name fields
  have versions : Json.fieldOrNull (withName name fields) "versions" = Json.fieldOrNull fields "versions" :=
    congrArg (·.getD .null) (field?_withName name fields (by decide))
  have dependencies :
      Json.fieldOrNull (withName name fields) "dependencies" = Json.fieldOrNull fields "dependencies" :=
    congrArg (·.getD .null) (field?_withName name fields (by decide))
  rw [Package.ofFields, named, versions, dependencies]
  cases items : (Json.fieldOrNull fields "versions").elementsIfGiven with
  | error how =>
      refine .inr ⟨fun readable => ?_, how, rfl⟩
      obtain ⟨_, given⟩ := readable.versions
      cases items.symm.trans given
  | ok items' =>
      cases entries : (Json.fieldOrNull fields "dependencies").entriesIfGiven with
      | error how =>
          refine .inr ⟨fun readable => ?_, how, rfl⟩
          obtain ⟨_, given⟩ := readable.dependencies
          cases entries.symm.trans given
      | ok entries' => exact .inl ⟨⟨⟨items', items⟩, entries', entries⟩, _, rfl⟩

/-- Without status 200 no body is looked at. -/
theorem interpret_declared_of_status {index : Index} (accepted : (safe? index.base).isSome = true) (name : String)
    {reply : JsonReply} (other : reply.status ≠ 200) : Declared (index.interpret name reply) := by
  obtain ⟨shown, accepted⟩ := Option.isSome_iff_exists.mp accepted
  unfold interpret
  split
  · nofun
  · split
    · rw [accepted]
      nofun
    · rw [if_pos (bne_iff_ne.mpr other)]
      nofun

/-- A reply is read in a declared way unless it holds a record that cannot be read. -/
theorem interpret_declared_iff {index : Index} (accepted : (safe? index.base).isSome = true) (name : String)
    (reply : JsonReply) :
    Declared (index.interpret name reply) ↔
      ∀ body fields, reply.status = 200 → reply.body = .obj body → recordOf body = .obj fields →
        Readable fields := by
  by_cases status : reply.status = 200
  case neg =>
    exact ⟨fun _ _ _ same => absurd same status, fun _ => interpret_declared_of_status accepted name status⟩
  unfold interpret
  rw [status, if_neg (by decide), if_neg (by decide), if_neg (by decide)]
  split
  case h_2 noObject =>
    constructor
    · intro _ body _ _ object
      exact absurd object (noObject body)
    · intro _ how same
      cases same
  case h_1 body object =>
    split
    case h_2 noRecord =>
      constructor
      · intro _ other fields _ same record
        cases object.symm.trans same
        exact absurd record (noRecord fields)
      · intro _ how same
        cases same
    case h_1 fields record =>
      have only : (∀ other more, reply.status = 200 → reply.body = .obj other → recordOf other = .obj more →
          Readable more) ↔ Readable fields := by
        constructor
        · intro all
          exact all body fields status object record
        · intro readable other more _ same found
          cases object.symm.trans same
          cases record.symm.trans found
          exact readable
      rw [status] at only
      rw [only]
      rcases ofFields_withName name fields with ⟨readable, package, built⟩ | ⟨unreadable, how, failed⟩
      · rw [built]
        refine ⟨fun _ => readable, fun _ how same => ?_⟩
        cases same
      · rw [failed]
        exact ⟨fun declared => absurd rfl (declared how), fun readable => absurd readable unreadable⟩

theorem declared_str_iff {index : Index} {s : Session} (accepted : (safe? index.base).isSome = true)
    (workable : Workable s) (name : String) :
    Declared (index.lookup (.str name) s).2 ↔
      ¬ index.Overlong name s ∧ ∀ fields, index.Receives name s fields → Readable fields := by
  rcases reply_cases accepted workable name with ⟨long, failed⟩ | ⟨short, reply, replied⟩
  · rw [lookup_of_failure failed]
    exact ⟨fun declared => absurd rfl (declared .value), fun none => absurd long none.1⟩
  · rw [lookup_of_reply replied, interpret_declared_iff accepted]
    constructor
    · intro readable
      refine ⟨short, ?_⟩
      rintro fields ⟨other, body, same, status, object, record⟩
      cases replied.symm.trans same
      exact readable body fields status object record
    · rintro ⟨_, readable⟩ body fields status object record
      exact readable fields ⟨reply, body, replied, status, object, record⟩

/-- A lookup ends in a declared way exactly when the name is whole, no integer in the body that it comes to has too
many digits, and the record that it receives, if it receives one, can be read. -/
theorem declared_iff {index : Index} {s : Session} (accepted : (safe? index.base).isSome = true)
    (workable : Workable s) (name : Text) :
    Declared (index.lookup (.text name) s).2 ↔
      ∃ text, name = .whole text ∧ ¬ index.Overlong text s ∧
        ∀ fields, index.Receives text s fields → Readable fields := by
  cases name with
  | whole text =>
      rw [declared_str_iff accepted workable text]
      constructor
      · rintro ⟨short, readable⟩
        exact ⟨text, rfl, short, readable⟩
      · rintro ⟨_, same, short, readable⟩
        cases same
        exact ⟨short, readable⟩
  | torn front half rest =>
      constructor
      · intro declared
        exact absurd rfl (declared .encoding)
      · rintro ⟨_, same, _⟩
        cases same

/-- A client of the default settings whose transport replies once. -/
def repliedOnce (body : String) : Session := Session.start {} (.ofScript [.reply ⟨200, [], body⟩])

def localhost : Index := ⟨"http://localhost:4000/api/v1", true⟩

theorem workable_repliedOnce (body : String) : Workable (repliedOnce body) := by
  have paused : pauses .system (Settings.retryDelay {}) (3 - 1) =
      .ok [.float (Double.ofDecimal false 3 (-1)), .float (Double.ofDecimal false 6 (-1))] := by decide +kernel
  exact ⟨⟨3, _, rfl, paused⟩, rfl⟩

/-- A record whose versions are null is read. -/
theorem declared_of_null_versions :
    let s := repliedOnce "\x7b\"data\": \x7b\"versions\": null\x7d\x7d"
    (safe? localhost.base).isSome = true ∧ Workable s ∧
      Declared (localhost.lookup (.str "a") s).2 := by
  intro s
  have accepted : (safe? localhost.base).isSome = true := by decide +kernel
  refine ⟨accepted, workable_repliedOnce _, (declared_iff accepted (workable_repliedOnce _) "a").mpr ⟨"a", rfl, ?_⟩⟩
  have bodies : (getJson (localhost.packageUrl "a") lookupHeaders localhost.useCache [] s).2.map (·.body) =
      .ok (.obj [("data", .obj [("versions", .null)])]) := by decide +kernel
  constructor
  · rintro ⟨r, replied, long⟩
    rcases getJson_cases replied with ⟨_, failed⟩ | ⟨short, _⟩
    · rw [failed] at bodies
      cases bodies
    · exact short long
  rintro fields ⟨reply, body, replied, _, object, record⟩
  rw [replied, Except.map, object] at bodies
  cases bodies
  cases record
  exact ⟨⟨_, rfl⟩, _, rfl⟩

/-- A number where the versions stand ends a lookup in a way that is not declared. -/
theorem not_declared_of_number :
    let s := repliedOnce "\x7b\"data\": \x7b\"name\": \"a\", \"versions\": 5\x7d\x7d"
    (safe? localhost.base).isSome = true ∧ Workable s ∧
      (localhost.lookup (.str "a") s).2 = .error (.unfit .kind) ∧
      ¬Declared (localhost.lookup (.str "a") s).2 := by
  intro s
  have failed : (localhost.lookup (.str "a") s).2 = .error (.unfit .kind) := by decide +kernel
  exact ⟨by decide +kernel, workable_repliedOnce _, failed, fun declared => declared .kind failed⟩

end Index

/-! ### Visits -/

/-- What a client of an index does: it looks a package up, with or without the cache, or it waits. -/
inductive Visit where
  | lookup (name : Text) (useCache : Bool)
  | wait (seconds : Json)

namespace Session

/-- The client after a visit at a base address, and what its look-up came to. A wait for what is no number of
seconds is refused. -/
def visit (base : String) (s : Session) : Visit → Session × Option (Except LookupError (Option Package))
  | .lookup name useCache =>
    let found := Index.lookup ⟨base, useCache⟩ (.text name) s
    (found.1, some found.2)
  | .wait seconds =>
    match s.advance seconds with
    | .ok later => (later, none)
    | .error _ => (s, none)

/-- The client after some visits, and what their look-ups came to. -/
def visitAll (base : String) (s : Session) : List Visit → Session × List (Except LookupError (Option Package))
  | [] => (s, [])
  | v :: visits =>
    let first := s.visit base v
    let later := first.1.visitAll base visits
    (later.1, first.2.toList ++ later.2)

theorem advance_eq {s later : Session} {seconds : Json} (h : s.advance seconds = .ok later) :
    ∃ clock, later = { s with clock := clock } := by
  unfold advance at h
  split at h
  · dsimp only at h
    split at h
    · cases h
      exact ⟨_, rfl⟩
    · cases h
  · cases h
    exact ⟨_, rfl⟩
  · cases h

end Session

end ExprRegistry.Http
