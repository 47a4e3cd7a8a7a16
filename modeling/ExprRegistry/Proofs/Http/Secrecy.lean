import ExprRegistry.Proofs.Http.Disguise
import ExprRegistry.Proofs.Http.Lookup

/-!
What the log and the errors of look-ups tell of the base address: no more than the form of it that may be shown.
Two clients whose transports follow the same script and whose base addresses are shown alike take the same steps,
so they log the same and come to the same. Main statement: `credentials_hidden`.
-/

namespace ExprRegistry.Http

namespace Session

/-- Two clients at different base addresses that have done and kept the same. -/
structure Twins (a b : String) (s t : Session) : Prop where
  settings : s.settings = t.settings
  transport : ∃ script, s.transport = .ofScript script ∧ t.transport = .ofScript script
  clock : s.clock = t.clock
  log : s.log = t.log
  requests : s.requests.length = t.requests.length
  cache : ∀ name, s.cache.get? (Index.lookupKey ⟨a, true⟩ name) = t.cache.get? (Index.lookupKey ⟨b, true⟩ name)

/-- Twins that have come to the same. -/
structure Agree {α : Type} (a b : String) (x y : Session × α) : Prop where
  twins : Twins a b x.1 y.1
  result : x.2 = y.2

theorem Agree.exists {α : Type} {a b : String} {x y : Session × α} (h : Agree a b x y) :
    ∃ s t result, Twins a b s t ∧ x = (s, result) ∧ y = (t, result) :=
  ⟨x.1, y.1, x.2, h.twins, rfl, Prod.ext rfl h.result.symm⟩

/-- The call of a look-up, with the form of its address that is shown. -/
def lookupCall (base name : String) (useCache : Bool) (target : String) : Call :=
  ⟨Index.packageUrl ⟨base, useCache⟩ name, HeaderMap.texts (HeaderMap.listed Index.acceptsJson), useCache, [],
    target⟩

variable {a b : String} {s t : Session}

@[simp] theorem lookupCall_target (base name : String) (useCache : Bool) (target : String) :
    (lookupCall base name useCache target).target = target := rfl

@[simp] theorem lookupCall_extra (base name : String) (useCache : Bool) (target : String) :
    (lookupCall base name useCache target).extra = [] := rfl

@[simp] theorem lookupCall_useCache (base name : String) (useCache : Bool) (target : String) :
    (lookupCall base name useCache target).useCache = useCache := rfl

@[simp] theorem cacheKey_lookupCall (base name : String) (useCache : Bool) (target : String) :
    cacheKey (lookupCall base name useCache target).url (lookupCall base name useCache target).headers =
      Index.lookupKey ⟨base, true⟩ name := rfl

namespace Twins

theorem start (a b : String) (settings : Settings) (script : List Outcome) :
    Twins a b (Session.start settings (.ofScript script)) (Session.start settings (.ofScript script)) :=
  ⟨rfl, ⟨script, rfl, rfl⟩, rfl, rfl, rfl, fun _ => rfl⟩

theorem note (h : Twins a b s t) (r : Record) : Twins a b (s.note r) (t.note r) :=
  ⟨h.settings, h.transport, h.clock, congrArg (· ++ [r]) h.log, h.requests, h.cache⟩

theorem same_transport (h : Twins a b s t) : s.transport = t.transport := by
  obtain ⟨script, first, second⟩ := h.transport
  exact first.trans second.symm

theorem rest (h : Twins a b s t) (index : Nat) :
    (∃ how, s.rest index = .error how ∧ t.rest index = .error how) ∨
      ∃ later later', s.rest index = .ok later ∧ t.rest index = .ok later' ∧ Twins a b later later' := by
  cases index with
  | zero => exact .inr ⟨s, t, rfl, rfl, h⟩
  | succ earlier =>
      have paused : pause t.transport.clock t.settings.retryDelay earlier =
          pause s.transport.clock s.settings.retryDelay earlier := by rw [h.settings, h.same_transport]
      rw [Session.rest, Session.rest, paused]
      cases pause s.transport.clock s.settings.retryDelay earlier with
      | error how => exact .inl ⟨how, rfl, rfl⟩
      | ok p => exact .inr ⟨_, _, rfl, rfl, ⟨h.settings, h.transport, h.clock, h.log, h.requests, h.cache⟩⟩

theorem advance (h : Twins a b s t) (seconds : Json) :
    (∃ how, s.advance seconds = .error how ∧ t.advance seconds = .error how) ∨
      ∃ later later', s.advance seconds = .ok later ∧ t.advance seconds = .ok later' ∧ Twins a b later later' := by
  have moved (x : Double) : Twins a b { s with clock := s.clock.add x } { t with clock := t.clock.add x } :=
    ⟨h.settings, h.transport, congrArg (Double.add · x) h.clock, h.log, h.requests, h.cache⟩
  unfold Session.advance
  rcases seconds.number? with _ | n | x
  · exact .inl ⟨_, rfl, rfl⟩
  · dsimp only
    split
    · exact .inr ⟨_, _, rfl, rfl, moved (Double.ofInt n)⟩
    · exact .inl ⟨_, rfl, rfl⟩
  · exact .inr ⟨_, _, rfl, rfl, moved x⟩

/-- The script does not look at what it is sent. -/
theorem send (h : Twins a b s t) (name : String) (useCache : Bool) (target : String) :
    ∃ next next' outcome, Twins a b next next' ∧
      s.send (lookupCall a name useCache target).url (lookupCall a name useCache target).headers [] =
        (next, outcome) ∧
      t.send (lookupCall b name useCache target).url (lookupCall b name useCache target).headers [] =
        (next', outcome) := by
  obtain ⟨script, first, second⟩ := h.transport
  let call := lookupCall a name useCache target
  let call' := lookupCall b name useCache target
  have same : (t.send call'.url call'.headers []).2 = (s.send call.url call.headers []).2 := by
    simp only [Session.send, first, second, Transport.ofScript, List.length_append, List.length_singleton,
      h.requests]
  have requests : (s.requests ++ [s.requestOf call]).length = (t.requests ++ [t.requestOf call']).length := by
    simp only [List.length_append, List.length_singleton, h.requests]
  exact ⟨(s.send call.url call.headers []).1, (t.send call'.url call'.headers []).1, _,
    ⟨h.settings, h.transport, h.clock, h.log, requests, h.cache⟩, rfl, Prod.ext rfl same⟩

theorem keep (h : Twins a b s t) (name : String) (r : Reply) :
    Twins a b (s.keep (Index.lookupKey ⟨a, true⟩ name) r) (t.keep (Index.lookupKey ⟨b, true⟩ name) r) := by
  unfold Session.keep
  split
  case isFalse => exact h
  case isTrue =>
    refine ⟨h.settings, h.transport, h.clock, h.log, h.requests, fun other => ?_⟩
    rw [Table.get?_put, Table.get?_put, h.cache, h.clock]
    by_cases same : name = other
    · subst same
      simp
    · have apart := fun base => beq_eq_false_iff_ne.mpr ((Index.lookupKey_injective ⟨base, true⟩).ne same)
      rw [apart a, apart b]

theorem retry (h : Twins a b s t) (name : String) (useCache : Bool) (target : String) (left index : Nat)
    (last : Option String) :
    Agree a b (Http.retry (lookupCall a name useCache target) left index last s)
      (Http.retry (lookupCall b name useCache target) left index last t) := by
  induction left generalizing index last s t with
  | zero => exact ⟨h, by rw [Http.retry, Http.retry, h.settings]⟩
  | succ left ih =>
      rw [Http.retry, Http.retry]
      rcases h.rest index with ⟨how, first, second⟩ | ⟨later, later', first, second, rested⟩
      · rw [first, second]
        exact ⟨h, rfl⟩
      · rw [first, second]
        obtain ⟨next, next', outcome, twins, sent, sent'⟩ :=
          (rested.note (attemptRecord target (index + 1))).send name useCache target
        have free : Table.has "timeout" ([] : Table String Json) = false := rfl
        simp only [lookupCall_target, lookupCall_extra, free, Bool.false_eq_true, if_false, sent, sent',
          lookupCall_useCache, cacheKey_lookupCall]
        cases outcome with
        | reply r =>
            have held : Twins a b (if useCache then next.keep (Index.lookupKey ⟨a, true⟩ name) r else next)
                (if useCache then next'.keep (Index.lookupKey ⟨b, true⟩ name) r else next') := by
              cases useCache with
              | false => exact twins
              | true => exact twins.keep name r
            exact ⟨held.note (replyRecord target r.status), rfl⟩
        | timeout => exact ih (twins.note (timeoutRecord target (index + 1))) _ _
        | failure reason => exact ih (twins.note (failureRecord target (index + 1))) _ _

theorem kept (h : Twins a b s t) (name : String) (useCache : Bool) (target : String) :
    s.kept (lookupCall a name useCache target) = t.kept (lookupCall b name useCache target) := by
  rw [Session.kept, Session.kept, cacheKey_lookupCall, cacheKey_lookupCall, h.cache, h.clock, h.settings]
  rfl

theorem perform (h : Twins a b s t) (name : String) (useCache : Bool) (target : String) :
    Agree a b (s.perform (lookupCall a name useCache target)) (t.perform (lookupCall b name useCache target)) := by
  rw [Session.perform, Session.perform, h.kept, h.settings]
  split
  · exact ⟨h, rfl⟩
  · exact ⟨h.note (hitRecord target), rfl⟩
  · split
    · exact ⟨h, rfl⟩
    · exact h.retry name useCache target _ 0 none

variable (alike : ShownAlike a b)

include alike

theorem get (h : Twins a b s t) (name : String) (useCache : Bool) :
    Agree a b (Http.get (Index.packageUrl ⟨a, useCache⟩ name) Index.lookupHeaders useCache [] s)
      (Http.get (Index.packageUrl ⟨b, useCache⟩ name) Index.lookupHeaders useCache [] t) := by
  have first := Exchange.get_eq ⟨Index.packageUrl ⟨a, useCache⟩ name, Index.acceptsJson, useCache, s⟩
  have second := Exchange.get_eq ⟨Index.packageUrl ⟨b, useCache⟩ name, Index.acceptsJson, useCache, t⟩
  rw [← Index.lookupHeaders_eq] at first second
  rw [first, second, ← alike.package]
  split
  · exact ⟨h, rfl⟩
  · have calls := h.perform name useCache ((safe? (Index.packageUrl ⟨a, useCache⟩ name)).getD "")
    simp only [Exchange.call, ← alike.package]
    exact calls

theorem getJson (h : Twins a b s t) (name : String) (useCache : Bool) :
    Agree a b (Http.getJson (Index.packageUrl ⟨a, useCache⟩ name) Index.lookupHeaders useCache [] s)
      (Http.getJson (Index.packageUrl ⟨b, useCache⟩ name) Index.lookupHeaders useCache [] t) := by
  obtain ⟨next, next', answer, twins, got, got'⟩ := (h.get alike name useCache).exists
  rw [Http.getJson, Http.getJson, got, got', ← alike.package]
  cases answer with
  | error how => exact ⟨twins, rfl⟩
  | ok r =>
      dsimp only
      cases r.status == 200 && !r.body.isEmpty with
      | false => exact ⟨twins, rfl⟩
      | true =>
          rw [if_pos rfl, if_pos rfl]
          cases Json.load r.body with
          | ok v => exact ⟨twins, rfl⟩
          | error e =>
              dsimp only
              split
              case isTrue => exact ⟨twins, rfl⟩
              case isFalse => exact ⟨twins.note _, rfl⟩

theorem lookupText (h : Twins a b s t) (name : String) (useCache : Bool) :
    Agree a b (Index.lookupText ⟨a, useCache⟩ name s) (Index.lookupText ⟨b, useCache⟩ name t) := by
  obtain ⟨next, next', answer, twins, got, got'⟩ := (h.getJson alike name useCache).exists
  rw [Index.lookupText, Index.lookupText, got, got', ← alike.package]
  cases answer with
  | error how => exact ⟨twins, rfl⟩
  | ok reply =>
      have read : Index.interpret ⟨a, useCache⟩ name reply = Index.interpret ⟨b, useCache⟩ name reply := by
        rw [Index.interpret, Index.interpret, alike.base]
      exact ⟨twins.note _, read⟩

theorem lookup (h : Twins a b s t) (name : Text) (useCache : Bool) :
    Agree a b (Index.lookup ⟨a, useCache⟩ (.text name) s) (Index.lookup ⟨b, useCache⟩ (.text name) t) := by
  cases name with
  | whole name => exact h.lookupText alike name useCache
  | torn _ _ _ => exact ⟨h, rfl⟩

theorem visit (h : Twins a b s t) (v : Visit) : Agree a b (s.visit a v) (t.visit b v) := by
  cases v with
  | lookup name useCache =>
      have found := h.lookup alike name useCache
      exact ⟨found.twins, congrArg some found.result⟩
  | wait seconds =>
      rw [Session.visit, Session.visit]
      rcases h.advance seconds with ⟨how, first, second⟩ | ⟨later, later', first, second, twins⟩
      · rw [first, second]
        exact ⟨h, rfl⟩
      · rw [first, second]
        exact ⟨twins, rfl⟩

theorem visitAll (h : Twins a b s t) (visits : List Visit) :
    Agree a b (s.visitAll a visits) (t.visitAll b visits) := by
  induction visits generalizing s t with
  | nil => exact ⟨h, rfl⟩
  | cons v visits ih =>
      have first := h.visit alike v
      have later := ih first.twins
      refine ⟨later.twins, ?_⟩
      rw [Session.visitAll, Session.visitAll, first.result, later.result]

end Twins

end Session

/-- Look-ups under two base addresses that differ in user information or in the value of a credential only leave
the same log and come to the same packages and errors, whatever the transport does. -/
theorem credentials_hidden {a b : String} (disguised : Disguised a b) (settings : Settings)
    (script : List Outcome) (visits : List Visit) :
    let first := (Session.start settings (.ofScript script)).visitAll (Text.dropTrailing '/' a) visits
    let second := (Session.start settings (.ofScript script)).visitAll (Text.dropTrailing '/' b) visits
    first.1.log = second.1.log ∧ first.2 = second.2 := by
  intro first second
  have agree := (Session.Twins.start _ _ settings script).visitAll disguised.shown_alike visits
  exact ⟨agree.twins.log, agree.result⟩

/-- A user with a password and none, and two values of a key, of which one ends in a slash. -/
theorem credentials_hidden_user_and_key :
    let script : List Outcome := [.timeout, .reply ⟨200, [], "\x7b\x7d"⟩, .reply ⟨500, [], ""⟩]
    let run := fun base : String => (Session.start {} (.ofScript script)).visitAll (Text.dropTrailing '/' base)
      [.lookup "app" true, .wait (.int 5), .lookup "app" true, .lookup "base" false]
    (Disguised "http://ann:s@h/api/" "http://h/api/" ∧
      (run "http://ann:s@h/api/").1.log = (run "http://h/api/").1.log ∧
      (run "http://ann:s@h/api/").2 = (run "http://h/api/").2) ∧
    Disguised "http://h/?my_key=a:@=/" "http://h/?my_key=b" ∧
      (run "http://h/?my_key=a:@=/").1.log = (run "http://h/?my_key=b").1.log ∧
      (run "http://h/?my_key=a:@=/").2 = (run "http://h/?my_key=b").2 := by
  intro script run
  have user : Disguised "http://ann:s@h/api/" "http://h/api/" := by
    refine @Disguised.user _ _ "http:".toList "/api/".toList 'h' (some "ann:s".toList) none rfl rfl ?_ ?_ rfl rfl
    · rintro user ⟨⟩
      simp [IsUser, isPrintable, endsAuthority]
    · rintro user ⟨⟩
  have key : Disguised "http://h/?my_key=a:@=/" "http://h/?my_key=b" :=
    @Disguised.value _ _ "http:".toList "h/".toList "my_key".toList [] "a:@=/".toList "b".toList rfl
      (by simp) (by simp) (by decide +kernel) ⟨by simp [isPrintable], by simp⟩ ⟨by simp [isPrintable], by simp⟩
      (by simp) rfl rfl
  exact ⟨⟨user, credentials_hidden user {} script _⟩, key, credentials_hidden key {} script _⟩

end ExprRegistry.Http
