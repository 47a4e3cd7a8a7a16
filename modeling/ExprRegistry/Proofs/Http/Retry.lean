import ExprRegistry.Http.Client
import Mathlib.Data.List.Basic

/-!
What the attempts of a request come to. A transport answers by the requests that it was sent so far, so what
it does with the attempts of one request is known before they are made, and so are the pauses between them.
Main statement: `Session.retry_retried`, the loop makes attempts until one is replied to or there are no more.
Without the use of the cache they do not depend on what is kept (`Session.retry_withCache`).
-/

namespace ExprRegistry.Http

/-- Why an attempt was in vain; nothing when it was replied to. -/
def Outcome.failure? : Outcome → Option String
  | .reply _ => none
  | .timeout => some "timeout"
  | .failure reason => some reason

/-- The first pauses between attempts. -/
def pauses (clock : Clock) (base : Json) (count : Nat) : Except Unfit (List Json) :=
  (List.range count).mapM (pause clock base)

theorem pauses_succ {clock : Clock} {base p : Json} {count : Nat} {ps : List Json}
    (earlier : pauses clock base count = .ok ps) (last : pause clock base count = .ok p) :
    pauses clock base (count + 1) = .ok (ps ++ [p]) := by
  unfold pauses at earlier ⊢
  rw [List.range_succ, List.mapM_append, earlier, List.mapM_cons, last]
  rfl

/-- Where there are some pauses, there is each of them. -/
theorem pause_of_pauses {clock : Clock} {base : Json} {ps : List Json} {count index : Nat}
    (h : pauses clock base count = .ok ps) (within : index < count) : ∃ p, pause clock base index = .ok p := by
  induction count generalizing ps with
  | zero => cases within
  | succ count ih =>
      unfold pauses at h ih
      rw [List.range_succ, List.mapM_append, List.mapM_cons] at h
      cases earlier : (List.range count).mapM (pause clock base) with
      | error how =>
          rw [earlier] at h
          cases h
      | ok first =>
          cases last : pause clock base count with
          | error how =>
              rw [earlier, last] at h
              cases h
          | ok p =>
              rcases Nat.lt_succ_iff_lt_or_eq.mp within with before | rfl
              · exact ih earlier before
              · exact ⟨p, last⟩

namespace Session

/-- The request of a call. -/
def requestOf (s : Session) (call : Call) : Request :=
  ⟨call.url, s.settings.requestTimeout, call.headers, call.extra⟩

/-- What the transport does with the last one of a number of attempts. -/
def outcomeOf (s : Session) (q : Request) (attempt : Nat) : Outcome :=
  s.transport.outcome (s.requests ++ List.replicate attempt q)

/-- Why the last one of a number of attempts was in vain. -/
def lastFailure (s : Session) (q : Request) : Nat → Option String
  | 0 => none
  | attempt + 1 => (s.outcomeOf q (attempt + 1)).failure?

/-- The first attempts are all in vain. -/
def Silent (s : Session) (q : Request) (count : Nat) : Prop :=
  ∀ attempt < count, ∀ r, s.outcomeOf q (attempt + 1) ≠ .reply r

/-- A number of attempts was made, with a pause before each but the first. -/
structure Attempted (s : Session) (q : Request) (count : Nat) (now : Session) : Prop where
  settings : now.settings = s.settings
  transport : now.transport = s.transport
  clock : now.clock = s.clock
  requests : now.requests = s.requests ++ List.replicate count q
  sleeps : ∃ ps, pauses s.transport.clock s.settings.retryDelay (count - 1) = .ok ps ∧ now.sleeps = s.sleeps ++ ps

/-- The replies that are kept after a call was replied to. -/
def cacheAfter (s : Session) (call : Call) (r : Reply) : Table String Kept :=
  if call.useCache = true ∧ r.status < 500 then s.cache.put (cacheKey call.url call.headers) ⟨r, s.clock⟩
  else s.cache

/-- How a call with up to `count` attempts can end: with the first reply, with none, or before an attempt for
which there is no pause. -/
inductive Retried (s : Session) (call : Call) (count : Nat) (now : Session) : Except Unfit Reply → Prop
  | replied {earlier : Nat} {r : Reply} (within : earlier < count)
      (silent : s.Silent (s.requestOf call) earlier)
      (reply : s.outcomeOf (s.requestOf call) (earlier + 1) = .reply r)
      (made : s.Attempted (s.requestOf call) (earlier + 1) now) (cache : now.cache = s.cacheAfter call r) :
      Retried s call count now (.ok r)
  | exhausted (silent : s.Silent (s.requestOf call) count) (made : s.Attempted (s.requestOf call) count now)
      (cache : now.cache = s.cache) :
      Retried s call count now
        (.ok (exhausted s.settings.retryMax (s.lastFailure (s.requestOf call) count)))
  | unpaused {earlier : Nat} {how : Unfit} (within : earlier + 1 < count)
      (silent : s.Silent (s.requestOf call) (earlier + 1))
      (made : s.Attempted (s.requestOf call) (earlier + 1) now) (cache : now.cache = s.cache)
      (failed : pause s.transport.clock s.settings.retryDelay earlier = .error how) :
      Retried s call count now (.error how)

variable {s now later : Session} {q : Request} {call : Call} {count index : Nat}

theorem Silent.zero (s : Session) (q : Request) : s.Silent q 0 := nofun

theorem Silent.succ (h : s.Silent q count) (next : ∀ r, s.outcomeOf q (count + 1) ≠ .reply r) :
    s.Silent q (count + 1) := by
  intro attempt within
  rcases Nat.lt_succ_iff_lt_or_eq.mp within with earlier | rfl
  · exact h attempt earlier
  · exact next

theorem Attempted.zero (s : Session) (q : Request) : s.Attempted q 0 s :=
  ⟨rfl, rfl, rfl, (List.append_nil _).symm, [], rfl, (List.append_nil _).symm⟩

theorem Attempted.requests_ne (made : s.Attempted q (count + 1) now) : now.requests ≠ s.requests := by
  rw [made.requests]
  simp

theorem Attempted.outcome (made : s.Attempted q count now) :
    s.transport.outcome now.requests = s.outcomeOf q count := by
  rw [made.requests]
  rfl

/-- After attempts in vain no reply has come of the last request, if there was any. -/
theorem Attempted.no_reply (made : s.Attempted q count now) (silent : s.Silent q count)
    (sent : now.requests ≠ s.requests) (r : Reply) : s.transport.outcome now.requests ≠ .reply r := by
  cases count with
  | zero => exact absurd (made.requests.trans (List.append_nil _)) sent
  | succ earlier =>
      rw [made.outcome]
      exact silent earlier (Nat.lt_succ_self earlier) r

theorem rest_eq_error {how : Unfit} (h : now.rest index = .error how) :
    ∃ earlier, index = earlier + 1 ∧ pause now.transport.clock now.settings.retryDelay earlier = .error how := by
  cases index with
  | zero => cases h
  | succ earlier =>
      refine ⟨earlier, rfl, ?_⟩
      cases paused : pause now.transport.clock now.settings.retryDelay earlier with
      | error reason =>
          rw [rest, paused] at h
          cases h
          rfl
      | ok p =>
          rw [rest, paused] at h
          cases h

/-- A pause is all that changes before an attempt. -/
theorem Attempted.rest (made : s.Attempted q index now) (rested : now.rest index = .ok later) :
    (∃ ps, pauses s.transport.clock s.settings.retryDelay index = .ok ps ∧ later.sleeps = s.sleeps ++ ps) ∧
      ∃ slept, later = { now with sleeps := slept } := by
  obtain ⟨ps, earlier, slept⟩ := made.sleeps
  cases index with
  | zero =>
      cases rested
      exact ⟨⟨ps, earlier, slept⟩, now.sleeps, rfl⟩
  | succ index =>
      cases paused : pause now.transport.clock now.settings.retryDelay index with
      | error how =>
          rw [Session.rest, paused] at rested
          cases rested
      | ok p =>
          rw [Session.rest, paused] at rested
          cases rested
          rw [made.settings, made.transport] at paused
          have longer : now.sleeps ++ [p] = s.sleeps ++ (ps ++ [p]) := by rw [slept, List.append_assoc]
          exact ⟨⟨ps ++ [p], pauses_succ earlier paused, longer⟩, now.sleeps ++ [p], rfl⟩

/-- One more attempt. -/
theorem Attempted.send (made : s.Attempted (s.requestOf call) index now)
    (rested : now.rest index = .ok later) (r : Record) :
    ∃ sent, (later.note r).send call.url call.headers call.extra =
        (sent, s.outcomeOf (s.requestOf call) (index + 1)) ∧
      s.Attempted (s.requestOf call) (index + 1) sent ∧ sent.cache = now.cache := by
  obtain ⟨paused, slept, rfl⟩ := made.rest rested
  let sent : Session :=
    { now with requests := now.requests ++ [s.requestOf call], sleeps := slept, log := now.log ++ [r] }
  have requests : now.requests ++ [s.requestOf call] =
      s.requests ++ List.replicate (index + 1) (s.requestOf call) := by
    rw [made.requests, List.append_assoc, ← List.replicate_succ']
  refine ⟨sent, ?_, ⟨made.settings, made.transport, made.clock, requests, paused⟩, rfl⟩
  rw [outcomeOf, ← requests, ← made.transport]
  simp only [Session.send, Session.note, requestOf, made.settings, sent]

theorem Attempted.note (made : s.Attempted q count now) (r : Record) : s.Attempted q count (now.note r) :=
  ⟨made.settings, made.transport, made.clock, made.requests, made.sleeps⟩

/-- Keeping a reply touches nothing but what is kept. -/
theorem Attempted.keep (made : s.Attempted q count now) (cache : now.cache = s.cache) (call : Call)
    (r : Reply) :
    let kept := if call.useCache then now.keep (cacheKey call.url call.headers) r else now
    s.Attempted q count kept ∧ kept.cache = s.cacheAfter call r := by
  unfold cacheAfter Session.keep
  by_cases use : call.useCache = true
  · rw [if_pos use]
    by_cases low : r.status < 500
    · rw [if_pos low, if_pos ⟨use, low⟩, cache, made.clock]
      exact ⟨⟨made.settings, made.transport, rfl, made.requests, made.sleeps⟩, rfl⟩
    · rw [if_neg low, if_neg fun both => low both.2]
      exact ⟨made, cache⟩
  · rw [if_neg use, if_neg fun both => use both.1]
    exact ⟨made, cache⟩

/-- The loop that has made some attempts in vain ends as the whole call does. -/
theorem retry_retried {left : Nat} (free : Table.has "timeout" call.extra = false)
    (silent : s.Silent (s.requestOf call) index) (made : s.Attempted (s.requestOf call) index now)
    (cache : now.cache = s.cache) :
    s.Retried call (index + left) (retry call left index (s.lastFailure (s.requestOf call) index) now).1
      (retry call left index (s.lastFailure (s.requestOf call) index) now).2 := by
  induction left generalizing index now with
  | zero =>
      rw [retry, made.settings]
      exact .exhausted silent made cache
  | succ left ih =>
      rw [retry]
      cases rested : now.rest index with
      | error how =>
          obtain ⟨earlier, rfl, failed⟩ := rest_eq_error rested
          rw [made.settings, made.transport] at failed
          exact .unpaused (by omega) silent made cache failed
      | ok later =>
          obtain ⟨sent, sends, next, kept⟩ := made.send rested (attemptRecord call.target (index + 1))
          rw [cache] at kept
          simp only [free, Bool.false_eq_true, if_false, sends]
          rw [← Nat.add_assoc, Nat.add_right_comm]
          -- An attempt in vain leaves the loop where the hypothesis takes it up.
          have onwards : ∀ reason record, (s.outcomeOf (s.requestOf call) (index + 1)).failure? = some reason →
              s.Retried call (index + 1 + left)
                (retry call left (index + 1) (some reason) (sent.note record)).1
                (retry call left (index + 1) (some reason) (sent.note record)).2 := by
            intro reason record vain
            have last : s.lastFailure (s.requestOf call) (index + 1) = some reason := vain
            have longer : s.Silent (s.requestOf call) (index + 1) := by
              refine silent.succ fun r reply => ?_
              rw [reply] at vain
              cases vain
            rw [← last]
            exact ih longer (next.note record) kept
          cases outcome : s.outcomeOf (s.requestOf call) (index + 1) with
          | reply r =>
              obtain ⟨made, cache⟩ := next.keep kept call r
              exact .replied (by omega) silent outcome (made.note _) cache
          | timeout => exact onwards "timeout" _ (by rw [outcome]; rfl)
          | failure reason => exact onwards reason _ (by rw [outcome]; rfl)

/-- However a call ended, some attempts were made, and at least one where any is allowed. -/
theorem Retried.attempted {answer : Except Unfit Reply} (tried : s.Retried call count now answer) :
    ∃ made, s.Attempted (s.requestOf call) made now ∧ (0 < count → 0 < made) := by
  cases tried with
  | replied _ _ _ made _ => exact ⟨_, made, fun _ => Nat.succ_pos _⟩
  | exhausted _ made _ => exact ⟨count, made, id⟩
  | unpaused _ _ made _ _ => exact ⟨_, made, fun _ => Nat.succ_pos _⟩

theorem Retried.settings {answer : Except Unfit Reply} (tried : s.Retried call count now answer) :
    now.settings = s.settings := by
  obtain ⟨_, made, _⟩ := tried.attempted
  exact made.settings

theorem Retried.requests_ne {answer : Except Unfit Reply} (tried : s.Retried call count now answer)
    (allowed : 0 < count) : now.requests ≠ s.requests := by
  obtain ⟨done, made, some⟩ := tried.attempted
  obtain ⟨earlier, rfl⟩ := Nat.exists_eq_add_one.mpr (some allowed)
  exact made.requests_ne

/-! ### Other replies kept -/

/-- The same client with other replies kept. -/
def withCache (s : Session) (cache : Table String Kept) : Session := { s with cache := cache }

theorem rest_withCache (s : Session) (cache : Table String Kept) (index : Nat) :
    (s.withCache cache).rest index = (s.rest index).map (·.withCache cache) := by
  cases index with
  | zero => rfl
  | succ earlier =>
      simp only [rest, withCache]
      cases pause s.transport.clock s.settings.retryDelay earlier <;> rfl

theorem note_withCache (s : Session) (cache : Table String Kept) (r : Record) :
    (s.withCache cache).note r = (s.note r).withCache cache := rfl

theorem send_withCache (s : Session) (cache : Table String Kept) (url : String)
    (headers extra : Table String Json) :
    (s.withCache cache).send url headers extra =
      ((s.send url headers extra).1.withCache cache, (s.send url headers extra).2) := rfl

/-- Attempts without the cache are the same whatever is kept. -/
theorem retry_withCache (uncached : call.useCache = false) (cache : Table String Kept) (left index : Nat)
    (last : Option String) (s : Session) :
    retry call left index last (s.withCache cache) =
      ((retry call left index last s).1.withCache cache, (retry call left index last s).2) := by
  induction left generalizing index last s with
  | zero => rfl
  | succ left ih =>
      rw [retry, retry, rest_withCache]
      cases s.rest index with
      | error how => rfl
      | ok later =>
          simp only [Except.map, note_withCache]
          split
          · rfl
          · simp only [send_withCache]
            rcases (later.note (attemptRecord call.target (index + 1))).send call.url call.headers call.extra
              with ⟨sent, outcome⟩
            cases outcome with
            | reply r =>
                simp only [uncached, Bool.false_eq_true, if_false]
                rfl
            | timeout => exact ih _ _ (sent.note (timeoutRecord call.target (index + 1)))
            | failure reason => exact ih _ _ (sent.note (failureRecord call.target (index + 1)))

end Session

end ExprRegistry.Http
