import ExprRegistry.Proofs.Http.Key
import ExprRegistry.Proofs.Http.Retry

/-!
The cache of replies is a map with times. A history tells the calls of a client and the clearings of its cache,
the last event first; which reply was last obtained for an address and a mapping of headers is a matter of the
history alone. Main statement: `follows_history`, a call is answered by that reply while it is young enough, and
by attempts otherwise.
-/

namespace ExprRegistry.Http

/-- A call without further arguments, with the state of the client in which it is made. -/
structure Exchange where
  url : String
  headers : Option HeaderMap
  useCache : Bool
  before : Session

namespace Exchange

/-- The call as attempts are made of it. -/
def call (x : Exchange) : Call :=
  ⟨x.url, HeaderMap.texts (HeaderMap.listed x.headers), x.useCache, [], (safe? x.url).getD ""⟩

def after (x : Exchange) : Session := (get x.url (HeaderMap.toJson x.headers) x.useCache [] x.before).1

def answer (x : Exchange) : Except Unfit Reply :=
  (get x.url (HeaderMap.toJson x.headers) x.useCache [] x.before).2

/-- Whether a call is for an address and a mapping of headers. -/
def IsFor (x : Exchange) (url : String) (headers : Option HeaderMap) : Prop :=
  x.url = url ∧ HeaderMap.Same x.headers headers

/-- A call with the cache whose last request the transport replied to, with a status that may be kept. -/
structure Obtains (x : Exchange) (r : Reply) : Prop where
  useCache : x.useCache = true
  sent : x.after.requests ≠ x.before.requests
  reply : x.before.transport.outcome x.after.requests = .reply r
  status : r.status < 500

end Exchange

inductive Event where
  | call (x : Exchange)
  | cleared

/-- The latest reply that was obtained for an address and headers since the last clearing, with its time. -/
inductive Latest (url : String) (headers : Option HeaderMap) : List Event → Kept → Prop
  | last {x : Exchange} {r : Reply} {earlier : List Event} (same : x.IsFor url headers) (obtained : x.Obtains r) :
      Latest url headers (.call x :: earlier) ⟨r, x.before.clock⟩
  | earlier {x : Exchange} {kept : Kept} {earlier : List Event}
      (other : x.IsFor url headers → ∀ r, ¬x.Obtains r) (latest : Latest url headers earlier kept) :
      Latest url headers (.call x :: earlier) kept

/-- A client makes calls, waits and clears its cache; what it did is told with the last event first. -/
inductive Runs (start : Session) : List Event → Session → Prop
  | start : Runs start [] start
  | call {history : List Event} {s : Session} (earlier : Runs start history s) (url : String)
      (headers : Option HeaderMap) (useCache : Bool) :
      Runs start (.call ⟨url, headers, useCache, s⟩ :: history) (Exchange.after ⟨url, headers, useCache, s⟩)
  | wait {history : List Event} {s later : Session} {seconds : Json} (earlier : Runs start history s)
      (waited : s.advance seconds = .ok later) : Runs start history later
  | clear {history : List Event} {s : Session} (earlier : Runs start history s) :
      Runs start (.cleared :: history) s.clear

/-- Whether a reply arrived less than the time to live ago. -/
def Session.Fresh (s : Session) (kept : Kept) : Prop :=
  isFresh (s.clock.sub kept.arrived) s.settings.cacheTtl = .ok true

/-- The reply that a call may be answered with without a request. -/
def Exchange.Remembers (x : Exchange) (history : List Event) (r : Reply) : Prop :=
  x.useCache = true ∧ ∃ arrived, Latest x.url x.headers history ⟨r, arrived⟩ ∧ x.before.Fresh ⟨r, arrived⟩

/-- What a call comes to, in a client with a history that makes up to `count` attempts. -/
structure Exchange.Follows (x : Exchange) (history : List Event) (count : Nat) : Prop where
  /-- An address that cannot be taken apart is refused before anything else is done. -/
  refused : safe? x.url = none → x.after = x.before ∧ x.answer = .error .value
  /-- A remembered reply is the answer; it was obtained by an earlier call. -/
  remembered : safe? x.url ≠ none → ∀ r, x.Remembers history r →
    x.answer = .ok r ∧ x.after.requests = x.before.requests ∧ x.after.sleeps = x.before.sleeps ∧
      x.after.cache = x.before.cache ∧ ∃ earlier, .call earlier ∈ history ∧ earlier.Obtains r
  /-- Without one attempts are made, and what they come to is the answer. -/
  attempted : safe? x.url ≠ none → (¬∃ r, x.Remembers history r) →
    x.before.Retried x.call count x.after x.answer
  silent_iff : safe? x.url ≠ none → 0 < count →
    (x.after.requests = x.before.requests ↔ ∃ r, x.Remembers history r)
  /-- A call without the cache leaves it as it is, and does the same whatever is kept. -/
  uncached : x.useCache = false → x.after.cache = x.before.cache ∧ ∀ cache,
    after { x with before := x.before.withCache cache } = x.after.withCache cache ∧
      answer { x with before := x.before.withCache cache } = x.answer

/-! ### One call -/

namespace Session

variable {s now : Session} {call : Call}

theorem perform_of_error {how : Unfit} (h : s.kept call = .error how) : s.perform call = (s, .error how) := by
  rw [perform, h]

theorem perform_of_some {r : Reply} (h : s.kept call = .ok (some r)) :
    s.perform call = (s.note (hitRecord call.target), .ok r) := by
  rw [perform, h]

theorem perform_of_none (h : s.kept call = .ok none) {count : Nat}
    (counted : attempts s.settings.retryMax = .ok count) (free : Table.has "timeout" call.extra = false) :
    s.Retried call count (s.perform call).1 (s.perform call).2 := by
  have ended : s.Retried call (0 + count) (retry call count 0 none s).1 (retry call count 0 none s).2 :=
    retry_retried free (Silent.zero s _) (Attempted.zero s (s.requestOf call)) rfl
  rw [Nat.zero_add] at ended
  rw [perform, h]
  simp only [counted]
  exact ended

theorem kept_of_uncached (uncached : call.useCache = false) (s : Session) : s.kept call = .ok none := by
  rw [kept, uncached]
  rfl

theorem perform_withCache (uncached : call.useCache = false) (cache : Table String Kept) (s : Session) :
    (s.withCache cache).perform call = ((s.perform call).1.withCache cache, (s.perform call).2) := by
  rw [perform, perform, kept_of_uncached uncached, kept_of_uncached uncached]
  simp only [withCache]
  cases attempts s.settings.retryMax with
  | error how => rfl
  | ok count => exact retry_withCache uncached cache count 0 none s

/-- What stays as it is when no attempt is made. -/
structure Idle (s now : Session) : Prop where
  settings : now.settings = s.settings
  requests : now.requests = s.requests
  cache : now.cache = s.cache

theorem perform_idle_or_retried (s : Session) (call : Call) (free : Table.has "timeout" call.extra = false) :
    s.Idle (s.perform call).1 ∨ ∃ count, s.Retried call count (s.perform call).1 (s.perform call).2 := by
  cases h : s.kept call with
  | error how =>
      rw [perform_of_error h]
      exact .inl ⟨rfl, rfl, rfl⟩
  | ok found =>
      cases found with
      | some r =>
          rw [perform_of_some h]
          exact .inl ⟨rfl, rfl, rfl⟩
      | none =>
          cases counted : attempts s.settings.retryMax with
          | ok count => exact .inr ⟨count, perform_of_none h counted free⟩
          | error how =>
              have refused : s.perform call = (s, .error how) := by
                rw [perform, h]
                simp only [counted]
              rw [refused]
              exact .inl ⟨rfl, rfl, rfl⟩

end Session

/-- A call whose further arguments are none of the parameters is performed unless its address is refused. -/
theorem get_of_unreserved {extra : Table String Json}
    (unreserved : (reservedNames.any fun name => Table.has name extra) = false) (url : String)
    (headers : Option HeaderMap) (useCache : Bool) (s : Session) :
    get url (HeaderMap.toJson headers) useCache extra s =
      if safe? url = none then (s, .error .value)
      else s.perform ⟨url, HeaderMap.texts (HeaderMap.listed headers), useCache, extra,
        (safe? url).getD ""⟩ := by
  rw [get, unreserved, HeaderMap.headersOf_toJson]
  cases safe? url <;> rfl

namespace Exchange

variable {x : Exchange}

theorem get_eq (x : Exchange) :
    get x.url (HeaderMap.toJson x.headers) x.useCache [] x.before =
      if safe? x.url = none then (x.before, .error .value) else x.before.perform x.call :=
  get_of_unreserved rfl x.url x.headers x.useCache x.before

theorem refused (h : safe? x.url = none) : x.after = x.before ∧ x.answer = .error .value := by
  rw [after, answer, get_eq, if_pos h]
  exact ⟨rfl, rfl⟩

theorem performed (h : safe? x.url ≠ none) :
    x.after = (x.before.perform x.call).1 ∧ x.answer = (x.before.perform x.call).2 := by
  rw [after, answer, get_eq, if_neg h]
  exact ⟨rfl, rfl⟩

theorem idle_or_retried (x : Exchange) :
    x.before.Idle x.after ∨ ∃ count, x.before.Retried x.call count x.after x.answer := by
  by_cases h : safe? x.url = none
  · rw [(refused h).1]
    exact .inl ⟨rfl, rfl, rfl⟩
  · rw [(performed h).1, (performed h).2]
    exact x.before.perform_idle_or_retried x.call rfl

/-- The text under which the reply to a call is kept. -/
def key (x : Exchange) : String := cacheKey x.url (HeaderMap.texts (HeaderMap.listed x.headers))

/-- A call obtains a reply and keeps it, or obtains none and keeps none. -/
theorem obtains_or_not (x : Exchange) :
    (∃ r, x.Obtains r ∧ x.after.cache = x.before.cache.put x.key ⟨r, x.before.clock⟩) ∨
      (∀ r, ¬x.Obtains r) ∧ x.after.cache = x.before.cache := by
  rcases x.idle_or_retried with idle | ⟨count, tried⟩
  · exact .inr ⟨fun r obtained => obtained.sent idle.requests, idle.cache⟩
  · generalize x.answer = answer at tried
    cases tried with
    | @replied earlier r within silent reply made cache =>
        rw [← made.outcome] at reply
        by_cases may : x.call.useCache = true ∧ r.status < 500
        · rw [Session.cacheAfter, if_pos may] at cache
          exact .inl ⟨r, ⟨may.1, made.requests_ne, reply, may.2⟩, cache⟩
        · rw [Session.cacheAfter, if_neg may] at cache
          refine .inr ⟨fun other obtained => ?_, cache⟩
          have same : r = other := by
            have replies := reply.symm.trans obtained.reply
            cases replies
            rfl
          exact may ⟨obtained.useCache, same ▸ obtained.status⟩
    | exhausted silent made cache =>
        exact .inr ⟨fun r obtained => made.no_reply silent obtained.sent r obtained.reply, cache⟩
    | unpaused within silent made cache failed =>
        exact .inr ⟨fun r obtained => made.no_reply silent obtained.sent r obtained.reply, cache⟩

theorem after_settings (x : Exchange) : x.after.settings = x.before.settings := by
  rcases x.idle_or_retried with idle | ⟨count, tried⟩
  · exact idle.settings
  · exact tried.settings

theorem key_eq_iff (x : Exchange) (url : String) (headers : Option HeaderMap) :
    x.key = cacheKey url (HeaderMap.texts (HeaderMap.listed headers)) ↔ x.IsFor url headers :=
  HeaderMap.cacheKey_eq_iff x.url url x.headers headers

end Exchange

/-! ### Whole histories -/

section

variable {start s : Session} {history : List Event}

theorem advance_frame {s later : Session} {seconds : Json} (h : s.advance seconds = .ok later) :
    later.settings = s.settings ∧ later.cache = s.cache := by
  unfold Session.advance at h
  split at h
  · dsimp only at h
    split at h
    · cases h
      exact ⟨rfl, rfl⟩
    · cases h
  · cases h
    exact ⟨rfl, rfl⟩
  · cases h

theorem Runs.settings (run : Runs start history s) : s.settings = start.settings := by
  induction run with
  | start => rfl
  | call earlier url headers useCache ih => exact (Exchange.after_settings _).trans ih
  | wait earlier waited ih => exact (advance_frame waited).1.trans ih
  | clear earlier ih => exact ih

/-- What is kept under the text of a call is what was last obtained for it. -/
theorem Runs.cache_iff (run : Runs start history s) (empty : start.cache = []) (url : String)
    (headers : Option HeaderMap) (kept : Kept) :
    s.cache.get? (cacheKey url (HeaderMap.texts (HeaderMap.listed headers))) = some kept ↔
      Latest url headers history kept := by
  induction run with
  | start =>
      rw [empty]
      exact ⟨nofun, nofun⟩
  | @call history s earlier called given useCache ih =>
      let x : Exchange := ⟨called, given, useCache, s⟩
      rcases x.obtains_or_not with ⟨r, obtained, cache⟩ | ⟨none, cache⟩
      · rw [cache, Table.get?_put]
        by_cases same : x.IsFor url headers
        · rw [if_pos (beq_iff_eq.mpr ((x.key_eq_iff url headers).mpr same)), Option.some_inj]
          constructor
          · rintro rfl
            exact .last same obtained
          · intro latest
            cases latest with
            | last _ other =>
                have replies := obtained.reply.symm.trans other.reply
                cases replies
                rfl
            | earlier other _ => exact absurd obtained (other same r)
        · rw [if_neg fun h => same ((x.key_eq_iff url headers).mp (beq_iff_eq.mp h)), ih]
          constructor
          · exact .earlier fun h => absurd h same
          · intro latest
            cases latest with
            | last h _ => exact absurd h same
            | earlier _ latest => exact latest
      · rw [cache, ih]
        constructor
        · exact .earlier fun _ => none
        · intro latest
          cases latest with
          | last _ obtained => exact absurd obtained (none _)
          | earlier _ latest => exact latest
  | wait earlier waited ih =>
      rw [(advance_frame waited).2]
      exact ih
  | clear earlier ih => exact ⟨nofun, nofun⟩

theorem Latest.obtained {url : String} {headers : Option HeaderMap} {kept : Kept}
    (latest : Latest url headers history kept) : ∃ x, .call x ∈ history ∧ x.Obtains kept.reply := by
  induction latest with
  | last _ obtained => exact ⟨_, List.mem_cons_self, obtained⟩
  | earlier _ _ ih =>
      obtain ⟨x, member, obtained⟩ := ih
      exact ⟨x, List.mem_cons_of_mem _ member, obtained⟩

theorem isFresh_of_number {ttl : Json} (timed : ttl.number?.isSome = true) (age : Double) :
    ∃ fresh, isFresh age ttl = .ok fresh := by
  obtain ⟨number, given⟩ := Option.isSome_iff_exists.mp timed
  rw [isFresh, given]
  cases number <;> exact ⟨_, rfl⟩

/-- What may be used of the cache is what the history remembers. -/
theorem Exchange.kept_eq {x : Exchange} (run : Runs start history x.before) (empty : start.cache = [])
    (timed : start.settings.cacheTtl.number?.isSome = true) :
    ∃ found, x.before.kept x.call = .ok found ∧ ∀ r, x.Remembers history r ↔ found = some r := by
  unfold Session.kept
  by_cases use : x.call.useCache = true
  case neg =>
    rw [if_neg use]
    exact ⟨none, rfl, fun r => ⟨fun remembered => absurd remembered.1 use, nofun⟩⟩
  rw [if_pos use]
  have known := run.cache_iff empty x.url x.headers
  cases found : x.before.cache.get? (cacheKey x.call.url x.call.headers) with
  | none =>
      refine ⟨none, rfl, fun r => ⟨?_, nofun⟩⟩
      rintro ⟨_, arrived, latest, _⟩
      cases found.symm.trans ((known _).mpr latest)
  | some kept =>
      rw [← run.settings] at timed
      obtain ⟨fresh, computed⟩ := isFresh_of_number timed (x.before.clock.sub kept.arrived)
      refine ⟨if fresh then some kept.reply else none, by simp only [computed, Except.map], fun r => ?_⟩
      constructor
      · rintro ⟨_, arrived, latest, young⟩
        cases found.symm.trans ((known _).mpr latest)
        cases computed.symm.trans young
        rfl
      · intro same
        cases fresh with
        | true =>
            cases same
            exact ⟨use, kept.arrived, (known kept).mp found, computed⟩
        | false => cases same

end

theorem Exchange.uncached {x : Exchange} (h : x.useCache = false) (cache : Table String Kept) :
    after { x with before := x.before.withCache cache } = x.after.withCache cache ∧
      answer { x with before := x.before.withCache cache } = x.answer := by
  by_cases accepted : safe? x.url = none
  · rw [(refused accepted).1, (refused accepted).2]
    exact refused (x := { x with before := x.before.withCache cache }) accepted
  · rw [(performed accepted).1, (performed accepted).2]
    have same : (x.before.withCache cache).perform x.call = _ := Session.perform_withCache h cache x.before
    obtain ⟨after, answer⟩ := performed (x := { x with before := x.before.withCache cache }) accepted
    rw [after, answer]
    change ((x.before.withCache cache).perform x.call).1 = _ ∧ ((x.before.withCache cache).perform x.call).2 = _
    rw [same]
    exact ⟨rfl, rfl⟩

/-- Whatever a client did before, a call is answered by what its history remembers for the same address and
the same mapping of headers, and by attempts where it remembers nothing. -/
theorem follows_history {start s : Session} {history : List Event} {count : Nat}
    (empty : start.cache = []) (counted : attempts start.settings.retryMax = .ok count)
    (timed : start.settings.cacheTtl.number?.isSome = true) (run : Runs start history s) (url : String)
    (headers : Option HeaderMap) (useCache : Bool) :
    Exchange.Follows ⟨url, headers, useCache, s⟩ history count := by
  let x : Exchange := ⟨url, headers, useCache, s⟩
  obtain ⟨found, kept, remembers⟩ := Exchange.kept_eq (x := x) run empty timed
  rw [← run.settings] at counted
  have remembered : safe? url ≠ none → ∀ r, x.Remembers history r →
      x.answer = .ok r ∧ x.after = s.note (hitRecord x.call.target) := by
    intro accepted r memory
    rw [(remembers r).mp memory] at kept
    rw [(Exchange.performed accepted).1, (Exchange.performed accepted).2]
    exact ⟨congrArg Prod.snd (Session.perform_of_some kept), congrArg Prod.fst (Session.perform_of_some kept)⟩
  have attempted : safe? url ≠ none → (¬∃ r, x.Remembers history r) →
      s.Retried x.call count x.after x.answer := by
    intro accepted nothing
    have nothingKept : found = none := Option.eq_none_iff_forall_ne_some.mpr fun r same =>
      nothing ⟨r, (remembers r).mpr same⟩
    rw [nothingKept] at kept
    rw [(Exchange.performed accepted).1, (Exchange.performed accepted).2]
    exact Session.perform_of_none kept counted rfl
  refine ⟨Exchange.refused, ?_, attempted, ?_, ?_⟩
  · intro accepted r memory
    obtain ⟨answer, after⟩ := remembered accepted r memory
    obtain ⟨_, arrived, latest, _⟩ := memory
    change x.answer = _ ∧ x.after.requests = _ ∧ x.after.sleeps = _ ∧ x.after.cache = _ ∧ _
    rw [after]
    exact ⟨answer, rfl, rfl, rfl, latest.obtained⟩
  · intro accepted allowed
    constructor
    · intro silent
      by_contra nothing
      exact (attempted accepted nothing).requests_ne allowed silent
    · rintro ⟨r, memory⟩
      change x.after.requests = _
      rw [(remembered accepted r memory).2]
      rfl
  · intro without
    have same := congrArg Session.cache (Exchange.uncached (x := x) without s.cache).1
    exact ⟨same, Exchange.uncached without⟩

/-- A client that has fetched an address without headers fetches it again with an empty mapping of headers. -/
theorem follows_history_fetched_again :
    let start := Session.start {} (.ofScript [.reply ⟨200, [], "ok"⟩])
    let first : Exchange := ⟨"http://h/", none, true, start⟩
    let again : Exchange := ⟨"http://h/", some ⟨[], .nil⟩, true, first.after⟩
    start.cache = [] ∧ Runs start [.call first] first.after ∧ again.Follows [.call first] 3 ∧
      again.answer = .ok ⟨200, [], "ok"⟩ ∧ again.after.requests = first.after.requests := by
  intro start first again
  have run : Runs start [.call first] first.after := Runs.start.call "http://h/" none true
  exact ⟨rfl, run, follows_history rfl rfl rfl run "http://h/" (some ⟨[], .nil⟩) true, by decide +kernel,
    by decide +kernel⟩

/-- Nothing is sent to an address that is refused, and nothing where no attempt is allowed, although nothing is
remembered. -/
theorem nothing_sent_nor_remembered :
    let script := Transport.ofScript [.reply ⟨200, [], "ok"⟩]
    let refused : Exchange := ⟨"http://h:65536/", none, true, Session.start {} script⟩
    let idle : Exchange := ⟨"http://h/", none, true, Session.start { retryMax := .int 0 } script⟩
    (refused.after.requests = [] ∧ refused.answer = .error .value ∧ ¬∃ r, refused.Remembers [] r) ∧
      (idle.after.requests = [] ∧ ¬∃ r, idle.Remembers [] r) := by
  intro script refused idle
  have nothing : ∀ x : Exchange, ¬∃ r, x.Remembers [] r := by
    rintro x ⟨r, _, arrived, latest, _⟩
    cases latest
  exact ⟨⟨by decide +kernel, by decide +kernel, nothing refused⟩, by decide +kernel, nothing idle⟩

end ExprRegistry.Http
