import ExprRegistry.Proofs.Http.Attempts

/-!
Which requests the cache of replies tells apart. A reply is kept under the text of its address and its headers, in
which the further arguments of a call have no part. So a call that is answered from the cache gets what was
obtained for its address and its headers, but it need not have been obtained with its further arguments. Main
statement: `separated_iff`.
-/

namespace ExprRegistry.Http

/-- What a call asks for: an address, headers and further arguments, none of which is one of the parameters. -/
structure Inquiry where
  url : String
  headers : Option HeaderMap
  extra : Table String Json
  unreserved : (reservedNames.any fun name => Table.has name extra) = false

namespace Inquiry

/-- Two inquiries have the same address and the same headers. -/
def SameTarget (a b : Inquiry) : Prop := a.url = b.url ∧ HeaderMap.Same a.headers b.headers

/-- Two inquiries have the same further arguments, too. -/
def Same (a b : Inquiry) : Prop := a.SameTarget b ∧ ∀ name, a.extra.get? name = b.extra.get? name

/-- A request can be sent: the address is accepted, and how long the request may take is left to the client. -/
def Sendable (a : Inquiry) : Prop := safe? a.url ≠ none ∧ Table.has "timeout" a.extra = false

end Inquiry

namespace Fetch

def inquiry (x : Fetch) : Inquiry := ⟨x.url, x.headers, x.extra, x.unreserved⟩

/-- A call whose answer is what the transport replied to its last request. -/
structure Obtains (x : Fetch) (r : Reply) : Prop where
  sent : x.ended.1.requests ≠ x.before.requests
  reply : x.before.transport.outcome x.ended.1.requests = .reply r
  answer : x.ended.2 = .ok r

/-- A call that is answered from the cache. This is noted, and nothing else is done. -/
def Hits (x : Fetch) (r : Reply) : Prop := x.ended = (x.before.note (hitRecord x.call.target), .ok r)

theorem key_eq_iff (x y : Fetch) : x.key = y.key ↔ x.inquiry.SameTarget y.inquiry :=
  HeaderMap.cacheKey_eq_iff x.url y.url x.headers y.headers

end Fetch

/-- A client makes inquiries of some kind; its calls are told with the last one first. Whatever happens to it
between two calls, its cache gains nothing from that. -/
inductive Inquires (asked : Inquiry → Prop) (start : Session) : List Fetch → Session → Prop
  | start : Inquires asked start [] start
  | call {history : List Fetch} {x : Fetch} (earlier : Inquires asked start history x.before)
      (kind : asked x.inquiry) : Inquires asked start (x :: history) x.ended.1
  | meanwhile {history : List Fetch} {s later : Session} (earlier : Inquires asked start history s)
      (gains_nothing : ∀ key kept, later.cache.get? key = some kept → s.cache.get? key = some kept) :
      Inquires asked start history later

/-- Whatever a client inquired before that had an empty cache at first, an answer from the cache was obtained by
an earlier call with an inquiry of the same kind. -/
def Traced (asked : Inquiry → Prop) (same : Inquiry → Inquiry → Prop) : Prop :=
  ∀ (start : Session) (history : List Fetch) (x : Fetch) (r : Reply), start.cache = [] →
    Inquires asked start history x.before → asked x.inquiry → x.Hits r →
      ∃ earlier ∈ history, same earlier.inquiry x.inquiry ∧ earlier.Obtains r

/-! ### One call -/

namespace Session

variable {s : Session} {call : Call}

theorem note_ne (s : Session) (r : Record) : s.note r ≠ s := fun same => by
  have longer := congrArg (fun s : Session => s.log.length) same
  simp [note] at longer

/-- A call that says itself how long a request may take sends nothing. -/
theorem retry_of_timeout (given : Table.has "timeout" call.extra = true) (left : Nat) (last : Option String)
    (s : Session) : s.Idle (retry call left 0 last s).1 := by
  cases left with
  | zero => exact ⟨rfl, rfl, rfl⟩
  | succ left =>
      rw [retry]
      simp only [rest, given, if_true]
      exact ⟨rfl, rfl, rfl⟩

theorem perform_cases (s : Session) (call : Call) :
    s.Idle (s.perform call).1 ∨ Table.has "timeout" call.extra = false ∧
      ∃ count, s.Retried call count (s.perform call).1 (s.perform call).2 := by
  cases free : Table.has "timeout" call.extra with
  | false => exact (s.perform_idle_or_retried call free).imp id fun tried => ⟨rfl, tried⟩
  | true =>
      refine .inl ?_
      unfold perform
      split
      · exact ⟨rfl, rfl, rfl⟩
      · exact ⟨rfl, rfl, rfl⟩
      · split
        · exact ⟨rfl, rfl, rfl⟩
        · exact retry_of_timeout free _ none s

/-- What a call may be answered with is kept under its text. -/
theorem kept_eq_some (s : Session) (call : Call) {r : Reply} (h : s.kept call = .ok (some r)) :
    ∃ kept, s.cache.get? (cacheKey call.url call.headers) = some kept ∧ kept.reply = r := by
  unfold kept at h
  split at h
  case isFalse => cases h
  case isTrue =>
    split at h
    case h_1 => cases h
    case h_2 kept found =>
      refine ⟨kept, found, ?_⟩
      cases fresh : isFresh (s.clock.sub kept.arrived) s.settings.cacheTtl with
      | error how =>
          rw [fresh] at h
          cases h
      | ok young =>
          rw [fresh] at h
          cases young with
          | false => cases h
          | true =>
              cases h
              rfl

/-- Attempts leave more than a note, unless none is allowed, and then they leave nothing. -/
theorem retry_ne_noted (call : Call) (count : Nat) (s : Session) (note : Record) (r : Reply) :
    retry call count 0 none s ≠ (s.note note, .ok r) := by
  intro same
  cases count with
  | zero => exact s.note_ne note (congrArg Prod.fst same).symm
  | succ count =>
      cases free : Table.has "timeout" call.extra with
      | true =>
          rw [retry] at same
          simp only [rest, free, if_true] at same
          cases congrArg Prod.snd same
      | false =>
          have tried : s.Retried call (0 + (count + 1)) (retry call (count + 1) 0 none s).1
              (retry call (count + 1) 0 none s).2 :=
            retry_retried free (Silent.zero s _) (Attempted.zero s (s.requestOf call)) rfl
          have sent := tried.requests_ne (by omega)
          rw [same] at sent
          exact sent rfl

theorem kept_of_noted {note : Record} {r : Reply} (h : s.perform call = (s.note note, .ok r)) :
    s.kept call = .ok (some r) := by
  cases found : s.kept call with
  | error how =>
      rw [perform_of_error found] at h
      nomatch congrArg Prod.snd h
  | ok remembered =>
      cases remembered with
      | some other =>
          rw [perform_of_some found] at h
          cases congrArg Prod.snd h
          rfl
      | none =>
          rw [perform, found] at h
          cases counted : attempts s.settings.retryMax with
          | error how =>
              simp only [counted] at h
              nomatch congrArg Prod.snd h
          | ok count =>
              simp only [counted] at h
              exact absurd h (retry_ne_noted call count s note r)

end Session

namespace Fetch

variable {x : Fetch} {r : Reply}

/-- A call leaves the client as it is, or it can be sent and is attempted. -/
theorem idle_or_attempted (x : Fetch) :
    x.before.Idle x.ended.1 ∨ x.inquiry.Sendable ∧
      ∃ count, x.before.Retried x.call count x.ended.1 x.ended.2 := by
  rw [ended_eq]
  by_cases accepted : safe? x.url = none
  · rw [if_pos accepted]
    exact .inl ⟨rfl, rfl, rfl⟩
  · rw [if_neg accepted]
    exact (x.before.perform_cases x.call).imp id fun ⟨free, tried⟩ => ⟨⟨accepted, free⟩, tried⟩

theorem Obtains.sendable (obtained : x.Obtains r) : x.inquiry.Sendable := by
  rcases x.idle_or_attempted with idle | ⟨sendable, _⟩
  · exact absurd idle.requests obtained.sent
  · exact sendable

/-- What is kept after a call was kept before, or the call obtained it. -/
theorem kept_or_obtained {key : String} {kept : Kept} (found : x.ended.1.cache.get? key = some kept) :
    x.before.cache.get? key = some kept ∨ key = x.key ∧ x.Obtains kept.reply := by
  rcases x.idle_or_attempted with idle | ⟨_, count, tried⟩
  · rw [idle.cache] at found
    exact .inl found
  · generalize answered : x.ended.2 = answer at tried
    cases tried with
    | @replied earlier r within silent reply made cache =>
        rw [cache, Session.cacheAfter] at found
        split at found
        case isFalse => exact .inl found
        case isTrue =>
          rw [Table.get?_put] at found
          split at found
          case isFalse => exact .inl found
          case isTrue same =>
            cases found
            rw [← made.outcome] at reply
            exact .inr ⟨(eq_of_beq same).symm, made.requests_ne, reply, answered⟩
    | exhausted silent made cache =>
        rw [cache] at found
        exact .inl found
    | unpaused within silent made cache failed =>
        rw [cache] at found
        exact .inl found

/-- Only a kept reply is answered without anything being done but a note. -/
theorem Hits.kept (hit : x.Hits r) : ∃ kept, x.before.cache.get? x.key = some kept ∧ kept.reply = r := by
  rw [Hits, ended_eq] at hit
  split at hit
  case isTrue => nomatch congrArg Prod.snd hit
  case isFalse =>
    have remembered : x.before.kept x.call = .ok (some r) := Session.kept_of_noted hit
    exact Session.kept_eq_some x.before x.call remembered

theorem hits_of_fresh {kept : Kept} (accepted : safe? x.url ≠ none) (use : x.useCache = true)
    (found : x.before.cache.get? x.key = some kept) (young : x.before.Fresh kept) : x.Hits kept.reply := by
  have remembered : x.before.kept x.call = .ok (some kept.reply) := by
    have found' : x.before.cache.get? (cacheKey x.call.url x.call.headers) = some kept := found
    have young' : isFresh (x.before.clock.sub kept.arrived) x.before.settings.cacheTtl = .ok true := young
    rw [Session.kept, if_pos (show x.call.useCache = true from use), found']
    simp only [young']
    rfl
  rw [Hits, ended_eq, if_neg accepted]
  exact Session.perform_of_some remembered

/-- A call that may be sent makes its first attempt; where that is replied to and the cache is used, the reply is
kept unless its status is too high. -/
theorem obtains_first {retryMax : Int} (counted : x.before.settings.retryMax = .int retryMax)
    (allowed : 0 < retryMax) (kept : x.before.kept x.call = .ok none) (sendable : x.inquiry.Sendable)
    (reply : x.before.outcomeOf x.request 1 = .reply r) :
    x.before.Attempted x.request 1 x.ended.1 ∧ x.ended.1.cache = x.before.cacheAfter x.call r := by
  have tried := ended_retried counted kept sendable.1 fun _ => sendable.2
  obtain ⟨_, made, cache⟩ := tried.of_reply (by omega : 0 < retryMax.toNat) (Session.Silent.zero _ _) reply nofun
  exact ⟨made, cache⟩

end Fetch

/-! ### Whole runs -/

section

variable {asked : Inquiry → Prop} {start s : Session} {history : List Fetch}

/-- Whatever is kept was obtained by a call with the text under which it is kept. -/
theorem Inquires.kept (run : Inquires asked start history s) (empty : start.cache = []) {key : String}
    {kept : Kept} (found : s.cache.get? key = some kept) :
    ∃ earlier ∈ history, asked earlier.inquiry ∧ earlier.key = key ∧ earlier.Obtains kept.reply := by
  induction run with
  | start =>
      rw [empty] at found
      cases found
  | @call history x _ kind ih =>
      rcases x.kept_or_obtained found with before | ⟨rfl, obtained⟩
      · obtain ⟨earlier, member, rest⟩ := ih before
        exact ⟨earlier, List.mem_cons_of_mem x member, rest⟩
      · exact ⟨x, List.mem_cons_self, kind, rfl, obtained⟩
  | meanwhile _ gains_nothing ih => exact ih (gains_nothing key kept found)

theorem Inquires.obtained (run : Inquires asked start history s) (empty : start.cache = []) {x : Fetch}
    {r : Reply} (now : x.before = s) (hit : x.Hits r) :
    ∃ earlier ∈ history, asked earlier.inquiry ∧ earlier.inquiry.SameTarget x.inquiry ∧ earlier.Obtains r := by
  obtain ⟨kept, found, rfl⟩ := hit.kept
  rw [now] at found
  obtain ⟨earlier, member, kind, same, obtained⟩ := run.kept empty found
  exact ⟨earlier, member, kind, (earlier.key_eq_iff x).mp same, obtained⟩

end

namespace Inquiry

/-- The first call of a client, which is replied to at once. -/
def first (a : Inquiry) (r : Reply) (later : List Outcome) : Fetch :=
  ⟨a.url, a.headers, true, a.extra, Session.start {} (.ofScript (.reply r :: later)), a.unreserved⟩

/-- The same client's next call. -/
def next (a b : Inquiry) (r : Reply) (later : List Outcome) : Fetch :=
  ⟨b.url, b.headers, true, b.extra, (a.first r later).ended.1, b.unreserved⟩

variable {a b : Inquiry} {r : Reply}

theorem next_run {asked : Inquiry → Prop} (kind : asked a) (b : Inquiry) (r : Reply) (later : List Outcome) :
    Inquires asked (a.first r later).before [a.first r later] (a.next b r later).before :=
  .call .start kind

theorem next_hits (sendable : a.Sendable) (same : a.SameTarget b) (low : r.status < 500) (later : List Outcome) :
    (a.next b r later).Hits r := by
  let x := a.first r later
  let kept : Kept := ⟨r, x.before.clock⟩
  obtain ⟨made, cache⟩ := Fetch.obtains_first (x := x) (r := r) rfl (by decide) rfl sendable rfl
  have found : x.ended.1.cache.get? (a.next b r later).key = some kept := by
    rw [cache, ← (x.key_eq_iff (a.next b r later)).mpr same, Session.cacheAfter, if_pos ⟨rfl, low⟩]
    exact (Table.get?_put x.key x.key kept []).trans (if_pos (beq_self_eq_true _))
  have young : x.ended.1.Fresh kept := by
    rw [Session.Fresh, made.clock, made.settings]
    change isFresh ((Double.ofInt 1000).sub (Double.ofInt 1000)) (.int 300) = _
    decide +kernel
  have accepted : safe? b.url ≠ none := same.1 ▸ sendable.1
  exact Fetch.hits_of_fresh (x := a.next b r later) accepted rfl found young

end Inquiry

/-- An answer from the cache was always obtained by an earlier call for the same address and the same headers. It
was always obtained with the same further arguments, too, for those clients only that ask for no address with the
same headers but different further arguments. -/
theorem separated_iff (asked : Inquiry → Prop) :
    Traced asked Inquiry.SameTarget ∧
      (Traced asked Inquiry.Same ↔
        ∀ a b, asked a → asked b → a.Sendable → a.SameTarget b → a.Same b) := by
  refine ⟨?_, ?_, ?_⟩
  · intro start history x r empty run _ hit
    obtain ⟨earlier, member, _, same, obtained⟩ := run.obtained empty rfl hit
    exact ⟨earlier, member, same, obtained⟩
  · intro traced a b ha hb sendable same
    let ok : Reply := ⟨200, [], "ok"⟩
    have hit : (a.next b ok []).Hits ok := Inquiry.next_hits sendable same (by decide) []
    obtain ⟨earlier, member, alike, _⟩ := traced _ _ _ _ rfl (Inquiry.next_run ha b ok []) hb hit
    cases List.mem_singleton.mp member
    exact alike
  · intro apart start history x r empty run kind hit
    obtain ⟨earlier, member, kind', same, obtained⟩ := run.obtained empty rfl hit
    exact ⟨earlier, member, apart _ _ kind' kind obtained.sendable same, obtained⟩

/-- The second page of a list is answered with what was obtained for the first one. -/
theorem first_page_served_again :
    let page (n : Int) : Table String Json := [("params", .obj [(.str "page", .int n)])]
    let script := Transport.ofScript [.reply ⟨200, [], "one"⟩, .reply ⟨200, [], "two"⟩]
    let first : Fetch := ⟨"http://h/", none, true, page 1, Session.start {} script, rfl⟩
    let second : Fetch := ⟨"http://h/", none, true, page 2, first.ended.1, rfl⟩
    Inquires (fun _ => True) first.before [first] second.before ∧ second.Hits ⟨200, [], "one"⟩ ∧
      ¬∃ earlier ∈ [first], earlier.inquiry.Same second.inquiry := by
  intro page script first second
  have sendable : first.inquiry.Sendable := ⟨by decide +kernel, rfl⟩
  have same : first.inquiry.SameTarget second.inquiry := ⟨rfl, fun _ => rfl⟩
  have run : Inquires (fun _ => True) first.before [first] first.ended.1 := .call (x := first) .start trivial
  have hit : (first.inquiry.next second.inquiry ⟨200, [], "one"⟩ [.reply ⟨200, [], "two"⟩]).Hits ⟨200, [], "one"⟩ :=
    Inquiry.next_hits sendable same (by decide) _
  refine ⟨run, hit, ?_⟩
  rintro ⟨earlier, member, alike⟩
  cases List.mem_singleton.mp member
  nomatch alike.2 "params"

end ExprRegistry.Http
