import ExprRegistry.Http.Clock
import ExprRegistry.Http.Url
import ExprRegistry.Json.Display
import ExprRegistry.Json.Reader
import ExprRegistry.Json.Unfit
import ExprRegistry.Log.Record
import ExprRegistry.Settings.Basic

/-!
Fetching over HTTP with retries and a cache of replies. The transport is a function of the requests sent
so far and the time of day is moved only from outside, so a session is a value: what it has requested,
slept and logged is part of it. A reply below status 500 is kept under the text of its address and
headers; it is served again while it is younger than the time to live. Status zero marks that every
attempt failed.
-/

namespace ExprRegistry.Http

/-- A reply: status, headers by name, and body. -/
structure Reply where
  status : Int
  headers : Table String Json
  body : String
  deriving DecidableEq

/-- What the transport does with one request. -/
inductive Outcome where
  | reply (r : Reply)
  | timeout
  | failure (reason : String)
  deriving DecidableEq

/-- A request as it was sent. -/
structure Request where
  url : String
  timeout : Json
  headers : Table String Json
  extra : Table String Json
  deriving DecidableEq

/-- The other end of all requests, and the clock by which a client waits between them. -/
structure Transport where
  outcome : List Request → Outcome
  /-- A bound on the number of requests that are answered with a reply. -/
  reach : Nat
  clock : Clock := .system

def refusal : Outcome := .failure "no more responses"

namespace Transport

/-- The transport that gives the outcomes of a script in order and refuses all later requests. -/
def ofScript (script : List Outcome) : Transport :=
  { outcome := fun sent => script.getD (sent.length - 1) refusal, reach := script.length }

/-- The transport that answers a request by its address alone; `reach` bounds the number of addresses
behind which there is something. -/
def ofServer (server : String → Outcome) (reach : Nat) : Transport :=
  { outcome := fun sent => (sent.getLast?.map fun r => server r.url).getD refusal, reach := reach }

end Transport

/-- A reply that is kept, with the time of its arrival. -/
structure Kept where
  reply : Reply
  arrived : Double
  deriving DecidableEq

/-- The state of a client with the trace of what it did. -/
structure Session where
  settings : Settings
  transport : Transport
  clock : Double
  cache : Table String Kept
  requests : List Request
  sleeps : List Json
  log : List Record

namespace Session

def start (settings : Settings) (transport : Transport) : Session :=
  ⟨settings, transport, Double.ofInt 1000, [], [], [], []⟩

def note (s : Session) (r : Record) : Session := { s with log := s.log ++ [r] }

def clear (s : Session) : Session := { s with cache := [] }

/-- Moves the clock by a number of seconds, which a double can hold. -/
def advance (s : Session) (seconds : Json) : Except Unfit Session :=
  match seconds.number? with
  | some (.inl n) =>
    let x := Double.ofInt n
    if x.isFinite then .ok { s with clock := s.clock.add x } else .error .range
  | some (.inr x) => .ok { s with clock := s.clock.add x }
  | none => .error .kind

end Session

def debugRecord (message : String) (context : Fields) : Record :=
  ⟨.debug, "common.http_client", message, context⟩

def requestRecord (message event target : String) (context : Fields) : Record :=
  debugRecord message
    (("event", .str event) :: ("component", .str "http_client") :: ("action", .str "GET") ::
      context.concat ("target", .str target))

def hitRecord (target : String) : Record := requestRecord "HTTP cache hit" "cache_hit" target []

def attemptRecord (target : String) (attempt : Nat) : Record :=
  requestRecord "HTTP request" "http_request" target [("attempt", .int attempt)]

def replyRecord (target : String) (status : Int) : Record :=
  requestRecord "HTTP response ok" "http_response" target
    [("outcome", .str "success"), ("status_code", .int status)]

def timeoutRecord (target : String) (attempt : Nat) : Record :=
  requestRecord "HTTP timeout" "http_exception" target
    [("outcome", .str "timeout"), ("attempt", .int attempt)]

def failureRecord (target : String) (attempt : Nat) : Record :=
  requestRecord "HTTP request exception" "http_exception" target
    [("outcome", .str "request_exception"), ("attempt", .int attempt)]

def sortedFields (headers : Table String Json) : Table String Json :=
  headers.mergeSort fun a b => decide (a.1 ≤ b.1)

def headersText (headers : Table String Json) : String :=
  if headers.isEmpty then ""
  else
    let pair : String × Json → String := fun (name, v) =>
      "(" ++ Text.quoted name ++ ", " ++ v.shown ++ ")"
    "[" ++ ", ".intercalate ((sortedFields headers).map pair) ++ "]"

def cacheKey (url : String) (headers : Table String Json) : String :=
  "GET:" ++ url ++ ":" ++ headersText headers

def isFresh (age : Double) (timeToLive : Json) : Except Unfit Bool :=
  match timeToLive.number? with
  | some (.inl n) => .ok (age.ltUnits (n * Double.unitsInOne))
  | some (.inr x) => .ok (age.lt x)
  | none => .error .kind

def attempts : Json → Except Unfit Nat
  | .int n => .ok n.toNat
  | .bool b => .ok (if b then 1 else 0)
  | _ => .error .kind

/-- The pause after the failed attempt `index`, counted from zero: the base doubled each time, if the clock
takes that. -/
def pause (clock : Clock) (base : Json) (index : Nat) : Except Unfit Json :=
  match base.times (Nat.pow 2 index) with
  | .error how => .error how
  | .ok p => clock.take p

def Session.send (s : Session) (url : String) (headers extra : Table String Json) : Session × Outcome :=
  let sent := s.requests ++ [⟨url, s.settings.requestTimeout, headers, extra⟩]
  ({ s with requests := sent }, s.transport.outcome sent)

def Session.rest (s : Session) (index : Nat) : Except Unfit Session :=
  match index with
  | 0 => .ok s
  | earlier + 1 =>
    (pause s.transport.clock s.settings.retryDelay earlier).map fun p => { s with sleeps := s.sleeps ++ [p] }

def Session.keep (s : Session) (key : String) (r : Reply) : Session :=
  if r.status < 500 then { s with cache := s.cache.put key ⟨r, s.clock⟩ } else s

def exhausted (retryMax : Json) (last : Option String) : Reply :=
  ⟨0, [], "Request failed after " ++ retryMax.display ++ " attempts: " ++ last.getD "None"⟩

/-- What a request is made of besides the state of its session. -/
structure Call where
  url : String
  headers : Table String Json
  useCache : Bool
  extra : Table String Json
  target : String

/-- Attempts a request up to `left` times; `index` attempts were made before. -/
def retry (call : Call) : Nat → Nat → Option String → Session → Session × Except Unfit Reply
  | 0, _, last, s => (s, .ok (exhausted s.settings.retryMax last))
  | left + 1, index, _, s =>
    match s.rest index with
    | .error how => (s, .error how)
    | .ok s =>
      let s := s.note (attemptRecord call.target (index + 1))
      if Table.has "timeout" call.extra then (s, .error .kind)
      else
        match s.send call.url call.headers call.extra with
        | (s, .reply r) =>
          let s := if call.useCache then s.keep (cacheKey call.url call.headers) r else s
          (s.note (replyRecord call.target r.status), .ok r)
        | (s, .timeout) =>
          retry call left (index + 1) (some "timeout")
            (s.note (timeoutRecord call.target (index + 1)))
        | (s, .failure reason) =>
          retry call left (index + 1) (some reason)
            (s.note (failureRecord call.target (index + 1)))

/-- The kept reply for a call, if the call may be answered by it. -/
def Session.kept (s : Session) (call : Call) : Except Unfit (Option Reply) :=
  if call.useCache then
    match s.cache.get? (cacheKey call.url call.headers) with
    | none => .ok none
    | some kept =>
      (isFresh (s.clock.sub kept.arrived) s.settings.cacheTtl).map fun fresh =>
        if fresh then some kept.reply else none
  else .ok none

/-- Answers a call from the cache or by up to as many attempts as are set. -/
def Session.perform (s : Session) (call : Call) : Session × Except Unfit Reply :=
  match s.kept call with
  | .error how => (s, .error how)
  | .ok (some r) => (s.note (hitRecord call.target), .ok r)
  | .ok none =>
    match attempts s.settings.retryMax with
    | .error how => (s, .error how)
    | .ok count => retry call count 0 none s

/-- The headers that a value gives; null gives none. The name of a header has to be whole. -/
def headersOf : Json → Except Unfit (Table String Json)
  | .obj fields =>
    if fields.all fun (name, _) => name.isWhole then .ok (fields.map fun (name, v) => (name.display, v))
    else .error .encoding
  | v => if v.isGiven then .error .operation else .ok []

def reservedNames : List String := ["url", "headers", "use_cache"]

def get (url : String) (headers : Json) (useCache : Bool) (extra : Table String Json) (s : Session) :
    Session × Except Unfit Reply :=
  if reservedNames.any fun name => Table.has name extra then (s, .error .kind)
  else
    match headersOf headers with
    | .error how => (s, .error how)
    | .ok fields =>
      match safe? url with
      | none => (s, .error .value)
      | some target => s.perform ⟨url, fields, useCache, extra, target⟩

/-- A reply whose body was read as a document; null when there is none. -/
structure JsonReply where
  status : Int
  headers : Table String Json
  body : Json

def undecodedRecord (status : Int) (target : String) : Record :=
  debugRecord "JSON decode error"
    [("event", .str "parse"), ("component", .str "http_client"), ("action", .str "get_json"),
     ("outcome", .str "json_decode_error"), ("status_code", .int status), ("target", .str target)]

/-- Fetches an address and reads the body of a reply with status 200 as a document. A body that is none is
passed over, but not one with an integer of too many digits. -/
def getJson (url : String) (headers : Json) (useCache : Bool) (extra : Table String Json)
    (s : Session) : Session × Except Unfit JsonReply :=
  match get url headers useCache extra s with
  | (s, .error how) => (s, .error how)
  | (s, .ok r) =>
    if r.status == 200 && !r.body.isEmpty then
      match Json.load r.body with
      | .ok v => (s, .ok ⟨r.status, r.headers, v⟩)
      | .error e =>
        if e.complaint = .digits then (s, .error .value)
        else (s.note (undecodedRecord r.status ((safe? url).getD "")), .ok ⟨r.status, r.headers, .null⟩)
    else (s, .ok ⟨r.status, r.headers, .null⟩)

end ExprRegistry.Http
