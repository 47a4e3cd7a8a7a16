import ExprRegistry.Http.Address
import ExprRegistry.Json.Unfit
import ExprRegistry.Log.Redact
import ExprRegistry.Text.Lowercase

/-!
URLs. A URL is taken apart into scheme, authority, path, query and fragment and put together again from
them. `safe` is the form that may be shown: without user information, with the host in lower case and
with the credentials of the query masked.
-/

namespace ExprRegistry.Http

/-- The parts of a URL. -/
structure Url where
  scheme : List Char
  authority : List Char
  path : List Char
  query : List Char
  fragment : List Char
  deriving DecidableEq

def authoritySchemes : List String :=
  ["ftp", "http", "gopher", "nntp", "telnet", "imap", "wais", "file", "mms", "https", "shttp", "snews",
   "prospero", "rtsp", "rtspu", "rsync", "svn", "svn+ssh", "sftp", "nfs", "git", "git+ssh",
   "ws", "wss"]

def isSchemeChar (c : Char) : Bool :=
  Text.isAsciiLetter c || Text.isAsciiDigit c || c == '+' || c == '-' || c == '.'

/-- The compatibility characters that stand for text with a delimiter in it. -/
def delimiterLookalikes : List Nat :=
  [0x2047, 0x2048, 0x2049, 0x2100, 0x2101, 0x2105, 0x2106, 0x2A74, 0xFE13, 0xFE16, 0xFE55, 0xFE56,
   0xFE5F, 0xFE6B, 0xFF03, 0xFF0F, 0xFF1A, 0xFF1F, 0xFF20]

/-- The characters without the blanks and controls before them and without tabs and line breaks. -/
def cleaned (cs : List Char) : List Char :=
  (cs.dropWhile fun c => c.toNat ≤ 0x20).filter fun c => !(c == '\t' || c == '\r' || c == '\n')

def splitScheme (cs : List Char) : List Char × List Char :=
  match Text.cutAt (· == ':') cs with
  | (c :: before, some rest) =>
    if Text.isAsciiLetter c && before.all isSchemeChar then
      ((c :: before).map Text.lowerAscii, rest)
    else ([], cs)
  | _ => ([], cs)

def afterLast (c : Char) (cs : List Char) : List Char :=
  (cs.reverse.takeWhile (· != c)).reverse

/-- The host of an authority with brackets somewhere in it; nothing when the host stands in brackets and
anything but a port is beside them. -/
def hostBesidePort? (authority : List Char) : Option (List Char) :=
  let located := afterLast '@' authority
  match Text.cutAt (· == '[') located with
  | ([], some bracketed) =>
    match Text.cutAt (· == ']') bracketed with
    | (host, some (c :: _)) => if c == ':' then some host else none
    | (host, _) => some host
  | (_, some _) => none
  | (_, none) => some (Text.cutAt (· == ':') located).1

/-- Whether an authority is well formed: one with brackets has both of them and a numeric address for a
host, and no character only looks like a delimiter. -/
def authorityOk (authority : List Char) : Bool :=
  let opens := authority.contains '['
  let closes := authority.contains ']'
  let bracketsOk :=
    if opens && closes then ((hostBesidePort? authority).map isBracketedHost).getD false
    else opens == closes
  bracketsOk && authority.all fun c => !delimiterLookalikes.contains c.toNat

/-- Takes a URL apart; nothing when its authority is not well formed. -/
def Url.split? (cs : List Char) : Option Url :=
  let (scheme, rest) := splitScheme (cleaned cs)
  let (authority, rest) := match rest with
    | '/' :: '/' :: more =>
      (more.takeWhile fun c => !(c == '/' || c == '?' || c == '#'),
        more.dropWhile fun c => !(c == '/' || c == '?' || c == '#'))
    | _ => ([], rest)
  let (rest, fragment) := Text.cutAt (· == '#') rest
  let (path, query) := Text.cutAt (· == '?') rest
  if authorityOk authority then
    some ⟨scheme, authority, path, query.getD [], fragment.getD []⟩
  else none

/-- Puts a URL together. Where the authority is empty its slashes are written for the schemes that have
one, unless the path begins with two slashes of its own. -/
def Url.join (u : Url) : List Char :=
  let located :=
    if !u.authority.isEmpty ||
        (authoritySchemes.contains (String.ofList u.scheme) && !List.isPrefixOf ['/', '/'] u.path) then
      let path := match u.path with
        | [] => []
        | '/' :: _ => u.path
        | _ => '/' :: u.path
      '/' :: '/' :: u.authority ++ path
    else u.path
  let scheme := if u.scheme.isEmpty then [] else u.scheme ++ [':']
  let query := if u.query.isEmpty then [] else '?' :: u.query
  let fragment := if u.fragment.isEmpty then [] else '#' :: u.fragment
  scheme ++ located ++ query ++ fragment

/-- The host and the port of an authority as they are written; brackets around the host are left out,
and a port that is not written is empty. -/
def hostAndPort (authority : List Char) : List Char × List Char :=
  let located := afterLast '@' authority
  match Text.cutAt (· == '[') located with
  | (_, some bracketed) =>
    let (host, rest) := Text.cutAt (· == ']') bracketed
    (host, ((Text.cutAt (· == ':') (rest.getD [])).2).getD [])
  | (_, none) =>
    let (host, port) := Text.cutAt (· == ':') located
    (host, port.getD [])

/-- A host in lower case; a zone after a percent sign keeps its case. -/
def hostName (host : List Char) : List Char :=
  match Text.cutAt (· == '%') host with
  | (name, none) => Text.lower name
  | (name, some zone) => Text.lower name ++ '%' :: zone

/-- The number of a written port; nothing when it is no port. A port that is not written is zero. -/
def portNumber? (port : List Char) : Option Nat :=
  if !port.all Text.isAsciiDigit || Text.maxDigits < port.length then none
  else
    let n := Text.numberOf port
    if n ≤ 65535 then some n else none

/-- The URL without user information and with the credentials of its query masked; nothing when the
authority or the port is not well formed. -/
def Url.safe? (u : Url) : Option Url :=
  let (host, port) := hostAndPort u.authority
  (portNumber? port).map fun n =>
    { u with
      authority := hostName host ++ (if n == 0 then [] else ':' :: (toString n).toList)
      query := redactFrom false [] u.query }

def safe? (url : String) : Option String :=
  if url.isEmpty then some url
  else ((Url.split? url.toList).bind Url.safe?).map fun u => String.ofList u.join

/-- The form of an address that may be shown. A value that is not given is shown as it is, and of the others
only a whole text is an address. -/
def shownAddress (url : Json) : Except Unfit Json :=
  match url with
  | .str text =>
    match safe? text with
    | some shown => .ok (.str shown)
    | none => .error .value
  | .text _ => .error .encoding
  | _ => if !url.isGiven then .ok url else if url.isScalar then .error .operation else .error .kind

end ExprRegistry.Http
