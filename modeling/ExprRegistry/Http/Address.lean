import ExprRegistry.Text.Blank
import ExprRegistry.Text.DecimalDigit

/-!
Numeric network addresses, as they stand in brackets in a URL: eight groups of hexadecimal digits, of
which a run of zeros may be left out once, the last two possibly written as four decimal numbers; or an
address of a future version.
-/

namespace ExprRegistry.Http

/-- Whether characters are one of the four decimal numbers of an address. -/
def isOctet (cs : List Char) : Bool :=
  !cs.isEmpty && cs.all Text.isAsciiDigit && cs.length ≤ 3 && Text.numberOf cs ≤ 255 &&
    !(cs.length != 1 && cs.head? == some '0')

def isDecimalAddress (cs : List Char) : Bool :=
  let parts := Text.pieces '.' cs
  parts.length == 4 && parts.all isOctet

def isGroup (cs : List Char) : Bool :=
  !cs.isEmpty && cs.length ≤ 4 && cs.all fun c => (Text.hexValue? c).isSome

/-- The groups with a decimal end as two groups; nothing when the end is no decimal address. -/
def expandEnd? (parts : List (List Char)) : Option (List (List Char)) :=
  match parts.getLast? with
  | none => none
  | some last =>
    if last.contains '.' then
      if isDecimalAddress last then some (parts.dropLast ++ [['0'], ['0']]) else none
    else some parts

def areGroups (parts : List (List Char)) : Bool :=
  let inner := (parts.drop 1).dropLast
  let gaps := inner.countP List.isEmpty
  let first := parts.head?.getD []
  let last := parts.getLast?.getD []
  if parts.length < 3 || 9 < parts.length || 1 < gaps then false
  else if gaps == 0 then parts.length == 8 && parts.all isGroup
  else
    let skip := (inner.takeWhile fun p => !p.isEmpty).length + 1
    let before := parts.take skip
    let after := parts.drop (skip + 1)
    let before := if first.isEmpty then before.drop 1 else before
    let after := if last.isEmpty then after.dropLast else after
    let startOk := !first.isEmpty || skip == 1
    let endOk := !last.isEmpty || parts.length - skip - 1 == 1
    startOk && endOk && before.all isGroup && after.all isGroup &&
      before.length + after.length ≤ 7

/-- Whether characters are an address of groups, possibly with a zone after a percent sign. -/
def isGroupAddress (cs : List Char) : Bool :=
  let (address, zone) := Text.cutAt (· == '%') cs
  let zoneOk := match zone with
    | none => true
    | some zone => !zone.isEmpty && !zone.contains '%'
  let parts := Text.pieces ':' address
  zoneOk && !address.contains '/' && 3 ≤ parts.length &&
    match expandEnd? parts with
    | some parts => areGroups parts
    | none => false

def isFutureAddress (cs : List Char) : Bool :=
  match cs with
  | 'v' :: rest =>
    let digits := rest.takeWhile fun c => (Text.hexValue? c).isSome
    match rest.drop digits.length with
    | '.' :: _ :: _ => !digits.isEmpty
    | _ => false
  | _ => false

def isBracketedHost (cs : List Char) : Bool :=
  match cs with
  | 'v' :: _ => isFutureAddress cs
  | _ => isGroupAddress cs

end ExprRegistry.Http
