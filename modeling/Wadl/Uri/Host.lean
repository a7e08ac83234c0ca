import Wadl.Text.Blank
import Wadl.Text.CharClass

/-!
# Hosts in brackets

An authority may hold a host in brackets: an IPv6 address, with an IPv4 tail or a zone if it likes,
or an address of a later version (`v1.x`). `isBracketed` decides which texts are such hosts.
-/

namespace Wadl.Uri.Host

/-- Hexadecimal digits. -/
def isHexDigit (c : Char) : Bool :=
  CharClass.isAsciiDigit c || ('a' ≤ c && c ≤ 'f') || ('A' ≤ c && c ≤ 'F')

/-- A group of an IPv6 address. -/
def isGroup (cs : List Char) : Bool :=
  !cs.isEmpty && cs.length ≤ 4 && cs.all isHexDigit

/-- A number of an IPv4 address: at most 255, without a leading zero. -/
def isOctet (cs : List Char) : Bool :=
  !cs.isEmpty && cs.length ≤ 3 && cs.all CharClass.isAsciiDigit &&
    (cs.length == 1 || cs.head? != some '0') &&
    cs.foldl (fun n d => n * 10 + (d.toNat - '0'.toNat)) 0 ≤ 255

/-- An IPv4 address. -/
def isIpv4 (cs : List Char) : Bool :=
  let parts := Text.pieces (· == '.') cs
  parts.length == 4 && parts.all isOctet

/-- The groups of an address whose IPv4 tail, if there is one, counts as two. -/
def groups (cs : List Char) : Option (List (List Char)) :=
  let parts := Text.pieces (· == ':') cs
  match parts.getLast? with
  | none => none
  | some last =>
    if parts.length < 3 then none
    else if last.contains '.' then
      if isIpv4 last then some (parts.dropLast ++ [['0'], ['0']]) else none
    else some parts

/-- Eight groups, or fewer around one double colon. -/
def isGroupList (parts : List (List Char)) : Bool :=
  let inner := (parts.drop 1).dropLast
  let gaps := (inner.filter List.isEmpty).length
  let first := (parts.head?.getD []).isEmpty
  let last := (parts.getLast?.getD []).isEmpty
  let filled := parts.filter fun p => !p.isEmpty
  if parts.length > 9 || gaps > 1 || !filled.all isGroup then false
  else if gaps = 1 then
    let before := inner.takeWhile fun p => !p.isEmpty
    let after := (inner.dropWhile fun p => !p.isEmpty).drop 1
    (!first || before.isEmpty) && (!last || after.isEmpty) && filled.length < 8
  else parts.length == 8 && !first && !last

/-- An IPv6 address, with a zone after a percent sign or without. -/
def isIpv6 (cs : List Char) : Bool :=
  let address := cs.takeWhile (· != '%')
  let zone := cs.dropWhile (· != '%')
  (zone.isEmpty || (zone.length > 1 && !(zone.drop 1).contains '%')) &&
    match groups address with
    | some parts => isGroupList parts
    | none => false

/-- An address of a later version. -/
def isFuture (cs : List Char) : Bool :=
  let digits := (cs.drop 1).takeWhile isHexDigit
  let rest := (cs.drop 1).dropWhile isHexDigit
  !digits.isEmpty && rest.head? == some '.' && rest.length > 1 && !rest.contains '\n'

/-- The hosts that may stand in brackets. -/
def isBracketed (cs : List Char) : Bool :=
  if cs.head? == some 'v' then isFuture cs else isIpv6 cs

end Wadl.Uri.Host
