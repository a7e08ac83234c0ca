import Wadl.Text.Quoted
import Wadl.Uri.Join
import Wadl.Uri.Percent
import Wadl.Uri.Punycode
import Wadl.Number.Numeral
import Wadl.Text.Case

/-!
# Addresses of requests

An `Address` is a URL in the form in which it is sent: scheme and host are lower-case, the port of
the scheme is left out, dot segments of the path are resolved, and what may not stand in a part is
percent encoded. `Address.parse` brings a text into this form, or says why there is none; percent
signs are kept, so nothing is encoded twice.
-/

namespace Wadl.Http

/-- Why a text is no address. -/
inductive AddressError where
  | tooLong
  | controlCharacter (c : Char) (position : Nat)
  | badIpv4 (host : String)
  | badIpv6 (host : String)
  | badHost (host : String)
  | badPort (port : String)
  /-- A path after an authority does not begin with a slash. -/
  | unrootedPath
  /-- A path without an authority begins like one. -/
  | authorityPath
  /-- A path without a scheme begins like one. -/
  | schemePath
  deriving DecidableEq, Repr

/-- The text of an error. -/
def AddressError.message : AddressError → String
  | tooLong => "URL too long"
  | controlCharacter c position =>
    "Invalid non-printable ASCII character in URL, " ++ quoted (String.ofList [c]) ++
      " at position " ++ toString position ++ "."
  | badIpv4 host => "Invalid IPv4 address: " ++ quoted host
  | badIpv6 host => "Invalid IPv6 address: " ++ quoted host
  | badHost host => "Invalid IDNA hostname: " ++ quoted host
  | badPort port => "Invalid port: " ++ quoted port
  | unrootedPath => "For absolute URLs, path must be empty or begin with '/'"
  | authorityPath => "Relative URLs cannot have a path starting with '//'"
  | schemePath => "Relative URLs cannot have a path starting with ':'"

/-- A URL in the form in which it is sent. -/
structure Address where
  scheme : List Char
  userInfo : List Char
  /-- The host; an IPv6 address stands without its brackets. -/
  host : List Char
  port : Option Int
  path : List Char
  query : Option (List Char)
  fragment : Option (List Char)
  deriving DecidableEq, Repr

/-! ## Encoding of parts -/

namespace Address

/-- Printable ASCII characters other than those of a list. -/
def isPlain (excluded : List Char) (c : Char) : Bool :=
  0x20 ≤ c.toNat && c.toNat < 0x7f && !excluded.contains c

/-- Characters that stand for themselves in a fragment. -/
def isFragmentChar : Char → Bool := isPlain [' ', '"', '<', '>', '\x60']

/-- Characters that are encoded in a query. -/
def queryExcluded : List Char := [' ', '"', '#', '<', '>']

/-- Characters that stand for themselves in a query. -/
def isQueryChar : Char → Bool := isPlain queryExcluded

/-- Characters that are encoded in a path. -/
def pathExcluded : List Char := queryExcluded ++ ['?', '\x60', '\x7b', '\x7d']

/-- Characters that stand for themselves in a path. -/
def isPathChar : Char → Bool := isPlain pathExcluded

/-- Characters that stand for themselves in the part before the host. -/
def isUserChar : Char → Bool :=
  isPlain (pathExcluded ++ ['/', ';', '=', '@', '[', '\\', ']', '^', '|'])

/-- Characters that stand for themselves in a host. -/
def isHostChar (c : Char) : Bool :=
  Percent.isUnreserved c || "!$&'()*+,;=\"\x60\x7b\x7d%|\\".toList.contains c

/-! ## Hosts and ports -/

/-- Whether a host looks like four numbers with any character between them. -/
def looksIpv4 (host : List Char) : Bool :=
  let runs := Text.pieces (fun c => !CharClass.isAsciiDigit c) host
  runs.all (fun r => !r.isEmpty) && runs.length ≤ 4 &&
    4 ≤ runs.length + (runs.map fun r => (r.length - 1) / 2).foldr (· + ·) 0

/-- A label of a host in ASCII characters; none if it is empty. -/
def asciiLabel (label : List Char) : Option (List Char) :=
  if label.isEmpty then none
  else if label.all (·.toNat < 0x80) then some label
  else some ("xn--".toList ++ Punycode.encode label)

/-- A host in ASCII characters. -/
def asciiHost (host : List Char) : Option (List Char) :=
  let isDot (c : Char) := [0x2e, 0x3002, 0xff0e, 0xff61].contains c.toNat
  let labels := Text.pieces isDot (Case.lower (String.ofList host)).toList
  let ends := labels.getLast? == some []
  let own := if ends then labels.dropLast else labels
  (own.mapM asciiLabel).map fun found =>
    List.intercalate ['.'] (if ends then found ++ [[]] else found)

/-- A host as it is sent. -/
def hostOf (host : List Char) : Except AddressError (List Char) :=
  if host.isEmpty then .ok []
  else if looksIpv4 host then
    if Uri.Host.isIpv4 host then .ok host else .error (.badIpv4 (String.ofList host))
  else if host.head? == some '[' && host.getLast? == some ']' then
    let inner := (host.drop 1).dropLast
    if Uri.Host.isIpv6 inner then .ok inner else .error (.badIpv6 (String.ofList host))
  else if host.all (·.toNat < 0x80) then
    .ok (Percent.encodeList isHostChar (host.map Uri.lowerAscii))
  else
    match asciiHost host with
    | some h => .ok h
    | none => .error (.badHost (String.ofList host))

/-- The ports that schemes have. -/
def schemePorts : List (String × Int) :=
  [("ftp", 21), ("http", 80), ("https", 443), ("ws", 80), ("wss", 443)]

/-- A port, if it is another one than that of the scheme. -/
def portOf (scheme port : List Char) : Except AddressError (Option Int) :=
  if port.isEmpty then .ok none
  else
    match Numeral.integerOf port with
    | none => .error (.badPort (String.ofList port))
    | some n => .ok (if schemePorts.lookup (String.ofList scheme) = some n then none else some n)

/-! ## Taking apart -/

/-- The path with its dot segments resolved; a segment that is left by two dots is dropped, but
never the root. -/
def resolveDots : (done : List (List Char)) → List (List Char) → List (List Char)
  | done, [] => done.reverse
  | done, segment :: rest =>
    if segment = ['.'] then resolveDots done rest
    else if segment = ['.', '.'] then
      resolveDots (if done = [[]] then done else done.drop 1) rest
    else resolveDots (segment :: done) rest

/-- A path without dot segments. -/
def withoutDots (path : List Char) : List Char :=
  let segments := Text.pieces (· == '/') path
  if segments.any fun s => s = ['.'] || s = ['.', '.'] then
    List.intercalate ['/'] (resolveDots [] segments)
  else path

/-- The scheme before the first colon, if there is one, and what follows. -/
def splitScheme (cs : List Char) : List Char × List Char :=
  let name := cs.takeWhile Uri.isSchemeChar
  match cs.drop name.length, name with
  | ':' :: rest, [] => ([], rest)
  | ':' :: rest, c :: _ => if CharClass.isAsciiLetter c then (name, rest) else ([], cs)
  | _, _ => ([], cs)

/-- What stands before the last `@`, and what follows it. -/
def splitUser (authority : List Char) : List Char × List Char :=
  if authority.contains '@' then
    let host := (authority.reverse.takeWhile (· != '@')).reverse
    (authority.take (authority.length - host.length - 1), host)
  else ([], authority)

/-- The host before the port; one in brackets ends with the last bracket. -/
def splitHost (cs : List Char) : List Char × List Char :=
  let port := (cs.reverse.takeWhile (· != ']')).reverse
  let (host, rest) :=
    if cs.head? == some '[' && cs.contains ']' then (cs.take (cs.length - port.length), port)
    else
      let host := cs.takeWhile fun c => c != ':' && c != '@'
      (host, cs.drop host.length)
  (host, if rest.head? == some ':' then rest.drop 1 else rest)

/-- What stands after a mark, if there is one, up to a character that ends it. -/
def marked? (mark : Char) (ends : Char → Bool) (cs : List Char) :
    Option (List Char) × List Char :=
  if cs.head? == some mark then
    let part := (cs.drop 1).takeWhile (!ends ·)
    (some part, cs.drop (part.length + 1))
  else (none, cs)

/-- An address with given parts, which are brought into form. -/
def make (scheme userInfo host port path : List Char) (query fragment : Option (List Char)) :
    Except AddressError Address := do
  let scheme := scheme.map Uri.lowerAscii
  let userInfo := Percent.encodeList isUserChar userInfo
  let host ← hostOf host
  let port ← portOf scheme port
  let hasAuthority := !userInfo.isEmpty || !host.isEmpty || port.isSome
  if hasAuthority then
    if !path.isEmpty && path.head? != some '/' then throw .unrootedPath
  else if scheme.isEmpty then
    if ['/', '/'].isPrefixOf path then throw .authorityPath
    if path.head? == some ':' then throw .schemePath
  let path := if !scheme.isEmpty || hasAuthority then withoutDots path else path
  return {
    scheme, userInfo, host, port
    path := Percent.encodeList isPathChar path
    query := query.map (Percent.encodeList isQueryChar)
    fragment := fragment.map (Percent.encodeList isFragmentChar) }

/-- Whether a character is an ASCII control character. -/
def isControl (c : Char) : Bool := c.toNat < 0x20 || c.toNat = 0x7f

/-- The address that a text is. -/
def parse (text : String) : Except AddressError Address := do
  let cs := text.toList
  if 65536 < cs.length then throw .tooLong
  let before := cs.takeWhile (!isControl ·)
  match cs.drop before.length with
  | c :: _ => throw (.controlCharacter c before.length)
  | [] => pure ()
  let (scheme, rest) := splitScheme cs
  let (authority, rest) := Uri.splitAuthority rest
  let path := rest.takeWhile fun c => c != '?' && c != '#'
  let (query, rest) := marked? '?' (· == '#') (rest.drop path.length)
  let (fragment, _) := marked? '#' (fun _ => false) rest
  let (userInfo, rest) := splitUser authority
  let (host, port) := splitHost rest
  make scheme userInfo host port path query fragment

/-! ## Text -/

/-- Host and port. -/
def netloc (a : Address) : List Char :=
  (if a.host.contains ':' then '[' :: a.host ++ [']'] else a.host) ++
    ((a.port.map fun p => ':' :: (toString p).toList).getD [])

/-- What stands between the scheme and the path. -/
def authority (a : Address) : List Char :=
  (if a.userInfo.isEmpty then [] else a.userInfo ++ ['@']) ++ a.netloc

/-- The text of an address. -/
def text (a : Address) : String :=
  String.ofList <|
    (if a.scheme.isEmpty then [] else a.scheme ++ [':']) ++
    (if a.authority.isEmpty then [] else '/' :: '/' :: a.authority) ++
    a.path ++ ((a.query.map ('?' :: ·)).getD []) ++ ((a.fragment.map ('#' :: ·)).getD [])

/-- Whether an address has a scheme and a host. -/
def isAbsolute (a : Address) : Bool := !a.scheme.isEmpty && !a.host.isEmpty

/-- The address that is requested by a text: a path alone is below the root. -/
def ofRequest (url : String) : Except AddressError Address := do
  let a ← parse url
  if a.isAbsolute then return a
  else
    let path := '/' :: (if a.path.isEmpty then ['/'] else a.path).dropWhile (· == '/')
    make [] [] [] [] path a.query none

/-- The address with another host. -/
def withHost (a : Address) (host : List Char) : Except AddressError Address :=
  let bracketed := if host.contains ':' then '[' :: host ++ [']'] else host
  make a.scheme a.userInfo bracketed ((a.port.map fun p => (toString p).toList).getD []) a.path
    a.query a.fragment

/-- Where an answer to a request at `a` sends with a location: why it is no address, or why that
cannot be requested. -/
def follow (a : Address) (location : String) :
    Except AddressError (Except AddressError Address) := do
  let target ← parse location
  return do
    let target ← if !target.scheme.isEmpty && target.host.isEmpty then target.withHost a.host
      else pure target
    let target ←
      if target.isAbsolute then pure target
      else
        match joinUri a.text target.text with
        | .ok text => parse text
        | .error _ => pure target
    if target.fragment.getD [] = [] && a.fragment.getD [] ≠ [] then
      return { target with fragment := a.fragment }
    else return target

end Address

end Wadl.Http
