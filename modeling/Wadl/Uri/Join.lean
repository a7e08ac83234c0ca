import Wadl.Uri.Host

/-!
# URIs: parts, joining and fragments

`Uri.parse?` takes a URI reference apart, `Uri.text` puts one together, `Uri.join` resolves a
reference against a base and `Uri.defragment` separates the fragment. A reference that cannot be
taken apart is an error whose cause is a `UriError`.
-/

namespace Wadl

/-- Why a URI reference cannot be taken apart. -/
inductive UriError where
  /-- An opening or closing bracket without its partner in the authority. -/
  | unpairedBracket
  /-- A host in brackets that is not an address. -/
  | badHost
  /-- An authority with characters that stand for delimiters. -/
  | confusableAuthority
  deriving DecidableEq, Repr

/-- The parts of a URI reference; a part that is absent is empty. -/
structure Uri where
  scheme : List Char
  authority : List Char
  path : List Char
  params : List Char
  query : List Char
  fragment : List Char
  deriving DecidableEq, Repr

namespace Uri

/-- Schemes whose references are resolved against a base. -/
def relativeSchemes : List String :=
  ["", "ftp", "http", "gopher", "nntp", "imap", "wais", "file", "https", "shttp", "mms",
    "prospero", "rtsp", "rtsps", "rtspu", "sftp", "svn", "svn+ssh", "ws", "wss"]

/-- Schemes with an authority. -/
def authoritySchemes : List String :=
  ["", "ftp", "http", "gopher", "nntp", "telnet", "imap", "wais", "file", "mms", "https", "shttp",
    "snews", "prospero", "rtsp", "rtsps", "rtspu", "rsync", "svn", "svn+ssh", "sftp", "nfs", "git",
    "git+ssh", "ws", "wss"]

/-- Schemes whose last path segment may carry parameters. -/
def paramSchemes : List String :=
  ["", "ftp", "hdl", "prospero", "http", "imap", "https", "shttp", "rtsp", "rtsps", "rtspu", "sip",
    "sips", "mms", "sftp", "tel"]

/-- Characters outside ASCII whose compatibility forms hold a delimiter. -/
def confusables : List Nat :=
  [0x2047, 0x2048, 0x2049, 0x2100, 0x2101, 0x2105, 0x2106, 0x2a74, 0xfe13, 0xfe16, 0xfe55, 0xfe56,
    0xfe5f, 0xfe6b, 0xff03, 0xff0f, 0xff1a, 0xff1f, 0xff20]

/-- Characters of a scheme. -/
def isSchemeChar (c : Char) : Bool :=
  CharClass.isAsciiAlphanumeric c || c == '+' || c == '-' || c == '.'

/-- An ASCII letter in lower case. -/
def lowerAscii (c : Char) : Char :=
  if CharClass.isAsciiUpper c then Char.ofNat (c.toNat + 32) else c

/-- A reference without control characters and spaces before it, and without line ends and tabs. -/
def cleaned (cs : List Char) : List Char :=
  (cs.dropWhile fun c => c.toNat ≤ 0x20).filter fun c => c != '\t' && c != '\r' && c != '\n'

/-- The scheme, `default` if there is none, and what follows it. -/
def splitScheme (default cs : List Char) : List Char × List Char :=
  let before := cs.takeWhile (· != ':')
  match cs.dropWhile (· != ':'), before with
  | _ :: rest, c :: _ =>
    if CharClass.isAsciiLetter c && before.all isSchemeChar then (before.map lowerAscii, rest)
    else (default, cs)
  | _, _ => (default, cs)

/-- Whether a character ends the authority. -/
def endsAuthority (c : Char) : Bool := c == '/' || c == '?' || c == '#'

/-- The authority after two slashes, empty if there is none, and what follows it. -/
def splitAuthority : List Char → List Char × List Char
  | '/' :: '/' :: cs => (cs.takeWhile (!endsAuthority ·), cs.dropWhile (!endsAuthority ·))
  | cs => ([], cs)

/-- What is wrong with an authority, if anything. -/
def authorityError? (authority : List Char) : Option UriError :=
  let opens := authority.contains '['
  let closes := authority.contains ']'
  if opens != closes then some .unpairedBracket
  else if opens &&
      !Host.isBracketed (((authority.dropWhile (· != '[')).drop 1).takeWhile (· != ']')) then
    some .badHost
  else if authority.any fun c => confusables.contains c.toNat then some .confusableAuthority
  else none

/-- The parts before and after the first `sep`; all and nothing without one. -/
def splitAtFirst (sep : Char) (cs : List Char) : List Char × List Char :=
  (cs.takeWhile (· != sep), (cs.dropWhile (· != sep)).drop 1)

/-- The path up to the last slash, that included, and its last segment. -/
def splitLastSegment (path : List Char) : List Char × List Char :=
  let last := (path.reverse.takeWhile (· != '/')).reverse
  (path.take (path.length - last.length), last)

/-- The path without the parameters of its last segment, and these. -/
def splitParams (scheme path : List Char) : List Char × List Char :=
  if paramSchemes.contains (String.ofList scheme) then
    let (front, last) := splitLastSegment path
    let (name, params) := splitAtFirst ';' last
    (front ++ name, params)
  else (path, [])

/-- The parts of a reference, with `default` for an absent scheme. -/
def parseWith (default cs : List Char) : Except UriError Uri :=
  let (scheme, afterScheme) := splitScheme default (cleaned cs)
  let (authority, rest) := splitAuthority afterScheme
  match authorityError? authority with
  | some e => .error e
  | none =>
    let (beforeFragment, fragment) := splitAtFirst '#' rest
    let (fullPath, query) := splitAtFirst '?' beforeFragment
    let (path, params) := splitParams scheme fullPath
    .ok ⟨scheme, authority, path, params, query, fragment⟩

/-- The parts of a reference. -/
def parse (cs : List Char) : Except UriError Uri := parseWith [] cs

/-- `cs` after `mark`, or nothing if `cs` is empty. -/
def marked (mark : Char) (cs : List Char) : List Char :=
  if cs.isEmpty then [] else mark :: cs

/-- The reference that has the given parts. -/
def text (u : Uri) : List Char :=
  let path := u.path ++ marked ';' u.params
  let hasAuthority := !u.authority.isEmpty ||
    (!u.scheme.isEmpty && authoritySchemes.contains (String.ofList u.scheme)) ||
    path.take 2 == ['/', '/']
  let located :=
    if hasAuthority then
      '/' :: '/' :: u.authority ++
        (if path.isEmpty || path.head? == some '/' then path else '/' :: path)
    else path
  (if u.scheme.isEmpty then [] else u.scheme ++ [':']) ++ located ++
    marked '?' u.query ++ marked '#' u.fragment

/-! ## Joining -/

/-- The segments of the base path that a relative path is put after. -/
def baseSegments (path : List Char) : List (List Char) :=
  let parts := Text.pieces (· == '/') path
  if (parts.getLast?.getD []).isEmpty then parts else parts.dropLast

/-- A list of segments without the empty ones between its first and its last. -/
def dropInnerEmpty (segments : List (List Char)) : List (List Char) :=
  match segments with
  | [] => []
  | first :: rest =>
    match rest.getLast? with
    | none => [first]
    | some last => first :: rest.dropLast.filter (fun s => !s.isEmpty) ++ [last]

/-- Resolves the dot segments; `done` holds the segments so far, the last one first. -/
def removeDots : List (List Char) → List (List Char) → List (List Char)
  | done, [] => done.reverse
  | done, segment :: rest =>
    if segment = ['.', '.'] then removeDots (done.drop 1) rest
    else if segment = ['.'] then removeDots done rest
    else removeDots (segment :: done) rest

/-- The path that a relative path names below the path of the base. -/
def mergePaths (base path : List Char) : List Char :=
  let own := Text.pieces (· == '/') path
  let segments := if path.head? == some '/' then own else dropInnerEmpty (baseSegments base ++ own)
  let resolved := removeDots [] segments
  let last := segments.getLast?.getD []
  let resolved := if last = ['.'] ∨ last = ['.', '.'] then resolved ++ [[]] else resolved
  let joined := List.intercalate ['/'] resolved
  if joined.isEmpty then ['/'] else joined

/-- The parts of the reference `r` resolved against `base`, of the same relative scheme. -/
def resolve (base r : Uri) : Uri :=
  let owns := authoritySchemes.contains (String.ofList r.scheme)
  if owns && !r.authority.isEmpty then r
  else
    let authority := if owns then base.authority else r.authority
    if r.path.isEmpty && r.params.isEmpty then
      { r with
        authority, path := base.path, params := base.params
        query := if r.query.isEmpty then base.query else r.query }
    else { r with authority, path := mergePaths base.path r.path }

/-- The reference `ref` as seen from `base`. -/
def join (base ref : List Char) : Except UriError (List Char) :=
  if base.isEmpty then .ok ref
  else if ref.isEmpty then .ok base
  else do
    let b ← parse base
    let r ← parseWith b.scheme ref
    if r.scheme ≠ b.scheme ∨ !relativeSchemes.contains (String.ofList r.scheme) then return ref
    return (resolve b r).text

/-- A reference without its fragment, and the fragment. -/
def defragment (cs : List Char) : Except UriError (List Char × List Char) :=
  if cs.contains '#' then do
    let u ← parse cs
    return ({ u with fragment := [] }.text, u.fragment)
  else return (cs, [])

end Uri

/-- The reference `ref` as seen from `base`. -/
def joinUri (base ref : String) : Except UriError String :=
  (Uri.join base.toList ref.toList).map String.ofList

/-- A reference without its fragment, and the fragment. -/
def defragmentUri (uri : String) : Except UriError (String × String) :=
  (Uri.defragment uri.toList).map fun (document, fragment) =>
    (String.ofList document, String.ofList fragment)

end Wadl
