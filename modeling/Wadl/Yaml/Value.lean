import Wadl.Text.Base64
import Wadl.Wire.Value
import Wadl.Yaml.Node

/-!
# Values of a YAML document

`Yaml.read` gives the value of a document. A plain text without a tag is a number, a truth, a time
or nothing if it looks like one (`implicitKind`), and a text otherwise. Mappings can take entries
over from others with the key `<<`.
-/

namespace Wadl.Yaml

/-- A value of a document. -/
inductive Value where
  | scalar (v : Wadl.Value)
  | list (items : List Value)
  | map (entries : List (Value × Value))
  deriving Repr, Inhabited

/-- Why a document has no value. -/
inductive ReadError where
  /-- The text is no document, or a tag does not fit. -/
  | malformed
  /-- A number, a day or a time cannot be. -/
  | impossible
  /-- The text of a number is empty. -/
  | emptyNumber
  /-- The text of a truth is none. -/
  | noTruth
  /-- The text of a time is none. -/
  | noTime
  deriving DecidableEq, Repr

/-! ## What plain texts look like -/

/-- Characters without the sign before them. -/
def unsigned : List Char → List Char
  | '+' :: cs => cs
  | '-' :: cs => cs
  | cs => cs

/-- Digits and underscores. -/
def isDigitMark (c : Char) : Bool := CharClass.isAsciiDigit c || c == '_'

/-- Whether characters begin with a digit and go on with digits and underscores. -/
def isGrouped : List Char → Bool
  | [] => false
  | c :: cs => CharClass.isAsciiDigit c && cs.all isDigitMark

/-- Whether characters are a number below sixty. -/
def isSixtieth : List Char → Bool
  | [a] => CharClass.isAsciiDigit a
  | [a, b] => '0' ≤ a && a ≤ '5' && CharClass.isAsciiDigit b
  | _ => false

/-- Whether characters are an exponent with a sign, or nothing. -/
def isExponent : List Char → Bool
  | [] => true
  | e :: s :: ds =>
    (e == 'e' || e == 'E') && (s == '+' || s == '-') && !ds.isEmpty && ds.all CharClass.isAsciiDigit
  | _ => false

/-- Whether a text looks like a whole number. -/
def looksInteger (cs : List Char) : Bool :=
  match unsigned cs with
  | ['0'] => true
  | '0' :: 'b' :: ds => !ds.isEmpty && ds.all fun c => c == '0' || c == '1' || c == '_'
  | '0' :: 'x' :: ds => !ds.isEmpty && ds.all fun c => (Digit.hexValue? c).isSome || c == '_'
  | '0' :: ds => ds.all fun c => ('0' ≤ c && c ≤ '7') || c == '_'
  | ds =>
    match Text.pieces (· == ':') ds with
    | first :: rest => isGrouped first && rest.all isSixtieth
    | [] => false

/-- Whether a text looks like a number with a point. -/
def looksDecimal (cs : List Char) : Bool :=
  let us := unsigned cs
  let word := String.ofList us
  let whole := us.takeWhile (· != '.')
  let after := us.drop (whole.length + 1)
  let fraction := after.takeWhile isDigitMark
  let rest := after.drop fraction.length
  if [".inf", ".Inf", ".INF"].contains word then true
  else if [".nan", ".NaN", ".NAN"].contains (String.ofList cs) then true
  else if !us.contains '.' then false
  else if whole.isEmpty then cs.head? == some '.' && isGrouped fraction && isExponent rest
  else
    match Text.pieces (· == ':') whole with
    | [first] => isGrouped first && isExponent rest
    | first :: parts => isGrouped first && parts.all isSixtieth && rest.isEmpty
    | [] => false

/-- A number of `least` to `most` digits, and what stands after it. -/
def digitsUpTo (least most : Nat) (cs : List Char) : Option (Nat × List Char) :=
  let ds := (cs.take most).takeWhile CharClass.isAsciiDigit
  if least ≤ ds.length then some (Numeral.digitsValue ds, cs.drop ds.length) else none

/-- What stands after a character. -/
def after? (c : Char) : List Char → Option (List Char)
  | x :: xs => if x = c then some xs else none
  | [] => none

/-- The parts of a time. -/
structure TimeParts where
  year : Nat
  month : Nat
  day : Nat
  /-- The number of digits of the month and of the day. -/
  isPadded : Bool
  /-- Hours, minutes, seconds, microseconds and the offset in minutes. -/
  clock : Option (Nat × Nat × Nat × Nat × Option Int)

/-- The offset of a time, in minutes. -/
def timeOffset? (cs : List Char) : Option (Option Int) :=
  let rest := cs.dropWhile fun c => c == ' ' || c == '\t'
  match rest with
  | [] => if cs.isEmpty then some none else none
  | ['Z'] => some (some 0)
  | s :: rest => do
    guard (s = '+' || s = '-')
    let (hours, rest) ← digitsUpTo 1 2 rest
    let minutes ← match rest with
      | [] => some 0
      | _ => do
        let (minutes, rest) ← digitsUpTo 2 2 (← after? ':' rest)
        guard rest.isEmpty
        some minutes
    let total : Int := 60 * hours + minutes
    return some (if s = '-' then -total else total)

/-- The microseconds that digits after a point are. -/
def microsOf (ds : List Char) : Nat :=
  let ds := ds.take 6
  Numeral.digitsValue (ds ++ List.replicate (6 - ds.length) '0')

/-- The time of day after a day. -/
def clockParts? (cs : List Char) : Option (Nat × Nat × Nat × Nat × Option Int) := do
  let rest ← match cs with
    | 'T' :: rest | 't' :: rest => some rest
    | _ =>
      let rest := cs.dropWhile fun c => c == ' ' || c == '\t'
      if rest.length < cs.length then some rest else none
  let (hour, rest) ← digitsUpTo 1 2 rest
  let (minute, rest) ← digitsUpTo 2 2 (← after? ':' rest)
  let (second, rest) ← digitsUpTo 2 2 (← after? ':' rest)
  let (fraction, rest) := match rest with
    | '.' :: more =>
      let ds := more.takeWhile CharClass.isAsciiDigit
      (ds, more.drop ds.length)
    | _ => ([], rest)
  return (hour, minute, second, microsOf fraction, ← timeOffset? rest)

/-- The parts of a day or a time. -/
def timeParts? (cs : List Char) : Option TimeParts := do
  let (year, rest) ← digitsUpTo 4 4 cs
  let monthText ← after? '-' rest
  let (month, rest) ← digitsUpTo 1 2 monthText
  let dayText ← after? '-' rest
  let (day, rest) ← digitsUpTo 1 2 dayText
  let isPadded := cs.length - rest.length = 10
  if rest.isEmpty then return ⟨year, month, day, isPadded, none⟩
  else return ⟨year, month, day, isPadded, some (← clockParts? rest)⟩

/-- Whether a text looks like a day or a time. -/
def looksTime (cs : List Char) : Bool :=
  match timeParts? cs with
  | some parts => parts.isPadded || parts.clock.isSome
  | none => false

/-! ## Types -/

/-- What a node can be. -/
inductive Kind where
  | null
  | truth
  | integer
  | decimal
  | bytes
  | time
  | text
  | list
  | map
  | set
  /-- A list of pairs. -/
  | pairs
  /-- The key of entries that are taken over. -/
  | merge
  /-- The key `=`. -/
  | default
  | unknown
  deriving DecidableEq, Repr

/-- The truths that plain texts are. -/
def truthWords : List (String × Bool) :=
  [("yes", true), ("no", false), ("true", true), ("false", false), ("on", true), ("off", false)]

/-- Whether a word is written in small letters, in capitals, or with a capital first. -/
def isUniform (s lower : String) : Bool :=
  let capital := match lower.toList with
    | [] => []
    | c :: cs => c.toUpper :: cs
  s.toList == lower.toList || s.toList == lower.toList.map Char.toUpper || s.toList == capital

/-- What a plain text looks like. -/
def implicitKind (s : String) : Kind :=
  let cs := s.toList
  if truthWords.any fun (w, _) => isUniform s w then .truth
  else if looksDecimal cs then .decimal
  else if looksInteger cs then .integer
  else if s = "<<" then .merge
  else if s = "" || s = "~" || isUniform s "null" then .null
  else if looksTime cs then .time
  else if s = "=" then .default
  else .text

/-- The types that tags name. -/
def standardKinds : List (String × Kind) :=
  [("null", .null), ("bool", .truth), ("int", .integer), ("float", .decimal), ("binary", .bytes),
    ("timestamp", .time), ("str", .text), ("seq", .list), ("map", .map), ("set", .set),
    ("omap", .pairs), ("pairs", .pairs), ("merge", .merge), ("value", .default)]

/-- What a tag says. -/
def kindOfTag (tag : String) : Kind :=
  let start := "tag:yaml.org,2002:"
  if tag.startsWith start then (standardKinds.lookup (tag.drop start.length).toString).getD .unknown
  else .unknown

/-- What a node is. -/
def Node.kind : Node → Kind
  | .scalar .open s => implicitKind s
  | .scalar .text _ => .text
  | .scalar (.named tag) _ => kindOfTag tag
  | .sequence (.named tag) _ => kindOfTag tag
  | .sequence .. => .list
  | .mapping (.named tag) _ => kindOfTag tag
  | .mapping .. => .map
  | .circle => .list

/-! ## Scalars -/

/-- The number that digits are in a base. -/
def inBase (base : Nat) (cs : List Char) : Except ReadError Int :=
  match cs.mapM Digit.hexValue? with
  | some ds =>
    if ds.isEmpty || ds.any (base ≤ ·) then .error .impossible
    else .ok (ds.foldl (fun n d => base * n + d) 0 : Nat)
  | none => .error .impossible

/-- The number of a text. -/
def wholeNumber (cs : List Char) : Except ReadError Int :=
  match Numeral.integerOf cs with
  | some i => .ok i
  | none => .error .impossible

/-- A whole number, which can have a base of its own or count in sixties. -/
def integer (s : String) : Except ReadError Int := do
  let cs := s.toList.filter (· != '_')
  if cs.isEmpty then throw .emptyNumber
  let sign : Int := if cs.head? = some '-' then -1 else 1
  let found ← match unsigned cs with
    | [] => throw .emptyNumber
    | ['0'] => pure 0
    | '0' :: 'b' :: ds => inBase 2 ds
    | '0' :: 'x' :: ds => inBase 16 ds
    | '0' :: ds => inBase 8 ds
    | ds =>
      let parts ← (Text.pieces (· == ':') ds).mapM wholeNumber
      pure (parts.foldl (fun n d => 60 * n + d) 0)
  return sign * found

/-- A number with a point, which can count in sixties. -/
def decimal (s : String) : Except ReadError Binary64 := do
  let cs := (s.toList.filter (· != '_')).map Numeral.lowerAscii
  if cs.isEmpty then throw .emptyNumber
  let negative := cs.head? = some '-'
  let us := unsigned cs
  if us = ".inf".toList then return .infinite negative
  else if us = ".nan".toList then return .nan
  else
    let parts ← (Text.pieces (· == ':') us).mapM fun ds =>
      match Numeral.decimalOf ds with
      | some (.finite neg digits e) => .ok (neg, digits, e)
      | _ => .error .impossible
    match parts with
    | [(neg, digits, e)] => return .ofScientific (neg != negative) digits e
    | _ =>
      let least := (parts.map (·.2.2)).foldl min 0
      let total := parts.foldl (fun (n : Nat) (_, digits, e) =>
        60 * n + digits * Nat.pow 10 (e - least).toNat) 0
      return .ofScientific negative total least

/-- A day or a time. -/
def time (s : String) : Except ReadError Wadl.Value :=
  match timeParts? s.toList with
  | none => .error .noTime
  | some parts =>
    let date : Date := ⟨parts.year, parts.month, parts.day⟩
    match parts.clock with
    | none => if date.isValid then .ok (.date date) else .error .impossible
    | some (hour, minute, second, micro, offset) =>
      let clock : Clock := ⟨hour, minute, second, micro, offset.map (· * 60000000)⟩
      if date.isValid && clock.isValid then .ok (.dateTime ⟨date, clock⟩) else .error .impossible

/-- Bytes; characters that are no digits are skipped. -/
def bytes (s : String) : Except ReadError (List UInt8) :=
  let kept := s.toList.filter fun c => (Base64.value? c).isSome || c == '='
  match Base64.decode? (String.ofList kept) with
  | some bs => .ok bs
  | none => .error .malformed

/-- A truth, whatever the letter case. -/
def truth (s : String) : Except ReadError Bool :=
  match truthWords.lookup (Case.lower s) with
  | some b => .ok b
  | none => .error .noTruth

/-- A text as a value of a type. -/
def scalarValue (kind : Kind) (s : String) : Except ReadError Value :=
  match kind with
  | .null => .ok (.scalar .none)
  | .truth => (.scalar ∘ .bool) <$> truth s
  | .integer => (.scalar ∘ .int) <$> integer s
  | .decimal => (.scalar ∘ .float) <$> decimal s
  | .bytes => (.scalar ∘ .bytes) <$> bytes s
  | .time => .scalar <$> time s
  | .text => .ok (.scalar (.text s))
  | _ => .error .malformed

/-! ## Collections -/

/-- The number that a value is as a key. -/
def keyNumber? : Wadl.Value → Option Int
  | .bool b => some (if b then 1 else 0)
  | .int i => some i
  | .float x => x.toInt?
  | _ => none

/-- Whether two keys are one. -/
def sameKey : Value → Value → Bool
  | .scalar a, .scalar b =>
    match keyNumber? a, keyNumber? b with
    | some m, some n => m == n
    | none, none => a.shown == b.shown
    | _, _ => false
  | _, _ => false

/-- Entries in which a key has a value. -/
def putEntry (entries : List (Value × Value)) (key value : Value) : List (Value × Value) :=
  if entries.any (sameKey key ·.1) then
    entries.map fun (k, v) => if sameKey key k then (k, value) else (k, v)
  else entries ++ [(key, value)]

/-- The entries of a mapping, after those that it takes over. -/
def flatten : (fuel : Nat) → List (Node × Node) → Except ReadError (List (Node × Node))
  | 0, _ => .error .malformed
  | n + 1, entries => do
    let own := entries.filter (·.1.kind != .merge)
    let taken ← (entries.filter (·.1.kind == .merge)).mapM fun (_, source) =>
      match source with
      | .mapping _ inner => flatten n inner
      | .sequence _ items => do
        let parts ← items.mapM fun (item : Node) =>
          match item with
          | .mapping _ inner => flatten n inner
          | _ => .error .malformed
        return parts.reverse.flatten
      | _ => .error .malformed
    return taken.flatten ++ own

mutual

/-- The value of a node. -/
def valueOf : (fuel : Nat) → Node → Except ReadError Value
  | 0, _ => .error .malformed
  | _, .circle => .ok (.list [])
  | n + 1, node@(.scalar _ s) => do
    let _ := n
    scalarValue node.kind s
  | n + 1, node@(.sequence _ items) =>
    match node.kind with
    | .list => .list <$> listOf n items
    | .pairs => .list <$> pairsOf n items
    | _ => .error .malformed
  | n + 1, node@(.mapping _ entries) =>
    match node.kind with
    | .map => do return .map (← entriesOf n [] (← flatten n entries))
    | .set => do return .list ((← entriesOf n [] (← flatten n entries)).map (·.1))
    | _ => .error .malformed

/-- The values of some nodes. -/
def listOf : (fuel : Nat) → List Node → Except ReadError (List Value)
  | 0, _ => .error .malformed
  | _, [] => .ok []
  | n + 1, node :: rest => do return (← valueOf n node) :: (← listOf n rest)

/-- The pairs that mappings with one entry are. -/
def pairsOf : (fuel : Nat) → List Node → Except ReadError (List Value)
  | 0, _ => .error .malformed
  | _, [] => .ok []
  | n + 1, .mapping _ [(key, value)] :: rest => do
    return .list [← valueOf n key, ← valueOf n value] :: (← pairsOf n rest)
  | _, _ => .error .malformed

/-- The entries of a mapping; a later one replaces an earlier one with its key. -/
def entriesOf : (fuel : Nat) → List (Value × Value) → List (Node × Node) →
    Except ReadError (List (Value × Value))
  | 0, _, _ => .error .malformed
  | _, done, [] => .ok done
  | n + 1, done, (key, value) :: rest => do
    let k ← match key with
      | .scalar _ s => scalarValue (if key.kind = .default then .text else key.kind) s
      | _ => .error .malformed
    entriesOf n (putEntry done k (← valueOf n value)) rest

end

/-- The value of a document; nothing if it is empty. -/
def read (text : String) : Except ReadError Value :=
  match (tokens? text).bind Node.ofTokens? with
  | none => .error .malformed
  | some none => .ok (.scalar .none)
  | some (some node) => valueOf (64 * text.length + 64) node

end Wadl.Yaml
