import Wadl.Json.Basic
import Wadl.Wire.Error
import Wadl.Wire.Value

/-!
# Records

A `RecordType` lists the fields of a body, as the models of a generated client do.
`RecordType.validate` makes a `Record` of the entries that are given: it looks for each field by its
name on the wire first, then by its own, reads numbers and truths from text, and says of all fields
what is wrong with them.
-/

namespace Wadl

/-- The type of one value of a field. -/
inductive FieldType where
  | text
  | integer
  | decimal
  | truth
  /-- One of some options. -/
  | oneOf (options : List String)
  deriving DecidableEq, Repr

/-- A field of a record. -/
structure FieldSpec where
  name : String
  /-- The name on the wire, where it is another one. -/
  wireName : Option String := none
  type : FieldType := .text
  isList : Bool := false
  required : Bool := false
  /-- What the field has if nothing is given, where that is not nothing or the empty list. -/
  default : Option Value := none
  deriving Repr

/-- The type of a record. -/
structure RecordType where
  name : String
  fields : List FieldSpec
  deriving Repr

/-- A record: the values of its fields, in the order in which they are declared. -/
structure Record where
  type : RecordType
  values : List Value
  deriving Repr

namespace FieldSpec

/-- The name of a field on the wire. -/
def key (f : FieldSpec) : String := f.wireName.getD f.name

/-- Whether a field may have nothing. -/
def isOptional (f : FieldSpec) : Bool := !f.required && !f.isList && f.default.isNone

/-- What a field has if nothing is given. -/
def absent (f : FieldSpec) : Value :=
  match f.default with
  | some v => v
  | none => if f.isList then .list [] else .none

end FieldSpec

namespace Record

/-- The fields of a record with their values. -/
def entries (r : Record) : List (FieldSpec × Value) := r.type.fields.zip r.values

/-- The values of a record by their names on the wire, without those that are nothing. -/
def wireEntries (r : Record) : List (String × Value) :=
  (r.entries.filter fun (_, v) => !v.isNone).map fun (f, v) => (f.key, v)

end Record

/-! ## Numbers and truths in text -/

namespace FieldText

/-- White space at the ends of a number. -/
def isSpace (c : Char) : Bool := Text.isBlank c && !(28 ≤ c.toNat && c.toNat ≤ 31)

/-- Digits without the zeros before them. A zero is kept where nothing else would be, and
underscores go with the zeros; none if something else stands there. -/
def dropZeros : (zero : Bool) → List Char → Option (List Char)
  | false, '0' :: cs => dropZeros true cs
  | false, c :: cs => if ('1' ≤ c && c ≤ '9') || c == '-' then some (c :: cs) else none
  | false, [] => none
  | true, [] => some ['0']
  | true, ['_'] => some ['_']
  | true, '.' :: cs => some ('0' :: '.' :: cs)
  | true, c :: cs =>
    if c = '0' || c = '_' then dropZeros true cs
    else if '1' ≤ c && c ≤ '9' then some (c :: cs)
    else none

/-- Characters without a fraction of zeros only. -/
def dropFraction (cs : List Char) : List Char :=
  let whole := cs.takeWhile (· != '.')
  match cs.drop whole.length with
  | _ :: fraction => if fraction.all (· == '0') then whole else cs
  | [] => cs

/-- Characters without the underscores between them; none if underscores stand at an end or
together. -/
def ungroup : (afterMark : Bool) → List Char → Option (List Char)
  | true, [] => none
  | false, [] => some []
  | afterMark, c :: cs =>
    if c = '_' then if afterMark then none else ungroup true cs
    else (ungroup false cs).map (c :: ·)

/-- Characters without a plus sign before them. -/
def dropPlus : List Char → List Char
  | '+' :: '-' :: cs => '+' :: '-' :: cs
  | '+' :: cs => cs
  | cs => cs

/-- Whether characters are a whole number, without zeros before it. -/
def isWhole (cs : List Char) : Bool :=
  let ds := match cs with
    | '-' :: rest => rest
    | rest => rest
  !ds.isEmpty && ds.all CharClass.isAsciiDigit && (ds.length = 1 || ds.head? != some '0')

/-- The whole number of a text, which may have zeros before it, underscores between its digits and a
fraction of zeros. -/
def integer (s : String) : Except FieldFault Int :=
  let cs := Text.trimList isSpace s.toList
  let found := if isWhole cs then some cs else
    ((dropZeros false (dropPlus cs)).map dropFraction).bind (ungroup true)
  match found with
  | some ds =>
    if !isWhole ds then .error .unreadableInteger
    else match Numeral.integerOf ds with
      | some i => .ok i
      | none => .error .longInteger
  | none => .error .unreadableInteger

/-- The number of a text. -/
def decimal (s : String) : Except FieldFault Binary64 :=
  let cs := Text.trimList isSpace s.toList
  let read (cs : List Char) : Option Binary64 :=
    if cs.all (·.toNat < 0x80) && !(cs.any fun c => c == '_' || Numeral.isSpace c) then
      (Numeral.decimalOf cs).map Binary64.ofDecimal
    else none
  match (read cs).or ((ungroup true s.toList).bind read) with
  | some x => .ok x
  | none => .error .unreadableDecimal

/-- The truth of a text, whatever the letter case. -/
def truth (s : String) : Except FieldFault Bool :=
  let word := String.ofList (s.toList.map Numeral.lowerAscii)
  if ["0", "f", "n", "no", "off", "false"].contains word then .ok false
  else if ["1", "t", "y", "on", "yes", "true"].contains word then .ok true
  else .error .unreadableTruth

end FieldText

/-! ## Validation -/

namespace FieldType

/-- The text that bytes are for a field; `fault` says what is wrong if they are no text. -/
def textOfBytes (fault : FieldFault) (bytes : List UInt8) : Except FieldFault String :=
  match Charset.utf8.decode? bytes with
  | some s => .ok s
  | none => .error fault

/-- A text. -/
def asText : Value → Except FieldFault String
  | .text s => .ok s
  | .bytes bs => textOfBytes .noUtf8Text bs
  | .member (.text s) => .ok s
  | .member v => .ok v.shown
  | _ => .error .noText

/-- The whole number that a number is. -/
def integerOfFloat (x : Binary64) : Except FieldFault Int :=
  match x, x.toInt? with
  | .finite .., some i => .ok i
  | .finite .., none => .error .fractional
  | _, _ => .error .infinite

/-- A whole number. -/
def asInteger : Value → Except FieldFault Int
  | .int i => .ok i
  | .bool b => .ok (if b then 1 else 0)
  | .float x => integerOfFloat x
  | .text s => FieldText.integer s
  | .bytes bs => do FieldText.integer (← textOfBytes .unreadableInteger bs)
  | .member (.int i) => .ok i
  | _ => .error .noInteger

/-- A number. -/
def asDecimal : Value → Except FieldFault Binary64
  | .float x => .ok x
  | .int i => .ok (.ofInt i)
  | .bool b => .ok (.ofInt (if b then 1 else 0))
  | .text s => FieldText.decimal s
  | .bytes bs => do FieldText.decimal (← textOfBytes .unreadableDecimal bs)
  | _ => .error .noDecimal

/-- The truth that a whole number is. -/
def truthOfInt (i : Int) : Except FieldFault Bool :=
  if i = 0 then .ok false else if i = 1 then .ok true else .error .unreadableTruth

/-- A truth. -/
def asTruth : Value → Except FieldFault Bool
  | .bool b => .ok b
  | .text s => FieldText.truth s
  | .bytes bs => do FieldText.truth (← textOfBytes .unreadableTruth bs)
  | .int i => truthOfInt i
  | .float x =>
    match integerOfFloat x with
    | .ok i => truthOfInt i
    | .error _ => .error .noTruth
  | _ => .error .noTruth

/-- One of some options. -/
def asOption (options : List String) (v : Value) : Except FieldFault Value :=
  match asText v with
  | .ok s => if options.contains s then .ok (.member (.text s)) else .error .notAnOption
  | .error _ => .error .notAnOption

/-- A value as a type has it. -/
def accept (type : FieldType) (v : Value) : Except FieldFault Value :=
  match type with
  | .text => .text <$> asText v
  | .integer => .int <$> asInteger v
  | .decimal => .float <$> asDecimal v
  | .truth => .bool <$> asTruth v
  | .oneOf options => asOption options v

end FieldType

/-- What is wrong, with the places where it is. -/
abbrev Faults := List (List String × FieldFault)

/-- The items of a list as a type has them, or what is wrong with them. -/
def acceptItems (type : FieldType) (place : String) : Nat → List Value → Faults × List Value
  | _, [] => ([], [])
  | n, v :: rest =>
    let (faults, values) := acceptItems type place (n + 1) rest
    match type.accept v with
    | .ok w => (faults, w :: values)
    | .error fault => (([place, toString n], fault) :: faults, values)

namespace FieldSpec

/-- What is given for a field, and the name by which it was found. -/
def find? (f : FieldSpec) (entries : List (String × Value)) : Option (String × Value) :=
  match entries.lookup f.key with
  | some v => some (f.key, v)
  | none => (entries.lookup f.name).map fun v => (f.name, v)

/-- A value as a field has it, or what is wrong with it. -/
def accept (f : FieldSpec) (place : String) (v : Value) : Faults × Value :=
  if f.isList then
    match v with
    | .list vs | .tuple vs =>
      let (faults, values) := acceptItems f.type place 0 vs
      (faults, .list values)
    | _ => ([([place], .noList)], .none)
  else if f.isOptional && v.isNone then ([], .none)
  else
    match f.type.accept v with
    | .ok w => ([], w)
    | .error fault => ([([place], fault)], .none)

/-- The value of a field among entries, or what is wrong with it. -/
def read (f : FieldSpec) (entries : List (String × Value)) : Faults × Value :=
  match f.find? entries with
  | some (place, v) => f.accept place v
  | none => if f.required then ([([f.key], .missing)], .none) else ([], f.absent)

end FieldSpec

/-- The record that entries make. -/
def RecordType.ofEntries (t : RecordType) (entries : List (String × Value)) :
    Except WireError Record :=
  let found := t.fields.map (·.read entries)
  let faults := (found.map (·.1)).flatten
  if faults.isEmpty then .ok ⟨t, found.map (·.2)⟩ else .error (.invalid faults)

/-- The record that a value makes. -/
def RecordType.validate (t : RecordType) : Value → Except WireError Record
  | .dict entries => t.ofEntries entries
  | _ => .error (.invalid [([], .noRecord)])

end Wadl
