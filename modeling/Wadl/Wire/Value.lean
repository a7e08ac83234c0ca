import Wadl.Number.Binary64
import Wadl.Text.Quoted
import Wadl.Time.Text

/-!
# Values of parameters

A `Value` is what a program hands to a client or gets from it. `Value.shown` is its text as a
message shows it; `Value.wireText?` is its text in a URL, a header or a form, which bytes have only
if they are UTF-8, and whole numbers only if they have not too many digits.
-/

namespace Wadl

/-- A value of a parameter or a body. -/
inductive Value where
  | none
  | bool (b : Bool)
  | int (i : Int)
  | float (x : Binary64)
  | text (s : String)
  | bytes (bytes : List UInt8)
  /-- A member of an enum, with its value. -/
  | member (value : Value)
  | date (d : Date)
  | dateTime (t : DateTime)
  | time (c : Clock)
  | duration (d : Duration)
  | list (items : List Value)
  | tuple (items : List Value)
  | dict (entries : List (String × Value))
  deriving Repr, Inhabited

/-! ## Text in messages -/

/-- The text of some arguments in brackets. -/
def callText (name : String) (args : List String) : String :=
  name ++ "(" ++ ", ".intercalate args ++ ")"

/-- A span of time as a message shows it. -/
def Duration.shown (d : Duration) : String :=
  let parts :=
    (if d.days = 0 then [] else ["days=" ++ toString d.days]) ++
    (if d.seconds = 0 then [] else ["seconds=" ++ toString d.seconds]) ++
    (if d.micros = 0 then [] else ["microseconds=" ++ toString d.micros])
  callText "datetime.timedelta" (if parts.isEmpty then ["0"] else parts)

/-- The span of time of a number of microseconds. -/
def Duration.ofMicros (n : Int) : Duration :=
  ⟨n / 86400000000, (n % 86400000000 / 1000000).toNat, (n % 1000000).toNat⟩

/-- An offset as a message shows it. -/
def offsetShown (offset : Int) : String :=
  if offset = 0 then "datetime.timezone.utc"
  else callText "datetime.timezone" [(Duration.ofMicros offset).shown]

/-- The parts of a time of day, without seconds and fractions that are zero. -/
def Clock.parts (c : Clock) : List String :=
  [toString c.hour, toString c.minute] ++
    (if c.second = 0 ∧ c.micro = 0 then [] else [toString c.second]) ++
    (if c.micro = 0 then [] else [toString c.micro]) ++
    (c.offset.map fun o => "tzinfo=" ++ offsetShown o).toList

/-- The parts of a day. -/
def Date.parts (d : Date) : List String := [toString d.year, toString d.month, toString d.day]

namespace Value

mutual

/-- A value as a message shows it. -/
def shown : Value → String
  | none => "None"
  | bool b => if b then "True" else "False"
  | int i => toString i
  | float x => x.text
  | text s => quoted s
  | bytes bs => quotedBytes bs
  | member v => "<Enum.member: " ++ v.shown ++ ">"
  | date d => callText "datetime.date" d.parts
  | dateTime t => callText "datetime.datetime" (t.date.parts ++ t.clock.parts)
  | time c => callText "datetime.time" c.parts
  | duration d => d.shown
  | list items => "[" ++ ", ".intercalate (shownList items) ++ "]"
  | tuple [item] => "(" ++ item.shown ++ ",)"
  | tuple items => "(" ++ ", ".intercalate (shownList items) ++ ")"
  | dict entries => "\x7b" ++ ", ".intercalate (shownEntries entries) ++ "\x7d"

/-- Values as a message shows them. -/
def shownList : List Value → List String
  | [] => []
  | v :: rest => v.shown :: shownList rest

/-- Entries as a message shows them. -/
def shownEntries : List (String × Value) → List String
  | [] => []
  | (name, v) :: rest => (quoted name ++ ": " ++ v.shown) :: shownEntries rest

end

/-! ## Text on the wire -/

mutual

/-- Whether all whole numbers in a value can be written. -/
def allWritable : Value → Bool
  | int i => Numeral.isWritable i
  | member v => v.allWritable
  | list items => allWritableIn items
  | tuple items => allWritableIn items
  | dict entries => allWritableEntries entries
  | _ => true

/-- Whether all whole numbers in some values can be written. -/
def allWritableIn : List Value → Bool
  | [] => true
  | v :: rest => v.allWritable && allWritableIn rest

/-- Whether all whole numbers in some entries can be written. -/
def allWritableEntries : List (String × Value) → Bool
  | [] => true
  | (_, v) :: rest => v.allWritable && allWritableEntries rest

end

/-- What a member of an enum stands for. -/
def plain : Value → Value
  | member v => v
  | v => v

/-- The text of a value that is no member of an enum. Bytes have one only if they are UTF-8, and a
value with a whole number only if that can be written. -/
def plainText? : Value → Option String
  | bool b => some (if b then "true" else "false")
  | text s => some s
  | bytes bs => Charset.utf8.decode? bs
  | date d => some d.text
  | dateTime t => some t.text
  | time c => some c.text
  | duration d => some d.text
  | v => if v.allWritable then some v.shown else Option.none

/-- The text of a value in a URL, a header or a form. -/
def wireText? (v : Value) : Option String := v.plain.plainText?

/-- The values that a parameter is sent with: those of a list, or the value itself. -/
def items : Value → List Value
  | list vs => vs
  | tuple vs => vs
  | v => [v]

/-- Whether a parameter is not given. -/
def isNone : Value → Bool
  | none => true
  | _ => false

end Value

end Wadl
