import Wadl.Charset.Basic
import Wadl.Time.Calendar

/-!
# Days and times as text

Days are written `2024-01-31`, times `13:05:00.250000+01:00`. What can be read is wider: the marks
may be left out, a day may be given by its week, seconds and minutes may be missing, and a fraction
may have any number of digits.
-/

namespace Wadl

/-- A number with at least `width` digits. -/
def zeroPadded (width n : Nat) : String :=
  let ds := Nat.toDigits 10 n
  String.ofList (List.replicate (width - ds.length) '0' ++ ds)

/-- The text of a day. -/
def Date.text (d : Date) : String :=
  zeroPadded 4 d.year ++ "-" ++ zeroPadded 2 d.month ++ "-" ++ zeroPadded 2 d.day

/-- The text of an offset. -/
def offsetText (offset : Int) : String :=
  let n := offset.natAbs
  let seconds := n / 1000000
  (if offset < 0 then "-" else "+") ++ zeroPadded 2 (seconds / 3600) ++ ":" ++
    zeroPadded 2 (seconds / 60 % 60) ++
    (if n % 60000000 = 0 then ""
      else ":" ++ zeroPadded 2 (seconds % 60) ++
        if n % 1000000 = 0 then "" else "." ++ zeroPadded 6 (n % 1000000))

/-- The text of a time of day. -/
def Clock.text (c : Clock) : String :=
  zeroPadded 2 c.hour ++ ":" ++ zeroPadded 2 c.minute ++ ":" ++ zeroPadded 2 c.second ++
    (if c.micro = 0 then "" else "." ++ zeroPadded 6 c.micro) ++
    (c.offset.map offsetText).getD ""

/-- The text of a time of a day. -/
def DateTime.text (t : DateTime) : String := t.date.text ++ "T" ++ t.clock.text

/-- The text of a span of time. -/
def Duration.text (d : Duration) : String :=
  (if d.days = 0 then ""
    else toString d.days ++ (if d.days.natAbs = 1 then " day, " else " days, ")) ++
    toString (d.seconds / 3600) ++ ":" ++ zeroPadded 2 (d.seconds / 60 % 60) ++ ":" ++
    zeroPadded 2 (d.seconds % 60) ++ (if d.micros = 0 then "" else "." ++ zeroPadded 6 d.micros)

namespace TimeText

/-- The value of a digit. -/
def digit? (c : Char) : Option Nat := if '0' ≤ c ∧ c ≤ '9' then some (c.toNat - 48) else none

/-- A number of exactly `width` digits, and the rest. -/
def digits (width : Nat) (cs : List Char) : Option (Nat × List Char) := do
  let ds ← (cs.take width).mapM digit?
  if ds.length = width then return (ds.foldl (fun n d => 10 * n + d) 0, cs.drop width) else none

/-! ## Days -/

/-- A day whose week follows; `marked` says whether a hyphen stood before it. Without a weekday, it
is the first day of the week. -/
def week (year : Nat) (marked : Bool) (cs : List Char) : Option Date := do
  let (week, rest) ← digits 2 cs
  match marked, rest with
  | _, [] => Date.ofWeek? year week 1
  | true, '-' :: rest => do Date.ofWeek? year week (← digits 1 rest).1
  | true, _ => none
  | false, rest => do Date.ofWeek? year week (← digits 1 rest).1

/-- A day; what follows it does not matter. -/
def date (cs : List Char) : Option Date := do
  let (year, rest) ← digits 4 cs
  let (marked, rest) := match rest with
    | '-' :: r => (true, r)
    | r => (false, r)
  let d ← match rest with
    | 'W' :: rest => week year marked rest
    | rest => do
      let (month, rest) ← digits 2 rest
      let rest ← match marked, rest with
        | true, '-' :: r => some r
        | true, _ => none
        | false, r => some r
      pure ⟨year, month, (← digits 2 rest).1⟩
  if d.isValid then return d else none

/-! ## Times -/

/-- Hours, minutes, seconds and microseconds. -/
structure Parts where
  hour : Nat := 0
  minute : Nat := 0
  second : Nat := 0
  micro : Nat := 0

/-- Parts with one more of the first three. -/
def Parts.set (p : Parts) (i n : Nat) : Parts :=
  match i with
  | 0 => { p with hour := n }
  | 1 => { p with minute := n }
  | _ => { p with second := n }

/-- The microseconds of a fraction, of its first six digits, and whether anything but digits
follows. -/
def fraction (cs : List Char) : Option (Nat × Bool) := do
  let width := min 6 cs.length
  let (n, rest) ← digits width cs
  return (n * Nat.pow 10 (6 - width), !(rest.all fun c => (digit? c).isSome))

/-- The parts of a time from the part `i` on, and whether something is left over at the end.
`colons` says whether colons part them, once that is known. -/
def parts (i : Nat) (colons : Option Bool) (p : Parts) :
    (fuel : Nat) → List Char → Option (Parts × Bool)
  | 0, _ => none
  | fuel + 1, cs => do
    let (n, rest) ← digits 2 cs
    let p := p.set i n
    let asFraction (cs : List Char) : Option (Parts × Bool) := do
      let (micro, leftOver) ← fraction cs
      return ({ p with micro }, leftOver)
    match rest with
    | [] => return (p, false)
    | [_] => return (p, true)
    | c :: after =>
      let colons := colons.getD (c == ':')
      if colons && c == ':' then
        if i = 2 then asFraction after else parts (i + 1) (some colons) p fuel after
      else if c == '.' || c == ',' then asFraction after
      else if !colons then
        if i = 2 then asFraction rest else parts (i + 1) (some colons) p fuel rest
      else none

/-- Whether a character begins an offset. -/
def startsOffset (c : Char) : Bool := c == '+' || c == '-' || c == 'Z'

/-- A time of day. -/
def clock (cs : List Char) : Option Clock := do
  let time := cs.takeWhile (!startsOffset ·)
  let rest := cs.drop time.length
  let (p, leftOver) ← parts 0 none {} 4 time
  let offset ← match rest with
    | [] => if leftOver then none else some none
    | 'Z' :: more => if more.isEmpty then some (some 0) else none
    | sign :: more => do
      let (q, leftOver) ← parts 0 none {} 4 more
      if leftOver then none
      else
        let n : Int := ((q.hour * 3600 + q.minute * 60 + q.second) * 1000000 + q.micro : Nat)
        some (some (if sign = '-' then -n else n))
  let c : Clock := ⟨p.hour, p.minute, p.second, p.micro, offset⟩
  if c.isValid then return c else none

/-- Where a day ends and a time begins. -/
def separator (cs : List Char) : Option Nat :=
  let n := cs.length
  let isDigitAt (i : Nat) := ((cs[i]?).bind digit?).isSome
  if n = 7 then some 7
  else if cs[4]? = some '-' then
    if cs[5]? = some 'W' then
      if 8 < n ∧ cs[8]? = some '-' then
        if n = 9 then none
        else if 10 < n ∧ isDigitAt 10 then some 8
        else some 10
      else some 8
    else some 10
  else if cs[4]? = some 'W' then
    let run := ((cs.drop 7).takeWhile fun c => (digit? c).isSome).length
    let pos := 7 + run
    if pos < 9 then some pos else if pos % 2 = 0 then some 7 else some 8
  else some 8

end TimeText

/-- The bytes of a text, each as a character. -/
def TimeText.octets (s : String) : List Char := (utf8Bytes s).map fun b => Char.ofNat b.toNat

/-- The count of the bytes of a character that begins with a byte. -/
def TimeText.widthAt (first : Option Char) : Nat :=
  match first with
  | none => 1
  | some c =>
    if c.toNat < 0x80 then 1 else if c.toNat < 0xe0 then 2 else if c.toNat < 0xf0 then 3 else 4

/-- The day of a text. -/
def readDate (s : String) : Option Date :=
  let cs := TimeText.octets s
  if cs.length = 7 ∨ cs.length = 8 ∨ cs.length = 10 then TimeText.date cs else none

/-- The time of day of a text, which may begin with a `T`. -/
def readClock (s : String) : Option Clock :=
  match TimeText.octets s with
  | 'T' :: cs => TimeText.clock cs
  | cs => TimeText.clock cs

/-- The time of a day of a text; any character may part them. Without a time, it is midnight. -/
def readDateTime (s : String) : Option DateTime := do
  let cs := TimeText.octets s
  if cs.length < 7 then none
  else
    let cut ← TimeText.separator cs
    let d ← TimeText.date (cs.take cut)
    if cs.length ≤ cut then return ⟨d, ⟨0, 0, 0, 0, none⟩⟩
    else return ⟨d, ← TimeText.clock (cs.drop (cut + TimeText.widthAt cs[cut]?))⟩

end Wadl
