/-!
# Classes of characters

A property of characters that Unicode lists is kept as a text of runs: a letter for the class and
the number of consecutive code points that have it. `RunTable.lookup` walks the runs.

What the tool asks of a character is whether it may stand in a literal as it is (`isPrintable`),
whether it is a letter or a number (`isAlphanumeric`), and whether it may begin or continue a name
of the generated source (`isNameStart`, `isNamePart`). ASCII is decided by comparison; all other
characters by a table of Unicode 14.

The decimal digits of each script are ten consecutive code points; `Digit.value` finds the value of
a character from the code point of its script's zero. `Digit.hexValue?` knows the hexadecimal digits
of ASCII.
-/

namespace Wadl

/-! ## Tables of runs -/

/-- Consecutive runs of code points, each with its class letter and its length, from `first` on. -/
structure RunTable where
  first : Nat
  runs : List (Char × Nat)

namespace RunTable

/-- One character of a written table: a digit belongs to the length of the run before it. -/
def readStep (runs : List (Char × Nat)) (c : Char) : List (Char × Nat) :=
  if c.isDigit then
    match runs with
    | (k, n) :: rest => (k, n * 10 + (c.toNat - '0'.toNat)) :: rest
    | [] => []
  else (c, 0) :: runs

/-- The runs written in `text`, such as `U3L10`. -/
def read (first : Nat) (text : String) : RunTable :=
  ⟨first, (text.toList.foldl readStep []).reverse⟩

/-- The class of the code point `n` places after the start of the runs. -/
def classAt : List (Char × Nat) → Nat → Option Char
  | [], _ => none
  | (k, len) :: rest, n => if n < len then some k else classAt rest (n - len)

/-- The class letter of `c`, if a run covers it. -/
def lookup (t : RunTable) (c : Char) : Option Char :=
  if c.toNat < t.first then none else classAt t.runs (c.toNat - t.first)

end RunTable

end Wadl

namespace Wadl.CharClass

/-! ## Classes -/

/-- The classes of the code points from U+0080 on: `L` letters, `D` decimal digits, `N` other
numbers, `M` marks that continue a name, `I` other characters that begin a name, `S` symbols and
`U` characters that are not printed as they are. -/
def table : RunTable := RunTable.read 0x80 (
  "U33S9L1S2U1S4N2S1L1S1M1S1N1L1S1N3S1L23S1L31S1L458S4L12S14L5S7L1S1L1S17M112L5S1L2U2N1L3S1L1U4" ++
  "S2L1M1L3U1L1U1L20U1L83S1L139S1M5S2L166U1L38U2L1S6L41S2U2S3U1M45S1M1S1M2S1M2S1M1U8L27U4L4S2U1" ++
  "7S10M11S1U1S3L43M21D10S4L2M1L99S1L1M7U1S1M6L2M2S1M4L2D10L3S2L1S14U2L1M1L30M27U2L89M11L1U14D1" ++
  "0L33M9L2S4L1U2M1S2L22M4L1M9L1M3L1M5U2S15U1L25M3U2S1U1L11U5L24S1L6U9M8L42M24U1M33L54M3L1M18L1" ++
  "M7L10M2S2D10S1L16M3U1L8U2L2U2L22U1L7U1L1U3L4U2M1L1M7U2M2U2M3L1U8M1U4L2U1L3M2U2D10L2S2N6S2L1S" ++
  "1M1U2M3U1L6U4L2U2L22U1L7U1L2U1L2U1L2U2M1U1M5U4M2U2M3U3M1U7L4U1L1U7D10M2L3M1S1U10M3U1L9U1L3U1" ++
  "L22U1L7U1L2U1L5U2M1L1M8U1M3U1M3U2L1U15L2M2U2D10S2U7L1M6U1M3U1L8U2L2U2L22U1L7U1L2U1L5U2M1L1M7" ++
  "U2M2U2M3U7M3U4L2U1L3M2U2D10S1L1N6U10M1L1U1L6U3L3U1L4U3L2U1L1U1L2U3L2U3L3U3L12U4M5U3M3U1M4U2L" ++
  "1U6M1U14D10N3S8U5M5L8U1L3U1L23U1L16U2M1L1M7U1M3U1M4U7M2U1L3U2L1U2L2M2U2D10U7S1N7S1L1M3S1L8U1" ++
  "L3U1L23U1L10U1L5U2M1L1M7U1M3U1M4U7M2U6L2U1L2M2U2D10U1L2U13M4L9U1L3U1L41M2L1M7U1M3U1M4L1S1U4L" ++
  "3M1N7L3M2U2D10N9S1L6U1M3U1L18U3L24U1L9U1L1U2L7U3M1U4M6U1M1U1M8U6D10U2M2S1U12L48M1L1D1M7U4S1L" ++
  "7M8S1D10S2U37L2U1L1U1L5U1L24U1L1U1L10M1L1D1M9L1U2L5U1L1U1M6U2D10U2L4U32L1S23M2S6D10N10S1M1S1" ++
  "M1S1M1S4M2L8U1L36U4M20S1M2L5M11U1M36U1S8M1S6U1S13U37L43M20L1D10S6L6M4L4M3L1M3L2M7L3M4L13M12L" ++
  "1M1D10M4S2L38U1L1U5L1U2L43S1L333U1L4U2L7U1L1U1L4U2L41U1L4U2L33U1L4U2L7U1L1U1L4U2L15U1L57U1L4" ++
  "U2L67U2M3S9D9N11U3L16S10U6L86U2L6U2S1L620S2L17U1L26S2U3L75S3L11U7L18M4U9L19M3S2U9L18M2U12L13" ++
  "U1L3U1M2U12L52M32S3L1S4L1M1U2D10U6N10U6S11M3U1M1D10U6L89U7L5I2L34M1L1U5L70U10L31U1M12U4M12U4" ++
  "S1U3S2D10L30U2L5U11L44U4L26U6D11U3S34L23M5U2S2L53M10U1M29U2M1D10U6D10U6S7L1S6U2M14S1M16U49M5" ++
  "L47M17L8U3D10S17M9S11U1M3L30M13L2D10L44M14U8S4L36M20U3S5D10U3L3D10L36S2L9U7L43U2L3S8U8M3S1M2" ++
  "1L4M1L6M1L2M3L1U5L192M64L278U2L6U2L38U2L6U2L8U1L1U1L1U1L1U1L31U2L53U1L7S1L1S3L3U1L7S3L4U2L6U" ++
  "1S3L13S3U2L3U1L7S2U17S24U8S15M2S19M1S10U17N1L1U2N6S5L1N10S5U1L13U3S33U15M13S4M1S3M12U15S2L1S" ++
  "4L1S2L10S1L1S2I1L5S6L1S1L1S1L1S1L4I1L11S2L4S5L5S4L1S1N16L41N1S2U4S663U25S11U21N60S78N22S630N" ++
  "30S992U2S32U1S105L229S6L4M3L2U5S4N1S2L38U1L1U5L1U2L56U7L1S1U14M1L23U9L7U1L7U1L7U1L7U1L7U1L7U" ++
  "1L7U1L7U1M32S47N1S46U34S26U1S89U12S214U26S12U5S4L3S25L9M6S1L5S2L5S3U1L86U2M2S2L3S1L90S1L4U5L" ++
  "43U1L94U1S2N4S10L32S36U12L16S31U1N10S30N8S1N15S32N10S39N15S320L6592S64L22157U3S55U9L46S2L269" ++
  "S3L16D10L2U20L47M1S4M10S1L31M2L80M2S6U8S23L9S2L103S2L64U5L2U1L1U1L5U24L16M1L3M1L4M1L23M5S4M1" ++
  "U3N6S4U6L52S4U8M2L50M18U8S2D10U6M18L6S3L1S1L2M1D10L28M8S2L23M13U11S1L29U3M4L47M14S13U1L1D10U" ++
  "4S2L5M1L10D10L5U1L41M14U9L3M1L8M2U2D10U2S4L23S3L1M3L50M1L1M3L2M2L5M2L1M1L1U24L3S2L11M5S2L3M2" ++
  "U10L6U2L6U2L6U9L7U1L7U1L43S1L14S2U4L115M8S1M2U2D10U6L11172U12L23U4L49U8452L366U2L106U38L7U12" ++
  "L5U5L1M1L10S1L13U1L5U1L1U1L2U1L2U1L108S17U16L139N6L218S18L64U2L54U7S1U32L10N2S4M16S10U6M16S3" ++
  "M2S24M3S3U1S19U1S4U4N1L1N1L1N1U1N1L1N1L1N1L1N1L1N1L126U4S15D10S7L26S4M1S1L26S11L56D2L31U3L6U" ++
  "2L6U2L6U2L3U3S7U1S7U13S2U2L12U1L26U1L19U1L2U1L15U2L14U34L123U5S3U4N45U3S9L53N4S17N2S3U1S13U3" ++
  "S1U47S45M1U130L29U3L49U15M1N27U4L32N4U9L30U5L38M5U5L30U1S1L36U4L8S1L5U42L158U2D10U6L36U4L36U" ++
  "4L40U8L52U11S1L11U1L15U1L7U1L2U1L11U1L15U1L7U1L2U67L311U9L22U10L8U24L6U1L42U1L9U69L6U2L1U1L4" ++
  "4U1L2U3L1U2L23U1S1N8L23S2N7L31U8N9U48L19U1L2U5N5L22N6U3S1L26U5S1U64L56U4N2L2N16U2N46L1M3U1M2" ++
  "U5M4L4U1L3U1L29U2M3U4M1N9U7S9U7L29N2S1L29N3U32L8S1L28M2U4N5S7U9L54U3S7L22U2N8L19U5N8L18U7S4U" ++
  "12N7U80L73U55L51U13L51U7N6L36M4U8D10U294N31U1L42U1M2S1U2L2U78L29N10L1U8L22M11N4S5U22L18M4S4U" ++
  "38L21N7U20L23U9M3L53M15S7U4N20D10M1L2M2L1U9M4L45M11S2U1S4M1U13L25U7D10U6M3L36M14U1D10S4L1M2L" ++
  "1U8L35M1S2L1U9M3L48M14L4S4M4S1M2D10L1S1L1S3U1N20U11L18U1L25M12S6M1U65L7U1L1U1L4U1L15U1L10S1U" ++
  "6L47M12U5D10U6M4U1L8U2L2U2L22U1L7U1L2U1L5U1M2L1M7U2M2U2M3U2L1U6M1U5L5M2U2M7U3M5U139L53M18L4S" ++
  "5D10S2U1S1M1L3U30L48M20L2S1L1U8D10U166L47M7U2M9S23L4M2U34L48M17S3L1U11D10U6S13U19L43M13L1S1U" ++
  "6D10U54L27U2M15U4D10N2S4L7U185L44M15S1U100L64D10N9U12L8U2L1U2L8U1L2U1L24M6U1M2U2M4L1M1L1M2S3" ++
  "U9D10U70L8U2L39M7U2M7L1S1L1M1U27L1M10L40M7L1M4S8M1U8L1M11L46M16S3L1S5U13L73U263L9U1L37M8U1M8" ++
  "L1S5U10D10N19U3S2L30U2M22U1M14U73L7U1L2U1L38M6U3M1U1M2U1M7L1M1U8D10U6L6U1L2U1L32M5U1M2U1M5L1" ++
  "U7D10U310L19M4S2U183L1U15N21S29U13S1L922U102L111U1S5U11L196U2636L97S2U13L1071U4049L583U8633L" ++
  "569U7L31U1D10U4S2L79U1D10U6L30U2M5S1U10L48M7S9L4S2U10D10U1N7U1L21U5L19U688L64N23S4U101L75U4M" ++
  "1L1M55U7M4L13U64L2S1L1M1U11M2U14L6136U8L1238U42L9U8935L4U1L7U1L2U1L291U45L3U17L4U8L396U2308L" ++
  "107U5L13U3L9U7L10U2S1M2S1U4704M46U2M23U9S116U60S246U10S39U2S60M5S3M6U8M8S2M7S30M4S61U21S66M3" ++
  "S1U154N20U12S87U9N25U135L85U1L71U1L2U2L1U2L2U2L4U1L12U1L1U1L7U1L65U1L4U2L8U1L7U1L28U1L4U1L5U" ++
  "1L1U3L7U1L340U2L25S1L25S1L31S1L25S1L31S1L25S1L31S1L25S1L31S1L25S1L8U2D50S512M55S4M50S8M1S14M" ++
  "1S7U15M5U1M15U1104L31U225M7U1M17U2M7U1M2U1M5U213L45U3M7L7U2D10U4L1S1U320L30M1U17L44M4D10U5S1" ++
  "U1248L7U1L4U1L2U1L15U1L197U2N9M7U41L68M7L1U4D10U4S2U785N59S1N3S1N4U76N45S1N15U194L4U1L27U1L2" ++
  "U1L1U2L1U1L10U1L4U1L1U1L1U6L1U4L1U1L1U1L1U1L3U1L2U1L1U2L1U1L1U1L1U1L1U1L1U1L2U1L1U2L4U1L7U1L" ++
  "4U1L4U1L1U1L10U1L17U5L3U1L5U1L17U52S2U270S44U4S100U12S15U2S15U1S15U1S37U10N13S161U56S29U13S4" ++
  "4U4S9U7S2U14S6U154S984U5S16U3S13U3S116U12S89U7S12U4S1U15S12U4S56U8S10U6S40U8S30U2S2U78S340U1" ++
  "2S14U2S5U3S5U3S7U9S29U3S11U5S6U10S10U6S8U8S7U9S147U1S55U37D10U1030L42720U32L4153U7L222U2L576" ++
  "2U14L7473U3103L542U1506L4939U716213M240")

/-- ASCII letters. -/
def isAsciiLetter (c : Char) : Bool :=
  ('a' ≤ c && c ≤ 'z') || ('A' ≤ c && c ≤ 'Z')

/-- ASCII lower-case letters. -/
def isAsciiLower (c : Char) : Bool := 'a' ≤ c && c ≤ 'z'

/-- ASCII upper-case letters. -/
def isAsciiUpper (c : Char) : Bool := 'A' ≤ c && c ≤ 'Z'

/-- ASCII digits. -/
def isAsciiDigit (c : Char) : Bool := '0' ≤ c && c ≤ '9'

/-- ASCII letters and digits. -/
def isAsciiAlphanumeric (c : Char) : Bool := isAsciiLetter c || isAsciiDigit c

/-- Whether the class of a character outside ASCII is one of `classes`. -/
def inClasses (classes : List Char) (c : Char) : Bool :=
  match table.lookup c with
  | some k => classes.contains k
  | none => false

/-- Characters that a literal shows as they are. -/
def isPrintable (c : Char) : Bool :=
  if c.toNat < 0x80 then 0x20 ≤ c.toNat && c.toNat < 0x7f
  else inClasses ['L', 'D', 'N', 'M', 'I', 'S'] c

/-- Letters and numbers of any script. -/
def isAlphanumeric (c : Char) : Bool :=
  if c.toNat < 0x80 then isAsciiAlphanumeric c else inClasses ['L', 'D', 'N'] c

/-- Characters that begin a name of the generated source. -/
def isNameStart (c : Char) : Bool :=
  if c.toNat < 0x80 then isAsciiLetter c || c == '_' else inClasses ['L', 'I'] c

/-- Characters that continue a name of the generated source. -/
def isNamePart (c : Char) : Bool :=
  if c.toNat < 0x80 then isAsciiAlphanumeric c || c == '_' else inClasses ['L', 'D', 'M', 'I'] c

/-! ## ASCII letters and digits by their code points -/

theorem isAsciiUpper_iff {c : Char} : isAsciiUpper c = true ↔ 65 ≤ c.toNat ∧ c.toNat ≤ 90 := by
  rw [isAsciiUpper, Bool.and_eq_true, decide_eq_true_iff, decide_eq_true_iff]
  rfl

theorem isAsciiLower_iff {c : Char} : isAsciiLower c = true ↔ 97 ≤ c.toNat ∧ c.toNat ≤ 122 := by
  rw [isAsciiLower, Bool.and_eq_true, decide_eq_true_iff, decide_eq_true_iff]
  rfl

theorem isAsciiDigit_iff {c : Char} : isAsciiDigit c = true ↔ 48 ≤ c.toNat ∧ c.toNat ≤ 57 := by
  rw [isAsciiDigit, Bool.and_eq_true, decide_eq_true_iff, decide_eq_true_iff]
  rfl

theorem isAsciiAlphanumeric_iff {c : Char} : isAsciiAlphanumeric c = true ↔
    isAsciiLower c = true ∨ isAsciiUpper c = true ∨ isAsciiDigit c = true := by
  rw [isAsciiAlphanumeric, isAsciiLetter, Bool.or_eq_true, Bool.or_eq_true, or_assoc]
  rfl

end Wadl.CharClass

/-! ## Digits -/

namespace Wadl.Digit

/-- The code points of the digit zero in each script of Unicode 14 that has decimal digits. -/
def zeros : List Nat :=
  [0x30, 0x660, 0x6f0, 0x7c0, 0x966, 0x9e6, 0xa66, 0xae6, 0xb66, 0xbe6, 0xc66, 0xce6, 0xd66,
    0xde6, 0xe50, 0xed0, 0xf20, 0x1040, 0x1090, 0x17e0, 0x1810, 0x1946, 0x19d0, 0x1a80, 0x1a90,
    0x1b50, 0x1bb0, 0x1c40, 0x1c50, 0xa620, 0xa8d0, 0xa900, 0xa9d0, 0xa9f0, 0xaa50, 0xabf0,
    0xff10, 0x104a0, 0x10d30, 0x11066, 0x110f0, 0x11136, 0x111d0, 0x112f0, 0x11450, 0x114d0,
    0x11650, 0x116c0, 0x11730, 0x118e0, 0x11950, 0x11c50, 0x11d50, 0x11da0, 0x16a60, 0x16ac0,
    0x16b50, 0x1d7ce, 0x1d7d8, 0x1d7e2, 0x1d7ec, 0x1d7f6, 0x1e140, 0x1e2f0, 0x1e950, 0x1fbf0]

/-- The value of a decimal digit of any script. -/
def value (c : Char) : Option Nat :=
  (zeros.find? fun z => z ≤ c.toNat && c.toNat ≤ z + 9).map (c.toNat - ·)

/-- Whether `c` is a decimal digit of some script. -/
def isDigit (c : Char) : Bool := (value c).isSome

/-- The value of a hexadecimal digit. -/
def hexValue? (c : Char) : Option Nat :=
  if '0' ≤ c ∧ c ≤ '9' then some (c.toNat - 48)
  else if 'a' ≤ c ∧ c ≤ 'f' then some (c.toNat - 87)
  else if 'A' ≤ c ∧ c ≤ 'F' then some (c.toNat - 55)
  else none

end Wadl.Digit
