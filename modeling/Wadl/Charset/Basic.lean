import Wadl.Charset.Table
import Wadl.Charset.Utf8
import Wadl.Text.Case
import Wadl.Text.CharClass

/-!
# Charsets

`Charset.read` turns bytes into characters, with `none` for each piece that a charset does not
assign. `Codecs` are what a runtime reads bytes with, by the names of charsets; `Codecs.standard`
are those that are known here (`Charset.named?`).
-/

namespace Wadl

/-- The order of the bytes of a unit. -/
inductive ByteOrder where
  | little
  | big
  deriving DecidableEq, Repr

/-- A way of writing characters as bytes. -/
inductive Charset where
  | utf8
  /-- UTF-8 whose byte order mark is left out. -/
  | utf8Marked
  /-- UTF-16 in the given order, or in the one its byte order mark says. -/
  | utf16 (order : Option ByteOrder)
  /-- UTF-32 in the given order, or in the one its byte order mark says. -/
  | utf32 (order : Option ByteOrder)
  /-- Each byte is one of the given characters, where the replacement character is none. -/
  | bytes (chars : List Char)
  deriving DecidableEq, Repr

namespace Charset

/-- The characters below a number. -/
def charsBelow (n : Nat) : List Char := (List.range n).map Char.ofNat

def ascii : Charset := .bytes (charsBelow 0x80)

def latin1 : Charset := .bytes (charsBelow 0x100)

/-- The replacement character, for bytes that are not assigned. -/
def replacement : Char := Char.ofNat 0xfffd

/-- The character that a byte is in a charset of single bytes. -/
def byteChar (chars : List Char) (b : UInt8) : Option Char :=
  match chars[b.toNat]? with
  | some c => if c = replacement then none else some c
  | none => none

/-- Units of two bytes; `none` for a byte that is left over. -/
def pairs (order : ByteOrder) : List UInt8 → List (Option Nat)
  | [] => []
  | [_] => [none]
  | a :: b :: rest =>
    some (if order = .little then a.toNat + 256 * b.toNat else b.toNat + 256 * a.toNat) ::
      pairs order rest

/-- The characters of UTF-16 units; `none` for a surrogate without its partner. -/
def unitChars : List (Option Nat) → List (Option Char)
  | [] => []
  | none :: rest => none :: unitChars rest
  | some h :: some l :: rest =>
    if 0xd800 ≤ h ∧ h < 0xdc00 ∧ 0xdc00 ≤ l ∧ l < 0xe000 then
      some (Char.ofNat (0x10000 + (h - 0xd800) * 1024 + (l - 0xdc00))) :: unitChars rest
    else
      (if 0xd800 ≤ h ∧ h < 0xe000 then none else some (Char.ofNat h)) :: unitChars (some l :: rest)
  | some h :: rest =>
    if 0xd800 ≤ h ∧ h < 0xdc00 ∧ rest = [none] then [none]
    else (if 0xd800 ≤ h ∧ h < 0xe000 then none else some (Char.ofNat h)) :: unitChars rest

/-- The characters of UTF-32 units; `none` for one that is no character or not complete. -/
def quadChars (order : ByteOrder) : List UInt8 → List (Option Char)
  | [] => []
  | a :: b :: c :: d :: rest =>
    let n := if order = .little then
        a.toNat + 256 * (b.toNat + 256 * (c.toNat + 256 * d.toNat))
      else d.toNat + 256 * (c.toNat + 256 * (b.toNat + 256 * a.toNat))
    (if n < 0xd800 ∨ (0xe000 ≤ n ∧ n < 0x110000) then some (Char.ofNat n) else none) ::
      quadChars order rest
  | _ => [none]

/-- The characters of a list of bytes; `none` for each piece that is not assigned. -/
def read (charset : Charset) (bytes : List UInt8) : List (Option Char) :=
  match charset, bytes with
  | .utf8, _ => Utf8.read bytes
  | .utf8Marked, 0xef :: 0xbb :: 0xbf :: rest => Utf8.read rest
  | .utf8Marked, _ => Utf8.read bytes
  | .utf16 none, 0xff :: 0xfe :: rest => unitChars (pairs .little rest)
  | .utf16 none, 0xfe :: 0xff :: rest => unitChars (pairs .big rest)
  | .utf16 none, _ => unitChars (pairs .little bytes)
  | .utf16 (some order), _ => unitChars (pairs order bytes)
  | .utf32 none, 0xff :: 0xfe :: 0 :: 0 :: rest => quadChars .little rest
  | .utf32 none, 0 :: 0 :: 0xfe :: 0xff :: rest => quadChars .big rest
  | .utf32 none, _ => quadChars .little bytes
  | .utf32 (some order), _ => quadChars order bytes
  | .bytes chars, _ => bytes.map (byteChar chars)

/-- The text of a list of bytes, with replacement characters for what is not assigned. -/
def decode (charset : Charset) (bytes : List UInt8) : String :=
  String.ofList ((charset.read bytes).map fun c => c.getD replacement)

/-- The text of a list of bytes, if all of them are assigned. -/
def decode? (charset : Charset) (bytes : List UInt8) : Option String :=
  ((charset.read bytes).mapM id).map String.ofList

/-! ## Names -/

/-- A name in lower case, with one low line for each run of separators inside it. Points are
kept. -/
def normalizeName (name : String) : String :=
  let step := fun (acc : List Char × Bool) (c : Char) =>
    if CharClass.isAsciiAlphanumeric c || c == '.' then
      (c :: if acc.2 && !acc.1.isEmpty then '_' :: acc.1 else acc.1, false)
    else (acc.1, true)
  Case.lower (String.ofList (name.toList.foldl step ([], false)).1.reverse)

/-- Charsets that are not tables, each with its module and its other names; without a charset, those
that are known by name only. -/
def namedCharsets : List (String × List String × Option Charset) := [
  ("utf_8", ["u8", "utf", "utf8", "utf8_ucs2", "utf8_ucs4", "cp65001"], some .utf8),
  ("utf_8_sig", [], some .utf8Marked),
  ("utf_16", ["u16", "utf16"], some (.utf16 none)),
  ("utf_16_le", ["unicodelittleunmarked", "utf_16le"], some (.utf16 (some .little))),
  ("utf_16_be", ["unicodebigunmarked", "utf_16be"], some (.utf16 (some .big))),
  ("utf_32", ["u32", "utf32"], some (.utf32 none)),
  ("utf_32_le", ["utf_32le"], some (.utf32 (some .little))),
  ("utf_32_be", ["utf_32be"], some (.utf32 (some .big))),
  ("ascii", ["646", "ansi_x3.4_1968", "ansi_x3_4_1968", "ansi_x3.4_1986", "cp367",
    "csascii", "ibm367", "iso646_us", "iso_646.irv_1991", "iso_ir_6", "us", "us_ascii"],
    some ascii),
  ("latin_1", ["8859", "cp819", "csisolatin1", "ibm819", "iso8859", "iso8859_1", "iso_8859_1",
    "iso_8859_1_1987", "iso_ir_100", "l1", "latin", "latin1"], some latin1),
  ("iso8859_1", [], some latin1),
  ("charmap", [], some latin1),
  ("big5", ["big5_tw", "csbig5", "x_mac_trad_chinese"], none),
  ("big5hkscs", ["big5_hkscs", "hkscs"], none),
  ("cp932", ["932", "ms932", "mskanji", "ms_kanji"], none),
  ("cp949", ["949", "ms949", "uhc"], none),
  ("cp950", ["950", "ms950"], none),
  ("euc_jis_2004", ["jisx0213", "eucjis2004", "euc_jis2004"], none),
  ("euc_jisx0213", ["eucjisx0213"], none),
  ("euc_jp", ["eucjp", "ujis", "u_jis"], none),
  ("euc_kr", ["euckr", "korean", "ksc5601", "ks_c_5601", "ks_c_5601_1987", "ksx1001", "ks_x_1001",
    "x_mac_korean"], none),
  ("gb18030", ["gb18030_2000"], none),
  ("gb2312", ["chinese", "csiso58gb231280", "euc_cn", "euccn", "eucgb2312_cn",
    "gb2312_1980", "gb2312_80", "iso_ir_58", "x_mac_simp_chinese"], none),
  ("gbk", ["936", "cp936", "ms936"], none),
  ("iso2022_kr", ["csiso2022kr", "iso2022kr", "iso_2022_kr"], none),
  ("johab", ["cp1361", "ms1361"], none),
  ("shift_jis", ["csshiftjis", "shiftjis", "sjis", "s_jis", "x_mac_japanese"], none),
  ("shift_jis_2004", ["shiftjis2004", "sjis_2004", "s_jis_2004"], none),
  ("shift_jisx0213", ["shiftjisx0213", "sjisx0213", "s_jisx0213"], none),
  ("utf_7", ["u7", "utf7", "unicode_1_1_utf_7"], none),
  ("idna", [], none), ("punycode", [], none), ("undefined", [], none)]

/-- The characters of a table, which may leave out those of ASCII. -/
def tableChars (chars : String) : List Char :=
  if chars.length = 0x80 then charsBelow 0x80 ++ chars.toList else chars.toList

/-- What a name finds in a table: a module by its name, and what has it among its other names, where
points may stand for low lines. -/
def named?.inTable {α : Type} (key : String) (table : List (String × List String × α)) : Option α :=
  let plain := String.ofList (key.toList.map fun c => if c = '.' then '_' else c)
  let found := table.find? fun (module, others, _) =>
    module = key || others.contains key || others.contains plain
  found.map (·.2.2)

/-- What is known of the charset of a name, if there is one. -/
def named? (name : String) : Option (Option Charset) :=
  let key := normalizeName name
  (named?.inTable key namedCharsets).or
    ((named?.inTable key singleByteTables).map fun chars => some (.bytes (tableChars chars)))

end Charset

/-! ## Codecs -/

/-- Why bytes are no text in a charset. -/
inductive CodecFault where
  /-- There is no charset of the name. -/
  | unknown
  /-- The charset does not go on after what it does not assign. -/
  | refused
  deriving DecidableEq, Repr

/-- What bytes are read with. -/
structure Codecs where
  /-- The text of some bytes in the charset of a name, with replacement characters for what is not
  assigned. -/
  decode (name : String) (bytes : List UInt8) : Except CodecFault String

/-- The codecs that are known here. -/
def Codecs.standard : Codecs where
  decode name bytes :=
    match Charset.named? name with
    | none => .error .unknown
    | some none => .error .refused
    | some (some charset) => .ok (charset.decode bytes)

/-- The bytes of a text in UTF-8. -/
def utf8Bytes (s : String) : List UInt8 := Utf8.encode s.toList

end Wadl
