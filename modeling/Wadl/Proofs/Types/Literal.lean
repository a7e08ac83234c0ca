import Wadl.Proofs.Tables
import Wadl.Proofs.Text.Quoted
import Wadl.Proofs.Time.Text
import Wadl.Types.Literal
import Wadl.Wire.Url

/-!
# Literals and the wire

A fixed or default value is written into generated source as a literal (`literalOf`). `denoted?` is
the value that the source has when it runs; a client sends the text of this value (`wireText`), in
which the document could as well have declared it: numbers, truths, texts, days and times read back
as they were (`Value.ReadsBack`). The one exception is base64: its bytes are decoded once, and their
own text is sent. It is too short to stand for them (`Base64.length_decode?_le`), so that such a
value reads back if and only if it is empty (`sent_as_declared_iff`).
-/

namespace Wadl

/-! ## What source denotes -/

namespace SourceValue

/-- The text of a literal that nothing follows. -/
def whole? (cs : List Char) : Option (List Char) :=
  match Quoted.readLiteral cs with
  | some (text, []) => some text
  | _ => none

/-- The bytes of a literal whose characters are bytes. -/
def bytes? (cs : List Char) : Option Value :=
  (whole? cs).map fun text => .bytes (text.map fun c => UInt8.ofNat c.toNat)

/-- The text of a literal. -/
def text? (cs : List Char) : Option Value := (whole? cs).map fun text => .text (String.ofList text)

/-- The text of a literal between an opening and a bracket. -/
def argument? (opening : String) (cs : List Char) : Option String :=
  if cs.take opening.length = opening.toList then
    match Quoted.readLiteral (cs.drop opening.length) with
    | some (text, [')']) => some (String.ofList text)
    | _ => none
  else none

/-- The day or time that a text is read as. -/
def calendar? (cs : List Char) : Option Value :=
  (((argument? "datetime.date.fromisoformat(" cs).bind readDate).map Value.date).or <|
    (((argument? "datetime.datetime.fromisoformat(" cs).bind readDateTime).map Value.dateTime).or <|
      ((argument? "datetime.time.fromisoformat(" cs).bind readClock).map Value.time

/-- A truth, or a whole number. -/
def word? (cs : List Char) : Option Value :=
  if cs = "True".toList then some (.bool true)
  else if cs = "False".toList then some (.bool false)
  else (Numeral.integerOf cs).map .int

/-- The value of an expression, which begins unlike those of other types. -/
def ofChars? : List Char → Option Value
  | 'b' :: cs => bytes? cs
  | 'd' :: cs => calendar? ('d' :: cs)
  | '\'' :: cs => text? ('\'' :: cs)
  | '"' :: cs => text? ('"' :: cs)
  | cs => word? cs

end SourceValue

/-- The value that the source of a literal denotes, but for numbers that are not whole. -/
def denoted? (source : String) : Option Value := SourceValue.ofChars? source.toList

namespace SourceValue

theorem toList_quoted (s : String) :
    (quoted s).toList =
      Quoted.literal CharClass.isPrintable (Quoted.preferredQuote s.toList) s.toList := by
  rw [quoted, String.toList_ofList]

theorem readLiteral_quoted (s : String) (rest : List Char) :
    Quoted.readLiteral ((quoted s).toList ++ rest) = some (s.toList, rest) := by
  rw [toList_quoted, Quoted.readLiteral_literal (Quoted.preferredQuote_eq s.toList)]

theorem text?_quoted (s : String) : text? (quoted s).toList = some (.text s) := by
  have hread := readLiteral_quoted s []
  rw [List.append_nil] at hread
  rw [text?, whole?, hread, Option.map_some, String.ofList_toList]

/-- What a call is opened with is followed by its argument. -/
theorem argument?_call (opening s : String) :
    argument? opening (opening ++ quoted s ++ ")").toList = some s := by
  have hclose : ")".toList = [')'] := rfl
  rw [argument?, String.toList_append, String.toList_append, List.append_assoc, hclose,
    ← String.length_toList]
  simp only [List.take_left, List.drop_left, if_true, readLiteral_quoted, String.ofList_toList]

/-- A call that is opened with other first `n` characters is none. -/
theorem argument?_other {opening other : String} (n : Nat)
    (h : other.toList.take n ≠ opening.toList.take n) (hopening : n ≤ opening.length)
    (hother : n ≤ other.length) (s : String) :
    argument? opening (other ++ quoted s ++ ")").toList = none := by
  rw [argument?, String.append_assoc, String.toList_append, if_neg]
  intro htake
  refine h ?_
  rw [← htake, List.take_take, Nat.min_eq_left hopening,
    List.take_append_of_le_length (by rwa [String.length_toList])]

end SourceValue

open SourceValue

theorem denoted?_text (s : String) : denoted? (Literal.text s).source = some (.text s) := by
  have hread := text?_quoted s
  have hquote := Quoted.preferredQuote_eq s.toList
  show ofChars? (quoted s).toList = _
  rw [toList_quoted, Quoted.literal, List.cons_append] at hread ⊢
  generalize Quoted.preferredQuote s.toList = quote at hquote hread
  rcases hquote with rfl | rfl <;> exact hread

theorem denoted?_bytes (bytes : List UInt8) :
    denoted? (Literal.bytes bytes).source = some (.bytes bytes) := by
  obtain ⟨quote, hquote, hsource⟩ := Quoted.toList_quotedBytes bytes
  have hread : Quoted.readLiteral (Quoted.literal Quoted.isShownByte quote
      (bytes.map fun b => Char.ofNat b.toNat) ++ []) = _ := Quoted.readLiteral_literal hquote _ []
  have hbyte : ∀ b : UInt8, UInt8.ofNat (Char.ofNat b.toNat).toNat = b := by
    intro b
    rw [Quoted.toNat_ofByte, UInt8.ofNat_toNat]
  rw [List.append_nil] at hread
  show ofChars? (quotedBytes bytes).toList = _
  rw [hsource]
  show bytes? _ = _
  rw [bytes?, whole?, hread, Option.map_some, List.map_map]
  exact congrArg (some ∘ Value.bytes)
    ((List.map_congr_left fun b _ => hbyte b).trans (List.map_id bytes))

theorem denoted?_truth (b : Bool) : denoted? (Literal.truth b).source = some (.bool b) := by
  cases b <;> rfl

theorem denoted?_integer {i : Int} (h : ∃ word, readInteger word = some i) :
    denoted? (Literal.integer i).source = some (.int i) := by
  have hread : Numeral.integerOf (toString i).toList = some i := readInteger_toString h
  have hchars : ∀ c ∈ (toString i).toList, 45 ≤ c.toNat ∧ c.toNat ≤ 57 :=
    fun c hc => Numeral.mem_toString hc
  show ofChars? (toString i).toList = _
  generalize (toString i).toList = cs at hread hchars
  have hword : word? cs = some (.int i) := by
    rw [word?, if_neg, if_neg, hread, Option.map_some]
    · rintro rfl
      exact absurd (hchars 'F' List.mem_cons_self) (by decide)
    · rintro rfl
      exact absurd (hchars 'T' List.mem_cons_self) (by decide)
  cases cs with
  | nil => exact hword
  | cons c cs =>
    rw [← hword]
    refine ofChars?.eq_5 _ ?_ ?_ ?_ ?_ <;>
    · rintro _ ⟨⟩
      exact absurd (hchars _ List.mem_cons_self) (by decide)

/-- The source of a day or a time is the call of a function. -/
theorem denoted?_call (opening : String) (h : opening.toList.head? = some 'd') (s : String) :
    denoted? (opening ++ quoted s ++ ")") = calendar? (opening ++ quoted s ++ ")").toList := by
  obtain ⟨cs, hcs⟩ := List.head?_eq_some_iff.1 h
  rw [denoted?, String.toList_append, String.toList_append, hcs]
  rfl

theorem denoted?_date {s : String} {d : Date} (h : readDate s = some d) :
    denoted? (Literal.date s).source = some (.date d) := by
  have hcall := denoted?_call "datetime.date.fromisoformat(" (by decide) s
  rw [calendar?, argument?_call, Option.bind_some, h] at hcall
  exact hcall

theorem denoted?_dateTime {s : String} {t : DateTime} (h : readDateTime s = some t) :
    denoted? (Literal.dateTime s).source = some (.dateTime t) := by
  have hcall := denoted?_call "datetime.datetime.fromisoformat(" (by decide) s
  rw [calendar?, argument?_other 14 (by decide) (by decide) (by decide), argument?_call,
    Option.bind_some, h] at hcall
  exact hcall

theorem denoted?_time {s : String} {c : Clock} (h : readClock s = some c) :
    denoted? (Literal.time s).source = some (.time c) := by
  have hcall := denoted?_call "datetime.time.fromisoformat(" (by decide) s
  rw [calendar?, argument?_other 10 (by decide) (by decide) (by decide),
    argument?_other 10 (by decide) (by decide) (by decide), argument?_call,
    Option.bind_some, h] at hcall
  exact hcall

/-! ## Bytes of base64 -/

namespace Base64

/-- Four digits stand for three bytes. -/
theorem length_bytesOf_le : ∀ values : List Nat, 4 * (bytesOf values).length ≤ 3 * values.length
  | a :: b :: c :: d :: rest => by
    have ih := length_bytesOf_le rest
    simp only [bytesOf, List.length_cons]
    omega
  | [a, b, c] => by simp [bytesOf]
  | [a, b] => by simp [bytesOf]
  | [a] => by simp [bytesOf]
  | [] => by simp [bytesOf]

/-- The bytes of a text are fewer than its characters. -/
theorem length_decode?_le {s : String} {bytes : List UInt8} (h : decode? s = some bytes) :
    4 * bytes.length ≤ 3 * s.toList.length := by
  unfold decode? at h
  simp only [Option.bind_eq_bind] at h
  obtain ⟨values, hvalues, h⟩ := Option.bind_eq_some_iff.1 h
  have hlength := length_of_mapM_some hvalues
  have hdata := (List.takeWhile_sublist (l := s.toList) (· != '=')).length_le
  split at h
  · obtain rfl := Option.some.inj h
    have hbytes := length_bytesOf_le values
    omega
  · cases h

end Base64

/-- Bytes that are not empty have more of them than their text stands for as base64. -/
theorem base64_text_iff {bytes : List UInt8} :
    (∃ text, Charset.utf8.decode? bytes = some text ∧ Base64.decode? text = some bytes) ↔
      bytes = [] := by
  constructor
  · rintro ⟨text, htext, hbytes⟩
    have hchars := length_decode?_le htext
    have hlength := Base64.length_decode?_le hbytes
    exact List.length_eq_zero_iff.1 (by omega)
  · rintro rfl
    exact ⟨"", rfl, rfl⟩

/-! ## Kinds of values -/

/-- A text that is read back from the wire as the value that it is sent for. -/
def Value.ReadsBack (sourceType type place : String) (v : Value) : Prop :=
  ∃ text l, wireText v = .ok text ∧ literalOf text sourceType type place = .ok l ∧
    denoted? l.source = some v

variable {type sourceType place value : String} {kind : ValueKind} {l : Literal}

/-- Without overrides a declared type has the kind of values of its local name. -/
theorem kind_of_mapType (h : mapType [] type place = .ok sourceType) :
    ∃ kind, schemaTypes.lookup (localTypeName type) = some kind ∧
      ValueKind.ofSourceType? sourceType = some kind := by
  have hfound : ∀ kind : ValueKind, ValueKind.ofSourceType? kind.sourceType = some kind := by
    intro kind
    cases kind <;> decide
  unfold mapType sourceTypeOf at h
  simp only [List.lookup_nil] at h
  cases hkind : schemaTypes.lookup (localTypeName type) with
  | none =>
    rw [hkind] at h
    cases h
  | some kind =>
    rw [hkind] at h
    obtain rfl := Except.ok.inj h
    exact ⟨kind, rfl, hfound kind⟩

/-- Decimal numbers are declared by three names. -/
theorem decimal_of_lookup {name : String} (h : schemaTypes.lookup name = some .decimal) :
    name ∈ ["float", "double", "decimal"] := by
  have hall : ∀ e ∈ schemaTypes, e.2 = .decimal → e.1 ∈ ["float", "double", "decimal"] := by decide
  exact hall (name, .decimal) (mem_of_lookup h) rfl

theorem literalOf_ok :
    literalOf value sourceType type place = .ok l ↔ literal? value sourceType type = some l := by
  unfold literalOf
  cases literal? value sourceType type <;> simp

/-- Bytes are sent as the text that they are in UTF-8. -/
theorem wireText_bytes {bytes : List UInt8} {text : String} :
    wireText (.bytes bytes) = .ok text ↔ Charset.utf8.decode? bytes = some text := by
  have htext : (Value.bytes bytes).wireText? = Charset.utf8.decode? bytes := rfl
  rw [wireText, htext]
  cases Charset.utf8.decode? bytes <;> simp

/-- Values other than decimal numbers and bytes of base64 read back. -/
theorem readsBack_of_kind (hkind : ValueKind.ofSourceType? sourceType = some kind)
    (hdecimal : kind ≠ .decimal) (hbytes : kind = .bytes → localTypeName type ≠ "base64Binary")
    (h : literal? value sourceType type = some l) :
    ∃ v, denoted? l.source = some v ∧ v.ReadsBack sourceType type place := by
  simp only [literal?, hkind] at h
  cases kind with
  | decimal => exact absurd rfl hdecimal
  | integer =>
    obtain ⟨i, hi, rfl⟩ := Option.map_eq_some_iff.1 h
    have hv := denoted?_integer ⟨value, hi⟩
    refine ⟨.int i, hv, toString i, .integer i, ?_, literalOf_ok.2 ?_, hv⟩
    · have hshort : Numeral.isWritable i = true :=
        Numeral.isWritable_iff.2 (Numeral.natAbs_lt_of_integerOf hi)
      have htext : (Value.int i).wireText? =
        if Numeral.isWritable i then some (toString i) else none := rfl
      rw [wireText, htext, if_pos hshort]
    · simp only [literal?, hkind, readInteger_toString ⟨value, hi⟩, Option.map_some]
  | truth =>
    obtain ⟨b, -, rfl⟩ := Option.map_eq_some_iff.1 h
    have hv := denoted?_truth b
    refine ⟨.bool b, hv, if b then "true" else "false", .truth b, rfl, literalOf_ok.2 ?_, hv⟩
    simp only [literal?, hkind]
    cases b <;> rfl
  | bytes =>
    rw [readBytes, if_neg (hbytes rfl)] at h
    obtain rfl := Option.some.inj h
    have hv := denoted?_bytes (utf8Bytes value)
    refine ⟨_, hv, value, .bytes (utf8Bytes value), ?_, literalOf_ok.2 ?_, hv⟩
    · exact wireText_bytes.2 (decode?_utf8Bytes value)
    · simp only [literal?, hkind, readBytes, if_neg (hbytes rfl), Option.map_some]
  | date =>
    obtain ⟨d, hd, rfl⟩ := Option.map_eq_some_iff.1 h
    refine ⟨.date d, denoted?_date hd, d.text, .date d.text, rfl, literalOf_ok.2 ?_,
      denoted?_date (readDate_text hd)⟩
    simp only [literal?, hkind, readDate_text hd, Option.map_some]
  | dateTime =>
    obtain ⟨t, ht, rfl⟩ := Option.map_eq_some_iff.1 h
    refine ⟨.dateTime t, denoted?_dateTime ht, t.text, .dateTime t.text, rfl, literalOf_ok.2 ?_,
      denoted?_dateTime (readDateTime_text ht)⟩
    simp only [literal?, hkind, readDateTime_text ht, Option.map_some]
  | time =>
    obtain ⟨c, hc, rfl⟩ := Option.map_eq_some_iff.1 h
    refine ⟨.time c, denoted?_time hc, c.text, .time c.text, rfl, literalOf_ok.2 ?_,
      denoted?_time (readClock_text hc)⟩
    simp only [literal?, hkind, readClock_text hc, Option.map_some]
  | text | duration | anything =>
    obtain rfl := Option.some.inj h
    refine ⟨.text value, denoted?_text value, value, .text value, rfl, literalOf_ok.2 ?_,
      denoted?_text value⟩
    simp only [literal?, hkind]

/-- Bytes of base64 read back if and only if there are none. -/
theorem readsBack_base64_iff (hkind : ValueKind.ofSourceType? sourceType = some .bytes)
    (hbase64 : localTypeName type = "base64Binary") (bytes : List UInt8) :
    (Value.bytes bytes).ReadsBack sourceType type place ↔ bytes = [] := by
  have hliteral : ∀ {text l}, literalOf text sourceType type place = .ok l ↔
      ∃ bytes', Base64.decode? text = some bytes' ∧ Literal.bytes bytes' = l := by
    intro text l
    simp only [literalOf_ok, literal?, hkind, readBytes, if_pos hbase64, Option.map_eq_some_iff]
  rw [← base64_text_iff]
  constructor
  · rintro ⟨text, l, htext, hl, hv⟩
    obtain ⟨bytes', hbytes, rfl⟩ := hliteral.1 hl
    rw [denoted?_bytes] at hv
    obtain rfl := Value.bytes.inj (Option.some.inj hv)
    exact ⟨text, wireText_bytes.1 htext, hbytes⟩
  · rintro ⟨text, htext, hbytes⟩
    exact ⟨text, _, wireText_bytes.2 htext, hliteral.2 ⟨bytes, hbytes, rfl⟩, denoted?_bytes bytes⟩

/-- The value that a literal denotes, but for a decimal number, reads back from the text that a
client sends for it, if and only if it is not declared in base64, or has no bytes. -/
theorem sent_as_declared_iff (htype : mapType [] type place = .ok sourceType)
    (hdecimal : localTypeName type ∉ ["float", "double", "decimal"])
    (h : literalOf value sourceType type place = .ok l) :
    ∃ v, denoted? l.source = some v ∧
      (v.ReadsBack sourceType type place ↔
        (localTypeName type = "base64Binary" → v = .bytes [])) := by
  obtain ⟨kind, hlookup, hkind⟩ := kind_of_mapType htype
  by_cases hbase64 : localTypeName type = "base64Binary"
  · obtain rfl : kind = .bytes := by
      rw [hbase64] at hlookup
      exact (Option.some.inj hlookup).symm
    obtain ⟨bytes, -, rfl⟩ : ∃ bytes, readBytes type value = some bytes ∧
        Literal.bytes bytes = l := by
      simpa only [literalOf_ok, literal?, hkind, Option.map_eq_some_iff] using h
    refine ⟨.bytes bytes, denoted?_bytes bytes, (readsBack_base64_iff hkind hbase64 bytes).trans ?_⟩
    rw [Value.bytes.injEq]
    exact ⟨fun hempty _ => hempty, fun hempty => hempty hbase64⟩
  · have hother : kind ≠ .decimal := by
      rintro rfl
      exact hdecimal (decimal_of_lookup hlookup)
    obtain ⟨v, hv, hback⟩ := readsBack_of_kind hkind hother (fun _ => hbase64) (literalOf_ok.1 h)
    exact ⟨v, hv, fun _ hdeclared => absurd hdeclared hbase64, fun _ => hback⟩

/-- A day that is declared without marks reads back from its text, and the byte 255 in base64 has no
text. -/
theorem sent_as_declared_iff_instances :
    (literalOf "20240102" "datetime.date" "xs:date" "param day" = .ok (.date "20240102") ∧
      ∃ v, denoted? (Literal.date "20240102").source = some v ∧
        v.ReadsBack "datetime.date" "xs:date" "param day") ∧
    (literalOf "/w==" "bytes" "xs:base64Binary" "param key" = .ok (.bytes [255]) ∧
      denoted? (Literal.bytes [255]).source = some (.bytes [255]) ∧
      wireText (.bytes [255]) = .error .undecodable ∧
      ¬(Value.bytes [255]).ReadsBack "bytes" "xs:base64Binary" "param key") := by
  have hdate : literalOf "20240102" "datetime.date" "xs:date" "param day" =
      .ok (.date "20240102") := by
    decide
  have hbytes : literalOf "/w==" "bytes" "xs:base64Binary" "param key" = .ok (.bytes [255]) := by
    decide
  refine ⟨⟨hdate, ?_⟩, hbytes, denoted?_bytes [255], rfl, fun hback => ?_⟩
  · obtain ⟨v, hv, hiff⟩ := sent_as_declared_iff (by decide) (by decide) hdate
    exact ⟨v, hv, hiff.2 fun hbase64 => absurd hbase64 (by decide)⟩
  · obtain ⟨v, hv, hiff⟩ := sent_as_declared_iff (by decide) (by decide) hbytes
    rw [denoted?_bytes] at hv
    obtain rfl := Option.some.inj hv
    have hempty := hiff.1 hback (by decide)
    exact absurd (Value.bytes.inj hempty) (List.cons_ne_nil _ _)

end Wadl
