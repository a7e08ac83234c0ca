import Wadl.Proofs.Naming.Style
import Wadl.Proofs.Uri.Forms
import Wadl.Proofs.Wire.Models
import Wadl.Proofs.Wire.Records
import Wadl.Proofs.Xml.Flat

/-!
# Bodies read back

A service that answers with the body it was sent gives the record back just under some conditions,
whatever models read it, as long as they do what is documented of them. In a form, blank texts are
lost (`echo_form`); in XML they are not (`echo_xml`). In both, numbers have a limit of digits,
required lists must hold something, and a field that has nothing can be mistaken for another one: it
finds the text that this one has on the wire, if that is where its own name leads.
-/

namespace Wadl

/-- What is read from an answer whose body is a record, written for a media type. -/
def Answer.echo (codecs : Codecs) (models : Models) (a : Answer) (r : Record) (mediaType : String) :
    Except WireError Decoded := do
  let body ← encodeBody (.record r) (some mediaType) models
  decodeBody { a with body := body.getD [] } (some r.type) codecs models

variable {codecs : Codecs} {models : Models} {reads : TextReading} {a : Answer} {r : Record}

/-- A record is given back just if a body can be written for it, of which it is read. -/
theorem echo_eq_ok {mediaType : String} : a.echo codecs models r mediaType = .ok (.record r) ↔
    ∃ body, encodeBody (.record r) (some mediaType) models = .ok body ∧
      decodeRecord codecs models { a with body := body.getD [] } r.type = .ok r := by
  unfold Answer.echo
  rw [Result.bind_ok]
  refine exists_congr fun body => and_congr_right fun _ => ?_
  rw [decodeBody, Result.map_ok]
  constructor
  · rintro ⟨found, hfound, heq⟩
    rw [hfound, Decoded.record.inj heq]
  · exact fun h => ⟨r, h, rfl⟩

/-! ## Forms -/

/-- Codecs that know UTF-8. -/
def Codecs.ReadsUtf8 (codecs : Codecs) : Prop :=
  ∀ bytes, codecs.decode "utf-8" bytes = .ok (Charset.utf8.decode bytes)

theorem Codecs.standard_readsUtf8 : Codecs.standard.ReadsUtf8 := fun bytes => by
  have hnamed : Charset.named? "utf-8" = some (some .utf8) := by decide +kernel
  simp only [Codecs.standard, hnamed]

theorem textInCharset_utf8 (hcodecs : codecs.ReadsUtf8) (s : String) :
    textInCharset codecs "utf-8" (utf8Bytes s) = .ok s := by
  unfold textInCharset
  by_cases hempty : (utf8Bytes s).isEmpty = true
  · have hs : s = "" := by
      rw [← decode_utf8Bytes s, List.isEmpty_iff.1 hempty]
      rfl
    rw [if_pos hempty, hs]
  · rw [if_neg hempty, hcodecs]
    exact congrArg Except.ok (decode_utf8Bytes s)

theorem essence_form : MediaType.essence formMediaType = formMediaType := by decide

/-- The form of a record holds its names and texts. -/
theorem encodeBody_form (hmodels : models.Documented reads) (h : ∀ e ∈ r.entries, e.1.Has e.2)
    {body : Option (List UInt8)} : encodeBody (.record r) (some formMediaType) models = .ok body ↔
      r.NoLongNumber ∧ some (utf8Bytes (formEncoded r.pairs)) = body := by
  unfold encodeBody
  simp only [Option.getD_some, essence_form, if_true, Result.bind_ok,
    Record.texts_ok hmodels h, Result.pure_ok, and_assoc, exists_and_left, exists_eq_left']

/-- A form is read as what the fields of the record are offered of its texts that are not blank. -/
theorem decodeRecord_form (hcodecs : codecs.ReadsUtf8) (ha : a.mediaType = some formMediaType)
    (pairs : List (String × String)) (t : RecordType) :
    decodeRecord codecs models { a with body := utf8Bytes (formEncoded pairs) } t =
      models.validate t
        (.dict (t.entriesOf (groupTexts (pairs.filter fun p => isKept false p.2)))) := by
  have hxml : MediaType.isXml formMediaType = false := by decide +kernel
  have hcharset : charsetName? formMediaType.toList = none := by decide
  have hmedia : { a with body := utf8Bytes (formEncoded pairs) }.mediaType = some formMediaType :=
    ha
  have htext : { a with body := utf8Bytes (formEncoded pairs) }.text codecs =
      .ok (formEncoded pairs) := by
    unfold Answer.text
    rw [hmedia, Option.getD_some, hcharset, Option.getD_none, textInCharset_utf8 hcodecs]
  unfold decodeRecord
  rw [hmedia, htext]
  simp only [Option.getD_some, hxml, essence_form, Bool.false_eq_true, if_false, if_true]
  show models.validate t (.dict (t.entriesOf (groupTexts (formPairs false (formEncoded pairs))))) =
    _
  rw [formPairs_formEncoded]
  rfl

/-- A record is given back by a form just if none of its texts is blank, no number is too long, each
required field has something, and no field that has nothing is mistaken for another one. -/
theorem echo_form (hcodecs : codecs.ReadsUtf8) (hmodels : models.Documented reads)
    (hplain : r.type.IsPlain) (hr : r.Valid) (ha : a.mediaType = some formMediaType) :
    a.echo codecs models r formMediaType = .ok (.record r) ↔
      r.NoBlank ∧ r.NoLongNumber ∧ r.Filled ∧ r.Apart := by
  have hdecoded :
      decodeRecord codecs models { a with body := utf8Bytes (formEncoded r.pairs) } r.type =
        models.validate r.type (.dict (r.keptEntries false)) :=
    decodeRecord_form hcodecs ha r.pairs r.type
  rw [echo_eq_ok]
  simp only [encodeBody_form hmodels hr.has, and_assoc, exists_and_left, exists_eq_left',
    Option.getD_some, hdecoded]
  rw [and_left_comm]
  refine and_congr_right fun hshort => ?_
  rw [Record.validate_kept hmodels hplain hr hshort false]
  simp

/-- A type of records with a name on the wire that is also the name of another field. -/
def parcelType : RecordType := ⟨"Parcel", [
  { name := "aBC", wireName := some "a-b-c" }, { name := "aBc", wireName := some "aBC" },
  { name := "sizes", type := .integer, isList := true },
  { name := "kind", type := .oneOf ["post", "air mail"], required := true },
  { name := "gift", type := .truth }]⟩

/-- A parcel whose first field has a value or nothing. -/
def parcel (first : Value) : Record :=
  ⟨parcelType, [first, .text "5 % & <ü>", .list [.int (-7), .int 12],
    .member (.text "air mail"), .none]⟩

theorem parcelType_isPlain : parcelType.IsPlain := ⟨by decide, by decide, by decide⟩

theorem parcel_valid {first : Value} (h : first = .none ∨ ∃ s, first = .text s) :
    (parcel first).Valid := by
  have hfirst : FieldSpec.Has { name := "aBC", wireName := some "a-b-c" } first := by
    rcases h with rfl | ⟨s, rfl⟩
    · exact .nothing rfl
    · exact .single rfl (.text s)
  have hsizes : ∀ v ∈ [Value.int (-7), .int 12], FieldType.integer.Has v := by
    simp [FieldType.Has.integer]
  exact .cons hfirst (.cons (.single rfl (.text _)) (.cons (.list rfl hsizes)
    (.cons (.single rfl (.oneOf (by decide))) (.cons (.nothing rfl) .nil))))

theorem parcel_full (s : String) :
    (parcel (.text s)).NoLongNumber ∧ (parcel (.text s)).Filled ∧ (parcel (.text s)).Apart := by
  have hlimit : ∀ n < 100, n < 10 ^ Numeral.maxDigits := fun n hn =>
    Nat.lt_of_lt_of_le hn (Nat.pow_le_pow_right (n := 10) (i := 2) (by decide) (by decide))
  refine ⟨?_, ?_, ?_⟩
  · simp [Record.NoLongNumber, parcel, parcelType, Record.entries, Value.given, Value.Short, hlimit]
  · simp [Record.Filled, parcel, parcelType, Record.entries, Value.given]
  · simp [Record.Apart, parcel, parcelType, Record.entries, Value.given, FieldSpec.key]

theorem echo_form_parcel :
    let a : Answer := { headers := [("Content-Type", formMediaType)] }
    let echo := fun text => a.echo .standard .standard (parcel (.text text)) formMediaType
    echo "a=b" = .ok (.record (parcel (.text "a=b"))) ∧
    echo "" ≠ .ok (.record (parcel (.text ""))) := by
  intro a echo
  have ha : a.mediaType = some formMediaType := by decide
  have hfull : (parcel (.text "a=b")).NoBlank := by
    show ∀ e ∈ (parcel (.text "a=b")).entries, ∀ v ∈ e.2.given, wireText v ≠ .ok ""
    decide
  have hblank : ¬ (parcel (.text "")).NoBlank := by
    show ¬ ∀ e ∈ (parcel (.text "")).entries, ∀ v ∈ e.2.given, wireText v ≠ .ok ""
    decide
  have hvalid := fun text => parcel_valid (.inr ⟨text, rfl⟩)
  constructor
  · exact (echo_form Codecs.standard_readsUtf8 Models.standard_documented
      parcelType_isPlain (hvalid _) ha).2 ⟨hfull, parcel_full _⟩
  · intro h
    exact hblank ((echo_form Codecs.standard_readsUtf8 Models.standard_documented
      parcelType_isPlain (hvalid _) ha).1 h).1

/-! ## XML -/

/-- The class names of a client are names of XML. -/
theorem isName_of_capital {name : String} (h : Capital name) : Xml.isName name.toList = true := by
  obtain ⟨c, cs, hname, hc, hcs⟩ := h
  have hupper := CharClass.isAsciiUpper_iff.1 hc
  rw [hname, Xml.isName, Bool.and_eq_true, List.all_eq_true]
  refine ⟨?_, fun d hd => ?_⟩
  · rw [Xml.isNameStart, if_pos (by omega), Bool.or_eq_true]
    exact Or.inl (Bool.or_eq_true_iff.2 (Or.inr hc))
  · rw [Xml.isNamePart, if_pos (hcs d hd).ascii]
    rcases hcs d hd with halnum | rfl
    · simp [halnum]
    · rfl

/-- A record whose names and texts can stand in a document as they are. -/
structure Record.Sendable (r : Record) : Prop where
  name : Xml.isName r.type.name.toList = true
  keys : ∀ f ∈ r.type.fields, Xml.isName f.key.toList = true
  texts : ∀ e ∈ r.entries, ∀ v ∈ e.2.given, ∀ s, v.plain = .text s → Xml.IsText s ∧ '\r' ∉ s.toList

theorem FieldType.Has.written_text {type : FieldType} {v : Value} (h : type.Has v)
    (hwhole : type ≠ .decimal) (htext : ∀ s, v.plain = .text s → Xml.IsText s ∧ '\r' ∉ s.toList) :
    Xml.IsText v.written ∧ '\r' ∉ v.written.toList := by
  cases h with
  | text s => exact htext s rfl
  | integer i =>
    -- a number that is too long has no text
    have hdigits : ∀ c ∈ (Value.int i).written.toList, 45 ≤ c.toNat ∧ c.toNat ≤ 57 := by
      rw [Value.written, Value.wireText?_int]
      split
      · exact fun c hc => Numeral.mem_toString hc
      · exact fun c hc => absurd hc List.not_mem_nil
    refine ⟨fun c hc => ?_, fun hmem => absurd (hdigits _ hmem) (by decide)⟩
    have hrange := hdigits c hc
    unfold Xml.isChar
    simp only
    rw [if_neg (by omega)]
    simp only [Bool.and_eq_true, bne_iff_ne]
    omega
  | decimal x => exact absurd rfl hwhole
  | truth b =>
    have hall : ∀ c ∈ (Value.bool b).written.toList, Xml.isChar c = true ∧ c ≠ '\r' := by
      cases b <;> exact List.all_iff_forall_prop.1 (by decide)
    exact ⟨fun c hc => (hall c hc).1, fun hmem => (hall _ hmem).2 rfl⟩
  | @oneOf _ s _ => exact htext s rfl

theorem ofText_name {label : String} (h : Xml.isName label.toList = true) :
    Xml.Name.ofText label = .plain label := by
  unfold Xml.Name.ofText
  split
  · rename_i cs hlabel
    rw [hlabel] at h
    exact absurd (by simp) (Xml.notMem_of_isName h '\x7b' List.mem_cons_self)
  · rfl

namespace Record

theorem Sendable.flat (h : r.Sendable) (hplain : r.type.IsPlain)
    (hhas : ∀ e ∈ r.entries, e.1.Has e.2) : Xml.Sendable r.type.name r.pairs := by
  have hpair : ∀ p ∈ r.pairs, Xml.isName p.1.toList = true ∧ Xml.IsText p.2 ∧
      '\r' ∉ p.2.toList := by
    intro p hp
    obtain ⟨e, he, hp⟩ := List.mem_flatMap.1 hp
    obtain ⟨v, hv, rfl⟩ := List.mem_map.1 hp
    have hf := fst_mem_fields he
    exact ⟨h.keys _ hf,
      ((hhas e he).of_mem_given hv).written_text (hplain.whole _ hf) (h.texts e he v hv)⟩
  exact ⟨h.name, fun p hp => (hpair p hp).1, fun p hp => (hpair p hp).2.1,
    fun p hp => (hpair p hp).2.2⟩

end Record

/-- The element of a record is flat. -/
theorem toXml_flat (hmodels : models.Documented reads) (h : Xml.Sendable r.type.name r.pairs)
    (hhas : ∀ e ∈ r.entries, e.1.Has e.2) {root : Xml.Node} :
    r.toXml models = .ok root ↔ r.NoLongNumber ∧ Xml.flat r.type.name r.pairs = root := by
  have hleaves : r.pairs.map (fun p => Xml.Node.element ⟨.ofText p.1, []⟩
      (if p.2.isEmpty then [] else [.text p.2])) = r.pairs.map fun p => Xml.leaf p.1 p.2 := by
    refine List.map_congr_left fun p hp => ?_
    rw [ofText_name (h.labels p hp), Xml.leaf, Xml.textNodes]
    simp only [String.isEmpty_iff]
  unfold Record.toXml Xml.flat
  simp only [Result.bind_ok, Record.texts_ok hmodels hhas, Result.pure_ok,
    and_assoc, exists_and_left, exists_eq_left']
  rw [← hleaves, ofText_name h.label]

theorem labelOf_plain {label : String} (h : Xml.isName label.toList = true) :
    labelOf (.plain label) = label := by
  have hplain : ∀ c ∈ label.toList.reverse, (c != '\x7d') = true := by
    intro c hc
    rw [bne_iff_ne]
    rintro rfl
    exact Xml.notMem_of_isName h _ (List.mem_reverse.1 hc) (by simp)
  have htake : label.toList.reverse.takeWhile (· != '\x7d') = label.toList.reverse :=
    List.takeWhile_eq_self_iff.2 hplain
  show String.ofList (label.toList.reverse.takeWhile (· != '\x7d')).reverse = label
  rw [htake, List.reverse_reverse, String.ofList_toList]

/-- The names and texts of a flat element are those that it is made of. -/
theorem xmlTexts_flat {label : String} {pairs : List (String × String)}
    (h : Xml.Sendable label pairs) : xmlTexts (Xml.flat label pairs) = pairs := by
  have htext : ∀ text, Xml.leadingText (Xml.textNodes text) = text := by
    intro text
    unfold Xml.textNodes
    split
    · rename_i hempty
      rw [hempty]
      rfl
    · exact String.append_empty
  have hleaves : pairs.map (fun p => (labelOf (.plain p.1), Xml.leadingText (Xml.textNodes p.2))) =
      pairs := by
    refine (List.map_congr_left fun p hp => ?_).trans (List.map_id _)
    rw [labelOf_plain (h.labels p hp), htext]
    rfl
  unfold Xml.flat xmlTexts
  dsimp only
  rw [List.filterMap_map]
  show pairs.filterMap (fun p => some (labelOf (.plain p.1), Xml.leadingText (Xml.textNodes p.2))) =
    pairs
  rw [List.filterMap_eq_map', hleaves]

/-- The body of a record as XML is its element. -/
theorem encodeBody_xml (hmodels : models.Documented reads) (h : Xml.Sendable r.type.name r.pairs)
    (hhas : ∀ e ∈ r.entries, e.1.Has e.2) {body : Option (List UInt8)} :
    encodeBody (.record r) (some "application/xml") models = .ok body ↔
      r.NoLongNumber ∧ some (utf8Bytes (Xml.flat r.type.name r.pairs).written) = body := by
  have hform : ¬ MediaType.essence "application/xml" = formMediaType := by decide
  have hxml : MediaType.isXml "application/xml" = true := by decide +kernel
  unfold encodeBody
  simp only [Option.getD_some, hform, hxml, if_true, if_false, Result.bind_ok,
    toXml_flat hmodels h hhas, Result.pure_ok, and_assoc, exists_and_left, exists_eq_left']

/-- XML is read as what the fields of the record are offered of its texts. -/
theorem decodeRecord_xml {label : String} {pairs : List (String × String)}
    (h : Xml.Sendable label pairs) (ha : MediaType.isXml (a.mediaType.getD "") = true)
    (t : RecordType) :
    decodeRecord codecs models { a with body := utf8Bytes (Xml.flat label pairs).written } t =
      models.validate t (.dict (t.entriesOf (groupTexts pairs))) := by
  have hread : readXmlBytes codecs (utf8Bytes (Xml.flat label pairs).written) =
      .ok (Xml.flat label pairs) := by
    rw [readXmlBytes, Xml.readBytes_flat codecs h]
    exact congrArg Except.ok (Xml.withoutMarks_flat label pairs)
  have hmedia : MediaType.isXml
      ({ a with body := utf8Bytes (Xml.flat label pairs).written }.mediaType.getD "") = true := ha
  unfold decodeRecord
  rw [if_pos hmedia, hread]
  show models.validate t (.dict (t.entriesOf (groupTexts (xmlTexts (Xml.flat label pairs))))) = _
  rw [xmlTexts_flat h]

/-- A record is given back by XML just if no number is too long, each required field has something,
and no field that has nothing is mistaken for another one. -/
theorem echo_xml (hmodels : models.Documented reads) (hplain : r.type.IsPlain) (hr : r.Valid)
    (hsendable : r.Sendable) (ha : MediaType.isXml (a.mediaType.getD "") = true) :
    a.echo codecs models r "application/xml" = .ok (.record r) ↔ r.NoLongNumber ∧
    r.Filled ∧ r.Apart := by
  have hflat := hsendable.flat hplain hr.has
  have hkept : r.pairs.filter (fun p => isKept true p.2) = r.pairs :=
    List.filter_eq_self.2 fun p _ => rfl
  have hdecoded : decodeRecord codecs models
      { a with body := utf8Bytes (Xml.flat r.type.name r.pairs).written } r.type =
        models.validate r.type (.dict (r.keptEntries true)) := by
    rw [decodeRecord_xml hflat ha, Record.keptEntries, hkept]
  rw [echo_eq_ok]
  simp only [encodeBody_xml hmodels hflat hr.has, and_assoc, exists_and_left,
    exists_eq_left', Option.getD_some, hdecoded]
  refine and_congr_right fun hshort => ?_
  rw [Record.validate_kept hmodels hplain hr hshort true]
  simp

theorem echo_xml_parcel :
    let a : Answer := { headers := [("Content-Type", "text/xml; charset=utf-8")] }
    let echo := fun first => a.echo .standard .standard (parcel first) "application/xml"
    echo (.text "") = .ok (.record (parcel (.text ""))) ∧
    echo .none ≠ .ok (.record (parcel .none)) := by
  intro a echo
  have ha : MediaType.isXml (a.mediaType.getD "") = true := by decide +kernel
  have hname : Capital "Parcel" := capital_of_check (by decide) (by decide)
  have hkeys : ∀ f ∈ parcelType.fields, Xml.isName f.key.toList = true := by decide
  have hplain : Xml.IsText "" ∧ Xml.IsText "5 % & <ü>" ∧ Xml.IsText "air mail" :=
    ⟨List.all_eq_true.1 rfl, List.all_eq_true.1 (by decide), List.all_eq_true.1 (by decide)⟩
  have htexts : ∀ first : Value, (first = .none ∨ first = .text "") → (parcel first).Sendable := by
    refine fun first hfirst => ⟨isName_of_capital hname, hkeys, ?_⟩
    rcases hfirst with rfl | rfl <;>
      simp [Record.entries, parcel, parcelType, Value.given, Value.plain, hplain]
  have hmixed : ¬ (parcel .none).Apart := by
    simp [Record.Apart, parcel, parcelType, Record.entries, Value.given, FieldSpec.key]
  constructor
  · exact (echo_xml Models.standard_documented parcelType_isPlain (parcel_valid (.inr ⟨"", rfl⟩))
      (htexts _ (.inr rfl)) ha).2 (parcel_full _)
  · intro h
    exact hmixed ((echo_xml Models.standard_documented parcelType_isPlain (parcel_valid (.inl rfl))
      (htexts _ (.inl rfl)) ha).1 h).2.2

end Wadl
