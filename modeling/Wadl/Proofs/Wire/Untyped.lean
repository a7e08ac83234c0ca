import Wadl.Proofs.Runs
import Wadl.Wire.Body

/-!
# Bodies without declared fields

A client promises what a body without declared fields is read as: a value of JSON, a text or bytes
(`RawBody.ofMediaType`), from the media type that is declared; a body is read by the media type of
the answer (`decodeValue`). An answer that fits a declared media type without a wildcard has the
same essence, so that both agree wherever they go by the essence, as for JSON and XML. For other
types of text they go by how the media type is spelled, and the promise is kept if and only if both
are spelled alike there (`decoded_as_promised_iff`).
-/

namespace Wadl

namespace MediaType

/-- Whether a declared media type stands for others. -/
def isWildcard (mediaType : String) : Bool := (essence mediaType).endsWith "/*"

/-- Whether a media type is one of text, but for those that are built on JSON or XML. -/
def isPlainText (mediaType : String) : Bool :=
  (essence mediaType).startsWith "text/" && !isJson mediaType && !isXml mediaType

theorem isPlainText_iff {m : String} : isPlainText m = true ↔
    (essence m).startsWith "text/" = true ∧ isJson m = false ∧ isXml m = false := by
  simp [isPlainText, and_assoc]

/-! ## Essences -/

/-- Without a wildcard a media type covers those of the same essence. -/
theorem essence_eq_of_covers {declared actual : String} (hwild : isWildcard declared = false)
    (h : covers declared actual = true) : essence declared = essence actual := by
  have hend : (essence declared).endsWith "/*" = false := hwild
  have hany : essence declared ≠ "*/*" := fun hany => by
    rw [hany] at hend
    exact absurd hend (by decide +kernel)
  unfold covers at h
  simpa [hany, hend] using h

theorem isJson_congr {m m' : String} (h : essence m = essence m') : isJson m = isJson m' := by
  rw [isJson, isJson, h]

theorem isXml_congr {m m' : String} (h : essence m = essence m') : isXml m = isXml m' := by
  rw [isXml, isXml, h]

/-- Trimming keeps what a text begins with, if that neither begins nor ends with what is trimmed. -/
theorem trimList_append {p : Char → Bool} {first last : Char} {word rest : List Char}
    (hfirst : p first = false) (hlast : p last = false) :
    Text.trimList p (first :: word ++ last :: rest) =
      first :: word ++ last :: Text.dropEndWhile p rest := by
  have hdrop : (first :: word ++ last :: rest).dropWhile p = first :: word ++ last :: rest :=
    List.dropWhile_cons_of_neg (by simp [hfirst])
  have hend : (rest.reverse ++ (first :: word ++ [last]).reverse).dropWhile p =
      rest.reverse.dropWhile p ++ (first :: word ++ [last]).reverse := by
    rw [List.dropWhile_append]
    split
    · rename_i hempty
      rw [List.isEmpty_iff.1 hempty]
      simp [hlast]
    · rfl
  rw [Text.trimList, hdrop, Text.dropEndWhile, Text.dropEndWhile]
  simpa using congrArg List.reverse hend

/-- What begins as media types of text do has the essence of one. -/
theorem startsWith_essence {m : String} (h : startsAsText m = true) :
    (essence m).startsWith "text/" = true := by
  rw [startsAsText, String.startsWith_string_iff] at h
  obtain ⟨rest, hrest⟩ := h
  have hcut : (cutAt ';' m).1.toList =
      't' :: ['e', 'x', 't'] ++ '/' :: rest.takeWhile (· != ';') := by
    rw [cutAt, String.toList_ofList, ← hrest]
    rfl
  have hlower : ∀ cs, Case.lowerFrom [] ('t' :: ['e', 'x', 't'] ++ '/' :: cs) =
      "text/".toList ++ Case.lowerFrom "text/".toList.reverse cs := fun cs => rfl
  have hessence : (essence m).toList = "text/".toList ++ Case.lowerFrom "text/".toList.reverse
      (Text.dropEndWhile Text.isBlank (rest.takeWhile (· != ';'))) := by
    rw [← hlower, ← trimList_append (by decide) (by decide), ← hcut]
    simp only [essence, Case.lower, trimmed, String.toList_ofList]
  rw [String.startsWith_string_iff, hessence]
  exact List.prefix_append _ _

end MediaType

/-! ## Promises -/

/-- A value is what a body is promised to be: one of JSON, a text, or bytes. -/
inductive RawBody.Has : RawBody → Value → Prop where
  | value (j : Json) : Has .value (.ofJson j)
  | text (s : String) : Has .text (.text s)
  | bytes (bytes : List UInt8) : Has .bytes (.bytes bytes)

/-- A body is read as what is promised for the media type of its answer, whatever charsets are
known. -/
theorem has_of_decodeValue {codecs : Codecs} {a : Answer} {m : String} {v : Value}
    (hm : a.mediaType = some m) (h : decodeValue codecs a = .ok v) :
    (RawBody.ofMediaType (some m)).Has v := by
  unfold decodeValue at h
  unfold RawBody.ofMediaType
  rw [hm, Option.getD_some] at h
  simp only at h ⊢
  split at h
  · rename_i hjson
    rw [if_pos hjson]
    split at h
    · obtain rfl := Except.ok.inj h
      exact .value .null
    · obtain ⟨j, -, rfl⟩ := Result.map_ok.1 h
      exact .value j
  · rename_i hjson
    rw [if_neg hjson]
    split at h
    · rename_i htext
      rw [if_pos htext]
      obtain ⟨s, -, rfl⟩ := Result.map_ok.1 h
      exact .text s
    · rename_i htext
      rw [if_neg htext]
      obtain rfl := Except.ok.inj h
      exact .bytes a.body

/-- Besides JSON and XML it is the beginning of a media type that counts. -/
theorem ofMediaType_of_other {m : String} (hjson : MediaType.isJson m = false)
    (hxml : MediaType.isXml m = false) :
    RawBody.ofMediaType (some m) = if MediaType.startsAsText m then .text else .bytes := by
  simp [RawBody.ofMediaType, hjson, hxml]

/-- Media types of one essence that begin alike promise the same. -/
theorem ofMediaType_congr {m m' : String} (h : MediaType.essence m = MediaType.essence m')
    (hstart : MediaType.isJson m = false → MediaType.isXml m = false →
      MediaType.startsAsText m = MediaType.startsAsText m') :
    RawBody.ofMediaType (some m) = RawBody.ofMediaType (some m') := by
  have hjson := MediaType.isJson_congr h
  have hxml := MediaType.isXml_congr h
  by_cases hj : MediaType.isJson m = true
  · simp [RawBody.ofMediaType, hj, hjson.symm.trans hj]
  by_cases hx : MediaType.isXml m = true
  · simp [RawBody.ofMediaType, ← hjson, hx, hxml.symm.trans hx]
  rw [Bool.not_eq_true] at hj hx
  rw [ofMediaType_of_other hj hx, ofMediaType_of_other (hjson.symm.trans hj) (hxml.symm.trans hx),
    hstart hj hx]

/-- Whatever charsets are known, what is decoded from the body of an answer that fits a declared
media type without a wildcard is what is promised for this media type, if and only if it is no type
of text, or both media types begin as those of text do, or neither does. -/
theorem decoded_as_promised_iff {codecs : Codecs} {a : Answer}
    {declared actual : String} {v : Value} (hactual : a.mediaType = some actual) (hne : actual ≠ "")
    (hwild : MediaType.isWildcard declared = false) (hfits : a.fits (some declared) = true)
    (h : decodeBody a none codecs = .ok (.value v)) : (RawBody.ofMediaType (some declared)).Has v ↔
      (MediaType.isPlainText declared = true →
        MediaType.startsAsText declared = MediaType.startsAsText actual) := by
  have hcovers : MediaType.covers declared actual = true := by
    simpa [Answer.fits, hactual, hne] using hfits
  have hessence := MediaType.essence_eq_of_covers hwild hcovers
  have hhas : (RawBody.ofMediaType (some actual)).Has v := by
    obtain ⟨v', hv', hdecoded⟩ := Result.map_ok.1 h
    rw [← Decoded.value.inj hdecoded]
    exact has_of_decodeValue hactual hv'
  constructor
  · intro hpromised hplain
    obtain ⟨-, hjson, hxml⟩ := MediaType.isPlainText_iff.1 hplain
    rw [ofMediaType_of_other hjson hxml] at hpromised
    rw [ofMediaType_of_other ((MediaType.isJson_congr hessence).symm.trans hjson)
      ((MediaType.isXml_congr hessence).symm.trans hxml)] at hhas
    -- a text is no bytes
    generalize MediaType.startsAsText declared = b at hpromised
    generalize MediaType.startsAsText actual = b' at hhas
    cases b <;> cases b' <;> first | rfl | (cases hpromised; cases hhas)
  · intro hstart
    rw [ofMediaType_congr hessence fun hjson hxml => ?_]
    · exact hhas
    by_cases hdeclared : MediaType.startsAsText declared = true
    · exact hstart
        (MediaType.isPlainText_iff.2 ⟨MediaType.startsWith_essence hdeclared, hjson, hxml⟩)
    by_cases hstarts : MediaType.startsAsText actual = true
    · refine hstart (MediaType.isPlainText_iff.2 ⟨?_, hjson, hxml⟩)
      rw [hessence]
      exact MediaType.startsWith_essence hstarts
    · rw [Bool.not_eq_true] at hdeclared hstarts
      rw [hdeclared, hstarts]

/-- An answer whose media type is spelled with capitals, for which a text is promised, is read as
bytes. -/
theorem decoded_as_promised_iff_capitals :
    let a : Answer :=
      { headers := [("content-type", "Text/Plain; charset=utf-8")], body := utf8Bytes "hi" }
    a.fits (some "text/plain") = true ∧ RawBody.ofMediaType (some "text/plain") = .text ∧
      decodeBody a none = .ok (.value (.bytes a.body)) ∧
      ¬(RawBody.ofMediaType (some "text/plain")).Has (.bytes a.body) := by
  intro a
  let actual := "Text/Plain; charset=utf-8"
  have hactual : a.mediaType = some actual := by decide +kernel
  have hfits : a.fits (some "text/plain") = true := by decide +kernel
  have hother : MediaType.isJson actual = false ∧
      (MediaType.startsAsText actual || MediaType.isXml actual) = false := by decide +kernel
  have hvalue : decodeBody a none = .ok (.value (.bytes a.body)) := by
    have hbytes : decodeValue .standard a = .ok (.bytes a.body) := by
      rw [decodeValue, hactual, Option.getD_some]
      simp only [hother.1, hother.2, Bool.false_eq_true, if_false]
    rw [decodeBody, hbytes]
    rfl
  refine ⟨hfits, by decide +kernel, hvalue, fun hhas => ?_⟩
  have hkept :=
    (decoded_as_promised_iff hactual (by decide) (by decide +kernel) hfits hvalue).1 hhas
  exact absurd (hkept (by decide +kernel)) (by decide +kernel)

end Wadl
