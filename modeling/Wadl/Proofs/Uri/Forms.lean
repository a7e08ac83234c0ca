import Mathlib.Data.List.TakeWhile
import Wadl.Proofs.Charset.Utf8
import Wadl.Proofs.Text.Pieces
import Wadl.Text.CharClass
import Wadl.Uri.Percent

/-!
# Encoded texts read back

What a text is encoded to, anywhere in a URI or in its path, stands for the text
(`percentDecoded_percentEncoded`, `percentDecoded_pathEncoded`). A name or a value of a form is
written without the marks that stand between pairs (`mem_formText`), and is read back whatever it
holds (`formDecodedText_formText`). So a form is cut where its pairs were joined, and the pairs are
read back in their order, those without a value only if these are kept (`formPairs_formEncoded`).
-/

namespace Wadl

namespace Percent

/-! ## Bytes -/

/-- Hexadecimal digits are read back. -/
theorem hexValue_hexDigit {n : Nat} (h : n < 16) : Digit.hexValue? (hexDigit n) = some n := by
  have hall : ∀ n < 16, Digit.hexValue? (hexDigit n) = some n := by decide
  exact hall n h

theorem isUnreserved_hexDigit {n : Nat} (h : n < 16) : isUnreserved (hexDigit n) = true := by
  have hall : ∀ n < 16, isUnreserved (hexDigit n) = true := by decide
  exact hall n h

/-- A byte that was percent-encoded is read back, whatever follows. -/
theorem decodeBytes_encodeByte (b : UInt8) (cs : List Char) :
    decodeBytes (encodeByte b ++ cs) = b :: decodeBytes cs := by
  have hbyte : b.toNat < 256 := b.toNat_lt
  have hvalue : UInt8.ofNat (16 * (b.toNat / 16) + b.toNat % 16) = b := by
    rw [Nat.div_add_mod, UInt8.ofNat_toNat]
  rw [encodeByte, List.cons_append, List.cons_append, List.singleton_append, decodeBytes]
  simp only [hexValue_hexDigit (show b.toNat / 16 < 16 by omega),
    hexValue_hexDigit (show b.toNat % 16 < 16 by omega), hvalue]

theorem decodeBytes_encodeBytes (bs : List UInt8) (cs : List Char) :
    decodeBytes (bs.flatMap encodeByte ++ cs) = bs ++ decodeBytes cs := by
  induction bs with
  | nil => rfl
  | cons b bs ih =>
    rw [List.flatMap_cons, List.append_assoc, decodeBytes_encodeByte, ih, List.cons_append]

/-- Other characters stand for themselves. -/
theorem decodeBytes_plain {c : Char} (h : c ≠ '%') (cs : List Char) :
    decodeBytes (c :: cs) = UInt8.ofNat c.toNat :: decodeBytes cs := by
  rw [decodeBytes]
  rintro a b rest rfl
  exact absurd rfl h

/-! ## Characters -/

/-- Characters that stand for themselves: those of ASCII, and no percent sign. -/
def Plain (safe : Char → Bool) : Prop := ∀ c, safe c = true → c.toNat < 0x80 ∧ c ≠ '%'

theorem isUnreserved_plain : Plain isUnreserved := by
  intro c hc
  simp only [isUnreserved, Bool.or_eq_true, beq_iff_eq, CharClass.isAsciiAlphanumeric_iff,
    CharClass.isAsciiLower_iff, CharClass.isAsciiUpper_iff, CharClass.isAsciiDigit_iff] at hc
  rcases hc with (((h | rfl) | rfl) | rfl) | rfl
  · have hpercent : c ≠ '%' := by
      rintro rfl
      revert h
      decide
    exact ⟨by omega, hpercent⟩
  all_goals exact ⟨by decide, by decide⟩

variable {safe : Char → Bool} {cs : List Char}

/-- Encoded characters stand for the bytes of the characters. -/
theorem decodeBytes_encodeList (hsafe : Plain safe) (cs : List Char) :
    decodeBytes (encodeList safe cs) = Utf8.encode cs := by
  unfold encodeList Utf8.encode
  induction cs with
  | nil => rfl
  | cons c cs ih =>
    rw [List.flatMap_cons, List.flatMap_cons, ← ih]
    by_cases hc : safe c = true
    · obtain ⟨hascii, hpercent⟩ := hsafe c hc
      rw [if_pos hc, List.singleton_append, decodeBytes_plain hpercent,
        Utf8.encodeChar, if_pos hascii]
      rfl
    · rw [if_neg hc, decodeBytes_encodeBytes]

/-- Encoded characters are safe ones, percent signs and digits. -/
theorem mem_encodeList {c : Char} (h : c ∈ encodeList safe cs) :
    safe c = true ∨ c = '%' ∨ isUnreserved c = true := by
  obtain ⟨d, -, hd⟩ := List.mem_flatMap.1 h
  by_cases hsafe : safe d = true
  · rw [if_pos hsafe, List.mem_singleton] at hd
    rw [hd]
    exact Or.inl hsafe
  · rw [if_neg hsafe] at hd
    obtain ⟨b, -, hc⟩ := List.mem_flatMap.1 hd
    have hbyte : b.toNat < 256 := b.toNat_lt
    simp only [encodeByte, List.mem_cons, List.not_mem_nil, or_false] at hc
    rcases hc with rfl | rfl | rfl
    · exact Or.inr (Or.inl rfl)
    · exact Or.inr (Or.inr (isUnreserved_hexDigit (by omega)))
    · exact Or.inr (Or.inr (isUnreserved_hexDigit (by omega)))

/-- Characters of ASCII are decoded as one run. -/
theorem decodeFrom_of_ascii : ∀ {cs run : List Char}, (∀ c ∈ cs, c.toNat < 0x80) →
    decodeFrom run cs = decodeRun (run.reverse ++ cs)
  | [], run, _ => by rw [decodeFrom, List.append_nil]
  | c :: cs, run, h => by
    obtain ⟨hc, hcs⟩ := List.forall_mem_cons.1 h
    rw [decodeFrom, if_pos hc, decodeFrom_of_ascii hcs, List.reverse_cons, List.append_assoc,
      List.singleton_append]

/-- Encoding is undone by decoding for any set of safe characters without the percent sign. -/
theorem decodeFrom_encodeList (hsafe : Plain safe) (cs : List Char) :
    decodeFrom [] (encodeList safe cs) = cs := by
  have hascii : ∀ c ∈ encodeList safe cs, c.toNat < 0x80 := by
    intro c hc
    rcases mem_encodeList hc with h | rfl | h
    · exact (hsafe c h).1
    · decide
    · exact (isUnreserved_plain c h).1
  have hbytes : Utf8.encode cs = utf8Bytes (String.ofList cs) := by
    rw [utf8Bytes, String.toList_ofList]
  rw [decodeFrom_of_ascii hascii, List.reverse_nil, List.nil_append, decodeRun,
    decodeBytes_encodeList hsafe, hbytes, decode_utf8Bytes, String.toList_ofList]

end Percent

/-! ## Texts in a URI -/

section EncodedText

open Percent

/-- The characters that stand for themselves in a path. -/
def isPathSafe (c : Char) : Bool := isUnreserved c || c == '/'

theorem isPathSafe_plain : Plain isPathSafe := by
  intro c hc
  rw [isPathSafe, Bool.or_eq_true, beq_iff_eq] at hc
  rcases hc with h | rfl
  · exact isUnreserved_plain c h
  · decide

theorem toList_pathEncoded (s : String) :
    (pathEncoded s).toList = encodeList isPathSafe s.toList := by
  rw [pathEncoded, String.toList_ofList]
  rfl

/-- An encoded text holds no marks. -/
theorem mem_percentEncoded {s : String} {c : Char} (h : c ∈ (percentEncoded s).toList) :
    isUnreserved c = true ∨ c = '%' := by
  rw [percentEncoded, String.toList_ofList] at h
  rcases mem_encodeList h with h | h | h
  · exact Or.inl h
  · exact Or.inr h
  · exact Or.inl h

/-- An encoded path holds safe characters and percent signs only. -/
theorem mem_pathEncoded {s : String} {c : Char} (h : c ∈ (pathEncoded s).toList) :
    isPathSafe c = true ∨ c = '%' := by
  rw [toList_pathEncoded] at h
  rcases mem_encodeList h with h | h | h
  · exact Or.inl h
  · exact Or.inr h
  · refine Or.inl ?_
    rw [isPathSafe, h, Bool.true_or]

/-- Percent-decoding undoes percent-encoding, so different texts stay different. -/
theorem percentDecoded_percentEncoded (s : String) : percentDecoded (percentEncoded s) = s := by
  rw [percentDecoded, percentEncoded, String.toList_ofList,
    decodeFrom_encodeList isUnreserved_plain, String.ofList_toList]

/-- So it does for paths. -/
theorem percentDecoded_pathEncoded (s : String) : percentDecoded (pathEncoded s) = s := by
  rw [percentDecoded, toList_pathEncoded, decodeFrom_encodeList isPathSafe_plain,
    String.ofList_toList]

end EncodedText

/-! ## Names and values -/

section FormText

open Percent

/-- The characters that stand for themselves in a form; spaces are replaced afterwards. -/
def isFormSafe (c : Char) : Bool := isUnreserved c || c == ' '

theorem isFormSafe_plain : Plain isFormSafe := by
  intro c hc
  rw [isFormSafe, Bool.or_eq_true, beq_iff_eq] at hc
  rcases hc with h | rfl
  · exact isUnreserved_plain c h
  · decide

/-- In forms, spaces are written as plus signs. -/
theorem toList_formText (s : String) :
    (formText s).toList = (encodeList isFormSafe s.toList).map fun c => if c =
      ' ' then '+' else c := by
  rw [formText, String.toList_ofList]
  rfl

/-- A name or a value of a form holds no separators. -/
theorem mem_formText {s : String} {c : Char} (h : c ∈ (formText s).toList) :
    isUnreserved c = true ∨ c = '%' ∨ c = '+' := by
  rw [toList_formText] at h
  obtain ⟨d, hd, rfl⟩ := List.mem_map.1 h
  by_cases hspace : d = ' '
  · exact Or.inr (Or.inr (if_pos hspace))
  · rw [if_neg hspace]
    rcases mem_encodeList hd with hsafe | hpercent | hunreserved
    · rw [isFormSafe, Bool.or_eq_true, beq_iff_eq] at hsafe
      exact Or.inl (hsafe.resolve_right hspace)
    · exact Or.inr (Or.inl hpercent)
    · exact Or.inl hunreserved

/-- The separators of a form never stand in what is encoded. -/
theorem notMem_formText {c : Char} (hc : c ∈ ['&', '=']) (s : String) :
    c ∉ (formText s).toList := by
  intro h
  simp only [List.mem_cons, List.not_mem_nil, or_false] at hc
  rcases hc with rfl | rfl <;> exact absurd (mem_formText h) (by decide)

/-- A name or a value of a form is read back. -/
theorem formDecodedText_formText (s : String) : formDecodedText (formText s) = s := by
  -- a plus sign is never written for itself, so that each is a space
  have hspaces : ((formText s).toList.map fun c => if c = '+' then ' ' else c) =
      encodeList isFormSafe s.toList := by
    rw [toList_formText, List.map_map]
    refine (List.map_congr_left fun c hc => ?_).trans (List.map_id _)
    have hplus : c ≠ '+' := by
      rintro rfl
      exact absurd (mem_encodeList hc) (by decide)
    show (if (if c = ' ' then '+' else c) = '+' then ' ' else if c = ' ' then '+' else c) = c
    by_cases hspace : c = ' '
    · rw [if_pos (if_pos hspace), hspace]
    · rw [if_neg hspace, if_neg hplus]
  rw [formDecodedText, hspaces, percentDecoded, String.toList_ofList,
    decodeFrom_encodeList isFormSafe_plain, String.ofList_toList]

theorem formText_eq_empty {s : String} : formText s = "" ↔ s = "" := by
  constructor
  · intro h
    rw [← formDecodedText_formText s, h]
    decide
  · rintro rfl
    decide

end FormText

/-! ## Pairs -/

theorem bne_of_notMem {sep : Char} {cs : List Char} (h : sep ∉ cs) :
    ∀ c ∈ cs, (c != sep) = true := by
  intro c hc
  rw [bne_iff_ne]
  rintro rfl
  exact h hc

/-- A text is cut at the first separator. -/
theorem cutAt_append {sep : Char} {s t : String} (h : sep ∉ s.toList) :
    cutAt sep (s ++ String.singleton sep ++ t) = (s, t) := by
  have hlist : (s ++ String.singleton sep ++ t).toList = s.toList ++ sep :: t.toList := by
    simp
  rw [cutAt, hlist, List.takeWhile_append_of_pos (bne_of_notMem h),
    List.dropWhile_append_of_pos (bne_of_notMem h),
    List.takeWhile_cons_of_neg (by simp), List.dropWhile_cons_of_neg (by simp),
    List.append_nil, List.drop_one, List.tail_cons, String.ofList_toList, String.ofList_toList]

theorem cutAt_of_notMem {sep : Char} {s : String} (h : sep ∉ s.toList) : cutAt sep s = (s, "") := by
  have hkept : s.toList.takeWhile (· != sep) = s.toList := by
    exact List.takeWhile_eq_self_iff.2 (bne_of_notMem h)
  have hdropped : s.toList.dropWhile (· != sep) = [] := by
    exact List.dropWhile_eq_nil_iff.2 (bne_of_notMem h)
  rw [cutAt, hkept, hdropped, String.ofList_toList]
  rfl

/-- A pair as it stands in a form. -/
def formPiece (pair : String × String) : String := formText pair.1 ++ "=" ++ formText pair.2

/-- No pair holds the separator of pairs, so a form is cut where it was joined. -/
theorem notMem_formPiece (pair : String × String) : '&' ∉ (formPiece pair).toList := by
  have hname := notMem_formText (c := '&') (by decide) pair.1
  have hvalue := notMem_formText (c := '&') (by decide) pair.2
  have hequals : '&' ∉ "=".toList := by decide
  rw [formPiece, String.toList_append, String.toList_append]
  simp only [List.mem_append, not_or]
  exact ⟨⟨hname, hequals⟩, hvalue⟩

/-- A pair is read back, without a value only if such pairs are kept. -/
theorem formPair_formPiece (keepBlank : Bool) (pair : String × String) :
    formPair? keepBlank (formPiece pair) =
      if pair.2.isEmpty && !keepBlank then none else some pair := by
  have hpiece : (formPiece pair).isEmpty = false := by
    rw [← Bool.not_eq_true, String.isEmpty_iff]
    intro h
    have hlist := congrArg String.toList h
    simp [formPiece] at hlist
  have hcut : cutAt '=' (formPiece pair) = (formText pair.1, formText pair.2) :=
    cutAt_append (notMem_formText (by decide) pair.1)
  have hblank : (formText pair.2).isEmpty = pair.2.isEmpty := by
    rw [Bool.eq_iff_iff, String.isEmpty_iff, String.isEmpty_iff, formText_eq_empty]
  rw [formPair?, hpiece, if_neg Bool.false_ne_true, hcut]
  simp only [hblank, formDecodedText_formText]

/-- The pairs of a form are read back in their order, those without a value only if these are
kept. -/
theorem formPairs_formEncoded (keepBlank : Bool) (pairs : List (String × String)) :
    formPairs keepBlank (formEncoded pairs) = pairs.filter fun p => keepBlank || !p.2.isEmpty := by
  cases pairs with
  | nil => rfl
  | cons p ps =>
    have hpieces : piecesAt '&' (formEncoded (p :: ps)) = (p :: ps).map formPiece := by
      have hcut : Text.pieces (· == '&') (formEncoded (p :: ps)).toList =
          ((p :: ps).map formPiece).map String.toList := by
        rw [formEncoded, String.toList_intercalate]
        refine Text.pieces_intercalate (by decide) (List.cons_ne_nil _ _) fun w hw c hc => ?_
        obtain ⟨s, hs, rfl⟩ := List.mem_map.1 hw
        obtain ⟨q, -, rfl⟩ := List.mem_map.1 hs
        rw [beq_eq_false_iff_ne]
        rintro rfl
        exact notMem_formPiece q hc
      rw [piecesAt, hcut, List.map_map]
      exact (List.map_congr_left fun s _ => String.ofList_toList).trans (List.map_id _)
    have hread : formPair? keepBlank ∘ formPiece =
        Option.guard fun p => keepBlank || !p.2.isEmpty := by
      funext q
      rw [Function.comp_apply, formPair_formPiece, Option.guard]
      cases q.2.isEmpty <;> cases keepBlank <;> rfl
    rw [formPairs, hpieces, List.filterMap_map, hread, List.filterMap_eq_filter]

end Wadl
