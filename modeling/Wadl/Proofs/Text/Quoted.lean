import Mathlib.Algebra.Group.Nat.Defs
import Mathlib.Tactic.SplitIfs
import Wadl.Text.CharClass
import Wadl.Text.Quoted

/-!
# Literals read back

`Quoted.unescape` reads one character of a literal, with its escape; it reads back what
`Quoted.escapeChar` writes, whatever characters are shown as they are (`unescape_escapeChar`). So a
literal is read off the beginning of a text in one way only (`body_append_inj`,
`quoted_append_inj`), and `readLiteral` reads it back (`readLiteral_literal`); a byte string is
written as the text of its bytes (`toList_quotedBytes`).
-/

namespace Wadl.Quoted

/-! ## Hexadecimal digits -/

/-- The number of some hexadecimal digits, the highest first; others count as zero. -/
def hexValue (cs : List Char) : Nat := cs.foldl (fun n c => 16 * n + (Digit.hexValue? c).getD 0) 0

theorem hexValue_append_singleton (cs : List Char) (c : Char) :
    hexValue (cs ++ [c]) = 16 * hexValue cs + (Digit.hexValue? c).getD 0 := by
  rw [hexValue, List.foldl_append]
  rfl

theorem hexValue?_hexDigit (n : Nat) : Digit.hexValue? (hexDigit n) = some (n % 16) := by
  have hall : ∀ m < 16, Digit.hexValue? (Nat.digitChar m) = some m := by decide
  exact hall _ (Nat.mod_lt n (by decide))

theorem length_hex (w n : Nat) : (hex w n).length = w := by
  induction w generalizing n with
  | zero => rfl
  | succ w ih => rw [hex, List.length_append, ih, List.length_singleton]

/-- The digits of a number that fits are read back as this number. -/
theorem hexValue_hex (w : Nat) : ∀ {n : Nat}, n < 16 ^ w → hexValue (hex w n) = n := by
  induction w with
  | zero =>
    intro n h
    obtain rfl : n = 0 := by simpa using h
    rfl
  | succ w ih =>
    intro n h
    have hdiv : n / 16 < 16 ^ w := by
      rw [Nat.pow_succ] at h
      exact Nat.div_lt_of_lt_mul (by omega)
    rw [hex, hexValue_append_singleton, ih hdiv, hexValue?_hexDigit, Option.getD_some]
    omega

/-! ## Characters -/

/-- The character of `w` hexadecimal digits, and what follows them. -/
def readCode (w : Nat) (cs : List Char) : Char × List Char :=
  (Char.ofNat (hexValue (cs.take w)), cs.drop w)

/-- The first character between the quotes of a literal, with its escape, and what follows it. -/
def unescape : List Char → Option (Char × List Char)
  | [] => none
  | '\\' :: cs =>
    match cs with
    | [] => none
    | 't' :: rest => some ('\t', rest)
    | 'n' :: rest => some ('\n', rest)
    | 'r' :: rest => some ('\r', rest)
    | 'x' :: rest => some (readCode 2 rest)
    | 'u' :: rest => some (readCode 4 rest)
    | 'U' :: rest => some (readCode 8 rest)
    | c :: rest => some (c, rest)
  | c :: rest => some (c, rest)

theorem readCode_hex {w : Nat} {c : Char} (h : c.toNat < 16 ^ w) (rest : List Char) :
    readCode w (hex w c.toNat ++ rest) = (c, rest) := by
  rw [readCode, List.take_left' (length_hex w _),
    List.drop_left' (length_hex w _), hexValue_hex w h, Char.ofNat_toNat]

theorem unescape_codeEscape (c : Char) (rest : List Char) :
    unescape (codeEscape c.toNat ++ rest) = some (c, rest) := by
  unfold codeEscape
  split_ifs with h₁ h₂
  · exact congrArg some (readCode_hex (w := 2) h₁ rest)
  · exact congrArg some (readCode_hex (w := 4) h₂ rest)
  · have hmax : c.toNat < 16 ^ 8 := c.val.toNat_lt
    exact congrArg some (readCode_hex (w := 8) hmax rest)

variable {shown : Char → Bool} {quote : Char}

/-- What is written for a character is read as this character. -/
theorem unescape_escapeChar (hquote : quote = '\'' ∨ quote = '"') (c : Char) (rest : List Char) :
    unescape (escapeChar shown quote c ++ rest) = some (c, rest) := by
  unfold escapeChar
  split_ifs with hc ht hn hr hshown
  · rcases hc with rfl | rfl
    · rcases hquote with rfl | rfl <;> rfl
    · rfl
  · rw [ht]
    rfl
  · rw [hn]
    rfl
  · rw [hr]
    rfl
  · rw [not_or] at hc
    rw [List.singleton_append, unescape.eq_def]
    split
    · rename_i h
      cases h
    · rename_i h
      exact absurd (List.cons.inj h).1 hc.2
    · rename_i h
      rw [(List.cons.inj h).1, (List.cons.inj h).2]
  · exact unescape_codeEscape c rest

/-- What is written for a character does not begin with the quote. -/
theorem escapeChar_ne_quote (hquote : quote = '\'' ∨ quote = '"') (c : Char)
    {rest rest' : List Char} : escapeChar shown quote c ++ rest ≠ quote :: rest' := by
  have hslash : quote ≠ '\\' := by rcases hquote with rfl | rfl <;> decide
  intro h
  unfold escapeChar codeEscape at h
  split_ifs at h with hc
  all_goals first
    | exact hslash (List.cons.inj h).1.symm
    | exact hc (Or.inl (List.cons.inj h).1)

/-- What stands between quotes ends at one place only. -/
theorem body_append_inj (hquote : quote = '\'' ∨ quote = '"') {rest rest' : List Char} :
    ∀ {cs cs' : List Char},
      body shown quote cs ++ quote :: rest = body shown quote cs' ++ quote :: rest' →
      cs = cs' ∧ rest = rest'
  | [], [], h => ⟨rfl, (List.cons.inj h).2⟩
  | [], c' :: cs', h => by
    rw [body, List.flatMap_nil, List.nil_append, body, List.flatMap_cons, List.append_assoc] at h
    exact absurd h.symm (escapeChar_ne_quote hquote c')
  | c :: cs, [], h => by
    rw [body, List.flatMap_cons, List.append_assoc, body, List.flatMap_nil, List.nil_append] at h
    exact absurd h (escapeChar_ne_quote hquote c)
  | c :: cs, c' :: cs', h => by
    rw [body, List.flatMap_cons, List.append_assoc, body, List.flatMap_cons, List.append_assoc] at h
    have hread := congrArg unescape h
    rw [unescape_escapeChar hquote, unescape_escapeChar hquote] at hread
    obtain ⟨rfl, htail⟩ := Prod.mk.inj (Option.some.inj hread)
    obtain ⟨rfl, hrest⟩ := body_append_inj hquote htail
    exact ⟨rfl, hrest⟩

/-! ## Literals -/

/-- The characters up to the quote that ends a literal, and what follows it; each takes a step. -/
def readBody (quote : Char) : (steps : Nat) → List Char → Option (List Char × List Char)
  | 0, _ => none
  | steps + 1, cs =>
    if cs.head? = some quote then some ([], cs.drop 1)
    else
      match unescape cs with
      | none => none
      | some (c, rest) => (readBody quote steps rest).map fun (ds, rest) => (c :: ds, rest)

/-- The characters that a literal at the beginning of a text denotes, and what follows it. -/
def readLiteral : List Char → Option (List Char × List Char)
  | [] => none
  | quote :: cs =>
    if quote = '\'' ∨ quote = '"' then readBody quote (cs.length + 1) cs else none

theorem escapeChar_ne_nil (shown : Char → Bool) (quote c : Char) :
    escapeChar shown quote c ≠ [] := by
  unfold escapeChar codeEscape
  split_ifs <;> exact List.cons_ne_nil _ _

theorem readBody_body (hquote : quote = '\'' ∨ quote = '"') {rest : List Char} :
    ∀ {cs : List Char} {steps : Nat}, (body shown quote cs).length < steps →
      readBody quote steps (body shown quote cs ++ quote :: rest) = some (cs, rest)
  | _, 0, h => absurd h (Nat.not_lt_zero _)
  | [], steps + 1, _ => by
    rw [readBody, body, List.flatMap_nil, List.nil_append, List.head?_cons,
      if_pos rfl, List.drop_one, List.tail_cons]
  | c :: cs, steps + 1, h => by
    have hbody : body shown quote (c :: cs) = escapeChar shown quote c ++ body shown quote cs := rfl
    have hpos := List.length_pos_iff.2 (escapeChar_ne_nil shown quote c)
    rw [hbody, List.length_append] at h
    rw [hbody, List.append_assoc, readBody, if_neg, unescape_escapeChar hquote]
    · simp only
      rw [readBody_body hquote (by omega)]
      rfl
    · -- what is written for a character does not begin with the quote
      intro hhead
      obtain ⟨d, ds, hd⟩ := List.exists_cons_of_ne_nil (escapeChar_ne_nil shown quote c)
      rw [hd, List.cons_append, List.head?_cons, Option.some.injEq] at hhead
      have hstart : escapeChar shown quote c ++ [] = quote :: ds := by
        rw [hd, hhead, List.append_nil]
      exact escapeChar_ne_quote hquote c hstart

/-- A literal is read as the text that it is written for. -/
theorem readLiteral_literal (hquote : quote = '\'' ∨ quote = '"') (cs rest : List Char) :
    readLiteral (literal shown quote cs ++ rest) = some (cs, rest) := by
  rw [literal, List.cons_append, List.cons_append, List.append_assoc,
    List.singleton_append, readLiteral, if_pos hquote]
  refine readBody_body hquote ?_
  rw [List.length_append]
  omega

/-- The characters that a byte string shows as they are. -/
def isShownByte (c : Char) : Bool := 0x20 ≤ c.toNat && c.toNat < 0x7f

theorem toNat_ofByte (b : UInt8) : (Char.ofNat b.toNat).toNat = b.toNat := by
  have hvalid : b.toNat.isValidChar := Or.inl (Nat.lt_trans b.toNat_lt (by decide))
  have hchar : Char.ofNat b.toNat = Char.ofNatAux b.toNat hvalid := dif_pos hvalid
  rw [hchar]
  rfl

/-- A byte is written as the character of its number. -/
theorem escapeByte_eq (b : UInt8) :
    escapeByte quote b = escapeChar isShownByte quote (Char.ofNat b.toNat) := by
  have hnat := toNat_ofByte b
  have hshown : (0x20 ≤ b ∧ b < 0x7f) ↔ isShownByte (Char.ofNat b.toNat) = true := by
    rw [isShownByte, hnat, Bool.and_eq_true, decide_eq_true_iff, decide_eq_true_iff]
    rfl
  have hcode : codeEscape b.toNat = '\\' :: 'x' :: hex 2 b.toNat := if_pos b.toNat_lt
  simp only [escapeByte, escapeChar, hnat, hcode, hshown]

/-- A byte string is written as the text of its bytes. -/
theorem toList_quotedBytes (bytes : List UInt8) : ∃ quote, (quote = '\'' ∨ quote = '"') ∧
    (quotedBytes bytes).toList =
      'b' :: literal isShownByte quote (bytes.map fun b => Char.ofNat b.toNat) := by
  have hbody : ∀ quote, bytes.flatMap (escapeByte quote) =
      body isShownByte quote (bytes.map fun b => Char.ofNat b.toNat) := by
    intro quote
    rw [body, List.flatMap_map]
    exact congrArg (bytes.flatMap ·) (funext escapeByte_eq)
  simp only [quotedBytes, String.toList_ofList, hbody]
  refine ⟨_, ?_, rfl⟩
  split
  · exact Or.inr rfl
  · exact Or.inl rfl

theorem preferredQuote_eq (cs : List Char) :
    preferredQuote cs = '\'' ∨ preferredQuote cs = '"' := by
  unfold preferredQuote
  split_ifs
  · exact Or.inr rfl
  · exact Or.inl rfl

end Wadl.Quoted

namespace Wadl

open Quoted

/-- A literal at the beginning of a text is the literal of one text only. -/
theorem quoted_append_inj {s s' : String} {rest rest' : List Char}
    (h : (quoted s).toList ++ rest = (quoted s').toList ++ rest') : s = s' ∧ rest = rest' := by
  unfold quoted at h
  simp only [String.toList_ofList, literal, List.cons_append, List.append_assoc] at h
  obtain ⟨hquote, hbody⟩ := List.cons.inj h
  rw [← hquote] at hbody
  obtain ⟨hs, hrest⟩ := body_append_inj (preferredQuote_eq _) hbody
  exact ⟨String.toList_inj.1 hs, hrest⟩

end Wadl
