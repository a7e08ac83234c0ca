import Mathlib.Data.List.TakeWhile
import Wadl.Client.Builder
import Wadl.Proofs.Naming.Style
import Wadl.Proofs.Runs
import Wadl.Proofs.Source.Calls
import Wadl.Proofs.Source.Tokens
import Wadl.Proofs.Types.Literal
import Wadl.Source.Expression

/-!
# Literals as source

A default or fixed value is written into generated source as a literal. It is an expression,
whichever value it is (`IsExpression`), and what it mentions is `True`, `False` or `datetime`,
unless the value is a number that is not finite: that is written as a name which nothing defines. An
expression that is defined denotes a value of the kind that its type asks for (`evaluated?`), unless
that is a duration, of which only the text is kept (`valueExpr_closed_iff`). A literal is one
operand of a call, whatever it is (`whole_literal`).
-/

namespace Wadl.Source

open Quoted Numeral

/-! ## Expressions -/

/-- The words that tokens mention on their own, and not as parts of a value. -/
def mentioned : List Token → List String
  | [] => []
  | .mark "." :: .word _ :: ts => mentioned ts
  | .word w :: ts => w :: mentioned ts
  | _ :: ts => mentioned ts

/-- Source is one expression, which mentions some words. -/
def IsExpression (source : String) (words : List String) : Prop :=
  ∃ ts, tokens? source = some (ts ++ [.newline]) ∧
    (∃ fuel form, (expression fuel).run ts = some (form, [])) ∧ mentioned ts = words

/-- The words that are defined wherever a literal stands. -/
def definedWords : List String := ["True", "False", "datetime"]

/-- The value of a number that is not written as a whole one. -/
def decimal? (cs : List Char) : Option Value :=
  let (negative, digits) := splitSign cs
  if digits.contains '.' || digits.contains 'e' then
    (unsignedDecimal negative digits).map fun d => .float (Binary64.ofDecimal d)
  else none

/-- The value of an expression. -/
def evaluated? (source : String) : Option Value := (decimal? source.toList).or (denoted? source)

/-! ## Texts and bytes -/

/-- Printable characters are no control characters. -/
theorem le_of_isPrintable {c : Char} (h : CharClass.isPrintable c = true) : 0x20 ≤ c.toNat := by
  unfold CharClass.isPrintable at h
  split_ifs at h with hascii
  · rw [Bool.and_eq_true, decide_eq_true_iff] at h
    exact h.1
  · omega

theorem le_of_isShownByte {c : Char} (h : isShownByte c = true) : 0x20 ≤ c.toNat := by
  rw [isShownByte, Bool.and_eq_true, decide_eq_true_iff] at h
  exact h.1

section literal

variable {shown : Char → Bool} {quote : Char} (hquote : quote = '\'' ∨ quote = '"')

include hquote

/-- There is no control character in a literal. -/
theorem control_literal (hshown : ∀ {c}, shown c = true → 0x20 ≤ c.toNat) (cs : List Char) :
    ∀ d ∈ literal shown quote cs, 0x20 ≤ d.toNat := by
  have hends : 0x20 ≤ quote.toNat := by rcases hquote with rfl | rfl <;> decide
  refine List.forall_mem_append.2
    ⟨List.forall_mem_cons.2 ⟨hends, fun d hd => ?_⟩, List.forall_mem_singleton.2 hends⟩
  obtain ⟨c, -, hd⟩ := List.mem_flatMap.1 hd
  exact (escapedAs_escapeChar hquote c).forall_mem (P := fun d => 0x20 ≤ d.toNat)
    (List.all_iff_forall_prop.1 (by decide)) (by decide) hshown d hd

theorem startsToken_quote : startsToken quote = true := by
  rcases hquote with rfl | rfl <;> rfl

/-- The literal of a text is one token, wherever it stands. -/
theorem takes_literal (shown : Char → Bool) (p : Position) (cs : List Char) {rest : List Char}
    (hrest : rest.head? ≠ some quote) :
    Takes p (literal shown quote cs) (p.push (.text false)) rest := by
  have htoken := tokenAt_literal shown hquote cs hrest
  rw [literal, List.cons_append] at htoken ⊢
  exact .token (startsToken_quote hquote) htoken fun _ => Token.noConfusion

/-- The literal of a text alone is one token. -/
theorem tokens?_literal (hshown : ∀ {c}, shown c = true → 0x20 ≤ c.toNat) (cs : List Char) :
    tokens? (String.ofList (literal shown quote cs)) = some [.text false, .newline] := by
  have hrest : ['\n'].head? ≠ some quote := by rcases hquote with rfl | rfl <;> decide
  have htakes := takes_literal hquote shown {} cs hrest
  have hcontrol := control_literal hquote hshown cs
  rw [literal, List.cons_append] at htakes hcontrol ⊢
  exact tokens?_of_takes hcontrol (startsToken_quote hquote) htakes ⟨rfl, rfl⟩

/-- The literal of bytes alone is one token. -/
theorem tokens?_bytes {cs : List Char} (hcs : ∀ c ∈ cs, c.toNat < 0x100) :
    tokens? (String.ofList ('b' :: literal isShownByte quote cs)) =
      some [.text true, .newline] := by
  have hrest : ['\n'].head? ≠ some quote := by rcases hquote with rfl | rfl <;> decide
  have htakes : Takes {} ('b' :: literal isShownByte quote cs)
      (Position.push {} (.text true)) ['\n'] :=
    .token rfl (tokenAt_bytes hquote hcs hrest) fun _ => Token.noConfusion
  exact tokens?_of_takes
    (List.forall_mem_cons.2 ⟨by decide, control_literal hquote le_of_isShownByte cs⟩) rfl htakes
    ⟨rfl, rfl⟩

/-- A call of a function with a text; `p` is the position after its name and the opening bracket. -/
theorem tokens?_call {opening : List Char} {p : Position}
    (hopening : ∀ rest, Takes {} ('d' :: opening) p rest) (hcontrol : ∀ d ∈ opening, 0x20 ≤ d.toNat)
    (hp : p.brackets = ["("] ∧ p.blocks = [])
    (hshown : ∀ {c}, shown c = true → 0x20 ≤ c.toNat) (cs : List Char) :
    tokens? (String.ofList ('d' :: opening ++ literal shown quote cs ++ [')'])) =
      some (p.done.reverse ++ [.text false, .mark ")", .newline]) := by
  have hclose : (')' :: ['\n']).head? ≠ some quote := by rcases hquote with rfl | rfl <;> decide
  have hmark : Takes (p.push (.text false)) [')']
      ⟨[], [], .mark ")" :: .text false :: p.done⟩ ['\n'] := by
    refine .mark rfl rfl ?_
    simp only [Position.pushMark, opening?, Position.push, hp, if_true]
  -- the name with its bracket, the text, and the bracket after it
  have htakes := ((hopening _).append (takes_literal hquote shown p cs hclose)).append hmark
  have hall : ∀ d ∈ 'd' :: (opening ++ literal shown quote cs ++ [')']), 0x20 ≤ d.toNat := by
    refine List.forall_mem_cons.2
      ⟨by decide, List.forall_mem_append.2 ⟨List.forall_mem_append.2 ⟨hcontrol, ?_⟩,
      List.forall_mem_singleton.2 (by decide)⟩⟩
    exact control_literal hquote hshown cs
  have htokens := tokens?_of_takes hall rfl htakes ⟨rfl, rfl⟩
  simpa only [List.reverse_cons, List.append_assoc, List.cons_append, List.nil_append] using htokens

end literal

/-! ## Numbers -/

theorem le_of_isAsciiDigit {d : Char} (h : CharClass.isAsciiDigit d = true) : 0x20 ≤ d.toNat := by
  have := CharClass.isAsciiDigit_iff.1 h
  omega

theorem startsToken_of_isAsciiDigit {d : Char} (h : CharClass.isAsciiDigit d = true) :
    startsToken d = true := by
  rw [startsToken, Bool.not_eq_true', Bool.eq_false_iff, Ne, List.contains_iff_mem]
  intro hmem
  have hall : ∀ e ∈ ['\t', '\n', '\x0c', ' ', '#', '\\'], CharClass.isAsciiDigit e = false :=
    List.all_iff_forall_prop.1 (by decide)
  exact Bool.eq_false_iff.1 (hall d hmem) h

/-- A minus before a digit is a mark, and no part of a longer one. -/
theorem tokenAt_minus {d : Char} (hd : CharClass.isAsciiDigit d = true) (cs : List Char) :
    tokenAt ('-' :: d :: cs) = some (.mark "-", d :: cs) := by
  have hother : ∀ e, CharClass.isAsciiDigit e = false → e ≠ d := by
    rintro e he rfl
    exact Bool.eq_false_iff.1 he hd
  have hmark : markAt? ('-' :: d :: cs) = some ("-", d :: cs) := by
    have hlength : "-".length = 1 := rfl
    simp [markAt?, marks, List.isPrefixOf, hother '>' (by decide), hother '=' (by decide), hlength]
  have hpoint : ¬(decide ('-' = '.') && (d :: cs).head?.any CharClass.isAsciiDigit) = true :=
    Bool.false_ne_true
  rw [tokenAt, if_neg (by decide), if_neg hpoint, if_neg (by decide), if_neg (by decide), hmark]
  rfl

/-- A number with its sign. -/
theorem tokens?_signed {cs : List Char}
    (hhead : ∃ d, cs.head? = some d ∧ CharClass.isAsciiDigit d = true)
    (hcontrol : ∀ d ∈ cs, 0x20 ≤ d.toNat)
    (hnumber : tokenAt (cs ++ ['\n']) = some (.number, ['\n'])) (negative : Bool) :
    tokens? (String.ofList (signed negative cs)) =
      some ((if negative then [.mark "-", .number] else [.number]) ++ [.newline]) := by
  obtain ⟨d, hd, hdigit⟩ := hhead
  obtain ⟨ds, rfl⟩ := List.head?_eq_some_iff.1 hd
  have hstart := startsToken_of_isAsciiDigit hdigit
  have htakes : ∀ p, Takes p (d :: ds) (p.push .number) ['\n'] := fun p =>
    .token hstart hnumber fun _ => Token.noConfusion
  cases negative with
  | false => exact tokens?_of_takes hcontrol hstart (htakes {}) ⟨rfl, rfl⟩
  | true =>
    have hsign : Takes {} ['-'] (Position.push {} (.mark "-")) (d :: ds ++ ['\n']) :=
      .mark rfl (tokenAt_minus hdigit _) rfl
    exact tokens?_of_takes (List.forall_mem_cons.2 ⟨by decide, hcontrol⟩) rfl
      (hsign.append (htakes _)) ⟨rfl, rfl⟩

/-- A numeral that can be read is one token, after its sign. -/
theorem tokens?_toString {i : Int} (h : ∃ word, readInteger word = some i) :
    tokens? (toString i) =
      some ((if decide (i < 0) then [.mark "-", .number] else [.number]) ++ [.newline]) := by
  obtain ⟨word, hword⟩ := h
  have hne : Nat.toDigits 10 i.natAbs ≠ [] := Nat.toDigits_ne_nil
  have hdigits := digits_toDigits i.natAbs
  have hlength : (Nat.toDigits 10 i.natAbs).length ≤ maxDigits :=
    (Nat.length_toDigits_le_iff (by decide) (by decide)).2 (natAbs_lt_of_integerOf hword)
  rw [← String.ofList_toList (s := toString i), toList_toString]
  refine tokens?_signed ?_ (fun d hd => le_of_isAsciiDigit (hdigits d hd))
    (tokenAt_whole hne hdigits hlength head_toDigits) _
  obtain ⟨d, ds, hds⟩ := List.exists_cons_of_ne_nil hne
  exact ⟨d, by rw [hds]; rfl, hdigits d (by rw [hds]; exact List.mem_cons_self)⟩

namespace IsDecimal

variable {cs : List Char}

/-- A decimal begins with a digit. -/
theorem head?_digit (h : IsDecimal cs) :
    ∃ d, cs.head? = some d ∧ CharClass.isAsciiDigit d = true := by
  cases h with
  | point hwhole hpart =>
    obtain ⟨d, ds, rfl⟩ := List.exists_cons_of_ne_nil hwhole.1
    exact ⟨d, rfl, hwhole.2 d List.mem_cons_self⟩
  | power hd hpart hsign hpower => exact ⟨_, rfl, hd⟩

/-- There is no control character in a decimal. -/
theorem control (h : IsDecimal cs) : ∀ d ∈ cs, 0x20 ≤ d.toNat := by
  have hall : ∀ {ds}, Digits ds → ∀ d ∈ ds, 0x20 ≤ d.toNat :=
    fun hds d hd => le_of_isAsciiDigit (hds d hd)
  cases h with
  | point hwhole hpart =>
    exact List.forall_mem_append.2 ⟨hall hwhole.2, List.forall_mem_cons.2 ⟨by decide, hall hpart.2⟩⟩
  | @power d sign part power hd hpart hsign hpower =>
    have hsign' : 0x20 ≤ sign.toNat := by rcases hsign with rfl | rfl <;> decide
    refine List.forall_mem_append.2 ⟨List.forall_mem_cons.2 ⟨le_of_isAsciiDigit hd, ?_⟩,
      List.forall_mem_cons.2 ⟨by decide, List.forall_mem_cons.2 ⟨hsign', hall hpower.2⟩⟩⟩
    split_ifs
    · exact nofun
    · exact List.forall_mem_cons.2 ⟨by decide, hall hpart⟩

/-- Digits are read up to the character after them. -/
theorem takeWhile_digits {ds : List Char} {c : Char} (hds : Digits ds)
    (hc : CharClass.isAsciiDigit c = false) (rest : List Char) :
    (ds ++ c :: rest).takeWhile CharClass.isAsciiDigit = ds ∧
      (ds ++ c :: rest).dropWhile CharClass.isAsciiDigit = c :: rest := by
  rw [List.takeWhile_append_of_pos hds, List.dropWhile_append_of_pos hds,
    List.takeWhile_cons_of_neg (Bool.eq_false_iff.1 hc),
    List.dropWhile_cons_of_neg (Bool.eq_false_iff.1 hc), List.append_nil]
  exact ⟨rfl, rfl⟩

/-- A power of ten has an exponent. -/
theorem exponentOf_power {sign : Char} {power : List Char} (hsign : sign = '+' ∨ sign = '-')
    (hpower : power ≠ [] ∧ Digits power) : ∃ n, exponentOf ('e' :: sign :: power) = some n := by
  have hempty : power.isEmpty = false := List.isEmpty_eq_false_iff.2 hpower.1
  have hall : power.all CharClass.isAsciiDigit = true := List.all_eq_true.2 hpower.2
  rcases hsign with rfl | rfl <;>
  · rw [exponentOf, if_pos (Or.inl rfl)]
    simp [splitSign, hempty, hall]

/-- A decimal has a value, whatever its sign. -/
theorem exists_unsigned (h : IsDecimal cs) (negative : Bool) :
    ∃ d, unsignedDecimal negative cs = some d := by
  cases h with
  | @point whole part hwhole hpart =>
    obtain ⟨htake, hdrop⟩ := takeWhile_digits hwhole.2 (c := '.') (by decide) part
    have hwhole' : whole.isEmpty = false := List.isEmpty_eq_false_iff.2 hwhole.1
    have hall : part.dropWhile CharClass.isAsciiDigit = [] := List.dropWhile_eq_nil_iff.2 hpart.2
    simp only [unsignedDecimal, htake, hdrop, hall, hwhole', exponentOf]
    exact ⟨_, rfl⟩
  | @power d sign part power hd hpart hsign hpower =>
    have hone : Digits [d] := List.forall_mem_singleton.2 hd
    obtain ⟨n, hn⟩ := exponentOf_power hsign hpower
    by_cases hempty : part.isEmpty = true
    · obtain ⟨htake, hdrop⟩ := takeWhile_digits hone (c := 'e') (by decide) (sign :: power)
      simp only [if_pos hempty]
      show ∃ v, unsignedDecimal negative ([d] ++ 'e' :: sign :: power) = some v
      simp only [unsignedDecimal, htake, hdrop]
      exact ⟨_, congrArg (Option.map _) hn⟩
    · obtain ⟨htake, hdrop⟩ :=
        takeWhile_digits hone (c := '.') (by decide) (part ++ 'e' :: sign :: power)
      obtain ⟨htake', hdrop'⟩ := takeWhile_digits hpart (c := 'e') (by decide) (sign :: power)
      simp only [if_neg hempty]
      show ∃ v, unsignedDecimal negative ([d] ++ '.' :: (part ++ 'e' :: sign :: power)) = some v
      simp only [unsignedDecimal, htake, hdrop, htake', hdrop', hn]
      exact ⟨_, rfl⟩

/-- A number with a point or a power of ten has a value. -/
theorem exists_value (h : IsDecimal cs) (negative : Bool) :
    ∃ x, decimal? (signed negative cs) = some (.float x) := by
  have hsplit : splitSign (signed negative cs) = (negative, cs) := by
    obtain ⟨d, hd, hdigit⟩ := h.head?_digit
    obtain ⟨ds, rfl⟩ := List.head?_eq_some_iff.1 hd
    cases negative with
    | true => rfl
    | false =>
      show splitSign (d :: ds) = _
      rw [splitSign]
      all_goals
        rintro _ ⟨⟩
        exact absurd hdigit (by decide)
  have hmark : (cs.contains '.' || cs.contains 'e') = true := by
    cases h <;> simp
  obtain ⟨d, hd⟩ := h.exists_unsigned negative
  refine ⟨Binary64.ofDecimal d, ?_⟩
  simp only [decimal?, hsplit, hmark, hd, if_true, Option.map_some]

end IsDecimal

theorem digits_zeros (n : Nat) : Digits (Binary64.zeros n) := fun d hd => by
  rw [List.eq_of_mem_replicate hd]
  rfl

theorem digits_zero : ['0'] ≠ [] ∧ Digits ['0'] := ⟨nofun, digits_zeros 1⟩

/-- Digits are written with a point among them, or with zeros on a side of it. -/
theorem isDecimal_positional {ds : List Char} (hne : ds ≠ []) (hds : Digits ds) (exponent : Int) :
    IsDecimal (Binary64.positional ds exponent) := by
  have hlength : 0 < ds.length := List.length_pos_iff.2 hne
  unfold Binary64.positional
  simp only
  split_ifs with hsmall hlarge
  · exact .point digits_zero
      ⟨List.append_ne_nil_of_right_ne_nil _ hne, List.forall_mem_append.2 ⟨digits_zeros _, hds⟩⟩
  · exact .point
      ⟨List.append_ne_nil_of_left_ne_nil hne _, List.forall_mem_append.2 ⟨hds, digits_zeros _⟩⟩
      digits_zero
  · refine .point ⟨?_, fun d hd => hds d (List.mem_of_mem_take hd)⟩
      ⟨?_, fun d hd => hds d (List.mem_of_mem_drop hd)⟩
    · rw [Ne, List.take_eq_nil_iff, not_or]
      exact ⟨by omega, hne⟩
    · rw [Ne, List.drop_eq_nil_iff]
      omega

/-- Digits with a power of ten are a decimal. -/
theorem isDecimal_scientific {ds : List Char} (hne : ds ≠ []) (hds : Digits ds) (exponent : Int) :
    IsDecimal (Binary64.scientific ds exponent) := by
  obtain ⟨d, part, rfl⟩ := List.exists_cons_of_ne_nil hne
  obtain ⟨hd, hpart⟩ := List.forall_mem_cons.1 hds
  unfold Binary64.scientific
  generalize ((d :: part).length + exponent - 1 : Int) = n
  have hpower : ∀ k, Binary64.zeros k ++ Nat.toDigits 10 n.natAbs ≠ [] ∧
      Digits (Binary64.zeros k ++ Nat.toDigits 10 n.natAbs) := fun k =>
    ⟨List.append_ne_nil_of_right_ne_nil _ Nat.toDigits_ne_nil,
      List.forall_mem_append.2 ⟨digits_zeros k, digits_toDigits _⟩⟩
  have hsign : (if n < 0 then '-' else '+') = '+' ∨ (if n < 0 then '-' else '+') = '-' := by
    split
    · exact Or.inr rfl
    · exact Or.inl rfl
  have hshape := IsDecimal.power hd hpart hsign (hpower (2 - (Nat.toDigits 10 n.natAbs).length))
  simpa only [List.take_succ_cons, List.take_zero, List.drop_succ_cons,
    List.drop_zero, List.append_assoc, List.cons_append, List.nil_append] using hshape

/-- A number that is finite. -/
def IsFinite : Binary64 → Prop
  | .finite .. => True
  | _ => False

/-- A finite number is written as a decimal one with its sign. -/
theorem exists_isDecimal {x : Binary64} (h : IsFinite x) :
    ∃ negative cs, x.text = String.ofList (signed negative cs) ∧ IsDecimal cs := by
  cases x with
  | nan | infinite => cases h
  | finite negative m e =>
    have hsigned : ∀ cs, (if negative then ['-'] else []) ++ cs = signed negative cs := by
      intro cs
      cases negative <;> rfl
    simp only [Binary64.text, hsigned]
    split
    · exact ⟨negative, _, rfl, .point digits_zero digits_zero⟩
    · refine ⟨negative, _, rfl, ?_⟩
      split
      · exact isDecimal_positional Nat.toDigits_ne_nil (digits_toDigits _) _
      · exact isDecimal_scientific Nat.toDigits_ne_nil (digits_toDigits _) _

/-! ## Kinds -/

/-- A value of a kind. -/
def HasKind : ValueKind → Value → Prop
  | .text, .text _ => True
  | .integer, .int _ => True
  | .decimal, .float _ => True
  | .truth, .bool _ => True
  | .date, .date _ => True
  | .dateTime, .dateTime _ => True
  | .time, .time _ => True
  | .duration, .duration _ => True
  | .bytes, .bytes _ => True
  | .anything, _ => True
  | _, _ => False

/-- Source is an expression that can be evaluated wherever it stands, to a value of a kind. -/
structure IsClosed (kind : ValueKind) (source : String) : Prop where
  expression : ∃ words, IsExpression source words ∧ words ⊆ definedWords
  value : ∃ v, evaluated? source = some v ∧ HasKind kind v

/-- What begins with no sign, digit or point is no number. -/
theorem decimal?_eq_none {c : Char} {cs : List Char} (h : c ∈ ['\'', '"', 'b', 'd']) :
    decimal? (c :: cs) = none := by
  simp only [List.mem_cons, List.not_mem_nil, or_false] at h
  rcases h with rfl | rfl | rfl | rfl <;>
  · unfold decimal?
    simp only
    split
    · rfl
    · rfl

/-- The value of source that is no number with a point is what is denoted. -/
theorem evaluated?_eq {source : String} (h : decimal? source.toList = none) :
    evaluated? source = denoted? source := by
  rw [evaluated?, h, Option.none_or]

/-- The literal of a text is an expression that mentions nothing. -/
theorem isExpression_quoted (s : String) : IsExpression (quoted s) [] :=
  ⟨[.text false], tokens?_literal (preferredQuote_eq s.toList) le_of_isPrintable s.toList,
    ⟨20, .value, rfl⟩, rfl⟩

/-- The literal of a text denotes the text. -/
theorem evaluated?_quoted (s : String) : evaluated? (quoted s) = some (.text s) := by
  rw [evaluated?_eq]
  · exact denoted?_text s
  · rw [SourceValue.toList_quoted, literal, List.cons_append]
    refine decimal?_eq_none ?_
    rcases preferredQuote_eq s.toList with h | h <;> rw [h] <;> decide

/-- A text is written as one. -/
theorem isClosed_quoted {kind : ValueKind} (hkind : kind = .text ∨ kind = .anything) (s : String) :
    IsClosed kind (quoted s) := by
  refine ⟨⟨[], isExpression_quoted s, List.nil_subset _⟩, _, evaluated?_quoted s, ?_⟩
  rcases hkind with rfl | rfl <;> trivial

/-- The literal of bytes is closed and denotes bytes. -/
theorem isClosed_bytes (bytes : List UInt8) : IsClosed .bytes (Literal.bytes bytes).source := by
  obtain ⟨quote, hquote, hsource⟩ := toList_quotedBytes bytes
  have hcs : ∀ c ∈ bytes.map fun b => Char.ofNat b.toNat, c.toNat < 0x100 := by
    intro c hc
    obtain ⟨b, -, rfl⟩ := List.mem_map.1 hc
    rw [toNat_ofByte]
    exact b.toNat_lt
  constructor
  · refine ⟨[], ⟨[.text true], ?_, ⟨20, .value, rfl⟩, rfl⟩, List.nil_subset _⟩
    show tokens? (quotedBytes bytes) = _
    rw [← String.ofList_toList (s := quotedBytes bytes), hsource]
    exact tokens?_bytes hquote hcs
  · refine ⟨_, (evaluated?_eq ?_).trans (denoted?_bytes bytes), trivial⟩
    show decimal? (quotedBytes bytes).toList = none
    rw [hsource]
    exact decimal?_eq_none (by decide)

theorem isClosed_truth (b : Bool) : IsClosed .truth (Literal.truth b).source := by
  cases b with
  | true =>
    exact ⟨⟨["True"], ⟨[.word "True"], rfl, ⟨20, .value, rfl⟩, rfl⟩, by decide⟩,
      .bool true, rfl, trivial⟩
  | false =>
    exact ⟨⟨["False"], ⟨[.word "False"], rfl, ⟨20, .value, rfl⟩, rfl⟩, by decide⟩,
      .bool false, rfl, trivial⟩

/-- A numeral that can be read is closed and denotes a whole number. -/
theorem isClosed_integer {i : Int} (h : ∃ word, readInteger word = some i) :
    IsClosed .integer (Literal.integer i).source := by
  constructor
  · have htokens := tokens?_toString h
    refine ⟨[], ⟨_, htokens, ⟨20, .value, ?_⟩, ?_⟩, List.nil_subset _⟩
    · split <;> rfl
    · split <;> rfl
  · refine ⟨.int i, (evaluated?_eq ?_).trans (denoted?_integer h), trivial⟩
    show decimal? (toString i).toList = none
    have hdigits := digits_toDigits i.natAbs
    have hother : ∀ c, CharClass.isAsciiDigit c = false →
        (Nat.toDigits 10 i.natAbs).contains c = false := by
      intro c hc
      rw [Bool.eq_false_iff, Ne, List.contains_iff_mem]
      exact fun hmem => Bool.eq_false_iff.1 hc (hdigits c hmem)
    rw [toList_toString, decimal?, splitSign_signed Nat.toDigits_ne_nil hdigits]
    simp only [hother '.' (by decide), hother 'e' (by decide), Bool.or_self,
      Bool.false_eq_true, if_false]

/-- A call with a text of a function whose name begins with `d`; `p` is the position after its
opening bracket. -/
theorem isClosed_call {kind : ValueKind} {s : String} {v : Value}
    (opening : List Char) (p : Position) (hopening : ∀ rest, Takes {} ('d' :: opening) p rest)
    (hcontrol : ∀ d ∈ opening, 0x20 ≤ d.toNat) (hp : p.brackets = ["("] ∧ p.blocks = [])
    (hexpression : ∃ fuel form,
      (expression fuel).run (p.done.reverse ++ [.text false, .mark ")"]) = some (form, []))
    (hwords : mentioned (p.done.reverse ++ [.text false, .mark ")"]) = ["datetime"])
    (hvalue : denoted? (String.ofList ('d' :: opening) ++ quoted s ++ ")") = some v)
    (hkind : HasKind kind v) :
    IsClosed kind (String.ofList ('d' :: opening) ++ quoted s ++ ")") := by
  have hlist : (String.ofList ('d' :: opening) ++ quoted s ++ ")").toList =
      'd' :: opening ++ literal CharClass.isPrintable (preferredQuote s.toList)
        s.toList ++ [')'] := by
    rw [String.toList_append, String.toList_append, String.toList_ofList, SourceValue.toList_quoted]
    rfl
  have htokens :=
    tokens?_call (preferredQuote_eq s.toList) hopening hcontrol hp le_of_isPrintable s.toList
  rw [← hlist, String.ofList_toList] at htokens
  constructor
  · refine ⟨["datetime"], ⟨_, htokens.trans ?_, hexpression, hwords⟩, by decide⟩
    rw [List.append_assoc]
    rfl
  · refine ⟨v, (evaluated?_eq ?_).trans hvalue, hkind⟩
    rw [hlist]
    exact decimal?_eq_none (by decide)

/-- The position after the opening bracket of the function that reads a day or a time. -/
def readerPosition (name : String) : Position :=
  ⟨["("], [], [.mark "(", .word "fromisoformat", .mark ".", .word name,
    .mark ".", .word "datetime"]⟩

/-- The literal of a day is closed and denotes a day. -/
theorem isClosed_date {s : String} {d : Date} (h : readDate s = some d) :
    IsClosed .date (Literal.date s).source :=
  isClosed_call "atetime.date.fromisoformat(".toList (readerPosition "date")
    (fun _ => ⟨6, by decide, fun _ => rfl⟩)
    (List.all_iff_forall_prop.1 (by decide)) ⟨rfl, rfl⟩ ⟨30, .value, rfl⟩ rfl
      (denoted?_date h) trivial

/-- The literal of a moment is closed and denotes one. -/
theorem isClosed_dateTime {s : String} {t : DateTime} (h : readDateTime s = some t) :
    IsClosed .dateTime (Literal.dateTime s).source :=
  isClosed_call "atetime.datetime.fromisoformat(".toList (readerPosition "datetime")
    (fun _ => ⟨6, by decide, fun _ => rfl⟩) (List.all_iff_forall_prop.1 (by decide)) ⟨rfl, rfl⟩
      ⟨30, .value, rfl⟩ rfl
    (denoted?_dateTime h) trivial

/-- The literal of a time is closed and denotes one. -/
theorem isClosed_time {s : String} {c : Clock} (h : readClock s = some c) :
    IsClosed .time (Literal.time s).source :=
  isClosed_call "atetime.time.fromisoformat(".toList (readerPosition "time")
    (fun _ => ⟨6, by decide, fun _ => rfl⟩)
    (List.all_iff_forall_prop.1 (by decide)) ⟨rfl, rfl⟩ ⟨30, .value, rfl⟩ rfl
      (denoted?_time h) trivial

/-- A finite number is closed and denotes a number. -/
theorem isClosed_decimal {x : Binary64} (h : IsFinite x) :
    IsClosed .decimal (Literal.decimal x).source := by
  obtain ⟨negative, cs, htext, hcs⟩ := exists_isDecimal h
  have htokens := tokens?_signed hcs.head?_digit hcs.control hcs.tokenAt negative
  obtain ⟨y, hy⟩ := hcs.exists_value negative
  show IsClosed .decimal x.text
  rw [htext]
  constructor
  · refine ⟨[], ⟨_, htokens, ⟨20, .value, ?_⟩, ?_⟩, List.nil_subset _⟩ <;>
    · cases negative <;> rfl
  · refine ⟨.float y, ?_, trivial⟩
    rw [evaluated?, String.toList_ofList, hy, Option.some_or]

/-- A number that is not finite is written as a name which nothing defines. -/
theorem notClosed_decimal {x : Binary64} (h : ¬IsFinite x) :
    ∃ words, IsExpression (Literal.decimal x).source words ∧ ¬words ⊆ definedWords ∧
      evaluated? (Literal.decimal x).source = none := by
  cases x with
  | nan => exact ⟨["nan"], ⟨[.word "nan"], rfl, ⟨20, .name, rfl⟩, rfl⟩, by decide, by decide⟩
  | infinite negative =>
    cases negative with
    | true =>
      exact ⟨["inf"], ⟨[.mark "-", .word "inf"], rfl, ⟨20, .value, rfl⟩, rfl⟩, by decide, by decide⟩
    | false => exact ⟨["inf"], ⟨[.word "inf"], rfl, ⟨20, .name, rfl⟩, rfl⟩, by decide, by decide⟩
  | finite => exact absurd trivial h

/-! ## What is passed as a whole -/

/-- Names of the client, with the dots and signs that stand between them, are passed as a whole. -/
theorem whole_names {text : List Char} (h : ∀ c ∈ text, IsNameChar c ∨ c ∈ ['.', '-', '+', '=']) :
    Whole text := by
  refine .inert (List.all_eq_true.2 fun c hc => ?_)
  have hname : ∀ d ∈ ['"', '\'', ',', '(', '[', '\x7b', ')', ']', '\x7d'],
      ¬CharClass.isAsciiAlphanumeric d = true ∧ d ≠ '_' ∧ d ∉ ['.', '-', '+', '='] :=
    List.all_iff_forall_prop.1 (by decide)
  rw [Whole.isInert, Bool.not_eq_true', Bool.eq_false_iff]
  intro hmark
  have hmem : c ∈ ['"', '\'', ',', '(', '[', '\x7b', ')', ']', '\x7d'] := by
    simpa [isOpening, isClosing, or_assoc] using hmark
  obtain ⟨halnum, hunder, hsign⟩ := hname c hmem
  rcases h c hc with (hc | hc) | hc
  · exact halnum hc
  · exact hunder hc
  · exact hsign hc

theorem isNameChar_of_digit {c : Char} (h : CharClass.isAsciiDigit c = true) : IsNameChar c :=
  Or.inl (CharClass.isAsciiAlphanumeric_iff.2 (Or.inr (Or.inr h)))

/-- A literal of a text is passed as a whole. -/
theorem whole_quoted (s : String) : Whole (quoted s).toList := by
  rw [SourceValue.toList_quoted]
  exact .literal (preferredQuote_eq s.toList) s.toList

/-- A call with the literal of a text. -/
theorem whole_reader (callee : String) (hcallee : callee.toList.all Whole.isInert = true)
    (s : String) : Whole (callee ++ "(" ++ quoted s ++ ")").toList := by
  have hcall := whole_call hcallee (List.forall_mem_singleton.2 (whole_quoted s))
  rw [List.intercalate_singleton] at hcall
  simp only [String.toList_append, List.append_assoc] at hcall ⊢
  exact hcall

theorem whole_digits {ds : List Char} (h : Digits ds) : Whole ds :=
  whole_names fun c hc => Or.inl (isNameChar_of_digit (h c hc))

/-- A sign before a number parts nothing. -/
theorem whole_signed {ds : List Char} (h : Whole ds) (negative : Bool) :
    Whole (Numeral.signed negative ds) := by
  cases negative with
  | false => exact h
  | true => exact (Whole.inert (t := ['-']) rfl).append h

theorem IsDecimal.whole {cs : List Char} (h : IsDecimal cs) : Whole cs := by
  cases h with
  | point hwhole hpart =>
    exact (whole_digits hwhole.2).append
      ((Whole.inert (t := ['.']) rfl).append (whole_digits hpart.2))
  | @power d sign part power hd hpart hsign hpower =>
    have hmark : Whole ['e', sign] := .inert (by rcases hsign with rfl | rfl <;> rfl)
    have hfraction : Whole (if part.isEmpty then [] else '.' :: part) := by
      split
      · exact .nil
      · exact (Whole.inert (t := ['.']) rfl).append (whole_digits hpart)
    have hfirst : Whole [d] := whole_digits (List.forall_mem_singleton.2 hd)
    exact (hfirst.append hfraction).append (hmark.append (whole_digits hpower.2))

/-- Every number is passed as a whole, also one that is not finite. -/
theorem whole_decimal (x : Binary64) : Whole x.text.toList := by
  by_cases hfinite : IsFinite x
  · obtain ⟨negative, cs, htext, hcs⟩ := exists_isDecimal hfinite
    rw [htext, String.toList_ofList]
    exact whole_signed (IsDecimal.whole hcs) negative
  · cases x with
    | nan => exact .inert rfl
    | infinite negative => cases negative <;> exact .inert rfl
    | finite => exact absurd trivial hfinite

/-- Every literal is passed as a whole. -/
theorem whole_literal (l : Literal) : Whole l.source.toList := by
  cases l with
  | integer i =>
    show Whole (toString i).toList
    rw [toList_toString]
    exact whole_signed (whole_digits (digits_toDigits _)) _
  | decimal x => exact whole_decimal x
  | truth b => cases b <;> exact .inert rfl
  | bytes bytes =>
    obtain ⟨quote, hquote, hsource⟩ := toList_quotedBytes bytes
    show Whole (quotedBytes bytes).toList
    rw [hsource]
    exact (Whole.inert (t := ['b']) rfl).append (.literal hquote _)
  | date s => exact whole_reader "datetime.date.fromisoformat" rfl s
  | dateTime s => exact whole_reader "datetime.datetime.fromisoformat" rfl s
  | time s => exact whole_reader "datetime.time.fromisoformat" rfl s
  | text s => exact whole_quoted s

theorem whole_nameChars {name : String} (h : ∀ c ∈ name.toList, IsNameChar c) : Whole name.toList :=
  whole_names fun c hc => Or.inl (h c hc)

/-! ## Values of params -/

/-- A text that is read as a finite number. -/
def ReadsFinite (value : String) : Prop := ∃ x, readBinary64 value = some x ∧ IsFinite x

variable {value sourceType type : String} {kind : ValueKind} {l : Literal}

/-- Values other than durations are written as closed expressions, numbers if they are finite. -/
theorem isClosed_of_literal? (hkind : ValueKind.ofSourceType? sourceType = some kind)
    (h : literal? value sourceType type = some l) (hduration : kind ≠ .duration)
    (hfinite : kind = .decimal → ReadsFinite value) : IsClosed kind l.source := by
  simp only [literal?, hkind] at h
  cases kind with
  | text =>
    obtain rfl := Option.some.inj h
    exact isClosed_quoted (Or.inl rfl) value
  | anything =>
    obtain rfl := Option.some.inj h
    exact isClosed_quoted (Or.inr rfl) value
  | integer =>
    obtain ⟨i, hi, rfl⟩ := Option.map_eq_some_iff.1 h
    exact isClosed_integer ⟨value, hi⟩
  | decimal =>
    obtain ⟨x, hx, rfl⟩ := Option.map_eq_some_iff.1 h
    obtain ⟨y, hy, hy'⟩ := hfinite rfl
    obtain rfl := Option.some.inj (hx.symm.trans hy)
    exact isClosed_decimal hy'
  | truth =>
    obtain ⟨b, -, rfl⟩ := Option.map_eq_some_iff.1 h
    exact isClosed_truth b
  | bytes =>
    obtain ⟨bytes, -, rfl⟩ := Option.map_eq_some_iff.1 h
    exact isClosed_bytes bytes
  | date =>
    obtain ⟨d, hd, rfl⟩ := Option.map_eq_some_iff.1 h
    exact isClosed_date hd
  | dateTime =>
    obtain ⟨t, ht, rfl⟩ := Option.map_eq_some_iff.1 h
    exact isClosed_dateTime ht
  | time =>
    obtain ⟨c, hc, rfl⟩ := Option.map_eq_some_iff.1 h
    exact isClosed_time hc
  | duration => exact absurd rfl hduration

/-- A number that is not finite has no value where its literal stands, and mentions what is not
defined there. -/
theorem notClosed_of_literal? (hkind : ValueKind.ofSourceType? sourceType = some .decimal)
    (h : literal? value sourceType type = some l) (hfinite : ¬ReadsFinite value) :
    ∃ words, IsExpression l.source words ∧ ¬words ⊆ definedWords ∧ evaluated? l.source = none := by
  simp only [literal?, hkind] at h
  obtain ⟨x, hx, rfl⟩ := Option.map_eq_some_iff.1 h
  exact notClosed_decimal fun hx' => hfinite ⟨x, hx, hx'⟩

/-- The literal of a value is an expression. It mentions only what is defined, unless it is a number
that is not finite; then it has a value of its kind, unless that is a duration. -/
theorem literal?_closed_iff (hkind : ValueKind.ofSourceType? sourceType = some kind)
    (h : literal? value sourceType type = some l) :
    ∃ words, IsExpression l.source words ∧
      (words ⊆ definedWords ↔ (kind = .decimal → ReadsFinite value)) ∧
      ((∃ v, evaluated? l.source = some v ∧ HasKind kind v) ↔
        kind ≠ .duration ∧ (kind = .decimal → ReadsFinite value)) := by
  by_cases hfinite : kind = .decimal → ReadsFinite value
  · by_cases hduration : kind = .duration
    · subst hduration
      simp only [literal?, hkind, Option.some.injEq] at h
      subst h
      refine ⟨[], isExpression_quoted value, iff_of_true (List.nil_subset _) hfinite,
        iff_of_false ?_ fun hall => hall.1 rfl⟩
      rintro ⟨v, hv, hv'⟩
      obtain rfl := Option.some.inj ((evaluated?_quoted value).symm.trans hv)
      exact hv'
    · obtain ⟨⟨words, hexpression, hwords⟩, hvalue⟩ :=
        isClosed_of_literal? hkind h hduration hfinite
      exact ⟨words, hexpression, iff_of_true hwords hfinite,
        iff_of_true hvalue ⟨hduration, hfinite⟩⟩
  · obtain ⟨rfl, hinfinite⟩ := Classical.not_imp.1 hfinite
    obtain ⟨words, hexpression, hwords, hvalue⟩ := notClosed_of_literal? hkind h hinfinite
    refine ⟨words, hexpression, iff_of_false hwords hfinite,
      iff_of_false ?_ fun hall => hfinite hall.2⟩
    rintro ⟨v, hv, -⟩
    rw [hvalue] at hv
    cases hv

open Build in
/-- A default or fixed value of a param without options, whose type is not overridden, is written as
an expression. That mentions no name but those that are defined wherever it stands, just if the
value is no decimal number or a finite one; and it denotes a value of the kind of its type just if,
besides, the type is not that of durations. -/
theorem valueExpr_closed_iff {env : Env} {p : Param} {place : String}
    {type : ValueType} {e : ValueExpr} (hoptions : p.options = [])
    (hfull : env.config.overrides.lookup p.type = none)
    (hlocal : env.config.overrides.lookup (localTypeName p.type) = none)
    (htype : valueType env p place = .ok type) (h : valueExpr env p value type place = .ok e) :
    ∃ kind words, schemaTypes.lookup (localTypeName p.type) = some kind ∧
      type.source = kind.sourceType ∧
      IsExpression e.source words ∧ (words ⊆ definedWords ↔ (kind = .decimal → ReadsFinite value)) ∧
      ((∃ v, evaluated? e.source = some v ∧ HasKind kind v) ↔
        kind ≠ .duration ∧ (kind = .decimal → ReadsFinite value)) := by
  have henum : env.table.enumFor? p = none := if_pos (List.isEmpty_iff.2 hoptions)
  rw [valueType, henum] at htype
  obtain ⟨text, htext, rfl⟩ := Result.map_ok.1 htype
  rw [valueExpr, henum] at h
  obtain ⟨l, hl, rfl⟩ := Result.map_ok.1 h
  have hplain : mapType [] p.type place = .ok text := by
    rwa [mapType, sourceTypeOf, hfull, hlocal] at htext
  obtain ⟨kind, hlookup, hkind⟩ := kind_of_mapType hplain
  obtain ⟨words, hexpression, hwords, hvalue⟩ := literal?_closed_iff hkind (literalOf_ok.1 hl)
  refine ⟨kind, words, hlookup, ?_, hexpression, hwords, hvalue⟩
  have hfound := List.find?_some hkind
  exact (of_decide_eq_true hfound).symm

/-- What building knows of a description without anything in it. -/
def blankEnv : Build.Env :=
  ⟨⟨⟨"", [], [], [], [], [], [], []⟩, [], []⟩, ⟨{ label := "module" }, [], []⟩, {}, [], []⟩

/-- A param of a declared type. -/
def plainParam (type : String) : Param := { name := "p", style := .query, type := type }

open Build in
/-- A half has a literal that stands for it; what infinity mentions is not defined, and a span of
time has no value. -/
theorem valueExpr_closed_half :
    (∃ e, valueExpr blankEnv (plainParam "xs:double") "0.5" (.written "float") "p" = .ok e ∧
      ∃ words, IsExpression e.source words ∧ words ⊆ definedWords) ∧
    (∃ e, valueExpr blankEnv (plainParam "xs:double") "INF" (.written "float") "p" = .ok e ∧
      ∃ words, IsExpression e.source words ∧ ¬words ⊆ definedWords) ∧
    ∃ e, valueExpr blankEnv (plainParam "xs:duration") "P1D"
      (.written "datetime.timedelta") "p" = .ok e ∧
      ¬∃ v, evaluated? e.source = some v ∧ HasKind .duration v := by
  have hhalf : readBinary64 "0.5" = some (.finite false 4503599627370496 (-53)) := by decide +kernel
  have hinfinite : readBinary64 "INF" = some (.infinite false) := by decide +kernel
  have hdecimal : ∀ {value x}, readBinary64 value = some x →
      valueExpr blankEnv (plainParam "xs:double") value (.written "float") "p" =
        .ok (.literal (.decimal x)) := by
    intro value x hx
    have hl : literalOf value "float" "xs:double" "p" = .ok (.decimal x) := literalOf_ok.2 (by
      show (readBinary64 value).map Literal.decimal = _
      rw [hx]
      rfl)
    show Except.map _ (literalOf value "float" "xs:double" "p") = _
    rw [hl]
    rfl
  have hspan : valueExpr blankEnv (plainParam "xs:duration") "P1D"
      (.written "datetime.timedelta") "p" = .ok (.literal (.text "P1D")) := rfl
  refine ⟨⟨_, hdecimal hhalf, ?_⟩, ⟨_, hdecimal hinfinite, ?_⟩, _, hspan, ?_⟩
  · obtain ⟨kind, words, hkind, -, hexpression, hwords, -⟩ :=
      valueExpr_closed_iff (p := plainParam "xs:double") rfl rfl rfl rfl (hdecimal hhalf)
    exact ⟨words, hexpression, hwords.2 fun _ => ⟨_, hhalf, trivial⟩⟩
  · obtain ⟨kind, words, hkind, -, hexpression, hwords, -⟩ :=
      valueExpr_closed_iff (p := plainParam "xs:double") rfl rfl rfl rfl (hdecimal hinfinite)
    refine ⟨words, hexpression, fun hsub => ?_⟩
    obtain ⟨x, hx, hfinite⟩ := hwords.1 hsub (Option.some.inj hkind).symm
    obtain rfl := Option.some.inj (hinfinite.symm.trans hx)
    exact hfinite
  · obtain ⟨kind, words, hkind, -, -, -, hvalue⟩ :=
      valueExpr_closed_iff (p := plainParam "xs:duration") rfl rfl rfl rfl hspan
    obtain rfl := Option.some.inj hkind
    exact fun hall => (hvalue.1 hall).1 rfl

end Wadl.Source
