import Mathlib.Data.Option.Basic
import Wadl.Proofs.Number.Numeral
import Wadl.Proofs.Source.Texts
import Wadl.Proofs.Text.Pieces

/-!
# The tokens of a line

Within a line source is read piece by piece: a piece leads from one position to another, whatever is
left to be read (`Takes`), and a line of pieces has their tokens (`tokens?_of_takes`). The pieces
are words, marks, literals of texts and bytes (`tokenAt_literal`, `tokenAt_bytes`), and numbers,
whole or with a point or a power of ten (`tokenAt_whole`, `IsDecimal.tokenAt`).
-/

namespace Wadl.Source

open Quoted Numeral

/-! ## Pieces of a line -/

/-- Some characters are read from one position to another inside a line, with what is left to be
read there. They take no more steps than they are. -/
def Takes (p : Position) (text : List Char) (p' : Position) (rest : List Char) : Prop :=
  ∃ k ≤ text.length, ∀ n, scan (n + k) false false p (text ++ rest) = scan n false false p' rest

/-- Characters with which a token begins inside a line. -/
def startsToken (c : Char) : Bool := !(['\t', '\n', '\x0c', ' ', '#', '\\'].contains c)

namespace Takes

variable {p p' p'' : Position} {text text' rest : List Char} {c : Char} {t : Token} {m : String}

theorem append (h : Takes p text p' (text' ++ rest)) (h' : Takes p' text' p'' rest) :
    Takes p (text ++ text') p'' rest := by
  obtain ⟨k, hk, hscan⟩ := h
  obtain ⟨k', hk', hscan'⟩ := h'
  refine ⟨k' + k, by rw [List.length_append]; omega, fun n => ?_⟩
  rw [← Nat.add_assoc, List.append_assoc, hscan, hscan']

theorem scan_cons (hc : startsToken c = true) (n : Nat) :
    scan (n + 1) false false p (c :: text) =
      match tokenAt (c :: text) with
      | none => none
      | some (.mark m, rest) =>
        match p.pushMark m with
        | some p => scan n false false p rest
        | none => none
      | some (t, rest) => scan n false false (p.push t) rest := by
  simp only [startsToken, List.contains_cons, List.contains_nil, Bool.not_eq_true',
    Bool.or_eq_false_iff, beq_eq_false_iff_ne] at hc
  obtain ⟨htab, hline, hfeed, hspace, hhash, hslash, -⟩ := hc
  have hblank : ¬(decide (c = ' ') || decide (c = '\t') || decide (c = '\x0c')) = true := by
    simp only [htab, hfeed, hspace, decide_false, Bool.or_self,
      Bool.false_eq_true, not_false_eq_true]
  exact (if_neg hblank).trans ((if_neg hhash).trans ((if_neg hline).trans (if_neg hslash)))

/-- A token other than a mark. -/
theorem token (hc : startsToken c = true) (ht : tokenAt (c :: text ++ rest) = some (t, rest))
    (hmark : ∀ m, t ≠ .mark m) : Takes p (c :: text) (p.push t) rest := by
  refine ⟨1, Nat.le_add_left 1 _, fun n => ?_⟩
  rw [List.cons_append] at ht
  rw [List.cons_append, scan_cons hc, ht]
  cases t with
  | mark m => exact absurd rfl (hmark m)
  | word | number | text | newline | indent | dedent => rfl

theorem mark (hc : startsToken c = true) (ht : tokenAt (c :: text ++ rest) = some (.mark m, rest))
    (hp : p.pushMark m = some p') : Takes p (c :: text) p' rest := by
  refine ⟨1, Nat.le_add_left 1 _, fun n => ?_⟩
  rw [List.cons_append] at ht
  rw [List.cons_append, scan_cons hc, ht]
  simp only [hp]

end Takes

theorem indentation_start {c : Char} (hc : startsToken c = true) (cs : List Char) :
    indentation ⟨0, 0⟩ none (c :: cs) = some (⟨0, 0⟩, c :: cs) := by
  rw [indentation]
  · rfl
  all_goals
    intros
    rename_i h
    cases h
    exact absurd hc (by decide)

/-- A line that begins with a token is read on from it. -/
theorem scan_start {c : Char} (hc : startsToken c = true) (n : Nat) (cs : List Char) :
    scan (n + 1) true false {} (c :: cs) = scan n false false {} (c :: cs) := by
  have hfull : (some c == some '#' || some c == some '\n') = false := by
    rw [Bool.or_eq_false_iff, beq_eq_false_iff_ne, beq_eq_false_iff_ne]
    refine ⟨?_, ?_⟩ <;>
    · rintro ⟨⟩
      exact absurd hc (by decide)
  rw [scan, indentation_start hc]
  · simp only [List.head?_cons, hfull, Bool.false_eq_true, if_false]
    rfl
  · exact nofun

/-- The tokens of a line without control characters. -/
theorem tokens?_of_takes {p : Position} {c : Char} {cs : List Char}
    (hcontrol : ∀ d ∈ c :: cs, 0x20 ≤ d.toNat) (hstart : startsToken c = true)
    (h : Takes {} (c :: cs) p ['\n']) (hp : p.brackets = [] ∧ p.blocks = []) :
    tokens? (String.ofList (c :: cs)) = some (p.done.reverse ++ [.newline]) := by
  have hnone : ∀ d, d.toNat < 0x20 → d ∉ c :: cs :=
    fun d hd hmem => Nat.not_le.2 hd (hcontrol d hmem)
  have hclosed : closeLastLine (c :: cs) = c :: cs ++ ['\n'] := by
    obtain ⟨d, hd⟩ : ∃ d, (c :: cs).getLast? = some d :=
      ⟨_, List.getLast?_eq_some_getLast (List.cons_ne_nil c cs)⟩
    have hline : d ≠ '\n' := fun heq => hnone '\n' (by decide) (heq ▸ List.mem_of_getLast? hd)
    rw [closeLastLine, hd]
    exact if_neg hline
  have hnull : (c :: cs ++ ['\n']).contains '\x00' = false := by
    rw [Bool.eq_false_iff, Ne, List.contains_iff_mem, List.mem_append]
    rintro (hmem | hmem)
    · exact hnone _ (by decide) hmem
    · exact absurd hmem (by decide)
  obtain ⟨k, hk, hscan⟩ := h
  -- a step to begin with, `k` for the pieces, and two for the end of the line
  have hfuel : 2 * (c :: cs ++ ['\n']).length + 2 = (2 * (c :: cs).length + 1 - k) + 2 + k + 1 := by
    rw [List.length_append, List.length_singleton]
    omega
  rw [tokens?, String.toList_ofList, Text.unifyLineEnds_eq_self.2 (hnone '\r' (by decide)), hclosed]
  simp only [hnull, Bool.false_eq_true, if_false]
  rw [hfuel, List.cons_append, scan_start hstart, ← List.cons_append, hscan]
  simp only [scan, hp.1, hp.2, Position.push, Position.finish]
  simp

/-! ## Texts -/

/-- Characters between quotes whose escapes are complete, whatever follows them. -/
def IsComplete (isBytes : Bool) (text : List Char) : Prop :=
  ∃ k ≤ text.length, ∀ n rest, escapesOk isBytes (n + k) (text ++ rest) = escapesOk isBytes n rest

namespace IsComplete

variable {isBytes : Bool} {text text' : List Char} {c : Char}

theorem nil : IsComplete isBytes [] := ⟨0, Nat.le_refl 0, fun _ _ => rfl⟩

theorem append (h : IsComplete isBytes text) (h' : IsComplete isBytes text') :
    IsComplete isBytes (text ++ text') := by
  obtain ⟨k, hk, hok⟩ := h
  obtain ⟨k', hk', hok'⟩ := h'
  refine ⟨k' + k, by rw [List.length_append]; omega, fun n rest => ?_⟩
  rw [← Nat.add_assoc, List.append_assoc, hok, hok']

theorem flatMap {α : Type} {f : α → List Char} :
    ∀ {xs : List α}, (∀ x ∈ xs, IsComplete isBytes (f x)) → IsComplete isBytes (xs.flatMap f)
  | [], _ => nil
  | x :: xs, h => by
    obtain ⟨hx, hxs⟩ := List.forall_mem_cons.1 h
    exact hx.append (flatMap hxs)

/-- A character other than the backslash. -/
theorem plain (h : c ≠ '\\') : IsComplete isBytes [c] := by
  refine ⟨1, Nat.le_refl 1, fun n rest => ?_⟩
  rw [List.singleton_append, escapesOk]
  rintro _ _ rfl
  exact absurd rfl h

/-- A backslash and a character after which no digits are asked for. -/
theorem short (hwidth : escapeWidth? isBytes c = none) (hname : c ≠ 'N') :
    IsComplete isBytes ['\\', c] := by
  refine ⟨1, Nat.le_add_left 1 1, fun n rest => ?_⟩
  rw [List.cons_append, List.singleton_append, escapesOk, hwidth]
  simp only [hname, decide_false, Bool.false_and, Bool.false_eq_true, if_false]

/-- A backslash, a letter and as many digits as it asks for. -/
theorem code {width n : Nat} (hwidth : escapeWidth? isBytes c = some width) (hfits : n < 16 ^ width)
    (hvalid : n ≤ 0x10ffff) : IsComplete isBytes ('\\' :: c :: hex width n) := by
  refine ⟨1, Nat.le_add_left 1 _, fun steps rest => ?_⟩
  have hdigits : (hex width n).all (Digit.hexValue? · |>.isSome) = true :=
    List.all_eq_true.2 (forall_mem_hex (by decide))
  have hcode : isCodePoint (hex width n) = true := by
    have hvalue := hexValue_hex width hfits
    rw [hexValue] at hvalue
    rw [isCodePoint, hvalue]
    exact decide_eq_true hvalid
  rw [List.cons_append, List.cons_append, escapesOk, hwidth]
  simp only [List.take_left' (length_hex width n), List.drop_left' (length_hex width n),
    length_hex, hdigits, hcode, decide_true, Bool.true_and]

/-- A text whose escapes are complete is accepted. -/
theorem escapesOk (h : IsComplete isBytes text) :
    escapesOk isBytes (text.length + 1) text = true := by
  obtain ⟨k, hk, hok⟩ := h
  have hread := hok (text.length - k + 1) []
  rw [List.append_nil, show text.length - k + 1 + k = text.length + 1 by omega] at hread
  rw [hread]
  rfl

end IsComplete

variable {shown : Char → Bool} {quote : Char}

theorem isComplete_escapeChar (hquote : quote = '\'' ∨ quote = '"') {isBytes : Bool} {c : Char}
    (hbytes : isBytes = true → c.toNat < 0x100) :
    IsComplete isBytes (escapeChar shown quote c) := by
  have hvalid : c.toNat < 0xd800 ∨ 0xdfff < c.toNat ∧ c.toNat < 0x110000 := c.valid
  have hall : ∀ d ∈ ['\\', '\'', '"', 't', 'n', 'r'], escapeWidth? isBytes d = none ∧ d ≠ 'N' := by
    cases isBytes <;> exact List.all_iff_forall_prop.1 (by decide)
  have hshort : ∀ d ∈ ['\\', '\'', '"', 't', 'n', 'r'], IsComplete isBytes ['\\', d] := fun d hd =>
    .short (hall d hd).1 (hall d hd).2
  unfold escapeChar codeEscape
  split_ifs with hc ht hn hr hshown hx hu
  · refine hshort c ?_
    rcases hc with rfl | rfl
    · rcases hquote with rfl | rfl <;> decide
    · decide
  · exact hshort 't' (by decide)
  · exact hshort 'n' (by decide)
  · exact hshort 'r' (by decide)
  · exact .plain fun h => hc (Or.inr h)
  · exact .code rfl hx (by omega)
  all_goals
    obtain rfl : isBytes = false := Bool.eq_false_iff.2 fun h => hx (hbytes h)
    exact .code rfl (by omega) (by omega)

variable (shown) in
/-- The literal of a text is one token. -/
theorem tokenAt_literal (hquote : quote = '\'' ∨ quote = '"') (cs : List Char) {rest : List Char}
    (hrest : rest.head? ≠ some quote) :
    tokenAt (literal shown quote cs ++ rest) = some (.text false, rest) := by
  have hbody : IsComplete false (body shown quote cs) :=
    .flatMap fun c _ => isComplete_escapeChar hquote nofun
  have hkind : textKind? "" = some (false, false) := rfl
  have htoken : textToken? "" (body shown quote cs) = some (.text false) := by
    simp only [textToken?, hkind, hbody.escapesOk, Option.bind_eq_bind, Option.bind_some,
      Bool.not_false, Bool.true_or, Bool.or_true, guard_true]
    rfl
  have hplain : CharClass.isAsciiDigit quote = false ∧ quote ≠ '.' ∧ isWordChar quote = false ∧
      (decide (quote = '"') || decide (quote = '\'')) = true := by
    rcases hquote with rfl | rfl <;> decide
  rw [literal, List.append_assoc, List.cons_append, List.singleton_append, tokenAt]
  simp only [hplain, decide_false, Bool.false_and, Bool.false_eq_true, if_false, if_true,
    textAfter_literal hquote cs hrest, htoken, Option.bind_eq_bind, Option.bind_some]
  rfl

/-- The literal of bytes is one token. -/
theorem tokenAt_bytes (hquote : quote = '\'' ∨ quote = '"') {cs rest : List Char}
    (hcs : ∀ c ∈ cs, c.toNat < 0x100) (hrest : rest.head? ≠ some quote) :
    tokenAt ('b' :: literal isShownByte quote cs ++ rest) = some (.text true, rest) := by
  have hbody : IsComplete true (body isShownByte quote cs) :=
    .flatMap fun c hc => isComplete_escapeChar hquote fun _ => hcs c hc
  have hascii : (body isShownByte quote cs).all (·.toNat < 0x80) = true := by
    rw [List.all_eq_true]
    intro d hd
    obtain ⟨c, -, hd⟩ := List.mem_flatMap.1 hd
    refine (escapedAs_escapeChar hquote c).forall_mem (P := fun d => decide (d.toNat < 0x80) = true)
      (List.all_iff_forall_prop.1 (by decide)) (by decide) (fun hc => ?_) d hd
    rw [isShownByte, Bool.and_eq_true, decide_eq_true_iff, decide_eq_true_iff] at hc
    exact decide_eq_true (by omega)
  have hkind : textKind? "b" = some (true, false) := rfl
  have htoken : textToken? "b" (body isShownByte quote cs) = some (.text true) := by
    simp only [textToken?, hkind, hbody.escapesOk, hascii, Option.bind_eq_bind,
      Option.bind_some, Bool.or_true, guard_true]
    rfl
  have hword : ∀ more, ('b' :: quote :: more).takeWhile isWordChar = ['b'] := by
    intro more
    rcases hquote with rfl | rfl <;> rfl
  have hquotes : (decide (quote = '"') || decide (quote = '\'')) = true := by
    rcases hquote with rfl | rfl <;> rfl
  have hletter : CharClass.isAsciiDigit 'b' = false ∧ 'b' ≠ '.' ∧ isWordChar 'b' = true := by decide
  have hdrop : ∀ more, ('b' :: quote :: more).drop ['b'].length = quote :: more := fun _ => rfl
  rw [literal, List.cons_append, List.append_assoc, List.cons_append,
    List.singleton_append, tokenAt]
  simp only [hword, hletter, hdrop, hquotes, hkind, decide_false, Bool.false_and,
    Bool.false_eq_true, if_false, if_true,
    Option.isSome_some, Bool.and_true, textAfter_literal hquote cs hrest,
    Option.bind_eq_bind, Option.bind_some]
  rw [show String.ofList ['b'] = "b" from rfl, htoken]
  rfl

/-! ## Numbers -/

variable {ds : List Char} {c : Char}

theorem ne_underscore_of_isAsciiDigit {d : Char} (h : CharClass.isAsciiDigit d = true) :
    d ≠ '_' := by
  rintro rfl
  exact absurd h (by decide)

/-- Digits end before a character that is none and joins none. -/
theorem digitsAfter_more (hds : Digits ds) (hc : CharClass.isAsciiDigit c = false) (hjoin : c ≠ '_')
    (cs : List Char) :
    digitsAfter.more CharClass.isAsciiDigit (ds ++ c :: cs) = some (c :: cs) := by
  induction ds with
  | nil =>
    rw [List.nil_append, digitsAfter.more.eq_3, if_neg (Bool.eq_false_iff.1 hc)]
    · exact fun _ _ h => absurd h hjoin
    · exact fun h => absurd h hjoin
  | cons d ds ih =>
    obtain ⟨hd, hds⟩ := List.forall_mem_cons.1 hds
    rw [List.cons_append, digitsAfter.more.eq_3, if_pos hd, ih hds]
    · exact fun _ _ h => absurd h (ne_underscore_of_isAsciiDigit hd)
    · exact fun h => absurd h (ne_underscore_of_isAsciiDigit hd)

theorem digitsAfter_digits (hne : ds ≠ []) (hds : Digits ds)
    (hc : CharClass.isAsciiDigit c = false) (hjoin : c ≠ '_') (cs : List Char) :
    digitsAfter CharClass.isAsciiDigit false (ds ++ c :: cs) = some (c :: cs) := by
  cases ds with
  | nil => exact absurd rfl hne
  | cons d ds =>
    obtain ⟨hd, hds⟩ := List.forall_mem_cons.1 hds
    rw [List.cons_append, digitsAfter, if_pos hd, digitsAfter_more hds hc hjoin]
    exact fun _ _ h => absurd h (ne_underscore_of_isAsciiDigit hd)

variable (ds) in
/-- Digits are a number of their own base, unless a letter after a zero names another. -/
theorem tokenAt_digits (hne : ds ≠ []) (hds : Digits ds) {cs rest : List Char}
    (hbase : ∀ d, cs.head? = some d → d ∉ ['x', 'X', 'o', 'O', 'b', 'B'])
    (h : decimalAfter (ds ++ cs) = some rest) : tokenAt (ds ++ cs) = some (.number, rest) := by
  cases ds with
  | nil => exact absurd rfl hne
  | cons d ds =>
    obtain ⟨hd, hds⟩ := List.forall_mem_cons.1 hds
    have hhead : ∀ e, (ds ++ cs).head? = some e → e ∉ ['x', 'X', 'o', 'O', 'b', 'B'] := by
      intro e he
      cases ds with
      | nil => exact hbase e he
      | cons e' ds =>
        obtain rfl := Option.some.inj he
        intro hmem
        have hall : ∀ e ∈ ['x', 'X', 'o', 'O', 'b', 'B'], CharClass.isAsciiDigit e = false :=
          List.all_iff_forall_prop.1 (by decide)
        exact absurd (List.forall_mem_cons.1 hds).1 (Bool.eq_false_iff.1 (hall e' hmem))
    -- the second character decides on the base, whether it is a digit or stands after a single one
    have hnumber : numberAfter (d :: (ds ++ cs)) = decimalAfter (d :: (ds ++ cs)) := by
      generalize ds ++ cs = text at hhead
      rw [numberAfter]
      all_goals
        rintro _ ⟨⟩
        exact hhead _ rfl (by decide)
    rw [List.cons_append] at h ⊢
    rw [tokenAt, if_pos hd, hnumber, h]
    rfl

/-- A whole number that is not too long and does not begin with a zero is one token. -/
theorem tokenAt_whole (hne : ds ≠ []) (hds : Digits ds) (hlength : ds.length ≤ digitLimit)
    (hzero : 1 < ds.length → ds.head? ≠ some '0') :
    tokenAt (ds ++ ['\n']) = some (.number, ['\n']) := by
  refine tokenAt_digits ds hne hds (fun d hd => ?_) ?_
  · obtain rfl := Option.some.inj hd
    decide
  · have hafter := digitsAfter_digits hne hds (c := '\n') (by decide) (by decide) []
    have htake : (ds ++ ['\n']).take ((ds ++ ['\n']).length - ['\n'].length) = ds := by
      rw [List.length_append, Nat.add_sub_cancel, List.take_left]
    have hfilter : ds.filter (· != '_') = ds :=
      List.filter_eq_self.2 fun d hd => bne_iff_ne.2 (ne_underscore_of_isAsciiDigit (hds d hd))
    have hleading : (ds.head? != some '0' || ds.all (· == '0')) = true := by
      by_cases hlong : 1 < ds.length
      · rw [bne_iff_ne.2 (hzero hlong), Bool.true_or]
      · have hpos := List.length_pos_iff.2 hne
        obtain ⟨d, rfl⟩ := List.length_eq_one_iff.1 (show ds.length = 1 by omega)
        by_cases hd : d = '0' <;> simp [hd]
    have hexponent : exponentAfter ['\n'] = some ['\n'] := rfl
    rw [decimalAfter, hafter]
    simp only [Option.bind_eq_bind, Option.bind_some, hexponent, htake, hfilter, hleading,
      hlength, decide_true, Bool.and_true, Bool.or_true, guard_true]
    rfl

/-- The text of a number that is not written as a whole one. -/
inductive IsDecimal : List Char → Prop
  /-- Digits on either side of a point. -/
  | point {whole part : List Char} (hwhole : whole ≠ [] ∧ Digits whole)
      (hpart : part ≠ [] ∧ Digits part) :
    IsDecimal (whole ++ '.' :: part)
  /-- A digit, further ones after a point if there are any, and a power of ten with a sign. -/
  | power {d sign : Char} {part power : List Char} (hd : CharClass.isAsciiDigit d = true)
      (hpart : Digits part)
    (hsign : sign = '+' ∨ sign = '-') (hpower : power ≠ [] ∧ Digits power) :
    IsDecimal (d :: (if part.isEmpty then [] else '.' :: part) ++ 'e' :: sign :: power)

theorem exponentAfter_power {sign : Char} {power : List Char} (hsign : sign = '+' ∨ sign = '-')
    (hpower : power ≠ [] ∧ Digits power) :
    exponentAfter ('e' :: sign :: (power ++ ['\n'])) = some ['\n'] := by
  have hdigits := digitsAfter_digits hpower.1 hpower.2 (c := '\n') (by decide) (by decide) []
  rcases hsign with rfl | rfl <;>
  · rw [exponentAfter]
    exact hdigits

/-- What stands behind a point ends after its digits and an exponent. -/
theorem fractionAfter_digits {part cs : List Char} (hpart : part ≠ [] ∧ Digits part)
    (hc : CharClass.isAsciiDigit c = false) (hjoin : c ≠ '_')
    (hexponent : exponentAfter (c :: cs) = some ['\n']) :
    fractionAfter (part ++ c :: cs) = some ['\n'] := by
  have hhead : (part ++ c :: cs).head?.any CharClass.isAsciiDigit = true := by
    obtain ⟨d, ds, rfl⟩ := List.exists_cons_of_ne_nil hpart.1
    exact hpart.2 d List.mem_cons_self
  rw [fractionAfter, if_pos hhead, digitsAfter_digits hpart.1 hpart.2 hc hjoin]
  simp only [Option.bind_eq_bind, Option.bind_some, hexponent]
  rfl

/-- A number with a point or a power of ten is one token. -/
theorem IsDecimal.tokenAt {cs : List Char} (h : IsDecimal cs) :
    tokenAt (cs ++ ['\n']) = some (.number, ['\n']) := by
  cases h with
  | @point whole part hwhole hpart =>
    rw [List.append_assoc, List.cons_append]
    refine tokenAt_digits whole hwhole.1 hwhole.2 (fun d hd => ?_) ?_
    · obtain rfl := Option.some.inj hd
      decide
    · rw [decimalAfter, digitsAfter_digits hwhole.1 hwhole.2 (by decide) (by decide)]
      exact fractionAfter_digits hpart (by decide) (by decide) rfl
  | @power d sign part power hd hpart hsign hpower =>
    have hone : Digits [d] := List.forall_mem_singleton.2 hd
    have hexponent := exponentAfter_power hsign hpower
    by_cases hempty : part.isEmpty = true
    · rw [if_pos hempty]
      simp only [List.cons_append, List.nil_append]
      refine tokenAt_digits [d] (List.cons_ne_nil _ _) hone (fun d hd => ?_) ?_
      · obtain rfl := Option.some.inj hd
        decide
      · rw [decimalAfter, digitsAfter_digits (List.cons_ne_nil _ _) hone (by decide) (by decide)]
        have hlonger : (['\n'].length != ('e' :: sign :: (power ++ ['\n'])).length) = true := by
          simp
        simp only [Option.bind_eq_bind, Option.bind_some, hexponent, hlonger,
          Bool.true_or, guard_true]
        rfl
    · rw [if_neg hempty]
      simp only [List.append_assoc, List.cons_append]
      refine tokenAt_digits [d] (List.cons_ne_nil _ _) hone (fun d hd => ?_) ?_
      · obtain rfl := Option.some.inj hd
        decide
      · rw [decimalAfter, digitsAfter_digits (List.cons_ne_nil _ _) hone (by decide) (by decide)]
        exact fractionAfter_digits ⟨fun h => hempty (List.isEmpty_iff.2 h), hpart⟩ (by decide)
          (by decide) hexponent

end Wadl.Source
