import Mathlib.Algebra.Group.Nat.Defs
import Mathlib.Data.List.Induction
import Wadl.Number.Numeral
import Wadl.Proofs.Text.Pieces
import Wadl.Text.CharClass

/-!
# Whole numbers read back

The numeral of a whole number is a word without white space (`isWord_toString`). It is read as the
number it writes, unless it has too many digits; numbers that are read at all do not
(`readInteger_toString`).
-/

namespace Wadl

namespace Numeral

/-- ASCII digits. -/
def Digits (ds : List Char) : Prop := ∀ d ∈ ds, CharClass.isAsciiDigit d = true

/-! ## The value of digits -/

theorem digitsValue_append_singleton (ds : List Char) (d : Char) :
    digitsValue (ds ++ [d]) = digitsValue ds * 10 + (d.toNat - '0'.toNat) := by
  unfold digitsValue
  rw [List.foldl_append]
  rfl

/-- Digits write a number that is bounded by their count. -/
theorem digitsValue_lt {ds : List Char} (h : Digits ds) : digitsValue ds < 10 ^ ds.length := by
  induction ds using List.reverseRecOn with
  | nil => decide
  | append_singleton ds d ih =>
    obtain ⟨hds, hd⟩ := List.forall_mem_append.1 h
    have hlt := ih hds
    have hdigit := CharClass.isAsciiDigit_iff.1 (hd d (List.mem_singleton_self d))
    have hzero : '0'.toNat = 48 := rfl
    rw [digitsValue_append_singleton, List.length_append, List.length_singleton,
      Nat.pow_succ, hzero]
    omega

theorem digitsValue_toDigits (n : Nat) : digitsValue (Nat.toDigits 10 n) = n := by
  have hfold : digitsValue (Nat.toDigits 10 n) = Nat.ofDigitChars 10 (Nat.toDigits 10 n) 0 := by
    unfold digitsValue
    rw [Nat.ofDigitChars_eq_foldl]
    simp only [Nat.mul_comm]
  rw [hfold, Nat.ofDigitChars_ten_toDigits]

theorem digits_toDigits (n : Nat) : Digits (Nat.toDigits 10 n) := by
  intro d hd
  have hdigit := Nat.isDigit_of_mem_toDigits (by decide) (by decide) hd
  unfold Char.isDigit at hdigit
  rw [Bool.and_eq_true, decide_eq_true_iff, decide_eq_true_iff] at hdigit
  exact CharClass.isAsciiDigit_iff.2 hdigit

/-! ## Numerals of digits -/

theorem digits_ungroup {cs ds : List Char} (h : ungroup cs = some ds) : Digits ds := by
  induction cs using ungroup.induct generalizing ds with
  | case1 => cases h
  | case2 c hc =>
    rw [ungroup, if_pos hc] at h
    obtain rfl := Option.some.inj h
    exact List.forall_mem_singleton.2 hc
  | case3 c hc =>
    rw [ungroup, if_neg hc] at h
    cases h
  | case4 c cs hc ih =>
    rw [ungroup, if_pos hc] at h
    obtain ⟨rest, hrest, rfl⟩ := Option.map_eq_some_iff.1 h
    exact List.forall_mem_cons.2 ⟨hc, ih hrest⟩
  | case5 c cs hc =>
    rw [ungroup, if_neg hc] at h
    cases h
  | case6 c cs hne hunderscore hc ih =>
    rw [ungroup, if_pos hc] at h
    · obtain ⟨rest, hrest, rfl⟩ := Option.map_eq_some_iff.1 h
      exact List.forall_mem_cons.2 ⟨hc, ih hrest⟩
    · exact hne
    · exact hunderscore
  | case7 c cs hne hunderscore hc =>
    rw [ungroup, if_neg hc] at h
    · cases h
    · exact hne
    · exact hunderscore

theorem ungroup_digits : ∀ {ds : List Char}, ds ≠ [] → Digits ds → ungroup ds = some ds
  | [], h, _ => absurd rfl h
  | [d], _, h => by
    rw [ungroup, if_pos (h d (List.mem_singleton_self d))]
  | d :: e :: ds, _, h => by
    obtain ⟨hd, hds⟩ := List.forall_mem_cons.1 h
    have hrest := ungroup_digits (List.cons_ne_nil e ds) hds
    have he : e ≠ '_' := by
      rintro rfl
      exact absurd (hds _ List.mem_cons_self) (by decide)
    rw [ungroup, if_pos hd, hrest]
    · rfl
    · simp
    · rintro cs ⟨⟩
      exact he rfl

/-- A sign before digits, or none. -/
def signed (negative : Bool) (ds : List Char) : List Char := if negative then '-' :: ds else ds

theorem mem_signed {negative : Bool} {ds : List Char} (h : Digits ds) {c : Char}
    (hc : c ∈ signed negative ds) : 45 ≤ c.toNat ∧ c.toNat ≤ 57 := by
  have hdigit : c ∈ ds → 45 ≤ c.toNat ∧ c.toNat ≤ 57 := by
    intro hmem
    have hrange := CharClass.isAsciiDigit_iff.1 (h c hmem)
    omega
  unfold signed at hc
  split at hc
  · rcases List.mem_cons.1 hc with rfl | hc
    · decide
    · exact hdigit hc
  · exact hdigit hc

theorem trimList_of_forall {p : Char → Bool} {cs : List Char} (h : ∀ c ∈ cs, p c = false) :
    Text.trimList p cs = cs := by
  have hdrop : ∀ {ds : List Char}, (∀ d ∈ ds, p d = false) → ds.dropWhile p = ds := by
    intro ds hds
    cases ds with
    | nil => rfl
    | cons d ds => rw [List.dropWhile_cons_of_neg (by simp [hds d List.mem_cons_self])]
  unfold Text.trimList Text.dropEndWhile
  rw [hdrop h, hdrop fun d hd => h d (List.mem_reverse.1 hd), List.reverse_reverse]

/-- Signed digits are their own ASCII form. -/
theorem normalize_signed {negative : Bool} {ds : List Char} (h : Digits ds) :
    normalize (signed negative ds) = some (signed negative ds) := by
  have hform : ∀ {cs : List Char}, (∀ c ∈ cs, 45 ≤ c.toNat ∧ c.toNat ≤ 57) →
      cs.mapM asciiForm = some cs := by
    intro cs
    induction cs with
    | nil => exact fun _ => rfl
    | cons c cs ih =>
      intro hcs
      obtain ⟨hc, hrest⟩ := List.forall_mem_cons.1 hcs
      have hascii : asciiForm c = some c := if_pos (by omega)
      rw [List.mapM_cons, hascii, ih hrest]
      rfl
  have hspace : ∀ c ∈ signed negative ds, isSpace c = false := by
    intro c hc
    have hrange := mem_signed h hc
    have hne : c ≠ ' ' := by
      rintro rfl
      exact absurd hrange.1 (by decide)
    unfold isSpace
    simp only [Bool.or_eq_false_iff, Bool.and_eq_false_iff, beq_eq_false_iff_ne,
      decide_eq_false_iff_not]
    exact ⟨hne, by omega⟩
  unfold normalize
  rw [hform fun c hc => mem_signed h hc, Option.map_some, trimList_of_forall hspace]

theorem splitSign_signed {negative : Bool} {ds : List Char} (hne : ds ≠ []) (h : Digits ds) :
    splitSign (signed negative ds) = (negative, ds) := by
  cases negative with
  | true => rfl
  | false =>
    obtain ⟨d, ds, rfl⟩ := List.exists_cons_of_ne_nil hne
    have hd := CharClass.isAsciiDigit_iff.1 (h d List.mem_cons_self)
    show splitSign (d :: ds) = _
    unfold splitSign
    split
    · rename_i heq
      rw [(List.cons.inj heq).1] at hd
      exact absurd hd.1 (by decide)
    · rename_i heq
      rw [(List.cons.inj heq).1] at hd
      exact absurd hd.1 (by decide)
    · rfl

/-- A numeral with a sign, if it has not too many digits. -/
theorem integerOf_signed {negative : Bool} {ds : List Char} (hne : ds ≠ []) (h : Digits ds)
    (hlength : ds.length ≤ maxDigits) :
    integerOf (signed negative ds) =
      some (if negative then -(digitsValue ds : Int) else digitsValue ds) := by
  unfold integerOf
  rw [normalize_signed h]
  simp only [Option.bind_eq_bind, Option.bind_some, splitSign_signed hne h, ungroup_digits hne h]
  rw [if_pos hlength]
  rfl

/-- A numeral with too many digits is not read. -/
theorem integerOf_signed_long {negative : Bool} {ds : List Char} (h : Digits ds)
    (hlength : maxDigits < ds.length) : integerOf (signed negative ds) = none := by
  have hne : ds ≠ [] := by
    rintro rfl
    exact absurd hlength (by decide)
  unfold integerOf
  rw [normalize_signed h]
  simp only [Option.bind_eq_bind, Option.bind_some, splitSign_signed hne h, ungroup_digits hne h]
  rw [if_neg (Nat.not_le.2 hlength)]

/-- The size of the numbers that are read is bounded. -/
theorem natAbs_lt_of_integerOf {cs : List Char} {n : Int} (h : integerOf cs = some n) :
    n.natAbs < 10 ^ maxDigits := by
  unfold integerOf at h
  simp only [Option.bind_eq_bind, Option.bind_eq_some_iff] at h
  obtain ⟨plain, -, ds, hds, h⟩ := h
  split at h
  · rename_i hlength
    have hvalue : n.natAbs = digitsValue ds := by
      rw [← Option.some.inj h]
      split
      · rw [Int.natAbs_neg, Int.natAbs_natCast]
      · rw [Int.natAbs_natCast]
    rw [hvalue]
    exact Nat.lt_of_lt_of_le (digitsValue_lt (digits_ungroup hds))
      (Nat.pow_le_pow_right (by decide) hlength)
  · cases h

/-- No zeros are written before a number. -/
theorem head_toDigits {n : Nat} (h : 1 < (Nat.toDigits 10 n).length) :
    (Nat.toDigits 10 n).head? ≠ some '0' := by
  intro hhead
  obtain ⟨ds, hds⟩ : ∃ ds, Nat.toDigits 10 n = '0' :: ds := by
    cases hdigits : Nat.toDigits 10 n with
    | nil => exact absurd hdigits Nat.toDigits_ne_nil
    | cons d ds =>
      rw [hdigits, List.head?_cons, Option.some.injEq] at hhead
      exact ⟨ds, by rw [hhead]⟩
  have hvalue : digitsValue ds = n := by
    rw [← digitsValue_toDigits n, hds]
    rfl
  have hdigits : Digits ds := by
    have hall := digits_toDigits n
    rw [hds] at hall
    exact (List.forall_mem_cons.1 hall).2
  rw [hds, List.length_cons] at h
  have hshort : (Nat.toDigits 10 n).length ≤ ds.length := by
    rw [Nat.length_toDigits_le_iff (by decide) (by omega), ← hvalue]
    exact digitsValue_lt hdigits
  rw [hds, List.length_cons] at hshort
  omega

theorem toList_toString (n : Int) :
    (toString n).toList = signed (decide (n < 0)) (Nat.toDigits 10 n.natAbs) := by
  cases n with
  | ofNat m =>
    rw [signed, if_neg (by simp)]
    exact Nat.toList_repr
  | negSucc m =>
    have hdigits : (Nat.repr (m + 1)).toList = Nat.toDigits 10 (m + 1) := Nat.toList_repr
    show ("-" ++ Nat.repr (m + 1)).toList = _
    rw [String.toList_append, hdigits, signed, if_pos (by simp [Int.negSucc_lt_zero])]
    rfl

/-- The characters of a numeral are a sign and digits. -/
theorem mem_toString {n : Int} {c : Char} (h : c ∈ (toString n).toList) :
    45 ≤ c.toNat ∧ c.toNat ≤ 57 := by
  rw [toList_toString] at h
  exact mem_signed (digits_toDigits n.natAbs) h

/-- A whole number is read from its numeral, unless that has too many digits. -/
theorem integerOf_toString (n : Int) :
    integerOf (toString n).toList = if n.natAbs < 10 ^ maxDigits then some n else none := by
  have hlength :=
    Nat.length_toDigits_le_iff (b := 10) (k := maxDigits) (n := n.natAbs) (by decide) (by decide)
  rw [toList_toString]
  by_cases hshort : n.natAbs < 10 ^ maxDigits
  · rw [if_pos hshort, integerOf_signed Nat.toDigits_ne_nil (digits_toDigits _) (hlength.2 hshort),
      digitsValue_toDigits]
    by_cases hn : n < 0
    · rw [if_pos (by simpa using hn)]
      exact congrArg some (by omega)
    · rw [if_neg (by simpa using hn)]
      exact congrArg some (by omega)
  · rw [if_neg hshort]
    exact integerOf_signed_long (digits_toDigits _) (Nat.not_le.1 fun h => hshort (hlength.1 h))

/-- A whole number can be written just if it could be read. -/
theorem isWritable_iff {n : Int} : isWritable n = true ↔ n.natAbs < 10 ^ maxDigits := by
  rw [isWritable, decide_eq_true_eq, Nat.length_toDigits_le_iff (by decide) (by decide)]

end Numeral

open Numeral in
/-- A number that is read from some text is read from its own numeral. -/
theorem readInteger_toString {n : Int} (h : ∃ word, readInteger word = some n) :
    readInteger (toString n) = some n := by
  obtain ⟨word, hword⟩ := h
  rw [readInteger, integerOf_toString, if_pos (natAbs_lt_of_integerOf hword)]

open Numeral in
theorem isWord_toString (n : Int) : IsWord (toString n) := by
  constructor
  · intro h
    have hempty : signed (decide (n < 0)) (Nat.toDigits 10 n.natAbs) = [] := by
      rw [← toList_toString, h]
      rfl
    have hdigits : Nat.toDigits 10 n.natAbs ≠ [] := Nat.toDigits_ne_nil
    unfold signed at hempty
    split at hempty
    · cases hempty
    · exact hdigits hempty
  · intro c hc
    have hrange := mem_toString hc
    unfold Text.isBlank
    simp only [Bool.or_eq_false_iff, Bool.and_eq_false_iff, beq_eq_false_iff_ne,
      decide_eq_false_iff_not]
    omega

end Wadl
