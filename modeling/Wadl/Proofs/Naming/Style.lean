import Wadl.Naming.Style
import Wadl.Proofs.Naming.Scope
import Wadl.Proofs.Number.Numeral
import Wadl.Proofs.Text.Pieces

/-!
# How names look

The words of a text hold ASCII letters and digits only (`isWord_of_mem_split`). So a name in
capitals begins with a capital letter, if there is a name at all (`capital_pascal`), and the name of
a variable does not (`small_identifier`); a name is never of both sorts (`Capital.ne_small`).
Numbers and underscores after a name change nothing about this, and a name that begins with a
capital and is no keyword can stand in generated source (`Capital.isIdentifier`).
-/

namespace Wadl

open CharClass

namespace Naming

/-! ## Characters -/

theorem toNat_ofNat {n : Nat} (h : n < 0xd800) : (Char.ofNat n).toNat = n := by
  have hvalid : n.isValidChar := Or.inl h
  have hchar : Char.ofNat n = Char.ofNatAux n hvalid := dif_pos hvalid
  rw [hchar]
  rfl

/-- Capitals are found by offset, and other characters stay as they are. -/
theorem toNat_upperChar (c : Char) : (upperChar c).toNat =
    if 97 ≤ c.toNat ∧ c.toNat ≤ 122 then c.toNat - 32 else c.toNat := by
  simp only [upperChar, isAsciiLower_iff]
  split
  · exact toNat_ofNat (by omega)
  · rfl

/-- Small letters are found by offset, and other characters stay as they are. -/
theorem toNat_lowerChar (c : Char) : (lowerChar c).toNat =
    if 65 ≤ c.toNat ∧ c.toNat ≤ 90 then c.toNat + 32 else c.toNat := by
  simp only [lowerChar, isAsciiUpper_iff]
  split
  · exact toNat_ofNat (by omega)
  · rfl

/-- The capital for a letter or a digit is a capital or a digit. -/
theorem upperChar_cases {c : Char} (h : isAsciiAlphanumeric c = true) :
    isAsciiUpper (upperChar c) = true ∨ isAsciiDigit (upperChar c) = true := by
  simp only [isAsciiAlphanumeric_iff, isAsciiUpper_iff, isAsciiLower_iff, isAsciiDigit_iff,
    toNat_upperChar] at h ⊢
  split <;> omega

/-- The small letter for a letter or a digit is a small letter or a digit. -/
theorem lowerChar_cases {c : Char} (h : isAsciiAlphanumeric c = true) :
    isAsciiLower (lowerChar c) = true ∨ isAsciiDigit (lowerChar c) = true := by
  simp only [isAsciiAlphanumeric_iff, isAsciiUpper_iff, isAsciiLower_iff, isAsciiDigit_iff,
    toNat_lowerChar] at h ⊢
  split <;> omega

/-! ## Words -/

/-- ASCII letters and digits, at least one. -/
def IsWord (w : List Char) : Prop := w ≠ [] ∧ ∀ c ∈ w, isAsciiAlphanumeric c = true

/-- What is read as words are words. -/
theorem isWord_of_mem_runs {word cs : List Char}
    (hword : ∀ c ∈ word, isAsciiAlphanumeric c = true) : ∀ w ∈ Words.runs word cs, IsWord w := by
  -- a run that is closed holds the characters met so far
  have hclosed : ∀ {word : List Char}, (∀ c ∈ word, isAsciiAlphanumeric c = true) →
      word.isEmpty = false → IsWord word.reverse := by
    intro word hword hne
    exact ⟨by simpa using hne, by simpa using hword⟩
  induction cs generalizing word with
  | nil =>
    intro w hw
    rw [Words.runs] at hw
    split at hw
    · cases hw
    · rename_i hne
      rw [List.mem_singleton.1 hw]
      exact hclosed hword (by simpa using hne)
  | cons c cs ih =>
    intro w hw
    rw [Words.runs] at hw
    split at hw
    · rename_i hc
      exact ih (List.forall_mem_cons.2 ⟨hc, hword⟩) w hw
    · split at hw
      · exact ih (by simp) w hw
      · rename_i hne
        rcases List.mem_cons.1 hw with rfl | hw
        · exact hclosed hword (by simpa using hne)
        · exact ih (by simp) w hw

/-- The parts of a text are words. -/
theorem isWord_of_mem_split {cs : List Char} : ∀ w ∈ Words.split cs, IsWord w :=
  isWord_of_mem_runs (by simp)

/-- A text with a letter or a digit has a word. -/
theorem runs_ne_nil {word cs : List Char} (h : word ≠ [] ∨ ∃ c ∈ cs, isAsciiAlphanumeric c = true) :
    Words.runs word cs ≠ [] := by
  induction cs generalizing word with
  | nil =>
    have hne : word ≠ [] := h.resolve_right (by simp)
    simp [Words.runs, hne]
  | cons c cs ih =>
    rw [Words.runs]
    split
    · exact ih (Or.inl (List.cons_ne_nil c word))
    · rename_i hc
      split
      · rename_i hempty
        refine ih (Or.inr ?_)
        obtain ⟨d, hd, hdigit⟩ := h.resolve_left (by simpa using hempty)
        rcases List.mem_cons.1 hd with rfl | hd
        · exact absurd hdigit hc
        · exact ⟨d, hd, hdigit⟩
      · exact List.cons_ne_nil _ _

/-- Parting words at their humps loses no character. -/
theorem mem_partHumps {c : Char} {cs : List Char} (h : c ∈ cs) : c ∈ Words.partHumps cs := by
  induction cs using Words.partHumps.induct with
  | case1 a b cs hump ih =>
    rw [Words.partHumps, if_pos hump]
    simp only [List.mem_cons] at h ⊢
    tauto
  | case2 a b cs hump ih =>
    rw [Words.partHumps, if_neg hump]
    rcases List.mem_cons.1 h with rfl | h
    · exact List.mem_cons_self
    · exact List.mem_cons_of_mem a (ih h)
  | case3 cs hcs =>
    rw [Words.partHumps]
    · exact h
    · exact hcs

/-- Parting words after capitals loses no character. -/
theorem mem_partCapitals {c : Char} {capitals cs : List Char} (h : c ∈ capitals ∨ c ∈ cs) :
    c ∈ Words.partCapitals capitals cs := by
  fun_induction Words.partCapitals capitals cs with
  | case1 capitals => simpa using h
  | case2 capitals d cs hupper ih =>
    apply ih
    simp only [List.mem_cons] at h ⊢
    grind
  | case3 d cs hupper last before rest hlower ih =>
    have := @ih
    simp only [List.mem_cons, List.mem_append, List.mem_reverse, List.not_mem_nil,
      false_or] at h this ⊢
    grind
  | case4 d cs hupper last before rest hlower ih =>
    have := @ih
    simp only [List.mem_cons, List.mem_append, List.mem_reverse, List.not_mem_nil,
      false_or] at h this ⊢
    grind
  | case5 capitals d cs hupper hcapitals ih =>
    have := @ih
    simp only [List.mem_cons, List.mem_append, List.mem_reverse, List.not_mem_nil,
      false_or] at h this ⊢
    grind

/-- A text with a letter or a digit in it has words. -/
theorem split_ne_nil {cs : List Char} {c : Char} (hc : c ∈ cs) (h : isAsciiAlphanumeric c = true) :
    Words.split cs ≠ [] :=
  runs_ne_nil (Or.inr ⟨c, mem_partHumps (mem_partCapitals (Or.inr hc)), h⟩)

end Naming

/-! ## Names with and without a capital -/

/-- A character that can follow in a name: an ASCII letter, a digit or an underscore. -/
def IsNameChar (c : Char) : Prop := isAsciiAlphanumeric c = true ∨ c = '_'

instance : DecidablePred IsNameChar := fun _ => inferInstanceAs (Decidable (_ ∨ _))

/-- A name of ASCII letters, digits and underscores that begins with a capital. -/
def Capital (name : String) : Prop :=
  ∃ c cs, name.toList = c :: cs ∧ isAsciiUpper c = true ∧ ∀ d ∈ cs, IsNameChar d

/-- A name that does not begin with a capital. -/
def Small (name : String) : Prop := ∀ c cs, name.toList = c :: cs → isAsciiUpper c = false

theorem IsNameChar.ascii {c : Char} (h : IsNameChar c) : c.toNat < 0x80 := by
  rcases h with halnum | rfl
  · simp only [isAsciiAlphanumeric_iff, isAsciiUpper_iff, isAsciiLower_iff,
      isAsciiDigit_iff] at halnum
    omega
  · decide

theorem isNameChar_of_upper {c : Char} (h : isAsciiUpper c = true) : IsNameChar c :=
  Or.inl (isAsciiAlphanumeric_iff.2 (Or.inr (Or.inl h)))

/-- A name that begins with a capital and has only characters of names is one of a class. -/
theorem capital_of_first {name : String} (hfirst : name.toList.head?.any isAsciiUpper = true)
    (hall : ∀ c ∈ name.toList, IsNameChar c) : Capital name := by
  cases hname : name.toList with
  | nil => simp [hname] at hfirst
  | cons c cs =>
    rw [hname] at hfirst hall
    exact ⟨c, cs, hname, hfirst, (List.forall_mem_cons.1 hall).2⟩

/-- A name that is written out. -/
theorem capital_of_check {name : String} (hfirst : name.toList.head?.any isAsciiUpper = true)
    (hall : name.toList.all (fun c => decide (IsNameChar c)) = true) : Capital name :=
  capital_of_first hfirst fun c hc => of_decide_eq_true (List.all_eq_true.1 hall c hc)

theorem Capital.isNameChar {name : String} (h : Capital name) :
    ∀ c ∈ name.toList, IsNameChar c := by
  obtain ⟨c, cs, hname, hc, hcs⟩ := h
  rw [hname]
  exact List.forall_mem_cons.2 ⟨isNameChar_of_upper hc, hcs⟩

/-- The name of a class stays one if characters of names are added. -/
theorem Capital.append {name rest : String} (h : Capital name)
    (hrest : ∀ c ∈ rest.toList, IsNameChar c) : Capital (name ++ rest) := by
  obtain ⟨c, cs, hname, hc, hcs⟩ := h
  refine ⟨c, cs ++ rest.toList, by simp [hname], hc, ?_⟩
  exact List.forall_mem_append.2 ⟨hcs, hrest⟩

/-- A name without capitals stays one if such a name is added. -/
theorem Small.append {name rest : String} (h : Small name) (hrest : Small rest) :
    Small (name ++ rest) := by
  intro c cs hname
  rw [String.toList_append] at hname
  cases hfirst : name.toList with
  | nil =>
    rw [hfirst] at hname
    exact hrest c cs hname
  | cons d ds =>
    rw [hfirst] at hname
    obtain ⟨rfl, -⟩ := List.cons.inj hname
    exact h d ds hfirst

/-- Names of classes differ from names without capitals at their head. -/
theorem Capital.ne_small {name name' : String} (h : Capital name) (h' : Small name') :
    name ≠ name' := by
  rintro rfl
  obtain ⟨c, cs, hname, hc, -⟩ := h
  rw [h' c cs hname] at hc
  cases hc

/-! ## Names in capitals -/

namespace Naming

theorem forall_mem_lead {P : Char → Prop} {first : Char} (hfirst : P first) {cs : List Char}
    (h : ∀ c ∈ cs, P c) : ∀ c ∈ lead first cs, P c := by
  cases cs with
  | nil => exact h
  | cons d ds =>
    rw [lead]
    split
    · exact List.forall_mem_cons.2 ⟨hfirst, h⟩
    · exact h

theorem alphanumeric_lowerWord {w : List Char} (h : ∀ c ∈ w, isAsciiAlphanumeric c = true) :
    ∀ c ∈ lowerWord w, isAsciiAlphanumeric c = true := by
  intro d hd
  obtain ⟨e, he, rfl⟩ := List.mem_map.1 hd
  exact isAsciiAlphanumeric_iff.2 ((lowerChar_cases (h e he)).imp_right Or.inr)

theorem alphanumeric_capitalized {w : List Char} (h : ∀ c ∈ w, isAsciiAlphanumeric c = true) :
    ∀ c ∈ capitalized w, isAsciiAlphanumeric c = true := by
  cases w with
  | nil => simp [capitalized]
  | cons c cs =>
    obtain ⟨hc, hcs⟩ := List.forall_mem_cons.1 h
    exact List.forall_mem_cons.2 ⟨isAsciiAlphanumeric_iff.2 (Or.inr (upperChar_cases hc)),
      alphanumeric_lowerWord hcs⟩

theorem alphanumeric_flatten_capitalized {ws : List (List Char)} (h : ∀ w ∈ ws, IsWord w) :
    ∀ c ∈ (ws.map capitalized).flatten, isAsciiAlphanumeric c = true := by
  intro c hc
  obtain ⟨w, hw, hc⟩ := List.mem_flatten.1 hc
  obtain ⟨w, hword, rfl⟩ := List.mem_map.1 hw
  exact alphanumeric_capitalized (h w hword).2 c hc

end Naming

/-- Names of classes have only characters of names. -/
theorem isNameChar_pascal (text : String) : ∀ c ∈ (pascal text).toList, IsNameChar c := by
  rw [pascal, String.toList_ofList]
  exact Naming.forall_mem_lead (isNameChar_of_upper (by decide)) fun c hc =>
    Or.inl (Naming.alphanumeric_flatten_capitalized Naming.isWord_of_mem_split c hc)

/-- Words make a name that begins with a capital; a digit at the start gets one before it. -/
theorem capital_pascal {text : String} (h : pascal text ≠ "") : Capital (pascal text) := by
  have hall := isNameChar_pascal text
  rw [pascal, String.toList_ofList] at hall
  rw [pascal, ne_eq, String.ofList_eq_empty_iff] at h
  rw [Capital, pascal, String.toList_ofList]
  unfold Naming.pascalChars at hall h ⊢
  cases hsplit : Words.split text.toList with
  | nil => simp [hsplit, Naming.lead] at h
  | cons w ws =>
    obtain ⟨hne, hw⟩ := Naming.isWord_of_mem_split w (hsplit ▸ List.mem_cons_self)
    obtain ⟨c, cs, rfl⟩ := List.exists_cons_of_ne_nil hne
    rw [hsplit] at hall
    simp only [List.map_cons, List.flatten_cons, Naming.capitalized, List.cons_append,
      Naming.lead] at hall ⊢
    split
    · rename_i hdigit
      rw [if_pos hdigit] at hall
      exact ⟨'N', _, rfl, by decide, (List.forall_mem_cons.1 hall).2⟩
    · rename_i hdigit
      rw [if_neg hdigit] at hall
      have hupper := (Naming.upperChar_cases (List.forall_mem_cons.1 hw).1).resolve_right hdigit
      exact ⟨_, _, rfl, hupper, (List.forall_mem_cons.1 hall).2⟩

/-- A letter or a digit makes a name. -/
theorem pascal_ne_empty {text : String} {c : Char} (hc : c ∈ text.toList)
    (h : isAsciiAlphanumeric c = true) : pascal text ≠ "" := by
  intro hempty
  rw [pascal, String.ofList_eq_empty_iff, Naming.pascalChars] at hempty
  obtain ⟨w, ws, hsplit⟩ := List.exists_cons_of_ne_nil (Naming.split_ne_nil hc h)
  obtain ⟨hne, -⟩ := Naming.isWord_of_mem_split w (hsplit ▸ List.mem_cons_self)
  obtain ⟨d, ds, rfl⟩ := List.exists_cons_of_ne_nil hne
  rw [hsplit, List.map_cons, List.flatten_cons, Naming.capitalized, List.cons_append,
    Naming.lead] at hempty
  split at hempty <;> cases hempty

/-! ## Names of variables -/

/-- A name does not begin with a capital if its first character, should it be no digit, is a small
letter. -/
theorem Naming.small_lead {c : Char} {cs : List Char}
    (hc : isAsciiLower c = true ∨ isAsciiDigit c = true) :
    ∀ d ds, lead 'n' (c :: cs) = d :: ds → isAsciiUpper d = false := by
  intro d ds h
  rw [lead] at h
  split at h
  · obtain ⟨rfl, -⟩ := List.cons.inj h
    decide
  · rename_i hdigit
    obtain ⟨rfl, -⟩ := List.cons.inj h
    have hlower := isAsciiLower_iff.1 (hc.resolve_right hdigit)
    rw [← Bool.not_eq_true, isAsciiUpper_iff]
    omega

theorem small_snake (text : String) : Small (snake text) := by
  intro d ds h
  rw [snake, String.toList_ofList, Naming.snakeChars] at h
  cases hsplit : Words.split text.toList with
  | nil => simp [hsplit, Naming.joined, Naming.lead] at h
  | cons w ws =>
    obtain ⟨hne, hw⟩ := Naming.isWord_of_mem_split w (hsplit ▸ List.mem_cons_self)
    obtain ⟨c, cs, rfl⟩ := List.exists_cons_of_ne_nil hne
    have hc := Naming.lowerChar_cases (List.forall_mem_cons.1 hw).1
    obtain ⟨rest, hrest⟩ : ∃ rest, Naming.joined ((Words.split text.toList).map Naming.lowerWord) =
        Naming.lowerChar c :: rest := by
      rw [hsplit, List.map_cons, Naming.joined]
      cases ws with
      | nil => exact ⟨cs.map Naming.lowerChar, by simp [Naming.lowerWord, List.intercalate]⟩
      | cons v vs =>
        exact ⟨_, by rw [List.map_cons, List.intercalate_cons_cons, Naming.lowerWord, List.map_cons,
          List.cons_append, List.cons_append]⟩
    rw [hrest] at h
    exact Naming.small_lead hc d ds h

theorem small_camel (text : String) : Small (camel text) := by
  intro d ds h
  rw [camel, String.toList_ofList, Naming.camelChars] at h
  cases hsplit : Words.split text.toList with
  | nil => simp [hsplit] at h
  | cons w ws =>
    obtain ⟨hne, hw⟩ := Naming.isWord_of_mem_split w (hsplit ▸ List.mem_cons_self)
    obtain ⟨c, cs, rfl⟩ := List.exists_cons_of_ne_nil hne
    rw [hsplit] at h
    exact Naming.small_lead (Naming.lowerChar_cases (List.forall_mem_cons.1 hw).1) d ds h

/-- Names of params and methods do not begin with capitals, in each style. -/
theorem small_identifier (style : NamingStyle) (text : String) : Small (style.identifier text) := by
  cases style with
  | snake => exact small_snake text
  | camel => exact small_camel text

/-- Names in camel case have letters and digits only. -/
theorem alphanumeric_camel (text : String) :
    ∀ c ∈ (camel text).toList, isAsciiAlphanumeric c = true := by
  rw [camel, String.toList_ofList]
  unfold Naming.camelChars
  have hwords : ∀ w ∈ Words.split text.toList, Naming.IsWord w := Naming.isWord_of_mem_split
  split
  · simp
  · rename_i w ws hsplit
    rw [hsplit] at hwords
    obtain ⟨hw, hws⟩ := List.forall_mem_cons.1 hwords
    exact Naming.forall_mem_lead (by decide) (List.forall_mem_append.2
      ⟨Naming.alphanumeric_lowerWord hw.2, Naming.alphanumeric_flatten_capitalized hws⟩)

theorem Naming.alphanumeric_upperWord {w : List Char} (h : ∀ c ∈ w, isAsciiAlphanumeric c = true) :
    ∀ c ∈ upperWord w, isAsciiAlphanumeric c = true := by
  intro d hd
  obtain ⟨e, he, rfl⟩ := List.mem_map.1 hd
  exact isAsciiAlphanumeric_iff.2 (Or.inr (upperChar_cases (h e he)))

theorem Naming.isNameChar_joined {ws : List (List Char)}
    (h : ∀ w ∈ ws, ∀ c ∈ w, isAsciiAlphanumeric c = true) : ∀ c ∈ joined ws, IsNameChar c := by
  intro c hc
  rcases mem_intercalate hc with hc | ⟨w, hw, hc⟩
  · exact Or.inr (List.mem_singleton.1 hc)
  · exact Or.inl (h w hw c hc)

/-- Names of variables have letters, digits and underscores only. -/
theorem isNameChar_identifier (style : NamingStyle) (text : String) :
    ∀ c ∈ (style.identifier text).toList, IsNameChar c := by
  cases style with
  | camel => exact fun c hc => Or.inl (alphanumeric_camel text c hc)
  | snake =>
    rw [NamingStyle.identifier, snake, String.toList_ofList]
    refine Naming.forall_mem_lead (Or.inl (by decide)) (Naming.isNameChar_joined ?_)
    exact List.forall_mem_map.2 fun w hw =>
      Naming.alphanumeric_lowerWord (Naming.isWord_of_mem_split w hw).2

/-- Names of constants have letters, digits and underscores only. -/
theorem isNameChar_constant (text : String) : ∀ c ∈ (constant text).toList, IsNameChar c := by
  have hempty : ∀ c ∈ "EMPTY".toList, isAsciiAlphanumeric c = true := List.all_eq_true.1 (by decide)
  rw [constant, String.toList_ofList]
  unfold Naming.constantChars
  simp only
  split
  · exact fun c hc => Or.inl (hempty c hc)
  · refine Naming.forall_mem_lead (Or.inr rfl) (Naming.isNameChar_joined ?_)
    exact List.forall_mem_map.2 fun w hw =>
      Naming.alphanumeric_upperWord (Naming.isWord_of_mem_split w hw).2

/-! ## Numbers and underscores after a name -/

/-- Escaping a name keeps to characters of names. -/
theorem isNameChar_escaped {name : String} (h : ∀ c ∈ name.toList, IsNameChar c) (s : NameScope) :
    ∀ c ∈ (s.escaped name).toList, IsNameChar c := by
  unfold NameScope.escaped
  split
  · rw [String.toList_append]
    exact List.forall_mem_append.2 ⟨h, List.forall_mem_singleton.2 (Or.inr rfl)⟩
  · exact h

/-- The numeral of a number has digits only. -/
theorem isAsciiDigit_of_mem_toString {n : Nat} :
    ∀ c ∈ (toString n).toList, isAsciiDigit c = true := by
  rw [Nat.toString_eq_repr, Nat.toList_repr]
  exact Numeral.digits_toDigits n

/-- A numbered name of a class is one of a class. -/
theorem Capital.numbered {name : String} (h : Capital name) (n : Nat) :
    Capital (NameScope.numbered name n) := by
  unfold NameScope.numbered
  split
  · exact h
  · exact h.append fun c hc => Or.inl
      (isAsciiAlphanumeric_iff.2 (Or.inr (Or.inr (isAsciiDigit_of_mem_toString c hc))))

/-- An escaped name of a class is one of a class. -/
theorem Capital.escaped {name : String} (h : Capital name) (s : NameScope) :
    Capital (s.escaped name) := by
  unfold NameScope.escaped
  split
  · exact h.append (by simp [IsNameChar])
  · exact h

theorem Small.numbered {name : String} (h : Small name) (n : Nat) :
    Small (NameScope.numbered name n) := by
  unfold NameScope.numbered
  split
  · exact h
  · refine h.append fun c cs hname => ?_
    have hdigit := isAsciiDigit_iff.1 (isAsciiDigit_of_mem_toString c (hname ▸ List.mem_cons_self))
    rw [← Bool.not_eq_true, isAsciiUpper_iff]
    omega

theorem Small.escaped {name : String} (h : Small name) (s : NameScope) :
    Small (s.escaped name) := by
  unfold NameScope.escaped
  split
  · refine h.append fun c cs hname => ?_
    obtain ⟨rfl, -⟩ := List.cons.inj hname
    decide
  · exact h

/-! ## Names that are claimed -/

/-- The name that a text is given in a style: with an underscore if it is a reserved word. -/
def NamingStyle.spelled (style : NamingStyle) (text : String) : String :=
  ({ label := "" } : NameScope).escaped (style.identifier text)

/-- In a scope with the reserved words, names are escaped as they are spelled. -/
theorem escaped_eq_spelled {scope : NameScope} (hscope : scope.reserved = reservedWords)
    (style : NamingStyle) (text : String) :
    scope.escaped (style.identifier text) = style.spelled text := by
  rw [NamingStyle.spelled, NameScope.escaped, NameScope.escaped, hscope]

/-! ## Identifiers -/

/-- A name that generated source can have: it begins and goes on as names do, and is no keyword. -/
def IsIdentifier (name : String) : Prop :=
  name.toList.head?.any isNameStart = true ∧ name.toList.tail.all isNamePart =
    true ∧ name ∉ keywords

instance : DecidablePred IsIdentifier := fun _ => inferInstanceAs (Decidable (_ ∧ _ ∧ _))

/-- A name of a class that is no keyword is an identifier. -/
theorem Capital.isIdentifier {name : String} (h : Capital name) (hkeyword : name ∉ keywords) :
    IsIdentifier name := by
  obtain ⟨c, cs, hname, hc, hcs⟩ := h
  rw [IsIdentifier, hname]
  refine ⟨?_, List.all_eq_true.2 fun d hd => ?_, hkeyword⟩
  · have hascii : c.toNat < 0x80 := by
      have := isAsciiUpper_iff.1 hc
      omega
    rw [List.head?_cons, Option.any_some, isNameStart, if_pos hascii,
      isAsciiLetter, Bool.or_eq_true, Bool.or_eq_true]
    exact Or.inl (Or.inr hc)
  · rw [isNamePart, if_pos (hcs d hd).ascii, Bool.or_eq_true, beq_iff_eq]
    exact hcs d hd

/-- All reserved words end in a small letter. -/
theorem append_notMem_reservedWords {name rest : String} {c : Char}
    (hlast : rest.toList.getLast? = some c) (hc : isAsciiLower c = false) :
    name ++ rest ∉ reservedWords := by
  have hall : reservedWords.all (fun w => w.toList.getLast?.all isAsciiLower) = true := by decide
  intro hmem
  have hword := List.all_eq_true.1 hall _ hmem
  rw [String.toList_append, List.getLast?_append, hlast] at hword
  simp [hc] at hword

/-- No reserved word ends in `Resource`. -/
theorem append_resource_notMem_reservedWords (name : String) :
    name ++ "Resource" ∉ reservedWords := by
  have hall : reservedWords.all (fun w => !"Resource".toList.isSuffixOf w.toList) = true := by
    decide
  intro hmem
  have hword := List.all_eq_true.1 hall _ hmem
  rw [String.toList_append, List.isSuffixOf_iff_suffix.2 (List.suffix_append _ _)] at hword
  cases hword

/-- Escaped names are not reserved. -/
theorem escaped_notMem {s : NameScope} (hs : s.reserved = reservedWords) (name : String) :
    s.escaped name ∉ reservedWords := by
  unfold NameScope.escaped
  split
  · exact append_notMem_reservedWords (c := '_') rfl (by decide)
  · rename_i h
    simpa [hs] using h

/-- Numbering makes no reserved word of a name. -/
theorem numbered_notMem {name : String} (h : name ∉ reservedWords) (n : Nat) :
    NameScope.numbered name n ∉ reservedWords := by
  unfold NameScope.numbered
  split
  · exact h
  · have hne : (toString n).toList ≠ [] := by
      rw [Nat.toString_eq_repr, Nat.toList_repr]
      exact List.ne_nil_of_length_pos Nat.length_toDigits_pos
    obtain ⟨c, hc⟩ := Option.isSome_iff_exists.1 (List.getLast?_isSome.2 hne)
    refine append_notMem_reservedWords hc ?_
    have hdigit := isAsciiDigit_iff.1 (isAsciiDigit_of_mem_toString c (List.mem_of_getLast? hc))
    rw [← Bool.not_eq_true, isAsciiLower_iff]
    omega

end Wadl
