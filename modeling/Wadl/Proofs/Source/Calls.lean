import Mathlib.Data.List.Basic
import Mathlib.Data.List.TakeWhile
import Wadl.Client.Printer
import Wadl.Proofs.Source.Texts

/-!
# Calls in source

A call is read from its characters alone: `operands?` cuts what stands between its brackets at the
commas that stand in no text and in no inner bracket, `keyworded` parts a keyword from its value,
and `entries?` gives the keys of a mapping, decoded, with the source of their values. An operand is
passed as a whole (`Whole`) if the reader crosses it at any depth and comes out where it went in.
That holds of words, literals and whatever stands in matching brackets, so that the operands of a
call are read back (`operands?_joined`), and so are the entries of a mapping (`entries?_mapping`).
-/

namespace Wadl.Source

open Quoted

/-! ## Reading -/

/-- Where a reader stands: outside texts with some brackets open, or between quotes, where a
backslash may just have been read. -/
inductive Reading where
  | code (depth : Nat)
  | text (quote : Char) (depth : Nat)
  | escape (quote : Char) (depth : Nat)
  deriving DecidableEq, Repr

def isOpening (c : Char) : Bool := c == '(' || c == '[' || c == '\x7b'

def isClosing (c : Char) : Bool := c == ')' || c == ']' || c == '\x7d'

/-- Where a reader stands after a character. -/
def Reading.next : Reading → Char → Reading
  | code d, c =>
    if c = '"' ∨ c = '\'' then text c d
    else if isOpening c then code (d + 1)
    else if isClosing c then code (d - 1)
    else code d
  | text q d, c => if c = '\\' then escape q d else if c = q then code d else text q d
  | escape q d, _ => text q d

/-- The parts between commas, up to the bracket that closes them, and what follows it. The part that
is being read is given from its end. -/
def partsFrom : Reading → (part : List Char) → List Char → Option (List (List Char) × List Char)
  | _, _, [] => none
  | r, part, c :: cs =>
    if r = .code 0 ∧
      c = ',' then (partsFrom r [] cs).map fun (ps, rest) => (part.reverse :: ps, rest)
    else if r = .code 0 ∧ isClosing c then some ([part.reverse], cs)
    else partsFrom (r.next c) (c :: part) cs

/-- Spaces and line ends. -/
def isGap (c : Char) : Bool := c == ' ' || c == '\n'

/-- The operands up to the bracket that closes them, and what follows it. A comma may stand after
the last. -/
def operands? (cs : List Char) : Option (List (List Char) × List Char) :=
  (partsFrom (.code 0) [] cs).map fun (ps, rest) =>
    ((ps.map (·.dropWhile isGap)).filter (!·.isEmpty), rest)

/-- The operands of a call of a function, if the source is one. -/
def call? (callee : String) (cs : List Char) : Option (List (List Char)) := do
  let (operands, rest) ← operands? (← cs.dropPrefix? (callee ++ "(").toList)
  if rest.isEmpty then some operands else none

/-- An operand with its keyword, if it has one. -/
def keyworded (operand : List Char) : Option String × List Char :=
  let word := operand.takeWhile isWordChar
  match operand.drop word.length with
  | '=' :: value => (some (String.ofList word), value)
  | _ => (none, operand)

/-- The first operand with a keyword, or the first that has none. -/
def operandAt? (keyword : Option String) (operands : List (List Char)) : Option (List Char) :=
  (operands.map keyworded).lookup keyword

/-- The key of an entry of a mapping, and the source of its value. -/
def pair? (cs : List Char) : Option (String × String) := do
  let (key, rest) ← readText? cs
  let value ← rest.dropPrefix? [':', ' ']
  return (String.ofList key, String.ofList value)

/-- The entries of a mapping. -/
def entries? (cs : List Char) : Option (List (String × String)) := do
  let (operands, rest) ← operands? (← cs.dropPrefix? ['\x7b'])
  if rest.isEmpty then operands.mapM pair? else none

/-! ## Operands that are passed as a whole -/

/-- A reader that stands outside texts crosses some characters and comes out at the same depth. -/
def Crosses (depth : Nat) (text : List Char) : Prop :=
  ∀ part rest, partsFrom (.code depth) part (text ++ rest) =
    partsFrom (.code depth) (text.reverse ++ part) rest

/-- Characters that a reader crosses wherever it stands outside texts. -/
def Whole (text : List Char) : Prop := ∀ depth, Crosses depth text

namespace Crosses

variable {depth : Nat} {text text' : List Char} {c : Char}

theorem nil : Crosses depth [] := fun _ _ => rfl

/-- What is crossed piece by piece is crossed as a whole. -/
theorem append (h : Crosses depth text) (h' : Crosses depth text') :
    Crosses depth (text ++ text') := by
  intro part rest
  rw [List.append_assoc, h, h', List.reverse_append, List.append_assoc]

theorem cons (h : Crosses depth [c]) (h' : Crosses depth text) : Crosses depth (c :: text) :=
  h.append h'

/-- A character that neither begins a text nor opens or closes a bracket; a comma parts operands
outside brackets. -/
theorem plain (hquote : c ≠ '"' ∧ c ≠ '\'') (hopening : isOpening c = false)
    (hclosing : isClosing c = false) (hcomma : c = ',' → depth ≠ 0) : Crosses depth [c] := by
  intro part rest
  have hpart : ¬(Reading.code depth = .code 0 ∧ c = ',') := fun h =>
    hcomma h.2 (Reading.code.inj h.1)
  have hend : ¬(Reading.code depth = .code 0 ∧ isClosing c = true) := fun h => by
    simp [hclosing] at h
  have hnext : (Reading.code depth).next c = .code depth := by
    simp [Reading.next, hquote, hopening, hclosing]
  rw [List.singleton_append, partsFrom, if_neg hpart, if_neg hend, hnext]
  rfl

/-- What is crossed one bracket further in. -/
theorem bracketed (h : Crosses (depth + 1) text) {o : Char} (ho : isOpening o = true)
    (hc : isClosing c = true) : Crosses depth (o :: text ++ [c]) := by
  intro part rest
  have hquote : ∀ d, isOpening d = true ∨ isClosing d = true → d ≠ '"' ∧ d ≠ '\'' ∧ d ≠ ',' := by
    rintro d hd
    refine ⟨?_, ?_, ?_⟩ <;>
    · rintro rfl
      exact absurd hd (by decide)
  have hother : isClosing o = false := by
    rw [Bool.eq_false_iff]
    intro hclose
    simp only [isOpening, isClosing, Bool.or_eq_true, beq_iff_eq] at ho hclose
    rcases ho with (rfl | rfl) | rfl <;> exact absurd hclose (by decide)
  have hother' : isOpening c = false := by
    rw [Bool.eq_false_iff]
    intro hopen
    simp only [isOpening, isClosing, Bool.or_eq_true, beq_iff_eq] at hc hopen
    rcases hc with (rfl | rfl) | rfl <;> exact absurd hopen (by decide)
  obtain ⟨ho₁, ho₂, ho₃⟩ := hquote o (Or.inl ho)
  obtain ⟨hc₁, hc₂, -⟩ := hquote c (Or.inr hc)
  have hin : (Reading.code depth).next o = .code (depth + 1) := by simp [Reading.next, ho₁, ho₂, ho]
  have hout : (Reading.code (depth + 1)).next c = .code depth := by
    simp [Reading.next, hc₁, hc₂, hother', hc]
  rw [List.cons_append, List.cons_append, partsFrom, if_neg fun hpart => ho₃ hpart.2,
    if_neg fun hend => by simp [hother] at hend, hin, List.append_assoc, h,
    List.singleton_append, partsFrom,
    if_neg fun hpart => Nat.succ_ne_zero depth (Reading.code.inj hpart.1),
    if_neg fun hend => Nat.succ_ne_zero depth (Reading.code.inj hend.1), hout]
  simp

end Crosses

/-- A reader that stands between quotes crosses some characters and stays there. -/
def CrossesIn (quote : Char) (depth : Nat) (text : List Char) : Prop :=
  ∀ part rest, partsFrom (.text quote depth) part (text ++ rest) =
    partsFrom (.text quote depth) (text.reverse ++ part) rest

namespace CrossesIn

variable {quote c : Char} {depth : Nat} {text text' : List Char}

theorem nil : CrossesIn quote depth [] := fun _ _ => rfl

/-- What stands between quotes is crossed piece by piece. -/
theorem append (h : CrossesIn quote depth text) (h' : CrossesIn quote depth text') :
    CrossesIn quote depth (text ++ text') := by
  intro part rest
  rw [List.append_assoc, h, h', List.reverse_append, List.append_assoc]

/-- Between quotes every character is crossed but a backslash and the closing quote. -/
theorem plain (hslash : c ≠ '\\') (hquote : c ≠ quote) : CrossesIn quote depth [c] := by
  intro part rest
  rw [List.singleton_append, partsFrom, if_neg nofun, if_neg nofun, Reading.next,
    if_neg hslash, if_neg hquote]
  rfl

/-- A backslash and the character after it are crossed together. -/
theorem escape : CrossesIn quote depth ['\\', c] := by
  intro part rest
  rw [List.cons_append, List.singleton_append, partsFrom, if_neg nofun, if_neg nofun,
    Reading.next, if_pos rfl, partsFrom, if_neg nofun, if_neg nofun, Reading.next]
  rfl

/-- Escaped characters are crossed one by one. -/
theorem flatMap {f : Char → List Char} :
    ∀ {cs : List Char}, (∀ c ∈ cs, CrossesIn quote depth (f c)) →
      CrossesIn quote depth (cs.flatMap f)
  | [], _ => nil
  | c :: cs, h => by
    obtain ⟨hc, hcs⟩ := List.forall_mem_cons.1 h
    exact hc.append (flatMap hcs)

end CrossesIn

variable {shown : Char → Bool} {quote : Char}

/-- What a character is escaped as is crossed between quotes. -/
theorem EscapedAs.crossesIn (hquote : quote = '\'' ∨ quote = '"') {c : Char}
    {text : List Char} {depth : Nat} (h : EscapedAs shown quote c text) :
    CrossesIn quote depth text := by
  cases h with
  | short d hd hread => exact .escape
  | plain hslash hother hline hshown => exact .plain hslash hother
  | code d width hd hfits =>
    have hdigit : ∀ e ∈ hex width c.toNat, e ≠ '\\' ∧ e ≠ quote := by
      refine forall_mem_hex ?_
      rcases hquote with rfl | rfl <;> decide
    have hdigits : CrossesIn quote depth ((hex width c.toNat).flatMap fun e => [e]) :=
      .flatMap fun e he => .plain (hdigit e he).1 (hdigit e he).2
    rw [List.flatMap_singleton'] at hdigits
    exact (CrossesIn.escape (c := d)).append hdigits

namespace Whole

variable {t t' : List Char} {c : Char}

theorem nil : Whole [] := fun _ => .nil

/-- What is passed piece by piece is passed as a whole. -/
theorem append (h : Whole t) (h' : Whole t') : Whole (t ++ t') :=
  fun depth => (h depth).append (h' depth)

/-- Characters that a reader crosses without a change. -/
def isInert (c : Char) : Bool := !(c == '"' || c == '\'' || c == ',' || isOpening c || isClosing c)

/-- Characters that are neither quotes, commas nor brackets are passed. -/
theorem inert (h : t.all isInert = true) : Whole t := by
  intro depth
  induction t with
  | nil => exact .nil
  | cons c t ih =>
    rw [List.all_cons, Bool.and_eq_true] at h
    obtain ⟨hc, htext⟩ := h
    simp only [isInert, Bool.not_eq_true', Bool.or_eq_false_iff, beq_eq_false_iff_ne] at hc
    obtain ⟨⟨⟨⟨hdouble, hsingle⟩, hcomma⟩, hopening⟩, hclosing⟩ := hc
    exact .cons (.plain ⟨hdouble, hsingle⟩ hopening hclosing fun h => absurd h hcomma) (ih htext)

/-- What stands in matching brackets. -/
theorem bracketed (h : ∀ depth, Crosses (depth + 1) t) {o : Char} (ho : isOpening o = true)
    (hc : isClosing c = true) : Whole (o :: t ++ [c]) := fun depth => (h depth).bracketed ho hc

/-- A literal of a text, whatever stands in it. -/
theorem literal (hquote : quote = '\'' ∨ quote = '"') (cs : List Char) :
    Whole (literal shown quote cs) := by
  intro depth part rest
  have hbody : CrossesIn quote depth (body shown quote cs) :=
    .flatMap fun c _ => (escapedAs_escapeChar hquote c).crossesIn hquote
  have hmark : quote ≠ ',' ∧ isClosing quote = false ∧ quote ≠ '\\' := by
    rcases hquote with rfl | rfl <;> decide
  have hin : (Reading.code depth).next quote = .text quote depth := if_pos hquote.symm
  have hout : (Reading.text quote depth).next quote = .code depth := by
    rw [Reading.next, if_neg hmark.2.2, if_pos rfl]
  rw [Quoted.literal, List.cons_append, List.cons_append, partsFrom, if_neg fun h => hmark.1 h.2,
    if_neg fun h => by simp [hmark] at h, hin, List.append_assoc, hbody,
    List.singleton_append, partsFrom,
    if_neg fun h => Reading.noConfusion h.1, if_neg fun h => Reading.noConfusion h.1, hout]
  simp

end Whole

/-! ## Operands that are read back -/

/-- Characters that are one operand: they are crossed as a whole, and begin with no gap. -/
structure IsOperand (text : List Char) : Prop where
  whole : Whole text
  starts : ∃ c cs, text = c :: cs ∧ isGap c = false

namespace IsOperand

variable {text gap rest : List Char} {c : Char}

/-- What begins an operand is found after a gap. -/
theorem dropWhile_gap (h : IsOperand text) (hgap : gap.all isGap = true) :
    (gap ++ text).dropWhile isGap = text := by
  obtain ⟨d, cs, rfl, hd⟩ := h.starts
  rw [List.dropWhile_append_of_pos (List.all_eq_true.1 hgap),
    List.dropWhile_cons_of_neg (Bool.eq_false_iff.1 hd)]

theorem isEmpty (h : IsOperand text) : text.isEmpty = false := by
  obtain ⟨d, cs, rfl, -⟩ := h.starts
  rfl

end IsOperand

theorem whole_gap {gap : List Char} (h : gap.all isGap = true) : Whole gap := by
  refine .inert (List.all_eq_true.2 fun c hc => ?_)
  have hgap := List.all_eq_true.1 h c hc
  simp only [isGap, Bool.or_eq_true, beq_iff_eq] at hgap
  rcases hgap with rfl | rfl <;> rfl

section operands

variable {text g rest : List Char} {c : Char} {ps : List (List Char)}

/-- A comma ends a part that is passed as a whole. -/
theorem partsFrom_comma (h : Whole text) (rest : List Char) :
    partsFrom (.code 0) [] (text ++ ',' :: rest) =
      (partsFrom (.code 0) [] rest).map fun (ps, rest) => (text :: ps, rest) := by
  rw [h 0, partsFrom, if_pos ⟨rfl, rfl⟩, List.append_nil, List.reverse_reverse]

/-- A bracket that closes ends the last part. -/
theorem partsFrom_closing (h : Whole text) (hc : isClosing c = true) (rest : List Char) :
    partsFrom (.code 0) [] (text ++ c :: rest) = some ([text], rest) := by
  have hcomma : c ≠ ',' := by
    rintro rfl
    exact absurd hc (by decide)
  rw [h 0, partsFrom, if_neg fun hpart => hcomma hpart.2, if_pos ⟨rfl, hc⟩, List.append_nil,
    List.reverse_reverse]

/-- An operand with a comma after it. -/
theorem operands?_cons (h : IsOperand text) (hg : g.all isGap = true) (rest : List Char) :
    operands? (g ++ text ++ ',' :: rest) = (operands? rest).map fun (ps, rest) =>
      (text :: ps, rest) := by
  rw [operands?, operands?, partsFrom_comma ((whole_gap hg).append h.whole),
    Option.map_map, Option.map_map]
  refine congrArg (Option.map · _) (funext fun x => ?_)
  simp [h.dropWhile_gap hg, h.isEmpty]

/-- The last operand, with the bracket after it. -/
theorem operands?_last (h : IsOperand text) (hg : g.all isGap = true) (hc : isClosing c = true)
    (rest : List Char) : operands? (g ++ text ++ c :: rest) = some ([text], rest) := by
  rw [operands?, partsFrom_closing ((whole_gap hg).append h.whole) hc]
  simp [h.dropWhile_gap hg, h.isEmpty]

/-- There are no operands where the bracket follows. -/
theorem operands?_closing (hg : g.all isGap = true) (hc : isClosing c = true) (rest : List Char) :
    operands? (g ++ c :: rest) = some ([], rest) := by
  rw [operands?, partsFrom_closing (whole_gap hg) hc]
  simp [List.dropWhile_eq_nil_iff.2 (List.all_eq_true.1 hg)]

/-- Operands with commas between them. -/
theorem operands?_joined (hps : ∀ p ∈ ps, IsOperand p) (hc : isClosing c = true)
    (rest : List Char) : operands? ([',', ' '].intercalate ps ++ c :: rest) = some (ps, rest) := by
  have hjoined : ∀ {p} {ps : List (List Char)}, (∀ q ∈ p :: ps, IsOperand q) → ∀ g,
      g.all isGap = true → operands? (g ++ [',', ' '].intercalate (p :: ps) ++ c :: rest) =
        some (p :: ps, rest) := by
    intro p ps
    induction ps generalizing p with
    | nil =>
      intro hps g hg
      rw [List.intercalate_singleton]
      exact operands?_last (hps p List.mem_cons_self) hg hc rest
    | cons q ps ih =>
      intro hps g hg
      obtain ⟨hp, hps⟩ := List.forall_mem_cons.1 hps
      have hrest := ih hps [' '] rfl
      rw [List.intercalate_cons_cons]
      simp only [List.append_assoc, List.cons_append, List.nil_append] at hrest ⊢
      rw [← List.append_assoc, operands?_cons hp hg, hrest]
      rfl
  cases ps with
  | nil => exact operands?_closing (g := []) rfl hc rest
  | cons p ps => exact hjoined hps [] rfl

/-- Operands that stand on lines of their own, each with a comma after it. -/
theorem operands?_lines (hps : ∀ p ∈ ps, IsOperand p) {m n : List Char} (hm : m.all isGap = true)
    (hg : g.all isGap = true) (hn : n.all isGap = true) (hc : isClosing c = true)
    (rest : List Char) :
    operands? (g ++ (ps.flatMap (fun p => m ++ p ++ [',', '\n']) ++ (n ++ c :: rest))) =
      some (ps, rest) := by
  have happend : ∀ {gap}, gap.all isGap = true → (g ++ gap).all isGap = true := fun hgap => by
    rw [List.all_append, hg, hgap, Bool.true_and]
  induction ps generalizing g with
  | nil =>
    rw [List.flatMap_nil, List.nil_append, ← List.append_assoc]
    exact operands?_closing (happend hn) hc rest
  | cons p ps ih =>
    obtain ⟨hp, hps⟩ := List.forall_mem_cons.1 hps
    have hrest := ih hps (g := ['\n']) rfl fun hgap => hgap
    have hread := operands?_cons hp (happend hm)
      ('\n' :: (ps.flatMap (fun p => m ++ p ++ [',', '\n']) ++ (n ++ c :: rest)))
    rw [List.singleton_append] at hrest
    rw [hrest] at hread
    rw [List.flatMap_cons]
    simpa only [List.append_assoc, List.cons_append, List.nil_append, Option.map_some] using hread

end operands

/-! ## Calls and mappings that are read back -/

variable {ps : List (List Char)}

theorem dropPrefix?_append (front back : List Char) :
    (front ++ back).dropPrefix? front = some back :=
  List.dropPrefix?_eq_some_iff.2 ⟨front, rfl, BEq.rfl⟩

/-- A call is read as its operands. -/
theorem call?_joined (callee : String) (hps : ∀ p ∈ ps, IsOperand p) :
    call? callee ((callee ++ "(").toList ++ ([',', ' '].intercalate ps ++ [')'])) = some ps := by
  rw [call?, dropPrefix?_append]
  simp only [Option.bind_eq_bind, Option.bind_some, operands?_joined hps (c := ')') rfl]
  rfl

/-- Commas part nothing inside a bracket. -/
theorem crosses_joined (depth : Nat) (hps : ∀ p ∈ ps, Whole p) :
    Crosses (depth + 1) ([',', ' '].intercalate ps) := by
  have hcomma : Crosses (depth + 1) [',', ' '] :=
    (Crosses.plain (by decide) rfl rfl fun _ => Nat.succ_ne_zero depth).append
      (.plain (by decide) rfl rfl nofun)
  cases ps with
  | nil => exact .nil
  | cons p ps =>
    induction ps generalizing p with
    | nil =>
      rw [List.intercalate_singleton]
      exact hps p List.mem_cons_self _
    | cons q ps ih =>
      obtain ⟨hp, hps⟩ := List.forall_mem_cons.1 hps
      rw [List.intercalate_cons_cons]
      exact ((hp _).append hcomma).append (ih q hps)

/-- What stands in brackets after a name is passed as a whole, if the operands are. -/
theorem whole_bracketed (hps : ∀ p ∈ ps, Whole p) {o c : Char} (ho : isOpening o = true)
    (hc : isClosing c = true) : Whole (o :: [',', ' '].intercalate ps ++ [c]) :=
  .bracketed (fun depth => crosses_joined depth hps) ho hc

/-- A call is passed as a whole, whatever its operands are. -/
theorem whole_call {callee : List Char} (hcallee : callee.all Whole.isInert = true)
    (hps : ∀ p ∈ ps, Whole p) : Whole (callee ++ '(' :: [',', ' '].intercalate ps ++ [')']) := by
  rw [List.append_assoc]
  exact (Whole.inert hcallee).append (whole_bracketed hps rfl rfl)

/-! ### Calls as texts -/

/-- What stands in a call of the client is one operand. -/
theorem isOperand_call (callee : String) (hcallee : callee.toList.all Whole.isInert = true)
    (hstart : ∃ c cs, callee.toList = c :: cs ∧ isGap c = false) (args : List String)
    (hargs : ∀ a ∈ args.map String.toList, Whole a) :
    IsOperand (callee ++ "(" ++ ", ".intercalate args ++ ")").toList := by
  have hcall := whole_call hcallee hargs
  obtain ⟨c, cs, hcs, hc⟩ := hstart
  simp only [String.toList_append, String.toList_intercalate, List.append_assoc] at hcall ⊢
  refine ⟨hcall, ?_⟩
  rw [hcs]
  exact ⟨c, _, rfl, hc⟩

/-- A value with its keyword is one operand. -/
theorem isOperand_keyword (keyword : String) {value : String}
    (hkeyword : keyword.toList.all Whole.isInert = true)
    (hstart : ∃ c cs, keyword.toList = c :: cs ∧ isGap c = false) (hvalue : Whole value.toList) :
    IsOperand (keyword ++ "=" ++ value).toList := by
  obtain ⟨c, cs, hcs, hc⟩ := hstart
  rw [String.toList_append, String.toList_append]
  refine ⟨((Whole.inert hkeyword).append (.inert rfl)).append hvalue, ?_⟩
  rw [hcs]
  exact ⟨c, _, rfl, hc⟩

/-- The operands of a call are read back, as texts. -/
theorem call?_source (callee : String) {args : List String}
    (hargs : ∀ a ∈ args.map String.toList, IsOperand a) :
    call? callee (callee ++ "(" ++ ", ".intercalate args ++ ")").toList =
      some (args.map String.toList) := by
  have hcall := call?_joined callee hargs
  simp only [String.toList_append, String.toList_intercalate, List.append_assoc] at hcall ⊢
  exact hcall

/-- A keyword is parted from its value. -/
theorem keyworded_keyword (keyword : String)
    (hkeyword : keyword.toList.all isWordChar = true) (value : String) :
    keyworded (keyword ++ "=" ++ value).toList = (some keyword, value.toList) := by
  have htake : (keyword ++ "=" ++ value).toList.takeWhile isWordChar = keyword.toList := by
    rw [String.toList_append, String.toList_append, List.append_assoc,
      List.takeWhile_append_of_pos (List.all_eq_true.1 hkeyword)]
    exact List.append_nil _
  have hdrop : (keyword ++ "=" ++ value).toList.drop keyword.toList.length =
      '=' :: value.toList := by
    rw [String.toList_append, String.toList_append, List.append_assoc, List.drop_left]
    rfl
  simp only [keyworded, htake, hdrop, String.ofList_toList]

/-- What begins with no word, or with a word and no sign of equality after it, has no keyword. -/
theorem keyworded_none (word : List Char) {r : List Char} {c : Char}
    (hword : word.all isWordChar = true) (hc : isWordChar c = false) (hsign : c ≠ '=') :
    keyworded (word ++ c :: r) = (none, word ++ c :: r) := by
  have htake : (word ++ c :: r).takeWhile isWordChar = word := by
    rw [List.takeWhile_append_of_pos (List.all_eq_true.1 hword),
      List.takeWhile_cons_of_neg (Bool.eq_false_iff.1 hc), List.append_nil]
  simp only [keyworded, htake, List.drop_left]
  split
  · rename_i heq
    exact absurd (List.cons.inj heq).1 hsign
  · rfl

/-- A call has no keyword. -/
theorem keyworded_call (callee : String)
    (hcallee : callee.toList.all isWordChar = true) (s : String) :
    keyworded (callee ++ "(" ++ s).toList = (none, (callee ++ "(" ++ s).toList) := by
  have hnone := keyworded_none callee.toList (r := s.toList) hcallee (c := '(') rfl (by decide)
  simp only [String.toList_append, List.append_assoc] at hnone ⊢
  exact hnone

/-! ### Mappings -/

/-- The literals that a client is written with. -/
theorem toList_doubleQuoted (s : String) :
    (doubleQuoted s).toList = literal CharClass.isPrintable (clientQuote s.toList) s.toList := by
  rw [doubleQuoted, String.toList_ofList, clientLiteral_eq]

/-- A literal of the client is one operand. -/
theorem isOperand_doubleQuoted (s : String) : IsOperand (doubleQuoted s).toList := by
  rw [toList_doubleQuoted]
  have hquote := clientQuote_eq s.toList
  refine ⟨.literal hquote s.toList, _, _, rfl, ?_⟩
  rcases hquote with h | h <;> rw [h] <;> rfl

theorem keyworded_doubleQuoted (s : String) :
    keyworded (doubleQuoted s).toList = (none, (doubleQuoted s).toList) := by
  rw [toList_doubleQuoted, literal, List.cons_append]
  refine keyworded_none [] rfl ?_ ?_ <;>
  · rcases clientQuote_eq s.toList with h | h <;> rw [h] <;> decide

/-- A mapping is its entries between brackets. -/
theorem toList_mappingSource (entries : List (String × String)) :
    (mappingSource entries).toList = '\x7b' :: [',', ' '].intercalate
      (entries.map fun e => (doubleQuoted e.1).toList ++ ':' :: ' ' :: e.2.toList) ++ ['\x7d'] := by
  have hentries : (entries.map fun e => doubleQuoted e.1 ++ ": " ++ e.2).map String.toList =
      entries.map fun e => (doubleQuoted e.1).toList ++ ':' :: ' ' :: e.2.toList := by
    rw [List.map_map]
    refine List.map_congr_left fun e _ => ?_
    simp only [Function.comp_apply, String.toList_append, List.append_assoc]
    rfl
  show ("\x7b" ++ ", ".intercalate (entries.map fun e => doubleQuoted e.1 ++ ": " ++ e.2) ++
    "\x7d").toList = _
  rw [String.toList_append, String.toList_append, String.toList_intercalate, hentries]
  rfl

section mapping

variable {entries : List (String × String)}

/-- An entry of a mapping is read as its key and its value. -/
theorem pair?_text (key value : String) :
    pair? ((doubleQuoted key).toList ++ ':' :: ' ' :: value.toList) = some (key, value) := by
  have hquote := clientQuote_eq key.toList
  have hrest : (':' :: ' ' :: value.toList).head? ≠ some (clientQuote key.toList) := by
    rcases hquote with h | h <;> rw [h] <;> exact nofun
  have hdrop : (':' :: ' ' :: value.toList).dropPrefix? [':', ' '] = some value.toList :=
    dropPrefix?_append [':', ' '] _
  rw [pair?, toList_doubleQuoted, readText?_literal hquote _ hrest]
  simp only [Option.bind_eq_bind, Option.bind_some, hdrop, String.ofList_toList, Option.pure_def]

/-- An entry of a mapping is one operand. -/
theorem isOperand_entry {e : String × String} (h : Whole e.2.toList) :
    IsOperand ((doubleQuoted e.1).toList ++ ':' :: ' ' :: e.2.toList) := by
  obtain ⟨hwhole, c, cs, hcs, hc⟩ := isOperand_doubleQuoted e.1
  refine ⟨hwhole.append ?_, c, cs ++ ':' :: ' ' :: e.2.toList, by rw [hcs]; rfl, hc⟩
  exact (Whole.inert (t := [':', ' ']) rfl).append h

/-- The entries of a mapping are read back, whatever its keys are, if its values are passed as a
whole. -/
theorem entries?_mapping (h : ∀ e ∈ entries, Whole e.2.toList) :
    entries? (mappingSource entries).toList = some entries := by
  have hoperands : ∀ p ∈ entries.map fun e => (doubleQuoted e.1).toList ++ ':' :: ' ' :: e.2.toList,
      IsOperand p :=
    List.forall_mem_map.2 fun e he => isOperand_entry (h e he)
  have hdrop : ∀ cs : List Char, ('\x7b' :: cs).dropPrefix? ['\x7b'] = some cs :=
    dropPrefix?_append ['\x7b']
  have hread := operands?_joined hoperands (c := '\x7d') rfl []
  rw [entries?, toList_mappingSource, List.cons_append, hdrop]
  simp only [Option.bind_eq_bind, Option.bind_some, hread, List.isEmpty_nil, if_true]
  clear hread hoperands h
  induction entries with
  | nil => rfl
  | cons e entries ih => simp [pair?_text, ih]

/-- A mapping is one operand. -/
theorem isOperand_mapping (h : ∀ e ∈ entries, Whole e.2.toList) :
    IsOperand (mappingSource entries).toList := by
  rw [toList_mappingSource]
  refine ⟨whole_bracketed (List.forall_mem_map.2 fun e he => (isOperand_entry (h e he)).whole) rfl
    rfl, _, _, rfl, rfl⟩

end mapping

end Wadl.Source
