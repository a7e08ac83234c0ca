import Mathlib.Data.Bool.AllAny
import Wadl.Proofs.Text.Quoted
import Wadl.Source.Token

/-!
# Texts in source

`readText?` finds where a text in source ends, as the tokens of source do, and decodes the escapes
in it. What is written between the quotes is taken piece by piece: a piece leaves the text open
(`Passes`) and stands for some characters (`Spells`), whatever follows it. Each character that is
escaped is such a piece (`EscapedAs`), so that a text is read back from its literal, whichever
characters are shown as they are (`readText?_literal`); the literals of the generated client are
written in double quotes wherever that is possible (`clientLiteral_eq`), and stand on one line
(`clientLiteral_isLineText`).
-/

namespace Wadl.Source

open Quoted

/-! ## What a text denotes -/

/-- The character of some hexadecimal digits, and what follows them. -/
def codeAt? (width : Nat) (cs : List Char) : Option (List Char × List Char) :=
  let digits := cs.take width
  if digits.length = width ∧ digits.all (Digit.hexValue? · |>.isSome) ∧
    (Quoted.hexValue digits).isValidChar then
    some ([Char.ofNat (Quoted.hexValue digits)], cs.drop width)
  else none

/-- Octal digits. -/
def isOctal (c : Char) : Bool := '0' ≤ c && c ≤ '7'

/-- The character of up to three octal digits, of which the first is given, and what follows
them. -/
def octalAt (c : Char) (cs : List Char) : List Char × List Char :=
  let digits := c :: (cs.take 2).takeWhile isOctal
  ([Char.ofNat (digits.foldl (fun n d => 8 * n + (d.toNat - '0'.toNat)) 0)],
    cs.drop (digits.length - 1))

/-- What a backslash before these characters stands for, and what follows. An escape that is not
known stands for itself, and none is known that names a character. -/
def escapeAt? : List Char → Option (List Char × List Char)
  | [] => none
  | '\n' :: cs => some ([], cs)
  | '\\' :: cs => some (['\\'], cs)
  | '\'' :: cs => some (['\''], cs)
  | '"' :: cs => some (['"'], cs)
  | 'a' :: cs => some (['\x07'], cs)
  | 'b' :: cs => some (['\x08'], cs)
  | 't' :: cs => some (['\t'], cs)
  | 'n' :: cs => some (['\n'], cs)
  | 'v' :: cs => some (['\x0b'], cs)
  | 'f' :: cs => some (['\x0c'], cs)
  | 'r' :: cs => some (['\r'], cs)
  | 'x' :: cs => codeAt? 2 cs
  | 'u' :: cs => codeAt? 4 cs
  | 'U' :: cs => codeAt? 8 cs
  | 'N' :: _ => none
  | c :: cs => some (if isOctal c then octalAt c cs else (['\\', c], cs))

/-- The characters that stand between quotes, with their escapes decoded; each takes a step. -/
def decodeIn : (steps : Nat) → List Char → Option (List Char)
  | 0, _ => none
  | _ + 1, [] => some []
  | steps + 1, c :: cs =>
    if c = '\\' then (escapeAt? cs).bind fun (ds, rest) => (decodeIn steps rest).map (ds ++ ·)
    else (decodeIn steps cs).map (c :: ·)

/-- The characters that stand between quotes, with their escapes decoded. -/
def decode? (cs : List Char) : Option (List Char) := decodeIn (cs.length + 1) cs

/-- The characters of the text that source begins with, and what follows it. -/
def readText? : List Char → Option (List Char × List Char)
  | [] => none
  | quote :: cs =>
    if quote = '\'' ∨ quote = '"' then
      (textAfter quote cs).bind fun (body, rest) => (decode? body).map (·, rest)
    else none

/-- The places at which a character stands and no backslash escapes it. -/
def barePlaces (c : Char) : (place : Nat) → List Char → List Nat
  | _, [] => []
  | n, '\\' :: _ :: cs => barePlaces c (n + 2) cs
  | n, d :: cs => if d = c then n :: barePlaces c (n + 1) cs else barePlaces c (n + 1) cs

/-! ## Pieces -/

/-- Characters between quotes that stand for some characters, whatever follows them. -/
structure Spells (body cs : List Char) : Prop where
  length_le : cs.length ≤ body.length
  decodeIn_append : ∀ steps rest,
    decodeIn (cs.length + steps) (body ++ rest) = (decodeIn steps rest).map (cs ++ ·)

namespace Spells

variable {body body' cs cs' : List Char} {c : Char}

theorem nil : Spells [] [] where
  length_le := Nat.le_refl _
  decodeIn_append steps rest := by
    rw [List.length_nil, Nat.zero_add]
    exact Option.map_id'.symm

/-- What two bodies spell they spell in a row. -/
theorem append (h : Spells body cs) (h' : Spells body' cs') :
    Spells (body ++ body') (cs ++ cs') where
  length_le := by
    rw [List.length_append, List.length_append]
    exact Nat.add_le_add h.length_le h'.length_le
  decodeIn_append steps rest := by
    rw [List.length_append, Nat.add_assoc, List.append_assoc, h.decodeIn_append,
      h'.decodeIn_append, Option.map_map]
    exact congrArg (Option.map · _) (funext fun ds => (List.append_assoc ..).symm)

/-- A character stands for itself, but for the backslash. -/
theorem plain (h : c ≠ '\\') : Spells [c] [c] where
  length_le := Nat.le_refl _
  decodeIn_append steps rest := by
    rw [List.length_singleton, Nat.add_comm, List.singleton_append, decodeIn, if_neg h]
    rfl

/-- An escape that stands for one character. -/
theorem escape (h : ∀ rest, escapeAt? (body ++ rest) = some ([c], rest)) :
    Spells ('\\' :: body) [c] where
  length_le := by
    rw [List.length_singleton, List.length_cons]
    exact Nat.le_add_left 1 _
  decodeIn_append steps rest := by
    rw [List.length_singleton, Nat.add_comm, List.cons_append, decodeIn, if_pos rfl, h]
    rfl

/-- A text is spelled character by character. -/
theorem flatMap {f : Char → List Char} :
    ∀ {cs : List Char}, (∀ c ∈ cs, Spells (f c) [c]) → Spells (cs.flatMap f) cs
  | [], _ => nil
  | c :: cs, h => by
    obtain ⟨hc, hcs⟩ := List.forall_mem_cons.1 h
    exact hc.append (flatMap hcs)

/-- What stands between quotes is read as the characters that it stands for. -/
theorem decode (h : Spells body cs) : decode? body = some cs := by
  have hsteps : body.length + 1 = cs.length + (body.length - cs.length + 1) := by
    have := h.length_le
    omega
  have hread := h.decodeIn_append (body.length - cs.length + 1) []
  rw [List.append_nil] at hread
  rw [decode?, hsteps, hread, decodeIn, Option.map_some, List.append_nil]

end Spells

/-- Characters that leave a text between quotes open: `run` quotes stand in a row before them, and
`run'` at their end. -/
def Passes (quote : Char) (size run run' : Nat) (body : List Char) : Prop :=
  ∀ acc rest, textBody quote size run acc (body ++ rest) =
    textBody quote size run' (body.reverse ++ acc) rest

namespace Passes

variable {quote c : Char} {size run run' run'' : Nat} {body body' : List Char}

theorem nil : Passes quote size run run [] := fun _ _ => rfl

/-- Bodies that never close the text do not do so in a row. -/
theorem append (h : Passes quote size run run' body) (h' : Passes quote size run' run'' body') :
    Passes quote size run run'' (body ++ body') := by
  intro acc rest
  rw [List.append_assoc, h, h', List.reverse_append, List.append_assoc]

/-- An escape ends a run of quotes. -/
theorem escape (h : run ≠ size) : Passes quote size run 0 ['\\', c] := by
  intro acc rest
  rw [List.cons_append, List.cons_append, List.nil_append, textBody, if_neg h]
  rfl

/-- A character other than the quote ends a run of quotes. -/
theorem plain (hslash : c ≠ '\\') (hquote : c ≠ quote) (hline : size = 1 → c ≠ '\n') :
    Passes quote size run 0 [c] := by
  intro acc rest
  have hopen : ¬(decide (size = 1) && decide (c = '\n')) = true := by simpa using hline
  rw [List.singleton_append, textBody.eq_def]
  split
  · rename_i h
    cases h
  · rename_i h
    exact absurd (List.cons.inj h).1 hslash
  · rename_i h
    exact absurd (List.cons.inj h).1 hslash
  · rename_i h
    obtain ⟨rfl, rfl⟩ := List.cons.inj h
    rw [if_neg hopen, if_neg hquote]
    rfl

/-- Quotes that are too few do not close a text. -/
theorem quotes (run n : Nat) (h : run + n < 3) :
    Passes '"' 3 run (run + n) (List.replicate n '"') := by
  induction n generalizing run with
  | zero => exact nil
  | succ n ih =>
    have hone : Passes '"' 3 run (run + 1) ['"'] := by
      intro acc rest
      have hopen : run + 1 ≠ 3 := by omega
      rw [List.singleton_append, textBody, if_neg (by decide), if_pos rfl, if_neg hopen]
      · rfl
      -- a quote is no backslash
      · exact fun h => absurd h (by decide)
      · exact fun _ _ h => absurd h (by decide)
    rw [List.replicate_succ, show run + (n + 1) = run + 1 + n by omega]
    exact hone.append (ih (run + 1) (by omega))

theorem flatMap {f : Char → List Char} :
    ∀ {cs : List Char}, (∀ c ∈ cs, Passes quote size 0 0 (f c)) →
      Passes quote size 0 0 (cs.flatMap f)
  | [], _ => nil
  | c :: cs, h => by
    obtain ⟨hc, hcs⟩ := List.forall_mem_cons.1 h
    exact hc.append (flatMap hcs)

end Passes

/-! ## Escaped characters -/

variable {shown : Char → Bool} {quote : Char}

/-- The ways in which a character is written between quotes. -/
inductive EscapedAs (shown : Char → Bool) (quote c : Char) : List Char → Prop
  /-- A backslash and a character. -/
  | short (d : Char) (hd : d ∈ ['\\', '\'', '"', 't', 'n', 'r'])
      (hread : ∀ rest, escapeAt? (d :: rest) = some ([c], rest)) : EscapedAs shown quote c ['\\', d]
  /-- The character itself. -/
  | plain (hslash : c ≠ '\\') (hquote : c ≠ quote) (hline : c ≠ '\n') (hshown : shown c = true) :
      EscapedAs shown quote c [c]
  /-- Its number, after a letter that tells how many digits there are. -/
  | code (d : Char) (width : Nat) (hd : (d, width) ∈ [('x', 2), ('u', 4), ('U', 8)])
      (hfits : c.toNat < 16 ^ width) : EscapedAs shown quote c ('\\' :: d :: hex width c.toNat)

/-- Each character is written in one of the ways of an escape. -/
theorem escapedAs_escapeChar (hquote : quote = '\'' ∨ quote = '"') (c : Char) :
    EscapedAs shown quote c (escapeChar shown quote c) := by
  unfold escapeChar codeEscape
  split_ifs with hc ht hn hr hshown hx hu
  · have hmem : c = '\'' ∨ c = '"' ∨ c = '\\' := by
      rcases hc with rfl | rfl
      · exact hquote.imp_right Or.inl
      · exact Or.inr (Or.inr rfl)
    rcases hmem with rfl | rfl | rfl <;> exact .short _ (by decide) fun _ => rfl
  · subst ht
    exact .short 't' (by decide) fun _ => rfl
  · subst hn
    exact .short 'n' (by decide) fun _ => rfl
  · subst hr
    exact .short 'r' (by decide) fun _ => rfl
  · rw [not_or] at hc
    exact .plain hc.2 hc.1 hn hshown
  · exact .code 'x' 2 (by decide) hx
  · exact .code 'u' 4 (by decide) hu
  · exact .code 'U' 8 (by decide) c.val.toNat_lt

/-- What holds of all hexadecimal digits. -/
theorem forall_mem_hex {P : Char → Prop} (h : ∀ m < 16, P (Nat.digitChar m)) {width n : Nat} :
    ∀ d ∈ hex width n, P d := by
  induction width generalizing n with
  | zero => exact nofun
  | succ width ih =>
    rw [hex]
    exact List.forall_mem_append.2
      ⟨ih, List.forall_mem_singleton.2 (h _ (Nat.mod_lt n (by decide)))⟩

/-- A code in hexadecimal is read back, whatever follows. -/
theorem codeAt?_hex {width : Nat} {c : Char} (h : c.toNat < 16 ^ width) (rest : List Char) :
    codeAt? width (hex width c.toNat ++ rest) = some ([c], rest) := by
  have hdigits : (hex width c.toNat).all (Digit.hexValue? · |>.isSome) = true :=
    List.all_eq_true.2 (forall_mem_hex (by decide))
  have hchar : Char.ofNat c.toNat = c := Char.ofNat_toNat c
  rw [codeAt?, List.take_left' (length_hex width _), List.drop_left' (length_hex width _),
    hexValue_hex width h, if_pos ⟨length_hex width _, hdigits, c.valid⟩, hchar]

namespace EscapedAs

variable {c : Char} {text : List Char}

/-- An escaped character spells itself. -/
theorem spells (h : EscapedAs shown quote c text) : Spells text [c] := by
  cases h with
  | short d hd hread => exact .escape hread
  | plain hslash hquote hline hshown => exact .plain hslash
  | code d width hd hfits =>
    refine .escape fun rest => ?_
    simp only [List.mem_cons, Prod.mk.injEq, List.not_mem_nil, or_false] at hd
    rcases hd with ⟨rfl, rfl⟩ | ⟨rfl, rfl⟩ | ⟨rfl, rfl⟩ <;> exact codeAt?_hex hfits rest

/-- An escaped character never closes the text. -/
theorem passes (hquote : quote = '\'' ∨ quote = '"') (h : EscapedAs shown quote c text) :
    Passes quote 1 0 0 text := by
  cases h with
  | short d hd hread => exact .escape (by decide)
  | plain hslash hother hline hshown => exact .plain hslash hother fun _ => hline
  | code d width hd hfits =>
    have hdigit : ∀ e ∈ hex width c.toNat, e ≠ '\\' ∧ e ≠ quote ∧ e ≠ '\n' := by
      refine forall_mem_hex ?_
      rcases hquote with rfl | rfl <;> decide
    have hdigits : Passes quote 1 0 0 ((hex width c.toNat).flatMap fun e => [e]) :=
      .flatMap fun e he => .plain (hdigit e he).1 (hdigit e he).2.1 fun _ => (hdigit e he).2.2
    rw [List.flatMap_singleton'] at hdigits
    exact (Passes.escape (c := d) (by decide)).append hdigits

/-- What holds of the characters that escapes are written with holds of all that is written for a
character. -/
theorem forall_mem {P : Char → Prop}
    (hsign : ∀ d ∈ ['\\', '\'', '"', 't', 'n', 'r', 'x', 'u', 'U'], P d)
    (hdigit : ∀ m < 16, P (Nat.digitChar m)) (hshown : shown c = true → P c)
    (h : EscapedAs shown quote c text) : ∀ d ∈ text, P d := by
  have hslash : P '\\' := hsign _ List.mem_cons_self
  cases h with
  | short d hd hread =>
    have hall : ['\\', '\'', '"', 't', 'n', 'r'] ⊆
      ['\\', '\'', '"', 't', 'n', 'r', 'x', 'u', 'U'] := by decide
    exact List.forall_mem_cons.2 ⟨hslash, List.forall_mem_singleton.2 (hsign d (hall hd))⟩
  | plain _ hother hline hc => exact List.forall_mem_singleton.2 (hshown hc)
  | code d width hd hfits =>
    have hall : ∀ e ∈ [('x', 2), ('u', 4), ('U', 8)],
        e.1 ∈ ['\\', '\'', '"', 't', 'n', 'r', 'x', 'u', 'U'] := by
      decide
    exact List.forall_mem_cons.2
      ⟨hslash, List.forall_mem_cons.2 ⟨hsign d (hall _ hd), forall_mem_hex hdigit⟩⟩

/-- What is written for a character has no quote that is not escaped. -/
theorem barePlaces_append (hquote : quote = '\'' ∨ quote = '"')
    (h : EscapedAs shown quote c text) (n : Nat) (rest : List Char) :
    barePlaces quote n (text ++ rest) = barePlaces quote (n + text.length) rest := by
  have hplain : ∀ {ds : List Char} {n : Nat}, (∀ d ∈ ds, d ≠ '\\' ∧ d ≠ quote) →
      barePlaces quote n (ds ++ rest) = barePlaces quote (n + ds.length) rest := by
    intro ds
    induction ds with
    | nil => exact fun _ => rfl
    | cons d ds ih =>
      intro n hds
      obtain ⟨⟨hslash, hother⟩, hds⟩ := List.forall_mem_cons.1 hds
      rw [List.cons_append, barePlaces, if_neg hother, ih hds, List.length_cons,
        Nat.add_assoc, Nat.add_comm 1]
      rintro _ _ rfl
      exact absurd rfl hslash
  cases h with
  | short d hd hread => rfl
  | plain hslash hother hline hshown => exact hplain (List.forall_mem_singleton.2 ⟨hslash, hother⟩)
  | code d width hd hfits =>
    have hdigit : ∀ e ∈ hex width c.toNat, e ≠ '\\' ∧ e ≠ quote := by
      refine forall_mem_hex ?_
      rcases hquote with rfl | rfl <;> decide
    rw [List.cons_append, List.cons_append, barePlaces, hplain hdigit,
      List.length_cons, List.length_cons]
    congr 1
    omega

end EscapedAs

/-! ## Literals -/

theorem body_cons (c : Char) (cs : List Char) :
    body shown quote (c :: cs) = escapeChar shown quote c ++ body shown quote cs := rfl

/-- A body spells the text it was made of. -/
theorem spells_body (hquote : quote = '\'' ∨ quote = '"') (cs : List Char) :
    Spells (body shown quote cs) cs :=
  .flatMap fun c _ => (escapedAs_escapeChar hquote c).spells

theorem passes_body (hquote : quote = '\'' ∨ quote = '"') (cs : List Char) :
    Passes quote 1 0 0 (body shown quote cs) :=
  .flatMap fun c _ => (escapedAs_escapeChar hquote c).passes hquote

/-- A quote closes a text that began with one. -/
theorem textBody_quote (hquote : quote = '\'' ∨ quote = '"') (acc rest : List Char) :
    textBody quote 1 0 acc (quote :: rest) = some (acc.reverse, rest) := by
  rcases hquote with rfl | rfl <;> cases rest <;> rfl

/-- A literal ends at its quote, if no quote follows. -/
theorem textAfter_literal (hquote : quote = '\'' ∨ quote = '"') (cs : List Char) {rest : List Char}
    (hrest : rest.head? ≠ some quote) :
    textAfter quote (body shown quote cs ++ quote :: rest) = some (body shown quote cs, rest) := by
  have hbody : textBody quote 1 0 [] (body shown quote cs ++ quote :: rest) =
      some (body shown quote cs, rest) := by
    rw [passes_body hquote cs, textBody_quote hquote, List.append_nil, List.reverse_reverse]
  cases cs with
  | nil =>
    -- two quotes in a row are an empty text
    cases rest with
    | nil => exact hbody
    | cons c rest =>
      have hc : c ≠ quote := fun h => hrest (congrArg some h)
      show textAfter quote (quote :: c :: rest) = _
      rw [textAfter, if_pos rfl, if_neg hc]
      rfl
  | cons c cs =>
    rw [← hbody]
    have hhead : ∀ text, body shown quote (c :: cs) ++ quote :: rest ≠ quote :: text := by
      intro text
      rw [body_cons, List.append_assoc]
      exact escapeChar_ne_quote hquote c
    generalize body shown quote (c :: cs) ++ quote :: rest = text at hhead
    match text with
    | [] => rfl
    | [d] => rfl
    | d :: e :: text =>
      rw [textAfter, if_neg]
      rintro rfl
      exact hhead _ rfl

/-- A literal is read as the text that it is written for. -/
theorem readText?_literal (hquote : quote = '\'' ∨ quote = '"') (cs : List Char) {rest : List Char}
    (hrest : rest.head? ≠ some quote) :
    readText? (literal shown quote cs ++ rest) = some (cs, rest) := by
  rw [literal, List.cons_append, List.cons_append, List.append_assoc,
    List.singleton_append, readText?,
    if_pos hquote, textAfter_literal hquote cs hrest, Option.bind_some]
  simp only [(spells_body hquote cs).decode, Option.map_some]

/-- There is no bare quote in a body, so its end is found behind it. -/
theorem barePlaces_body (hquote : quote = '\'' ∨ quote = '"') (cs : List Char) (n : Nat)
    (rest : List Char) :
    barePlaces quote n (body shown quote cs ++ rest) =
      barePlaces quote (n + (body shown quote cs).length) rest := by
  induction cs generalizing n with
  | nil => rfl
  | cons c cs ih =>
    rw [body_cons, List.append_assoc, (escapedAs_escapeChar hquote c).barePlaces_append hquote, ih,
      List.length_append, Nat.add_assoc]

/-- The quote of a literal stands unescaped at its beginning and at its end only. -/
theorem barePlaces_literal (hquote : quote = '\'' ∨ quote = '"') (cs : List Char) :
    barePlaces quote 0 (literal shown quote cs) = [0, (literal shown quote cs).length - 1] := by
  have hslash : quote ≠ '\\' := by rcases hquote with rfl | rfl <;> decide
  have hquotes : ∀ n ds, barePlaces quote n (quote :: ds) = n :: barePlaces quote (n + 1) ds := by
    intro n ds
    rw [barePlaces, if_pos rfl]
    rintro _ _ rfl
    exact absurd rfl hslash
  rw [literal, List.cons_append, hquotes, barePlaces_body hquote, hquotes,
    barePlaces, List.length_cons, List.length_append, List.length_singleton, Nat.add_sub_cancel,
    Nat.zero_add, Nat.add_comm 1]

/-! ## Literals of the client -/

theorem bareQuotes_of_notMem {cs : List Char} (h : '\'' ∉ cs) : bareQuotes cs = cs := by
  induction cs using bareQuotes.induct with
  | case1 cs ih => exact absurd (List.mem_cons_of_mem _ List.mem_cons_self) h
  | case2 c cs hne ih =>
    rw [bareQuotes, ih fun hmem => h (List.mem_cons_of_mem c hmem)]
    exact hne
  | case3 => rfl

/-- A text without quotes is written alike between either. -/
theorem body_of_noQuotes {cs : List Char} (h : ∀ c ∈ cs, c ≠ '\'' ∧ c ≠ '"') :
    body shown '\'' cs = body shown '"' cs := by
  refine congrArg List.flatten (List.map_congr_left fun c hc => ?_)
  obtain ⟨hsingle, hdouble⟩ := h c hc
  simp only [escapeChar, hsingle, hdouble, false_or]

/-- Between double quotes a text without single quotes is written without them. -/
theorem notMem_body {cs : List Char} (h : '\'' ∉ cs) : '\'' ∉ body shown '"' cs := by
  intro hmem
  obtain ⟨c, hc, hmem⟩ := List.mem_flatMap.1 hmem
  have hother : c ≠ '\'' := fun heq => h (heq ▸ hc)
  unfold escapeChar codeEscape at hmem
  have hdigit : ∀ {width}, '\'' ∉ hex width c.toNat := fun hmem =>
    absurd rfl (forall_mem_hex (P := (· ≠ '\'')) (by decide) _ hmem)
  split_ifs at hmem <;> simp [Ne.symm hother, hdigit] at hmem

/-- The quote of a literal of the client: the double one, unless the text has double quotes. -/
def clientQuote (cs : List Char) : Char := if cs.contains '"' then preferredQuote cs else '"'

theorem clientQuote_eq (cs : List Char) : clientQuote cs = '\'' ∨ clientQuote cs = '"' := by
  unfold clientQuote
  split
  · exact preferredQuote_eq cs
  · exact Or.inr rfl

/-- Exchanging the quotes gives the literal in the quotes that are wanted. -/
theorem clientLiteral_eq (shown : Char → Bool) (cs : List Char) :
    clientLiteral shown cs = literal shown (clientQuote cs) cs := by
  by_cases hdouble : '"' ∈ cs
  · have hcontains : cs.contains '"' = true := by simpa using hdouble
    simp only [clientLiteral, clientQuote, hcontains, Bool.not_true, Bool.and_false,
      Bool.false_eq_true, if_false, if_true]
  · have hcontains : cs.contains '"' = false := by simpa using hdouble
    by_cases hsingle : '\'' ∈ cs
    · have hquote : preferredQuote cs = '"' := by simp [preferredQuote, hsingle, hdouble]
      simp only [clientLiteral, clientQuote, hcontains, hquote, literal]
      rfl
    · have hquote : preferredQuote cs = '\'' := by simp [preferredQuote, hsingle]
      have hbody : body shown '\'' cs = body shown '"' cs :=
        body_of_noQuotes fun c hc => ⟨fun h => hsingle (h ▸ hc), fun h => hdouble (h ▸ hc)⟩
      simp only [clientLiteral, clientQuote, hcontains, hquote, literal, hbody]
      simp [bareQuotes_of_notMem (notMem_body hsingle)]

/-- Source that is one text on one line: the quote with which it begins stands unescaped at its
beginning and its end only, and is the double one if the text has no double quotes. -/
structure IsLineText (source text : List Char) : Prop where
  noLineEnd : ∀ c ∈ source, Text.isLineEnd c = false
  quotes : ∃ quote, source.head? = some quote ∧ barePlaces quote 0 source = [0, source.length - 1]
  denotes : readText? source = some (text, [])
  double : '"' ∉ text → source.head? = some '"'

/-- A literal is a text on one line. -/
theorem isLineText_clientLiteral (hshown : ∀ c, Text.isLineEnd c = true → shown c = false)
    (cs : List Char) : IsLineText (clientLiteral shown cs) cs := by
  have hquote := clientQuote_eq cs
  rw [clientLiteral_eq]
  constructor
  · have hend : Text.isLineEnd (clientQuote cs) = false := by
      rcases hquote with h | h <;> rw [h] <;> rfl
    refine List.forall_mem_append.2 ⟨List.forall_mem_cons.2 ⟨hend, fun d hd => ?_⟩,
      List.forall_mem_singleton.2 hend⟩
    obtain ⟨c, -, hd⟩ := List.mem_flatMap.1 hd
    refine (escapedAs_escapeChar hquote c).forall_mem (P := fun d => Text.isLineEnd d = false)
      (List.all_iff_forall_prop.1 (by decide)) (by decide) (fun hc => ?_) d hd
    exact Bool.eq_false_iff.2 fun hend => absurd hc (Bool.eq_false_iff.1 (hshown c hend))
  · exact ⟨clientQuote cs, rfl, barePlaces_literal hquote cs⟩
  · have hread : readText? (literal shown (clientQuote cs) cs ++ []) = some (cs, []) :=
      readText?_literal hquote cs nofun
    rwa [List.append_nil] at hread
  · intro hdouble
    have hcontains : cs.contains '"' = false := by simpa using hdouble
    have hclient : clientQuote cs = '"' := by rw [clientQuote, hcontains]; rfl
    rw [hclient]
    rfl

/-- The line ends outside ASCII are not printed as they are. -/
theorem lookup_lineEnds :
    [0x85, 0x2028, 0x2029].all (fun n => CharClass.table.lookup (Char.ofNat n) = some 'U') =
      true := by
  -- the kernel walks the table as lists of characters, but not as a text, and slowly if they are
  -- joined from the left
  unfold CharClass.table RunTable.read
  simp only [String.toList_append, List.foldl_append]
  repeat rw [String.toList_ofList]
  decide +kernel

theorem isPrintable_of_isLineEnd {c : Char} (h : Text.isLineEnd c = true) :
    CharClass.isPrintable c = false := by
  simp only [Text.isLineEnd, Bool.or_eq_true, Bool.and_eq_true, decide_eq_true_iff, beq_iff_eq] at h
  by_cases hascii : c.toNat < 0x80
  · rw [CharClass.isPrintable, if_pos hascii, Bool.and_eq_false_iff, decide_eq_false_iff_not]
    exact Or.inl (by omega)
  · have hmem : c.toNat ∈ [0x85, 0x2028, 0x2029] := by
      simp only [List.mem_cons, List.not_mem_nil, or_false]
      omega
    have hlookup := of_decide_eq_true (List.all_eq_true.1 lookup_lineEnds _ hmem)
    rw [Char.ofNat_toNat] at hlookup
    rw [CharClass.isPrintable, if_neg hascii, CharClass.inClasses, hlookup]
    rfl

/-- Every text has a literal in the client that stands on one line and denotes the text, whichever
characters are shown as they are, as long as no line end is; so has it with those that are
printed. -/
theorem clientLiteral_isLineText (hshown : ∀ c, Text.isLineEnd c = true → shown c = false)
    (s : String) :
    IsLineText (clientLiteral shown s.toList) s.toList ∧
    IsLineText (doubleQuoted s).toList s.toList := by
  rw [doubleQuoted, String.toList_ofList]
  exact ⟨isLineText_clientLiteral hshown s.toList,
    isLineText_clientLiteral (fun _ => isPrintable_of_isLineEnd) s.toList⟩

/-- A text with both quotes, a backslash, a line end and a character outside ASCII, none of which is
shown. -/
theorem clientLiteral_isLineText_ascii :
    (∀ c, Text.isLineEnd c = true → isShownByte c = false) ∧
      clientLiteral isShownByte "a'\"\\\né".toList = "'a\\'\"\\\\\\n\\xe9'".toList ∧
      IsLineText "'a\\'\"\\\\\\n\\xe9'".toList "a'\"\\\né".toList := by
  have hshown : ∀ c, Text.isLineEnd c = true → isShownByte c = false := by
    intro c h
    simp only [Text.isLineEnd, Bool.or_eq_true, Bool.and_eq_true,
      decide_eq_true_iff, beq_iff_eq] at h
    rw [isShownByte, Bool.and_eq_false_iff, decide_eq_false_iff_not, decide_eq_false_iff_not]
    omega
  have htext : clientLiteral isShownByte "a'\"\\\né".toList = "'a\\'\"\\\\\\n\\xe9'".toList := by
    decide
  exact ⟨hshown, htext, htext ▸ (clientLiteral_isLineText hshown "a'\"\\\né").1⟩

end Wadl.Source
