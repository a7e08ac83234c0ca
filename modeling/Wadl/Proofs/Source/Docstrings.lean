import Wadl.Proofs.Source.Texts
import Wadl.Proofs.Text.Pieces
import Wadl.Source.Docstring

/-!
# Documentation read back

Between its quotes a documentation is written run by run: backslashes are doubled, and a run of
quotes is written as `quotedRun`, which escapes three quotes at a time and leaves at most two as
they are. So all but the quotes at the end stays open and stands for itself (`exists_opened`). A
last quote that was left is escaped (`wellClosed`); one that is escaped already is escaped once
more, which frees it (`illClosed`). Documentation is read back unless the quotes at its end are
escaped to the last (`docstring_denotes_iff`).
-/

namespace Wadl.Source

open Docstring

/-! ## Runs of quotes -/

/-- The number of quotes at the end. -/
def quotesAtEnd (cs : List Char) : Nat := (cs.reverse.takeWhile (· = '"')).length

/-- Characters end in quotes that can be taken three by three. -/
def EndsInTriples (cs : List Char) : Prop := 0 < quotesAtEnd cs ∧ quotesAtEnd cs % 3 = 0

instance (cs : List Char) : Decidable (EndsInTriples cs) := inferInstanceAs (Decidable (_ ∧ _))

/-- Three quotes, each of them escaped. -/
def escapedTriple : List Char := ['\\', '"', '\\', '"', '\\', '"']

/-- A run of quotes in documentation. -/
def quotedRun : Nat → List Char
  | n + 3 => escapedTriple ++ quotedRun n
  | n => List.replicate n '"'

theorem replicate_three_add (n : Nat) :
    List.replicate (n + 3) '"' = ['"', '"', '"'] ++ List.replicate n '"' := rfl

/-- A run of quotes is escaped as far as it goes. -/
theorem escapeTriples_replicate (n : Nat) (rest : List Char) (h : rest.head? ≠ some '"') :
    escapeTriples (List.replicate n '"' ++ rest) = quotedRun n ++ escapeTriples rest := by
  have hrest : ∀ cs, rest ≠ '"' :: cs := fun cs heq => h (congrArg List.head? heq)
  induction n using quotedRun.induct with
  | case1 n ih =>
    rw [replicate_three_add, List.append_assoc, quotedRun, List.append_assoc, ← ih]
    rfl
  | case2 n hn =>
    match n with
    | 0 => rfl
    | 1 =>
      show escapeTriples ('"' :: rest) = '"' :: escapeTriples rest
      rw [escapeTriples]
      exact fun cs _ => hrest _
    | 2 =>
      show escapeTriples ('"' :: '"' :: rest) = '"' :: '"' :: escapeTriples rest
      rw [escapeTriples, escapeTriples]
      · exact fun cs _ => hrest _
      · exact fun cs _ heq => hrest cs (List.cons.inj heq).2
    | n + 3 => exact absurd rfl (hn n)

/-- Three escaped quotes never close a text in triple quotes. -/
theorem passes_escapedTriple {run : Nat} (h : run ≠ 3) : Passes '"' 3 run 0 escapedTriple :=
  ((Passes.escape h).append (.escape (by decide))).append (.escape (by decide))

theorem spells_quote : Spells ['\\', '"'] ['"'] := .escape fun _ => rfl

/-- Three escaped quotes stand for three quotes. -/
theorem spells_escapedTriple : Spells escapedTriple ['"', '"', '"'] :=
  (spells_quote.append spells_quote).append spells_quote

/-- After a run of quotes in triples, what is left over counts towards an end. -/
theorem passes_quotedRun (n : Nat) : Passes '"' 3 0 (n % 3) (quotedRun n) := by
  induction n using quotedRun.induct with
  | case1 n ih =>
    rw [quotedRun, show n.succ.succ.succ % 3 = n % 3 from Nat.add_mod_right n 3]
    exact (passes_escapedTriple (by decide)).append ih
  | case2 n hn =>
    have hlt : n < 3 := Nat.lt_of_not_le fun hle => hn (n - 3) (by omega)
    have hpasses := Passes.quotes 0 n (by omega)
    rw [quotedRun, Nat.mod_eq_of_lt hlt]
    · rwa [Nat.zero_add] at hpasses
    · exact hn

theorem spells_replicate (n : Nat) : Spells (List.replicate n '"') (List.replicate n '"') := by
  induction n with
  | zero => exact .nil
  | succ n ih => exact (Spells.plain (by decide)).append ih

/-- A run of quotes, its triples escaped, stands for that run. -/
theorem spells_quotedRun (n : Nat) : Spells (quotedRun n) (List.replicate n '"') := by
  induction n using quotedRun.induct with
  | case1 n ih =>
    rw [quotedRun, replicate_three_add]
    exact spells_escapedTriple.append ih
  | case2 n hn =>
    rw [quotedRun]
    · exact spells_replicate n
    · exact hn

/-- A quote that completes no three of them is left as it is. -/
theorem quotedRun_succ {n : Nat} (h : (n + 1) % 3 ≠ 0) :
    quotedRun (n + 1) = quotedRun n ++ ['"'] := by
  induction n using quotedRun.induct with
  | case1 n ih =>
    have hn : (n + 1) % 3 ≠ 0 := by omega
    rw [show n + 3 + 1 = n + 1 + 3 by omega, quotedRun, quotedRun, ih hn, List.append_assoc]
  | case2 n hn =>
    match n with
    | 0 => rfl
    | 1 => rfl
    | 2 => exact absurd rfl h
    | n + 3 => exact absurd rfl (hn n)

/-- A quote that completes three of them is escaped, and so are those before it. -/
theorem quotedRun_succ_escaped {n : Nat} (h : (n + 1) % 3 = 0) :
    ∃ body, quotedRun (n + 1) = body ++ ['\\', '"'] ∧
    Passes '"' 3 0 0 body ∧ Spells body (List.replicate n '"') := by
  induction n using quotedRun.induct with
  | case1 n ih =>
    obtain ⟨body, hbody, hpasses, hspells⟩ := ih (by omega)
    refine ⟨escapedTriple ++ body, ?_, (passes_escapedTriple (by decide)).append hpasses,
      spells_escapedTriple.append hspells⟩
    rw [show n + 3 + 1 = n + 1 + 3 by omega, quotedRun, hbody, List.append_assoc]
  | case2 n hn =>
    match n with
    | 2 =>
      exact ⟨['\\', '"', '\\', '"'], rfl, (Passes.escape (by decide)).append (.escape (by decide)),
        spells_quote.append spells_quote⟩
    | n + 3 => exact absurd rfl (hn n)

/-! ## Texts in runs -/

/-- Characters cut at their quotes: runs of quotes with a character after each that is none, and the
quotes at the end. -/
inductive InRuns : List Char → Nat → Prop
  | quotes (n : Nat) : InRuns (List.replicate n '"') n
  | run (n : Nat) {c : Char} (hc : c ≠ '"') {cs : List Char} {last : Nat} (hcs : InRuns cs last) :
    InRuns (List.replicate n '"' ++ c :: cs) last

/-- Each text falls into runs of quotes and characters between them. -/
theorem exists_inRuns (cs : List Char) : ∃ last, InRuns cs last := by
  induction cs with
  | nil => exact ⟨0, .quotes 0⟩
  | cons c cs ih =>
    obtain ⟨last, h⟩ := ih
    by_cases hc : c = '"'
    · subst hc
      cases h with
      | quotes => exact ⟨last + 1, .quotes (last + 1)⟩
      | run n hd hds => exact ⟨last, .run (n + 1) hd hds⟩
    · exact ⟨last, .run 0 hc h⟩

/-- Only the quotes after the last other character count. -/
theorem quotesAtEnd_append_cons {c : Char} (hc : c ≠ '"') (cs ds : List Char) :
    quotesAtEnd (cs ++ c :: ds) = quotesAtEnd ds := by
  have hstop : (c :: cs.reverse).takeWhile (· = '"') = [] :=
    List.takeWhile_cons_of_neg (by simpa using hc)
  rw [quotesAtEnd, quotesAtEnd, List.reverse_append, List.reverse_cons, List.append_assoc,
    List.singleton_append, List.takeWhile_append, hstop, List.append_nil]
  split_ifs with hall
  · exact hall.symm
  · rfl

/-- The last run is what a text ends with. -/
theorem InRuns.quotesAtEnd_eq {cs : List Char} {last : Nat} (h : InRuns cs last) :
    quotesAtEnd cs = last := by
  induction h with
  | quotes n =>
    rw [quotesAtEnd, List.reverse_replicate, List.takeWhile_replicate, if_pos (by decide),
      List.length_replicate]
  | run n hc hcs ih => rw [quotesAtEnd_append_cons hc, ih]

/-- A character other than the quote in documentation. -/
def plainChar (c : Char) : List Char := if c = '\\' then ['\\', '\\'] else [c]

theorem doubleBackslashes_run (n : Nat) (c : Char) (cs : List Char) :
    doubleBackslashes (List.replicate n '"' ++ c :: cs) =
      List.replicate n '"' ++ (plainChar c ++ doubleBackslashes cs) := by
  induction n with
  | zero => rfl
  | succ n ih =>
    rw [List.replicate_succ, List.cons_append, List.cons_append, ← ih]
    rfl

theorem doubleBackslashes_replicate (n : Nat) :
    doubleBackslashes (List.replicate n '"') = List.replicate n '"' := by
  induction n with
  | zero => rfl
  | succ n ih =>
    rw [List.replicate_succ]
    exact congrArg ('"' :: ·) ih

section plainChar

variable {c : Char} (hc : c ≠ '"')

include hc

/-- Away from quotes, escaping triples goes on with the next character. -/
theorem escapeTriples_cons (cs : List Char) : escapeTriples (c :: cs) = c :: escapeTriples cs := by
  rw [escapeTriples]
  rintro _ rfl
  exact absurd rfl hc

theorem escapeTriples_plainChar (cs : List Char) :
    escapeTriples (plainChar c ++ cs) = plainChar c ++ escapeTriples cs := by
  unfold plainChar
  split_ifs with hslash
  · rw [List.cons_append, List.singleton_append, escapeTriples_cons (by decide),
      escapeTriples_cons (by decide)]
    rfl
  · exact escapeTriples_cons hc cs

theorem head?_plainChar (cs : List Char) : (plainChar c ++ cs).head? ≠ some '"' := by
  unfold plainChar
  split_ifs
  · exact fun h => absurd (Option.some.inj h) (by decide)
  · exact fun h => hc (Option.some.inj h)

/-- An escaped character does not end with a quote, so it starts a run anew. -/
theorem getLast?_plainChar : ∃ d, (plainChar c).getLast? = some d ∧ d ≠ '"' := by
  unfold plainChar
  split_ifs
  · exact ⟨'\\', rfl, by decide⟩
  · exact ⟨c, rfl, hc⟩

/-- A character that is not a quote crosses a text in triple quotes. -/
theorem passes_plainChar {run : Nat} (h : run ≠ 3) : Passes '"' 3 run 0 (plainChar c) := by
  unfold plainChar
  split_ifs with hslash
  · exact .escape h
  · exact .plain hslash hc fun h => absurd h (by decide)

end plainChar

/-- An escaped character stands for itself. -/
theorem spells_plainChar (c : Char) : Spells (plainChar c) [c] := by
  unfold plainChar
  split_ifs with hslash
  · subst hslash
    exact .escape fun _ => rfl
  · exact .plain hslash

/-- All before the quotes at the end stays open and stands for itself. -/
theorem InRuns.exists_opened {cs : List Char} {last : Nat} (h : InRuns cs last) : ∃ text body,
    cs = text ++ List.replicate last '"' ∧ escapeTriples (doubleBackslashes cs) =
      body ++ quotedRun last ∧ Passes '"' 3 0 0 body ∧ Spells body text ∧
      body.getLast? ≠ some '"' := by
  induction h with
  | quotes n =>
    have hescaped := escapeTriples_replicate n [] nofun
    rw [List.append_nil, escapeTriples, List.append_nil] at hescaped
    refine ⟨[], [], rfl, ?_, .nil, .nil, nofun⟩
    rw [doubleBackslashes_replicate, hescaped, List.nil_append]
  | @run n c hc cs last hcs ih =>
    obtain ⟨text, body, htext, hbody, hpasses, hspells, hlast⟩ := ih
    refine ⟨List.replicate n '"' ++ ([c] ++ text), quotedRun n ++ (plainChar c ++ body),
      ?_, ?_, ?_, ?_, ?_⟩
    · rw [List.append_assoc, List.append_assoc, ← htext, List.singleton_append]
    · rw [doubleBackslashes_run, escapeTriples_replicate n _ (head?_plainChar hc _),
        escapeTriples_plainChar hc, hbody, List.append_assoc, List.append_assoc]
    · exact (passes_quotedRun n).append ((passes_plainChar hc (by omega)).append hpasses)
    · exact (spells_quotedRun n).append ((spells_plainChar c).append hspells)
    · obtain ⟨d, hd, hother⟩ := getLast?_plainChar hc
      rw [List.getLast?_append, List.getLast?_append, hd]
      cases hbody' : body.getLast? with
      | none => exact fun heq => hother (Option.some.inj heq)
      | some e =>
        rw [hbody'] at hlast
        exact hlast

/-! ## The quotes at the end -/

/-- A quote at the very end is escaped, since it would run into the closing ones. -/
theorem escapeLast_append_quote (cs : List Char) :
    escapeLast (cs ++ ['"']) = cs ++ ['\\', '"'] := by
  induction cs with
  | nil => rfl
  | cons c cs ih =>
    rw [List.cons_append, escapeLast, ih, List.cons_append]
    exact fun _ hnil => absurd hnil (List.append_ne_nil_of_right_ne_nil _ nofun)

theorem escapeLast_eq_self {cs : List Char} (h : cs.getLast? ≠ some '"') : escapeLast cs = cs := by
  induction cs using escapeLast.induct with
  | case1 => rfl
  | case2 => exact absurd rfl h
  | case3 c cs hne ih =>
    rw [escapeLast, ih]
    · intro hlast
      refine h ?_
      rw [List.getLast?_cons, hlast, Option.getD_some]
    · exact hne

variable {cs : List Char}

/-- Unless all the quotes at its end are escaped, documentation stays open and stands for itself. -/
theorem wellClosed (h : ¬EndsInTriples cs) : Passes '"' 3 0 0 (body cs) ∧ Spells (body cs) cs := by
  obtain ⟨last, hruns⟩ := exists_inRuns cs
  obtain ⟨text, inner, htext, hinner, hpasses, hspells, hlast⟩ := hruns.exists_opened
  rw [EndsInTriples, hruns.quotesAtEnd_eq] at h
  rw [body, hinner]
  cases last with
  | zero =>
    rw [show quotedRun 0 = [] from rfl, List.append_nil, escapeLast_eq_self hlast]
    rw [show List.replicate 0 '"' = [] from rfl, List.append_nil] at htext
    exact ⟨hpasses, htext ▸ hspells⟩
  | succ n =>
    have hleft : (n + 1) % 3 ≠ 0 := fun hmod => h ⟨Nat.succ_pos n, hmod⟩
    rw [quotedRun_succ hleft, ← List.append_assoc, escapeLast_append_quote,
      List.append_assoc, htext, List.replicate_succ']
    exact ⟨hpasses.append ((passes_quotedRun n).append (.escape (by omega))),
      hspells.append ((spells_quotedRun n).append spells_quote)⟩

/-- If all the quotes at its end are escaped, then the last one is freed, and a backslash stands in
its place. -/
theorem illClosed (h : EndsInTriples cs) :
    ∃ inner text, body cs = inner ++ ['"'] ∧ text.length = cs.length ∧
    Passes '"' 3 0 0 inner ∧ Spells inner text := by
  obtain ⟨last, hruns⟩ := exists_inRuns cs
  obtain ⟨text, before, htext, hbefore, hpasses, hspells, -⟩ := hruns.exists_opened
  rw [EndsInTriples, hruns.quotesAtEnd_eq] at h
  obtain ⟨n, rfl⟩ : ∃ n, last = n + 1 := ⟨last - 1, by omega⟩
  obtain ⟨escaped, hescaped, hpasses', hspells'⟩ := quotedRun_succ_escaped h.2
  refine ⟨before ++ (escaped ++ ['\\', '\\']), text ++ (List.replicate n '"' ++ ['\\']), ?_, ?_,
    hpasses.append (hpasses'.append (.escape (by decide))),
    hspells.append (hspells'.append (.escape fun _ => rfl))⟩
  · have hlast : before ++ (escaped ++ ['\\', '"']) = (before ++ (escaped ++ ['\\'])) ++ ['"'] := by
      rw [List.append_assoc, List.append_assoc]
      rfl
    rw [body, hbefore, hescaped, hlast, escapeLast_append_quote]
    simp only [List.append_assoc, List.cons_append, List.nil_append]
  · rw [htext]
    simp only [List.length_append, List.length_replicate, List.length_singleton]

/-- Documentation has no other characters than its text, but for what escapes. -/
theorem mem_body {c : Char} (hslash : c ≠ '\\') (hquote : c ≠ '"') : c ∈ body cs ↔ c ∈ cs := by
  have hlast : ∀ ds, c ∈ escapeLast ds ↔ c ∈ ds := by
    intro ds
    induction ds using escapeLast.induct with
    | case1 => rfl
    | case2 => simp [escapeLast, hslash, hquote]
    | case3 d ds hne ih =>
      rw [escapeLast, List.mem_cons, List.mem_cons, ih]
      exact hne
  have htriples : ∀ ds, c ∈ escapeTriples ds ↔ c ∈ ds := by
    intro ds
    induction ds using escapeTriples.induct with
    | case1 ds ih => simp [escapeTriples, hslash, hquote, ih]
    | case2 d ds hne ih =>
      rw [escapeTriples, List.mem_cons, List.mem_cons, ih]
      exact hne
    | case3 => rfl
  have hdoubled : c ∈ doubleBackslashes cs ↔ c ∈ cs := by
    simp only [doubleBackslashes, List.mem_flatMap]
    constructor
    · rintro ⟨d, hd, hmem⟩
      split_ifs at hmem with hd'
      · exact absurd hmem (by simp [hslash])
      · exact List.mem_singleton.1 hmem ▸ hd
    · intro hc
      exact ⟨c, hc, by rw [if_neg hslash]; exact List.mem_singleton_self c⟩
  rw [body, hlast, htriples, hdoubled]

/-! ## Documentation -/

/-- The characters of the text that is all of some source. -/
def sourceText? (source : String) : Option (List Char) :=
  let cs := Text.unifyLineEnds source.toList
  if cs.contains '\x00' then none
  else
    match readText? cs with
    | some (text, []) => some text
    | _ => none

/-- What documentation is to denote: its text, with a line end after it if it has several lines. -/
def documented (cs : List Char) : List Char := cs ++ if '\n' ∈ cs then ['\n'] else []

/-- Characters between three quotes on either side. -/
def tripleQuoted (cs : List Char) : List Char := ['"', '"', '"'] ++ cs ++ ['"', '"', '"']

/-- What stands between three quotes and leaves the text open denotes what it spells. -/
theorem readText?_tripleQuoted {inner text : List Char} (hpasses : Passes '"' 3 0 0 inner)
    (hspells : Spells inner text) (rest : List Char) :
    readText? (tripleQuoted inner ++ rest) = some (text, rest) := by
  have hclose : textBody '"' 3 0 [] (inner ++ '"' :: '"' :: '"' :: rest) = some (inner, rest) := by
    rw [hpasses, List.append_nil]
    show some ((('"' :: '"' :: inner.reverse).drop 2).reverse, rest) = _
    rw [List.drop_succ_cons, List.drop_succ_cons, List.drop_zero, List.reverse_reverse]
  rw [tripleQuoted, List.append_assoc, List.append_assoc]
  show (textBody '"' 3 0 [] (inner ++ '"' :: '"' :: '"' :: rest)).bind _ = _
  rw [hclose, Option.bind_some]
  simp only [hspells.decode, Option.map_some]

/-- A quote before the closing ones is taken for the first of them, and the last one is left
over. -/
theorem tripleQuoted_quote (inner : List Char) :
    tripleQuoted (inner ++ ['"']) = tripleQuoted inner ++ ['"'] := by
  simp only [tripleQuoted, List.append_assoc, List.cons_append, List.nil_append]

/-- The end of a line leaves a text between three quotes open. -/
theorem passes_lineEnd {run : Nat} : Passes '"' 3 run 0 ['\n'] :=
  .plain (by decide) (by decide) fun h => absurd h (by decide)

theorem spells_lineEnd : Spells ['\n'] ['\n'] := .plain (by decide)

/-- The characters between the quotes of documentation. -/
def docBody (cs : List Char) : List Char := body cs ++ if '\n' ∈ cs then ['\n'] else []

/-- What is written between triple quotes reads back as the documentation just if it does not end in
an escaped triple, of which the last quote would be escaped twice. -/
theorem readText?_docBody_iff :
    readText? (tripleQuoted (docBody cs)) = some (documented cs, []) ↔ ¬EndsInTriples cs := by
  constructor
  · intro hread h
    obtain ⟨inner, text, hbody, hlength, hpasses, hspells⟩ := illClosed h
    rw [docBody, documented, hbody, ← List.append_nil (tripleQuoted _)] at hread
    split_ifs at hread with hline
    · -- the freed quote stands for itself, so that the text is too long
      have hpasses' := (hpasses.append (.quotes 0 1 (by decide))).append passes_lineEnd
      have hspells' := (hspells.append (spells_replicate 1)).append spells_lineEnd
      rw [show ['"'] = List.replicate 1 '"' from rfl,
        readText?_tripleQuoted hpasses' hspells'] at hread
      have hlengths := congrArg (·.map (·.1.length)) hread
      simp only [Option.map_some, List.length_append, List.length_replicate,
        List.length_singleton, hlength, Option.some.injEq] at hlengths
      omega
    · rw [List.append_nil, List.append_nil, tripleQuoted_quote,
        readText?_tripleQuoted hpasses hspells] at hread
      cases hread
  · intro h
    obtain ⟨hpasses, hspells⟩ := wellClosed h
    rw [docBody, documented, ← List.append_nil (tripleQuoted _)]
    split_ifs with hline
    · exact readText?_tripleQuoted (hpasses.append passes_lineEnd)
        (hspells.append spells_lineEnd) []
    · rw [List.append_nil, List.append_nil, List.append_nil, ← List.append_nil (tripleQuoted _)]
      exact readText?_tripleQuoted hpasses hspells []

/-- Escaping adds and takes away backslashes, quotes and line ends only. -/
theorem mem_docBody {c : Char} (hslash : c ≠ '\\') (hquote : c ≠ '"') (hline : c ≠ '\n') :
    c ∈ docBody cs ↔ c ∈ cs := by
  unfold docBody
  split_ifs
  · rw [List.mem_append, mem_body hslash hquote, List.mem_singleton, or_iff_left hline]
  · rw [List.append_nil, mem_body hslash hquote]

theorem docstring_eq {text : String} (h : trimmed text ≠ "") :
    docstring text = some (String.ofList (tripleQuoted (docBody (trimmed text).toList))) := by
  have hcs : (trimmed text).toList = Text.trimList Text.isBlank text.toList := String.toList_ofList
  have hempty : (Text.trimList Text.isBlank text.toList).isEmpty = false := by
    rw [← hcs, List.isEmpty_eq_false_iff]
    exact fun hnil => h (String.toList_inj.1 hnil)
  rw [hcs, docstring]
  simp only [hempty, Bool.false_eq_true, if_false, Option.some.injEq]
  rw [← String.toList_inj]
  simp only [String.toList_append, String.toList_ofList, tripleQuoted, docBody,
    List.contains_iff_mem, mem_body (show '\n' ≠ '\\' by decide) (show '\n' ≠ '"' by decide)]
  split_ifs <;> simp

/-- Documentation of a text without carriage returns is one text between three quotes. It denotes
what it is to denote just if the text has no null character and does not end in quotes that can be
taken three by three. -/
theorem docstring_denotes_iff (text : String) (hne : trimmed text ≠ "")
    (hreturn : '\r' ∉ (trimmed text).toList) :
    ∃ source, docstring text = some source ∧ source.toList.take 3 = ['"', '"', '"'] ∧
      (sourceText? source = some (documented (trimmed text).toList) ↔
        '\x00' ∉ (trimmed text).toList ∧ ¬EndsInTriples (trimmed text).toList) := by
  refine ⟨_, docstring_eq hne, by rw [String.toList_ofList]; rfl, ?_⟩
  generalize (trimmed text).toList = cs at hreturn
  have hmem : ∀ c, c ≠ '\\' → c ≠ '"' → c ≠ '\n' → (c ∈ tripleQuoted (docBody cs) ↔ c ∈ cs) := by
    intro c hslash hquote hline
    simp only [tripleQuoted, List.mem_append, List.mem_cons, hquote, List.not_mem_nil,
      or_false, false_or, mem_docBody hslash hquote hline]
  have hunified : Text.unifyLineEnds (tripleQuoted (docBody cs)) = tripleQuoted (docBody cs) :=
    Text.unifyLineEnds_eq_self.2 fun h =>
      hreturn ((hmem '\r' (by decide) (by decide) (by decide)).1 h)
  rw [sourceText?, String.toList_ofList, hunified, ← readText?_docBody_iff]
  simp only [List.contains_iff_mem, hmem '\x00' (by decide) (by decide) (by decide)]
  split_ifs with hnull
  · exact ⟨nofun, fun h => absurd hnull h.1⟩
  · rw [and_iff_right hnull]
    split
    · rename_i text hread
      rw [hread]
      simp
    · rename_i hread
      exact ⟨nofun, fun h => absurd h (hread _)⟩

/-- A quoted word at the end is read back, three quotes alone are not. -/
theorem docstring_denotes_quotes :
    (∃ source, docstring "say \"hi\"" = some source ∧
      sourceText? source = some "say \"hi\"".toList) ∧
      ∃ source, docstring "\"\"\"" = some source ∧ sourceText? source ≠ some "\"\"\"".toList := by
  obtain ⟨source, hsource, -, hiff⟩ := docstring_denotes_iff "say \"hi\"" (by decide) (by decide)
  obtain ⟨source', hsource', -, hiff'⟩ := docstring_denotes_iff "\"\"\"" (by decide) (by decide)
  refine ⟨⟨source, hsource, hiff.2 (by decide)⟩, source', hsource', fun h => ?_⟩
  exact absurd (hiff'.1 h) (by decide)

end Wadl.Source
