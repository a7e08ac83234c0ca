import Mathlib.Data.List.Basic
import Wadl.Client.Printer
import Wadl.Wire.Answer

/-!
# The script that handles a response

What an operation does with a response is a script of statements: tests of its status and its media
type, and returns and raises. `Statement.run` says with which of these the handling of a response
ends. The script of an operation has a statement for each branch (`Branch.statement`), and its text
is what stands at the end of the operation's source (`Operation.script_suffix_lines`). A run takes
the first branch whose test the response passes (`run_responseScript`), in it the first form that
the response fits (`run_formScript`).
-/

namespace Wadl

/-! ## Statements -/

/-- A test of a response. -/
inductive ResponseTest where
  /-- The status is one of success. -/
  | succeeds
  | hasStatus (statuses : List Int)
  | hasMediaType (mediaType : String)
  deriving DecidableEq, Repr

/-- Whether a response passes a test. -/
def ResponseTest.holds (a : Answer) : ResponseTest → Bool
  | succeeds => decide (200 ≤ a.status ∧ a.status < 300)
  | hasStatus statuses => statuses.contains a.status
  | hasMediaType mediaType => a.fits (some mediaType)

/-- The text of a test. -/
def ResponseTest.source : ResponseTest → String
  | succeeds => "200 <= _response.status < 300"
  | hasStatus statuses => "_response.status in " ++ statusesSource statuses
  | hasMediaType mediaType => "media_type_matches(_response, " ++ doubleQuoted mediaType ++ ")"

/-- What the handling of a response ends with. A value that is returned and the detail of an error
are decoded from a form of the response; without a form there is none. -/
inductive Ending where
  | returned (form : Option Choice)
  | responseError (form : Option Choice)
  | unexpectedContentType
  | unexpectedStatus
  deriving DecidableEq, Repr

/-- A form by the way it is decoded. -/
def Choice.ending (isError : Bool) (c : Choice) : Ending :=
  if isError then .responseError (some c) else .returned (some c)

/-- The text of an ending. -/
def Ending.source : Ending → String
  | returned (some c) => c.statement false
  | returned none => "return None"
  | responseError (some c) => c.statement true
  | responseError none => "raise ResponseError(_response)"
  | unexpectedContentType => "raise UnexpectedContentType(_response)"
  | unexpectedStatus => "raise UnexpectedStatus(_response)"

/-- A statement of a script: it ends the handling, or does so only after a test. -/
inductive Statement where
  | ending (e : Ending)
  | guarded (test : ResponseTest) (body : List Statement)

namespace Statement

mutual

/-- What a statement ends the handling of a response with, if it ends it. -/
def run (a : Answer) : Statement → Option Ending
  | ending e => some e
  | guarded test body => if test.holds a then runAll a body else none

/-- What some statements, one after another, end the handling of a response with. -/
def runAll (a : Answer) : List Statement → Option Ending
  | [] => none
  | s :: rest => (s.run a).or (runAll a rest)

end

mutual

/-- The endings that stand in a statement. -/
def endings : Statement → List Ending
  | ending e => [e]
  | guarded _ body => endingsAll body

/-- The endings that stand in some statements. -/
def endingsAll : List Statement → List Ending
  | [] => []
  | s :: rest => s.endings ++ endingsAll rest

end

mutual

/-- The lines of a statement after a margin. -/
def lines (margin : String) : Statement → List String
  | ending e => [margin ++ e.source]
  | guarded test body =>
    (margin ++ "if " ++ test.source ++ ":") :: linesAll (margin ++ "    ") body

/-- The lines of some statements after a margin. -/
def linesAll (margin : String) : List Statement → List String
  | [] => []
  | s :: rest => s.lines margin ++ linesAll margin rest

end

theorem linesAll_append (margin : String) (front back : List Statement) :
    linesAll margin (front ++ back) = linesAll margin front ++ linesAll margin back := by
  induction front with
  | nil => rfl
  | cons s front ih => rw [List.cons_append, linesAll, linesAll, ih, List.append_assoc]

mutual

theorem lines_margin (outer inner : String) :
    ∀ s : Statement, s.lines (outer ++ inner) = (s.lines inner).map (outer ++ ·)
  | ending e => by simp [lines, String.append_assoc]
  | guarded test body => by
    have hbody := linesAll_margin outer (inner ++ "    ") body
    rw [← String.append_assoc] at hbody
    rw [lines, lines, hbody]
    simp [String.append_assoc]

theorem linesAll_margin (outer inner : String) :
    ∀ script : List Statement,
      linesAll (outer ++ inner) script = (linesAll inner script).map (outer ++ ·)
  | [] => rfl
  | s :: rest => by
    rw [linesAll, linesAll, lines_margin outer inner s,
      linesAll_margin outer inner rest, List.map_append]

end

end Statement

open Statement

/-! ## The script of an operation -/

/-- The statements that try some forms of a response. -/
def formScript (isError : Bool) : List Choice → List Statement
  | [] => [.ending .unexpectedContentType]
  | c :: rest =>
    match c.mediaType with
    | none => [.ending (c.ending isError)]
    | some m => .guarded (.hasMediaType m) [.ending (c.ending isError)] :: formScript isError rest

/-- The test that a response has to pass for a branch to handle it. -/
def Branch.test (b : Branch) : ResponseTest :=
  if b.statuses.isEmpty then .succeeds else .hasStatus b.statuses

/-- What handles a response without a form. -/
def Branch.bodyless (b : Branch) : Ending :=
  if b.isError then .responseError none else .returned none

/-- What is done with a response that passes the test of a branch. -/
def Branch.body (b : Branch) : List Statement :=
  if b.choices.isEmpty then [.ending b.bodyless] else formScript b.isError b.choices

/-- The statement for a branch. -/
def Branch.statement (b : Branch) : Statement := .guarded b.test b.body

/-- The script for some branches. -/
def responseScript (bs : List Branch) : List Statement :=
  bs.map Branch.statement ++ [.ending .unexpectedStatus]

/-- The script of an operation. -/
def Operation.script (op : Operation) : List Statement := responseScript op.branches

/-! ## Its text -/

theorem ending_source (isError : Bool) (c : Choice) :
    (c.ending isError).source = c.statement isError := by
  cases isError <;> rfl

/-- The line of a test of the media type, with the margin that the branch gives it. -/
theorem hasMediaType_line (m : String) :
    "    " ++ "if " ++ (ResponseTest.hasMediaType m).source ++ ":" =
      "    if media_type_matches(_response, " ++ doubleQuoted m ++ "):" := by
  have hstart : "    " ++ "if " ++ "media_type_matches(_response, " =
      "    if media_type_matches(_response, " := by decide
  have hend : ")" ++ ":" = "):" := by decide
  calc "    " ++ "if " ++ ("media_type_matches(_response, " ++ doubleQuoted m ++ ")") ++ ":"
      = ("    " ++ "if " ++ "media_type_matches(_response, ") ++
        doubleQuoted m ++ (")" ++ ":") := by
        simp only [String.append_assoc]
    _ = _ := by rw [hstart, hend]

/-- The line of the test of a branch. -/
theorem test_line (b : Branch) :
    "" ++ "if " ++ b.test.source ++ ":" =
      if b.statuses.isEmpty then "if 200 <= _response.status < 300:"
      else "if _response.status in " ++ statusesSource b.statuses ++ ":" := by
  unfold Branch.test
  split
  · decide
  · have hstart : "" ++ "if " ++ "_response.status in " = "if _response.status in " := by decide
    calc "" ++ "if " ++ ("_response.status in " ++ statusesSource b.statuses) ++ ":"
        = ("" ++ "if " ++ "_response.status in ") ++ statusesSource b.statuses ++ ":" := by
          simp only [String.append_assoc]
      _ = _ := by rw [hstart]

theorem linesAll_formScript (isError : Bool) (cs : List Choice) :
    linesAll "    " (formScript isError cs) = choiceLines isError cs := by
  have hdepth : "    " ++ "    " = "        " := by decide
  induction cs with
  | nil => simp [formScript, choiceLines, linesAll, lines, Ending.source]
  | cons c rest ih =>
    rw [formScript, choiceLines]
    cases c.mediaType with
    | none => simp [linesAll, lines, ending_source]
    | some m =>
      simp only [linesAll, lines, ih, hasMediaType_line, ending_source, hdepth, List.append_nil,
        List.cons_append, List.nil_append]

theorem linesAll_body (b : Branch) :
    linesAll "    " b.body =
      if b.choices.isEmpty then
        [if b.isError then "    raise ResponseError(_response)" else "    return None"]
      else choiceLines b.isError b.choices := by
  unfold Branch.body
  split
  · unfold Branch.bodyless
    cases b.isError <;> decide
  · exact linesAll_formScript b.isError b.choices

theorem lines_statement (b : Branch) : b.statement.lines "" = b.lines := by
  have hmargin : "" ++ "    " = "    " := by decide
  rw [Branch.statement, lines, test_line, hmargin, linesAll_body, Branch.lines]

theorem linesAll_responseScript (bs : List Branch) :
    linesAll "" (responseScript bs) =
      bs.flatMap Branch.lines ++ ["raise UnexpectedStatus(_response)"] := by
  have hbranches : linesAll "" (bs.map Branch.statement) = bs.flatMap Branch.lines := by
    induction bs with
    | nil => rfl
    | cons b bs ih => rw [List.map_cons, linesAll, ih, lines_statement, List.flatMap_cons]
  rw [responseScript, linesAll_append, hbranches]
  rfl

/-- The text of its script stands at the end of an operation. -/
theorem Operation.script_suffix_lines (op : Operation) (isAsync : Bool) :
    linesAll "        " op.script <:+ op.lines isAsync := by
  have htext : linesAll "        " op.script =
      (op.branches.flatMap Branch.lines ++ ["raise UnexpectedStatus(_response)"]).map
        ("        " ++ ·) := by
    rw [← linesAll_responseScript, ← linesAll_margin]
    rfl
  have hbody : linesAll "        " op.script <:+
      (op.callLines isAsync ++ op.branches.flatMap Branch.lines ++
        ["raise UnexpectedStatus(_response)"]).map ("        " ++ ·) := by
    rw [htext, List.append_assoc]
    exact (List.suffix_append _ _).map _
  exact hbody.trans (List.suffix_append _ _)

/-! ## Its runs -/

/-- The forms of a response are tried in their order. -/
theorem run_formScript (a : Answer) (isError : Bool) (cs : List Choice) :
    runAll a (formScript isError cs) = some
      (match cs.find? fun c => a.fits c.mediaType with
        | some c => c.ending isError
        | none => .unexpectedContentType) := by
  induction cs with
  | nil => rfl
  | cons c rest ih =>
    rw [formScript, List.find?_cons]
    cases hm : c.mediaType with
    | none =>
      have hfits : a.fits none = true := rfl
      simp [hfits, runAll, run]
    | some m =>
      simp only [runAll, run, ResponseTest.holds, ih]
      by_cases hfits : a.fits (some m) = true <;> simp [hfits]

/-- What a branch ends the handling of a response with that passes its test. -/
def Branch.outcome (b : Branch) (a : Answer) : Ending :=
  match b.choices.find? fun c => a.fits c.mediaType with
  | some c => c.ending b.isError
  | none => if b.choices.isEmpty then b.bodyless else .unexpectedContentType

theorem run_body (a : Answer) (b : Branch) : runAll a b.body = some (b.outcome a) := by
  unfold Branch.body Branch.outcome
  split
  · rename_i hempty
    rw [List.isEmpty_iff] at hempty
    simp [hempty, runAll, run]
  · rw [run_formScript]

/-- The first branch whose test a response passes handles it, and no other. -/
theorem run_responseScript (a : Answer) (bs : List Branch) :
    runAll a (responseScript bs) = some
      (match bs.find? fun b => b.test.holds a with
        | some b => b.outcome a
        | none => .unexpectedStatus) := by
  induction bs with
  | nil => rfl
  | cons b bs ih =>
    rw [responseScript] at ih
    rw [responseScript, List.map_cons, List.cons_append, runAll, ih,
      Branch.statement, run, run_body, List.find?_cons]
    cases b.test.holds a <;> rfl

end Wadl
