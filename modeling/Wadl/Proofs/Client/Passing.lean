import Wadl.Proofs.Client.Names
import Wadl.Proofs.Source.Calls
import Wadl.Proofs.Source.Literals

/-!
# What methods pass on

The lines of an operation have the call that sends its request. `passed?` reads from them which
names of a style stand in the mapping that is passed to the function that builds the URL or to the
one that builds the headers, each with the source of its value; it knows nothing of how an operation
is printed. What it reads are the values of the operation (`Operation.Readable.passed?_lines`), as
long as each of them is passed as a whole: literals are (`whole_literal`), and so are names. In the
same way the parameters of a method are read from its first line (`parameters?`), and from its last
line what an accessor fills the placeholders of its path with (`filled?`).
-/

namespace Wadl

open Source Quoted Numeral

/-! ## Reading the lines of an operation -/

/-- The line with which an operation sends its request begins with these characters. -/
def sendingMark : List Char := "        _response = ".toList

/-- The operands of the request that an operation sends, as its lines have them. -/
def sentOperands? (lines : List String) : Option (List (List Char)) := do
  let sending := lines.dropWhile fun l => !sendingMark.isPrefixOf l.toList
  let cs ← (unlines sending).toList.dropPrefix? sendingMark
  let cs ← ((cs.dropPrefix? "await ".toList).getD cs).dropPrefix? "self._transport.request(".toList
  (operands? cs).map (·.1)

/-- The mapping that is passed under a keyword, or in the first place; nothing is passed without
it. -/
def mappingAt? (keyword : Option String) (operands : List (List Char)) :
    Option (List (String × String)) :=
  match operandAt? keyword operands with
  | none => some []
  | some cs => entries? cs

/-- The keyword for the values of a style in the URL. -/
def ParamStyle.keyword : ParamStyle → String
  | .template => "template"
  | .matrix => "matrix"
  | _ => "query"

/-- The names that an operation passes on in a style, in their order, each with the source of its
value, as its lines have them: in the URL, which is the second operand of the request, or in the
headers. -/
def passed? (lines : List String) (style : ParamStyle) : Option (List (String × String)) := do
  let operands ← sentOperands? lines
  if style = .header then
    match operandAt? (some "headers") operands with
    | none => some []
    | some headers => mappingAt? none (← call? "build_headers" headers)
  else mappingAt? (some style.keyword) (← call? "build_url" (← operands[1]?))

/-- The values of a style; plain params are sent in the query. -/
def Operation.values (op : Operation) : ParamStyle → List (String × ValueExpr)
  | .template => op.template
  | .matrix => op.matrix
  | .header => op.header
  | _ => op.query

/-- The names and values of a style as source. -/
def Operation.written (op : Operation) (style : ParamStyle) : List (String × String) :=
  (op.values style).map fun (name, value) => (name, value.source)

/-! ## The operands that are printed -/

/-- The operands of the request that an operation sends. -/
def Operation.operands (op : Operation) : List String :=
  [doubleQuoted op.verb, "build_url(" ++ ", ".intercalate op.urlArgs ++ ")"] ++
  (if op.headerArgs.isEmpty then []
    else ["headers=" ++ ("build_headers(" ++ ", ".intercalate op.headerArgs ++ ")")]) ++
  op.body.toList.map fun b =>
    "body=" ++ ("encode_body(" ++ b.argument ++ ", " ++
      (op.contentType.map doubleQuoted).getD "None" ++ ")")

/-- The lines that send a request are its operands between a line that opens the call and one that
closes it. -/
theorem Operation.callLines_eq (op : Operation) (isAsync : Bool) :
    op.callLines isAsync =
      ("_response = " ++ (if isAsync then "await " else "") ++ "self._transport.request(") ::
        op.operands.map (fun o => "    " ++ o ++ ",") ++ [")"] := by
  have hurl : ∀ s : String,
      "    build_url(" ++ s ++ ")," = "    " ++ ("build_url(" ++ s ++ ")") ++ "," := by
    intro s
    rw [← String.toList_inj]
    simp only [String.toList_append, List.append_assoc]
    rfl
  have hheaders : ∀ s : String,
      "    headers=build_headers(" ++ s ++ ")," =
        "    " ++ ("headers=" ++ ("build_headers(" ++ s ++ ")")) ++ "," := by
    intro s
    rw [← String.toList_inj]
    simp only [String.toList_append, List.append_assoc]
    rfl
  have hbody : ∀ s t : String, "    body=encode_body(" ++ s ++ ", " ++ t ++ ")," =
      "    " ++ ("body=" ++ ("encode_body(" ++ s ++ ", " ++ t ++ ")")) ++ "," := by
    intro s t
    rw [← String.toList_inj]
    simp only [String.toList_append, List.append_assoc]
    rfl
  unfold callLines operands
  simp only [hurl, hheaders, hbody]
  cases op.body <;> cases op.headerArgs.isEmpty <;> rfl

/-! ## The lines that are printed -/

/-- An operation whose lines can be read: its documentation stands between quotes, and its values
and the name of its body are passed as a whole. -/
structure Operation.Readable (op : Operation) : Prop where
  doc : ∀ d, op.doc = some d → ∃ cs, d.toList = '"' :: cs
  values : ∀ style, ∀ e ∈ op.values style, Whole e.2.source.toList
  body : ∀ b, op.body = some b → Whole b.argument.toList

/-- Lines as characters. -/
theorem toList_unlines (lines : List String) :
    (unlines lines).toList = lines.flatMap (·.toList ++ ['\n']) := by
  induction lines with
  | nil => rfl
  | cons l lines ih =>
    rw [List.flatMap_cons, ← ih]
    simp only [unlines, List.map_cons, String.join_cons, String.toList_append]
    rfl

/-- What is indented begins with what it began with, unless that is the end of a line. -/
theorem exists_indented {text : String} {c : Char} {cs : List Char} (h : text.toList = c :: cs)
    (hc : Text.isLineEnd c = false) (width : Nat) :
    ∃ cs', (indented width text).toList = c :: cs' := by
  obtain ⟨l, ls, hlines⟩ : ∃ l ls, Text.lineList (text ++ "\n").toList = (c :: l) :: ls := by
    have hreturn : c ≠ '\r' := by
      rintro rfl
      exact absurd hc (by decide)
    rw [String.toList_append, h, List.cons_append, Text.lineList.eq_3,
      if_neg (Bool.eq_false_iff.1 hc)]
    · split
      · exact ⟨_, _, rfl⟩
      · exact ⟨_, _, rfl⟩
    · exact fun _ heq => absurd heq hreturn
  have hlines' : linesOf (text ++ "\n") = String.ofList (c :: l) :: ls.map String.ofList := by
    rw [linesOf, hlines, List.map_cons]
  simp only [indented, hlines', String.toList_append, String.toList_ofList, List.cons_append]
  exact ⟨_, rfl⟩

/-- The request is sent on the line after the documentation. -/
theorem Operation.Readable.dropWhile_lines {op : Operation} (h : op.Readable) (isAsync : Bool) :
    ∃ after, (op.lines isAsync).dropWhile (fun l => !sendingMark.isPrefixOf l.toList) =
      (op.callLines isAsync).map ("        " ++ ·) ++ after := by
  have hheader : ∀ s : String,
      sendingMark.isPrefixOf ("    " ++ (if isAsync then "async " else "") ++ "def " ++ s).toList
      = false := by
    intro s
    simp only [String.toList_append, List.append_assoc]
    cases isAsync <;> rfl
  have hdoc : ∀ l ∈ docLines 8 op.doc, sendingMark.isPrefixOf l.toList = false := by
    intro l hl
    rw [docLines, List.mem_map] at hl
    obtain ⟨d, hd, rfl⟩ := hl
    obtain ⟨cs, hcs⟩ := h.doc d (Option.mem_toList.1 hd)
    obtain ⟨cs', hcs'⟩ := exists_indented hcs rfl 8
    rw [String.toList_append, hcs']
    rfl
  have hsending : ∀ ls, ((op.callLines isAsync).map ("        " ++ ·) ++ ls).dropWhile
      (fun l => !sendingMark.isPrefixOf l.toList) =
        (op.callLines isAsync).map ("        " ++ ·) ++ ls := by
    intro ls
    rw [op.callLines_eq, List.map_append, List.map_cons, List.cons_append, List.cons_append,
      List.dropWhile_cons_of_neg]
    simp only [String.toList_append, List.append_assoc]
    exact Bool.not_eq_true _ ▸ rfl
  have hfront :
      ∀ l ∈ ["", "    " ++ (if isAsync then "async " else "") ++ "def " ++ op.name ++ "(" ++
      ", ".intercalate (op.signature.map (·.source)) ++ ") -> " ++ op.returnSource ++ ":"] ++
        docLines 8 op.doc,
      (!sendingMark.isPrefixOf l.toList) = true := by
    refine List.forall_mem_append.2
      ⟨List.forall_mem_cons.2 ⟨rfl, List.forall_mem_singleton.2 ?_⟩, fun l hl => ?_⟩
    · simp only [String.append_assoc] at hheader ⊢
      rw [hheader]
      rfl
    · rw [hdoc l hl]
      rfl
  refine ⟨(op.branches.flatMap Branch.lines ++ ["raise UnexpectedStatus(_response)"]).map
    ("        " ++ ·), ?_⟩
  rw [Operation.lines, List.dropWhile_append_of_pos hfront, List.append_assoc,
    List.map_append, hsending]

namespace Operation.Readable

variable {op : Operation} (h : op.Readable)

include h

theorem whole_written (style : ParamStyle) : ∀ e ∈ op.written style, Whole e.2.toList :=
  List.forall_mem_map.2 fun e he => h.values style e he

theorem isOperand_valuesSource (style : ParamStyle) :
    IsOperand (valuesSource (op.values style)).toList :=
  isOperand_mapping (h.whole_written style)

/-- The operands that the URL is built of are passed one by one. -/
theorem isOperand_urlArgs : ∀ a ∈ op.urlArgs.map String.toList, IsOperand a := by
  have hentry : ∀ (keyword : String) (style : ParamStyle), keyword.toList.all Whole.isInert = true →
      (∃ c cs, keyword.toList = c :: cs ∧ isGap c = false) →
      ∀ a ∈ (if (op.values style).isEmpty then []
        else [keyword ++ "=" ++ valuesSource (op.values style)]), IsOperand a.toList := by
    intro keyword style hkeyword hstart a ha
    split at ha
    · cases ha
    · obtain rfl := List.mem_singleton.1 ha
      exact isOperand_keyword keyword hkeyword hstart (h.isOperand_valuesSource style).whole
  refine List.forall_mem_map.2 (List.forall_mem_cons.2 ⟨⟨.inert rfl, _, _, rfl, rfl⟩,
    List.forall_mem_append.2 ⟨List.forall_mem_append.2 ⟨?_, ?_⟩, ?_⟩⟩)
  · exact hentry "template" .template rfl ⟨_, _, rfl, rfl⟩
  · exact hentry "matrix" .matrix rfl ⟨_, _, rfl, rfl⟩
  · exact hentry "query" .query rfl ⟨_, _, rfl, rfl⟩

/-- The operands that the headers are built of are passed one by one. -/
theorem isOperand_headerArgs : ∀ a ∈ op.headerArgs.map String.toList, IsOperand a := by
  refine List.forall_mem_map.2
    (List.forall_mem_append.2 ⟨List.forall_mem_append.2 ⟨fun a ha => ?_, fun a ha => ?_⟩,
    fun a ha => ?_⟩)
  · split at ha
    · cases ha
    · obtain rfl := List.mem_singleton.1 ha
      exact h.isOperand_valuesSource .header
  · split at ha
    · cases ha
    · obtain rfl := List.mem_singleton.1 ha
      have hlist : Whole
          ('[' :: [',', ' '].intercalate ((op.accept.map doubleQuoted).map String.toList) ++
            [']']) :=
        whole_bracketed
          (List.forall_mem_map.2
            (List.forall_mem_map.2 fun m _ => (isOperand_doubleQuoted m).whole)) rfl
          rfl
      have haccept : IsOperand ("accept=".toList ++
          ('[' :: [',', ' '].intercalate ((op.accept.map doubleQuoted).map String.toList) ++
            [']'])) :=
        ⟨(Whole.inert rfl).append hlist, _, _, rfl, rfl⟩
      simp only [String.toList_append, String.toList_intercalate, List.append_assoc] at haccept ⊢
      exact haccept
  · obtain ⟨m, -, rfl⟩ := List.mem_map.1 ha
    exact isOperand_keyword "content_type" rfl ⟨_, _, rfl, rfl⟩ (isOperand_doubleQuoted m).whole

/-- The operands of the request are passed one by one. -/
theorem isOperand_operands : ∀ o ∈ op.operands.map String.toList, IsOperand o := by
  have hwhole : ∀ {ps : List (List Char)}, (∀ p ∈ ps, IsOperand p) → ∀ p ∈ ps, Whole p :=
    fun h p hp => (h p hp).whole
  refine List.forall_mem_map.2
    (List.forall_mem_append.2 ⟨List.forall_mem_append.2 ⟨?_, fun o ho => ?_⟩, fun o ho => ?_⟩)
  · exact List.forall_mem_cons.2 ⟨isOperand_doubleQuoted _, List.forall_mem_singleton.2
      (isOperand_call "build_url" rfl ⟨_, _, rfl, rfl⟩ _ (hwhole h.isOperand_urlArgs))⟩
  · split at ho
    · cases ho
    · obtain rfl := List.mem_singleton.1 ho
      exact isOperand_keyword "headers" rfl ⟨_, _, rfl, rfl⟩
        (isOperand_call "build_headers" rfl ⟨_, _, rfl, rfl⟩ _
          (hwhole h.isOperand_headerArgs)).whole
  · obtain ⟨b, hb, rfl⟩ := List.mem_map.1 ho
    have hmedia : Whole ((op.contentType.map doubleQuoted).getD "None").toList := by
      cases op.contentType with
      | none => exact .inert rfl
      | some m => exact (isOperand_doubleQuoted m).whole
    have hcall := isOperand_call "encode_body" rfl ⟨_, _, rfl, rfl⟩
      [b.argument, (op.contentType.map doubleQuoted).getD "None"]
      (List.forall_mem_cons.2
        ⟨h.body b (Option.mem_toList.1 hb), List.forall_mem_singleton.2 hmedia⟩)
    have hbody := isOperand_keyword "body" rfl ⟨_, _, rfl, rfl⟩ hcall.whole
    simp only [String.toList_append, String.toList_intercalate, List.map_cons, List.map_nil,
      List.intercalate_cons_cons, List.intercalate_singleton, List.append_assoc] at hbody ⊢
    exact hbody

/-- The operands of the request are read from the lines of the operation. -/
theorem sentOperands?_lines (isAsync : Bool) :
    sentOperands? (op.lines isAsync) = some (op.operands.map String.toList) := by
  obtain ⟨after, hsending⟩ := h.dropWhile_lines isAsync
  have htext : (unlines ((op.callLines isAsync).map ("        " ++ ·) ++ after)).toList =
      sendingMark ++
        ((if isAsync then "await " else "").toList ++ ("self._transport.request(".toList ++
        (['\n'] ++ ((op.operands.map String.toList).flatMap
          (fun o => "            ".toList ++ o ++ [',', '\n']) ++
          ("        ".toList ++ ')' :: '\n' :: (unlines after).toList))))) := by
    have hoperand : ∀ o : String, ("        " ++ ("    " ++ o ++ ",")).toList ++ ['\n'] =
        "            ".toList ++ o.toList ++ [',', '\n'] := by
      intro o
      simp only [String.toList_append, List.append_assoc]
      rfl
    rw [toList_unlines, List.flatMap_append, ← toList_unlines after,
      op.callLines_eq, List.flatMap_map,
      List.flatMap_append, List.flatMap_cons, List.flatMap_map, List.flatMap_map]
    simp only [hoperand]
    simp only [String.toList_append, List.append_assoc, List.flatMap_singleton]
    rfl
  have hoperands := operands?_lines h.isOperand_operands (g := ['\n'])
    (m := "            ".toList) (n := "        ".toList) rfl rfl rfl (c := ')') rfl
    ('\n' :: (unlines after).toList)
  rw [sentOperands?, hsending, htext, dropPrefix?_append]
  have hawait : ∀ rest,
      ((((if isAsync then "await " else "").toList ++
        ("self._transport.request(".toList ++ rest)).dropPrefix?
      "await ".toList).getD
        ((if isAsync then "await " else "").toList ++
          ("self._transport.request(".toList ++ rest))) =
        "self._transport.request(".toList ++ rest := by
    intro rest
    cases isAsync with
    | true =>
      show ((("await ".toList ++ ("self._transport.request(".toList ++ rest)).dropPrefix?
        "await ".toList).getD _) = _
      rw [dropPrefix?_append]
      rfl
    | false => rfl
  simp only [Option.bind_eq_bind, Option.bind_some, hawait, dropPrefix?_append,
    hoperands, Option.map_some]

end Operation.Readable

/-! ## What is read from them -/

theorem keyworded_mapping (values : List (String × ValueExpr)) :
    keyworded (valuesSource values).toList = (none, (valuesSource values).toList) := by
  rw [valuesSource, toList_mappingSource]
  exact keyworded_none [] rfl rfl (by decide)

namespace Operation

variable (op : Operation)

/-- The keyword of a style has the values of the style, unless there are none. -/
theorem operandAt?_urlArgs {style : ParamStyle} (hstyle : style ≠ .header) :
    operandAt? (some style.keyword) (op.urlArgs.map String.toList) =
      if (op.values style).isEmpty then none else some (valuesSource (op.values style)).toList := by
  have hentry : ∀ (keyword : String) (style : ParamStyle), keyword.toList.all isWordChar = true →
      ((if (op.values style).isEmpty then []
        else [keyword ++ "=" ++ valuesSource (op.values style)]).map fun a => keyworded a.toList) =
      if (op.values style).isEmpty then []
          else [(some keyword, (valuesSource (op.values style)).toList)] := by
    intro keyword style hkeyword
    split
    · rfl
    · rw [List.map_singleton, keyworded_keyword keyword hkeyword]
  have hown : keyworded "self._url".toList = (none, "self._url".toList) := rfl
  have hargs : (op.urlArgs.map String.toList).map keyworded = (none, "self._url".toList) ::
      ((if (op.values .template).isEmpty then [] else
          [(some "template", (valuesSource (op.values .template)).toList)]) ++
        (if (op.values .matrix).isEmpty then [] else
          [(some "matrix", (valuesSource (op.values .matrix)).toList)]) ++
        (if (op.values .query).isEmpty then [] else
          [(some "query", (valuesSource (op.values .query)).toList)])) := by
    rw [List.map_map, urlArgs, List.map_cons, List.map_append, List.map_append,
      ← hentry "template" .template rfl,
      ← hentry "matrix" .matrix rfl, ← hentry "query" .query rfl, ← hown]
    rfl
  rw [operandAt?, hargs]
  cases style with
  | header => exact absurd rfl hstyle
  | template | matrix | query => split_ifs <;> rfl
  | plain =>
    rw [show op.values .plain = op.values .query from rfl]
    split_ifs <;> rfl

/-- The headers of the request have a keyword, if there are any. -/
theorem operandAt?_operands :
    operandAt? (some "headers") (op.operands.map String.toList) =
      if op.headerArgs.isEmpty then none
      else some ("build_headers(" ++ ", ".intercalate op.headerArgs ++ ")").toList := by
  have hurl : keyworded ("build_url(" ++ ", ".intercalate op.urlArgs ++ ")").toList =
      (none, ("build_url(" ++ ", ".intercalate op.urlArgs ++ ")").toList) := by
    have hread := keyworded_call "build_url" rfl (", ".intercalate op.urlArgs ++ ")")
    rwa [← String.append_assoc] at hread
  have hheaders : ∀ s, keyworded ("headers=" ++ s).toList = (some "headers", s.toList) :=
    keyworded_keyword "headers" rfl
  have hbody : ∀ s, keyworded ("body=" ++ s).toList = (some "body", s.toList) :=
    keyworded_keyword "body" rfl
  rw [operandAt?, List.map_map, operands, List.map_append, List.map_append,
    apply_ite (List.map _), List.map_map]
  simp only [List.map_nil, List.map_cons, Function.comp_def, keyworded_doubleQuoted,
    hurl, hheaders, hbody]
  cases op.body <;> split_ifs <;> rfl

end Operation

namespace Operation.Readable

variable {op : Operation} (h : op.Readable)

include h

theorem entries?_valuesSource (style : ParamStyle) :
    entries? (valuesSource (op.values style)).toList = some (op.written style) :=
  entries?_mapping (h.whole_written style)

/-- The mapping among the operands of the headers is that of their values. -/
theorem mappingAt?_headerArgs :
    mappingAt? none (op.headerArgs.map String.toList) = some (op.written .header) := by
  have hcontent : ∀ m : String, keyworded ("content_type=" ++ doubleQuoted m).toList =
      (some "content_type", (doubleQuoted m).toList) :=
        fun m => keyworded_keyword "content_type" rfl _
  have haccept :
      keyworded ("accept=[" ++ ", ".intercalate (op.accept.map doubleQuoted) ++ "]").toList =
      (some "accept", ("[" ++ ", ".intercalate (op.accept.map doubleQuoted) ++ "]").toList) := by
    have hread := keyworded_keyword "accept" rfl
      ("[" ++ ", ".intercalate (op.accept.map doubleQuoted) ++ "]")
    simp only [String.toList_append, List.append_assoc] at hread ⊢
    exact hread
  have hargs : (op.headerArgs.map String.toList).map keyworded =
      (if op.header.isEmpty then [] else [(none, (valuesSource op.header).toList)]) ++
        (if op.accept.isEmpty then [] else
          [(some "accept",
            ("[" ++ ", ".intercalate (op.accept.map doubleQuoted) ++ "]").toList)]) ++
        op.contentType.toList.map fun m => (some "content_type", (doubleQuoted m).toList) := by
    rw [List.map_map, headerArgs, List.map_append, List.map_append, apply_ite (List.map _),
      apply_ite (List.map _), List.map_map]
    simp only [List.map_nil, List.map_singleton, Function.comp_def, hcontent,
      haccept, keyworded_mapping]
  have hoperand : operandAt? none (op.headerArgs.map String.toList) =
      if op.header.isEmpty then none else some (valuesSource op.header).toList := by
    rw [operandAt?, hargs]
    cases op.contentType <;> split_ifs <;> rfl
  rw [mappingAt?, hoperand]
  split_ifs with hempty
  · rw [written, show op.values .header = [] from List.isEmpty_iff.1 hempty]
    rfl
  · exact h.entries?_valuesSource .header

/-- What the lines of an operation pass on in a style are its values of this style. -/
theorem passed?_lines (isAsync : Bool) (style : ParamStyle) :
    passed? (op.lines isAsync) style = some (op.written style) := by
  have hurl : call? "build_url" ("build_url(" ++ ", ".intercalate op.urlArgs ++ ")").toList =
      some (op.urlArgs.map String.toList) := call?_source "build_url" h.isOperand_urlArgs
  have hheaders :
      call? "build_headers" ("build_headers(" ++ ", ".intercalate op.headerArgs ++ ")").toList =
      some (op.headerArgs.map String.toList) := call?_source "build_headers" h.isOperand_headerArgs
  rw [passed?, h.sentOperands?_lines]
  simp only [Option.bind_eq_bind, Option.bind_some]
  split_ifs with hstyle
  · subst hstyle
    rw [op.operandAt?_operands]
    split_ifs with hempty
    · have hheader : op.values .header = [] := by
        by_contra hne
        have hne' : op.header.isEmpty = false := List.isEmpty_eq_false_iff.2 hne
        simp [headerArgs, hne'] at hempty
      rw [written, hheader]
      rfl
    · simp only [hheaders, Option.bind_some]
      exact h.mappingAt?_headerArgs
  · have hsecond : (op.operands.map String.toList)[1]? =
        some ("build_url(" ++ ", ".intercalate op.urlArgs ++ ")").toList := rfl
    rw [hsecond, Option.bind_some, hurl, Option.bind_some, mappingAt?, op.operandAt?_urlArgs hstyle]
    split_ifs with hempty
    · rw [written, List.isEmpty_iff.1 hempty]
      rfl
    · exact h.entries?_valuesSource style

end Operation.Readable

/-! ## Parameters and placeholders -/

/-- The parameters of a method, as the line after the empty one that it begins with has them. -/
def parameters? (lines : List String) : Option (List String) := do
  let cs ← (← lines[1]?).toList.dropPrefix? "    ".toList
  let cs ← ((cs.dropPrefix? "async ".toList).getD cs).dropPrefix? "def ".toList
  let (operands, _) ← operands? (← (cs.dropWhile isWordChar).dropPrefix? ['('])
  return operands.map String.ofList

/-- The placeholders that an accessor fills, each with the source of its value, as its last line has
them: the URL is the second operand of what is returned, and the mapping the third of what the URL
is joined from. -/
def filled? (lines : List String) : Option (List (String × String)) := do
  let cs ← (← lines.getLast?).toList.dropPrefix? "        return ".toList
  let (operands, _) ← operands? (← (cs.dropWhile isWordChar).dropPrefix? ['('])
  let joined ← call? "join_url" (← operands[1]?)
  match joined[2]? with
  | none => some []
  | some cs => entries? cs

theorem dropWhile_callee {callee rest : List Char} (h : ∀ c ∈ callee, isWordChar c = true) :
    (callee ++ '(' :: rest).dropWhile isWordChar = '(' :: rest := by
  rw [List.dropWhile_append_of_pos h, List.dropWhile_cons_of_neg (Bool.eq_false_iff.1 rfl)]

/-- The parameters of a method are read from its first line, whatever the type of its value is. -/
theorem parameters?_header (isAsync : Bool) {name : String}
    (hname : ∀ c ∈ name.toList, isWordChar c = true) {params : List String}
    (hparams : ∀ p ∈ params, IsOperand p.toList) (returns : String) (lines : List String) :
    parameters? ("" :: ("    " ++ (if isAsync then "async " else "") ++ "def " ++ name ++ "(" ++
      ", ".intercalate params ++ ") -> " ++ returns ++ ":") :: lines) = some params := by
  have hline : ("    " ++ (if isAsync then "async " else "") ++ "def " ++ name ++ "(" ++
      ", ".intercalate params ++ ") -> " ++ returns ++ ":").toList =
      "    ".toList ++
        ((if isAsync then "async " else "").toList ++ ("def ".toList ++ (name.toList ++
        '(' :: ([',', ' '].intercalate (params.map String.toList) ++
          ')' :: (" -> " ++ returns ++ ":").toList)))) := by
    simp only [String.toList_append, String.toList_intercalate, List.append_assoc]
    rfl
  have hasync : ∀ rest,
      ((((if isAsync then "async " else "").toList ++ ("def ".toList ++ rest)).dropPrefix?
      "async ".toList).getD
        ((if isAsync then "async " else "").toList ++ ("def ".toList ++ rest))) =
        "def ".toList ++ rest := by
    intro rest
    cases isAsync with
    | true =>
      show ((("async ".toList ++ ("def ".toList ++ rest)).dropPrefix? "async ".toList).getD _) = _
      rw [dropPrefix?_append]
      rfl
    | false => rfl
  have hopen : ∀ rest : List Char, ('(' :: rest).dropPrefix? ['('] = some rest :=
    dropPrefix?_append ['(']
  have hoperands :=
    operands?_joined (c := ')') (List.forall_mem_map.2 hparams) rfl
      (" -> " ++ returns ++ ":").toList
  show (do
    let cs ← (("    " ++ (if isAsync then "async " else "") ++ "def " ++ name ++ "(" ++
      ", ".intercalate params ++ ") -> " ++ returns ++ ":").toList).dropPrefix? "    ".toList
    let cs ← ((cs.dropPrefix? "async ".toList).getD cs).dropPrefix? "def ".toList
    let (operands, _) ← operands? (← (cs.dropWhile isWordChar).dropPrefix? ['('])
    return operands.map String.ofList) = some params
  rw [hline]
  simp only [Option.bind_eq_bind, Option.bind_some, dropPrefix?_append, hasync,
    dropWhile_callee hname, hopen, hoperands]
  simp [Function.comp_def]

/-- The parameter list of an operation is read as its parts, if each of them is passed as a whole:
all arguments are there, each with its type and its default. -/
theorem Operation.parameters?_lines {op : Operation}
    (hname : ∀ c ∈ op.name.toList, isWordChar c = true)
    (h : ∀ p ∈ op.signature, IsOperand p.source.toList) (isAsync : Bool) :
    parameters? (op.lines isAsync) = some (op.signature.map (·.source)) :=
  parameters?_header isAsync hname (List.forall_mem_map.2 h) op.returnSource _

namespace Accessor

variable {a : Accessor}

/-- The parameters of an accessor. -/
def parameters (a : Accessor) : List String :=
  "self" :: a.args.map fun p => p.name ++ ": " ++ p.type.source

theorem parameters?_lines (hname : ∀ c ∈ a.name.toList, isWordChar c = true)
    (h : ∀ p ∈ a.parameters, IsOperand p.toList) : parameters? a.lines = some a.parameters :=
  parameters?_header false hname h a.target _

theorem isOperand_base (base : UrlBase) : IsOperand base.source.toList := by
  cases base with
  | own =>
    show IsOperand "self._url".toList
    exact ⟨.inert rfl, _, _, rfl, rfl⟩
  | client base =>
    have hin : Whole ("self._base_url or ".toList ++ (doubleQuoted base).toList) :=
      (Whole.inert rfl).append (isOperand_doubleQuoted base).whole
    have hbracketed :
        IsOperand ('(' :: ("self._base_url or ".toList ++ (doubleQuoted base).toList) ++ [')']) :=
      ⟨.bracketed (fun depth => hin (depth + 1)) rfl rfl, '(', _, List.cons_append, rfl⟩
    show IsOperand ("(self._base_url or " ++ doubleQuoted base ++ ")").toList
    rw [String.toList_append, String.toList_append]
    exact hbracketed

/-- The source of the mapping of an accessor. -/
def mapping (a : Accessor) : String := mappingSource (a.args.map fun p => (p.placeholder, p.name))

/-- What the URL of a resource is joined from. -/
def joinArgs (a : Accessor) : List String :=
  a.base.source :: doubleQuoted a.path :: if a.args.isEmpty then [] else [a.mapping]

/-- The last line of an accessor returns the resource with its URL. -/
theorem getLast?_lines :
    a.lines.getLast? = some ("        return " ++ a.target ++ "(self._transport, " ++
    ("join_url" ++ "(" ++ ", ".intercalate a.joinArgs ++ ")") ++ ")") := by
  have hjoin : "join_url(" ++ a.base.source ++ ", " ++ doubleQuoted a.path ++
      (if a.args.isEmpty then "" else ", " ++ a.mapping) ++ ")" =
      "join_url" ++ "(" ++ ", ".intercalate a.joinArgs ++ ")" := by
    rw [← String.toList_inj, joinArgs]
    cases a.args.isEmpty <;> simp
  rw [← hjoin, Accessor.lines, List.getLast?_append, List.getLast?_singleton]
  rfl

/-- The mapping of an accessor has each of its arguments under its placeholder. -/
theorem filled?_lines (htarget : ∀ c ∈ a.target.toList, isWordChar c = true)
    (hargs : ∀ p ∈ a.args, Whole p.name.toList) :
    filled? a.lines = some (a.args.map fun p => (p.placeholder, p.name)) := by
  have hentries : ∀ e ∈ a.args.map fun p => (p.placeholder, p.name), Whole e.2.toList :=
    List.forall_mem_map.2 hargs
  have hoperands : ∀ o ∈ a.joinArgs.map String.toList, IsOperand o := by
    refine List.forall_mem_map.2
      (List.forall_mem_cons.2 ⟨isOperand_base a.base, List.forall_mem_cons.2
      ⟨isOperand_doubleQuoted a.path, fun o ho => ?_⟩⟩)
    split at ho
    · cases ho
    · obtain rfl := List.mem_singleton.1 ho
      exact isOperand_mapping hentries
  have hjoin := isOperand_call "join_url" rfl ⟨_, _, rfl, rfl⟩ a.joinArgs fun o ho =>
    (hoperands o ho).whole
  have hcall := call?_source "join_url" hoperands
  rw [filled?, getLast?_lines]
  generalize "join_url" ++ "(" ++ ", ".intercalate a.joinArgs ++ ")" = joined at hjoin hcall
  have hline : ("        return " ++ a.target ++ "(self._transport, " ++ joined ++ ")").toList =
      "        return ".toList ++ (a.target.toList ++
        '(' :: ([',', ' '].intercalate ["self._transport".toList, joined.toList] ++
          ')' :: [])) := by
    simp only [String.toList_append, List.append_assoc, List.intercalate_cons_cons,
      List.intercalate_singleton]
    rfl
  have hopen : ∀ rest : List Char, ('(' :: rest).dropPrefix? ['('] = some rest :=
    dropPrefix?_append ['(']
  have hoperands : ∀ p ∈ ["self._transport".toList, joined.toList], IsOperand p :=
    List.forall_mem_cons.2 ⟨⟨.inert rfl, _, _, rfl, rfl⟩, List.forall_mem_singleton.2 hjoin⟩
  have hread := operands?_joined hoperands (c := ')') rfl []
  simp only [Option.bind_eq_bind, Option.bind_some, hline, dropPrefix?_append,
    dropWhile_callee htarget, hopen, hread,
    List.getElem?_cons_succ, List.getElem?_cons_zero, hcall, joinArgs]
  cases hempty : a.args.isEmpty with
  | true => simp [List.isEmpty_iff.1 hempty]
  | false => simp [mapping, entries?_mapping hentries]

end Accessor

/-! ## Operations that are built -/

namespace Build

variable {env : Env} {config : ClientConfig}

/-- What a param is fixed to, or has by default, is passed as a whole: its literal, or a member of
an enum. -/
theorem whole_valueExpr (hu : Yields (unify env.resolution config) env.table) {p : Param}
    {text place : String} {type : ValueType} {v : ValueExpr}
    (h : valueExpr env p text type place = .ok v) : Whole v.source.toList := by
  unfold valueExpr at h
  split at h
  · obtain ⟨l, -, rfl⟩ := Result.map_ok.1 h
    exact whole_literal l
  · rename_i e henum
    split at h
    · rename_i member value hmember
      obtain rfl := Except.ok.inj h
      have he : e ∈ env.table.enums := by
        rw [TypeTable.enumFor?] at henum
        split at henum
        · cases henum
        · exact List.mem_of_find?_eq_some henum
      have hname : Whole e.name.toList :=
        whole_nameChars ((unify_names hu).capital.2 e he).isNameChar
      have hmembers := (unify_wellNamed hu e he).members
      obtain ⟨w, -, hw⟩ := List.mem_map.1 (hmembers ▸ List.mem_of_find?_eq_some hmember)
      obtain ⟨rfl, -⟩ := Prod.mk.inj hw
      show Whole (e.name ++ "." ++ constant w).toList
      rw [String.toList_append, String.toList_append]
      exact (hname.append (.inert rfl)).append (whole_nameChars (isNameChar_constant w))
    · cases h

/-- The name of an argument is passed as a whole. -/
theorem whole_argument {scope scope' : NameScope} {p : Param} {type : ValueType} {source : String}
    {required : Bool} {arg : Argument}
    (h : Yields (argument env scope p type source required) (arg, scope')) :
    Whole arg.name.toList := by
  have hclaimed : ∀ {name inner},
      Yields (claim scope (nameOf env p.name) source : Generating _) (name, inner) →
      Whole name.toList := by
    intro name inner hname
    rw [(claim_takes hname.lift).2]
    exact whole_nameChars (isNameChar_escaped (isNameChar_identifier _ _) scope)
  unfold argument at h
  obtain ⟨⟨name, inner⟩, hname, h⟩ := h.bind
  simp only at h
  split at h
  all_goals
    obtain ⟨doc, -, h⟩ := h.bind
    split at h
    · obtain ⟨rfl, rfl⟩ := Prod.mk.inj h.pure
      exact hclaimed hname
    · split at h
      · obtain ⟨v, -, h⟩ := h.bind
        obtain ⟨rfl, rfl⟩ := Prod.mk.inj h.pure
        exact hclaimed hname
      · obtain ⟨rfl, rfl⟩ := Prod.mk.inj h.pure
        exact hclaimed hname

/-- The values of a draft are passed as a whole. -/
def Draft.Whole (d : Draft) : Prop := ∀ style, ∀ e ∈ d.values style, Source.Whole e.2.source.toList

theorem Draft.Whole.push {d : Draft} (h : d.Whole) {x : String × ValueExpr}
    (hx : Source.Whole x.2.source.toList) (style : ParamStyle) : (d.push style x).Whole := by
  have happend : ∀ {es : List (String × ValueExpr)}, (∀ e ∈ es, Source.Whole e.2.source.toList) →
      ∀ e ∈ es ++ [x], Source.Whole e.2.source.toList := fun hes =>
    List.forall_mem_append.2 ⟨hes, List.forall_mem_singleton.2 hx⟩
  intro style'
  have hold := h style'
  cases style <;> cases style' <;> first | exact hold | exact happend hold

theorem Draft.Whole.supply (hu : Yields (unify env.resolution config) env.table)
    {d d' : Draft} (hd : d.Whole) {p : Param} {source : String} {required : Bool}
    (h : Yields (supply env d p source required) d') : d'.Whole := by
  obtain ⟨type, -, h⟩ := h.bind
  cases hfixed : p.fixed with
  | some text =>
    rw [hfixed] at h
    obtain ⟨v, hv, h⟩ := h.bind
    rw [← h.pure]
    exact hd.push (whole_valueExpr hu hv.lift) p.style
  | none =>
    rw [hfixed] at h
    obtain ⟨⟨arg, scope⟩, harg, h⟩ := h.bind
    rw [← h.pure]
    exact fun style =>
      hd.push (x := (p.name, .argument arg.name)) (whole_argument harg) p.style style

theorem docstring_quote {text doc : String} (h : docstring text = some doc) :
    ∃ cs, doc.toList = '"' :: cs := by
  simp only [docstring] at h
  split at h
  · cases h
  · rw [← Option.some.inj h]
    simp only [String.toList_append, List.append_assoc]
    exact ⟨_, rfl⟩

/-- The documentation of an operation begins with a quote. -/
theorem operationDoc_quote {m : Method} {args : List Argument} {doc : Option String}
    (h : Yields (operationDoc env m args) doc) :
    ∀ d, doc = some d → ∃ cs, d.toList = '"' :: cs := by
  rintro d rfl
  unfold operationDoc at h
  split at h
  · obtain ⟨text, -, h⟩ := h.bind
    simp only at h
    split at h
    · exact docstring_quote h.pure
    · exact docstring_quote h.pure
  · cases h.pure

/-- The name of a body is passed as a whole. -/
theorem whole_body {m : Placed Method} {d d' : Draft} {body : Option SentBody}
    (h : sentBody env m d = .ok (body, d')) : (∀ b, body = some b → Whole b.argument.toList) ∧
      ∀ style, d'.values style = d.values style := by
  rw [sentBody] at h
  split at h
  · obtain ⟨rfl, rfl⟩ := Prod.mk.inj (Result.pure_ok.1 h)
    exact ⟨nofun, fun _ => rfl⟩
  · obtain ⟨reps, -, h⟩ := Result.bind_ok.1 h
    split at h
    · obtain ⟨rfl, rfl⟩ := Prod.mk.inj (Result.pure_ok.1 h)
      exact ⟨nofun, fun _ => rfl⟩
    · obtain ⟨⟨name, scope⟩, hname, h⟩ := Result.bind_ok.1 h
      obtain ⟨rfl, rfl⟩ := Prod.mk.inj (Result.pure_ok.1 h)
      have hchars : ∀ c ∈ "body".toList, IsNameChar c := by
        simp [IsNameChar, CharClass.isAsciiAlphanumeric_iff]
        decide
      refine ⟨fun b hb => ?_, fun style => by cases style <;> rfl⟩
      obtain rfl := Option.some.inj hb
      rw [(claim_takes hname).2]
      exact whole_nameChars (isNameChar_escaped hchars d.scope)

/-- The lines of an operation can be read, as long as the types of the client are those of the
description. -/
theorem readable_operation (hu : Yields (unify env.resolution config) env.table) {c : Container}
    {className : String} {methods : List (Placed Method)} {scope scope' : NameScope}
    {m : Placed Method} {op : Operation}
    (h : Yields (operation env c className methods scope m) (op, scope')) : op.Readable := by
  have hdoc : ∃ args, Yields (operationDoc env m.value args) op.doc := by
    obtain ⟨⟨name, inner⟩, -, h⟩ := h.bind
    obtain ⟨left, -, h⟩ := h.bind
    obtain ⟨d₁, -, h⟩ := h.bind
    obtain ⟨d₂, -, h⟩ := h.bind
    obtain ⟨d₃, -, h⟩ := h.bind
    obtain ⟨⟨body, d⟩, -, h⟩ := h.bind
    obtain ⟨accept, -, h⟩ := h.bind
    obtain ⟨branches, -, h⟩ := h.bind
    obtain ⟨doc, hdoc, h⟩ := h.bind
    obtain ⟨rfl, -⟩ := Prod.mk.inj h.pure
    exact ⟨d.args, hdoc⟩
  obtain ⟨args, hdoc⟩ := hdoc
  obtain ⟨left, d₁, d₂, d₃, d₄, hsteps, -, -, -, -, htemplate, hmatrix, hquery, hheader⟩ :=
    operation_yields h
  have hdraft : d₃.Whole := by
    refine hsteps.keeps Draft.Whole (fun label style e he => ?_) (fun d name hd style => ?_)
      fun d d' p source required hd h => hd.supply hu h
    · cases style <;> cases he
    · have hold := hd style
      cases style <;> exact hold
  obtain ⟨hbody, hvalues⟩ := whole_body hsteps.body
  refine ⟨operationDoc_quote hdoc, fun style => ?_, hbody⟩
  have hop : op.values style = d₃.values style := by
    rw [← hvalues]
    cases style <;> assumption
  rw [hop]
  exact hdraft style

/-! ### Accessors -/

/-- The arguments of an accessor are passed as a whole. -/
theorem whole_placeholderArgs {decls : List Param} {label : String} {names : List String}
    {scope : NameScope} {args : List PlaceholderArg}
    (h : placeholderArgs env decls label scope names = .ok args) :
    ∀ p ∈ args, Whole p.name.toList := by
  induction names generalizing scope args with
  | nil =>
    obtain rfl := Except.ok.inj h
    exact nofun
  | cons name rest ih =>
    rw [placeholderArgs] at h
    split at h
    · exact ih h
    · obtain ⟨⟨given, inner⟩, hgiven, h⟩ := Result.bind_ok.1 h
      obtain ⟨type, -, h⟩ := Result.bind_ok.1 h
      obtain ⟨args', hargs, h⟩ := Result.bind_ok.1 h
      obtain rfl := Result.pure_ok.1 h
      refine List.forall_mem_cons.2 ⟨?_, ih hargs⟩
      show Whole given.toList
      rw [(claim_takes hgiven).2]
      exact whole_nameChars (isNameChar_escaped (isNameChar_identifier _ _) scope)

/-- The mapping of an accessor is read from its lines, if the classes of the client have proper
names. -/
theorem filled?_accessor (hclasses : ∀ x ∈ env.classNames, Capital x.2) {scope scope' : NameScope}
    {child : Container} {res : Resource} {base : UrlBase} {wanted : String} {a : Accessor}
    (h : Yields (accessor env scope child res base wanted) (a, scope')) :
    filled? a.lines = some (a.args.map fun p => (p.placeholder, p.name)) := by
  obtain ⟨-, htarget, decls, -, hargs⟩ := accessor_yields h
  have hword : ∀ c, IsNameChar c → isWordChar c = true := by
    rintro c (hc | rfl)
    · simp [isWordChar, hc]
    · rfl
  obtain ⟨place, hplace⟩ : ∃ place, (place, a.target) ∈ env.classNames :=
    ⟨_, mem_of_lookup (classAt_ok.1 htarget)⟩
  exact Accessor.filled?_lines (fun c hc => hword c ((hclasses _ hplace).isNameChar c hc))
    (whole_placeholderArgs hargs)

end Build

/-- Each accessor of a client with the types of a description passes each of its arguments on, under
its placeholder. -/
theorem accessors_filled {r : Resolution} {first config : ClientConfig} {table : TypeTable}
    {s s' t t' : List Notice} {m : ClientModule} (hu : Gives (unify r first) s table s')
    (h : Gives (buildModule r table config) t m t') :
    ∀ a ∈ m.entry.accessors ++ m.classes.flatMap (·.accessors),
      filled? a.lines = some (a.args.map fun p => (p.placeholder, p.name)) := by
  obtain ⟨classNames, hbuilt⟩ := Build.built_of_yields h.yields
  obtain ⟨names, htakes, -, -⟩ := (unify_names hu.yields).given
  have hclasses : ∀ x ∈ classNames, Capital x.2 := fun x hx =>
    ((Build.claimClasses_takes (htakes.reserved.trans (moduleScope_reserved first))
      hbuilt.classNames).2 x hx).1
  have hnamed : ∀ {scope children as},
      Yields (Build.namedAccessors ⟨r, table, config, classNames, r.containers⟩ scope
      children) as → ∀ a ∈ as, filled? a.lines =
        some (a.args.map fun p => (p.placeholder, p.name)) := by
    intro scope children as has a ha
    obtain ⟨x, -, inner, inner', wanted, hmade⟩ := Build.namedAccessors_mem has a ha
    exact Build.filled?_accessor hclasses hmade
  refine List.forall_mem_append.2 ⟨?_, fun a ha => ?_⟩
  · obtain ⟨scope, wanted, hentry⟩ := hbuilt.exists_entryAccessors
    exact hnamed hentry
  · obtain ⟨cls, hcls, ha⟩ := List.mem_flatMap.1 ha
    obtain ⟨c, hmade⟩ := hbuilt.exists_classMade hcls
    obtain ⟨-, scope, -, -, haccessors⟩ := hmade.members
    exact hnamed haccessors a ha

/-- The lines of each operation of a client with the types of a description pass on its values. -/
theorem operations_passed {r : Resolution} {first config : ClientConfig} {table : TypeTable}
    {s s' t t' : List Notice} {m : ClientModule} (hu : Gives (unify r first) s table s')
    (h : Gives (buildModule r table config) t m t') :
    ∀ cls ∈ m.classes, ∀ op ∈ cls.operations, ∀ isAsync style,
      passed? (op.lines isAsync) style = some (op.written style) := by
  intro cls hcls op hop
  obtain ⟨classNames, hbuilt⟩ := Build.built_of_yields h.yields
  have htypes : Yields
      (unify (⟨r, table, config, classNames, r.containers⟩ : Build.Env).resolution first)
      (⟨r, table, config, classNames, r.containers⟩ : Build.Env).table := hu.yields
  obtain ⟨c, hmade⟩ := hbuilt.exists_classMade hcls
  obtain ⟨methods, scope, -, hops, -⟩ := hmade.members
  obtain ⟨method, -, inner, inner', hmadeOp⟩ :=
    exists_left_of_forall₂ (Build.operations_forall₂ hops) hop
  exact (Build.readable_operation htypes hmadeOp).passed?_lines

end Wadl
