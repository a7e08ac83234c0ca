import Wadl.Proofs.Client.Closed
import Wadl.Proofs.Client.Layout

/-!
# Clients that wait and clients that block

Whether a client waits, whether it has documentation and whether code is left out of that
(`ClientConfig.restyled`) do not matter for the types of a client (`unify_restyled`) nor for what
its builder finds out about params, placeholders, fields and links: one lemma for each function that
recurses. What is not recursive is the same for both settings by its definition.

Whether a client waits reaches nothing but its texts. Types and their names do not depend on it
(`unify_withMode`), nor does anything that is built (`buildModule_withMode`), notices included. The
texts differ in the name of the transport, in the lead of an operation and in the line that sends
its request, which is the only one that can wait (`Operation.text_awaits`). So the texts of the
blocking client are those of the other one, with these three taken out (`clientText_blocking`).
-/

namespace Wadl

/-! ## Settings that reach neither names nor types -/

section Restyled

/-- Settings with another appearance of the client. -/
def ClientConfig.restyled (config : ClientConfig) (isAsync includeDocs skipCode : Bool) :
    ClientConfig :=
  { config with isAsync, includeDocs, skipCode }

variable {r : Resolution} {config : ClientConfig} {isAsync includeDocs skipCode : Bool}

/-! ### Types -/

/-- Names of types do not depend on the mode, nor on documentation. -/
theorem Unify.nameOthers_restyled {scope : NameScope} {classes : ClassScopes} {groups : Groups} :
    nameOthers (config.restyled isAsync includeDocs skipCode) scope classes groups =
      nameOthers config scope classes groups := by
  induction groups generalizing scope classes with
  | nil => rfl
  | cons g rest ih =>
    rw [nameOthers, nameOthers]
    simp only [ih]
    rfl

/-- The types of a client and their names do not depend on its appearance. -/
theorem unify_restyled :
    unify r (config.restyled isAsync includeDocs skipCode) = unify r config := by
  simp only [unify, Unify.nameOthers_restyled]
  rfl

/-! ### Building -/

namespace Build

/-- What building relies on, with settings for another appearance. -/
def Env.restyled (env : Env) (isAsync includeDocs skipCode : Bool) : Env :=
  { env with config := env.config.restyled isAsync includeDocs skipCode }

variable {env : Env}

theorem scopeParams_restyled {stations : List Station} :
    scopeParams (env.restyled isAsync includeDocs skipCode) stations =
      scopeParams env stations := by
  induction stations with
  | nil => rfl
  | cons s above ih =>
    rw [scopeParams, scopeParams, ih]
    rfl

theorem templateDecls_restyled {stations : List Station} :
    templateDecls (env.restyled isAsync includeDocs skipCode) stations =
      templateDecls env stations := by
  rw [templateDecls, templateDecls, scopeParams_restyled]

/-- What accessors leave open does not depend on the mode, nor on documentation. -/
theorem pending_restyled {stations : List Station} :
    pending (env.restyled isAsync includeDocs skipCode) stations = pending env stations := by
  induction stations with
  | nil => rfl
  | cons s above ih =>
    rw [pending, pending]
    simp only [ih, templateDecls_restyled]

/-- Helpers do not depend on the mode, nor on documentation. -/
theorem followHelpers_restyled {scope : NameScope} {field : String} {p : Param}
    {links : List Link} :
    followHelpers (env.restyled isAsync includeDocs skipCode) scope field p links =
      followHelpers env scope field p links := by
  induction links generalizing scope with
  | nil => rfl
  | cons link rest ih =>
    rw [followHelpers, followHelpers]
    simp only [ih]
    rfl

/-- Fields do not depend on the mode, nor on documentation. -/
theorem modelFields_restyled {owner : String} {scope : NameScope} {params : List Param} :
    modelFields (env.restyled isAsync includeDocs skipCode) owner scope params =
      modelFields env owner scope params := by
  induction params generalizing scope with
  | nil => rfl
  | cons p rest ih =>
    rw [modelFields, modelFields]
    simp only [ih, followHelpers_restyled]
    rfl

/-- The arguments of accessors do not depend on the mode, nor on documentation. -/
theorem placeholderArgs_restyled {decls : List Param} {label : String} {scope : NameScope}
    {placeholders : List String} :
    placeholderArgs (env.restyled isAsync includeDocs skipCode) decls label scope placeholders =
      placeholderArgs env decls label scope placeholders := by
  induction placeholders generalizing scope with
  | nil => rfl
  | cons placeholder rest ih =>
    rw [placeholderArgs, placeholderArgs]
    simp only [ih]
    rfl

theorem findTemplate?_restyled {name : String} {items : List ParamItem} :
    findTemplate? (env.restyled isAsync includeDocs skipCode) name items =
      findTemplate? env name items := by
  induction items with
  | nil => rfl
  | cons item rest ih =>
    rw [findTemplate?, findTemplate?]
    simp only [ih]
    rfl

end Build

end Restyled

/-! ## Settings for the other kind of client -/

/-- Settings for a client that waits, or for one that blocks. -/
def ClientConfig.withMode (config : ClientConfig) (isAsync : Bool) : ClientConfig :=
  { config with isAsync }

variable {r : Resolution} {config : ClientConfig} {isAsync : Bool}

/-! ### Types -/

/-- The types of a client and their names do not depend on whether it waits. -/
theorem unify_withMode : unify r (config.withMode isAsync) = unify r config :=
  unify_restyled

/-! ### Building -/

namespace Build

/-- What building relies on, with settings for the other kind of client. -/
def Env.withMode (env : Env) (isAsync : Bool) : Env :=
  { env with config := env.config.withMode isAsync }

variable {env : Env}

/-- Another mode is another style with the same documentation. -/
theorem Env.withMode_eq :
    env.withMode isAsync = env.restyled isAsync env.config.includeDocs env.config.skipCode :=
  rfl

theorem modelClass_withMode : modelClass (env.withMode isAsync) = modelClass env := by
  funext c
  simp only [modelClass, Env.withMode_eq, modelFields_restyled]
  rfl

/-- An accessor is the same in both modes. -/
theorem accessor_withMode : accessor (env.withMode isAsync) = accessor env := by
  funext scope child r base wanted
  simp only [accessor, Env.withMode_eq, placeholderArgs_restyled, templateDecls_restyled]
  rfl

theorem accessors_withMode {scope : NameScope}
    {children : List ((Container × Resource × UrlBase) × String)} :
    accessors (env.withMode isAsync) scope children = accessors env scope children := by
  induction children generalizing scope with
  | nil => rfl
  | cons child rest ih =>
    obtain ⟨⟨c, r, base⟩, name⟩ := child
    rw [accessors, accessors]
    simp only [ih, accessor_withMode]

theorem namedAccessors_withMode {scope : NameScope}
    {children : List (Container × Resource × UrlBase)} :
    namedAccessors (env.withMode isAsync) scope children = namedAccessors env scope children :=
  accessors_withMode

theorem addPlaceholder_withMode : addPlaceholder (env.withMode isAsync) = addPlaceholder env := by
  funext left isType className methods d placeholder
  simp only [addPlaceholder, placeholderDecl, Env.withMode_eq, findTemplate?_restyled]
  rfl

/-- An operation is the same in both modes, until it is printed. -/
theorem operation_withMode : operation (env.withMode isAsync) = operation env := by
  funext c className methods scope m
  have hpending : pending (env.withMode isAsync) (c.here :: c.above) =
      pending env (c.here :: c.above) :=
    pending_restyled
  simp only [operation, hpending, addPlaceholders, addPlaceholder_withMode]
  rfl

theorem operations_withMode {c : Container} {className : String} {scope : NameScope}
    {methods ms : List (Placed Method)} :
    operations (env.withMode isAsync) c className methods scope ms =
      operations env c className methods scope ms := by
  induction ms generalizing scope with
  | nil => rfl
  | cons m rest ih =>
    rw [operations, operations]
    simp only [ih, operation_withMode]

/-- A class is the same in both modes. -/
theorem resourceClass_withMode : resourceClass (env.withMode isAsync) = resourceClass env := by
  funext c
  simp only [resourceClass, modelClass_withMode, operations_withMode, namedAccessors_withMode]
  rfl

/-- The entry class is the same in both modes. -/
theorem entryClass_withMode : entryClass (env.withMode isAsync) = entryClass env := by
  simp only [entryClass, namedAccessors_withMode]
  rfl

theorem moduleDoc_withMode : moduleDoc (env.withMode isAsync) = moduleDoc env := rfl

end Build

open Build in
/-- What is built is the same whether the client waits or not, but for the mark that says so. -/
theorem buildModule_withMode {table : TypeTable} :
    buildModule r table (config.withMode isAsync) =
      (fun m => { m with isAsync }) <$> buildModule r table config := by
  have henv : ∀ classNames containers,
      (⟨r, table, config.withMode isAsync, classNames, containers⟩ : Env) =
      Env.withMode ⟨r, table, config, classNames, containers⟩ isAsync := fun _ _ => rfl
  simp only [buildModule, henv, modelClass_withMode, resourceClass_withMode, entryClass_withMode,
    moduleDoc_withMode, map_bind, map_pure]
  rfl

/-! ## Texts -/

/-- The line of an operation that sends the request and waits for the response. -/
def awaitingLine : String := "_response = await self._transport.request("

/-- A line of an operation, without waiting. -/
def withoutAwait (line : String) : String :=
  if line = awaitingLine then "_response = self._transport.request(" else line

/-- The class that sends requests and blocks, in place of the one that does not. -/
def blockingTransport (name : String) : String :=
  if name = "AsyncTransport" then "Transport" else name

def HelperText.blocking (h : HelperText) : HelperText :=
  { h with transport := blockingTransport h.transport }

def ModelText.blocking (m : ModelText) : ModelText :=
  { m with follows := m.follows.map HelperText.blocking }

def OperationText.blocking (op : OperationText) : OperationText :=
  { op with
    lead := if op.lead = "async " then "" else op.lead
    body := op.body.map withoutAwait }

def ClassText.blocking (c : ClassText) : ClassText :=
  { c with
    nested := c.nested.map ModelText.blocking
    operations := c.operations.map OperationText.blocking }

/-- The texts of a client, without what only a client that waits has. -/
def ClientText.blocking (c : ClientText) : ClientText :=
  { c with
    transport := blockingTransport c.transport
    models := c.models.map ModelText.blocking
    classes := c.classes.map ClassText.blocking }

/-- How often an operation waits for a response. -/
def OperationText.awaits (op : OperationText) : Nat := op.body.count awaitingLine

/-- The helpers of all models, also of those that stand in classes. -/
def ClientText.helpers (c : ClientText) : List HelperText :=
  (c.models ++ c.classes.flatMap (·.nested)).flatMap (·.follows)

def ClientText.operations (c : ClientText) : List OperationText := c.classes.flatMap (·.operations)

/-! ## What waits -/

/-- The line that sends the request. -/
def sendingLine (isAsync : Bool) : String :=
  if isAsync then awaitingLine else "_response = self._transport.request("

/-- The lines of the body of an operation after the one that sends the request. -/
def Operation.otherLines (op : Operation) : List String :=
  (op.callLines false).tail ++ op.branches.flatMap Branch.lines ++
    ["raise UnexpectedStatus(_response)"]

/-- The body of an operation depends on the kind of client in its first line. -/
theorem Operation.text_body (op : Operation) :
    (op.text isAsync).body = sendingLine isAsync :: op.otherLines := by
  cases isAsync <;> rfl

/-- A line that begins with another character than the one that sends the request. -/
def BeginsOtherwise (line : String) : Prop := ∃ c, line.toList.head? = some c ∧ c ≠ '_'

namespace BeginsOtherwise

/-- How a line begins is not changed by what is added to it. -/
theorem append {start rest : String} (h : BeginsOtherwise start) :
    BeginsOtherwise (start ++ rest) := by
  obtain ⟨c, hc, hne⟩ := h
  exact ⟨c, by rw [String.toList_append, List.head?_append, hc, Option.some_or], hne⟩

/-- A line that begins otherwise is not the one that waits. -/
theorem ne_awaitingLine {line : String} (h : BeginsOtherwise line) : line ≠ awaitingLine := by
  rintro rfl
  obtain ⟨c, hc, hne⟩ := h
  exact hne (Option.some.inj hc).symm

end BeginsOtherwise

/-- No line of a choice is the one that waits. -/
theorem choiceLines_begin {isError : Bool} {choices : List Choice} {line : String}
    (h : line ∈ choiceLines isError choices) : BeginsOtherwise line := by
  induction choices with
  | nil =>
    obtain rfl := List.mem_singleton.1 h
    exact ⟨' ', rfl, by decide⟩
  | cons c rest ih =>
    rw [choiceLines] at h
    cases hmedia : c.mediaType with
    | none =>
      rw [hmedia] at h
      obtain rfl := List.mem_singleton.1 h
      exact .append ⟨' ', rfl, by decide⟩
    | some m =>
      rw [hmedia] at h
      rcases List.mem_append.1 h with h | h
      · rcases List.mem_pair.1 h with rfl | rfl
        · exact .append (.append ⟨' ', rfl, by decide⟩)
        · exact .append ⟨' ', rfl, by decide⟩
      · exact ih h

/-- No line of a branch is the one that waits. -/
theorem Branch.lines_begin {b : Branch} {line : String} (h : line ∈ b.lines) :
    BeginsOtherwise line := by
  rcases List.mem_cons.1 h with rfl | h
  · split
    · exact ⟨'i', rfl, by decide⟩
    · exact .append (.append ⟨'i', rfl, by decide⟩)
  · split at h
    · obtain rfl := List.mem_singleton.1 h
      cases b.isError <;> exact ⟨' ', rfl, by decide⟩
    · exact choiceLines_begin h

/-- Of the lines that send a request only the first can wait. -/
theorem Operation.callLines_begin {op : Operation} {line : String}
    (h : line ∈ (op.callLines isAsync).tail) : BeginsOtherwise line := by
  have hspace : ∀ rest, BeginsOtherwise ("    " ++ rest) := fun _ => .append ⟨' ', rfl, by decide⟩
  rw [callLines, List.append_assoc, List.append_assoc, List.cons_append,
    List.tail_cons, List.cons_append, List.cons_append, List.nil_append] at h
  -- the method, the URL, the headers, the body and the closing parenthesis
  rcases List.mem_cons.1 h with rfl | h
  · exact (hspace _).append
  rcases List.mem_cons.1 h with rfl | h
  · exact .append (.append ⟨' ', rfl, by decide⟩)
  rcases List.mem_append.1 h with h | h
  · split at h
    · exact absurd h List.not_mem_nil
    · obtain rfl := List.mem_singleton.1 h
      exact .append (.append ⟨' ', rfl, by decide⟩)
  rcases List.mem_append.1 h with h | h
  · obtain ⟨b, -, rfl⟩ := List.mem_map.1 h
    exact .append (.append (.append (.append ⟨' ', rfl, by decide⟩)))
  · obtain rfl := List.mem_singleton.1 h
    exact ⟨')', rfl, by decide⟩

/-- Only one line of an operation waits. -/
theorem Operation.awaitingLine_notMem (op : Operation) : awaitingLine ∉ op.otherLines := by
  suffices h : ∀ line ∈ op.otherLines,
    BeginsOtherwise line from fun hmem => (h _ hmem).ne_awaitingLine rfl
  intro line h
  rcases List.mem_append.1 h with h | h
  · rcases List.mem_append.1 h with h | h
    · exact callLines_begin h
    · obtain ⟨b, -, hb⟩ := List.mem_flatMap.1 h
      exact Branch.lines_begin hb
  · obtain rfl := List.mem_singleton.1 h
    exact ⟨'r', rfl, by decide⟩

/-- An operation waits once, if its client waits at all. -/
theorem Operation.text_awaits (op : Operation) :
    (op.text isAsync).awaits = if isAsync then 1 else 0 := by
  rw [OperationText.awaits, op.text_body, List.count_cons,
    List.count_eq_zero.2 op.awaitingLine_notMem]
  cases isAsync <;> decide

/-! ## The texts of both clients -/

theorem FollowHelper.text_blocking (h : FollowHelper) : (h.text true).blocking = h.text false := rfl

/-- A model without waiting is that of the other mode. -/
theorem ModelClass.text_blocking (m : ModelClass) : (m.text true).blocking = m.text false := by
  simp only [ModelClass.text, ModelText.blocking, List.map_map, Function.comp_def,
    FollowHelper.text_blocking]

/-- Without its lead and its waiting an operation is that of the client that blocks. -/
theorem Operation.text_blocking (op : Operation) : (op.text true).blocking = op.text false := by
  have hbody : (op.text true).body.map withoutAwait = (op.text false).body := by
    have hkeep : ∀ line ∈ op.otherLines, withoutAwait line = line := fun line h =>
      if_neg (ne_of_mem_of_not_mem h op.awaitingLine_notMem)
    rw [op.text_body, op.text_body, List.map_cons, List.map_congr_left hkeep, List.map_id']
    rfl
  rw [OperationText.blocking, hbody]
  rfl

/-- A class without waiting is that of the other mode. -/
theorem ResourceClass.text_blocking (c : ResourceClass) :
    (c.text true).blocking = c.text false := by
  simp only [ResourceClass.text, ClassText.blocking, List.map_map, Function.comp_def,
    ModelClass.text_blocking, Operation.text_blocking]

/-- A client without waiting is that of the other mode. -/
theorem ClientModule.text_blocking (m : ClientModule) :
    ({ m with isAsync := true } : ClientModule).text.blocking =
      ({ m with isAsync := false } : ClientModule).text := by
  simp only [ClientModule.text, ClientText.blocking, List.map_map, Function.comp_def,
    ModelClass.text_blocking, ResourceClass.text_blocking]
  rfl

/-- The texts of the client of a resolved description. -/
def clientText (r : Resolution) (config : ClientConfig) : Generating ClientText := do
  return (← buildModule r (← unify r config) config).text

/-- The texts are made of what is built for a client of either kind. -/
theorem clientText_withMode : clientText r (config.withMode isAsync) =
    (fun m : ClientModule => ({ m with isAsync } : ClientModule).text) <$>
      (unify r config >>= fun table => buildModule r table config) := by
  simp only [clientText, unify_withMode, buildModule_withMode, bind_pure_comp,
    map_bind, Functor.map_map]

/-- Two clients of a description that differ only in whether they wait cannot be built for the same
reason, with the same notices; otherwise the texts of the one that blocks are those of the other one
with the asynchronous transport replaced and without the lead of the operations and the waiting of
their bodies, which occurs once in each. -/
theorem clientText_blocking (r : Resolution) (config : ClientConfig) :
    clientText r (config.withMode false) =
      ClientText.blocking <$> clientText r (config.withMode true) ∧
    ∀ text, Yields (clientText r (config.withMode true)) text →
      text.transport = "AsyncTransport" ∧ (∀ h ∈ text.helpers, h.transport = "AsyncTransport") ∧
      ∀ op ∈ text.operations, op.lead = "async " ∧ op.awaits = 1 := by
  refine ⟨?_, fun text h => ?_⟩
  · simp only [clientText_withMode, Functor.map_map, ClientModule.text_blocking]
  · rw [clientText_withMode] at h
    obtain ⟨m, -, rfl⟩ := h.map
    have hmodels : ∀ models : List ModelClass, ∀ text ∈ models.map (·.text true),
        ∀ h ∈ text.follows, h.transport = "AsyncTransport" := by
      intro models text htext h hh
      obtain ⟨model, -, rfl⟩ := List.mem_map.1 htext
      obtain ⟨helper, -, rfl⟩ := List.mem_map.1 hh
      rfl
    refine ⟨rfl, fun h hh => ?_, fun op hop => ?_⟩
    · obtain ⟨text, htext, hh⟩ := List.mem_flatMap.1 hh
      rcases List.mem_append.1 htext with htext | htext
      · exact hmodels _ text htext h hh
      · obtain ⟨cls, hcls, htext⟩ := List.mem_flatMap.1 htext
        obtain ⟨c, -, rfl⟩ := List.mem_map.1 hcls
        exact hmodels _ text htext h hh
    · obtain ⟨cls, hcls, hop⟩ := List.mem_flatMap.1 hop
      obtain ⟨c, -, rfl⟩ := List.mem_map.1 hcls
      obtain ⟨o, -, rfl⟩ := List.mem_map.1 hop
      exact ⟨rfl, o.text_awaits⟩

/-- A description with links makes the same client in both modes, apart from waiting. -/
theorem clientText_blocking_linkedShelves :
    let w : Web := ⟨linkedShelves, none, false⟩
    let config : ClientConfig := { inlineAnonymous := true }
    ∃ r n text t, Gives (resolveWith w.loading w.strict 4 w.app) [] r n ∧
      Gives (clientText r (config.withMode true)) [] text t ∧
      Gives (clientText r (config.withMode false)) [] text.blocking t ∧
      text.helpers.map (·.transport) = ["AsyncTransport"] ∧
      text.operations.map (fun op => (op.lead, op.awaits)) = [("async ", 1)] := by
  intro w config
  let hasOne (text : ClientText) : Bool := text.helpers.length = 1 ∧ text.operations.length = 1
  obtain ⟨r, n, hr, htext⟩ :=
    exists_gives_of_any (x := resolveWith w.loading w.strict 4 w.app) (s := [])
    (p := fun r =>
      (Id.run ((clientText r (config.withMode true)).run.run [])).1.toOption.any hasOne)
    (by decide +kernel)
  obtain ⟨text, t, hgives, hone⟩ := exists_gives_of_any htext
  obtain ⟨heq, hshape⟩ := clientText_blocking r config
  obtain ⟨-, htransports, hoperations⟩ := hshape text hgives.yields
  obtain ⟨hhelpers, hops⟩ := of_decide_eq_true hone
  obtain ⟨h, hh⟩ := List.length_eq_one_iff.1 hhelpers
  obtain ⟨op, hop⟩ := List.length_eq_one_iff.1 hops
  refine ⟨r, n, text, t, hr, hgives, ?_, ?_, ?_⟩
  · rw [heq]
    exact gives_map.2 ⟨text, hgives, rfl⟩
  · rw [hh, List.map_singleton, htransports h (by simp [hh])]
  · obtain ⟨hlead, hawaits⟩ := hoperations op (by simp [hop])
    rw [hop, List.map_singleton, hlead, hawaits]

end Wadl
