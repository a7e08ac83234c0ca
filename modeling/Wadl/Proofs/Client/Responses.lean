import Wadl.Proofs.Client.Building
import Wadl.Proofs.Client.Script
import Wadl.Proofs.Tables

/-!
# What operations do with responses

A response is declared for some statuses, or for all statuses of success (`Response.Covers`). The
first response of a method that covers a status decides what is done with an answer that has it
(`Method.Decides`), and `Build.endingFor` says what that is. The branches of an operation are made
of the responses one by one (`Build.branches_forall₂`), so that a run of its script ends as the
deciding response says (`Build.run_script_of_decides`). What the script can return is what the
operation is said to return (`returned_mem_returns`, `exists_returned_of_mem_returns`).
-/

namespace Wadl

open Statement

/-! ## Responses that are declared -/

/-- A response is declared for a status: it lists the status, or it lists none and the status is one
of success. -/
def Response.Covers (r : Response) (status : Int) : Prop :=
  status ∈ r.status ∨ r.status = [] ∧ 200 ≤ status ∧ status < 300

/-- A response is declared for statuses of errors only. -/
def Response.IsError (r : Response) : Prop := r.status ≠ [] ∧ ∀ status ∈ r.status, 400 ≤ status

instance (r : Response) (status : Int) : Decidable (r.Covers status) :=
  inferInstanceAs (Decidable (_ ∨ _))

instance (r : Response) : Decidable r.IsError := inferInstanceAs (Decidable (_ ∧ _))

/-- The responses that a method declares; without any, one without a body is expected. -/
def Method.expected (m : Method) : List Response :=
  if m.responses.isEmpty then [⟨[], [], [], []⟩] else m.responses

/-- The first response of a method that covers a status, with the count of those before it. -/
def Method.Decides (m : Method) (status : Int) (n : Nat) (r : Response) : Prop :=
  ∃ before after, m.expected = before ++ r :: after ∧ before.length = n ∧ r.Covers status ∧
    ∀ r' ∈ before, ¬r'.Covers status

/-- A status is covered by no response, or one decides it. -/
theorem Method.exists_decides {m : Method} {status : Int} {r : Response} (hr : r ∈ m.expected)
    (hcovers : r.Covers status) : ∃ n r, m.Decides status n r := by
  have hsome : (m.expected.find? (·.Covers status)).isSome := by
    rw [List.find?_isSome]
    exact ⟨r, hr, by simpa using hcovers⟩
  obtain ⟨r, hfind⟩ := Option.isSome_iff_exists.1 hsome
  obtain ⟨hcovers, before, after, hexpected, hbefore⟩ := List.find?_eq_some_iff_append.1 hfind
  exact ⟨before.length, r, before, after, hexpected,
    rfl, by simpa using hcovers, by simpa using hbefore⟩

namespace Build

variable {env : Env}

/-! ## Branches -/

/-- The form of a response that a representation stands for. -/
def formOf (env : Env) (rep : Placed Representation) : Choice :=
  ⟨rep.value.mediaType, modelOf env rep, bodyType env rep⟩

/-- What the handling of an answer ends with that a response decides, where `reps` are the
representations of the response: the first one in the order of preference that the answer fits says
how it is decoded. -/
def endingFor (env : Env) (r : Response) (reps : List (Placed Representation)) (a : Answer) :
    Ending :=
  match (preferred env (·.value.mediaType) reps).find? fun rep => a.fits rep.value.mediaType with
  | some rep => (formOf env rep).ending r.IsError
  | none =>
    if reps = [] then if r.IsError then .responseError none else .returned none
    else .unexpectedContentType

/-- The representations of a response of a method. -/
def responseReps (env : Env) (m : Placed Method) (n : Nat) (r : Response) :
    Except GenerationError (List (Placed Representation)) :=
  representationsAt env (m.place.child (.response n)) r.representations

theorem mem_preferred {reps : List (Placed Representation)} {rep : Placed Representation} :
    rep ∈ preferred env (·.value.mediaType) reps ↔ rep ∈ reps := (sorted_perm reps).mem_iff

/-- Forms after one that fits all are never looked at. -/
theorem find?_upToUnconditional (a : Answer) (cs : List Choice) :
    ((upToUnconditional cs).find? fun c => a.fits c.mediaType) =
      cs.find? fun c => a.fits c.mediaType := by
  induction cs with
  | nil => rfl
  | cons c rest ih =>
    rw [upToUnconditional]
    split
    · rename_i hnone
      have hfits : a.fits c.mediaType = true := by
        rw [Option.isNone_iff_eq_none.1 hnone]
        rfl
      rw [List.find?_cons, List.find?_cons, hfits]
    · rw [List.find?_cons, List.find?_cons, ih]

theorem upToUnconditional_eq_nil {cs : List Choice} : upToUnconditional cs = [] ↔ cs = [] := by
  cases cs with
  | nil => simp [upToUnconditional]
  | cons c rest =>
    rw [upToUnconditional]
    split <;> simp

/-- A branch is made of a response and its representations. -/
structure BranchOf (env : Env) (r : Response) (reps : List (Placed Representation)) (b : Branch) :
    Prop where
  statuses : b.statuses = r.status
  choices : b.choices =
    upToUnconditional ((preferred env (·.value.mediaType) reps).map (formOf env))

theorem branch_ok {place : Place} {r : Response} {b : Branch} (h : branch env place r = .ok b) :
    ∃ reps, representationsAt env place r.representations = .ok reps ∧ BranchOf env r reps b := by
  obtain ⟨reps, hreps, h⟩ := Result.bind_ok.1 h
  obtain rfl := Result.pure_ok.1 h
  exact ⟨reps, hreps, rfl, rfl⟩

namespace BranchOf

variable {r : Response} {reps : List (Placed Representation)} {b : Branch} {a : Answer}

theorem holds_iff (h : BranchOf env r reps b) : b.test.holds a = true ↔ r.Covers a.status := by
  unfold Branch.test Response.Covers
  rw [h.statuses]
  cases hstatus : r.status with
  | nil => simp [ResponseTest.holds]
  | cons s rest => simp [ResponseTest.holds]

theorem isError_eq (h : BranchOf env r reps b) : b.isError = decide r.IsError := by
  rw [Bool.eq_iff_iff, decide_eq_true_eq]
  simp [Branch.isError, Response.IsError, h.statuses]

theorem choices_eq_nil (h : BranchOf env r reps b) : b.choices = [] ↔ reps = [] := by
  rw [h.choices, upToUnconditional_eq_nil, List.map_eq_nil_iff, ← List.length_eq_zero_iff,
    ← List.length_eq_zero_iff, preferred, (sorted_perm reps).length_eq]

/-- What a branch does is what its response says. -/
theorem outcome_eq (h : BranchOf env r reps b) : b.outcome a = endingFor env r reps a := by
  unfold Branch.outcome endingFor
  rw [h.isError_eq, h.choices, find?_upToUnconditional, List.find?_map, ← h.choices]
  have hfind : ((fun c : Choice => a.fits c.mediaType) ∘ formOf env) =
      fun rep => a.fits rep.value.mediaType := rfl
  rw [hfind]
  cases (preferred env (·.value.mediaType) reps).find? fun rep => a.fits rep.value.mediaType with
  | some rep => rfl
  | none =>
    have hempty : b.choices.isEmpty = true ↔ reps = [] := List.isEmpty_iff.trans h.choices_eq_nil
    simp only [Option.map_none, hempty, Branch.bodyless, h.isError_eq, decide_eq_true_eq]

end BranchOf

/-! ## What a response decides -/

section Endings

variable {r : Response} {reps : List (Placed Representation)} {a : Answer}

/-- An answer has an unexpected content type if it fits none of the representations, and there are
some. -/
theorem endingFor_eq_unexpectedContentType :
    endingFor env r reps a = .unexpectedContentType ↔
      reps ≠ [] ∧ ∀ rep ∈ reps, a.fits rep.value.mediaType = false := by
  unfold endingFor
  split
  · rename_i rep hfind
    have hfits : a.fits rep.value.mediaType = true := by simpa using List.find?_some hfind
    have hrep : rep ∈ reps := mem_preferred.1 (List.mem_of_find?_eq_some hfind)
    have hleft : (formOf env rep).ending r.IsError ≠ .unexpectedContentType := by
      unfold Choice.ending
      split <;> simp
    refine iff_of_false hleft fun ⟨_, hnone⟩ => ?_
    rw [hnone rep hrep] at hfits
    cases hfits
  · rename_i hfind
    have hnone : ∀ rep ∈ reps, a.fits rep.value.mediaType = false := by
      simpa [mem_preferred] using hfind
    split
    · rename_i hempty
      split <;> simp [hempty]
    · rename_i hsome
      simpa [hsome] using hnone

/-- A response for errors only makes the operation fail. -/
theorem endingFor_of_isError (h : r.IsError) :
    (∃ form, endingFor env r reps a = .responseError form) ∨
      endingFor env r reps a = .unexpectedContentType := by
  unfold endingFor
  split
  · rename_i rep hfind
    exact Or.inl ⟨some (formOf env rep), if_pos (decide_eq_true h)⟩
  · rw [if_pos h]
    split
    · exact Or.inl ⟨none, rfl⟩
    · exact Or.inr rfl

end Endings

/-! ## Runs -/

/-- The branches of a method are made of the responses it expects, in their order. -/
theorem branches_forall₂ {m : Placed Method} {bs : List Branch} (h : branches env m = .ok bs) :
    List.Forall₂ (fun b (x : Response × Nat) => ∃ reps, responseReps env m x.2 x.1 = .ok reps ∧
      BranchOf env x.1 reps b) bs m.value.expected.zipIdx := by
  unfold branches at h
  unfold Method.expected
  split at h
  · rename_i hempty
    obtain rfl := Except.ok.inj h
    rw [if_pos hempty]
    exact .cons ⟨[], rfl, rfl, rfl⟩ .nil
  · rename_i hsome
    rw [if_neg hsome]
    exact (Result.mapM_ok.1 h).flip.imp fun b x hb => branch_ok hb

section Runs

variable {m : Placed Method} {bs : List Branch} {a : Answer}

/-- The branch of the response that decides a status is the first one whose test an answer with it
passes. -/
theorem exists_branch_of_decides {n : Nat} {r : Response} (h : branches env m = .ok bs)
    (hdecides : m.value.Decides a.status n r) :
    ∃ bs₁ b bs₂ reps, bs = bs₁ ++ b :: bs₂ ∧ (∀ b' ∈ bs₁, b'.test.holds a = false) ∧
      b.test.holds a = true ∧ responseReps env m n r = .ok reps ∧ BranchOf env r reps b := by
  obtain ⟨before, after, hexpected, rfl, hcovers, hbefore⟩ := hdecides
  have hforall := branches_forall₂ h
  rw [hexpected, List.zipIdx_append, List.zipIdx_cons, Nat.zero_add] at hforall
  obtain ⟨bs₁, b, bs₂, rfl, hbs₁, reps, hreps, hb⟩ := exists_split_of_forall₂ hforall
  refine ⟨bs₁, b, bs₂, reps, rfl, fun b' hb' => ?_, hb.holds_iff.2 hcovers, hreps, hb⟩
  obtain ⟨⟨r', k⟩, hr', reps', -, hof⟩ := exists_right_of_forall₂ hbs₁ hb'
  have hnot := hbefore r' (List.fst_mem_of_mem_zipIdx hr')
  exact Bool.eq_false_iff.2 fun hholds => hnot (hof.holds_iff.1 hholds)

/-- The response that decides a status says how the handling of an answer with it ends. -/
theorem run_script_of_decides {n : Nat} {r : Response} (h : branches env m = .ok bs)
    (hdecides : m.value.Decides a.status n r) :
    ∃ reps, responseReps env m n r = .ok reps ∧
      runAll a (responseScript bs) = some (endingFor env r reps a) := by
  obtain ⟨bs₁, b, bs₂, reps, rfl, hbs₁, hholds, hreps, hb⟩ := exists_branch_of_decides h hdecides
  have hfirst : ((bs₁ ++ b :: bs₂).find? fun b => b.test.holds a) = some b :=
    List.find?_eq_some_iff_append.2 ⟨hholds, bs₁, bs₂, rfl, by simpa using hbs₁⟩
  refine ⟨reps, hreps, ?_⟩
  rw [run_responseScript, hfirst]
  exact congrArg some hb.outcome_eq

/-- Branches for other statuses do not matter where the response that decides lists the status. -/
theorem run_script_of_listed {n : Nat} {r : Response} (h : branches env m = .ok bs)
    (hdecides : m.value.Decides a.status n r) (hlists : a.status ∈ r.status) :
    runAll a (responseScript bs) =
      runAll a (responseScript (bs.filter fun b => b.statuses.contains a.status)) := by
  obtain ⟨bs₁, b, bs₂, reps, rfl, hbs₁, hholds, -, hb⟩ := exists_branch_of_decides h hdecides
  have hlisted : b.statuses.contains a.status = true := by
    rw [hb.statuses]
    exact List.contains_iff_mem.2 hlists
  have hfirst : ((bs₁ ++ b :: bs₂).find? fun b => b.test.holds a) = some b :=
    List.find?_eq_some_iff_append.2 ⟨hholds, bs₁, bs₂, rfl, by simpa using hbs₁⟩
  have hfiltered : (((bs₁ ++ b :: bs₂).filter fun b => b.statuses.contains a.status).find?
      fun b => b.test.holds a) = some b := by
    rw [List.filter_append, List.filter_cons, if_pos hlisted, List.find?_eq_some_iff_append]
    refine ⟨hholds, _, _, rfl, fun b' hb' => ?_⟩
    simpa using hbs₁ b' (List.mem_of_mem_filter hb')
  rw [run_responseScript, run_responseScript, hfirst, hfiltered]

/-- An answer whose status no response covers has an unexpected status. -/
theorem run_script_of_uncovered (h : branches env m = .ok bs)
    (hnone : ∀ r ∈ m.value.expected, ¬r.Covers a.status) :
    runAll a (responseScript bs) = some .unexpectedStatus := by
  have hfind : (bs.find? fun b => b.test.holds a) = none := by
    rw [List.find?_eq_none]
    intro b hb hholds
    obtain ⟨⟨r, k⟩, hr, reps, -, hof⟩ := exists_right_of_forall₂ (branches_forall₂ h) hb
    exact hnone r (List.fst_mem_of_mem_zipIdx hr) (hof.holds_iff.1 hholds)
  rw [run_responseScript, hfind]

end Runs

/-! ## What is returned -/

end Build

section Operations

variable {env : Build.Env} {c : Container} {className : String} {methods : List (Placed Method)}
  {scope scope' : NameScope} {m : Placed Method} {op : Operation}

/-- The responses of a method decide what is done in their order: a response that lists the status
of an answer decides it together with the others that do, if none that covers it without listing it
stands before. A response without statuses decides only for a status of success that no response
before it lists. The content type is said to be unexpected only if it is that of no representation
of the response that decides, and a response for errors only never lets the operation return. -/
theorem handling_in_order
    (h : Yields (Build.operation env c className methods scope m) (op, scope')) (a : Answer) :
    (∀ isAsync, linesAll "        " op.script <:+ op.lines isAsync) ∧
    (runAll a op.script = some .unexpectedContentType → ∃ n r, m.value.Decides a.status n r) ∧
    ∀ n r, m.value.Decides a.status n r → ∃ reps, Build.responseReps env m n r = .ok reps ∧
      runAll a op.script = some (Build.endingFor env r reps a) ∧
      (a.status ∈ r.status → runAll a op.script =
        runAll a (responseScript (op.branches.filter fun b => b.statuses.contains a.status))) ∧
      (a.status ∉ r.status → r.status = [] ∧ 200 ≤ a.status ∧ a.status < 300 ∧
        ∀ r' ∈ m.value.expected.take n, a.status ∉ r'.status) ∧
      (runAll a op.script = some .unexpectedContentType ↔
        reps ≠ [] ∧ ∀ rep ∈ reps, a.fits rep.value.mediaType = false) ∧
      (r.IsError → runAll a op.script = some .unexpectedContentType ∨
        ∃ form, runAll a op.script = some (.responseError form)) := by
  obtain ⟨-, -, -, -, -, -, -, hbranches, -⟩ := Build.operation_yields h
  refine ⟨op.script_suffix_lines, fun hrun => ?_, fun n r hdecides => ?_⟩
  · by_contra hnone
    have huncovered : ∀ r ∈ m.value.expected, ¬r.Covers a.status :=
      fun r hr hcovers => hnone (Method.exists_decides hr hcovers)
    have hunexpected : runAll a op.script = some .unexpectedStatus :=
      Build.run_script_of_uncovered hbranches huncovered
    rw [hunexpected] at hrun
    cases hrun
  obtain ⟨reps, hreps, hrun⟩ := Build.run_script_of_decides hbranches hdecides
  have hending : runAll a op.script = some (Build.endingFor env r reps a) := hrun
  refine ⟨reps, hreps, hending, Build.run_script_of_listed hbranches hdecides,
    fun hunlisted => ?_, ?_, fun herror => ?_⟩
  · obtain ⟨before, after, hexpected, rfl, hcovers, hbefore⟩ := hdecides
    obtain hlisted | ⟨hempty, hlow, hhigh⟩ := hcovers
    · exact absurd hlisted hunlisted
    · refine ⟨hempty, hlow, hhigh, fun r' hr' hlists => ?_⟩
      rw [hexpected, List.take_left] at hr'
      exact hbefore r' hr' (Or.inl hlists)
  · rw [hending, Option.some_inj]
    exact Build.endingFor_eq_unexpectedContentType
  · rw [hending, Option.some_inj]
    have hfails : (∃ form, Build.endingFor env r reps a = .responseError form) ∨
        Build.endingFor env r reps a = .unexpectedContentType := Build.endingFor_of_isError herror
    obtain ⟨form, hform⟩ | hcontent := hfails
    · exact Or.inr ⟨form, congrArg some hform⟩
    · exact Or.inl hcontent

end Operations

/-! ## An operation with overlapping responses -/

/-- A representation of a media type and nothing else. -/
def plainBody (mediaType : String) : RepresentationItem :=
  .inline ⟨none, some mediaType, none, none, [], []⟩

/-- A method that declares success without a status first, the status 404 twice, and a success
together with an error. -/
def overlapping : Method :=
  ⟨"GET", none, none,
    [⟨[], [], [], []⟩, ⟨[200], [], [plainBody "application/json"], []⟩,
      ⟨[404], [], [plainBody "application/json"], []⟩,
      ⟨[404], [], [plainBody "application/xml"], []⟩, ⟨[201, 500], [], [], []⟩], []⟩

/-- A resource with this method. -/
def overlappingResource : Resource :=
  ⟨none, some "r", [], formMediaType, [], [.inline overlapping], [], []⟩

/-- The container of this resource. -/
def overlappingContainer : Container :=
  ⟨⟨.resource overlappingResource, ⟨"http://h/d", [.group 0, .resource 0]⟩,
    overlappingResource.segments⟩, []⟩

/-- What building its operation needs to know, where the resource stands alone in a description. -/
def overlappingEnv : Build.Env :=
  ⟨⟨⟨"http://h/d", [], [], [⟨some "http://h/", [overlappingResource]⟩], [], [], [], []⟩, [], []⟩,
    ⟨{ label := "module" }, [], []⟩, {}, [], [overlappingContainer]⟩

/-- The method at its place. -/
def overlappingPlaced : Placed Method := ⟨overlapping, overlappingContainer.place.child (.method 0)⟩

/-- The branches of its operation. -/
def overlappingBranches : List Branch :=
  let json : Choice := ⟨some "application/json", none, .raw .value⟩
  let xml : Choice := ⟨some "application/xml", none, .raw .text⟩
  [⟨[], []⟩, ⟨[200], [json]⟩, ⟨[404], [json]⟩, ⟨[404], [xml]⟩, ⟨[201, 500], []⟩]

theorem exists_overlapping :
    ∃ op scope', Yields
      (Build.operation overlappingEnv overlappingContainer "RResource" [overlappingPlaced]
      { label := "class RResource" } overlappingPlaced) (op, scope') ∧
      op.branches = overlappingBranches := by
  obtain ⟨⟨op, scope'⟩, t, hgives, hbranches⟩ := exists_gives_of_any
    (x := Build.operation overlappingEnv overlappingContainer "RResource" [overlappingPlaced]
      { label := "class RResource" } overlappingPlaced) (s := [])
    (p := fun r => r.1.branches = overlappingBranches) (by decide +kernel)
  exact ⟨op, scope', hgives.yields, of_decide_eq_true hbranches⟩

/-- An answer with a status and a media type. -/
def answerOf (status : Int) (mediaType : String) : Answer :=
  ⟨status, [("content-type", mediaType)], []⟩

/-- An answer with the status 404 is decided by the responses that list it. -/
theorem handling_in_order_overlapping :
    ∃ op scope', Yields
      (Build.operation overlappingEnv overlappingContainer "RResource" [overlappingPlaced]
        { label := "class RResource" } overlappingPlaced) (op, scope') ∧
      let a := answerOf 404 "application/json"
      runAll a op.script =
        runAll a (responseScript (op.branches.filter fun b => b.statuses.contains 404)) ∧
      (runAll a op.script = some .unexpectedContentType ∨
        ∃ form, runAll a op.script = some (.responseError form)) := by
  obtain ⟨op, scope', h, -⟩ := exists_overlapping
  obtain ⟨-, -, hdecided⟩ := handling_in_order h (answerOf 404 "application/json")
  have hdecides : overlapping.Decides 404 2 ⟨[404], [], [plainBody "application/json"], []⟩ :=
    ⟨[⟨[], [], [], []⟩, ⟨[200], [], [plainBody "application/json"], []⟩], _, rfl,
      rfl, by decide, by decide⟩
  obtain ⟨reps, -, -, hlisted, -, -, herror⟩ := hdecided 2 _ hdecides
  exact ⟨op, scope', h, hlisted (by decide), herror (by decide)⟩

/-- Of the responses that list a status, one that stands after a response that covers it decides
nothing: the success is taken by the response without statuses, the content type of the second
response for 404 is unexpected, and the error 500, listed with a success, is returned. -/
theorem not_handled_by_all_listing :
    ∃ op scope', Yields
      (Build.operation overlappingEnv overlappingContainer "RResource" [overlappingPlaced]
        { label := "class RResource" } overlappingPlaced) (op, scope') ∧
      ((∃ r ∈ overlapping.responses, 200 ∈ r.status) ∧ overlapping.Decides 200 0 ⟨[], [], [], []⟩ ∧
        runAll (answerOf 200 "application/json") op.script ≠
          runAll (answerOf 200 "application/json")
          (responseScript (op.branches.filter fun b => b.statuses.contains 200))) ∧
      ((∃ r ∈ overlapping.responses, r.Covers 404 ∧
        plainBody "application/xml" ∈ r.representations) ∧
        (answerOf 404 "application/xml").fits (some "application/xml") = true ∧
        runAll (answerOf 404 "application/xml") op.script = some .unexpectedContentType) ∧
      (∃ r ∈ overlapping.responses, 500 ∈ r.status) ∧
        runAll (answerOf 500 "application/json") op.script = some (.returned none) := by
  obtain ⟨op, scope', h, hbranches⟩ := exists_overlapping
  refine ⟨op, scope', h, ?_⟩
  rw [Operation.script, hbranches]
  refine ⟨⟨by decide, ⟨[], _, rfl, rfl, by decide, by simp⟩, by decide +kernel⟩,
    ⟨by decide, by decide +kernel, by decide +kernel⟩, by decide, by decide +kernel⟩

end Wadl
