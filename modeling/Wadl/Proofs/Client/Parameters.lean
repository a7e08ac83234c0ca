import Mathlib.Data.List.Basic
import Wadl.Client.Printer

/-!
# Parameter lists

The arguments of an operation stand in its parameter list in their order, required and optional ones
as they come. A star behind the first optional one, if others follow it, ends the list of those that
a call may pass by place (`starred_eq`), so that no required one needs a default
(`SignaturePart.Legal`). `SignaturePart.bind` is what a call passes for the parameters, by place and
by name. A call may pass each argument by name, and up to the first optional one also by place
(`Operation.call_eq_some_iff`).
-/

namespace Wadl

/-! ## Arguments by place and by name -/

namespace Argument

/-- The arguments that may be passed by place: the first optional one and those before it. -/
def byPlace (args : List Argument) : List Argument :=
  args.takeWhile (·.isRequired) ++ (args.dropWhile (·.isRequired)).take 1

/-- The arguments that can be passed by name only. -/
def byName (args : List Argument) : List Argument := (args.dropWhile (·.isRequired)).drop 1

variable {a : Argument}

/-- The arguments are those by place, then those by name. -/
theorem byPlace_append_byName (args : List Argument) : byPlace args ++ byName args = args := by
  rw [byPlace, byName, List.append_assoc, List.take_append_drop, List.takeWhile_append_dropWhile]

theorem byPlace_cons (h : a.isRequired = true) (args : List Argument) :
    byPlace (a :: args) = a :: byPlace args := by
  simp [byPlace, h]

theorem byName_cons (h : a.isRequired = true) (args : List Argument) :
    byName (a :: args) = byName args := by
  simp [byName, h]

/-- All required arguments at the front can be given by place. -/
theorem takeWhile_prefix_byPlace (args : List Argument) :
    args.takeWhile (·.isRequired) <+: byPlace args :=
  List.prefix_append _ _

/-- Among the arguments by place, none that is required comes after one that is not. -/
theorem byPlace_pairwise (args : List Argument) :
    (byPlace args).Pairwise fun a b => a.isRequired = false → b.isRequired = false := by
  induction args with
  | nil => exact List.Pairwise.nil
  | cons a rest ih =>
    by_cases ha : a.isRequired = true
    · rw [byPlace_cons ha]
      exact List.pairwise_cons.2 ⟨fun b _ hopt => absurd ha (Bool.eq_false_iff.1 hopt), ih⟩
    · rw [byPlace, List.takeWhile_cons_of_neg ha, List.dropWhile_cons_of_neg ha]
      exact List.pairwise_singleton _ a

end Argument

/-- A star before some arguments, if there are any. -/
def SignaturePart.afterStar : List Argument → List SignaturePart
  | [] => []
  | a :: args => .star :: (a :: args).map .argument

open Argument SignaturePart

/-- The star stands between the arguments that may be passed by place and the others. -/
theorem starred_eq (args : List Argument) :
    starred args = (byPlace args).map .argument ++ afterStar (byName args) := by
  induction args with
  | nil => rfl
  | cons a rest ih =>
    rw [starred]
    by_cases ha : a.isRequired = true
    · rw [if_pos ha, ih, byPlace_cons ha, byName_cons ha]
      rfl
    · rw [if_neg ha, byPlace, byName, List.takeWhile_cons_of_neg ha, List.dropWhile_cons_of_neg ha]
      cases rest <;> rfl

namespace SignaturePart

/-! ## Rules for parameter lists -/

/-- The argument that a part is. -/
def argument? : SignaturePart → Option Argument
  | argument a => some a
  | _ => none

/-- The parameters that a call may pass by place: those before the star. -/
def beforeStar (parts : List SignaturePart) : List SignaturePart := parts.takeWhile (· ≠ .star)

/-- A parameter list of a method that takes some arguments: the object itself is the first
parameter, the arguments follow in their order, with one star at most, which has an argument behind
it, and of those before the star none is required behind one that has a default. -/
structure Legal (parts : List SignaturePart) (args : List Argument) : Prop where
  self_first : ∃ rest, parts = .self :: rest ∧ .self ∉ rest
  arguments_eq : parts.filterMap argument? = args
  star_once : parts.count .star ≤ 1
  star_before : ∀ before after, parts = before ++ .star :: after → ∃ a, .argument a ∈ after
  defaults_last :
    ((beforeStar parts).filterMap argument?).Pairwise fun a b => a.isRequired = false →
      b.isRequired = false

section Parts

variable (args : List Argument)

theorem filterMap_map_argument : (args.map argument).filterMap argument? = args := by
  rw [List.filterMap_map]
  exact List.filterMap_some

theorem filterMap_afterStar : (afterStar args).filterMap argument? = args := by
  cases args with
  | nil => rfl
  | cons a args => exact filterMap_map_argument (a :: args)

theorem self_not_mem_afterStar : .self ∉ afterStar args := by
  cases args <;> simp [afterStar]

/-- There is one star at most. -/
theorem count_afterStar_le : (afterStar args).count .star ≤ 1 := by
  cases args with
  | nil => exact Nat.zero_le 1
  | cons a args =>
    have hnone : ((a :: args).map argument).count .star = 0 := List.count_eq_zero.2 (by simp)
    exact Nat.le_of_eq (List.count_cons_self.trans (congrArg (· + 1) hnone))

theorem takeWhile_afterStar : (afterStar args).takeWhile (· ≠ .star) = [] := by
  cases args <;> rfl

end Parts

end SignaturePart

/-- Each signature is legal, whatever the arguments are. -/
theorem Operation.signature_legal (op : Operation) : Legal op.signature op.args where
  self_first := by
    refine ⟨starred op.args, rfl, ?_⟩
    rw [starred_eq]
    simp [self_not_mem_afterStar]
  arguments_eq := by
    rw [signature, List.filterMap_cons_none rfl, starred_eq, List.filterMap_append,
      filterMap_map_argument, filterMap_afterStar, byPlace_append_byName]
  star_once := by
    rw [signature, starred_eq, List.count_cons_of_ne (by decide), List.count_append,
      List.count_eq_zero.2 (by simp), Nat.zero_add]
    exact count_afterStar_le _
  star_before := by
    intro before after hparts
    rw [signature, starred_eq, ← List.cons_append] at hparts
    cases hnamed : byName op.args with
    | nil =>
      have hstar : .star ∈ SignaturePart.self :: (byPlace op.args).map argument ++
          afterStar (byName op.args) := by
        rw [hparts]
        simp
      simp [hnamed, afterStar] at hstar
    | cons a args =>
      rw [hnamed, afterStar] at hparts
      obtain ⟨-, -, rfl⟩ := (List.append_cons_inj_of_notMem (by simp) (by simp)).1 hparts
      exact ⟨a, by simp⟩
  defaults_last := by
    have hbefore : beforeStar op.signature = .self :: (byPlace op.args).map argument := by
      rw [beforeStar, signature, starred_eq, ← List.cons_append,
        List.takeWhile_append_of_pos (by simp), takeWhile_afterStar, List.append_nil]
    rw [hbefore, List.filterMap_cons_none rfl, filterMap_map_argument]
    exact byPlace_pairwise op.args

namespace SignaturePart

/-! ## What a call passes -/

variable {α : Type}

/-- What a call passes for the arguments of a parameter list: some values by place, the first of
which is the object itself, and others by name. An argument with a default may be left out; no
argument is passed twice, and none behind the star by place. -/
def bind (named : List (String × α)) : List SignaturePart → List α → Option (List (Option α))
  | [], [] => some []
  | [], _ :: _ => none
  | .self :: parts, _ :: values => bind named parts values
  | .self :: _, [] => none
  | .star :: parts, [] => bind named parts []
  | .star :: _, _ :: _ => none
  | .argument a :: parts, v :: values =>
    if (named.lookup a.name).isSome then none else (some v :: ·) <$> bind named parts values
  | .argument a :: parts, [] =>
    if (named.lookup a.name).isNone && a.isRequired then none
    else (named.lookup a.name :: ·) <$> bind named parts []

variable {named : List (String × α)} {args : List Argument} {parts : List SignaturePart}
    {bound : List (Option α)}

/-- Without values by place, each argument has what its name stands for. -/
theorem bind_nil (h : .self ∉ parts) : bind named parts [] = some bound ↔
    (∀ a ∈ parts.filterMap argument?, a.isRequired = true → (named.lookup a.name).isSome = true) ∧
      bound = (parts.filterMap argument?).map fun a => named.lookup a.name := by
  induction parts generalizing bound with
  | nil =>
    simp only [bind, List.filterMap_nil, List.map_nil, Option.some_inj,
      List.not_mem_nil, false_implies, implies_true, true_and, eq_comm]
  | cons part parts ih =>
    obtain ⟨hself, hparts⟩ := not_or.1 (mt List.mem_cons.2 h)
    cases part with
    | self => exact absurd rfl hself
    | star => exact ih hparts
    | argument a =>
      have hargs : (argument a :: parts).filterMap argument? = a :: parts.filterMap argument? := rfl
      rw [bind, hargs, List.forall_mem_cons, List.map_cons]
      split
      · rename_i hleft
        obtain ⟨hnone, hrequired⟩ := Bool.and_eq_true_iff.1 hleft
        refine iff_of_false (fun hbound => nomatch hbound) fun hgiven => ?_
        rw [Option.isNone_iff_eq_none] at hnone
        exact absurd (hgiven.1.1 hrequired) (by simp [hnone])
      · rename_i hleft
        have hgiven : a.isRequired = true → (named.lookup a.name).isSome = true := by
          intro hrequired
          rw [Option.isSome_iff_ne_none]
          exact fun hnone => hleft (by rw [hnone, hrequired]; rfl)
        rw [Option.map_eq_map, Option.map_eq_some_iff]
        constructor
        · rintro ⟨rest, hrest, rfl⟩
          obtain ⟨hall, rfl⟩ := (ih hparts).1 hrest
          exact ⟨⟨hgiven, hall⟩, rfl⟩
        · rintro ⟨⟨-, hall⟩, rfl⟩
          exact ⟨_, (ih hparts).2 ⟨hall, rfl⟩, rfl⟩

/-- Values by place are those of the first arguments. -/
theorem bind_append (h : ∀ v values, bind named parts (v :: values) = none) (values : List α) :
    bind named (args.map .argument ++ parts) values = some bound ↔
      values.length ≤ args.length ∧ (∀ a ∈ args.take values.length, named.lookup a.name = none) ∧
      ∃ rest, bind named ((args.drop values.length).map .argument ++ parts) [] = some rest ∧
        bound = values.map some ++ rest := by
  induction values generalizing args bound with
  | nil => simp
  | cons v values ih =>
    cases args with
    | nil => simp [h]
    | cons a args =>
      rw [List.map_cons, List.cons_append, bind, List.length_cons, List.length_cons,
        List.take_succ_cons, List.drop_succ_cons, List.forall_mem_cons, Nat.add_le_add_iff_right]
      split
      · rename_i hsome
        refine iff_of_false (fun hbound => nomatch hbound) fun hpassed => ?_
        rw [hpassed.2.1.1] at hsome
        cases hsome
      · rename_i hsome
        have hnone : named.lookup a.name = none := Option.not_isSome_iff_eq_none.1 hsome
        rw [Option.map_eq_map, Option.map_eq_some_iff]
        constructor
        · rintro ⟨_, hrest, rfl⟩
          obtain ⟨hlength, hall, rest, hbind, rfl⟩ := ih.1 hrest
          exact ⟨hlength, ⟨hnone, hall⟩, rest, hbind, rfl⟩
        · rintro ⟨hlength, ⟨-, hall⟩, rest, hbind, rfl⟩
          exact ⟨_, ih.2 ⟨hlength, hall, rest, hbind, rfl⟩, rfl⟩

/-- Behind a star, nothing is passed by place. -/
theorem bind_afterStar (v : α) (values : List α) :
    bind named (afterStar args) (v :: values) = none := by
  cases args <;> rfl

/-- Which calls bind the arguments behind a star. -/
theorem bind_starred {values : List α} : bind named (starred args) values = some bound ↔
    values.length ≤ (byPlace args).length ∧
    (∀ a ∈ args.take values.length, named.lookup a.name = none) ∧
      (∀ a ∈ args.drop values.length, a.isRequired = true → (named.lookup a.name).isSome = true) ∧
      bound = values.map some ++ (args.drop values.length).map fun a => named.lookup a.name := by
  rw [starred_eq, bind_append bind_afterStar]
  refine and_congr_right fun hlength => ?_
  have htake : args.take values.length = (byPlace args).take values.length := by
    rw [← List.take_append_of_le_length hlength, byPlace_append_byName]
  have hdrop : args.drop values.length = (byPlace args).drop values.length ++ byName args := by
    rw [← List.drop_append_of_le_length hlength, byPlace_append_byName]
  have hself : .self ∉ ((byPlace args).drop values.length).map argument ++
      afterStar (byName args) := by
    simp [self_not_mem_afterStar, -List.map_drop]
  rw [htake, hdrop]
  refine and_congr_right fun _ => ?_
  simp only [bind_nil hself, List.filterMap_append, filterMap_map_argument, filterMap_afterStar]
  constructor
  · rintro ⟨_, ⟨hgiven, rfl⟩, rfl⟩
    exact ⟨hgiven, rfl⟩
  · rintro ⟨hgiven, rfl⟩
    exact ⟨_, ⟨hgiven, rfl⟩, rfl⟩

end SignaturePart

namespace Operation

variable {α : Type} {op : Operation} {object : α} {values : List α} {named : List (String × α)}

/-- What a call of an operation passes for its arguments. Each name has to be that of an argument,
and none may come twice. -/
def call (op : Operation) (object : α) (values : List α) (named : List (String × α)) :
    Option (List (Option α)) :=
  if (named.map Prod.fst).Nodup ∧ ∀ e ∈ named, ∃ a ∈ op.args, a.name = e.1 then
    bind named op.signature (object :: values)
  else none

/-- A call that passes by place no more arguments than there are, none of them by name as well, and
each required one of the others by name. -/
structure Fits (op : Operation) (values : List α) (named : List (String × α)) : Prop where
  nodup : (named.map Prod.fst).Nodup
  known : ∀ e ∈ named, ∃ a ∈ op.args, a.name = e.1
  once : ∀ a ∈ op.args.take values.length, named.lookup a.name = none
  given : ∀ a ∈ op.args.drop values.length,
    a.isRequired = true → (named.lookup a.name).isSome = true

/-- A call succeeds just if it fits, and binds each argument to the value it is given by place, else
by name. -/
theorem call_eq_some_iff {bound : List (Option α)} : op.call object values named = some bound ↔
    op.Fits values named ∧ values.length ≤ (byPlace op.args).length ∧
      bound = values.map some ++ (op.args.drop values.length).map fun a => named.lookup a.name := by
  have hbind : bind named op.signature (object :: values) = bind named (starred op.args) values :=
    rfl
  rw [call, hbind, Option.ite_none_right_eq_some, bind_starred]
  constructor
  · rintro ⟨⟨hnodup, hknown⟩, hlength, honce, hgiven, hbound⟩
    exact ⟨⟨hnodup, hknown, honce, hgiven⟩, hlength, hbound⟩
  · rintro ⟨⟨hnodup, hknown, honce, hgiven⟩, hlength, hbound⟩
    exact ⟨⟨hnodup, hknown⟩, hlength, honce, hgiven, hbound⟩

/-- The parameter list of an operation is as it may be, and a call may pass each argument by name,
and by place those before the first that has a default. -/
theorem signature_callable (op : Operation) :
    Legal op.signature op.args ∧
    ∀ (α : Type) (object : α) (values : List α) (named : List (String × α)), op.Fits values named →
      values.length ≤ (op.args.takeWhile (·.isRequired)).length →
      op.call object values named =
        some (values.map some ++ (op.args.drop values.length).map fun a => named.lookup a.name) :=
  ⟨signature_legal op, fun _ _ _ _ hfits hlength =>
    call_eq_some_iff.2
      ⟨hfits, Nat.le_trans hlength (takeWhile_prefix_byPlace op.args).length_le, rfl⟩⟩

/-- An operation whose second argument has a default, and the ones around it have none. -/
def searchOperation : Operation where
  name := "search"
  args := [
    ⟨"query", .value ⟨.written "str", false, false⟩, .required, ""⟩,
    ⟨"limit", .value ⟨.written "int", false, true⟩, .nothing, ""⟩,
    ⟨"body", .body (.raw .bytes), .required, ""⟩]
  verb := "POST"
  template := []
  matrix := []
  query := [("q", .argument "query"), ("limit", .argument "limit")]
  header := []
  accept := []
  body := some ⟨"body", none⟩
  branches := []
  doc := none

theorem signature_callable_search : Legal searchOperation.signature searchOperation.args ∧
    searchOperation.call 0 [1] [("body", 2)] = some [some 1, none, some 2] ∧
    searchOperation.call 0 [] [("body", 2), ("limit", 3), ("query", 1)] =
      some [some 1, some 3, some 2] := by
  refine ⟨(signature_callable _).1, ?_, ?_⟩
  · exact (signature_callable searchOperation).2 Nat 0 [1] [("body", 2)]
      ⟨by decide, by decide, by decide, by decide⟩ (by decide)
  · exact (signature_callable searchOperation).2 Nat 0 [] [("body", 2), ("limit", 3), ("query", 1)]
      ⟨by decide, by decide, by decide, by decide⟩ (by decide)

example : ", ".intercalate (searchOperation.signature.map (·.source)) =
    "self, query: str, limit: int | None = None, *, body: bytes" := by decide

end Operation

end Wadl
