import Wadl.Proofs.Naming.Style

/-!
# Sessions with scopes

A session asks several scopes for names in any order, and may copy a scope at any time
(`Session.step`). A scope only changes by what is asked of it (`scope_run`), and what it gives was
free and stays taken (`Tidy`), so that it never gives a name twice. `claimUnique` gives the name
with the least number that makes it free (`claimUnique_isLeastFree`), and `claim` is refused for
three reasons only (`claim_refused_iff`). Names stay in a scope once they are there, reserved, given
or copied (`taken_serveAll`). `session_lawful` puts this together for every session that begins with
empty scopes.
-/

namespace Wadl

namespace NameScope

variable {s s' : NameScope} {name source n : String}

/-! ## The least number -/

theorem le_firstFree {tries i : Nat} : i ≤ s.firstFree name tries i := by
  induction tries generalizing i with
  | zero => exact Nat.le_refl i
  | succ tries ih =>
    rw [firstFree]
    split
    · exact Nat.le_of_succ_le ih
    · exact Nat.le_refl i

/-- All numbers before the one that is found are taken. -/
theorem taken_of_lt_firstFree {tries i j : Nat} (hi : i ≤ j) (hj : j < s.firstFree name tries i) :
    numbered name j ∈ s.taken := by
  induction tries generalizing i with
  | zero => exact absurd hj (Nat.not_lt.2 hi)
  | succ tries ih =>
    rw [firstFree] at hj
    split at hj
    · rename_i htaken
      rcases Nat.eq_or_lt_of_le hi with rfl | hlt
      · exact contains_iff.1 htaken
      · exact ih hlt hj
    · exact absurd hj (Nat.not_lt.2 hi)

/-- The name, if it is free, or else the name with the least number from 2 on that is free. -/
def IsLeastFree (taken : List String) (name given : String) : Prop :=
  (name ∉ taken ∧ given = name) ∨
    name ∈ taken ∧ ∃ k ≥ 2, given = name ++ toString k ∧ given ∉ taken ∧
      ∀ j ≥ 2, j < k → name ++ toString j ∈ taken

/-- From 2 on, a numbered name ends in its number. -/
theorem numbered_of_le {k : Nat} (h : 2 ≤ k) : numbered name k = name ++ toString k :=
  if_neg (Nat.not_lt.2 h)

/-- The search for a free number ends at the least one. -/
theorem claimUnique_isLeastFree (s : NameScope) (name source : String) :
    IsLeastFree s.taken (s.escaped name) (s.claimUnique name source).1 := by
  have hfree : (s.claimUnique name source).1 ∉ s.taken := firstFree_free
  obtain ⟨k, hk, hgiven, hbefore⟩ : ∃ k ≥ 1,
      (s.claimUnique name source).1 = numbered (s.escaped name) k ∧
      ∀ j ≥ 1, j < k → numbered (s.escaped name) j ∈ s.taken :=
    ⟨_, le_firstFree, rfl, fun _ => taken_of_lt_firstFree⟩
  rcases Nat.eq_or_lt_of_le hk with rfl | hk
  · rw [hgiven] at hfree ⊢
    exact Or.inl ⟨hfree, rfl⟩
  · refine Or.inr ⟨hbefore 1 (Nat.le_refl 1) hk, k, hk, ?_, hfree, fun j hj hlt => ?_⟩
    · rw [hgiven, numbered_of_le hk]
    · rw [← numbered_of_le hj]
      exact hbefore j (Nat.le_of_succ_le hj) hlt

/-! ## Refusals -/

/-- A claim is refused for an empty name, a reserved word that is not escaped, or a name that is
taken. -/
theorem claim_refused_iff (source : String) : (∃ clash, s.claim name source = .error clash) ↔
    name = "" ∨ (name ∈ s.reserved ∧ s.escapes = false) ∨ s.escaped name ∈ s.taken := by
  unfold claim
  split_ifs with hempty hreserved
  · exact iff_of_true ⟨_, rfl⟩ (Or.inl (by simpa using hempty))
  · exact iff_of_true ⟨_, rfl⟩ (Or.inr (Or.inl (by simpa using hreserved)))
  · have hname : name ≠ "" := by simpa using hempty
    have hword : ¬(name ∈ s.reserved ∧ s.escapes = false) := by simpa using hreserved
    rw [or_iff_right hname, or_iff_right hword, ← contains_iff, contains, take]
    cases s.holder? (s.escaped name) <;> simp

/-! ## Requests -/

/-- What can be asked of a scope. -/
inductive Request where
  | reserve (name source : String)
  | claim (name source : String)
  | claimUnique (name source : String)
  deriving DecidableEq, Repr

/-- What a scope answers. -/
inductive Answer where
  | done
  | given (name : String)
  | refused (clash : NameClash)
  deriving DecidableEq, Repr

/-- The name that is given, if one is. -/
def Answer.name? : Answer → Option String
  | given name => some name
  | _ => none

/-- The answer to a request, and the scope after it. -/
def serve (s : NameScope) : Request → Answer × NameScope
  | .reserve name source => (.done, s.reserve name source)
  | .claim name source =>
    match s.claim name source with
    | .ok (name, s) => (.given name, s)
    | .error clash => (.refused clash, s)
  | .claimUnique name source => let (name, s) := s.claimUnique name source; (.given name, s)

/-- The scope after some requests. -/
def serveAll (s : NameScope) (requests : List Request) : NameScope :=
  requests.foldl (fun s r => (s.serve r).2) s

/-- What a request does to a scope with the usual reserved words: names are added, at most the one
that is given or reserved, and a name that is given was free and is no reserved word. -/
structure Served (s : NameScope) (answer : Answer) (s' : NameScope) : Prop where
  reserved : s'.reserved = s.reserved
  taken : ∀ x ∈ s.taken, x ∈ s'.taken
  free : ∀ x, answer.name? = some x → x ∉ s.taken
  holds : ∀ x, answer.name? = some x → x ∈ s'.taken
  unreserved : s.reserved = reservedWords → ∀ x, answer.name? = some x → x ∉ reservedWords

theorem served_of_takes (h : s.Takes [n] s') (hn : s.reserved = reservedWords → n ∉ reservedWords) :
    s.Served (.given n) s' where
  reserved := h.reserved
  taken x hx := (h.mem_taken x).2 (Or.inr hx)
  free x hx := by
    obtain rfl := Option.some.inj hx
    exact h.fresh _ (List.mem_singleton_self _)
  holds x hx := by
    obtain rfl := Option.some.inj hx
    exact (h.mem_taken _).2 (Or.inl (List.mem_singleton_self _))
  unreserved hs x hx := by
    obtain rfl := Option.some.inj hx
    exact hn hs

theorem serve_served (s : NameScope) (r : Request) : s.Served (s.serve r).1 (s.serve r).2 := by
  cases r with
  | reserve name source =>
    exact ⟨rfl, fun x hx => mem_taken_reserve.2 (Or.inr hx), nofun, nofun, fun _ => nofun⟩
  | claim name source =>
    rw [serve]
    split
    · rename_i h
      obtain ⟨htakes, rfl, -⟩ := claim_ok h
      exact served_of_takes htakes fun hs => escaped_notMem hs name
    · exact ⟨rfl, fun _ => id, nofun, nofun, fun _ => nofun⟩
  | claimUnique name source =>
    obtain ⟨htakes, -⟩ := s.claimUnique_takes name source
    exact served_of_takes htakes fun hs => numbered_notMem (escaped_notMem hs name) _

/-- Names that are taken stay so, whatever is asked. -/
theorem taken_serveAll (s : NameScope) (requests : List Request) :
    ∀ x ∈ s.taken, x ∈ (s.serveAll requests).taken := by
  induction requests generalizing s with
  | nil => exact fun _ => id
  | cons r requests ih => exact fun x hx => ih (s.serve r).2 x ((s.serve_served r).taken x hx)

end NameScope

open NameScope

/-! ## Sessions -/

/-- Scopes in the order in which they were made, and the names that they have given so far, each
with the number of the scope. -/
structure Session where
  scopes : List NameScope
  given : List (Nat × String) := []

namespace Session

/-- An operation on a scope that is told by its number. -/
inductive Operation where
  | ask (scope : Nat) (request : Request)
  | copy (scope : Nat)
  deriving DecidableEq, Repr

/-- What is asked of a scope by an operation. -/
def Operation.request? (i : Nat) : Operation → Option Request
  | ask j r => if j = i then some r else none
  | copy _ => none

/-- A session that begins with empty scopes, which have labels and may escape reserved words. -/
def start (scopes : List (String × Bool)) : Session where
  scopes := scopes.map fun (label, escapes) => { label, escapes }

/-- A session after an operation. What is asked of no scope changes nothing, and a copy is a new
scope. -/
def step (σ : Session) : Operation → Session
  | .ask i r =>
    match σ.scopes[i]? with
    | none => σ
    | some s =>
      { scopes := σ.scopes.set i (s.serve r).2
        given := σ.given ++ ((s.serve r).1.name?.map (i, ·)).toList }
  | .copy i => { σ with scopes := σ.scopes ++ σ.scopes[i]?.toList }

/-- A session after some operations. -/
def run (σ : Session) (ops : List Operation) : Session := ops.foldl step σ

/-- The names that a scope has given. -/
def givenBy (σ : Session) (i : Nat) : List String := (σ.given.filter (·.1 = i)).map (·.2)

variable {σ : Session} {i : Nat} {s : NameScope}

theorem run_cons (op : Operation) (ops : List Operation) :
    σ.run (op :: ops) = (σ.step op).run ops := rfl

/-! ## A scope changes by its own requests only -/

theorem scope_step (h : σ.scopes[i]? = some s) (op : Operation) :
    (σ.step op).scopes[i]? = some (s.serveAll (op.request? i).toList) := by
  cases op with
  | ask j r =>
    rw [step, Operation.request?]
    split_ifs with hj
    · subst hj
      rw [h]
      exact List.getElem?_set_self (List.getElem?_eq_some_iff.1 h).1
    · cases σ.scopes[j]? with
      | none => exact h
      | some t => exact (List.getElem?_set_ne hj).trans h
  | copy j =>
    rw [step, List.getElem?_append_left (List.getElem?_eq_some_iff.1 h).1]
    exact h

theorem scope_run (h : σ.scopes[i]? = some s) (ops : List Operation) :
    (σ.run ops).scopes[i]? = some (s.serveAll (ops.filterMap (·.request? i))) := by
  induction ops generalizing σ s with
  | nil => exact h
  | cons op ops ih =>
    rw [run_cons, ih (scope_step h op), List.filterMap_cons]
    cases op.request? i <;> rfl

/-- A copy is the last scope, and has the names of the original. -/
theorem scope_copy (h : σ.scopes[i]? = some s) :
    (σ.step (.copy i)).scopes[σ.scopes.length]? = some s := by
  rw [step, h]
  exact List.getElem?_concat_length

/-! ## Names that are given -/

/-- Scopes with the usual reserved words, which hold all names that they have given; none of these
is a reserved word, and none was given twice. -/
structure Tidy (σ : Session) : Prop where
  reserved : ∀ s ∈ σ.scopes, s.reserved = reservedWords
  holds : ∀ i, ∀ x ∈ σ.givenBy i, ∃ s, σ.scopes[i]? = some s ∧ x ∈ s.taken
  unreserved : ∀ i, ∀ x ∈ σ.givenBy i, x ∉ reservedWords
  nodup : ∀ i, (σ.givenBy i).Nodup

theorem tidy_start (scopes : List (String × Bool)) : (start scopes).Tidy where
  reserved s hs := by
    obtain ⟨_, -, rfl⟩ := List.mem_map.1 hs
    rfl
  holds _ _ hx := by cases hx
  unreserved _ _ hx := by cases hx
  nodup _ := List.nodup_nil

/-- What is given at once is given by the scope that is asked. -/
theorem givenBy_append (σ : Session) (scopes : List NameScope) (i j : Nat) (name? : Option String) :
    givenBy ⟨scopes, σ.given ++ (name?.map (j, ·)).toList⟩ i =
      σ.givenBy i ++ if j = i then name?.toList else [] := by
  rw [givenBy, List.filter_append, List.map_append]
  cases name? with
  | none => simp [givenBy]
  | some x => by_cases hj : j = i <;> simp [givenBy, hj]

theorem Tidy.ask (h : σ.Tidy) (hs : σ.scopes[i]? = some s) (r : Request) :
    (σ.step (.ask i r)).Tidy := by
  have hserved := s.serve_served r
  have hreserved := h.reserved s (List.mem_of_getElem? hs)
  have hstep : σ.step (.ask i r) = ⟨σ.scopes.set i (s.serve r).2,
      σ.given ++ ((s.serve r).1.name?.map (i, ·)).toList⟩ := by rw [step, hs]
  -- a name is given by the scope that is asked, or was given before
  have hgiven : ∀ j, ∀ x ∈ (σ.step (.ask i r)).givenBy j,
      x ∈ σ.givenBy j ∨ i = j ∧ (s.serve r).1.name? = some x := by
    intro j x hx
    rw [hstep, givenBy_append] at hx
    refine (List.mem_append.1 hx).imp_right fun hx => ?_
    split_ifs at hx with hij
    · exact ⟨hij, Option.mem_toList.1 hx⟩
    · cases hx
  constructor
  · intro t ht
    rw [hstep] at ht
    rcases List.mem_or_eq_of_mem_set ht with ht | rfl
    · exact h.reserved t ht
    · exact hserved.reserved.trans hreserved
  · intro j x hx
    by_cases hij : i = j
    · subst hij
      refine ⟨_, scope_step hs _, ?_⟩
      rw [Operation.request?, if_pos rfl]
      rcases hgiven i x hx with hx | ⟨-, hx⟩
      · obtain ⟨s', hs', hmem⟩ := h.holds i x hx
        obtain rfl := Option.some.inj (hs.symm.trans hs')
        exact hserved.taken x hmem
      · exact hserved.holds x hx
    · obtain ⟨t, ht, hmem⟩ := h.holds j x ((hgiven j x hx).resolve_right fun hx => hij hx.1)
      refine ⟨_, scope_step ht _, ?_⟩
      rw [Operation.request?, if_neg hij]
      exact hmem
  · intro j x hx
    rcases hgiven j x hx with hx | ⟨-, hx⟩
    · exact h.unreserved j x hx
    · exact hserved.unreserved hreserved x hx
  · intro j
    rw [hstep, givenBy_append]
    split_ifs with hij
    · subst hij
      refine List.nodup_append.2 ⟨h.nodup i, ?_, fun x hx y hy hxy => ?_⟩
      · cases (s.serve r).1.name? <;> simp
      · -- what was given before is taken, and what is given now was free
        obtain ⟨s', hs', hmem⟩ := h.holds i x hx
        obtain rfl := Option.some.inj (hs.symm.trans hs')
        exact hserved.free y (Option.mem_toList.1 hy) (hxy ▸ hmem)
    · rw [List.append_nil]
      exact h.nodup j

theorem Tidy.copy (h : σ.Tidy) (i : Nat) : (σ.step (.copy i)).Tidy where
  reserved s hs := by
    rcases List.mem_append.1 hs with hs | hs
    · exact h.reserved s hs
    · exact h.reserved s (List.mem_of_getElem? (Option.mem_toList.1 hs))
  holds j x hx := by
    obtain ⟨s, hs, hmem⟩ := h.holds j x hx
    exact ⟨s, scope_step hs _, hmem⟩
  unreserved := h.unreserved
  nodup := h.nodup

theorem Tidy.step (h : σ.Tidy) (op : Operation) : (σ.step op).Tidy := by
  cases op with
  | ask i r =>
    cases hs : σ.scopes[i]? with
    | none =>
      rw [Session.step, hs]
      exact h
    | some s => exact h.ask hs r
  | copy i => exact h.copy i

theorem Tidy.run (h : σ.Tidy) (ops : List Operation) : (σ.run ops).Tidy := by
  induction ops generalizing σ with
  | nil => exact h
  | cons op ops ih => exact ih (h.step op)

/-! ## Every session -/

/-- The form in which a name is taken: with an underscore if it is a reserved word. -/
def finalForm (name : String) : String := if name ∈ reservedWords then name ++ "_" else name

theorem escaped_eq_finalForm (h : s.reserved = reservedWords) (name : String) :
    s.escaped name = finalForm name := by
  rw [escaped, finalForm, h]
  simp only [List.contains_iff_mem]

/-- What the scopes of a session promise, whatever is asked next. -/
structure Lawful (σ : Session) : Prop where
  /-- A unique claim gives the name itself or the one with the least number that is free. -/
  unique : ∀ s ∈ σ.scopes, ∀ name source, ∃ given,
    (s.serve (.claimUnique name source)).1 = .given given ∧
    IsLeastFree s.taken (finalForm name) given
  /-- A claim is refused for three reasons. -/
  refused : ∀ s ∈ σ.scopes, ∀ name source,
    (∃ clash, (s.serve (.claim name source)).1 = .refused clash) ↔
    name = "" ∨ (name ∈ reservedWords ∧ s.escapes = false) ∨ finalForm name ∈ s.taken
  /-- A claim that is not refused gives the name. -/
  claimed : ∀ s ∈ σ.scopes, ∀ name source,
    (∃ clash, (s.serve (.claim name source)).1 = .refused clash) ∨
    (s.serve (.claim name source)).1 = .given (finalForm name)
  /-- A claim that is refused changes nothing. -/
  unchanged : ∀ i s name source clash, σ.scopes[i]? = some s →
    (s.serve (.claim name source)).1 = .refused clash → σ.step (.ask i (.claim name source)) = σ
  /-- No scope has given a name twice. -/
  nodup : ∀ i, (σ.givenBy i).Nodup
  /-- No name that was given is a reserved word. -/
  unreserved : ∀ i, ∀ x ∈ σ.givenBy i, x ∉ reservedWords
  /-- A name that is given next was not there before, and then is. -/
  fresh : ∀ i s r x, σ.scopes[i]? = some s → (s.serve r).1 = .given x →
    x ∉ s.taken ∧ ∃ s', (σ.step (.ask i r)).scopes[i]? = some s' ∧ x ∈ s'.taken
  /-- A name that is reserved is there afterwards, and no other name comes with it. -/
  reserved : ∀ i s name source, σ.scopes[i]? = some s →
    ∃ s', (σ.step (.ask i (.reserve name source))).scopes[i]? = some s' ∧
      ∀ x, x ∈ s'.taken ↔ x = name ∨ x ∈ s.taken
  /-- A copy begins with the names of the original. -/
  copied : ∀ i s, σ.scopes[i]? = some s → (σ.step (.copy i)).scopes[σ.scopes.length]? = some s
  /-- Names that are there stay, whatever follows, and no name that is given later is one of
  them. -/
  kept : ∀ (i : Nat) (s : NameScope) ops, σ.scopes[i]? = some s → ∃ s' : NameScope,
    (σ.run ops).scopes[i]? = some s' ∧ (∀ x ∈ s.taken, x ∈ s'.taken) ∧ ∀ r x,
      (s'.serve r).1 = .given x → x ∉ s.taken
  /-- Whatever follows, a scope changes by what is asked of it and of no other, copies included. -/
  apart : ∀ i (s : NameScope) ops, σ.scopes[i]? = some s →
    (σ.run ops).scopes[i]? = some (s.serveAll (ops.filterMap (·.request? i)))

/-- Every session of reservations, claims, unique claims and copies that begins with empty scopes
keeps these promises at every point. -/
theorem session_lawful (scopes : List (String × Bool)) (ops : List Operation) :
    ((start scopes).run ops).Lawful := by
  have htidy := (tidy_start scopes).run ops
  generalize (start scopes).run ops = σ at htidy
  constructor
  · intro s hs name source
    rw [← escaped_eq_finalForm (htidy.reserved s hs)]
    exact ⟨_, rfl, s.claimUnique_isLeastFree name source⟩
  · intro s hs name source
    rw [← escaped_eq_finalForm (htidy.reserved s hs), ← htidy.reserved s hs,
      ← claim_refused_iff source, serve]
    cases s.claim name source <;> simp
  · intro s hs name source
    rw [← escaped_eq_finalForm (htidy.reserved s hs), serve]
    split
    · rename_i h
      exact Or.inr (congrArg Answer.given (claim_ok h).2.1)
    · exact Or.inl ⟨_, rfl⟩
  · intro i s name source clash hs hrefused
    rw [serve] at hrefused
    split at hrefused
    · cases hrefused
    · rename_i h
      obtain ⟨hi, rfl⟩ := List.getElem?_eq_some_iff.1 hs
      rw [step, hs]
      simp only [serve, h, Answer.name?, Option.map_none, Option.toList_none, List.append_nil,
        List.set_getElem_self]
  · exact htidy.nodup
  · exact htidy.unreserved
  · intro i s r x hs hgiven
    have hserved := s.serve_served r
    rw [hgiven] at hserved
    refine ⟨hserved.free x rfl, _, scope_step hs _, ?_⟩
    rw [Operation.request?, if_pos rfl]
    exact hserved.holds x rfl
  · intro i s name source hs
    refine ⟨_, scope_step hs _, fun x => ?_⟩
    rw [Operation.request?, if_pos rfl]
    exact mem_taken_reserve
  · exact fun i s hs => scope_copy hs
  · intro i s ops hs
    have hkept := s.taken_serveAll (ops.filterMap (·.request? i))
    refine ⟨_, scope_run hs ops, hkept, fun r x hgiven hx => ?_⟩
    have hserved := serve_served (s.serveAll (ops.filterMap (·.request? i))) r
    rw [hgiven] at hserved
    exact hserved.free x rfl (hkept x hx)
  · exact fun i s ops hs => scope_run hs ops

/-- A name is reserved before a scope is copied: the copy cannot give it, and what the copy gives
instead does not reach the original. -/
theorem session_lawful_copied :
    let σ := (start [("module", false)]).run
      [.ask 0 (.reserve "Any" "import"), .copy 0, .ask 1 (.claimUnique "Any" "type"),
        .ask 1 (.claim "Any" "type")]
    σ.givenBy 1 = ["Any2"] ∧ σ.scopes.map (·.taken) = [["Any"], ["Any2", "Any"]] ∧ σ.Lawful :=
  ⟨by decide, by decide, session_lawful _ _⟩

end Session

end Wadl
