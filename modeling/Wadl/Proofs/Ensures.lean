import Wadl.Proofs.Runs

/-!
# What computations ensure

`Ensures x Q E` says of a computation that can fail that what it gives satisfies `Q` and what it
fails with satisfies `E`, whatever notices there are. A sequence of steps ensures what its last step
ensures (`Ensures.bind`), a loop what each of its steps does (`Ensures.mapM`, `Ensures.foldlM`).
`Result.Ensures` says the same of results without notices.
-/

namespace Wadl

variable {ε σ α β : Type}

/-! ## Results without notices -/

namespace Result

/-- What `x` gives satisfies `Q`, and what it fails with satisfies `E`. -/
structure Ensures (x : Except ε α) (Q : α → Prop) (E : ε → Prop) : Prop where
  ok : ∀ a, x = .ok a → Q a
  error : ∀ e, x = .error e → E e

namespace Ensures

variable {x : Except ε α} {Q : α → Prop} {E : ε → Prop}

theorem pure {a : α} (h : Q a) : Ensures (Pure.pure a : Except ε α) Q E :=
  ⟨fun _ hok => pure_ok.1 hok ▸ h, nofun⟩

theorem throw {e : ε} (h : E e) : Ensures (.error e : Except ε α) Q E :=
  ⟨nofun, fun _ herror => Except.error.inj herror ▸ h⟩

/-- What is ensured may be weakened, for results and for errors. -/
theorem mono {R : α → Prop} {F : ε → Prop} (h : Ensures x Q E) (hQ : ∀ a, Q a → R a)
    (hE : ∀ e, E e → F e) : Ensures x R F :=
  ⟨fun a ha => hQ a (h.ok a ha), fun e he => hE e (h.error e he)⟩

/-- What is given is left open. -/
theorem weaken (h : Ensures x Q E) : Ensures x (fun _ => True) E :=
  h.mono (fun _ _ => trivial) fun _ he => he

/-- What the first step ensures is what the next one starts from. -/
theorem bind {f : α → Except ε β} {R : β → Prop} (hx : Ensures x Q E)
    (hf : ∀ a, Q a → Ensures (f a) R E) : Ensures (x >>= f) R E := by
  cases x with
  | error e => exact ⟨nofun, fun _ herror => hx.error _ (congrArg _ (Except.error.inj herror))⟩
  | ok a => exact hf a (hx.ok a rfl)

theorem map {f : α → β} {R : β → Prop} (hx : Ensures x Q E) (h : ∀ a, Q a → R (f a)) :
    Ensures (f <$> x) R E := by
  rw [← bind_pure_comp]
  exact hx.bind fun a ha => .pure (h a ha)

theorem mapError {δ : Type} {f : ε → δ} {F : δ → Prop} (hx : Ensures x Q E)
    (h : ∀ e, E e → F (f e)) : Ensures (x.mapError f) Q F := by
  cases x with
  | error e => exact .throw (h e (hx.error e rfl))
  | ok a => exact .pure (hx.ok a rfl)

/-- A loop gives what its steps give. -/
theorem mapM {f : α → Except ε β} {P : β → Prop} :
    ∀ {xs : List α}, (∀ x ∈ xs, Ensures (f x) P E) → Ensures (xs.mapM f) (fun ys => ∀ y ∈ ys, P y) E
  | [], _ => by
    rw [List.mapM_nil]
    exact .pure (by simp)
  | x :: xs, h => by
    rw [List.mapM_cons]
    refine (h x List.mem_cons_self).bind fun _ hy => ?_
    refine (mapM fun x' hx' => h x' (List.mem_cons_of_mem x hx')).bind fun _ hys => .pure ?_
    exact List.forall_mem_cons.2 ⟨hy, hys⟩

/-- What each step of a loop keeps, the loop keeps. -/
theorem foldlM {f : β → α → Except ε β} {Inv : β → Prop} :
    ∀ {xs : List α} {b : β}, Inv b → (∀ x ∈ xs, ∀ b, Inv b → Ensures (f b x) Inv E) →
      Ensures (xs.foldlM f b) Inv E
  | [], _, hb, _ => by
    rw [List.foldlM_nil]
    exact .pure hb
  | x :: xs, b, hb, h => by
    rw [List.foldlM_cons]
    exact (h x List.mem_cons_self b hb).bind fun c hc =>
      foldlM hc fun x' hx' => h x' (List.mem_cons_of_mem x hx')

end Ensures

end Result

/-! ## Results with notices -/

/-- What `x` gives satisfies `Q`, and what it fails with satisfies `E`. -/
structure Ensures (x : ExceptT ε (StateM σ) α) (Q : α → Prop) (E : ε → Prop) : Prop where
  yields : ∀ a, Yields x a → Q a
  fails : ∀ e, Fails x e → E e

namespace Ensures

variable {x : ExceptT ε (StateM σ) α} {Q : α → Prop} {E : ε → Prop}

theorem pure {a : α} (h : Q a) : Ensures (Pure.pure a : ExceptT ε (StateM σ) α) Q E :=
  ⟨fun _ hyields => hyields.pure ▸ h, fun _ hfails => absurd hfails not_fails_pure⟩

theorem throw {e : ε} (h : E e) : Ensures (MonadExcept.throw e : ExceptT ε (StateM σ) α) Q E :=
  ⟨fun _ hyields => absurd hyields not_yields_throw, fun _ hfails => hfails.throw ▸ h⟩

theorem modify (f : σ → σ) :
    Ensures (MonadState.modifyGet fun s => (⟨⟩, f s) : ExceptT ε (StateM σ) PUnit)
      (fun _ => True) E :=
  ⟨fun _ _ => trivial, fun _ hfails => absurd hfails not_fails_modify⟩

/-- What is ensured without a state is ensured with one. -/
theorem lift {y : Except ε α} (hok : ∀ a, y = .ok a → Q a) (herror : ∀ e, y = .error e → E e) :
    Ensures (liftM y : ExceptT ε (StateM σ) α) Q E :=
  ⟨fun a hyields => hok a hyields.lift, fun e hfails => herror e hfails.lift⟩

theorem result {y : Except ε α} (h : Result.Ensures y Q E) :
    Ensures (liftM y : ExceptT ε (StateM σ) α) Q E := lift h.ok h.error

/-- A step that only changes the state cannot fail. -/
theorem liftState {y : StateM σ α} (h : ∀ s, Q (Id.run (y.run s)).1) :
    Ensures (liftM y : ExceptT ε (StateM σ) α) Q E := by
  have hrun : ∀ s,
      Gives (liftM y : ExceptT ε (StateM σ) α) s (Id.run (y.run s)).1 (Id.run (y.run s)).2 :=
    fun _ => gives_liftState.2 rfl
  constructor
  · rintro a ⟨s, t, hgives⟩
    have ha := gives_liftState.1 hgives
    have hs := h s
    rwa [ha] at hs
  · rintro e ⟨s, t, hfails⟩
    rw [hrun s] at hfails
    cases hfails

theorem mono {R : α → Prop} {F : ε → Prop} (h : Ensures x Q E) (hQ : ∀ a, Q a → R a)
    (hE : ∀ e, E e → F e) : Ensures x R F :=
  ⟨fun a ha => hQ a (h.yields a ha), fun e he => hE e (h.fails e he)⟩

/-- What is given is left open. -/
theorem weaken (h : Ensures x Q E) : Ensures x (fun _ => True) E :=
  h.mono (fun _ _ => trivial) fun _ he => he

/-- What is given is what can be given. -/
theorem and_yields (h : Ensures x Q E) : Ensures x (fun a => Q a ∧ Yields x a) E :=
  ⟨fun a ha => ⟨h.yields a ha, ha⟩, h.fails⟩

/-- From each state something is given or there is a failure. -/
theorem gives_or_fails (h : Ensures x Q E) (s : σ) :
    (∃ a t, Gives x s a t ∧ Q a) ∨ ∃ e t, Id.run (x.run.run s) = (.error e, t) ∧ E e := by
  rcases hrun : Id.run (x.run.run s) with ⟨e | a, t⟩
  · exact Or.inr ⟨e, t, rfl, h.fails e ⟨s, t, hrun⟩⟩
  · exact Or.inl ⟨a, t, hrun, h.yields a ⟨s, t, hrun⟩⟩

/-- The same for readings with notices. -/
theorem bind {f : α → ExceptT ε (StateM σ) β} {R : β → Prop} (hx : Ensures x Q E)
    (hf : ∀ a, Q a → Ensures (f a) R E) : Ensures (x >>= f) R E := by
  constructor
  · intro b hyields
    obtain ⟨a, ha, hb⟩ := hyields.bind
    exact (hf a (hx.yields a ha)).yields b hb
  · intro e hfails
    rcases hfails.bind with he | ⟨a, ha, he⟩
    · exact hx.fails e he
    · exact (hf a (hx.yields a ha)).fails e he

theorem map {f : α → β} {R : β → Prop} (hx : Ensures x Q E) (h : ∀ a, Q a → R (f a)) :
    Ensures (f <$> x) R E := by
  rw [← bind_pure_comp]
  exact hx.bind fun a ha => .pure (h a ha)

/-- A loop ensures of each element what the step on it does. -/
theorem mapM {f : α → ExceptT ε (StateM σ) β} {P : α → Prop} :
    ∀ {xs : List α}, (∀ x ∈ xs, Ensures (f x) (fun _ => P x) E) →
      Ensures (xs.mapM f) (fun _ => ∀ x ∈ xs, P x) E
  | [], _ => by
    rw [List.mapM_nil]
    exact .pure (by simp)
  | x :: xs, h => by
    rw [List.mapM_cons]
    refine (h x List.mem_cons_self).bind fun _ hx => ?_
    refine (mapM fun x' hx' => h x' (List.mem_cons_of_mem x hx')).bind fun _ hxs => .pure ?_
    exact List.forall_mem_cons.2 ⟨hx, hxs⟩

/-- A loop gives what its steps give. -/
theorem mapM_gives {f : α → ExceptT ε (StateM σ) β} {P : β → Prop} :
    ∀ {xs : List α}, (∀ x ∈ xs, Ensures (f x) P E) → Ensures (xs.mapM f) (fun ys => ∀ y ∈ ys, P y) E
  | [], _ => by
    rw [List.mapM_nil]
    exact .pure (by simp)
  | x :: xs, h => by
    rw [List.mapM_cons]
    refine (h x List.mem_cons_self).bind fun _ hy => ?_
    refine (mapM_gives fun x' hx' => h x' (List.mem_cons_of_mem x hx')).bind fun _ hys => .pure ?_
    exact List.forall_mem_cons.2 ⟨hy, hys⟩

/-- A loop with a value that each step changes ensures of each element what the step on it does. -/
theorem foldlM {f : β → α → ExceptT ε (StateM σ) β} {P : α → Prop} :
    ∀ {xs : List α} {b : β}, (∀ x ∈ xs, ∀ b, Ensures (f b x) (fun _ => P x) E) →
      Ensures (xs.foldlM f b) (fun _ => ∀ x ∈ xs, P x) E
  | [], _, _ => by
    rw [List.foldlM_nil]
    exact .pure (by simp)
  | x :: xs, b, h => by
    rw [List.foldlM_cons]
    refine (h x List.mem_cons_self b).bind fun c hx => ?_
    refine (foldlM fun x' hx' => h x' (List.mem_cons_of_mem x hx')).mono
      (fun _ hxs => ?_) fun _ he => he
    exact List.forall_mem_cons.2 ⟨hx, hxs⟩

end Ensures

end Wadl
