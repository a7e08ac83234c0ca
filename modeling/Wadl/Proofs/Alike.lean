import Wadl.Proofs.Runs

/-!
# Two computations side by side

`Alike R x y` says that `x` and `y`, each started with notices of its own, fail for the same reason
or succeed with results that `R` relates. What they tell need not agree. The relation goes through a
sequence of steps (`Alike.bind`) and through loops (`Alike.mapM`, `Alike.foldlM`), so that two runs
of one function with different settings are compared step by step.

`InStep R x y` says more of `x` and `y`, but only if they are started with the same notices: they
then also tell the same. Each computation is in step with itself (`InStep.of_eq`).
-/

namespace Wadl

variable {ε σ α α' β β' γ : Type}

/-! ## Results -/

namespace Result

/-- Two results with the same error, or with related values. -/
inductive Agree (R : α → β → Prop) : Except ε α → Except ε β → Prop
  | ok {a : α} {b : β} (h : R a b) : Agree R (.ok a) (.ok b)
  | error (e : ε) : Agree R (.error e) (.error e)

namespace Agree

variable {R : α → β → Prop} {S : α' → β' → Prop} {x : Except ε α} {y : Except ε β}

theorem of_eq {x y : Except ε α} (h : x = y) : Agree Eq x y := by
  subst h
  cases x
  · exact .error _
  · exact .ok rfl

/-- Steps in a row agree if each step does from related values. -/
theorem bind {f : α → Except ε α'} {g : β → Except ε β'} (h : Agree R x y)
    (hstep : ∀ a b, R a b → Agree S (f a) (g b)) : Agree S (x >>= f) (y >>= g) := by
  cases h with
  | ok hab => exact hstep _ _ hab
  | error e => exact .error e

/-- Agreement up to a relation is agreement up to any weaker one. -/
theorem mono {R' : α → β → Prop} (h : Agree R x y) (hR : ∀ a b, R a b → R' a b) : Agree R' x y := by
  cases h with
  | ok hab => exact .ok (hR _ _ hab)
  | error e => exact .error e

end Agree

end Result

/-! ## Computations -/

open Result

/-- Two computations that fail for the same reason or succeed with related results, whatever notices
there are. -/
def Alike (R : α → β → Prop) (x : ExceptT ε (StateM σ) α) (y : ExceptT ε (StateM σ) β) : Prop :=
  ∀ s t, Agree R (Id.run (x.run.run s)).1 (Id.run (y.run.run t)).1

namespace Alike

variable {R : α → β → Prop} {S : α' → β' → Prop} {x : ExceptT ε (StateM σ) α}
    {y : ExceptT ε (StateM σ) β}

theorem pure {a : α} {b : β} (h : R a b) :
    Alike R (Pure.pure a : ExceptT ε (StateM σ) α) (Pure.pure b : ExceptT ε (StateM σ) β) :=
  fun _ _ => .ok h

theorem modify {f g : σ → σ} :
    Alike (fun _ _ => True) (modify f : ExceptT ε (StateM σ) PUnit)
      (modify g : ExceptT ε (StateM σ) PUnit) :=
  fun _ _ => .ok trivial

theorem lift {x : Except ε α} {y : Except ε β} (h : Agree R x y) :
    Alike R (liftM x : ExceptT ε (StateM σ) α) (liftM y : ExceptT ε (StateM σ) β) :=
  fun _ _ => h

theorem lift_self (x : Except ε α) :
    Alike Eq (liftM x : ExceptT ε (StateM σ) α) (liftM x : ExceptT ε (StateM σ) α) :=
  lift (.of_eq rfl)

/-- Computations that cannot fail are alike if what they give is related. -/
theorem of_always {a : α} {b : β} (hx : Always x a) (hy : Always y b) (h : R a b) :
    Alike R x y := by
  intro s t
  obtain ⟨u, hu⟩ := hx s
  obtain ⟨v, hv⟩ := hy t
  rw [hu, hv]
  exact .ok h

/-- The same for readings that keep a state, which need not be the same in both. -/
theorem bind {f : α → ExceptT ε (StateM σ) α'} {g : β → ExceptT ε (StateM σ) β'} (h : Alike R x y)
    (hstep : ∀ a b, R a b → Alike S (f a) (g b)) : Alike S (x >>= f) (y >>= g) := by
  intro s t
  have hxy := h s t
  rw [run_bind, run_bind]
  revert hxy
  rcases Id.run (x.run.run s) with ⟨e | a, u⟩ <;>
    rcases Id.run (y.run.run t) with ⟨e' | b, v⟩ <;> intro hxy
  · cases hxy
    exact .error e
  · cases hxy
  · cases hxy
  · cases hxy with
    | ok hab => exact hstep a b hab u v

/-- Two loops over one list are alike if their steps are. -/
theorem mapM {f : γ → ExceptT ε (StateM σ) α} {g : γ → ExceptT ε (StateM σ) β}
    (h : ∀ c, Alike R (f c) (g c)) :
    ∀ cs : List γ, Alike (List.Forall₂ R) (cs.mapM f) (cs.mapM g)
  | [] => by
    rw [List.mapM_nil, List.mapM_nil]
    exact .pure .nil
  | c :: cs => by
    rw [List.mapM_cons, List.mapM_cons]
    refine (h c).bind fun a b hab => ?_
    refine (mapM h cs).bind fun as bs habs => ?_
    exact .pure (.cons hab habs)

/-- Two loops over one list with a value that their steps change stay alike if their steps do. -/
theorem foldlM {f : α → γ → ExceptT ε (StateM σ) α} {g : β → γ → ExceptT ε (StateM σ) β}
    (h : ∀ a b c, R a b → Alike R (f a c) (g b c)) :
    ∀ (cs : List γ) {a : α} {b : β}, R a b → Alike R (cs.foldlM f a) (cs.foldlM g b)
  | [], a, b, hab => by
    rw [List.foldlM_nil, List.foldlM_nil]
    exact .pure hab
  | c :: cs, a, b, hab => by
    rw [List.foldlM_cons, List.foldlM_cons]
    exact (h a b c hab).bind fun a' b' hab' => foldlM h cs hab'

/-- What two computations that are alike give is related. -/
theorem related (h : Alike R x y) {s s' t t' : σ} {a : α} {b : β} (hx : Gives x s a s')
    (hy : Gives y t b t') : R a b := by
  have hxy := h s t
  rw [hx, hy] at hxy
  cases hxy with
  | ok hab => exact hab

end Alike

/-! ## Computations from the same notices -/

/-- Two computations that, with the same notices before, tell the same and fail for the same reason
or succeed with related results. -/
def InStep (R : α → β → Prop) (x : ExceptT ε (StateM σ) α) (y : ExceptT ε (StateM σ) β) : Prop :=
  ∀ s, (Id.run (y.run.run s)).2 = (Id.run (x.run.run s)).2 ∧
    Agree R (Id.run (x.run.run s)).1 (Id.run (y.run.run s)).1

namespace InStep

variable {R : α → β → Prop} {S : α' → β' → Prop} {x : ExceptT ε (StateM σ) α}
    {y : ExceptT ε (StateM σ) β}

theorem pure {a : α} {b : β} (h : R a b) :
    InStep R (Pure.pure a : ExceptT ε (StateM σ) α) (Pure.pure b : ExceptT ε (StateM σ) β) :=
  fun _ => ⟨rfl, .ok h⟩

theorem throw (e : ε) :
    InStep R (MonadExcept.throw e : ExceptT ε (StateM σ) α)
      (MonadExcept.throw e : ExceptT ε (StateM σ) β) :=
  fun _ => ⟨rfl, .error e⟩

theorem of_eq {x y : ExceptT ε (StateM σ) α} (h : x = y) : InStep Eq x y := by
  subst h
  exact fun _ => ⟨rfl, .of_eq rfl⟩

theorem lift {x : Except ε α} {y : Except ε β} (h : Agree R x y) :
    InStep R (liftM x : ExceptT ε (StateM σ) α) (liftM y : ExceptT ε (StateM σ) β) :=
  fun _ => ⟨rfl, h⟩

theorem mono {R' : α → β → Prop} (h : InStep R x y) (hR : ∀ a b, R a b → R' a b) : InStep R' x y :=
  fun s => ⟨(h s).1, (h s).2.mono hR⟩

/-- What the first one gives is what it can give. -/
theorem and_yields (h : InStep R x y) : InStep (fun a b => R a b ∧ Yields x a) x y := by
  intro s
  obtain ⟨hnotices, hagree⟩ := h s
  refine ⟨hnotices, ?_⟩
  rcases hx : Id.run (x.run.run s) with ⟨e | a, u⟩ <;>
    rcases hy : Id.run (y.run.run s) with ⟨e' | b, v⟩ <;>
    rw [hx, hy] at hagree <;> cases hagree
  · exact .error e
  · rename_i hab
    exact .ok ⟨hab, ⟨s, u, hx⟩⟩

/-- The same where both keep the same state. -/
theorem bind {f : α → ExceptT ε (StateM σ) α'} {g : β → ExceptT ε (StateM σ) β'} (h : InStep R x y)
    (hstep : ∀ a b, R a b → InStep S (f a) (g b)) : InStep S (x >>= f) (y >>= g) := by
  intro s
  obtain ⟨hnotices, hagree⟩ := h s
  rw [run_bind, run_bind]
  revert hnotices hagree
  rcases Id.run (x.run.run s) with ⟨e | a, u⟩ <;> rcases Id.run (y.run.run s) with ⟨e' | b, v⟩ <;>
    rintro rfl hagree <;> cases hagree
  · exact ⟨rfl, .error e⟩
  · rename_i hab
    exact hstep a b hab _

/-- Two sequences of steps that begin with the same one. -/
theorem bind_same {f : γ → ExceptT ε (StateM σ) α} {g : γ → ExceptT ε (StateM σ) β}
    (z : ExceptT ε (StateM σ) γ) (hstep : ∀ c, InStep R (f c) (g c)) :
    InStep R (z >>= f) (z >>= g) :=
  (of_eq rfl).bind fun c _ hc => hc ▸ hstep c

/-- Related values stay related through related functions. -/
theorem map {f : α → α'} {g : β → β'} (h : InStep R x y) (hfg : ∀ a b, R a b → S (f a) (g b)) :
    InStep S (f <$> x) (g <$> y) := by
  rw [← bind_pure_comp, ← bind_pure_comp]
  exact h.bind fun a b hab => .pure (hfg a b hab)

end InStep

end Wadl
