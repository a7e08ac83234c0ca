import Mathlib.Data.List.Forall2
import Wadl.Notice

/-!
# Computations that succeed

Reading, resolving and generating can fail and give notices on the way. `Gives x s a t` says that
`x`, started with the notices `s`, succeeds with `a` and leaves the notices `t`, and `Yields x a`
that it does so for some notices. Both go through a sequence of steps from its end to its steps
(`gives_bind`, `Yields.bind`); loops are taken apart element by element (`Yields.mapM`) or by what
each step keeps (`Yields.foldlM_keeps`). `Always x a` says that `x` succeeds with `a` whatever
notices there are; it is put together from the steps.
-/

namespace Wadl

variable {ε σ α β γ : Type}

/-! ## Lists side by side -/

/-- Each element on the right stands beside one on the left. -/
theorem exists_left_of_forall₂ {R : α → β → Prop} {xs : List α} {ys : List β} {y : β}
    (h : List.Forall₂ R xs ys) (hy : y ∈ ys) : ∃ x ∈ xs, R x y := by
  induction h with
  | nil => cases hy
  | @cons x y' xs ys hfirst _ ih =>
    rcases List.mem_cons.1 hy with rfl | hy
    · exact ⟨x, List.mem_cons_self, hfirst⟩
    · obtain ⟨x', hx', hxy⟩ := ih hy
      exact ⟨x', List.mem_cons_of_mem x hx', hxy⟩

/-- Each element on the left stands beside one on the right. -/
theorem exists_right_of_forall₂ {R : α → β → Prop} {xs : List α} {ys : List β} {x : α}
    (h : List.Forall₂ R xs ys) (hx : x ∈ xs) : ∃ y ∈ ys, R x y :=
  exists_left_of_forall₂ (R := fun y x => R x y) h.flip hx

/-- Each element on the left makes a pair. -/
theorem exists_zip_of_forall₂ {R : α → β → Prop} {xs : List α} {ys : List β} {x : α}
    (h : List.Forall₂ R xs ys) (hx : x ∈ xs) : ∃ y, (x, y) ∈ xs.zip ys ∧ R x y := by
  induction h with
  | nil => cases hx
  | @cons x' y xs ys hfirst _ ih =>
    rcases List.mem_cons.1 hx with rfl | hx
    · exact ⟨y, List.mem_cons_self, hfirst⟩
    · obtain ⟨y', hmem, hxy⟩ := ih hx
      exact ⟨y', List.mem_cons_of_mem _ hmem, hxy⟩

/-- What stands on the right after a part stands on the left after a part beside that. -/
theorem exists_split_of_forall₂ {R : α → β → Prop} {xs : List α} {before after : List β} {y : β}
    (h : List.Forall₂ R xs (before ++ y :: after)) :
    ∃ before' x after', xs = before' ++ x :: after' ∧ List.Forall₂ R before' before ∧ R x y := by
  induction before generalizing xs with
  | nil =>
    obtain ⟨x, after', hx, -, rfl⟩ := List.forall₂_cons_right_iff.1 h
    exact ⟨[], x, after', rfl, .nil, hx⟩
  | cons z before ih =>
    obtain ⟨z', xs', hz, hrest, rfl⟩ := List.forall₂_cons_right_iff.1 h
    obtain ⟨before', x, after', rfl, hbefore, hx⟩ := ih hrest
    exact ⟨z' :: before', x, after', rfl, .cons hz hbefore, hx⟩

/-! ## Results without notices -/

namespace Result

/-- Two steps give a result just if both do. -/
theorem bind_ok {x : Except ε α} {f : α → Except ε β} {b : β} :
    x >>= f = .ok b ↔ ∃ a, x = .ok a ∧ f a = .ok b := by
  cases x <;> simp [bind, Except.bind]

theorem map_ok {x : Except ε α} {f : α → β} {b : β} :
    f <$> x = .ok b ↔ ∃ a, x = .ok a ∧ f a = b := by
  cases x <;> simp [Functor.map, Except.map]

theorem mapError_ok {δ : Type} {x : Except ε α} {f : ε → δ} {a : α} :
    x.mapError f = .ok a ↔ x = .ok a := by
  cases x <;> simp [Except.mapError]

theorem pure_ok {a b : α} : (pure a : Except ε α) = .ok b ↔ a = b := by
  simp [pure, Except.pure]

theorem toOption_ok {x : Except ε α} {a : α} : x.toOption = some a ↔ x = .ok a := by
  cases x <;> simp [Except.toOption]

/-- A loop over a list succeeds if it does so on each element. -/
theorem mapM_ok {f : α → Except ε β} :
    ∀ {xs : List α} {ys : List β}, xs.mapM f = .ok ys ↔ List.Forall₂ (fun x y => f x = .ok y) xs ys
  | [], ys => by
    rw [List.mapM_nil, pure_ok, List.forall₂_nil_left_iff]
    exact eq_comm
  | x :: xs, ys => by
    rw [List.mapM_cons, bind_ok, List.forall₂_cons_left_iff]
    constructor
    · rintro ⟨y, hy, h⟩
      obtain ⟨ys', hys, h⟩ := bind_ok.1 h
      exact ⟨y, ys', hy, mapM_ok.1 hys, (pure_ok.1 h).symm⟩
    · rintro ⟨y, ys', hy, hys, rfl⟩
      exact ⟨y, hy, bind_ok.2 ⟨ys', mapM_ok.2 hys, pure_ok.2 rfl⟩⟩

/-- A loop over a list goes through just if each of its steps does. -/
theorem mapM_ok_iff {f : α → Except ε β} {g : α → β} {P : α → Prop} {xs : List α} {ys : List β}
    (h : ∀ x ∈ xs, ∀ y, f x = .ok y ↔ P x ∧ g x = y) :
    xs.mapM f = .ok ys ↔ (∀ x ∈ xs, P x) ∧ xs.map g = ys := by
  have hsteps : List.Forall₂ (fun x y => f x = .ok y) xs ys ↔
      List.Forall₂ (fun x y => P x ∧ g x = y) xs ys := by
    rw [List.forall₂_iff_zip, List.forall₂_iff_zip]
    exact and_congr_right fun _ =>
      ⟨fun hall x y hxy => (h x (List.of_mem_zip hxy).1 y).1 (hall hxy),
        fun hall x y hxy => (h x (List.of_mem_zip hxy).1 y).2 (hall hxy)⟩
  rw [mapM_ok, hsteps, List.forall₂_and_left, ← List.forall₂_eq_eq_eq, List.forall₂_map_left_iff]

/-- A loop over a list that succeeds finds what there is to be found on the elements. -/
theorem filterMap_toOption {f : α → Except ε β} {xs : List α} {ys : List β}
    (h : xs.mapM f = .ok ys) : xs.filterMap (fun x => (f x).toOption) = ys := by
  have hall := mapM_ok.1 h
  clear h
  induction hall with
  | nil => rfl
  | @cons x y xs ys hy _ ih =>
    have hfound : (f x).toOption = some y := toOption_ok.2 hy
    rw [List.filterMap_cons, hfound, ih]

/-- What a loop over a list finds is what it finds on the elements. -/
theorem mem_mapM_ok {f : α → Except ε β} {y : β} :
    ∀ {xs : List α} {ys : List β}, xs.mapM f = .ok ys → (y ∈ ys ↔ ∃ x ∈ xs, f x = .ok y)
  | [], ys, h => by
    rw [List.mapM_nil, pure_ok] at h
    simp [← h]
  | x :: xs, ys, h => by
    rw [List.mapM_cons] at h
    obtain ⟨y', hy', h⟩ := bind_ok.1 h
    obtain ⟨ys', hys', h⟩ := bind_ok.1 h
    obtain rfl := pure_ok.1 h
    rw [List.mem_cons, mem_mapM_ok hys', List.exists_mem_cons_iff, hy', Except.ok.injEq, eq_comm]

/-- What each step of a loop keeps, the loop keeps. -/
theorem foldlM_keeps {f : β → α → Except ε β} (Inv : β → Prop) :
    ∀ {xs : List α} {b b' : β}, (∀ b b' x, x ∈ xs → Inv b → f b x = .ok b' → Inv b') →
      Inv b → xs.foldlM f b = .ok b' → Inv b'
  | [], b, b', _, hb, h => by
    rw [List.foldlM_nil, pure_ok] at h
    exact h ▸ hb
  | x :: xs, b, b', step, hb, h => by
    rw [List.foldlM_cons] at h
    obtain ⟨c, hc, h⟩ := bind_ok.1 h
    exact foldlM_keeps Inv (fun b b' y hy => step b b' y (List.mem_cons_of_mem x hy))
      (step b c x List.mem_cons_self hb hc) h

/-- What the step on an element brings about and all steps keep holds at the end of a loop. -/
theorem foldlM_reaches {f : β → α → Except ε β} (P : β → Prop) {x : α}
    (keep : ∀ b b' y, P b → f b y = .ok b' → P b') (reach : ∀ b b', f b x = .ok b' → P b') :
    ∀ {xs : List α} {b b' : β}, x ∈ xs → xs.foldlM f b = .ok b' → P b'
  | y :: xs, b, b', hx, h => by
    rw [List.foldlM_cons] at h
    obtain ⟨c, hc, hrest⟩ := bind_ok.1 h
    rcases List.mem_cons.1 hx with rfl | hx
    · exact foldlM_keeps P (fun b b' y _ => keep b b' y) (reach b c hc) hrest
    · exact foldlM_reaches P keep reach hx hrest

end Result

/-! ## Results with notices -/

/-- `x`, started in the state `s`, succeeds with `a` and leaves the state `t`. -/
def Gives (x : ExceptT ε (StateM σ) α) (s : σ) (a : α) (t : σ) : Prop :=
  Id.run (x.run.run s) = (.ok a, t)

section Gives

variable {x : ExceptT ε (StateM σ) α} {s t : σ} {a : α}

/-- A pure value is given without a change of state. -/
theorem gives_pure {b : α} : Gives (pure b : ExceptT ε (StateM σ) α) s a t ↔ b = a ∧ s = t := by
  show ((Except.ok b : Except ε α), s) = (.ok a, t) ↔ _
  simp

/-- What throws gives nothing. -/
theorem gives_throw {e : ε} : ¬Gives (throw e : ExceptT ε (StateM σ) α) s a t := by
  show ¬((Except.error e : Except ε α), s) = (.ok a, t)
  simp

theorem gives_modify {f : σ → σ} {u : PUnit} :
    Gives (modify f : ExceptT ε (StateM σ) PUnit) s u t ↔ f s = t := by
  show ((Except.ok u : Except ε PUnit), f s) = (.ok u, t) ↔ _
  simp

/-- Two steps run one after the other, the second from the state that the first leaves. -/
theorem run_bind {f : α → ExceptT ε (StateM σ) β} :
    Id.run ((x >>= f).run.run s) =
      match Id.run (x.run.run s) with
      | (.ok a, u) => Id.run ((f a).run.run u)
      | (.error e, u) => (.error e, u) := by
  rw [ExceptT.run_bind, StateT.run_bind, Id.run_bind]
  rcases Id.run (x.run.run s) with ⟨_ | _, _⟩ <;> rfl

/-- Two steps give a result from state to state just if both do. -/
theorem gives_bind {f : α → ExceptT ε (StateM σ) β} {b : β} :
    Gives (x >>= f) s b t ↔ ∃ a u, Gives x s a u ∧ Gives (f a) u b t := by
  rw [Gives, run_bind]
  rcases h : Id.run (x.run.run s) with ⟨_ | a, u⟩ <;> simp [Gives, h]

/-- A result without state is given without a change of it. -/
theorem gives_lift {e : Except ε α} :
    Gives (liftM e : ExceptT ε (StateM σ) α) s a t ↔ e = .ok a ∧ s = t := by
  show (e, s) = (.ok a, t) ↔ _
  simp

/-- A step that only changes the state cannot fail. -/
theorem gives_liftState {y : StateM σ α} :
    Gives (liftM y : ExceptT ε (StateM σ) α) s a t ↔ Id.run (y.run s) = (a, t) := by
  rcases h : Id.run (y.run s) with ⟨b, u⟩
  have hrun : Id.run ((liftM y : ExceptT ε (StateM σ) α).run.run s) = (.ok b, u) := by
    show Id.run ((Except.ok <$> y).run s) = _
    rw [StateT.run_map, Id.run_map, h]
  rw [Gives, hrun]
  simp

theorem gives_map {f : α → β} {b : β} :
    Gives (f <$> x) s b t ↔ ∃ a, Gives x s a t ∧ f a = b := by
  rw [← bind_pure_comp, gives_bind]
  constructor
  · rintro ⟨a, u, hx, hf⟩
    obtain ⟨rfl, rfl⟩ := gives_pure.1 hf
    exact ⟨a, hx, rfl⟩
  · rintro ⟨a, hx, rfl⟩
    exact ⟨a, t, hx, gives_pure.2 ⟨rfl, rfl⟩⟩

end Gives

/-! ## What a computation can give -/

/-- `x` succeeds with `a` from some state. -/
def Yields (x : ExceptT ε (StateM σ) α) (a : α) : Prop := ∃ s t, Gives x s a t

theorem Gives.yields {x : ExceptT ε (StateM σ) α} {s t : σ} {a : α} (h : Gives x s a t) :
    Yields x a := ⟨s, t, h⟩

/-- A run that is no error gives something. -/
theorem exists_gives {x : ExceptT ε (StateM σ) α} {s : σ}
    (h : (Id.run (x.run.run s)).1.isOk = true) : ∃ a t, Gives x s a t := by
  rcases hx : Id.run (x.run.run s) with ⟨_ | a, t⟩
  · simp [hx, Except.isOk, Except.toBool] at h
  · exact ⟨a, t, hx⟩

/-- A computation that can be run shows what it gives. -/
theorem exists_gives_of_any {x : ExceptT ε (StateM σ) α} {s : σ} {p : α → Bool}
    (h : (Id.run (x.run.run s)).1.toOption.any p = true) : ∃ a t, Gives x s a t ∧ p a = true := by
  rcases hx : Id.run (x.run.run s) with ⟨_ | a, t⟩
  · simp [hx, Except.toOption] at h
  · exact ⟨a, t, hx, by simpa [hx, Except.toOption] using h⟩

section Yields

variable {x : ExceptT ε (StateM σ) α} {a : α}

theorem Yields.pure {b : α} (h : Yields (Pure.pure b : ExceptT ε (StateM σ) α) a) : b = a := by
  obtain ⟨s, t, h⟩ := h
  exact (gives_pure.1 h).1

theorem not_yields_throw {e : ε} : ¬Yields (throw e : ExceptT ε (StateM σ) α) a := by
  rintro ⟨s, t, h⟩
  exact gives_throw h

theorem Yields.lift {e : Except ε α} (h : Yields (liftM e : ExceptT ε (StateM σ) α) a) :
    e = .ok a := by
  obtain ⟨s, t, h⟩ := h
  exact (gives_lift.1 h).1

/-- A result of two steps comes from a result of the first. -/
theorem Yields.bind {f : α → ExceptT ε (StateM σ) β} {b : β} (h : Yields (x >>= f) b) :
    ∃ a, Yields x a ∧ Yields (f a) b := by
  obtain ⟨s, t, h⟩ := h
  obtain ⟨a, u, hx, hf⟩ := gives_bind.1 h
  exact ⟨a, hx.yields, hf.yields⟩

theorem Yields.map {f : α → β} {b : β} (h : Yields (f <$> x) b) : ∃ a, Yields x a ∧ f a = b := by
  obtain ⟨s, t, h⟩ := h
  obtain ⟨a, hx, ha⟩ := gives_map.1 h
  exact ⟨a, hx.yields, ha⟩

/-- What a loop over a list gives comes from its elements, one by one. -/
theorem Yields.mapM {f : α → ExceptT ε (StateM σ) β} :
    ∀ {xs : List α} {ys : List β}, Yields (xs.mapM f) ys →
      List.Forall₂ (fun x y => Yields (f x) y) xs ys
  | [], ys, h => by
    rw [List.mapM_nil] at h
    rw [← h.pure]
    exact .nil
  | x :: xs, ys, h => by
    rw [List.mapM_cons] at h
    obtain ⟨y, hy, h⟩ := h.bind
    obtain ⟨ys', hys, h⟩ := h.bind
    rw [← h.pure]
    exact .cons hy (Yields.mapM hys)

/-- What a loop over a list gives is what it gives on some element. -/
theorem Yields.mem_mapM {f : α → ExceptT ε (StateM σ) β} {xs : List α} {ys : List β} {y : β}
    (h : Yields (xs.mapM f) ys) (hy : y ∈ ys) : ∃ x ∈ xs, Yields (f x) y :=
  exists_left_of_forall₂ h.mapM hy

/-- What each step of a loop keeps, the loop keeps. -/
theorem Yields.foldlM_keeps {f : β → α → ExceptT ε (StateM σ) β} (Inv : β → Prop) :
    ∀ {xs : List α} {b b' : β}, (∀ b b' x, x ∈ xs → Inv b → Yields (f b x) b' → Inv b') →
      Inv b → Yields (xs.foldlM f b) b' → Inv b'
  | [], b, b', _, hb, h => by
    rw [List.foldlM_nil] at h
    exact h.pure ▸ hb
  | x :: xs, b, b', step, hb, h => by
    rw [List.foldlM_cons] at h
    obtain ⟨c, hc, h⟩ := h.bind
    exact Yields.foldlM_keeps Inv (fun b b' y hy => step b b' y (List.mem_cons_of_mem x hy))
      (step b c x List.mem_cons_self hb hc) h

/-- Each element of a list is the argument of a step of a loop over it. -/
theorem Yields.mem_foldlM {f : β → α → ExceptT ε (StateM σ) β} {x : α} :
    ∀ {xs : List α} {b b' : β}, Yields (xs.foldlM f b) b' → x ∈ xs → ∃ c c', Yields (f c x) c'
  | [], _, _, _, hx => by cases hx
  | y :: xs, b, b', h, hx => by
    rw [List.foldlM_cons] at h
    obtain ⟨c, hc, h⟩ := h.bind
    rcases List.mem_cons.1 hx with rfl | hx
    · exact ⟨b, c, hc⟩
    · exact Yields.mem_foldlM h hx

end Yields

/-! ## What a computation can fail with -/

/-- `x` fails with `e` from some state. -/
def Fails (x : ExceptT ε (StateM σ) α) (e : ε) : Prop := ∃ s t, Id.run (x.run.run s) = (.error e, t)

/-- The error of a result, if it is one. -/
def errorOf? : Except ε α → Option ε
  | .ok _ => none
  | .error e => some e

/-- A computation that can be run shows what it fails with. -/
theorem fails_of_errorOf? {x : ExceptT ε (StateM σ) α} {s : σ} {e : ε}
    (h : errorOf? (Id.run (x.run.run s)).1 = some e) : Fails x e := by
  rcases hx : Id.run (x.run.run s) with ⟨e' | a, t⟩
  · rw [hx] at h
    obtain rfl := Option.some.inj h
    exact ⟨s, t, hx⟩
  · rw [hx] at h
    cases h

section Fails

variable {x : ExceptT ε (StateM σ) α} {e : ε}

theorem not_fails_pure {a : α} : ¬Fails (pure a : ExceptT ε (StateM σ) α) e := by
  rintro ⟨s, t, h⟩
  have hok : ((Except.ok a : Except ε α), s) = (.error e, t) := h
  cases hok

theorem Fails.throw {e' : ε} (h : Fails (MonadExcept.throw e' : ExceptT ε (StateM σ) α) e) :
    e' = e := by
  obtain ⟨s, t, h⟩ := h
  have herror : ((Except.error e' : Except ε α), s) = (.error e, t) := h
  simpa using (Prod.mk.inj herror).1

theorem not_fails_modify {f : σ → σ} : ¬Fails (modify f : ExceptT ε (StateM σ) PUnit) e := by
  rintro ⟨s, t, h⟩
  have hok : ((Except.ok ⟨⟩ : Except ε PUnit), f s) = (.error e, t) := h
  cases hok

theorem Fails.lift {y : Except ε α} (h : Fails (liftM y : ExceptT ε (StateM σ) α) e) :
    y = .error e := by
  obtain ⟨s, t, h⟩ := h
  have hlift : (y, s) = (.error e, t) := h
  exact (Prod.mk.inj hlift).1

/-- A sequence of steps fails in one of them. -/
theorem Fails.bind {f : α → ExceptT ε (StateM σ) β} (h : Fails (x >>= f) e) :
    Fails x e ∨ ∃ a, Yields x a ∧ Fails (f a) e := by
  obtain ⟨s, t, h⟩ := h
  rw [run_bind] at h
  rcases hx : Id.run (x.run.run s) with ⟨e' | a, u⟩
  · rw [hx] at h
    obtain ⟨he, rfl⟩ := Prod.mk.inj h
    obtain rfl := Except.error.inj he
    exact Or.inl ⟨s, u, hx⟩
  · rw [hx] at h
    exact Or.inr ⟨a, ⟨s, u, hx⟩, u, t, h⟩

/-- Mapping a result adds no failure. -/
theorem Fails.map {f : α → β} (h : Fails (f <$> x) e) : Fails x e := by
  rw [← bind_pure_comp] at h
  rcases h.bind with h | ⟨a, -, h⟩
  · exact h
  · exact absurd h not_fails_pure

/-- A loop over a list fails on one of the elements. -/
theorem Fails.foldlM {f : β → α → ExceptT ε (StateM σ) β} :
    ∀ {xs : List α} {b : β}, Fails (xs.foldlM f b) e → ∃ x ∈ xs, ∃ b', Fails (f b' x) e
  | [], b, h => by
    rw [List.foldlM_nil] at h
    exact absurd h not_fails_pure
  | x :: xs, b, h => by
    rw [List.foldlM_cons] at h
    rcases h.bind with h | ⟨b', -, h⟩
    · exact ⟨x, List.mem_cons_self, b, h⟩
    · obtain ⟨x', hx', hfails⟩ := Fails.foldlM h
      exact ⟨x', List.mem_cons_of_mem x hx', hfails⟩

/-- A loop over a list fails after some of the elements, with what the steps on these keep. -/
theorem Fails.foldlM_keeps {f : β → α → ExceptT ε (StateM σ) β} :
    ∀ {xs : List α} {b : β} (Inv : List α → β → Prop), Inv [] b →
      (∀ before x c c', Inv before c → Yields (f c x) c' → Inv (before ++ [x]) c') →
        Fails (xs.foldlM f b) e → ∃ before x after c, xs = before ++ x :: after ∧
          Inv before c ∧ Fails (f c x) e
  | [], b, _, _, _, h => by
    rw [List.foldlM_nil] at h
    exact absurd h not_fails_pure
  | x :: xs, b, Inv, hb, step, h => by
    rw [List.foldlM_cons] at h
    rcases h.bind with h | ⟨b', hb', h⟩
    · exact ⟨[], x, xs, b, rfl, hb, h⟩
    · obtain ⟨before, y, after, c, rfl, hc, hfails⟩ :=
        Fails.foldlM_keeps (fun before => Inv (x :: before))
        (step [] x b b' hb hb') (fun before => step (x :: before)) h
      exact ⟨x :: before, y, after, c, rfl, hc, hfails⟩

end Fails

/-! ## What a computation always gives -/

/-- `x` succeeds with `a` from every state. -/
def Always (x : ExceptT ε (StateM σ) α) (a : α) : Prop := ∀ s, ∃ t, Gives x s a t

section Always

variable {x : ExceptT ε (StateM σ) α} {a : α}

/-- A pure value is always given. -/
theorem always_pure (a : α) : Always (pure a : ExceptT ε (StateM σ) α) a :=
  fun s => ⟨s, gives_pure.2 ⟨rfl, rfl⟩⟩

theorem always_pure_of_eq {b : α} (h : b = a) : Always (pure b : ExceptT ε (StateM σ) α) a := by
  rw [h]
  exact always_pure a

theorem always_modify (f : σ → σ) : Always (modify f : ExceptT ε (StateM σ) PUnit) ⟨⟩ :=
  fun s => ⟨f s, gives_modify.2 rfl⟩

/-- A result without state is always given. -/
theorem always_lift {e : Except ε α} (h : e = .ok a) :
    Always (liftM e : ExceptT ε (StateM σ) α) a :=
  fun s => ⟨s, gives_lift.2 ⟨h, rfl⟩⟩

/-- Two steps that always give their results do so together. -/
theorem Always.bind {f : α → ExceptT ε (StateM σ) β} {b : β} (hx : Always x a)
    (hf : Always (f a) b) : Always (x >>= f) b := by
  intro s
  obtain ⟨u, hx⟩ := hx s
  obtain ⟨t, hf⟩ := hf u
  exact ⟨t, gives_bind.2 ⟨a, u, hx, hf⟩⟩

/-- A sequence of steps gives something if what follows the first step does. -/
theorem Always.exists_bind {f : α → ExceptT ε (StateM σ) β} (hx : Always x a)
    (hf : ∃ b, Always (f a) b) : ∃ b, Always (x >>= f) b := hf.imp fun _ => hx.bind

theorem Always.yields (h : Always x a) (s : σ) : Yields x a := by
  obtain ⟨t, ht⟩ := h s
  exact ht.yields

/-- A computation gives one result from each state. -/
theorem Always.unique {b : α} (s : σ) (h : Always x a) (h' : Always x b) : a = b := by
  obtain ⟨t, ht⟩ := h s
  obtain ⟨u, hu⟩ := h' s
  exact Except.ok.inj (Prod.mk.inj (ht.symm.trans hu)).1

/-- What always gives a result never fails. -/
theorem Always.not_fails {e : ε} (h : Always x a) : ¬Fails x e := by
  rintro ⟨s, t, hfails⟩
  obtain ⟨u, hgives⟩ := h s
  cases (Prod.mk.inj (hgives.symm.trans hfails)).1

theorem Always.map {f : α → β} (hx : Always x a) : Always (f <$> x) (f a) := by
  intro s
  obtain ⟨t, hx⟩ := hx s
  exact ⟨t, gives_map.2 ⟨a, hx, rfl⟩⟩

/-- A list is always read if each of its members is. -/
theorem Always.mapM {f : α → ExceptT ε (StateM σ) β} :
    ∀ {xs : List α} {ys : List β}, List.Forall₂ (fun x y => Always (f x) y) xs ys →
      Always (xs.mapM f) ys
  | [], [], .nil => by
    rw [List.mapM_nil]
    exact always_pure []
  | x :: xs, y :: ys, .cons hy hys => by
    rw [List.mapM_cons]
    exact hy.bind ((Always.mapM hys).bind (always_pure _))

end Always

end Wadl
