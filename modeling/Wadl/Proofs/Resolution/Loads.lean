import Wadl.Proofs.Resolution.Closure
import Wadl.Proofs.Resolution.Failures

/-!
# What a search loads

The references that a search reaches stand in rows: the first row is those of the description, and
each next row those in the definitions that the row before names, but only where it names them first
(`Web.Opens`, `Web.Row`). `Web.InOrder` lists references row by row. A search has one queue, in
which the rest of a row stands before what was found for the next one (`Web.Queue`); both kinds of
steps keep this (`Queue.known`, `Queue.opened`), and so references are taken from it in
breadth-first order (`Queue.inOrder`).
-/

namespace Wadl

/-! ## Breadth-first order -/

namespace Web

variable (w : Web)

/-- What a row of references leads to after some others were met: the references in the definitions
that those of them name whose URI was not met before. -/
inductive Opens : (met row found : List Reference) → Prop where
  | nil {met : List Reference} : Opens met [] []
  | known {met row found : List Reference} {ref : Reference} (hmet : ref.href ∈ met.map (·.href))
      (hrow : Opens (met ++ [ref]) row found) : Opens met (ref :: row) found
  | new {met row found : List Reference} {ref : Reference} {t : Target}
      (hnew : ref.href ∉ met.map (·.href))
      (hnames : w.Names ref t) (hrow : Opens (met ++ [ref]) row found) :
      Opens met (ref :: row) (t.definition.references ++ found)

/-- A row of references with those in the rows before it: first come those of the description, and
then what each row leads to. -/
inductive Row : (met row : List Reference) → Prop where
  | first : Row [] w.app.references
  | next {met row found : List Reference} (hrow : Row met row) (hopens : w.Opens met row found) :
      Row (met ++ row) found

/-- References in breadth-first order, from the first one on: some whole rows, and the beginning of
the next. -/
def InOrder (refs : List Reference) : Prop :=
  ∃ met row part, w.Row met row ∧ part <+: row ∧ refs = met ++ part

/-- A queue from which some references were taken holds the rest of a row, and after it what the
references that were taken from this row lead to. -/
def Queue (taken queue : List Reference) : Prop :=
  ∃ met part rest found, taken = met ++ part ∧ w.Row met (part ++ rest) ∧ w.Opens met part found ∧
    queue = rest ++ found

variable {w} {met part found taken queue : List Reference} {ref : Reference} {t : Target}

/-- A reference that was met before opens nothing. -/
theorem Opens.snoc_known (h : w.Opens met part found)
    (hmet : ref.href ∈ (met ++ part).map (·.href)) : w.Opens met (part ++ [ref]) found := by
  induction h with
  | nil => exact .known (by simpa using hmet) .nil
  | known hfirst _ ih => exact .known hfirst (ih (by simpa using hmet))
  | new hfirst hnames _ ih => exact .new hfirst hnames (ih (by simpa using hmet))

/-- A reference that is met first opens the references of what it names. -/
theorem Opens.snoc_new (h : w.Opens met part found) (hnew : ref.href ∉ (met ++ part).map (·.href))
    (hnames : w.Names ref t) : w.Opens met (part ++ [ref]) (found ++ t.definition.references) := by
  induction h with
  | nil =>
    rw [List.nil_append, List.nil_append, ← List.append_nil t.definition.references]
    exact .new (by simpa using hnew) hnames .nil
  | known hfirst _ ih => exact .known hfirst (ih (by simpa using hnew))
  | new hfirst hnamed _ ih =>
    rw [List.append_assoc]
    exact .new hfirst hnamed (ih (by simpa using hnew))

namespace Queue

theorem start : w.Queue [] w.app.references :=
  ⟨[], [], w.app.references, [], rfl, .first, .nil, (List.append_nil _).symm⟩

/-- What is taken next stands in a row after the references that were taken from this row. -/
theorem next (h : w.Queue taken (ref :: queue)) :
    ∃ met part rest found, taken = met ++ part ∧ w.Row met (part ++ ref :: rest) ∧
      w.Opens met part found ∧ queue = rest ++ found := by
  obtain ⟨met, part, rest, found, rfl, hrow, hopens, hqueue⟩ := h
  cases rest with
  | cons first rest =>
    obtain ⟨rfl, rfl⟩ := List.cons.inj hqueue
    exact ⟨met, part, rest, found, rfl, hrow, hopens, rfl⟩
  | nil =>
    -- the row is at its end, and what it leads to is the next row
    rw [List.append_nil] at hrow
    obtain rfl : found = ref :: queue := hqueue.symm
    exact ⟨met ++ part, [], queue, [], (List.append_nil _).symm, hrow.next hopens, .nil,
      (List.append_nil _).symm⟩

/-- A reference that was met before is taken from the queue. -/
theorem known (h : w.Queue taken (ref :: queue)) (hmet : ref.href ∈ taken.map (·.href)) :
    w.Queue (taken ++ [ref]) queue := by
  obtain ⟨met, part, rest, found, rfl, hrow, hopens, rfl⟩ := h.next
  exact ⟨met, part ++ [ref], rest, found,
    List.append_assoc .., by simpa using hrow, hopens.snoc_known hmet, rfl⟩

/-- A reference that is met first is taken from the queue, and what it opens is put at its end. -/
theorem opened (h : w.Queue taken (ref :: queue)) (hnew : ref.href ∉ taken.map (·.href))
    (hnames : w.Names ref t) : w.Queue (taken ++ [ref]) (queue ++ t.definition.references) := by
  obtain ⟨met, part, rest, found, rfl, hrow, hopens, rfl⟩ := h.next
  exact ⟨met, part ++ [ref], rest, found ++ t.definition.references,
    List.append_assoc .., by simpa using hrow, hopens.snoc_new hnew hnames, List.append_assoc ..⟩

/-- References are taken from a queue in breadth-first order. -/
theorem inOrder (h : w.Queue taken (ref :: queue)) : w.InOrder (taken ++ [ref]) := by
  obtain ⟨met, part, rest, found, rfl, hrow, -, -⟩ := h.next
  exact ⟨met, part ++ ref :: rest, part ++ [ref], hrow, ⟨rest, by simp⟩, List.append_assoc ..⟩

end Queue

end Web

open Search

/-! ## Loaders that note what they are asked for -/

/-- The search's way of loading for a loader, which notes each URI that it is asked for. -/
def Web.Loader.noting (l : Web.Loader) : Loading (StateM (List String)) := fun uri => do
  liftM (modify (· ++ [uri]) : StateM (List String) PUnit)
  return l uri

namespace Search

variable {α β : Type} {x : Following (StateM (List String)) α}
    {y : Following Id α} {n : List Notice}
  {c c' : List String} {r : Except ResolveError α}

/-- What a computation with a noting loader comes to, with its notices and the URIs that were asked
for. -/
def outcome (x : Following (StateM (List String)) α) (n : List Notice) (c : List String) :
    (Except ResolveError α × List Notice) × List String :=
  Id.run ((x.run.run n).run c)

/-- What two steps ask for is what the first asks for and then the second. -/
theorem outcome_bind {f : α → Following (StateM (List String)) β} :
    outcome (x >>= f) n c =
      match outcome x n c with
      | ((.ok a, n'), c') => outcome (f a) n' c'
      | ((.error e, n'), c') => ((.error e, n'), c') := by
  unfold outcome
  rw [ExceptT.run_bind, StateT.run_bind, StateT.run_bind, Id.run_bind]
  rcases Id.run ((x.run.run n).run c) with ⟨⟨_ | _, _⟩, _⟩ <;> rfl

/-- Two computations come to the same, with the same notices. -/
def Agree (x : Following (StateM (List String)) α) (y : Following Id α) : Prop :=
  ∀ n c, (outcome x n c).1 = Id.run (y.run.run n)

theorem Agree.refl_pure (a : α) : Agree (pure a) (pure a) := fun _ _ => rfl

theorem Agree.throw (e : ResolveError) : Agree (throw e : Following _ α) (MonadExcept.throw e) :=
  fun _ _ => rfl

theorem Agree.modify (f : List Notice → List Notice) :
    Agree (MonadState.modifyGet fun s => (PUnit.unit, f s))
      (MonadState.modifyGet fun s => (⟨⟩, f s)) :=
  fun _ _ => rfl

theorem Agree.lift (e : Except ResolveError α) : Agree (liftM e) (liftM e) := fun _ _ => rfl

/-- Searches that note what they ask for and searches that do not agree step by step. -/
theorem Agree.bind {f : α → Following (StateM (List String)) β}
    {g : α → Following Id β} (h : Agree x y) (hf : ∀ a, Agree (f a) (g a)) :
    Agree (x >>= f) (y >>= g) := by
  intro n c
  have hx := h n c
  rw [outcome_bind, run_bind, ← hx]
  rcases outcome x n c with ⟨⟨_ | a, n'⟩, c'⟩
  · rfl
  · exact hf a n' c'

/-- A computation, before which the URIs `c` were asked for, comes to `r`, and then `c'` were asked
for. -/
def Asks (x : Following (StateM (List String)) α) (c : List String) (r : Except ResolveError α)
    (c' : List String) : Prop :=
  ∃ n n', outcome x n c = ((r, n'), c')

/-- What a noting search gives is given without notes. -/
theorem Agree.yields (h : Agree x y) {a : α} (hx : Asks x c (.ok a) c') : Yields y a := by
  obtain ⟨n, n', hx⟩ := hx
  exact ⟨n, n', by rw [Gives, ← h n c, hx]⟩

theorem Agree.fails (h : Agree x y) {e : ResolveError} (hx : Asks x c (.error e) c') :
    Fails y e := by
  obtain ⟨n, n', hx⟩ := hx
  exact ⟨n, n', by rw [← h n c, hx]⟩

theorem asks_pure {a : α} : Asks (pure a) c r c' ↔ r = .ok a ∧ c' = c := by
  constructor
  · rintro ⟨n, n', h⟩
    have hpure : ((Except.ok a, n), c) = ((r, n'), c') := h
    simp_all
  · rintro ⟨rfl, rfl⟩
    exact ⟨[], [], rfl⟩

theorem asks_throw {e : ResolveError} :
    Asks (throw e : Following _ α) c r c' ↔ r = .error e ∧ c' = c := by
  constructor
  · rintro ⟨n, n', h⟩
    have hthrow : ((Except.error e, n), c) = ((r, n'), c') := h
    simp_all
  · rintro ⟨rfl, rfl⟩
    exact ⟨[], [], rfl⟩

/-- A search of two steps fails in the first, or goes on with the second. -/
theorem Asks.bind {f : α → Following (StateM (List String)) β} {r : Except ResolveError β}
    (h : Asks (x >>= f) c r c') :
    (∃ e, Asks x c (.error e) c' ∧ r = .error e) ∨ ∃ a u,
      Asks x c (.ok a) u ∧ Asks (f a) u r c' := by
  obtain ⟨n, n', h⟩ := h
  rw [outcome_bind] at h
  rcases hx : outcome x n c with ⟨⟨e | a, u⟩, v⟩
  · rw [hx] at h
    simp only [Prod.mk.injEq] at h
    obtain ⟨⟨rfl, rfl⟩, rfl⟩ := h
    exact Or.inl ⟨e, ⟨n, u, hx⟩, rfl⟩
  · rw [hx] at h
    exact Or.inr ⟨a, v, ⟨n, u, hx⟩, u, n', h⟩

/-- A computation asks for nothing. -/
def Silent (x : Following (StateM (List String)) α) : Prop := ∀ c r c', Asks x c r c' → c' = c

theorem Silent.pure (a : α) : Silent (Pure.pure a) := fun _ _ _ h => (asks_pure.1 h).2

theorem Silent.throw (e : ResolveError) : Silent (MonadExcept.throw e : Following _ α) :=
  fun _ _ _ h => (asks_throw.1 h).2

theorem asks_modify {f : List Notice → List Notice} {r : Except ResolveError PUnit}
    (h : Asks (MonadState.modifyGet fun s => (PUnit.unit, f s)) c r c') : r = .ok ⟨⟩ ∧ c' = c := by
  obtain ⟨n, n', h⟩ := h
  have hmodify : ((Except.ok PUnit.unit, f n), c) = ((r, n'), c') := h
  simp_all

theorem Silent.modify (f : List Notice → List Notice) :
    Silent (MonadState.modifyGet fun s => (PUnit.unit, f s)) := fun _ _ _ h => (asks_modify h).2

theorem Silent.lift (e : Except ResolveError α) : Silent (liftM e) := by
  rintro c r c' ⟨n, n', h⟩
  exact (congrArg Prod.snd h).symm

/-- Two steps that ask for nothing ask for nothing together. -/
theorem Silent.bind {f : α → Following (StateM (List String)) β} (h : Silent x)
    (hf : ∀ a, Silent (f a)) : Silent (x >>= f) := by
  intro c r c' hx
  rcases hx.bind with ⟨e, hx, -⟩ | ⟨a, u, hx, hrest⟩
  · exact h _ _ _ hx
  · rw [hf a _ _ _ hrest, h _ _ _ hx]

end Search

namespace Web

variable {w : Web} {s s' : State} {ref : Reference} {c c' : List String}

variable (w) in
/-- The search's way of loading, if there is one, which notes what it is asked for. -/
def noting : Option (Loading (StateM (List String))) := w.loader.map Loader.noting

theorem noting_agree (l : Loader) (uri : String) :
    Agree (liftM (l.noting uri) : Following _ _) (liftM (l.loading uri)) := fun _ _ => rfl

/-- A loader notes each URI that it is asked for. -/
theorem asks_noting {l : Loader} {uri : String}
    {r : Except ResolveError (Except LoadError Xml.Node)} (h : Asks (liftM (l.noting uri)) c r c') :
    r = .ok (l uri) ∧ c' = c ++ [uri] := by
  obtain ⟨n, n', h⟩ := h
  have hnoted : ((Except.ok (l uri), n), c ++ [uri]) = ((r, n'), c') := h
  simp_all

/-! ## Steps -/

theorem readNoticed_agree {uri : String} {strict : Bool} {root : Xml.Node} :
    Agree (readNoticed uri strict root) (readNoticed uri strict root) := by
  unfold readNoticed
  refine (Agree.modify _).bind fun _ => ?_
  split
  · exact .refl_pure _
  · exact .throw _

/-- Reading a document asks for no other one. -/
theorem readNoticed_silent {uri : String} {strict : Bool} {root : Xml.Node} :
    Silent (readNoticed uri strict root) := by
  unfold readNoticed
  refine (Silent.modify _).bind fun _ => ?_
  split
  · exact .pure _
  · exact .throw _

/-- The document of a URI is the same with and without notes. -/
theorem documentFor_agree {uri : String} :
    Agree (documentFor w.noting w.strict s uri ref) (documentFor w.loading w.strict s uri ref) := by
  unfold documentFor noting loading
  split
  · exact .refl_pure _
  · cases w.loader with
    | none => exact .throw _
    | some l =>
      refine (Agree.modify _).bind fun _ => (noting_agree l uri).bind fun loaded => ?_
      split
      · exact .throw _
      · refine readNoticed_agree.bind fun app => ?_
        split
        · exact .throw _
        · exact .refl_pure _

/-- A document that is not known is asked for once, and no other one is. -/
theorem documentFor_asks {uri : String} {r : Except ResolveError (Index × State)}
    (h : Asks (documentFor w.noting w.strict s uri ref) c r c') :
    ∃ asked : Option String, c' = c ++ asked.toList ∧
      (∀ u ∈ asked, u = uri ∧ s.documents.lookup uri = none) ∧
      ∀ index s', r = .ok (index, s') →
        s'.targets = s.targets ∧ s'.documents.map (·.1) =
          s.documents.map (·.1) ++ asked.toList := by
  unfold documentFor at h
  split at h
  · obtain ⟨rfl, rfl⟩ := asks_pure.1 h
    refine ⟨none, by simp, by simp, fun index s' heq => ?_⟩
    obtain ⟨rfl, rfl⟩ := Prod.mk.inj (Except.ok.inj heq)
    simp
  · rename_i hnew
    unfold noting at h
    cases hl : w.loader with
    | none =>
      rw [hl] at h
      obtain ⟨rfl, rfl⟩ := asks_throw.1 h
      exact ⟨none, by simp, by simp, by simp⟩
    | some l =>
      rw [hl] at h
      have hasked : ∀ u ∈ some uri, u = uri ∧ s.documents.lookup uri = none := by simpa using hnew
      rcases h.bind with ⟨e, hmodify, -⟩ | ⟨_, u, hmodify, hload⟩
      · cases (asks_modify hmodify).1
      obtain rfl := (asks_modify hmodify).2
      rcases hload.bind with ⟨e, hloaded, -⟩ | ⟨loaded, u, hloaded, hread⟩
      · cases (asks_noting hloaded).1
      obtain ⟨-, rfl⟩ := asks_noting hloaded
      split at hread
      · obtain ⟨rfl, rfl⟩ := asks_throw.1 hread
        exact ⟨some uri, rfl, hasked, by simp⟩
      rcases hread.bind with ⟨e, happ, rfl⟩ | ⟨app, u, happ, hindex⟩
      · exact ⟨some uri, readNoticed_silent _ _ _ happ, hasked, by simp⟩
      obtain rfl := readNoticed_silent _ _ _ happ
      split at hindex
      · obtain ⟨rfl, rfl⟩ := asks_throw.1 hindex
        exact ⟨some uri, rfl, hasked, by simp⟩
      · obtain ⟨rfl, rfl⟩ := asks_pure.1 hindex
        refine ⟨some uri, rfl, hasked, fun index' s' heq => ?_⟩
        obtain ⟨rfl, rfl⟩ := Prod.mk.inj (Except.ok.inj heq)
        simp

theorem lookUp_agree :
    Agree (lookUp w.noting w.strict s ref) (lookUp w.loading w.strict s ref) := by
  unfold lookUp
  split
  · exact .throw _
  · refine documentFor_agree.bind fun _ => ?_
    simp only
    split
    · exact .throw _
    · exact (Agree.lift _).bind fun _ => .refl_pure _

/-- Looking up a reference asks for its document, if that is not known, and for no other one. -/
theorem lookUp_asks {r : Except ResolveError (Target × State)}
    (h : Asks (lookUp w.noting w.strict s ref) c r c') :
    ∃ asked : Option String, c' = c ++ asked.toList ∧
      (∀ uri ∈ asked, s.documents.lookup uri = none ∧ ∃ id, ref.target = .ok (uri, id)) ∧
      ∀ t s', r = .ok (t, s') → s'.documents.map (·.1) = s.documents.map (·.1) ++ asked.toList := by
  unfold lookUp at h
  split at h
  · obtain ⟨rfl, rfl⟩ := asks_throw.1 h
    exact ⟨none, by simp, by simp, by simp⟩
  rename_i uri id htarget
  have hof : ∀ {asked : Option String}, (∀ u ∈ asked, u = uri ∧ s.documents.lookup uri = none) →
      ∀ u ∈ asked, s.documents.lookup u = none ∧ ∃ id, ref.target = .ok (u, id) := by
    intro asked hasked u hu
    obtain ⟨rfl, hnew⟩ := hasked u hu
    exact ⟨hnew, id, htarget⟩
  rcases h.bind with ⟨e, hdoc, rfl⟩ | ⟨⟨index, s₁⟩, u, hdoc, hentry⟩
  · obtain ⟨asked, rfl, hasked, -⟩ := documentFor_asks hdoc
    exact ⟨asked, rfl, hof hasked, by simp⟩
  obtain ⟨asked, rfl, hasked, hdocuments⟩ := documentFor_asks hdoc
  simp only at hentry
  split at hentry
  · obtain ⟨rfl, rfl⟩ := asks_throw.1 hentry
    exact ⟨asked, rfl, hof hasked, by simp⟩
  · refine ⟨asked, (Silent.lift _).bind (fun _ => .pure _) _ _ _ hentry, hof hasked, ?_⟩
    rintro t s' rfl
    rcases hentry.bind with ⟨e, -, heq⟩ | ⟨_, u, -, hpure⟩
    · cases heq
    · obtain ⟨rfl, rfl⟩ := Prod.mk.inj (Except.ok.inj (asks_pure.1 hpure).1)
      exact (hdocuments index _ rfl).2

theorem followOne_agree :
    Agree (followOne w.noting w.strict s ref) (followOne w.loading w.strict s ref) := by
  unfold followOne
  split
  · split
    · exact .throw _
    · exact (Agree.lift _).bind fun _ => .refl_pure _
  · exact lookUp_agree.bind fun _ => .refl_pure _

/-- Following a reference asks for its document, if that is not known, and for no other one. -/
theorem followOne_asks {r : Except ResolveError (State × List Reference)}
    (h : Asks (followOne w.noting w.strict s ref) c r c') :
    ∃ asked : Option String, c' = c ++ asked.toList ∧
      (∀ uri ∈ asked, s.documents.lookup uri = none ∧ s.targets.lookup ref.href = none ∧
        ∃ id, ref.target = .ok (uri, id)) ∧
      ∀ s' found, r = .ok (s', found) →
        s'.documents.map (·.1) = s.documents.map (·.1) ++ asked.toList := by
  unfold followOne at h
  split at h
  · -- what the reference names is known
    refine ⟨none, ?_, by simp, fun s' found heq => ?_⟩
    · split at h
      · rw [(asks_throw.1 h).2]
        simp
      · rw [(Silent.lift _).bind (fun _ => .pure _) _ _ _ h]
        simp
    · subst heq
      split at h
      · cases (asks_throw.1 h).1
      · obtain ⟨e, -, heq⟩ | ⟨_, u, -, h⟩ := h.bind
        · cases heq
        · obtain ⟨rfl, rfl⟩ := Prod.mk.inj (Except.ok.inj (asks_pure.1 h).1)
          simp
  · rename_i hnew
    rcases h.bind with ⟨e, hlook, rfl⟩ | ⟨⟨t, s₁⟩, u, hlook, hrest⟩
    · obtain ⟨asked, rfl, hasked, -⟩ := lookUp_asks hlook
      exact ⟨asked, rfl, fun uri huri => ⟨(hasked uri huri).1, hnew, (hasked uri huri).2⟩, by simp⟩
    · obtain ⟨asked, rfl, hasked, hdocuments⟩ := lookUp_asks hlook
      obtain ⟨rfl, rfl⟩ := asks_pure.1 hrest
      refine ⟨asked, rfl, fun uri huri => ⟨(hasked uri huri).1, hnew, (hasked uri huri).2⟩,
        fun s' found heq => ?_⟩
      obtain ⟨rfl, rfl⟩ := Prod.mk.inj (Except.ok.inj heq)
      exact hdocuments t s₁ rfl

/-! ## Runs -/

/-- The whole search is the same with and without notes. -/
theorem run_agree : ∀ {fuel : Nat} {s : State} {queue : List Reference},
    Agree (run w.noting w.strict fuel s queue) (run w.loading w.strict fuel s queue)
  | 0, _, [] | _ + 1, _, [] => .refl_pure _
  | 0, _, _ :: _ => .throw _
  | _ + 1, _, _ :: _ => followOne_agree.bind fun _ => run_agree

/-- A run that comes to its end comes to the same end with more fuel. -/
theorem outcome_run_mono {r : Except ResolveError State} {n' : List Notice} {k : Nat} :
    ∀ {fuel : Nat} {s : State} {queue : List Reference} {n : List Notice} {c : List String},
      outcome (run w.noting w.strict fuel s queue) n c = ((r, n'), c') → r ≠ .error .exhausted →
      outcome (run w.noting w.strict (fuel + k) s queue) n c = ((r, n'), c')
  | 0, s, [], _, _, h, _ => by cases k <;> exact h
  | _ + 1, s, [], _, _, h, _ => by rwa [Nat.succ_add]
  | 0, s, ref :: queue, n, c, h, hr => by
    have hthrow : ((Except.error .exhausted, n), c) = ((r, n'), c') := h
    exact absurd (congrArg (·.1.1) hthrow).symm hr
  | fuel + 1, s, ref :: queue, n, c, h, hr => by
    rw [run, outcome_bind] at h
    rw [Nat.succ_add, run, outcome_bind]
    rcases hx : outcome (followOne w.noting w.strict s ref) n c with ⟨⟨e | ⟨s', found⟩, u⟩, v⟩
    · rwa [hx] at h
    · rw [hx] at h
      have hrun : outcome (run w.noting w.strict fuel s' (queue ++ found)) u v = ((r, n'), c') := h
      exact outcome_run_mono hrun hr

/-- A URI is that of the document in which one of some references has its definition. -/
def AskedFor (refs : List Reference) (uri : String) : Prop :=
  ∃ ref ∈ refs, ∃ id, ref.target = .ok (uri, id)

theorem AskedFor.append {refs : List Reference} {uri : String} (h : AskedFor refs uri)
    (more : List Reference) : AskedFor (refs ++ more) uri := by
  obtain ⟨x, hx, hid⟩ := h
  exact ⟨x, List.mem_append_left _ hx, hid⟩

/-- The document of the last reference is asked for. -/
theorem askedFor_last {refs : List Reference} {uri id : String} (h : ref.target = .ok (uri, id)) :
    AskedFor (refs ++ [ref]) uri := ⟨ref, by simp, id, h⟩

variable (w) in
/-- Where a search stands after it took some references out of its queue and asked for some URIs: it
knows the description and what it asked for, each once, and each of these is the home of something
that it found; it found what those references name. -/
structure Progress (s : State) (taken : List Reference) (c : List String) : Prop where
  documents : s.documents.map (·.1) = w.app.baseUri :: c
  nodup : (w.app.baseUri :: c).Nodup
  homes : ∀ uri ∈ c, ∃ href t, s.targets.lookup href = some t ∧ t.place.document = uri
  keys : ∀ href, href ∈ s.targets.map (·.1) ↔ href ∈ taken.map (·.href)
  asked : ∀ uri ∈ c, AskedFor taken uri
  resolvable : ∀ ref ∈ taken, w.Resolvable ref

namespace Progress

variable {taken queue found : List Reference}

theorem start {index : Index} : w.Progress (w.start index) [] [] where
  documents := rfl
  nodup := List.nodup_singleton _
  homes := by simp
  keys := by simp [Web.start]
  asked := by simp
  resolvable := by simp

/-- What is asked for next was not asked for before, and is not the description. -/
theorem nodup_append (h : w.Progress s taken c) {asked : Option String}
    (hnew : ∀ uri ∈ asked, s.documents.lookup uri = none) :
    (w.app.baseUri :: (c ++ asked.toList)).Nodup := by
  cases asked with
  | none => simpa using h.nodup
  | some uri =>
    have hfresh : uri ∉ s.documents.map (·.1) := by
      rw [mem_keys_of_lookup]
      rintro ⟨d, hd⟩
      rw [hnew uri rfl] at hd
      cases hd
    rw [h.documents] at hfresh
    rw [← List.cons_append, List.nodup_append]
    refine ⟨h.nodup, List.nodup_singleton _, ?_⟩
    rintro x hx y hy rfl
    rw [List.mem_singleton.1 hy] at hx
    exact hfresh hx

/-- Where a search stands after one more step. -/
theorem step (h : w.Progress s taken c) (hinv : w.Invariant s (ref :: queue))
    (hqueue : w.Queue taken (ref :: queue))
    (hasks : Asks (followOne w.noting w.strict s ref) c (.ok (s', found)) c') :
    w.Progress s' (taken ++ [ref]) c' ∧ w.Queue (taken ++ [ref]) (queue ++ found) := by
  obtain ⟨asked, rfl, hasked, hdocuments⟩ := followOne_asks hasks
  have hnodup := h.nodup_append fun uri huri => (hasked uri huri).1
  have hdocuments' := hdocuments s' found rfl
  rw [h.documents, List.cons_append] at hdocuments'
  have hresolvable (hlast : w.Resolvable ref) : ∀ x ∈ taken ++ [ref], w.Resolvable x := by
    intro x hx
    rcases List.mem_append.1 hx with hx | hx
    · exact h.resolvable x hx
    · rwa [List.mem_singleton.1 hx]
  rcases followOne_yields hinv.knows (followOne_agree.yields hasks) with
    ⟨t, hknown, hkind, rfl, rfl⟩ | ⟨hnew, t, hnames, hkind, rfl, -, htargets, -⟩
  · -- what is known is not asked for
    obtain rfl : asked = none := by
      refine Option.eq_none_iff_forall_not_mem.2 fun uri huri => ?_
      rw [hknown] at hasked
      cases (hasked uri huri).2.1
    obtain ⟨x, -, hhref, hnames, -⟩ := hinv.sound _ _ hknown
    have hmet : ref.href ∈ taken.map (·.href) := (h.keys _).1 (mem_keys_of_lookup.2 ⟨t, hknown⟩)
    refine ⟨⟨hdocuments', hnodup, ?_, fun href => ?_, ?_,
      hresolvable ⟨t, hnames.of_href hhref, hkind⟩⟩, ?_⟩
    · simpa using h.homes
    · rw [h.keys, List.map_append, List.mem_append, List.map_singleton, List.mem_singleton]
      exact ⟨Or.inl, fun hmem => hmem.elim id fun heq => heq ▸ hmet⟩
    · simpa using fun uri huri => (h.asked uri huri).append [ref]
    · rw [List.append_nil]
      exact hqueue.known hmet
  · have hunmet : ref.href ∉ taken.map (·.href) := by
      rw [← h.keys, mem_keys_of_lookup]
      rintro ⟨known, hknown⟩
      rw [hnew] at hknown
      cases hknown
    have hlookup : s'.targets.lookup ref.href = some t := by
      rw [htargets, List.lookup_append, hnew, Option.none_or, List.lookup_cons_self]
    refine ⟨⟨hdocuments', hnodup, fun uri huri => ?_, fun href => ?_, fun uri huri => ?_,
      hresolvable ⟨t, hnames, hkind⟩⟩, hqueue.opened hunmet hnames⟩
    · rcases List.mem_append.1 huri with huri | huri
      · obtain ⟨href, t', ht', rfl⟩ := h.homes uri huri
        exact ⟨href, t', by rw [htargets, List.lookup_append, ht', Option.some_or], rfl⟩
      · -- the document that was asked for is the one in which the definition stands
        obtain ⟨-, -, id, htarget⟩ := hasked uri (Option.mem_toList.1 huri)
        obtain ⟨id', -, -, -, htarget', -⟩ := hnames
        rw [htarget'] at htarget
        exact ⟨ref.href, t, hlookup, (Prod.mk.inj (Except.ok.inj htarget)).1⟩
    · rw [htargets, List.map_append, List.mem_append, h.keys, List.map_append, List.mem_append]
      rfl
    · rcases List.mem_append.1 huri with huri | huri
      · exact (h.asked uri huri).append [ref]
      · obtain ⟨-, -, id, htarget⟩ := hasked uri (Option.mem_toList.1 huri)
        exact askedFor_last htarget

end Progress

end Web

end Wadl
