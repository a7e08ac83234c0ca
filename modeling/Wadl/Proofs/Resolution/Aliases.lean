import Mathlib.Data.List.Chain
import Wadl.Proofs.Document.Uses
import Wadl.Proofs.Resolution.Places

/-!
# Following aliases

All references in a resolved description and in what its table holds are in the table, with the
kinds that are asked for (`Web.Resolves.settled`). From a reference to a param or a representation,
aliases lead on to a definition (`Resolution.EndsAt`) or in a circle (`Resolution.Circle`).
Following it gives the definition at the end, and fails with the circle where there is no end
(`Resolution.Settled.follow`): the references that were passed differ and are in the table, so the
fuel is enough.
-/

namespace Wadl

namespace Resolution

/-- The references of a resolved description, with those in what its table holds. -/
def uses (r : Resolution) : List Use := r.app.uses ++ r.targets.flatMap (·.2.definition.uses)

/-- What each reference names is in the table and of the kind that is asked for. -/
def Settled (r : Resolution) : Prop :=
  ∀ u ∈ r.uses, ∃ t, r.targets.lookup u.ref.href = some t ∧ t.kind? = some u.kind

variable {r : Resolution}

/-- What a target uses is used in the resolution. -/
theorem uses_of_lookup {href : String} {t : Target} (h : r.targets.lookup href = some t) :
    t.definition.uses ⊆ r.uses := by
  intro u hu
  obtain ⟨before, after, htargets, -⟩ := List.lookup_eq_some_iff.1 h
  refine List.mem_append_right _ (List.mem_flatMap.2 ⟨(href, t), ?_, hu⟩)
  simp [htargets]

end Resolution

namespace Web

variable {w : Web} {r : Resolution}

/-- Documents of a web have their definitions where their kinds belong. -/
theorem IsDocument.kinded (hkinded : w.app.Kinded) {uri : String} {d : Application}
    (h : w.IsDocument uri d) : d.Kinded := by
  unfold IsDocument at h
  split at h
  · rwa [h]
  · obtain ⟨l, root, notices, -, -, hread⟩ := h
    exact readDescription_kinded hread.yields

/-- What the references of a resolved description name is in its table. -/
theorem Resolves.settled (hr : w.Resolves r) (hkinded : w.app.Kinded) : r.Settled := by
  suffices h : ∀ u ∈ r.uses, w.Reachable u.ref ∧ u.ref.kind = u.kind by
    intro u hu
    obtain ⟨hreachable, hkind⟩ := h u hu
    obtain ⟨t, -, hlookup, -, ht, -⟩ := hr.lookup u.ref hreachable
    exact ⟨t, hlookup, hkind ▸ ht⟩
  intro u hu
  rcases List.mem_append.1 hu with hu | hu
  · rw [hr.app_eq] at hu
    refine ⟨.here ?_, hkinded u hu⟩
    rw [← Application.uses_ref]
    exact List.mem_map_of_mem hu
  · obtain ⟨⟨href, t⟩, ht, hu⟩ := List.mem_flatMap.1 hu
    obtain ⟨outer, houter, rfl⟩ := (hr.mem_keys href).1 (List.mem_map_of_mem ht)
    obtain ⟨t', -, hlookup, hnames, -⟩ := hr.lookup outer houter
    obtain rfl : t = t' := Option.some.inj ((lookup_of_mem hr.keys_nodup ht).symm.trans hlookup)
    refine ⟨.inside houter hnames ?_, ?_⟩
    · rw [← Definition.uses_ref]
      exact List.mem_map_of_mem hu
    · obtain ⟨id, d, index, entry, -, hd, hindex, hentry, hdef, -⟩ := hnames
      rw [hdef] at hu
      exact hd.kinded hkinded u (Application.entry_uses (Index.mem_entries hindex hentry) hu)

end Web

namespace Resolution

/-! ## Chains of aliases -/

variable {r : Resolution} {α : Type} {wanted : Wanted α} {kind : DefinitionKind}

/-- What stands at a URI is an alias for what the next one names. -/
def Aliased (r : Resolution) (wanted : Wanted α) (href next : String) : Prop :=
  ∃ t ref, r.targets.lookup href = some t ∧ wanted.alias? t.definition = some ref ∧ ref.href = next

/-- Aliases lead from a URI to a definition. -/
inductive EndsAt (r : Resolution) (wanted : Wanted α) : String → Placed α → Prop where
  | here {href : String} {t : Target} {value : α} (hlookup : r.targets.lookup href = some t)
      (h : wanted.concrete? t.definition = some value) : EndsAt r wanted href ⟨value, t.place⟩
  | next {href next : String} {p : Placed α} (halias : r.Aliased wanted href next)
      (h : EndsAt r wanted next p) : EndsAt r wanted href p

/-- Aliases lead from a URI through others, all different, back to one of them. -/
structure Circle (r : Resolution) (wanted : Wanted α) (start : String) (chain : List String) :
    Prop where
  head : chain.head? = some start
  aliased : chain.IsChain (r.Aliased wanted)
  nodup : chain.dropLast.Nodup
  back : ∃ last ∈ chain.dropLast, chain.getLast? = some last

/-- All definitions of a kind are wanted ones or aliases for what is asked for as such, and none is
both. -/
structure Wanted.Covers (wanted : Wanted α) (kind : DefinitionKind) : Prop where
  alias_of_not_concrete : ∀ d : Definition, d.kind? = some kind → wanted.concrete? d = none →
    ∃ next, wanted.alias? d = some next ∧ ⟨kind, next⟩ ∈ d.uses
  not_both : ∀ d v ref, wanted.concrete? d = some v → wanted.alias? d ≠ some ref

/-- Params are concrete or aliases, with nothing between; so are representations. -/
theorem Wanted.param_covers : Wanted.param.Covers .param := by
  constructor
  · intro d hkind hconcrete
    cases d with
    | param item =>
      cases item with
      | inline p => cases hconcrete
      | ref ref id => exact ⟨ref, rfl, List.mem_singleton.2 rfl⟩
    | _ => cases hkind
  · intro d v ref hconcrete halias
    cases d with
    | param item => cases item <;> [cases halias; cases hconcrete]
    | _ => cases hconcrete

theorem Wanted.representation_covers : Wanted.representation.Covers .representation := by
  constructor
  · intro d hkind hconcrete
    cases d with
    | representation item =>
      cases item with
      | inline rep => cases hconcrete
      | ref ref id => exact ⟨ref, rfl, List.mem_singleton.2 rfl⟩
    | _ => cases hkind
  · intro d v ref hconcrete halias
    cases d with
    | representation item => cases item <;> [cases halias; cases hconcrete]
    | _ => cases hconcrete

/-- An alias has one next reference. -/
theorem Aliased.unique {href next next' : String} (h : r.Aliased wanted href next)
    (h' : r.Aliased wanted href next') : next = next' := by
  obtain ⟨t, ref, hlookup, halias, rfl⟩ := h
  obtain ⟨t', ref', hlookup', halias', rfl⟩ := h'
  obtain rfl := Option.some.inj (hlookup.symm.trans hlookup')
  rw [Option.some.inj (halias.symm.trans halias')]

/-- Where each alias leads to another one, there is no end. -/
theorem not_endsAt_of_aliased (hcovers : wanted.Covers kind) {hrefs : List String}
    (h : ∀ href ∈ hrefs, ∃ next ∈ hrefs, r.Aliased wanted href next) {href : String}
    (hmem : href ∈ hrefs) (p : Placed α) : ¬r.EndsAt wanted href p := by
  intro hend
  induction hend with
  | here hlookup hconcrete =>
    obtain ⟨next, -, t, ref, hlookup', halias, -⟩ := h _ hmem
    obtain rfl := Option.some.inj (hlookup.symm.trans hlookup')
    exact hcovers.not_both _ _ _ hconcrete halias
  | next halias _ ih =>
    obtain ⟨next', hnext, halias'⟩ := h _ hmem
    exact ih (halias.unique halias' ▸ hnext)

/-- From a circle aliases lead to no definition. -/
theorem Circle.not_endsAt (hcovers : wanted.Covers kind) {start : String} {chain : List String}
    (h : r.Circle wanted start chain) (p : Placed α) : ¬r.EndsAt wanted start p := by
  obtain ⟨last, hlast, hback⟩ := h.back
  have haliased : ∀ href ∈ chain, ∃ next ∈ chain, r.Aliased wanted href next := by
    intro href hmem
    -- the last URI of the chain is an earlier one, which is followed by another
    have hinside : href ∈ chain.dropLast := by
      rw [← List.dropLast_append_getLast? last hback] at hmem
      rcases List.mem_append.1 hmem with hmem | hmem
      · exact hmem
      · rwa [List.mem_singleton.1 hmem]
    obtain ⟨next, hnext, halias⟩ :=
      exists_right_of_forall₂ (List.isChain_iff_forall₂.1 h.aliased) hinside
    exact ⟨next, List.mem_of_mem_tail hnext, halias⟩
  exact not_endsAt_of_aliased hcovers haliased (List.mem_of_mem_head? h.head) p

section Follow

variable {fuel : Nat} {chain : List String} {ref : Reference} {t : Target}

/-- Following ends at a definition that is concrete. -/
theorem followFrom_concrete (hlookup : r.targets.lookup ref.href = some t) {value : α}
    (h : wanted.concrete? t.definition = some value) :
    r.followFrom wanted (fuel + 1) chain ref = .ok ⟨value, t.place⟩ := by
  rw [followFrom, Web.deref_ok.2 hlookup]
  simp only [bind, Except.bind, h]
  rfl

/-- Following goes on from an alias, unless it has been there. -/
theorem followFrom_alias (hlookup : r.targets.lookup ref.href = some t) {next : Reference}
    (hconcrete : wanted.concrete? t.definition = none)
    (h : wanted.alias? t.definition = some next) : r.followFrom wanted (fuel + 1) chain ref =
      if chain.contains next.href then .error (.cyclic (chain ++ [next.href]))
      else r.followFrom wanted fuel (chain ++ [next.href]) next := by
  rw [followFrom, Web.deref_ok.2 hlookup]
  simp only [bind, Except.bind, hconcrete, h]

end Follow

/-- The URIs that were passed on the way from one to another, all different and in the table. -/
structure Passage (r : Resolution) (wanted : Wanted α) (start : String)
    (passed : List String) (href : String) : Prop where
  head : (passed ++ [href]).head? = some start
  aliased : (passed ++ [href]).IsChain (r.Aliased wanted)
  nodup : (passed ++ [href]).Nodup
  keys : passed ++ [href] ⊆ r.targets.map (·.1)

namespace Passage

variable {start : String} {passed : List String} {href next : String}

theorem single {t : Target} (hlookup : r.targets.lookup href = some t) :
    r.Passage wanted href [] href where
  head := rfl
  aliased := .singleton _
  nodup := List.nodup_singleton _
  keys := List.cons_subset.2 ⟨mem_keys_of_lookup.2 ⟨t, hlookup⟩, List.nil_subset _⟩

theorem aliased_next (h : r.Passage wanted start passed href)
    (halias : r.Aliased wanted href next) :
    (passed ++ [href] ++ [next]).IsChain (r.Aliased wanted) := by
  refine List.isChain_append.2 ⟨h.aliased, .singleton _, fun x hx y hy => ?_⟩
  simp only [List.getLast?_concat, List.head?_cons, Option.mem_some_iff] at hx hy
  exact hx ▸ hy ▸ halias

theorem head_next (h : r.Passage wanted start passed href) :
    (passed ++ [href] ++ [next]).head? = some start := by
  rw [List.head?_append, h.head, Option.some_or]

/-- An alias that leads on makes the passage longer. -/
theorem step (h : r.Passage wanted start passed href) (halias : r.Aliased wanted href next)
    (hnew : next ∉ passed ++ [href]) {t : Target} (hlookup : r.targets.lookup next = some t) :
    r.Passage wanted start (passed ++ [href]) next where
  head := h.head_next
  aliased := h.aliased_next halias
  nodup := List.nodup_append.2 ⟨h.nodup, List.nodup_singleton _, fun _ hx _ hy heq =>
    hnew (List.mem_singleton.1 hy ▸ heq ▸ hx)⟩
  keys := List.append_subset.2
    ⟨h.keys, List.cons_subset.2 ⟨mem_keys_of_lookup.2 ⟨t, hlookup⟩, List.nil_subset _⟩⟩

/-- An alias that leads back makes a circle. -/
theorem circle (h : r.Passage wanted start passed href) (halias : r.Aliased wanted href next)
    (hback : next ∈ passed ++ [href]) : r.Circle wanted start (passed ++ [href] ++ [next]) where
  head := h.head_next
  aliased := h.aliased_next halias
  nodup := by rw [List.dropLast_concat]; exact h.nodup
  back := ⟨next, by rwa [List.dropLast_concat], List.getLast?_concat⟩

/-- A passage is no longer than there are targets, since it meets none twice. -/
theorem length_le (h : r.Passage wanted start passed href) :
    passed.length + 1 ≤ r.targets.length := by
  have hle := h.nodup.length_le_of_subset h.keys
  rwa [List.length_append, List.length_singleton, List.length_map] at hle

end Passage

/-- Following aliases from a reference ends or comes back, whatever was passed on the way to it. -/
theorem Settled.followFrom (hr : r.Settled) (hcovers : wanted.Covers kind)
    {start : String} {fuel : Nat} :
    ∀ {passed : List String} {ref : Reference}, ⟨kind, ref⟩ ∈ r.uses →
      r.Passage wanted start passed ref.href → r.targets.length ≤ fuel + passed.length →
      (∃ p, r.followFrom wanted (fuel + 1) (passed ++ [ref.href]) ref = .ok p ∧
        r.EndsAt wanted ref.href p) ∨
      ∃ chain, r.followFrom wanted (fuel + 1) (passed ++ [ref.href]) ref = .error (.cyclic chain) ∧
        r.Circle wanted start chain := by
  induction fuel with
  | zero =>
    -- one more URI was passed than the table has
    intro passed ref _ hpassage hfuel
    have hle := hpassage.length_le
    omega
  | succ fuel ih =>
    intro passed ref huse hpassage hfuel
    obtain ⟨t, hlookup, hkind⟩ := hr _ huse
    cases hconcrete : wanted.concrete? t.definition with
    | some value => exact Or.inl ⟨_, followFrom_concrete hlookup hconcrete, .here hlookup hconcrete⟩
    | none =>
      obtain ⟨next, halias, hmem⟩ := hcovers.alias_of_not_concrete _ hkind hconcrete
      have hnext := uses_of_lookup hlookup hmem
      have haliased : r.Aliased wanted ref.href next.href := ⟨t, next, hlookup, halias, rfl⟩
      rw [followFrom_alias hlookup hconcrete halias]
      by_cases hback : next.href ∈ passed ++ [ref.href]
      · rw [if_pos (List.contains_iff_mem.2 hback)]
        exact Or.inr ⟨_, rfl, hpassage.circle haliased hback⟩
      · rw [if_neg (by simpa using hback)]
        obtain ⟨t', hlookup', -⟩ := hr _ hnext
        have hfuel' : r.targets.length ≤ fuel + (passed ++ [ref.href]).length := by
          rw [List.length_append, List.length_singleton]
          omega
        rcases ih hnext (hpassage.step haliased hback hlookup') hfuel' with ⟨p, hp, hend⟩ | hcircle
        · exact Or.inl ⟨p, hp, .next haliased hend⟩
        · exact Or.inr hcircle

/-! ## Accessors -/

variable {β : Type}

/-- What comes of following a reference: something of the definition at the end of the aliases, or,
if they have no end, their circle as an error. -/
def EndsOrCircles (r : Resolution) (wanted : Wanted α) (ref : Reference) (part : Placed α → β)
    (x : Except ResolveError β) : Prop :=
  (∃ p, x = .ok (part p) ∧ r.EndsAt wanted ref.href p) ∨
  ∃ chain, x = .error (.cyclic chain) ∧ r.Circle wanted ref.href chain ∧ ∀ p,
    ¬r.EndsAt wanted ref.href p

/-- In a settled resolution, following ends at a definition, or fails for a circle that it
reports. -/
theorem Settled.follow (hr : r.Settled) (hcovers : wanted.Covers kind) {ref : Reference}
    (huse : ⟨kind, ref⟩ ∈ r.uses) (part : Placed α → β) :
    r.EndsOrCircles wanted ref part (part <$> r.follow wanted ref) := by
  obtain ⟨t, hlookup, -⟩ := hr _ huse
  rcases hr.followFrom hcovers huse (.single hlookup)
    (Nat.le_refl _) with ⟨p, hp, hend⟩ | ⟨chain, hchain, hcircle⟩
  · exact Or.inl ⟨p, congrArg (part <$> ·) hp, hend⟩
  · exact Or.inr ⟨chain, congrArg (part <$> ·) hchain, hcircle, hcircle.not_endsAt hcovers⟩

/-- What the accessors of a resolved description give for the references in it and in what its table
holds. -/
structure Accessible (r : Resolution) : Prop where
  param : ∀ ref id,
    ⟨.param, ref⟩ ∈ r.uses → r.EndsOrCircles .param ref (·.value) (r.param (.ref ref id))
  representation : ∀ ref id place, ⟨.representation, ref⟩ ∈ r.uses →
    r.EndsOrCircles .representation ref (fun p => p) (r.representation place (.ref ref id))
  method : ∀ ref place, ⟨.method, ref⟩ ∈ r.uses →
    ∃ m, r.method place (.ref ref) = .ok m ∧ r.targets.lookup ref.href =
      some ⟨.method m.value, m.place⟩
  resourceType : ∀ ref, ⟨.resourceType, ref⟩ ∈ r.uses →
    ∃ t, r.resourceType ref = .ok t ∧ r.targets.lookup ref.href =
      some ⟨.resourceType t.value, t.place⟩

/-- So all that is used can be accessed. -/
theorem Settled.accessible (hr : r.Settled) : r.Accessible where
  param _ _ huse := hr.follow Wanted.param_covers huse _
  representation ref _ _ huse := by
    have h := hr.follow Wanted.representation_covers huse fun p => p
    rwa [id_map'] at h
  method ref place huse := by
    obtain ⟨⟨definition, stands⟩, hlookup, hkind⟩ := hr _ huse
    cases definition with
    | method m =>
      refine ⟨⟨m, stands⟩, ?_, hlookup⟩
      rw [Resolution.method, Resolution.follow]
      exact followFrom_concrete hlookup rfl
    | _ => cases hkind
  resourceType ref huse := by
    obtain ⟨⟨definition, place⟩, hlookup, hkind⟩ := hr _ huse
    cases definition with
    | resourceType t =>
      refine ⟨⟨t, place⟩, ?_, hlookup⟩
      rw [Resolution.resourceType, Web.deref_ok.2 hlookup]
      rfl
    | _ => cases hkind

end Resolution

/-- In a description that is read references are of the kinds that are asked for. If they are, then,
once it is resolved, all references in it and in what its table holds can be followed: those to
methods and types of resources lead to one, and those to params and representations to the end of
their aliases, or else to the circle of aliases that has no end. -/
theorem references_accessible :
    (∀ base strict root app, Yields (readDescription base strict root) app → app.Kinded) ∧
    ∀ (w : Web) (fuel : Nat) (r : Resolution) (n n' : List Notice), w.app.Kinded →
      Gives (resolveWith w.loading w.strict fuel w.app) n r n' → r.Accessible :=
  ⟨fun _ _ _ _ h => readDescription_kinded h,
    fun _ _ _ _ _ hkinded hr => ((Web.resolves_of_gives hr).settled hkinded).accessible⟩

/-- A description with aliases that lead to a param, and two that lead to each other. A resource has
one of these. -/
def circledParams : Application :=
  let named (id : String) : Reference := ⟨.param, "http://h/d#" ++ id, ""⟩
  ⟨"http://h/d", [], [],
    [⟨some "http://h/",
      [⟨none, some "x", [], formMediaType, [.ref (named "c") none], [], [], []⟩]⟩], [], [],
    [.ref (named "b") (some "a"), .ref (named "p") (some "b"),
      .inline { name := "p", style := .query, id := "p" },
      .ref (named "d") (some "c"), .ref (named "c") (some "d")], []⟩

theorem references_accessible_circledParams :
    let w : Web := ⟨circledParams, none, false⟩
    let named (id : String) : Reference := ⟨.param, "http://h/d#" ++ id, ""⟩
    w.app.Kinded ∧ ∃ r n, Gives (resolveWith w.loading w.strict 9 w.app) [] r n ∧ r.Accessible ∧
      (∃ p, r.param (.ref (named "b") none) = .ok p ∧ p.name = "p") ∧
      ∃ chain, r.param (.ref (named "c") none) = .error (.cyclic chain) ∧
        chain = ["http://h/d#c", "http://h/d#d", "http://h/d#c"] ∧ ∀ p,
          ¬r.EndsAt .param "http://h/d#c" p := by
  intro w named
  have hkinded : w.app.Kinded := by
    show ∀ u ∈ circledParams.uses, _
    decide
  let circle := ["http://h/d#c", "http://h/d#d", "http://h/d#c"]
  obtain ⟨r, n, hr, hexpected⟩ :=
    exists_gives_of_any (x := resolveWith w.loading w.strict 9 w.app) (s := [])
    (p := fun r => ⟨.param, named "c"⟩ ∈ r.uses ∧
      (r.param (.ref (named "b") none)).toOption.any (·.name = "p") = true ∧
      errorOf? (r.param (.ref (named "c") none)) = some (.cyclic circle)) (by decide +kernel)
  obtain ⟨huse, hb, hc⟩ := of_decide_eq_true hexpected
  have haccessible := references_accessible.2 w 9 r [] n hkinded hr
  refine ⟨hkinded, r, n, hr, haccessible, ?_, ?_⟩
  · cases hp : r.param (.ref (named "b") none) with
    | ok p => exact ⟨p, rfl, by simpa [hp, Except.toOption] using hb⟩
    | error e => simp [hp, Except.toOption] at hb
  · rcases haccessible.param (named "c") none huse with ⟨p, hp, -⟩ | ⟨chain, hchain, -, hend⟩
    · rw [hp] at hc
      cases hc
    · rw [hchain] at hc
      exact ⟨chain, hchain, ResolveError.cyclic.inj (Option.some.inj hc), hend⟩

end Wadl
