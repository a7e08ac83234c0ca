import Mathlib.Data.List.Nodup
import Mathlib.Data.List.Perm.Subperm
import Wadl.Naming.Scope
import Wadl.Proofs.Runs

/-!
# Names that a scope gives are new

`claim` gives a name that was free or fails, and `claimUnique` always gives one: of the numbered
names one more than there are names in the scope is tried, and they all differ
(`numbered_injective`), so that one of them is free (`firstFree_free`). A scope that gives some
names (`Takes`) has given none of them before, gives none twice, and holds them afterwards; runs of
names are put together by `Takes.append`.
-/

namespace Wadl

namespace NameScope

variable {s s' s'' : NameScope} {name source n : String}

/-- The names that are taken. -/
def taken (s : NameScope) : List String := s.names.map (·.1)

theorem contains_iff : s.contains name = true ↔ name ∈ s.taken := by
  rw [contains, holder?, taken]
  induction s.names with
  | nil => simp
  | cons x names ih =>
    rw [List.lookup_cons, List.map_cons, List.mem_cons]
    by_cases h : name = x.1
    · simp [h]
    · simp [h, beq_eq_false_iff_ne.2 h, ih]

theorem mem_taken_reserve {x : String} :
    x ∈ (s.reserve name source).taken ↔ x = name ∨ x ∈ s.taken := by
  simp only [taken, reserve, List.map_cons, List.mem_cons, List.mem_map, List.mem_filter, ne_eq,
    decide_not, Bool.not_eq_true', decide_eq_false_iff_not]
  constructor
  · rintro (rfl | ⟨y, ⟨hy, -⟩, rfl⟩)
    · exact Or.inl rfl
    · exact Or.inr ⟨y, hy, rfl⟩
  · rintro (rfl | ⟨y, hy, rfl⟩)
    · exact Or.inl rfl
    · by_cases h : y.1 = name
      · exact Or.inl h
      · exact Or.inr ⟨y, ⟨hy, h⟩, rfl⟩

/-- A name that is reserved stands for what it was reserved for, and all others for what they stood
for. -/
theorem holder?_reserve {x : String} :
    (s.reserve name source).holder? x = if x = name then some source else s.holder? x := by
  simp only [reserve, holder?, List.lookup_cons]
  split
  · rename_i h
    rw [if_pos (eq_of_beq h)]
  · rename_i h
    have hne : x ≠ name := by simpa using h
    rw [if_neg hne]
    induction s.names with
    | nil => rfl
    | cons y names ih =>
      by_cases hy : y.1 = name
      · have hxy : (x == y.1) = false := beq_eq_false_iff_ne.2 fun hx => hne (hx.trans hy)
        rw [List.filter_cons_of_neg (by simpa using hy), ih, List.lookup_cons, hxy]
      · rw [List.filter_cons_of_pos (by simpa using hy), List.lookup_cons, List.lookup_cons, ih]

/-! ## Numbered names -/

theorem toString_injective {i j : Nat} (h : toString i = toString j) : i = j := by
  have hdigits : Nat.toDigits 10 i = Nat.toDigits 10 j := by
    simpa only [Nat.toString_eq_repr, Nat.toList_repr] using congrArg String.toList h
  simpa using congrArg (fun ds => Nat.ofDigitChars 10 ds 0) hdigits

/-- From the first number on, names with different numbers differ. -/
theorem numbered_injective {i j : Nat} (hi : 0 < i) (hj : 0 < j)
    (h : numbered name i = numbered name j) : i = j := by
  -- a number that is written has digits
  have hne : ∀ k : Nat, name ++ toString k ≠ name := by
    intro k hk
    have hlength := congrArg String.length hk
    have hpos : 0 < (toString k).length := by
      rw [Nat.toString_eq_repr, ← String.length_toList, Nat.toList_repr]
      exact Nat.length_toDigits_pos
    rw [String.length_append] at hlength
    omega
  unfold numbered at h
  split at h <;> split at h
  · omega
  · exact absurd h.symm (hne j)
  · exact absurd h (hne i)
  · refine toString_injective (String.toList_inj.1 ?_)
    simpa using congrArg String.toList h

/-- A number is found unless all that are tried are taken. -/
theorem firstFree_spec {tries n : Nat} :
    numbered name (s.firstFree name tries n) ∉ s.taken ∨
      ∀ k < tries, numbered name (n + k) ∈ s.taken := by
  induction tries generalizing n with
  | zero => exact Or.inr fun k hk => absurd hk (Nat.not_lt_zero k)
  | succ tries ih =>
    rw [firstFree]
    split
    · rename_i htaken
      refine ih.imp_right fun hall k hk => ?_
      cases k with
      | zero => exact contains_iff.1 htaken
      | succ k =>
        rw [show n + (k + 1) = n + 1 + k by omega]
        exact hall k (by omega)
    · rename_i hfree
      exact Or.inl fun h => hfree (contains_iff.2 h)

/-- Among one more numbered names than there are names, one is free. -/
theorem firstFree_free : numbered name (s.firstFree name (s.names.length + 1) 1) ∉ s.taken := by
  refine firstFree_spec.resolve_right fun hall => ?_
  let candidates := (List.range (s.names.length + 1)).map fun k => numbered name (1 + k)
  have hnodup : candidates.Nodup := by
    refine List.Nodup.map_on (fun i _ j _ h => ?_) List.nodup_range
    have := numbered_injective (by omega) (by omega) h
    omega
  have hsubset : candidates ⊆ s.taken := by
    intro x hx
    obtain ⟨k, hk, rfl⟩ := List.mem_map.1 hx
    exact hall k (List.mem_range.1 hk)
  have hlength := (hnodup.subperm hsubset).length_le
  simp only [candidates, taken, List.length_map, List.length_range] at hlength
  omega

/-! ## Escaping -/

/-- A name that is not reserved and does not end in an underscore is escaped from itself only. -/
theorem escaped_eq_iff {text : String} (hreserved : name ∉ s.reserved)
    (hlast : name.toList.getLast? ≠ some '_') : s.escaped text = name ↔ text = name := by
  unfold escaped
  split
  · rename_i htext
    constructor
    · rintro rfl
      rw [String.toList_append] at hlast
      exact absurd (List.getLast?_concat ..) hlast
    · rintro rfl
      exact absurd (by simpa using htext) hreserved
  · exact Iff.rfl

/-! ## Giving names -/

/-- A scope gives some names, one after another, and becomes another scope. -/
structure Takes (s : NameScope) (given : List String) (s' : NameScope) : Prop where
  nodup : given.Nodup
  fresh : ∀ x ∈ given, x ∉ s.taken
  mem_taken : ∀ x, x ∈ s'.taken ↔ x ∈ given ∨ x ∈ s.taken
  reserved : s'.reserved = s.reserved
  escapes : s'.escapes = s.escapes

namespace Takes

theorem nil (s : NameScope) : s.Takes [] s where
  nodup := List.nodup_nil
  fresh _ hx := by cases hx
  mem_taken _ := by simp
  reserved := rfl
  escapes := rfl

theorem append {given given' : List String} (h : s.Takes given s') (h' : s'.Takes given' s'') :
    s.Takes (given ++ given') s'' where
  nodup := by
    refine List.nodup_append.2 ⟨h.nodup, h'.nodup, fun x hx y hy heq => ?_⟩
    exact h'.fresh y hy ((h.mem_taken y).2 (Or.inl (heq ▸ hx)))
  fresh x hx := by
    rcases List.mem_append.1 hx with hx | hx
    · exact h.fresh x hx
    · exact fun hs => h'.fresh x hx ((h.mem_taken x).2 (Or.inr hs))
  mem_taken x := by
    rw [h'.mem_taken, h.mem_taken, List.mem_append]
    tauto
  reserved := h'.reserved.trans h.reserved
  escapes := h'.escapes.trans h.escapes

theorem cons {given : List String} (h : s.Takes [n] s') (h' : s'.Takes given s'') :
    s.Takes (n :: given) s'' :=
  h.append h'

/-- A name that is not taken can be given. -/
theorem reserve (h : n ∉ s.taken) (source : String) : s.Takes [n] (s.reserve n source) where
  nodup := List.nodup_singleton n
  fresh x hx := by rwa [List.mem_singleton.1 hx]
  mem_taken x := by rw [mem_taken_reserve, List.mem_singleton]
  reserved := rfl
  escapes := rfl

end Takes

/-- A claim gives the name itself, or with an underscore if it is reserved and the scope escapes. -/
theorem claim_ok (h : s.claim name source = .ok (n, s')) :
    s.Takes [n] s' ∧ n = s.escaped name ∧ name ≠ "" ∧ (name ∈ s.reserved → s.escapes = true) := by
  unfold claim at h
  split at h
  · cases h
  · rename_i hne
    split at h
    · cases h
    · rename_i hescape
      unfold take at h
      split at h
      · cases h
      · rename_i hfree
        obtain ⟨rfl, rfl⟩ := Prod.mk.inj (Except.ok.inj h)
        refine ⟨Takes.reserve (fun htaken => ?_) source, rfl, by simpa using hne, ?_⟩
        · rw [← contains_iff, contains, hfree] at htaken
          cases htaken
        · simpa using hescape

/-- A unique claim gives the name with a number, after an underscore if it is reserved. -/
theorem claimUnique_takes (s : NameScope) (name source : String) :
    s.Takes [(s.claimUnique name source).1] (s.claimUnique name source).2 ∧
      ∃ k, (s.claimUnique name source).1 = numbered (s.escaped name) k :=
  ⟨Takes.reserve firstFree_free source, _, rfl⟩

end NameScope

end Wadl
