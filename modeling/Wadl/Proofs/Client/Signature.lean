import Mathlib.Data.List.TakeWhile
import Wadl.Client.Signature
import Wadl.Proofs.Tables
import Wadl.Proofs.Text.Pieces
import Wadl.Proofs.Text.Quoted

/-!
# What a signature tells apart

The text that is digested for a list of params tells their keys apart, up to their order
(`listText_eq_iff`): each key is read off its beginning in one way (`text_append_inj`). A key has
its param's type, options and links in one token, so that it tells fields apart only if the marks of
the token stand in none of them (`Field.IsPlain`, `Field.key_injective`).
-/

namespace Wadl

namespace FieldKey

/-! ## The text of keys -/

theorem flagText_append_inj {b b' : Bool} {rest rest' : List Char}
    (h : (flagText b).toList ++ rest = (flagText b').toList ++ rest') : b = b' ∧ rest = rest' := by
  cases b <;> cases b' <;> simp_all [flagText]

/-- The text of a key at the beginning of a text is the text of one key only. -/
theorem text_append_inj {k k' : FieldKey} {rest rest' : List Char}
    (h : k.text.toList ++ rest = k'.text.toList ++ rest') : k = k' ∧ rest = rest' := by
  cases k with | mk name token required repeating =>
  cases k' with | mk name' token' required' repeating' =>
  simp only [text, String.toList_append, List.append_assoc] at h
  obtain ⟨hname, h₁⟩ := quoted_append_inj (List.append_cancel_left h)
  obtain ⟨htoken, h₂⟩ := quoted_append_inj (List.append_cancel_left h₁)
  obtain ⟨hrequired, h₃⟩ := flagText_append_inj (List.append_cancel_left h₂)
  obtain ⟨hrepeating, h₄⟩ := flagText_append_inj (List.append_cancel_left h₃)
  rw [hname, htoken, hrequired, hrepeating]
  exact ⟨rfl, List.append_cancel_left h₄⟩

/-- The texts of some keys, with commas between them and a bracket after them. -/
def texts (ks : List FieldKey) : List Char :=
  [',', ' '].intercalate (ks.map fun k => k.text.toList) ++ [']']

theorem texts_singleton (k : FieldKey) : texts [k] = k.text.toList ++ [']'] := by
  rw [texts, List.map_singleton, List.intercalate_singleton]

theorem texts_cons_cons (k l : FieldKey) (ks : List FieldKey) :
    texts (k :: l :: ks) = k.text.toList ++ ',' :: ' ' :: texts (l :: ks) := by
  rw [texts, List.map_cons, List.map_cons, List.intercalate_cons_cons, List.append_assoc,
    List.append_assoc]
  rfl

theorem texts_cons (k : FieldKey) (ks : List FieldKey) : ∃ cs, texts (k :: ks) = '(' :: cs := by
  have hopen : ∃ cs, k.text.toList = '(' :: cs := by
    simp only [text, String.toList_append, List.append_assoc]
    exact ⟨_, rfl⟩
  obtain ⟨cs, hcs⟩ := hopen
  cases ks with
  | nil => exact ⟨_, by rw [texts_singleton, hcs, List.cons_append]⟩
  | cons l ks => exact ⟨_, by rw [texts_cons_cons, hcs, List.cons_append]⟩

/-- The texts of some keys are those of these keys only. -/
theorem texts_inj {ks ks' : List FieldKey} (h : texts ks = texts ks') : ks = ks' := by
  induction ks generalizing ks' with
  | nil =>
    cases ks' with
    | nil => rfl
    | cons k' ks' =>
      obtain ⟨cs, hcs⟩ := texts_cons k' ks'
      rw [hcs] at h
      exact absurd (List.cons.inj h).1 (by decide)
  | cons k ks ih =>
    cases ks' with
    | nil =>
      obtain ⟨cs, hcs⟩ := texts_cons k ks
      rw [hcs] at h
      exact absurd (List.cons.inj h).1 (by decide)
    | cons k' ks' =>
      cases ks with
      | nil =>
        cases ks' with
        | nil =>
          rw [texts_singleton, texts_singleton] at h
          rw [(text_append_inj h).1]
        | cons l' ks' =>
          rw [texts_singleton, texts_cons_cons] at h
          exact absurd (List.cons.inj (text_append_inj h).2).1 (by decide)
      | cons l ks =>
        cases ks' with
        | nil =>
          rw [texts_cons_cons, texts_singleton] at h
          exact absurd (List.cons.inj (text_append_inj h).2).1 (by decide)
        | cons l' ks' =>
          rw [texts_cons_cons, texts_cons_cons] at h
          obtain ⟨hk, hrest⟩ := text_append_inj h
          rw [hk, ih (List.cons.inj (List.cons.inj hrest).2).2]

theorem compare_eq : compare = compareLex (compareOn name) (compareLex (compareOn token)
    (compareLex (compareOn required) (compareOn repeating))) := rfl

instance : Std.TransCmp compare := by
  rw [compare_eq]
  infer_instance

instance : Std.LawfulEqCmp compare where
  compare_self := Std.ReflCmp.compare_self
  eq_of_compare {a b} h := by
    simp only [compare, Ordering.then_eq_eq, Std.compare_eq_iff_eq] at h
    obtain ⟨hname, htoken, hrequired, hrepeating⟩ := h
    cases a
    cases b
    simp_all

/-- The text of a list of keys tells the keys apart, and not their order. -/
theorem listText_eq_iff {ks ks' : List FieldKey} : listText ks = listText ks' ↔ ks.Perm ks' := by
  have hsorted : sorted (fun a b => (compare a b).isLE) ks =
      sorted (fun a b => (compare a b).isLE) ks' ↔ ks.Perm ks' := sorted_eq_sorted_iff
  rw [← hsorted]
  constructor
  · intro h
    have hlist := congrArg String.toList h
    simp only [listText, String.toList_append, String.toList_intercalate, List.map_map,
      List.append_assoc] at hlist
    exact texts_inj (List.append_cancel_left hlist)
  · intro h
    rw [listText, h, listText]

end FieldKey

/-! ## Fields -/

/-- A param as far as it counts for the form of a representation, part by part. -/
structure Field where
  name : String
  /-- The type without what stands before its last colon. -/
  type : String
  options : List String
  /-- What the links refer to, as far as they refer to something. -/
  links : List String
  required : Bool
  repeating : Bool
  deriving DecidableEq, Repr

namespace Field

/-- The field of a param. -/
def ofParam (p : Param) : Field :=
  ⟨p.name, localTypeName p.type, p.options.map (·.value),
    p.links.filterMap fun l => l.resourceType.map (·.href), p.required, p.repeating⟩

/-- The characters that the options of a field add to its token. -/
def optionText (options : List String) : List Char :=
  if options.isEmpty then []
  else '\x7b' :: ['|'].intercalate (options.map String.toList) ++ ['\x7d']

/-- The characters that the links of a field add to its token. -/
def linkText (links : List String) : List Char := links.flatMap fun l => '-' :: '>' :: l.toList

/-- The key of a field. -/
def key (f : Field) : FieldKey :=
  ⟨f.name, String.ofList (f.type.toList ++ optionText f.options ++ linkText f.links), f.required,
    f.repeating⟩

theorem linkText_nil : linkText [] = [] := rfl

theorem linkText_cons (l : String) (links : List String) :
    linkText (l :: links) = '-' :: '>' :: (l.toList ++ linkText links) := rfl

theorem linkText_eq (links : List Link) :
    (String.join (links.filterMap fun l => l.resourceType.map fun r => "->" ++ r.href)).toList =
      linkText (links.filterMap fun l => l.resourceType.map (·.href)) := by
  induction links with
  | nil => rfl
  | cons l links ih =>
    cases hl : l.resourceType with
    | none => rw [List.filterMap_cons_none (by rw [hl]; rfl), ih,
        List.filterMap_cons_none (by rw [hl]; rfl)]
    | some r =>
      rw [List.filterMap_cons_some (by rw [hl]; rfl), List.filterMap_cons_some (by rw [hl]; rfl),
        String.join_cons, String.toList_append, ih, linkText_cons, String.toList_append]
      rfl

/-- The key of a param has nothing but its field. -/
theorem key_ofParam (p : Param) : (ofParam p).key = FieldKey.ofParam p := by
  have htoken : String.ofList ((ofParam p).type.toList ++ optionText (ofParam p).options ++
      linkText (ofParam p).links) = FieldKey.tokenOf p := by
    rw [← String.toList_inj, String.toList_ofList, FieldKey.tokenOf, String.toList_append,
      String.toList_append, linkText_eq]
    congr 2
    simp only [ofParam, optionText, List.isEmpty_map]
    split_ifs
    · rfl
    · simp [String.toList_intercalate, List.map_map]
  rw [key, htoken]
  rfl

theorem keys_ofParam (ps : List Param) : (ps.map ofParam).map key = ps.map FieldKey.ofParam := by
  rw [List.map_map]
  exact List.map_congr_left fun p _ => key_ofParam p

/-- None of the marks of a token stands in the parts of a field that they divide. -/
structure IsPlain (f : Field) : Prop where
  type : ∀ c ∈ f.type.toList, c ≠ '\x7b' ∧ c ≠ '>'
  options : ∀ o ∈ f.options, ∀ c ∈ o.toList, c ≠ '|' ∧ c ≠ '\x7d'
  links : ∀ l ∈ f.links, ∀ c ∈ l.toList, c ≠ '>'

/-- A text is cut at its first mark in one way only. -/
theorem cut_unique {isMark : Char → Bool} {a a' b b' : List Char} (ha : ∀ c ∈ a, isMark c = false)
    (ha' : ∀ c ∈ a', isMark c = false) (hb : ∀ c ∈ b.head?, isMark c = true)
    (hb' : ∀ c ∈ b'.head?, isMark c = true) (h : a ++ b = a' ++ b') : a = a' ∧ b = b' := by
  have htake : ∀ {a b : List Char}, (∀ c ∈ a, isMark c = false) → (∀ c ∈ b.head?, isMark c = true) →
      (a ++ b).takeWhile (!isMark ·) = a := by
    intro a b ha hb
    rw [List.takeWhile_append_of_pos fun c hc => by simp [ha c hc]]
    cases b with
    | nil => rw [List.takeWhile_nil, List.append_nil]
    | cons c b =>
      rw [List.takeWhile_cons_of_neg (by simp [hb c rfl]), List.append_nil]
  have heq : a = a' := by
    rw [← htake ha hb, ← htake ha' hb', h]
  rw [heq] at h
  exact ⟨heq, List.append_cancel_left h⟩

/-- Links of which none has the mark are told apart, with what stands before them. -/
theorem append_linkText_inj {a a' : List Char} {links links' : List String}
    (ha : ∀ c ∈ a, c ≠ '>') (ha' : ∀ c ∈ a', c ≠ '>') (hl : ∀ l ∈ links, ∀ c ∈ l.toList, c ≠ '>')
    (hl' : ∀ l ∈ links', ∀ c ∈ l.toList, c ≠ '>')
    (h : a ++ linkText links = a' ++ linkText links') : a = a' ∧ links = links' := by
  -- the mark with what stands before it, as the first cut
  have hcut : ∀ {a : List Char} {l : String} {ls : List String},
      a ++ linkText (l :: ls) = (a ++ ['-']) ++ '>' :: (l.toList ++ linkText ls) := by
    intro a l ls
    rw [linkText_cons, List.append_assoc]
    rfl
  have hdash : ∀ {a : List Char}, (∀ c ∈ a, c ≠ '>') → ∀ c ∈ a ++ ['-'], (c == '>') = false := by
    intro a ha c hc
    rcases List.mem_append.1 hc with hc | hc
    · simpa using ha c hc
    · rw [List.mem_singleton.1 hc]
      rfl
  have hplain : ∀ {a : List Char}, (∀ c ∈ a, c ≠ '>') → ∀ c ∈ a, (c == '>') = false := by
    intro a ha c hc
    simpa using ha c hc
  induction links generalizing a a' links' with
  | nil =>
    cases links' with
    | nil => exact ⟨List.append_cancel_right h, rfl⟩
    | cons l' ls' =>
      rw [hcut, linkText_nil] at h
      have hnil := (cut_unique (hplain ha) (hdash ha') (by simp) (by simp) h).2
      cases hnil
  | cons l ls ih =>
    cases links' with
    | nil =>
      rw [hcut, linkText_nil] at h
      have hnil := (cut_unique (hdash ha) (hplain ha') (by simp) (by simp) h).2
      cases hnil
    | cons l' ls' =>
      rw [hcut, hcut] at h
      obtain ⟨hfront, hback⟩ := cut_unique (hdash ha) (hdash ha') (by simp) (by simp) h
      obtain ⟨hlink, hrest⟩ := ih (hl l List.mem_cons_self) (hl' l' List.mem_cons_self)
        (fun x hx => hl x (List.mem_cons_of_mem _ hx))
          (fun x hx => hl' x (List.mem_cons_of_mem _ hx))
        (List.cons.inj hback).2
      rw [String.toList_inj.1 hlink, hrest]
      exact ⟨List.append_cancel_right hfront, rfl⟩

theorem optionText_cons (o : String) (options : List String) :
    optionText (o :: options) =
      '\x7b' :: ['|'].intercalate ((o :: options).map String.toList) ++ ['\x7d'] := rfl

/-- A token with options is not one without. -/
theorem options_ne_links {a a' rest : List Char} {links : List String}
    (ha : ∀ c ∈ a, c ≠ '\x7b' ∧ c ≠ '>') (ha' : ∀ c ∈ a', c ≠ '\x7b' ∧ c ≠ '>') :
    a ++ '\x7b' :: rest ≠ a' ++ linkText links := by
  intro h
  let isMark : Char → Bool := fun c => c == '\x7b' || c == '>'
  have hplain : ∀ {a : List Char}, (∀ c ∈ a, c ≠ '\x7b' ∧ c ≠ '>') → ∀ c ∈ a, isMark c = false := by
    intro a ha c hc
    simpa [isMark] using ha c hc
  cases links with
  | nil =>
    rw [linkText_nil] at h
    have hnil := (cut_unique (hplain ha) (hplain ha') (by simp [isMark]) (by simp) h).2
    cases hnil
  | cons l ls =>
    have hdash : ∀ c ∈ a' ++ ['-'], isMark c = false := by
      intro c hc
      rcases List.mem_append.1 hc with hc | hc
      · exact hplain ha' c hc
      · rw [List.mem_singleton.1 hc]
        rfl
    have hcut : a' ++ linkText (l :: ls) = (a' ++ ['-']) ++ '>' :: (l.toList ++ linkText ls) := by
      rw [linkText_cons, List.append_assoc]
      rfl
    rw [hcut] at h
    have hmark := (cut_unique (hplain ha) hdash (by simp [isMark]) (by simp [isMark]) h).2
    exact absurd (List.cons.inj hmark).1 (by decide)

/-- Options of which none has a mark are told apart, with what stands after them. -/
theorem optionText_inj {o o' : String} {os os' : List String} {rest rest' : List Char}
    (ho : ∀ x ∈ o :: os, ∀ c ∈ x.toList, c ≠ '|' ∧ c ≠ '\x7d')
    (ho' : ∀ x ∈ o' :: os', ∀ c ∈ x.toList, c ≠ '|' ∧ c ≠ '\x7d')
    (h : optionText (o :: os) ++ rest = optionText (o' :: os') ++ rest') :
    o :: os = o' :: os' ∧ rest = rest' := by
  have hclosed : ∀ {xs : List String}, (∀ x ∈ xs, ∀ c ∈ x.toList, c ≠ '|' ∧ c ≠ '\x7d') →
      ∀ c ∈ ['|'].intercalate (xs.map String.toList), (c == '\x7d') = false := by
    intro xs hxs c hc
    rcases mem_intercalate hc with hc | ⟨l, hl, hc⟩
    · rw [List.mem_singleton.1 hc]
      rfl
    · obtain ⟨x, hx, rfl⟩ := List.mem_map.1 hl
      simpa using (hxs x hx c hc).2
  have hsplit : ∀ {x : String} {xs : List String},
      (∀ y ∈ x :: xs, ∀ c ∈ y.toList, c ≠ '|' ∧ c ≠ '\x7d') →
      (['|'].intercalate ((x :: xs).map String.toList)).splitOn '|' =
        (x :: xs).map String.toList := by
    intro x xs hxs
    refine List.splitOn_intercalate '|' (fun l hl hmem => ?_) (by simp)
    obtain ⟨y, hy, rfl⟩ := List.mem_map.1 hl
    exact (hxs y hy '|' hmem).1 rfl
  rw [optionText_cons, optionText_cons] at h
  simp only [List.cons_append, List.append_assoc, List.nil_append] at h
  obtain ⟨hjoined, hrest⟩ :=
    cut_unique (hclosed ho) (hclosed ho') (by simp) (by simp) (List.cons.inj h).2
  have hlists := hsplit ho
  rw [hjoined, hsplit ho'] at hlists
  exact ⟨List.map_injective_iff.2 (fun _ _ => String.toList_inj.1) hlists.symm,
    (List.cons.inj hrest).2⟩

/-- The key of a plain field tells it apart from other plain fields. -/
theorem key_injective {f f' : Field} (hf : f.IsPlain) (hf' : f'.IsPlain) (h : f.key = f'.key) :
    f = f' := by
  cases f with | mk name type options links required repeating =>
  cases f' with | mk name' type' options' links' required' repeating' =>
  obtain ⟨rfl, htoken, rfl, rfl⟩ := FieldKey.mk.inj h
  rw [String.ofList_inj, List.append_assoc, List.append_assoc] at htoken
  have hangle : ∀ {t : String}, (∀ c ∈ t.toList, c ≠ '\x7b' ∧ c ≠ '>') → ∀ c ∈ t.toList, c ≠ '>' :=
    fun ht c hc => (ht c hc).2
  cases options with
  | nil =>
    cases options' with
    | nil =>
      obtain ⟨htype, hlinks⟩ := append_linkText_inj (hangle hf.type) (hangle hf'.type) hf.links
        hf'.links htoken
      obtain rfl : type = type' := String.toList_inj.1 htype
      obtain rfl : links = links' := hlinks
      rfl
    | cons o' os' => exact absurd htoken.symm (options_ne_links hf'.type hf.type)
  | cons o os =>
    cases options' with
    | nil => exact absurd htoken (options_ne_links hf.type hf'.type)
    | cons o' os' =>
      have hopen : ∀ {t : String}, (∀ c ∈ t.toList, c ≠ '\x7b' ∧ c ≠ '>') →
          ∀ c ∈ t.toList, (c == '\x7b') = false := fun ht c hc => by simpa using (ht c hc).1
      obtain ⟨htype, hrest⟩ := cut_unique (hopen hf.type) (hopen hf'.type)
        (by simp [optionText_cons]) (by simp [optionText_cons]) htoken
      obtain ⟨hoptions, hlinks⟩ := optionText_inj hf.options hf'.options hrest
      obtain ⟨-, hlinks⟩ :=
        append_linkText_inj (List.forall_mem_nil _) (List.forall_mem_nil _) hf.links
        hf'.links hlinks
      obtain rfl : type = type' := String.toList_inj.1 htype
      obtain rfl : links = links' := hlinks
      rw [hoptions]

end Field

end Wadl
