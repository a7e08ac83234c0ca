import Wadl.Document.Reader
import Wadl.Document.Render
import Wadl.Proofs.Document.Outline
import Wadl.Proofs.Runs

/-!
# Elements that are written and read

The element that an outline stands for gives the attributes that are written (`get?_present`), and
what is written in it are its items (`always_items`). `Codec` is how the parts of one kind are
written and read, and `Codec.Rereads` says of a part that it is read as it is written.
-/

namespace Wadl

open Reader

namespace Outline

/-- The element that an outline stands for. -/
def asElement (depth : Nat) (o : Outline) : Element := ⟨o.tag, o.content depth⟩

/-! ## Attributes -/

/-- Different names of attributes of a description. -/
def Named (names : List String) : Prop := names.Nodup ∧ ∀ n ∈ names, n ∈ attributeNames

instance (names : List String) : Decidable (Named names) :=
  inferInstanceAs (Decidable (_ ∧ _))

/-- The attributes that are written are those with a value. -/
theorem mem_present {attributes : List (String × Option String)} {a : String × String} :
    a ∈ present attributes ↔ (a.1, some a.2) ∈ attributes := by
  unfold present
  rw [List.mem_filterMap]
  constructor
  · rintro ⟨⟨name, value⟩, hmem, ha⟩
    obtain ⟨s, hs, rfl⟩ := Option.map_eq_some_iff.1 ha
    rwa [← hs]
  · intro hmem
    exact ⟨_, hmem, rfl⟩

theorem present_names_sublist (attributes : List (String × Option String)) :
    ((present attributes).map (·.1)).Sublist (attributes.map (·.1)) := by
  induction attributes with
  | nil => exact List.Sublist.slnil
  | cons a attributes ih =>
    obtain ⟨name, _ | value⟩ := a
    · exact ih.cons name
    · exact ih.cons_cons name

/-- Attributes that have a value are read back if they have different names and their values are
texts. -/
theorem soundAttributes_present {attributes : List (String × Option String)}
    (hnames : Named (attributes.map (·.1)))
    (htext : ∀ s, some s ∈ attributes.map (·.2) → Xml.IsText s) :
    SoundAttributes (present attributes) := by
  constructor
  · exact (present_names_sublist attributes).nodup hnames.1
  · intro a ha
    exact hnames.2 a.1 (List.mem_map_of_mem (mem_present.1 ha))
  · intro a ha
    exact htext a.2 (List.mem_map_of_mem (f := (·.2)) (mem_present.1 ha))

theorem lookup_named (attributes : List (String × String)) (name : String) :
    (named attributes).lookup (attributeName name) = attributes.lookup name := by
  induction attributes with
  | nil => rfl
  | cons a attributes ih =>
    unfold named at ih ⊢
    rw [List.map_cons, List.lookup_cons, List.lookup_cons, ih]
    by_cases h : name = a.1
    · rw [h, beq_self_eq_true, beq_self_eq_true]
    · have hname : attributeName name ≠ attributeName a.1 := fun heq => h (attributeName_inj heq)
      rw [beq_false_of_ne h, beq_false_of_ne hname]

/-- Looking up what is written finds the value that was given. -/
theorem lookup_present {attributes : List (String × Option String)}
    (h : (attributes.map (·.1)).Nodup) (name : String) :
    (present attributes).lookup name = (attributes.lookup name).join := by
  induction attributes with
  | nil => rfl
  | cons a attributes ih =>
    rw [List.map_cons, List.nodup_cons] at h
    have hrest := ih h.2
    obtain ⟨label, value⟩ := a
    by_cases hname : name = label
    · subst hname
      cases value with
      | none =>
        have hmissing : (present attributes).lookup name = none := by
          rw [List.lookup_eq_none_iff]
          intro b hb
          have hne : name ≠ b.1 := by
            rintro rfl
            exact h.1 (List.mem_map_of_mem (f := (·.1)) (mem_present.1 hb))
          simpa using hne
        rw [List.lookup_cons_self]
        exact hmissing
      | some s =>
        rw [List.lookup_cons_self]
        exact List.lookup_cons_self
    · have hkey : (name == label) = false := beq_false_of_ne hname
      rw [List.lookup_cons, hkey]
      cases value with
      | none => exact hrest
      | some s =>
        show ((label, s) :: present attributes).lookup name = _
        rw [List.lookup_cons, hkey]
        exact hrest

/-- The attributes of an element are those that are written. -/
theorem attribute?_present {attributes : List (String × Option String)}
    (h : (attributes.map (·.1)).Nodup) (space : Xml.Name) (name : String) :
    (Xml.Tag.mk space (named (present attributes))).attribute? (attributeName name) =
      (attributes.lookup name).join := by
  rw [← lookup_present h, ← lookup_named]
  rfl

/-- The attributes of an element without a namespace. -/
theorem get?_element {k : ElementKind} {attributes : List (String × Option String)}
    {children : List Outline} {depth : Nat} (h : (attributes.map (·.1)).Nodup) (name : String)
    (hname : name ≠ "xml:lang") :
    ((Render.element k attributes children).asElement depth).get? name =
      (attributes.lookup name).join := by
  have hattribute := attribute?_present h ⟨some wadlSpace, k.word⟩ name
  rw [attributeName, if_neg hname] at hattribute
  exact hattribute

/-! ## Children -/

theorem between_append (depth : Nat) (os ps : List Outline) :
    between depth (os ++ ps) = between depth os ++ between depth ps := by
  induction os with
  | nil => rfl
  | cons o os ih => rw [List.cons_append, between, between, ih, List.cons_append, List.cons_append]

/-- What is made of the children of an element, and of nothing more, is made of its content. -/
theorem content_element (P : List Xml.Node → Prop) {depth : Nat} (tag : String)
    (attributes : List (String × String)) {children : List Outline}
    (h : ∀ tail, (tail = [] ∨ ∃ s, tail = [.text s]) → P (between (depth + 1) children ++ tail)) :
    P ((element tag attributes children).content depth) := by
  rw [content]
  split
  · rename_i hempty
    rw [List.isEmpty_iff] at hempty
    have hnone := h [] (Or.inl rfl)
    rwa [hempty, between] at hnone
  · exact h _ (Or.inr ⟨_, rfl⟩)

/-- Outlines as the items of an element. -/
def asItems (depth : Nat) (os : List Outline) : List (ElementKind × Element) :=
  os.map fun o => (o.kind, o.asElement depth)

/-- Between written children there is white space only, so reading them never fails. -/
theorem always_items_between {pos : Position} {parent : ElementKind} (depth : Nat)
    {tail : List Xml.Node} (htail : tail = [] ∨ ∃ s, tail = [.text s]) :
    ∀ {os : List Outline}, (∀ o ∈ os, o.Sound) → (∀ o ∈ os, o.kind ∈ parent.children) →
      Always (items pos parent (between depth os ++ tail)) (asItems depth os)
  | [], _, _ => by
    rcases htail with rfl | ⟨s, rfl⟩
    · exact always_pure []
    · exact always_pure []
  | o :: os, hsound, hallowed => by
    obtain ⟨ho, hos⟩ := List.forall_mem_cons.1 hsound
    obtain ⟨hkind, hkinds⟩ := List.forall_mem_cons.1 hallowed
    have ih : Always (items pos parent (between depth os ++ tail)) (asItems depth os) :=
      always_items_between depth htail hos hkinds
    have hlabel : o.tag.name.label = o.kind.word := ho.label
    have hspace : o.tag.name.isWadl = true := by simp [tag, Xml.Name.isWadl]
    rw [between, List.cons_append, List.cons_append]
    simp only [items, hlabel, hspace, ElementKind.ofWord?_word]
    split
    · rename_i hdoc
      have hkindDoc : o.kind = .doc := by
        have hword := congrArg ElementKind.ofWord? hdoc
        rw [ElementKind.ofWord?_word, ElementKind.ofWord?_word] at hword
        exact Option.some.inj hword
      have hitem : (o.kind, o.asElement depth) = (.doc, ⟨o.tag, o.content depth⟩) := by
        rw [hkindDoc]
        rfl
      rw [asItems, List.map_cons, hitem]
      exact ih.bind (always_pure _)
    · rw [if_neg (by simp), if_pos (by simpa using hkind)]
      exact ih.bind (always_pure _)

/-- Outlines that may stand in an element. -/
def Fit (parent : ElementKind) (os : List Outline) : Prop :=
  ∀ o ∈ os, o.Sound ∧ o.kind ∈ parent.children

theorem Fit.append {parent : ElementKind} {os ps : List Outline} (hos : Fit parent os)
    (hps : Fit parent ps) : Fit parent (os ++ ps) := List.forall_mem_append.2 ⟨hos, hps⟩

/-- What is written in an element are its items. -/
theorem always_items {pos : Position} {k : ElementKind} {attributes : List (String × Option String)}
    {children : List Outline} (h : Fit k children) (depth : Nat) :
    Always (items pos k ((Render.element k attributes children).asElement depth).content)
      (asItems (depth + 1) children) :=
  content_element
    (fun content => Always (items pos k content) (asItems (depth + 1) children)) k.word
    (present attributes) fun _ htail =>
      always_items_between (depth + 1) htail (fun o ho => (h o ho).1) fun o ho => (h o ho).2

/-- An element with attributes and children that are read back is read back itself. -/
theorem sound_element {k : ElementKind} {attributes : List (String × Option String)}
    {children : List Outline} (hnames : Named (attributes.map (·.1)))
    (htexts : ∀ s, some s ∈ attributes.map (·.2) → Xml.IsText s) (h : Fit k children) :
    (Render.element k attributes children).Sound ∧
    (Render.element k attributes children).kind = k :=
  ⟨.element (soundAttributes_present hnames htexts) (fun o ho => (h o ho).2) fun o ho => (h o ho).1,
    kind_of_label rfl⟩

/-- What an element gives that was written with some attributes and children. -/
structure Shows (e : Element) (k : ElementKind) (attributes : List (String × Option String))
    (children : List Outline) (depth : Nat) : Prop where
  get? : ∀ name, name ≠ "xml:lang" → e.get? name = (attributes.lookup name).join
  items : ∀ pos, Always (items pos k e.content) (asItems (depth + 1) children)
  content : e.content = (Render.element k attributes children).content depth

/-- A written element shows its attributes and children to the reader. -/
theorem exists_shows {k : ElementKind} {attributes : List (String × Option String)}
    {children : List Outline} (hnames : Named (attributes.map (·.1)))
    (h : Fit k children) (depth : Nat) :
    ∃ e, (Render.element k attributes children).asElement depth = e ∧
      Shows e k attributes children depth :=
  ⟨_, rfl, get?_element hnames.1, fun _ => always_items h depth, rfl⟩

/-- Outlines of one kind. -/
def AllOf (k : ElementKind) (os : List Outline) : Prop := ∀ o ∈ os, o.kind = k

theorem AllOf.fit {k parent : ElementKind} {os : List Outline} (h : AllOf k os)
    (hsound : ∀ o ∈ os, o.Sound) (hallowed : k ∈ parent.children) : Fit parent os := by
  intro o ho
  rw [h o ho]
  exact ⟨hsound o ho, hallowed⟩

theorem asItems_append (depth : Nat) (os ps : List Outline) :
    asItems depth (os ++ ps) = asItems depth os ++ asItems depth ps := List.map_append

theorem ofKind_append (k : ElementKind) (depth : Nat) (os ps : List Outline) :
    ofKind k (asItems depth (os ++ ps)) =
      ofKind k (asItems depth os) ++ ofKind k (asItems depth ps) := by
  rw [asItems_append]
  exact List.filterMap_append

/-- Children of one kind are found under that kind and under no other. -/
theorem ofKind_allOf {l : ElementKind} {os : List Outline} (h : AllOf l os)
    (k : ElementKind) (depth : Nat) :
    ofKind k (asItems depth os) = if l = k then os.map (asElement depth) else [] := by
  unfold ofKind asItems
  rw [List.filterMap_map]
  by_cases hkind : l = k
  · rw [if_pos hkind, ← List.filterMap_eq_map]
    exact List.filterMap_congr fun o ho => if_pos ((h o ho).trans hkind)
  · rw [if_neg hkind, List.filterMap_eq_nil_iff]
    intro o ho
    rw [Function.comp_apply, h o ho]
    exact if_neg hkind

end Outline

/-! ## Single attributes -/

section Attributes

variable {pos : Position} {e : Element} {attr : String}

/-- A required attribute that is written is read, whatever the position. -/
theorem always_required {value : String} (h : e.get? attr = some value) (kind : ElementKind) :
    Always (required pos e kind attr) value := by
  unfold required
  rw [h]
  exact always_pure value

/-- With nothing to refuse, reading goes on. -/
theorem always_refuse {α : Type} {found : Option α} (h : found = none) (error : α → DocumentError) :
    Always (refuse found error) () := by
  rw [h]
  exact always_pure ()

/-- Identifiers are there where they are asked for. -/
theorem always_requireId {location : ElementKind}
    (h : location = .application → (e.get? "id").isSome = true) (kind : ElementKind) :
    Always (requireId pos location e kind) () := by
  unfold requireId
  split
  · rename_i hlocation
    obtain ⟨id, hid⟩ := Option.isSome_iff_exists.1 (h hlocation)
    exact (always_required hid kind).map
  · exact always_pure ()

/-- A written flag is read back. -/
theorem always_flag {b : Bool} (h : e.get? attr = Render.flag b) : Always (flag pos e attr) b := by
  unfold flag
  rw [h]
  cases b with
  | false => exact always_pure false
  | true => exact always_pure true

theorem ParamStyle.ofWord?_word (style : ParamStyle) :
    ParamStyle.ofWord? style.word = some style := by
  cases style <;> rfl

/-- Lenient reading takes every style that there is. -/
theorem always_readStyle {style : ParamStyle} (h : e.get? "style" = some style.word)
    (hlenient : pos.strict = false) (location : ElementKind) :
    Always (readStyle pos e location) style := by
  unfold readStyle
  rw [h]
  simp only [ParamStyle.ofWord?_word, hlenient, Bool.false_eq_true, if_false]
  split
  · exact (always_modify _).bind (always_pure style)
  · exact always_pure style

end Attributes

/-! ## Parts that are read as they are written -/

/-- How the parts of one kind are written and read, and what they are without sources. -/
structure Codec (T : Type) where
  kind : ElementKind
  write : T → Except UriError Outline
  read : Position → Element → Reading T
  plain : T → T

/-- A position of lenient reading with a base. -/
structure Lenient (base : String) (pos : Position) : Prop where
  base : pos.base = base
  strict : pos.strict = false

/-- Positions inside are as lenient as those around. -/
theorem Lenient.enter {base : String} {pos : Position} (h : Lenient base pos) (label : String) :
    Lenient base (pos.enter label) := ⟨h.base, h.strict⟩

section Codec

variable {T : Type}

/-- A part is written, and is read again at every lenient position. -/
def Codec.Rereads (codec : Codec T) (base : String) (x : T) : Prop :=
  ∃ o, codec.write x = .ok o ∧ o.kind = codec.kind ∧ o.Sound ∧
    ∀ pos depth, Lenient base pos →
      ∃ y, codec.plain y = codec.plain x ∧ Always (codec.read pos (o.asElement depth)) y

/-- Outlines are what parts are written as, and are read as these parts again one by one. -/
structure Codec.Written (codec : Codec T) (base : String) (os : List Outline) (xs : List T) :
    Prop where
  write : xs.mapM codec.write = .ok os
  kinds : Outline.AllOf codec.kind os
  sound : ∀ o ∈ os, o.Sound
  reads : ∀ pos depth, Lenient base pos → ∃ ys, ys.map codec.plain = xs.map codec.plain ∧
    List.Forall₂ (fun o y => Always (codec.read pos (Outline.asElement depth o)) y) os ys

/-- Parts are written, and are read again one by one. -/
def Codec.RereadsAll (codec : Codec T) (base : String) (xs : List T) : Prop :=
  ∃ os, codec.Written base os xs

/-- A list is read again if each of its elements is. -/
theorem Codec.rereadsAll {codec : Codec T} {base : String} {xs : List T}
    (h : ∀ x ∈ xs, codec.Rereads base x) : codec.RereadsAll base xs := by
  induction xs with
  | nil =>
    refine ⟨[], rfl, ?_, ?_, fun _ _ _ => ⟨[], rfl, .nil⟩⟩
    · intro o ho
      cases ho
    · intro o ho
      cases ho
  | cons x xs ih =>
    obtain ⟨hx, hxs⟩ := List.forall_mem_cons.1 h
    obtain ⟨o, hwrite, hkind, hsound, hread⟩ := hx
    obtain ⟨os, hwrites, hkinds, hsounds, hreads⟩ := ih hxs
    refine ⟨o :: os, ?_, List.forall_mem_cons.2 ⟨hkind, hkinds⟩,
      List.forall_mem_cons.2 ⟨hsound, hsounds⟩, fun pos depth hpos => ?_⟩
    · rw [List.mapM_cons, hwrite, hwrites]
      rfl
    · obtain ⟨y, hy, hfirst⟩ := hread pos depth hpos
      obtain ⟨ys, hys, hrest⟩ := hreads pos depth hpos
      exact ⟨y :: ys, by rw [List.map_cons, List.map_cons, hy, hys], .cons hfirst hrest⟩

/-- Items of one kind that are read one by one are read as a list. -/
theorem always_mapM_asElement {read : Element → Reading T} {depth : Nat}
    {os : List Outline} {ys : List T}
    (h : List.Forall₂ (fun o y => Always (read (Outline.asElement depth o)) y) os ys) :
    Always ((os.map (Outline.asElement depth)).mapM read) ys :=
  Always.mapM (List.forall₂_map_left_iff.2 h)

end Codec

end Wadl
