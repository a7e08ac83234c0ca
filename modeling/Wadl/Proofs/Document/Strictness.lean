import Wadl.Document.Reader
import Wadl.Proofs.Runs

/-!
# Strict and lenient reading

Lenient reading gives a notice where strict reading fails (`Notice.isTolerated`), and otherwise they
do the same. `Reader.Refines x y` says so of a strict reader `x` and its lenient counterpart `y`; it
goes through a sequence of steps (`Refines.bind`), and only the readers of children and of styles
look at the strictness (`items_refines`, `readStyle_refines`). For descriptions as a whole this is
`strict_iff_nothing_tolerated`.
-/

namespace Wadl

/-- A notice of something that strict reading refuses. -/
def Notice.isTolerated : Notice → Bool
  | ignoredElement .. => true
  | unusualStyle .. => true
  | _ => false

/-- A notice of an element in another namespace, which reading skips be it strict or not. -/
def Notice.isSkip : Notice → Bool
  | skippedExtension .. => true
  | _ => false

namespace Reader

/-- What the strict reader `x` gives, the lenient reader `y` gives too, with the same notices, which
are all of elements in other namespaces; and what `y` gives, `x` gives unless something was
tolerated. -/
structure Refines {α : Type} (x y : Reading α) : Prop where
  strict : ∀ s a t, Gives x s a t → Gives y s a t ∧ ∃ w, t = s ++ w ∧ ∀ n ∈ w, n.isSkip = true
  lenient : ∀ s a t, Gives y s a t →
    ∃ w, t = s ++ w ∧ ((∀ n ∈ w, n.isTolerated = false) → Gives x s a t)

section Refines

variable {α β : Type} {x y : Reading α} {base : String} {path : List String}

theorem Refines.pure (a : α) : Refines (Pure.pure a) (Pure.pure a) := by
  constructor
  · intro s b t h
    obtain ⟨-, rfl⟩ := gives_pure.1 h
    exact ⟨h, [], by simp⟩
  · intro s b t h
    obtain ⟨-, rfl⟩ := gives_pure.1 h
    exact ⟨[], by simp, fun _ => h⟩

theorem Refines.throw (error error' : DocumentError) :
    Refines (MonadExcept.throw error : Reading α) (MonadExcept.throw error') :=
  ⟨fun _ _ _ h => absurd h gives_throw, fun _ _ _ h => absurd h gives_throw⟩

theorem Refines.fail {pos pos' : Position} (fault fault' : Malformation) :
    Refines (Reader.fail pos fault : Reading α) (Reader.fail pos' fault') := .throw _ _

/-- Both give a notice of an element in another namespace. -/
theorem Refines.notice {n : Notice} (hn : n.isSkip = true) :
    Refines (Wadl.notice n) (Wadl.notice n) := by
  constructor
  · intro s u t h
    obtain rfl := gives_modify.1 h
    exact ⟨h, [n], rfl, by simpa using hn⟩
  · intro s u t h
    obtain rfl := gives_modify.1 h
    exact ⟨[n], rfl, fun _ => h⟩

/-- What refines step by step refines as a whole. -/
theorem Refines.bind {f g : α → Reading β} (hx : Refines x y) (hf : ∀ a, Refines (f a) (g a)) :
    Refines (x >>= f) (y >>= g) := by
  constructor
  · intro s b t h
    obtain ⟨a, u, hxa, hfb⟩ := gives_bind.1 h
    obtain ⟨hya, w, rfl, hw⟩ := hx.strict s a u hxa
    obtain ⟨hgb, w', rfl, hw'⟩ := (hf a).strict _ b t hfb
    refine ⟨gives_bind.2 ⟨a, _, hya, hgb⟩, w ++ w', List.append_assoc s w w', ?_⟩
    exact List.forall_mem_append.2 ⟨hw, hw'⟩
  · intro s b t h
    obtain ⟨a, u, hya, hgb⟩ := gives_bind.1 h
    obtain ⟨w, rfl, hxa⟩ := hx.lenient s a u hya
    obtain ⟨w', rfl, hfb⟩ := (hf a).lenient _ b t hgb
    refine ⟨w ++ w', List.append_assoc s w w', fun hnone => ?_⟩
    obtain ⟨hw, hw'⟩ := List.forall_mem_append.1 hnone
    exact gives_bind.2 ⟨a, _, hxa hw, hfb hw'⟩

/-- Strict reading fails where lenient reading goes on after a notice. -/
theorem Refines.tolerate {z : Reading α} {n : Notice} (hz : ∀ s a t, ¬Gives z s a t)
    (hn : n.isTolerated = true) (h : Refines x y) : Refines z (Wadl.notice n >>= fun _ => y) := by
  constructor
  · exact fun s a t hgives => absurd hgives (hz s a t)
  · intro s a t hgives
    obtain ⟨_, u, hnotice, hy⟩ := gives_bind.1 hgives
    obtain rfl := gives_modify.1 hnotice
    obtain ⟨w, rfl, -⟩ := h.lenient _ a t hy
    refine ⟨n :: w, List.append_assoc s [n] w, fun hnone => ?_⟩
    have hnot := hnone n List.mem_cons_self
    rw [hn] at hnot
    cases hnot

theorem Refines.map {f : α → β} (hx : Refines x y) : Refines (f <$> x) (f <$> y) := by
  rw [← bind_pure_comp, ← bind_pure_comp]
  exact hx.bind fun _ => .pure _

/-- Lists are read by a refinement if their members are. -/
theorem Refines.mapM {f g : α → Reading β} (hf : ∀ a, Refines (f a) (g a)) :
    ∀ {xs : List α}, Refines (xs.mapM f) (xs.mapM g)
  | [] => by
    rw [List.mapM_nil, List.mapM_nil]
    exact .pure _
  | a :: xs => by
    rw [List.mapM_cons, List.mapM_cons]
    exact (hf a).bind fun _ => (Refines.mapM hf).bind fun _ => .pure _

/-- Parts are added by a refinement if each is. -/
theorem Refines.foldlM {f g : β → α → Reading β} (hf : ∀ b a, Refines (f b a) (g b a)) :
    ∀ {xs : List α} {b : β}, Refines (xs.foldlM f b) (xs.foldlM g b)
  | [], b => by
    rw [List.foldlM_nil, List.foldlM_nil]
    exact .pure _
  | a :: xs, b => by
    rw [List.foldlM_cons, List.foldlM_cons]
    exact (hf b a).bind fun _ => Refines.foldlM hf

/-! ## Readers that look at the strictness -/

/-- Both skip elements in other namespaces; strict reading refuses others that it does not know. -/
theorem items_refines {parent : ElementKind} : ∀ content : List Xml.Node,
    Refines (items ⟨base, true, path⟩ parent content) (items ⟨base, false, path⟩ parent content)
  | [] => .pure _
  | .element tag inside :: rest => by
    have hitem : ∀ kind : ElementKind, Refines
        (do return (kind, Element.mk tag inside) :: (← items ⟨base, true, path⟩ parent rest))
        (do return (kind, Element.mk tag inside) :: (← items ⟨base, false, path⟩ parent rest)) :=
          fun _ =>
      .bind (items_refines rest) fun _ => .pure _
    simp only [items]
    split
    · exact hitem _
    · split
      -- an element in another namespace is skipped by both
      · exact .bind (.notice rfl) fun _ => items_refines rest
      · split
        · split
          · exact hitem _
          · exact .fail _ _
        · exact .tolerate (fun _ _ _ => gives_throw) rfl (items_refines rest)
  | .text _ :: rest => by simpa only [items] using items_refines rest
  | .comment _ :: rest => by simpa only [items] using items_refines rest
  | .instruction _ :: rest => by simpa only [items] using items_refines rest

/-- Strict reading refuses a style that is not customary where it stands. -/
theorem readStyle_refines {e : Element} {location : ElementKind} :
    Refines (readStyle ⟨base, true, path⟩ e location)
      (readStyle ⟨base, false, path⟩ e location) := by
  unfold readStyle
  split
  · exact .pure _
  · split
    · exact .fail _ _
    · split
      · refine .tolerate (fun s a t hgives => ?_) rfl (.pure _)
        obtain ⟨_, _, hfail, -⟩ := gives_bind.1 hgives
        exact gives_throw hfail
      · exact .pure _

/-! ## The other readers -/

theorem required_refines {e : Element} {kind : ElementKind} {attr : String} :
    Refines (required ⟨base, true, path⟩ e kind attr)
      (required ⟨base, false, path⟩ e kind attr) := by
  unfold required
  split
  · exact .pure _
  · exact .throw _ _

theorem flag_refines {e : Element} {attr : String} :
    Refines (flag ⟨base, true, path⟩ e attr) (flag ⟨base, false, path⟩ e attr) := by
  unfold flag
  split
  · exact .pure _
  · split
    · exact .pure _
    · split
      · exact .pure _
      · exact .fail _ _

theorem reference_refines {kind : DefinitionKind} {href : String} :
    Refines (reference ⟨base, true, path⟩ kind href) (reference ⟨base, false, path⟩ kind href) := by
  unfold reference
  simp only
  split
  · exact .pure _
  · exact .throw _ _

/-- A check refines itself, whatever error it gives. -/
theorem refuse_refines {found : Option α} {error error' : α → DocumentError} :
    Refines (refuse found error) (refuse found error') := by
  unfold refuse
  split
  · exact .throw _ _
  · exact .pure _

/-- The identifier of an element is wanted in both modes. -/
theorem requireId_refines {location kind : ElementKind} {e : Element} :
    Refines (requireId ⟨base, true, path⟩ location e kind)
      (requireId ⟨base, false, path⟩ location e kind) := by
  unfold requireId
  split
  · exact required_refines.map
  · exact .pure _

theorem readOption_refines {e : Element} :
    Refines (readOption ⟨base, true, path⟩ e) (readOption ⟨base, false, path⟩ e) :=
  required_refines.bind fun _ => (items_refines _).bind fun _ => .pure _

theorem readTarget_refines (href : Option String) :
    Refines (readTarget ⟨base, true, path⟩ href) (readTarget ⟨base, false, path⟩ href) := by
  unfold readTarget
  split
  · split
    · exact .pure _
    · exact reference_refines.map
  · exact .pure _

theorem readLink_refines {e : Element} :
    Refines (readLink ⟨base, true, path⟩ e) (readLink ⟨base, false, path⟩ e) :=
  (readTarget_refines _).bind fun _ => (items_refines _).bind fun _ => .pure _

/-- Strict reading of a param differs only in what it refuses. -/
theorem readParamBody_refines {location : ElementKind} {e : Element} :
    Refines (readParamBody ⟨base, true, path⟩ location e)
      (readParamBody ⟨base, false, path⟩ location e) :=
  required_refines.bind fun _ => readStyle_refines.bind fun _ => (items_refines _).bind fun _ =>
    (Refines.mapM fun _ => readOption_refines).bind fun _ => refuse_refines.bind fun _ =>
    flag_refines.bind fun _ => flag_refines.bind fun _ =>
      (Refines.mapM fun _ => readLink_refines).bind fun _ =>
    .pure _

theorem readParam_refines {location : ElementKind} {e : Element} :
    Refines (readParam ⟨base, true, path⟩ location e)
      (readParam ⟨base, false, path⟩ location e) := by
  unfold readParam
  refine requireId_refines.bind fun _ => ?_
  split
  · exact reference_refines.bind fun _ => .pure _
  · exact readParamBody_refines.bind fun _ => .pure _

theorem readParams_refines {location : ElementKind} {found : List (ElementKind × Element)} :
    Refines (readParams ⟨base, true, path⟩ location found)
      (readParams ⟨base, false, path⟩ location found) :=
  (Refines.mapM fun _ => readParam_refines).bind fun _ => refuse_refines.bind fun _ => .pure _

theorem readRepresentation_refines {location : ElementKind} {e : Element} :
    Refines (readRepresentation ⟨base, true, path⟩ location e)
      (readRepresentation ⟨base, false, path⟩ location e) := by
  unfold readRepresentation
  refine requireId_refines.bind fun _ => ?_
  split
  · exact reference_refines.bind fun _ => .pure _
  · refine Refines.bind ?_ fun _ => .pure _
    exact (items_refines _).bind fun _ => readParams_refines.bind fun _ => .pure _

theorem readRepresentations_refines {location : ElementKind}
    {found : List (ElementKind × Element)} :
    Refines (readRepresentations ⟨base, true, path⟩ location found)
      (readRepresentations ⟨base, false, path⟩ location found) :=
  Refines.mapM fun _ => readRepresentation_refines

theorem readRequest_refines {e : Element} :
    Refines (readRequest ⟨base, true, path⟩ e) (readRequest ⟨base, false, path⟩ e) :=
  (items_refines _).bind fun _ => readParams_refines.bind fun _ =>
    readRepresentations_refines.bind fun _ =>
    .pure _

theorem readStatus_refines {status : String} :
    Refines (readStatus ⟨base, true, path⟩ status) (readStatus ⟨base, false, path⟩ status) := by
  unfold readStatus
  split
  · exact .pure _
  · exact .fail _ _

theorem readResponse_refines {e : Element} :
    Refines (readResponse ⟨base, true, path⟩ e) (readResponse ⟨base, false, path⟩ e) :=
  readStatus_refines.bind fun _ => (items_refines _).bind fun _ => readParams_refines.bind fun _ =>
    readRepresentations_refines.bind fun _ => .pure _

/-- A second request is refused in both modes. -/
theorem readOnlyRequest_refines (es : List Element) :
    Refines (readOnlyRequest ⟨base, true, path⟩ es) (readOnlyRequest ⟨base, false, path⟩ es) := by
  unfold readOnlyRequest
  split
  · exact .pure _
  · exact readRequest_refines.map
  · exact .fail _ _

theorem readMethodBody_refines {e : Element} :
    Refines (readMethodBody ⟨base, true, path⟩ e) (readMethodBody ⟨base, false, path⟩ e) :=
  required_refines.bind fun _ => (items_refines _).bind fun _ =>
    (readOnlyRequest_refines _).bind fun _ =>
    (Refines.mapM fun _ => readResponse_refines).bind fun _ => .pure _

theorem readMethod_refines {e : Element} :
    Refines (readMethod ⟨base, true, path⟩ e) (readMethod ⟨base, false, path⟩ e) := by
  unfold readMethod
  simp only
  split
  · exact reference_refines.bind fun _ => .pure _
  · exact readMethodBody_refines.bind fun _ => .pure _

theorem readTopMethod_refines {e : Element} :
    Refines (readTopMethod ⟨base, true, path⟩ e) (readTopMethod ⟨base, false, path⟩ e) := by
  unfold readTopMethod
  exact requireId_refines.bind fun _ => readMethodBody_refines

theorem readMethods_refines {found : List (ElementKind × Element)} :
    Refines (readMethods ⟨base, true, path⟩ found) (readMethods ⟨base, false, path⟩ found) :=
  (Refines.mapM fun _ => readMethod_refines).bind fun _ => refuse_refines.bind fun _ => .pure _

/-! ## Resources -/

/-- The reader of a resource, with any way to read those below it. -/
theorem readResource_refines {inherited : List String} {e : Element}
    {below : Position → List String → Reading (List Resource)}
    (hbelow : ∀ path declared,
      Refines (below ⟨base, true, path⟩ declared) (below ⟨base, false, path⟩ declared)) :
    Refines (readResource ⟨base, true, path⟩ inherited e below)
      (readResource ⟨base, false, path⟩ inherited e below) :=
  (items_refines _).bind fun _ => readParams_refines.bind fun _ => readMethods_refines.bind fun _ =>
    (Refines.mapM fun _ => reference_refines).bind fun _ => (hbelow _ _).bind fun _ =>
    refuse_refines.bind fun _ => .pure _

mutual

/-- Strict reading of a resource refines lenient reading, by induction on the tree below. -/
theorem readIfResource_refines (path : List String) (inherited : List String) : ∀ n : Xml.Node,
    Refines (readIfResource ⟨base, true, path⟩ inherited n)
      (readIfResource ⟨base, false, path⟩ inherited n)
  | .element tag content => by
    rw [readIfResource, readIfResource]
    split
    · exact (readResource_refines fun path declared =>
        readResources_refines path declared content).map
    · exact .pure _
  | .text _ => .pure _
  | .comment _ => .pure _
  | .instruction _ => .pure _

theorem readResources_refines (path : List String) (inherited : List String) :
    ∀ content : List Xml.Node, Refines (readResources ⟨base, true, path⟩ inherited content)
      (readResources ⟨base, false, path⟩ inherited content)
  | [] => .pure _
  | n :: rest => by
    rw [readResources, readResources]
    exact (readIfResource_refines path inherited n).bind fun _ =>
      (readResources_refines path inherited rest).bind fun _ => .pure _

end

theorem readResourceType_refines {e : Element} :
    Refines (readResourceType ⟨base, true, path⟩ e) (readResourceType ⟨base, false, path⟩ e) :=
  required_refines.bind fun _ => (items_refines _).bind fun _ => readParams_refines.bind fun _ =>
    readMethods_refines.bind fun _ => (readResources_refines _ _ _).bind fun _ => .pure _

theorem readGroup_refines {e : Element} :
    Refines (readGroup ⟨base, true, path⟩ e) (readGroup ⟨base, false, path⟩ e) :=
  (items_refines _).bind fun _ => (readResources_refines _ _ _).bind fun _ => .pure _

theorem readGrammars_refines {e : Element} :
    Refines (readGrammars ⟨base, true, path⟩ e) (readGrammars ⟨base, false, path⟩ e) :=
  (items_refines _).bind fun _ => Refines.mapM fun _ => required_refines

/-! ## Descriptions -/

theorem addItem_refines (app : Application) (item : ElementKind × Element) :
    Refines (addItem ⟨base, true, path⟩ app item) (addItem ⟨base, false, path⟩ app item) := by
  obtain ⟨kind, e⟩ := item
  cases kind
  case resourceType =>
    exact readResourceType_refines.bind fun _ => refuse_refines.bind fun _ => .pure _
  case representation =>
    exact readRepresentation_refines.bind fun _ => refuse_refines.bind fun _ => .pure _
  case param => exact readParam_refines.bind fun _ => refuse_refines.bind fun _ => .pure _
  case method => exact readTopMethod_refines.bind fun _ => refuse_refines.bind fun _ => .pure _
  case grammars => exact readGrammars_refines.bind fun _ => .pure _
  case resources => exact readGroup_refines.bind fun _ => .pure _
  all_goals exact .pure _

/-- What is read strictly is read leniently, with the same result. -/
theorem readApplication_refines (root : Xml.Node) :
    Refines (readApplication base true root) (readApplication base false root) := by
  cases root with
  | element tag content =>
    unfold readApplication
    simp only
    split
    · exact .bind (.throw _ _) fun _ => (items_refines _).bind fun _ =>
        Refines.foldlM addItem_refines
    · exact (items_refines _).bind fun _ => Refines.foldlM addItem_refines
  | text _ | comment _ | instruction _ => exact .throw _ _

end Refines

end Reader

open Reader

/-- Strict reading of a description refines the lenient one. -/
theorem readDescription_refines (base : String) (root : Xml.Node) :
    Refines (readDescription base true root) (readDescription base false root) := by
  refine (readApplication_refines root).bind fun app => ?_
  cases Index.ofApplication app with
  | ok _ => exact .bind (.pure _) fun _ => .pure _
  | error e => exact .bind (.throw e e) fun _ => .pure _

/-- Strict reading gives exactly what lenient reading gives without skipping an element that
descriptions do not have and without meeting a style that is not customary. It gives no warnings: it
notices nothing but elements in other namespaces. -/
theorem strict_iff_nothing_tolerated (base : String) (root : Xml.Node) (app : Application)
    (notices : List Notice) :
    (Gives (readDescription base true root) [] app notices ↔
      Gives (readDescription base false root) [] app notices ∧ ∀ n ∈ notices,
        n.isTolerated = false) ∧
    (Gives (readDescription base true root) [] app notices →
      ∀ n ∈ notices, n.isWarning = false) := by
  have hskip : ∀ n : Notice, n.isSkip = true → n.isTolerated = false ∧ n.isWarning = false := by
    intro n hn
    cases n <;> simp_all [Notice.isSkip, Notice.isTolerated, Notice.isWarning]
  have hrefines := readDescription_refines base root
  refine ⟨⟨fun h => ?_, fun ⟨h, hnone⟩ => ?_⟩, fun h => ?_⟩
  · obtain ⟨hlenient, w, rfl, hw⟩ := hrefines.strict _ _ _ h
    exact ⟨hlenient, fun n hn => (hskip n (hw n hn)).1⟩
  · obtain ⟨w, rfl, hstrict⟩ := hrefines.lenient _ _ _ h
    exact hstrict hnone
  · obtain ⟨-, w, rfl, hw⟩ := hrefines.strict _ _ _ h
    exact fun n hn => (hskip n (hw n hn)).2

/-- A description with an element in another namespace and a param whose style is customary where it
stands. -/
def annotatedRoot : Xml.Node :=
  let note : Xml.Node := .element ⟨⟨some "urn:x", "note"⟩, []⟩ []
  let param : Xml.Node :=
    .element ⟨.plain "param", [(.plain "name", "p"), (.plain "style", "plain")]⟩ []
  .element ⟨.plain "application", []⟩
    [note, .element ⟨.plain "representation", [(.plain "id", "r")]⟩ [note, param]]

theorem strict_iff_nothing_tolerated_annotated :
    let notices :=
      ["application", "representation"].map (Notice.skippedExtension "\x7burn:x\x7dnote")
    ∃ app, Gives (readDescription "http://h/d" false annotatedRoot) [] app notices ∧
      Gives (readDescription "http://h/d" true annotatedRoot) [] app notices ∧
      ∀ n ∈ notices, n.isWarning = false := by
  intro notices
  obtain ⟨app, t, h⟩ :=
    exists_gives (x := readDescription "http://h/d" false annotatedRoot) (s := [])
    (by decide +kernel)
  have hnotices : (Id.run ((readDescription "http://h/d" false annotatedRoot).run.run [])).2 =
      notices := by
    decide +kernel
  rw [h] at hnotices
  obtain rfl : t = notices := hnotices
  obtain ⟨hiff, hwarnings⟩ := strict_iff_nothing_tolerated "http://h/d" annotatedRoot app notices
  have hstrict := hiff.2 ⟨h, by decide⟩
  exact ⟨app, h, hstrict, hwarnings hstrict⟩

end Wadl
