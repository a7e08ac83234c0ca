import Wadl.Proofs.Number.Numeral
import Wadl.Proofs.Runs
import Wadl.Wire.Body

/-!
# Fields and texts

`FieldSpec.Has` says which values a field can have. Nothing is said here of how models read texts
but what is documented of them (`Models.Documented`): texts are kept, whole numbers and truths are
read from what is written for them, and a field is found by its name on the wire, and else by its
own name. What a field takes from texts that it is offered is its value just if the texts are those
of all its values (`FieldSpec.takes_offer`).
-/

namespace Wadl

/-! ## Values of a type -/

/-- A value that a type has. -/
inductive FieldType.Has : FieldType → Value → Prop where
  | text (s : String) : Has .text (.text s)
  | integer (i : Int) : Has .integer (.int i)
  | decimal (x : Binary64) : Has .decimal (.float x)
  | truth (b : Bool) : Has .truth (.bool b)
  | oneOf {options : List String} {s : String} (h : s ∈ options) : Has (.oneOf options)
      (.member (.text s))

/-- The text that a value has on the wire. -/
def Value.written (v : Value) : String := v.wireText?.getD ""

theorem wireText_ok {v : Value} {s : String} :
    wireText v = .ok s ↔ v.wireText?.isSome ∧ v.written = s := by
  rw [wireText, Value.written]
  cases v.wireText? <;> simp

/-- A value that is no number with too many digits. -/
def Value.Short (v : Value) : Prop := ∀ i, v = .int i → i.natAbs < 10 ^ Numeral.maxDigits

theorem Value.short_int {i : Int} : (Value.int i).Short ↔ i.natAbs < 10 ^ Numeral.maxDigits := by
  simp [Short]

/-- A whole number has its numeral as text, unless that has too many digits. -/
theorem Value.wireText?_int (i : Int) :
    (Value.int i).wireText? = if i.natAbs < 10 ^ Numeral.maxDigits then some (toString i)
      else Option.none := by
  show (if Numeral.isWritable i then some (toString i) else Option.none) = _
  simp only [Numeral.isWritable_iff]

theorem Value.written_int {i : Int} (h : i.natAbs < 10 ^ Numeral.maxDigits) :
    (Value.int i).written = toString i := by
  rw [written, wireText?_int, if_pos h, Option.getD_some]

namespace FieldType.Has

variable {type : FieldType} {v : Value}

theorem ne_none (h : type.Has v) : v ≠ .none := by
  cases h <;> exact fun heq => nomatch heq

/-- The values of a type have texts, but for numbers with too many digits. -/
theorem isSome_wireText? (h : type.Has v) : v.wireText?.isSome ↔ v.Short := by
  have hother : v.wireText?.isSome → (∀ i, v ≠ .int i) → (v.wireText?.isSome ↔ v.Short) :=
    fun hsome hint =>
    iff_of_true hsome fun i hi => absurd hi (hint i)
  cases h with
  | text _ => exact hother rfl fun i hi => nomatch hi
  | integer i =>
    rw [Value.wireText?_int, Value.short_int]
    by_cases hshort : i.natAbs < 10 ^ Numeral.maxDigits
    · simp only [hshort, if_true, Option.isSome_some]
    · simp only [hshort, if_false, Option.isSome_none, Bool.false_eq_true]
  | decimal _ => exact hother rfl fun i hi => nomatch hi
  | truth _ => exact hother rfl fun i hi => nomatch hi
  | oneOf _ => exact hother rfl fun i hi => nomatch hi

end FieldType.Has

/-! ## Models -/

/-- How models read a text for a type. -/
abbrev TextReading := FieldType → String → Value → Prop

/-- What is documented of how texts are read. -/
structure TextReading.Documented (reads : TextReading) : Prop where
  text {s : String} {v : Value} : reads .text s v ↔ v = .text s
  integer {s : String} {v : Value} : reads .integer s v → ∃ i, v = .int i
  /-- A whole number is read from its numeral, unless that has too many digits. -/
  numeral {i : Int} : i.natAbs < 10 ^ Numeral.maxDigits → reads .integer (toString i) (.int i)
  truth {s : String} {v : Value} : reads .truth s v → ∃ b, v = .bool b
  word (b : Bool) : reads .truth (if b then "true" else "false") (.bool b)
  option {options : List String} {s : String} {v : Value} :
    reads (.oneOf options) s v ↔ s ∈ options ∧ v = .member (.text s)

/-- A text, or a list of texts. -/
inductive Value.OfTexts : Value → Prop where
  | text (s : String) : OfTexts (.text s)
  | list (texts : List String) : OfTexts (.list (texts.map .text))

namespace FieldSpec

/-- What a field takes from a text or a list of texts. -/
inductive Takes (reads : TextReading) (f : FieldSpec) : Value → Value → Prop where
  | single {s : String} {v : Value} (hlist : f.isList = false) (h : reads f.type s v) :
    Takes reads f (.text s) v
  | list {texts : List String} {vs : List Value} (hlist : f.isList = true)
    (h : List.Forall₂ (reads f.type) texts vs) : Takes reads f (.list (texts.map .text)) (.list vs)

/-- What a field gets of entries: what it takes from the one with its name on the wire, else from
the one with its own name. It may be without either if it is not required. -/
inductive Gets (reads : TextReading) (f : FieldSpec) (entries : List (String × Value)) :
    Value → Prop where
  | byKey {o v : Value} (h : entries.lookup f.key = some o)
      (hv : f.Takes reads o v) : Gets reads f entries v
  | byName {o v : Value} (hkey : entries.lookup f.key = none) (h : entries.lookup f.name = some o)
    (hv : f.Takes reads o v) : Gets reads f entries v
  | absent (hkey : entries.lookup f.key = none) (hname : entries.lookup f.name = none)
    (hrequired : f.required = false) : Gets reads f entries f.absent

end FieldSpec

/-- What is documented of models, where entries are texts and lists of texts. -/
structure Models.Documented (models : Models) (reads : TextReading) : Prop where
  texts : reads.Documented
  /-- Entries make a record of what its fields get of them. -/
  validate {t : RecordType} {entries : List (String × Value)} {r : Record} :
    (entries.map (·.1)).Nodup → (∀ e ∈ entries, e.2.OfTexts) →
      (models.validate t (.dict entries) = .ok r ↔
        r.type = t ∧ List.Forall₂ (fun f v => f.Gets reads entries v) t.fields r.values)
  dump (r : Record) : models.dump r = r.wireEntries

namespace TextReading.Documented

variable {reads : TextReading} {type : FieldType} {v : Value} {s : String}

/-- What is read for a type is a value of it. -/
theorem has (hreads : reads.Documented) (hdecimal : type ≠ .decimal) (h : reads type s v) :
    type.Has v := by
  cases type with
  | text =>
    rw [hreads.text.1 h]
    exact .text s
  | integer =>
    obtain ⟨i, rfl⟩ := hreads.integer h
    exact .integer i
  | decimal => exact absurd rfl hdecimal
  | truth =>
    obtain ⟨b, rfl⟩ := hreads.truth h
    exact .truth b
  | oneOf options =>
    obtain ⟨hs, rfl⟩ := hreads.option.1 h
    exact .oneOf hs

/-- A value is read from its text. -/
theorem written (hreads : reads.Documented) (h : type.Has v) (hdecimal : type ≠ .decimal)
    (hshort : v.Short) : reads type v.written v := by
  cases h with
  | text s => exact hreads.text.2 rfl
  | integer i =>
    have hdigits := Value.short_int.1 hshort
    rw [Value.written_int hdigits]
    exact hreads.numeral hdigits
  | decimal x => exact absurd rfl hdecimal
  | truth b => exact hreads.word b
  | oneOf hs => exact hreads.option.2 ⟨hs, rfl⟩

/-- What is read from a text that is not blank has a text that is not blank. -/
theorem written_ne_empty (hreads : reads.Documented) (hdecimal : type ≠ .decimal) (hs : s ≠ "")
    (hshort : v.Short) (h : reads type s v) : v.written ≠ "" := by
  cases type with
  | text =>
    rw [hreads.text.1 h]
    exact hs
  | integer =>
    obtain ⟨i, rfl⟩ := hreads.integer h
    rw [Value.written_int (Value.short_int.1 hshort)]
    exact (isWord_toString i).1
  | decimal => exact absurd rfl hdecimal
  | truth =>
    obtain ⟨b, rfl⟩ := hreads.truth h
    cases b <;> decide
  | oneOf options =>
    obtain ⟨-, rfl⟩ := hreads.option.1 h
    exact hs

end TextReading.Documented

/-! ## Values of a field -/

/-- The values that a field has, one by one: none where it has nothing, and the items of a list. -/
def Value.given : Value → List Value
  | .none => []
  | .list vs => vs
  | v => [v]

namespace FieldSpec

variable {f g : FieldSpec} {v o : Value} {texts : List String}

/-- A value that a field has. -/
inductive Has (f : FieldSpec) : Value → Prop where
  | nothing (h : f.isOptional = true) : f.Has .none
  | single {v : Value} (hlist : f.isList = false) (h : f.type.Has v) : f.Has v
  | list {vs : List Value} (hlist : f.isList = true) (h : ∀ v ∈ vs, f.type.Has v) : f.Has (.list vs)

theorem isList_eq_false (h : f.isOptional = true) : f.isList = false := by
  simp only [isOptional, Bool.and_eq_true, Bool.not_eq_true'] at h
  exact h.1.2

theorem given_of_has {type : FieldType} (h : type.Has v) : v.given = [v] := by
  cases h <;> rfl

theorem Has.of_mem_given {w : Value} (h : f.Has v) (hw : w ∈ v.given) : f.type.Has w := by
  cases h with
  | nothing => cases hw
  | single _ h =>
    rw [given_of_has h, List.mem_singleton] at hw
    rwa [hw]
  | list _ h => exact h w hw

/-- A field that is left out has nothing. -/
theorem absent_eq_iff (hdefault : f.default = none) (hv : f.Has v) :
    f.absent = v ↔ v.given = [] := by
  rw [absent, hdefault]
  cases hv with
  | nothing h => simp [isList_eq_false h, Value.given]
  | single hlist h =>
    rw [given_of_has h, if_neg (by simp [hlist])]
    simp [h.ne_none.symm]
  | list hlist h =>
    rw [if_pos hlist]
    simp [Value.given, eq_comm]

/-! ## Texts for a field -/

/-- What a field is offered of texts: all of them for a list, the first one for others. -/
def offer (f : FieldSpec) : List String → Option Value
  | [] => none
  | s :: rest => some (if f.isList then .list ((s :: rest).map .text) else .text s)

theorem offer_eq_none : f.offer texts = none ↔ texts = [] := by
  cases texts <;> simp [offer]

theorem offer_cases (h : f.offer texts = some o) :
    (∃ s ∈ texts, o = .text s) ∨ (texts ≠ [] ∧ o = .list (texts.map .text)) := by
  cases texts with
  | nil => cases h
  | cons s rest =>
    rw [offer, Option.some.injEq] at h
    split at h
    · exact Or.inr ⟨List.cons_ne_nil s rest, h.symm⟩
    · exact Or.inl ⟨s, List.mem_cons_self, h.symm⟩

theorem ofTexts_of_offer (h : f.offer texts = some o) : o.OfTexts := by
  rcases offer_cases h with ⟨s, -, rfl⟩ | ⟨-, rfl⟩
  · exact .text s
  · exact .list texts

section Takes

variable {reads : TextReading} {entries : List (String × Value)} {place : String}

/-- What a field gets is what it takes of the entry that it finds. -/
theorem gets_of_found (h : f.find? entries = some (place, o)) :
    f.Gets reads entries v ↔ f.Takes reads o v := by
  unfold find? at h
  split at h
  · rename_i found hkey
    obtain ⟨-, rfl⟩ := Prod.mk.inj (Option.some.inj h)
    refine ⟨fun hgets => ?_, .byKey hkey⟩
    cases hgets with
    | byKey h hv => rwa [Option.some.inj (hkey.symm.trans h)]
    | byName h => cases hkey.symm.trans h
    | absent h => cases hkey.symm.trans h
  · rename_i hkey
    obtain ⟨found, hname, heq⟩ := Option.map_eq_some_iff.1 h
    obtain ⟨-, rfl⟩ := Prod.mk.inj heq
    refine ⟨fun hgets => ?_, .byName hkey hname⟩
    cases hgets with
    | byKey h => cases hkey.symm.trans h
    | byName _ h hv => rwa [Option.some.inj (hname.symm.trans h)]
    | absent _ h => cases hname.symm.trans h

/-- A field that finds no entry is left out, if it may be. -/
theorem gets_of_not_found (h : f.find? entries = none) :
    f.Gets reads entries v ↔ f.required = false ∧ f.absent = v := by
  unfold find? at h
  split at h
  · cases h
  · rename_i hkey
    have hname := Option.map_eq_none_iff.1 h
    constructor
    · intro hgets
      cases hgets with
      | byKey h => cases hkey.symm.trans h
      | byName _ h => cases hname.symm.trans h
      | absent _ _ hrequired => exact ⟨hrequired, rfl⟩
    · rintro ⟨hrequired, rfl⟩
      exact .absent hkey hname hrequired

theorem takes_text {s : String} : f.Takes reads (.text s) v ↔ f.isList = false ∧ reads f.type s v :=
  ⟨fun h => by cases h with | single hlist h => exact ⟨hlist, h⟩, fun h => .single h.1 h.2⟩

theorem takes_list : f.Takes reads (.list (texts.map .text)) v ↔
    f.isList = true ∧ ∃ vs, v = .list vs ∧ List.Forall₂ (reads f.type) texts vs := by
  constructor
  · generalize hoffered : Value.list (texts.map .text) = offered
    intro h
    cases h with
    | single => cases hoffered
    | list hlist h =>
      obtain rfl := List.map_injective_iff.2 (fun _ _ => Value.text.inj) (Value.list.inj hoffered)
      exact ⟨hlist, _, rfl, h⟩
  · rintro ⟨hlist, vs, rfl, h⟩
    exact .list hlist h

/-- From those of its texts that are kept, a field takes its value just if all are kept. -/
theorem takes_offer (hreads : reads.Documented) (hv : f.Has v) (hdecimal : f.type ≠ .decimal)
    (hshort : ∀ w ∈ v.given, w.Short) {keep : String → Bool}
    (ho : f.offer ((v.given.map Value.written).filter keep) = some o) :
    f.Takes reads o v ↔ ∀ w ∈ v.given, keep w.written = true := by
  cases hv with
  | nothing => cases ho
  | single hlist h =>
    rw [given_of_has h] at ho hshort ⊢
    rw [List.map_singleton, List.filter_singleton] at ho
    cases hkeep : keep v.written with
    | true =>
      rw [hkeep, cond_true, offer, if_neg (by simp [hlist]), Option.some.injEq] at ho
      have hread := hreads.written h hdecimal (hshort v (List.mem_singleton_self v))
      simp [← ho, takes_text, hlist, hread, hkeep]
    | false =>
      rw [hkeep] at ho
      cases ho
  | @list vs hlist h =>
    change f.offer ((vs.map Value.written).filter keep) = some o at ho
    show f.Takes reads o (.list vs) ↔ ∀ w ∈ vs, keep w.written = true
    have hitems : o = .list (((vs.map Value.written).filter keep).map .text) := by
      cases htexts : (vs.map Value.written).filter keep with
      | nil =>
        rw [htexts] at ho
        cases ho
      | cons s rest =>
        rw [htexts, offer, if_pos hlist, Option.some.injEq] at ho
        rw [← ho]
    rw [hitems, takes_list]
    constructor
    · rintro ⟨-, ws, heq, hws⟩
      obtain rfl := Value.list.inj heq
      -- as many texts are kept as there are values, so all are
      have hlength := hws.length_eq
      have hall : (vs.map Value.written).filter keep = vs.map Value.written :=
        List.filter_sublist.eq_of_length (by rw [hlength, List.length_map])
      exact fun w hw => List.filter_eq_self.1 hall _ (List.mem_map_of_mem hw)
    · intro hkeep
      have hall : (vs.map Value.written).filter keep = vs.map Value.written := by
        rw [List.filter_eq_self, List.forall_mem_map]
        exact hkeep
      refine ⟨hlist, vs, rfl, ?_⟩
      rw [hall, List.forall₂_map_left_iff, List.forall₂_same]
      exact fun w hw => hreads.written (h w hw) hdecimal (hshort w hw)

/-- A field that has nothing, or only blank texts where the others are not, does not take its value
from the texts of another one. -/
theorem not_takes_offer (hreads : reads.Documented) (hv : f.Has v) (hdecimal : f.type ≠ .decimal)
    (hshort : ∀ w ∈ v.given, w.Short) (hblank : ∀ w ∈ v.given, w.written = "" ∧ ∀ s ∈ texts, s ≠ "")
    (ho : g.offer texts = some o) : ¬ f.Takes reads o v := by
  intro h
  have hread : ∀ {s : String} {w : Value}, s ∈ texts → w ∈ v.given → ¬ reads f.type s w :=
    fun hs hw hread =>
    hreads.written_ne_empty hdecimal ((hblank _ hw).2 _ hs) (hshort _ hw) hread (hblank _ hw).1
  rcases offer_cases ho with ⟨s, hs, rfl⟩ | ⟨hne, rfl⟩
  · have htaken := (takes_text.1 h).2
    have hhas := hreads.has hdecimal htaken
    exact hread hs (by rw [given_of_has hhas]; exact List.mem_singleton_self v) htaken
  · obtain ⟨-, vs, rfl, hvs⟩ := takes_list.1 h
    obtain ⟨s, rest, rfl⟩ := List.exists_cons_of_ne_nil hne
    obtain ⟨w, ws, hw, -, rfl⟩ := List.forall₂_cons_left_iff.1 hvs
    exact hread List.mem_cons_self List.mem_cons_self hw

end Takes

end FieldSpec

end Wadl
