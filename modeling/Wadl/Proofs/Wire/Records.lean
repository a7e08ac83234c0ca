import Wadl.Proofs.Tables
import Wadl.Proofs.Wire.Fields

/-!
# Records read back

Forms and XML hold the texts of a record by the names of its fields; a number that is too long has
none. From those that are kept, models read the record back just if no text is lost, each required
field has something, and no field that has nothing is mistaken for another one by its name
(`validate_kept`).
-/

namespace Wadl

/-! ## Records that entries make -/

/-- A type of records as clients have them: no numbers with fractions, nothing or the empty list for
a field that is not given, and a name of its own on the wire for each field. -/
structure RecordType.IsPlain (t : RecordType) : Prop where
  whole : ∀ f ∈ t.fields, f.type ≠ .decimal
  default : ∀ f ∈ t.fields, f.default = none
  keys : (t.fields.map (·.key)).Nodup

namespace Record

/-- A record whose fields have their values. -/
def Valid (r : Record) : Prop := List.Forall₂ FieldSpec.Has r.type.fields r.values

variable {r : Record} {models : Models} {reads : TextReading}

theorem fst_mem_fields {e : FieldSpec × Value} (h : e ∈ r.entries) : e.1 ∈ r.type.fields :=
  (List.of_mem_zip h).1

theorem Valid.has (hr : r.Valid) : ∀ e ∈ r.entries, e.1.Has e.2 :=
  fun _ he => (List.forall₂_iff_zip.1 hr).2 he

/-- A record that is valid has one value for each of its fields. -/
theorem Valid.map_fst_entries (hr : r.Valid) : r.entries.map (·.1) = r.type.fields :=
  List.map_fst_zip (Nat.le_of_eq hr.length_eq)

/-- No two of its entries have one name on the wire. -/
theorem Valid.nodup_keys (hplain : r.type.IsPlain) (hr : r.Valid) :
    (r.entries.map (·.1.key)).Nodup := by
  have hmap : r.entries.map (·.1.key) = (r.entries.map (·.1)).map (·.key) := by
    rw [List.map_map]
    rfl
  rw [hmap, hr.map_fst_entries]
  exact hplain.keys

/-- Entries of texts make a record if each of its values is what its field gets of them. -/
theorem validate_eq_ok (hmodels : models.Documented reads) (hr : r.Valid)
    {entries : List (String × Value)} (hkeys : (entries.map (·.1)).Nodup)
    (htexts : ∀ e ∈ entries, e.2.OfTexts) :
    models.validate r.type (.dict entries) = .ok r ↔ ∀ e ∈ r.entries,
      e.1.Gets reads entries e.2 := by
  rw [hmodels.validate hkeys htexts, List.forall₂_iff_zip]
  exact ⟨fun h e he => h.2.2 he, fun h => ⟨rfl, hr.length_eq, fun hmem => h _ hmem⟩⟩

/-! ## Names and texts -/

/-- The names and texts of a record, one for each value of its fields. -/
def pairs (r : Record) : List (String × String) :=
  r.entries.flatMap fun e => e.2.given.map fun v => (e.1.key, v.written)

/-- No number of a record has too many digits to be written and read. -/
def NoLongNumber (r : Record) : Prop := ∀ e ∈ r.entries, ∀ v ∈ e.2.given, v.Short

/-- The texts of a value of a field, which it has unless a number is too long. -/
theorem namedTexts_ok {f : FieldSpec} {v : Value} (hv : f.Has v)
    (hsome : v.isNone = false) {name : String} {found : List (String × String)} :
    namedTexts name v = .ok found ↔
      (∀ w ∈ v.given, w.Short) ∧ v.given.map (fun w => (name, w.written)) = found := by
  have hitems : namedTexts name v = v.given.mapM fun w => do return (name, ← wireText w) := by
    cases v <;> first | rfl | cases hsome
  rw [hitems]
  refine Result.mapM_ok_iff fun w hw pair => ?_
  rw [← (hv.of_mem_given hw).isSome_wireText?, Result.bind_ok]
  simp only [wireText_ok, Result.pure_ok, and_assoc, exists_and_left, exists_eq_left']

/-- The texts of a record are those of its values, which it has unless a number is too long. -/
theorem texts_ok (hmodels : models.Documented reads) (hhas : ∀ e ∈ r.entries, e.1.Has e.2)
    {found : List (String × String)} :
    r.texts models = .ok found ↔ r.NoLongNumber ∧ r.pairs = found := by
  have hloop : r.texts models = .ok found ↔ (∀ p ∈ r.wireEntries, ∀ w ∈ p.2.given, w.Short) ∧
      (r.wireEntries.map fun p => p.2.given.map fun w => (p.1, w.written)).flatten = found := by
    have hsteps : ∀ p ∈ r.wireEntries, ∀ found, namedTexts p.1 p.2 = .ok found ↔
        (∀ w ∈ p.2.given, w.Short) ∧ p.2.given.map (fun w => (p.1, w.written)) = found := by
      intro p hp found
      obtain ⟨e, he, rfl⟩ := List.mem_map.1 hp
      obtain ⟨hmem, hsome⟩ := List.mem_filter.1 he
      exact namedTexts_ok (hhas e hmem) (by simpa using hsome)
    unfold texts
    rw [hmodels.dump, Result.bind_ok]
    simp only [Result.mapM_ok_iff hsteps, Result.pure_ok, and_assoc,
      exists_and_left, exists_eq_left']
  rw [hloop, wireEntries, List.forall_mem_map, List.map_map, NoLongNumber, pairs]
  -- fields that have nothing are left out, and would give nothing
  have hnothing : ∀ es : List (FieldSpec × Value),
      ((∀ e ∈ es.filter (fun e => !e.2.isNone), ∀ w ∈ e.2.given, w.Short) ↔
        ∀ e ∈ es, ∀ w ∈ e.2.given, w.Short) ∧
      ((es.filter fun e => !e.2.isNone).map fun e => e.2.given.map fun w =>
        (e.1.key, w.written)).flatten =
        es.flatMap fun e => e.2.given.map fun w => (e.1.key, w.written) := by
    intro es
    induction es with
    | nil => exact ⟨Iff.rfl, rfl⟩
    | cons e es ih =>
      obtain ⟨f, v⟩ := e
      rw [List.flatMap_cons, ← ih.2, List.forall_mem_cons, ← ih.1]
      cases v <;> simp [Value.isNone, Value.given]
  exact and_congr (hnothing _).1 (by rw [← (hnothing _).2]; rfl)

end Record

/-- The texts of a name, in their order. -/
def textsOf (pairs : List (String × String)) (name : String) : List String :=
  (pairs.filter (·.1 = name)).map (·.2)

theorem textsOf_eq_nil {pairs : List (String × String)} {name : String} :
    textsOf pairs name = [] ↔ name ∉ pairs.map (·.1) := by
  rw [textsOf, List.map_eq_nil_iff, List.filter_eq_nil_iff, List.mem_map]
  simp only [decide_eq_true_eq]
  exact ⟨fun h ⟨p, hp, hname⟩ => h p hp hname, fun h p hp hname => h ⟨p, hp, hname⟩⟩

/-- The texts of a name come pair by pair. -/
theorem textsOf_append (pairs others : List (String × String)) (name : String) :
    textsOf (pairs ++ others) name = textsOf pairs name ++ textsOf others name := by
  rw [textsOf, List.filter_append, List.map_append]
  rfl

/-- Pairs may be left out before or after the texts of a name are taken. -/
theorem textsOf_filter (keep : String → Bool) (pairs : List (String × String)) (name : String) :
    textsOf (pairs.filter fun p => keep p.2) name = (textsOf pairs name).filter keep := by
  unfold textsOf
  rw [List.filter_map, List.filter_filter, List.filter_filter]
  congr 2
  funext p
  exact Bool.and_comm _ _

/-- Grouping gathers all texts of each name. -/
theorem lookup_groupTexts (pairs : List (String × String)) (name : String) :
    (groupTexts pairs).lookup name =
      if name ∈ pairs.map (·.1) then some (textsOf pairs name) else none := by
  have hlookup : ∀ names : List String, (names.map fun n => (n, textsOf pairs n)).lookup name =
      if name ∈ names then some (textsOf pairs name) else none := by
    intro names
    induction names with
    | nil => rfl
    | cons n names ih =>
      rw [List.map_cons, List.lookup_cons, ih]
      by_cases hn : name = n
      · simp [hn]
      · simp [hn, beq_false_of_ne hn]
  have hnames := hlookup (pairs.map (·.1)).eraseDups
  simp only [List.mem_eraseDups] at hnames
  exact hnames

/-! ## What fields are offered -/

section Offers

variable {fields : List FieldSpec} {texts : String → List String}

/-- The entries for some fields: what each is offered of the texts of its name. -/
def offers (fields : List FieldSpec) (texts : String → List String) : List (String × Value) :=
  fields.filterMap fun f => (f.offer (texts f.key)).map (f.key, ·)

/-- The entries for a type are what its fields are offered. -/
theorem entriesOf_groupTexts (t : RecordType) (pairs : List (String × String)) :
    t.entriesOf (groupTexts pairs) = offers t.fields (textsOf pairs) := by
  unfold RecordType.entriesOf offers
  congr 1
  funext f
  rw [lookup_groupTexts]
  cases htexts : textsOf pairs f.key with
  | nil => rw [if_neg (textsOf_eq_nil.1 htexts), FieldSpec.offer, Option.map_none]
  | cons s rest =>
    have hname : f.key ∈ pairs.map (·.1) := by
      by_contra hnot
      rw [textsOf_eq_nil.2 hnot] at htexts
      cases htexts
    rw [if_pos hname, FieldSpec.offer, Option.map_some]

/-- What is offered is what some field makes of its texts. -/
theorem mem_offers {key : String} {o : Value} :
    (key, o) ∈ offers fields texts ↔ ∃ f ∈ fields,
      f.key = key ∧ f.offer (texts f.key) = some o := by
  unfold offers
  rw [List.mem_filterMap]
  refine exists_congr fun f => and_congr_right fun _ => ?_
  rw [Option.map_eq_some_iff]
  constructor
  · rintro ⟨o', ho, heq⟩
    obtain ⟨rfl, rfl⟩ := Prod.mk.inj heq
    exact ⟨rfl, ho⟩
  · rintro ⟨rfl, ho⟩
    exact ⟨o, ho, rfl⟩

/-- No field is offered two entries. -/
theorem keys_offers (fields : List FieldSpec) (texts : String → List String) :
    ((offers fields texts).map (·.1)).Sublist (fields.map (·.key)) := by
  induction fields with
  | nil => exact List.Sublist.slnil
  | cons f fields ih =>
    unfold offers at ih ⊢
    rw [List.filterMap_cons]
    cases f.offer (texts f.key) with
    | none => exact ih.cons _
    | some o => exact ih.cons_cons _

/-- With a name for each field, a field finds what it is offered. -/
theorem lookup_offers (hkeys : (fields.map (·.key)).Nodup) {f : FieldSpec} (hf : f ∈ fields) :
    (offers fields texts).lookup f.key = f.offer (texts f.key) := by
  cases ho : f.offer (texts f.key) with
  | some o =>
    exact lookup_of_mem (hkeys.sublist (keys_offers fields texts)) (mem_offers.2 ⟨f, hf, rfl, ho⟩)
  | none =>
    cases hlookup : (offers fields texts).lookup f.key with
    | none => rfl
    | some o =>
      obtain ⟨g, hg, hkey, hgo⟩ := mem_offers.1 (mem_of_lookup hlookup)
      obtain rfl := List.inj_on_of_nodup_map hkeys hg hf hkey
      rw [ho] at hgo
      cases hgo

theorem lookup_offers_eq_none {key : String} :
    (offers fields texts).lookup key = none ↔ ∀ f ∈ fields, f.key = key → texts f.key = [] := by
  constructor
  · intro h f hf hkey
    by_contra hne
    obtain ⟨o, ho⟩ := Option.ne_none_iff_exists'.1 (mt FieldSpec.offer_eq_none.1 hne)
    have hmem : key ∈ (offers fields texts).map (·.1) :=
      List.mem_map.2 ⟨(key, o), mem_offers.2 ⟨f, hf, hkey, ho⟩, rfl⟩
    obtain ⟨value, hvalue⟩ := mem_keys_of_lookup.1 hmem
    rw [h] at hvalue
    cases hvalue
  · intro h
    cases hlookup : (offers fields texts).lookup key with
    | none => rfl
    | some o =>
      obtain ⟨f, hf, hkey, ho⟩ := mem_offers.1 (mem_of_lookup hlookup)
      rw [h f hf hkey] at ho
      cases ho

end Offers

/-! ## One field -/

/-- Whether a text is kept: blank ones may be lost. -/
def isKept (keepBlank : Bool) (s : String) : Bool := keepBlank || !s.isEmpty

/-- Only empty texts are lost, and then all of them. -/
theorem blank_of_lost {keepBlank : Bool} {lost : String} (hlost : ¬ isKept keepBlank lost = true) :
    lost = "" ∧ ∀ s, isKept keepBlank s = true → s ≠ "" := by
  rw [isKept, Bool.or_eq_true, not_or, Bool.not_eq_true, Bool.not_eq_true', Bool.not_eq_false,
    String.isEmpty_iff] at hlost
  refine ⟨hlost.2, fun s hs hblank => ?_⟩
  rw [isKept, hlost.1, hblank] at hs
  cases hs

namespace FieldSpec

variable {f : FieldSpec} {v : Value} {entries : List (String × Value)} {reads : TextReading}

/-- A field gets its value just if all its texts are kept, it has something if it is required, and
nothing is found by its name if it has nothing. -/
theorem gets_kept (hreads : reads.Documented) (hv : f.Has v) (hwhole : f.type ≠ .decimal)
    (hdefault : f.default = none) (hshort : ∀ w ∈ v.given, w.Short) {keepBlank : Bool}
    (hkey : entries.lookup f.key = f.offer ((v.given.map Value.written).filter (isKept keepBlank)))
    (hothers : ∀ key o, entries.lookup key = some o →
      ∃ (g : FieldSpec) (texts : List String),
        (∀ s ∈ texts, isKept keepBlank s = true) ∧ g.offer texts = some o) :
    f.Gets reads entries v ↔
      (∀ w ∈ v.given, isKept keepBlank w.written = true) ∧
        (f.required = true → v.given ≠ []) ∧ (v.given = [] → entries.lookup f.name = none) := by
  cases ho : f.offer ((v.given.map Value.written).filter (isKept keepBlank)) with
  | some o =>
    have hne : v.given ≠ [] := by
      intro hnil
      rw [hnil] at ho
      cases ho
    have hfind : f.find? entries = some (f.key, o) := by
      rw [find?, hkey, ho]
    rw [gets_of_found hfind, takes_offer hreads hv hwhole hshort ho]
    exact ⟨fun h => ⟨h, fun _ => hne, fun hnil => absurd hnil hne⟩, fun h => h.1⟩
  | none =>
    -- all its texts are lost: it had none, or they were blank and those that are found by its name
    -- are not
    have hlost : ∀ w ∈ v.given, ¬ isKept keepBlank w.written = true := by
      have hnil := offer_eq_none.1 ho
      rw [List.filter_eq_nil_iff, List.forall_mem_map] at hnil
      exact hnil
    have hnone : (∀ w ∈ v.given, isKept keepBlank w.written = true) → v.given = [] := fun hkept =>
      List.eq_nil_iff_forall_not_mem.2 fun w hw => hlost w hw (hkept w hw)
    have hfind : f.find? entries = (entries.lookup f.name).map fun o => (f.name, o) := by
      rw [find?, hkey, ho]
    cases hname : entries.lookup f.name with
    | some o =>
      obtain ⟨g, texts, htexts, hg⟩ := hothers f.name o hname
      have hblank : ∀ w ∈ v.given, w.written = "" ∧ ∀ s ∈ texts, s ≠ "" := fun w hw =>
        ⟨(blank_of_lost (hlost w hw)).1, fun s hs => (blank_of_lost (hlost w hw)).2 s (htexts s hs)⟩
      rw [hname] at hfind
      rw [gets_of_found hfind]
      refine iff_of_false (not_takes_offer hreads hv hwhole hshort hblank hg) fun h => ?_
      cases h.2.2 (hnone h.1)
    | none =>
      rw [hname] at hfind
      rw [gets_of_not_found hfind, absent_eq_iff hdefault hv]
      constructor
      · rintro ⟨hrequired, hnil⟩
        rw [hnil, hrequired]
        simp
      · intro h
        refine ⟨?_, hnone h.1⟩
        rw [← Bool.not_eq_true]
        exact fun hrequired => h.2.1 hrequired (hnone h.1)

end FieldSpec

/-! ## Records -/

namespace Record

/-- No text of a record is blank. -/
def NoBlank (r : Record) : Prop := ∀ e ∈ r.entries, ∀ v ∈ e.2.given, wireText v ≠ .ok ""

/-- Each required field of a record has something. -/
def Filled (r : Record) : Prop := ∀ e ∈ r.entries, e.1.required = true → e.2.given ≠ []

/-- No field that has nothing has the name that another one, which has something, has on the
wire. -/
def Apart (r : Record) : Prop :=
  ∀ e ∈ r.entries, e.2.given = [] → ∀ other ∈ r.entries, other.2.given ≠ [] → other.1.key ≠ e.1.name

variable {r : Record} {models : Models} {reads : TextReading}

/-- With a name for each field, the texts of a field are those of its values. -/
theorem textsOf_flatMap {e : FieldSpec × Value} :
    ∀ {es : List (FieldSpec × Value)}, (es.map (·.1.key)).Nodup → e ∈ es →
      textsOf (es.flatMap fun e => e.2.given.map fun v => (e.1.key, v.written)) e.1.key =
        e.2.given.map Value.written
  | [], _, he => nomatch he
  | d :: es, hkeys, he => by
    rw [List.map_cons, List.nodup_cons] at hkeys
    rw [List.flatMap_cons, textsOf_append]
    rcases List.mem_cons.1 he with rfl | he
    · have hown : textsOf (e.2.given.map fun v => (e.1.key, v.written)) e.1.key =
          e.2.given.map Value.written := by
        simp [textsOf, List.filter_map, Function.comp_def]
      have hrest : textsOf (es.flatMap fun e => e.2.given.map fun v => (e.1.key, v.written))
          e.1.key = [] := by
        rw [textsOf_eq_nil]
        intro hmem
        obtain ⟨p, hp, heq⟩ := List.mem_map.1 hmem
        obtain ⟨d, hd, hp⟩ := List.mem_flatMap.1 hp
        obtain ⟨v, -, rfl⟩ := List.mem_map.1 hp
        exact hkeys.1 (heq ▸ List.mem_map_of_mem hd)
      rw [hown, hrest, List.append_nil]
    · have hother : textsOf (d.2.given.map fun v => (d.1.key, v.written)) e.1.key = [] := by
        rw [textsOf_eq_nil]
        intro hmem
        obtain ⟨p, hp, heq⟩ := List.mem_map.1 hmem
        obtain ⟨v, -, rfl⟩ := List.mem_map.1 hp
        exact hkeys.1 (List.mem_map.2 ⟨e, he, heq.symm⟩)
      rw [hother, List.nil_append, textsOf_flatMap hkeys.2 he]

/-- Without blank texts, or where these are kept, all texts of a record are kept. -/
theorem isKept_iff (hhas : ∀ e ∈ r.entries, e.1.Has e.2) (hshort : r.NoLongNumber)
    (keepBlank : Bool) : (∀ e ∈ r.entries, ∀ v ∈ e.2.given, isKept keepBlank v.written = true) ↔
      keepBlank = true ∨ r.NoBlank := by
  cases keepBlank with
  | true => simp [isKept]
  | false =>
    simp only [Bool.false_eq_true, false_or, NoBlank]
    refine forall₂_congr fun e he => forall₂_congr fun v hv => ?_
    have htext := ((hhas e he).of_mem_given hv).isSome_wireText?.2 (hshort e he v hv)
    simp [isKept, wireText_ok, htext]

/-- The entries that are made of those texts of a record that are kept. -/
def keptEntries (r : Record) (keepBlank : Bool) : List (String × Value) :=
  r.type.entriesOf (groupTexts (r.pairs.filter fun p => isKept keepBlank p.2))

section Kept

variable {keepBlank : Bool} {e : FieldSpec × Value}

/-- A field gets back those of its texts that are kept. -/
theorem textsOf_kept (hplain : r.type.IsPlain) (hr : r.Valid) (he : e ∈ r.entries) :
    textsOf (r.pairs.filter fun p => isKept keepBlank p.2) e.1.key =
      (e.2.given.map Value.written).filter (isKept keepBlank) := by
  rw [textsOf_filter, pairs, textsOf_flatMap (hr.nodup_keys hplain) he]

/-- So it is offered what it makes of these. -/
theorem lookup_keptEntries (keepBlank : Bool) (hplain : r.type.IsPlain) (hr : r.Valid)
    (he : e ∈ r.entries) : (r.keptEntries keepBlank).lookup e.1.key =
      e.1.offer ((e.2.given.map Value.written).filter (isKept keepBlank)) := by
  rw [keptEntries, entriesOf_groupTexts, lookup_offers hplain.keys (fst_mem_fields he),
    textsOf_kept hplain hr he]

theorem nodup_keptEntries (hplain : r.type.IsPlain) :
    ((r.keptEntries keepBlank).map (·.1)).Nodup := by
  rw [keptEntries, entriesOf_groupTexts]
  exact hplain.keys.sublist (keys_offers _ _)

/-- All that is offered was made of texts. -/
theorem ofTexts_keptEntries {p : String × Value} (hp : p ∈ r.keptEntries keepBlank) :
    p.2.OfTexts := by
  rw [keptEntries, entriesOf_groupTexts] at hp
  obtain ⟨g, -, -, ho⟩ := mem_offers.1 hp
  exact FieldSpec.ofTexts_of_offer ho

/-- What is found among the entries was offered to some field. -/
theorem offer_of_lookup (hplain : r.type.IsPlain) (hr : r.Valid) {key : String} {o : Value}
    (h : (r.keptEntries keepBlank).lookup key = some o) :
    ∃ (g : FieldSpec) (texts : List String),
      (∀ s ∈ texts, isKept keepBlank s = true) ∧ g.offer texts = some o := by
  rw [keptEntries, entriesOf_groupTexts] at h
  obtain ⟨g, hg, -, ho⟩ := mem_offers.1 (mem_of_lookup h)
  rw [← hr.map_fst_entries] at hg
  obtain ⟨e, he, rfl⟩ := List.mem_map.1 hg
  refine ⟨e.1, _, fun s hs => ?_, ho⟩
  rw [textsOf_kept hplain hr he] at hs
  exact (List.mem_filter.1 hs).2

/-- Where no text is lost, nothing is found by a name just if no field with it on the wire has
something. -/
theorem lookup_keptEntries_eq_none (hplain : r.type.IsPlain) (hr : r.Valid)
    (hkept : ∀ e ∈ r.entries, ∀ v ∈ e.2.given, isKept keepBlank v.written = true) (name : String) :
    (r.keptEntries keepBlank).lookup name = none ↔
      ∀ e ∈ r.entries, e.2.given ≠ [] → e.1.key ≠ name := by
  rw [keptEntries, entriesOf_groupTexts, lookup_offers_eq_none, ← hr.map_fst_entries,
    List.forall_mem_map]
  refine forall₂_congr fun e he => ?_
  have hself : (e.2.given.map Value.written).filter (isKept keepBlank) =
      e.2.given.map Value.written := by
    rw [List.filter_eq_self, List.forall_mem_map]
    exact hkept e he
  rw [textsOf_kept hplain hr he, hself, List.map_eq_nil_iff, ← not_imp_not]

end Kept

/-- From those of its texts that are kept, a record is read back just if none of them is lost, each
required field has something, and no field that has nothing is mistaken for another one. -/
theorem validate_kept (hmodels : models.Documented reads) (hplain : r.type.IsPlain) (hr : r.Valid)
    (hshort : r.NoLongNumber) (keepBlank : Bool) :
    models.validate r.type (.dict (r.keptEntries keepBlank)) = .ok r ↔
      (keepBlank = true ∨ r.NoBlank) ∧ r.Filled ∧ r.Apart := by
  have hfield := fun e (he : e ∈ r.entries) => FieldSpec.gets_kept hmodels.texts (hr.has e he)
    (hplain.whole _ (fst_mem_fields he)) (hplain.default _ (fst_mem_fields he)) (hshort e he)
    (lookup_keptEntries keepBlank hplain hr he) fun _ _ => offer_of_lookup hplain hr
  rw [validate_eq_ok hmodels hr (nodup_keptEntries hplain) fun p => ofTexts_keptEntries,
    ← isKept_iff hr.has hshort]
  constructor
  · intro h
    have hgets := fun e he => (hfield e he).1 (h e he)
    have hkept := fun e he => (hgets e he).1
    exact ⟨hkept, fun e he => (hgets e he).2.1,
      fun e he hnil => (lookup_keptEntries_eq_none hplain hr hkept _).1 ((hgets e he).2.2 hnil)⟩
  · rintro ⟨hkept, hfilled, hapart⟩ e he
    exact (hfield e he).2 ⟨hkept e he, hfilled e he,
      fun hnil => (lookup_keptEntries_eq_none hplain hr hkept _).2 (hapart e he hnil)⟩

end Record

end Wadl
