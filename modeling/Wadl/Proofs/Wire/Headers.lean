import Wadl.Proofs.Tables
import Wadl.Proofs.Wire.Urls

/-!
# Headers of a request

The headers of a request are those of the values that are given (`NamedValues.headers`), and then
the media types that are asked for and that of the body (`mediaHeaders`). Setting a header replaces
the one of the same spelling (`Headers.lookup_set`), but a header is found whatever the letter case
of its name. So all values reach the wire unless one of them has a name of the latter in any
spelling (`headers_carried_iff`).
-/

namespace Wadl

/-! ## The text of a header -/

/-- The text of a header: the texts of its values, with commas between them. -/
def Value.headerLine (v : Value) : String := ", ".intercalate (v.items.map Value.written)

/-- All values of a header have a text. -/
def Value.HasHeaderLine (v : Value) : Prop := ∀ x ∈ v.items, x.wireText?.isSome

instance (v : Value) : Decidable v.HasHeaderLine :=
  inferInstanceAs (Decidable (∀ x ∈ v.items, x.wireText?.isSome))

theorem mapM_wireText_ok {vs : List Value} {texts : List String} :
    vs.mapM wireText = .ok texts ↔ (∀ v ∈ vs, v.wireText?.isSome) ∧ vs.map Value.written = texts :=
  Result.mapM_ok_iff fun _ _ _ => wireText_ok

/-- A header has a text if its values have. -/
theorem headerText_ok {v : Value} {s : String} :
    headerText v = .ok s ↔ v.HasHeaderLine ∧ v.headerLine = s := by
  have hitems : ∀ vs : List Value, (do return ", ".intercalate (← vs.mapM wireText)) = Except.ok s ↔
      (∀ x ∈ vs, x.wireText?.isSome) ∧ ", ".intercalate (vs.map Value.written) = s := by
    intro vs
    simp only [Result.bind_ok, mapM_wireText_ok, Result.pure_ok]
    constructor
    · rintro ⟨texts, ⟨hall, rfl⟩, hs⟩
      exact ⟨hall, hs⟩
    · rintro ⟨hall, hs⟩
      exact ⟨_, ⟨hall, rfl⟩, hs⟩
  fun_cases headerText v with
  | case1 vs => exact hitems vs
  | case2 vs => exact hitems vs
  | case3 v hlist htuple =>
    rw [wireText_ok, Value.HasHeaderLine, Value.headerLine, Value.items.eq_3 v hlist htuple]
    simp

/-! ## Setting headers -/

namespace Headers

variable {headers more : Headers} {name value n : String}

theorem any_name_iff : headers.any (·.1 = name) = true ↔ name ∈ headers.map (·.1) := by simp

theorem lookup_of_notMem (h : n ∉ headers.map (·.1)) : headers.lookup n = none :=
  Option.eq_none_iff_forall_ne_some.2 fun v hv => h (mem_keys_of_lookup.2 ⟨v, hv⟩)

/-- A header that is replaced has the new value, and the others keep theirs. -/
theorem lookup_replace : (headers.map fun h => if h.1 = name then (name, value) else h).lookup n =
    if n = name then (headers.lookup n).map fun _ => value else headers.lookup n := by
  induction headers with
  | nil => simp
  | cons h rest ih =>
    rw [List.map_cons, List.lookup_cons, List.lookup_cons, ih]
    by_cases hh : h.1 = name
    · by_cases hn : n = name
      · simp [hh, hn]
      · rw [if_pos hh, hh, beq_eq_false_iff_ne.2 hn, if_neg hn]
    · by_cases hn : n = h.1
      · simp [hh, hn]
      · rw [if_neg hh, beq_eq_false_iff_ne.2 hn]

/-- A header that is set has its value, and the others keep theirs. -/
theorem lookup_set :
    (headers.set name value).lookup n = if n = name then some value else headers.lookup n := by
  unfold set
  split
  · rename_i hany
    obtain ⟨old, hold⟩ := mem_keys_of_lookup.1 (any_name_iff.1 hany)
    rw [lookup_replace]
    split
    · rename_i hn
      rw [hn, hold, Option.map_some]
    · rfl
  · rename_i hany
    rw [List.lookup_append]
    split
    · rename_i hn
      have hnone := lookup_of_notMem fun hmem => hany (any_name_iff.2 hmem)
      rw [hn, hnone, List.lookup_cons, beq_self_eq_true, Option.none_or]
    · rename_i hn
      rw [List.lookup_cons, beq_eq_false_iff_ne.2 hn, List.lookup_nil, Option.or_none]

/-- The names of headers stay in their order, and a name that is new comes last. -/
theorem names_set : (headers.set name value).map (·.1) =
    headers.map (·.1) ++ if name ∈ headers.map (·.1) then [] else [name] := by
  unfold set
  simp only [any_name_iff]
  split
  · rw [List.append_nil, List.map_map]
    refine List.map_congr_left fun h _ => ?_
    rw [Function.comp_apply]
    split
    · rename_i heq
      exact heq.symm
    · rfl
  · rw [List.map_append, List.map_singleton]

/-- Headers in which others are set, one after another. -/
def setAll (headers more : Headers) : Headers :=
  more.foldl (fun headers h => headers.set h.1 h.2) headers

/-- Headers that are set come before those that were there. -/
theorem lookup_setAll (hmore : (more.map (·.1)).Nodup) :
    (headers.setAll more).lookup n = (more.lookup n).or (headers.lookup n) := by
  induction more generalizing headers with
  | nil => rfl
  | cons h more ih =>
    obtain ⟨hnew, hmore⟩ := List.nodup_cons.1 hmore
    rw [setAll, List.foldl_cons, ← setAll, ih hmore, lookup_set, List.lookup_cons]
    by_cases hn : n = h.1
    · rw [hn, lookup_of_notMem hnew, if_pos rfl, beq_self_eq_true, Option.none_or, Option.some_or]
    · rw [if_neg hn, beq_eq_false_iff_ne.2 hn]

theorem nodup_setAll (h : (headers.map (·.1)).Nodup) : ((headers.setAll more).map (·.1)).Nodup := by
  induction more generalizing headers with
  | nil => exact h
  | cons x more ih =>
    refine ih ?_
    rw [names_set]
    split
    · rwa [List.append_nil]
    · rename_i hnew
      exact List.nodup_append.2 ⟨h, List.nodup_singleton _, fun y hy z hz => by grind⟩

theorem mem_names_setAll :
    n ∈ (headers.setAll more).map (·.1) ↔ n ∈ headers.map (·.1) ∨ n ∈ more.map (·.1) := by
  induction more generalizing headers with
  | nil => simp [setAll]
  | cons x more ih =>
    rw [setAll, List.foldl_cons, ← setAll, ih, names_set]
    grind

end Headers

/-! ## The headers of values -/

/-- The headers of the values that are given. -/
def NamedValues.headers (values : NamedValues) : Headers :=
  (values.filter (!·.2.isNone)).map fun p => (p.1, p.2.headerLine)

/-- The headers that a request has besides: the media types that are asked for, and that of the
body. -/
def mediaHeaders (accept : List String) (contentType : Option String) : Headers :=
  (if accept.isEmpty then [] else [("Accept", ", ".intercalate accept)]) ++
    (contentType.filter (!·.isEmpty)).toList.map ("Content-Type", ·)

/-- Values whose names differ get their headers one after another. -/
theorem valueHeaders_of_texts {headers : Headers} {values : NamedValues}
    (hnodup : (headers.map (·.1) ++ values.map (·.1)).Nodup)
    (htexts : ∀ p ∈ values, p.2.HasHeaderLine) :
    valueHeaders headers values = .ok (headers ++ values.headers) := by
  induction values generalizing headers with
  | nil => rw [valueHeaders, NamedValues.headers, List.filter_nil, List.map_nil, List.append_nil]
  | cons p rest ih =>
    obtain ⟨name, v⟩ := p
    obtain ⟨hv, hrest⟩ := List.forall_mem_cons.1 htexts
    rw [valueHeaders, NamedValues.headers]
    split
    · rename_i hnone
      rw [List.filter_cons_of_neg (by simpa using hnone), ← NamedValues.headers]
      exact ih (hnodup.sublist (by simp)) hrest
    · rename_i hgiven
      have hnew : name ∉ headers.map (·.1) := fun hmem =>
        (List.nodup_append.1 hnodup).2.2 name hmem name (by simp) rfl
      rw [List.filter_cons_of_pos (by simpa using hgiven), List.map_cons, ← NamedValues.headers]
      refine Result.bind_ok.2 ⟨v.headerLine, headerText_ok.2 ⟨hv, rfl⟩, ?_⟩
      rw [Headers.set, if_neg (by rwa [Headers.any_name_iff]), ih _ hrest, List.append_assoc,
        List.singleton_append]
      simpa using hnodup

theorem texts_of_valueHeaders {headers hs : Headers} {values : NamedValues}
    (h : valueHeaders headers values = .ok hs) : ∀ p ∈ values, p.2.HasHeaderLine := by
  induction values generalizing headers with
  | nil => simp
  | cons p rest ih =>
    obtain ⟨name, v⟩ := p
    rw [valueHeaders] at h
    split at h
    · rename_i hnone
      refine List.forall_mem_cons.2 ⟨?_, ih h⟩
      cases v <;> cases hnone
      exact List.forall_mem_singleton.2 rfl
    · obtain ⟨text, htext, h⟩ := Result.bind_ok.1 h
      exact List.forall_mem_cons.2 ⟨(headerText_ok.1 htext).1, ih h⟩

theorem buildHeaders_ok {values : NamedValues} {accept : List String}
    {contentType : Option String} {hs : Headers} : buildHeaders values accept contentType = .ok hs ↔
      ∃ given, valueHeaders [] values = .ok given ∧
        given.setAll (mediaHeaders accept contentType) = hs := by
  rw [buildHeaders, Result.bind_ok]
  refine exists_congr fun given => and_congr_right fun _ => ?_
  cases contentType with
  | none =>
    cases haccept : accept.isEmpty <;> simp [mediaHeaders, Headers.setAll, haccept, Result.pure_ok]
  | some t =>
    cases haccept : accept.isEmpty <;> cases ht : t.isEmpty <;>
      simp [mediaHeaders, Headers.setAll, haccept, ht, Result.pure_ok, Option.filter]

/-! ## What reaches the wire -/

/-- Headers carry others: each of these stands under its name, and no two names are equal whatever
their letter case. -/
structure Headers.Carry (hs given : Headers) : Prop where
  carried : ∀ h ∈ given, hs.lookup h.1 = some h.2
  distinct : (hs.map fun h => Case.lower h.1).Nodup

/-- Names that differ whatever their letter case differ. -/
theorem nodup_names {β : Type} {table : List (String × β)}
    (h : (table.map fun x => Case.lower x.1).Nodup) : (table.map (·.1)).Nodup :=
  List.Nodup.of_map Case.lower (by rwa [List.map_map])

/-- Headers in which others are set carry both just if each of the one kind that has the name of one
of the other, whatever its letter case, is the same header. -/
theorem Headers.carry_setAll_iff {given media : Headers}
    (hgiven : (given.map fun h => Case.lower h.1).Nodup)
    (hmedia : (media.map fun h => Case.lower h.1).Nodup) :
    (given.setAll media).Carry given ↔ ∀ g ∈ media, ∀ h ∈ given,
      Case.lower h.1 = Case.lower g.1 → h = g := by
  have hlookup : ∀ name,
      (given.setAll media).lookup name = (media.lookup name).or (given.lookup name) :=
    fun name => lookup_setAll (nodup_names hmedia)
  -- the names differ already, so that only spellings of one name can clash
  have hdistinct : ((given.setAll media).map fun h => Case.lower h.1).Nodup ↔
      ∀ x ∈ (given.setAll media).map (·.1), ∀ y ∈ (given.setAll media).map (·.1),
        Case.lower x = Case.lower y → x = y := by
    rw [← List.nodup_map_iff_inj_on (nodup_setAll (nodup_names hgiven)), List.map_map]
    rfl
  have hspelled : ∀ {hs : Headers}, (hs.map fun h => Case.lower h.1).Nodup → ∀ x ∈ hs, ∀ y ∈ hs,
      Case.lower x.1 = Case.lower y.1 → x = y :=
        fun h x hx y hy heq => List.inj_on_of_nodup_map h hx hy heq
  constructor
  · intro hcarry g hg h hh hlower
    have hname : h.1 = g.1 := hdistinct.1 hcarry.distinct h.1
      (mem_names_setAll.2 (.inl (List.mem_map_of_mem hh))) g.1
      (mem_names_setAll.2 (.inr (List.mem_map_of_mem hg))) hlower
    have hvalue := hcarry.carried h hh
    rw [hlookup, hname, lookup_of_mem (nodup_names hmedia) hg, Option.some_or] at hvalue
    exact Prod.ext hname (Option.some.inj hvalue).symm
  · intro hsame
    refine ⟨fun h hh => ?_, hdistinct.2 fun x hx y hy hlower => ?_⟩
    · rw [hlookup]
      cases hg : media.lookup h.1 with
      | none => rw [Option.none_or, lookup_of_mem (nodup_names hgiven) hh]
      | some v => rw [Option.some_or, hsame (h.1, v) (mem_of_lookup hg) h hh rfl]
    · rcases mem_names_setAll.1 hx with hx | hx <;> rcases mem_names_setAll.1 hy with hy | hy <;>
        obtain ⟨h, hh, rfl⟩ := List.mem_map.1 hx <;> obtain ⟨g, hg, rfl⟩ := List.mem_map.1 hy
      · rw [hspelled hgiven h hh g hg hlower]
      · rw [hsame g hg h hh hlower]
      · rw [hsame h hh g hg hlower.symm]
      · rw [hspelled hmedia h hh g hg hlower]

/-- The media types of a request have two different names. -/
theorem mediaHeaders_distinct (accept : List String) (contentType : Option String) :
    ((mediaHeaders accept contentType).map fun h => Case.lower h.1).Nodup := by
  have hne : Case.lower "Accept" ≠ Case.lower "Content-Type" := by decide
  rw [mediaHeaders]
  cases contentType.filter (!·.isEmpty) <;> split <;> simp [hne]

/-- The headers of a request whose values have different names are those of the values, in which
those of the media types are set. -/
theorem buildHeaders_eq {values : NamedValues} (hnames : (values.map (·.1)).Nodup)
    {accept : List String} {contentType : Option String} {hs : Headers} :
    buildHeaders values accept contentType = .ok hs ↔
      (∀ p ∈ values, p.2.HasHeaderLine) ∧
        values.headers.setAll (mediaHeaders accept contentType) = hs := by
  have hgiven : (∀ p ∈ values, p.2.HasHeaderLine) → valueHeaders [] values = .ok values.headers :=
    fun htexts => valueHeaders_of_texts hnames htexts
  rw [buildHeaders_ok]
  constructor
  · rintro ⟨given, hvalues, rfl⟩
    have htexts := texts_of_valueHeaders hvalues
    rw [hgiven htexts] at hvalues
    rw [Except.ok.inj hvalues]
    exact ⟨htexts, rfl⟩
  · rintro ⟨htexts, rfl⟩
    exact ⟨_, hgiven htexts, rfl⟩

/-- The headers of a request can be built if all values have texts. They are those of the values and
of the media types, and a media type replaces a value of the same spelling. So they carry all
values, under names that differ whatever their letter case, just if each value that has the name of
a media type is the same header. -/
theorem headers_carried_iff {values : NamedValues}
    (hnames : (values.map fun p => Case.lower p.1).Nodup) (accept : List String)
    (contentType : Option String) :
    ((∃ hs, buildHeaders values accept contentType = .ok hs) ↔ ∀ p ∈ values, p.2.HasHeaderLine) ∧
    ∀ hs, buildHeaders values accept contentType = .ok hs →
      (∀ name, hs.lookup name =
        ((mediaHeaders accept contentType).lookup name).or (values.headers.lookup name)) ∧
      (hs.Carry values.headers ↔ ∀ g ∈ mediaHeaders accept contentType, ∀ h ∈ values.headers,
        Case.lower h.1 = Case.lower g.1 → h = g) := by
  have hgiven : (values.headers.map fun h => Case.lower h.1).Nodup := by
    refine hnames.sublist ?_
    rw [NamedValues.headers, List.map_map]
    exact List.filter_sublist.map _
  have hmedia := mediaHeaders_distinct accept contentType
  simp only [buildHeaders_eq (nodup_names hnames)]
  refine ⟨⟨fun ⟨_, htexts, _⟩ => htexts, fun htexts => ⟨_, htexts, rfl⟩⟩, ?_⟩
  rintro hs ⟨-, rfl⟩
  exact ⟨fun name => Headers.lookup_setAll (nodup_names hmedia),
    Headers.carry_setAll_iff hgiven hmedia⟩

/-- Values for which a list of media types is asked for besides. -/
def spelledHeaders : NamedValues :=
  [("X-Tags", .list [.text "a", .int 1]), ("accept", .text "text/plain"), ("X-Unset", .none)]

theorem headers_carried_iff_spelled :
    (spelledHeaders.map fun p => Case.lower p.1).Nodup ∧
      (∃ hs, buildHeaders spelledHeaders ["application/json"] none = .ok hs ∧
        hs.lookup "Accept" = some "application/json" ∧ ¬hs.Carry spelledHeaders.headers) ∧
      ∃ hs, buildHeaders spelledHeaders [] (some "text/plain") = .ok hs ∧
        hs.lookup "X-Tags" = some "a, 1" ∧ hs.Carry spelledHeaders.headers := by
  have hnames : (spelledHeaders.map fun p => Case.lower p.1).Nodup := by decide
  have htexts : ∀ p ∈ spelledHeaders, p.2.HasHeaderLine := by decide
  refine ⟨hnames, ?_, ?_⟩
  · obtain ⟨hbuilt, hcarried⟩ := headers_carried_iff hnames ["application/json"] none
    obtain ⟨hs, h⟩ := hbuilt.2 htexts
    obtain ⟨hlookup, hiff⟩ := hcarried hs h
    refine ⟨hs, h, (hlookup "Accept").trans rfl, fun hcarry => ?_⟩
    have hsame :=
      hiff.1 hcarry ("Accept", "application/json") (by decide) ("accept", "text/plain") (by decide)
      (by decide)
    exact absurd hsame (by decide)
  · obtain ⟨hbuilt, hcarried⟩ := headers_carried_iff hnames [] (some "text/plain")
    obtain ⟨hs, h⟩ := hbuilt.2 htexts
    obtain ⟨hlookup, hiff⟩ := hcarried hs h
    exact ⟨hs, h, (hlookup "X-Tags").trans (by decide), hiff.2 (by decide)⟩

end Wadl
