import Wadl.Proofs.Wire.Fields
import Wadl.Proofs.Wire.Templates

/-!
# URLs read back

A URL is built from parts that are encoded so that none of them holds the marks that stand between
them: a value in the path holds no slash, a segment of the matrix parameters no semicolon and just
one equals sign, a pair of the query no ampersand. So each mark of a built URL stands where the URL,
the names and the number of the values put it (`piecesAt_fillWith`), and what is cut there is read
back (`readSegment_of_written`).
-/

namespace Wadl

/-! ## Items of parameters -/

namespace NamedValues

/-- The values that parameters are sent with, each with the name of its parameter. -/
def items (values : NamedValues) : List (String × Value) :=
  values.flatMap fun p => p.2.items.map (p.1, ·)

theorem mem_items {values : NamedValues} {name : String} {v : Value} :
    (name, v) ∈ values.items ↔ ∃ given, (name, given) ∈ values ∧ v ∈ given.items := by
  simp [items]

/-- The values that parameters are sent with have a text. -/
def ItemsHaveTexts (values : NamedValues) : Prop := ∀ p ∈ values.items, p.2.wireText?.isSome

end NamedValues

/-- A loop over the values of parameters goes through just if it does so on each of them. -/
theorem mapM_items_ok {ε β : Type} {values : NamedValues} (chosen : Value → List Value)
    {f : String × Value → Except ε β} {g : String × Value → β}
    {P : String × Value → Prop} {found : List β} (h : ∀ p y, f p = .ok y ↔ P p ∧ g p = y) :
    (do return (← values.mapM fun p => (chosen p.2).mapM fun v => f (p.1, v)).flatten : Except ε
      (List β)) =
        .ok found ↔
      (∀ p ∈ values.flatMap fun p => (chosen p.2).map (p.1, ·), P p) ∧
        (values.flatMap fun p => (chosen p.2).map (p.1, ·)).map g = found := by
  have hinner : ∀ p ∈ values, ∀ ys, (chosen p.2).mapM (fun v => f (p.1, v)) = .ok ys ↔
      (∀ v ∈ chosen p.2, P (p.1, v)) ∧ (chosen p.2).map (fun v => g (p.1, v)) = ys :=
    fun p _ ys => Result.mapM_ok_iff fun v _ y => h (p.1, v) y
  rw [Result.bind_ok]
  simp only [Result.mapM_ok_iff hinner, Result.pure_ok, and_assoc, exists_and_left, exists_eq_left']
  refine and_congr ?_ ?_
  · constructor
    · intro hall p hp
      obtain ⟨given, hgiven, hp⟩ := List.mem_flatMap.1 hp
      obtain ⟨v, hv, rfl⟩ := List.mem_map.1 hp
      exact hall given hgiven v hv
    · exact fun hall p hp v hv => hall _ (List.mem_flatMap.2 ⟨p, hp, List.mem_map_of_mem hv⟩)
  · rw [List.map_flatMap, List.flatMap_def]
    simp only [List.map_map]
    rfl

/-! ## Matrix parameters -/

/-- What the segment for a value of a matrix parameter says, if there is one: the name of the
parameter, with the text of the value unless it is a truth. -/
def matrixReading? : String × Value → Option (String × Option String)
  | (_, .none) => none
  | (_, .bool false) => none
  | (name, .bool true) => some (name, none)
  | (name, v) => some (name, some v.written)

/-- A name, with a text if there is one, as a segment. -/
def segmentText : String × Option String → String
  | (name, none) => pathEncoded name
  | (name, some text) => pathEncoded name ++ "=" ++ percentEncoded text

/-- A segment as a name, with a text if an equals sign follows the name. -/
def readSegment (segment : String) : String × Option String :=
  if segment.contains '=' then
    let (name, text) := cutAt '=' segment
    (percentDecoded name, some (percentDecoded text))
  else (percentDecoded segment, none)

/-- The segments that are written for matrix parameters. -/
def segmentTexts (matrix : NamedValues) : List String :=
  (matrix.items.filterMap matrixReading?).map segmentText

section Matrix

variable {matrix : NamedValues}

/-- A segment is read as what it was written for. -/
theorem readSegment_segmentText : ∀ r, readSegment (segmentText r) = r
  | (name, none) => by
    have hname : '=' ∉ (pathEncoded name).toList := fun h => absurd (mem_pathEncoded h) (by decide)
    rw [segmentText, readSegment, if_neg (by simpa using hname), percentDecoded_pathEncoded]
  | (name, some text) => by
    have hname : '=' ∉ (pathEncoded name).toList := fun h => absurd (mem_pathEncoded h) (by decide)
    have hcut : cutAt '=' (pathEncoded name ++ "=" ++ percentEncoded text) =
        (pathEncoded name, percentEncoded text) := cutAt_append hname
    rw [segmentText, readSegment, if_pos (by simp), hcut]
    simp only [percentDecoded_pathEncoded, percentDecoded_percentEncoded]

/-- A segment holds none of the marks that end one. -/
theorem mem_segmentText {c : Char} {r : String × Option String} (h : c ∈ (segmentText r).toList) :
    isPathSafe c = true ∨ c = '%' ∨ c = '=' := by
  obtain ⟨name, _ | text⟩ := r
  · exact (mem_pathEncoded h).imp_right Or.inl
  · rw [segmentText, String.toList_append, String.toList_append, List.mem_append,
      List.mem_append] at h
    rcases h with (h | h) | h
    · exact (mem_pathEncoded h).imp_right Or.inl
    · exact Or.inr (Or.inr (List.mem_singleton.1 h))
    · rcases mem_percentEncoded h with h | h
      · refine Or.inl ?_
        rw [isPathSafe, h, Bool.true_or]
      · exact Or.inr (Or.inl h)

theorem matrixItem_ok (p : String × Value) (text : String) : matrixItem p.1 p.2 = .ok text ↔
    p.2.wireText?.isSome ∧
    ((matrixReading? p).map fun r => ";" ++ segmentText r).getD "" = text := by
  fun_cases matrixReading? p with
  | case1 => simp [matrixItem, Value.wireText?, Value.plain, Value.plainText?, Value.allWritable]
  | case2 => simp [matrixItem, Value.wireText?, Value.plain, Value.plainText?]
  | case3 => simp [matrixItem, Value.wireText?, Value.plain, Value.plainText?, segmentText]
  | case4 name v hnone hfalse htrue =>
    have hbool : ∀ b, v ≠ .bool b := by
      rintro (_ | _) heq
      · exact hfalse heq
      · exact htrue heq
    rw [matrixItem.eq_3 name v hnone hbool, Result.bind_ok]
    simp only [wireText_ok, Result.pure_ok, and_assoc, exists_and_left,
      exists_eq_left', segmentText, Option.map_some, Option.getD_some, String.append_assoc]

/-- The matrix parameters are written as segments, with a semicolon before each. -/
theorem matrixText_ok {text : String} : matrixText matrix = .ok text ↔ matrix.ItemsHaveTexts ∧
    String.join (matrix.items.map fun p =>
      ((matrixReading? p).map fun r => ";" ++ segmentText r).getD "") = text := by
  have hjoin : matrixText matrix = String.join <$> (do return (← matrix.mapM fun p =>
      p.2.items.mapM fun v => matrixItem p.1 v).flatten : Except WireError (List String)) := by
    rw [map_bind]
    rfl
  rw [hjoin, Result.map_ok]
  simp only [mapM_items_ok Value.items (f := fun p => matrixItem p.1 p.2) matrixItem_ok,
    and_assoc, exists_and_left, exists_eq_left']
  rfl

theorem toList_matrixText : (String.join (matrix.items.map fun p =>
    ((matrixReading? p).map fun r => ";" ++ segmentText r).getD "")).toList =
      (segmentTexts matrix).flatMap fun segment => ';' :: segment.toList := by
  rw [String.toList_join, List.flatMap_map, segmentTexts, List.flatMap_map,
    List.filterMap_eq_flatMap_toList, List.flatMap_assoc]
  refine List.flatMap_congr fun p _ => ?_
  cases matrixReading? p with
  | none => rfl
  | some r => simp

end Matrix

/-! ## Query parameters -/

/-- The pairs that the query parameters are sent as. -/
def queryReading (query : NamedValues) : List (String × String) :=
  (query.items.filter fun p => !p.2.isNone).map fun p => (p.1, p.2.written)

theorem queryPairs_ok {query : NamedValues} {pairs : List (String × String)} :
    queryPairs query = .ok pairs ↔ query.ItemsHaveTexts ∧ queryReading query = pairs := by
  have hchosen : (query.flatMap fun p => (p.2.items.filter (!·.isNone)).map (p.1, ·)) =
      query.items.filter fun p => !p.2.isNone := by
    rw [NamedValues.items, List.filter_flatMap]
    refine List.flatMap_congr fun p _ => ?_
    rw [List.filter_map]
    rfl
  have hpair : ∀ (p pair : String × _),
      (do return (p.1, ← wireText p.2) : Except WireError (String × String)) =
      .ok pair ↔ p.2.wireText?.isSome ∧ (p.1, p.2.written) = pair := by
    intro p pair
    rw [Result.bind_ok]
    simp only [wireText_ok, Result.pure_ok, and_assoc, exists_and_left, exists_eq_left']
  have htexts : (∀ p ∈ query.items.filter fun p => !p.2.isNone, p.2.wireText?.isSome) ↔
      query.ItemsHaveTexts := by
    refine ⟨fun hall p hp => ?_, fun hall p hp => hall p (List.mem_of_mem_filter hp)⟩
    cases hnone : p.2.isNone with
    | false => exact hall p (List.mem_filter.2 ⟨hp, by simp [hnone]⟩)
    | true =>
      obtain ⟨name, v⟩ := p
      cases v <;> first | rfl | cases hnone
  rw [queryReading, ← htexts, ← hchosen]
  exact mapM_items_ok (fun v => v.items.filter (!·.isNone)) hpair

theorem queryReading_ne_nil {query : NamedValues} :
    queryReading query ≠ [] ↔ ∃ p ∈ query.items, p.2.isNone = false := by
  rw [queryReading, ne_eq, List.map_eq_nil_iff, List.filter_eq_nil_iff]
  simp

/-- A URL before its query, with pairs as its query if there are any. -/
def withQuery (left : String) (pairs : List (String × String)) : String :=
  if pairs.isEmpty then left else left ++ "?" ++ formEncoded pairs

section Query

variable {left : String} {pairs : List (String × String)}

theorem cutAt_withQuery (h : '?' ∉ left.toList) :
    cutAt '?' (withQuery left pairs) = (left, formEncoded pairs) := by
  rw [withQuery]
  cases pairs with
  | nil => exact cutAt_of_notMem h
  | cons p ps => exact cutAt_append h

theorem mem_withQuery (h : '?' ∉ left.toList) :
    '?' ∈ (withQuery left pairs).toList ↔ pairs ≠ [] := by
  rw [withQuery]
  cases pairs with
  | nil => exact iff_of_false h (not_not_intro rfl)
  | cons p ps => simp

end Query

/-! ## Path segments -/

open TemplatePart NamedValues

/-- The parts that a part of a URL is read as once the placeholders without a value stand as they
are. -/
def TemplatePart.openedBy (given : String → Bool) : TemplatePart → List TemplatePart
  | char c => [char c]
  | placeholder name => if given name then [placeholder name] else (placeholder name).text.map char

/-- The segments of the path of a URL in which the placeholders of some names are given a value. -/
def urlSegments (given : String → Bool) (url : String) : List (List TemplatePart) :=
  ((templateParts url).flatMap (openedBy given)).splitOnP (· == char '/')

/-- A segment of a path as it is filled. -/
def filledSegment (text? : String → Option String) (parts : List TemplatePart) : String :=
  String.ofList (parts.flatMap (filledBy text?))

section Path

variable {text? : String → Option String} {given : String → Bool}

/-- Filled parts are cut at their own slashes only, if no slash is filled in. -/
theorem pieces_flatMap_filledBy : ∀ {parts : List TemplatePart},
    (∀ name, placeholder name ∈ parts → '/' ∉ filledBy text? (placeholder name)) →
      Text.pieces (· == '/') (parts.flatMap (filledBy text?)) =
        (parts.splitOnP (· == char '/')).map (·.flatMap (filledBy text?))
  | [], _ => by
    rw [List.splitOnP_nil]
    rfl
  | part :: parts, h => by
    have ih := pieces_flatMap_filledBy fun name hname => h name (List.mem_cons_of_mem part hname)
    rw [List.splitOnP_cons_eq_if_modifyHead, List.flatMap_cons]
    by_cases hslash : part = char '/'
    · rw [hslash, if_pos (beq_self_eq_true _), List.map_cons, ← ih]
      rfl
    · have hplain : ∀ c ∈ filledBy text? part, (c == '/') = false := by
        intro c hc
        rw [beq_eq_false_iff_ne]
        rintro rfl
        cases part with
        | char d => exact hslash (congrArg char (List.mem_singleton.1 hc).symm)
        | placeholder name => exact h name List.mem_cons_self hc
      rw [if_neg (by simpa using hslash), Text.pieces_append_noCut _ hplain, ih]
      obtain ⟨v, vs, hvs⟩ := List.exists_cons_of_ne_nil (List.splitOnP_ne_nil (· == char '/') parts)
      rw [hvs]
      rfl

/-- The segments of a filled path are those of the URL, each filled by itself. -/
theorem piecesAt_fillWith {url : String}
    (hgiven : ∀ name ∈ placeholdersOf url, given name = (text? name).isSome)
    (htext : ∀ name s, text? name = some s → '/' ∉ s.toList) :
    piecesAt '/' (fillWith text? url) = (urlSegments given url).map (filledSegment text?) := by
  have hopened : (templateParts url).flatMap (filledBy text?) =
      ((templateParts url).flatMap (openedBy given)).flatMap (filledBy text?) := by
    rw [List.flatMap_assoc]
    refine List.flatMap_congr fun part hpart => ?_
    cases part with
    | char c => rfl
    | placeholder name =>
      rw [openedBy, hgiven name (mem_placeholdersOf.2 hpart)]
      cases h : text? name with
      | none => simp [filledBy, h, flatMap_filledBy_chars]
      | some s => simp
  have hplain : ∀ name, placeholder name ∈ (templateParts url).flatMap (openedBy given) →
      '/' ∉ filledBy text? (placeholder name) := by
    intro name hname
    obtain ⟨part, hmem, hpart⟩ := List.mem_flatMap.1 hname
    have hsome : (text? name).isSome := by
      cases part with
      | char c => simp [openedBy] at hpart
      | placeholder other =>
        rw [openedBy] at hpart
        split at hpart
        · rename_i h
          obtain rfl := placeholder.inj (List.mem_singleton.1 hpart)
          rwa [← hgiven name (mem_placeholdersOf.2 hmem)]
        · simp at hpart
    obtain ⟨s, hs⟩ := Option.isSome_iff_exists.1 hsome
    rw [filledBy, hs]
    exact htext name s hs
  rw [piecesAt, toList_fillWith, hopened, pieces_flatMap_filledBy hplain, List.map_map]
  rfl

end Path

/-! ## Built URLs -/

section Built

variable {url : String} {template matrix query : NamedValues}

/-- A mark that does not stand in a URL does not stand in the filled one either. -/
theorem notMem_fillWith {c : Char} (hc : Percent.isUnreserved c = false) (hpercent : c ≠ '%')
    (hurl : c ∉ url.toList) : c ∉ (fillWith template.encodedText? url).toList := by
  intro h
  rcases mem_fillWith h with h | ⟨name, s, hs, h⟩
  · exact hurl h
  · exact notMem_encodedText hc hpercent hs h

/-- The values that a URL is built with have texts. -/
structure HaveUrlTexts (url : String) (template matrix query : NamedValues) : Prop where
  template : template.HaveTextsFor (placeholdersOf url)
  matrix : matrix.ItemsHaveTexts
  query : query.ItemsHaveTexts

/-- What stands before the query of a URL: the filled URL and the segments of the matrix
parameters. -/
theorem buildUrl_ok (hurl : '?' ∉ url.toList) : ∃ left : String,
    left.toList = (fillWith template.encodedText? url).toList ++
      (segmentTexts matrix).flatMap (fun segment => ';' :: segment.toList) ∧ '?' ∉ left.toList ∧
    ∀ built, buildUrl url template matrix query = .ok built ↔
      HaveUrlTexts url template matrix query ∧ withQuery left (queryReading query) = built := by
  let left := fillWith template.encodedText? url ++ String.join (matrix.items.map fun p =>
    ((matrixReading? p).map fun r => ";" ++ segmentText r).getD "")
  have hlist : left.toList = (fillWith template.encodedText? url).toList ++
      (segmentTexts matrix).flatMap (fun segment => ';' :: segment.toList) := by
    rw [String.toList_append, toList_matrixText]
  have hleft : '?' ∉ left.toList := by
    rw [hlist, List.mem_append, List.mem_flatMap]
    rintro (h | ⟨segment, hsegment, h⟩)
    · exact notMem_fillWith (by decide) (by decide) hurl h
    · obtain ⟨r, -, rfl⟩ := List.mem_map.1 hsegment
      exact absurd ((List.mem_cons.1 h).resolve_left (by decide))
        (fun h => absurd (mem_segmentText h) (by decide))
  have hend : ∀ pairs : List (String × String), (if pairs.isEmpty then Except.ok left
      else .ok (left ++ (if left.contains '?' then "&" else "?") ++ formEncoded pairs)) =
        Except.ok (ε := WireError) (withQuery left pairs) := by
    intro pairs
    have hcontains : left.contains '?' = false := by simpa using hleft
    rw [hcontains, if_neg Bool.false_ne_true, withQuery]
    split <;> rfl
  refine ⟨left, hlist, hleft, fun built => ⟨fun h => ?_, ?_⟩⟩
  · obtain ⟨filled, hfilled, h⟩ := Result.bind_ok.1 h
    obtain ⟨htemplate, rfl⟩ := fill_ok.1 hfilled
    obtain ⟨text, htext, h⟩ := Result.bind_ok.1 h
    obtain ⟨hmatrix, rfl⟩ := matrixText_ok.1 htext
    obtain ⟨pairs, hpairs, h⟩ := Result.bind_ok.1 h
    obtain ⟨hquery, rfl⟩ := queryPairs_ok.1 hpairs
    exact ⟨⟨htemplate, hmatrix, hquery⟩, Except.ok.inj ((hend _).symm.trans h)⟩
  · rintro ⟨⟨htemplate, hmatrix, hquery⟩, rfl⟩
    exact Result.bind_ok.2
      ⟨_, fill_ok.2 ⟨htemplate, rfl⟩, Result.bind_ok.2 ⟨_, matrixText_ok.2 ⟨hmatrix, rfl⟩,
      Result.bind_ok.2 ⟨_, queryPairs_ok.2 ⟨hquery, rfl⟩, hend _⟩⟩⟩

theorem piecesAt_left {left : String} (hurl : ';' ∉ url.toList)
    (hlist : left.toList = (fillWith template.encodedText? url).toList ++
      (segmentTexts matrix).flatMap fun segment => ';' :: segment.toList) :
    piecesAt ';' left = fillWith template.encodedText? url :: segmentTexts matrix := by
  have hfirst : ∀ c ∈ (fillWith template.encodedText? url).toList, (c == ';') = false := by
    intro c hc
    rw [beq_eq_false_iff_ne]
    rintro rfl
    exact notMem_fillWith (by decide) (by decide) hurl hc
  have hsegments : ∀ w ∈ (segmentTexts matrix).map String.toList, ∀ c ∈ w, (c == ';') = false := by
    intro w hw c hc
    obtain ⟨segment, hsegment, rfl⟩ := List.mem_map.1 hw
    obtain ⟨r, -, rfl⟩ := List.mem_map.1 hsegment
    rw [beq_eq_false_iff_ne]
    rintro rfl
    exact absurd (mem_segmentText hc) (by decide)
  have hpieces : Text.pieces (· == ';') left.toList =
      (fillWith template.encodedText? url).toList :: (segmentTexts matrix).map String.toList := by
    rw [hlist, ← List.flatMap_map]
    exact Text.pieces_append_flatMap (by decide) hfirst hsegments
  rw [piecesAt, hpieces]
  simp

/-- A URL is built from one without marks just if the values that it is built with have texts, and
it is read back: what stands before its query are the filled URL and a segment for each value of a
matrix parameter, its query is that of the pairs of the query parameters, and the path of the filled
URL has the segments of the URL, each filled by itself. -/
theorem buildUrl_read (hurl : ∀ c ∈ [';', '?', '#'], c ∉ url.toList) :
    ((∃ built, buildUrl url template matrix query = .ok built) ↔
      HaveUrlTexts url template matrix query) ∧
    ∀ built, buildUrl url template matrix query = .ok built →
      ∃ filled segments, fill url template = .ok filled ∧
        piecesAt ';' (cutAt '?' built).1 = filled :: segments ∧
        segments.map readSegment = matrix.items.filterMap matrixReading? ∧
        ('?' ∈ built.toList ↔ ∃ p ∈ query.items, p.2.isNone = false) ∧
        formPairs true (cutAt '?' built).2 = queryReading query ∧
        piecesAt '/' filled =
          (urlSegments (fun name => (template.given? name).isSome) url).map
            (filledSegment template.encodedText?) := by
  obtain ⟨left, hlist, hleft, hbuilt⟩ :=
    @buildUrl_ok url template matrix query (hurl '?' (by decide))
  refine ⟨⟨fun ⟨built, h⟩ => ((hbuilt built).1 h).1, fun h => ⟨_, (hbuilt _).2 ⟨h, rfl⟩⟩⟩,
    fun built h => ?_⟩
  obtain ⟨htexts, rfl⟩ := (hbuilt built).1 h
  refine ⟨_, segmentTexts matrix, fill_ok.2 ⟨htexts.template, rfl⟩, ?_, ?_, ?_, ?_, ?_⟩
  · rw [cutAt_withQuery hleft]
    exact piecesAt_left (hurl ';' (by decide)) hlist
  · rw [segmentTexts, List.map_map, Function.comp_def]
    simp only [readSegment_segmentText, List.map_id']
  · rw [mem_withQuery hleft, queryReading_ne_nil]
  · rw [cutAt_withQuery hleft, formPairs_formEncoded]
    simp
  · refine piecesAt_fillWith (fun name hname => ?_) fun _ _ =>
      notMem_encodedText (by decide) (by decide)
    rw [encodedText?]
    cases hgiven : template.given? name with
    | none => rfl
    | some v =>
      rw [Option.bind_some, Option.isSome_map, htexts.template name hname v hgiven,
        Option.isSome_some]

/-- Bytes that are no text have no place in a URL. -/
theorem buildUrl_undecodable :
    (∀ c ∈ [';', '?', '#'], c ∉ "http://host/a".toList) ∧
      ¬∃ built, buildUrl "http://host/a" [] [] [("q", .bytes [255])] = .ok built := by
  refine ⟨by simp, ?_⟩
  rintro ⟨built, h⟩
  have hfails : buildUrl "http://host/a" [] [] [("q", .bytes [255])] = .error .undecodable := by rfl
  cases hfails.symm.trans h

/-- Values that are made of marks stay in their places. -/
theorem buildUrl_read_marks :
    ∃ filled segments built, fill "/\x7ba\x7d/b" [("a", .text "/;?")] = .ok filled ∧
      buildUrl "/\x7ba\x7d/b" [("a", .text "/;?")] [("m", .list [.bool true, .none, .text ";="])]
        [("q", .text "&=#"), ("r", .none), ("s", .text "")] = .ok built ∧
      piecesAt ';' (cutAt '?' built).1 = filled :: segments ∧
      segments.map readSegment = [("m", none), ("m", some ";=")] ∧
      formPairs true (cutAt '?' built).2 = [("q", "&=#"), ("s", "")] ∧
      piecesAt '/' filled = ["", "%2F%3B%3F", "b"] := by
  have hurl : ∀ c ∈ [';', '?', '#'], c ∉ "/\x7ba\x7d/b".toList := by simp
  have htemplate : HaveTexts [("a", .text "/;?")] := haveTexts_of_forall (by decide)
  have hmatrix : ItemsHaveTexts [("m", .list [.bool true, .none, .text ";="])] := by
    unfold ItemsHaveTexts
    decide
  have hquery : ItemsHaveTexts [("q", .text "&=#"), ("r", .none), ("s", .text "")] := by
    unfold ItemsHaveTexts
    decide
  obtain ⟨built, hbuilt⟩ := (buildUrl_read hurl).1.2 ⟨fun name _ => htemplate name, hmatrix, hquery⟩
  obtain ⟨filled, segments, hfilled, hleft, hmatrix, -, hquery, hpath⟩ :=
    (buildUrl_read hurl).2 built hbuilt
  exact ⟨filled, segments, built, hfilled, hbuilt, hleft, hmatrix, hquery, hpath⟩

end Built

end Wadl
