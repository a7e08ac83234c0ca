import Wadl.Proofs.Tables
import Wadl.Proofs.Wire.Fields

/-!
# The models that are known here

`Models.standard` does what is documented of models (`Models.standard_documented`): whole numbers
and truths are read from what is written for them (`FieldText.integer_toString`), and a record is
made of entries if each of its values is what is read for its field (`RecordType.ofEntries_ok`).
-/

namespace Wadl

/-! ## Numbers in text -/

theorem FieldText.isWhole_toString (i : Int) : isWhole (toString i).toList = true := by
  have hdigits := Numeral.digits_toDigits i.natAbs
  have hne : Nat.toDigits 10 i.natAbs ≠ [] := Nat.toDigits_ne_nil
  have hhead := Numeral.head_toDigits (n := i.natAbs)
  rw [Numeral.toList_toString]
  generalize Nat.toDigits 10 i.natAbs = ds at hdigits hne hhead
  have hwhole : (!ds.isEmpty && ds.all CharClass.isAsciiDigit &&
      (ds.length = 1 || ds.head? != some '0')) = true := by
    have hpos : 0 < ds.length := List.length_pos_iff.2 hne
    have hlead : ds.length = 1 ∨ ds.head? ≠ some '0' := by
      by_cases hone : ds.length = 1
      · exact Or.inl hone
      · exact Or.inr (hhead (by omega))
    simpa [hne, List.all_eq_true.2 hdigits] using hlead
  unfold isWhole Numeral.signed
  cases decide (i < 0) with
  | true => exact hwhole
  | false =>
    obtain ⟨d, ds, rfl⟩ := List.exists_cons_of_ne_nil hne
    have hd : d ≠ '-' := by
      rintro rfl
      exact absurd (hdigits _ List.mem_cons_self) (by decide)
    split
    · rename_i heq
      exact absurd (List.cons.inj heq).1 hd
    · exact hwhole

/-- A whole number is read from its numeral, unless that has too many digits. -/
theorem FieldText.integer_toString (i : Int) :
    FieldText.integer (toString i) =
      if i.natAbs < 10 ^ Numeral.maxDigits then .ok i else .error .longInteger := by
  have htrim : Text.trimList isSpace (toString i).toList = (toString i).toList := by
    refine Numeral.trimList_of_forall fun c hc => ?_
    rw [isSpace, (isWord_toString i).2 c hc, Bool.false_and]
  unfold FieldText.integer
  simp only [htrim, isWhole_toString, if_true, Bool.not_true, Bool.false_eq_true, if_false,
    Numeral.integerOf_toString]
  by_cases hshort : i.natAbs < 10 ^ Numeral.maxDigits
  · rw [if_pos hshort, if_pos hshort]
  · rw [if_neg hshort, if_neg hshort]

/-! ## Values of a field -/

/-- How the models that are known here read texts. -/
def TextReading.standard : TextReading := fun type s v => type.accept (.text s) = .ok v

theorem TextReading.standard_documented : TextReading.standard.Documented where
  text := ⟨fun h => (Except.ok.inj h).symm, fun h => congrArg Except.ok h.symm⟩
  integer h := by
    obtain ⟨i, -, hi⟩ := Result.map_ok.1 h
    exact ⟨i, hi.symm⟩
  numeral {i} h := by
    show Value.int <$> FieldText.integer (toString i) = _
    rw [FieldText.integer_toString, if_pos h]
    rfl
  truth h := by
    obtain ⟨b, -, hb⟩ := Result.map_ok.1 h
    exact ⟨b, hb.symm⟩
  word b := by cases b <;> rfl
  option {options s v} := by
    show (if options.contains s then Except.ok (Value.member (.text s))
      else .error FieldFault.notAnOption) = _ ↔ _
    by_cases hs : s ∈ options
    · simp [hs, eq_comm]
    · simp [hs]

/-- The items of a list are read one by one. -/
theorem acceptItems_ok {type : FieldType} {place : String} :
    ∀ {n : Nat} {vs ws : List Value},
      acceptItems type place n vs = ([], ws) ↔ List.Forall₂ (fun v w => type.accept v = .ok w) vs ws
  | _, [], ws => by
    rw [acceptItems, Prod.mk.injEq, List.forall₂_nil_left_iff]
    simp [eq_comm]
  | n, v :: vs, ws => by
    have ih : ∀ ws, acceptItems type place (n + 1) vs = ([], ws) ↔
        List.Forall₂ (fun v w => type.accept v = .ok w) vs ws := fun _ => acceptItems_ok
    rw [acceptItems, List.forall₂_cons_left_iff]
    generalize acceptItems type place (n + 1) vs = found at ih
    obtain ⟨faults, values⟩ := found
    cases hv : type.accept v with
    | ok w =>
      simp only [Except.ok.injEq, Prod.mk.injEq]
      constructor
      · rintro ⟨rfl, rfl⟩
        exact ⟨w, values, rfl, (ih values).1 rfl, rfl⟩
      · rintro ⟨w', ws', rfl, hws, rfl⟩
        obtain ⟨rfl, rfl⟩ := Prod.mk.inj ((ih ws').2 hws)
        exact ⟨rfl, rfl⟩
    | error fault => simp

namespace FieldSpec

variable {f : FieldSpec} {v o : Value} {place : String} {entries : List (String × Value)}

theorem accept_text {s : String} :
    f.accept place (.text s) = ([], v) ↔ f.isList = false ∧ f.type.accept (.text s) = .ok v := by
  unfold accept
  cases hlist : f.isList with
  | true => simp
  | false =>
    rw [if_neg Bool.false_ne_true, if_neg (by simp [Value.isNone])]
    cases f.type.accept (.text s) <;> simp

theorem accept_list {vs : List Value} : f.accept place (.list vs) = ([], v) ↔
    f.isList = true ∧ ∃ ws,
      v = .list ws ∧ List.Forall₂ (fun v w => f.type.accept v = .ok w) vs ws := by
  cases hlist : f.isList with
  | true =>
    have haccept : f.accept place (.list vs) =
        ((acceptItems f.type place 0 vs).1, .list (acceptItems f.type place 0 vs).2) := by
      rw [accept, if_pos hlist]
    rw [haccept, Prod.mk.injEq]
    constructor
    · rintro ⟨hfaults, rfl⟩
      exact ⟨rfl, _, rfl, acceptItems_ok.1 (Prod.ext hfaults rfl)⟩
    · rintro ⟨-, ws, rfl, hws⟩
      rw [acceptItems_ok.2 hws]
      exact ⟨rfl, rfl⟩
  | false =>
    -- no type takes a list for a single value
    have herror : ∃ fault, f.type.accept (.list vs) = .error fault := by
      cases f.type <;> exact ⟨_, rfl⟩
    obtain ⟨fault, hfault⟩ := herror
    unfold accept
    rw [hlist, if_neg Bool.false_ne_true, if_neg (by simp [Value.isNone]), hfault]
    simp

/-- A field takes from texts what is read of them. -/
theorem accept_ofTexts (ho : o.OfTexts) : f.accept place o = ([], v) ↔ f.Takes .standard o v := by
  cases ho with
  | text s => rw [accept_text, takes_text, TextReading.standard]
  | list texts =>
    rw [accept_list, takes_list]
    simp only [List.forall₂_map_left_iff]
    rfl

theorem mem_of_find? (h : f.find? entries = some (place, o)) : (place, o) ∈ entries := by
  unfold find? at h
  split at h
  · rename_i hkey
    obtain ⟨rfl, rfl⟩ := Prod.mk.inj (Option.some.inj h)
    exact mem_of_lookup hkey
  · obtain ⟨found, hname, heq⟩ := Option.map_eq_some_iff.1 h
    obtain ⟨rfl, rfl⟩ := Prod.mk.inj heq
    exact mem_of_lookup hname

/-- A field gets of texts what is read of them. -/
theorem read_ofTexts (htexts : ∀ e ∈ entries, e.2.OfTexts) :
    f.read entries = ([], v) ↔ f.Gets .standard entries v := by
  unfold read
  split
  · rename_i place o hfound
    rw [gets_of_found hfound, accept_ofTexts (htexts _ (mem_of_find? hfound))]
  · rename_i hfound
    rw [gets_of_not_found hfound]
    cases f.required <;> simp

end FieldSpec

/-! ## Records -/

/-- A record is made of entries if each value is what is read for its field. -/
theorem RecordType.ofEntries_ok {t : RecordType} {entries : List (String × Value)} {r : Record} :
    t.ofEntries entries = .ok r ↔
      r.type = t ∧ List.Forall₂ (fun f v => f.read entries = ([], v)) t.fields r.values := by
  have hread : ∀ {fs : List FieldSpec},
      ((fs.map (·.read entries)).map (·.1)).flatten.isEmpty = true →
      List.Forall₂ (fun f v => f.read entries = ([], v)) fs
        ((fs.map (·.read entries)).map (·.2)) := by
    intro fs h
    rw [List.map_map, List.forall₂_map_right_iff, List.forall₂_same]
    intro f hf
    rw [List.isEmpty_iff, List.flatten_eq_nil_iff] at h
    exact Prod.ext (h _ (List.mem_map_of_mem (List.mem_map_of_mem hf))) rfl
  have hfound : ∀ {fs : List FieldSpec} {vs : List Value},
      List.Forall₂ (fun f v => f.read entries = ([], v)) fs vs →
        ((fs.map (·.read entries)).map (·.1)).flatten = [] ∧
        (fs.map (·.read entries)).map (·.2) = vs := by
    intro fs vs h
    induction h with
    | nil => exact ⟨rfl, rfl⟩
    | cons hf _ ih =>
      simp only [List.map_cons, List.flatten_cons, hf]
      exact ⟨ih.1, congrArg _ ih.2⟩
  unfold ofEntries
  constructor
  · intro h
    dsimp only at h
    split at h
    · rename_i hempty
      obtain rfl := Except.ok.inj h
      exact ⟨rfl, hread hempty⟩
    · cases h
  · obtain ⟨type, values⟩ := r
    rintro ⟨rfl, h⟩
    obtain ⟨hfaults, hvalues⟩ := hfound h
    simp only [hfaults, hvalues]
    rfl

/-- The models that are known here do what is documented of models. -/
theorem Models.standard_documented : Models.standard.Documented .standard where
  texts := TextReading.standard_documented
  validate {t entries r} _ htexts := by
    show t.ofEntries entries = .ok r ↔ _
    rw [RecordType.ofEntries_ok]
    simp only [FieldSpec.read_ofTexts htexts]
  dump _ := rfl

end Wadl
