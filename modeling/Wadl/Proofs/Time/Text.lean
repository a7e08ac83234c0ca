import Wadl.Proofs.Charset.Utf8
import Wadl.Proofs.Number.Numeral
import Wadl.Time.Text

/-!
# Days and times read back

A number that is padded with zeros is read back from as many digits (`TimeText.digits_zeroPadded`),
so that a day is read back from its text (`readDate_text`). The time of a day is written in parts,
of which an offset has only those that it needs; they are read one after another
(`TimeText.parts_next`, `TimeText.parts_last`, `TimeText.parts_fraction`), and then the offset
(`TimeText.clock_text`). What is read is a day or a time that can be, so that a text that can be
read is read as the same day or time as the text of that.
-/

namespace Wadl

namespace TimeText

open Numeral

/-! ## Numbers -/

/-- Decimal digits are read one by one. -/
theorem mapM_digit? {ds : List Char} (h : Digits ds) :
    ds.mapM digit? = some (ds.map (·.toNat - 48)) := by
  induction ds with
  | nil => rfl
  | cons d ds ih =>
    obtain ⟨hd, hds⟩ := List.forall_mem_cons.1 h
    have hdigit : digit? d = some (d.toNat - 48) :=
      if_pos (by simpa [CharClass.isAsciiDigit] using hd)
    rw [List.mapM_cons, hdigit, ih hds]
    rfl

/-- As many digits as are asked for are read as the number that they write. -/
theorem digits_append {ds : List Char} (h : Digits ds) (rest : List Char) :
    digits ds.length (ds ++ rest) = some (digitsValue ds, rest) := by
  have hvalue : (ds.map (·.toNat - 48)).foldl (fun n d => 10 * n + d) 0 = digitsValue ds := by
    rw [List.foldl_map, digitsValue]
    simp only [Nat.mul_comm 10]
    rfl
  unfold digits
  rw [List.take_left, List.drop_left, mapM_digit? h]
  simp [hvalue]

/-- A number that fits is padded to exactly the width. -/
theorem zeroPadded_digits {w n : Nat} (hwidth : 0 < w) (h : n < 10 ^ w) :
    Digits (zeroPadded w n).toList ∧ (zeroPadded w n).toList.length = w ∧
      digitsValue (zeroPadded w n).toList = n := by
  have hshort : (Nat.toDigits 10 n).length ≤ w :=
    (Nat.length_toDigits_le_iff (by decide) hwidth).2 h
  have hzeros : ∀ k, digitsValue (List.replicate k '0' ++ Nat.toDigits 10 n) = n := by
    intro k
    induction k with
    | zero => exact digitsValue_toDigits n
    | succ k ih => exact ih
  rw [zeroPadded, String.toList_ofList]
  refine ⟨List.forall_mem_append.2 ⟨fun c hc => ?_, digits_toDigits n⟩, ?_, hzeros _⟩
  · rw [List.eq_of_mem_replicate hc]
    rfl
  · rw [List.length_append, List.length_replicate]
    omega

/-- A padded number of the right width is read back, whatever follows. -/
theorem digits_zeroPadded {w n : Nat} (hwidth : 0 < w) (h : n < 10 ^ w) (rest : List Char) :
    digits w ((zeroPadded w n).toList ++ rest) = some (n, rest) := by
  obtain ⟨hdigits, hlength, hvalue⟩ := zeroPadded_digits hwidth h
  have hread := digits_append hdigits rest
  rwa [hlength, hvalue] at hread

/-- What is padded begins with a digit. -/
theorem zeroPadded_cons {w n : Nat} (hwidth : 0 < w) (h : n < 10 ^ w) :
    ∃ c cs, (zeroPadded w n).toList = c :: cs ∧ CharClass.isAsciiDigit c = true := by
  obtain ⟨hdigits, hlength, -⟩ := zeroPadded_digits hwidth h
  obtain ⟨c, cs, hcs⟩ := List.exists_cons_of_length_pos (hlength ▸ hwidth)
  exact ⟨c, cs, hcs, hdigits c (hcs ▸ List.mem_cons_self)⟩

/-! ## Days -/

/-- A date is valid just if it is one of the calendar. -/
theorem isValid_iff {d : Date} :
    d.isValid = true ↔ 1 ≤ d.year ∧ d.year ≤ 9999 ∧ 1 ≤ d.month ∧ d.month ≤ 12 ∧
    1 ≤ d.day ∧ d.day ≤ Date.monthLength d.year d.month := by
  simp only [Date.isValid, Bool.and_eq_true, decide_eq_true_eq, and_assoc]

theorem monthLength_le (year month : Nat) : Date.monthLength year month ≤ 31 := by
  unfold Date.monthLength
  split
  · split <;> decide
  all_goals decide

/-- A day is read from its text; what follows it does not matter. -/
theorem date_text {d : Date} (h : d.isValid = true) (rest : List Char) :
    date (d.text.toList ++ rest) = some d := by
  obtain ⟨-, hyear, -, hmonth, -, hday⟩ := isValid_iff.1 h
  have hlength := monthLength_le d.year d.month
  have hdash : "-".toList = ['-'] := rfl
  obtain ⟨c, cs, hcs, hc⟩ := zeroPadded_cons (w := 2) (n := d.month) (by decide) (by omega)
  have hweek : c ≠ 'W' := by
    rintro rfl
    cases hc
  have hread := digits_zeroPadded (w := 2) (n := d.month) (by decide) (by omega)
    ('-' :: ((zeroPadded 2 d.day).toList ++ rest))
  rw [hcs, List.cons_append] at hread
  unfold date
  simp only [Date.text, String.toList_append, List.append_assoc, hdash, List.singleton_append]
  rw [digits_zeroPadded (by decide) (by omega), hcs]
  simp only [Option.bind_eq_bind, Option.bind_some, List.cons_append]
  split
  · rename_i hfirst
    exact absurd (List.cons.inj hfirst).1 hweek
  · rw [hread]
    simp [digits_zeroPadded (w := 2) (n := d.day) (by decide) (by omega), h]

/-! ## Parts of a time -/

variable {i n fuel : Nat} {colons : Option Bool} {p : Parts}

theorem zeroPadded_ne_nil {w : Nat} (hwidth : 0 < w) (h : n < 10 ^ w) :
    (zeroPadded w n).toList ≠ [] := by
  obtain ⟨c, cs, hcs, -⟩ := zeroPadded_cons hwidth h
  rw [hcs]
  exact List.cons_ne_nil c cs

/-- A part after which nothing stands is the last. -/
theorem parts_last (h : n < 100) :
    parts i colons p (fuel + 1) (zeroPadded 2 n).toList = some (p.set i n, false) := by
  have hread := digits_zeroPadded (w := 2) (by decide) h []
  rw [List.append_nil] at hread
  unfold parts
  rw [hread]
  rfl

/-- After a colon the next part stands, unless it is the last. -/
theorem parts_next {after : List Char} (h : n < 100) (hi : i ≠ 2)
    (hcolons : colons.getD true = true) (hafter : after ≠ []) :
    parts i colons p (fuel + 1) ((zeroPadded 2 n).toList ++ ':' :: after) =
      parts (i + 1) (some true) (p.set i n) fuel after := by
  obtain ⟨c, cs, rfl⟩ := List.exists_cons_of_ne_nil hafter
  rw [parts, digits_zeroPadded (by decide) h]
  simp [hi, hcolons]

/-- The characters of a fraction, if there is one. -/
def fractionChars (micro : Nat) : List Char :=
  if micro = 0 then [] else '.' :: (zeroPadded 6 micro).toList

/-- A fraction of six digits is read back, with nothing cut off. -/
theorem fraction_zeroPadded (h : n < 1000000) :
    fraction (zeroPadded 6 n).toList = some (n, false) := by
  obtain ⟨-, hlength, -⟩ := zeroPadded_digits (w := 6) (by decide) h
  have hread := digits_zeroPadded (w := 6) (by decide) h []
  rw [List.append_nil] at hread
  simp only [fraction, hlength, Nat.min_self, hread]
  simp

/-- The last part may have a fraction. -/
theorem parts_fraction {micro : Nat} (h : n < 100) (hmicro : micro < 1000000) (hp : p.micro = 0) :
    parts 2 (some true) p (fuel + 1) ((zeroPadded 2 n).toList ++ fractionChars micro) =
      some ({ p with second := n, micro }, false) := by
  unfold fractionChars
  split
  · rename_i hzero
    rw [List.append_nil, parts_last h, hzero, ← hp]
    rfl
  · obtain ⟨c, cs, hcs, -⟩ := zeroPadded_cons (w := 6) (by decide) hmicro
    have hread := fraction_zeroPadded hmicro
    rw [hcs] at hread
    rw [parts, digits_zeroPadded (by decide) h, hcs]
    simp [hread, Parts.set]

/-- Hours, minutes and seconds with a fraction. -/
theorem parts_seconds {hour minute second micro : Nat} (hhour : hour < 100) (hminute : minute < 100)
    (hsecond : second < 100) (hmicro : micro < 1000000) :
    parts 0 none {} 4 ((zeroPadded 2 hour).toList ++ ':' :: ((zeroPadded 2 minute).toList ++
      ':' :: ((zeroPadded 2 second).toList ++ fractionChars micro))) =
      some (⟨hour, minute, second, micro⟩, false) := by
  have hne := zeroPadded_ne_nil (w := 2) (by decide) hsecond
  rw [parts_next hhour (by decide) rfl (by simp),
    parts_next hminute (by decide) rfl (by simp [hne]), parts_fraction hsecond hmicro rfl]
  rfl

/-- Hours and minutes. -/
theorem parts_minutes {hour minute : Nat} (hhour : hour < 100) (hminute : minute < 100) :
    parts 0 none {} 4 ((zeroPadded 2 hour).toList ++ ':' :: (zeroPadded 2 minute).toList) =
      some (⟨hour, minute, 0, 0⟩, false) := by
  rw [parts_next hhour (by decide) rfl (zeroPadded_ne_nil (by decide) hminute), parts_last hminute]
  rfl

/-! ## Times -/

theorem toList_fraction (micro : Nat) :
    (if micro = 0 then "" else "." ++ zeroPadded 6 micro).toList = fractionChars micro := by
  unfold fractionChars
  split <;> simp

/-- The microseconds of the parts of an offset. -/
def Parts.micros (q : Parts) : Nat := (q.hour * 3600 + q.minute * 60 + q.second) * 1000000 + q.micro

/-- The text of an offset is a sign and the parts that it needs. -/
theorem offsetText_parts {o : Int} (hlow : -86400000000 < o) (hhigh : o < 86400000000) :
    ∃ more q, (offsetText o).toList = (if o < 0 then '-' else '+') :: more ∧
      parts 0 none {} 4 more = some (q, false) ∧ q.micros = o.natAbs := by
  have hsign : (if o < 0 then "-" else "+").toList = [if o < 0 then '-' else '+'] := by
    split <;> rfl
  have hcolon : ":".toList = [':'] := rfl
  unfold offsetText
  simp only [String.toList_append, hsign, hcolon, List.append_assoc, List.singleton_append]
  generalize hn : o.natAbs = n
  have hbound : n < 86400000000 := by omega
  by_cases hminutes : n % 60000000 = 0
  · refine ⟨_, ⟨n / 1000000 / 3600, n / 1000000 / 60 % 60, 0, 0⟩, rfl, ?_, ?_⟩
    · rw [if_pos hminutes, String.toList_empty, List.append_nil]
      exact parts_minutes (by omega) (by omega)
    · simp only [Parts.micros]
      omega
  · refine ⟨_, ⟨n / 1000000 / 3600, n / 1000000 / 60 % 60, n / 1000000 % 60, n % 1000000⟩,
      rfl, ?_, ?_⟩
    · rw [if_neg hminutes]
      simp only [String.toList_append, hcolon, List.singleton_append, toList_fraction]
      exact parts_seconds (by omega) (by omega) (by omega) (by omega)
    · simp only [Parts.micros]
      omega

/-- No digit starts an offset. -/
theorem startsOffset_of_isDigit {c : Char} (h : CharClass.isAsciiDigit c = true) :
    startsOffset c = false := by
  have hrange := CharClass.isAsciiDigit_iff.1 h
  simp only [startsOffset, Bool.or_eq_false_iff, beq_eq_false_iff_ne]
  refine ⟨⟨?_, ?_⟩, ?_⟩ <;> (rintro rfl; revert hrange; decide)

/-- So an offset is found behind the fraction and not inside of it. -/
theorem startsOffset_of_mem_fraction {micro : Nat} (h : micro < 1000000) :
    ∀ c ∈ fractionChars micro, startsOffset c = false := by
  unfold fractionChars
  split
  · simp
  · refine List.forall_mem_cons.2 ⟨by decide, fun c hc => ?_⟩
    exact startsOffset_of_isDigit ((zeroPadded_digits (w := 6) (by decide) h).1 c hc)

/-- A time of day is valid just if its parts and its offset are in range. -/
theorem isValid_clock_iff {c : Clock} :
    c.isValid = true ↔ c.hour < 24 ∧ c.minute < 60 ∧ c.second < 60 ∧
    c.micro < 1000000 ∧ ∀ o, c.offset = some o → -86400000000 < o ∧ o < 86400000000 := by
  simp only [Clock.isValid, Bool.and_eq_true, decide_eq_true_eq, and_assoc]
  cases c.offset <;> simp

/-- What stands before the mark of an offset is read as the time, and the rest as the offset. -/
theorem clock_append {time : List Char} (rest : List Char)
    (htime : ∀ d ∈ time, startsOffset d = false) (hrest : rest.takeWhile (!startsOffset ·) = []) :
    (time ++ rest).takeWhile (!startsOffset ·) = time ∧ (time ++ rest).drop time.length = rest := by
  refine ⟨?_, List.drop_left⟩
  rw [List.takeWhile_append_of_pos
    fun d hd => by rw [htime d hd, Bool.not_false], hrest, List.append_nil]

/-- The characters of a time of day before its offset. -/
def timeChars (c : Clock) : List Char :=
  (zeroPadded 2 c.hour).toList ++ ':' :: ((zeroPadded 2 c.minute).toList ++
    ':' :: ((zeroPadded 2 c.second).toList ++ fractionChars c.micro))

/-- A time of day is written as the time, then its offset if it has one. -/
theorem toList_clock (c : Clock) :
    c.text.toList = timeChars c ++ ((c.offset.map offsetText).getD "").toList := by
  have hcolon : ":".toList = [':'] := rfl
  simp only [Clock.text, String.toList_append, hcolon, toList_fraction, List.append_assoc,
    List.cons_append, List.nil_append, timeChars]

theorem startsOffset_of_mem_timeChars {c : Clock} (h : c.isValid = true) :
    ∀ d ∈ timeChars c, startsOffset d = false := by
  obtain ⟨hhour, hminute, hsecond, hmicro, -⟩ := isValid_clock_iff.1 h
  have hpadded : ∀ {n : Nat}, n < 100 → ∀ d ∈ (zeroPadded 2 n).toList, startsOffset d = false :=
    fun hn d hd => startsOffset_of_isDigit ((zeroPadded_digits (w := 2) (by decide) hn).1 d hd)
  refine List.forall_mem_append.2 ⟨hpadded (by omega), List.forall_mem_cons.2 ⟨by decide, ?_⟩⟩
  refine List.forall_mem_append.2 ⟨hpadded (by omega), List.forall_mem_cons.2 ⟨by decide, ?_⟩⟩
  exact List.forall_mem_append.2 ⟨hpadded (by omega), startsOffset_of_mem_fraction hmicro⟩

/-- The parts of a written time are read back. -/
theorem parts_timeChars {c : Clock} (h : c.isValid = true) :
    parts 0 none {} 4 (timeChars c) = some (⟨c.hour, c.minute, c.second, c.micro⟩, false) := by
  obtain ⟨hhour, hminute, hsecond, hmicro, -⟩ := isValid_clock_iff.1 h
  exact parts_seconds (by omega) (by omega) (by omega) hmicro

/-- A time of day is read from its text. -/
theorem clock_text {c : Clock} (h : c.isValid = true) : clock c.text.toList = some c := by
  obtain ⟨-, -, -, -, hoffset⟩ := isValid_clock_iff.1 h
  have htime := startsOffset_of_mem_timeChars h
  have hparts := parts_timeChars h
  unfold clock
  rw [toList_clock]
  cases ho : c.offset with
  | none =>
    obtain ⟨htake, hdrop⟩ := clock_append [] htime rfl
    have hc : (⟨c.hour, c.minute, c.second, c.micro, none⟩ : Clock) = c := by rw [← ho]
    simp only [Option.map_none, Option.getD_none, String.toList_empty, htake, hdrop, hparts]
    simp [hc, h]
  | some o =>
    obtain ⟨hlow, hhigh⟩ := hoffset o ho
    obtain ⟨more, q, hsigned, hmore, hmicros⟩ := offsetText_parts hlow hhigh
    obtain ⟨htake, hdrop⟩ := clock_append ((if o < 0 then '-' else '+') :: more) htime
      (List.takeWhile_cons_of_neg (by split <;> decide))
    have hc : (⟨c.hour, c.minute, c.second, c.micro, some o⟩ : Clock) = c := by rw [← ho]
    rw [Parts.micros] at hmicros
    simp only [Option.map_some, Option.getD_some, hsigned, htake, hdrop, hparts,
      Option.bind_eq_bind, Option.bind_some]
    by_cases hneg : o < 0
    · have habs : -(o.natAbs : Int) = o := by omega
      simp only [if_pos hneg]
      change Option.bind (parts 0 none {} 4 more) _ = _
      simp only [hmore, Option.bind_some, hmicros, habs, hc, h,
        Bool.false_eq_true, if_false, if_true]
      rfl
    · have habs : (o.natAbs : Int) = o := by omega
      simp only [if_neg hneg]
      change Option.bind (parts 0 none {} 4 more) _ = _
      have hplus : '+' ≠ '-' := by decide
      simp only [hmore, Option.bind_some, hmicros, habs, hc, h, Bool.false_eq_true,
        if_neg hplus, if_false, if_true]
      rfl

/-! ## What is read can be -/

/-- What is given after a check passes it. -/
theorem of_checked {α β : Type} {x : Option α} {f : α → β} {p : β → Bool} {b : β}
    (h : (x.bind fun a => if p (f a) = true then pure (f a) else none) = some b) : p b = true := by
  obtain ⟨a, -, ha⟩ := Option.bind_eq_some_iff.1 h
  split at ha
  · rename_i hp
    rwa [← Option.some.inj ha]
  · cases ha

/-- Dates that are read are valid. -/
theorem isValid_of_date {cs : List Char} {d : Date} (h : date cs = some d) : d.isValid = true := by
  unfold date at h
  simp only [Option.bind_eq_bind] at h
  obtain ⟨⟨year, rest⟩, -, h⟩ := Option.bind_eq_some_iff.1 h
  split at h
  · exact of_checked (f := id) h
  · obtain ⟨⟨month, rest'⟩, -, h⟩ := Option.bind_eq_some_iff.1 h
    split at h
    · rw [Option.bind_some] at h
      exact of_checked (f := fun x : Nat × List Char => (⟨year, month, x.1⟩ : Date)) h
    · cases h
    · rw [Option.bind_some] at h
      exact of_checked (f := fun x : Nat × List Char => (⟨year, month, x.1⟩ : Date)) h

/-- So are times of day. -/
theorem isValid_of_clock {cs : List Char} {c : Clock} (h : clock cs = some c) :
    c.isValid = true := by
  unfold clock at h
  simp only [Option.bind_eq_bind] at h
  obtain ⟨⟨p, leftOver⟩, -, h⟩ := Option.bind_eq_some_iff.1 h
  have hchecked : ∀ {x : Option (Option Int)}, (x.bind fun offset =>
      if (⟨p.hour, p.minute, p.second, p.micro, offset⟩ : Clock).isValid = true then
        pure (⟨p.hour, p.minute, p.second, p.micro, offset⟩ : Clock) else none) = some c →
            c.isValid = true :=
    fun h =>
      of_checked (f := fun offset => (⟨p.hour, p.minute, p.second, p.micro, offset⟩ : Clock)) h
  split at h
  · split at h <;> exact hchecked h
  · split at h <;> exact hchecked h
  · obtain ⟨⟨q, leftOver'⟩, -, h⟩ := Option.bind_eq_some_iff.1 h
    split at h <;> exact hchecked h

/-! ## Characters -/

/-- The bytes of ASCII characters are these characters. -/
theorem octets_eq {s : String} (h : ∀ c ∈ s.toList, c.toNat < 0x80) : octets s = s.toList := by
  have hbyte : ∀ {cs : List Char}, (∀ c ∈ cs, c.toNat < 0x80) →
      (Utf8.encode cs).map (fun b => Char.ofNat b.toNat) = cs := by
    intro cs
    induction cs with
    | nil => exact fun _ => rfl
    | cons c cs ih =>
      intro hcs
      obtain ⟨hc, hrest⟩ := List.forall_mem_cons.1 hcs
      have hencode : Utf8.encodeChar c = [c.toNat.toUInt8] := if_pos hc
      rw [Utf8.encode, List.flatMap_cons, hencode, List.singleton_append, List.map_cons,
        Utf8.toNat_toUInt8 (by omega), Char.ofNat_toNat, ← Utf8.encode, ih hrest]
  exact hbyte h

/-- Days and times are written with digits and with marks, all of ASCII. -/
theorem ascii_mark (mark : String) (h : (mark.toList.all fun c => decide (c.toNat < 0x80)) = true) :
    ∀ c ∈ mark.toList, c.toNat < 0x80 := fun c hc => of_decide_eq_true (List.all_eq_true.1 h c hc)

/-- Written numbers are plain ASCII; so is each part of a date and of a time below. -/
theorem ascii_zeroPadded (width n : Nat) : ∀ c ∈ (zeroPadded width n).toList, c.toNat < 0x80 := by
  intro c hc
  rw [zeroPadded, String.toList_ofList] at hc
  rcases List.mem_append.1 hc with hc | hc
  · rw [List.eq_of_mem_replicate hc]
    decide
  · have hrange := CharClass.isAsciiDigit_iff.1 (digits_toDigits n c hc)
    omega

theorem ascii_date (d : Date) : ∀ c ∈ d.text.toList, c.toNat < 0x80 := by
  have hdash := ascii_mark "-" (by decide)
  simp only [Date.text, String.toList_append, List.forall_mem_append]
  exact ⟨⟨⟨⟨ascii_zeroPadded 4 _, hdash⟩, ascii_zeroPadded 2 _⟩, hdash⟩, ascii_zeroPadded 2 _⟩

theorem ascii_fraction (micro : Nat) :
    ∀ c ∈ (if micro = 0 then "" else "." ++ zeroPadded 6 micro).toList, c.toNat < 0x80 := by
  rw [toList_fraction, fractionChars]
  split
  · simp
  · exact List.forall_mem_cons.2 ⟨by decide, ascii_zeroPadded 6 _⟩

theorem ascii_offset (o : Int) : ∀ c ∈ (offsetText o).toList, c.toNat < 0x80 := by
  have hcolon := ascii_mark ":" (by decide)
  unfold offsetText
  simp only [String.toList_append, List.forall_mem_append]
  refine ⟨⟨⟨⟨?_, ascii_zeroPadded 2 _⟩, hcolon⟩, ascii_zeroPadded 2 _⟩, ?_⟩
  · split <;> exact ascii_mark _ (by decide)
  · split
    · simp
    · simp only [String.toList_append, List.forall_mem_append]
      exact ⟨⟨hcolon, ascii_zeroPadded 2 _⟩, ascii_fraction _⟩

theorem ascii_clock (c : Clock) : ∀ d ∈ c.text.toList, d.toNat < 0x80 := by
  have hcolon := ascii_mark ":" (by decide)
  simp only [Clock.text, String.toList_append, List.forall_mem_append]
  refine ⟨⟨⟨⟨⟨⟨ascii_zeroPadded 2 _, hcolon⟩, ascii_zeroPadded 2 _⟩, hcolon⟩, ascii_zeroPadded 2 _⟩,
    ascii_fraction _⟩, ?_⟩
  cases c.offset with
  | none => simp
  | some o => exact ascii_offset o

end TimeText

/-! ## Texts -/

open TimeText in
/-- The text of a day has ten characters; a hyphen stands after the year, and a digit after that. -/
theorem Date.text_chars {d : Date} (h : d.isValid = true) : d.text.toList.length = 10 ∧
    d.text.toList[4]? = some '-' ∧ ∃ c, d.text.toList[5]? = some c ∧ c ≠ 'W' := by
  obtain ⟨-, hyear, -, hmonth, -, hday⟩ := isValid_iff.1 h
  have hlength := monthLength_le d.year d.month
  obtain ⟨-, hyear, -⟩ := zeroPadded_digits (w := 4) (n := d.year) (by decide) (by omega)
  obtain ⟨-, hmonth', -⟩ := zeroPadded_digits (w := 2) (n := d.month) (by decide) (by omega)
  obtain ⟨-, hday, -⟩ := zeroPadded_digits (w := 2) (n := d.day) (by decide) (by omega)
  obtain ⟨c, cs, hcs, hc⟩ := zeroPadded_cons (w := 2) (n := d.month) (by decide) (by omega)
  have hdash : "-".toList = ['-'] := rfl
  have hweek : c ≠ 'W' := by
    rintro rfl
    cases hc
  simp only [Date.text, String.toList_append, hdash, List.append_assoc, List.singleton_append]
  refine ⟨?_, ?_, c, ?_, hweek⟩
  · simp only [List.length_append, List.length_cons, hyear, hmonth', hday]
  · rw [List.getElem?_append_right (by omega), hyear]
    rfl
  · rw [List.getElem?_append_right (by omega), hyear, hcs]
    rfl

open TimeText in
/-- A day that is read from some text is read from its own text. -/
theorem readDate_text {s : String} {d : Date} (h : readDate s = some d) :
    readDate d.text = some d := by
  have hvalid : d.isValid = true := by
    unfold readDate at h
    simp only at h
    split at h
    · exact isValid_of_date h
    · cases h
  have hdate := date_text hvalid []
  rw [List.append_nil] at hdate
  rw [readDate, octets_eq (ascii_date d), (Date.text_chars hvalid).1, hdate]
  rfl

open TimeText in
/-- A time of day that is read from some text is read from its own text. -/
theorem readClock_text {s : String} {c : Clock} (h : readClock s = some c) :
    readClock c.text = some c := by
  have hvalid : c.isValid = true := by
    unfold readClock at h
    split at h <;> exact isValid_of_clock h
  obtain ⟨hhour, -⟩ := isValid_clock_iff.1 hvalid
  obtain ⟨d, ds, hds, hd⟩ := zeroPadded_cons (w := 2) (n := c.hour) (by decide) (by omega)
  have hfirst : ∀ cs, c.text.toList ≠ 'T' :: cs := by
    intro cs hcs
    simp only [Clock.text, String.toList_append, hds, List.cons_append] at hcs
    rw [(List.cons.inj hcs).1] at hd
    cases hd
  rw [readClock, octets_eq (ascii_clock c)]
  split
  · rename_i cs hcs
    exact absurd hcs (hfirst cs)
  · exact clock_text hvalid

/-! ## Days with times -/

namespace TimeText

/-- A date with a time that is read is valid in both parts. -/
theorem isValid_of_readDateTime {s : String} {t : DateTime} (h : readDateTime s = some t) :
    t.date.isValid = true ∧ t.clock.isValid = true := by
  unfold readDateTime at h
  simp only [Option.bind_eq_bind] at h
  split at h
  · cases h
  · obtain ⟨cut, -, h⟩ := Option.bind_eq_some_iff.1 h
    obtain ⟨d, hd, h⟩ := Option.bind_eq_some_iff.1 h
    split at h
    · rw [← Option.some.inj h]
      exact ⟨isValid_of_date hd, rfl⟩
    · obtain ⟨c, hc, h⟩ := Option.bind_eq_some_iff.1 h
      rw [← Option.some.inj h]
      exact ⟨isValid_of_date hd, isValid_of_clock hc⟩

/-- No character of a written date has to be replaced when it is cut by position. -/
theorem octets_dateTime (t : DateTime) :
    octets t.text = t.date.text.toList ++ 'T' :: t.clock.text.toList := by
  have hchars : t.text.toList = t.date.text.toList ++ 'T' :: t.clock.text.toList := by
    simp [DateTime.text]
  rw [octets_eq, hchars]
  rw [hchars]
  exact List.forall_mem_append.2 ⟨ascii_date _, List.forall_mem_cons.2 ⟨by decide, ascii_clock _⟩⟩

/-- After the text of a day the time begins. -/
theorem separator_date {d : Date} (h : d.isValid = true) {after : List Char} (hafter : after ≠ []) :
    separator (d.text.toList ++ after) = some 10 := by
  obtain ⟨hlength, hdash, c, hc, hweek⟩ := Date.text_chars h
  have hlong : 10 < (d.text.toList ++ after).length := by
    have hpos := List.length_pos_iff.2 hafter
    rw [List.length_append]
    omega
  have hdash' : (d.text.toList ++ after)[4]? = some '-' := by
    rw [List.getElem?_append_left (by omega), hdash]
  have hc' : (d.text.toList ++ after)[5]? ≠ some 'W' := by
    rw [List.getElem?_append_left (by omega), hc]
    simpa using hweek
  unfold separator
  simp only
  rw [if_neg (by omega), if_pos hdash', if_neg hc']

end TimeText

open TimeText in
/-- A time of a day that is read from some text is read from its own text. -/
theorem readDateTime_text {s : String} {t : DateTime} (h : readDateTime s = some t) :
    readDateTime t.text = some t := by
  obtain ⟨hdate, hclock⟩ := isValid_of_readDateTime h
  obtain ⟨hlength, -⟩ := Date.text_chars hdate
  have hcut : separator (octets t.text) = some 10 := by
    rw [octets_dateTime]
    exact separator_date hdate (List.cons_ne_nil _ _)
  have htake : (octets t.text).take 10 = t.date.text.toList := by
    rw [octets_dateTime, ← hlength, List.take_left]
  have hdrop : (octets t.text).drop 11 = t.clock.text.toList := by
    rw [octets_dateTime, show 11 =
      t.date.text.toList.length + 1 by omega, List.drop_length_add_append,
      List.drop_succ_cons, List.drop_zero]
  have hmark : (octets t.text)[10]? = some 'T' := by
    rw [octets_dateTime, List.getElem?_append_right (by omega), hlength]
    rfl
  have hlong : 10 < (octets t.text).length := by
    rw [octets_dateTime, List.length_append, List.length_cons]
    omega
  have hread := date_text hdate []
  rw [List.append_nil] at hread
  have hwidth : 10 + widthAt (some 'T') = 11 := rfl
  simp only [readDateTime, hcut, Option.bind_eq_bind, Option.bind_some]
  rw [if_neg (by omega), htake, hread, Option.bind_some, if_neg (by omega), hmark, hwidth, hdrop,
    clock_text hclock]
  rfl

end Wadl
