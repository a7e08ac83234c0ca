import Mathlib.Tactic.SplitIfs
import Wadl.Charset.Basic

/-!
# UTF-8 read back

Each character is written as a byte that begins it and the bytes that this one owes. Reading passes
from the first to the last of them and completes the character, whatever follows
(`readFrom_encodeChar`). So text is read back from its bytes (`read_encode`), and replacing
malformed pieces changes nothing in it (`decode_utf8Bytes`). Whatever bytes are read, there are no
more characters than bytes (`length_read_le`).
-/

namespace Wadl

namespace Utf8

/-! ## One byte -/

theorem toNat_toUInt8 {n : Nat} (h : n < 256) : n.toUInt8.toNat = n := by
  rw [Nat.toUInt8, UInt8.toNat_ofNat', Nat.mod_eq_of_lt h]

theorem readFrom_start (b : UInt8) (bs : List UInt8) :
    readFrom .start (b :: bs) = (first b.toNat).1 ++ readFrom (first b.toNat).2 bs := rfl

variable {value low high b : Nat}

/-- A byte in its range lets one byte less be owed. -/
theorem readFrom_owed {owed : Nat} (hbyte : b < 256) (hlow : low ≤ b) (hhigh : b ≤ high)
    (bs : List UInt8) : readFrom (.within value (owed + 1) low high) (b.toUInt8 :: bs) =
      readFrom (.within (value * 64 + (b - 0x80)) owed 0x80 0xbf) bs := by
  rw [readFrom, toNat_toUInt8 hbyte, step, if_pos ⟨hlow, hhigh⟩]
  rfl

/-- The last byte that is owed completes the character. -/
theorem readFrom_last (hbyte : b < 256) (hlow : low ≤ b) (hhigh : b ≤ high) (bs : List UInt8) :
    readFrom (.within value 0 low high) (b.toUInt8 :: bs) =
      some (Char.ofNat (value * 64 + (b - 0x80))) :: readFrom .start bs := by
  rw [readFrom, toNat_toUInt8 hbyte, step, if_pos ⟨hlow, hhigh⟩]
  rfl

/-! ## One character -/

theorem toNat_lt (c : Char) : c.toNat < 0x110000 := by
  have hvalid : c.toNat.isValidChar := c.valid
  rcases hvalid with h | h <;> omega

/-- The first of three bytes, with the range that it leaves to the second: overlong forms and
surrogates are left out of it. -/
theorem first_of_three {n : Nat} (hlow : 0x800 ≤ n) (hhigh : n < 0x10000) (hchar : n.isValidChar) :
    ∃ low high, first (0xe0 + n / 4096) = ([], .within (n / 4096) 1 low high) ∧
      low ≤ 0x80 + n / 64 % 64 ∧ 0x80 + n / 64 % 64 ≤ high := by
  unfold first
  by_cases hzero : n / 4096 = 0
  · exact ⟨0xa0, 0xbf, by simp [hzero], by omega, by omega⟩
  by_cases hsurrogates : n / 4096 = 13
  · have hvalid : n < 0xd800 := by
      rcases hchar with h | h <;> omega
    exact ⟨0x80, 0x9f, by simp [hsurrogates], by omega, by omega⟩
  · refine ⟨0x80, 0xbf, ?_, by omega, by omega⟩
    rw [if_neg (by omega), if_neg (by omega), if_neg (by omega),
      if_neg (by omega), if_pos (by omega), Nat.add_sub_cancel_left]

/-- The first of four bytes, with the range that it leaves to the second. -/
theorem first_of_four {n : Nat} (hlow : 0x10000 ≤ n) (hhigh : n < 0x110000) :
    ∃ low high, first (0xf0 + n / 262144) = ([], .within (n / 262144) 2 low high) ∧
      low ≤ 0x80 + n / 4096 % 64 ∧ 0x80 + n / 4096 % 64 ≤ high := by
  unfold first
  by_cases hzero : n / 262144 = 0
  · exact ⟨0x90, 0xbf, by simp [hzero], by omega, by omega⟩
  by_cases hfour : n / 262144 = 4
  · exact ⟨0x80, 0x8f, by simp [hfour], by omega, by omega⟩
  · refine ⟨0x80, 0xbf, ?_, by omega, by omega⟩
    rw [if_neg (by omega), if_neg (by omega), if_neg (by omega),
      if_neg (by omega), if_neg (by omega),
      if_neg (by omega), if_pos (by omega), Nat.add_sub_cancel_left]

/-- The bytes of a character are read as the character, whatever follows them. -/
theorem readFrom_encodeChar (c : Char) (bs : List UInt8) :
    readFrom .start (encodeChar c ++ bs) = some c :: readFrom .start bs := by
  have hchar : ∀ {n : Nat}, n = c.toNat → some (Char.ofNat n) = some c := by
    rintro n rfl
    rw [Char.ofNat_toNat]
  have hvalid : c.toNat.isValidChar := c.valid
  have hmax := toNat_lt c
  unfold encodeChar
  by_cases hone : c.toNat < 0x80
  · rw [if_pos hone, List.singleton_append, readFrom_start, toNat_toUInt8 (by omega),
      first, if_pos hone, hchar rfl]
    rfl
  by_cases htwo : c.toNat < 0x800
  · have hfirst : first (0xc0 + c.toNat / 64) = ([], .within (c.toNat / 64) 0 0x80 0xbf) := by
      rw [first, if_neg (by omega), if_pos (by omega), Nat.add_sub_cancel_left]
    rw [if_neg hone, if_pos htwo, List.cons_append, List.singleton_append, readFrom_start,
      toNat_toUInt8 (by omega), hfirst, List.nil_append,
      readFrom_last (by omega) (by omega) (by omega), hchar (by omega)]
  by_cases hthree : c.toNat < 0x10000
  · obtain ⟨low, high, hfirst, hlow, hhigh⟩ := first_of_three (by omega) hthree hvalid
    rw [if_neg hone, if_neg htwo, if_pos hthree, List.cons_append, List.cons_append,
      List.singleton_append, readFrom_start, toNat_toUInt8 (by omega), hfirst, List.nil_append,
      readFrom_owed (by omega) hlow hhigh, readFrom_last (by omega) (by omega) (by omega),
      hchar (by omega)]
  · obtain ⟨low, high, hfirst, hlow, hhigh⟩ := first_of_four (by omega) hmax
    rw [if_neg hone, if_neg htwo, if_neg hthree, List.cons_append,
      List.cons_append, List.cons_append,
      List.singleton_append, readFrom_start, toNat_toUInt8 (by omega), hfirst, List.nil_append,
      readFrom_owed (by omega) hlow hhigh, readFrom_owed (by omega) (by omega) (by omega),
      readFrom_last (by omega) (by omega) (by omega), hchar (by omega)]

/-- The bytes of a character begin with the null byte for the null character only. -/
theorem encodeChar_head {c : Char} (h : 0 < c.toNat) : ∃ b bs, encodeChar c = b :: bs ∧ b ≠ 0 := by
  have hmax := toNat_lt c
  have hne : ∀ {n : Nat}, 0 < n → n < 256 → n.toUInt8 ≠ 0 := by
    intro n hpos hn hzero
    have hnat := congrArg UInt8.toNat hzero
    rw [toNat_toUInt8 hn] at hnat
    exact absurd hnat (Nat.ne_of_gt hpos)
  unfold encodeChar
  simp only
  split
  · exact ⟨_, _, rfl, hne h (by omega)⟩
  · split
    · exact ⟨_, _, rfl, hne (by omega) (by omega)⟩
    · split
      · exact ⟨_, _, rfl, hne (by omega) (by omega)⟩
      · exact ⟨_, _, rfl, hne (by omega) (by omega)⟩

/-! ## Text -/

/-- Text is read back from its bytes. -/
theorem read_encode (cs : List Char) : read (encode cs) = cs.map some := by
  unfold read
  induction cs with
  | nil => rfl
  | cons c cs ih =>
    rw [encode, List.flatMap_cons, readFrom_encodeChar, List.map_cons, ← ih]
    rfl

/-- A piece that is not completed is read as one more. -/
def State.owes : State → Nat
  | .start => 0
  | .within .. => 1

theorem length_first_le (b : Nat) : (first b).1.length + (first b).2.owes ≤ 1 := by
  unfold first
  split_ifs <;> exact Nat.le_refl _

theorem length_step_le (s : State) (b : Nat) :
    (step s b).1.length + (step s b).2.owes ≤ 1 + s.owes := by
  cases s with
  | start => exact length_first_le b
  | within value owed low high =>
    rw [step]
    split_ifs
    · cases owed <;> exact Nat.le_succ _
    · change (none :: (first b).1).length + (first b).2.owes ≤ 1 + 1
      have hfirst := length_first_le b
      rw [List.length_cons]
      omega

theorem length_readFrom_le (s : State) (bytes : List UInt8) :
    (readFrom s bytes).length ≤ bytes.length + s.owes := by
  induction bytes generalizing s with
  | nil => cases s <;> exact Nat.le_refl _
  | cons b bytes ih =>
    have hstep := length_step_le s b.toNat
    have hrest := ih (step s b.toNat).2
    have hread : readFrom s (b :: bytes) =
        (step s b.toNat).1 ++ readFrom (step s b.toNat).2 bytes := by
      cases s <;> rfl
    rw [hread, List.length_append, List.length_cons]
    omega

theorem length_read_le (bytes : List UInt8) : (read bytes).length ≤ bytes.length :=
  length_readFrom_le .start bytes

end Utf8

theorem length_of_mapM_some {α β : Type} {f : α → Option β} :
    ∀ {xs : List α} {ys : List β}, xs.mapM f = some ys → ys.length = xs.length
  | [], ys, h => by
    rw [List.mapM_nil] at h
    cases h
    rfl
  | x :: xs, ys, h => by
    rw [List.mapM_cons] at h
    obtain ⟨y, -, h⟩ := Option.bind_eq_some_iff.1 h
    obtain ⟨ys', hys, h⟩ := Option.bind_eq_some_iff.1 h
    rw [← Option.some.inj h, List.length_cons, List.length_cons, length_of_mapM_some hys]

/-- A text has no more characters than the bytes that it is decoded from. -/
theorem length_decode?_le {bytes : List UInt8} {s : String}
    (h : Charset.utf8.decode? bytes = some s) : s.toList.length ≤ bytes.length := by
  obtain ⟨cs, hcs, rfl⟩ := Option.map_eq_some_iff.1 h
  rw [String.toList_ofList, length_of_mapM_some hcs]
  exact Utf8.length_read_le bytes

/-- The bytes of a text are decoded, as they are all assigned. -/
theorem decode?_utf8Bytes (s : String) : Charset.utf8.decode? (utf8Bytes s) = some s := by
  have hread : Charset.utf8.read (utf8Bytes s) = s.toList.map some := Utf8.read_encode s.toList
  have hall : ∀ cs : List Char, (cs.map some).mapM id = some cs := by
    intro cs
    induction cs with
    | nil => rfl
    | cons c cs ih =>
      rw [List.map_cons, List.mapM_cons, ih]
      rfl
  rw [Charset.decode?, hread, hall, Option.map_some, String.ofList_toList]

/-- The bytes of a text decode to the text. -/
theorem decode_utf8Bytes (s : String) : Charset.utf8.decode (utf8Bytes s) = s := by
  have hread : Charset.utf8.read (utf8Bytes s) = s.toList.map some := Utf8.read_encode s.toList
  have hkept : (s.toList.map some).map (fun c => c.getD Charset.replacement) = s.toList := by
    rw [List.map_map]
    exact List.map_id s.toList
  rw [Charset.decode, hread, hkept, String.ofList_toList]

end Wadl
