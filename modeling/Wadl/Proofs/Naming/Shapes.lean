import Mathlib.Computability.Language
import Wadl.Proofs.Naming.Style

/-!
# Words and the shapes of names

Words are found in three passes, of which the second and the third read what the one before them
wrote. One look at each place of the text does the same: `Words.isCut` says of two characters that
follow one another, and of the one after them, whether the text is cut between the two.
`Words.IsCutInto` says that a text is cut into pieces at just these places; there is one way to do
so (`IsCutInto.unique`), which `Words.pieces` takes. No blank that a pass puts in hides a place from
the next one (`marked_cons_cons`), and between letters and digits there is a blank just where there
is a cut (`isMarked_eq_isCut`), so that the words of a text are its pieces of letters and digits
(`splitWords_cut`).

The names that a style joins words to are regular languages (`Shape`). A name in small letters is
that of its own words, so that it is written as it is if it is written in this style again
(`snake_snake`).
-/

namespace Wadl

open CharClass

namespace Words

variable {a b c : Char} {cs word : List Char} {p p' : List Char} {ps ps' : List (List Char)}

/-! ## Cuts -/

/-- Whether a text is cut between two characters before `next`: beside a character that is neither
an ASCII letter nor a digit, between a small letter or a digit and a capital, and between two
capitals of which a small letter follows the second. -/
def isCut (a b : Char) (next : Option Char) : Bool :=
  !isAsciiAlphanumeric a || !isAsciiAlphanumeric b ||
    ((isAsciiLower a || isAsciiDigit a) && isAsciiUpper b) ||
    (isAsciiUpper a && isAsciiUpper b && next.any isAsciiLower)

/-- A text is cut into pieces, none of which is empty, at all its cuts and nowhere else. -/
structure IsCutInto (cs : List Char) (ps : List (List Char)) : Prop where
  flatten_eq : ps.flatten = cs
  ne_nil : ∀ p ∈ ps, p ≠ []
  ends_iff : ∀ front a b back, cs = front ++ a :: b :: back →
    ((∃ before after, ps = before ++ after ∧ before.flatten = front ++ [a]) ↔
      isCut a b back.head? = true)

/-- A front of some pieces that is not empty has their first piece. -/
theorem exists_front_cons_iff {front : List Char} (h : front ≠ []) :
    (∃ before after, p :: ps = before ++ after ∧ before.flatten = front) ↔
      ∃ before after, ps = before ++ after ∧ p ++ before.flatten = front := by
  constructor
  · rintro ⟨_ | ⟨q, before⟩, after, hps, rfl⟩
    · exact absurd rfl h
    · obtain ⟨rfl, rfl⟩ := List.cons.inj hps
      exact ⟨before, after, rfl, rfl⟩
  · rintro ⟨before, after, rfl, rfl⟩
    exact ⟨p :: before, after, rfl, rfl⟩

namespace IsCutInto

/-- The pieces after the first are those of the rest. -/
theorem tail (h : IsCutInto cs (p :: ps)) : IsCutInto ps.flatten ps where
  flatten_eq := rfl
  ne_nil := (List.forall_mem_cons.1 h.ne_nil).2
  ends_iff front a b back hback := by
    have hcs : cs = (p ++ front) ++ a :: b :: back := by
      rw [← h.flatten_eq, List.flatten_cons, hback, List.append_assoc]
    rw [← h.ends_iff _ _ _ _ hcs, exists_front_cons_iff (by simp)]
    simp

/-- The first piece ends at a cut, so that it is no longer in another way to cut the text. -/
theorem ne_append (h : IsCutInto cs (p :: ps)) (h' : IsCutInto cs (p' :: ps'))
    {x : List Char} (hx : x ≠ []) : p' ≠ p ++ x := by
  rintro rfl
  obtain ⟨b, back, rfl⟩ := List.exists_cons_of_ne_nil hx
  rcases List.eq_nil_or_concat p with rfl | ⟨front, a, rfl⟩
  · exact h.ne_nil [] List.mem_cons_self rfl
  rw [List.concat_eq_append] at h h'
  have hcs : cs = front ++ a :: b :: (back ++ ps'.flatten) := by
    rw [← h'.flatten_eq]
    simp
  have hcut := (h.ends_iff _ _ _ _ hcs).1 ⟨[front ++ [a]], ps, rfl, List.flatten_singleton⟩
  obtain ⟨before, after, -, hends⟩ :=
    (exists_front_cons_iff (by simp)).1 ((h'.ends_iff _ _ _ _ hcs).2 hcut)
  have hlength := congrArg List.length hends
  simp only [List.length_append, List.length_cons, List.length_nil] at hlength
  omega

/-- There is one way to cut a text. -/
theorem unique (h : IsCutInto cs ps) (h' : IsCutInto cs ps') : ps = ps' := by
  induction ps generalizing cs ps' with
  | nil =>
    obtain rfl := h.flatten_eq
    cases ps' with
    | nil => rfl
    | cons p' ps' =>
      exact absurd (List.append_eq_nil_iff.1 h'.flatten_eq).1 (h'.ne_nil p' List.mem_cons_self)
  | cons p ps ih =>
    cases ps' with
    | nil =>
      obtain rfl := h'.flatten_eq
      exact absurd (List.append_eq_nil_iff.1 h.flatten_eq).1 (h.ne_nil p List.mem_cons_self)
    | cons p' ps' =>
      have hfirst : p = p' := by
        rcases List.append_eq_append_iff.1 (h.flatten_eq.trans h'.flatten_eq.symm) with
          ⟨x, hx, -⟩ | ⟨x, hx, -⟩
        · by_contra hne
          exact h.ne_append h' (fun hnil => hne (by rw [hx, hnil, List.append_nil])) hx
        · by_contra hne
          exact h'.ne_append h (fun hnil => hne (by rw [hx, hnil, List.append_nil])) hx
      subst hfirst
      have hrest : ps.flatten = ps'.flatten :=
        List.append_cancel_left (h.flatten_eq.trans h'.flatten_eq.symm)
      rw [ih h.tail (hrest ▸ h'.tail)]

end IsCutInto

/-! ## Cutting in one pass -/

/-- Pieces with one more character at the start of the first. -/
def extend (a : Char) : List (List Char) → List (List Char)
  | [] => [[a]]
  | p :: ps => (a :: p) :: ps

/-- The pieces of a text between its cuts. -/
def pieces : List Char → List (List Char)
  | [] => []
  | [a] => [[a]]
  | a :: b :: cs =>
    if isCut a b cs.head? then [a] :: pieces (b :: cs) else extend a (pieces (b :: cs))

/-- The first piece begins with the first character. -/
theorem exists_pieces_cons (a : Char) (cs : List Char) :
    ∃ p ps, pieces (a :: cs) = (a :: p) :: ps := by
  cases cs with
  | nil => exact ⟨[], [], rfl⟩
  | cons b cs =>
    rw [pieces]
    split
    · exact ⟨[], _, rfl⟩
    · cases pieces (b :: cs) with
      | nil => exact ⟨[], [], rfl⟩
      | cons p ps => exact ⟨p, ps, rfl⟩

/-- The pieces of a word are a cut of it. -/
theorem isCutInto_pieces (cs : List Char) : IsCutInto cs (pieces cs) := by
  induction cs using pieces.induct with
  | case1 => exact ⟨rfl, by simp [pieces], by simp⟩
  | case2 a =>
    refine ⟨rfl, by simp [pieces], fun front x y back h => ?_⟩
    rcases front with _ | ⟨z, front⟩ <;> simp at h
  | case3 a b cs hcut ih =>
    rw [pieces, if_pos hcut]
    refine ⟨by rw [List.flatten_cons, ih.flatten_eq]; rfl,
      List.forall_mem_cons.2 ⟨List.cons_ne_nil a [], ih.ne_nil⟩, fun front x y back h => ?_⟩
    rw [exists_front_cons_iff (by simp)]
    rcases front with _ | ⟨z, front⟩
    · obtain ⟨rfl, rfl, rfl⟩ : a = x ∧ b = y ∧ cs = back := by simpa using h
      exact iff_of_true ⟨[], _, rfl, rfl⟩ hcut
    · obtain ⟨rfl, hrest⟩ := List.cons.inj h
      rw [← ih.ends_iff front x y back hrest]
      simp
  | case4 a b cs hcut ih =>
    obtain ⟨p, ps, hp⟩ := exists_pieces_cons b cs
    rw [pieces, if_neg hcut, hp, extend]
    rw [hp] at ih
    refine ⟨by rw [← ih.flatten_eq]; rfl,
      List.forall_mem_cons.2 ⟨List.cons_ne_nil a _, (List.forall_mem_cons.1 ih.ne_nil).2⟩,
      fun front x y back h => ?_⟩
    rw [exists_front_cons_iff (by simp)]
    rcases front with _ | ⟨z, front⟩
    · obtain ⟨rfl, rfl, rfl⟩ : a = x ∧ b = y ∧ cs = back := by simpa using h
      refine iff_of_false ?_ hcut
      rintro ⟨before, after, -, hends⟩
      simp at hends
    · obtain ⟨rfl, hrest⟩ := List.cons.inj h
      rw [← ih.ends_iff front x y back hrest, exists_front_cons_iff (by simp)]
      simp

/-! ## Blanks between capitals -/

/-- A text with a blank between two capitals, of which a small letter follows the second. -/
def markCapitals : List Char → List Char
  | a :: b :: cs =>
    if isAsciiUpper a && isAsciiUpper b && cs.head?.any isAsciiLower then a :: ' ' ::
      markCapitals (b :: cs)
    else a :: markCapitals (b :: cs)
  | cs => cs

theorem not_lower_of_upper (h : isAsciiUpper a = true) :
    (a :: cs).head?.any isAsciiLower = false := by
  rw [List.head?_cons, Option.any_some, ← Bool.not_eq_true, isAsciiLower_iff]
  have := isAsciiUpper_iff.1 h
  omega

theorem markCapitals_of_not_upper (h : isAsciiUpper a = false) (cs : List Char) :
    markCapitals (a :: cs) = a :: markCapitals cs := by
  cases cs with
  | nil => rfl
  | cons b cs => rw [markCapitals, h, Bool.false_and, Bool.false_and, if_neg Bool.false_ne_true]

/-- Capitals before another one stay together, if no small letter follows that. -/
theorem markCapitals_append {us : List Char} (hus : ∀ u ∈ us, isAsciiUpper u = true)
    (ha : isAsciiUpper a = true) (hcs : cs.head?.any isAsciiLower = false) :
    markCapitals (us ++ a :: cs) = us ++ markCapitals (a :: cs) := by
  induction us with
  | nil => rfl
  | cons u us ih =>
    obtain ⟨-, hus⟩ := List.forall_mem_cons.1 hus
    -- what follows the next character but one is no small letter
    obtain ⟨v, rest, hrest, hhead⟩ : ∃ v rest, us ++ a :: cs = v :: rest ∧
        rest.head?.any isAsciiLower = false := by
      rcases us with _ | ⟨v, _ | ⟨w, us⟩⟩
      · exact ⟨a, cs, rfl, hcs⟩
      · exact ⟨v, a :: cs, rfl, not_lower_of_upper ha⟩
      · exact ⟨v, w :: (us ++ a :: cs), rfl, not_lower_of_upper (hus w (by simp))⟩
    rw [List.cons_append, hrest, markCapitals, hhead, Bool.and_false,
      if_neg Bool.false_ne_true, ← hrest, ih hus]
    rfl

/-- Capitals alone are one word, in which nothing is marked. -/
theorem markCapitals_capitals {us : List Char} (hus : ∀ u ∈ us, isAsciiUpper u = true) :
    markCapitals us = us := by
  rcases List.eq_nil_or_concat us with rfl | ⟨front, a, rfl⟩
  · rfl
  · rw [List.concat_eq_append] at hus ⊢
    obtain ⟨hfront, ha⟩ := List.forall_mem_append.1 hus
    exact markCapitals_append hfront (ha a (List.mem_singleton_self a)) rfl

/-- Capitals before another character stay together, if that is no small letter or if there are
fewer than two. -/
theorem markCapitals_append_other {us : List Char} (hus : ∀ u ∈ us, isAsciiUpper u = true)
    (hc : isAsciiUpper c = false) (h : us.length < 2 ∨ isAsciiLower c = false) :
    markCapitals (us ++ c :: cs) = us ++ c :: markCapitals cs := by
  have hone : ∀ u, markCapitals (u :: c :: cs) = u :: c :: markCapitals cs := by
    intro u
    rw [markCapitals, hc, Bool.and_false, Bool.false_and, if_neg Bool.false_ne_true,
      markCapitals_of_not_upper hc]
  rcases List.eq_nil_or_concat us with rfl | ⟨front, u, rfl⟩
  · exact markCapitals_of_not_upper hc cs
  rw [List.concat_eq_append] at hus h ⊢
  obtain ⟨hfront, hu⟩ := List.forall_mem_append.1 hus
  rw [List.append_assoc, List.singleton_append]
  rcases h with hlength | hlower
  · obtain rfl : front = [] := by
      rw [List.length_append, List.length_singleton] at hlength
      exact List.length_eq_zero_iff.1 (by omega)
    rw [List.nil_append, hone]
    rfl
  · rw [markCapitals_append hfront (hu u (List.mem_singleton_self u))
      (by rwa [List.head?_cons, Option.any_some]), hone]
    simp

/-- The first pass marks the capitals at which words begin. -/
theorem partCapitals_eq_markCapitals {capitals : List Char}
    (h : ∀ u ∈ capitals, isAsciiUpper u = true) :
    partCapitals capitals cs = markCapitals (capitals.reverse ++ cs) := by
  fun_induction partCapitals capitals cs with
  | case1 capitals => rw [List.append_nil, markCapitals_capitals (by simpa using h)]
  | case2 capitals c cs hupper ih =>
    rw [ih (List.forall_mem_cons.2 ⟨hupper, h⟩), List.reverse_cons, List.append_assoc]
    rfl
  | case3 c cs hupper last before rest hlower ih =>
    obtain ⟨hlast, hbefore, hrest⟩ := by simpa only [List.forall_mem_cons] using h
    rw [Bool.not_eq_true] at hupper
    have hcut : markCapitals (before :: last :: c :: cs) =
        before :: ' ' :: markCapitals (last :: c :: cs) := by
      rw [markCapitals, hbefore, hlast, List.head?_cons, Option.any_some, hlower]
      rfl
    have hend : markCapitals (last :: c :: cs) = last :: c :: markCapitals cs := by
      rw [markCapitals, hupper, Bool.and_false, Bool.false_and, if_neg Bool.false_ne_true,
        markCapitals_of_not_upper hupper]
    have hcapitals : (last :: before :: rest).reverse ++ c :: cs =
        rest.reverse ++ before :: last :: c :: cs := by
      simp
    rw [hcapitals, markCapitals_append (by simpa using hrest) hbefore (not_lower_of_upper hlast),
      hcut, hend, ih (by simp)]
    simp
  | case4 c cs hupper last before rest hlower ih =>
    rw [Bool.not_eq_true] at hupper hlower
    rw [ih (by simp),
      markCapitals_append_other (fun u hu => h u (List.mem_reverse.1 hu)) hupper (Or.inr hlower)]
    rfl
  | case5 capitals c cs hupper hcapitals ih =>
    rw [Bool.not_eq_true] at hupper
    have hlength : capitals.reverse.length < 2 := by
      rcases capitals with _ | ⟨last, _ | ⟨before, rest⟩⟩
      · simp
      · simp
      · exact absurd rfl (hcapitals last before rest)
    rw [ih (by simp),
      markCapitals_append_other (fun u hu => h u (List.mem_reverse.1 hu)) hupper (Or.inl hlength)]
    rfl

/-! ## Blanks at cuts -/

/-- A digit of another script has a code point beyond ASCII. -/
theorem isDigit_eq_isAsciiDigit (h : a.toNat < 128) : Digit.isDigit a = isAsciiDigit a := by
  have hzeros : ∀ z ∈ Digit.zeros, z = 48 ∨ 128 ≤ z := by decide
  rw [Digit.isDigit, Digit.value, Option.isSome_map, Bool.eq_iff_iff,
    List.find?_isSome, isAsciiDigit_iff]
  constructor
  · rintro ⟨z, hz, hvalue⟩
    rw [Bool.and_eq_true, decide_eq_true_iff, decide_eq_true_iff] at hvalue
    rcases hzeros z hz with rfl | hbeyond <;> omega
  · exact fun hdigit => ⟨48, by decide, by simpa using hdigit⟩

/-- Among the characters of ASCII, small letters and digits end a word. -/
theorem endsWord_eq (h : a.toNat < 128) : endsWord a = (isAsciiLower a || isAsciiDigit a) := by
  rw [endsWord, isDigit_eq_isAsciiDigit h]

theorem endsWord_of_upper (h : isAsciiUpper a = true) : endsWord a = false := by
  have hcode := isAsciiUpper_iff.1 h
  rw [endsWord_eq (by omega), ← Bool.not_eq_true, Bool.or_eq_true,
    isAsciiLower_iff, isAsciiDigit_iff]
  omega

/-- A text as the passes over it leave it. -/
def marked (cs : List Char) : List Char := partHumps (markCapitals cs)

/-- Whether a blank parts two characters before `next` in the text that the passes leave. -/
def isMarked (a b : Char) (next : Option Char) : Bool :=
  (endsWord a && isAsciiUpper b) || (isAsciiUpper a && isAsciiUpper b && next.any isAsciiLower)

/-- Marking keeps the first character. -/
theorem exists_markCapitals_cons (a : Char) (cs : List Char) :
    ∃ rest, markCapitals (a :: cs) = a :: rest := by
  cases cs with
  | nil => exact ⟨[], rfl⟩
  | cons b cs =>
    rw [markCapitals]
    split <;> exact ⟨_, rfl⟩

theorem partHumps_cons (h : endsWord a = false) (cs : List Char) :
    partHumps (a :: cs) = a :: partHumps cs := by
  cases cs with
  | nil => rfl
  | cons b cs => rw [partHumps, h, Bool.false_and, if_neg Bool.false_ne_true]

/-- A blank parts a character that ends a word from a capital after it. -/
theorem partHumps_cons_cons (a b : Char) (cs : List Char) : partHumps (a :: b :: cs) =
    if endsWord a && isAsciiUpper b then a :: ' ' :: partHumps (b :: cs)
        else a :: partHumps (b :: cs) := by
  rw [partHumps]
  refine ite_congr rfl (fun hhump => ?_) fun _ => rfl
  rw [partHumps_cons (endsWord_of_upper (Bool.and_eq_true_iff.1 hhump).2)]

/-- No pass hides a place from another: the blanks are found in one pass. -/
theorem marked_cons_cons (a b : Char) (cs : List Char) :
    marked (a :: b :: cs) = if isMarked a b cs.head? then a :: ' ' :: marked (b :: cs)
      else a :: marked (b :: cs) := by
  obtain ⟨rest, hrest⟩ := exists_markCapitals_cons b cs
  rw [marked, marked, markCapitals, hrest, isMarked]
  by_cases hcapitals : (isAsciiUpper a && isAsciiUpper b && cs.head?.any isAsciiLower) = true
  · have hupper : isAsciiUpper a = true :=
      (Bool.and_eq_true_iff.1 (Bool.and_eq_true_iff.1 hcapitals).1).1
    rw [if_pos hcapitals, hcapitals, Bool.or_true, if_pos rfl,
      partHumps_cons (endsWord_of_upper hupper), partHumps_cons (by decide)]
  · rw [if_neg hcapitals, partHumps_cons_cons, Bool.eq_false_iff.2 hcapitals, Bool.or_false]

/-- Words begin with the first character of their text. -/
theorem exists_marked_cons (a : Char) (cs : List Char) : ∃ rest, marked (a :: cs) = a :: rest := by
  cases cs with
  | nil => exact ⟨[], rfl⟩
  | cons b cs =>
    rw [marked_cons_cons]
    split <;> exact ⟨_, rfl⟩

/-- Two characters between which there is no cut are letters or digits. -/
theorem alphanumeric_of_not_isCut {next : Option Char} (h : ¬ isCut a b next = true) :
    isAsciiAlphanumeric a = true ∧ isAsciiAlphanumeric b = true := by
  simp only [isCut, Bool.or_eq_true, not_or, Bool.not_eq_true, Bool.not_eq_false'] at h
  exact h.1.1

/-- Letters and digits have a blank between them where there is a cut. -/
theorem isMarked_eq_isCut (ha : isAsciiAlphanumeric a = true) (hb : isAsciiAlphanumeric b = true)
    (next : Option Char) : isMarked a b next = isCut a b next := by
  have hcode : a.toNat < 128 := by
    rw [isAsciiAlphanumeric_iff, isAsciiLower_iff, isAsciiUpper_iff, isAsciiDigit_iff] at ha
    omega
  rw [isMarked, isCut, endsWord_eq hcode, ha, hb]
  simp

/-! ## Runs between cuts -/

/-- Outside of a word, separators are passed over. -/
theorem runs_nil_cons (h : isAsciiAlphanumeric a = false) (cs : List Char) :
    runs [] (a :: cs) = runs [] cs := by
  simp [runs, h]

/-- A character that is no letter and no digit ends a run. -/
theorem runs_cons (h : isAsciiAlphanumeric a = false) (hword : word ≠ []) (cs : List Char) :
    runs word (a :: cs) = word.reverse :: runs [] cs := by
  simp [runs, h, hword]

/-- Before the first letter or digit, the blanks change nothing. -/
theorem runs_nil_marked (h : isAsciiAlphanumeric a = false) (b : Char) (cs : List Char) :
    runs [] (marked (a :: b :: cs)) = runs [] (marked (b :: cs)) := by
  rw [marked_cons_cons]
  split
  · rw [runs_nil_cons h, runs_nil_cons (by decide)]
  · rw [runs_nil_cons h]

/-- A cut ends a run, whether a blank marks it or not. -/
theorem runs_marked_cut (ha : isAsciiAlphanumeric a = true) (hcut : isCut a b cs.head? = true) :
    runs word (marked (a :: b :: cs)) = (a :: word).reverse :: runs [] (marked (b :: cs)) := by
  have hend : ∀ {c rest}, isAsciiAlphanumeric c = false →
      runs word (a :: c :: rest) = (a :: word).reverse :: runs [] rest := by
    intro c rest hc
    rw [runs, if_pos ha, runs_cons hc (List.cons_ne_nil a word)]
  rw [marked_cons_cons]
  by_cases hmarked : isMarked a b cs.head? = true
  · rw [if_pos hmarked, hend (by decide)]
  · have hb : isAsciiAlphanumeric b = false := by
      rw [← Bool.not_eq_true]
      exact fun hb => hmarked (isMarked_eq_isCut ha hb _ ▸ hcut)
    obtain ⟨rest, hrest⟩ := exists_marked_cons b cs
    rw [if_neg hmarked, hrest, hend hb, runs_nil_cons hb]

/-- A run of letters and digits goes on to the end of the piece that it began in. -/
theorem runs_marked (h : word = [] ∨ isAsciiAlphanumeric a = true)
    (hword : word.all isAsciiAlphanumeric = true) (hpieces : pieces (a :: cs) = p :: ps) :
    runs word (marked (a :: cs)) =
      ((word.reverse ++ p) :: ps).filter (·.all isAsciiAlphanumeric) := by
  induction cs generalizing a word p ps with
  | nil =>
    obtain ⟨rfl, rfl⟩ := List.cons.inj hpieces
    by_cases ha : isAsciiAlphanumeric a = true
    · simp [marked, markCapitals, partHumps, runs, ha, hword]
    · obtain rfl := h.resolve_right ha
      simp [marked, markCapitals, partHumps, runs, ha]
  | cons b cs ih =>
    obtain ⟨q, qs, hrest⟩ := exists_pieces_cons b cs
    by_cases hcut : isCut a b cs.head? = true
    · rw [pieces, if_pos hcut] at hpieces
      obtain ⟨rfl, rfl⟩ := List.cons.inj hpieces
      have hnext : runs [] (marked (b :: cs)) =
          (pieces (b :: cs)).filter (·.all isAsciiAlphanumeric) := by
        rw [hrest]
        exact ih (Or.inl rfl) rfl hrest
      by_cases ha : isAsciiAlphanumeric a = true
      · rw [runs_marked_cut ha hcut, hnext, List.filter_cons_of_pos (by simp [ha, hword])]
        simp
      · obtain rfl := h.resolve_right ha
        rw [Bool.not_eq_true] at ha
        rw [runs_nil_marked ha, hnext]
        simp [ha]
    · obtain ⟨ha, hb⟩ := alphanumeric_of_not_isCut hcut
      rw [pieces, if_neg hcut, hrest, extend] at hpieces
      obtain ⟨rfl, rfl⟩ := List.cons.inj hpieces
      rw [marked_cons_cons, isMarked_eq_isCut ha hb, if_neg hcut, runs, if_pos ha,
        ih (Or.inr hb) (by simp [ha, hword]) hrest]
      simp

/-- A piece that is not of letters and digits is one other character. -/
theorem all_or_eq_singleton (h : p ∈ pieces cs) :
    p.all isAsciiAlphanumeric = true ∨ ∃ c, p = [c] ∧ isAsciiAlphanumeric c = false := by
  induction cs using pieces.induct generalizing p with
  | case1 => cases h
  | case2 a =>
    obtain rfl := List.mem_singleton.1 h
    cases ha : isAsciiAlphanumeric a <;> simp [ha]
  | case3 a b cs hcut ih =>
    rw [pieces, if_pos hcut] at h
    rcases List.mem_cons.1 h with rfl | h
    · cases ha : isAsciiAlphanumeric a <;> simp [ha]
    · exact ih h
  | case4 a b cs hcut ih =>
    obtain ⟨ha, hb⟩ := alphanumeric_of_not_isCut hcut
    obtain ⟨q, qs, hrest⟩ := exists_pieces_cons b cs
    rw [pieces, if_neg hcut, hrest, extend] at h
    rw [hrest] at ih
    rcases List.mem_cons.1 h with rfl | h
    · rcases ih List.mem_cons_self with hall | ⟨c, hc, hother⟩
      · exact Or.inl (by rw [List.all_cons, ha, hall]; rfl)
      · obtain ⟨rfl, -⟩ := List.cons.inj hc
        rw [hb] at hother
        cases hother
    · exact ih (List.mem_cons_of_mem _ h)

/-- The words of a text are its pieces of letters and digits. -/
theorem split_eq_filter_pieces (cs : List Char) :
    split cs = (pieces cs).filter (·.all isAsciiAlphanumeric) := by
  rw [split, partCapitals_eq_markCapitals (by simp), List.reverse_nil, List.nil_append, ← marked]
  cases cs with
  | nil => rfl
  | cons a cs =>
    obtain ⟨p, ps, hpieces⟩ := exists_pieces_cons a cs
    rw [runs_marked (Or.inl rfl) rfl hpieces, hpieces]
    rfl

/-- Pieces that are separators go, and the others keep their characters. -/
theorem flatten_filter_all (h : ∀ p ∈ ps, p.all isAsciiAlphanumeric = true ∨
    ∃ c, p = [c] ∧ isAsciiAlphanumeric c = false) :
    (ps.filter (·.all isAsciiAlphanumeric)).flatten = ps.flatten.filter isAsciiAlphanumeric := by
  induction ps with
  | nil => rfl
  | cons p ps ih =>
    obtain ⟨hp, hps⟩ := List.forall_mem_cons.1 h
    rw [List.flatten_cons, List.filter_append, ← ih hps]
    rcases hp with hall | ⟨c, rfl, hc⟩
    · rw [List.filter_cons_of_pos (by simpa using hall), List.flatten_cons,
        List.filter_eq_self.2 (List.all_eq_true.1 hall)]
    · simp [hc]

/-- The words of a text have its letters and digits, in order. -/
theorem flatten_split (cs : List Char) : (split cs).flatten = cs.filter isAsciiAlphanumeric := by
  rw [split_eq_filter_pieces, flatten_filter_all fun _ => all_or_eq_singleton,
    (isCutInto_pieces cs).flatten_eq]

end Words

/-- The words of a text are the pieces of letters and digits into which its cuts part it. Together
they are the text without its other characters, and no word is empty. -/
theorem splitWords_cut (text : String) :
    (∀ words, splitWords text = words ↔ ∃ ps, Words.IsCutInto text.toList ps ∧
      words = (ps.filter (·.all isAsciiAlphanumeric)).map String.ofList) ∧
    (splitWords text).flatMap String.toList = text.toList.filter isAsciiAlphanumeric ∧
    ∀ w ∈ splitWords text, w ≠ "" := by
  refine ⟨fun words => ?_, ?_, fun w hw hempty => ?_⟩
  · rw [splitWords, Words.split_eq_filter_pieces, eq_comm]
    constructor
    · exact fun h => ⟨_, Words.isCutInto_pieces _, h⟩
    · rintro ⟨ps, hps, rfl⟩
      rw [hps.unique (Words.isCutInto_pieces _)]
  · rw [← Words.flatten_split, splitWords, List.flatMap_map]
    simp only [String.toList_ofList, List.flatMap_id']
  · obtain ⟨cs, hcs, rfl⟩ := List.mem_map.1 hw
    exact (Naming.isWord_of_mem_split cs hcs).1 (by simpa using hempty)

example : splitWords "getHTTPWidget2Ids" = ["get", "HTTP", "Widget2", "Ids"] := by decide

open Naming
open scoped Computability

/-! ## Languages of names -/

namespace Shape

/-- The texts of one character of a kind. -/
def one (p : Char → Bool) : Language Char := {cs | ∃ c, p c = true ∧ cs = [c]}

/-- The texts of characters of a kind, at least one. -/
def word (p : Char → Bool) : Language Char := one p * (one p)∗

def underscore : Language Char := one (· == '_')

/-- Small letters and digits. -/
def isLow (c : Char) : Bool := isAsciiLower c || isAsciiDigit c

/-- Capitals and digits. -/
def isHigh (c : Char) : Bool := isAsciiUpper c || isAsciiDigit c

/-- A small letter, and words of small letters and digits with underscores between them. -/
def snake : Language Char := one isAsciiLower * (one isLow)∗ * (underscore * word isLow)∗

/-- A small letter, and letters and digits. -/
def camel : Language Char := one isAsciiLower * (one isAsciiAlphanumeric)∗

/-- A capital, and letters and digits. -/
def pascal : Language Char := one isAsciiUpper * (one isAsciiAlphanumeric)∗

/-- Words of capitals and digits with underscores between them, after one more underscore or
none. -/
def constant : Language Char := (1 + underscore) * word isHigh * (underscore * word isHigh)∗

variable {p q : Char → Bool} {c : Char} {cs : List Char} {ws : List (List Char)}

theorem mem_one (h : p c = true) : [c] ∈ one p := ⟨c, h, rfl⟩

/-- Characters of a class form a text of this class. -/
theorem mem_star (h : ∀ c ∈ cs, p c = true) : cs ∈ (one p)∗ := by
  refine Language.mem_kstar.2 ⟨cs.map ([·]), (List.flatMap_singleton' cs).symm, fun w hw => ?_⟩
  obtain ⟨c, hc, rfl⟩ := List.mem_map.1 hw
  exact mem_one (h c hc)

/-- A first character and more of another class. -/
theorem cons_mem (hc : q c = true) (hcs : ∀ d ∈ cs, p d = true) : c :: cs ∈ one q * (one p)∗ :=
  Language.append_mem_mul (mem_one hc) (mem_star hcs)

/-- Characters of a class, at least one, form a word of this class. -/
theorem mem_word (hne : cs ≠ []) (h : ∀ c ∈ cs, p c = true) : cs ∈ word p := by
  obtain ⟨c, cs, rfl⟩ := List.exists_cons_of_ne_nil hne
  obtain ⟨hc, hcs⟩ := List.forall_mem_cons.1 h
  exact cons_mem hc hcs

/-- What follows the first of some words that are joined. -/
theorem mem_underscored {f : List Char → List Char}
    (h : ∀ w ∈ ws, f w ≠ [] ∧ ∀ c ∈ f w, p c = true) :
    ((ws.map f).map ('_' :: ·)).flatten ∈ (underscore * word p)∗ := by
  refine Language.join_mem_kstar fun w hw => ?_
  rw [List.map_map] at hw
  obtain ⟨v, hv, rfl⟩ := List.mem_map.1 hw
  exact Language.append_mem_mul (mem_one rfl) (mem_word (h v hv).1 (h v hv).2)

/-- What may come first may be left out. -/
theorem mem_optional_mul {l m : Language Char} (h : cs ∈ m) : cs ∈ (1 + l) * m :=
  Language.mem_mul.2 ⟨[], (Language.mem_add _ _ _).2 (Or.inl Language.nil_mem_one), cs, h, rfl⟩

/-- Texts that begin with some character are not empty. -/
theorem nil_notMem_mul {l : Language Char} : [] ∉ one p * l := by
  rintro ⟨_, ⟨c, -, rfl⟩, rest, -, h⟩
  cases h

theorem nil_notMem_snake : [] ∉ snake := by
  rw [snake, mul_assoc]
  exact nil_notMem_mul

theorem nil_notMem_constant : [] ∉ constant := by
  rintro ⟨_, ⟨front, -, w, hw, rfl⟩, back, -, h⟩
  obtain ⟨-, rfl, -⟩ : front = [] ∧ w = [] ∧ back = [] := by simpa using h
  exact nil_notMem_mul hw

end Shape

/-! ## Words in a style -/

namespace Naming

open Shape

variable {p q : Char → Bool} {first c : Char} {w cs : List Char} {ws : List (List Char)}

/-- Words after the first have a low line before them. -/
theorem joined_cons (w : List Char) (ws : List (List Char)) :
    joined (w :: ws) = w ++ (ws.map ('_' :: ·)).flatten := by
  induction ws generalizing w with
  | nil => simp [joined]
  | cons v ws ih =>
    rw [joined, List.intercalate_cons_cons, ← joined, ih, List.append_assoc]
    rfl

/-- Characters that begin with a digit get one before them. -/
theorem lead_append (hw : w ≠ []) (cs : List Char) : lead first (w ++ cs) = lead first w ++ cs := by
  obtain ⟨c, w, rfl⟩ := List.exists_cons_of_ne_nil hw
  rw [List.cons_append, lead, lead]
  split <;> rfl

/-- A word that may not begin a name begins one with a character put before it. -/
theorem lead_mem (hfirst : p first = true) (hw : w ≠ []) (hq : ∀ c ∈ w, q c = true)
    (hp : ∀ c ∈ w.head?, p c = true ∨ isAsciiDigit c = true) : lead first w ∈ one p * (one q)∗ := by
  obtain ⟨c, w, rfl⟩ := List.exists_cons_of_ne_nil hw
  rw [lead]
  split
  · exact cons_mem hfirst hq
  · rename_i hdigit
    exact cons_mem ((hp c rfl).resolve_right hdigit) (List.forall_mem_cons.1 hq).2

/-! ## Shapes -/

theorem isLow_lowerWord (h : IsWord w) : lowerWord w ≠ [] ∧ ∀ c ∈ lowerWord w, isLow c = true := by
  refine ⟨by simpa [lowerWord] using h.1, fun c hc => ?_⟩
  obtain ⟨d, hd, rfl⟩ := List.mem_map.1 hc
  exact Bool.or_eq_true_iff.2 (lowerChar_cases (h.2 d hd))

theorem isHigh_upperWord (h : IsWord w) :
    upperWord w ≠ [] ∧ ∀ c ∈ upperWord w, isHigh c = true := by
  refine ⟨by simpa [upperWord] using h.1, fun c hc => ?_⟩
  obtain ⟨d, hd, rfl⟩ := List.mem_map.1 hc
  exact Bool.or_eq_true_iff.2 (upperChar_cases (h.2 d hd))

/-- Words of a text are all there is to say of whether it has letters and digits. -/
theorem split_eq_nil_iff : Words.split cs = [] ↔ ∀ c ∈ cs, isAsciiAlphanumeric c = false := by
  constructor
  · intro h c hc
    rw [← Bool.not_eq_true]
    exact fun halnum => split_ne_nil hc halnum h
  · intro h
    have hflatten := Words.flatten_split cs
    rw [List.filter_eq_nil_iff.2 fun c hc => Bool.eq_false_iff.1 (h c hc),
      List.flatten_eq_nil_iff] at hflatten
    rw [List.eq_nil_iff_forall_not_mem]
    exact fun w hw => (isWord_of_mem_split w hw).1 (hflatten w hw)

/-- The pieces of a text are words. -/
theorem isWord_of_split (h : Words.split cs = w :: ws) : IsWord w ∧ ∀ v ∈ ws, IsWord v :=
  List.forall_mem_cons.1 fun v hv => isWord_of_mem_split v (h ▸ hv)

/-- A text with words has a name in small letters with low lines. -/
theorem snakeChars_mem (h : Words.split cs = w :: ws) : snakeChars cs ∈ Shape.snake := by
  obtain ⟨hw, hws⟩ := isWord_of_split h
  obtain ⟨hne, hlow⟩ := isLow_lowerWord hw
  rw [snakeChars, h, List.map_cons, joined_cons, lead_append hne]
  refine Language.append_mem_mul (lead_mem (by decide) hne hlow fun c hc => ?_)
    (mem_underscored fun v hv => isLow_lowerWord (hws v hv))
  exact Bool.or_eq_true_iff.1 (hlow c (List.mem_of_mem_head? hc))

/-- A text with words has a name whose words but the first begin with capitals. -/
theorem camelChars_mem (h : Words.split cs = w :: ws) : camelChars cs ∈ Shape.camel := by
  obtain ⟨hw, hws⟩ := isWord_of_split h
  obtain ⟨hne, hlow⟩ := isLow_lowerWord hw
  rw [camelChars, h]
  refine lead_mem (by decide) (List.append_ne_nil_of_left_ne_nil hne _) ?_ fun c hc => ?_
  · exact List.forall_mem_append.2
      ⟨alphanumeric_lowerWord hw.2, alphanumeric_flatten_capitalized hws⟩
  · rw [List.head?_append_of_ne_nil _ hne] at hc
    exact Bool.or_eq_true_iff.1 (hlow c (List.mem_of_mem_head? hc))

/-- A text with words has a name whose words begin with capitals. -/
theorem pascalChars_mem (h : Words.split cs = w :: ws) : pascalChars cs ∈ Shape.pascal := by
  have hwords : ∀ v ∈ w :: ws, IsWord v := h ▸ isWord_of_mem_split
  obtain ⟨c, w, rfl⟩ := List.exists_cons_of_ne_nil (hwords w List.mem_cons_self).1
  rw [pascalChars, h]
  refine lead_mem (by decide) (by simp [capitalized])
    (alphanumeric_flatten_capitalized hwords) fun d hd => ?_
  obtain rfl : upperChar c = d := by simpa [capitalized] using hd
  exact upperChar_cases ((hwords _ List.mem_cons_self).2 c List.mem_cons_self)

/-- What is put before a word is no digit, so that no name begins with one. -/
theorem head_lead (hfirst : isAsciiDigit first = false) :
    ∀ c ∈ (lead first cs).head?, isAsciiDigit c = false := by
  cases cs with
  | nil => simp [lead]
  | cons d cs =>
    rw [lead]
    split
    · simpa using hfirst
    · rename_i hdigit
      simpa using hdigit

theorem lead_ne_nil (h : cs ≠ []) : lead first cs ≠ [] := by
  obtain ⟨c, cs, rfl⟩ := List.exists_cons_of_ne_nil h
  rw [lead]
  split <;> exact List.cons_ne_nil _ _

theorem lead_upperWord_mem (h : IsWord w) :
    lead '_' (upperWord w) ∈ (1 + underscore) * Shape.word isHigh := by
  obtain ⟨hne, hhigh⟩ := isHigh_upperWord h
  have hword := mem_word hne hhigh
  obtain ⟨c, cs, hcs⟩ := List.exists_cons_of_ne_nil hne
  rw [hcs] at hword ⊢
  rw [lead]
  split
  · exact Language.append_mem_mul ((Language.mem_add _ _ _).2 (Or.inr (mem_one rfl))) hword
  · exact mem_optional_mul hword

/-- Each text has a constant as name, which begins with no digit. -/
theorem constantChars_mem (cs : List Char) : constantChars cs ∈ Shape.constant ∧
    ∀ c ∈ (constantChars cs).head?, isAsciiDigit c = false := by
  unfold constantChars
  cases h : Words.split cs with
  | nil =>
    have hall : "EMPTY".toList.all isHigh = true := by decide
    have hempty : "EMPTY".toList ∈ Shape.word isHigh :=
      mem_word (by decide) (List.all_eq_true.1 hall)
    refine ⟨?_, by rintro c ⟨⟩; rfl⟩
    exact Language.mem_mul.2 ⟨_, mem_optional_mul hempty, [], Language.nil_mem_kstar _, rfl⟩
  | cons w ws =>
    obtain ⟨hw, hws⟩ := isWord_of_split h
    have hne := (isHigh_upperWord hw).1
    rw [List.map_cons, joined_cons, lead_append hne, if_neg (by simp [lead_ne_nil hne])]
    refine ⟨Language.append_mem_mul (lead_upperWord_mem hw)
      (mem_underscored fun v hv => isHigh_upperWord (hws v hv)), ?_⟩
    rw [List.head?_append_of_ne_nil _ (lead_ne_nil hne)]
    exact head_lead (by decide)

/-! ## Small letters only -/

/-- A text without capitals has no humps. -/
theorem partHumps_eq_self (h : ∀ c ∈ cs, isAsciiUpper c = false) : Words.partHumps cs = cs := by
  induction cs with
  | nil => rfl
  | cons a cs ih =>
    cases cs with
    | nil => rfl
    | cons b cs =>
      obtain ⟨-, hcs⟩ := List.forall_mem_cons.1 h
      rw [Words.partHumps_cons_cons, hcs b List.mem_cons_self, Bool.and_false,
        if_neg Bool.false_ne_true, ih hcs]

/-- A text without capitals has none to mark. -/
theorem markCapitals_eq_self (h : ∀ c ∈ cs, isAsciiUpper c = false) :
    Words.markCapitals cs = cs := by
  induction cs with
  | nil => rfl
  | cons a cs ih =>
    obtain ⟨ha, hcs⟩ := List.forall_mem_cons.1 h
    rw [Words.markCapitals_of_not_upper ha, ih hcs]

/-- In a text without capitals, words begin at separators only. -/
theorem split_eq_runs (h : ∀ c ∈ cs, isAsciiUpper c = false) :
    Words.split cs = Words.runs [] cs := by
  rw [Words.split, Words.partCapitals_eq_markCapitals (by simp), List.reverse_nil, List.nil_append,
    markCapitals_eq_self h, partHumps_eq_self h]

/-- Letters and digits are added to the word that is being read. -/
theorem runs_append (hw : ∀ c ∈ w, isAsciiAlphanumeric c = true) (word : List Char) :
    Words.runs word (w ++ cs) = Words.runs (w.reverse ++ word) cs := by
  induction w generalizing word with
  | nil => rfl
  | cons c w ih =>
    obtain ⟨hc, hw⟩ := List.forall_mem_cons.1 hw
    rw [List.cons_append, Words.runs, if_pos hc, ih hw]
    simp

/-- The words of joined words are these words. -/
theorem runs_joined (h : ∀ v ∈ w :: ws, IsWord v) : Words.runs [] (joined (w :: ws)) = w :: ws := by
  rw [joined_cons]
  induction ws generalizing w with
  | nil =>
    obtain ⟨hne, hw⟩ := h w List.mem_cons_self
    rw [List.map_nil, List.flatten_nil, runs_append hw]
    simp [Words.runs, hne]
  | cons v ws ih =>
    obtain ⟨⟨hne, hw⟩, hws⟩ := List.forall_mem_cons.1 h
    rw [List.map_cons, List.flatten_cons, List.cons_append, runs_append hw,
      Words.runs_cons (by decide) (by simpa), ih hws]
    simp

theorem not_upper_of_isLow (h : isLow c = true) : isAsciiUpper c = false := by
  rw [isLow, Bool.or_eq_true, isAsciiLower_iff, isAsciiDigit_iff] at h
  rw [← Bool.not_eq_true, isAsciiUpper_iff]
  omega

/-- A word of small letters and digits stays as it is. -/
theorem lowerWord_eq_self (h : ∀ c ∈ w, isLow c = true) : lowerWord w = w := by
  refine (List.map_congr_left fun c hc => ?_).trans (List.map_id w)
  rw [lowerChar, if_neg (Bool.eq_false_iff.1 (not_upper_of_isLow (h c hc)))]
  rfl

theorem lead_eq_self (h : ∀ c ∈ cs.head?, isAsciiDigit c = false) : lead first cs = cs := by
  cases cs with
  | nil => rfl
  | cons c cs => rw [lead, if_neg (Bool.eq_false_iff.1 (h c rfl))]

/-- Joined words have the characters of the words and low lines. -/
theorem forall_mem_joined {P : Char → Prop} (h_ : P '_') (h : ∀ w ∈ ws, ∀ c ∈ w, P c) :
    ∀ c ∈ joined ws, P c := by
  cases ws with
  | nil => simp [joined]
  | cons w ws =>
    obtain ⟨hw, hws⟩ := List.forall_mem_cons.1 h
    rw [joined_cons]
    refine List.forall_mem_append.2 ⟨hw, fun c hc => ?_⟩
    obtain ⟨v, hv, hc⟩ := List.mem_flatten.1 hc
    obtain ⟨u, hu, rfl⟩ := List.mem_map.1 hv
    rcases List.mem_cons.1 hc with rfl | hc
    · exact h_
    · exact hws u hu c hc

/-- Words of small letters and digits, of which the first begins with no digit, are joined to a name
that is written again as it is. -/
theorem snakeChars_joined (hlow : ∀ v ∈ w :: ws, v ≠ [] ∧ ∀ c ∈ v, isLow c = true)
    (hfirst : ∀ c ∈ w.head?, isAsciiDigit c = false) :
    snakeChars (joined (w :: ws)) = joined (w :: ws) := by
  have hwords : ∀ v ∈ w :: ws, IsWord v := fun v hv => ⟨(hlow v hv).1, fun c hc =>
    isAsciiAlphanumeric_iff.2 ((Bool.or_eq_true_iff.1 ((hlow v hv).2 c hc)).imp_right Or.inr)⟩
  have hcapitals : ∀ c ∈ joined (w :: ws), isAsciiUpper c = false :=
    forall_mem_joined (by decide) fun v hv c hc => not_upper_of_isLow ((hlow v hv).2 c hc)
  have hsame : (w :: ws).map lowerWord = w :: ws :=
    (List.map_congr_left fun v hv => lowerWord_eq_self (hlow v hv).2).trans (List.map_id _)
  rw [snakeChars, split_eq_runs hcapitals, runs_joined hwords, hsame]
  refine lead_eq_self ?_
  rwa [joined_cons, List.head?_append_of_ne_nil _ (hlow w List.mem_cons_self).1]

/-- A name in small letters is written again as it is. -/
theorem snakeChars_snakeChars (cs : List Char) : snakeChars (snakeChars cs) = snakeChars cs := by
  cases h : Words.split cs with
  | nil =>
    have hempty : snakeChars cs = [] := by
      rw [snakeChars, h]
      rfl
    rw [hempty]
    rfl
  | cons w ws =>
    obtain ⟨hw, hws⟩ := isWord_of_split h
    obtain ⟨hne, hlow⟩ := isLow_lowerWord hw
    have hname : snakeChars cs = joined (lead 'n' (lowerWord w) :: ws.map lowerWord) := by
      rw [snakeChars, h, List.map_cons, joined_cons, lead_append hne, joined_cons]
    rw [hname]
    refine snakeChars_joined (List.forall_mem_cons.2 ⟨⟨lead_ne_nil hne, ?_⟩, fun v hv => ?_⟩)
      (head_lead (by decide))
    · exact forall_mem_lead (by decide) hlow
    · obtain ⟨u, hu, rfl⟩ := List.mem_map.1 hv
      exact isLow_lowerWord (hws u hu)

end Naming

/-! ## Styles -/

/-- A style writes texts without letters and digits as nothing, and all others as names of a
shape. -/
structure Writes (style : String → String) (shape : Language Char) : Prop where
  shaped : ∀ text, style text = "" ∨ (style text).toList ∈ shape
  empty_iff : ∀ text, style text = "" ↔ ∀ c ∈ text.toList, isAsciiAlphanumeric c = false

/-- A way of writing names has a shape if it has it for all texts with words, and is empty for the
others. -/
theorem writes_of_split {write : List Char → List Char} {shape : Language Char} (hnil : [] ∉ shape)
    (hempty : ∀ {cs}, Words.split cs = [] → write cs = [])
    (hshape : ∀ {cs w ws}, Words.split cs = w :: ws → write cs ∈ shape) :
    Writes (fun text => String.ofList (write text.toList)) shape := by
  have hcases : ∀ cs, (write cs = [] ∧ Words.split cs = []) ∨
      (write cs ∈ shape ∧ Words.split cs ≠ []) := by
    intro cs
    cases h : Words.split cs with
    | nil => exact Or.inl ⟨hempty h, rfl⟩
    | cons w ws => exact Or.inr ⟨hshape h, List.cons_ne_nil w ws⟩
  refine ⟨fun text => ?_, fun text => ?_⟩
  · rw [String.ofList_eq_empty_iff, String.toList_ofList]
    exact (hcases text.toList).imp (·.1) (·.1)
  · rw [String.ofList_eq_empty_iff, ← split_eq_nil_iff]
    rcases hcases text.toList with ⟨hwritten, hsplit⟩ | ⟨hwritten, hsplit⟩
    · exact iff_of_true hwritten hsplit
    · exact iff_of_false (fun h => hnil (h ▸ hwritten)) hsplit

theorem snake_writes : Writes snake Shape.snake := by
  refine writes_of_split Shape.nil_notMem_snake (fun h => ?_) snakeChars_mem
  rw [snakeChars, h]
  rfl

theorem camel_writes : Writes camel Shape.camel :=
  writes_of_split Shape.nil_notMem_mul (fun h => by rw [camelChars, h]) camelChars_mem

theorem pascal_writes : Writes pascal Shape.pascal := by
  refine writes_of_split Shape.nil_notMem_mul (fun h => ?_) pascalChars_mem
  rw [pascalChars, h]
  rfl

/-- The constant of a text has its shape, begins with no digit and is not empty. -/
theorem constant_mem (text : String) : (constant text).toList ∈ Shape.constant ∧
    (∀ c ∈ (constant text).toList.head?, isAsciiDigit c = false) ∧ constant text ≠ "" := by
  obtain ⟨hshape, hhead⟩ := constantChars_mem text.toList
  rw [constant, String.toList_ofList, ne_eq, String.ofList_eq_empty_iff]
  exact ⟨hshape, hhead, fun hempty => Shape.nil_notMem_constant (hempty ▸ hshape)⟩

/-- A name in small letters with low lines is its own such name. -/
theorem snake_snake (text : String) : snake (snake text) = snake text := by
  rw [snake, snake, String.toList_ofList, snakeChars_snakeChars]

end Wadl
