import OnlineJudger.Judger.Excuter

/-!
# `OnlineJudger.Proofs.Judger.Matcher`: what `Matcher::compare` decides

Two normal forms of a text decide the verdict. `strip` forgets all white space. `norm` forgets
the carriage returns of a line end. The greedy scan of `compare` never builds either of them.

The invariant of the scan (`compareLoop_eq`) speaks about what is left of the two buffers: the
answer is the one the normal forms of the rests give, and a presentation error that is already
noted stays.
-/

set_option autoImplicit false

namespace OnlineJudger.Matcher

/-! ### The normal forms -/

/-- The text without its white space. -/
def strip (text : Text) : Text := text.filter (fun ch => !isWhiteSpace ch)

/-- The first character behind a run of carriage returns is a line feed. -/
def EndsInLineFeed (text : Text) : Prop := (text.dropWhile (· == '\r')).head? = some '\n'

/-- Two characters are compared. -/
instance (text : Text) : Decidable (EndsInLineFeed text) :=
  inferInstanceAs (Decidable (_ = _))

/-- The text without each carriage return that stands in a run directly in front of a line feed. A
run at any other place stays as it is. -/
def norm : Text → Text
  | [] => []
  | ch :: rest => if ch = '\r' ∧ EndsInLineFeed rest then norm rest else ch :: norm rest

/-- White space is forgotten. -/
theorem strip_cons_white {ch : Char} (h : isWhiteSpace ch = true) (rest : Text) :
    strip (ch :: rest) = strip rest := by
  rw [strip, List.filter_cons, h]
  rfl

/-- Any other character is kept. -/
theorem strip_cons_black {ch : Char} (h : isWhiteSpace ch = false) (rest : Text) :
    strip (ch :: rest) = ch :: strip rest := by
  rw [strip, List.filter_cons, h]
  rfl

/-- A text without the run starts with a line feed exactly when its normal form does. The normal
form drops a carriage return in front of a line feed only, and every other character stays. -/
theorem head_norm_iff (text : Text) : (norm text).head? = some '\n' ↔ EndsInLineFeed text := by
  induction text with
  | nil => rfl
  | cons ch rest ih =>
    rw [norm]
    -- a carriage return in front of a line feed is dropped
    split
    · rename_i h
      rw [ih]
      obtain ⟨rfl, hrest⟩ := h
      exact ⟨fun _ => hrest, fun _ => hrest⟩
    -- any other character stays in front
    · rename_i h
      rw [EndsInLineFeed, List.dropWhile_cons]
      split
      -- a carriage return that stays: no line feed can follow
      · rename_i hcr
        have hch : ch = '\r' := by simpa using hcr
        rw [hch] at h ⊢
        have hrest : ¬EndsInLineFeed rest := fun hrest => h ⟨rfl, hrest⟩
        exact iff_of_false (by simp) hrest
      · rfl

/-- A carriage return is forgotten when a line feed follows in the normal form. -/
theorem norm_cr_of_head {rest : Text} (h : (norm rest).head? = some '\n') :
    norm ('\r' :: rest) = norm rest := by
  rw [norm, if_pos ⟨rfl, (head_norm_iff rest).mp h⟩]

/-- Otherwise it is kept. -/
theorem norm_cr_of_not_head {rest : Text} (h : (norm rest).head? ≠ some '\n') :
    norm ('\r' :: rest) = '\r' :: norm rest := by
  rw [norm, if_neg]
  rintro ⟨-, hrest⟩
  exact h ((head_norm_iff rest).mpr hrest)

/-- A character that is no carriage return is kept. -/
theorem norm_cons_of_ne {ch : Char} (h : ch ≠ '\r') (rest : Text) :
    norm (ch :: rest) = ch :: norm rest := by
  rw [norm, if_neg]
  exact fun hcr => h hcr.1

/-- The first character of a normal form: the first of the text, or a line feed for a carriage
return. -/
theorem head_norm_cons (ch : Char) (rest : Text) :
    (norm (ch :: rest)).head? = some ch ∨ ch = '\r' ∧ (norm (ch :: rest)).head? = some '\n' := by
  by_cases hcr : ch = '\r'
  · subst hcr
    by_cases hlf : (norm rest).head? = some '\n'
    · exact Or.inr ⟨rfl, by rw [norm_cr_of_head hlf, hlf]⟩
    · exact Or.inl (by rw [norm_cr_of_not_head hlf, List.head?_cons])
  · exact Or.inl (by rw [norm_cons_of_ne hcr, List.head?_cons])

/-- A text is not forgotten as a whole: the line feed behind a carriage return is kept. -/
theorem norm_cons_ne_nil (ch : Char) (rest : Text) : norm (ch :: rest) ≠ [] := by
  intro h
  rcases head_norm_cons ch rest with hhead | ⟨-, hhead⟩ <;> rw [h] at hhead <;> cases hhead

/-- The line feed form forgets white space only. By induction on the text. -/
theorem strip_norm (text : Text) : strip (norm text) = strip text := by
  induction text with
  | nil => rfl
  | cons ch rest ih =>
    rw [norm]
    split
    · rename_i h
      rw [ih, h.1, strip_cons_white (by decide)]
    · cases hch : isWhiteSpace ch with
      | true => rw [strip_cons_white hch, strip_cons_white hch, ih]
      | false => rw [strip_cons_black hch, strip_cons_black hch, ih]

/-- So texts with one line feed form agree without white space. -/
theorem strip_eq_of_norm_eq {src dst : Text} (h : norm src = norm dst) : strip src = strip dst := by
  rw [← strip_norm src, h, strip_norm]

/-! ### The branches of the scan -/

/-- Equal characters say nothing about the normal forms: also a carriage return that belongs
to a line end on one side only shows up later, where the line end is missing. -/
theorem norm_cons_inj (ch : Char) (src dst : Text) :
    norm (ch :: src) = norm (ch :: dst) ↔ norm src = norm dst := by
  -- only a carriage return looks at what follows
  by_cases hcr : ch = '\r'
  · subst hcr
    by_cases hs : (norm src).head? = some '\n' <;> by_cases hd : (norm dst).head? = some '\n'
    -- dropped on both sides
    · rw [norm_cr_of_head hs, norm_cr_of_head hd]
    -- dropped on one side only: then the tails differ in their heads
    · rw [norm_cr_of_head hs, norm_cr_of_not_head hd]
      constructor
      · intro h
        rw [h] at hs
        cases hs
      · intro h
        exact absurd (h ▸ hs) hd
    · rw [norm_cr_of_not_head hs, norm_cr_of_head hd]
      constructor
      · intro h
        rw [← h] at hd
        cases hd
      · intro h
        exact absurd (h ▸ hd) hs
    -- kept on both sides
    · rw [norm_cr_of_not_head hs, norm_cr_of_not_head hd, List.cons.injEq]
      exact and_iff_right rfl
  · rw [norm_cons_of_ne hcr, norm_cons_of_ne hcr, List.cons.injEq]
    exact and_iff_right rfl

/-- A carriage return opposite a line feed can be skipped. -/
theorem norm_cr_eq_lf (src dst : Text) :
    norm ('\r' :: src) = norm ('\n' :: dst) ↔ norm src = norm ('\n' :: dst) := by
  have hdst : norm ('\n' :: dst) = '\n' :: norm dst := norm_cons_of_ne (by decide) dst
  by_cases hs : (norm src).head? = some '\n'
  · rw [norm_cr_of_head hs]
  · rw [norm_cr_of_not_head hs, hdst]
    constructor
    · intro h
      exact absurd (List.cons.inj h).1 (by decide)
    · intro h
      rw [h] at hs
      exact absurd rfl hs

/-- Any other two different characters tell the normal forms apart. -/
theorem norm_cons_ne {srcChr dstChr : Char} (src dst : Text) (hne : srcChr ≠ dstChr)
    (hs : ¬(srcChr = '\r' ∧ dstChr = '\n')) (hd : ¬(dstChr = '\r' ∧ srcChr = '\n')) :
    norm (srcChr :: src) ≠ norm (dstChr :: dst) := by
  intro h
  have hhead := congrArg List.head? h
  rcases head_norm_cons srcChr src with h1 | ⟨rfl, h1⟩ <;>
    rcases head_norm_cons dstChr dst with h2 | ⟨rfl, h2⟩ <;> rw [h1, h2] at hhead
  · exact hne (Option.some.inj hhead)
  · exact hd ⟨rfl, Option.some.inj hhead⟩
  · exact hs ⟨rfl, (Option.some.inj hhead).symm⟩
  · exact hne rfl

/-! ### The scan -/

/-- The answer that the normal forms give, when `result` is noted so far. The loop of `compare`
carries such a note along. -/
def verdict (src dst : Text) (result : ℕ) : ℕ :=
  if strip src ≠ strip dst then MATCHER_WRONG_ANWSER
  else if norm src = norm dst then result else MATCHER_PRESENT_ERROR

/-- The normal forms do not have to be compared again when an error is noted. -/
theorem verdict_presentError (src dst : Text) :
    verdict src dst MATCHER_PRESENT_ERROR =
      if strip src ≠ strip dst then MATCHER_WRONG_ANWSER else MATCHER_PRESENT_ERROR := by
  rw [verdict, ite_self]

/-- A loop over the rest of one buffer fails on the first black character. -/
theorem skipRest_eq (rest : Text) (result : ℕ) :
    skipRest rest result =
      if strip rest ≠ [] then none
      else some (if rest = [] then result else MATCHER_PRESENT_ERROR) := by
  induction rest generalizing result with
  | nil => rfl
  | cons ch rest ih =>
    rw [skipRest]
    cases hch : isWhiteSpace ch with
    | true => rw [if_pos rfl, ih, strip_cons_white hch, ite_self, if_neg (List.cons_ne_nil ch rest)]
    | false => rw [strip_cons_black hch, if_pos (List.cons_ne_nil _ _), if_neg (by decide)]

/-- Only the empty text is forgotten. -/
theorem norm_eq_nil_iff (text : Text) : [] = norm text ↔ text = [] := by
  cases text with
  | nil => exact iff_of_true rfl rfl
  | cons ch rest =>
    exact iff_of_false (Ne.symm (norm_cons_ne_nil ch rest)) (List.cons_ne_nil ch rest)

/-- Only one buffer has something left: the verdict is the one of its loop. -/
theorem verdict_nil (rest : Text) (result : ℕ) :
    verdict [] rest result = (skipRest rest result).getD MATCHER_WRONG_ANWSER := by
  rw [verdict, skipRest_eq]
  have hiff : (strip [] ≠ strip rest) ↔ strip rest ≠ [] := ne_comm
  have hnorm : (norm [] = norm rest) ↔ rest = [] := norm_eq_nil_iff rest
  by_cases hblack : strip rest ≠ []
  · rw [if_pos (hiff.mpr hblack), if_pos hblack, Option.getD_none]
  · rw [if_neg (mt hiff.mp hblack), if_neg hblack, Option.getD_some]
    exact if_congr hnorm rfl rfl

/-- The verdict does not depend on the order of the two texts. -/
theorem verdict_comm (src dst : Text) (result : ℕ) :
    verdict src dst result = verdict dst src result := by
  unfold verdict
  rw [if_congr (Iff.intro Ne.symm Ne.symm) rfl (if_congr eq_comm rfl rfl)]

/-- The two loops over the rests, when one buffer is used up. -/
theorem skipRests_eq (src dst : Text) (result : ℕ) (hend : src = [] ∨ dst = []) :
    ((skipRest src result).bind (skipRest dst)).getD MATCHER_WRONG_ANWSER =
      verdict src dst result := by
  rcases hend with rfl | rfl
  · rw [verdict_nil]
    rfl
  · rw [verdict_comm, verdict_nil]
    cases skipRest src result <;> rfl

/-- Equal characters are dropped. -/
theorem verdict_cons_self (ch : Char) (src dst : Text) (result : ℕ) :
    verdict (ch :: src) (ch :: dst) result = verdict src dst result := by
  have hstrip : strip (ch :: src) = strip (ch :: dst) ↔ strip src = strip dst := by
    cases hch : isWhiteSpace ch with
    | true => rw [strip_cons_white hch, strip_cons_white hch]
    | false =>
      rw [strip_cons_black hch, strip_cons_black hch, List.cons.injEq]
      exact and_iff_right rfl
  rw [verdict, if_congr (not_congr hstrip) rfl (if_congr (norm_cons_inj ch src dst) rfl rfl),
    verdict]

/-- The carriage return of a line end is dropped, and nothing is noted. -/
theorem verdict_cr_lf (src dst : Text) (result : ℕ) :
    verdict ('\r' :: src) ('\n' :: dst) result = verdict src ('\n' :: dst) result := by
  rw [verdict, strip_cons_white (show isWhiteSpace '\r' = true by decide),
    if_congr Iff.rfl rfl (if_congr (norm_cr_eq_lf src dst) rfl rfl), verdict]

/-- A blank that only one text has is dropped, and noted. -/
theorem verdict_white {srcChr dstChr : Char} (src dst : Text) (result : ℕ)
    (hne : srcChr ≠ dstChr) (hs : ¬(srcChr = '\r' ∧ dstChr = '\n'))
    (hd : ¬(dstChr = '\r' ∧ srcChr = '\n')) (hwhite : isWhiteSpace srcChr = true) :
    verdict (srcChr :: src) (dstChr :: dst) result =
      verdict src (dstChr :: dst) MATCHER_PRESENT_ERROR := by
  rw [verdict_presentError, verdict, strip_cons_white hwhite,
    if_neg (norm_cons_ne src dst hne hs hd)]

/-- Two different black characters decide. -/
theorem verdict_black {srcChr dstChr : Char} (src dst : Text) (result : ℕ)
    (hne : srcChr ≠ dstChr) (hs : isWhiteSpace srcChr = false)
    (hd : isWhiteSpace dstChr = false) :
    verdict (srcChr :: src) (dstChr :: dst) result = MATCHER_WRONG_ANWSER := by
  rw [verdict, strip_cons_black hs, strip_cons_black hd, if_pos]
  intro h
  exact hne (List.cons.inj h).1

/-- The scan is over when one buffer is used up. -/
theorem compareLoop_end (fuel : ℕ) (src dst : Text) (result : ℕ) (hend : src = [] ∨ dst = []) :
    compareLoop fuel src dst result = verdict src dst result := by
  rw [← skipRests_eq src dst result hend]
  unfold compareLoop
  split
  · rename_i heq hsrc hdst
    rcases hend with h | h <;> simp_all
  · cases (skipRest src result).bind (skipRest dst) <;> rfl

/-- The invariant of the scan: the answer is the one the rests of the buffers give. By induction on
the fuel, with one of the branch lemmas above for each pass. -/
theorem compareLoop_eq (fuel : ℕ) (src dst : Text) (result : ℕ)
    (hfuel : src.length + dst.length ≤ fuel) :
    compareLoop fuel src dst result = verdict src dst result := by
  induction fuel generalizing src dst result with
  | zero =>
    have hsrc : src = [] := List.eq_nil_of_length_eq_zero (by omega)
    exact compareLoop_end 0 src dst result (Or.inl hsrc)
  | succ fuel ih =>
    match src, dst with
    | [], _ => exact compareLoop_end _ _ _ _ (Or.inl rfl)
    | _ :: _, [] => exact compareLoop_end _ _ _ _ (Or.inr rfl)
    | srcChr :: src, dstChr :: dst =>
      rw [List.length_cons, List.length_cons] at hfuel
      rw [compareLoop]
      -- one case for each branch of the loop: equal characters
      split
      · rename_i heq
        rw [ih src dst result (by omega), heq, verdict_cons_self]
      rename_i hne
      -- a carriage return in front of a line feed, in the source
      split
      · rename_i hs
        rw [ih src _ result (by rw [List.length_cons]; omega), hs.1, hs.2, verdict_cr_lf]
      rename_i hs
      -- the same in the destination
      split
      · rename_i hd
        rw [ih _ dst result (by rw [List.length_cons]; omega), hd.1, hd.2, verdict_comm,
          verdict_comm ('\n' :: src), verdict_cr_lf]
      rename_i hd
      -- white space that is there on one side only
      split
      · rename_i hwhite
        rw [ih src _ _ (by rw [List.length_cons]; omega),
          verdict_white src dst result hne hs hd hwhite]
      rename_i hblack
      -- the same on the other side
      split
      · rename_i hwhite
        rw [ih _ dst _ (by rw [List.length_cons]; omega), verdict_comm,
          verdict_comm (srcChr :: src), verdict_white dst src result (Ne.symm hne) hd hs hwhite]
      -- two different characters that count
      · rename_i hblack'
        rw [verdict_black src dst result hne (by simpa using hblack) (by simpa using hblack')]

/-- `compare` is determined by the two normal forms. -/
theorem compare_eq_verdict (src dst : Text) : compare src dst = verdict src dst MATCHER_ACCEPT :=
  compareLoop_eq _ src dst MATCHER_ACCEPT (Nat.le_refl _)

/-- `compare` accepts exactly the texts with one line feed form. -/
theorem compare_accept_iff_norm (src dst : Text) :
    compare src dst = MATCHER_ACCEPT ↔ norm src = norm dst := by
  rw [compare_eq_verdict, verdict]
  constructor
  · intro h
    by_contra hne
    rw [if_neg hne] at h
    split at h <;> cases h
  · intro h
    rw [if_neg (not_not.mpr (strip_eq_of_norm_eq h)), if_pos h]

/-- `compare` answers a wrong answer exactly for two texts that differ without their white space. It
accepts exactly two texts that are equal up to carriage returns in line ends, and else it answers a
presentation error. So the answer is symmetric, and to be accepted is an equivalence. The texts are
any two texts, of any length. -/
theorem compare_normalForms :
    (∀ src dst : Text,
      (compare src dst = MATCHER_WRONG_ANWSER ↔ strip src ≠ strip dst) ∧
      (compare src dst = MATCHER_ACCEPT ↔ norm src = norm dst) ∧
      (compare src dst = MATCHER_PRESENT_ERROR ↔ strip src = strip dst ∧ norm src ≠ norm dst) ∧
      compare src dst = compare dst src) ∧
    Equivalence fun src dst : Text => compare src dst = MATCHER_ACCEPT := by
  refine ⟨fun src dst => ⟨?_, compare_accept_iff_norm src dst, ?_, ?_⟩, ?_⟩
  -- the contents differ
  · rw [compare_eq_verdict, verdict]
    constructor
    · intro h heq
      rw [if_neg (not_not.mpr heq)] at h
      split at h <;> cases h
    · intro h
      rw [if_pos h]
  -- the contents agree, the normal forms do not
  · rw [compare_eq_verdict, verdict]
    constructor
    · intro h
      split at h
      · cases h
      · rename_i hstrip
        split at h
        · cases h
        · rename_i hnorm
          exact ⟨not_not.mp hstrip, hnorm⟩
    · rintro ⟨hstrip, hnorm⟩
      rw [if_neg (not_not.mpr hstrip), if_neg hnorm]
  -- `verdict` is symmetric
  · rw [compare_eq_verdict, compare_eq_verdict, verdict_comm]
  -- equality of normal forms is an equivalence
  · simp only [compare_accept_iff_norm]
    exact ⟨fun _ => rfl, Eq.symm, Eq.trans⟩

/-- A line end may be doubled on one side, and a lone carriage return may not. -/
example : compare "1\r\r\n".toList "1\n".toList = MATCHER_ACCEPT ∧
    compare "1\r2".toList "12".toList = MATCHER_PRESENT_ERROR := by decide

end OnlineJudger.Matcher
