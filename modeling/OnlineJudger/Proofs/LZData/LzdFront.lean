import OnlineJudger.Proofs.LZData.LzdMoves
import OnlineJudger.Proofs.LZData.ReadWrite

/-!
# `OnlineJudger.Proofs.LZData.LzdFront`: the front of a text

What the lzd parser makes of a text, if only a front `t` of it is known. The skips stop within
the front, or at a newline that follows it, so a move on the front is a move on the text
(`Move.append`, `Move.append_newline`).

* `front_cases`: either a brace of the front closes the section, and nothing behind the front
  counts, or there are two texts that can follow the front and lead to different trees.
-/

set_option autoImplicit false

namespace OnlineJudger

open Lib

namespace CParser

variable {P P' : Pending} {t t' u : Text} {change : Option (Text × Text)} {node : LZData}

/-! ### Moves on the front of a text -/

/-- A skip that ends in `rest` does so with `u` behind it: it has stopped at a character, or a
newline follows at which it stops. -/
def Firm (rest u : Text) : Prop := rest ≠ [] ∨ ∃ s, u = '\n' :: s

/-- Skipping characters none of which is a newline. -/
theorem dropWhile_append_of_firm {f : Char → Bool} (hf : f '\n' = false)
    (h : Firm (t.dropWhile f) u) : (t ++ u).dropWhile f = t.dropWhile f ++ u := by
  rw [List.dropWhile_append]
  split_ifs with hempty
  · rw [List.isEmpty_iff] at hempty
    obtain ⟨s, rfl⟩ := h.resolve_left fun hne => hne hempty
    rw [hempty, List.dropWhile_cons_of_neg (by rw [hf]; exact Bool.false_ne_true), List.nil_append]
  · rfl

/-- Reading a value, which ends with its line. By the cases of `getAStrLoop`: what ends the value in
front ends it in the longer text, too. -/
theorem getAStrLoop_append_of_firm (h : Firm (getAStrLoop t).2 u) :
    getAStrLoop (t ++ u) = ((getAStrLoop t).1, (getAStrLoop t).2 ++ u) := by
  -- a value ends in front of these texts
  have hstop {ch : Char} (hch : isValueEnd ch = true) (s : Text) :
      getAStrLoop (ch :: s) = ([], ch :: s) := by
    cases s <;> simp only [getAStrLoop, if_pos hch]
  induction t using getAStrLoop.induct with
  | case1 =>
    obtain ⟨s, rfl⟩ := h.resolve_left fun hne => hne rfl
    exact hstop rfl s
  | case2 ch hch =>
    rw [List.singleton_append, hstop hch, hstop hch]
    rfl
  | case3 ch hch =>
    simp only [getAStrLoop, if_neg hch] at h ⊢
    obtain ⟨s, rfl⟩ := h.resolve_left fun hne => hne rfl
    have hesc : ¬ (ch = '\\' ∧ isEscaped '\n' = true) := fun h => Bool.false_ne_true h.2
    rw [List.singleton_append, getAStrLoop, if_neg hch, if_neg hesc, hstop rfl]
    rfl
  | case4 ch next text hch =>
    rw [List.cons_append, hstop hch, hstop hch]
    rfl
  | case5 ch next text hch hesc ih =>
    simp only [getAStrLoop, if_neg hch, if_pos hesc] at h
    simp only [List.cons_append, getAStrLoop, if_neg hch, if_pos hesc, ih h]
  | case6 ch next text hch hesc ih =>
    simp only [getAStrLoop, if_neg hch, if_neg hesc] at h
    rw [List.cons_append] at ih
    simp only [List.cons_append, getAStrLoop, if_neg hch, if_neg hesc, ih h]

/-- A move on the front of a text. The exception is a comment that goes on behind the front: there
the longer text ends the comment later, or not at all. -/
theorem Move.append_of_firm (h : Move P t change P' t') (hu : Firm t' u) :
    Move P (t ++ u) change P' (t' ++ u) ∨
      ∃ w, t = '#' :: w ∧ '\n' ∉ w ∧ change = none ∧ P' = P ∧ t' = [] := by
  cases h with
  | newline => exact .inl (.newline _)
  | blank t hblank htwo =>
    have hmove := Move.blank (t ++ u) hblank htwo
    rw [behindBlanks, dropWhile_append_of_firm rfl hu] at hmove
    exact .inl hmove
  | two t hblank htwo =>
    have hmove := Move.two (t ++ u) hblank htwo
    rw [endOfLine, dropWhile_append_of_firm rfl hu] at hmove
    exact .inl hmove
  | comment _ hw =>
    have hmove := Move.comment (P := P) (t' ++ u) hw
    refine .inl ?_
    rwa [List.cons_append, List.append_assoc, List.cons_append]
  | lastComment hw => exact .inr ⟨_, rfl, hw, rfl, rfl, rfl⟩
  | semicolon => exact .inl (.semicolon _)
  | other _ hname => exact .inl (.other _ hname)
  | equal t hmal =>
    have hmove := Move.equal (t ++ u) hmal
    rw [getAStrLoop_append_of_firm hu] at hmove
    exact .inl hmove
  | malformed t hch hmal =>
    have hmove := Move.malformed (t ++ u) hch hmal
    rw [endOfLine, dropWhile_append_of_firm rfl hu] at hmove
    exact .inl hmove

/-- The front is read, and the move stops within it. -/
theorem Move.append (h : Move P t change P' t') (ht' : t' ≠ []) (u : Text) :
    Move P (t ++ u) change P' (t' ++ u) := by
  rcases h.append_of_firm (u := u) (.inl ht') with hmove | ⟨-, -, -, -, -, hnil⟩
  · exact hmove
  · exact absurd hnil ht'

/-- A newline follows the front. A comment takes it, too. -/
theorem Move.append_newline (h : Move P t change P' t') :
    (∀ s, Move P (t ++ '\n' :: s) change P' (t' ++ '\n' :: s)) ∨
      (t' = [] ∧ change = none ∧ ∀ s, Move P (t ++ '\n' :: s) none (P'.newline false) s) := by
  by_cases hlast : ∃ w, t = '#' :: w ∧ '\n' ∉ w ∧ change = none ∧ P' = P ∧ t' = []
  · obtain ⟨w, rfl, hw, hchange, rfl, ht'⟩ := hlast
    exact .inr ⟨ht', hchange, fun s => .comment s hw⟩
  · exact .inl fun s => (h.append_of_firm (.inr ⟨s, rfl⟩)).resolve_right hlast

/-! ### An assignment behind a newline -/

/-- Behind a newline, no name has begun. -/
theorem Pending.newline_curVariable (P : Pending) (last : Bool) :
    (P.newline last).curVariable = [] := by
  unfold Pending.newline
  split_ifs <;> rfl

/-- A name that begins behind a newline can be assigned to, whatever was pending in front of it. -/
theorem Pending.not_malformed_add_newline (P : Pending) (last : Bool) (ch : Char) :
    ¬ ((P.newline last).add ch).Malformed := by
  have hcur : ((P.newline last).add ch).curVariable = [ch] := by
    rw [Pending.add, P.newline_curVariable, List.nil_append]
  rintro (⟨-, hnil⟩ | ⟨hvar, -, hline⟩)
  · rw [hcur] at hnil
    exact List.cons_ne_nil _ _ hnil
  · -- a name that is kept over the end of a line was not read on this line
    unfold Pending.add Pending.newline at hvar hline
    split_ifs at hvar hline
    exact hvar rfl

/-- The last line of a text assigns to `x`. Then the text is read, and the tree is the one behind
the assignment. -/
theorem At.evals_assign {p : CParser} {last : Bool} {value : Text}
    (h : At p node (P.newline last) ('x' :: '=' :: value))
    (hvalue : getAStrLoop value = (value, []))
    (htrim : trimString value = value) :
    ∃ r, Evals parseLoop p r ∧ r.strText = [] ∧ r.curNode = (node.write ['x'] value).1 := by
  have hname : ((P.newline last).add 'x').name = ['x'] := by
    rw [Pending.name, Pending.add, P.newline_curVariable]
    rfl
  obtain ⟨p₁, hgo₁, hp₁⟩ := h.other rfl
  obtain ⟨p₂, hgo₂, hp₂⟩ := hp₁.equal (P.not_malformed_add_newline last 'x')
  rw [hvalue, hname, htrim] at hp₂
  exact ⟨p₂, (hgo₁.trans hgo₂).reaches _ hp₂.evals_nil, hp₂.strText, hp₂.curNode⟩

/-! ### What a front decides -/

/-- From here on two runs read everything, and they end with different trees. -/
def Differ (p q : CParser) : Prop :=
  ∃ r r', Evals parseLoop p r ∧ Evals parseLoop q r' ∧ r.strText = [] ∧ r'.strText = [] ∧
    r.curNode ≠ r'.curNode

/-- Two runs that come to such places. -/
theorem Differ.of_reaches {p p' q q' : CParser} (hp : Reaches p p') (hq : Reaches q q')
    (h : Differ p' q') : Differ p q := by
  obtain ⟨r, r', hr, hr', hrest⟩ := h
  exact ⟨r, r', hp r hr, hq r' hr', hrest⟩

/-- Two values for `x` make two trees: reading `x` tells them apart. -/
theorem differ_assign {p q : CParser} {last : Bool}
    (hp : At p node (P.newline last) ('x' :: '=' :: ['1']))
    (hq : At q node (P.newline last) ('x' :: '=' :: ['2'])) : Differ p q := by
  obtain ⟨r, hr, htext, hnode⟩ := hp.evals_assign (by decide) (by decide)
  obtain ⟨r', hr', htext', hnode'⟩ := hq.evals_assign (by decide) (by decide)
  refine ⟨r, r', hr, hr', htext, htext', ?_⟩
  rw [hnode, hnode']
  intro h
  have hvalue := LZData.write_value_injective h
  revert hvalue
  decide

/-- The section is open behind the front `t`: two texts can follow that lead to two trees. -/
def Undecided (node : LZData) (P : Pending) (t : Text) : Prop :=
  ∀ p q, At p node P (t ++ '\n' :: 'x' :: '=' :: ['1']) →
    At q node P (t ++ '\n' :: 'x' :: '=' :: ['2']) → Differ p q

/-- The section ends within the front, with the tree `node'` and in front of `t'`, whatever follows
the front. -/
def Decided (node : LZData) (P : Pending) (t : Text) (node' : LZData) (t' : Text) : Prop :=
  ∀ u p, At p node P (t ++ u) →
    ∃ r, Evals parseLoop p r ∧ r.curNode = node' ∧ r.strText = t' ++ u

/-- A section that ends within the front. The outer one goes on with it as a child. -/
theorem At.brace_decided {p : CParser} {inner : LZData} (h : At p node P ('{' :: (t ++ u)))
    (hmal : ¬ P.Malformed) (hinner : Decided ⟨P.name, [], []⟩ {} t inner t') :
    ∃ p', Reaches p p' ∧ At p' (node.addChild inner) {} (t' ++ u) := by
  obtain ⟨q, hq, -, -, hreaches⟩ := h.brace hmal
  obtain ⟨r, hr, hnode, htext⟩ := hinner u q hq
  obtain ⟨p', hreach, -, hp'⟩ := hreaches r hr
  rw [hnode, htext] at hp'
  exact ⟨p', hreach, hp'⟩

/-- The child that is added last can be told from the tree. -/
theorem addChild_injective {node c c' : LZData} (h : node.addChild c = node.addChild c') :
    c = c' := by
  have hchildren : node.children ++ [c] = node.children ++ [c'] := congrArg LZData.children h
  exact List.singleton_inj.mp (List.append_cancel_left hchildren)

/-- A section that is open behind the front leaves the outer ones open, and two trees of it make two
trees around it. -/
theorem undecided_brace (hmal : ¬ P.Malformed) (hinner : Undecided ⟨P.name, [], []⟩ {} t) :
    Undecided node P ('{' :: t) := by
  intro p q hp hq
  obtain ⟨p₀, hp₀, -, -, hreaches⟩ := hp.brace hmal
  obtain ⟨q₀, hq₀, -, -, hreaches'⟩ := hq.brace hmal
  obtain ⟨r, r', hr, hr', htext, htext', hne⟩ := hinner p₀ q₀ hp₀ hq₀
  obtain ⟨p', hreach, -, hp'⟩ := hreaches r hr
  obtain ⟨q', hreach', -, hq'⟩ := hreaches' r' hr'
  rw [htext] at hp'
  rw [htext'] at hq'
  refine ⟨p', q', hreach _ hp'.evals_nil, hreach' _ hq'.evals_nil, hp'.strText, hq'.strText, ?_⟩
  rw [hp'.curNode, hq'.curNode]
  exact fun h => hne (addChild_injective h)

/-- A move leaves open what is open behind it. -/
theorem Move.undecided (hmove : Move P t change P' t')
    (h : Undecided (applyChange node change) P' t') : Undecided node P t := by
  intro p q hp hq
  rcases hmove.append_newline with hfront | ⟨rfl, rfl, hcomment⟩
  · obtain ⟨p', hreach, hp'⟩ := (hfront _).reaches hp
    obtain ⟨q', hreach', hq'⟩ := (hfront _).reaches hq
    exact (h p' q' hp' hq').of_reaches hreach hreach'
  · -- the comment ends with the newline behind the front
    obtain ⟨p', hreach, hp'⟩ := (hcomment _).reaches hp
    obtain ⟨q', hreach', hq'⟩ := (hcomment _).reaches hq
    exact (differ_assign hp' hq').of_reaches hreach hreach'

/-- A brace that counts closes the section within the text, or none does. By induction on the length
of the text, with a case for each thing the parser can meet. -/
theorem front_cases (node : LZData) (P : Pending) (t : Text) :
    (∃ node' t', walk id [] (kept (.names P) t) = .closed () (kept (.names {}) t') ∧
        t'.length < t.length ∧ Decided node P t node' t') ∨
      ((∃ stack, walk id [] (kept (.names P) t) = .inside stack) ∧ Undecided node P t) := by
  -- on the length of the text: moves and sections make it shorter
  induction hn : t.length using Nat.strong_induction_on generalizing node P t with
  | _ n ih =>
  rcases move_cases P t with rfl | ⟨t, rfl⟩ | ⟨t, rfl, hmal⟩ | ⟨change, P', t', hmove⟩
  · refine .inr ⟨⟨[], rfl⟩, fun p q hp hq => ?_⟩
    obtain ⟨p', hgo, hp'⟩ := hp.newline true
    obtain ⟨q', hgo', hq'⟩ := hq.newline true
    exact (differ_assign hp' hq').of_reaches hgo.reaches hgo'.reaches
  · refine .inl ⟨node, t, rfl, ?_, fun u p hp => ?_⟩
    · rw [← hn]
      exact Nat.lt_succ_self _
    · obtain ⟨r, hr, hnode, htext, -⟩ := hp.evals_close
      exact ⟨r, hr, hnode, htext⟩
  · rw [List.length_cons] at hn
    have hwalk : walk id [] (kept (.names P) ('{' :: t)) = walk id [()] (kept (.names {}) t) := by
      have hbrace : (Mode.names P).brace '{' = .opening () := if_neg hmal
      have hafter : (Mode.names P).after '{' = .names {} := if_neg hmal
      rw [kept, hbrace, hafter]
      rfl
    rw [← List.nil_append [()], walk_concat] at hwalk
    rcases ih t.length (by omega) ⟨P.name, [], []⟩ {} t rfl with
      ⟨inner, t₁, hclosed, hlt, hinner⟩ | ⟨⟨stack, hopen⟩, hinner⟩
    · -- the outer section goes on behind the inner one
      rw [hclosed] at hwalk
      simp only [if_true] at hwalk
      rw [hwalk]
      rcases ih t₁.length (by omega) (node.addChild inner) {} t₁ rfl with
        ⟨node', t₂, hclosed', hlt', houter⟩ | ⟨hopen, houter⟩
      · refine .inl ⟨node', t₂, hclosed', by omega, fun u p hp => ?_⟩
        obtain ⟨p', hreach, hp'⟩ := hp.brace_decided hmal hinner
        obtain ⟨r, hr, hrest⟩ := houter u p' hp'
        exact ⟨r, hreach r hr, hrest⟩
      · refine .inr ⟨hopen, fun p q hp hq => ?_⟩
        obtain ⟨p', hreach, hp'⟩ := hp.brace_decided hmal hinner
        obtain ⟨q', hreach', hq'⟩ := hq.brace_decided hmal hinner
        exact (houter p' q' hp' hq').of_reaches hreach hreach'
    · rw [hopen] at hwalk
      exact .inr ⟨⟨_, hwalk⟩, undecided_brace hmal hinner⟩
  · have hwalk : walk id [] (kept (.names P) t) = walk id [] (kept (.names P') t') := by
      obtain ⟨ch, u, rfl, hbrace, hpass⟩ := hmove.passes
      rw [kept, hbrace, ← hpass.walk_eq]
      rfl
    rw [hwalk]
    have hlt := hmove.length_lt
    rcases ih t'.length (by omega) (applyChange node change) P' t' rfl with
      ⟨node', t₁, hclosed, hlt', hrest⟩ | ⟨hopen, hrest⟩
    · have hne : t' ≠ [] := by
        rintro rfl
        exact absurd hlt' (Nat.not_lt_zero _)
      refine .inl ⟨node', t₁, hclosed, by omega, fun u p hp => ?_⟩
      obtain ⟨p', hreach, hp'⟩ := (hmove.append hne u).reaches hp
      obtain ⟨r, hr, hend⟩ := hrest u p' hp'
      exact ⟨r, hreach r hr, hend⟩
    · exact .inr ⟨hopen, hmove.undecided hrest⟩

end CParser

end OnlineJudger
