/-
SPOTS BETWEEN FRAGMENTS. After each token of a template the program stands between two fragments: at a line, which
comes next, at a depth, and inside of the constructs that are open there. Every fragment of a passage is marked with
the families of the constructs around what follows it.

- `marks_page`: the marks of a passage are what its tokens say, one after the other.
- `spots_prefix`: where the program stands after some tokens is a spot of its marks.
- `charted_passage`: the spots of a passage lie in its lines, and no deeper block comes back to its first or last
  line.
-/
import Stencil.Proofs.Watch

namespace Stencil

/-- a spot between two fragments; the innermost construct around comes first -/
structure Spot where
  line : Nat
  level : Int
  around : List Family
  deriving DecidableEq, Repr

/-- the constructs around what follows a token -/
def Token.enclosing (k : List Family) (t : Token) : List Family :=
  match t.kind.opens? with
  | some f => f :: k
  | none => if t.kind = .closing then k.tail else k

/-- the constructs around what follows each of some tokens -/
def enclosings (k : List Family) : List Token → List (List Family)
  | [] => []
  | t :: ts => t.enclosing k :: enclosings (t.enclosing k) ts

/-- how many lines fragments have -/
def lineCount (fs : List Fragment) : Nat := (fs.map fun f => f.lines.length).sum

/-- a fragment, and the constructs around what follows it -/
abbrev Mark := Fragment × List Family

/-- the spots before, between and after fragments -/
def spots (line : Nat) (level : Int) (k : List Family) : List Mark → List Spot
  | [] => [⟨line, level, k⟩]
  | (f, k') :: ms => ⟨line, level, k⟩ :: spots (line + f.lines.length) (level + f.shift) k' ms

mutual

/-- the fragments of a passage, marked -/
def Passage.marks (n : Nat) (k : List Family) : Passage → List Mark
  | .done => []
  | .act a rest => (a.fragment, k) :: rest.marks n k
  | .construct o body rest =>
    (o.first n, o.family :: k) :: (body.marks (n + o.temporaries) (o.family :: k) ++
      (o.last, k) :: rest.marks (n + o.temporaries + body.temporaries) k)
  | .choice c body more rest =>
    (whenFragment c, .conditional :: k) :: (body.marks n (.conditional :: k) ++
      (more.marks (n + body.temporaries) k ++ rest.marks (n + body.temporaries + more.temporaries) k))

/-- the fragments of branches, marked -/
def Choices.marks (n : Nat) (k : List Family) : Choices → List Mark
  | .none => [(endFragment, k)]
  | .elsewhen c body more =>
    (elsewhenFragment c, .conditional :: k) :: (body.marks n (.conditional :: k) ++
      more.marks (n + body.temporaries) k)
  | .otherwise body =>
    (otherwiseFragment, .conditional :: k) :: (body.marks n (.conditional :: k) ++ [(endFragment, k)])

end

/-! ## Marks and tokens -/

theorem enclosing_of_isSingle {t : Token} (h : t.kind.isSingle = true) (k : List Family) : t.enclosing k = k := by
  unfold Token.enclosing
  cases ht : t.kind <;> simp [ht, TokenKind.isSingle] at h <;> simp [TokenKind.opens?]

theorem enclosing_of_opener {t : Token} {f : Family} (h : t.kind = f.opener) (k : List Family) :
    t.enclosing k = f :: k := by
  unfold Token.enclosing
  cases f <;> simp [h, Family.opener, TokenKind.opens?]

theorem enclosing_of_closes? {t : Token} {f : Family} (h : t.closes? = some f) (k : List Family) :
    t.enclosing k = k.tail := by
  unfold Token.enclosing
  simp [Token.kind_of_closes? h, TokenKind.opens?]

theorem enclosing_of_branch {t : Token} (h : t.kind = .elsewhen ∨ t.kind = .otherwise) (k : List Family) :
    t.enclosing k = k := by
  unfold Token.enclosing
  rcases h with h | h <;> simp [h, TokenKind.opens?]

theorem enclosings_append (k : List Family) (a b : List Token) :
    enclosings k (a ++ b) = enclosings k a ++ enclosings (a.foldl Token.enclosing k) b := by
  induction a generalizing k with
  | nil => rfl
  | cons t a ih => simp [enclosings, ih]

theorem length_enclosings (k : List Family) (ts : List Token) : (enclosings k ts).length = ts.length := by
  induction ts generalizing k with
  | nil => rfl
  | cons t ts ih => simp [enclosings, ih]

mutual

/-- the constructs around a complete derivation are open after it again -/
theorem foldl_enclosing : ∀ (n : Nested) (k : List Family), n.tokens.foldl Token.enclosing k = k
  | .done, _ => rfl
  | .single t ht rest, k => by
    rw [Nested.tokens, List.foldl_cons, enclosing_of_isSingle ht, foldl_enclosing rest]
  | .construct f _ start hs body stop he rest, k => by
    rw [Nested.tokens, List.foldl_cons, List.foldl_append, enclosing_of_opener hs, foldl_enclosing body,
      List.foldl_cons,
      enclosing_of_closes? he, List.tail_cons, foldl_enclosing rest]
  | .conditional start hs body more rest, k => by
    rw [Nested.tokens, List.foldl_cons, List.foldl_append, List.foldl_append,
      enclosing_of_opener (f := .conditional) hs, foldl_enclosing body, foldl_enclosing_branches more,
      foldl_enclosing rest]

theorem foldl_enclosing_branches : ∀ (b : Branches) (k : List Family),
    b.tokens.foldl Token.enclosing (.conditional :: k) = k
  | .stop t ht, k => by
    rw [Branches.tokens, List.foldl_cons, List.foldl_nil, enclosing_of_closes? ht, List.tail_cons]
  | .elsewhen t ht body more, k => by
    rw [Branches.tokens, List.foldl_cons, List.foldl_append, enclosing_of_branch (.inl ht), foldl_enclosing body,
      foldl_enclosing_branches more]
  | .otherwise t ht body stop he, k => by
    rw [Branches.tokens, List.foldl_cons, List.foldl_append, enclosing_of_branch (.inr ht), foldl_enclosing body,
      List.foldl_cons, List.foldl_nil, enclosing_of_closes? he, List.tail_cons]

end

mutual

theorem fst_marks : ∀ (p : Passage) (n : Nat) (k : List Family), (p.marks n k).map Prod.fst = p.fragments n
  | .done, _, _ => rfl
  | .act a rest, n, k => by rw [Passage.marks, Passage.fragments, List.map_cons, fst_marks rest]
  | .construct o body rest, n, k => by
    rw [Passage.marks, Passage.fragments, List.map_cons, List.map_append, List.map_cons, fst_marks body, fst_marks rest]
  | .choice c body more rest, n, k => by
    rw [Passage.marks, Passage.fragments, List.map_cons, List.map_append, List.map_append, fst_marks body,
      fst_marks_choices more, fst_marks rest]

theorem fst_marks_choices : ∀ (more : Choices) (n : Nat) (k : List Family),
    (more.marks n k).map Prod.fst = more.fragments n
  | .none, _, _ => rfl
  | .elsewhen c body more, n, k => by
    rw [Choices.marks, Choices.fragments, List.map_cons, List.map_append, fst_marks body, fst_marks_choices more]
  | .otherwise body, n, k => by
    rw [Choices.marks, Choices.fragments, List.map_cons, List.map_append, fst_marks body]
    rfl

end

variable {m : Directive.Mode}

mutual

/-- **The marks of a passage** are what the tokens of its derivation say. -/
theorem marks_page : ∀ (n : Nested) {bound : List Text} {p : Passage} (_ : n.page m bound = .ok p) (j : Nat)
    (k : List Family), (p.marks j k).map Prod.snd = enclosings k n.tokens
  | .done, _, p, h, j, k => by
    cases h
    rfl
  | .single t ht rest, _, p, h, j, k => by
    obtain ⟨a, r, -, hr, rfl⟩ := page_single_ok h
    simp only [Passage.marks, Nested.tokens, List.map_cons, enclosings, enclosing_of_isSingle ht, marks_page rest hr]
  | .construct f hf start hs body stop he rest, _, p, h, j, k => by
    obtain ⟨o, b, r, -, rfl, hb, hr, rfl⟩ := page_construct_ok h
    simp only [Passage.marks, Nested.tokens, List.map_cons, List.map_append, enclosings, enclosings_append,
      enclosing_of_opener hs, foldl_enclosing, enclosing_of_closes? he, List.tail_cons, marks_page body hb,
      marks_page rest hr]
  | .conditional start hs body more rest, _, p, h, j, k => by
    obtain ⟨c, b, ms, r, -, hb, hms, hr, rfl⟩ := page_conditional_ok h
    simp only [Passage.marks, Nested.tokens, List.map_cons, List.map_append, enclosings, enclosings_append,
      enclosing_of_opener (f := .conditional) hs, foldl_enclosing, foldl_enclosing_branches, marks_page body hb,
      marks_page_branches more hms, marks_page rest hr]

/-- the marks of branches are what their tokens say -/
theorem marks_page_branches : ∀ (b : Branches) {bound : List Text} {p : Choices} (_ : b.page m bound = .ok p) (j : Nat)
    (k : List Family), (p.marks j k).map Prod.snd = enclosings (.conditional :: k) b.tokens
  | .stop t ht, _, p, h, j, k => by
    cases h
    simp only [Choices.marks, Branches.tokens, List.map_cons, List.map_nil, enclosings, enclosing_of_closes? ht,
      List.tail_cons]
  | .elsewhen t ht body more, _, p, h, j, k => by
    obtain ⟨c, b, ms, -, hb, hms, rfl⟩ := page_elsewhen_ok h
    simp only [Choices.marks, Branches.tokens, List.map_cons, List.map_append, enclosings, enclosings_append,
      enclosing_of_branch (.inl ht), foldl_enclosing, marks_page body hb, marks_page_branches more hms]
  | .otherwise t ht body stop he, _, p, h, j, k => by
    obtain ⟨b, hb, rfl⟩ := page_otherwise_ok h
    simp only [Choices.marks, Branches.tokens, List.map_cons, List.map_nil, List.map_append, enclosings,
      enclosings_append, enclosing_of_branch (.inr ht), foldl_enclosing, enclosing_of_closes? he, List.tail_cons,
      marks_page body hb]

end

/-! ## Spots of marks -/

/-- the constructs around what follows marks -/
def lastAround (k : List Family) : List Mark → List Family
  | [] => k
  | (_, k') :: ms => lastAround k' ms

theorem lastAround_append (k : List Family) (a b : List Mark) :
    lastAround k (a ++ b) = lastAround (lastAround k a) b := by
  induction a generalizing k with
  | nil => rfl
  | cons f a ih => exact ih f.2

theorem length_placeLines (d : Int) (fs : List Fragment) : (placeLines d fs).length = lineCount fs := by
  induction fs generalizing d with
  | nil => rfl
  | cons f fs ih => simp [placeLines, lineCount, ih]

theorem start_mem_spots (line : Nat) (level : Int) (k : List Family) (ms : List Mark) :
    ⟨line, level, k⟩ ∈ spots line level k ms := by
  cases ms <;> exact List.mem_cons_self

/-- **The spots of marks one after the other** are those of the first, and those of the others from there on. -/
theorem mem_spots_append (line : Nat) (level : Int) (k : List Family) (a b : List Mark) (q : Spot) :
    q ∈ spots line level k (a ++ b) ↔ q ∈ spots line level k a ∨
      q ∈ spots (line + lineCount (a.map Prod.fst)) (depthAfter level (a.map Prod.fst)) (lastAround k a) b := by
  induction a generalizing line level k with
  | nil =>
    have hline : line + lineCount ([] : List Fragment) = line := Nat.add_zero line
    have hlevel : depthAfter level [] = level := Int.add_zero level
    simp only [List.nil_append, spots, List.map_nil, lastAround, hline, hlevel, List.mem_singleton]
    refine ⟨.inr, fun h => h.elim (fun h => ?_) id⟩
    rw [h]
    exact start_mem_spots line level k b
  | cons f a ih =>
    obtain ⟨f, k'⟩ := f
    have hline : line + f.lines.length + lineCount (a.map Prod.fst) = line + lineCount (f :: a.map Prod.fst) := by
      simp only [lineCount, List.map_cons, List.sum_cons]
      omega
    have hlevel : depthAfter (level + f.shift) (a.map Prod.fst) = depthAfter level (f :: a.map Prod.fst) := by
      simp only [depthAfter, List.map_cons, List.sum_cons]
      omega
    simp only [List.cons_append, spots, List.mem_cons, ih, List.map_cons, lastAround, hline, hlevel, or_assoc]

/-- where the program stands after some of its marks is a spot of it -/
theorem mem_spots_prefix (line : Nat) (level : Int) (k : List Family) (a b : List Mark) :
    ⟨line + lineCount (a.map Prod.fst), depthAfter level (a.map Prod.fst), lastAround k a⟩ ∈
      spots line level k (a ++ b) :=
  (mem_spots_append line level k a b _).2 (.inr (start_mem_spots _ _ _ b))

mutual

theorem lastAround_marks : ∀ (p : Passage) (n : Nat) (k : List Family), lastAround k (p.marks n k) = k
  | .done, _, _ => rfl
  | .act a rest, n, k => lastAround_marks rest n k
  | .construct o body rest, n, k => by
    rw [Passage.marks, lastAround, lastAround_append, lastAround, lastAround_marks rest]
  | .choice c body more rest, n, k => by
    rw [Passage.marks, lastAround, lastAround_append, lastAround_append, lastAround_marks body,
      lastAround_marks_choices more, lastAround_marks rest]

theorem lastAround_marks_choices : ∀ (more : Choices) (n : Nat) (k : List Family),
    lastAround (.conditional :: k) (more.marks n k) = k
  | .none, _, _ => rfl
  | .elsewhen c body more, n, k => by
    rw [Choices.marks, lastAround, lastAround_append, lastAround_marks body, lastAround_marks_choices more]
  | .otherwise body, n, k => by
    rw [Choices.marks, lastAround, lastAround_append]
    rfl

end

theorem size_readBlocks (ls : List Line) : (readBlocks ls).size = ls.length := by
  induction ls using readBlocks.induct with
  | case1 => rw [readBlocks]; rfl
  | case2 l ls hs ihbody ihrest =>
    have hsplit := congrArg List.length (List.takeWhile_append_dropWhile (p := fun m : Line => l.depth < m.depth)
      (l := ls))
    rw [List.length_append] at hsplit
    rw [readBlocks, if_pos hs, Block.size, ihbody, ihrest, List.length_cons, hsplit]
  | case3 l ls hs ih =>
    rw [readBlocks, if_neg hs, Block.size, ih, List.length_cons]

/-- a block that fragments are read as has as many statements as they have lines -/
theorem LaidOut.size {start d : Int} {fs : List Fragment} {b : Block} (h : LaidOut start d fs b) :
    b.size = lineCount fs := by
  have hreads := h.reads [] (outside_nil d)
  rw [List.append_nil, readBlocks, Block.append_done] at hreads
  rw [← hreads, size_readBlocks, length_placeLines]

/-! ## Charts -/

/-- spots that lie between two lines, none of them left of a level: the first line is met at this level only, and the
last one is met there inside of the same constructs -/
structure Charted (line last : Nat) (level : Int) (k : List Family) (ss : List Spot) : Prop where
  ordered : line ≤ last
  range : ∀ q ∈ ss, line ≤ q.line ∧ q.line ≤ last ∧ level ≤ q.level
  first : ∀ q ∈ ss, q.line = line → q = ⟨line, level, k⟩
  last : ∀ q ∈ ss, q.line = last → q.level = level → q.around = k

/-- spots of branches, from the end of the body before them on -/
structure Branching (line last : Nat) (level : Int) (k : List Family) (ss : List Spot) : Prop where
  ordered : line ≤ last
  range : ∀ q ∈ ss, line ≤ q.line ∧ q.line ≤ last ∧ level ≤ q.level
  first : ∀ q ∈ ss, q.line = line → q.level ≤ level + 1 ∧ (q.level = level + 1 → q.around = .conditional :: k)
  last : ∀ q ∈ ss, q.line = last → q.level = level → q.around = k

section

variable {line inner after last final : Nat} {level deep : Int} {k k' : List Family} {ss bs ms rs : List Spot}

/-- the spot before a fragment that comes back to its level -/
theorem charted_single (h : line ≤ last) (level : Int) (k : List Family) :
    Charted line last level k [⟨line, level, k⟩] where
  ordered := h
  range q hq := by
    rw [List.mem_singleton.1 hq]
    exact ⟨Nat.le_refl _, h, Int.le_refl _⟩
  first q hq _ := List.mem_singleton.1 hq
  last q hq _ _ := by rw [List.mem_singleton.1 hq]

/-- parts one after the other -/
theorem Charted.append (hb : Charted line last level k bs) (hr : Charted last final level k rs)
    (hs : ∀ q ∈ ss, q ∈ bs ∨ q ∈ rs) : Charted line final level k ss where
  ordered := Nat.le_trans hb.ordered hr.ordered
  range q hq := by
    have := hb.ordered
    have := hr.ordered
    rcases hs q hq with hq | hq
    · have := hb.range q hq
      exact ⟨by omega, by omega, by omega⟩
    · have := hr.range q hq
      exact ⟨by omega, by omega, by omega⟩
  first q hq h := by
    have := hb.ordered
    rcases hs q hq with hq | hq
    · exact hb.first q hq h
    · have := hr.range q hq
      obtain rfl : line = last := by omega
      exact hr.first q hq h
  last q hq h h' := by
    have := hr.ordered
    rcases hs q hq with hq | hq
    · have := hb.range q hq
      exact hb.last q hq (by omega) h'
    · exact hr.last q hq h h'

/-- a construct around a body; one that ends without lines has a deeper body -/
theorem Charted.around (hb : Charted inner after deep k' bs) (hline : line < inner) (hafter : after ≤ last)
    (hdeep : level ≤ deep) (hend : after = last → level < deep) :
    Charted line last level k (⟨line, level, k⟩ :: bs) where
  ordered := by
    have := hb.ordered
    omega
  range q hq := by
    have := hb.ordered
    rcases List.mem_cons.1 hq with rfl | hq
    · exact ⟨Nat.le_refl _, by simp only; omega, Int.le_refl _⟩
    · have := hb.range q hq
      exact ⟨by omega, by omega, by omega⟩
  first q hq h := by
    rcases List.mem_cons.1 hq with rfl | hq
    · rfl
    · have := hb.range q hq
      omega
  last q hq h h' := by
    rcases List.mem_cons.1 hq with rfl | hq
    · rfl
    · have := hb.range q hq
      have := hend (by omega)
      omega

/-- the first branch of a conditional and the other ones -/
theorem Charted.choice (hb : Charted inner after (level + 1) (.conditional :: k) bs)
    (hm : Branching after last level k ms)
    (hline : line < inner) : Charted line last level k (⟨line, level, k⟩ :: (bs ++ ms)) where
  ordered := by
    have := hb.ordered
    have := hm.ordered
    omega
  range q hq := by
    have := hb.ordered
    have := hm.ordered
    simp only [List.mem_cons, List.mem_append] at hq
    rcases hq with rfl | hq | hq
    · exact ⟨Nat.le_refl _, by simp only; omega, Int.le_refl _⟩
    · have := hb.range q hq
      exact ⟨by omega, by omega, by omega⟩
    · have := hm.range q hq
      exact ⟨by omega, by omega, by omega⟩
  first q hq h := by
    have := hb.ordered
    simp only [List.mem_cons, List.mem_append] at hq
    rcases hq with rfl | hq | hq
    · rfl
    · have := hb.range q hq
      omega
    · have := hm.range q hq
      omega
  last q hq h h' := by
    simp only [List.mem_cons, List.mem_append] at hq
    rcases hq with rfl | hq | hq
    · rfl
    · have := hb.range q hq
      omega
    · exact hm.last q hq h h'

theorem branching_none (line : Nat) (level : Int) (k : List Family) :
    Branching line line level k [⟨line, level + 1, .conditional :: k⟩, ⟨line, level, k⟩] where
  ordered := Nat.le_refl line
  range q hq := by
    simp only [List.mem_cons, List.not_mem_nil, or_false] at hq
    rcases hq with rfl | rfl
    · exact ⟨Nat.le_refl _, Nat.le_refl _, by simp only; omega⟩
    · exact ⟨Nat.le_refl _, Nat.le_refl _, Int.le_refl _⟩
  first q hq _ := by
    simp only [List.mem_cons, List.not_mem_nil, or_false] at hq
    rcases hq with rfl | rfl
    · exact ⟨Int.le_refl _, fun _ => rfl⟩
    · refine ⟨by simp only; omega, fun h => ?_⟩
      simp only at h
      omega
  last q hq _ h := by
    simp only [List.mem_cons, List.not_mem_nil, or_false] at hq
    rcases hq with rfl | rfl
    · simp only at h
      omega
    · rfl

/-- another branch, and the branches after it -/
theorem Branching.cons (hb : Charted inner after (level + 1) (.conditional :: k) bs)
    (hm : Branching after last level k ms)
    (hline : line < inner) :
    Branching line last level k (⟨line, level + 1, .conditional :: k⟩ :: (bs ++ ms)) where
  ordered := by
    have := hb.ordered
    have := hm.ordered
    omega
  range q hq := by
    have := hb.ordered
    have := hm.ordered
    simp only [List.mem_cons, List.mem_append] at hq
    rcases hq with rfl | hq | hq
    · exact ⟨Nat.le_refl _, by simp only; omega, by simp only; omega⟩
    · have := hb.range q hq
      exact ⟨by omega, by omega, by omega⟩
    · have := hm.range q hq
      exact ⟨by omega, by omega, by omega⟩
  first q hq h := by
    have := hb.ordered
    simp only [List.mem_cons, List.mem_append] at hq
    rcases hq with rfl | hq | hq
    · exact ⟨Int.le_refl _, fun _ => rfl⟩
    · have := hb.range q hq
      omega
    · have := hm.range q hq
      omega
  last q hq h h' := by
    simp only [List.mem_cons, List.mem_append] at hq
    rcases hq with rfl | hq | hq
    · simp only at h'
      omega
    · have := hb.range q hq
      omega
    · exact hm.last q hq h h'

theorem Branching.sub (hm : Branching line last level k ms) (hs : ∀ q ∈ ss, q ∈ ms) :
    Branching line last level k ss where
  ordered := hm.ordered
  range q hq := hm.range q (hs q hq)
  first q hq := hm.first q (hs q hq)
  last q hq := hm.last q (hs q hq)

end

/-! ## The chart of a passage -/

theorem shift_first_last (o : Opening) (n : Nat) : (o.first n).shift + o.last.shift = 0 := by
  cases o <;> rfl

/-- a construct that ends without lines has a deeper body -/
theorem last_lines (o : Opening) (n : Nat) (h : o.last.lines.length = 0) : 0 < (o.first n).shift := by
  cases o <;> simp [Opening.last, Opening.first, Directive.endLoop, Directive.endForm, Fragment.statements] at h ⊢

theorem first_lines (o : Opening) (n : Nat) : 0 < (o.first n).lines.length ∧ 0 ≤ (o.first n).shift := by
  cases o <;> simp [Opening.first, Fragment.statements]

theorem shift_act (a : Act) : a.fragment.shift = 0 := by
  cases a <;> rfl

theorem depthAfter_marks (p : Passage) (n : Nat) (k : List Family) (d : Int) :
    depthAfter d ((p.marks n k).map Prod.fst) = d := by
  rw [fst_marks]
  exact (laidOut_passage p n d).depth

theorem depthAfter_marks_choices (more : Choices) (n : Nat) (k : List Family) (d : Int) :
    depthAfter (d + 1) ((more.marks n k).map Prod.fst) = d := by
  rw [fst_marks_choices]
  exact (laidOut_choices more n d).depth

theorem size_passage (p : Passage) (n : Nat) (k : List Family) :
    lineCount ((p.marks n k).map Prod.fst) = (p.block n).size := by
  rw [fst_marks]
  exact (laidOut_passage p n 0).size.symm

theorem size_choices (more : Choices) (n : Nat) (k : List Family) :
    lineCount ((more.marks n k).map Prod.fst) = (more.block n).size := by
  rw [fst_marks_choices]
  exact (laidOut_choices more n 0).size.symm

/-- the place where a passage ends is among its spots -/
theorem end_mem_spots (p : Passage) (n : Nat) (line : Nat) (level : Int) (k : List Family) :
    ⟨line + (p.block n).size, level, k⟩ ∈ spots line level k (p.marks n k) := by
  have h := mem_spots_prefix line level k (p.marks n k) []
  rwa [List.append_nil, size_passage, depthAfter_marks, lastAround_marks] at h

theorem spots_act (a : Act) (rest : Passage) (n line : Nat) (level : Int) (k : List Family) :
    spots line level k ((Passage.act a rest).marks n k) =
      ⟨line, level, k⟩ :: spots (line + a.fragment.lines.length) level k (rest.marks n k) := by
  rw [Passage.marks, spots, shift_act, Int.add_zero]

/-- the spots of a construct around its body -/
def Opening.spots (o : Opening) (body : Passage) (n line : Nat) (level : Int) (k : List Family) : List Spot :=
  ⟨line, level, k⟩ :: Stencil.spots (line + (o.first n).lines.length) (level + (o.first n).shift) (o.family :: k)
    (body.marks (n + o.temporaries) (o.family :: k))

theorem mem_spots_construct {o : Opening} {body rest : Passage} {n line : Nat} {level : Int} {k : List Family}
    {q : Spot}
    (hq : q ∈ spots line level k ((Passage.construct o body rest).marks n k)) :
    q ∈ o.spots body n line level k ∨
      q ∈ spots (line + (o.first n).lines.length + (body.block (n + o.temporaries)).size + o.last.lines.length) level k
        (rest.marks (n + o.temporaries + body.temporaries) k) := by
  have hlevel : level + (o.first n).shift + o.last.shift = level := by
    have := shift_first_last o n
    omega
  simp only [Passage.marks, spots, List.mem_cons, mem_spots_append, size_passage, depthAfter_marks, lastAround_marks,
    hlevel] at hq
  rcases hq with rfl | hq | rfl | hq
  · exact .inl List.mem_cons_self
  · exact .inl (List.mem_cons_of_mem _ hq)
  · exact .inl (List.mem_cons_of_mem _ (end_mem_spots _ _ _ _ _))
  · exact .inr hq

/-- the spots of a branch, of which the first is given, and of the branches after it -/
def branchSpots (q : Spot) (body : Passage) (more : Choices) (n line : Nat) (level : Int) (k : List Family) :
    List Spot :=
  q :: (spots (line + 2) (level + 1) (.conditional :: k) (body.marks n (.conditional :: k)) ++
    spots (line + 2 + (body.block n).size) (level + 1) (.conditional :: k) (more.marks (n + body.temporaries) k))

theorem mem_spots_choice {c : Condition} {body : Passage} {more : Choices} {rest : Passage} {n line : Nat} {level : Int}
    {k : List Family} {q : Spot} (hq : q ∈ spots line level k ((Passage.choice c body more rest).marks n k)) :
    q ∈ branchSpots ⟨line, level, k⟩ body more n line level k ∨
      q ∈ spots (line + 2 + (body.block n).size + (more.block (n + body.temporaries)).size) level k
        (rest.marks (n + body.temporaries + more.temporaries) k) := by
  simp only [Passage.marks, spots, List.mem_cons, mem_spots_append, size_passage, size_choices, depthAfter_marks,
    depthAfter_marks_choices, lastAround_marks, lastAround_marks_choices, whenFragment, List.length_cons,
      List.length_nil,
    Nat.zero_add] at hq
  simpa only [branchSpots, List.mem_cons, List.mem_append, or_assoc] using hq

theorem mem_spots_elsewhen {c : Condition} {body : Passage} {more : Choices} {n line : Nat} {level : Int}
    {k : List Family} {q : Spot}
    (hq : q ∈ spots line (level + 1) (.conditional :: k) ((Choices.elsewhen c body more).marks n k)) :
    q ∈ branchSpots ⟨line, level + 1, .conditional :: k⟩ body more n line level k := by
  simp only [Choices.marks, spots, List.mem_cons, mem_spots_append, size_passage, depthAfter_marks,
    lastAround_marks, elsewhenFragment, List.length_cons, List.length_nil, Nat.zero_add, Int.add_zero] at hq
  simpa only [branchSpots, List.mem_cons, List.mem_append] using hq

theorem mem_spots_otherwise {body : Passage} {n line : Nat} {level : Int} {k : List Family} {q : Spot}
    (hq : q ∈ spots line (level + 1) (.conditional :: k) ((Choices.otherwise body).marks n k)) :
    q ∈ branchSpots ⟨line, level + 1, .conditional :: k⟩ body .none n line level k := by
  simp only [Choices.marks, spots, List.mem_cons, mem_spots_append, size_passage, depthAfter_marks,
    lastAround_marks, otherwiseFragment, List.length_cons, List.length_nil, Nat.zero_add, Int.add_zero] at hq
  simpa only [branchSpots, Choices.marks, spots, List.mem_cons, List.mem_append] using hq

theorem spots_none (n line : Nat) (level : Int) (k : List Family) :
    spots line (level + 1) (.conditional :: k) (Choices.none.marks n k) =
      [⟨line, level + 1, .conditional :: k⟩, ⟨line, level, k⟩] := by
  have hlevel : level + 1 + -1 = level := by omega
  simp only [Choices.marks, spots, endFragment, List.length_nil, Nat.add_zero, hlevel]

theorem size_opening (o : Opening) (n : Nat) (b : Block) :
    (o.block n b).size = (o.first n).lines.length + b.size + o.last.lines.length := by
  cases o <;> simp [Opening.block, Opening.first, Opening.last, Block.size, Fragment.statements, Directive.endLoop,
    Directive.endForm] <;> omega

theorem size_choice (c : Condition) (body : Passage) (more : Choices) (rest : Passage) (n : Nat) :
    ((Passage.choice c body more rest).block n).size =
      2 + (body.block n).size + (more.block (n + body.temporaries)).size +
        (rest.block (n + body.temporaries + more.temporaries)).size := by
  simp only [Passage.block, Block.size, Block.size_append]
  omega

/-- **A construct** is charted if its body is. -/
theorem charted_opening (o : Opening) (body : Passage) (n line : Nat) (level : Int) (k : List Family)
    (hb : ∀ n line level k, Charted line (line + (body.block n).size) level k (spots line level k (body.marks n k))) :
    Charted line (line + (o.first n).lines.length + (body.block (n + o.temporaries)).size + o.last.lines.length) level k
      (o.spots body n line level k) := by
  obtain ⟨hlines, hshift⟩ := first_lines o n
  refine (hb (n + o.temporaries) _ _ _).around (by omega) (by omega) (by omega) fun h => ?_
  have := last_lines o n (by omega)
  omega

mutual

/-- **The spots of a passage** lie in its lines, and its first and its last line are met at its own level only as it
begins and ends. -/
theorem charted_passage : ∀ (p : Passage) (n line : Nat) (level : Int) (k : List Family),
    Charted line (line + (p.block n).size) level k (spots line level k (p.marks n k))
  | .done, n, line, level, k => charted_single (Nat.le_refl line) level k
  | .act a rest, n, line, level, k => by
    have hsize : line + ((Passage.act a rest).block n).size = line + a.fragment.lines.length + (rest.block n).size := by
      simp [Passage.block, Act.block]
      omega
    rw [hsize, spots_act]
    exact (charted_single (Nat.le_add_right _ _) level k).append (charted_passage rest n _ level k)
      fun q hq => (List.mem_cons.1 hq).imp List.mem_singleton.2 id
  | .construct o body rest, n, line, level, k => by
    have hopening := charted_opening o body n line level k fun n line level k => charted_passage body n line level k
    rw [Passage.block, Block.size_append, size_opening, ← Nat.add_assoc, ← Nat.add_assoc, ← Nat.add_assoc]
    exact hopening.append (charted_passage rest _ _ level k) fun q hq => mem_spots_construct hq
  | .choice c body more rest, n, line, level, k => by
    rw [size_choice, ← Nat.add_assoc, ← Nat.add_assoc, ← Nat.add_assoc]
    exact ((charted_passage body n _ _ _).choice (branching_choices more _ _ level k) (by omega)).append
      (charted_passage rest _ _ level k) fun q hq => mem_spots_choice hq

theorem branching_choices : ∀ (more : Choices) (n line : Nat) (level : Int) (k : List Family),
    Branching line (line + (more.block n).size) level k (spots line (level + 1) (.conditional :: k) (more.marks n k))
  | .none, n, line, level, k => by
    rw [spots_none]
    exact branching_none line level k
  | .elsewhen c body more, n, line, level, k => by
    have hend : line + ((Choices.elsewhen c body more).block n).size =
        line + 2 + (body.block n).size + (more.block (n + body.temporaries)).size := by
      simp only [Choices.block, Block.size]
      omega
    rw [hend]
    exact ((branching_choices more _ _ level k).cons (charted_passage body n _ _ _) (by omega)).sub
      fun q hq => mem_spots_elsewhen hq
  | .otherwise body, n, line, level, k => by
    have hend : line + ((Choices.otherwise body).block n).size = line + 2 + (body.block n).size := by
      simp only [Choices.block, Block.size]
      omega
    have hnone := branching_none (line + 2 + (body.block n).size) level k
    rw [← spots_none (n + body.temporaries)] at hnone
    rw [hend]
    exact (hnone.cons (charted_passage body n _ _ _) (by omega)).sub fun q hq => mem_spots_otherwise hq

end

end Stencil
