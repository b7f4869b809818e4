/-
LEVELS OF CODE. The lines of a passage are those of its block, each as deep as the bodies that it stands in. In such
lines every branch continues a conditional and every block has its head, so that all they can have too much of is
levels.

- `lines_passage`: the fragments of a passage are laid out as the lines of its block.
- `joined_passage`: every branch in the block of a passage goes on with a conditional, and every body has a statement.
- `check_lines`: the lines of such a block have a shape exactly if it is not too high.
- `checkCode_page`: what the code of a passage is refused for.
-/
import Stencil.Proofs.Passage

namespace Stencil

/-! ## Lines of blocks -/

namespace Block

/-- the lines of a block, each as deep as the bodies that it stands in -/
def lines (d : Int) : Block → List Line
  | done => []
  | step s rest => ⟨d, s⟩ :: rest.lines d
  | nest s body rest => ⟨d, s⟩ :: (body.lines (d + 1) ++ rest.lines d)

/-- how many bodies stand inside one another at most -/
def height : Block → Nat
  | done => 0
  | step _ rest => rest.height
  | nest _ body rest => max (body.height + 1) rest.height

theorem lines_append (a b : Block) (d : Int) : (a.append b).lines d = a.lines d ++ b.lines d := by
  induction a with
  | done => rfl
  | step s rest ih => simp [append, lines, ih]
  | nest s body rest _ ih => simp [append, lines, ih]

theorem lines_steps (stmts : List Stmt) (d : Int) : (steps stmts).lines d = stmts.map fun s => ⟨d, s⟩ := by
  induction stmts with
  | nil => rfl
  | cons s stmts ih =>
    rw [List.map_cons, ← ih]
    rfl

theorem height_append (a b : Block) : (a.append b).height = max a.height b.height := by
  induction a with
  | done => simp [append, height]
  | step s rest ih => simp [append, height, ih]
  | nest s body rest _ ih => simp [append, height, ih, Nat.max_assoc]

theorem height_steps (stmts : List Stmt) : (steps stmts).height = 0 := by
  induction stmts with
  | nil => rfl
  | cons s stmts ih => exact ih

theorem loopDepth_append (a b : Block) : (a.append b).loopDepth = max a.loopDepth b.loopDepth := by
  induction a with
  | done => simp [append, loopDepth]
  | step s rest ih => simp [append, loopDepth, ih]
  | nest s body rest _ ih => simp [append, loopDepth, ih, Nat.max_assoc]

theorem loopDepth_steps (stmts : List Stmt) : (steps stmts).loopDepth = 0 := by
  induction stmts with
  | nil => rfl
  | cons s stmts ih => exact ih

end Block

theorem lines_act (a : Act) (d : Int) : placeLines d [a.fragment] = a.block.lines d := by
  cases a <;> simp [Act.fragment, Act.block, Fragment.statements, Fragment.empty, placeLines, Block.steps, Block.lines]

/-- a construct is laid out as the lines of its block if its body is -/
theorem lines_opening (o : Opening) (n : Nat) {fs : List Fragment} {b : Block}
    (hdepth : ∀ d, depthAfter d fs = d) (hlines : ∀ d, placeLines d fs = b.lines d) (d : Int) :
    placeLines d (o.first n :: (fs ++ [o.last])) = (o.block n b).lines d := by
  have haround := fun e (he : d + (o.first n).shift = e) => placeLines_around (g := o.last) he (hdepth e)
  cases o with
  | loop names path e =>
    have hone : d + 2 + -1 = d + 1 := by omega
    have htwo : d + 1 + 1 = d + 2 := by omega
    rw [haround (d + 2) rfl, hlines]
    simp [Opening.first, Opening.last, Directive.endLoop, Opening.block, Block.lines, Block.lines_append,
      Block.lines_steps, hone, htwo]
  | capture name =>
    rw [haround d (Int.add_zero d), hlines]
    simp [Opening.first, Opening.last, Fragment.statements, Opening.block, Block.lines, Block.lines_append]
  | form e name attributes =>
    rw [haround d (Int.add_zero d), hlines]
    simp [Opening.first, Opening.last, Directive.endForm, Fragment.statements, Opening.block, Block.lines,
      Block.lines_append]
  | phrase key params =>
    rw [haround (d + 1) rfl, hlines]
    simp [Opening.first, Opening.last, Opening.block, Block.lines]

mutual

/-- **The fragments of a passage** are laid out as the lines of its block. -/
theorem lines_passage : ∀ (p : Passage) (n : Nat) (d : Int), placeLines d (p.fragments n) = (p.block n).lines d
  | .done, _, _ => rfl
  | .act a rest, n, d => by
    rw [Passage.fragments, ← List.singleton_append, placeLines_append, (laidOut_act a d).depth, lines_act,
      lines_passage rest n d, Passage.block, Block.lines_append]
  | .construct o body rest, n, d => by
    have hdepth := fun d => (laidOut_passage body (n + o.temporaries) d).depth
    have hfragments : (Passage.construct o body rest).fragments n =
        (o.first n :: (body.fragments (n + o.temporaries) ++ [o.last])) ++
          rest.fragments (n + o.temporaries + body.temporaries) := by
      simp [Passage.fragments]
    have hbody := lines_opening o n hdepth (lines_passage body (n + o.temporaries)) d
    have hafter := (laidOut_opening o n (fun d => laidOut_passage body (n + o.temporaries) d) d).depth
    rw [hfragments, placeLines_append, hafter, hbody, lines_passage rest _ d, Passage.block, Block.lines_append]
  | .choice c body more rest, n, d => by
    have hbody := (laidOut_passage body n (d + 1)).depth
    have hmore := (laidOut_choices more (n + body.temporaries) d).depth
    simp only [Passage.fragments, Passage.block, placeLines, placeLines_append, whenFragment, hbody, hmore,
      lines_passage body n (d + 1), lines_choices more _ d, lines_passage rest _ d, Block.lines, Block.lines_append]
    simp

/-- the fragments of branches are laid out as the lines of their block -/
theorem lines_choices : ∀ (more : Choices) (n : Nat) (d : Int),
    placeLines (d + 1) (more.fragments n) = (more.block n).lines d
  | .none, _, _ => rfl
  | .elsewhen c body more, n, d => by
    have hbody := (laidOut_passage body n (d + 1)).depth
    simp only [Choices.fragments, Choices.block, placeLines, placeLines_append, elsewhenFragment, Int.add_zero, hbody,
      lines_passage body n (d + 1), lines_choices more _ d, Block.lines]
    simp
  | .otherwise body, n, d => by
    have hbody := (laidOut_passage body n (d + 1)).depth
    simp only [Choices.fragments, Choices.block, placeLines, placeLines_append, otherwiseFragment, endFragment,
      Int.add_zero, hbody, lines_passage body n (d + 1), Block.lines]
    simp

end

/-! ## Branches and bodies -/

/-- a branch of a conditional after its first -/
def Stmt.isBranch : Stmt → Bool
  | elsewhen _ => true
  | otherwise => true
  | _ => false

/-- a branch of a conditional after which it can go on -/
def Stmt.goesOn : Stmt → Bool
  | when _ => true
  | elsewhen _ => true
  | whenText _ => true
  | _ => false

/-- every branch goes on with a conditional, given whether one can go on at the beginning, and every head has a body -/
def Block.Joined (goesOn : Bool) : Block → Prop
  | done => True
  | step s rest => s.heads = false ∧ rest.Joined false
  | nest s body rest =>
    s.heads = true ∧ (s.isBranch = true → goesOn = true) ∧ body ≠ done ∧ body.Joined false ∧ rest.Joined s.goesOn

namespace Block

variable {goesOn : Bool} {a b : Block}

theorem Joined.append (ha : a.Joined goesOn) (hb : ∀ goesOn, b.Joined goesOn) : (a.append b).Joined goesOn := by
  induction a generalizing goesOn with
  | done => exact hb goesOn
  | step s rest ih => exact ⟨ha.1, ih ha.2⟩
  | nest s body rest _ ih =>
    obtain ⟨hheads, hbranch, hne, hbody, hrest⟩ := ha
    exact ⟨hheads, hbranch, hne, hbody, ih hrest⟩

theorem joined_steps {stmts : List Stmt} (h : ∀ s ∈ stmts, s.heads = false) (goesOn : Bool) :
    (steps stmts).Joined goesOn := by
  induction stmts generalizing goesOn with
  | nil => trivial
  | cons s stmts ih => exact ⟨h s List.mem_cons_self, ih (fun t ht => h t (List.mem_cons_of_mem s ht)) _⟩

end Block

theorem joined_act (a : Act) (goesOn : Bool) : a.block.Joined goesOn := by
  refine Block.joined_steps (fun s hs => ?_) goesOn
  cases a <;> simp [Act.fragment, Fragment.statements, Fragment.empty] at hs <;> rw [hs] <;> rfl

theorem joined_opening (o : Opening) (n : Nat) {b : Block} (hb : ∀ goesOn, b.Joined goesOn) (goesOn : Bool) :
    (o.block n b).Joined goesOn := by
  cases o with
  | loop names path e =>
    have hiteration : ((Block.steps (Directive.loopBinds names (n + 2) (n + 3))).append
        (b.append (.step .iterationEnd .done))).Joined false :=
      (Block.joined_steps (heads_loopBinds names _ _) _).append fun _ => (hb _).append fun _ => ⟨rfl, trivial⟩
    exact ⟨rfl, nofun, nofun, ⟨rfl, rfl, rfl, rfl, nofun, nofun, ⟨rfl, hiteration⟩, rfl, rfl, trivial⟩, trivial⟩
  | capture name => exact ⟨rfl, (hb _).append fun _ => ⟨rfl, trivial⟩⟩
  | form e name attributes => exact ⟨rfl, rfl, rfl, (hb _).append fun _ => ⟨rfl, rfl, rfl, trivial⟩⟩
  | phrase key params =>
    exact ⟨rfl, rfl, nofun, nofun, ⟨rfl, trivial⟩, rfl, fun _ => rfl, nofun, ⟨rfl, hb _⟩, trivial⟩

mutual

/-- **The block of a passage**: every branch goes on with a conditional, and every head has a body. -/
theorem joined_passage : ∀ (p : Passage) (n : Nat) (goesOn : Bool), (p.block n).Joined goesOn
  | .done, _, _ => trivial
  | .act a rest, n, goesOn => (joined_act a goesOn).append (joined_passage rest n)
  | .construct o body rest, n, goesOn =>
    (joined_opening o n (joined_passage body _) goesOn).append (joined_passage rest _)
  | .choice _ body more rest, n, _ =>
    ⟨rfl, nofun, nofun, ⟨rfl, joined_passage body n _⟩, (joined_choices more _).append (joined_passage rest _)⟩

/-- the block of branches follows a branch after which the conditional can go on -/
theorem joined_choices : ∀ (more : Choices) (n : Nat), (more.block n).Joined true
  | .none, _ => trivial
  | .elsewhen _ body more, n =>
    ⟨rfl, fun _ => rfl, nofun, ⟨rfl, joined_passage body n _⟩, joined_choices more _⟩
  | .otherwise body, n => ⟨rfl, fun _ => rfl, nofun, ⟨rfl, joined_passage body n _⟩, trivial⟩

end

/-- a statement that can stand where the last one is continued so -/
def Stmt.Continues (sq : Sequel) (s : Stmt) : Prop := Shape.admits ⟨0, sq⟩ s = true

theorem Stmt.continues_of_not_heads {s : Stmt} (h : s.heads = false) (sq : Sequel) : s.Continues sq := by
  cases s <;> first | rfl | cases h

/-- every statement can stand where the one before it is continued so, and every head has a body -/
def Block.Chained (sq : Sequel) : Block → Prop
  | done => True
  | step s rest => s.heads = false ∧ rest.Chained s.sequel
  | nest s body rest => s.heads = true ∧ s.Continues sq ∧ body ≠ done ∧ body.Chained .nothing ∧ rest.Chained s.sequel

theorem Block.Joined.chained {goesOn : Bool} {sq : Sequel} {b : Block} (h : b.Joined goesOn)
    (hsq : goesOn = true → sq = .branches) : b.Chained sq := by
  induction b generalizing goesOn sq with
  | done => trivial
  | step s rest ih => exact ⟨h.1, ih h.2 nofun⟩
  | nest s body rest ihb ihr =>
    obtain ⟨hheads, hbranch, hne, hbody, hrest⟩ := h
    have hcontinues : s.Continues sq := by
      cases s with
      | elsewhen c => rw [hsq (hbranch rfl)]; rfl
      | otherwise => rw [hsq (hbranch rfl)]; rfl
      | _ => rfl
    have hsequel : s.goesOn = true → s.sequel = .branches := by
      cases s <;> simp [Stmt.goesOn, Stmt.sequel, Stmt.heads]
    exact ⟨hheads, hcontinues, hne, ihb hbody nofun, ihr hrest hsequel⟩

theorem chained_passage (p : Passage) (n : Nat) (sq : Sequel) : (p.block n).Chained sq :=
  (joined_passage p n false).chained nofun

/-! ## The shape of lines -/

namespace Shape

variable {d : Nat} {sq : Sequel} {deep ls : List Level}

/-- a line at a depth leaves the levels that are deeper -/
theorem add_at (hdeep : ∀ l ∈ deep, d < l.depth) {s : Stmt} (hs : s.Continues sq) :
    add ⟨deep ++ ⟨d, sq⟩ :: ls, false⟩ ⟨d, s⟩ = .ok ⟨⟨d, s.sequel⟩ :: ls, s.heads⟩ := by
  have hadmits : admits ⟨d, sq⟩ s = true := by
    rw [← hs]
    cases s <;> rfl
  have hdrop : (deep ++ ⟨d, sq⟩ :: ls).dropWhile (fun l => decide (d < l.depth)) = ⟨d, sq⟩ :: ls := by
    rw [List.dropWhile_append_of_pos fun l hl => decide_eq_true (hdeep l hl), List.dropWhile_cons]
    simp
  have henter : enter d ⟨deep ++ ⟨d, sq⟩ :: ls, false⟩ = .ok (⟨d, sq⟩ :: ls) := by
    cases hcons : deep ++ ⟨d, sq⟩ :: ls with
    | nil => simp at hcons
    | cons l more =>
      have hnot : ¬l.depth < d := by
        cases deep with
        | nil =>
          cases hcons
          exact Nat.lt_irrefl d
        | cons first deep =>
          obtain ⟨rfl, -⟩ := List.cons.inj hcons
          exact Nat.not_lt_of_lt (hdeep first List.mem_cons_self)
      rw [hcons] at hdrop
      simp [enter, hnot, hdrop]
  simp [add, Line.margin, henter, hadmits]

/-- the first line of a body opens a level, unless there are too many -/
theorem add_body (hls : ls.length = d) (s : Stmt) :
    add ⟨⟨d, sq⟩ :: ls, true⟩ ⟨(d + 1 : Nat), s⟩ =
      if depthLimit ≤ d + 1 then .error .depth
      else add ⟨⟨d + 1, .nothing⟩ :: ⟨d, sq⟩ :: ls, false⟩ ⟨(d + 1 : Nat), s⟩ := by
  have hmargin : Line.margin ⟨(d + 1 : Nat), s⟩ = d + 1 := by simp [Line.margin]
  have hsame :
      enter (d + 1) ⟨⟨d + 1, .nothing⟩ :: ⟨d, sq⟩ :: ls, false⟩ = .ok (⟨d + 1, .nothing⟩ :: ⟨d, sq⟩ :: ls) := by
    simp [enter]
  have hdeeper : enter (d + 1) ⟨⟨d, sq⟩ :: ls, true⟩ =
      if depthLimit ≤ d + 1 then .error .depth else .ok (⟨d + 1, .nothing⟩ :: ⟨d, sq⟩ :: ls) := by
    simp [enter, hls]
  unfold add
  rw [hmargin, hsame, hdeeper]
  split <;> rfl

/-- lines at a depth, with bodies of some height, that have too many levels, or that leave a level of the depth open -/
def Leaves (d height : Nat) (ls : List Level) (x : Except ShapeFault Shape) : Prop :=
  if depthLimit ≤ d + height then x = .error .depth
  else ∃ deep sq, (∀ l ∈ deep, d < l.depth) ∧ x = .ok ⟨deep ++ ⟨d, sq⟩ :: ls, false⟩

/-- the lines of a body one level deeper, and then lines at the depth -/
theorem Leaves.bind {height height' : Nat} {x : Except ShapeFault Shape} {f : Shape → Except ShapeFault Shape}
    (hx : Leaves (d + 1) height (⟨d, sq⟩ :: ls) x)
    (hf : ∀ deep : List Level, (∀ l ∈ deep, d < l.depth) → Leaves d height' ls (f ⟨deep ++ ⟨d, sq⟩ :: ls, false⟩)) :
    Leaves d (max (height + 1) height') ls (x >>= f) := by
  unfold Leaves at hx
  split at hx
  · rename_i hhigh
    rw [hx, Leaves, if_pos (by omega)]
    rfl
  · rename_i hlow
    obtain ⟨deep, sq', hdeep, rfl⟩ := hx
    have hdeep' : ∀ l ∈ deep ++ [⟨d + 1, sq'⟩], d < l.depth := by
      intro l hl
      rcases List.mem_append.1 hl with hl | hl
      · exact Nat.lt_of_succ_lt (hdeep l hl)
      · rw [List.mem_singleton.1 hl]
        exact Nat.lt_succ_self d
    have hrest := hf _ hdeep'
    rw [List.append_assoc] at hrest
    have hiff : depthLimit ≤ d + max (height + 1) height' ↔ depthLimit ≤ d + height' := by omega
    simp only [Leaves, hiff]
    exact hrest

/-- **The lines of a block** have too many levels if it is too high, and else end in a level of their depth. -/
theorem leaves_lines (b : Block) (hb : b.Chained sq) (hd : d < depthLimit) (hls : ls.length = d)
    (hdeep : ∀ l ∈ deep, d < l.depth) :
    Leaves d b.height ls ((b.lines d).foldlM add ⟨deep ++ ⟨d, sq⟩ :: ls, false⟩) := by
  induction b generalizing d sq deep ls with
  | done =>
    rw [Leaves, if_neg (by simpa [Block.height] using hd)]
    exact ⟨deep, sq, hdeep, rfl⟩
  | step s rest ih =>
    have hs : s.Continues sq := Stmt.continues_of_not_heads hb.1 sq
    have hnil : ∀ l ∈ ([] : List Level), d < l.depth := by simp
    rw [Block.lines, List.foldlM_cons, add_at hdeep hs, hb.1]
    exact ih hb.2 hd hls hnil
  | nest s body rest ihb ihr =>
    obtain ⟨hheads, hs, hne, hbody, hrest⟩ := hb
    have hdepth : ((d : Int) + 1) = ((d + 1 : Nat) : Int) := rfl
    -- the body opens a level, or cannot
    have hopens : (body.lines (d + 1)).foldlM add ⟨⟨d, s.sequel⟩ :: ls, true⟩ =
        if depthLimit ≤ d + 1 then .error .depth
        else (body.lines (d + 1)).foldlM add ⟨⟨d + 1, .nothing⟩ :: ⟨d, s.sequel⟩ :: ls, false⟩ := by
      cases body with
      | done => exact absurd rfl hne
      | step s' rest' =>
        rw [Block.lines, List.foldlM_cons, List.foldlM_cons, hdepth, add_body hls]
        split <;> rfl
      | nest s' body' rest' =>
        rw [Block.lines, List.foldlM_cons, List.foldlM_cons, hdepth, add_body hls]
        split <;> rfl
    have hinner : Leaves (d + 1) body.height (⟨d, s.sequel⟩ :: ls)
        ((body.lines (d + 1)).foldlM add ⟨⟨d, s.sequel⟩ :: ls, true⟩) := by
      rw [hopens]
      split
      · rw [Leaves, if_pos (by omega)]
      · rename_i hlow
        have hnil : ∀ l ∈ ([] : List Level), d + 1 < l.depth := by simp
        exact ihb hbody (Nat.lt_of_not_le hlow) (by simp [hls]) hnil
    rw [Block.lines, List.foldlM_cons, add_at hdeep hs, hheads, ok_bind, List.foldlM_append]
    exact hinner.bind fun deep hdeep => ihr hrest hd hls hdeep

/-- **The shape of a block's lines**: they have one unless the block is too high. -/
theorem check_lines (b : Block) (hb : b.Chained .nothing) :
    check (b.lines 1) = if depthLimit ≤ b.height + 1 then .error .depth else .ok () := by
  have hnil : ∀ l ∈ ([] : List Level), 1 < l.depth := by simp
  have hlength : [(⟨0, .nothing⟩ : Level)].length = 1 := rfl
  have hleaves : Leaves 1 b.height [⟨0, .nothing⟩] ((b.lines 1).foldlM add start) :=
    leaves_lines b hb (by decide) hlength hnil
  rw [Leaves, Nat.add_comm 1] at hleaves
  unfold check
  split at hleaves
  · rename_i hhigh
    rw [hleaves, if_pos hhigh]
    rfl
  · rename_i hlow
    obtain ⟨deep, sq, -, hfold⟩ := hleaves
    rw [hfold, if_neg hlow]
    rfl

end Shape

/-! ## Loading the code -/

/-- nothing stands behind the function -/
theorem readsNames_of_inside {lines : List Line} (h : Inside bodyDepth lines) : readsNames lines = false := by
  have hdrop : outerLines lines = [] := by
    rw [outerLines, List.dropWhile_eq_nil_iff]
    intro l hl
    have hdepth : 1 ≤ l.depth := h l hl
    rw [decide_eq_true_eq, Line.margin]
    omega
  rw [readsNames, hdrop, readBlocks]
  rfl

namespace Compiler

/-- **Loading the code of a passage** is refused for a null character, too many levels or too many loops, and for
nothing else. -/
theorem checkCode_page (k : Compiler) (ts : List Token) (p : Passage) :
    checkCode (k.template ts (p.fragments 0)) =
      if (k.template ts (p.fragments 0)).code.contains '\x00' then .error .nullCharacter
      else if depthLimit ≤ (p.block 0).height + 1 then .error .depthLimit
      else if loopLimit < (p.block 0).loopDepth then .error .loopLimit
      else .ok () := by
  have hlines : programLines (p.fragments 0) = (p.block 0).lines 1 := lines_passage p 0 1
  have hcheck := Shape.check_lines (p.block 0) (chained_passage p 0 _)
  have hnames : readsNames (programLines (p.fragments 0)) = false :=
    readsNames_of_inside (laidOut_passage p 0 bodyDepth).inside
  have hprogram : (k.template ts (p.fragments 0)).program = p.block 0 := readBlocks_passage p
  have hfragments : (k.template ts (p.fragments 0)).fragments = p.fragments 0 := rfl
  rw [← hlines] at hcheck
  unfold checkCode
  rw [hfragments, hcheck, hprogram, hnames]
  split
  · rfl
  · by_cases hhigh : depthLimit ≤ (p.block 0).height + 1
    · rw [if_pos hhigh, if_pos hhigh]
      rfl
    · rw [if_neg hhigh, if_neg hhigh]
      by_cases hloops : loopLimit < (p.block 0).loopDepth
      · rw [if_pos hloops, if_pos hloops]
        rfl
      · rw [if_neg hloops, if_neg hloops]
        rfl

end Compiler

end Stencil
