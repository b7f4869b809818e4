/-
RUNS. Work on a state that can fail comes to a value or a failure and to a state; one step after the other, the second
begins where the first succeeded.

- `run_append`: a block that is followed by another one runs before it, if the other does not go on with a conditional.
- `plain_passage`: the block of a passage does not go on with a conditional.
-/
import Stencil.Proofs.Passage
import Stencil.Render.Run

namespace Stencil

/-! ## Steps of a run -/

section

variable {σ α β : Type}

theorem run_bind (x : ExceptT Failure (StateM σ) α) (f : α → ExceptT Failure (StateM σ) β) (s : σ) :
    (x >>= f).run.run s =
      match x.run.run s with
      | (.ok a, s') => (f a).run.run s'
      | (.error e, s') => (.error e, s') := by
  rw [ExceptT.run_bind, StateT.run_bind]
  show (match x.run.run s with | (r, s') => _) = _
  rcases x.run.run s with ⟨r, s'⟩
  cases r <;> rfl

@[simp] theorem run_pure (a : α) (s : σ) : (pure a : ExceptT Failure (StateM σ) α).run.run s = (.ok a, s) := rfl

@[simp] theorem run_get (s : σ) : (get : ExceptT Failure (StateM σ) σ).run.run s = (.ok s, s) := rfl

@[simp] theorem run_set (s' s : σ) : (set s' : ExceptT Failure (StateM σ) PUnit).run.run s = (.ok ⟨⟩, s') := rfl

@[simp] theorem run_modify (f : σ → σ) (s : σ) :
    (modify f : ExceptT Failure (StateM σ) PUnit).run.run s = (.ok ⟨⟩, f s) := rfl

@[simp] theorem run_lift (x : Except Failure α) (s : σ) :
    (liftM x : ExceptT Failure (StateM σ) α).run.run s = (x, s) := rfl

theorem run_work (w : Work α) (s : State) :
    (Render.work w).run.run s = ((w.run.run s.asked).1, { s with asked := (w.run.run s.asked).2 }) := rfl

end

namespace Render

/-- whether a condition holds now -/
def holds (c : Condition) : Render Bool := do
  let s ← get
  c.eval s.reach

/-- whether a path reaches a value other than nothing now -/
def reached (path : List Segment) : Render Bool := do
  let s ← get
  reaches s.reach path

end Render

/-! ## Blocks one after the other -/

namespace Block

theorem run_step (s : Stmt) (rest : Block) (ran : Bool) :
    (step s rest).run ran = (do Render.exec s; rest.run false) := rfl

theorem run_when (c : Condition) (body rest : Block) (ran : Bool) :
    (nest (.when c) body rest).run ran = (do
      let b ← Render.holds c
      if b then body.run false
      rest.run b) := by
  simp only [run, Render.holds, bind_assoc]

theorem run_elsewhen (c : Condition) (body rest : Block) :
    (nest (.elsewhen c) body rest).run false = (do
      let b ← Render.holds c
      if b then body.run false
      rest.run b) := by
  simp only [run, Render.holds, bind_assoc, Bool.false_eq_true, if_false]

theorem run_whenReached (path : List Segment) (body rest : Block) (ran : Bool) :
    (nest (.whenReached path) body rest).run ran = (do
      let b ← Render.reached path
      if b then body.run false
      rest.run false) := by
  simp only [run, Render.reached, bind_assoc]

/-- the block does not go on with a conditional -/
def Plain : Block → Prop
  | nest (.elsewhen _) _ _ => False
  | nest .otherwise _ _ => False
  | _ => True

theorem plain_done : Plain .done := trivial

theorem plain_step (s : Stmt) (rest : Block) : Plain (.step s rest) := trivial

/-- what has run before a plain block does not matter -/
theorem Plain.run {b : Block} (h : b.Plain) (ran : Bool) : b.run ran = b.run false := by
  cases b with
  | done => rfl
  | step s rest => rfl
  | nest s body rest =>
    cases s with
    | elsewhen c => exact h.elim
    | otherwise => exact h.elim
    | _ => rfl

/-- **A block and then another one** run one after the other, unless the second goes on with a conditional. -/
theorem run_append (b k : Block) (hk : k.Plain) (ran : Bool) :
    (b.append k).run ran = (do b.run ran; k.run false) := by
  induction b generalizing ran with
  | done =>
    rw [append, hk.run ran, run, pure_bind]
  | step s rest ih => simp only [append, run, ih, bind_assoc]
  | nest s body rest _ ih =>
    cases s
    case whenReached path =>
      simp only [append, run, ih, bind_assoc]
      refine bind_congr fun s => bind_congr fun b => ?_
      cases b <;> simp
    case when c =>
      simp only [append, run, ih, bind_assoc]
      refine bind_congr fun s => bind_congr fun b => ?_
      cases b <;> simp
    case elsewhen c =>
      cases ran with
      | true => simp only [append, run, ih, if_true]
      | false =>
        simp only [append, run, ih, bind_assoc, Bool.false_eq_true, if_false]
        refine bind_congr fun s => bind_congr fun b => ?_
        cases b <;> simp
    case otherwise =>
      simp only [append, run, ih]
      cases ran <;> simp
    case whenText n =>
      simp only [append, run, ih, bind_assoc]
      refine bind_congr fun t => ?_
      cases t <;> simp
    all_goals simp only [append, run, ih, bind_assoc]

theorem plain_append {b k : Block} (hb : b.Plain) (hk : k.Plain) : (b.append k).Plain := by
  cases b with
  | done => exact hk
  | step s rest => trivial
  | nest s body rest => cases s <;> exact hb

theorem plain_steps (stmts : List Stmt) : (steps stmts).Plain := by
  cases stmts with
  | nil => exact plain_done
  | cons s stmts => exact plain_step s _

end Block

/-- what a loop does for each entry -/
def Opening.iteration (names : List Text) (key item : Nat) (b : Block) : Block :=
  .step (.iterationBegin key)
    ((Block.steps (Directive.loopBinds names key item)).append (b.append (.step .iterationEnd .done)))

theorem run_iteration {b : Block} (hp : b.Plain) (names : List Text) (key item : Nat) :
    (Opening.iteration names key item b).run false = (do
      Render.exec (.iterationBegin key)
      (Block.steps (Directive.loopBinds names key item)).run false
      b.run false
      Render.exec .iterationEnd) := by
  have hlast : (Block.step .iterationEnd .done).run false = Render.exec .iterationEnd := by
    rw [Block.run_step]
    exact bind_pure_unit
  rw [Opening.iteration, Block.run_step, Block.run_append _ _ (Block.plain_append hp (Block.plain_step _ _)),
    Block.run_append _ _ (Block.plain_step _ _), hlast]

/-- what a loop does if its path reaches something -/
def Opening.guarded (names : List Text) (e : Expr) (n : Nat) (b : Block) : Block :=
  .step (.iterate (n + 1) e) (.step (.loopOpen (n + 1)) (.step .scopeLoop
    (.nest (.forEach (n + 2) (n + 3) (n + 1)) (Opening.iteration names (n + 2) (n + 3) b)
      (.step .scopeClose (.step .loopClose .done)))))

theorem plain_opening (o : Opening) (n : Nat) (b : Block) : (o.block n b).Plain := by
  cases o <;> trivial

/-- the block of a passage does not go on with a conditional -/
theorem plain_passage : ∀ (p : Passage) (n : Nat), (p.block n).Plain
  | .done, _ => Block.plain_done
  | .act _ rest, n => Block.plain_append (Block.plain_steps _) (plain_passage rest n)
  | .construct o _ rest, n => Block.plain_append (plain_opening o n _) (plain_passage rest _)
  | .choice _ _ _ _, _ => trivial

end Stencil
