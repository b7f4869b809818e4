/-
TWO RUNS SIDE BY SIDE. A program runs beside the same program relaxed: as long as no value that it demands is lacking,
both come by the same moments in the same states. Where one is lacking the program stops, and the other goes on.

- `Refines`: work that comes to the same as other work, or stops at the first value it lacks.
- `watch_refines`: a block refines the block relaxed.
- `passes_next`: the statement before which a run stands is the one at its line.
-/
import Stencil.Proofs.Relaxed
import Stencil.Proofs.Watch

namespace Stencil

/-! ## Lines of a block -/

namespace Block

/-- the statements of a block, line by line -/
def stmts : Block → List Stmt
  | done => []
  | step s rest => s :: rest.stmts
  | nest s body rest => s :: (body.stmts ++ rest.stmts)

@[simp] theorem length_stmts (b : Block) : b.stmts.length = b.size := by
  induction b with
  | done => rfl
  | step s rest ih => simp [stmts, size, ih]
  | nest s body rest ihb ihr => simp [stmts, size, ihb, ihr]

@[simp] theorem size_relaxed (b : Block) : b.relaxed.size = b.size := by
  induction b with
  | done => rfl
  | step s rest ih => simp only [relaxed, size, ih]
  | nest s body rest ihb ihr => simp only [relaxed, size, ihb, ihr]

/-- only what is written is demanded -/
def Lenient : Block → Prop
  | done => True
  | step s rest => (s.demands = [] ∨ ∃ e, s = .emit e) ∧ rest.Lenient
  | nest s body rest => s.demands = [] ∧ body.Lenient ∧ rest.Lenient

end Block

theorem stmts_readBlocks (lines : List Line) : (readBlocks lines).stmts = lines.map Line.stmt := by
  induction lines using readBlocks.induct with
  | case1 => simp [readBlocks, Block.stmts]
  | case2 l ls h ihb ihr =>
    rw [readBlocks, if_pos h, Block.stmts, ihb, ihr, ← List.map_append, List.takeWhile_append_dropWhile,
      List.map_cons]
  | case3 l ls h ih => rw [readBlocks, if_neg h, Block.stmts, ih, List.map_cons]

theorem lenient_readBlocks {lines : List Line} (h : ∀ l ∈ lines, l.stmt.demands = [] ∨ ∃ e, l.stmt = .emit e) :
    (readBlocks lines).Lenient := by
  induction lines using readBlocks.induct with
  | case1 => simp [readBlocks, Block.Lenient]
  | case2 l ls hheads ihb ihr =>
    obtain ⟨hl, hls⟩ := List.forall_mem_cons.1 h
    have hdemands : l.stmt.demands = [] := by
      rcases hl with hl | ⟨e, he⟩
      · exact hl
      · rw [he] at hheads
        cases hheads
    rw [readBlocks, if_pos hheads]
    exact ⟨hdemands, ihb fun m hm => hls m ((List.takeWhile_sublist _).subset hm),
      ihr fun m hm => hls m ((List.dropWhile_sublist _).subset hm)⟩
  | case3 l ls hheads ih =>
    obtain ⟨hl, hls⟩ := List.forall_mem_cons.1 h
    rw [readBlocks, if_neg hheads]
    exact ⟨hl, ih hls⟩

/-- **The statement before which a run stands** is the one at its line. -/
theorem passes_next {at? : Nat → Option Stmt} (b : Block) (line : Nat) (level : Int) (ran : Bool)
    (h : ∀ i s, b.stmts[i]? = some s → at? (line + i) = some s) :
    Passes (fun m => ∀ s ∈ m.next, at? m.line = some s) (fun _ => True) (b.watch line level ran) fun _ => True := by
  have hlift : ∀ {α : Type} (x : Render α),
      Passes (fun m => ∀ s ∈ m.next, at? m.line = some s) (fun _ => True) (Watch.lift x) fun _ => True :=
    fun x => passes_lift fun _ _ _ _ _ => trivial
  induction b generalizing line level ran with
  | done => exact passes_pure fun _ h => h
  | step s rest ih =>
    refine passes_note (fun _ _ u hu => ?_) (passes_bind (hlift _) fun _ => ih _ _ _ fun i u hi => ?_)
    · cases hu
      exact h 0 s rfl
    · have := h (i + 1) u hi
      rwa [Nat.add_assoc, Nat.add_comm 1]
  | nest s body rest ihb ihr =>
    have hfirst : ∀ st : State, True → ∀ u ∈ some s, at? line = some u := by
      rintro - - u hu
      cases hu
      exact h 0 s rfl
    have hbody : ∀ i u, body.stmts[i]? = some u → at? (line + 1 + i) = some u := by
      intro i u hi
      have hlt : i < body.stmts.length := (List.getElem?_eq_some_iff.1 hi).1
      have := h (i + 1) u (by rw [Block.stmts, List.getElem?_cons_succ, List.getElem?_append_left hlt, hi])
      rwa [Nat.add_assoc, Nat.add_comm 1]
    have hrest : ∀ i u, rest.stmts[i]? = some u → at? (line + 1 + body.size + i) = some u := by
      intro i u hi
      have := h (body.size + i + 1) u (by
        rw [Block.stmts, List.getElem?_cons_succ, List.getElem?_append_right (by simp), Block.length_stmts,
          Nat.add_sub_cancel_left, hi])
      rwa [show line + 1 + body.size + i = line + (body.size + i + 1) by omega]
    have hinner : Passes (fun m => ∀ s ∈ m.next, at? m.line = some s) (fun _ => True)
        (do
          body.watch (line + 1) (level + 1) false
          Watch.note (line + 1 + body.size) (level + 1) none) fun _ => True :=
      passes_inner (ihb (line + 1) (level + 1) false hbody) fun _ _ => by simp
    have hafter := fun ran => ihr (line + 1 + body.size) level ran hrest
    cases s
    case forEach k n items =>
      exact passes_note hfirst (passes_bind (hlift _) fun es => passes_bind (passes_forM fun e _ =>
        passes_bind (hlift _) fun _ => passes_bind (hlift _) fun _ => hinner) fun _ => hafter false)
    case when c =>
      refine passes_note hfirst (passes_bind (hlift _) fun b => ?_)
      cases b
      · exact hafter false
      · exact passes_bind hinner fun _ => hafter true
    case elsewhen c =>
      cases ran with
      | true => exact hafter true
      | false =>
        refine passes_note hfirst (passes_bind (hlift _) fun b => ?_)
        cases b
        · exact hafter false
        · exact passes_bind hinner fun _ => hafter true
    case otherwise =>
      cases ran
      · exact passes_bind hinner fun _ => hafter false
      · exact hafter false
    case whenReached path =>
      refine passes_note hfirst (passes_bind (hlift _) fun b => ?_)
      cases b
      · exact hafter false
      · exact passes_bind hinner fun _ => hafter false
    case whenText n =>
      refine passes_note hfirst (passes_bind (hlift _) fun t => ?_)
      cases t
      · exact hafter false
      · exact passes_bind hinner fun _ => hafter true
    all_goals exact passes_note hfirst (passes_bind hinner fun _ => hafter false)

/-! ## Side by side -/

/-- a moment whose next statement is relaxed -/
def Moment.relaxed (m : Moment) : Moment := { m with next := m.next.map Stmt.relaxed }

/-- a moment before a statement that demands a value which is not there -/
def Moment.Lacks (m : Moment) (reference : Text) : Prop :=
  ∃ path, m.next = some (.emit (.demand path reference)) ∧ m.state.reach path = .ok none

/-- no moment lacks a value -/
def Calm (ms : List Moment) : Prop := ∀ m ∈ ms, ∀ reference, ¬m.Lacks reference

theorem Calm.append {ms : List Moment} {m : Moment} (h : Calm ms) (hm : ∀ reference, ¬m.Lacks reference) :
    Calm (ms ++ [m]) := by
  intro m' hm'
  rcases List.mem_append.1 hm' with hm' | hm'
  · exact h m' hm'
  · rw [List.mem_singleton.1 hm']
    exact hm

/-- the same state, come to by the same moments relaxed, none of which lacked a value -/
structure Watched.Beside (w w' : Watched) : Prop where
  state : w'.state = w.state
  moments : w'.moments = w.moments.map Moment.relaxed
  calm : Calm w.moments

/-- an outcome beside that of the relaxed work: the same, or the failure of the first value that is lacking -/
inductive Abreast {α : Type} : Except Failure α × Watched → Except Failure α × Watched → Prop
  | same {r : Except Failure α} {v v' : Watched} (hv : v.Beside v') (hr : Fails Failure.Other r) :
    Abreast (r, v) (r, v')
  | stopped {r' : Except Failure α} {v v' : Watched} {before : List Moment} {m : Moment} {reference : Text}
    (hmoments : v.moments = before ++ [m]) (hbefore : Calm before) (hm : m.Lacks reference)
    (halong : v.moments.map Moment.relaxed <+: v'.moments) :
    Abreast (.error (.undefined reference), v) (r', v')

/-- work that only adds moments -/
def Grows {α : Type} (x : Watch α) : Prop := ∀ w, w.moments <+: (x.run.run w).2.moments

/-- work that comes to the same as relaxed work, or stops at the first value it lacks -/
structure Refines {α : Type} (x y : Watch α) : Prop where
  grows : Grows y
  abreast : ∀ w w', w.Beside w' → Abreast (x.run.run w) (y.run.run w')

section

variable {α β : Type}

theorem grows_pure (a : α) : Grows (pure a : Watch α) := fun _ => List.prefix_refl _

theorem grows_lift (x : Render α) : Grows (Watch.lift x) := fun _ => List.prefix_refl _

theorem grows_bind {x : Watch α} {f : α → Watch β} (hx : Grows x) (hf : ∀ a, Grows (f a)) : Grows (x >>= f) := by
  intro w
  have h := hx w
  rw [run_bind]
  generalize x.run.run w = u at h ⊢
  obtain ⟨r, w'⟩ := u
  cases r with
  | error e => exact h
  | ok a => exact h.trans (hf a w')

theorem grows_note (line : Nat) (level : Int) (next : Option Stmt) : Grows (Watch.note line level next) :=
  fun _ => List.prefix_append _ _

/-- work after work that is abreast is abreast -/
theorem abreast_bind {x y : Watch α} {f g : α → Watch β} {w w' : Watched} (h : Abreast (x.run.run w) (y.run.run w'))
    (hf : ∀ a, Refines (f a) (g a)) : Abreast ((x >>= f).run.run w) ((y >>= g).run.run w') := by
  rw [run_bind, run_bind]
  generalize x.run.run w = u at h ⊢
  generalize y.run.run w' = u' at h ⊢
  cases h with
  | @same r v v' hv hr =>
    cases r with
    | error e => exact .same hv (fails_error (hr e rfl))
    | ok a => exact (hf a).abreast v v' hv
  | @stopped r' v v' before m reference hmoments hbefore hm halong =>
    cases r' with
    | error e => exact .stopped hmoments hbefore hm halong
    | ok a => exact .stopped hmoments hbefore hm (halong.trans ((hf a).grows v'))

theorem refines_bind {x y : Watch α} {f g : α → Watch β} (hx : Refines x y) (hf : ∀ a, Refines (f a) (g a)) :
    Refines (x >>= f) (y >>= g) :=
  ⟨grows_bind hx.grows fun a => (hf a).grows, fun w w' hw => abreast_bind (hx.abreast w w' hw) hf⟩

theorem refines_pure (a : α) : Refines (pure a) (pure a) :=
  ⟨grows_pure a, fun _ _ hw => .same hw (fails_ok a)⟩

theorem refines_lift {x : Render α} (hx : FailsIn Failure.Other x) : Refines (Watch.lift x) (Watch.lift x) := by
  refine ⟨grows_lift x, fun w w' hw => ?_⟩
  show Abreast ((x.run.run w.state).1, _) ((x.run.run w'.state).1, _)
  rw [hw.state]
  exact .same ⟨rfl, hw.moments, hw.calm⟩ (hx w.state)

/-- a moment that lacks nothing -/
theorem beside_note {w w' : Watched} (hw : w.Beside w') (line : Nat) (level : Int) (next : Option Stmt)
    (h : ∀ reference, ¬Moment.Lacks ⟨line, level, next, w.state⟩ reference) :
    Watched.Beside { w with moments := w.moments ++ [⟨line, level, next, w.state⟩] }
      { w' with moments := w'.moments ++ [⟨line, level, next.map Stmt.relaxed, w'.state⟩] } where
  state := hw.state
  moments := by simp [hw.moments, hw.state, Moment.relaxed]
  calm := hw.calm.append h

theorem refines_note {x y : Watch α} {next : Option Stmt} (h : ∀ s ∈ next, s.demands = []) (hx : Refines x y)
    (line : Nat) (level : Int) : Refines (do Watch.note line level next; x) (do Watch.note line level next; y) := by
  have hnext : next.map Stmt.relaxed = next := by
    cases next with
    | none => rfl
    | some s => exact congrArg some (Stmt.relaxed_of_demands (h s rfl))
  refine ⟨grows_bind (grows_note _ _ _) fun _ => hx.grows, fun w w' hw => ?_⟩
  have hbeside := beside_note hw line level next (by
    rintro reference ⟨path, hs, -⟩
    cases h _ hs)
  rw [hnext] at hbeside
  exact hx.abreast _ _ hbeside

theorem refines_forM {f g : α → Watch PUnit} (hf : ∀ a, Refines (f a) (g a)) (as : List α) :
    Refines (as.forM f) (as.forM g) := by
  induction as with
  | nil => exact refines_pure _
  | cons a as ih => exact refines_bind (hf a) fun _ => ih

theorem refines_inner {x y : Watch Unit} (hx : Refines x y) (line : Nat) (level : Int) :
    Refines (do x; Watch.note line level none) (do y; Watch.note line level none) := by
  have : (Watch.note line level none) = (do Watch.note line level none; pure ()) := bind_pure_unit.symm
  rw [this]
  exact refines_bind hx fun _ => refines_note (by simp) (refines_pure ()) line level

end

/-! ## A value that is written -/

theorem eval_demand {reach : Reach} {path : List Segment} (h : reach path = .ok none) (reference : Text) :
    (Expr.demand path reference).eval reach = .error (.undefined reference) := by
  simp [Expr.eval, h]

/-- a value that is there is the same relaxed -/
theorem eval_relaxed {reach : Reach} {path : List Segment} (h : reach path ≠ .ok none) (reference : Text) :
    (Expr.demand path reference).eval reach = (Expr.lookup path .null).eval reach := by
  cases hr : reach path with
  | error e => simp [Expr.eval, Literal.eval, hr]
  | ok found =>
    cases found with
    | none => exact absurd hr h
    | some v => simp [Expr.eval, Literal.eval, hr]

theorem run_watch_lift {α : Type} (x : Render α) (w : Watched) :
    (Watch.lift x).run.run w = ((x.run.run w.state).1, { w with state := (x.run.run w.state).2 }) := rfl

theorem run_emit (e : Expr) (s : State) :
    (Render.exec (.emit e)).run.run s =
      match e.eval s.reach with
      | .ok v => (Render.emit v).run.run s
      | .error f => (.error f, s) := by
  rw [Render.exec, run_bind, Render.eval, run_bind, run_get]
  simp only [run_lift]
  cases e.eval s.reach <;> rfl

/-- what is demanded and not there is a failure -/
theorem exec_lacking {path : List Segment} {w : Watched} (h : w.state.reach path = .ok none) (reference : Text) :
    (Watch.lift (Render.exec (.emit (.demand path reference)))).run.run w = (.error (.undefined reference), w) := by
  rw [run_watch_lift, run_emit, eval_demand h]

/-- what is demanded and there is written -/
theorem exec_there {path : List Segment} {w : Watched} (h : w.state.reach path ≠ .ok none) (reference : Text) :
    (Watch.lift (Render.exec (.emit (.demand path reference)))).run.run w =
      (Watch.lift (Render.exec (.emit (.lookup path .null)))).run.run w := by
  rw [run_watch_lift, run_watch_lift, run_emit, run_emit, eval_relaxed h]

/-- **A value that is written** refines the value relaxed. -/
theorem refines_emit {x y : Watch Unit} (e : Expr) (hx : Refines x y) (line : Nat) (level : Int) :
    Refines (do Watch.note line level (some (.emit e)); Watch.lift (Render.exec (.emit e)); x)
      (do Watch.note line level (some (.emit e.relaxed)); Watch.lift (Render.exec (.emit e.relaxed)); y) := by
  have hlenient : ∀ e : Expr, e.demands = [] → Refines (do Watch.lift (Render.exec (.emit e)); x)
      (do Watch.lift (Render.exec (.emit e)); y) :=
    fun e he => refines_bind (refines_lift (Render.other_exec he)) fun _ => hx
  by_cases he : e.demands = []
  · rw [Expr.relaxed_of_demands he]
    refine refines_note (fun s hs => ?_) (hlenient e he) line level
    cases hs
    exact he
  · cases e with
    | literal l => exact absurd rfl he
    | lookup path default => exact absurd rfl he
    | demand path reference =>
      have hsafe := hlenient (.lookup path .null) rfl
      refine ⟨grows_bind (grows_note _ _ _) fun _ => hsafe.grows, fun w w' hw => ?_⟩
      -- both runs at the moment before the statement
      let v : Watched :=
        { w with moments := w.moments ++ [⟨line, level, some (.emit (.demand path reference)), w.state⟩] }
      let v' : Watched :=
        { w' with moments := w'.moments ++ [⟨line, level, some (.emit (.lookup path .null)), w'.state⟩] }
      show Abreast ((do Watch.lift (Render.exec (.emit (.demand path reference))); x).run.run v)
        ((do Watch.lift (Render.exec (.emit (.lookup path .null))); y).run.run v')
      rw [run_bind]
      by_cases hreach : w.state.reach path = .ok none
      · have hmoments : v.moments.map Moment.relaxed = v'.moments := by
          simp [v, v', hw.moments, hw.state, Moment.relaxed, Stmt.relaxed, Expr.relaxed]
        rw [exec_lacking (w := v) hreach]
        refine .stopped rfl hw.calm ⟨path, rfl, hreach⟩ ?_
        rw [hmoments]
        exact hsafe.grows v'
      · have hbeside : v.Beside v' := by
          refine beside_note hw line level _ ?_
          rintro r ⟨p, hp, hlacks⟩
          cases hp
          exact hreach hlacks
        have h := hsafe.abreast v v' hbeside
        rw [run_bind] at h
        rw [exec_there (w := v) hreach]
        exact h

/-! ## Blocks -/

/-- **A block** refines the block relaxed. -/
theorem watch_refines {b : Block} (hb : b.Lenient) (line : Nat) (level : Int) (ran : Bool) :
    Refines (b.watch line level ran) (b.relaxed.watch line level ran) := by
  induction b generalizing line level ran with
  | done => exact refines_pure ()
  | step s rest ih =>
    obtain ⟨hs, hrest⟩ := hb
    have hafter := ih hrest (line + 1) level false
    rcases hs with hs | ⟨e, rfl⟩
    · rw [Block.relaxed, Stmt.relaxed_of_demands hs]
      exact refines_note (by simpa using hs)
        (refines_bind (refines_lift (Render.other_exec hs)) fun _ => hafter) line level
    · exact refines_emit e hafter line level
  | nest s body rest ihb ihr =>
    obtain ⟨hs, hbody, hrest⟩ := hb
    have hnext : ∀ u ∈ some s, u.demands = [] := by simpa using hs
    have hinner := refines_inner (ihb hbody (line + 1) (level + 1) false) (line + 1 + body.size) (level + 1)
    have hafter := fun ran => ihr hrest (line + 1 + body.size) level ran
    rw [Block.relaxed, Stmt.relaxed_of_demands hs]
    cases s
    case forEach k n items =>
      simp only [Block.watch, Block.size_relaxed]
      exact refines_note hnext (refines_bind (refines_lift (Render.other_entries items)) fun es => refines_bind
        (refines_forM (fun e => refines_bind (refines_lift (Render.other_setTemporary _ _)) fun _ =>
          refines_bind (refines_lift (Render.other_setTemporary _ _)) fun _ => hinner) es) fun _ => hafter false) _ _
    case when c =>
      simp only [Block.watch, Block.size_relaxed]
      refine refines_note hnext (refines_bind (refines_lift (Render.other_holds hs)) fun b => ?_) _ _
      cases b
      · exact hafter false
      · exact refines_bind hinner fun _ => hafter true
    case elsewhen c =>
      simp only [Block.watch, Block.size_relaxed]
      cases ran with
      | true => exact hafter true
      | false =>
        refine refines_note hnext (refines_bind (refines_lift (Render.other_holds hs)) fun b => ?_) _ _
        cases b
        · exact hafter false
        · exact refines_bind hinner fun _ => hafter true
    case otherwise =>
      simp only [Block.watch, Block.size_relaxed]
      cases ran
      · exact refines_bind hinner fun _ => hafter false
      · exact hafter false
    case whenReached path =>
      simp only [Block.watch, Block.size_relaxed]
      refine refines_note hnext (refines_bind (refines_lift (Render.other_reached path)) fun b => ?_) _ _
      cases b
      · exact hafter false
      · exact refines_bind hinner fun _ => hafter false
    case whenText n =>
      simp only [Block.watch, Block.size_relaxed]
      refine refines_note hnext (refines_bind (refines_lift (Render.other_textOf n)) fun t => ?_) _ _
      cases t
      · exact hafter false
      · exact refines_bind hinner fun _ => hafter true
    all_goals
      simp only [Block.watch, Block.size_relaxed]
      exact refines_note hnext (refines_bind hinner fun _ => hafter false) _ _

end Stencil
