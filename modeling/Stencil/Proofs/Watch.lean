/-
WATCHED RUNS. A run comes by moments: before each statement it is about to run, and at the end of each body, it stands
at a line, in a block of some level, with a state. Watching a run changes nothing in it.

- `watch_run`: the watched run comes to the same outcome and the same state.
- `Passes`: from states of one kind, work comes by moments of some kind only, whether it fails or not, and leads to
  states of another kind if it succeeds.
- `passes_opening`: the moments of a construct, given those of its body.
-/
import Stencil.Proofs.Kept

namespace Stencil

/-- where a run stands: at a line, in a block at a level, before a statement or at the end of the block -/
structure Moment where
  line : Nat
  level : Int
  next : Option Stmt
  state : State

/-- a state, and the moments before it in their order -/
structure Watched where
  state : State
  moments : List Moment

/-- work that tells the moments it comes by -/
abbrev Watch := ExceptT Failure (StateM Watched)

namespace Watch

/-- work on the state alone -/
def lift {α : Type} (x : Render α) : Watch α :=
  ExceptT.mk fun w =>
    let r := x.run.run w.state
    (r.1, { w with state := r.2 })

/-- a moment told -/
def note (line : Nat) (level : Int) (next : Option Stmt) : Watch Unit :=
  modify fun w => { w with moments := w.moments ++ [⟨line, level, next, w.state⟩] }

end Watch

/-- how many statements a block has -/
def Block.size : Block → Nat
  | done => 0
  | step _ rest => rest.size + 1
  | nest _ body rest => body.size + rest.size + 1

open Watch in
/-- a block run and watched, from its first line on; a branch is passed over if one has run -/
def Block.watch (line : Nat) (level : Int) (ran : Bool) : Block → Watch Unit
  | done => pure ()
  | step s rest => do
    note line level (some s)
    lift (Render.exec s)
    rest.watch (line + 1) level false
  | nest s body rest =>
    let after := line + 1 + body.size
    let inner : Watch Unit := do
      body.watch (line + 1) (level + 1) false
      note after (level + 1) none
    match s with
    | .forEach k n items => do
      note line level (some s)
      let es ← lift (Render.entries items)
      es.forM fun e => do
        lift (Render.setTemporary k (.value e.1))
        lift (Render.setTemporary n (.value e.2))
        inner
      rest.watch after level false
    | .when c => do
      note line level (some s)
      let b ← lift (Render.holds c)
      if b then inner
      rest.watch after level b
    | .elsewhen c => do
      if ran then rest.watch after level true
      else
        note line level (some s)
        let b ← lift (Render.holds c)
        if b then inner
        rest.watch after level b
    | .otherwise => do
      if !ran then inner
      rest.watch after level false
    | .whenReached path => do
      note line level (some s)
      let b ← lift (Render.reached path)
      if b then inner
      rest.watch after level false
    | .whenText n => do
      note line level (some s)
      let t ← lift (Render.textOf n)
      if t.isSome then inner
      rest.watch after level t.isSome
    | _ => do
      note line level (some s)
      inner
      rest.watch after level false

/-- a render watched, up to the moment after its last line -/
def Template.watch (t : Template) : Watch Unit := do
  t.program.watch 0 bodyDepth false
  Watch.note (programLines t.fragments).length bodyDepth none

/-- the moments of a render from a state -/
def Template.moments (t : Template) (s : State) : List Moment := (t.watch.run.run ⟨s, []⟩).2.moments

/-! ## Watching changes nothing -/

/-- watched work comes to the same as the work -/
def Forgets {α : Type} (x : Watch α) (y : Render α) : Prop :=
  ∀ w, (x.run.run w).1 = (y.run.run w.state).1 ∧ (x.run.run w).2.state = (y.run.run w.state).2

section

variable {α β : Type}

theorem forgets_pure (a : α) : Forgets (pure a) (pure a) := fun _ => ⟨rfl, rfl⟩

theorem forgets_lift (x : Render α) : Forgets (Watch.lift x) x := fun _ => ⟨rfl, rfl⟩

theorem forgets_bind {x : Watch α} {y : Render α} {f : α → Watch β} {g : α → Render β} (hx : Forgets x y)
    (hf : ∀ a, Forgets (f a) (g a)) : Forgets (x >>= f) (y >>= g) := by
  intro w
  obtain ⟨hr, hs⟩ := hx w
  rw [run_bind, run_bind]
  generalize x.run.run w = u at hr hs ⊢
  generalize y.run.run w.state = v at hr hs ⊢
  obtain ⟨r, w'⟩ := u
  obtain ⟨r', s'⟩ := v
  obtain rfl : r = r' := hr
  obtain rfl : w'.state = s' := hs
  cases r with
  | error e => exact ⟨rfl, rfl⟩
  | ok a => exact hf a w'

theorem forgets_note {x : Watch α} {y : Render α} (hx : Forgets x y) (line : Nat) (level : Int) (next : Option Stmt) :
    Forgets (do Watch.note line level next; x) y := by
  intro w
  rw [run_bind]
  exact hx _

theorem forgets_forM {f : α → Watch PUnit} {g : α → Render PUnit} (hf : ∀ a, Forgets (f a) (g a)) (as : List α) :
    Forgets (as.forM f) (as.forM g) := by
  induction as with
  | nil => exact forgets_pure _
  | cons a as ih => exact forgets_bind (hf a) fun _ => ih

theorem forgets_inner {x : Watch Unit} {y : Render Unit} (hx : Forgets x y) (line : Nat) (level : Int)
    (next : Option Stmt) : Forgets (do x; Watch.note line level next) y := by
  have : y = (do y; pure ()) := bind_pure_unit.symm
  rw [this]
  exact forgets_bind hx fun _ => forgets_note (forgets_pure ()) line level next

end

/-- **A watched run** comes to the same outcome and the same state. -/
theorem watch_run (b : Block) (line : Nat) (level : Int) (ran : Bool) :
    Forgets (b.watch line level ran) (b.run ran) := by
  induction b generalizing line level ran with
  | done => exact forgets_pure ()
  | step s rest ih => exact forgets_note (forgets_bind (forgets_lift _) fun _ => ih _ _ _) line level _
  | nest s body rest ihb ihr =>
    have hinner : Forgets (do
        body.watch (line + 1) (level + 1) false
        Watch.note (line + 1 + body.size) (level + 1) none) (body.run false) :=
      forgets_inner (ihb _ _ _) _ _ _
    cases s
    case forEach k n items =>
      exact forgets_note (forgets_bind (forgets_lift _) fun es => forgets_bind
        (forgets_forM (fun e =>
          forgets_bind (forgets_lift _) fun _ => forgets_bind (forgets_lift _) fun _ => hinner) es)
        fun _ => ihr _ _ _) _ _ _
    case when c =>
      rw [Block.run_when]
      refine forgets_note (forgets_bind (forgets_lift _) fun b => ?_) _ _ _
      cases b
      · exact ihr _ _ _
      · exact forgets_bind hinner fun _ => ihr _ _ _
    case elsewhen c =>
      cases ran with
      | true => exact ihr _ _ _
      | false =>
        rw [Block.run_elsewhen]
        refine forgets_note (forgets_bind (forgets_lift _) fun b => ?_) _ _ _
        cases b
        · exact ihr _ _ _
        · exact forgets_bind hinner fun _ => ihr _ _ _
    case otherwise =>
      cases ran
      · exact forgets_bind hinner fun _ => ihr _ _ _
      · exact ihr _ _ _
    case whenReached path =>
      rw [Block.run_whenReached]
      refine forgets_note (forgets_bind (forgets_lift _) fun b => ?_) _ _ _
      cases b
      · exact ihr _ _ _
      · exact forgets_bind hinner fun _ => ihr _ _ _
    case whenText n =>
      refine forgets_note (forgets_bind (forgets_lift _) fun t => ?_) _ _ _
      cases t
      · exact ihr _ _ _
      · exact forgets_bind hinner fun _ => ihr _ _ _
    all_goals exact forgets_note (forgets_bind hinner fun _ => ihr _ _ _) _ _ _

/-! ## Blocks one after the other -/

namespace Block

@[simp] theorem size_append (b k : Block) : (b.append k).size = b.size + k.size := by
  induction b with
  | done => simp [append, size]
  | step s rest ih =>
    simp only [append, size, ih]
    omega
  | nest s body rest _ ih =>
    simp only [append, size, ih]
    omega

@[simp] theorem size_steps (stmts : List Stmt) : (steps stmts).size = stmts.length := by
  induction stmts with
  | nil => rfl
  | cons s stmts ih => simpa [steps, size] using ih

/-- what has run before a plain block does not matter -/
theorem Plain.watch {b : Block} (h : b.Plain) (line : Nat) (level : Int) (ran : Bool) :
    b.watch line level ran = b.watch line level false := by
  cases b with
  | done => rfl
  | step s rest => rfl
  | nest s body rest =>
    cases s with
    | elsewhen c => exact h.elim
    | otherwise => exact h.elim
    | _ => rfl

/-- **A block and then another one** are watched one after the other, unless the second goes on with a conditional. -/
theorem watch_append (b k : Block) (hk : k.Plain) (line : Nat) (level : Int) (ran : Bool) :
    (b.append k).watch line level ran = (do b.watch line level ran; k.watch (line + b.size) level false) := by
  induction b generalizing line ran with
  | done =>
    rw [append, hk.watch, watch, pure_bind]
    rfl
  | step s rest ih =>
    simp only [append, watch, size, ih, bind_assoc, Nat.add_assoc, Nat.add_comm 1]
  | nest s body rest _ ih =>
    have hline : line + 1 + body.size + rest.size = line + (body.size + rest.size + 1) := by omega
    cases s
    case whenReached path =>
      simp only [append, watch, size, ih, bind_assoc, hline]
      refine bind_congr fun _ => bind_congr fun b => ?_
      cases b <;> simp
    case when c =>
      simp only [append, watch, size, ih, bind_assoc, hline]
      refine bind_congr fun _ => bind_congr fun b => ?_
      cases b <;> simp
    case elsewhen c =>
      cases ran with
      | true => simp only [append, watch, size, ih, hline, if_true]
      | false =>
        simp only [append, watch, size, ih, bind_assoc, hline, Bool.false_eq_true, if_false]
        refine bind_congr fun _ => bind_congr fun b => ?_
        cases b <;> simp
    case otherwise =>
      simp only [append, watch, size, ih, hline]
      cases ran <;> simp
    case whenText n =>
      simp only [append, watch, size, ih, bind_assoc, hline]
      refine bind_congr fun _ => bind_congr fun t => ?_
      cases t <;> simp
    all_goals simp only [append, watch, size, ih, bind_assoc, hline]

end Block

/-! ## The moments that work comes by -/

/-- from some states work comes by some moments only, and leads to some states if it succeeds -/
def Passes {α : Type} (G : Moment → Prop) (P : State → Prop) (x : Watch α) (Q : State → Prop) : Prop :=
  ∀ w, P w.state →
    (∀ m ∈ (x.run.run w).2.moments, m ∈ w.moments ∨ G m) ∧ ∀ a, (x.run.run w).1 = .ok a → Q (x.run.run w).2.state

section

variable {α β : Type} {G : Moment → Prop} {P Q R : State → Prop}

theorem passes_pure {a : α} (h : ∀ s, P s → Q s) : Passes G P (pure a) Q :=
  fun w hw => ⟨fun _ hm => .inl hm, fun _ _ => h w.state hw⟩

theorem passes_lift {x : Render α} (h : Leads P x Q) : Passes G P (Watch.lift x) Q := by
  refine fun w hw => ⟨fun _ hm => .inl hm, fun a ha => h w.state hw a _ (Prod.ext ha rfl)⟩

theorem passes_bind {x : Watch α} {f : α → Watch β} (hx : Passes G P x Q) (hf : ∀ a, Passes G Q (f a) R) :
    Passes G P (x >>= f) R := by
  intro w hw
  obtain ⟨hm, hq⟩ := hx w hw
  rw [run_bind]
  generalize x.run.run w = u at hm hq ⊢
  obtain ⟨r, w'⟩ := u
  cases r with
  | error e => exact ⟨hm, fun a ha => by cases ha⟩
  | ok a =>
    obtain ⟨hm', hr⟩ := hf a w' (hq a rfl)
    refine ⟨fun m h => ?_, hr⟩
    rcases hm' m h with h | h
    · exact hm m h
    · exact .inr h

/-- a step on the state whose value is of some kind -/
theorem passes_gives {x : Render α} {T : α → Prop} {f : α → Watch β} (hx : Gives P x T Q)
    (hf : ∀ a, T a → Passes G Q (f a) R) : Passes G P (Watch.lift x >>= f) R := by
  intro w hw
  have hlift : (Watch.lift x).run.run w = ((x.run.run w.state).1, { w with state := (x.run.run w.state).2 }) := rfl
  rw [run_bind, hlift]
  rcases hr : x.run.run w.state with ⟨r, s'⟩
  cases r with
  | error e => exact ⟨fun _ hm => .inl hm, fun a ha => by cases ha⟩
  | ok a =>
    obtain ⟨ha, hs⟩ := hx w.state hw a s' hr
    exact hf a ha { w with state := s' } hs

theorem passes_note {x : Watch α} {line : Nat} {level : Int} {next : Option Stmt}
    (h : ∀ s, P s → G ⟨line, level, next, s⟩) (hx : Passes G P x Q) :
    Passes G P (do Watch.note line level next; x) Q := by
  intro w hw
  rw [run_bind]
  obtain ⟨hm, hq⟩ := hx { w with moments := w.moments ++ [⟨line, level, next, w.state⟩] } hw
  refine ⟨fun m hin => ?_, hq⟩
  rcases hm m hin with hin | hg
  · rcases List.mem_append.1 hin with hin | hin
    · exact .inl hin
    · rw [List.mem_singleton.1 hin]
      exact .inr (h w.state hw)
  · exact .inr hg

theorem passes_exists {ι : Type} {P Q : ι → State → Prop} {x : Watch α} (hx : ∀ i, Passes G (P i) x (Q i)) :
    Passes G (fun s => ∃ i, P i s) x (fun s => ∃ i, Q i s) := by
  rintro w ⟨i, hw⟩
  obtain ⟨hm, hq⟩ := hx i w hw
  exact ⟨hm, fun a ha => ⟨i, hq a ha⟩⟩

theorem passes_forM {f : α → Watch PUnit} {as : List α} (hf : ∀ a ∈ as, Passes G P (f a) P) :
    Passes G P (as.forM f) P := by
  induction as with
  | nil => exact passes_pure fun _ h => h
  | cons a as ih =>
    obtain ⟨ha, has⟩ := List.forall_mem_cons.1 hf
    exact passes_bind ha fun _ => ih has

theorem Passes.mono {G' : Moment → Prop} {x : Watch α} (hx : Passes G P x Q) (h : ∀ m, G m → G' m) :
    Passes G' P x Q :=
  fun w hw => ⟨fun m hm => ((hx w hw).1 m hm).imp id (h m), (hx w hw).2⟩

theorem Passes.weaken {x : Watch α} (hx : Passes G P x Q) (h : ∀ s, Q s → R s) : Passes G P x R :=
  fun w hw => ⟨(hx w hw).1, fun a ha => h _ ((hx w hw).2 a ha)⟩

/-- what watched work leads to, the work itself leads to -/
theorem Passes.leads {x : Watch α} {y : Render α} (hx : Passes G P x Q) (hy : Forgets x y) : Leads P y Q := by
  intro s hs a s' hrun
  obtain ⟨hr, hstate⟩ := hy ⟨s, []⟩
  rw [hrun] at hr hstate
  have h := (hx ⟨s, []⟩ hs).2 a hr
  rw [hstate] at h
  exact h

/-- a statement, and the block after it -/
theorem passes_step {s : Stmt} {rest : Block} {line : Nat} {level : Int} {ran : Bool}
    (h : ∀ st, P st → G ⟨line, level, some s, st⟩) (hs : Leads P (Render.exec s) Q)
    (hrest : Passes G Q (rest.watch (line + 1) level false) R) :
    Passes G P ((Block.step s rest).watch line level ran) R :=
  passes_note h (passes_bind (passes_lift hs) fun _ => hrest)

/-- a body, and its end -/
theorem passes_inner {x : Watch Unit} {line : Nat} {level : Int} (hx : Passes G P x Q)
    (h : ∀ s, Q s → G ⟨line, level, none, s⟩) :
    Passes G P (do x; Watch.note line level none) Q := by
  have : (Watch.note line level none) = (do Watch.note line level none; pure ()) := bind_pure_unit.symm
  rw [this]
  exact passes_bind hx fun _ => passes_note h (passes_pure fun _ h => h)

/-- statements one after the other -/
theorem passes_steps {stmts : List Stmt} {line : Nat} {level : Int} (ran : Bool)
    (h : ∀ i, i < stmts.length → ∀ s ∈ stmts, ∀ st, P st → G ⟨line + i, level, some s, st⟩)
    (hs : ∀ s ∈ stmts, Leads P (Render.exec s) P) : Passes G P ((Block.steps stmts).watch line level ran) P := by
  induction stmts generalizing line ran with
  | nil => exact passes_pure fun _ h => h
  | cons s stmts ih =>
    refine passes_step (fun st hst => h 0 (by simp) s List.mem_cons_self st hst) (hs s List.mem_cons_self)
      (ih false (fun i hi t ht st hst => ?_) fun t ht => hs t (List.mem_cons_of_mem s ht))
    have := h (i + 1) (by simp [hi]) t (List.mem_cons_of_mem s ht) st hst
    rwa [Nat.add_assoc, Nat.add_comm 1]

end

/-! ## Constructs -/

/-- the statement finds what it changes or asks: a loop, a form or a section that is open, a layer of the scope -/
def Stmt.Safe (s : State) : Stmt → Prop
  | .iterationBegin _ | .iterationEnd | .loopClose => s.loops ≠ []
  | .writeFormOpen | .writeFormClose | .formClose | .field _ _ _ | .submit _ | .button _ => s.forms ≠ []
  | .captureEnd _ => s.captures ≠ []
  | .scopeClose | .bind _ _ => s.scope ≠ []
  | _ => True

/-- where the body of a construct begins, in a construct that begins in some state -/
def Opening.Inside (s₀ : State) : Opening → State → Prop
  | .loop _ _ _, s => ∃ p, s = s₀.inLoop p
  | .capture _, s => ∃ o, s = s₀.inCapture o
  | .form _ _ _, s => ∃ f, s = s₀.inForm f
  | .phrase _ _, s => s = s₀

/-- what holds of the moments of a construct that stand outside of its body: at its first line, between its first line
and the body or between the body and the end, and at the end of a loop's block -/
structure Framed (G : Moment → Prop) (s₀ : State) (line inner after last : Nat) (level : Int) : Prop where
  first : ∀ next s, s₀.Kept s → (∀ st ∈ next, Stmt.Safe s st) → G ⟨line, level, next, s⟩
  between : ∀ l e next s, line < l ∧ l < inner ∨ after < l ∧ l < last → level ≤ e → s.data = s₀.data →
    (∀ st ∈ next, Stmt.Safe s st) → G ⟨l, e, next, s⟩
  final : after < last → ∀ s, s₀.Kept s → G ⟨last, level + 1, none, s⟩

theorem keeps_reached (path : List Segment) : Keeps (Render.reached path) :=
  keeps_bind keeps_get fun _ => keeps_lift _

theorem keeps_holds (c : Condition) : Keeps (Render.holds c) := keeps_bind keeps_get fun _ => keeps_lift _

section

variable {G : Moment → Prop} {s₀ : State} {line inner after last : Nat} {level deep : Int} {b : Block}

/-- **One iteration of a loop** changes the loop and its layer. -/
theorem passes_iteration (hp : b.Plain) (hG : Framed G s₀ line inner after last level) (names : List Text)
    (key item : Nat)
    (hinner : inner = line + 6 + (Directive.loopBinds names key item).length) (hafter : after = inner + b.size)
    (hdeep : level ≤ deep)
    (hend : ∀ next s, s₀.InLoop s → (∀ st ∈ next, Stmt.Safe s st) → G ⟨after, deep, next, s⟩)
    (hb : Passes G s₀.InLoop (b.watch inner deep false) s₀.InLoop) :
    Passes G s₀.InLoop ((Opening.iteration names key item b).watch (line + 5) deep false)
      s₀.InLoop := by
  have hloops : ∀ s, s₀.InLoop s → s.loops ≠ [] := by
    rintro s ⟨p, hs⟩
    simp [hs.loops, State.inLoop, State.withLoop]
  have hscope : ∀ s, s₀.InLoop s → s.scope ≠ [] := by
    rintro s ⟨p, hs⟩
    simp [hs.scope, State.inLoop]
  have hdata : ∀ s, s₀.InLoop s → s.data = s₀.data := by
    rintro s ⟨p, hs⟩
    exact hs.data
  have hkey : Leads s₀.InLoop (Render.value key) s₀.InLoop :=
    leads_exists fun p => Render.keeps_value key (s₀.inLoop p)
  have hbinds : ∀ s ∈ Directive.loopBinds names key item, ∃ name half, s = .bind name half := by
    intro s hs
    unfold Directive.loopBinds at hs
    split at hs <;> simp at hs
    · exact ⟨_, _, hs⟩
    · rcases hs with rfl | rfl <;> exact ⟨_, _, rfl⟩
  refine passes_step (fun s hs =>
    hG.between _ _ _ s (.inl (by omega)) hdeep (hdata s hs) (by simpa [Stmt.Safe] using hloops s hs))
    (leads_bind hkey fun _ => leads_changeLoop s₀ _) ?_
  rw [Block.watch_append _ _ (Block.plain_append hp (Block.plain_step _ _)),
    Block.watch_append _ _ (Block.plain_step _ _)]
  have hline : line + 5 + 1 + (Block.steps (Directive.loopBinds names key item)).size = inner := by
    rw [Block.size_steps]
    omega
  rw [hline, ← hafter]
  refine passes_bind (passes_steps false (fun i hi st hst s hs => ?_) fun st hst => ?_) fun _ => passes_bind hb fun _ =>
    passes_step (fun s hs => hend _ s hs (by simpa [Stmt.Safe] using hloops s hs)) (leads_changeLoop s₀ _)
      (passes_pure fun _ h => h)
  · obtain ⟨name, half, rfl⟩ := hbinds st hst
    exact hG.between _ _ _ s (.inl (by omega)) hdeep (hdata s hs) (by simpa [Stmt.Safe] using hscope s hs)
  · obtain ⟨name, half, rfl⟩ := hbinds st hst
    exact leads_bindName s₀ name half

theorem size_iteration (names : List Text) (key item : Nat) (b : Block) :
    (Opening.iteration names key item b).size = (Directive.loopBinds names key item).length + b.size + 2 := by
  simp only [Opening.iteration, Block.size, Block.size_append, Block.size_steps]
  omega

/-- **A loop**, whose iterations begin and end inside of its layer. -/
theorem passes_loop (hp : b.Plain) (hG : Framed G s₀ line inner after last level) (names : List Text)
    (path : List Segment)
    (e : Expr) (n : Nat) (hinner : inner = line + 6 + (Directive.loopBinds names (n + 2) (n + 3)).length)
    (hafter : after = inner + b.size) (hlast : last = after + 3)
    (hend : ∀ next s, s₀.InLoop s → (∀ st ∈ next, Stmt.Safe s st) → G ⟨after, level + 2, next, s⟩)
    (hb : Passes G s₀.InLoop (b.watch inner (level + 2) false)
      s₀.InLoop) :
    Passes G s₀.Kept (((Opening.loop names path e).block n b).watch line level false) s₀.Kept := by
  have hsize := size_iteration names (n + 2) (n + 3) b
  have hdeep : level + 1 + 1 = level + 2 := by omega
  have hdata : ∀ s, s₀.InLoop s → s.data = s₀.data := by
    rintro s ⟨p, hs⟩
    exact hs.data
  have hset : ∀ n t, Leads s₀.InLoop (Render.setTemporary n t)
      s₀.InLoop :=
    fun n t => leads_exists fun p => Render.keeps_setTemporary n t (s₀.inLoop p)
  have hentries : Leads s₀.InLoop (Render.entries (n + 1))
      s₀.InLoop :=
    leads_exists fun p => Render.keeps_entries (n + 1) (s₀.inLoop p)
  have hiteration := passes_iteration hp hG names (n + 2) (n + 3) hinner hafter (by omega) hend hb
  -- the end of an iteration is a line after that of the body
  have hinside : Passes G s₀.InLoop
      (do
        (Opening.iteration names (n + 2) (n + 3) b).watch (line + 5) (level + 2) false
        Watch.note (line + 5 + (Opening.iteration names (n + 2) (n + 3) b).size) (level + 2) none)
      s₀.InLoop :=
    passes_inner hiteration fun s hs => hG.between _ _ _ s (.inr (by omega)) (by omega) (hdata s hs) (by simp)
  have hguarded : Passes G s₀.Kept ((Opening.guarded names e n b).watch (line + 1) (level + 1) false) s₀.Kept := by
    refine passes_step (fun s hs => hG.between _ _ _ s (.inl (by omega)) (by omega) hs.data (by simp [Stmt.Safe]))
      (keeps_exec (s := .iterate (n + 1) e) trivial s₀) ?_
    refine passes_step (fun s hs => hG.between _ _ _ s (.inl (by omega)) (by omega) hs.data (by simp [Stmt.Safe]))
      (leads_loopOpen s₀ _) ?_
    refine passes_step (fun s hs => ?_) (leads_scopeLoop s₀) ?_
    · obtain ⟨l, hs⟩ := hs
      exact hG.between _ _ _ s (.inl (by omega)) (by omega) hs.data (by simp [Stmt.Safe])
    refine passes_note (fun s hs => hG.between _ _ _ s (.inl (by omega)) (by omega) (hdata s hs)
      (by simp [Stmt.Safe])) ?_
    refine passes_bind (passes_lift hentries) fun es => passes_bind
      (passes_forM fun p _ => passes_bind (passes_lift (hset _ _)) fun _ =>
        passes_bind (passes_lift (hset _ _)) fun _ => by simpa only [hdeep] using hinside) fun _ => ?_
    refine passes_step (fun s hs => ?_) (leads_closeLoop s₀) (passes_step (fun s hs => ?_) (leads_loopClose s₀)
      (passes_pure fun _ h => h))
    · refine hG.between _ _ _ s (.inr (by omega)) (by omega) (hdata s hs) ?_
      obtain ⟨p, hs⟩ := hs
      simp [Stmt.Safe, hs.scope, State.inLoop]
    · obtain ⟨l, hs⟩ := hs
      refine hG.between _ _ _ s (.inr (by omega)) (by omega) hs.data ?_
      simp [Stmt.Safe, hs.loops, State.withLoop]
  have hall : line + 1 + (Opening.guarded names e n b).size = last := by
    simp only [Opening.guarded, Block.size]
    omega
  refine passes_note (fun s hs => hG.first _ s hs (by simp [Stmt.Safe])) (passes_bind
    (passes_lift (keeps_reached path s₀)) fun r => ?_)
  cases r with
  | false => exact passes_pure fun _ h => h
  | true =>
    refine passes_bind (passes_inner hguarded fun s hs => ?_) fun _ => passes_pure fun _ h => h
    have hfinal := hG.final (by omega) s hs
    rw [← hall] at hfinal
    exact hfinal

/-- **A section**, whose body begins and ends inside of its capture. -/
theorem passes_capture (hG : Framed G s₀ line inner after last level) (name : Text) (n : Nat)
    (hinner : inner = line + 1) (hafter : after = inner + b.size)
    (hend : ∀ next s, s₀.InCapture s → (∀ st ∈ next, Stmt.Safe s st) → G ⟨after, level, next, s⟩)
    (hb : Passes G s₀.InCapture (b.watch inner level false) s₀.InCapture) :
    Passes G s₀.Kept (((Opening.capture name).block n b).watch line level false) s₀.Kept := by
  refine passes_step (fun s hs => hG.first _ s hs (by simp [Stmt.Safe])) (leads_captureBegin s₀) ?_
  rw [Block.watch_append _ _ (Block.plain_step _ _), ← hinner, ← hafter]
  refine passes_bind hb fun _ => passes_step (fun s hs => hend _ s hs ?_) (leads_captureEnd s₀ name)
    (passes_pure fun _ h => h)
  obtain ⟨o, hs⟩ := hs
  simp [Stmt.Safe, hs.captures, State.inCapture]

/-- **A form**, whose body begins and ends inside of its layer. -/
theorem passes_form (hG : Framed G s₀ line inner after last level) (e : Expr) (name : Text) (attributes : Attributes)
    (n : Nat) (hinner : inner = line + 3) (hafter : after = inner + b.size) (hlast : last = after + 3)
    (hend : ∀ next s, s₀.InForm s → (∀ st ∈ next, Stmt.Safe s st) → G ⟨after, level, next, s⟩)
    (hb : Passes G s₀.InForm (b.watch inner level false) s₀.InForm) :
    Passes G s₀.Kept (((Opening.form e name attributes).block n b).watch line level false) s₀.Kept := by
  have hforms : ∀ s, s₀.WithForm s → s.forms ≠ [] := by
    rintro s ⟨f, hs⟩
    simp [hs.forms, State.withForm]
  refine passes_step (fun s hs => hG.first _ s hs (by simp [Stmt.Safe])) (leads_formOpen s₀ e name attributes) ?_
  refine passes_step (fun s hs => ?_)
    (leads_exists fun f => keeps_exec (s := .writeFormOpen) trivial (s₀.withForm f)) ?_
  · refine hG.between _ _ _ s (.inl (by omega)) (Int.le_refl _) ?_ (by simpa [Stmt.Safe] using hforms s hs)
    obtain ⟨f, hs⟩ := hs
    exact hs.data
  refine passes_step (fun s hs => ?_) (leads_scopeForm s₀) ?_
  · obtain ⟨f, hs⟩ := hs
    exact hG.between _ _ _ s (.inl (by omega)) (Int.le_refl _) hs.data (by simp [Stmt.Safe])
  have hline : line + 1 + 1 + 1 = inner := by omega
  rw [Block.watch_append _ _ (Block.plain_step _ _), hline, ← hafter]
  refine passes_bind hb fun _ => passes_step (fun s hs => hend _ s hs ?_)
    (leads_exists fun f => keeps_exec (s := .writeFormClose) trivial (s₀.inForm f)) ?_
  · obtain ⟨f, hs⟩ := hs
    simp [Stmt.Safe, hs.forms, State.inForm, State.withForm]
  refine passes_step (fun s hs => ?_) (leads_closeForm s₀) (passes_step (fun s hs => ?_) (leads_formClose s₀)
    (passes_pure fun _ h => h))
  · obtain ⟨f, hs⟩ := hs
    exact hG.between _ _ _ s (.inr (by omega)) (Int.le_refl _) hs.data (by simp [Stmt.Safe, hs.scope, State.inForm])
  · refine hG.between _ _ _ s (.inr (by omega)) (Int.le_refl _) ?_ (by simpa [Stmt.Safe] using hforms s hs)
    obtain ⟨f, hs⟩ := hs
    exact hs.data

/-- **A phrase**, whose body is the alternative to its text. -/
theorem passes_phrase (hG : Framed G s₀ line inner after last level) (key : Text) (params : List (Text × Expr))
    (n : Nat)
    (hinner : inner = line + 5) (hafter : after = inner + b.size)
    (hend : ∀ next s, s₀.Kept s → (∀ st ∈ next, Stmt.Safe s st) → G ⟨after, level + 1, next, s⟩)
    (hb : Passes G s₀.Kept (b.watch inner (level + 1) false) s₀.Kept) :
    Passes G s₀.Kept (((Opening.phrase key params).block n b).watch line level false) s₀.Kept := by
  have hline : line + 1 + 1 + 1 + 1 + 1 = inner := by omega
  have hbefore : ∀ l e next s, line < l → l < inner → level ≤ e → s₀.Kept s → (∀ st ∈ next, Stmt.Safe s st) →
      G ⟨l, e, next, s⟩ := fun l e next s h h' he hs hsafe => hG.between l e next s (.inl ⟨h, h'⟩) he hs.data hsafe
  refine passes_step (fun s hs => hG.first _ s hs (by simp [Stmt.Safe]))
    (keeps_exec (s := .translate (n + 1) key params) trivial s₀) ?_
  refine passes_note (fun s hs => hbefore _ _ _ s (by omega) (by omega) (by omega) hs (by simp [Stmt.Safe]))
    (passes_bind
    (passes_lift (Render.keeps_textOf _ s₀)) fun t => ?_)
  cases t with
  | none =>
    refine passes_bind (passes_inner (passes_step (s := .pass) (fun s hs => ?_) (keeps_exec (s := .pass) trivial s₀) ?_)
      fun s hs => ?_) fun _ => passes_pure fun _ h => h
    · exact hbefore _ _ _ s (by simp [Block.size]; omega) (by simp [Block.size]; omega) (by omega) hs
        (by simp [Stmt.Safe])
    · simp only [Block.size, Nat.zero_add, hline]
      exact hb
    · have hsize : line + 1 + 1 + (Block.step (.writeText (n + 1)) .done).size + 1 + (Block.step .pass b).size =
          after := by
        simp only [Block.size]
        omega
      rw [hsize]
      exact hend none s hs (by simp)
  | some t =>
    refine passes_bind (passes_inner (passes_step (fun s hs => ?_) (keeps_exec (s := .writeText _) trivial s₀)
      (passes_pure fun _ h => h)) fun s hs => ?_) fun _ => passes_pure fun _ h => h
    · exact hbefore _ _ _ s (by omega) (by omega) (by omega) hs (by simp [Stmt.Safe])
    · exact hbefore _ _ _ s (by omega) (by simp only [Block.size]; omega) (by omega) hs (by simp)

/-- **A construct** comes by the moments of its body and by moments around it, and comes back to the stacks in which it
began, if its body does. -/
theorem passes_opening (o : Opening) (n : Nat) (hp : b.Plain) (hG : Framed G s₀ line inner after last level)
    (hinner : inner = line + (o.first n).lines.length) (hafter : after = inner + b.size)
    (hlast : last = after + o.last.lines.length)
    (hend : ∀ next s₁ s, o.Inside s₀ s₁ → s₁.Kept s → (∀ st ∈ next, Stmt.Safe s st) →
      G ⟨after, level + (o.first n).shift, next, s⟩)
    (hb : ∀ s₁, o.Inside s₀ s₁ → Passes G s₁.Kept (b.watch inner (level + (o.first n).shift) false) s₁.Kept) :
    Passes G s₀.Kept ((o.block n b).watch line level false) s₀.Kept := by
  cases o with
  | loop names path e =>
    refine passes_loop hp hG names path e n ?_ hafter hlast ?_ (passes_exists fun p => hb _ ⟨p, rfl⟩)
    · rw [hinner]
      simp [Opening.first]
      omega
    · rintro next s ⟨p, hs⟩
      exact hend next _ s ⟨p, rfl⟩ hs
  | capture name =>
    have hlevel : level + ((Opening.capture name).first n).shift = level := Int.add_zero level
    rw [hlevel] at hend hb
    refine passes_capture hG name n hinner hafter ?_ (passes_exists fun o => hb _ ⟨o, rfl⟩)
    rintro next s ⟨o, hs⟩
    exact hend next _ s ⟨o, rfl⟩ hs
  | form e name attributes =>
    have hlevel : level + ((Opening.form e name attributes).first n).shift = level := Int.add_zero level
    rw [hlevel] at hend hb
    refine passes_form hG e name attributes n hinner hafter hlast ?_ (passes_exists fun f => hb _ ⟨f, rfl⟩)
    rintro next s ⟨f, hs⟩
    exact hend next _ s ⟨f, rfl⟩ hs
  | phrase key params =>
    exact passes_phrase hG key params n hinner hafter (fun next s hs => hend next s₀ s rfl hs) (hb s₀ rfl)

end

/-! ## What a complete part keeps -/

/-- what work leads to, it leads to watched -/
theorem passes_of_leads {α : Type} {x : Watch α} {y : Render α} {P Q : State → Prop} (h : Leads P y Q)
    (hy : Forgets x y) : Passes (fun _ => True) P x Q := by
  refine fun w hw => ⟨fun _ _ => .inr trivial, fun a ha => ?_⟩
  obtain ⟨hr, hs⟩ := hy w
  rw [hs]
  exact h w.state hw a _ (Prod.ext (hr.symm.trans ha) rfl)

/-- **A construct** keeps the stacks if its body does. -/
theorem keeps_opening (o : Opening) (n : Nat) {b : Block} (hp : b.Plain) (hb : Keeps (b.run false)) :
    Keeps ((o.block n b).run false) := by
  intro s₀
  have hG : ∀ inner after last, Framed (fun _ => True) s₀ 0 inner after last 0 := fun _ _ _ =>
    ⟨fun _ _ _ _ => trivial, fun _ _ _ _ _ _ _ _ => trivial, fun _ _ _ => trivial⟩
  exact (passes_opening o n hp (hG _ _ _) rfl rfl rfl (fun _ _ _ _ _ _ => trivial)
    fun s₁ _ => passes_of_leads (hb s₁) (watch_run b _ _ _)).leads (watch_run _ 0 0 false)

/-- a directive without a body keeps the stacks -/
theorem keeps_act (a : Act) : Keeps (a.block.run false) := by
  cases a with
  | remark => exact keeps_pure _
  | write t => exact keeps_bind (keeps_exec (s := .write t) trivial) fun _ => keeps_pure _
  | emit e => exact keeps_bind (keeps_exec (s := .emit e) trivial) fun _ => keeps_pure _
  | field name attributes labelled =>
    exact keeps_bind (keeps_exec (s := .field name attributes labelled) trivial) fun _ => keeps_pure _
  | submit attributes => exact keeps_bind (keeps_exec (s := .submit attributes) trivial) fun _ => keeps_pure _
  | button attributes => exact keeps_bind (keeps_exec (s := .button attributes) trivial) fun _ => keeps_pure _
  | generate e name attributes submitting =>
    exact keeps_bind (keeps_exec (s := .generate e name attributes submitting) trivial) fun _ => keeps_pure _

mutual

/-- **A complete part of a template** keeps the stacks. -/
theorem keeps_passage : ∀ (p : Passage) (n : Nat), Keeps ((p.block n).run false)
  | .done, _ => keeps_pure _
  | .act a rest, n => by
    rw [Passage.block, Block.run_append _ _ (plain_passage rest n)]
    exact keeps_bind (keeps_act a) fun _ => keeps_passage rest n
  | .construct o body rest, n => by
    rw [Passage.block, Block.run_append _ _ (plain_passage rest _)]
    exact keeps_bind (keeps_opening o n (plain_passage body _) (keeps_passage body _)) fun _ => keeps_passage rest _
  | .choice c body more rest, n => by
    have hrest := keeps_passage rest (n + body.temporaries + more.temporaries)
    have hmore : ∀ ran, Keeps (((more.block (n + body.temporaries)).append
        (rest.block (n + body.temporaries + more.temporaries))).run ran) := by
      intro ran
      rw [Block.run_append _ _ (plain_passage rest _)]
      exact keeps_bind (keeps_choices more _ ran) fun _ => hrest
    refine keeps_bind keeps_get fun s => keeps_bind (keeps_lift _) fun b => ?_
    split
    · exact keeps_bind (keeps_bind (keeps_pure _) fun _ => keeps_passage body n) fun _ => hmore _
    · exact hmore _

/-- the branches of a conditional keep the stacks -/
theorem keeps_choices : ∀ (more : Choices) (n : Nat) (ran : Bool), Keeps ((more.block n).run ran)
  | .none, _, _ => keeps_pure _
  | .elsewhen c body more, n, true => keeps_choices more _ true
  | .elsewhen c body more, n, false => by
    refine keeps_bind keeps_get fun s => keeps_bind (keeps_lift _) fun b => ?_
    split
    · exact keeps_bind (keeps_bind (keeps_pure _) fun _ => keeps_passage body n) fun _ => keeps_choices more _ _
    · exact keeps_choices more _ _
  | .otherwise body, n, true => keeps_pure _
  | .otherwise body, n, false =>
    keeps_bind (keeps_bind (keeps_pure _) fun _ => keeps_passage body n) fun _ => keeps_pure _

end

end Stencil
