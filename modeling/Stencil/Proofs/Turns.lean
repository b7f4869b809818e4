/-
TURNS OF LOOPS. Every point of a render lies in some turns: one of each loop whose body it stands in. A toured run tells
with each moment the turns that it lies in, by the place of the moment in the blocks and by counting the entries of the
loops around, and not by what the state holds of its open loops.

- `Turn.loop`: what a loop tells in one of its turns.
- `turns_numbered`: a loop has one turn for each entry, by its number.
- `erases_tour`: a toured run comes by the moments of the watched run, and changes nothing in it.
- `stays_iteration`, `stays_turns`: an iteration takes a loop from one turn to the next, and so all of them.
- `through_passage`: a passage leaves the loops around it at their turns, and whatever is in it stands at them too.
- `loops_at_turns`: at every moment of every render the open loops stand at the turns that the moment lies in.
-/
import Stencil.Proofs.Simulation
import Stencil.Proofs.Spots

namespace Stencil

/-! ## Turns -/

/-- a turn of a loop: the entry whose turn it is, between those that had theirs and those that wait for it -/
structure Turn where
  before : Entries
  entry : Value × Value
  after : Entries

namespace Turn

/-- the number of the turn, the first being number one -/
def number (t : Turn) : Nat := t.before.length + 1

/-- how many turns there are -/
def count (t : Turn) : Nat := t.before.length + 1 + t.after.length

theorem count_eq (before : Entries) (e : Value × Value) (after : Entries) :
    count ⟨before, e, after⟩ = before.length + (e :: after).length := by
  show before.length + 1 + after.length = before.length + (after.length + 1)
  omega

/-- what the loop tells in the turn: its number, how many there are, whether it is the first or the last, and more -/
def facts (t : Turn) : LoopFacts :=
  ⟨t.number, t.count, t.number == 1, t.number == t.count, t.number % 2 == 0, t.number % 2 == 1⟩

/-- **The loop in the turn**, with the key of its entry -/
def loop (t : Turn) : Loop := ⟨t.facts, t.entry.1⟩

/-- what a template sees of the loops around: the innermost in its turn, with the one around it as its parent -/
def value : List Turn → Value
  | [] => .none
  | t :: outer => .loop outer.length t.facts t.entry.1 (value outer)

end Turn

/-- the turns of entries, behind those that had theirs -/
def turnsFrom (before : Entries) : Entries → List Turn
  | [] => []
  | e :: after => ⟨before, e, after⟩ :: turnsFrom (before ++ [e]) after

/-- the turns of a loop over some entries -/
def turns (es : Entries) : List Turn := turnsFrom [] es

/-- **Every entry has its turn**, by its number, and every turn counts all of them. -/
theorem turns_numbered (es : Entries) :
    (turns es).map (fun t => (t.entry, t.number)) = es.zipIdx 1 ∧ ∀ t ∈ turns es, t.count = es.length := by
  have hfrom : ∀ (after before : Entries),
      (turnsFrom before after).map (fun t => (t.entry, t.number)) = after.zipIdx (before.length + 1) ∧
        ∀ t ∈ turnsFrom before after, t.count = before.length + after.length := by
    intro after
    induction after with
    | nil => exact fun before => ⟨rfl, nofun⟩
    | cons e after ih =>
      intro before
      obtain ⟨hnumbers, hcounts⟩ := ih (before ++ [e])
      rw [List.length_append, List.length_singleton] at hnumbers hcounts
      refine ⟨?_, List.forall_mem_cons.2 ⟨Turn.count_eq before e after, fun t ht => ?_⟩⟩
      · rw [turnsFrom, List.map_cons, hnumbers, List.zipIdx_cons]
        rfl
      · rw [hcounts t ht, List.length_cons]
        omega
  simpa [turns] using hfrom es []

/-- a moment of a render, and the turns that it lies in, the innermost first -/
structure Visit where
  turns : List Turn
  moment : Moment

/-- a state, and the visits before it in their order -/
structure Visited where
  state : State
  visits : List Visit

/-- work that tells the moments it comes by, with their turns -/
abbrev Tour := ExceptT Failure (StateM Visited)

namespace Tour

/-- work on the state alone -/
def lift {α : Type} (x : Render α) : Tour α :=
  ExceptT.mk fun v =>
    let r := x.run.run v.state
    (r.1, { v with state := r.2 })

/-- a moment told -/
def note (ts : List Turn) (line : Nat) (level : Int) (next : Option Stmt) : Tour Unit :=
  modify fun v => { v with visits := v.visits ++ [⟨ts, line, level, next, v.state⟩] }

end Tour

/-- the turns behind a statement: an iteration begins the turn that is up, and ends it -/
def Stmt.turns (ts : List Turn) (up : Option Turn) : Stmt → List Turn
  | iterationBegin _ => up.toList ++ ts
  | iterationEnd => ts.tail
  | _ => ts

open Tour in
/-- a block run and toured, inside of some turns; in the block of a loop the turn that is up is the one whose entry it
runs for -/
def Block.tour (ts : List Turn) (up : Option Turn) (line : Nat) (level : Int) (ran : Bool) : Block → Tour Unit
  | done => note ts line level none
  | step s rest => do
    note ts line level (some s)
    lift (Render.exec s)
    rest.tour (s.turns ts up) up (line + 1) level false
  | nest s body rest =>
    let after := line + 1 + body.size
    let inner (up : Option Turn) : Tour Unit := body.tour ts up (line + 1) (level + 1) false
    match s with
    | .forEach k n items => do
      note ts line level (some s)
      let es ← lift (Render.entries items)
      (Stencil.turns es).forM fun t => do
        lift (Render.setTemporary k (.value t.entry.1))
        lift (Render.setTemporary n (.value t.entry.2))
        inner (some t)
      rest.tour ts up after level false
    | .when c => do
      note ts line level (some s)
      let b ← lift (Render.holds c)
      if b then inner none
      rest.tour ts up after level b
    | .elsewhen c => do
      if ran then rest.tour ts up after level true
      else
        note ts line level (some s)
        let b ← lift (Render.holds c)
        if b then inner none
        rest.tour ts up after level b
    | .otherwise => do
      if !ran then inner none
      rest.tour ts up after level false
    | .whenReached path => do
      note ts line level (some s)
      let b ← lift (Render.reached path)
      if b then inner none
      rest.tour ts up after level false
    | .whenText n => do
      note ts line level (some s)
      let t ← lift (Render.textOf n)
      if t.isSome then inner none
      rest.tour ts up after level t.isSome
    | _ => do
      note ts line level (some s)
      inner none
      rest.tour ts up after level false

/-- a render toured, up to the moment after its last line -/
def Template.tour (t : Template) : Tour Unit := t.program.tour [] none 0 bodyDepth false

/-- the moments of a render from a state, with the turns that they lie in -/
def Template.visits (t : Template) (s : State) : List Visit := (t.tour.run.run ⟨s, []⟩).2.visits

/-! ## Touring changes nothing -/

/-- what is left without the turns -/
def Visited.watched (v : Visited) : Watched := ⟨v.state, v.visits.map Visit.moment⟩

/-- toured work without the turns is the watched work -/
def Erases {α : Type} (x : Tour α) (y : Watch α) : Prop :=
  ∀ v, ((x.run.run v).1, (x.run.run v).2.watched) = y.run.run v.watched

section

variable {α β : Type}

theorem erases_pure (a : α) : Erases (pure a) (pure a) := fun _ => rfl

theorem erases_lift (x : Render α) : Erases (Tour.lift x) (Watch.lift x) := fun _ => rfl

theorem erases_note (ts : List Turn) (line : Nat) (level : Int) (next : Option Stmt) :
    Erases (Tour.note ts line level next) (Watch.note line level next) := by
  intro v
  simp [Tour.note, Watch.note, Visited.watched]

theorem erases_bind {x : Tour α} {y : Watch α} {f : α → Tour β} {g : α → Watch β} (hx : Erases x y)
    (hf : ∀ a, Erases (f a) (g a)) : Erases (x >>= f) (y >>= g) := by
  intro v
  have h := hx v
  rw [run_bind, run_bind, ← h]
  generalize x.run.run v = u
  obtain ⟨r, v'⟩ := u
  cases r with
  | error e => rfl
  | ok a => exact hf a v'

/-- a body, whose end is told, and what comes after it -/
theorem erases_inner {x : Tour Unit} {y w : Watch Unit} {x' : Tour α} {z : Watch α} (hx : Erases x (do y; w))
    (hx' : Erases x' z) : Erases (do x; x') (do y; w; z) := by
  have h : Erases (do x; x') ((do y; w) >>= fun _ => z) := erases_bind hx fun _ => hx'
  rwa [bind_assoc] at h

/-- a loop over turns is the loop over their entries -/
theorem erases_turns {f : Turn → Tour PUnit} {g : Value × Value → Watch PUnit} (hf : ∀ t, Erases (f t) (g t.entry))
    (es : Entries) : Erases ((turns es).forM f) (es.forM g) := by
  have hfrom : ∀ (es before : Entries), Erases ((turnsFrom before es).forM f) (es.forM g) := by
    intro es
    induction es with
    | nil => exact fun before => erases_pure _
    | cons e es ih => exact fun before => erases_bind (hf _) fun _ => ih _
  exact hfrom es []

end

/-- **A toured run** comes by the moments of the watched run, to the same outcome and the same state. -/
theorem erases_tour (b : Block) (ts : List Turn) (up : Option Turn) (line : Nat) (level : Int) (ran : Bool) :
    Erases (b.tour ts up line level ran)
      (do b.watch line level ran; Watch.note (line + b.size) level none) := by
  induction b generalizing ts up line ran level with
  | done =>
    rw [Block.watch, pure_bind]
    exact erases_note ts line level none
  | step s rest ih =>
    have hline : line + 1 + rest.size = line + (rest.size + 1) := by omega
    simp only [Block.watch, bind_assoc, Block.size, ← hline]
    exact erases_bind (erases_note _ _ _ _) fun _ => erases_bind (erases_lift _) fun _ => ih _ _ _ _ _
  | nest s body rest ihb ihr =>
    have hinner (up : Option Turn) : Erases (body.tour ts up (line + 1) (level + 1) false) (do
        body.watch (line + 1) (level + 1) false
        Watch.note (line + 1 + body.size) (level + 1) none) := ihb _ _ _ _ _
    have hline : line + (body.size + rest.size + 1) = line + 1 + body.size + rest.size := by omega
    have hrest (ran : Bool) : Erases (rest.tour ts up (line + 1 + body.size) level ran) (do
        rest.watch (line + 1 + body.size) level ran
        Watch.note (line + 1 + body.size + rest.size) level none) := ihr _ _ _ _ _
    rw [Block.size, hline]
    cases s
    case forEach k n items =>
      simp only [Block.watch, bind_assoc]
      refine erases_bind (erases_note _ _ _ _) fun _ => erases_bind (erases_lift _) fun es =>
        erases_bind ?_ fun _ => hrest _
      exact erases_turns (fun t =>
        erases_bind (erases_lift _) fun _ => erases_bind (erases_lift _) fun _ => hinner _) es
    case when c =>
      simp only [Block.watch, bind_assoc]
      refine erases_bind (erases_note _ _ _ _) fun _ => erases_bind (erases_lift _) fun b => ?_
      cases b
      · exact hrest _
      · simpa only [if_true, bind_assoc] using erases_inner (hinner _) (hrest _)
    case elsewhen c =>
      cases ran with
      | true => exact hrest _
      | false =>
        simp only [Block.watch, bind_assoc, Bool.false_eq_true, if_false]
        refine erases_bind (erases_note _ _ _ _) fun _ => erases_bind (erases_lift _) fun b => ?_
        cases b
        · exact hrest _
        · simpa only [if_true, bind_assoc] using erases_inner (hinner _) (hrest _)
    case otherwise =>
      cases ran
      · simp only [Block.watch, Bool.not_false, if_true, bind_assoc]
        exact erases_inner (hinner none) (hrest false)
      · exact hrest _
    case whenReached path =>
      simp only [Block.watch, bind_assoc]
      refine erases_bind (erases_note _ _ _ _) fun _ => erases_bind (erases_lift _) fun b => ?_
      cases b
      · exact hrest _
      · simpa only [if_true, bind_assoc] using erases_inner (hinner _) (hrest _)
    case whenText n =>
      simp only [Block.watch, bind_assoc]
      refine erases_bind (erases_note _ _ _ _) fun _ => erases_bind (erases_lift _) fun t => ?_
      cases t
      · exact hrest _
      · simpa only [Option.isSome_some, if_true, bind_assoc] using erases_inner (hinner _) (hrest _)
    all_goals
      simp only [Block.watch, bind_assoc]
      exact erases_bind (erases_note _ _ _ _) fun _ => erases_inner (hinner _) (hrest _)

/-! ## Loops and their turns -/

/-- a statement with which a loop opens, goes on to its next iteration or closes -/
def Stmt.turnsLoop : Stmt → Bool
  | scopeLoop | forEach _ _ _ | iterationBegin _ | scopeClose | loopClose => true
  | _ => false

/-- **The open loops stand at the turns** that a moment lies in. Only where a loop opens, goes on or closes, or at the
end of its block, one more is open, whose body the moment does not stand in. -/
def Visit.Right (v : Visit) : Prop :=
  v.moment.state.loops = v.turns.map Turn.loop ∨
    v.moment.next.all Stmt.turnsLoop = true ∧ ∃ l, v.moment.state.loops = l :: v.turns.map Turn.loop

/-- states whose open loops stand at turns -/
abbrev AtTurns (ts : List Turn) (s : State) : Prop := s.loops = ts.map Turn.loop

/-- the loop waits for the turn of some number to begin -/
def Loop.Ahead (count number : Nat) (l : Loop) : Prop :=
  ∃ last even odd key, l = ⟨⟨number, count, number == 1, last, even, odd⟩, key⟩

/-- states with one more loop, which waits for a turn -/
def BeforeTurn (ts : List Turn) (count number : Nat) (s : State) : Prop :=
  ∃ l, Loop.Ahead count number l ∧ s.loops = l :: ts.map Turn.loop

theorem ahead_start (count : Nat) : (Loop.start count).Ahead count 1 := ⟨false, false, true, .none, rfl⟩

/-- **The turn begins** that the loop waits for. -/
theorem enter_ahead {l : Loop} {t : Turn} (h : l.Ahead t.count t.number) : Loop.enter t.entry.1 l = t.loop := by
  obtain ⟨last, even, odd, key, rfl⟩ := h
  exact enter_facts t.count t.number last even odd t.entry.1 key

/-- **At the end of its turn** a loop waits for the next one. -/
theorem advance_ahead (t : Turn) : (Loop.advance t.loop).Ahead t.count (t.number + 1) :=
  ⟨_, _, _, _, advance_facts (Nat.le_add_left 1 t.before.length) t.count t.entry.1⟩

/-! ## What statements do to loops -/

/-- a statement that leaves the open loops as they are -/
def Stmt.Aside : Stmt → Prop
  | loopOpen _ | iterationBegin _ | iterationEnd | loopClose => False
  | _ => True

theorem turns_of_aside {s : Stmt} (h : s.Aside) (ts : List Turn) (up : Option Turn) : s.turns ts up = ts := by
  cases s <;> first | rfl | exact h.elim

theorem leads_of_keeps {α : Type} {x : Render α} (h : Keeps x) (ls : List Loop) :
    Leads (fun s => s.loops = ls) x fun s => s.loops = ls :=
  fun s hs a s' hrun => ((h s) s (.refl s) a s' hrun).loops.trans hs

/-- **All statements but those of loops** leave the open loops as they are. -/
theorem leads_aside {s : Stmt} (h : s.Aside) (ls : List Loop) :
    Leads (fun s => s.loops = ls) (Render.exec s) fun s => s.loops = ls := by
  have hmodify {f : State → State} (hf : ∀ s, (f s).loops = s.loops) :
      Leads (fun s => s.loops = ls) (modify f : Render PUnit) fun s => s.loops = ls :=
    leads_modify fun s hs => (hf s).trans hs
  have hbind (name : Text) (v : Value) (s : State) : (State.bind name v s).loops = s.loops := by
    unfold State.bind
    split <;> rfl
  cases s
  case loopOpen => exact h.elim
  case iterationBegin => exact h.elim
  case iterationEnd => exact h.elim
  case loopClose => exact h.elim
  case scopeLoop => exact hmodify fun _ => rfl
  case scopeClose => exact hmodify fun _ => rfl
  case captureBegin => exact hmodify fun _ => rfl
  case scopeForm => exact hmodify fun _ => rfl
  case formClose => exact hmodify fun _ => rfl
  case bind name half =>
    cases half with
    | key n => exact leads_bind (leads_of_keeps (Render.keeps_value n) ls) fun v => hmodify (hbind name v)
    | item n => exact leads_bind (leads_of_keeps (Render.keeps_value n) ls) fun v => hmodify (hbind name v)
  case captureEnd name =>
    refine leads_bind (Q := fun s => s.loops = ls) (leads_get fun s hs => ?_) fun _ => leads_pure fun _ h => h
    cases hclosed : s.captureEnd? name with
    | none => exact leads_throw
    | some s' =>
      refine leads_bind (Q := fun s => s.loops = ls) (leads_set ?_) fun _ => leads_pure fun _ h => h
      unfold State.captureEnd? at hclosed
      split at hclosed
      · cases hclosed
      · cases hclosed
        exact hs
  case formOpen e name attributes =>
    exact leads_bind (leads_of_keeps (Render.keeps_eval e) ls) fun _ =>
      leads_bind (leads_of_keeps (Render.keeps_makeForm _ _ _) ls) fun _ => hmodify fun _ => rfl
  all_goals exact leads_of_keeps (keeps_exec (by exact trivial)) ls

/-- the entries that are read are those of the temporary -/
theorem gives_entries (n : Nat) (s₀ : State) : Gives (fun s => s = s₀) (Render.entries n)
    (fun es => getAt? n s₀.temporaries = some (.entries es)) fun s => s = s₀ := by
  rintro s rfl es s' hrun
  unfold Render.entries Render.temporary at hrun
  rw [run_bind, run_bind, run_get] at hrun
  cases hget : getAt? n s.temporaries with
  | none =>
    simp only [hget] at hrun
    cases hrun
  | some t =>
    simp only [hget] at hrun
    cases t with
    | entries es' =>
      cases hrun
      exact ⟨rfl, rfl⟩
    | _ => cases hrun

/-- states with one more loop, over the entries of a temporary, which waits for its first turn -/
def Opened (ts : List Turn) (n : Nat) (s : State) : Prop :=
  ∃ es, getAt? n s.temporaries = some (.entries es) ∧ s.loops = Loop.start es.length :: ts.map Turn.loop

theorem leads_openLoop (ts : List Turn) (n : Nat) :
    Leads (AtTurns ts) (Render.exec (.loopOpen n)) (Opened ts n) := by
  intro s hs a s' hrun
  simp only [Render.exec] at hrun
  rw [run_bind] at hrun
  rcases hread : (Render.entries n).run.run s with ⟨r, s₁⟩
  rw [hread] at hrun
  cases r with
  | error e => cases hrun
  | ok es =>
    obtain ⟨hget, rfl⟩ := gives_entries n s s rfl es s₁ hread
    cases hrun
    exact ⟨es, hget, congrArg (Loop.start es.length :: ·) hs⟩

theorem leads_scope (ts : List Turn) (n : Nat) : Leads (Opened ts n) (Render.exec .scopeLoop) (Opened ts n) :=
  leads_modify fun _ hs => hs

/-- the key of an entry set, before its turn -/
theorem leads_setKey (ts : List Turn) (t : Turn) (k : Nat) : Leads (BeforeTurn ts t.count t.number)
    (Render.setTemporary k (.value t.entry.1))
    fun s => BeforeTurn ts t.count t.number s ∧ getAt? k s.temporaries = some (.value t.entry.1) :=
  leads_modify fun s hs => ⟨hs, by simp [getAt?_putAt]⟩

theorem leads_setItem (ts : List Turn) (t : Turn) {k n : Nat} (hne : k ≠ n) : Leads
    (fun s => BeforeTurn ts t.count t.number s ∧ getAt? k s.temporaries = some (.value t.entry.1))
    (Render.setTemporary n (.value t.entry.2))
    fun s => BeforeTurn ts t.count t.number s ∧ getAt? k s.temporaries = some (.value t.entry.1) :=
  leads_modify fun s hs => ⟨hs.1, by simpa [getAt?_putAt, hne.symm] using hs.2⟩

theorem leads_beginTurn (ts : List Turn) (t : Turn) (k : Nat) : Leads
    (fun s => BeforeTurn ts t.count t.number s ∧ getAt? k s.temporaries = some (.value t.entry.1))
    (Render.exec (.iterationBegin k)) (AtTurns (t :: ts)) := by
  rintro s ⟨⟨l, hahead, hloops⟩, hkey⟩ a s' hrun
  simp only [Render.exec] at hrun
  rw [run_bind, run_value hkey] at hrun
  simp only at hrun
  rw [run_changeLoop hloops, enter_ahead hahead] at hrun
  cases hrun
  rfl

theorem leads_endTurn (ts : List Turn) (t : Turn) :
    Leads (AtTurns (t :: ts)) (Render.exec .iterationEnd) (BeforeTurn ts t.count (t.number + 1)) := by
  intro s hs a s' hrun
  have hloops : s.loops = t.loop :: ts.map Turn.loop := hs
  simp only [Render.exec] at hrun
  rw [run_changeLoop hloops] at hrun
  cases hrun
  exact ⟨_, advance_ahead t, rfl⟩

theorem leads_closeTurns (ts : List Turn) :
    Leads (fun s => ∃ l, s.loops = l :: ts.map Turn.loop) (Render.exec .loopClose) (AtTurns ts) :=
  leads_modify fun s ⟨l, hs⟩ => by simp [AtTurns, hs]

/-! ## What toured work keeps -/

/-- from some states work comes by right visits only, and leads to some states if it succeeds -/
def Stays {α : Type} (P : State → Prop) (x : Tour α) (Q : State → Prop) : Prop :=
  ∀ v : Visited, P v.state → (∀ q ∈ v.visits, q.Right) →
    (∀ q ∈ (x.run.run v).2.visits, q.Right) ∧ ∀ a, (x.run.run v).1 = .ok a → Q (x.run.run v).2.state

section

variable {α β : Type} {P Q R : State → Prop}

theorem stays_pure {a : α} (h : ∀ s, P s → Q s) : Stays P (pure a) Q :=
  fun v hv hright => ⟨hright, fun _ _ => h v.state hv⟩

theorem stays_lift {x : Render α} (h : Leads P x Q) : Stays P (Tour.lift x) Q :=
  fun v hv hright => ⟨hright, fun a ha => h v.state hv a _ (Prod.ext ha rfl)⟩

theorem stays_note {ts : List Turn} {line : Nat} {level : Int} {next : Option Stmt}
    (h : ∀ s, P s → Visit.Right ⟨ts, line, level, next, s⟩) : Stays P (Tour.note ts line level next) P := by
  refine fun v hv hright => ⟨fun q hq => ?_, fun _ _ => hv⟩
  rcases List.mem_append.1 hq with hq | hq
  · exact hright q hq
  · rw [List.mem_singleton.1 hq]
    exact h v.state hv

theorem stays_bind {x : Tour α} {f : α → Tour β} (hx : Stays P x Q) (hf : ∀ a, Stays Q (f a) R) :
    Stays P (x >>= f) R := by
  intro v hv hright
  obtain ⟨hright', hq⟩ := hx v hv hright
  rw [run_bind]
  generalize x.run.run v = u at hright' hq ⊢
  obtain ⟨r, v'⟩ := u
  cases r with
  | error e => exact ⟨hright', fun a ha => by cases ha⟩
  | ok a => exact hf a v' (hq a rfl) hright'

/-- a step that reads from the state, and whose value is known there -/
theorem stays_read {x : Render α} {T : State → α → Prop} {f : α → Tour β}
    (hx : ∀ s₀, Gives (fun s => s = s₀) x (T s₀) fun s => s = s₀)
    (hf : ∀ a, Stays (fun s => P s ∧ T s a) (f a) R) : Stays P (Tour.lift x >>= f) R := by
  intro v hv hright
  have hlift : (Tour.lift x).run.run v = ((x.run.run v.state).1, { v with state := (x.run.run v.state).2 }) := rfl
  rw [run_bind, hlift]
  rcases hr : x.run.run v.state with ⟨r, s'⟩
  cases r with
  | error e => exact ⟨hright, fun a ha => by cases ha⟩
  | ok a =>
    obtain ⟨ha, rfl⟩ := hx v.state v.state rfl a s' hr
    exact hf a v ⟨hv, ha⟩ hright

theorem Stays.of {x : Tour α} (hx : Stays Q x R) (h : ∀ s, P s → Q s) : Stays P x R :=
  fun v hv hright => hx v (h v.state hv) hright

/-- a body that runs or not -/
theorem stays_branch {x y : Tour Unit} (hx : Stays P x P) (hy : Stays P y Q) (b : Bool) :
    Stays P
      (do
        if b then x
        y) Q := by
  cases b with
  | false => exact hy
  | true => exact stays_bind hx fun _ => hy

end

/-- **All turns of a loop**, if each takes it to the next. -/
theorem stays_turns {ts : List Turn} {f : Turn → Tour PUnit} (es : Entries)
    (hf : ∀ t, Stays (BeforeTurn ts t.count t.number) (f t) (BeforeTurn ts t.count (t.number + 1))) :
    Stays (BeforeTurn ts es.length 1) ((turns es).forM f) (BeforeTurn ts es.length (es.length + 1)) := by
  have hfrom : ∀ (after before : Entries) (n : Nat), before.length + after.length = n →
      Stays (BeforeTurn ts n (before.length + 1)) ((turnsFrom before after).forM f) (BeforeTurn ts n (n + 1)) := by
    intro after
    induction after with
    | nil =>
      rintro before n rfl
      exact stays_pure fun _ h => h
    | cons e after ih =>
      intro before n hn
      have hcount : Turn.count ⟨before, e, after⟩ = n := (Turn.count_eq before e after).trans hn
      have hturn := hf ⟨before, e, after⟩
      have hmore := ih (before ++ [e]) n (by rw [← hn]; simp; omega)
      rw [hcount] at hturn
      rw [List.length_append, List.length_singleton] at hmore
      exact stays_bind hturn fun _ => hmore
  exact hfrom es [] es.length (by simp)

/-! ## Blocks one after the other -/

namespace Block

/-- what has run before a plain block does not matter -/
theorem Plain.tour {b : Block} (h : b.Plain) (ts : List Turn) (up : Option Turn) (line : Nat) (level : Int)
    (ran : Bool) : b.tour ts up line level ran = b.tour ts up line level false := by
  cases b with
  | done => rfl
  | step s rest => rfl
  | nest s body rest =>
    cases s with
    | elsewhen c => exact h.elim
    | otherwise => exact h.elim
    | _ => rfl

/-- from its turns on, a block comes by right visits only, and leads to some states -/
def Right (ts : List Turn) (up : Option Turn) (Q : State → Prop) (b : Block) : Prop :=
  ∀ line level, Stays (AtTurns ts) (b.tour ts up line level false) Q

/-- **A block goes through**: it leads to what comes after it as if it were not there. -/
structure Through (b : Block) : Prop where
  next : ∀ {k : Block} {ts : List Turn} {up : Option Turn} {Q : State → Prop}, k.Plain → k.Right ts up Q →
    (b.append k).Right ts up Q

variable {ts : List Turn} {up : Option Turn} {Q : State → Prop} {b k : Block} {s : Stmt}

theorem right_done : done.Right ts up (AtTurns ts) := fun _ _ => stays_note fun _ hs => .inl hs

theorem right_step (h : s.Aside) (hk : k.Right ts up Q) : (step s k).Right ts up Q := by
  intro line level
  refine stays_bind (stays_note fun _ hs => .inl hs) fun _ => stays_bind (stays_lift (leads_aside h _)) fun _ => ?_
  rw [turns_of_aside h]
  exact hk _ _

theorem right_steps {stmts : List Stmt} (h : ∀ s ∈ stmts, s.Aside) (hk : k.Right ts up Q) :
    ((steps stmts).append k).Right ts up Q := by
  induction stmts with
  | nil => exact hk
  | cons s stmts ih =>
    obtain ⟨hs, hrest⟩ := List.forall_mem_cons.1 h
    exact right_step hs (ih hrest)

/-- a block that goes through is right as a body -/
theorem Through.body (h : b.Through) : b.Right ts up (AtTurns ts) := by
  have hright : (b.append done).Right ts up (AtTurns ts) := h.next plain_done right_done
  rwa [append_done] at hright

end Block

/-! ## Constructs -/

section

variable {ts : List Turn} {up : Option Turn} {Q : State → Prop} {b k : Block}

theorem through_act (a : Act) : a.block.Through := by
  refine ⟨fun _ hk => Block.right_steps (fun s hs => ?_) hk⟩
  cases a with
  | remark => cases hs
  | _ =>
    rw [List.mem_singleton.1 hs]
    trivial

/-- what is only asked leaves the loops at their turns -/
theorem stays_ask {α : Type} {x : Render α} (h : Keeps x) : Stays (AtTurns ts) (Tour.lift x) (AtTurns ts) :=
  stays_lift (leads_of_keeps h _)

/-- where one more loop is open, only what belongs to the loop may come next -/
theorem right_beside {s : State} {line : Nat} {level : Int} {next : Option Stmt}
    (hnext : next.all Stmt.turnsLoop = true) {l : Loop} (h : s.loops = l :: ts.map Turn.loop) :
    Visit.Right ⟨ts, line, level, next, s⟩ := .inr ⟨hnext, l, h⟩

/-- **One iteration** takes a loop from its turn to the next, and its body is run in the turn. -/
theorem stays_iteration (hb : b.Through) (names : List Text) {key item : Nat} (hne : key ≠ item) (t : Turn)
    (line : Nat) (level : Int) :
    Stays (BeforeTurn ts t.count t.number)
      (do
        Tour.lift (Render.setTemporary key (.value t.entry.1))
        Tour.lift (Render.setTemporary item (.value t.entry.2))
        (Opening.iteration names key item b).tour ts (some t) line level false)
      (BeforeTurn ts t.count (t.number + 1)) := by
  have hlast : (Block.step .iterationEnd .done).Right (t :: ts) (some t) (BeforeTurn ts t.count (t.number + 1)) := by
    refine fun line level => stays_bind (stays_note fun _ hs => .inl hs) fun _ =>
      stays_bind (stays_lift (leads_endTurn ts t)) fun _ => stays_note fun s hs => ?_
    obtain ⟨l, -, hl⟩ := hs
    exact right_beside rfl hl
  have hbinds : ∀ s ∈ Directive.loopBinds names key item, s.Aside := by
    intro s hs
    unfold Directive.loopBinds at hs
    split at hs <;> simp at hs
    · rw [hs]
      trivial
    · rcases hs with rfl | rfl <;> trivial
  have hinside := Block.right_steps hbinds (hb.next (Block.plain_step _ _) hlast)
  refine stays_bind (stays_lift (leads_setKey ts t key)) fun _ =>
    stays_bind (stays_lift (leads_setItem ts t hne)) fun _ => stays_bind (stays_note fun s hs => ?_) fun _ =>
      stays_bind (stays_lift (leads_beginTurn ts t key)) fun _ => hinside _ _
  obtain ⟨⟨l, -, hl⟩, -⟩ := hs
  exact right_beside rfl hl

/-- **A loop whose path reaches something** runs all its turns, and leaves those around it. -/
theorem right_guarded (hb : b.Through) (names : List Text) (e : Expr) (n : Nat) :
    (Opening.guarded names e n b).Right ts up (AtTurns ts) := by
  refine Block.right_step trivial fun line level => ?_
  refine stays_bind (stays_note fun _ hs => .inl hs) fun _ =>
    stays_bind (stays_lift (leads_openLoop ts (n + 1))) fun _ => ?_
  refine stays_bind (stays_note fun s ⟨es, _, hs⟩ => right_beside rfl hs) fun _ =>
    stays_bind (stays_lift (leads_scope ts (n + 1))) fun _ => ?_
  refine stays_bind (stays_note fun s ⟨es, _, hs⟩ => right_beside rfl hs) fun _ =>
    stays_read (gives_entries (n + 1)) fun es => ?_
  have hstart : ∀ s, Opened ts (n + 1) s ∧ getAt? (n + 1) s.temporaries = some (.entries es) →
      BeforeTurn ts es.length 1 s := by
    rintro s ⟨⟨es', hes', hs⟩, hes⟩
    rw [hes', Option.some.injEq, Temporary.entries.injEq] at hes
    exact ⟨_, hes ▸ ahead_start es'.length, hes ▸ hs⟩
  refine stays_bind ((stays_turns es fun t => stays_iteration hb names (by omega) t _ _).of hstart) fun _ => ?_
  -- behind its turns the loop is still open
  have hopen : ∀ s, BeforeTurn ts es.length (es.length + 1) s → ∃ l, s.loops = l :: ts.map Turn.loop :=
    fun s ⟨l, _, hl⟩ => ⟨l, hl⟩
  have hclose : Leads (fun s => ∃ l, s.loops = l :: ts.map Turn.loop) (Render.exec .scopeClose)
      fun s => ∃ l, s.loops = l :: ts.map Turn.loop :=
    leads_exists fun l => leads_aside (s := .scopeClose) trivial (l :: ts.map Turn.loop)
  refine Stays.of (stays_bind (stays_note fun s ⟨l, hs⟩ => right_beside rfl hs) fun _ =>
    stays_bind (stays_lift hclose) fun _ => ?_) hopen
  exact stays_bind (stays_note fun s ⟨l, hs⟩ => right_beside rfl hs) fun _ =>
    stays_bind (stays_lift (leads_closeTurns ts)) fun _ => stays_note fun _ hs => .inl hs

/-- **A construct** goes through if its body does. -/
theorem through_opening (o : Opening) (n : Nat) (hb : b.Through) : (o.block n b).Through := by
  refine ⟨fun {k ts up Q} hp hk => ?_⟩
  cases o with
  | loop names path e =>
    intro line level
    exact stays_bind (stays_note fun _ hs => .inl hs) fun _ => stays_bind (stays_ask (keeps_reached path)) fun r =>
      stays_branch (right_guarded hb names e n _ _) (hk _ _) r
  | capture name =>
    have hblock : ((Opening.capture name).block n b).append k =
        .step .captureBegin (b.append (.step (.captureEnd name) k)) := by
      simp only [Opening.block, Block.append, Block.append_assoc]
    rw [hblock]
    exact Block.right_step trivial (hb.next (Block.plain_step _ _) (Block.right_step trivial hk))
  | form e name attributes =>
    have hblock : ((Opening.form e name attributes).block n b).append k =
        .step (.formOpen e name attributes) (.step .writeFormOpen (.step .scopeForm (b.append
          (.step .writeFormClose (.step .scopeClose (.step .formClose k)))))) := by
      simp only [Opening.block, Block.append, Block.append_assoc]
    rw [hblock]
    have hclose : (Block.step .writeFormClose (.step .scopeClose (.step .formClose k))).Right ts up Q :=
      Block.right_step trivial (Block.right_step trivial (Block.right_step trivial hk))
    have hbody := hb.next (Block.plain_step _ _) hclose
    exact Block.right_step trivial (Block.right_step trivial (Block.right_step trivial hbody))
  | phrase key params =>
    have hwritten : (Block.step (.writeText (n + 1)) .done).Right ts none (AtTurns ts) :=
      Block.right_step trivial Block.right_done
    have hbody : (Block.step .pass b).Right ts none (AtTurns ts) := Block.right_step trivial hb.body
    refine Block.right_step trivial fun line level => ?_
    refine stays_bind (stays_note fun _ hs => .inl hs) fun _ =>
      stays_bind (stays_ask (Render.keeps_textOf (n + 1))) fun t => ?_
    -- the text is written, or else the body runs
    cases t with
    | some t => exact stays_bind (hwritten _ _) fun _ => hk _ _
    | none => exact stays_bind (hbody _ _) fun _ => hk _ _

end

mutual

/-- **A passage goes through**: it leaves the loops around it at their turns, and so does all that is in it. -/
theorem through_passage : ∀ (p : Passage) (n : Nat), (p.block n).Through
  | .done, _ => ⟨fun _ hk => hk⟩
  | .act a rest, n => by
    refine ⟨fun hp hk => ?_⟩
    rw [Passage.block, Block.append_assoc]
    exact (through_act a).next (Block.plain_append (plain_passage rest n) hp) ((through_passage rest n).next hp hk)
  | .construct o body rest, n => by
    refine ⟨fun hp hk => ?_⟩
    rw [Passage.block, Block.append_assoc]
    exact (through_opening o n (through_passage body _)).next (Block.plain_append (plain_passage rest _) hp)
      ((through_passage rest _).next hp hk)
  | .choice c body more rest, n => by
    refine ⟨fun {k ts up Q} hp hk line level => ?_⟩
    have hbody : (Block.step .pass (body.block n)).Right ts none (AtTurns ts) :=
      Block.right_step trivial (through_passage body n).body
    have hmore := right_choices more (n + body.temporaries) (Block.plain_append (plain_passage rest _) hp)
      ((through_passage rest (n + body.temporaries + more.temporaries)).next hp hk)
    rw [← Block.append_assoc] at hmore
    exact stays_bind (stays_note fun _ hs => .inl hs) fun _ => stays_bind (stays_ask (keeps_holds c)) fun r =>
      stays_branch (hbody _ _) (hmore r _ _) r

/-- branches go through, whether one before them has run or not -/
theorem right_choices : ∀ (more : Choices) (n : Nat) {k : Block} {ts : List Turn} {up : Option Turn} {Q : State → Prop}
    (_ : k.Plain) (_ : k.Right ts up Q) (ran : Bool) (line : Nat) (level : Int),
    Stays (AtTurns ts) (((more.block n).append k).tour ts up line level ran) Q
  | .none, n, k, ts, up, Q, hp, hk, ran, line, level => by
    rw [Choices.block, Block.append, hp.tour]
    exact hk line level
  | .elsewhen c body more, n, k, ts, up, Q, hp, hk, ran, line, level => by
    have hbody : (Block.step .pass (body.block n)).Right ts none (AtTurns ts) :=
      Block.right_step trivial (through_passage body n).body
    have hmore := right_choices more (n + body.temporaries) hp hk
    cases ran with
    | true => exact hmore true _ _
    | false =>
      exact stays_bind (stays_note fun _ hs => .inl hs) fun _ => stays_bind (stays_ask (keeps_holds c)) fun r =>
        stays_branch (hbody _ _) (hmore r _ _) r
  | .otherwise body, n, k, ts, up, Q, hp, hk, ran, line, level => by
    have hbody : (Block.step .pass (body.block n)).Right ts none (AtTurns ts) :=
      Block.right_step trivial (through_passage body n).body
    exact stays_branch (hbody _ _) (hk _ _) (!ran)

end

/-! ## Templates -/

theorem value_turns (ts : List Turn) : Loop.value (ts.map Turn.loop) = Turn.value ts := by
  induction ts with
  | nil => rfl
  | cons t ts ih =>
    rw [List.map_cons, Loop.value, List.length_map, ih]
    rfl

namespace Compiler

/-- **Loops stand at their turns.** Of every render of a compiled template, toured with the turns that each moment lies
in:

- the visits are the moments of the render;
- at every moment the loops that are open are those of its turns, in these turns, the innermost first; where a loop
  opens, goes on or closes, and only there, one more is open;
- everywhere else the template sees the innermost loop in its turn, and the others as its parents. -/
theorem loops_at_turns {s : Settings} {strict : Option Bool} {names : List Text} {source : Text} {t : Template}
    (h : (standard s strict names).compile source = .ok t) (data : Entries) (catalog : Catalog) (mappings : Value)
    (asked : Asked) :
    let start := State.start data catalog mappings t.escaping asked
    (t.visits start).map Visit.moment = t.moments start ∧
      ∀ v ∈ t.visits start, v.Right ∧
        (v.moment.next.all Stmt.turnsLoop = false → v.moment.state.shown .loop = Turn.value v.turns) := by
  intro start
  obtain ⟨n, hn, -, -⟩ := wellNested_of_compile h
  obtain ⟨p, -, hfragments, hprogram⟩ := program_of_compile h hn
  have hsize : t.program.size = (programLines t.fragments).length := by
    rw [hprogram, hfragments, programLines, length_placeLines, (laidOut_passage p 0 0).size]
  refine ⟨?_, fun v hv => ?_⟩
  · have herases := erases_tour t.program [] none 0 bodyDepth false ⟨start, []⟩
    rw [Nat.zero_add, hsize] at herases
    exact congrArg (fun r => r.2.moments) herases
  · have hright : t.program.Right [] none (AtTurns []) := by
      rw [hprogram]
      exact (through_passage p 0).body
    have hvisits : ∀ q ∈ t.visits start, q.Right := (hright 0 bodyDepth ⟨start, []⟩ rfl fun q hq => by cases hq).1
    refine ⟨hvisits v hv, fun hnext => ?_⟩
    rcases hvisits v hv with hloops | ⟨hnext', -⟩
    · rw [State.shown, hloops, value_turns]
    · rw [hnext] at hnext'
      cases hnext'

/-- the second turn of a loop in the second turn of another one -/
theorem turns_of_nested_loops :
    let source : Text :=
      "\x7b\x7bfor a in b\x7d\x7d\x7b\x7bfor c in a\x7d\x7dx\x7b\x7bendfor\x7d\x7d\x7b\x7bendfor\x7d\x7d"
    let items : Value := .list [.int 3, .int 4, .int 5]
    ∃ t, (standard .standard none []).compile source = .ok t ∧
      let start := State.start [(.text "b", .list [items, items])] Catalog.empty .none t.escaping []
      (t.visits start).map Visit.moment = t.moments start ∧
        ∃ v ∈ t.visits start, v.turns.map (fun u => (u.number, u.count)) = [(2, 3), (2, 2)] ∧
          v.moment.state.shown .loop = Turn.value v.turns := by
  intro source items
  have hvisit : ((standard .standard none []).compile source).toOption.map (fun t =>
      (t.visits (State.start [(.text "b", .list [items, items])] Catalog.empty .none t.escaping [])).any fun v =>
        v.turns.map (fun u => (u.number, u.count)) == [(2, 3), (2, 2)] && !v.moment.next.all Stmt.turnsLoop) =
          some true := by
    decide +kernel
  obtain ⟨t, ht, hany⟩ := Option.map_eq_some_iff.1 hvisit
  obtain ⟨v, hv, hturns⟩ := List.any_eq_true.1 hany
  rw [Bool.and_eq_true, beq_iff_eq, Bool.not_eq_true'] at hturns
  have hright := loops_at_turns (eq_ok_of_toOption ht) [(.text "b", .list [items, items])] Catalog.empty .none []
  exact ⟨t, eq_ok_of_toOption ht, hright.1, v, hv, hturns.1, (hright.2 v hv).2 hturns.2⟩

end Compiler

end Stencil
