/-
WHAT A COMPLETE PART KEEPS. The scope, the open loops and forms, the open captures and the data a render works with are
after a complete part of a template what they were before it, whatever the part is and however often its bodies run.

- `Leads`, `Gives`: work that succeeds leads from states of one kind to states of another, and comes to values of
  some kind.
- `keeps_opening`: a construct keeps the stacks if its body does; inside a loop only the innermost loop and its layer
  change.
- `keeps_passage`: the block of a passage keeps the stacks.
-/
import Stencil.Proofs.Runs

namespace Stencil

/-- states with the same stacks, and the same data -/
structure State.Kept (s s' : State) : Prop where
  data : s'.data = s.data
  catalog : s'.catalog = s.catalog
  mappings : s'.mappings = s.mappings
  escaping : s'.escaping = s.escaping
  scope : s'.scope = s.scope
  loops : s'.loops = s.loops
  forms : s'.forms = s.forms
  captures : s'.captures = s.captures

namespace State.Kept

theorem refl (s : State) : s.Kept s := ⟨rfl, rfl, rfl, rfl, rfl, rfl, rfl, rfl⟩

theorem trans {s₁ s₂ s₃ : State} (h : s₁.Kept s₂) (h' : s₂.Kept s₃) : s₁.Kept s₃ where
  data := h'.data.trans h.data
  catalog := h'.catalog.trans h.catalog
  mappings := h'.mappings.trans h.mappings
  escaping := h'.escaping.trans h.escaping
  scope := h'.scope.trans h.scope
  loops := h'.loops.trans h.loops
  forms := h'.forms.trans h.forms
  captures := h'.captures.trans h.captures

end State.Kept

/-! ## What work leads to -/

/-- work that succeeds in a state of one kind leads to a state of another -/
def Leads {σ α : Type} (P : σ → Prop) (x : ExceptT Failure (StateM σ) α) (Q : σ → Prop) : Prop :=
  ∀ s, P s → ∀ a s', x.run.run s = (.ok a, s') → Q s'

section

variable {σ α β : Type} {P Q R : σ → Prop}

theorem leads_pure {a : α} (h : ∀ s, P s → Q s) : Leads P (pure a) Q := by
  intro s hs a' s' hrun
  cases hrun
  exact h s hs

theorem leads_throw {e : Failure} : Leads P (throw e : ExceptT Failure (StateM σ) α) Q := by
  intro s _ a s' hrun
  cases hrun

theorem leads_bind {x : ExceptT Failure (StateM σ) α} {f : α → ExceptT Failure (StateM σ) β} (hx : Leads P x Q)
    (hf : ∀ a, Leads Q (f a) R) : Leads P (x >>= f) R := by
  intro s hs b s'' hrun
  rw [run_bind] at hrun
  rcases hx' : x.run.run s with ⟨r, s'⟩
  rw [hx'] at hrun
  cases r with
  | error e => cases hrun
  | ok a => exact hf a s' (hx s hs a s' hx') b s'' hrun

/-- a step whose value is known from the state -/
theorem leads_get {f : σ → ExceptT Failure (StateM σ) β} (h : ∀ s, P s → Leads (fun s' => s' = s) (f s) Q) :
    Leads P (get >>= f) Q := by
  intro s hs b s' hrun
  rw [run_bind, run_get] at hrun
  exact h s hs s rfl b s' hrun

theorem leads_modify {f : σ → σ} (h : ∀ s, P s → Q (f s)) :
    Leads P (modify f : ExceptT Failure (StateM σ) PUnit) Q := by
  intro s hs a s' hrun
  cases hrun
  exact h s hs

theorem leads_set {s₁ : σ} (h : Q s₁) : Leads P (set s₁ : ExceptT Failure (StateM σ) PUnit) Q := by
  intro s _ a s' hrun
  cases hrun
  exact h

theorem leads_lift {x : Except Failure α} (h : ∀ s, P s → Q s) :
    Leads P (liftM x : ExceptT Failure (StateM σ) α) Q := by
  intro s hs a s' hrun
  rw [run_lift] at hrun
  cases hrun
  exact h s hs

theorem leads_exists {ι : Type} {P Q : ι → σ → Prop} {x : ExceptT Failure (StateM σ) α}
    (hx : ∀ i, Leads (P i) x (Q i)) : Leads (fun s => ∃ i, P i s) x (fun s => ∃ i, Q i s) := by
  rintro s ⟨i, hs⟩ a s' hrun
  exact ⟨i, hx i s hs a s' hrun⟩

theorem leads_mapM {f : α → ExceptT Failure (StateM σ) β} (hf : ∀ a, Leads P (f a) P) (as : List α) :
    Leads P (as.mapM f) P := by
  induction as with
  | nil => exact leads_pure fun _ h => h
  | cons a as ih =>
    rw [List.mapM_cons]
    exact leads_bind (hf a) fun _ => leads_bind ih fun _ => leads_pure fun _ h => h

theorem leads_forM {f : α → ExceptT Failure (StateM σ) PUnit} {as : List α} (hf : ∀ a ∈ as, Leads P (f a) P) :
    Leads P (as.forM f) P := by
  induction as with
  | nil => exact leads_pure fun _ h => h
  | cons a as ih =>
    obtain ⟨ha, has⟩ := List.forall_mem_cons.1 hf
    exact leads_bind ha fun _ => ih has

end

/-- work that succeeds in a state of one kind comes to a value of some kind, and leads to a state of another -/
def Gives {σ α : Type} (P : σ → Prop) (x : ExceptT Failure (StateM σ) α) (T : α → Prop) (Q : σ → Prop) : Prop :=
  ∀ s, P s → ∀ a s', x.run.run s = (.ok a, s') → T a ∧ Q s'

section

variable {σ α β : Type} {P Q R : σ → Prop} {T : α → Prop} {U : β → Prop}

theorem gives_pure {a : α} (ha : T a) : Gives P (pure a) T P := by
  intro s hs a' s' hrun
  cases hrun
  exact ⟨ha, hs⟩

theorem gives_throw {e : Failure} : Gives P (throw e : ExceptT Failure (StateM σ) α) T Q := by
  intro s _ a s' hrun
  cases hrun

theorem gives_bind {x : ExceptT Failure (StateM σ) α} {f : α → ExceptT Failure (StateM σ) β} (hx : Gives P x T Q)
    (hf : ∀ a, T a → Gives Q (f a) U R) : Gives P (x >>= f) U R := by
  intro s hs b s'' hrun
  rw [run_bind] at hrun
  rcases hx' : x.run.run s with ⟨r, s'⟩
  rw [hx'] at hrun
  cases r with
  | error e => cases hrun
  | ok a =>
    obtain ⟨ha, hs'⟩ := hx s hs a s' hx'
    exact hf a ha s' hs' b s'' hrun

theorem gives_get : Gives P (get : ExceptT Failure (StateM σ) σ) P P := by
  intro s hs a s' hrun
  cases hrun
  exact ⟨hs, hs⟩

theorem gives_lift {x : Except Failure α} (h : ∀ a, x = .ok a → T a) :
    Gives P (liftM x : ExceptT Failure (StateM σ) α) T P := by
  intro s hs a s' hrun
  rw [run_lift] at hrun
  cases hrun
  exact ⟨h a rfl, hs⟩

theorem gives_mapM {f : α → ExceptT Failure (StateM σ) β} {as : List α} (hf : ∀ a ∈ as, Gives P (f a) U P) :
    Gives P (as.mapM f) (fun bs => ∀ b ∈ bs, U b) P := by
  induction as with
  | nil => exact gives_pure nofun
  | cons a as ih =>
    obtain ⟨ha, has⟩ := List.forall_mem_cons.1 hf
    rw [List.mapM_cons]
    exact gives_bind ha fun b hb => gives_bind (ih has) fun bs hbs => gives_pure (List.forall_mem_cons.2 ⟨hb, hbs⟩)

theorem Gives.leads {x : ExceptT Failure (StateM σ) α} (hx : Gives P x T Q) : Leads P x Q :=
  fun s hs a s' hrun => (hx s hs a s' hrun).2

theorem Leads.gives {x : ExceptT Failure (StateM σ) α} (hx : Leads P x Q) : Gives P x (fun _ => True) Q :=
  fun s hs a s' hrun => ⟨trivial, hx s hs a s' hrun⟩

end

/-- work that keeps the stacks -/
def Keeps {α : Type} (x : Render α) : Prop := ∀ s₀ : State, Leads s₀.Kept x s₀.Kept

section

variable {α β : Type}

theorem keeps_pure (a : α) : Keeps (pure a) := fun _ => leads_pure fun _ h => h

theorem keeps_throw (e : Failure) : Keeps (throw e : Render α) := fun _ => leads_throw

theorem keeps_bind {x : Render α} {f : α → Render β} (hx : Keeps x) (hf : ∀ a, Keeps (f a)) : Keeps (x >>= f) :=
  fun s₀ => leads_bind (hx s₀) fun a => hf a s₀

theorem keeps_get : Keeps (get : Render State) := fun _ s hs a s' hrun => by
  cases hrun
  exact hs

theorem keeps_lift (x : Except Failure α) : Keeps (liftM x : Render α) := fun _ => leads_lift fun _ h => h

theorem keeps_modify {f : State → State} (h : ∀ s : State, s.Kept (f s)) : Keeps (modify f : Render PUnit) :=
  fun _ => leads_modify fun s hs => hs.trans (h s)

theorem keeps_mapM {f : α → Render β} (hf : ∀ a, Keeps (f a)) (as : List α) : Keeps (as.mapM f) :=
  fun s₀ => leads_mapM (fun a => hf a s₀) as

namespace Render

theorem keeps_work (w : Work α) : Keeps (work w) := by
  intro s₀ s hs a s' hrun
  rw [run_work, Prod.mk.injEq] at hrun
  rw [← hrun.2]
  exact hs.trans ⟨rfl, rfl, rfl, rfl, rfl, rfl, rfl, rfl⟩

theorem keeps_eval (e : Expr) : Keeps (eval e) := keeps_bind keeps_get fun _ => keeps_lift _

theorem keeps_write (t : Text) : Keeps (write t) :=
  keeps_modify fun _ => ⟨rfl, rfl, rfl, rfl, rfl, rfl, rfl, rfl⟩

theorem keeps_setTemporary (n : Nat) (t : Temporary) : Keeps (setTemporary n t) :=
  keeps_modify fun _ => ⟨rfl, rfl, rfl, rfl, rfl, rfl, rfl, rfl⟩

theorem keeps_temporary (n : Nat) : Keeps (temporary n) := by
  refine keeps_bind keeps_get fun s => ?_
  split
  · exact keeps_pure _
  · exact keeps_throw _

theorem keeps_entries (n : Nat) : Keeps (entries n) := by
  refine keeps_bind (keeps_temporary n) fun t => ?_
  split
  · exact keeps_pure _
  · exact keeps_throw _

theorem keeps_value (n : Nat) : Keeps (value n) := by
  refine keeps_bind (keeps_temporary n) fun t => ?_
  split
  · exact keeps_pure _
  · exact keeps_throw _

theorem keeps_textOf (n : Nat) : Keeps (textOf n) := by
  refine keeps_bind (keeps_temporary n) fun t => ?_
  split
  · exact keeps_pure _
  · exact keeps_throw _

theorem keeps_form : Keeps form := by
  refine keeps_bind keeps_get fun s => ?_
  split
  · exact keeps_pure _
  · exact keeps_throw _

theorem keeps_convert (v : Value) : Keeps (convert v) := keeps_bind keeps_get fun _ => keeps_lift _

theorem keeps_makeForm (entity : Value) (name : Text) (attributes : Value) : Keeps (makeForm entity name attributes) :=
  keeps_bind keeps_get fun _ => keeps_bind (keeps_lift _) fun _ => keeps_work _

theorem keeps_translate (key params : Value) : Keeps (translate key params) :=
  keeps_bind (keeps_lift _) fun _ =>
    keeps_bind (keeps_mapM (fun _ => keeps_bind (keeps_convert _) fun _ => keeps_pure _) _) fun _ =>
      keeps_bind keeps_get fun _ => keeps_bind (keeps_work _) fun _ =>
        keeps_bind (keeps_modify fun _ => ⟨rfl, rfl, rfl, rfl, rfl, rfl, rfl, rfl⟩) fun _ => keeps_pure _

theorem keeps_parameters (params : List (Text × Expr)) : Keeps (parameters params) :=
  keeps_bind (keeps_mapM (fun _ => keeps_bind (keeps_eval _) fun _ => keeps_pure _) params) fun _ => keeps_pure _

end Render

end

/-- a statement that moves no stack -/
def Stmt.Still : Stmt → Prop
  | .loopOpen _ | .scopeLoop | .iterationBegin _ | .bind _ _ | .iterationEnd | .scopeClose | .loopClose
  | .captureBegin | .captureEnd _ | .formOpen _ _ _ | .scopeForm | .formClose => False
  | _ => True

open Render in
/-- **A statement that moves no stack** keeps the stacks. -/
theorem keeps_exec {s : Stmt} (h : s.Still) : Keeps (exec s) := by
  cases s <;> simp only [Stmt.Still] at h
  case write t => exact keeps_write t
  case emit e => exact keeps_bind (keeps_eval e) fun _ => keeps_bind (keeps_convert _) fun _ => keeps_write _
  case iterate n e =>
    exact keeps_bind (keeps_eval e) fun _ => keeps_bind (keeps_work _) fun _ => keeps_setTemporary n _
  case writeFormOpen =>
    exact keeps_bind keeps_form fun _ => keeps_bind (keeps_lift _) fun _ => keeps_write _
  case writeFormClose => exact keeps_bind keeps_form fun _ => keeps_write _
  case field name attributes labelled =>
    exact keeps_bind keeps_form fun _ => keeps_bind (keeps_work _) fun _ => keeps_write _
  case submit attributes =>
    exact keeps_bind keeps_form fun _ => keeps_bind (keeps_work _) fun _ => keeps_write _
  case button attributes =>
    exact keeps_bind keeps_form fun _ => keeps_bind (keeps_work _) fun _ => keeps_write _
  case generate e name attributes submitting =>
    exact keeps_bind (keeps_eval e) fun _ => keeps_bind (keeps_makeForm _ _ _) fun _ =>
      keeps_bind (keeps_work _) fun _ => keeps_write _
  case translate n key params =>
    exact keeps_bind (keeps_parameters params) fun _ => keeps_bind (keeps_translate _ _) fun _ =>
      keeps_setTemporary n _
  case writeText n =>
    refine keeps_bind (keeps_textOf n) fun t => ?_
    cases t with
    | some t => exact keeps_write t
    | none => exact keeps_throw _
  all_goals exact keeps_pure _

/-! ## Constructs -/

namespace State

/-- the state with a capture open -/
def inCapture (s : State) (o : List Text) : State := { s with captures := o :: s.captures }

/-- the state with a form open, before its layer is -/
def withForm (s : State) (f : Form) : State := { s with forms := f :: s.forms }

/-- the state inside a form -/
def inForm (s : State) (f : Form) : State := { s.withForm f with scope := ⟨.form, []⟩ :: s.scope }

/-- the state with a loop open, before its layer is -/
def withLoop (s : State) (l : Loop) : State := { s with loops := l :: s.loops }

/-- the state inside a loop, whose layer holds some names -/
def inLoop (s : State) (p : Loop × Entries) : State := { s.withLoop p.1 with scope := ⟨.loop, p.2⟩ :: s.scope }

/-- the states with a capture open, beside one -/
abbrev InCapture (s₀ s : State) : Prop := ∃ o, (s₀.inCapture o).Kept s

/-- the states with a form open -/
abbrev WithForm (s₀ s : State) : Prop := ∃ f, (s₀.withForm f).Kept s

/-- the states inside a form -/
abbrev InForm (s₀ s : State) : Prop := ∃ f, (s₀.inForm f).Kept s

/-- the states with a loop open -/
abbrev WithLoop (s₀ s : State) : Prop := ∃ l, (s₀.withLoop l).Kept s

/-- the states inside a loop -/
abbrev InLoop (s₀ s : State) : Prop := ∃ p, (s₀.inLoop p).Kept s

end State

theorem leads_captureBegin (s₀ : State) :
    Leads s₀.Kept (Render.exec .captureBegin) s₀.InCapture :=
  leads_modify fun s hs => ⟨s.output, hs.data, hs.catalog, hs.mappings, hs.escaping, hs.scope, hs.loops, hs.forms,
    by simp [State.captureBegin, State.inCapture, hs.captures]⟩

theorem leads_captureEnd (s₀ : State) (name : Text) :
    Leads s₀.InCapture (Render.exec (.captureEnd name)) s₀.Kept := by
  refine leads_bind (Q := s₀.Kept) (leads_get fun s hs => ?_) fun _ => leads_pure fun _ h => h
  obtain ⟨o, hs⟩ := hs
  simp only [State.captureEnd?, hs.captures, State.inCapture]
  exact leads_bind (Q := s₀.Kept) (leads_set
    ⟨hs.data, hs.catalog, hs.mappings, hs.escaping, hs.scope, hs.loops, hs.forms, rfl⟩) fun _ => leads_pure fun _ h => h

theorem leads_formOpen (s₀ : State) (e : Expr) (name : Text) (attributes : Attributes) :
    Leads s₀.Kept (Render.exec (.formOpen e name attributes)) s₀.WithForm :=
  leads_bind (Render.keeps_eval e s₀) fun _ => leads_bind (Render.keeps_makeForm _ _ _ s₀) fun f =>
    leads_modify fun s hs => ⟨f, hs.data, hs.catalog, hs.mappings, hs.escaping, hs.scope, hs.loops,
      by simp [State.withForm, hs.forms], hs.captures⟩

theorem leads_scopeForm (s₀ : State) :
    Leads s₀.WithForm (Render.exec .scopeForm) s₀.InForm :=
  leads_exists fun f => leads_modify fun s hs => ⟨hs.data, hs.catalog, hs.mappings, hs.escaping,
    by simp [State.inForm, State.withForm, hs.scope], hs.loops, hs.forms, hs.captures⟩

theorem leads_closeForm (s₀ : State) :
    Leads s₀.InForm (Render.exec .scopeClose) s₀.WithForm :=
  leads_exists fun f => leads_modify fun s hs => ⟨hs.data, hs.catalog, hs.mappings, hs.escaping,
    by simp [State.inForm, State.withForm, hs.scope], hs.loops, hs.forms, hs.captures⟩

theorem leads_formClose (s₀ : State) :
    Leads s₀.WithForm (Render.exec .formClose) s₀.Kept :=
  leads_modify fun s ⟨f, hs⟩ => ⟨hs.data, hs.catalog, hs.mappings, hs.escaping, hs.scope, hs.loops,
    by simp [State.withForm, hs.forms], hs.captures⟩

theorem leads_loopOpen (s₀ : State) (n : Nat) :
    Leads s₀.Kept (Render.exec (.loopOpen n)) s₀.WithLoop :=
  leads_bind (Render.keeps_entries n s₀) fun es =>
    leads_modify fun s hs => ⟨.start es.length, hs.data, hs.catalog, hs.mappings, hs.escaping, hs.scope,
      by simp [State.withLoop, hs.loops], hs.forms, hs.captures⟩

theorem leads_scopeLoop (s₀ : State) :
    Leads s₀.WithLoop (Render.exec .scopeLoop) s₀.InLoop :=
  leads_modify fun s ⟨l, hs⟩ => ⟨(l, []), hs.data, hs.catalog, hs.mappings, hs.escaping,
    by simp [State.inLoop, State.withLoop, hs.scope], hs.loops, hs.forms, hs.captures⟩

theorem leads_changeLoop (s₀ : State) (g : Loop → Loop) :
    Leads s₀.InLoop (Render.changeLoop g) s₀.InLoop := by
  refine leads_get fun s hs => ?_
  obtain ⟨⟨l, es⟩, hs⟩ := hs
  simp only [hs.loops, State.inLoop, State.withLoop]
  exact leads_set ⟨(g l, es), hs.data, hs.catalog, hs.mappings, hs.escaping, hs.scope, rfl, hs.forms, hs.captures⟩

theorem leads_bindName (s₀ : State) (name : Text) (half : Half) :
    Leads s₀.InLoop (Render.exec (.bind name half)) s₀.InLoop := by
  have hbind : ∀ v, Leads s₀.InLoop (modify (State.bind name v) : Render PUnit)
      s₀.InLoop := by
    refine fun v => leads_modify fun s hs => ?_
    obtain ⟨⟨l, es⟩, hs⟩ := hs
    have hscope : s.scope = ⟨.loop, es⟩ :: s₀.scope := hs.scope
    refine ⟨(l, Value.put (.text name) v es), ?_⟩
    simp only [State.bind, hscope]
    exact ⟨hs.data, hs.catalog, hs.mappings, hs.escaping, rfl, hs.loops, hs.forms, hs.captures⟩
  have hvalue : ∀ n, Leads s₀.InLoop (Render.value n) s₀.InLoop :=
    fun n => leads_exists fun p => Render.keeps_value n (s₀.inLoop p)
  cases half with
  | key n => exact leads_bind (hvalue n) hbind
  | item n => exact leads_bind (hvalue n) hbind

theorem leads_closeLoop (s₀ : State) :
    Leads s₀.InLoop (Render.exec .scopeClose) s₀.WithLoop :=
  leads_modify fun s ⟨p, hs⟩ => ⟨p.1, hs.data, hs.catalog, hs.mappings, hs.escaping,
    by simp [State.inLoop, State.withLoop, hs.scope], hs.loops, hs.forms, hs.captures⟩

theorem leads_loopClose (s₀ : State) :
    Leads s₀.WithLoop (Render.exec .loopClose) s₀.Kept :=
  leads_modify fun s ⟨l, hs⟩ => ⟨hs.data, hs.catalog, hs.mappings, hs.escaping, hs.scope,
    by simp [State.withLoop, hs.loops], hs.forms, hs.captures⟩

end Stencil
