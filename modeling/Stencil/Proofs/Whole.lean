/-
WHOLE VALUES. A value is whole if the mark of what a path does not reach is nowhere in it. Whatever a path reaches in
whole values is whole, and so is all that a render keeps: it works with what it was given and with what it makes itself,
and it makes no such mark.

- `whole_iff`: to be whole is a property of all that a value holds, so that all that is reached is whole.
- `State.Whole.reach`: what a path reaches from a whole state is whole.
- `lasting_whole`: a whole state stays whole, whatever statement runs.
-/
import Stencil.Proofs.Scoped
import Stencil.Proofs.Throughout

namespace Stencil

namespace Value

/-- neither the value nor one of its parts is missing -/
inductive Whole : Value → Prop
  | intro {v : Value} (here : v ≠ .missing) (inside : ∀ w ∈ v.parts, w.Whole) : v.Whole

/-- entries of whole keys and values -/
def WholeEntries (es : Entries) : Prop := ∀ e ∈ es, e.1.Whole ∧ e.2.Whole

theorem made_present : Made (· ≠ .missing) := by
  rintro v hv rfl
  cases hv

/-- to be whole is a property of all that a value holds -/
theorem whole_iff {v : Value} : v.Whole ↔ v.Throughout (· ≠ .missing) := by
  constructor
  · intro h
    induction h with
    | intro here _ ih => exact ⟨here, ih⟩
  · intro h
    induction h with
    | intro here _ ih => exact ⟨here, ih⟩

theorem wholeEntries_iff {es : Entries} : WholeEntries es ↔ EntriesThroughout (· ≠ .missing) es := by
  simp only [WholeEntries, EntriesThroughout, whole_iff]

theorem Whole.ne_missing {v : Value} (h : v.Whole) : v ≠ .missing := (whole_iff.1 h).here

@[simp] theorem whole_none : Whole .none := whole_iff.2 (throughout_atom made_present rfl rfl)

@[simp] theorem whole_text (s : Text) (id : Identity) : Whole (.text s id) :=
  whole_iff.2 (throughout_atom made_present rfl rfl)

@[simp] theorem whole_int (n : Int) (id : Identity) : Whole (.int n id) :=
  whole_iff.2 (throughout_atom made_present rfl rfl)

@[simp] theorem whole_list (xs : List Value) (id : Identity) : Whole (.list xs id) ↔ ∀ x ∈ xs, x.Whole :=
  ⟨fun h _ hx => whole_iff.2 ((whole_iff.1 h).inside hx), fun h => ⟨nofun, h⟩⟩

@[simp] theorem whole_mapping (es : Entries) : Whole (.mapping es) ↔ WholeEntries es :=
  whole_iff.trans ((throughout_mapping made_present).trans wholeEntries_iff.symm)

theorem whole_find? {es : Entries} (h : WholeEntries es) {key v : Value} (hv : find? key es = some v) : v.Whole :=
  whole_iff.2 (throughout_find? (wholeEntries_iff.1 h) hv)

theorem WholeEntries.put {es : Entries} (h : WholeEntries es) {key v : Value} (hkey : key.Whole) (hv : v.Whole) :
    WholeEntries (put key v es) :=
  wholeEntries_iff.2 ((wholeEntries_iff.1 h).put (whole_iff.1 hkey) (whole_iff.1 hv))

theorem whole_orEmpty {v : Value} (h : v.Whole) : v.orEmpty.Whole :=
  whole_iff.2 (throughout_orEmpty made_present (whole_iff.1 h))

end Value

/-! ## States -/

/-- a form of whole values -/
structure Form.Whole (f : Form) : Prop where
  entity : f.entity.Whole
  mapping : f.mapping.Whole
  attributes : f.attributes.Whole
  errors : Value.WholeEntries f.errors

/-- a temporary that holds whole values -/
def Temporary.Whole : Temporary → Prop
  | entries es => Value.WholeEntries es
  | value v => v.Whole
  | text _ => True

/-- a state of whole values -/
structure State.Whole (s : State) : Prop where
  data : Value.WholeEntries s.data
  mappings : s.mappings.Whole
  scope : ∀ l ∈ s.scope, Value.WholeEntries l.names
  loops : ∀ l ∈ s.loops, l.key.Whole
  forms : ∀ f ∈ s.forms, f.Whole
  temporaries : ∀ p ∈ s.temporaries, p.2.Whole

theorem whole_loops {ls : List Loop} (h : ∀ l ∈ ls, l.key.Whole) : (Loop.value ls).Whole :=
  Value.whole_iff.2 (throughout_loops Value.made_present fun l hl => Value.whole_iff.1 (h l hl))

theorem whole_forms {fs : List Form} (h : ∀ f ∈ fs, f.Whole) : (Form.value fs).Whole := by
  induction fs with
  | nil => exact Value.whole_none
  | cons f fs ih =>
    obtain ⟨hf, hfs⟩ := List.forall_mem_cons.1 h
    exact ⟨nofun, by simp [Form.value, Value.parts, hf.entity, hf.mapping, hf.attributes, hf.errors, ih hfs]⟩

theorem whole_make {entity config attributes : Value} (hentity : entity.Whole) (hconfig : config.Whole)
    (hattributes : attributes.Whole) (name : Text) (escaping : Bool) {asked asked' : Asked} {f : Form}
    (h : (Form.make entity name config .none attributes escaping).run.run asked = (.ok f, asked')) : f.Whole := by
  have herrors : Value.WholeEntries (Form.ownErrors entity) := by
    unfold Form.ownErrors
    cases ha : entity.attribute? "errors" with
    | none => simp [Value.WholeEntries]
    | some v =>
      have hv := Value.whole_iff.2 (Value.throughout_attribute? Value.made_present (Value.whole_iff.1 hentity) ha)
      cases v with
      | mapping es => simpa [Value.entries?] using hv
      | _ => simp [Value.entries?, Value.WholeEntries]
  cases h
  exact ⟨hentity, Value.whole_orEmpty hconfig, Value.whole_orEmpty hattributes, herrors⟩

namespace State.Whole

variable {s s' : State}

theorem congr (h : s.Whole) (hdata : s'.data = s.data) (hmappings : s'.mappings = s.mappings)
    (hscope : s'.scope = s.scope) (hloops : s'.loops = s.loops) (hforms : s'.forms = s.forms)
    (htemporaries : s'.temporaries = s.temporaries) : s'.Whole :=
  ⟨hdata ▸ h.data, hmappings ▸ h.mappings, hscope ▸ h.scope, hloops ▸ h.loops, hforms ▸ h.forms,
    htemporaries ▸ h.temporaries⟩

/-- the value of a name is whole -/
theorem find? (h : s.Whole) {name : Text} {v : Value} (hv : s.find? name = some v) : v.Whole := by
  have hshown : ∀ shown, (s.shown shown).Whole := by
    intro shown
    cases shown with
    | loop => exact whole_loops h.loops
    | form => exact whole_forms h.forms
  have hfrom : ∀ {ls : List Layer}, (∀ l ∈ ls, Value.WholeEntries l.names) → s.findFrom name ls = some v → v.Whole := by
    intro ls hls hv
    induction ls with
    | nil => exact Value.whole_find? h.data hv
    | cons l ls ih =>
      obtain ⟨hl, hls⟩ := List.forall_mem_cons.1 hls
      rw [State.findFrom] at hv
      split at hv
      · rename_i w hw
        cases hv
        exact Value.whole_find? hl hw
      · split at hv
        · cases hv
          exact hshown _
        · exact ih hls hv
  exact hfrom h.scope hv

/-- **What a path reaches** from a whole state is whole. -/
theorem reach (h : s.Whole) (path : List Segment) (v : Value) (hv : s.reach path = .ok (some v)) : v.Whole := by
  unfold State.reach at hv
  split at hv
  · split at hv
    · cases hv
    · rename_i root rest _ w hw
      split at hv
      · cases hv
      · rw [map_eq_ok] at hv
        obtain ⟨found, hfound, hv⟩ := hv
        obtain ⟨u, rfl, rfl⟩ := Option.map_eq_some_iff.1 hv
        have hreached := Value.throughout_reachAll Value.made_present (Value.whole_iff.1 (h.find? hw)) hfound
        exact Value.whole_iff.2 (Value.throughout_current Value.made_present hreached s.asked)
  · cases hv

theorem setTemporary (h : s.Whole) (n : Nat) {t : Temporary} (ht : t.Whole) :
    State.Whole { s with temporaries := putAt n t s.temporaries } :=
  { h with temporaries := forall_putAt (Q := Temporary.Whole) ht h.temporaries }

theorem bind (h : s.Whole) (name : Text) {v : Value} (hv : v.Whole) : (s.bind name v).Whole := by
  unfold State.bind
  split
  · exact { h with data := h.data.put (Value.whole_text _ _) hv }
  · rename_i l ls hscope
    have hlayers := h.scope
    rw [hscope] at hlayers
    obtain ⟨hl, hls⟩ := List.forall_mem_cons.1 hlayers
    exact { h with scope := List.forall_mem_cons.2 ⟨hl.put (Value.whole_text _ _) hv, hls⟩ }

end State.Whole

/-! ## Statements -/

theorem Leads.of_eq {α : Type} {P Q : State → Prop} {x : Render α} (h : Leads P x Q) {s : State} (hs : P s) :
    Leads (fun s' => s' = s) x Q := by
  rintro _ rfl
  exact h _ hs

namespace Render

theorem whole_work {α : Type} (w : Work α) : Leads State.Whole (work w) State.Whole := by
  intro s hs a s' hrun
  rw [run_work, Prod.mk.injEq] at hrun
  rw [← hrun.2]
  exact hs.congr rfl rfl rfl rfl rfl rfl

theorem gives_work {α : Type} {w : Work α} {T : α → Prop}
    (h : ∀ asked a asked', w.run.run asked = (.ok a, asked') → T a) : Gives State.Whole (work w) T State.Whole := by
  intro s hs a s' hrun
  refine ⟨?_, whole_work w s hs a s' hrun⟩
  rw [run_work, Prod.mk.injEq] at hrun
  exact h s.asked a _ (Prod.ext hrun.1 rfl)

theorem whole_write (t : Text) : Leads State.Whole (write t) State.Whole :=
  leads_modify fun _ hs => hs.congr rfl rfl rfl rfl rfl rfl

theorem whole_convert (v : Value) : Leads State.Whole (convert v) State.Whole :=
  leads_get fun _ hs => leads_lift fun _ h => h ▸ hs

theorem whole_eval (e : Expr) : Gives State.Whole (eval e) Value.Whole State.Whole :=
  gives_bind gives_get fun _ hs => gives_lift fun _ h => Value.whole_iff.2
    (throughout_expr Value.made_present (fun path v hv => Value.whole_iff.1 (hs.reach path v hv)) h)

theorem whole_temporary (n : Nat) : Gives State.Whole (temporary n) Temporary.Whole State.Whole := by
  refine gives_bind gives_get fun s hs => ?_
  split
  · rename_i t ht
    obtain ⟨p, hp, rfl⟩ := Option.map_eq_some_iff.1 ht
    exact gives_pure (hs.temporaries p (List.mem_of_find?_eq_some hp))
  · exact gives_throw

theorem whole_entries (n : Nat) : Gives State.Whole (entries n) Value.WholeEntries State.Whole := by
  refine gives_bind (whole_temporary n) fun t ht => ?_
  split
  · exact gives_pure ht
  · exact gives_throw

theorem whole_value (n : Nat) : Gives State.Whole (value n) Value.Whole State.Whole := by
  refine gives_bind (whole_temporary n) fun t ht => ?_
  split
  · exact gives_pure ht
  · exact gives_throw

theorem whole_setTemporary (n : Nat) {t : Temporary} (ht : t.Whole) :
    Leads State.Whole (setTemporary n t) State.Whole := leads_modify fun _ hs => hs.setTemporary n ht

theorem whole_form : Leads State.Whole form State.Whole := by
  refine leads_get fun s hs => ?_
  split
  · exact leads_pure fun _ h => h ▸ hs
  · exact leads_throw

theorem whole_makeForm {entity attributes : Value} (hentity : entity.Whole) (hattributes : attributes.Whole)
    (name : Text) : Gives State.Whole (makeForm entity name attributes) Form.Whole State.Whole := by
  refine gives_bind gives_get fun s hs => gives_bind (gives_lift (T := fun found => ∀ v, found = some v → v.Whole) ?_)
    fun found hfound => gives_work fun asked f asked' h => whole_make hentity ?_ hattributes name s.escaping h
  · intro found hfound v hv
    have hmappings := hs.mappings
    unfold Value.get? at hfound
    split at hfound
    · rename_i es heq
      rw [heq] at hmappings
      split at hfound
      · cases hfound
        exact Value.whole_find? ((Value.whole_mapping es).1 hmappings) hv
      · cases hfound
    · cases hfound
  · cases found with
    | none => exact Value.whole_none
    | some v => exact hfound v rfl

theorem whole_changeLoop {g : Loop → Loop} (hg : ∀ l : Loop, l.key.Whole → (g l).key.Whole) :
    Leads State.Whole (changeLoop g) State.Whole := by
  refine leads_get fun s hs => ?_
  split
  · rename_i l ls hloops
    have hall := hs.loops
    rw [hloops] at hall
    obtain ⟨hl, hls⟩ := List.forall_mem_cons.1 hall
    exact leads_set { hs with loops := List.forall_mem_cons.2 ⟨hg l hl, hls⟩ }
  · exact leads_throw

theorem whole_captureEnd (name : Text) : Leads State.Whole (captureEnd name) State.Whole := by
  refine leads_get fun s hs => ?_
  unfold State.captureEnd?
  split
  · exact leads_throw
  · rename_i hs'
    split at hs'
    · cases hs'
    · cases hs'
      exact leads_bind (Q := State.Whole) (leads_set (hs.congr rfl rfl rfl rfl rfl rfl)) fun _ =>
        leads_pure fun _ h => h

theorem whole_parameters (params : List (Text × Expr)) : Leads State.Whole (parameters params) State.Whole :=
  leads_bind (leads_mapM (fun _ => leads_bind (whole_eval _).leads fun _ => leads_pure fun _ h => h) params) fun _ =>
    leads_pure fun _ h => h

theorem whole_translate (key params : Value) : Leads State.Whole (translate key params) State.Whole :=
  leads_bind (Q := State.Whole) (leads_lift fun _ h => h) fun _ =>
    leads_bind (leads_mapM (fun _ => leads_bind (whole_convert _) fun _ => leads_pure fun _ h => h) _) fun _ =>
      leads_get fun _ hs => leads_bind ((whole_work _).of_eq hs) fun _ =>
        leads_bind (leads_modify fun _ hs => hs.congr rfl rfl rfl rfl rfl rfl) fun _ => leads_pure fun _ h => h

end Render

theorem whole_attributes (a : Attributes) : a.toValue.Whole :=
  Value.whole_iff.2 (throughout_attributes Value.made_present a)

open Render in
/-- **A whole state** stays whole, whatever statement runs. -/
theorem whole_exec (s : Stmt) : Leads State.Whole (exec s) State.Whole := by
  cases s
  case write t => exact whole_write t
  case emit e => exact leads_bind (whole_eval e).leads fun _ => leads_bind (whole_convert _) fun _ => whole_write _
  case iterate n e =>
    exact (gives_bind (whole_eval e) fun v hv => gives_bind (gives_work fun _ _ _ h => Value.wholeEntries_iff.2
      (Value.throughout_pairs Value.made_present (Value.whole_iff.1 hv) h)) fun es hes =>
      (whole_setTemporary n (t := .entries es) hes).gives).leads
  case loopOpen n =>
    exact leads_bind (whole_entries n).leads fun es => leads_modify fun _ hs =>
      { hs with loops := List.forall_mem_cons.2 ⟨Value.whole_none, hs.loops⟩ }
  case scopeLoop =>
    exact leads_modify fun s hs => { hs with scope := List.forall_mem_cons.2 ⟨by simp [Value.WholeEntries], hs.scope⟩ }
  case scopeForm =>
    exact leads_modify fun s hs => { hs with scope := List.forall_mem_cons.2 ⟨by simp [Value.WholeEntries], hs.scope⟩ }
  case iterationBegin n =>
    exact (gives_bind (whole_value n) fun v hv => (whole_changeLoop fun _ _ => hv).gives).leads
  case iterationEnd => exact whole_changeLoop fun _ h => h
  case bind name half =>
    cases half <;> exact (gives_bind (whole_value _) fun v hv => (leads_modify fun s hs => hs.bind name hv).gives).leads
  case scopeClose =>
    exact leads_modify fun s hs => { hs with scope := fun l hl => hs.scope l (List.mem_of_mem_drop hl) }
  case loopClose =>
    exact leads_modify fun s hs => { hs with loops := fun l hl => hs.loops l (List.mem_of_mem_drop hl) }
  case formClose =>
    exact leads_modify fun s hs => { hs with forms := fun l hl => hs.forms l (List.mem_of_mem_drop hl) }
  case captureBegin => exact leads_modify fun _ hs => hs.congr rfl rfl rfl rfl rfl rfl
  case captureEnd name => exact leads_bind (whole_captureEnd name) fun _ => leads_pure fun _ h => h
  case formOpen e name attributes =>
    exact (gives_bind (whole_eval e) fun v hv => gives_bind (whole_makeForm hv (whole_attributes attributes) name)
      fun f hf => (leads_modify fun s hs => { hs with forms := List.forall_mem_cons.2 ⟨hf, hs.forms⟩ }).gives).leads
  case writeFormOpen =>
    exact leads_bind whole_form fun _ => leads_bind (Q := State.Whole) (leads_lift fun _ h => h) fun _ => whole_write _
  case writeFormClose => exact leads_bind whole_form fun _ => whole_write _
  case field name attributes labelled =>
    exact leads_bind whole_form fun _ => leads_bind (whole_work _) fun _ => whole_write _
  case submit attributes => exact leads_bind whole_form fun _ => leads_bind (whole_work _) fun _ => whole_write _
  case button attributes => exact leads_bind whole_form fun _ => leads_bind (whole_work _) fun _ => whole_write _
  case generate e name attributes submitting =>
    exact (gives_bind (whole_eval e) fun v hv => gives_bind
      (whole_makeForm hv (by simp [Value.WholeEntries]) name) fun f _ =>
        (leads_bind (whole_work _) fun _ => whole_write _).gives).leads
  case translate n key params =>
    exact leads_bind (whole_parameters params) fun _ => leads_bind (whole_translate _ _) fun t =>
      whole_setTemporary n (t := .text t) trivial
  case writeText n =>
    refine leads_bind (leads_textOf n) fun t => ?_
    cases t with
    | some t => exact whole_write t
    | none => exact leads_throw
  all_goals exact leads_pure fun _ h => h

theorem lasting_whole : Lasting State.Whole where
  exec := whole_exec
  entries n := by
    intro s hs es s' hrun
    obtain ⟨hes, hs'⟩ := Render.whole_entries n s hs es s' hrun
    exact ⟨fun e he k => ⟨Render.whole_setTemporary k (hes e he).1, Render.whole_setTemporary k (hes e he).2⟩, hs'⟩

end Stencil
