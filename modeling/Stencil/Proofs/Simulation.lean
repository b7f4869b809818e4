/-
THE PROGRAM AND THE TEMPLATE. Running the flat program of a template and interpreting the template directly come to
the same: the same text and sections, or the same failure, and the same messages.

A state of the run shows a page in an environment if the stacks of the state are those of the environment, every name
has the same value, and the same has been written. `Follows` relates the work of the program to direct work: from
related states both succeed with the same value and related states, or both fail alike.

- `follows_act`, `follows_opening`: a directive without a body, and a construct around any body.
- `follows_passage`: by induction on the passage.
- `render_eq_direct`: every compiled template renders as its passage does.
-/
import Stencil.Proofs.Names
import Stencil.Proofs.Watch

namespace Stencil

/-! ## Work that follows other work -/

/-- outcomes that are the same: equal values and related states, or equal failures and messages -/
inductive Same {α : Type} (Q : α → State → Page → Prop) :
    Except Failure α × State → Except Failure α × Page → Prop where
  | ok {a : α} {s : State} {page : Page} (h : Q a s page) : Same Q (.ok a, s) (.ok a, page)
  | error {e : Failure} {s : State} {page : Page} (h : page.messages = s.messages.reverse) :
    Same Q (.error e, s) (.error e, page)

/-- from related states the outcomes of the work are the same -/
def Follows {α : Type} (P : State → Page → Prop) (x : Render α) (y : Direct α) (Q : α → State → Page → Prop) : Prop :=
  ∀ s page, P s page → Same Q (x.run.run s) (y.run.run page)

section

variable {α β : Type} {P : State → Page → Prop} {Q : α → State → Page → Prop} {R : β → State → Page → Prop}

theorem follows_pure {a : α} (h : ∀ s page, P s page → Q a s page) : Follows P (pure a) (pure a) Q :=
  fun s page hs => .ok (h s page hs)

theorem follows_bind {x : Render α} {y : Direct α} {f : α → Render β} {g : α → Direct β} (hx : Follows P x y Q)
    (hf : ∀ a, Follows (Q a) (f a) (g a) R) : Follows P (x >>= f) (y >>= g) R := by
  intro s page hs
  rw [run_bind, run_bind]
  have h := hx s page hs
  generalize x.run.run s = u at h ⊢
  generalize y.run.run page = v at h ⊢
  cases h with
  | ok ha => exact hf _ _ _ ha
  | error hm => exact .error hm

/-- a step of the program alone -/
theorem follows_step {x : Render α} {y : Direct β} {f : α → Render β}
    (hx : ∀ s page, P s page → ∃ a s', x.run.run s = (.ok a, s') ∧ Q a s' page)
    (hf : ∀ a, Follows (Q a) (f a) y R) : Follows P (x >>= f) y R := by
  intro s page hs
  obtain ⟨a, s', hrun, hq⟩ := hx s page hs
  rw [run_bind, hrun]
  exact hf a s' page hq

/-- last steps of the program alone -/
theorem Follows.finish {x f : Render PUnit} {y : Direct PUnit} {Q R : State → Page → Prop}
    (hx : Follows P x y fun _ => Q)
    (hf : ∀ s page, Q s page → ∃ s', f.run.run s = (.ok ⟨⟩, s') ∧ R s' page) :
    Follows P (do x; f) y fun _ => R := by
  intro s page hs
  have h := hx s page hs
  rw [run_bind]
  generalize x.run.run s = u at h ⊢
  generalize y.run.run page = v at h ⊢
  cases h with
  | @ok _ s' page' hq =>
    obtain ⟨s'', hrun, hr⟩ := hf s' page' hq
    simp only [hrun]
    exact .ok hr
  | error hm => exact .error hm

/-- what the program's work leads to holds beside the relation -/
theorem Follows.and {x : Render α} {y : Direct α} (h : Follows P x y Q) (hk : Keeps x) (s₀ : State) :
    Follows (fun s page => P s page ∧ s₀.Kept s) x y (fun a s page => Q a s page ∧ s₀.Kept s) := by
  intro s page ⟨hs, hs₀⟩
  have hsame := h s page hs
  have hkept := hk s₀ s hs₀
  generalize x.run.run s = u at hsame hkept ⊢
  generalize y.run.run page = v at hsame ⊢
  cases hsame with
  | ok ha => exact .ok ⟨ha, hkept _ _ rfl⟩
  | error hm => exact .error hm

theorem follows_mapM {P : State → Page → Prop} {f : α → Render β} {g : α → Direct β}
    (hf : ∀ a, Follows P (f a) (g a) fun _ => P) (as : List α) : Follows P (as.mapM f) (as.mapM g) fun _ => P := by
  induction as with
  | nil => exact follows_pure fun _ _ h => h
  | cons a as ih =>
    rw [List.mapM_cons, List.mapM_cons]
    exact follows_bind (hf a) fun _ => follows_bind ih fun _ => follows_pure fun _ _ h => h

/-- iterations with a running number -/
theorem follows_forM {P : Nat → State → Page → Prop} {f : α → Render PUnit} {g : α × Nat → Direct PUnit}
    (hf : ∀ i a, Follows (P i) (f a) (g (a, i)) fun _ => P (i + 1)) (as : List α) (i : Nat) :
    Follows (P i) (as.forM f) ((as.zipIdx i).forM g) fun _ => P (i + as.length) := by
  induction as generalizing i with
  | nil => exact follows_pure fun _ _ h => h
  | cons a as ih =>
    have := ih (i + 1)
    rw [Nat.add_assoc, Nat.add_comm 1] at this
    exact follows_bind (hf i a) fun _ => this

end

/-! ## States that show pages -/

/-- the state shows the page in the environment -/
structure Shows (env : Env) (s : State) (page : Page) : Prop where
  data : s.data = env.data
  catalog : s.catalog = env.catalog
  mappings : s.mappings = env.mappings
  escaping : s.escaping = env.escaping
  loops : s.loops = env.loops
  forms : s.forms = env.forms
  names : ∀ name, s.find? name = env.find? name
  output : page.output = s.result
  sections : page.sections = s.sections
  messages : page.messages = s.messages.reverse
  asked : page.asked = s.asked

namespace Shows

variable {env : Env} {s : State} {page : Page}

/-- paths reach the same -/
theorem reach (h : Shows env s page) : s.reach = env.reach page.asked := by
  funext path
  match path with
  | [] => rfl
  | .index n :: rest => rfl
  | .name root :: rest =>
    cases hf : env.find? root with
    | none => simp [State.reach, Env.reach, h.names, hf]
    | some v => simp [State.reach, Env.reach, h.names, h.asked, hf]

/-- another state with the same stacks shows what was written there -/
theorem kept (h : Shows env s page) {s' : State} {page' : Page} (hk : s.Kept s') (houtput : page'.output = s'.result)
    (hsections : page'.sections = s'.sections) (hmessages : page'.messages = s'.messages.reverse)
    (hasked : page'.asked = s'.asked) : Shows env s' page' where
  data := hk.data.trans h.data
  catalog := hk.catalog.trans h.catalog
  mappings := hk.mappings.trans h.mappings
  escaping := hk.escaping.trans h.escaping
  loops := hk.loops.trans h.loops
  forms := hk.forms.trans h.forms
  names := fun name => (State.find?_congr hk.data hk.scope hk.loops hk.forms name).trans (h.names name)
  output := houtput
  sections := hsections
  messages := hmessages
  asked := hasked

end Shows

/-! ## Acts -/

section

variable {env : Env}

/-- steps that cannot change the state or the page -/
theorem follows_known {α : Type} {x : Render α} {y : Direct α} (r : State → Page → Except Failure α)
    (hx : ∀ s page, Shows env s page → x.run.run s = (r s page, s))
    (hy : ∀ s page, Shows env s page → y.run.run page = (r s page, page)) :
    Follows (Shows env) x y fun _ => Shows env := by
  intro s page h
  rw [hx s page h, hy s page h]
  cases r s page with
  | ok v => exact .ok h
  | error e => exact .error h.messages

theorem follows_lift {α : Type} (x : Except Failure α) :
    Follows (Shows env) (liftM x : Render α) (liftM x : Direct α) fun _ => Shows env :=
  follows_known (fun _ _ => x) (fun _ _ _ => rfl) fun _ _ _ => rfl

theorem follows_eval (e : Expr) : Follows (Shows env) (Render.eval e) (Direct.eval env e) fun _ => Shows env :=
  follows_known (fun s _ => e.eval s.reach) (fun _ _ _ => rfl) fun s page h => by
    rw [h.reach]
    rfl

theorem follows_work {α : Type} (w : Work α) :
    Follows (Shows env) (Render.work w) (Direct.work w) fun _ => Shows env := by
  intro s page h
  have hy : (Direct.work w : Direct α).run.run page =
      ((w.run.run s.asked).1, { page with asked := (w.run.run s.asked).2 }) := by
    rw [← h.asked]
    rfl
  rw [run_work, hy]
  cases (w.run.run s.asked).1 with
  | ok a => exact .ok (h.kept ⟨rfl, rfl, rfl, rfl, rfl, rfl, rfl, rfl⟩ h.output h.sections h.messages rfl)
  | error e => exact .error h.messages

theorem follows_write (t : Text) : Follows (Shows env) (Render.write t) (Direct.write t) fun _ => Shows env := by
  intro s page h
  show Same _ (.ok (), s.write t) (.ok (), { page with output := page.output ++ t })
  refine .ok (h.kept ⟨rfl, rfl, rfl, rfl, rfl, rfl, rfl, rfl⟩ ?_ h.sections h.messages h.asked)
  simp [h.output, State.result, State.write, Text.cat]

theorem follows_convert (v : Value) :
    Follows (Shows env) (Render.convert v) (liftM (outputText env.escaping v) : Direct Text) fun _ => Shows env :=
  follows_known (fun s _ => outputText s.escaping v) (fun _ _ _ => rfl) fun s page h => by
    rw [h.escaping]
    rfl

theorem follows_emit (v : Value) : Follows (Shows env) (Render.emit v) (Direct.emit env v) fun _ => Shows env :=
  follows_bind (follows_convert v) fun t => follows_write t

theorem follows_makeForm (entity : Value) (name : Text) (attributes : Value) :
    Follows (Shows env) (Render.makeForm entity name attributes) (Direct.makeForm env entity name attributes)
      fun _ => Shows env := by
  intro s page h
  have hx : Render.makeForm entity name attributes = (do
      let s ← get
      let mapping ← s.mappings.get? (.text name)
      Render.work (Form.make entity name (mapping.getD .none) .none attributes s.escaping)) := rfl
  rw [hx, run_bind, run_get]
  simp only [h.mappings, h.escaping]
  exact follows_bind (follows_lift _) (fun m => follows_work _) s page h

/-- work on the innermost form -/
theorem follows_inForm (w : Form → Work Text) :
    Follows (Shows env) (do let f ← Render.form; let t ← Render.work (w f); Render.write t) (Direct.inForm env w)
      fun _ => Shows env := by
  intro s page h
  unfold Direct.inForm Render.form
  rw [run_bind, run_bind, run_get]
  simp only [h.forms]
  cases env.forms with
  | nil => exact .error h.messages
  | cons f forms =>
    exact follows_bind (follows_work (w f)) (fun t => follows_write t) s page h

/-- **A directive without a body** does in the program what it does directly. -/
theorem follows_act (a : Act) : Follows (Shows env) (a.block.run false) (a.direct env) fun _ => Shows env := by
  have hrun : ∀ s : Stmt, (Block.steps [s]).run false = Render.exec s := fun s => bind_pure_unit
  cases a with
  | remark => exact follows_pure fun _ _ h => h
  | write t =>
    show Follows _ ((Block.steps [.write t]).run false) _ _
    rw [hrun]
    exact follows_write t
  | emit e =>
    show Follows _ ((Block.steps [.emit e]).run false) _ _
    rw [hrun]
    exact follows_bind (follows_eval e) fun v => follows_emit v
  | field name attributes labelled =>
    show Follows _ ((Block.steps [.field name attributes labelled]).run false) _ _
    rw [hrun]
    exact follows_inForm _
  | submit attributes =>
    show Follows _ ((Block.steps [.submit attributes]).run false) _ _
    rw [hrun]
    exact follows_inForm _
  | button attributes =>
    show Follows _ ((Block.steps [.button attributes]).run false) _ _
    rw [hrun]
    exact follows_inForm _
  | generate e name attributes submitting =>
    show Follows _ ((Block.steps [.generate e name attributes submitting]).run false) _ _
    rw [hrun]
    exact follows_bind (follows_eval e) fun v => follows_bind (follows_makeForm v name _) fun f =>
      follows_bind (follows_work _) fun t => follows_write t

/-! ## Phrases -/

/-- the states that show the page, one temporary of which holds something -/
def Holding (env : Env) (n : Nat) (t : Temporary) (s : State) (page : Page) : Prop :=
  Shows env s page ∧ getAt? n s.temporaries = some t

/-- a temporary is set by the program alone -/
theorem follows_setTemporary {α : Type} {R : α → State → Page → Prop} {n : Nat} {t : Temporary} {x : Render α}
    {y : Direct α} (h : Follows (Holding env n t) x y R) :
    Follows (Shows env) (do Render.setTemporary n t; x) y R := by
  refine follows_step (Q := fun _ => Holding env n t) (fun s page hs => ?_) fun _ => h
  refine ⟨⟨⟩, { s with temporaries := putAt n t s.temporaries }, rfl, ?_, ?_⟩
  · exact hs.kept ⟨rfl, rfl, rfl, rfl, rfl, rfl, rfl, rfl⟩ hs.output hs.sections hs.messages hs.asked
  · simp [getAt?_putAt]

theorem run_temporary {s : State} {n : Nat} {t : Temporary} (h : getAt? n s.temporaries = some t) :
    (Render.temporary n).run.run s = (.ok t, s) := by
  unfold Render.temporary
  rw [run_bind, run_get]
  simp only [h]
  rfl

theorem run_textOf {s : State} {n : Nat} {t : Option Text} (h : getAt? n s.temporaries = some (.text t)) :
    (Render.textOf n).run.run s = (.ok t, s) := by
  unfold Render.textOf
  rw [run_bind, run_temporary h]
  rfl

theorem mappingEntries_orEmpty (es : Entries) : (Value.mapping es).orEmpty.mappingEntries = .ok es := by
  cases es <;> rfl

/-- the text of a phrase -/
theorem follows_phrase (key : Text) (params : List (Text × Expr)) :
    Follows (Shows env) (do let es ← Render.parameters params; Render.translate (.text key) (.mapping es))
      (Direct.phrase? env key params) fun _ => Shows env := by
  have hx : (do let es ← Render.parameters params; Render.translate (.text key) (.mapping es)) = (do
      let values ← params.mapM fun p => do
        let v ← Render.eval p.2
        return (Value.text p.1, v)
      let given ← (Value.putAll [] values).mapM fun e => do
        let t ← Render.convert e.2
        return (e.1, Value.text t)
      let s ← get
      let filled ← Render.work (s.catalog.translate (.text key) (.mapping given))
      modify fun s => { s with messages := filled.messages.reverse ++ s.messages }
      return filled.text) := by
    simp only [Render.parameters, Render.translate, Render.convertParameters, bind_assoc, pure_bind,
      mappingEntries_orEmpty]
    rfl
  have hvalues : Follows (Shows env)
      (params.mapM fun p => do
        let v ← Render.eval p.2
        return (Value.text p.1, v))
      (params.mapM fun p => do
        let v ← Direct.eval env p.2
        return (Value.text p.1, v)) fun _ => Shows env := by
    apply follows_mapM
    exact fun p => follows_bind (follows_eval p.2) fun v => follows_pure fun _ _ h => h
  have hgiven : ∀ es : Entries, Follows (Shows env)
      (es.mapM fun e => do
        let t ← Render.convert e.2
        return (e.1, Value.text t))
      (es.mapM fun e => do
        let t ← outputText env.escaping e.2
        return (e.1, Value.text t)) fun _ => Shows env := by
    intro es
    apply follows_mapM
    exact fun e => follows_bind (follows_convert e.2) fun t => follows_pure fun _ _ h => h
  rw [hx, Direct.phrase?]
  refine follows_bind hvalues fun values => follows_bind (hgiven _) fun given => ?_
  intro s page h
  rw [run_bind, run_get]
  simp only [h.catalog]
  refine follows_bind (follows_work (env.catalog.translate (.text key) (.mapping given))) (fun filled => ?_) s page h
  intro s page h
  show Same _ (.ok filled.text, { s with messages := filled.messages.reverse ++ s.messages })
    (.ok filled.text, { page with messages := page.messages ++ filled.messages })
  refine .ok (h.kept ⟨rfl, rfl, rfl, rfl, rfl, rfl, rfl, rfl⟩ h.output h.sections ?_ h.asked)
  simp [h.messages]

/-- a phrase around a body -/
theorem follows_phraseBlock {b : Block} {body : Direct Unit}
    (hb : Follows (Shows env) (b.run false) body fun _ => Shows env)
    (key : Text) (params : List (Text × Expr)) (n : Nat) :
    Follows (Shows env) (((Opening.phrase key params).block n b).run false)
      (do match ← Direct.phrase? env key params with
          | some t => Direct.write t
          | none => body) fun _ => Shows env := by
  have hx : ((Opening.phrase key params).block n b).run false = (do
      let t ← (do let es ← Render.parameters params; Render.translate (.text key) (.mapping es))
      Render.setTemporary (n + 1) (.text t)
      (Block.nest (.whenText (n + 1)) (.step (.writeText (n + 1)) .done)
        (.nest .otherwise (.step .pass b) .done)).run false) := by
    simp only [Opening.block, Block.run_step, Render.exec, bind_assoc]
  rw [hx]
  refine follows_bind (follows_phrase key params) fun t => follows_setTemporary ?_
  rintro s page ⟨h, ht⟩
  rw [Block.run, run_bind, run_textOf ht]
  cases t with
  | some t =>
    have hrun : (do
        (Block.step (.writeText (n + 1)) .done).run false
        (Block.nest .otherwise (.step .pass b) .done).run true) = (Render.exec (.writeText (n + 1))) := by
      simp [Block.run]
    simp only [Option.isSome_some, if_true, hrun, Render.exec]
    rw [run_bind, run_textOf ht]
    exact follows_write t s page h
  | none =>
    have hrun : (Block.nest .otherwise (.step .pass b) .done).run false = b.run false := by
      simp [Block.run, Render.exec]
    simp only [Option.isSome_none, Bool.false_eq_true, if_false, hrun]
    exact hb s page h

/-! ## Sections and forms -/

theorem find?_captures (s : State) (captures : List (List Text)) (output : List Text) (sections : List (Text × Text))
    (name : Text) :
    State.find? { s with captures := captures, output := output, sections := sections } name = s.find? name := by
  apply State.find?_congr <;> rfl

/-- a section around a body -/
theorem follows_capture {b : Block} {body : Direct Unit} (hk : Keeps (b.run false))
    (hb : Follows (Shows env) (b.run false) body fun _ => Shows env) (name : Text) (n : Nat) :
    Follows (Shows env) (((Opening.capture name).block n b).run false) (Direct.capture name body)
      fun _ => Shows env := by
  have hx : ((Opening.capture name).block n b).run false = (do
      modify State.captureBegin
      b.run false
      let _ ← Render.captureEnd name) := by
    simp only [Opening.block, Block.run_step, Block.run_append _ _ (Block.plain_step _ _), Render.exec, bind_assoc,
      Block.run, bind_pure_unit]
  intro s page h
  rw [hx, Direct.capture, run_bind, run_bind, run_modify, run_get]
  simp only
  rw [run_bind (set _), run_set]
  -- the body begins on an empty page, inside the capture
  have hopen : Shows env s.captureBegin { page with output := [] } :=
    { h with names := fun name => (find?_captures s _ _ _ name).trans (h.names name), output := rfl }
  refine follows_bind (hb.and hk s.captureBegin) (fun _ => ?_) _ _ ⟨hopen, .refl _⟩
  rintro s' page' ⟨h', hkept⟩
  have hcaptures : s'.captures = s.output :: s.captures := hkept.captures
  have hend : (do let _ ← Render.captureEnd name : Render Unit).run.run s' =
      (.ok (), { s' with captures := s.captures, output := s'.result :: s.output,
                         sections := putAt name s'.result s'.sections }) := by
    simp only [Render.captureEnd, bind_assoc]
    rw [run_bind, run_get]
    simp only [State.captureEnd?, hcaptures]
    rfl
  rw [hend]
  refine .ok { h' with names := fun name => ?_, output := ?_, sections := ?_ }
  · exact (find?_captures s' _ _ _ name).trans (h'.names name)
  · simp [h.output, h'.output, State.result, Text.cat]
  · simp [h'.output, h'.sections]

theorem run_form {s : State} {f : Form} {forms : List Form} (h : s.forms = f :: forms) :
    Render.form.run.run s = (.ok f, s) := by
  unfold Render.form
  rw [run_bind, run_get]
  simp only [h]
  rfl

/-- the names inside a form -/
theorem names_inForm {s s' : State} {page : Page} (h : Shows env s page) {f : Form} (hs : (s.inForm f).Kept s')
    (name : Text) : s'.find? name = (env.inForm f).find? name := by
  have hforms : s'.shown .form = Form.value (f :: env.forms) := by
    rw [State.shown, hs.forms, State.inForm, State.withForm, h.forms]
  have hrest : name ≠ "form".toList → s'.findFrom name s.scope = env.find? name := fun hname => by
    rw [← h.names name]
    exact State.findFrom_congr (s := s) hs.data (fun _ => hs.loops) (fun heq => absurd heq hname) s.scope
  have hlayers : s'.find? name =
      (if name = "form".toList then some (s'.shown .form) else s'.findFrom name s.scope) := by
    rw [State.find?, hs.scope]
    exact State.findFrom_cons s' name ⟨.form, []⟩ s.scope
  rw [hlayers, Env.inForm, Env.find?_cons, Env.getAt?_layer_nil, hforms]
  by_cases hname : name = "form".toList
  · rw [if_pos hname, if_pos hname]
    rfl
  · rw [if_neg hname, if_neg hname, hrest hname]
    rfl

/-- a form around a body -/
theorem follows_form {b : Block} {body : Env → Direct Unit} (hk : Keeps (b.run false))
    (hb : ∀ env, Follows (Shows env) (b.run false) (body env) fun _ => Shows env) (e : Expr) (name : Text)
    (attributes : Attributes) (n : Nat) :
    Follows (Shows env) (((Opening.form e name attributes).block n b).run false)
      (Opening.direct env body (.form e name attributes)) fun _ => Shows env := by
  have hx : ((Opening.form e name attributes).block n b).run false = (do
      let v ← Render.eval e
      let f ← Render.makeForm v name attributes.toValue
      modify fun s => { s with forms := f :: s.forms }
      Render.exec .writeFormOpen
      Render.exec .scopeForm
      b.run false
      Render.exec .writeFormClose
      Render.exec .scopeClose
      Render.exec .formClose) := by
    have hopen : Render.exec (.formOpen e name attributes) = (do
        let v ← Render.eval e
        let f ← Render.makeForm v name attributes.toValue
        modify fun s => { s with forms := f :: s.forms }) := rfl
    simp only [Opening.block, Block.run_step, Block.run_append _ _ (Block.plain_step _ _), hopen, bind_assoc, Block.run,
      bind_pure_unit]
  rw [hx, Opening.direct]
  refine follows_bind (follows_eval e) fun v => follows_bind (follows_makeForm v name _) fun f => ?_
  intro s page h
  -- the opening tag is written while the form has no layer yet
  have htag : (Render.exec .writeFormOpen).run.run (s.withForm f) =
      (do let t ← liftM (f.openTag .none); Render.write t : Render Unit).run.run (s.withForm f) := by
    simp only [Render.exec]
    rw [run_bind, run_form (s := s.withForm f) rfl]
  have hmodify : (modify fun s => { s with forms := f :: s.forms } : Render PUnit).run.run s =
      (.ok ⟨⟩, s.withForm f) := rfl
  rw [run_bind, hmodify]
  simp only
  rw [run_bind, htag, run_bind, run_lift, run_bind, run_lift]
  cases f.openTag .none with
  | error e => exact .error h.messages
  | ok t =>
    have hout : (Render.write t).run.run (s.withForm f) = (.ok (), { s.withForm f with output := t :: s.output }) := rfl
    have hscope : (Render.exec .scopeForm).run.run { s.withForm f with output := t :: s.output } =
        (.ok (), { s.inForm f with output := t :: s.output }) := rfl
    have hwrite : (Direct.write t).run.run page = (.ok (), { page with output := page.output ++ t }) := rfl
    simp only
    rw [hout, run_bind, hwrite]
    simp only
    rw [run_bind, hscope]
    have hkept : (s.inForm f).Kept { s.inForm f with output := t :: s.output } :=
      ⟨rfl, rfl, rfl, rfl, rfl, rfl, rfl, rfl⟩
    have hinside : Shows (env.inForm f) { s.inForm f with output := t :: s.output }
        { page with output := page.output ++ t } := by
      refine ⟨h.data, h.catalog, h.mappings, h.escaping, h.loops, ?_, names_inForm h hkept, ?_, h.sections, h.messages,
        h.asked⟩
      · simp [State.inForm, State.withForm, Env.inForm, h.forms]
      · simp [State.result, h.output, Text.cat]
    refine follows_bind ((hb (env.inForm f)).and hk (s.inForm f)) (fun _ => ?_) _ _ ⟨hinside, hkept⟩
    rintro s' page' ⟨h', hkept'⟩
    have hend : (do
        Render.exec .writeFormClose
        Render.exec .scopeClose
        Render.exec .formClose : Render Unit).run.run s' =
        (.ok (), { s' with output := Form.closeTag :: s'.output, scope := s.scope, forms := s.forms }) := by
      have hforms : s'.forms = f :: s.forms := hkept'.forms
      have hscope' : s'.scope = ⟨.form, []⟩ :: s.scope := hkept'.scope
      simp only [Render.exec, bind_assoc]
      rw [run_bind, run_form hforms]
      show (Except.ok (), { s' with output := Form.closeTag :: s'.output, scope := s'.scope.drop 1,
                                    forms := s'.forms.drop 1 }) = (Except.ok (), _)
      rw [hscope', hforms]
      rfl
    have hclose : (Direct.write Form.closeTag).run.run page' =
        (.ok (), { page' with output := page'.output ++ Form.closeTag }) := rfl
    rw [hend, hclose]
    refine .ok (h.kept ⟨hkept'.data, hkept'.catalog, hkept'.mappings, hkept'.escaping, rfl, hkept'.loops, rfl,
      hkept'.captures⟩ ?_ h'.sections h'.messages h'.asked)
    simp [h'.output, State.result, Text.cat]

/-! ## Loops -/

/-- between two iterations: the loop is at the iteration to come, its layer holds no names but its own, and all other
names are those around it -/
structure Between (names : List Text) (count : Nat) (outer : State) (index : Nat) (s : State) (page : Page) : Prop where
  positive : 1 ≤ index
  kept : ∃ last even odd key es,
    (outer.inLoop (⟨⟨index, count, index == 1, last, even, odd⟩, key⟩, es)).Kept s ∧
      ∀ name, name ∉ names.take 2 → Value.find? (.text name) es = none
  output : page.output = s.result
  sections : page.sections = s.sections
  messages : page.messages = s.messages.reverse
  asked : page.asked = s.asked

/-- the names of an iteration bound -/
def Env.bound (names : List Text) (e : Value × Value) (es : Entries) : Entries :=
  (Env.bindings names e).foldl (fun es p => Value.put (.text p.1) p.2 es) es

/-- the layer of an iteration: the names that are bound, and `loop` -/
theorem find?_bound {names : List Text} {es : Entries}
    (hes : ∀ name, name ∉ names.take 2 → Value.find? (.text name) es = none) (e : Value × Value) (v : Value)
    (name : Text) :
    (Value.find? (.text name) (Env.bound names e es)).or (if name = "loop".toList then some v else none) =
      getAt? name (Env.layer "loop" v (Env.bindings names e)) := by
  have hown : getAt? name [("loop".toList, v)] = if name = "loop".toList then some v else none :=
    Env.getAt?_layer_nil _ name v
  have hrest := hes name
  match names with
  | [] =>
    simp only [Env.bound, Env.bindings, Env.layer, List.foldl_nil]
    rw [hown, hrest (by simp), Option.none_or]
  | [n] =>
    simp only [Env.bound, Env.bindings, Env.layer, List.foldl_cons, List.foldl_nil, Value.find?_put, getAt?_putAt]
    rw [hown]
    by_cases hn : name = n
    · simp [hn]
    · have hne : (n == name) = false := by simpa using Ne.symm hn
      simp [hn, hne, hrest]
  | n :: m :: more =>
    simp only [Env.bound, Env.bindings, Env.layer, List.foldl_cons, List.foldl_nil, Value.find?_put, getAt?_putAt]
    rw [hown]
    by_cases hm : name = m
    · simp [hm]
    · have hne : (m == name) = false := by simpa using Ne.symm hm
      by_cases hn : name = n
      · subst hn
        simp [hm, hne]
      · have hne' : (n == name) = false := by simpa using Ne.symm hn
        simp [hm, hne, hn, hne', hrest]

/-- the names that an iteration binds hold no other name -/
theorem find?_bound_of_notMem {names : List Text} {es : Entries}
    (hes : ∀ name, name ∉ names.take 2 → Value.find? (.text name) es = none) (e : Value × Value) (name : Text)
    (hname : name ∉ names.take 2) : Value.find? (.text name) (Env.bound names e es) = none := by
  have hnone := hes name hname
  match names with
  | [] => exact hnone
  | [n] =>
    simp only [List.take, List.mem_singleton] at hname
    simp [Env.bound, Env.bindings, Value.find?_put, hname, hnone]
  | n :: m :: more =>
    simp only [List.take, List.mem_cons, List.not_mem_nil, or_false, not_or] at hname
    simp [Env.bound, Env.bindings, Value.find?_put, hname, hnone]

theorem run_value {s : State} {n : Nat} {v : Value} (h : getAt? n s.temporaries = some (.value v)) :
    (Render.value n).run.run s = (.ok v, s) := by
  unfold Render.value
  rw [run_bind, run_temporary h]
  rfl

/-- the names of a loop bound in its layer -/
theorem run_loopBinds {s : State} {l : Layer} {ls : List Layer} (hscope : s.scope = l :: ls) {key item : Nat}
    {e : Value × Value} (hkey : getAt? key s.temporaries = some (.value e.1))
    (hitem : getAt? item s.temporaries = some (.value e.2)) (names : List Text) :
    ((Block.steps (Directive.loopBinds names key item)).run false).run.run s =
      (.ok (), { s with scope := { l with names := Env.bound names e l.names } :: ls }) := by
  have hbind : ∀ {s' : State} {half : Half} {n : Nat} {v : Value} {l' : Layer} (name : Text),
      (half = .key n ∨ half = .item n) → getAt? n s'.temporaries = some (.value v) → s'.scope = l' :: ls →
      (Render.exec (.bind name half)).run.run s' =
        (.ok (), { s' with scope := { l' with names := Value.put (.text name) v l'.names } :: ls }) := by
    intro s' half n v l' name hhalf hv hscope'
    rcases hhalf with rfl | rfl
    all_goals
      simp only [Render.exec]
      rw [run_bind, run_value hv]
      simp only [run_modify, State.bind, hscope']
  rcases names with _ | ⟨n, _ | ⟨m, more⟩⟩
  · show (Except.ok (), s) = (Except.ok (), { s with scope := l :: ls })
    rw [← hscope]
  · show ((Block.step (.bind n (.item item)) .done).run false).run.run s = _
    rw [Block.run_step, run_bind, hbind n (.inr rfl) hitem hscope]
    rfl
  · show ((Block.step (.bind n (.key key)) (.step (.bind m (.item item)) .done)).run false).run.run s = _
    rw [Block.run_step, run_bind, hbind n (.inl rfl) hkey hscope]
    simp only
    rw [Block.run_step, run_bind, hbind m (.inr rfl) ?_ rfl]
    · rfl
    · exact hitem

theorem run_changeLoop {s : State} {l : Loop} {ls : List Loop} (h : s.loops = l :: ls) (g : Loop → Loop) :
    (Render.changeLoop g).run.run s = (.ok (), { s with loops := g l :: ls }) := by
  unfold Render.changeLoop
  rw [run_bind, run_get]
  simp only [h]
  rfl

/-- the names inside an iteration of a loop -/
theorem names_inLoop {outer s : State} {page : Page} (h : Shows env outer page) {names : List Text} {es : Entries}
    (hes : ∀ name, name ∉ names.take 2 → Value.find? (.text name) es = none) {count index : Nat} {e : Value × Value}
    (hs : (outer.inLoop (⟨Env.facts count index, e.1⟩, Env.bound names e es)).Kept s) (name : Text) :
    s.find? name = (env.inLoop names count index e).find? name := by
  have hloops : s.shown .loop = Loop.value (⟨Env.facts count index, e.1⟩ :: env.loops) := by
    rw [State.shown, hs.loops, State.inLoop, State.withLoop, h.loops]
  have hrest : name ≠ "loop".toList → s.findFrom name outer.scope = env.find? name := fun hname => by
    rw [← h.names name]
    exact State.findFrom_congr (s := outer) hs.data (fun heq => absurd heq hname) (fun _ => hs.forms) outer.scope
  have hlayers : s.find? name = (Value.find? (.text name) (Env.bound names e es)).or
      (if name = "loop".toList then some (s.shown .loop) else s.findFrom name outer.scope) := by
    rw [State.find?, hs.scope]
    exact State.findFrom_cons s name ⟨.loop, Env.bound names e es⟩ outer.scope
  rw [hlayers, Env.inLoop, Env.find?_cons, ← find?_bound hes, Option.or_assoc, hloops]
  by_cases hname : name = "loop".toList
  · rw [if_pos hname, if_pos hname, Option.some_or]
  · rw [if_neg hname, if_neg hname, hrest hname, Option.none_or]

/-- the loop as an iteration begins -/
theorem enter_facts (count index : Nat) (last even odd : Bool) (key key' : Value) :
    Loop.enter key ⟨⟨index, count, index == 1, last, even, odd⟩, key'⟩ = ⟨Env.facts count index, key⟩ := by
  have hlast : ((index : Int) == (count : Int)) = (index == count) := by
    rw [Bool.eq_iff_iff, beq_iff_eq, beq_iff_eq, Int.natCast_inj]
  have heven : ((index : Int) % 2 == 0) = (index % 2 == 0) := by
    rw [Bool.eq_iff_iff, beq_iff_eq, beq_iff_eq]
    omega
  have hodd : (!(index % 2 == 0)) = (index % 2 == 1) := by
    rw [Bool.eq_iff_iff, Bool.not_eq_true', beq_eq_false_iff_ne, beq_iff_eq]
    omega
  simp only [Loop.enter, Env.facts, hlast, heven, hodd]

/-- the loop as an iteration ends -/
theorem advance_facts {index : Nat} (hindex : 1 ≤ index) (count : Nat) (key : Value) :
    Loop.advance ⟨Env.facts count index, key⟩ =
      ⟨⟨(index + 1 : Nat), count, index + 1 == 1, index == count, index % 2 == 0, index % 2 == 1⟩, key⟩ := by
  have hfirst : (index + 1 == 1) = false := by
    rw [beq_eq_false_iff_ne]
    omega
  simp only [Loop.advance, Env.facts, hfirst, Int.natCast_add, Int.cast_ofNat_Int]

/-- **One iteration** of a loop runs its body in a layer with the loop and its names. -/
theorem follows_iteration {b : Block} {body : Env → Direct Unit} (hp : b.Plain) (hk : Keeps (b.run false))
    (hb : ∀ env, Follows (Shows env) (b.run false) (body env) fun _ => Shows env) {outer : State} {page₀ : Page}
    (h₀ : Shows env outer page₀) (names : List Text) (count n index : Nat) (e : Value × Value) :
    Follows (Between names count outer index)
      (do
        Render.setTemporary (n + 2) (.value e.1)
        Render.setTemporary (n + 3) (.value e.2)
        (Opening.iteration names (n + 2) (n + 3) b).run false)
      (body (env.inLoop names count index e)) fun _ => Between names count outer (index + 1) := by
  intro s page h
  obtain ⟨last, even, odd, key, es, hs, hes⟩ := h.kept
  have hloops : s.loops = ⟨⟨index, count, index == 1, last, even, odd⟩, key⟩ :: outer.loops := hs.loops
  have hscope : s.scope = ⟨.loop, es⟩ :: outer.scope := hs.scope
  let held := putAt (n + 3) (Temporary.value e.2) (putAt (n + 2) (Temporary.value e.1) s.temporaries)
  have hkey : getAt? (n + 2) held = some (.value e.1) := by
    have hne : (n + 3 == n + 2) = false := by simp
    simp only [held, getAt?_putAt, hne, beq_self_eq_true, Bool.false_eq_true, if_false, if_true]
  have hitem : getAt? (n + 3) held = some (.value e.2) := by
    simp only [held, getAt?_putAt, beq_self_eq_true, if_true]
  -- the state in which the body begins
  let inside : State :=
    { s with temporaries := held, loops := ⟨Env.facts count index, e.1⟩ :: outer.loops,
             scope := ⟨.loop, Env.bound names e es⟩ :: outer.scope }
  have hbegin : (do
      Render.setTemporary (n + 2) (.value e.1)
      Render.setTemporary (n + 3) (.value e.2)
      (Opening.iteration names (n + 2) (n + 3) b).run false).run.run s =
      (do b.run false; Render.exec .iterationEnd).run.run inside := by
    rw [run_iteration hp]
    show (do
      Render.exec (.iterationBegin (n + 2))
      (Block.steps (Directive.loopBinds names (n + 2) (n + 3))).run false
      b.run false
      Render.exec .iterationEnd : Render Unit).run.run { s with temporaries := held } = _
    simp only [Render.exec, bind_assoc]
    rw [run_bind, run_value hkey]
    simp only
    rw [run_bind, run_changeLoop (s := { s with temporaries := held }) hloops, enter_facts]
    simp only
    let entered : State := { s with temporaries := held, loops := ⟨Env.facts count index, e.1⟩ :: outer.loops }
    rw [run_bind, run_loopBinds (s := entered) (l := ⟨.loop, es⟩) hscope hkey hitem]
  have hkept : (outer.inLoop (⟨Env.facts count index, e.1⟩, Env.bound names e es)).Kept inside :=
    ⟨hs.data, hs.catalog, hs.mappings, hs.escaping, rfl, rfl, hs.forms, hs.captures⟩
  have hshows : Shows (env.inLoop names count index e) inside page := by
    refine ⟨hs.data.trans h₀.data, hs.catalog.trans h₀.catalog, hs.mappings.trans h₀.mappings,
      hs.escaping.trans h₀.escaping, ?_, hs.forms.trans h₀.forms, names_inLoop h₀ hes hkept, h.output, h.sections,
      h.messages, h.asked⟩
    simp only [inside, Env.inLoop, h₀.loops]
  rw [hbegin]
  refine Follows.finish ((hb (env.inLoop names count index e)).and hk inside) (fun s' page' ⟨h', hkept'⟩ => ?_)
    inside page ⟨hshows, .refl _⟩
  have hall := hkept.trans hkept'
  refine ⟨_, run_changeLoop hkept'.loops Loop.advance, ?_⟩
  rw [advance_facts h.positive]
  exact ⟨Nat.le_succ_of_le h.positive, ⟨_, _, _, e.1, Env.bound names e es, ⟨hall.data, hall.catalog, hall.mappings,
    hall.escaping, hall.scope, rfl, hall.forms, hall.captures⟩, find?_bound_of_notMem hes e⟩, h'.output, h'.sections,
    h'.messages, h'.asked⟩

theorem run_entries {s : State} {n : Nat} {es : Entries} (h : getAt? n s.temporaries = some (.entries es)) :
    (Render.entries n).run.run s = (.ok es, s) := by
  unfold Render.entries
  rw [run_bind, run_temporary h]
  rfl

/-- the loop opened, before its first iteration -/
theorem between_start {s : State} {page : Page} (h : Shows env s page) (names : List Text) (es : Entries) :
    Between names es.length s 1 (s.inLoop (Loop.start es.length, [])) page where
  positive := Nat.le_refl 1
  kept := ⟨false, false, true, .none, [], ⟨rfl, rfl, rfl, rfl, rfl, rfl, rfl, rfl⟩, fun _ _ => rfl⟩
  output := h.output
  sections := h.sections
  messages := h.messages
  asked := h.asked

theorem follows_reached (path : List Segment) :
    Follows (Shows env) (Render.reached path) (Direct.reached env path) fun _ => Shows env :=
  follows_known (fun s _ => reaches s.reach path) (fun _ _ _ => rfl) fun s page h => by
    rw [h.reach]
    rfl

theorem follows_holds (c : Condition) :
    Follows (Shows env) (Render.holds c) (Direct.holds env c) fun _ => Shows env :=
  follows_known (fun s _ => c.eval s.reach) (fun _ _ _ => rfl) fun s page h => by
    rw [h.reach]
    rfl

/-- a loop around a body -/
theorem follows_loop {b : Block} {body : Env → Direct Unit} (hp : b.Plain) (hk : Keeps (b.run false))
    (hb : ∀ env, Follows (Shows env) (b.run false) (body env) fun _ => Shows env) (names : List Text)
    (path : List Segment) (e : Expr) (n : Nat) :
    Follows (Shows env) (((Opening.loop names path e).block n b).run false)
      (Opening.direct env body (.loop names path e)) fun _ => Shows env := by
  have hx : ((Opening.loop names path e).block n b).run false = (do
      let r ← Render.reached path
      if r then (do
        let v ← Render.eval e
        let es ← Render.work v.pairs
        Render.setTemporary (n + 1) (.entries es)
        Render.exec (.loopOpen (n + 1))
        Render.exec .scopeLoop
        let es ← Render.entries (n + 1)
        es.forM fun p => do
          Render.setTemporary (n + 2) (.value p.1)
          Render.setTemporary (n + 3) (.value p.2)
          (Opening.iteration names (n + 2) (n + 3) b).run false
        Render.exec .scopeClose
        Render.exec .loopClose) else pure ()) := by
    have hiterate : Render.exec (.iterate (n + 1) e) = (do
        let v ← Render.eval e
        let es ← Render.work v.pairs
        Render.setTemporary (n + 1) (.entries es)) := rfl
    simp only [Opening.block, Block.run_whenReached, Opening.iteration, Block.run, hiterate, bind_assoc, bind_pure_unit]
  rw [hx, Opening.direct]
  refine follows_bind (follows_reached path) fun r => ?_
  cases r with
  | false => exact follows_pure fun _ _ h => h
  | true =>
    simp only [if_true]
    refine follows_bind (follows_eval e) fun v => follows_bind (follows_work _) fun es => follows_setTemporary ?_
    rintro s page ⟨h, hes⟩
    have hopen : (Render.exec (.loopOpen (n + 1))).run.run s = (.ok (), s.withLoop (Loop.start es.length)) := by
      simp only [Render.exec]
      rw [run_bind, run_entries hes]
      rfl
    have hscope : (Render.exec .scopeLoop).run.run (s.withLoop (Loop.start es.length)) =
        (.ok (), s.inLoop (Loop.start es.length, [])) := rfl
    rw [run_bind, hopen]
    simp only
    rw [run_bind, hscope]
    simp only
    rw [run_bind, run_entries (s := s.inLoop (Loop.start es.length, [])) hes]
    simp only
    refine Follows.finish (follows_forM (fun i p => follows_iteration hp hk hb h names es.length n i p) es 1)
      (fun s' page' h' => ?_) _ page (between_start h names es)
    obtain ⟨_, _, _, _, _, hs, -⟩ := h'.kept
    have hscope' : s'.scope.drop 1 = s.scope := by
      rw [hs.scope]
      rfl
    have hloops' : s'.loops.drop 1 = s.loops := by
      rw [hs.loops]
      rfl
    exact ⟨_, rfl, h.kept ⟨hs.data, hs.catalog, hs.mappings, hs.escaping, hscope', hloops', hs.forms, hs.captures⟩
      h'.output h'.sections h'.messages h'.asked⟩

/-! ## Passages -/

/-- **A construct** does in the program what it does directly, if its body does in every environment. -/
theorem follows_opening (o : Opening) {b : Block} {body : Env → Direct Unit} (hp : b.Plain) (hk : Keeps (b.run false))
    (hb : ∀ env, Follows (Shows env) (b.run false) (body env) fun _ => Shows env) (n : Nat) :
    Follows (Shows env) ((o.block n b).run false) (o.direct env body) fun _ => Shows env := by
  cases o with
  | loop names path e => exact follows_loop hp hk hb names path e n
  | capture name => exact follows_capture hk (hb env) name n
  | form e name attributes => exact follows_form hk hb e name attributes n
  | phrase key params => exact follows_phraseBlock (hb env) key params n

end

/-- branches after one that has run are passed over -/
theorem run_choices_ran (more : Choices) (n : Nat) : (more.block n).run true = pure () := by
  cases more with
  | none => rfl
  | elsewhen _ body more => exact run_choices_ran more (n + body.temporaries)
  | otherwise _ => rfl

mutual

/-- **A passage** does in the program what it does directly. -/
theorem follows_passage : ∀ (p : Passage) (n : Nat) (env : Env),
    Follows (Shows env) ((p.block n).run false) (p.direct env) fun _ => Shows env
  | .done, _, _ => by
    rw [Passage.direct]
    exact follows_pure fun _ _ h => h
  | .act a rest, n, env => by
    rw [Passage.block, Passage.direct, Block.run_append _ _ (plain_passage rest n)]
    exact follows_bind (follows_act a) fun _ => follows_passage rest n env
  | .construct o body rest, n, env => by
    rw [Passage.block, Passage.direct, Block.run_append _ _ (plain_passage rest _)]
    exact follows_bind
      (follows_opening o (plain_passage body _) (keeps_passage body _) (fun env => follows_passage body _ env) n)
      fun _ => follows_passage rest _ env
  | .choice c body more rest, n, env => by
    have hx : ((Passage.choice c body more rest).block n).run false = (do
        let b ← Render.holds c
        (do if b then (body.block n).run false
            (more.block (n + body.temporaries)).run b)
        (rest.block (n + body.temporaries + more.temporaries)).run false) := by
      simp only [Passage.block, Block.run_when, Block.run_step, Block.run_append _ _ (plain_passage rest _),
        Render.exec,
        pure_bind]
      refine bind_congr fun b => ?_
      cases b <;> simp
    rw [hx, Passage.direct]
    refine follows_bind (follows_holds c) fun b => ?_
    cases b with
    | true =>
      simp only [if_true, run_choices_ran, bind_pure_unit]
      exact follows_bind (follows_passage body n env) fun _ => follows_passage rest _ env
    | false =>
      simp only [Bool.false_eq_true, if_false]
      exact follows_bind (follows_choices more _ env) fun _ => follows_passage rest _ env

/-- the branches of a conditional of which none has run yet -/
theorem follows_choices : ∀ (more : Choices) (n : Nat) (env : Env),
    Follows (Shows env) ((more.block n).run false) (more.direct env) fun _ => Shows env
  | .none, _, _ => by
    rw [Choices.direct]
    exact follows_pure fun _ _ h => h
  | .elsewhen c body more, n, env => by
    have hx : ((Choices.elsewhen c body more).block n).run false = (do
        let b ← Render.holds c
        if b then (body.block n).run false
        (more.block (n + body.temporaries)).run b) := by
      simp only [Choices.block, Block.run_elsewhen, Block.run_step, Render.exec, pure_bind]
    rw [hx, Choices.direct]
    refine follows_bind (follows_holds c) fun b => ?_
    cases b with
    | true =>
      simp only [if_true, run_choices_ran, bind_pure_unit]
      exact follows_passage body n env
    | false =>
      simp only [Bool.false_eq_true, if_false]
      exact follows_choices more _ env
  | .otherwise body, n, env => by
    have hx : ((Choices.otherwise body).block n).run false = (body.block n).run false := by
      simp only [Choices.block, Block.run, Render.exec, pure_bind, Bool.not_false, if_true, bind_pure_unit]
    rw [hx, Choices.direct]
    exact follows_passage body n env

end

/-! ## Templates -/

namespace Compiler

/-- a render of the program of a passage is a render of the passage -/
theorem render_of_program {t : Template} {p : Passage} {n : Nat} (ht : t.program = p.block n) (data : Value)
    (values : List (Text × Value)) (phrases : Phrases) (mappings : Value) :
    t.render data values phrases mappings = p.render t.escaping data values phrases mappings := by
  unfold Template.render Passage.render
  cases Template.scopeOf data values with
  | error e => rfl
  | ok es =>
    rcases phrases.toCatalog.run.run [] with ⟨r, asked⟩
    cases r with
    | error e => rfl
    | ok c =>
      have hstart : Shows ⟨es, c, mappings.orEmpty, t.escaping, [], [], []⟩
          (State.start es c mappings t.escaping asked) ⟨[], [], [], asked⟩ :=
        ⟨rfl, rfl, rfl, rfl, rfl, rfl, fun _ => rfl, rfl, rfl, rfl, rfl⟩
      have h := follows_passage p n _ _ _ hstart
      rw [← ht] at h
      simp only [Template.run]
      generalize (t.program.run false).run.run _ = u at h ⊢
      generalize (p.direct _).run.run _ = v at h ⊢
      cases h with
      | ok h => simp only [h.output, h.sections, h.messages]
      | error hm => simp only [hm]

/-- **A compiled template renders as the nested template does.** Its tokens derive from the grammar, and whatever
derivation is taken, the passage that is read from it renders with all data, phrases and mappings to the same text and
sections, or to the same failure, as the program of the template. -/
theorem render_eq_direct {s : Settings} {strict : Option Bool} {names : List Text} {source : Text} {t : Template}
    (h : (standard s strict names).compile source = .ok t) :
    (standard s strict names).scan source = .ok t.tokens ∧ (∃ n : Nested, n.tokens = t.tokens) ∧
    ∀ n : Nested, n.tokens = t.tokens → ∃ p, n.page (standard s strict names).mode [] = .ok p ∧
      t.program = readBlocks (programLines (p.fragments 0)) ∧
      ∀ data values phrases mappings,
        t.render data values phrases mappings = p.render s.escaping data values phrases mappings := by
  obtain ⟨n, hn, -, -⟩ := wellNested_of_compile h
  obtain ⟨ts, fs, c, hscan, -, -, ht, -⟩ := compile_ok h
  have htokens : t.tokens = ts := by rw [ht]; rfl
  have hescaping : t.escaping = s.escaping := by rw [ht]; rfl
  refine ⟨htokens ▸ hscan, ⟨n, hn⟩, fun n hn => ?_⟩
  obtain ⟨p, hp, -, hprogram⟩ := program_of_compile h hn
  refine ⟨p, hp, hprogram.trans (readBlocks_passage p).symm, fun data values phrases mappings => ?_⟩
  rw [render_of_program hprogram, hescaping]

/-- a loop with a branch in it renders as it is nested -/
theorem render_loop_direct :
    let source : Text :=
      "\x7b\x7b for a in b \x7d\x7d\x7b\x7b if a \x7d\x7dx\x7b\x7b endif \x7d\x7d\x7b\x7b endfor \x7d\x7d"
    let branch : Nested := .conditional ⟨.when, "if a", 16, 1⟩ rfl (.single ⟨.literal, "x", 26, 1⟩ rfl .done)
      (.stop ⟨.closing, "endif", 27, 1⟩ rfl) .done
    let n : Nested := .construct .loop (by decide) ⟨.loop, "for a in b", 0, 1⟩ rfl branch
      ⟨.closing, "endfor", 38, 1⟩ rfl .done
    ∃ t p, (standard .standard none []).compile source = .ok t ∧ n.tokens = t.tokens ∧
      n.page (standard .standard none []).mode [] = .ok p ∧
      ∀ data values phrases mappings,
        t.render data values phrases mappings = p.render true data values phrases mappings := by
  intro source branch n
  have hscan : ((standard .standard none []).scan source).toOption = some n.tokens := by decide +kernel
  have hok : ((standard .standard none []).compile source).toOption.isSome = true := by decide +kernel
  obtain ⟨t, ht⟩ := Option.isSome_iff_exists.1 hok
  have hcompile := eq_ok_of_toOption ht
  obtain ⟨htokens, -, h⟩ := render_eq_direct hcompile
  have hn : n.tokens = t.tokens := Except.ok.inj ((eq_ok_of_toOption hscan).symm.trans htokens)
  obtain ⟨p, hp, -, hrender⟩ := h n hn
  exact ⟨t, p, hcompile, hn, hp, hrender⟩

end Compiler

end Stencil
