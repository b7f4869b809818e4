/-
HIDDEN ATTRIBUTES. What a render does depends on what is seen of its data alone: in a state of which only that is left,
every statement does what it does in the state itself, so that hidden attributes are neither written nor decide over
anything. They may hold anything, in objects at any depth.

- `State.seen`: what is seen of a state; `State.reach_seen`: what a path reaches in it.
- `outputText_seen`: the text that is written for a value.
- `mirrors_exec`, `mirrors_run`: a statement, and a block.
- `render_eq_of_seen_eq`: data of which the same is seen give the same render.
-/
import Stencil.Proofs.Controls
import Stencil.Proofs.Kept
import Stencil.Proofs.Mirrored

namespace Stencil

open Value (seenEntry seenField)

/-! ## What is seen of a state -/

/-- what is seen of a loop -/
def Loop.seen (l : Loop) : Loop := { l with key := l.key.seen }

/-- what is seen of a layer of the scope -/
def Layer.seen (l : Layer) : Layer := { l with names := l.names.map seenEntry }

/-- what is seen of what a temporary holds -/
def Temporary.seen : Temporary → Temporary
  | entries es => entries (es.map seenEntry)
  | value v => value v.seen
  | text t => text t

/-- what is seen of a state -/
def State.seen (s : State) : State :=
  { s with
    data := s.data.map seenEntry
    mappings := s.mappings.seen
    scope := s.scope.map Layer.seen
    loops := s.loops.map Loop.seen
    forms := s.forms.map Form.seen
    temporaries := s.temporaries.map fun t => (t.1, t.2.seen) }

theorem Loop.value_seen (ls : List Loop) : (Loop.value ls).seen = Loop.value (ls.map Loop.seen) := by
  induction ls with
  | nil => rfl
  | cons l ls ih =>
    rw [List.map_cons, Loop.value, Loop.value, Value.seen, ih, List.length_map]
    rfl

namespace State

variable (s : State) (name : Text) (v : Value)

theorem shown_seen (k : Shown) : s.seen.shown k = (s.shown k).seen := by
  cases k with
  | loop => exact (Loop.value_seen s.loops).symm
  | form => exact (Form.value_seen s.forms).symm

theorem find?_seen : s.seen.find? name = (s.find? name).map Value.seen := by
  have hfrom (ls : List Layer) : s.seen.findFrom name (ls.map Layer.seen) = (s.findFrom name ls).map Value.seen := by
    induction ls with
    | nil => exact Value.find?_text_seen s.data name
    | cons l ls ih =>
      have hnames : Value.find? (.text name) l.seen.names = (Value.find? (.text name) l.names).map Value.seen :=
        Value.find?_text_seen l.names name
      rw [List.map_cons, findFrom, findFrom, ih, shown_seen, hnames]
      cases Value.find? (.text name) l.names with
      | some v => rfl
      | none =>
        show (if l.shown.name == name then _ else _) = Option.map _ (if l.shown.name == name then _ else _)
        split <;> rfl
  exact hfrom s.scope

/-- **What a path reaches** in what is seen of a state is seen of what it reaches in the state. -/
theorem reach_seen (path : List Segment) : s.seen.reach path = (s.reach path).map (Option.map Value.seen) := by
  cases path with
  | nil => rfl
  | cons segment rest =>
    cases segment with
    | index n => rfl
    | name root =>
      rw [reach, reach, find?_seen]
      cases s.find? root with
      | none => rfl
      | some v =>
        simp only [Option.map_some, Value.isMissing_seen, Value.reachAll_segments_seen]
        cases v.isMissing with
        | true => rfl
        | false =>
          cases v.reachAll (rest.map Segment.toValue) with
          | error e => rfl
          | ok found =>
            cases found with
            | none => rfl
            | some w => exact congrArg (fun u => Except.ok (some u)) (Value.current_seen w s.asked)

theorem bind_seen : s.seen.bind name v.seen = (s.bind name v).seen := by
  unfold bind
  cases hscope : s.scope with
  | nil => simp only [seen, hscope, List.map_nil, Value.put_text_seen]
  | cons l ls => simp only [seen, hscope, List.map_cons, Layer.seen, Value.put_text_seen]

theorem captureEnd?_seen : s.seen.captureEnd? name = (s.captureEnd? name).map seen := by
  have hcaptures : s.seen.captures = s.captures := rfl
  unfold captureEnd?
  rw [hcaptures]
  cases s.captures <;> rfl

end State

/-! ## Expressions and conditions -/

section

variable {reach reach' : Reach} (h : ∀ path, reach' path = (reach path).map (Option.map Value.seen))

theorem seen_of_literal {l : Literal} {v : Value} (hl : l.eval = .ok v) : v.seen = v := by
  cases l with
  | float x => cases x <;> cases hl; rfl
  | _ => cases hl; rfl

include h

/-- **The value of an expression** is seen of the one that it has where more is reached. -/
theorem expr_eval_seen (e : Expr) : e.eval reach' = (e.eval reach).map Value.seen := by
  cases e with
  | literal l =>
    rw [Expr.eval, Expr.eval]
    cases hl : l.eval with
    | error e => rfl
    | ok v => exact congrArg Except.ok (seen_of_literal hl).symm
  | lookup path default =>
    rw [Expr.eval, Expr.eval, h]
    cases hd : default.eval with
    | error e => rfl
    | ok d =>
      cases reach path with
      | error e => rfl
      | ok found =>
        cases found with
        | none => exact congrArg Except.ok (seen_of_literal hd).symm
        | some v => rfl
  | demand path reference =>
    rw [Expr.eval, Expr.eval, h]
    cases reach path with
    | error e => rfl
    | ok found => cases found <;> rfl

theorem reaches_seen (path : List Segment) : reaches reach' path = reaches reach path := by
  rw [reaches, reaches, h]
  cases reach path with
  | error e => rfl
  | ok found =>
    cases found with
    | none => rfl
    | some v => exact congrArg (fun b => Except.ok !b) (Value.isNone_seen v)

theorem test_eval_seen (t : Test) : t.eval reach' = t.eval reach := by
  cases t with
  | truth e =>
    rw [Test.eval, Test.eval, expr_eval_seen h]
    cases e.eval reach with
    | error e => rfl
    | ok v => exact congrArg Except.ok (Value.truthy_seen v)
  | compare op l r =>
    rw [Test.eval, Test.eval, expr_eval_seen h, expr_eval_seen h]
    cases l.eval reach with
    | error e => rfl
    | ok a =>
      cases r.eval reach with
      | error e => rfl
      | ok b => exact congrArg Except.ok (Value.apply_seen a b op)

/-- **A condition holds** where only what is seen is reached if it holds where more is. -/
theorem condition_eval_seen (c : Condition) : c.eval reach' = c.eval reach := by
  have hclause (c : Clause) : c.eval reach' = c.eval reach := by rw [Clause.eval, Clause.eval, test_eval_seen h]
  have hrest (rest : List (Connective × Clause)) (b : Bool) : evalRest reach' b rest = evalRest reach b rest := by
    induction rest generalizing b with
    | nil => rfl
    | cons p rest ih =>
      obtain ⟨connective, c⟩ := p
      cases connective <;> simp only [evalRest, hclause, ih]
  simp only [Condition.eval, hclause, hrest]

end

/-! ## Output -/

/-- **The text written** for a value is the one for what is seen of it: whether an object says that it is markup is
seen. -/
theorem outputText_seen (escaping : Bool) (v : Value) : outputText escaping v.seen = outputText escaping v := by
  have hdisplay := Value.display_seen v
  cases v with
  | object id name fields =>
    have hmarked :
        (((fields.filter fun f => !Value.isHidden f.1).map seenField).any fun f => f.1 == "__html__".toList) =
          fields.any fun f => f.1 == "__html__".toList := by
      rw [List.any_map, List.any_filter]
      refine congrArg fields.any (funext fun f => ?_)
      by_cases hf : f.1 = "__html__".toList
      · simp [hf, Value.isHidden, seenField]
      · simp only [Function.comp_apply, seenField, beq_false_of_ne hf, Bool.and_false]
    rw [Value.seen_object] at hdisplay ⊢
    simp only [outputText, hmarked, hdisplay]
  | none => rfl
  | missing => rfl
  | markup s id => rfl
  | _ => exact congrArg (fun t => Except.ok (Text.escapeIf escaping t)) hdisplay

/-! ## Steps of a render -/

/-- work behind other work, given what kind of value that comes to -/
theorem mirrors_bind_gives {σ α β γ δ : Type} {g : σ → σ} {f : α → γ} {f' : β → δ} {T : α → Prop}
    {x : ExceptT Failure (StateM σ) α} {y : ExceptT Failure (StateM σ) γ} {k : α → ExceptT Failure (StateM σ) β}
    {l : γ → ExceptT Failure (StateM σ) δ} (h : Mirrors g f x y) (hx : Gives (fun _ => True) x T fun _ => True)
    (hk : ∀ a, T a → Mirrors g f' (k a) (l (f a))) : Mirrors g f' (x >>= k) (y >>= l) := by
  intro s
  rw [run_bind, run_bind, h s]
  rcases hrun : x.run.run s with ⟨r, s'⟩
  cases r with
  | error e => rfl
  | ok a => exact hk a (hx s trivial a s' hrun).1 s'

namespace Render

variable (n : Nat)

theorem mirrors_work {α γ : Type} {f : α → γ} {x : Work α} {y : Work γ} (h : Mirrors id f x y) :
    Mirrors State.seen f (work x) (work y) := by
  intro s
  rw [run_work, run_work]
  have hrun : y.run.run s.asked = ((x.run.run s.asked).1.map f, (x.run.run s.asked).2) := h s.asked
  show ((y.run.run s.asked).1, { s.seen with asked := (y.run.run s.asked).2 }) = _
  rw [hrun]
  rfl

theorem mirrors_eval (e : Expr) : Mirrors State.seen Value.seen (eval e) (eval e) :=
  mirrors_bind mirrors_get fun s => mirrors_lift (expr_eval_seen s.reach_seen e)

theorem mirrors_holds (c : Condition) : Mirrors State.seen id (holds c) (holds c) :=
  mirrors_bind mirrors_get fun s => mirrors_lift_same (condition_eval_seen s.reach_seen c)

theorem mirrors_reached (path : List Segment) : Mirrors State.seen id (reached path) (reached path) :=
  mirrors_bind mirrors_get fun s => mirrors_lift_same (reaches_seen s.reach_seen path)

theorem mirrors_write (t : Text) : Mirrors State.seen id (write t) (write t) := mirrors_modify fun _ => rfl

theorem mirrors_convert (v : Value) : Mirrors State.seen id (convert v) (convert v.seen) :=
  mirrors_bind mirrors_get fun s => mirrors_lift_same (outputText_seen s.escaping v)

theorem mirrors_temporary : Mirrors State.seen Temporary.seen (temporary n) (temporary n) := by
  refine mirrors_bind mirrors_get fun s => ?_
  have hget : getAt? n s.seen.temporaries = (getAt? n s.temporaries).map Temporary.seen := by
    simp only [State.seen, getAt?, List.find?_map, Function.comp_def, Option.map_map]
  rw [hget]
  cases getAt? n s.temporaries with
  | none => exact mirrors_throw _
  | some t => exact mirrors_pure rfl

theorem mirrors_setTemporary (t : Temporary) : Mirrors State.seen id (setTemporary n t) (setTemporary n t.seen) := by
  have hput (ts : List (Nat × Temporary)) :
      putAt n t.seen (ts.map fun t => (t.1, t.2.seen)) = (putAt n t ts).map fun t => (t.1, t.2.seen) := by
    induction ts with
    | nil => rfl
    | cons u ts ih =>
      rw [List.map_cons, putAt, putAt, ih]
      split <;> rfl
  refine mirrors_modify fun s => ?_
  simp only [State.seen, hput]

theorem mirrors_entries : Mirrors State.seen (List.map seenEntry) (entries n) (entries n) := by
  refine mirrors_bind (mirrors_temporary n) fun t => ?_
  cases t with
  | entries es => exact mirrors_pure rfl
  | value v => exact mirrors_throw _
  | text t => exact mirrors_throw _

theorem mirrors_value : Mirrors State.seen Value.seen (value n) (value n) := by
  refine mirrors_bind (mirrors_temporary n) fun t => ?_
  cases t with
  | entries es => exact mirrors_throw _
  | value v => exact mirrors_pure rfl
  | text t => exact mirrors_throw _

theorem mirrors_textOf : Mirrors State.seen id (textOf n) (textOf n) := by
  refine mirrors_bind (mirrors_temporary n) fun t => ?_
  cases t with
  | entries es => exact mirrors_throw _
  | value v => exact mirrors_throw _
  | text t => exact mirrors_pure rfl

theorem mirrors_form : Mirrors State.seen Form.seen form form := by
  refine mirrors_bind mirrors_get fun s => ?_
  have hforms : s.seen.forms = s.forms.map Form.seen := rfl
  rw [hforms]
  cases s.forms with
  | nil => exact mirrors_throw _
  | cons f fs => exact mirrors_pure rfl

theorem mirrors_changeLoop {change change' : Loop → Loop} (h : ∀ l : Loop, change' l.seen = (change l).seen) :
    Mirrors State.seen id (changeLoop change) (changeLoop change') := by
  refine mirrors_bind mirrors_get fun s => ?_
  have hloops : s.seen.loops = s.loops.map Loop.seen := rfl
  rw [hloops]
  cases s.loops with
  | nil => exact mirrors_throw _
  | cons l ls =>
    intro s'
    rw [List.map_cons]
    simp only [h]
    rfl

theorem mirrors_makeForm (entity : Value) (name : Text) (attributes : Value) :
    Mirrors State.seen Form.seen (makeForm entity name attributes) (makeForm entity.seen name attributes.seen) := by
  refine mirrors_bind mirrors_get fun s => ?_
  refine mirrors_bind (mirrors_lift (Value.get?_seen s.mappings (.text name))) fun mapping => ?_
  rw [Value.seen_getD _ Value.seen_none]
  exact mirrors_work (Form.mirrors_make entity name _ .none attributes s.escaping)

theorem mirrors_captureEnd (name : Text) : Mirrors State.seen id (captureEnd name) (captureEnd name) := by
  refine mirrors_bind mirrors_get fun s => ?_
  rw [State.captureEnd?_seen]
  cases s.captureEnd? name with
  | none => exact mirrors_throw _
  | some s' => exact mirrors_bind (mirrors_set s') fun _ => mirrors_pure rfl

/-! ## Phrases -/

/-- the parameters of a phrase stand under texts -/
theorem gives_parameters (params : List (Text × Expr)) :
    Gives (fun _ => True) (parameters params) Value.TextKeys fun _ => True := by
  have heval (e : Expr) : Gives (fun _ => True) (eval e) (fun _ => True) fun _ => True :=
    fun _ _ _ _ _ => ⟨trivial, trivial⟩
  exact gives_bind (gives_mapM fun p _ => gives_bind (heval p.2) fun _ _ => gives_pure rfl) fun es hes =>
    gives_pure (Value.textKeys_putAll (List.forall_mem_nil _) hes)

theorem mirrors_parameters (params : List (Text × Expr)) :
    Mirrors State.seen (List.map seenEntry) (parameters params) (parameters params) := by
  let read (p : Text × Expr) : Render (Value × Value) := do
    let v ← eval p.2
    return (Value.text p.1, v)
  have hread (p : Text × Expr) : Mirrors State.seen seenEntry (read p) (read (id p)) :=
    mirrors_bind (mirrors_eval p.2) fun _ => mirrors_pure rfl
  have hparams : Mirrors State.seen (List.map seenEntry) (params.mapM read) ((params.map id).mapM read) :=
    mirrors_mapM fun p _ => hread p
  rw [List.map_id] at hparams
  exact mirrors_bind hparams fun es => mirrors_pure (Value.putAll_seen [] es)

/-- parameters under texts are written in the same way -/
theorem mirrors_convertParameters {es : Entries} (h : Value.TextKeys es) :
    Mirrors State.seen id (convertParameters es) (convertParameters (es.map seenEntry)) := by
  have hes : Mirrors State.seen (List.map id) (convertParameters es) (convertParameters (es.map seenEntry)) := by
    refine mirrors_mapM fun e he => mirrors_bind (mirrors_convert e.2) fun t => mirrors_pure ?_
    rw [seenEntry, Value.seen_of_chars? e.1 (h e he)]
    rfl
  rwa [List.map_id_fun] at hes

/-- **A key translated** with parameters under texts is the same text. -/
theorem mirrors_translate (key : Value) {es : Entries} (h : Value.TextKeys es) :
    Mirrors State.seen id (translate key (.mapping es)) (translate key (.mapping (es.map seenEntry))) := by
  have hentries (es : Entries) : (Value.mapping es).orEmpty.mappingEntries = .ok es := by
    rw [Value.orEmpty_mapping]
    rfl
  have hgiven : Gives (fun _ => True)
      (liftM (Value.mapping es).orEmpty.mappingEntries : Render Entries) Value.TextKeys fun _ => True := by
    refine gives_lift fun es' hes' => ?_
    rw [hentries] at hes'
    cases hes'
    exact h
  have hsame : (Value.mapping (es.map seenEntry)).orEmpty.mappingEntries =
      (Value.mapping es).orEmpty.mappingEntries.map (List.map seenEntry) := by
    rw [hentries, hentries]
    rfl
  refine mirrors_bind_gives (mirrors_lift hsame) hgiven fun es hes =>
    mirrors_bind (mirrors_convertParameters hes) fun given => mirrors_bind mirrors_get fun s => ?_
  have htranslate (w : Work Catalog.Filled) : Mirrors State.seen id (work w) (work w) :=
    mirrors_work fun asked => by rw [Except.map_id]; rfl
  exact mirrors_bind (htranslate _) fun t => mirrors_bind (mirrors_modify fun _ => rfl) fun _ => mirrors_pure rfl

/-! ## Statements and blocks -/

theorem seen_attributes (a : Attributes) : a.toValue.seen = a.toValue := by
  simp [Attributes.toValue, seenEntry]

/-- work on the open form that writes a text -/
theorem mirrors_inForm {w : Form → Work Text} (h : ∀ f : Form, Mirrors id id (w f) (w f.seen)) :
    Mirrors State.seen id (do let f ← form; let t ← work (w f); write t)
      (do let f ← form; let t ← work (w f); write t) :=
  mirrors_bind mirrors_form fun f => mirrors_bind (mirrors_work (h f)) mirrors_write

/-- **A statement** does the same in what is seen of a state. -/
theorem mirrors_exec (s : Stmt) : Mirrors State.seen id (exec s) (exec s) := by
  cases s with
  | write t => exact mirrors_write t
  | emit e =>
    exact mirrors_bind (mirrors_eval e) fun v => mirrors_bind (mirrors_convert v) mirrors_write
  | iterate n e =>
    exact mirrors_bind (mirrors_eval e) fun v => mirrors_bind (mirrors_work (Value.mirrors_pairs v)) fun es =>
      mirrors_setTemporary n (.entries es)
  | loopOpen n =>
    refine mirrors_bind (mirrors_entries n) fun es => mirrors_modify fun s => ?_
    rw [List.length_map]
    rfl
  | scopeLoop => exact mirrors_modify fun _ => rfl
  | iterationBegin n =>
    exact mirrors_bind (mirrors_value n) fun k => mirrors_changeLoop fun _ => rfl
  | bind name half =>
    have hbind (v : Value) : Mirrors State.seen id (modify (State.bind name v)) (modify (State.bind name v.seen)) :=
      mirrors_modify fun s => s.bind_seen name v
    cases half with
    | key n => exact mirrors_bind (mirrors_value n) hbind
    | item n => exact mirrors_bind (mirrors_value n) hbind
  | iterationEnd => exact mirrors_changeLoop fun _ => rfl
  | scopeClose => exact mirrors_modify fun s => by simp only [State.seen, List.map_drop]
  | loopClose => exact mirrors_modify fun s => by simp only [State.seen, List.map_drop]
  | captureBegin => exact mirrors_modify fun _ => rfl
  | captureEnd name => exact mirrors_bind (mirrors_captureEnd name) fun _ => mirrors_pure rfl
  | formOpen e name attributes =>
    refine mirrors_bind (mirrors_eval e) fun v => ?_
    have h := mirrors_makeForm v name attributes.toValue
    rw [seen_attributes] at h
    exact mirrors_bind h fun f => mirrors_modify fun _ => rfl
  | writeFormOpen =>
    exact mirrors_bind mirrors_form fun f => mirrors_bind (mirrors_lift_same (Form.openTag_seen f .none)) mirrors_write
  | scopeForm => exact mirrors_modify fun _ => rfl
  | writeFormClose => exact mirrors_bind mirrors_form fun _ => mirrors_write _
  | formClose => exact mirrors_modify fun s => by simp only [State.seen, List.map_drop]
  | field name attributes labelled =>
    refine mirrors_inForm fun f => ?_
    have h := Form.mirrors_control f attributes.toValue (.text name) labelled
    rwa [seen_attributes] at h
  | submit attributes =>
    refine mirrors_inForm fun f => ?_
    have h := Form.mirrors_submit f attributes.toValue
    rwa [seen_attributes] at h
  | button attributes =>
    refine mirrors_inForm fun f => ?_
    have h := Form.mirrors_button f attributes.toValue
    rwa [seen_attributes] at h
  | generate e name attributes submitting =>
    refine mirrors_bind (mirrors_eval e) fun v => mirrors_bind (mirrors_makeForm v name (.mapping [])) fun f => ?_
    have h := Form.mirrors_generate f attributes.toValue submitting
    rw [seen_attributes] at h
    exact mirrors_bind (mirrors_work h) mirrors_write
  | translate n key params =>
    exact mirrors_bind_gives (mirrors_parameters params) (gives_parameters params) fun es hes =>
      mirrors_bind (mirrors_translate (.text key) hes) fun t => mirrors_setTemporary n (.text t)
  | writeText n =>
    refine mirrors_bind (mirrors_textOf n) fun t => ?_
    cases t with
    | some t => exact mirrors_write t
    | none => exact mirrors_throw _
  | _ => exact mirrors_pure rfl

end Render

open Render in
/-- **A block** does the same in what is seen of a state. -/
theorem Block.mirrors_run (b : Block) (ran : Bool) : Mirrors State.seen id (b.run ran) (b.run ran) := by
  induction b generalizing ran with
  | done => exact mirrors_pure rfl
  | step s rest ih => exact mirrors_bind (mirrors_exec s) fun _ => ih false
  | nest s body rest hbody hrest =>
    -- the body is run or left out, and the block goes on
    have hchoice (b ran : Bool) : Mirrors State.seen id
        (do
          if b then body.run false
          rest.run ran)
        (do
          if b then body.run false
          rest.run ran) := by
      cases b with
      | true => exact mirrors_bind (hbody false) fun _ => hrest ran
      | false => exact hrest ran
    cases s with
    | forEach k n items =>
      let pass (e : Value × Value) : Render Unit := do
        setTemporary k (.value e.1)
        setTemporary n (.value e.2)
        body.run false
      have hpass (e : Value × Value) : Mirrors State.seen id (pass e) (pass (seenEntry e)) :=
        mirrors_bind (mirrors_setTemporary k (.value e.1)) fun _ =>
          mirrors_bind (mirrors_setTemporary n (.value e.2)) fun _ => hbody false
      exact mirrors_bind (mirrors_entries items) fun es => mirrors_bind (mirrors_forM hpass es) fun _ => hrest false
    | when c =>
      rw [run_when]
      exact mirrors_bind (mirrors_holds c) fun b => hchoice b b
    | elsewhen c =>
      cases ran with
      | true => exact hrest true
      | false =>
        rw [run_elsewhen]
        exact mirrors_bind (mirrors_holds c) fun b => hchoice b b
    | otherwise => exact hchoice (!ran) false
    | whenReached path =>
      rw [run_whenReached]
      exact mirrors_bind (mirrors_reached path) fun b => hchoice b false
    | whenText n => exact mirrors_bind (mirrors_textOf n) fun t => hchoice t.isSome t.isSome
    | _ => exact mirrors_bind (hbody false) fun _ => hrest false

/-! ## Renders -/

namespace Template

variable (t : Template) (data mappings : Value) (values : List (Text × Value)) (phrases : Phrases)

theorem run_seen (s : State) : t.run s.seen = t.run s := by
  have h : (t.program.run false).run.run s.seen =
      (((t.program.run false).run.run s).1.map id, ((t.program.run false).run.run s).2.seen) :=
    t.program.mirrors_run false s
  rw [run, run, h]
  rcases (t.program.run false).run.run s with ⟨r, s'⟩
  cases r <;> rfl

theorem scopeOf_seen :
    scopeOf data.seen (values.map seenField) = (scopeOf data values).map (List.map seenEntry) := by
  have hnames : ((values.map seenField).any fun v => ownNames.contains v.1) =
      values.any fun v => ownNames.contains v.1 := List.any_map
  have hmore : (Value.putAll [] ((values.map seenField).map fun v => (.text v.1, v.2))) =
      (Value.putAll [] (values.map fun v => (.text v.1, v.2))).map seenEntry := by
    rw [← Value.putAll_seen, List.map_map, List.map_map]
    rfl
  rw [scopeOf, scopeOf, hnames, hmore, Value.orEmpty_seen, ← Value.seen_mapping, Value.merge_seen]
  split <;> rfl

/-- what is seen of the data and of the mappings of fields gives the same render -/
theorem render_seen :
    t.render data.seen (values.map seenField) phrases mappings.seen = t.render data values phrases mappings := by
  rw [render, render, scopeOf_seen]
  cases scopeOf data values with
  | error e => rfl
  | ok es =>
    have hstart (c : Catalog) (asked : Asked) :
        State.start (es.map seenEntry) c mappings.seen t.escaping asked =
          (State.start es c mappings t.escaping asked).seen := by
      simp only [State.start, State.seen, Value.orEmpty_seen, List.map_nil]
    simp only [Except.map, hstart, run_seen]

/-- **Hidden attributes never influence a render.** Two data values, with further values under names, that differ in
hidden attributes of objects only, however deep these lie in them, give the same render of every template: the same
output and sections or the same failure, and the same messages. The mappings of fields may differ in hidden attributes
too. -/
theorem render_eq_of_seen_eq {data' mappings' : Value} {values' : List (Text × Value)} (hdata : data.seen = data'.seen)
    (hvalues : values.map seenField = values'.map seenField) (hmappings : mappings.seen = mappings'.seen) :
    t.render data values phrases mappings = t.render data' values' phrases mappings' := by
  rw [← render_seen, hdata, hvalues, hmappings, render_seen]

/-- a user in a list, with hidden attributes and without: a condition, a path and the object's text do not tell -/
theorem render_of_users :
    let source : Text := "\x7b\x7bfor u in users\x7d\x7d\x7b\x7bif u._admin\x7d\x7d!\x7b\x7bendif\x7d\x7d".toList ++
      "\x7b\x7bu.name\x7d\x7d,\x7b\x7bu._secret ?? 'none'\x7d\x7d,\x7b\x7bu\x7d\x7d\x7b\x7bendfor\x7d\x7d".toList
    let data (hidden : List (Text × Value)) : Value :=
      .mapping [(.ofString "users", .list [.object 1 "User" (("name", .ofString "Ann") :: hidden)])]
    let secrets : List (Text × Value) := [("_secret", .ofString "x"), ("_admin", .bool true)]
    (data secrets).seen = (data []).seen ∧ ∃ t, (Compiler.standard .standard none []).compile source = .ok t ∧
      (t.render (data secrets) [] (.value .none) .none).outcome = .ok ⟨"Ann,none,&lt;User&gt;", []⟩ ∧
      t.render (data secrets) [] (.value .none) .none = t.render (data []) [] (.value .none) .none := by
  intro source data secrets
  have hrender : (((Compiler.standard .standard none []).compile source).toOption.bind fun t =>
      (t.render (data secrets) [] (.value .none) .none).outcome.toOption) =
        some ⟨"Ann,none,&lt;User&gt;", []⟩ := by
    decide +kernel
  obtain ⟨t, ht, houtcome⟩ := Option.bind_eq_some_iff.1 hrender
  have hdata : (data secrets).seen = (data []).seen := rfl
  exact ⟨hdata, t, eq_ok_of_toOption ht, eq_ok_of_toOption houtcome,
    render_eq_of_seen_eq t _ _ _ _ hdata rfl rfl⟩

end Template

end Stencil
