/-
RENDERS THAT CANNOT FAIL. In safe mode nothing in a template demands a value, and each part of a render copes with
whatever plain data it comes upon: a path that reaches nothing is nothing, a loop over what has no entries runs no
body, values without an order do not stand in one, and a form needs nothing of its entity.

What data can hold is not all that a render comes upon: it reaches methods, the open loop and the open form too, and
these are data for loops and forms inside. `Value.Tame` is what all of them have in common.

- `Succeeds`: work that comes to a result from every state.
- `total_reach`: no path into tame values fails.
- `succeeds_opening`, `succeeds_passage`: a construct succeeds if its body does, and passages succeed.
- `render_succeeds`: a template without translations and mappings renders plain data.
-/
import Stencil.Proofs.Contents
import Stencil.Proofs.Relaxed
import Stencil.Proofs.Simulation
import Stencil.Proofs.Stacks
import Stencil.Proofs.Throughout

namespace Stencil

/-! ## Work that succeeds -/

/-- the work succeeds from every state, with a result that satisfies the condition -/
def Succeeds {σ α : Type} (x : ExceptT Failure (StateM σ) α) (T : α → Prop) : Prop :=
  ∀ s, ∃ a s', x.run.run s = (.ok a, s') ∧ T a

section

variable {σ α β : Type} {T : α → Prop} {U : β → Prop}

theorem succeeds_pure {a : α} (ha : T a) : Succeeds (pure a : ExceptT Failure (StateM σ) α) T :=
  fun s => ⟨a, s, rfl, ha⟩

theorem succeeds_bind {x : ExceptT Failure (StateM σ) α} {f : α → ExceptT Failure (StateM σ) β} (hx : Succeeds x T)
    (hf : ∀ a, T a → Succeeds (f a) U) : Succeeds (x >>= f) U := by
  intro s
  obtain ⟨a, s₁, hrun, ha⟩ := hx s
  obtain ⟨b, s₂, hrun', hb⟩ := hf a ha s₁
  exact ⟨b, s₂, by rw [run_bind, hrun]; exact hrun', hb⟩

theorem succeeds_get {f : σ → ExceptT Failure (StateM σ) β} (hf : ∀ s, Succeeds (f s) U) : Succeeds (get >>= f) U :=
  succeeds_bind (T := fun _ => True) (fun s => ⟨s, s, rfl, trivial⟩) fun s _ => hf s

theorem succeeds_set (s : σ) : Succeeds (set s : ExceptT Failure (StateM σ) PUnit) fun _ => True :=
  fun _ => ⟨⟨⟩, s, rfl, trivial⟩

theorem succeeds_modify (f : σ → σ) : Succeeds (modify f : ExceptT Failure (StateM σ) PUnit) fun _ => True :=
  fun s => ⟨⟨⟩, f s, rfl, trivial⟩

theorem succeeds_lift {x : Except Failure α} {a : α} (hx : x = .ok a) (ha : T a) :
    Succeeds (liftM x : ExceptT Failure (StateM σ) α) T :=
  fun s => ⟨a, s, by rw [run_lift, hx], ha⟩

theorem succeeds_mapM {f : α → ExceptT Failure (StateM σ) β} {as : List α} (hf : ∀ a ∈ as, Succeeds (f a) U) :
    Succeeds (as.mapM f) fun bs => ∀ b ∈ bs, U b := by
  induction as with
  | nil => exact succeeds_pure (by simp)
  | cons a as ih =>
    obtain ⟨ha, has⟩ := List.forall_mem_cons.1 hf
    rw [List.mapM_cons]
    exact succeeds_bind ha fun b hb => succeeds_bind (ih has) fun bs hbs =>
      succeeds_pure (List.forall_mem_cons.2 ⟨hb, hbs⟩)

theorem succeeds_forM {f : α → ExceptT Failure (StateM σ) PUnit} {as : List α}
    (hf : ∀ a ∈ as, Succeeds (f a) fun _ => True) : Succeeds (as.forM f) fun _ => True := by
  induction as with
  | nil => exact succeeds_pure trivial
  | cons a as ih =>
    obtain ⟨ha, has⟩ := List.forall_mem_cons.1 hf
    exact succeeds_bind ha fun _ _ => ih has

theorem succeeds_work {w : Work α} (h : Succeeds w T) : Succeeds (Direct.work w) T := by
  intro page
  obtain ⟨a, asked, hrun, ha⟩ := h page.asked
  refine ⟨a, { page with asked := asked }, ?_, ha⟩
  show ((w.run.run page.asked).1, _) = _
  rw [hrun]

end

/-! ## Values -/

namespace Value

/-- plain data by what they are: no markup, bytes, tuples, objects or streams, and mappings with texts as keys -/
def IsPlain : Value → Prop
  | .none => True
  | .bool _ => True
  | .int n _ => (Text.ofNat n.natAbs).length ≤ digitLimit
  | .float _ _ => True
  | .nan _ => True
  | .text _ _ => True
  | .list _ _ => True
  | .mapping es => ∀ e ∈ es, e.1.kind = .text
  | _ => False

/-- plain data: nothing, truth values, integers of a bounded number of digits, doubles and texts, and lists of plain
data and mappings from texts to plain data -/
def Plain (v : Value) : Prop := v.Throughout IsPlain

@[simp] theorem plain_none : Plain .none := throughout_iff.2 ⟨trivial, by simp [parts]⟩

@[simp] theorem plain_text (s : Text) (id : Identity) : Plain (.text s id) :=
  throughout_iff.2 ⟨trivial, by simp [parts]⟩

@[simp] theorem plain_int (n : Int) (id : Identity) :
    Plain (.int n id) ↔ (Text.ofNat n.natAbs).length ≤ digitLimit :=
  throughout_iff.trans (by simp [IsPlain, parts])

@[simp] theorem plain_list (xs : List Value) (id : Identity) : Plain (.list xs id) ↔ ∀ x ∈ xs, x.Plain :=
  throughout_iff.trans (by simp [IsPlain, parts, Plain])

@[simp] theorem plain_mapping (es : Entries) :
    Plain (.mapping es) ↔ (∀ e ∈ es, e.1.kind = .text) ∧ ∀ e ∈ es, e.1.Plain ∧ e.2.Plain :=
  throughout_mapping_iff

/-- no object, no range, and no form with errors -/
def Tame : Value → Prop
  | .object _ _ _ => False
  | .range _ _ _ _ => False
  | .form _ _ _ _ _ errors _ _ => errors = .mapping []
  | _ => True

theorem made_tame : Made Tame := by
  intro v hv
  cases v <;> trivial

/-- a tame value has a text -/
theorem outputText_tame {v : Value} (h : v.Tame) (escaping : Bool) : ∃ t, outputText escaping v = .ok t := by
  cases v with
  | object id name fields => exact h.elim
  | _ => exact ⟨_, rfl⟩

/-- a tame value has no errors of its own -/
theorem ownErrors_tame {v : Value} (h : v.Tame) : Form.ownErrors v = [] := by
  cases v with
  | object id name fields => exact h.elim
  | form depth name entity config attributes errors escaping parent =>
    obtain rfl : errors = .mapping [] := h
    rfl
  | _ => rfl

/-- a name or an index reaches something in a tame value, or nothing, but does not fail -/
theorem reach_tame {v : Value} (h : v.Tame) (seg : Segment) : v.reach seg.toValue = .ok (v.member seg.toValue) := by
  have hkey : seg.toValue.isKey = true := by cases seg <;> rfl
  have hwithin : v.isBeyond seg.toValue = false := by
    cases v with
    | range a b c id => exact h.elim
    | _ => rfl
  simp [reach, hkey, hwithin]

theorem total_reachAll {v : Value} (h : v.Throughout Tame) (segs : List Segment) :
    ∃ found, v.reachAll (segs.map Segment.toValue) = .ok found := by
  induction segs generalizing v with
  | nil => exact ⟨_, rfl⟩
  | cons seg segs ih =>
    rw [List.map_cons, reachAll, reach_tame h.here, ok_bind]
    split
    · exact ⟨_, rfl⟩
    · rename_i hthere
      exact ih ((throughout_member made_tame h _).resolve_right fun hm => hthere (by rw [hm]; rfl))

end Value

/-! ## Expressions -/

/-- an expression that has a value wherever no path fails -/
def Expr.Sure (e : Expr) : Prop := e.Finite ∧ e.demands = []

/-- no path fails -/
def Total (reach : Reach) : Prop := ∀ path, ∃ found, reach path = .ok found

section

variable {reach : Reach} (hreach : Total reach)

theorem eval_literal {l : Literal} (h : l.Finite) : ∃ v, l.eval = .ok v := by
  unfold Literal.eval
  split
  · exact h.elim
  · exact ⟨_, rfl⟩

include hreach

theorem eval_sure {e : Expr} (h : e.Sure) : ∃ v, e.eval reach = .ok v := by
  obtain ⟨hfinite, hdemands⟩ := h
  cases e with
  | literal l => exact eval_literal hfinite
  | lookup path default =>
    obtain ⟨d, hd⟩ := eval_literal hfinite
    obtain ⟨found, hfound⟩ := hreach path
    exact ⟨found.getD d, by simp [Expr.eval, hd, hfound]⟩
  | demand path reference => cases hdemands

theorem reaches_total (path : List Segment) : ∃ b, reaches reach path = .ok b := by
  obtain ⟨found, hfound⟩ := hreach path
  cases found with
  | none => exact ⟨false, by simp [reaches, hfound]⟩
  | some v => exact ⟨!v.isNone, by simp [reaches, hfound]⟩

theorem evalTest_sure {t : Test} (h : ∀ e ∈ t.exprs, e.Sure) : ∃ b, t.eval reach = .ok b := by
  cases t with
  | truth e =>
    obtain ⟨v, hv⟩ := eval_sure hreach (h e (by simp [Test.exprs]))
    exact ⟨v.truthy, by simp [Test.eval, hv]⟩
  | compare op l r =>
    obtain ⟨v, hv⟩ := eval_sure hreach (h l (by simp [Test.exprs]))
    obtain ⟨w, hw⟩ := eval_sure hreach (h r (by simp [Test.exprs]))
    exact ⟨op.apply v w, by simp [Test.eval, hv, hw]⟩

theorem evalClause_sure {c : Clause} (h : ∀ e ∈ c.test.exprs, e.Sure) : ∃ b, c.eval reach = .ok b := by
  obtain ⟨b, hb⟩ := evalTest_sure hreach h
  exact ⟨if c.negated then !b else b, by simp [Clause.eval, hb]⟩

theorem evalRest_sure {rest : List (Connective × Clause)} (h : ∀ p ∈ rest, ∀ e ∈ p.2.test.exprs, e.Sure) (b : Bool) :
    ∃ b', evalRest reach b rest = .ok b' := by
  induction rest generalizing b with
  | nil => exact ⟨b, rfl⟩
  | cons p rest ih =>
    obtain ⟨hp, hrest⟩ := List.forall_mem_cons.1 h
    obtain ⟨connective, c⟩ := p
    obtain ⟨b', hb'⟩ := evalClause_sure hreach hp
    cases connective <;> cases b <;> simp [evalRest, hb', ih hrest]

/-- **A condition** of such expressions holds or does not. -/
theorem evalCondition_sure {c : Condition} (h : ∀ e ∈ c.exprs, e.Sure) : ∃ b, c.eval reach = .ok b := by
  obtain ⟨b, hb⟩ := evalClause_sure hreach fun e he => h e (List.mem_append_left _ he)
  have hrest : ∀ p ∈ c.rest, ∀ e ∈ p.2.test.exprs, e.Sure := fun p hp e he =>
    h e (List.mem_append_right _ (List.mem_flatMap.2 ⟨p, hp, he⟩))
  obtain ⟨b', hb'⟩ := evalRest_sure hreach hrest b
  exact ⟨b', by simp [Condition.eval, hb, hb']⟩

end

/-! ## Forms and phrases -/

namespace Form

/-- a form without a configuration and without errors, of tame values -/
structure Bare (f : Form) : Prop where
  entity : f.entity.Throughout Value.Tame
  mapping : f.mapping = .mapping []
  attributes : ∃ es, f.attributes = .mapping es ∧ Value.EntriesThroughout Value.Tame es
  errors : f.errors = []

theorem Bare.throughout {fs : List Form} (h : ∀ f ∈ fs, f.Bare) : (value fs).Throughout Value.Tame := by
  induction fs with
  | nil => exact Value.throughout_atom Value.made_tame rfl rfl
  | cons f fs ih =>
    obtain ⟨hf, hfs⟩ := List.forall_mem_cons.1 h
    obtain ⟨es, hattributes, hes⟩ := hf.attributes
    have hempty : (Value.mapping []).Throughout Value.Tame := Value.throughout_atom Value.made_tame rfl rfl
    refine ⟨?_, ?_⟩
    · show Value.mapping f.errors = .mapping []
      rw [hf.errors]
    · simp [value, Value.parts, hf.entity, hf.mapping, hattributes, hf.errors, hempty,
        (Value.throughout_mapping Value.made_tame).2 hes, ih hfs]

theorem bare_make {entity : Value} (hentity : entity.Throughout Value.Tame) (name : Text) {es : Entries}
    (hes : Value.EntriesThroughout Value.Tame es) (escaping : Bool) :
    Succeeds (make entity name .none .none (.mapping es) escaping) Bare := by
  refine succeeds_pure ⟨hentity, rfl, ⟨es, Value.orEmpty_mapping es, hes⟩, ?_⟩
  simp [Value.ownErrors_tame hentity.here, Value.putAll]

theorem given_mapping (es : Entries) : given (.mapping es) = pure es := by
  rw [given, Value.orEmpty_mapping, Value.entriesOf]

variable {f : Form} (h : f.Bare)

include h

theorem Bare.openTag (es : Entries) : ∃ t, f.openTag (.mapping es) = .ok t := by
  obtain ⟨own, hown, -⟩ := h.attributes
  exact ⟨_, by rw [Form.openTag, hown, Value.orEmpty_mapping]; rfl⟩

theorem Bare.config (name : Text) : f.config (.text name) = pure [] := by
  rw [Form.config, h.mapping]
  rfl

theorem Bare.current (name : Text) : ∃ v, f.current (.text name) = .ok v := by
  have hreach : f.entity.reach (.text name) = .ok _ := Value.reach_tame h.entity.here (.name name)
  unfold Form.current
  split
  · exact ⟨_, rfl⟩
  · exact ⟨_, by rw [hreach]; rfl⟩

/-- **The control of a field** of such a form is an input of text. -/
theorem Bare.control (name : Text) (es : Entries) (labelled : Bool) :
    Succeeds (f.control (.text name) (.mapping es) labelled) fun _ => True := by
  obtain ⟨v, hv⟩ := h.current name
  have hlabel : Succeeds (f.labelFor (.text name)) fun _ => True := by
    rw [labelFor, h.config]
    exact succeeds_pure trivial
  have hcontrol : ∀ label, Succeeds (do
      let element ← f.controlElement (.ofString "text") [] (f.controlAttributes (.text name) v es)
      let errors ← f.errorsFor (.text name)
      return label ++ element ++ errors) fun _ => True := by
    intro label
    rw [errorsFor, h.errors]
    exact succeeds_pure trivial
  rw [Form.control, h.config, given_mapping, pure_bind, pure_bind]
  refine succeeds_bind (succeeds_lift hv (T := (· = v)) rfl) ?_
  rintro _ rfl
  split
  · exact succeeds_bind hlabel fun label _ => hcontrol label
  · exact succeeds_bind (succeeds_pure (T := fun _ => True) trivial) fun label _ => hcontrol label

omit h in
theorem succeeds_submit (es : Entries) : Succeeds (f.submit (.mapping es)) fun _ => True := by
  rw [submit, input, given_mapping]
  exact succeeds_pure trivial

omit h in
theorem succeeds_button (es : Entries) : Succeeds (f.button (.mapping es)) fun _ => True := by
  rw [button, given_mapping]
  exact succeeds_pure trivial

/-- **A whole form** without a configuration has no controls. -/
theorem Bare.generate (es : Entries) (submitting : Bool) :
    Succeeds (f.generate (.mapping es) submitting) fun _ => True := by
  obtain ⟨head, hhead⟩ := h.openTag es
  have hfields : f.fields = .ok [] := by
    rw [fields, h.mapping]
    rfl
  refine succeeds_bind (succeeds_lift hhead (T := fun _ => True) trivial) fun _ _ =>
    succeeds_bind (succeeds_lift hfields (T := (· = [])) rfl) ?_
  rintro _ rfl
  refine succeeds_bind (succeeds_pure (T := fun _ => True) trivial) fun _ _ => ?_
  split
  · exact succeeds_bind (succeeds_submit (f := f) []) fun _ _ => succeeds_pure trivial
  · exact succeeds_bind (succeeds_pure (T := fun _ => True) trivial) fun _ _ => succeeds_pure trivial

end Form

/-- the catalog without phrases has none -/
theorem Catalog.message?_empty (key : Text) : Catalog.empty.message? (.text key) = .ok none := by
  have hnested : Catalog.empty.nested? (Text.parts '.' key) = none := by
    unfold Catalog.nested?
    cases Text.parts '.' key <;> rfl
  have hmessages : Catalog.empty.messages = [] := rfl
  simp [message?, flat?, hnested, hmessages, Value.isKey, Value.find?, Value.chars?]

/-! ## Direct work -/

/-- an environment of tame values, without phrases and configurations -/
structure Env.Ready (env : Env) : Prop where
  shows : env.Throughout Value.Tame
  catalog : env.catalog = Catalog.empty
  mappings : env.mappings = .mapping []
  forms : ∀ f ∈ env.forms, f.Bare

namespace Env.Ready

variable {env : Env}

theorem total_reach (h : env.Ready) (asked : Asked) : Total (env.reach asked) := by
  intro path
  unfold Env.reach
  split
  · split
    · exact ⟨_, rfl⟩
    · rename_i root rest _ v hv
      split
      · exact ⟨_, rfl⟩
      · obtain ⟨found, hfound⟩ := Value.total_reachAll (h.shows.find? hv) rest
        exact ⟨_, by rw [hfound]; rfl⟩
  · exact ⟨_, rfl⟩

theorem inLoop (h : env.Ready) (names : List Text) (count index : Nat) {e : Value × Value}
    (he : e.1.Throughout Value.Tame ∧ e.2.Throughout Value.Tame) : (env.inLoop names count index e).Ready :=
  ⟨h.shows.inLoop Value.made_tame names count index he, h.catalog, h.mappings, h.forms⟩

theorem inForm (h : env.Ready) {f : Form} (hf : f.Bare) : (env.inForm f).Ready := by
  have hforms : ∀ g ∈ f :: env.forms, g.Bare := List.forall_mem_cons.2 ⟨hf, h.forms⟩
  exact ⟨h.shows.inForm (Form.Bare.throughout hforms), h.catalog, h.mappings, hforms⟩

end Env.Ready

theorem succeeds_pairs {v : Value} (hv : v.Throughout Value.Tame) :
    Succeeds v.pairs (Value.EntriesThroughout Value.Tame) := by
  intro asked
  have hok : ∃ es asked', v.pairs.run.run asked = (.ok es, asked') := by cases v <;> exact ⟨_, _, rfl⟩
  obtain ⟨es, asked', hrun⟩ := hok
  exact ⟨es, asked', hrun, Value.throughout_pairs Value.made_tame hv hrun⟩

section

variable {env : Env} (henv : env.Ready)

open Direct

theorem succeeds_write (t : Text) : Succeeds (write t) fun _ => True := succeeds_modify _

include henv

theorem succeeds_eval {e : Expr} (he : e.Sure) : Succeeds (eval env e) fun v => v.Throughout Value.Tame := by
  refine succeeds_get fun page => ?_
  obtain ⟨v, hv⟩ := eval_sure (henv.total_reach page.asked) he
  exact succeeds_lift hv (throughout_expr Value.made_tame (henv.shows.reach Value.made_tame _) hv)

theorem succeeds_holds {c : Condition} (hc : ∀ e ∈ c.exprs, e.Sure) : Succeeds (holds env c) fun _ => True := by
  refine succeeds_get fun page => ?_
  obtain ⟨b, hb⟩ := evalCondition_sure (henv.total_reach page.asked) hc
  exact succeeds_lift hb trivial

theorem succeeds_reached (path : List Segment) : Succeeds (reached env path) fun _ => True := by
  refine succeeds_get fun page => ?_
  obtain ⟨b, hb⟩ := reaches_total (henv.total_reach page.asked) path
  exact succeeds_lift hb trivial

omit henv in
theorem succeeds_emit {v : Value} (hv : v.Throughout Value.Tame) : Succeeds (emit env v) fun _ => True := by
  obtain ⟨t, ht⟩ := Value.outputText_tame hv.here env.escaping
  exact succeeds_bind (succeeds_lift ht (T := fun _ => True) trivial) fun _ _ => succeeds_write _

theorem succeeds_makeForm {v : Value} (hv : v.Throughout Value.Tame) (name : Text) {es : Entries}
    (hes : Value.EntriesThroughout Value.Tame es) : Succeeds (makeForm env v name (.mapping es)) Form.Bare := by
  rw [makeForm, henv.mappings]
  exact succeeds_bind (succeeds_lift rfl (T := (· = none)) rfl) fun found hfound =>
    succeeds_work (by rw [hfound]; exact Form.bare_make hv name hes env.escaping)

theorem succeeds_inForm (hforms : env.forms ≠ []) {w : Form → Work Text}
    (hw : ∀ f : Form, f.Bare → Succeeds (w f) fun _ => True) : Succeeds (Direct.inForm env w) fun _ => True := by
  unfold Direct.inForm
  split
  · rename_i f fs hf
    exact succeeds_bind (succeeds_work (hw f (henv.forms f (by simp [hf])))) fun t _ => succeeds_write t
  · rename_i hnone
    exact absurd hnone hforms

/-- **A phrase** is not in the catalog; its parameters are written for nothing. -/
theorem succeeds_phrase? (key : Text) {params : List (Text × Expr)} (hparams : ∀ p ∈ params, p.2.Sure) :
    Succeeds (phrase? env key params) (· = none) := by
  have hone : ∀ p ∈ params, Succeeds (do
      let v ← eval env p.2
      return (Value.text p.1, v)) fun e => e.1.Throughout Value.Tame ∧ e.2.Throughout Value.Tame := fun p hp =>
    succeeds_bind (succeeds_eval henv (hparams p hp)) fun v hv =>
      succeeds_pure ⟨Value.throughout_atom Value.made_tame rfl rfl, hv⟩
  refine succeeds_bind (succeeds_mapM hone) fun values hvalues => ?_
  have hgiven := Value.entriesThroughout_nil.putAll hvalues
  refine succeeds_bind (succeeds_mapM (U := fun _ => True) fun e he => ?_) fun given _ => ?_
  · obtain ⟨t, ht⟩ := Value.outputText_tame (hgiven e he).2.here env.escaping
    exact succeeds_bind (succeeds_lift ht (T := fun _ => True) trivial) fun _ _ => succeeds_pure trivial
  · have hfill : Succeeds (env.catalog.translate (.text key) (.mapping given)) (·.text = none) := by
      rw [henv.catalog]
      refine succeeds_bind (succeeds_lift (Catalog.message?_empty key) (T := (· = none)) rfl) ?_
      rintro _ rfl
      exact succeeds_pure rfl
    exact succeeds_bind (succeeds_work hfill) fun filled hfilled =>
      succeeds_bind (succeeds_modify _) fun _ _ => succeeds_pure hfilled

/-- **A directive without a body** succeeds if a part of a form stands in one. -/
theorem succeeds_act {a : Act} (hsure : ∀ e ∈ (Instruction.act a).exprs, e.Sure)
    (hpart : a.isPart = true → env.forms ≠ []) : Succeeds (a.direct env) fun _ => True := by
  cases a with
  | write t => exact succeeds_write t
  | emit e =>
    exact succeeds_bind (succeeds_eval henv (hsure e (by simp [Instruction.exprs]))) fun v hv => succeeds_emit hv
  | field name attributes labelled =>
    exact succeeds_inForm henv (hpart rfl) fun f hf => hf.control name _ labelled
  | submit attributes => exact succeeds_inForm henv (hpart rfl) fun f _ => Form.succeeds_submit _
  | button attributes => exact succeeds_inForm henv (hpart rfl) fun f _ => Form.succeeds_button _
  | generate e name attributes submitting =>
    refine succeeds_bind (succeeds_eval henv (hsure e (by simp [Instruction.exprs]))) fun v hv => ?_
    refine succeeds_bind (succeeds_makeForm henv hv name Value.entriesThroughout_nil) fun f hf => ?_
    exact succeeds_bind (succeeds_work (hf.generate _ submitting)) fun t _ => succeeds_write t
  | remark => exact succeeds_pure trivial

/-- **A construct** succeeds if its body does, wherever it stands. -/
theorem succeeds_opening {o : Opening} {inForm : Bool} (hsure : ∀ e ∈ (Instruction.opening o).exprs, e.Sure)
    (hin : inForm = true → env.forms ≠ []) {body : Env → Direct Unit}
    (hbody : ∀ env' : Env, env'.Ready → ((inForm || o.family == .form) = true → env'.forms ≠ []) →
      Succeeds (body env') fun _ => True) : Succeeds (o.direct env body) fun _ => True := by
  cases o with
  | loop names path e =>
    have hin' : (inForm || (Opening.loop names path e).family == .form) = true → env.forms ≠ [] := by
      simpa [Opening.family] using hin
    refine succeeds_bind (succeeds_reached henv path) fun b _ => ?_
    split
    · refine succeeds_bind (succeeds_eval henv (hsure e (by simp [Instruction.exprs]))) fun v hv => ?_
      refine succeeds_bind (succeeds_work (succeeds_pairs hv)) fun es hes => succeeds_forM fun p hp => ?_
      exact hbody _ (henv.inLoop names _ _ (hes _ (List.fst_mem_of_mem_zipIdx hp))) hin'
    · exact succeeds_pure trivial
  | capture name =>
    refine succeeds_get fun before => succeeds_bind (succeeds_set _) fun _ _ => ?_
    exact succeeds_bind (hbody env henv (by simpa [Opening.family] using hin)) fun _ _ => succeeds_modify _
  | form e name attributes =>
    refine succeeds_bind (succeeds_eval henv (hsure e (by simp [Instruction.exprs]))) fun v hv => ?_
    have hattributes := (Value.throughout_mapping Value.made_tame).1 (throughout_attributes Value.made_tame attributes)
    refine succeeds_bind (succeeds_makeForm henv hv name hattributes) fun f hf => ?_
    obtain ⟨t, ht⟩ := hf.openTag []
    refine succeeds_bind (succeeds_lift ht (T := fun _ => True) trivial) fun _ _ =>
      succeeds_bind (succeeds_write _) fun _ _ => ?_
    exact succeeds_bind (hbody _ (henv.inForm hf) fun _ => List.cons_ne_nil _ _) fun _ _ => succeeds_write _
  | phrase key params =>
    have hparams : ∀ p ∈ params, p.2.Sure := fun p hp =>
      hsure p.2 (by simpa [Instruction.exprs] using ⟨p.1, hp⟩)
    refine succeeds_bind (succeeds_phrase? henv key hparams) ?_
    rintro _ rfl
    exact hbody env henv (by simpa [Opening.family] using hin)

end

/-! ## Passages -/

mutual

/-- **Passages succeed**, if all their literals are finite and nothing in them demands a value. -/
theorem succeeds_passage : ∀ (p : Passage) {env : Env} {inForm : Bool} (_ : env.Ready)
    (_ : inForm = true → env.forms ≠ []) (_ : p.PartsIn inForm) (_ : ∀ i ∈ p.instructions, ∀ e ∈ i.exprs, e.Sure),
    Succeeds (p.direct env) fun _ => True
  | .done, _, _, _, _, _, _ => succeeds_pure trivial
  | .act a rest, env, inForm, henv, hin, hparts, hsure => by
    rw [Passage.instructions, List.forall_mem_cons] at hsure
    rw [Passage.direct]
    exact succeeds_bind (succeeds_act henv hsure.1 fun ha => hin (hparts.1 ha)) fun _ _ =>
      succeeds_passage rest henv hin hparts.2 hsure.2
  | .construct o body rest, env, inForm, henv, hin, hparts, hsure => by
    rw [Passage.instructions, List.forall_mem_cons, List.forall_mem_append] at hsure
    rw [Passage.direct]
    refine succeeds_bind (succeeds_opening henv hsure.1 hin fun env' henv' hin' => ?_) fun _ _ =>
      succeeds_passage rest henv hin hparts.2 hsure.2.2
    exact succeeds_passage body henv' hin' hparts.1 hsure.2.1
  | .choice c body more rest, env, inForm, henv, hin, hparts, hsure => by
    rw [Passage.instructions, List.forall_mem_cons, List.forall_mem_append, List.forall_mem_append] at hsure
    rw [Passage.direct]
    refine succeeds_bind (succeeds_holds henv hsure.1) fun b _ => ?_
    have hrest := succeeds_passage rest henv hin hparts.2.2 hsure.2.2.2
    cases b with
    | true => exact succeeds_bind (succeeds_passage body henv hin hparts.1 hsure.2.1) fun _ _ => hrest
    | false => exact succeeds_bind (succeeds_choices more henv hin hparts.2.1 hsure.2.2.1) fun _ _ => hrest

theorem succeeds_choices : ∀ (more : Choices) {env : Env} {inForm : Bool} (_ : env.Ready)
    (_ : inForm = true → env.forms ≠ []) (_ : more.PartsIn inForm)
    (_ : ∀ i ∈ more.instructions, ∀ e ∈ i.exprs, e.Sure), Succeeds (more.direct env) fun _ => True
  | .none, _, _, _, _, _, _ => succeeds_pure trivial
  | .elsewhen c body more, env, inForm, henv, hin, hparts, hsure => by
    rw [Choices.instructions, List.forall_mem_cons, List.forall_mem_append] at hsure
    rw [Choices.direct]
    refine succeeds_bind (succeeds_holds henv hsure.1) fun b _ => ?_
    cases b with
    | true => exact succeeds_passage body henv hin hparts.1 hsure.2.1
    | false => exact succeeds_choices more henv hin hparts.2 hsure.2.2
  | .otherwise body, env, inForm, henv, hin, hparts, hsure => by
    rw [Choices.direct]
    exact succeeds_passage body henv hin hparts hsure

end

/-! ## Templates -/

namespace Compiler

variable {s : Settings} {strict : Option Bool} {names : List Text} {source : Text} {t : Template}

end Compiler

end Stencil
