/-
WHAT WORK FAILS WITH. A reference that reaches nothing is a failure of its own, and only an expression that demands a
value fails with it. Whatever else a render does - taking items, filling phrases in, writing forms, binding names -
fails with other failures, or not at all.

- `Fails`, `FailsIn`: a computation, or work on a state, that fails only with failures of some kind.
- `other_fill`, `other_translate`, `other_generate`: phrases and forms never fail with a reference.
- `other_exec`: a statement that demands no value never does.
-/
import Stencil.Proofs.Runs

namespace Stencil

/-! ## Failures of a kind -/

/-- a computation that fails only with failures of a kind -/
def Fails {ε α : Type} (P : ε → Prop) (x : Except ε α) : Prop := ∀ e, x = .error e → P e

/-- work on a state that fails only with failures of a kind -/
def FailsIn {σ α : Type} (P : Failure → Prop) (x : ExceptT Failure (StateM σ) α) : Prop :=
  ∀ s, Fails P (x.run.run s).1

section

variable {ε ε' α β : Type} {P : ε → Prop} {Q : ε' → Prop}

theorem fails_ok (a : α) : Fails P (.ok a) := fun _ h => by cases h

theorem fails_error {e : ε} (h : P e) : Fails P (.error e : Except ε α) := fun _ h' => by
  cases h'
  exact h

theorem fails_bind {x : Except ε α} {f : α → Except ε β} (hx : Fails P x) (hf : ∀ a, Fails P (f a)) :
    Fails P (x >>= f) := by
  cases x with
  | error e => exact fails_error (hx e rfl)
  | ok a => exact hf a

theorem fails_map {x : Except ε α} (hx : Fails P x) (f : α → β) : Fails P (x.map f) := by
  cases x with
  | error e => exact fails_error (hx e rfl)
  | ok a => exact fails_ok _

theorem fails_mapError {f : ε → ε'} (x : Except ε α) (h : ∀ e, Q (f e)) : Fails Q (x.mapError f) := by
  cases x with
  | error e => exact fails_error (h e)
  | ok a => exact fails_ok a

theorem fails_mapM {f : α → Except ε β} (hf : ∀ a, Fails P (f a)) (as : List α) : Fails P (as.mapM f) := by
  induction as with
  | nil => exact fails_ok _
  | cons a as ih =>
    rw [List.mapM_cons]
    exact fails_bind (hf a) fun _ => fails_bind ih fun _ => fails_ok _

theorem fails_foldlM {f : β → α → Except ε β} (hf : ∀ b a, Fails P (f b a)) (as : List α) (b : β) :
    Fails P (as.foldlM f b) := by
  induction as generalizing b with
  | nil => exact fails_ok _
  | cons a as ih =>
    rw [List.foldlM_cons]
    exact fails_bind (hf b a) fun _ => ih _

end

section

variable {σ α β : Type} {P : Failure → Prop}

theorem failsIn_pure (a : α) : FailsIn P (pure a : ExceptT Failure (StateM σ) α) := fun _ => fails_ok a

theorem failsIn_throw {e : Failure} (h : P e) : FailsIn P (throw e : ExceptT Failure (StateM σ) α) :=
  fun _ => fails_error h

theorem failsIn_get : FailsIn P (get : ExceptT Failure (StateM σ) σ) := fun _ => fails_ok _

theorem failsIn_set (s : σ) : FailsIn P (set s : ExceptT Failure (StateM σ) PUnit) := fun _ => fails_ok _

theorem failsIn_modify (f : σ → σ) : FailsIn P (modify f : ExceptT Failure (StateM σ) PUnit) := fun _ => fails_ok _

theorem failsIn_lift {x : Except Failure α} (h : Fails P x) : FailsIn P (liftM x : ExceptT Failure (StateM σ) α) :=
  fun s => by
    rw [run_lift]
    exact h

theorem failsIn_bind {x : ExceptT Failure (StateM σ) α} {f : α → ExceptT Failure (StateM σ) β} (hx : FailsIn P x)
    (hf : ∀ a, FailsIn P (f a)) : FailsIn P (x >>= f) := by
  intro s
  have h := hx s
  rw [run_bind]
  generalize x.run.run s = r at h ⊢
  obtain ⟨r, s'⟩ := r
  cases r with
  | error e => exact fails_error (h e rfl)
  | ok a => exact hf a s'

theorem failsIn_mapM {f : α → ExceptT Failure (StateM σ) β} (hf : ∀ a, FailsIn P (f a)) (as : List α) :
    FailsIn P (as.mapM f) := by
  induction as with
  | nil => exact failsIn_pure _
  | cons a as ih =>
    rw [List.mapM_cons]
    exact failsIn_bind (hf a) fun _ => failsIn_bind ih fun _ => failsIn_pure _

theorem failsIn_foldlM {f : β → α → ExceptT Failure (StateM σ) β} (hf : ∀ b a, FailsIn P (f b a))
    (as : List α) (b : β) : FailsIn P (as.foldlM f b) := by
  induction as generalizing b with
  | nil => exact failsIn_pure _
  | cons a as ih =>
    rw [List.foldlM_cons]
    exact failsIn_bind (hf b a) fun _ => ih _

theorem failsIn_work {w : Work α} (h : FailsIn P w) : FailsIn P (Render.work w) := fun s => h s.asked

/-- work with a handler fails with what the handler fails with, given such a failure -/
theorem failsIn_tryCatch {x : ExceptT Failure (StateM σ) α} {handle : Failure → ExceptT Failure (StateM σ) α}
    (hx : FailsIn P x) (hh : ∀ e, P e → FailsIn P (handle e)) : FailsIn P (tryCatch x handle) := by
  intro s
  have h := hx s
  rw [ExceptT.run_tryCatch, StateT.run_bind]
  generalize x.run.run s = r at h ⊢
  obtain ⟨r, s'⟩ := r
  cases r with
  | error e => exact hh e (h e rfl) s'
  | ok a => exact fails_ok a

end

/-- any failure but that of a reference that reaches nothing -/
def Failure.Other : Failure → Prop
  | undefined _ => False
  | _ => True

/-- a flaw, or any failure but that of a reference that reaches nothing -/
def Stop.Other : Stop → Prop
  | flaw _ => True
  | failure e => e.Other

/-! ## Items and entries -/

namespace Value

theorem other_noMethod (v : Value) (name : Text) : (v.noMethod name).Other := by
  unfold noMethod
  split <;> trivial

theorem other_items (v : Value) : FailsIn Failure.Other v.items := by
  unfold items
  split
  · exact failsIn_bind failsIn_get fun _ => failsIn_bind (failsIn_set _) fun _ => failsIn_pure _
  · split
    · exact failsIn_pure _
    · exact failsIn_throw trivial

theorem other_pairs (v : Value) : FailsIn Failure.Other v.pairs := by
  unfold pairs
  split
  case h_5 => exact failsIn_bind (other_items _) fun _ => failsIn_pure _
  all_goals exact failsIn_pure _

theorem other_pairOf (v : Value) : FailsIn Failure.Other v.pairOf := by
  refine failsIn_bind (other_items v) fun xs => ?_
  split
  · exact failsIn_pure _
  · exact failsIn_throw trivial

theorem other_addItem (es : Entries) (item : Value) : FailsIn Failure.Other (addItem es item) := by
  refine failsIn_bind (other_pairOf item) fun ⟨k, x⟩ => ?_
  dsimp only
  split
  · exact failsIn_pure _
  · exact failsIn_throw trivial

theorem other_entriesOf (v : Value) : FailsIn Failure.Other v.entriesOf := by
  unfold entriesOf
  split
  · exact failsIn_pure _
  · refine failsIn_bind failsIn_get fun _ => failsIn_bind (failsIn_foldlM (fun es item => ?_) _ _) fun _ =>
      failsIn_bind (failsIn_modify _) fun _ => failsIn_pure _
    exact failsIn_bind (failsIn_modify _) fun _ => other_addItem es item
  · split
    · exact failsIn_pure _
    · exact failsIn_throw trivial
  · exact failsIn_bind (other_items _) fun _ => failsIn_foldlM other_addItem _ _

theorem other_get? (v key : Value) : Fails Failure.Other (v.get? key) := by
  unfold get?
  split
  · split
    · exact fails_ok _
    · exact fails_error trivial
  · exact fails_error (other_noMethod _ _)

theorem other_reach (v key : Value) : Fails Failure.Other (v.reach key) := by
  unfold reach
  split
  · exact fails_error trivial
  · split
    · exact fails_error trivial
    · exact fails_ok _

theorem other_reachAll (v : Value) (keys : List Value) : Fails Failure.Other (v.reachAll keys) := by
  induction keys generalizing v with
  | nil => exact fails_ok _
  | cons key keys ih =>
    refine fails_bind (other_reach v key) fun w => ?_
    split
    · exact fails_ok _
    · exact ih w

theorem other_mappingEntries (v : Value) : Fails Failure.Other v.mappingEntries := by
  unfold mappingEntries
  split
  · exact fails_ok _
  · exact fails_error (other_noMethod _ _)

theorem other_merge (v w : Value) : Fails Failure.Other (v.merge w) := by
  unfold merge
  split
  · exact fails_ok _
  · exact fails_error trivial

end Value

/-! ## Phrases -/

namespace Figure

theorem other_ofCode (f : Specification) (n : Int) : Fails Stop.Other (ofCode f n) := by
  unfold ofCode
  split
  · exact fails_error trivial
  · split
    · exact fails_error trivial
    · split
      · exact fails_ok _
      · exact fails_error trivial

theorem other_setInt (f : Specification) (type : Char) (n : Int) : Fails Stop.Other (setInt f type n) := by
  unfold setInt
  dsimp only
  split
  · exact fails_error trivial
  · split
    · exact fails_error trivial
    · split
      · exact fails_bind (other_ofCode f n) fun _ => fails_ok _
      · exact fails_ok _

theorem other_setFloat (f : Specification) (x : Option Binary64) : Fails Stop.Other (setFloat f x) := by
  unfold setFloat
  dsimp only
  split
  · exact fails_error trivial
  · exact fails_ok _

theorem other_formatInt (owner : Text) (f : Specification) (n : Int) : Fails Stop.Other (formatInt owner f n) := by
  unfold formatInt
  dsimp only
  split
  · exact other_setInt f _ n
  · split
    · split
      · exact other_setFloat f _
      · exact fails_error trivial
    · exact fails_error trivial

theorem other_formatFloat (owner : Text) (f : Specification) (x : Option Binary64) :
    Fails Stop.Other (formatFloat owner f x) := by
  unfold formatFloat
  split
  · split
    · exact other_setFloat f x
    · exact fails_error trivial
  · exact other_setFloat f x

end Figure

namespace Phrase

theorem other_stopOf (e : NoItem) : (stopOf e).Other := by
  cases e <;> trivial

theorem other_reach (t : Thing) (step : Step) : Fails Stop.Other (step.reach t) := by
  cases step with
  | member name =>
    dsimp only [Step.reach]
    cases t.attribute? name with
    | none => exact fails_error trivial
    | some u => exact fails_ok u
  | index n => exact fails_mapError _ other_stopOf
  | key name => exact fails_mapError _ other_stopOf
  | broken flaw => exact fails_error trivial

theorem other_thing (arguments : Text → Value) (f : Field) : Fails Stop.Other (f.thing arguments) :=
  fails_bind (fails_mapError _ fun _ => trivial) fun _ => fails_foldlM other_reach _ _

theorem other_convert (t : Thing) (c : Option Char) : Fails Stop.Other (convert t c) := by
  unfold convert
  split
  case h_5 => exact fails_error trivial
  all_goals exact fails_ok _

theorem other_specification (c : Class) (standard : Option Char) (spec : Text) :
    Fails Stop.Other (specification c standard spec) := by
  refine fails_bind (fails_mapError _ fun _ => trivial) fun f => ?_
  dsimp only
  split
  · exact fails_error trivial
  · exact fails_ok _

theorem other_setValue (v : Value) (spec : Text) : Fails Stop.Other (setValue v spec) := by
  unfold setValue
  split
  · exact fails_bind (other_specification _ _ _) fun _ => fails_bind (fails_mapError _ fun _ => trivial) fun _ =>
      fails_ok _
  · exact fails_bind (other_specification _ _ _) fun _ => fails_bind (fails_mapError _ fun _ => trivial) fun _ =>
      fails_ok _
  · exact fails_bind (other_specification _ _ _) fun _ => Figure.other_formatInt _ _ _
  · exact fails_bind (other_specification _ _ _) fun _ => Figure.other_formatInt _ _ _
  · exact fails_bind (other_specification _ _ _) fun _ => Figure.other_formatFloat _ _ _
  · exact fails_bind (other_specification _ _ _) fun _ => Figure.other_formatFloat _ _ _
  · exact fails_error trivial

theorem other_format (t : Thing) (spec : Text) : Fails Stop.Other (format t spec) := by
  unfold format
  split
  · exact fails_ok _
  · split
    · exact other_setValue _ _
    · exact fails_error trivial

theorem other_piece {arguments : Text → Value} {inner : Text → Except Stop Text}
    (hinner : ∀ s, Fails Stop.Other (inner s)) (p : Piece) : Fails Stop.Other (p.fill arguments inner) := by
  cases p with
  | char c => exact fails_ok _
  | broken flaw => exact fails_error trivial
  | field f =>
    refine fails_bind (other_thing arguments f) fun t => fails_bind (other_convert t _) fun u => ?_
    split
    · exact fails_bind (hinner _) fun _ => other_format u _
    · exact fails_bind (fails_ok _) fun _ => other_format u _

/-- **A phrase** is filled in, or stops with a flaw, or fails with no reference. -/
theorem other_fill (es : Entries) (s : Text) : Fails Stop.Other (fill es s) := by
  have hdepth : ∀ depth s, Fails Stop.Other (fillTo (argument es) depth s) := by
    intro depth
    induction depth with
    | zero => exact fun _ => fails_error trivial
    | succ depth ih => exact fun _ => fails_bind (fails_mapM (other_piece ih) _) fun _ => fails_ok _
  exact hdepth 2 s

end Phrase

namespace Catalog

theorem other_ofValue (v : Value) (locale : Text) : FailsIn Failure.Other (ofValue v locale) :=
  failsIn_bind (Value.other_entriesOf _) fun _ => failsIn_pure _

theorem other_message? (c : Catalog) (key : Value) : Fails Failure.Other (c.message? key) := by
  unfold message?
  split
  · split
    · exact fails_ok _
    · split
      · exact fails_ok _
      · exact fails_error (Value.other_noMethod _ _)
  · exact fails_error trivial

theorem other_parameters? (params : Value) : FailsIn Failure.Other (parameters? params) := by
  refine failsIn_tryCatch ?_ fun e he => ?_
  · rw [map_eq_pure_bind]
    exact failsIn_bind (Value.other_entriesOf _) fun _ => failsIn_pure _
  · split
    · exact failsIn_pure _
    · exact failsIn_throw he

/-- **A translation** fails with no reference. -/
theorem other_translate (c : Catalog) (key params : Value) : FailsIn Failure.Other (c.translate key params) := by
  refine failsIn_bind (failsIn_lift (other_message? c key)) fun m => ?_
  split
  · exact failsIn_pure _
  · refine failsIn_bind (other_parameters? params) fun es => ?_
    split
    · exact failsIn_pure _
    · split
      · exact failsIn_pure _
      · exact failsIn_pure _
      · rename_i he
        exact failsIn_throw (Phrase.other_fill _ _ _ he)

end Catalog

/-! ## Forms -/

namespace Form

theorem other_make (entity : Value) (name : Text) (mapping errors attributes : Value) (escaping : Bool) :
    FailsIn Failure.Other (make entity name mapping errors attributes escaping) := by
  unfold make
  split
  · exact failsIn_bind (Value.other_entriesOf _) fun _ => failsIn_pure _
  · exact failsIn_bind (failsIn_pure _) fun _ => failsIn_pure _

theorem other_openTag (f : Form) (attributes : Value) : Fails Failure.Other (f.openTag attributes) :=
  fails_bind (Value.other_merge _ _) fun _ => fails_ok _

theorem other_config (f : Form) (field : Value) : FailsIn Failure.Other (f.config field) :=
  failsIn_bind (failsIn_lift (Value.other_get? _ _)) fun _ =>
    failsIn_bind (failsIn_lift (Value.other_get? _ _)) fun _ => Value.other_entriesOf _

theorem other_current (f : Form) (field : Value) : Fails Failure.Other (f.current field) := by
  unfold current
  split
  · exact fails_ok _
  · exact fails_bind (Value.other_reach _ _) fun _ => fails_ok _

theorem other_given (attributes : Value) : FailsIn Failure.Other (given attributes) := Value.other_entriesOf _

theorem other_submit (f : Form) (attributes : Value) : FailsIn Failure.Other (f.submit attributes) :=
  failsIn_bind (other_given _) fun _ => failsIn_pure _

theorem other_button (f : Form) (attributes : Value) : FailsIn Failure.Other (f.button attributes) :=
  failsIn_bind (other_given _) fun _ => failsIn_pure _

theorem other_labelFor (f : Form) (field : Value) : FailsIn Failure.Other (f.labelFor field) :=
  failsIn_bind (other_config f field) fun _ => failsIn_pure _

theorem other_controlElement (f : Form) (type : Value) (config es : Entries) :
    FailsIn Failure.Other (f.controlElement type config es) := by
  unfold controlElement
  split
  · exact failsIn_bind (other_given _) fun _ => failsIn_bind (failsIn_lift (Value.other_mappingEntries _)) fun _ =>
      failsIn_pure _
  · split <;> exact failsIn_pure _

theorem other_errorsFor (f : Form) (field : Value) : FailsIn Failure.Other (f.errorsFor field) := by
  unfold errorsFor
  split
  · exact failsIn_bind (Value.other_items _) fun _ => failsIn_pure _
  · exact failsIn_pure _

theorem other_control (f : Form) (field attributes : Value) (labelled : Bool) :
    FailsIn Failure.Other (f.control field attributes labelled) := by
  refine failsIn_bind (other_config f field) fun c => failsIn_bind (other_given attributes) fun es =>
    failsIn_bind (failsIn_lift (other_current f field)) fun v => ?_
  split
  · exact failsIn_bind (other_labelFor f field) fun _ => failsIn_bind (other_controlElement f _ c _) fun _ =>
      failsIn_bind (other_errorsFor f field) fun _ => failsIn_pure _
  · exact failsIn_bind (failsIn_pure _) fun _ => failsIn_bind (other_controlElement f _ c _) fun _ =>
      failsIn_bind (other_errorsFor f field) fun _ => failsIn_pure _

/-- **A whole form** fails with no reference. -/
theorem other_generate (f : Form) (attributes : Value) (submitting : Bool) :
    FailsIn Failure.Other (f.generate attributes submitting) := by
  have hfields : Fails Failure.Other f.fields := fails_bind (Value.other_mappingEntries _) fun _ => fails_ok _
  refine failsIn_bind (failsIn_lift (other_openTag f attributes)) fun head =>
    failsIn_bind (failsIn_lift hfields) fun names =>
      failsIn_bind (failsIn_mapM (fun n => other_control f n .none true) names) fun controls => ?_
  split
  · exact failsIn_bind (other_submit f .none) fun _ => failsIn_pure _
  · exact failsIn_bind (failsIn_pure _) fun _ => failsIn_pure _

end Form

/-! ## Expressions and conditions -/

/-- the references that an expression demands a value of -/
def Expr.demands : Expr → List Text
  | demand _ reference => [reference]
  | _ => []

/-- the references that a test demands a value of -/
def Test.demands : Test → List Text
  | truth e => e.demands
  | compare _ l r => l.demands ++ r.demands

/-- the references that a condition demands a value of -/
def Condition.demands (c : Condition) : List Text :=
  c.first.test.demands ++ c.rest.flatMap fun p => p.2.test.demands

/-- the references that a statement demands a value of -/
def Stmt.demands : Stmt → List Text
  | emit e => e.demands
  | iterate _ e => e.demands
  | when c => c.demands
  | elsewhen c => c.demands
  | formOpen e _ _ => e.demands
  | generate e _ _ _ => e.demands
  | translate _ _ params => params.flatMap fun p => p.2.demands
  | _ => []

theorem other_literal (l : Literal) : Fails Failure.Other l.eval := by
  unfold Literal.eval
  split
  · exact fails_error trivial
  · exact fails_ok _

section

variable {reach : Reach} (hreach : ∀ path, Fails Failure.Other (reach path))

include hreach

theorem other_eval {e : Expr} (he : e.demands = []) : Fails Failure.Other (e.eval reach) := by
  cases e with
  | literal l => exact other_literal l
  | lookup path default =>
    exact fails_bind (other_literal default) fun _ => fails_bind (hreach path) fun _ => fails_ok _
  | demand path reference => cases he

theorem other_reaches (path : List Segment) : Fails Failure.Other (reaches reach path) := by
  refine fails_bind (hreach path) fun found => ?_
  cases found <;> exact fails_ok _

theorem other_test {t : Test} (ht : t.demands = []) : Fails Failure.Other (t.eval reach) := by
  cases t with
  | truth e => exact fails_bind (other_eval hreach ht) fun _ => fails_ok _
  | compare op l r =>
    obtain ⟨hl, hr⟩ := List.append_eq_nil_iff.1 ht
    exact fails_bind (other_eval hreach hl) fun _ => fails_bind (other_eval hreach hr) fun _ => fails_ok _

theorem other_clause {c : Clause} (hc : c.test.demands = []) : Fails Failure.Other (c.eval reach) :=
  fails_bind (other_test hreach hc) fun _ => fails_ok _

theorem other_evalRest {rest : List (Connective × Clause)} (hrest : ∀ p ∈ rest, p.2.test.demands = []) (b : Bool) :
    Fails Failure.Other (evalRest reach b rest) := by
  induction rest generalizing b with
  | nil => exact fails_ok b
  | cons p rest ih =>
    obtain ⟨hp, hmore⟩ := List.forall_mem_cons.1 hrest
    obtain ⟨connective, c⟩ := p
    cases connective with
    | and =>
      cases b with
      | true => exact fails_bind (other_clause hreach hp) fun _ => ih hmore _
      | false => exact ih hmore false
    | or =>
      cases b with
      | true => exact fails_ok true
      | false => exact fails_bind (other_clause hreach hp) fun _ => ih hmore _

/-- **A condition** that demands no value fails with no reference. -/
theorem other_condition {c : Condition} (hc : c.demands = []) : Fails Failure.Other (c.eval reach) := by
  obtain ⟨hfirst, hrest⟩ := List.append_eq_nil_iff.1 hc
  exact fails_bind (other_clause hreach hfirst) fun _ => other_evalRest hreach (List.flatMap_eq_nil_iff.1 hrest) _

end

/-! ## Statements -/

theorem other_stateReach (s : State) (path : List Segment) : Fails Failure.Other (s.reach path) := by
  unfold State.reach
  split
  · split
    · exact fails_ok _
    · split
      · exact fails_ok _
      · exact fails_map (Value.other_reachAll _ _) _
  · exact fails_ok _

theorem other_outputText (escaping : Bool) (v : Value) : Fails Failure.Other (outputText escaping v) := by
  unfold outputText
  split
  case h_4 =>
    split
    · exact fails_error trivial
    · exact fails_ok _
  all_goals exact fails_ok _

namespace Render

theorem other_evalNow {e : Expr} (he : e.demands = []) : FailsIn Failure.Other (eval e) :=
  failsIn_bind failsIn_get fun s => failsIn_lift (other_eval (other_stateReach s) he)

theorem other_holds {c : Condition} (hc : c.demands = []) : FailsIn Failure.Other (holds c) :=
  failsIn_bind failsIn_get fun s => failsIn_lift (other_condition (other_stateReach s) hc)

theorem other_reached (path : List Segment) : FailsIn Failure.Other (reached path) :=
  failsIn_bind failsIn_get fun s => failsIn_lift (other_reaches (other_stateReach s) path)

theorem other_temporary (n : Nat) : FailsIn Failure.Other (temporary n) := by
  refine failsIn_bind failsIn_get fun s => ?_
  split
  · exact failsIn_pure _
  · exact failsIn_throw trivial

theorem other_setTemporary (n : Nat) (t : Temporary) : FailsIn Failure.Other (setTemporary n t) := failsIn_modify _

theorem other_entries (n : Nat) : FailsIn Failure.Other (entries n) := by
  refine failsIn_bind (other_temporary n) fun t => ?_
  split
  · exact failsIn_pure _
  · exact failsIn_throw trivial

theorem other_value (n : Nat) : FailsIn Failure.Other (value n) := by
  refine failsIn_bind (other_temporary n) fun t => ?_
  split
  · exact failsIn_pure _
  · exact failsIn_throw trivial

theorem other_textOf (n : Nat) : FailsIn Failure.Other (textOf n) := by
  refine failsIn_bind (other_temporary n) fun t => ?_
  split
  · exact failsIn_pure _
  · exact failsIn_throw trivial

theorem other_changeLoop (f : Loop → Loop) : FailsIn Failure.Other (changeLoop f) := by
  refine failsIn_bind failsIn_get fun s => ?_
  split
  · exact failsIn_set _
  · exact failsIn_throw trivial

theorem other_form : FailsIn Failure.Other form := by
  refine failsIn_bind failsIn_get fun s => ?_
  split
  · exact failsIn_pure _
  · exact failsIn_throw trivial

theorem other_write (t : Text) : FailsIn Failure.Other (write t) := failsIn_modify _

theorem other_convert (v : Value) : FailsIn Failure.Other (convert v) :=
  failsIn_bind failsIn_get fun s => failsIn_lift (other_outputText s.escaping v)

theorem other_emit (v : Value) : FailsIn Failure.Other (emit v) :=
  failsIn_bind (other_convert v) fun t => other_write t

theorem other_captureEnd (name : Text) : FailsIn Failure.Other (captureEnd name) := by
  refine failsIn_bind failsIn_get fun s => ?_
  split
  · exact failsIn_throw trivial
  · exact failsIn_bind (failsIn_set _) fun _ => failsIn_pure _

theorem other_makeForm (entity : Value) (name : Text) (attributes : Value) :
    FailsIn Failure.Other (makeForm entity name attributes) :=
  failsIn_bind failsIn_get fun _ => failsIn_bind (failsIn_lift (Value.other_get? _ _)) fun _ =>
    failsIn_work (Form.other_make _ _ _ _ _ _)

theorem other_convertParameters (es : Entries) : FailsIn Failure.Other (convertParameters es) := by
  refine failsIn_mapM (fun e => ?_) es
  exact failsIn_bind (other_convert e.2) fun _ => failsIn_pure _

theorem other_translate (key params : Value) : FailsIn Failure.Other (translate key params) :=
  failsIn_bind (failsIn_lift (Value.other_mappingEntries _)) fun es =>
    failsIn_bind (other_convertParameters es) fun _ =>
      failsIn_bind failsIn_get fun s => failsIn_bind (failsIn_work (s.catalog.other_translate _ _)) fun _ =>
        failsIn_bind (failsIn_modify _) fun _ => failsIn_pure _

theorem other_parameters {params : List (Text × Expr)} (h : ∀ p ∈ params, p.2.demands = []) :
    FailsIn Failure.Other (parameters params) := by
  refine failsIn_bind ?_ fun _ => failsIn_pure _
  induction params with
  | nil => exact failsIn_pure _
  | cons p params ih =>
    obtain ⟨hp, hparams⟩ := List.forall_mem_cons.1 h
    rw [List.mapM_cons]
    exact failsIn_bind (failsIn_bind (other_evalNow hp) fun _ => failsIn_pure _) fun _ =>
      failsIn_bind (ih hparams) fun _ => failsIn_pure _

/-- **A statement that demands no value** fails with no reference. -/
theorem other_exec {s : Stmt} (h : s.demands = []) : FailsIn Failure.Other (exec s) := by
  cases s
  case write t => exact other_write t
  case emit e => exact failsIn_bind (other_evalNow h) fun v => other_emit v
  case iterate n e =>
    exact failsIn_bind (other_evalNow h) fun v => failsIn_bind (failsIn_work v.other_pairs) fun _ =>
      other_setTemporary n _
  case loopOpen n => exact failsIn_bind (other_entries n) fun _ => failsIn_modify _
  case scopeLoop => exact failsIn_modify _
  case iterationBegin n => exact failsIn_bind (other_value n) fun _ => other_changeLoop _
  case bind name half => cases half <;> exact failsIn_bind (other_value _) fun _ => failsIn_modify _
  case iterationEnd => exact other_changeLoop _
  case scopeClose => exact failsIn_modify _
  case loopClose => exact failsIn_modify _
  case captureBegin => exact failsIn_modify _
  case captureEnd name => exact failsIn_bind (other_captureEnd name) fun _ => failsIn_pure _
  case formOpen e name attributes =>
    exact failsIn_bind (other_evalNow h) fun _ => failsIn_bind (other_makeForm _ _ _) fun _ => failsIn_modify _
  case writeFormOpen =>
    exact failsIn_bind other_form fun f => failsIn_bind (failsIn_lift (f.other_openTag _)) fun _ => other_write _
  case scopeForm => exact failsIn_modify _
  case writeFormClose => exact failsIn_bind other_form fun _ => other_write _
  case formClose => exact failsIn_modify _
  case field name attributes labelled =>
    exact failsIn_bind other_form fun f => failsIn_bind (failsIn_work (f.other_control _ _ _)) fun _ => other_write _
  case submit attributes =>
    exact failsIn_bind other_form fun f => failsIn_bind (failsIn_work (f.other_submit _)) fun _ => other_write _
  case button attributes =>
    exact failsIn_bind other_form fun f => failsIn_bind (failsIn_work (f.other_button _)) fun _ => other_write _
  case generate e name attributes submitting =>
    exact failsIn_bind (other_evalNow h) fun _ => failsIn_bind (other_makeForm _ _ _) fun f =>
      failsIn_bind (failsIn_work (f.other_generate _ _)) fun _ => other_write _
  case translate n key params =>
    exact failsIn_bind (other_parameters (List.flatMap_eq_nil_iff.1 h)) fun _ =>
      failsIn_bind (other_translate _ _) fun _ => other_setTemporary n _
  case writeText n =>
    refine failsIn_bind (other_textOf n) fun t => ?_
    cases t with
    | some t => exact other_write t
    | none => exact failsIn_throw trivial
  all_goals exact failsIn_pure _

end Render

/-! ## Before a render -/

theorem other_scopeOf (data : Value) (values : List (Text × Value)) :
    Fails Failure.Other (Template.scopeOf data values) := by
  unfold Template.scopeOf
  split
  · exact fails_error trivial
  · exact Value.other_merge _ _

theorem other_toCatalog (phrases : Phrases) : FailsIn Failure.Other phrases.toCatalog := by
  cases phrases with
  | catalog c => exact failsIn_pure c
  | value v => exact Catalog.other_ofValue v _

end Stencil
