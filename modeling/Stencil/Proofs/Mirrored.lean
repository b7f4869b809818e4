/-
WORK ON WHAT IS SEEN. Work that takes items off streams, and the work of forms, is done on what is seen of values as on
the values themselves: streams are asked as often, it fails for the same reason, and what it gives is seen of what it
gives there, or the same text.

- `Mirrors`: work on what is seen does what the work on the whole does; `mirrors_bind` to `mirrors_foldlM`: the rules
  for putting work together.
- `mirrors_items`, `mirrors_pairs`, `mirrors_entriesOf`: what streams and containers give.
- `Form.seen`: what is seen of a form; `mirrors_make`: a form is made of what is seen of its entity.
- `mirrors_control`, `mirrors_generate`: the text of a control and of a whole form.
-/
import Stencil.Proofs.Runs
import Stencil.Proofs.Seen

namespace Stencil

/-! ## Work put together -/

section

variable {σ α β γ δ ε ζ : Type} {g : σ → σ} {f : α → γ}

/-- the second work does on what is seen of a state what the first does on the state: it fails with it, and gives what
is seen of its result -/
def Mirrors (g : σ → σ) (f : α → γ) (x : ExceptT Failure (StateM σ) α) (y : ExceptT Failure (StateM σ) γ) : Prop :=
  ∀ s, y.run.run (g s) = ((x.run.run s).1.map f, g (x.run.run s).2)

theorem mirrors_pure {a : α} {c : γ} (h : c = f a) : Mirrors g f (pure a) (pure c) := fun s => by
  rw [h]
  rfl

theorem mirrors_throw (e : Failure) : Mirrors g f (throw e) (throw e) := fun _ => rfl

theorem mirrors_get : Mirrors g g get get := fun _ => rfl

theorem mirrors_set (s : σ) : Mirrors g id (set s) (set (g s)) := fun _ => rfl

theorem mirrors_modify {m m' : σ → σ} (h : ∀ s, m' (g s) = g (m s)) : Mirrors g id (modify m) (modify m') :=
  fun s => congrArg (Prod.mk _) (h s)

theorem mirrors_lift {x : Except Failure α} {y : Except Failure γ} (h : y = x.map f) :
    Mirrors g f (liftM x) (liftM y) := fun s => by
  rw [run_lift, run_lift, h]

theorem mirrors_lift_same {x y : Except Failure α} (h : y = x) : Mirrors g id (liftM x) (liftM y) :=
  mirrors_lift (by rw [h, Except.map_id, id])

theorem mirrors_bind {x : ExceptT Failure (StateM σ) α} {y : ExceptT Failure (StateM σ) γ}
    {k : α → ExceptT Failure (StateM σ) β} {l : γ → ExceptT Failure (StateM σ) δ} {f' : β → δ} (h : Mirrors g f x y)
    (hk : ∀ a, Mirrors g f' (k a) (l (f a))) : Mirrors g f' (x >>= k) (y >>= l) := by
  intro s
  rw [run_bind, run_bind, h s]
  rcases x.run.run s with ⟨r, s'⟩
  cases r with
  | error e => rfl
  | ok a => exact hk a s'

theorem mirrors_mapM {k : ε → ExceptT Failure (StateM σ) α} {l : ζ → ExceptT Failure (StateM σ) γ} {m : ε → ζ}
    {as : List ε} (hk : ∀ a ∈ as, Mirrors g f (k a) (l (m a))) :
    Mirrors g (List.map f) (as.mapM k) ((as.map m).mapM l) := by
  induction as with
  | nil => exact mirrors_pure rfl
  | cons a as ih =>
    obtain ⟨ha, has⟩ := List.forall_mem_cons.1 hk
    rw [List.map_cons, List.mapM_cons, List.mapM_cons]
    exact mirrors_bind ha fun c => mirrors_bind (ih has) fun cs => mirrors_pure rfl

theorem mirrors_forM {k : ε → ExceptT Failure (StateM σ) PUnit} {l : ζ → ExceptT Failure (StateM σ) PUnit} {m : ε → ζ}
    (hk : ∀ a, Mirrors g id (k a) (l (m a))) (as : List ε) : Mirrors g id (as.forM k) ((as.map m).forM l) := by
  induction as with
  | nil => exact mirrors_pure rfl
  | cons a as ih => exact mirrors_bind (hk a) fun _ => ih

theorem mirrors_foldlM {k : α → ε → ExceptT Failure (StateM σ) α} {l : γ → ζ → ExceptT Failure (StateM σ) γ} {m : ε → ζ}
    (hk : ∀ c a, Mirrors g f (k c a) (l (f c) (m a))) (as : List ε) (c : α) :
    Mirrors g f (as.foldlM k c) ((as.map m).foldlM l (f c)) := by
  induction as generalizing c with
  | nil => exact mirrors_pure rfl
  | cons a as ih =>
    rw [List.map_cons, List.foldlM_cons, List.foldlM_cons]
    exact mirrors_bind (hk c a) fun c' => ih c'

end

/-! ## Items -/

namespace Value

variable (v : Value) (es : Entries)

/-- **The items** that are still to come are seen of those of the value. -/
theorem mirrors_items : Mirrors id (List.map seen) v.items v.seen.items := by
  have hplain (h : v.kind ≠ .stream) : Mirrors id (List.map seen) v.items v.seen.items := by
    have hitems (w : Value) (hw : w.kind ≠ .stream) :
        w.items = w.plainItems?.elim (throw .notIterable) pure := by
      cases w with
      | stream id xs => exact absurd rfl hw
      | _ => rfl
    rw [hitems v h, hitems v.seen (by rwa [kind_seen]), plainItems?_seen]
    cases v.plainItems? with
    | none => exact mirrors_throw _
    | some xs => exact mirrors_pure rfl
  by_cases h : v.kind = .stream
  · cases v with
    | stream id xs =>
      rw [seen_stream, items, items, List.length_map]
      exact mirrors_bind mirrors_get fun asked => mirrors_bind (mirrors_set _) fun _ =>
        mirrors_pure (List.map_drop).symm
    | _ => cases h
  · exact hplain h

/-- **What a loop goes through** is seen of what it goes through in the value. -/
theorem mirrors_pairs : Mirrors id (List.map seenEntry) v.pairs v.seen.pairs := by
  cases v with
  | mapping es =>
    rw [seen_mapping]
    exact mirrors_pure rfl
  | list xs id =>
    rw [seen_list]
    exact mirrors_pure (numbered_seen xs)
  | tuple xs id =>
    rw [seen_tuple]
    exact mirrors_pure (numbered_seen xs)
  | range start stop step id =>
    have hitems : (rangeItems start stop step).map seen = rangeItems start stop step := by simp [rangeItems]
    refine mirrors_pure ?_
    rw [← numbered_seen, hitems]
  | stream id xs =>
    have h := mirrors_items (.stream id xs)
    rw [seen_stream] at h ⊢
    exact mirrors_bind h fun ys => mirrors_pure (numbered_seen ys)
  | _ => exact mirrors_pure rfl

theorem mirrors_pairOf : Mirrors id seenEntry v.pairOf v.seen.pairOf := by
  refine mirrors_bind (mirrors_items v) fun xs => ?_
  match xs with
  | [] => exact mirrors_throw _
  | [k] => exact mirrors_throw _
  | [k, x] => exact mirrors_pure rfl
  | k :: x :: y :: ys => exact mirrors_throw _

theorem mirrors_addItem : Mirrors id (List.map seenEntry) (addItem es v) (addItem (es.map seenEntry) v.seen) := by
  refine mirrors_bind (mirrors_pairOf v) fun e => ?_
  simp only [seenEntry, isKey_seen]
  split
  · exact mirrors_pure (put_seen _ _ _)
  · exact mirrors_throw _

theorem mirrors_addAsked (n : Nat) :
    Mirrors id (List.map seenEntry) (addAsked n es v) (addAsked n (es.map seenEntry) v.seen) :=
  mirrors_bind (mirrors_modify fun _ => rfl) fun _ => mirrors_addItem v es

/-- **The entries that a value gives** are seen of those of the value. -/
theorem mirrors_entriesOf : Mirrors id (List.map seenEntry) v.entriesOf v.seen.entriesOf := by
  have hplain : Mirrors id (List.map seenEntry) (v.items >>= fun xs => xs.foldlM addItem [])
      (v.seen.items >>= fun xs => xs.foldlM addItem []) :=
    mirrors_bind (mirrors_items v) fun xs => mirrors_foldlM (fun es x => mirrors_addItem x es) xs []
  cases v with
  | mapping es =>
    rw [seen_mapping]
    exact mirrors_pure rfl
  | stream id xs =>
    rw [seen_stream, entriesOf, entriesOf, List.length_map]
    refine mirrors_bind mirrors_get fun asked => ?_
    rw [← List.map_drop]
    exact mirrors_bind (mirrors_foldlM (fun es x => mirrors_addAsked x es id) _ []) fun es =>
      mirrors_bind (mirrors_modify fun _ => rfl) fun _ => mirrors_pure rfl
  | range start stop step id =>
    simp only [entriesOf, seen]
    split
    · exact mirrors_pure rfl
    · exact mirrors_throw _
  | _ => exact hplain

end Value

/-! ## What is seen of a form -/

namespace Form

open Value (seen seenEntry)

/-- what is seen of a form -/
def seen (f : Form) : Form :=
  ⟨f.entity.seen, f.name, f.mapping.seen, f.attributes.seen, f.errors.map seenEntry, f.escaping⟩

variable (f : Form) (v w field : Value) (es options : Entries)

theorem ownErrors_seen : ownErrors v.seen = (ownErrors v).map seenEntry := by
  rw [ownErrors, ownErrors, Value.attribute?_seen v rfl]
  cases v.attribute? "errors" with
  | none => rfl
  | some errors =>
    simp only [Option.map_some, Option.bind_some, Value.entries?_seen]
    cases errors.entries? <;> rfl

/-- **A form made** of what is seen of its entity is seen of the form made of the entity. -/
theorem mirrors_make (name : Text) (mapping errors attributes : Value) (escaping : Bool) :
    Mirrors id seen (make v name mapping errors attributes escaping)
      (make v.seen name mapping.seen errors.seen attributes.seen escaping) := by
  have hform (given : Entries) : Mirrors id seen
      (pure ⟨v, name, mapping.orEmpty, attributes.orEmpty, Value.putAll (ownErrors v) given, escaping⟩ : Work Form)
      (pure ⟨v.seen, name, mapping.seen.orEmpty, attributes.seen.orEmpty,
        Value.putAll (ownErrors v.seen) (given.map seenEntry), escaping⟩) := by
    refine mirrors_pure ?_
    rw [seen, Value.orEmpty_seen, Value.orEmpty_seen, ownErrors_seen, Value.putAll_seen]
  unfold make
  rw [Value.truthy_seen]
  split
  · exact mirrors_bind (Value.mirrors_entriesOf errors) hform
  · exact mirrors_bind (mirrors_pure (f := List.map seenEntry) rfl) hform

theorem value_seen (fs : List Form) : (value fs).seen = value (fs.map seen) := by
  induction fs with
  | nil => rfl
  | cons f fs ih =>
    rw [List.map_cons, value, value, Value.seen, ih, Value.seen_mapping, List.length_map]
    rfl

/-! ## Text -/

theorem valueText_seen : f.seen.valueText v.seen = f.valueText v := by
  rw [valueText, valueText, Value.isNone_seen, Value.display_seen]
  rfl

theorem attributesText_seen : f.seen.attributesText (es.map seenEntry) = f.attributesText es := by
  have hattribute (e : Value × Value) : f.seen.attributeText (seenEntry e) = f.attributeText e := by
    simp only [attributeText, seenEntry, Value.isNone_seen, Value.display_seen, valueText_seen]
  simp only [attributesText, List.flatMap_map, hattribute]

theorem element_seen (tag content : Text) :
    f.seen.element tag (es.map seenEntry) content = f.element tag es content := by
  rw [element, element, attributesText_seen]

theorem openTag_seen : f.seen.openTag v.seen = f.openTag v := by
  unfold openTag
  rw [Value.orEmpty_seen]
  show (f.attributes.seen.merge _ >>= _) = _
  rw [Value.merge_seen]
  cases f.attributes.merge v.orEmpty with
  | error e => rfl
  | ok es =>
    show Except.ok (Text.cat ["<form", f.seen.attributesText (es.map seenEntry), ">"]) = _
    rw [attributesText_seen]
    rfl

theorem labelElement_seen : f.seen.labelElement v.seen (es.map seenEntry) = f.labelElement v es := by
  rw [labelElement, labelElement, element_seen, valueText_seen]

theorem inputElement_seen : f.seen.inputElement v.seen (es.map seenEntry) = f.inputElement v es := by
  rw [inputElement, inputElement, Value.put_ofString_seen, attributesText_seen]

theorem splitValue_seen :
    splitValue (es.map seenEntry) = ((splitValue es).1.seen, (splitValue es).2.map seenEntry) := by
  have herase := Value.erase_seen (.ofString "value") es
  rw [splitValue, Value.find?_ofString_seen, Value.seen_getD _ Value.seen_none]
  exact congrArg (Prod.mk _) herase

theorem valueElement_seen (tag : Text) : f.seen.valueElement tag (es.map seenEntry) = f.valueElement tag es := by
  rw [valueElement, valueElement, splitValue_seen]
  show f.seen.element tag ((splitValue es).2.map seenEntry) (f.seen.valueText (splitValue es).1.seen) = _
  rw [element_seen, valueText_seen]

theorem option_seen : f.seen.option v.seen w.seen field.seen = f.option v w field := by
  have heq := Value.eq_seen v (.text field.display)
  simp only [option, Value.isNone_seen, Value.display_seen, valueText_seen]
  rw [← heq]
  rfl

theorem selectElement_seen :
    f.seen.selectElement (options.map seenEntry) (es.map seenEntry) = f.selectElement options es := by
  have hoption (o : Value × Value) :
      f.seen.option (.text (seenEntry o).1.display) (.text (seenEntry o).2.display) (splitValue es).1.seen =
        f.option (.text o.1.display) (.text o.2.display) (splitValue es).1 := by
    have h := option_seen f (.text o.1.display) (.text o.2.display) (splitValue es).1
    simp only [seenEntry, Value.display_seen]
    exact h
  rw [selectElement, selectElement, splitValue_seen]
  show f.seen.element "select" ((splitValue es).2.map seenEntry) ((options.map seenEntry).flatMap _) = _
  rw [element_seen, List.flatMap_map]
  simp only [hoption]

theorem errorElement_seen : f.seen.errorElement v.seen = f.errorElement v := by
  rw [errorElement, errorElement, valueText_seen]

/-! ## Controls -/

theorem fields_seen : f.seen.fields = f.fields.map (List.map Value.seen) := by
  have hconfigured (e : Value × Value) : isConfigured (seenEntry e) = isConfigured e := by
    obtain ⟨k, v⟩ := e
    cases v with
    | mapping es =>
      simp only [isConfigured, seenEntry, Value.seen_mapping, Value.find?_ofString_seen,
        Value.seen_getD _ Value.seen_none, Value.truthy_seen]
    | _ => rfl
  unfold fields
  show (f.mapping.seen.mappingEntries >>= _) = _
  rw [Value.mappingEntries_seen]
  cases f.mapping.mappingEntries with
  | error e => rfl
  | ok es =>
    show Except.ok (((es.map seenEntry).filter isConfigured).map (·.1)) =
      Except.ok (((es.filter isConfigured).map (·.1)).map Value.seen)
    simp only [List.filter_map, List.map_map, Function.comp_def, hconfigured]
    rfl

theorem mirrors_config : Mirrors id (List.map seenEntry) (f.config field) (f.seen.config field.seen) := by
  refine mirrors_bind (mirrors_lift (Value.get?_seen f.mapping field)) fun entry => ?_
  rw [Value.seen_getD _ Value.seen_none, Value.orEmpty_seen]
  refine mirrors_bind (mirrors_lift (Value.get?_seen _ (.ofString "form"))) fun settings => ?_
  rw [Value.seen_getD _ Value.seen_none, Value.orEmpty_seen]
  exact Value.mirrors_entriesOf _

theorem current_seen : f.seen.current field.seen = (f.current field).map Value.seen := by
  unfold current
  show (if f.entity.seen.isNone then _ else f.entity.seen.reach field.seen >>= _) = _
  rw [Value.isNone_seen, Value.reach_seen]
  split
  · rfl
  · cases f.entity.reach field with
    | error e => rfl
    | ok w =>
      show Except.ok (if w.seen.isMissing then .none else w.seen) =
        Except.ok (Value.seen (if w.isMissing then .none else w))
      rw [Value.isMissing_seen]
      cases w.isMissing <;> rfl

theorem mirrors_given : Mirrors id (List.map seenEntry) (given v) (given v.seen) := by
  rw [given, given, Value.orEmpty_seen]
  exact Value.mirrors_entriesOf _

theorem mirrors_submit : Mirrors id id (f.submit v) (f.seen.submit v.seen) :=
  mirrors_bind (mirrors_given v) fun es => mirrors_pure (inputElement_seen f (.ofString "submit") es)

theorem mirrors_button : Mirrors id id (f.button v) (f.seen.button v.seen) :=
  mirrors_bind (mirrors_given v) fun es => mirrors_pure (valueElement_seen f es "button")

theorem mirrors_select : Mirrors id id (f.select v w) (f.seen.select v.seen w.seen) :=
  mirrors_bind (mirrors_given w) fun es => mirrors_bind (mirrors_lift (Value.mappingEntries_seen v)) fun os =>
    mirrors_pure (selectElement_seen f es os)

theorem mirrors_labelFor : Mirrors id id (f.labelFor field) (f.seen.labelFor field.seen) := by
  refine mirrors_bind (mirrors_config f field) fun c => mirrors_pure ?_
  rw [Value.find?_ofString_seen, Option.getD_map Value.seen]
  exact labelElement_seen f _ []

theorem mirrors_controlElement : Mirrors id id (f.controlElement v options es)
    (f.seen.controlElement v.seen (options.map seenEntry) (es.map seenEntry)) := by
  unfold controlElement
  rw [Value.eq_ofString_seen, Value.eq_ofString_seen, Value.find?_ofString_seen, Value.seen_getD _ Value.seen_none,
    Value.orEmpty_seen, ← Value.seen_mapping]
  split
  · exact mirrors_select f _ (.mapping es)
  · split
    · exact mirrors_pure (valueElement_seen f es "textarea")
    · exact mirrors_pure (inputElement_seen f v es)

theorem mirrors_errorsFor : Mirrors id id (f.errorsFor field) (f.seen.errorsFor field.seen) := by
  have hfind : Value.find? field.seen f.seen.errors = (Value.find? field f.errors).map Value.seen :=
    Value.find?_seen field f.errors
  unfold errorsFor
  rw [hfind]
  cases Value.find? field f.errors with
  | none => exact mirrors_pure rfl
  | some messages =>
    refine mirrors_bind (Value.mirrors_items messages) fun ms => mirrors_pure ?_
    simp only [List.flatMap_map, errorElement_seen, id]

theorem controlName_seen : f.seen.controlName field.seen = f.controlName field := by
  rw [controlName, controlName, Value.display_seen]
  rfl

theorem controlAttributes_seen :
    f.seen.controlAttributes field.seen v.seen (es.map seenEntry) = (f.controlAttributes field v es).map seenEntry := by
  rw [controlAttributes, controlAttributes, controlName_seen, ← Value.put_ofString_seen, ← Value.put_ofString_seen,
    Value.seen_text]

/-- **The control of a field** has the same text for what is seen of the form. -/
theorem mirrors_control (labelled : Bool) :
    Mirrors id id (f.control field v labelled) (f.seen.control field.seen v.seen labelled) := by
  refine mirrors_bind (mirrors_config f field) fun c => mirrors_bind (mirrors_given v) fun es =>
    mirrors_bind (mirrors_lift (current_seen f field)) fun w => ?_
  have htype : (Value.find? (.ofString "type") (c.map seenEntry)).getD (.ofString "text") =
      ((Value.find? (.ofString "type") c).getD (.ofString "text")).seen := by
    rw [Value.find?_ofString_seen]
    exact Value.seen_getD _ rfl
  rw [htype, controlAttributes_seen]
  generalize (Value.find? (.ofString "type") c).getD (.ofString "text") = type
  rw [Value.eq_ofString_seen]
  split
  · exact mirrors_bind (mirrors_labelFor f field) fun _ => mirrors_bind (mirrors_controlElement f type _ c) fun _ =>
      mirrors_bind (mirrors_errorsFor f field) fun _ => mirrors_pure rfl
  · exact mirrors_bind (mirrors_pure (f := id) rfl) fun _ => mirrors_bind (mirrors_controlElement f type _ c) fun _ =>
      mirrors_bind (mirrors_errorsFor f field) fun _ => mirrors_pure rfl

/-- **A whole form** has the same text for what is seen of it. -/
theorem mirrors_generate (submitting : Bool) :
    Mirrors id id (f.generate v submitting) (f.seen.generate v.seen submitting) := by
  refine mirrors_bind (mirrors_lift_same (openTag_seen f v)) fun head =>
    mirrors_bind (mirrors_lift (fields_seen f)) fun names =>
      mirrors_bind (mirrors_mapM fun n _ => mirrors_control f .none n true) fun controls => ?_
  rw [List.map_id]
  split
  · exact mirrors_bind (mirrors_submit f .none) fun _ => mirrors_pure rfl
  · exact mirrors_bind (mirrors_pure (f := id) rfl) fun _ => mirrors_pure rfl

end Form

end Stencil
