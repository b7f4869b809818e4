/-
BOUND CONTROLS. Whatever attributes are given to the control of a field, its name and its value are those of the entity,
and the type of an input is the configured one. All other attributes stand as they are given, in their order.

- `filter_putAt`, `filter_putAt_self`: a name that is put under a value has it once, and the others keep their places.
- `Bound`: attributes among which some are a form's own.
- `binding_wins`: the control of a field, with its label.
-/
import Stencil.Proofs.Controls

namespace Stencil

/-! ## Putting among others -/

section

variable {α : Type} {k : Text} {l : List (Text × α)} (v : α)

theorem filter_putAt {p : Text → Bool} (hp : p k = false) :
    ((putAt k v l).filter fun e => p e.1) = l.filter fun e => p e.1 := by
  induction l with
  | nil => rw [putAt, List.filter_cons, hp]; rfl
  | cons e l ih =>
    rw [putAt]
    split
    · rename_i heq
      have hleft : p e.1 = false := by rw [beq_iff_eq.1 heq, hp]
      rw [List.filter_cons, List.filter_cons, hleft]
      rfl
    · rw [List.filter_cons, List.filter_cons, ih]

/-- a name that stands once at most has one value when one is put under it -/
theorem filter_putAt_self (h : (l.map Prod.fst).Nodup) : ((putAt k v l).filter fun e => e.1 == k) = [(k, v)] := by
  induction l with
  | nil => rw [putAt, List.filter_cons, beq_self_eq_true]; rfl
  | cons e l ih =>
    obtain ⟨hnew, h⟩ := List.nodup_cons.1 h
    rw [putAt]
    split
    · rename_i heq
      have hothers : (l.filter fun e => e.1 == k) = [] :=
        List.filter_eq_nil_iff.2 fun e' he' heq' =>
          hnew ((beq_iff_eq.1 heq).trans (beq_iff_eq.1 heq').symm ▸ List.mem_map_of_mem he')
      rw [List.filter_cons, heq, if_pos rfl, hothers, beq_iff_eq.1 heq]
    · rename_i hne
      rw [List.filter_cons, if_neg hne, ih h]

theorem getAt?_self : getAt? k (putAt k v l) = some v := by
  rw [getAt?_putAt, beq_self_eq_true, if_pos rfl]

end

namespace Form

/-! ## Attributes of a form's own -/

theorem filter_attributesOf (p : Text → Bool) (l : List (Text × Value)) :
    ((attributesOf l).filter fun a => p a.1) = attributesOf (l.filter fun e => p e.1) := by
  rw [attributesOf, attributesOf, List.filter_map, List.filter_filter, List.filter_filter]
  simp only [Function.comp_def, Bool.and_comm]

theorem nodup_attributesOf {l : List (Text × Value)} (h : (l.map Prod.fst).Nodup) :
    ((attributesOf l).map Prod.fst).Nodup := by
  rw [attributesOf, List.map_map]
  exact h.sublist (List.filter_sublist.map Prod.fst)

/-- to erase a name is to put nothing under it -/
theorem attributesOf_erase {k : Text} {l : List (Text × Value)} (h : (l.map Prod.fst).Nodup) (v : Value) :
    attributesOf ((putAt k v l).filter fun e => e.1 != k) = attributesOf (putAt k .none l) := by
  have hgone : (fun n : Text => n != k) k = false := bne_self_eq_false k
  have hnone : ((attributesOf (putAt k .none l)).filter fun a => a.1 == k) = [] := by
    rw [filter_attributesOf (· == k), filter_putAt_self _ h]
    rfl
  have hothers : ∀ a ∈ attributesOf (putAt k .none l), (a.1 != k) = true := by
    intro a ha
    have hne := List.filter_eq_nil_iff.1 hnone a ha
    rwa [bne, Bool.not_eq_true', ← Bool.not_eq_true]
  calc attributesOf ((putAt k v l).filter fun e => e.1 != k)
      = attributesOf ((putAt k .none l).filter fun e => e.1 != k) := by
        rw [filter_putAt (p := (· != k)) v hgone, filter_putAt (p := (· != k)) Value.none hgone]
    _ = (attributesOf (putAt k .none l)).filter fun a => a.1 != k := (filter_attributesOf (· != k) _).symm
    _ = attributesOf (putAt k .none l) := List.filter_eq_self.2 hothers

/-- the name is none of a form's own -/
def isOther (own : List (Text × Value)) (n : Text) : Bool := !(own.map Prod.fst).contains n

/-- named values with some of a form's own among them -/
structure Overrides (own given l : List (Text × Value)) : Prop where
  mine : ∀ e ∈ own, (l.filter fun a => a.1 == e.1) = [e]
  others : (l.filter fun a => isOther own a.1) = given.filter fun a => isOther own a.1
  once : (l.map Prod.fst).Nodup

theorem overrides_nil {given : List (Text × Value)} (h : (given.map Prod.fst).Nodup) : Overrides [] given given :=
  ⟨nofun, rfl, h⟩

/-- one name more -/
theorem Overrides.put {own given l : List (Text × Value)} (h : Overrides own given l) {k : Text}
    (hk : k ∉ own.map Prod.fst) (v : Value) : Overrides ((k, v) :: own) given (putAt k v l) := by
  refine ⟨List.forall_mem_cons.2 ⟨filter_putAt_self v h.once, fun e he => ?_⟩, ?_, nodup_putAt v h.once⟩
  · have hne : (k == e.1) = false := beq_false_of_ne fun heq => hk (heq ▸ List.mem_map_of_mem he)
    rw [filter_putAt (p := (· == e.1)) v hne, h.mine e he]
  · -- what stands under none of the names stands under none of those before
    have hsplit (m : List (Text × Value)) : (m.filter fun a => isOther ((k, v) :: own) a.1) =
        (m.filter fun a => isOther own a.1).filter fun a => a.1 != k := by
      rw [List.filter_filter]
      refine List.filter_congr fun a _ => ?_
      simp [isOther, bne]
    have hself : isOther ((k, v) :: own) k = false := by simp [isOther]
    rw [filter_putAt v hself, hsplit, hsplit, h.others]

/-- attributes among which those of a form's own stand with their values, if these are something, and all others as they
are given, in their order; none stands twice -/
structure Bound (own given : List (Text × Value)) (attributes : List (Text × Option Text)) : Prop where
  mine : ∀ e ∈ own, (attributes.filter fun a => a.1 == e.1) = attributesOf [e]
  others : (attributes.filter fun a => isOther own a.1) = attributesOf (given.filter fun a => isOther own a.1)
  once : (attributes.map Prod.fst).Nodup

theorem Overrides.bound {own given l : List (Text × Value)} (h : Overrides own given l) :
    Bound own given (attributesOf l) := by
  refine ⟨fun e he => ?_, ?_, nodup_attributesOf h.once⟩
  · rw [filter_attributesOf (· == e.1), h.mine e he]
  · rw [filter_attributesOf, h.others]

/-! ## The control of a field -/

section

variable {given : List (Text × Value)} (h : (given.map Prod.fst).Nodup) (name value type : Value)

include h

theorem overrides_named : Overrides [("value", value), ("name", name)] given
    (putAt "value" value (putAt "name" name given)) :=
  ((overrides_nil h).put List.not_mem_nil name).put (show "value".toList ∉ ["name".toList] by decide) value

/-- the attributes of an input -/
theorem bound_input : Bound [("type", type), ("value", value), ("name", name)] given
    (attributesOf (putAt "type" type (putAt "value" value (putAt "name" name given)))) :=
  have htype : "type".toList ∉ ["value".toList, "name".toList] := by decide
  ((overrides_named h name value).put htype type).bound

/-- the attributes of an element that has its value in it -/
theorem bound_erased : Bound [("value", .none), ("name", name)] given
    (attributesOf ((putAt "value".toList value (putAt "name".toList name given)).filter (·.1 != "value".toList))) := by
  rw [attributesOf_erase (overrides_nil h |>.put List.not_mem_nil name).once]
  exact (overrides_named h name .none).bound

end

/-- **A field's binding wins.** Of a well-shaped form, whatever attributes with different names are given to the control
of a field, it is written with its label in front of it, if that is asked for and the control is not hidden, and with
the errors of the field behind it. The control is named for the entity and the field, and

- a selection has all options in their order, of which those are selected whose key has the text of the value,
- an area of text has the value as its text,
- any other control is an input with the value and the configured type as attributes, as far as they are something,

and the attributes that are given under other names and are something stand as they are, each once and in order. If the
form escapes and the names have the shape that they have in templates, this is what is read. -/
theorem binding_wins {f : Form} (hf : f.WellShaped) {field : Value} {s : Text} (hfield : field.chars? = some s)
    {attributes : Value} {es : Entries} (hgiven : attributes.orEmpty = .mapping es) (hkeys : Value.TextKeys es)
    (hdistinct : ((Value.named es).map Prod.fst).Nodup) (labelled : Bool) :
    let type := f.typeOf field
    let value := f.boundValue field
    let name : Value := .text (Text.cat [(f.name.take 1).flatMap Text.lower, f.name.drop 1, "[", s, "]"])
    ∃ label element : Markup,
      f.control field attributes labelled = (do
        let errors ← f.errorsFor field
        return f.written (label ++ element) ++ errors) ∧
      label = (if labelled && !type.eq (.ofString "hidden") then labelMarkup (f.labelOf field) else []) ∧
      (if type.eq (.ofString "select") then
        ∃ as, Bound [("value", .none), ("name", name)] (Value.named es) as ∧
          element = elementMarkup "select" as [] ((f.optionsOf field).flatMap (optionMarkup value))
      else if type.eq (.ofString "textarea") then
        ∃ as, Bound [("value", .none), ("name", name)] (Value.named es) as ∧
          element = elementMarkup "textarea" as (shown value) []
      else
        ∃ as, Bound [("type", type), ("value", value), ("name", name)] (Value.named es) as ∧
          element = [(.opening "input" as true, [])]) ∧
      (f.escaping = true → AttributeNames es → Reads (f.written (label ++ element)) (label ++ element)) := by
  intro type value name
  have hname : Value.text (f.controlName field) = name := by
    rw [controlName, Value.display_of_chars? hfield]
  have hvalue (l : List (Text × Value)) : (getAt? "value".toList (putAt "value" value l)).getD .none = value := by
    rw [getAt?_self]
    rfl
  refine ⟨_, _, control_eq hf hfield hgiven hkeys labelled, rfl, ?_, fun hescaping hnames =>
    reads_written hescaping (f.ofForms_control field hnames.isName labelled)⟩
  unfold typedMarkup boundAttributes
  rw [hname]
  split
  · exact ⟨_, bound_erased hdistinct name value, by rw [selectMarkup, hvalue]⟩
  · split
    · exact ⟨_, bound_erased hdistinct name value, by rw [valueMarkup, hvalue]⟩
    · exact ⟨_, bound_input hdistinct name value type, rfl⟩

/-- attributes that try to name an input, to give it a value and a type, and one more -/
theorem binding_wins_over_all :
    let f : Form := ⟨.mapping [(.ofString "mail", .ofString "a@b")], "User",
      .mapping [(.ofString "mail", .mapping [(.ofString "form", .mapping [(.ofString "type", .ofString "email")])])],
      .mapping [], [], true⟩
    let given : Entries := [(.ofString "type", .ofString "z"), (.ofString "value", .ofString "y"),
      (.ofString "class", .ofString "wide"), (.ofString "name", .ofString "x")]
    f.WellShaped ∧ Value.TextKeys given ∧ ((Value.named given).map Prod.fst).Nodup ∧
      ∃ as, Bound [("type", .ofString "email"), ("value", .ofString "a@b"), ("name", .ofString "user[mail]")]
          (Value.named given) as ∧
        f.control (.ofString "mail") (.mapping given) true =
          pure (f.written (labelMarkup (.ofString "mail") ++ [(.opening "input" as true, [])])) := by
  intro f given
  have hf : f.WellShaped := by decide
  have hfield : Value.chars? (.ofString "mail") = some "mail".toList := rfl
  have hkeys : Value.TextKeys given := by decide
  have hdistinct : ((Value.named given).map Prod.fst).Nodup := by decide
  obtain ⟨_, _, hcontrol, rfl, ⟨as, hbound, rfl⟩, -⟩ :=
    binding_wins hf hfield (Value.orEmpty_mapping given) hkeys hdistinct true
  refine ⟨hf, hkeys, hdistinct, as, hbound, hcontrol.trans ?_⟩
  show (pure (f.written _ ++ []) : Work Text) = _
  rw [List.append_nil]
  rfl

/-- an attribute that is given as nothing does not stand, nor does a type that is configured as nothing -/
theorem nothing_given :
    let f : Form := ⟨.mapping [(.ofString "a", .ofString "1")], "U",
      .mapping [(.ofString "a", .mapping [(.ofString "form", .mapping [(.ofString "type", .none)])])], .mapping [], [],
      true⟩
    let given : Entries := [(.ofString "class", .none)]
    let as : List (Text × Option Text) := [("name", some "u[a]"), ("value", some "1")]
    f.WellShaped ∧ f.control (.ofString "a") (.mapping given) false =
        pure (f.written [(.opening "input" as true, [])]) ∧
      f.written [(.opening "input" as true, [])] = "<input name=\"u[a]\" value=\"1\" />" ∧
      (∃ e ∈ Value.named given, (as.filter fun a => a.1 == e.1) = []) ∧
      (as.filter fun a => a.1 == "type".toList) = [] := by
  intro f given as
  have hf : f.WellShaped := by decide
  refine ⟨hf, ?_, by decide, ⟨_, List.mem_singleton_self _, rfl⟩, rfl⟩
  rw [control_eq hf rfl (Value.orEmpty_mapping given) (by decide)]
  rfl

end Form

end Stencil
