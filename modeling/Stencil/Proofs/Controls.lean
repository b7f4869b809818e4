/-
FORMS AS MARKUP. A form writes tags with texts between them, and each value, label, option and error that goes into
them is escaped once. So if the form escapes, whatever these are, what it writes is read as the tags of a form, and the
values and texts that are read there are the ones that were put in.

- `Value.named`: entries by the texts that are their keys, so that putting and erasing are those of names.
- `Form.written`, and `elementMarkup` to `generateMarkup`: the markup of each element, with the texts as they are.
- `openTag_eq` to `generate_eq`: what each method of a form writes is that markup, escaped as the form escapes.
- `markup_unbroken`: it is read as that markup.
-/
import Stencil.Proofs.Generated
import Stencil.Proofs.Tags
import Stencil.Proofs.Unfailing

namespace Stencil

@[simp] theorem Text.escapeIf_nil (escaping : Bool) : Text.escapeIf escaping [] = [] := by cases escaping <;> rfl

/-! ## Entries by name -/

namespace Value

/-- the entries of a mapping; none of anything else -/
def entries (v : Value) : Entries := v.entries?.getD []

/-- the entries have texts as keys -/
def TextKeys (es : Entries) : Prop := ∀ e ∈ es, e.1.chars?.isSome = true

instance (es : Entries) : Decidable (TextKeys es) := inferInstanceAs (Decidable (∀ e ∈ es, _))

/-- the values by the texts of their keys -/
def named (es : Entries) : List (Text × Value) := es.map fun e => (e.1.display, e.2)

variable {es : Entries} {key : Value} {s : Text}

theorem eq_mapping_of_isMapping {v : Value} (h : v.isMapping = true) : v = .mapping v.entries := by
  cases v with
  | mapping es => rfl
  | _ => cases h

/-- keys that are texts are told apart by their characters -/
theorem alike_of_text {k : Value} (hk : k.chars?.isSome = true) (hkey : key.chars? = some s) :
    alike k key = (k.display == s) := by
  obtain ⟨t, ht⟩ := Option.isSome_iff_exists.1 hk
  have hself : alike k (.text t) = true := by
    cases k <;> cases ht <;> simp [alike, sameNan, eq, eqAtom]
  rw [alike_of_chars? hkey, alike_text hself, display_of_chars? ht]

theorem named_put (h : TextKeys es) (hkey : key.chars? = some s) (v : Value) :
    named (put key v es) = putAt s v (named es) := by
  induction es with
  | nil => simp [put, named, putAt, display_of_chars? hkey]
  | cons e es ih =>
    obtain ⟨he, hes⟩ := List.forall_mem_cons.1 h
    rw [put, alike_of_text he hkey]
    simp only [named, List.map_cons, putAt] at ih ⊢
    split
    · rfl
    · rw [List.map_cons, ih hes]

theorem textKeys_put (h : TextKeys es) (hkey : key.chars? = some s) (v : Value) : TextKeys (put key v es) := by
  induction es with
  | nil => exact List.forall_mem_singleton.2 (Option.isSome_iff_exists.2 ⟨s, hkey⟩)
  | cons e es ih =>
    obtain ⟨he, hes⟩ := List.forall_mem_cons.1 h
    rw [put]
    split
    · exact List.forall_mem_cons.2 ⟨he, hes⟩
    · exact List.forall_mem_cons.2 ⟨he, ih hes⟩

theorem textKeys_putAll {more : Entries} (h : TextKeys es) (hmore : TextKeys more) : TextKeys (putAll es more) := by
  unfold putAll
  induction more generalizing es with
  | nil => exact h
  | cons e more ih =>
    obtain ⟨he, hmore⟩ := List.forall_mem_cons.1 hmore
    obtain ⟨s, hs⟩ := Option.isSome_iff_exists.1 he
    exact ih (textKeys_put h hs e.2) hmore

theorem named_putAll {more : Entries} (h : TextKeys es) (hmore : TextKeys more) :
    named (putAll es more) = (named more).foldl (fun l e => putAt e.1 e.2 l) (named es) := by
  induction more generalizing es with
  | nil => rfl
  | cons e more ih =>
    obtain ⟨he, hmore⟩ := List.forall_mem_cons.1 hmore
    obtain ⟨t, ht⟩ := Option.isSome_iff_exists.1 he
    rw [putAll, List.foldl_cons, ← putAll, ih (textKeys_put h ht e.2) hmore, named_put h ht]
    simp only [named, List.map_cons, List.foldl_cons, display_of_chars? ht]

theorem named_erase (h : TextKeys es) (s : Text) :
    named (erase (.text s) es) = (named es).filter fun e => e.1 != s := by
  induction es with
  | nil => rfl
  | cons e es ih =>
    obtain ⟨he, hes⟩ := List.forall_mem_cons.1 h
    have halike : alike e.1 (.text s) = (e.1.display == s) := alike_of_text he rfl
    simp only [erase, named, List.map_cons, List.filter_cons, halike, bne] at ih ⊢
    cases e.1.display == s with
    | true => exact ih hes
    | false => exact congrArg _ (ih hes)

theorem find?_named (h : TextKeys es) (s : Text) : find? (.text s) es = getAt? s (named es) := by
  induction es with
  | nil => rfl
  | cons e es ih =>
    obtain ⟨he, hes⟩ := List.forall_mem_cons.1 h
    have halike : alike e.1 (.text s) = (e.1.display == s) := alike_of_text he rfl
    rw [find?, halike, ih hes]
    simp only [getAt?, named, List.map_cons, List.find?_cons]
    cases e.1.display == s <;> rfl

end Value

namespace Form

/-! ## The markup of elements -/

/-- the text that is shown for a value: nothing has none -/
def shown (v : Value) : Text := if v.isNone then [] else v.display

/-- the attributes that named values are; nothing is none -/
def attributesOf (l : List (Text × Value)) : List (Text × Option Text) :=
  (l.filter fun e => !e.2.isNone).map fun e => (e.1, some e.2.display)

/-- an element with a text and elements behind it -/
def elementMarkup (tag : Text) (attributes : List (Text × Option Text)) (content : Text) (inner : Markup) : Markup :=
  (.opening tag attributes false, content) :: (inner ++ [(.closing tag, [])])

/-- a label -/
def labelMarkup (content : Value) : Markup := elementMarkup "label" [] (shown content) []

/-- an input of a type -/
def inputMarkup (type : Value) (l : List (Text × Value)) : Markup :=
  [(.opening "input" (attributesOf (putAt "type" type l)) true, [])]

/-- an element whose text is the value among the named ones -/
def valueMarkup (tag : Text) (l : List (Text × Value)) : Markup :=
  elementMarkup tag (attributesOf (l.filter (·.1 != "value".toList))) (shown ((getAt? "value".toList l).getD .none)) []

/-- the option is selected: it has the text of the selected value -/
def isChosen (selected key : Value) : Bool := !selected.isNone && key.display == selected.display

/-- an option with the texts of its key and its value -/
def optionMarkup (selected : Value) (o : Value × Value) : Markup :=
  elementMarkup "option" (("value", some o.1.display) :: if isChosen selected o.1 then [("selected", none)] else [])
    o.2.display []

/-- a selection, in which the value among the named ones is selected -/
def selectMarkup (options : Entries) (l : List (Text × Value)) : Markup :=
  elementMarkup "select" (attributesOf (l.filter (·.1 != "value".toList))) []
    (options.flatMap (optionMarkup ((getAt? "value".toList l).getD .none)))

/-- errors -/
def errorsMarkup (messages : List Value) : Markup :=
  messages.flatMap fun v => elementMarkup "div" [("class", some "error")] (shown v) []

/-- the markup with its values and texts as the form writes them -/
def written (f : Form) (m : Markup) : Text := (m.onTexts (Text.escapeIf f.escaping)).write

section

variable (f : Form)

theorem written_cons (p : Tag × Text) (m : Markup) : f.written (p :: m) =
    (p.1.onValues (Text.escapeIf f.escaping)).text ++ Text.escapeIf f.escaping p.2 ++ f.written m := rfl

theorem written_append (m n : Markup) : f.written (m ++ n) = f.written m ++ f.written n := by
  rw [written, Markup.onTexts_append, Markup.write_append, written, written]

theorem written_flatMap {α : Type} (as : List α) (g : α → Markup) :
    f.written (as.flatMap g) = as.flatMap fun a => f.written (g a) := by
  induction as with
  | nil => rfl
  | cons a as ih => rw [List.flatMap_cons, written_append, ih, List.flatMap_cons]

theorem valueText_eq (v : Value) : f.valueText v = Text.escapeIf f.escaping (shown v) := by
  unfold valueText shown
  split
  · exact (Text.escapeIf_nil _).symm
  · rfl

theorem attributesText_eq (es : Entries) : f.attributesText es =
    ((attributesOf (Value.named es)).map fun a => (a.1, a.2.map (Text.escapeIf f.escaping))).flatMap
      Tag.attributeText := by
  induction es with
  | nil => rfl
  | cons e es ih =>
    rw [attributesText, List.flatMap_cons, ← attributesText, ih]
    cases hnone : e.2.isNone with
    | true => simp [attributeText, attributesOf, Value.named, hnone]
    | false => simp [attributeText, attributesOf, Value.named, hnone, valueText, Tag.attributeText]

/-- **An element** is written as its markup, if its content is. -/
theorem element_eq {tag content s : Text} {inner : Markup} (es : Entries)
    (h : content = Text.escapeIf f.escaping s ++ f.written inner) :
    f.element tag es content = f.written (elementMarkup tag (attributesOf (Value.named es)) s inner) := by
  rw [elementMarkup, written_cons, written_append, element, attributesText_eq, h]
  simp [written, Markup.onTexts, Tag.onValues, Tag.text, Tag.ending, Text.cat]

theorem labelElement_eq (content : Value) : f.labelElement content [] = f.written (labelMarkup content) :=
  f.element_eq [] (by rw [valueText_eq]; exact (List.append_nil _).symm)

theorem inputElement_eq (type : Value) {es : Entries} (h : Value.TextKeys es) :
    f.inputElement type es = f.written (inputMarkup type (Value.named es)) := by
  have hput : Value.named (Value.put (.ofString "type") type es) = putAt "type".toList type (Value.named es) :=
    Value.named_put h rfl type
  rw [inputElement, attributesText_eq, hput]
  simp [inputMarkup, written, Markup.onTexts, Tag.onValues, Tag.text, Tag.ending, Text.cat]

theorem splitValue_eq {es : Entries} (h : Value.TextKeys es) :
    (splitValue es).1 = (getAt? "value".toList (Value.named es)).getD .none ∧
      Value.named (splitValue es).2 = (Value.named es).filter (·.1 != "value".toList) :=
  ⟨congrArg (Option.getD · Value.none) (Value.find?_named h _), Value.named_erase h _⟩

theorem valueElement_eq (tag : Text) {es : Entries} (h : Value.TextKeys es) :
    f.valueElement tag es = f.written (valueMarkup tag (Value.named es)) := by
  obtain ⟨hvalue, hrest⟩ := splitValue_eq h
  have hcontent : f.valueText (splitValue es).1 =
      Text.escapeIf f.escaping (shown (splitValue es).1) ++ f.written [] := by
    rw [valueText_eq]
    exact (List.append_nil _).symm
  rw [valueMarkup, ← hvalue, ← hrest]
  exact f.element_eq _ hcontent

theorem option_eq (selected : Value) (o : Value × Value) :
    f.option (.text o.1.display) (.text o.2.display) selected = f.written (optionMarkup selected o) := by
  have hchosen : (!selected.isNone && Value.eq (.text o.1.display) (.text selected.display)) =
      isChosen selected o.1 := by
    simp [isChosen, Value.eq, Value.eqAtom]
  have htext (t : Text) : f.valueText (.text t) = Text.escapeIf f.escaping t := rfl
  rw [option, hchosen, htext, htext, optionMarkup]
  cases isChosen selected o.1 <;>
    simp [elementMarkup, written, Markup.onTexts, Tag.onValues, Tag.text, Tag.attributeText, Tag.ending, Text.cat]

theorem selectElement_eq (options : Entries) {es : Entries} (h : Value.TextKeys es) :
    f.selectElement options es = f.written (selectMarkup options (Value.named es)) := by
  obtain ⟨hvalue, hrest⟩ := splitValue_eq h
  rw [selectMarkup, ← hvalue, ← hrest]
  refine f.element_eq _ ?_
  rw [Text.escapeIf_nil, List.nil_append, written_flatMap]
  simp only [option_eq]
  rfl

theorem errorElement_eq (message : Value) :
    f.errorElement message = f.written (elementMarkup "div" [("class", some "error")] (shown message) []) := by
  have hclass : Text.escapeIf f.escaping ['e', 'r', 'r', 'o', 'r'] = ['e', 'r', 'r', 'o', 'r'] := by
    cases f.escaping <;> rfl
  simp [errorElement, valueText_eq, elementMarkup, written, Markup.onTexts, Tag.onValues, Tag.text, Tag.attributeText,
    Tag.ending, Text.cat, hclass]

end

end Form

/-! ## What is configured -/

/-- what a mapping has under a name, nothing if it has nothing -/
def Value.setting (v : Value) (name : String) : Value := (find? (.ofString name) v.orEmpty.entries).getD .none

namespace Form

/-- the mapping has texts as keys, and each entry is a mapping or counts as an empty one, as are the section of the form
in it and the options in this -/
structure WellShaped (f : Form) : Prop where
  isMapping : f.mapping.isMapping = true
  keys : Value.TextKeys f.mapping.entries
  settings : ∀ e ∈ f.mapping.entries, e.2.orEmpty.isMapping = true
  sections : ∀ e ∈ f.mapping.entries, (e.2.setting "form").orEmpty.isMapping = true
  options : ∀ e ∈ f.mapping.entries, ((e.2.setting "form").setting "options").orEmpty.isMapping = true

instance (f : Form) : Decidable f.WellShaped :=
  decidable_of_iff (f.mapping.isMapping = true ∧ Value.TextKeys f.mapping.entries ∧
      ∀ e ∈ f.mapping.entries, e.2.orEmpty.isMapping = true ∧ (e.2.setting "form").orEmpty.isMapping = true ∧
        ((e.2.setting "form").setting "options").orEmpty.isMapping = true)
    ⟨fun h => ⟨h.1, h.2.1, fun e he => (h.2.2 e he).1, fun e he => (h.2.2 e he).2.1, fun e he => (h.2.2 e he).2.2⟩,
      fun h => ⟨h.isMapping, h.keys, fun e he => ⟨h.settings e he, h.sections e he, h.options e he⟩⟩⟩

/-- the errors of each field have items -/
def ErrorsListed (f : Form) : Prop := ∀ e ∈ f.errors, e.2.plainItems?.isSome = true

instance (f : Form) : Decidable f.ErrorsListed := inferInstanceAs (Decidable (∀ e ∈ f.errors, _))

/-- the section of a field -/
def sectionOf (f : Form) (field : Value) : Value :=
  ((Value.find? field f.mapping.entries).getD .none).setting "form"

/-- the type of a field's control, a text if none is configured -/
def typeOf (f : Form) (field : Value) : Value :=
  (Value.find? (.ofString "type") (f.sectionOf field).orEmpty.entries).getD (.ofString "text")

/-- the label of a field, its name if none is configured -/
def labelOf (f : Form) (field : Value) : Value :=
  (Value.find? (.ofString "label") (f.sectionOf field).orEmpty.entries).getD field

/-- the options of a field -/
def optionsOf (f : Form) (field : Value) : Entries := ((f.sectionOf field).setting "options").orEmpty.entries

/-- the value of a field of the entity; nothing if it has none -/
def boundValue (f : Form) (field : Value) : Value :=
  if f.entity.isNone then .none
  else if (f.entity.member field).isMissing then .none else f.entity.member field

/-- the errors of a field -/
def messagesOf (f : Form) (field : Value) : List Value := ((Value.find? field f.errors).bind Value.plainItems?).getD []

/-- the label is written: it is asked for, and the control can be seen -/
def showsLabel (f : Form) (field : Value) (labelled : Bool) : Bool :=
  labelled && !(f.typeOf field).eq (.ofString "hidden")

/-- given attributes under the name and the value of a field -/
def boundAttributes (f : Form) (field : Value) (l : List (Text × Value)) : List (Text × Value) :=
  putAt "value" (f.boundValue field) (putAt "name" (.text (f.controlName field)) l)

/-- the element of a type -/
def typedMarkup (type : Value) (options : Entries) (l : List (Text × Value)) : Markup :=
  if type.eq (.ofString "select") then selectMarkup options l
  else if type.eq (.ofString "textarea") then valueMarkup "textarea" l
  else inputMarkup type l

/-- the control of a field, with its label in front of it -/
def controlMarkup (f : Form) (field : Value) (l : List (Text × Value)) (labelled : Bool) : Markup :=
  (if f.showsLabel field labelled then labelMarkup (f.labelOf field) else []) ++
    typedMarkup (f.typeOf field) (f.optionsOf field) (f.boundAttributes field l)

section

variable {f : Form} {field : Value} {s : Text}

theorem WellShaped.setting (hf : f.WellShaped) (field : Value) :
    ((Value.find? field f.mapping.entries).getD .none).orEmpty.isMapping = true ∧
      (f.sectionOf field).orEmpty.isMapping = true ∧
      ((f.sectionOf field).setting "options").orEmpty.isMapping = true := by
  unfold sectionOf
  cases hfound : Value.find? field f.mapping.entries with
  | none => exact ⟨rfl, rfl, rfl⟩
  | some v =>
    obtain ⟨e, he, rfl⟩ := Value.mem_of_find? hfound
    exact ⟨hf.settings e he, hf.sections e he, hf.options e he⟩

theorem config_eq (hf : f.WellShaped) (hfield : field.chars? = some s) :
    f.config field = pure (f.sectionOf field).orEmpty.entries := by
  obtain ⟨hsettings, hsection, -⟩ := hf.setting field
  rw [config, Value.eq_mapping_of_isMapping hf.isMapping, Value.get?, if_pos (Value.isKey_of_chars? hfield)]
  show (do
    let settings ← ((Value.find? field f.mapping.entries).getD .none).orEmpty.get? (.ofString "form")
    (settings.getD .none).orEmpty.entriesOf : Work Entries) = _
  rw [Value.eq_mapping_of_isMapping hsettings, Value.get?, if_pos (show (Value.ofString "form").isKey = true from rfl)]
  show (f.sectionOf field).orEmpty.entriesOf = _
  rw [Value.eq_mapping_of_isMapping hsection]
  rfl

theorem current_eq (hfield : field.chars? = some s) : f.current field = .ok (f.boundValue field) := by
  have hbeyond : f.entity.isBeyond field = false := by
    unfold Value.isBeyond
    rw [Value.int?_of_chars? hfield]
    cases f.entity <;> rfl
  have hreach : f.entity.reach field = .ok (f.entity.member field) := by
    simp [Value.reach, Value.isKey_of_chars? hfield, hbeyond]
  unfold current boundValue
  split
  · rfl
  · rw [hreach]
    rfl

theorem controlElement_eq (hf : f.WellShaped) (field : Value) {es : Entries} (h : Value.TextKeys es) :
    f.controlElement (f.typeOf field) (f.sectionOf field).orEmpty.entries es =
      pure (f.written (typedMarkup (f.typeOf field) (f.optionsOf field) (Value.named es))) := by
  obtain ⟨-, -, hoptions⟩ := hf.setting field
  unfold controlElement typedMarkup
  split
  · show f.select ((f.sectionOf field).setting "options").orEmpty (.mapping es) = _
    rw [select, given_mapping, pure_bind, Value.eq_mapping_of_isMapping hoptions]
    show (pure (f.selectElement (f.optionsOf field) es) : Work Text) = _
    rw [selectElement_eq f _ h]
  · split
    · rw [valueElement_eq f _ h]
    · rw [inputElement_eq f _ h]

theorem named_controlAttributes {es : Entries} (h : Value.TextKeys es) (field : Value) :
    Value.TextKeys (f.controlAttributes field (f.boundValue field) es) ∧
      Value.named (f.controlAttributes field (f.boundValue field) es) = f.boundAttributes field (Value.named es) := by
  have hname : Value.TextKeys (Value.put (.ofString "name") (.text (f.controlName field)) es) :=
    Value.textKeys_put h rfl _
  refine ⟨Value.textKeys_put hname rfl _, ?_⟩
  rw [controlAttributes, Value.named_put hname rfl, Value.named_put h rfl]
  rfl

/-- **The control of a field** is written as its markup, with the errors of the field behind it. -/
theorem control_eq (hf : f.WellShaped) (hfield : field.chars? = some s) {attributes : Value} {es : Entries}
    (hgiven : attributes.orEmpty = .mapping es) (hkeys : Value.TextKeys es) (labelled : Bool) :
    f.control field attributes labelled = do
      let errors ← f.errorsFor field
      return f.written (f.controlMarkup field (Value.named es) labelled) ++ errors := by
  obtain ⟨htexts, hnamed⟩ := named_controlAttributes hkeys (f := f) field
  have helement := controlElement_eq hf field htexts
  have hes : given attributes = pure es := by rw [given, hgiven]; rfl
  have hlabel : f.labelFor field = pure (f.written (labelMarkup (f.labelOf field))) := by
    rw [labelFor, config_eq hf hfield, pure_bind, labelElement_eq]
    rfl
  rw [control, config_eq hf hfield, hes, current_eq hfield, pure_bind, pure_bind]
  show (do
    let label ← if f.showsLabel field labelled then f.labelFor field else pure []
    let element ← f.controlElement (f.typeOf field) (f.sectionOf field).orEmpty.entries
      (f.controlAttributes field (f.boundValue field) es)
    let errors ← f.errorsFor field
    return label ++ element ++ errors : Work Text) = _
  rw [helement, hnamed, controlMarkup, written_append]
  cases f.showsLabel field labelled with
  | true =>
    rw [if_pos rfl, if_pos rfl, hlabel]
    rfl
  | false => rfl

end

/-! ## Tags, buttons and whole forms -/

/-- named values with others put on top of them -/
def onTop (own more : List (Text × Value)) : List (Text × Value) := more.foldl (fun l e => putAt e.1 e.2 l) own

/-- the opening tag of a form -/
def openMarkup (l : List (Text × Value)) : Markup := [(.opening "form" (attributesOf l) false, [])]

/-- the control of a field, with its label in front of it and its errors behind it -/
def fieldMarkup (f : Form) (field : Value) (l : List (Text × Value)) (labelled : Bool) : Markup :=
  f.controlMarkup field l labelled ++ errorsMarkup (f.messagesOf field)

/-- the fields that are configured -/
def configuredFields (f : Form) : List Value := (f.mapping.entries.filter isConfigured).map (·.1)

/-- a whole form: a labelled control for each configured field -/
def generateMarkup (f : Form) (l : List (Text × Value)) (submitting : Bool) : Markup :=
  openMarkup l ++ (f.configuredFields.flatMap fun field => f.fieldMarkup field [] true) ++
    (if submitting then inputMarkup (.ofString "submit") [] else []) ++ [(.closing "form", [])]

section

variable {f : Form} {field : Value} {s : Text} {attributes : Value} {own es : Entries}

theorem openTag_eq (hown : f.attributes = .mapping own) (hgiven : attributes.orEmpty = .mapping es)
    (hkeys : Value.TextKeys own) (hes : Value.TextKeys es) :
    f.openTag attributes = .ok (f.written (openMarkup (onTop (Value.named own) (Value.named es)))) := by
  rw [openTag, hown, hgiven, onTop, ← Value.named_putAll hkeys hes]
  show Except.ok (Text.cat ["<form", f.attributesText (Value.putAll own es), ">"]) = _
  rw [attributesText_eq]
  simp [openMarkup, written, Markup.onTexts, Tag.onValues, Tag.text, Tag.ending, Text.cat]

theorem submit_eq (hgiven : attributes.orEmpty = .mapping es) (hes : Value.TextKeys es) :
    f.submit attributes = pure (f.written (inputMarkup (.ofString "submit") (Value.named es))) := by
  have hgiven : given attributes = pure es := by rw [given, hgiven]; rfl
  rw [submit, input, hgiven, pure_bind, inputElement_eq f _ hes]

theorem button_eq (hgiven : attributes.orEmpty = .mapping es) (hes : Value.TextKeys es) :
    f.button attributes = pure (f.written (valueMarkup "button" (Value.named es))) := by
  have hgiven : given attributes = pure es := by rw [given, hgiven]; rfl
  rw [button, hgiven, pure_bind, valueElement_eq f _ hes]

theorem errorsFor_eq (h : f.ErrorsListed) (field : Value) :
    f.errorsFor field = pure (f.written (errorsMarkup (f.messagesOf field))) := by
  have hlist (ms : List Value) : ms.flatMap f.errorElement = f.written (errorsMarkup ms) := by
    rw [errorsMarkup, written_flatMap, funext fun v => errorElement_eq f v]
  unfold errorsFor messagesOf
  cases hfound : Value.find? field f.errors with
  | none => rfl
  | some messages =>
    obtain ⟨e, he, rfl⟩ := Value.mem_of_find? hfound
    obtain ⟨ms, hms⟩ := Option.isSome_iff_exists.1 (h e he)
    have hitems : e.2.items = pure ms := by
      unfold Value.items
      split
      · rename_i hstream
        rw [hstream] at hms
        cases hms
      · rw [hms]
    show f.errorList e.2 = _
    rw [errorList, hitems, pure_bind, hlist, Option.bind_some, hms]
    rfl

theorem field_eq (hf : f.WellShaped) (herrors : f.ErrorsListed) (hfield : field.chars? = some s)
    (hgiven : attributes.orEmpty = .mapping es) (hes : Value.TextKeys es) (labelled : Bool) :
    f.control field attributes labelled = pure (f.written (f.fieldMarkup field (Value.named es) labelled)) := by
  rw [control_eq hf hfield hgiven hes, errorsFor_eq herrors, pure_bind, fieldMarkup, written_append]

theorem mapM_eq_pure {α β : Type} {g : α → Work β} {k : α → β} {as : List α} (h : ∀ a ∈ as, g a = pure (k a)) :
    as.mapM g = pure (as.map k) := by
  induction as with
  | nil => rfl
  | cons a as ih =>
    obtain ⟨ha, has⟩ := List.forall_mem_cons.1 h
    rw [List.mapM_cons, ha, pure_bind, ih has, pure_bind, List.map_cons]

/-- **A whole form** is written as its markup. -/
theorem generate_eq (hf : f.WellShaped) (herrors : f.ErrorsListed) (hown : f.attributes = .mapping own)
    (hgiven : attributes.orEmpty = .mapping es) (hkeys : Value.TextKeys own) (hes : Value.TextKeys es)
    (submitting : Bool) : f.generate attributes submitting =
      pure (f.written (f.generateMarkup (onTop (Value.named own) (Value.named es)) submitting)) := by
  have hfields : f.fields = .ok f.configuredFields := by
    rw [fields, Value.eq_mapping_of_isMapping hf.isMapping]
    rfl
  have hcontrols : (f.configuredFields.mapM fun n => f.control n .none true) =
      pure (f.configuredFields.map fun n => f.written (f.fieldMarkup n [] true)) := by
    refine mapM_eq_pure fun n hn => ?_
    obtain ⟨e, he, rfl⟩ := List.mem_map.1 hn
    obtain ⟨s, hs⟩ := Option.isSome_iff_exists.1 (hf.keys e (List.mem_filter.1 he).1)
    exact field_eq hf herrors hs rfl (List.forall_mem_nil _) true
  have hsubmit : f.submit .none = pure (f.written (inputMarkup (.ofString "submit") (Value.named []))) :=
    submit_eq rfl (List.forall_mem_nil _)
  have hclose : f.written [(.closing "form", [])] = closeTag := by
    show f.written [(.closing "form", [])] = "</form>".toList
    simp [written, Markup.onTexts, Tag.onValues, Tag.text, Text.cat]
  have hlift {α : Type} (a : α) : (liftM (Except.ok a : Except Failure α) : Work α) = pure a := rfl
  rw [generate, openTag_eq hown hgiven hkeys hes, hfields, hlift, hlift, pure_bind, pure_bind, hcontrols, pure_bind,
    hsubmit, generateMarkup, written_append, written_append, written_append, written_flatMap, hclose, Text.cat,
    ← List.flatMap_def]
  cases submitting with
  | true =>
    rw [if_pos rfl, if_pos rfl, pure_bind]
    rfl
  | false =>
    rw [if_neg Bool.false_ne_true, if_neg Bool.false_ne_true, pure_bind]
    rfl

end

/-! ## Markup that is read again -/

/-- the elements of forms -/
def elementNames : List Text := ["form", "label", "input", "select", "option", "textarea", "button", "div"]

/-- the keys are texts of the shape that the names of attributes have in templates -/
def AttributeNames (es : Entries) : Prop :=
  ∀ e ∈ es, e.1.chars?.any (Text.isRun Text.isNameStart Directive.isAttributeChar) = true

instance (es : Entries) : Decidable (AttributeNames es) := inferInstanceAs (Decidable (∀ e ∈ es, _))

/-- tags of forms, with names for their attributes -/
def OfForms (m : Markup) : Prop := ∀ p ∈ m, p.1.name ∈ elementNames ∧ p.1.Named

/-- the text is read as tags of forms in which all values and texts are escaped, and these stand for those of the
markup -/
def Reads (text : Text) (m : Markup) : Prop := Markup.ReadsAs text m ∧ ∀ p ∈ m, p.1.name ∈ elementNames

theorem isName_of_isRun {n : Text} (h : Text.isRun Text.isNameStart Directive.isAttributeChar n = true) :
    Tag.IsName n := by
  have hmarks : (['=', '"', '\'', '<', '>', '/'].any Directive.isAttributeChar) = false := by decide +kernel
  have hchar (c : Char) (hc : Directive.isAttributeChar c = true) : Tag.isNameChar c = true := by
    rw [Tag.isNameChar, Bool.and_eq_true, Bool.not_eq_true', Bool.not_eq_true']
    constructor
    · by_contra hblank
      rw [Directive.isAttributeChar_of_isBlank (by simpa using hblank)] at hc
      cases hc
    · rw [← Bool.not_eq_true, List.contains_iff_mem]
      exact fun hmem => List.any_eq_false.1 hmarks c hmem hc
  have hstart (c : Char) (hc : Text.isNameStart c = true) : Directive.isAttributeChar c = true := by
    rw [Directive.isAttributeChar, Text.isWord_of_isNameChar (Text.isNameChar_of_isNameStart hc), Bool.true_or]
  refine ⟨?_, fun c hc => hchar c (Text.forall_of_isRun h hstart c hc)⟩
  rintro rfl
  cases h

theorem AttributeNames.textKeys {es : Entries} (h : AttributeNames es) : Value.TextKeys es := by
  intro e he
  obtain ⟨n, hn, -⟩ := (Option.any_eq_true _ _).1 (h e he)
  exact Option.isSome_iff_exists.2 ⟨n, hn⟩

theorem AttributeNames.isName {es : Entries} (h : AttributeNames es) : ∀ e ∈ Value.named es, Tag.IsName e.1 := by
  intro p hp
  obtain ⟨e, he, rfl⟩ := List.mem_map.1 hp
  obtain ⟨n, hn, hrun⟩ := (Option.any_eq_true _ _).1 (h e he)
  exact Value.display_of_chars? hn ▸ isName_of_isRun hrun

section

variable {l own more : List (Text × Value)} {m n : Markup}

theorem isName_putAt {k : Text} (hk : Tag.IsName k) (h : ∀ e ∈ l, Tag.IsName e.1) (v : Value) :
    ∀ e ∈ putAt k v l, Tag.IsName e.1 := by
  have hkeys : ∀ n ∈ (putAt k v l).map Prod.fst, Tag.IsName n := by
    rw [keys_putAt]
    split_ifs
    · exact List.forall_mem_map.2 h
    · exact List.forall_mem_append.2 ⟨List.forall_mem_map.2 h, List.forall_mem_singleton.2 hk⟩
  exact List.forall_mem_map.1 hkeys

theorem isName_onTop (hown : ∀ e ∈ own, Tag.IsName e.1) (hmore : ∀ e ∈ more, Tag.IsName e.1) :
    ∀ e ∈ onTop own more, Tag.IsName e.1 := by
  induction more generalizing own with
  | nil => exact hown
  | cons e more ih =>
    obtain ⟨he, hmore⟩ := List.forall_mem_cons.1 hmore
    exact ih (isName_putAt he hown e.2) hmore

theorem isName_attributesOf (h : ∀ e ∈ l, Tag.IsName e.1) : ∀ a ∈ attributesOf l, Tag.IsName a.1 := by
  intro a ha
  obtain ⟨e, he, rfl⟩ := List.mem_map.1 ha
  exact h e (List.mem_filter.1 he).1

theorem isName_bound (f : Form) (field : Value) (h : ∀ e ∈ l, Tag.IsName e.1) :
    ∀ e ∈ f.boundAttributes field l, Tag.IsName e.1 :=
  isName_putAt (by decide) (isName_putAt (by decide) h _) _

theorem OfForms.append (hm : OfForms m) (hn : OfForms n) : OfForms (m ++ n) := List.forall_mem_append.2 ⟨hm, hn⟩

theorem OfForms.flatMap {α : Type} {as : List α} {g : α → Markup} (h : ∀ a, OfForms (g a)) :
    OfForms (as.flatMap g) := by
  intro p hp
  obtain ⟨a, -, hp⟩ := List.mem_flatMap.1 hp
  exact h a p hp

theorem ofForms_element {tag content : Text} {attributes : List (Text × Option Text)} (htag : tag ∈ elementNames)
    (hnames : ∀ a ∈ attributes, Tag.IsName a.1) (hm : OfForms m) :
    OfForms (elementMarkup tag attributes content m) := by
  have hname : Tag.IsName tag := (show ∀ n ∈ elementNames, Tag.IsName n by decide) tag htag
  exact List.forall_mem_cons.2 ⟨⟨htag, hname, hnames⟩, hm.append (List.forall_mem_singleton.2 ⟨htag, hname⟩)⟩

theorem ofForms_input (type : Value) (h : ∀ e ∈ l, Tag.IsName e.1) : OfForms (inputMarkup type l) := by
  have hinput : "input".toList ∈ elementNames ∧ Tag.IsName "input" := by decide
  exact List.forall_mem_singleton.2
    ⟨hinput.1, hinput.2, isName_attributesOf (isName_putAt (by decide) h type)⟩

theorem isName_filter (p : Text × Value → Bool) (h : ∀ e ∈ l, Tag.IsName e.1) : ∀ e ∈ l.filter p, Tag.IsName e.1 :=
  fun e he => h e (List.mem_filter.1 he).1

theorem ofForms_value {tag : Text} (htag : tag ∈ elementNames) (h : ∀ e ∈ l, Tag.IsName e.1) :
    OfForms (valueMarkup tag l) :=
  ofForms_element htag (isName_attributesOf (isName_filter _ h)) (List.forall_mem_nil _)

theorem ofForms_option (selected : Value) (o : Value × Value) : OfForms (optionMarkup selected o) := by
  have hvalue : Tag.IsName "value" := by decide
  have hselected : Tag.IsName "selected" := by decide
  refine ofForms_element (by decide) (List.forall_mem_cons.2 ⟨hvalue, ?_⟩) (List.forall_mem_nil _)
  cases isChosen selected o.1 with
  | true => exact List.forall_mem_singleton.2 hselected
  | false => exact List.forall_mem_nil _

theorem ofForms_select (options : Entries) (h : ∀ e ∈ l, Tag.IsName e.1) : OfForms (selectMarkup options l) :=
  ofForms_element (by decide) (isName_attributesOf (isName_filter _ h)) (.flatMap (ofForms_option _))

theorem ofForms_errors (messages : List Value) : OfForms (errorsMarkup messages) := by
  have hclass : Tag.IsName "class" := by decide
  exact .flatMap fun _ => ofForms_element (by decide) (List.forall_mem_singleton.2 hclass) (List.forall_mem_nil _)

variable (f : Form)

theorem ofForms_control (field : Value) (h : ∀ e ∈ l, Tag.IsName e.1) (labelled : Bool) :
    OfForms (f.controlMarkup field l labelled) := by
  have hbound := isName_bound f field h
  refine OfForms.append ?_ ?_
  · cases f.showsLabel field labelled with
    | true => exact ofForms_element (by decide) (List.forall_mem_nil _) (List.forall_mem_nil _)
    | false => exact List.forall_mem_nil _
  · unfold typedMarkup
    split_ifs
    · exact ofForms_select _ hbound
    · exact ofForms_value (by decide) hbound
    · exact ofForms_input _ hbound

theorem ofForms_field (field : Value) (h : ∀ e ∈ l, Tag.IsName e.1) (labelled : Bool) :
    OfForms (f.fieldMarkup field l labelled) :=
  (f.ofForms_control field h labelled).append (ofForms_errors _)

theorem ofForms_open (h : ∀ e ∈ l, Tag.IsName e.1) : OfForms (openMarkup l) := by
  have hform : "form".toList ∈ elementNames ∧ Tag.IsName "form" := by decide
  exact List.forall_mem_singleton.2 ⟨hform.1, hform.2, isName_attributesOf h⟩

theorem ofForms_generate (h : ∀ e ∈ l, Tag.IsName e.1) (submitting : Bool) :
    OfForms (f.generateMarkup l submitting) := by
  refine (((ofForms_open h).append (.flatMap fun field => ?_)).append ?_).append ?_
  · exact f.ofForms_field field (List.forall_mem_nil _) true
  · cases submitting with
    | true => exact ofForms_input _ (List.forall_mem_nil _)
    | false => exact List.forall_mem_nil _
  · have hform : "form".toList ∈ elementNames ∧ Tag.IsName "form" := by decide
    exact List.forall_mem_singleton.2 hform

variable {f}

/-- **What an escaping form writes** is read as its markup. -/
theorem reads_written (hescaping : f.escaping = true) (h : OfForms m) : Reads (f.written m) m := by
  rw [written, hescaping]
  exact ⟨Markup.reads_escaped fun p hp => (h p hp).2, fun p hp => (h p hp).1⟩

end

/-- **Data cannot break the markup of a form.** If a form escapes and is well-shaped, and the attributes have names, then
its opening tag, the control of each field, the inputs and buttons and the whole form are written without a failure,
and each is read as tags of forms. In these all values and texts are escaped and stand for those that were put in: the
texts of labels, types, errors, values of the entity and attributes, where nothing gives no text and no attribute, and
those of the keys and values of options, where nothing has a text as well. -/
theorem markup_unbroken {f : Form} (hescaping : f.escaping = true) (hf : f.WellShaped) (herrors : f.ErrorsListed)
    {own more : Entries} {attributes : Value} (hown : f.attributes = .mapping own)
    (hgiven : attributes.orEmpty = .mapping more) (hnames : AttributeNames own) (hmore : AttributeNames more) :
    (∃ text, f.openTag attributes = .ok text ∧
      Reads text (openMarkup (onTop (Value.named own) (Value.named more)))) ∧
    (∀ field s labelled, Value.chars? field = some s → ∃ text, f.control field attributes labelled = pure text ∧
      Reads text (f.fieldMarkup field (Value.named more) labelled)) ∧
    (∃ text, f.submit attributes = pure text ∧ Reads text (inputMarkup (.ofString "submit") (Value.named more))) ∧
    (∃ text, f.button attributes = pure text ∧ Reads text (valueMarkup "button" (Value.named more))) ∧
    ∀ submitting, ∃ text, f.generate attributes submitting = pure text ∧
      Reads text (f.generateMarkup (onTop (Value.named own) (Value.named more)) submitting) := by
  have htop := isName_onTop hnames.isName hmore.isName
  refine ⟨⟨_, openTag_eq hown hgiven hnames.textKeys hmore.textKeys, reads_written hescaping (ofForms_open htop)⟩, ?_,
    ⟨_, submit_eq hgiven hmore.textKeys, reads_written hescaping (ofForms_input _ hmore.isName)⟩,
    ⟨_, button_eq hgiven hmore.textKeys, reads_written hescaping (ofForms_value (by decide) hmore.isName)⟩, ?_⟩
  · intro field s labelled hfield
    exact ⟨_, field_eq hf herrors hfield hgiven hmore.textKeys labelled,
      reads_written hescaping (f.ofForms_field field hmore.isName labelled)⟩
  · intro submitting
    exact ⟨_, generate_eq hf herrors hown hgiven hnames.textKeys hmore.textKeys submitting,
      reads_written hescaping (f.ofForms_generate htop submitting)⟩

/-- a selection with a label, options, attributes and errors full of marks, and what is read where it is written -/
theorem markup_unbroken_by_marks :
    let options : Entries := [(.ofString "<a>", .ofString "&lt;"), (.int 7, .none)]
    let config : Value := .mapping [(.ofString "type", .ofString "select"), (.ofString "label", .ofString "R&D"),
      (.ofString "options", .mapping options)]
    let f : Form := ⟨.mapping [(.ofString "role", .ofString "<a>")], "User",
      .mapping [(.ofString "role", .mapping [(.ofString "form", config)])],
      .mapping [(.ofString "class", .ofString "\"><script>")], [(.ofString "role", .list [.ofString "it's", .none])],
      true⟩
    let given : Entries := [(.ofString "data-x", .ofString "'&amp;'"), (.ofString "id", .none)]
    f.WellShaped ∧ f.ErrorsListed ∧ AttributeNames [(.ofString "class", .ofString "\"><script>")] ∧
      AttributeNames given ∧ ∃ text, f.control (.ofString "role") (.mapping given) true = pure text ∧
        Reads text [(.opening "label" [] false, "R&D"), (.closing "label", []),
          (.opening "select" [("data-x", some "'&amp;'"), ("name", some "user[role]")] false, []),
          (.opening "option" [("value", some "<a>"), ("selected", none)] false, "&lt;"), (.closing "option", []),
          (.opening "option" [("value", some "7")] false, "None"), (.closing "option", []), (.closing "select", []),
          (.opening "div" [("class", some "error")] false, "it's"), (.closing "div", []),
          (.opening "div" [("class", some "error")] false, []), (.closing "div", [])] := by
  intro options config f given
  have hf : f.WellShaped := by decide
  have herrors : f.ErrorsListed := by decide
  have hown : AttributeNames [(.ofString "class", .ofString "\"><script>")] := by decide
  have hgiven : AttributeNames given := by decide +kernel
  obtain ⟨-, hcontrol, -⟩ :=
    markup_unbroken rfl hf herrors rfl (Value.orEmpty_mapping given) hown hgiven
  obtain ⟨text, htext, hreads⟩ := hcontrol (.ofString "role") _ true rfl
  exact ⟨hf, herrors, hown, hgiven, text, htext, hreads⟩

/-- nothing as the key and the value of an option: there it is written by its text -/
theorem nothing_as_option :
    let config : Value := .mapping [(.ofString "type", .ofString "select"),
      (.ofString "options", .mapping [(.none, .none)])]
    let f : Form :=
      ⟨.none, "U", .mapping [(.ofString "r", .mapping [(.ofString "form", config)])], .mapping [], [], true⟩
    let text : Text := "<select name=\"u[r]\"><option value=\"None\">None</option></select>"
    f.WellShaped ∧ f.ErrorsListed ∧ f.control (.ofString "r") .none false = pure text ∧
      Reads text [(.opening "select" [("name", some "u[r]")] false, []),
        (.opening "option" [("value", some "None")] false, "None"), (.closing "option", []),
        (.closing "select", [])] := by
  intro config f text
  have hf : f.WellShaped := by decide
  have herrors : f.ErrorsListed := by decide
  have hwritten : f.written (f.fieldMarkup (.ofString "r") [] false) = text := by decide
  have hcontrol : f.control (.ofString "r") .none false = pure (f.written (f.fieldMarkup (.ofString "r") [] false)) :=
    field_eq hf herrors rfl rfl (List.forall_mem_nil _) false
  refine ⟨hf, herrors, hwritten ▸ hcontrol, hwritten ▸ ?_⟩
  exact reads_written rfl (f.ofForms_field (.ofString "r") (List.forall_mem_nil _) false)

end Form

end Stencil
