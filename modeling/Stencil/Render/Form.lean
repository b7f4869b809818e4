/-
FORMS. A form ties an entity to the configuration of its fields and writes the elements of a form in markup. Names
and values of attributes are given in order; an attribute without a value is left out. Texts and values are
escaped if the form escapes.

- `control` is the element of a field: its name and value are the form's own, whatever attributes are given, and
  its label, if asked for, stands in front of it and its errors behind it.
- `generate` is a whole form: the opening tag, the control of every configured field, a submit button if asked
  for, and the closing tag.
-/
import Stencil.Text.Markup
import Stencil.Value.Items

namespace Stencil

/-- a form: the entity and its name, the configuration of its fields, the attributes of its tag, and the errors of
its fields -/
structure Form where
  entity : Value
  name : Text
  mapping : Value
  attributes : Value
  errors : Entries
  escaping : Bool

namespace Form

/-- the errors that an entity has of its own -/
def ownErrors (entity : Value) : Entries := ((entity.attribute? "errors").bind Value.entries?).getD []

/-- a form for an entity; errors that are given stand over the entity's own -/
def make (entity : Value) (name : Text) (mapping errors attributes : Value) (escaping : Bool) : Work Form := do
  let given ← if errors.truthy then errors.entriesOf else pure []
  return ⟨entity, name, mapping.orEmpty, attributes.orEmpty, Value.putAll (ownErrors entity) given, escaping⟩

/-- the innermost of open forms as a template sees it; nothing if none is open -/
def value : List Form → Value
  | [] => .none
  | f :: outer =>
    .form outer.length f.name f.entity f.mapping f.attributes (.mapping f.errors) f.escaping (value outer)

/-- the form as text -/
def text (f : Form) : Text := Value.formText f.name

/-- a value as markup text; nothing has none -/
def valueText (f : Form) (v : Value) : Text := if v.isNone then [] else Text.escapeIf f.escaping v.display

/-- an attribute; none if it has no value -/
def attributeText (f : Form) (e : Value × Value) : Text :=
  if e.2.isNone then [] else Text.cat [" ", e.1.display, "=\"", f.valueText e.2, "\""]

/-- attributes, each after a space -/
def attributesText (f : Form) (es : Entries) : Text := es.flatMap f.attributeText

/-- an element with attributes and content -/
def element (f : Form) (tag : Text) (es : Entries) (content : Text) : Text :=
  Text.cat ["<", tag, f.attributesText es, ">", content, "</", tag, ">"]

/-- the opening tag; attributes that are given stand over the form's own -/
def openTag (f : Form) (attributes : Value) : Except Failure Text := do
  let es ← f.attributes.merge attributes.orEmpty
  return Text.cat ["<form", f.attributesText es, ">"]

/-- the closing tag -/
def closeTag : Text := "</form>"

/-- an entry of the mapping that configures a control -/
def isConfigured (e : Value × Value) : Bool :=
  match e.2 with
  | .mapping es => ((Value.find? (.ofString "form") es).getD .none).truthy
  | _ => false

/-- the configured fields, in the order of the mapping -/
def fields (f : Form) : Except Failure (List Value) := do
  let es ← f.mapping.mappingEntries
  return (es.filter isConfigured).map (·.1)

/-- the configuration of a field's control, empty if there is none -/
def config (f : Form) (field : Value) : Work Entries := do
  let entry ← f.mapping.get? field
  let settings ← (entry.getD .none).orEmpty.get? (.ofString "form")
  (settings.getD .none).orEmpty.entriesOf

/-- the value of a field of the entity; nothing if it has none -/
def current (f : Form) (field : Value) : Except Failure Value :=
  if f.entity.isNone then .ok .none
  else do
    let v ← f.entity.reach field
    return if v.isMissing then .none else v

/-- a label -/
def labelElement (f : Form) (content : Value) (es : Entries) : Text := f.element "label" es (f.valueText content)

/-- an input; its type stands over one that is given -/
def inputElement (f : Form) (type : Value) (es : Entries) : Text :=
  Text.cat ["<input", f.attributesText (Value.put (.ofString "type") type es), " />"]

/-- attributes without their value, and the value -/
def splitValue (es : Entries) : Value × Entries :=
  ((Value.find? (.ofString "value") es).getD .none, Value.erase (.ofString "value") es)

/-- an element whose content is the value among its attributes -/
def valueElement (f : Form) (tag : Text) (es : Entries) : Text :=
  let (v, rest) := splitValue es
  f.element tag rest (f.valueText v)

/-- an option; it is selected if its value is the text of the selected one -/
def option (f : Form) (value content selected : Value) : Text :=
  let mark : Text := if !selected.isNone && value.eq (.text selected.display) then " selected" else []
  Text.cat ["<option value=\"", f.valueText value, "\"", mark, ">", f.valueText content, "</option>"]

/-- a selection; its value among the attributes is the selected one -/
def selectElement (f : Form) (options es : Entries) : Text :=
  let (v, rest) := splitValue es
  f.element "select" rest (options.flatMap fun o => f.option (.text o.1.display) (.text o.2.display) v)

/-- an error, marked as one -/
def errorElement (f : Form) (message : Value) : Text :=
  Text.cat ["<div class=\"error\">", f.valueText message, "</div>"]

/-- attributes in any form that gives entries -/
def given (attributes : Value) : Work Entries := attributes.orEmpty.entriesOf

/-- attributes as text -/
def formatAttributes (f : Form) (attributes : Value) : Except Failure Text := do
  let es ← attributes.mappingEntries
  return f.attributesText es

/-- a label with given attributes -/
def label (f : Form) (content attributes : Value) : Except Failure Text := do
  let es ← attributes.orEmpty.mappingEntries
  return f.labelElement content es

/-- an input of a type -/
def input (f : Form) (type attributes : Value) : Work Text := do
  let es ← given attributes
  return f.inputElement type es

/-- an input that submits the form -/
def submit (f : Form) (attributes : Value) : Work Text := f.input (.ofString "submit") attributes

/-- a button; its value is its text -/
def button (f : Form) (attributes : Value) : Work Text := do
  let es ← given attributes
  return f.valueElement "button" es

/-- an area of text; its value is its text -/
def textarea (f : Form) (attributes : Value) : Work Text := do
  let es ← given attributes
  return f.valueElement "textarea" es

/-- a selection among options -/
def select (f : Form) (options attributes : Value) : Work Text := do
  let es ← given attributes
  let os ← options.mappingEntries
  return f.selectElement os es

/-- an element for every error -/
def errorList (f : Form) (messages : Value) : Work Text := do
  let ms ← messages.items
  return ms.flatMap f.errorElement

/-- the label of a field: what is configured, else the field's name -/
def labelFor (f : Form) (field : Value) : Work Text := do
  let c ← f.config field
  return f.labelElement ((Value.find? (.ofString "label") c).getD field) []

/-- the name of a field's control: the entity's name, its first letter in lower case, and the field in brackets -/
def controlName (f : Form) (field : Value) : Text :=
  Text.cat [(f.name.take 1).flatMap Text.lower, f.name.drop 1, "[", field.display, "]"]

/-- given attributes with the name and the value of a field's control -/
def controlAttributes (f : Form) (field value : Value) (es : Entries) : Entries :=
  Value.put (.ofString "value") value (Value.put (.ofString "name") (.text (f.controlName field)) es)

/-- the element of a configured type -/
def controlElement (f : Form) (type : Value) (config es : Entries) : Work Text :=
  if type.eq (.ofString "select") then
    f.select ((Value.find? (.ofString "options") config).getD .none).orEmpty (.mapping es)
  else if type.eq (.ofString "textarea") then pure (f.valueElement "textarea" es)
  else pure (f.inputElement type es)

/-- the errors of a field -/
def errorsFor (f : Form) (field : Value) : Work Text :=
  match Value.find? field f.errors with
  | some messages => f.errorList messages
  | none => pure []

/-- the control of a field, with its label and its errors -/
def control (f : Form) (field attributes : Value) (labelled : Bool) : Work Text := do
  let c ← f.config field
  let type := (Value.find? (.ofString "type") c).getD (.ofString "text")
  let es ← given attributes
  let v ← f.current field
  let label ← if labelled && !type.eq (.ofString "hidden") then f.labelFor field else pure []
  let element ← f.controlElement type c (f.controlAttributes field v es)
  let errors ← f.errorsFor field
  return label ++ element ++ errors

/-- a whole form -/
def generate (f : Form) (attributes : Value) (submitting : Bool) : Work Text := do
  let head ← f.openTag attributes
  let names ← f.fields
  let controls ← names.mapM fun n => f.control n .none true
  let last ← if submitting then f.submit .none else pure []
  return head ++ Text.cat controls ++ last ++ closeTag

end Form

end Stencil
