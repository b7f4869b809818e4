/-
THE CATALOG of phrases. A key is looked for as it is, where a mapping does not count; else as a path of keys
divided by points through nested mappings. Whatever stands there, other than nothing or a mapping, is a phrase by
its text.

`translate` fills the phrase of a key in. A phrase with a flaw is used as it is written, and the log tells of it.
-/
import Stencil.Catalog.Phrase
import Stencil.Log
import Stencil.Value.Items

namespace Stencil

/-- phrases by their keys, and the language they are in -/
structure Catalog where
  messages : Entries
  locale : Text

/-- the language where none is named -/
def standardLocale : Text := "en"

namespace Catalog

/-- no phrase -/
def empty : Catalog := ⟨[], standardLocale⟩

/-- the catalog of a value's entries -/
def ofValue (v : Value) (locale : Text) : Work Catalog := do
  let es ← v.orEmpty.entriesOf
  return ⟨es, locale⟩

/-- the catalog of a document: if the document has a mapping under the language that is asked for, that one -/
def ofDocument (document : Entries) (locale : Option Text) : Catalog :=
  let chosen := (locale.bind fun l => Value.find? (.text l) document).bind Value.entries?
  let name := locale.getD []
  ⟨chosen.getD document, if name.isEmpty then standardLocale else name⟩

/-- what the log tells of a catalog that is loaded from a file -/
def loaded (c : Catalog) (path : Text) : Message :=
  ⟨2, Text.cat ["Loaded ", Text.ofNat c.messages.length, " catalog entries from ", path]⟩

/-- what a path of keys reaches through mappings -/
def follow? : Value → List Text → Option Value
  | v, [] => some v
  | .mapping es, p :: ps => (Value.find? (.text p) es).bind fun w => follow? w ps
  | _, _ :: _ => none

/-- the entry under a key as it is, unless it is a mapping -/
def flat? (c : Catalog) (key : Value) : Option Value :=
  (Value.find? key c.messages).filter fun v => !v.isMapping

/-- the entry at a path of keys, if it is a phrase -/
def nested? (c : Catalog) (path : List Text) : Option Value :=
  (follow? (.mapping c.messages) path).filter fun v => !v.isNone && !v.isMapping

/-- the phrase of a key -/
def message? (c : Catalog) (key : Value) : Except Failure (Option Text) :=
  if key.isKey then
    match c.flat? key with
    | some v => .ok (some v.display)
    | none =>
      match key.chars? with
      | some s => .ok ((c.nested? (Text.parts '.' s)).map Value.display)
      | none => .error (key.noMethod "split")
  else .error .notKey

/-- a text has a phrase; nothing else has -/
def contains (c : Catalog) (key : Value) : Bool :=
  key.chars?.isSome && match c.message? key with
    | .ok m => m.isSome
    | .error _ => false

/-- a phrase filled in, and what the log tells of it -/
structure Filled where
  text : Option Text
  messages : List Message

/-- a phrase as it is written, and its flaw told -/
def asWritten (key : Value) (phrase : Text) (flaw : Flaw) : Filled :=
  ⟨some phrase, [⟨2, Text.cat ["Could not interpolate translation '", key.display, "': ", flaw.message]⟩]⟩

/-- the entries of parameters, unless one of their items does not consist of two -/
def parameters? (params : Value) : Work (Option Entries) :=
  tryCatch (some <$> params.orEmpty.entriesOf) fun
    | .notPair => pure none
    | e => throw e

/-- the phrase of a key, with its parameters -/
def translate (c : Catalog) (key params : Value) : Work Filled := do
  match ← c.message? key with
  | none => return ⟨none, []⟩
  | some phrase =>
    match ← parameters? params with
    | none => return asWritten key phrase .badParameters
    | some es =>
      match Phrase.fill es phrase with
      | .ok text => return ⟨some text, []⟩
      | .error (.flaw flaw) => return asWritten key phrase flaw
      | .error (.failure e) => throw e

end Catalog

end Stencil
