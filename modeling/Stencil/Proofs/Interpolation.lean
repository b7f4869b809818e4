/-
PLAIN PHRASES. Most phrases are words with placeholders among them. In the words each brace is doubled; a placeholder is
a name in braces. Such a phrase is filled in from left to right and once: the words stand with their braces single, a
placeholder gives way to its parameter, whatever that holds, and one without a parameter stands as it is written.

- `isBareName`: the names that a placeholder can have, identifiers among them.
- `PlainPart`: words and placeholders, as they are written and what they stand for.
- `fill_plain`: a plain phrase filled in.
- `plain_phrases_exact`: what a catalog has for its key, and what a render writes for it.
-/
import Stencil.Proofs.Parameters
import Stencil.Proofs.Placeholders

namespace Stencil.Phrase

/-! ## Names of placeholders -/

/-- a character of a name that means nothing else in a field -/
def isBareChar (c : Char) : Bool := continuesName c && !(c == '\x7b' || endsName c)

/-- a name that a placeholder can have: it begins with no digit, and nothing in it means something else -/
def isBareName (name : Text) : Bool := Text.isRun (fun c => isBareChar c && !Text.isDigit c) isBareChar name

theorem isBareChar_of_isWord {c : Char} (h : Text.isWord c = true) : isBareChar c = true := by
  have hmarks : (['.', '[', '\x7b', '\x7d', ':', '!'].any Text.isWord) = false := by decide +kernel
  have hne : ∀ d ∈ ['.', '[', '\x7b', '\x7d', ':', '!'], c ≠ d := by
    rintro d hd rfl
    exact List.any_eq_false.1 hmarks c hd h
  simp only [List.forall_mem_cons] at hne
  obtain ⟨hpoint, hbracket, hopen, hclose, hcolon, hbang, -⟩ := hne
  simp [isBareChar, continuesName, endsName, *]

/-- **Identifiers** are names for placeholders. -/
theorem isBareName_of_isRun {name : Text} (h : Text.isRun Text.isNameStart Text.isWord name = true) :
    isBareName name = true := by
  cases name with
  | nil => cases h
  | cons c cs =>
    rw [Text.isRun, Bool.and_eq_true, List.all_eq_true] at h
    obtain ⟨hc, hcs⟩ := h
    have hword : Text.isWord c = true := Text.isWord_of_isNameChar (Text.isNameChar_of_isNameStart hc)
    rw [isBareName, Text.isRun, Bool.and_eq_true, Bool.and_eq_true, List.all_eq_true]
    exact ⟨⟨isBareChar_of_isWord hword, by rw [Text.isDigit_of_isNameStart hc]; rfl⟩,
      fun d hd => isBareChar_of_isWord (hcs d hd)⟩

section

variable {name : Text}

theorem all_of_isBareName (h : isBareName name = true) : ∀ c ∈ name, isBareChar c = true := by
  cases name with
  | nil => exact nofun
  | cons c cs =>
    rw [isBareName, Text.isRun, Bool.and_eq_true, Bool.and_eq_true, List.all_eq_true] at h
    exact List.forall_mem_cons.2 ⟨h.1.1, h.2⟩

theorem continuesName_of_isBareName (h : isBareName name = true) : ∀ c ∈ name, continuesName c = true := by
  intro c hc
  have hbare := all_of_isBareName h c hc
  rw [isBareChar, Bool.and_eq_true] at hbare
  exact hbare.1

theorem isFieldName_of_bare (h : ∀ c ∈ name, isBareChar c = true) : isFieldName false name = true := by
  induction name with
  | nil => rfl
  | cons c cs ih =>
    obtain ⟨hc, hcs⟩ := List.forall_mem_cons.1 h
    simp only [isBareChar, continuesName, endsName, Bool.and_eq_true, bne_iff_ne, Bool.not_eq_true',
      Bool.or_eq_false_iff, beq_eq_false_iff_ne] at hc
    obtain ⟨⟨-, hbracket⟩, hopen, ⟨hclose, hcolon⟩, hbang⟩ := hc
    have hnext : (c == '[') = false := beq_eq_false_iff_ne.2 hbracket
    simp [isFieldName, hnext, hopen, hclose, hcolon, hbang, ih hcs]

/-- a name that can stand alone is read as the name of a parameter -/
theorem parameter?_of_bare (h : isBareName name = true) : parameter? name = .ok name := by
  have htake : name.takeWhile continuesName = name :=
    List.takeWhile_eq_self_iff.2 (continuesName_of_isBareName h)
  cases name with
  | nil => cases h
  | cons c cs =>
    have hdigit : Text.isDigit c = false := by
      rw [isBareName, Text.isRun, Bool.and_eq_true, Bool.and_eq_true, Bool.not_eq_true'] at h
      exact h.1.2
    have hindex : index? (c :: cs) = .ok none := by simp [index?, takeNumber?, hdigit]
    rw [parameter?, htake, hindex]
    rfl

/-- a placeholder as a field -/
def placeholder (name : Text) (h : isBareName name = true) : FieldText :=
  ⟨name, none, none, isFieldName_of_bare (all_of_isBareName h), rfl⟩

theorem bare_placeholder (h : isBareName name = true) : (placeholder name h).Bare :=
  ⟨List.all_eq_true.2 (continuesName_of_isBareName h), parameter?_of_bare h, rfl, rfl⟩

theorem text_placeholder (h : isBareName name = true) : (placeholder name h).text = '\x7b' :: name ++ ['\x7d'] :=
  (bare_placeholder h).text_eq

/-- what a placeholder stands for: its parameter, or itself as it is written -/
def standsFor (es : Entries) (name : Text) : Text :=
  match Value.find? (.text name) es with
  | some v => v.display
  | none => '\x7b' :: name ++ ['\x7d']

/-- **A placeholder** gives way to its parameter, or stays. -/
theorem outcome_placeholder (es : Entries) (h : isBareName name = true) :
    PhrasePart.outcome es (.field (placeholder name h)) = .ok (standsFor es name) := by
  have htake : name.takeWhile continuesName = name :=
    List.takeWhile_eq_self_iff.2 (continuesName_of_isBareName h)
  have hdrop : name.dropWhile continuesName = [] :=
    List.dropWhile_eq_nil_iff.2 (continuesName_of_isBareName h)
  have hknown : (placeholder name h).isKnown es = (Value.find? (.text name) es).isSome := by
    rw [FieldText.isKnown, placeholder, htake]
  rw [PhrasePart.outcome, hknown, standsFor]
  cases hv : Value.find? (.text name) es with
  | none => rw [Option.isSome_none, if_neg Bool.false_ne_true, text_placeholder h]
  | some v =>
    have hthing : (placeholder name h).field.thing (argument es) = .ok (.value v) := by
      simp [Field.thing, FieldText.field, placeholder, parameter?_of_bare h, hdrop, steps, argument, hv,
        Except.mapError]
    rw [Option.isSome_some, if_pos rfl, Piece.fill, hthing]
    rfl

end

/-! ## Plain phrases -/

/-- a brace, which words double -/
def isBrace (c : Char) : Bool := c == '\x7b' || c == '\x7d'

/-- a part of a plain phrase -/
inductive PlainPart where
  | words (s : Text)
  | placeholder (name : Text) (bare : isBareName name = true)

namespace PlainPart

/-- the part as it is written -/
def text : PlainPart → Text
  | words s => s.flatMap fun c => if isBrace c then [c, c] else [c]
  | placeholder name _ => '\x7b' :: name ++ ['\x7d']

/-- what the part stands for -/
def filled (es : Entries) : PlainPart → Text
  | words s => s
  | placeholder name _ => standsFor es name

/-- plain parts as they are written -/
def texts (ps : List PlainPart) : Text := ps.flatMap text

/-- what plain parts stand for -/
def fillings (es : Entries) (ps : List PlainPart) : Text := ps.flatMap (filled es)

/-- a character of words, as a part of a phrase -/
def ofChar (c : Char) : PhrasePart :=
  if h : c = '\x7b' ∨ c = '\x7d' then .doubled c h else .char c (not_or.1 h)

/-- the parts of a phrase that a part consists of -/
def parts : PlainPart → List PhrasePart
  | words s => s.map ofChar
  | placeholder name h => [.field (Phrase.placeholder name h)]

theorem text_ofChar (c : Char) : (ofChar c).text = if isBrace c then [c, c] else [c] := by
  have hbrace : isBrace c = true ↔ c = '\x7b' ∨ c = '\x7d' := by simp [isBrace]
  unfold ofChar
  split
  · rename_i h
    rw [if_pos (hbrace.2 h), PhrasePart.text]
  · rename_i h
    rw [if_neg (fun hc => h (hbrace.1 hc)), PhrasePart.text]

theorem outcome_ofChar (es : Entries) (c : Char) : (ofChar c).outcome es = .ok [c] := by
  unfold ofChar
  split <;> rfl

theorem texts_parts (p : PlainPart) : PhrasePart.texts p.parts = p.text := by
  cases p with
  | words s =>
    rw [parts, PhrasePart.texts, List.flatMap_map, text]
    exact List.flatMap_congr fun c _ => text_ofChar c
  | placeholder name h =>
    rw [parts, PhrasePart.texts, List.flatMap_singleton, PhrasePart.text, text_placeholder h, text]

/-- the parts of a plain part succeed, and give what it stands for -/
theorem outcomes_parts (es : Entries) (p : PlainPart) :
    ∃ ts, p.parts.mapM (PhrasePart.outcome es) = .ok ts ∧ Text.cat ts = p.filled es := by
  cases p with
  | words s =>
    refine ⟨s.map fun c => [c], ?_, ?_⟩
    · rw [parts]
      induction s with
      | nil => rfl
      | cons c s ih => rw [List.map_cons, List.mapM_cons, outcome_ofChar, ok_bind, ih]; rfl
    · rw [Text.cat, ← List.flatMap_def]
      exact List.flatMap_singleton' s
  | placeholder name h =>
    refine ⟨[standsFor es name], ?_, by simp [Text.cat, filled]⟩
    rw [parts, List.mapM_cons, outcome_placeholder es h]
    rfl

end PlainPart

open PlainPart in
/-- **A plain phrase is filled in** part by part, and no part is read again. -/
theorem fill_plain (es : Entries) (ps : List PlainPart) : fill es (PlainPart.texts ps) = .ok (fillings es ps) := by
  have htexts : PhrasePart.texts (ps.flatMap parts) = PlainPart.texts ps := by
    rw [PhrasePart.texts, List.flatMap_assoc]
    exact List.flatMap_congr fun p _ => texts_parts p
  have hbare : ∀ f, .field f ∈ ps.flatMap parts → f.isKnown es = false → f.Bare := by
    intro f hf _
    obtain ⟨p, -, hp⟩ := List.mem_flatMap.1 hf
    cases p with
    | words s =>
      obtain ⟨c, -, hc⟩ := List.mem_map.1 hp
      unfold ofChar at hc
      split at hc <;> cases hc
    | placeholder name h =>
      cases List.mem_singleton.1 hp
      exact bare_placeholder h
  have houtcomes : ∃ ts, (ps.flatMap parts).mapM (PhrasePart.outcome es) = .ok ts ∧ Text.cat ts = fillings es ps := by
    clear htexts hbare
    induction ps with
    | nil => exact ⟨[], rfl, rfl⟩
    | cons p ps ih =>
      obtain ⟨ts, hts, hcat⟩ := outcomes_parts es p
      obtain ⟨us, hus, hcat'⟩ := ih
      refine ⟨ts ++ us, ?_, ?_⟩
      · rw [List.flatMap_cons, List.mapM_append, hts, ok_bind, hus]
        rfl
      · rw [Text.cat, List.flatten_append, fillings, List.flatMap_cons]
        exact congrArg₂ (· ++ ·) hcat hcat'
  obtain ⟨ts, hts, hcat⟩ := houtcomes
  rw [← htexts, fill_texts hbare, hts, map_ok, hcat]

end Stencil.Phrase

namespace Stencil

/-! ## Catalogs and renders -/

/-- parameters as a render writes them -/
def writtenTexts (escaping : Bool) (given : Entries) : Entries :=
  given.map fun e => (e.1, .text (Text.escapeIf escaping e.2.display))

theorem convertParameters_texts (s : State) {given : Entries} (hgiven : ∀ e ∈ given, ∃ t id, e.2 = .text t id) :
    (Render.convertParameters given).run.run s = (.ok (writtenTexts s.escaping given), s) := by
  induction given with
  | nil => rfl
  | cons e given ih =>
    obtain ⟨⟨t, id, ht⟩, hgiven⟩ := List.forall_mem_cons.1 hgiven
    have hconvert : (Render.convert e.2).run.run s = (.ok (Text.escapeIf s.escaping e.2.display), s) := by
      rw [ht]
      rfl
    have ih := ih hgiven
    unfold Render.convertParameters at ih ⊢
    rw [List.mapM_cons, run_bind, run_bind, hconvert]
    simp only [run_pure, run_bind, ih, writtenTexts, List.map_cons]

namespace Catalog

open Phrase PlainPart

/-- **Plain phrases are filled in exactly.** Whatever parameters are given, or none, a phrase of words and placeholders
gives its words with their braces single, each placeholder by its parameter as it is, and a placeholder without one as
it is written; nothing is told. In a render the parameters are those that the render writes, so that texts are escaped
before they are filled in. -/
theorem plain_phrases_exact {c : Catalog} {key : Value} {ps : List PlainPart}
    (hmessage : c.message? key = .ok (some (texts ps))) :
    (∀ (params : Value) (es : Entries), params.orEmpty = .mapping es →
      c.translate key params = return ⟨some (fillings es ps), []⟩) ∧
    ∀ (s : State) (params : Value) (given : Entries), s.catalog = c → params.orEmpty = .mapping given →
      (∀ e ∈ given, ∃ t id, e.2 = .text t id) →
        (Render.translate key params).run.run s = (.ok (some (fillings (writtenTexts s.escaping given) ps)), s) := by
  have htranslate (params : Value) (es : Entries) (hparams : params.orEmpty = .mapping es) :
      c.translate key params = return ⟨some (fillings es ps), []⟩ := by
    rw [translate_eq hmessage hparams, fill_plain]
  refine ⟨htranslate, ?_⟩
  rintro s params given rfl hparams hgiven
  have hentries : params.orEmpty.mappingEntries = .ok given := by rw [hparams]; rfl
  have hfilled := htranslate (.mapping (writtenTexts s.escaping given)) _ (Value.orEmpty_mapping _)
  simp only [Render.translate, run_bind, run_lift, hentries, convertParameters_texts s hgiven, run_get, run_work,
    hfilled]
  rfl

/-- a placeholder between doubled braces, whose parameter looks like another placeholder, and one without a parameter -/
theorem plain_phrase_in_braces :
    let c : Catalog := ⟨[(.text "k", .text "\x7b\x7b\x7bx\x7d\x7d\x7d\x7by\x7d\x7b\x7bx\x7d\x7d")], standardLocale⟩
    c.translate (.text "k") (.mapping [(.text "x", .text "\x7by\x7d\x7b\x7b")]) =
        pure ⟨some "\x7b\x7by\x7d\x7b\x7b\x7d\x7by\x7d\x7bx\x7d", []⟩ ∧
      c.translate (.text "k") .none = pure ⟨some "\x7b\x7bx\x7d\x7d\x7by\x7d\x7bx\x7d", []⟩ ∧
      let s := State.start [] c .none true []
      (Render.translate (.text "k") (.mapping [(.text "x", .text "<")])).run.run s =
        (.ok (some "\x7b&lt;\x7d\x7by\x7d\x7bx\x7d"), s) := by
  intro c
  let ps : List PlainPart := [.words "\x7b", .placeholder "x" (by decide), .words "\x7d", .placeholder "y" (by decide),
    .words "\x7bx\x7d"]
  have hmessage : c.message? (.text "k") = .ok (some (texts ps)) := rfl
  obtain ⟨htranslate, hrender⟩ := plain_phrases_exact hmessage
  have hgiven : ∀ e ∈ [(Value.text "x", Value.text "<")], ∃ t id, e.2 = .text t id := by
    simp
  exact ⟨htranslate _ [(.text "x", .text "\x7by\x7d\x7b\x7b")] rfl, htranslate .none [] rfl,
    hrender (State.start [] c .none true []) _ _ rfl rfl hgiven⟩

end Catalog

end Stencil
