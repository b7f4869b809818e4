/-
DIRECTIVES WITH OPTIONS. A field, a generated form, an open form and its two buttons take options behind their own
words: attributes with any values, and the bare word of the directive, if it has one. The grammar, the search for
attributes and the search for bare words read one and the same text; what they find is what was written.

- `lastAtFirst`, `foldl_putAt_eq`: each name once, at its first place, with its last value.
- `HeadText`: such a directive without its options, as it is written.
- `HeadText.accepts_iff`: the options with which it is accepted.
- `HeadText.first_eq`: what it compiles to.
- `options_read_back`: the three readings against what was written.
-/
import Stencil.Proofs.Options
import Stencil.Proofs.Names

namespace Stencil

/-! ## The last value of each name -/

section

variable {α β : Type} [BEq α] [LawfulBEq α]

/-- each name once, where it is put first, with the value that is put last -/
def lastAtFirst (ps : List (α × β)) : List (α × β) :=
  (ps.map Prod.fst).eraseDups.filterMap fun n => (getAt? n ps.reverse).map fun v => (n, v)

/-- entries of different names are told by their names and values -/
theorem filterMap_keys {es : List (α × β)} (h : (es.map Prod.fst).Nodup) :
    ((es.map Prod.fst).filterMap fun n => (getAt? n es).map fun v => (n, v)) = es := by
  rw [List.filterMap_map]
  calc es.filterMap ((fun n => (getAt? n es).map fun v => (n, v)) ∘ Prod.fst)
      = es.filterMap some := List.filterMap_congr fun e he => by
        rw [Function.comp_apply, getAt?_of_mem h he, Option.map_some]
    _ = es := List.filterMap_some

theorem keys_foldl_putAt (ps : List (α × β)) :
    (ps.foldl (fun acc a => putAt a.1 a.2 acc) []).map Prod.fst = (ps.map Prod.fst).eraseDups := by
  -- from the end, where the next value is put
  induction ps using List.reverseRecOn with
  | nil => rfl
  | append_singleton ps a ih =>
    rw [List.foldl_append, List.foldl_cons, List.foldl_nil, keys_putAt, ih, List.map_append, List.eraseDups_append,
      List.map_cons, List.map_nil, List.removeAll]
    simp only [List.mem_eraseDups]
    by_cases h : a.1 ∈ ps.map Prod.fst
    · have hnone : [a.1].filter (fun n => !(ps.map Prod.fst).elem n) = [] := by simp [h]
      rw [if_pos h, hnone, List.eraseDups_nil, List.append_nil]
    · have hone : [a.1].filter (fun n => !(ps.map Prod.fst).elem n) = [a.1] := by simp [h]
      rw [if_neg h, hone]
      rfl

theorem getAt?_foldl_putAt (n : α) (ps : List (α × β)) :
    getAt? n (ps.foldl (fun acc a => putAt a.1 a.2 acc) []) = getAt? n ps.reverse := by
  induction ps using List.reverseRecOn with
  | nil => rfl
  | append_singleton ps a ih =>
    rw [List.foldl_append, List.foldl_cons, List.foldl_nil, getAt?_putAt, ih, List.reverse_append,
      List.reverse_singleton, List.singleton_append, getAt?, getAt?, List.find?_cons]
    cases a.1 == n <;> rfl

/-- **Values put one after the other** are the last of each name, at the place of its first. -/
theorem foldl_putAt_eq (ps : List (α × β)) :
    ps.foldl (fun acc a => putAt a.1 a.2 acc) [] = lastAtFirst ps := by
  have hnodup : ((ps.foldl (fun acc a => putAt a.1 a.2 acc) []).map Prod.fst).Nodup :=
    nodup_foldl_putAt ps List.nodup_nil
  rw [← filterMap_keys hnodup, keys_foldl_putAt, lastAtFirst]
  simp only [getAt?_foldl_putAt]

end

namespace Directive

open PlacedItem

/-! ## Directives as they are written -/

/-- the bare word by which a field has no label -/
def WordText.noLabel : WordText :=
  ⟨Directive.noLabel, by decide, List.all_eq_true.1 (show Directive.noLabel.all isAttributeChar = true by decide)⟩

/-- a directive that takes options, without them, as it is written -/
inductive HeadText where
  | field (lead : BlankText) (name : Text) (proper : Text.isName name = true)
  | generate (lead : BlankText) (entity : PathText) (proper : entity.proper = true)
  | form (lead : BlankText) (entity : PathText) (proper : entity.proper = true)
  | submit
  | button

namespace HeadText

/-- the directive -/
def text : HeadText → Text
  | field lead name _ => "field".toList ++ (lead.text ++ name)
  | generate lead entity _ => "generate".toList ++ (lead.text ++ entity.text)
  | form lead entity _ => "form".toList ++ (lead.text ++ entity.text)
  | submit => "submit"
  | button => "button"

/-- the reader of the directive -/
def reader : HeadText → Reader
  | field _ _ _ => .field
  | generate _ _ _ => .generate
  | form _ _ _ => .form
  | submit => .submit
  | button => .button

/-- the bare word that the directive takes -/
def bare : HeadText → Option WordText
  | field _ _ _ => some .noLabel
  | generate _ _ _ => some .noSubmit
  | _ => none

/-- the directive stands in a form -/
def isPart : HeadText → Bool
  | generate _ _ _ => false
  | form _ _ _ => false
  | _ => true

/-- what the directive compiles to with attributes, without its bare word or with it -/
def fragment (m : Mode) (bound : List Text) (attributes : Attributes) (plain : Bool) :
    HeadText → Except Refusal Fragment
  | field _ name _ => .ok (.statements [.field name attributes plain])
  | generate _ entity _ => do
    let r ← Reference.parse entity.text
    let e ← m.value bound true entity.text
    return .statements [.generate e r.lastName attributes plain]
  | form _ entity _ => do
    let r ← Reference.parse entity.text
    let e ← m.value bound true entity.text
    return .statements [.formOpen e r.lastName attributes, .writeFormOpen, .scopeForm]
  | submit => .ok (.statements [.submit attributes])
  | button => .ok (.statements [.button attributes])

end HeadText

section

variable {lead : BlankText} {word : Option Text} (ps : List PlacedItem)

theorem field?_texts {name : Text} (h : Text.isName name = true) :
    field? ("field".toList ++ (lead.text ++ (name ++ texts ps))) =
      if areOptions (some noLabel) (texts ps) then some ⟨name, texts ps⟩ else none := by
  have hsolid := Reference.solid_name h
  have hbegins : Text.begins Text.isBlank (name ++ texts ps) = false := by
    rw [Text.begins_append hsolid.ne, hsolid.front]
  have hname : Reference.name? (name ++ texts ps) = some (name, texts ps) :=
    Reference.name?_eq_some_iff.2 ⟨h, rfl, begins_of_atBlank (fun _ => Text.isNameChar_of_isBlank) (atBlank_texts ps)⟩
  rw [field?, afterWord?_lead lead.ne lead.blank hbegins, Option.bind_some, hname, Option.bind_some]

theorem pathAndOptions?_texts {keyword : Text} {entity : PathText} (h : entity.proper = true) :
    (afterWord? keyword (keyword ++ (lead.text ++ (entity.text ++ texts ps)))).bind (pathAndOptions? word) =
      if areOptions word (texts ps) then some ⟨entity.text, texts ps⟩ else none := by
  rw [afterWord?_lead lead.ne lead.blank (begins_entity h _), Option.bind_some, pathAndOptions?,
    takePath?_path h (atBlank_texts ps), Option.bind_some]

theorem generate?_texts {entity : PathText} (h : entity.proper = true) :
    generate? ("generate".toList ++ (lead.text ++ (entity.text ++ texts ps))) =
      if areOptions (some noSubmit) (texts ps) then some ⟨entity.text, texts ps⟩ else none :=
  pathAndOptions?_texts ps h

theorem form?_texts {entity : PathText} (h : entity.proper = true) :
    form? ("form".toList ++ (lead.text ++ (entity.text ++ texts ps))) =
      if areOptions none (texts ps) then some ⟨entity.text, texts ps⟩ else none :=
  pathAndOptions?_texts ps h

theorem keywordOptions?_texts (keyword : Text) :
    keywordOptions? keyword (keyword ++ texts ps) = if areOptions none (texts ps) then some (texts ps) else none := by
  rw [keywordOptions?, Text.after?_append, Option.bind_some]

end

namespace HeadText

theorem field_append (lead : BlankText) (name : Text) (h : Text.isName name = true) (rest : Text) :
    (field lead name h).text ++ rest = "field".toList ++ (lead.text ++ (name ++ rest)) :=
  (List.append_assoc _ _ _).trans (congrArg _ (List.append_assoc _ _ _))

theorem generate_append (lead : BlankText) (entity : PathText) (h : entity.proper = true) (rest : Text) :
    (generate lead entity h).text ++ rest = "generate".toList ++ (lead.text ++ (entity.text ++ rest)) :=
  (List.append_assoc _ _ _).trans (congrArg _ (List.append_assoc _ _ _))

theorem form_append (lead : BlankText) (entity : PathText) (h : entity.proper = true) (rest : Text) :
    (form lead entity h).text ++ rest = "form".toList ++ (lead.text ++ (entity.text ++ rest)) :=
  (List.append_assoc _ _ _).trans (congrArg _ (List.append_assoc _ _ _))

variable (d : HeadText) (ps : List PlacedItem)

/-- the grammar of the directive is that of its options -/
theorem accepts_eq : d.reader.accepts (d.text ++ texts ps) = areOptions (d.bare.map WordText.text) (texts ps) := by
  have hisSome {α : Type} (b : Bool) (a : α) : (if b then some a else none).isSome = b := by cases b <;> rfl
  cases d with
  | field lead name h =>
    rw [field_append]
    exact (congrArg Option.isSome (field?_texts ps h)).trans (hisSome _ _)
  | generate lead entity h =>
    rw [generate_append]
    exact (congrArg Option.isSome (generate?_texts ps h)).trans (hisSome _ _)
  | form lead entity h =>
    rw [form_append]
    exact (congrArg Option.isSome (form?_texts ps h)).trans (hisSome _ _)
  | submit => exact (congrArg Option.isSome (keywordOptions?_texts ps "submit")).trans (hisSome _ _)
  | button => exact (congrArg Option.isSome (keywordOptions?_texts ps "button")).trans (hisSome _ _)

/-- **The directive is accepted** exactly with options whose bare words are its own. -/
theorem accepts_iff :
    d.reader.accepts (d.text ++ texts ps) = true ↔ ∀ w ∈ words ps, d.bare.map WordText.text = some w := by
  rw [accepts_eq, areOptions_texts_iff]

/-- the bare word is not among words that could only be it exactly if there are none -/
theorem contains_eq {ws : List Text} {w : Text} (h : ∀ v ∈ ws, some w = some v) : (!ws.contains w) = ws.isEmpty := by
  cases ws with
  | nil => rfl
  | cons v ws =>
    have hv : w = v := Option.some.inj (h v List.mem_cons_self)
    simp [hv]

/-- **What the directive compiles to**, where the grammar takes its options. -/
theorem first_eq {m : Mode} {t : Token} {c : Context} (ht : t.raw = d.text ++ texts ps)
    (hpart : d.isPart = true → (c.find? .form).isSome = true)
    (hwords : ∀ w ∈ words ps, d.bare.map WordText.text = some w) :
    d.reader.first m t c =
      (d.fragment m c.bound (lastAtFirst (pairs ps)) (words ps).isEmpty).map fun f => (f, c) := by
  have hoptions := areOptions_texts_iff.2 hwords
  have hattributes : attributes (texts ps) = lastAtFirst (pairs ps) := by rw [attributes_items, foldl_putAt_eq]
  have hinside {α : Type} (p : α) (h : d.isPart = true) : requireInForm t c (some p) = .ok p := by
    have hform : ¬(c.find? .form).isNone = true := by simpa [Option.isSome_iff_ne_none] using hpart h
    rw [Instruction.requireInForm_eq (p := p) rfl, if_neg hform]
  cases d with
  | field lead name h =>
    have hraw : field? t.raw = some ⟨name, texts ps⟩ := by
      rw [ht, field_append, field?_texts ps h]
      exact if_pos hoptions
    have hplain : (!(words ps).contains noLabel) = (words ps).isEmpty := contains_eq hwords
    show (fieldFragment t c).map (fun f => (f, c)) = _
    rw [fieldFragment, hraw, hinside _ rfl, ok_bind, flags_items, hattributes, hplain]
    rfl
  | generate lead entity h =>
    have hraw : generate? t.raw = some ⟨entity.text, texts ps⟩ := by
      rw [ht, generate_append, generate?_texts ps h]
      exact if_pos hoptions
    have hplain : (!(words ps).contains noSubmit) = (words ps).isEmpty := contains_eq hwords
    show (generateFragment m t c).map (fun f => (f, c)) = _
    rw [generateFragment, hraw, require, ok_bind, flags_items, hattributes, hplain]
    rfl
  | form lead entity h =>
    have hraw : form? t.raw = some ⟨entity.text, texts ps⟩ := by
      rw [ht, form_append, form?_texts ps h]
      exact if_pos hoptions
    show (startForm m t c).map (fun f => (f, c)) = _
    rw [startForm, hraw, require, ok_bind, hattributes]
    rfl
  | submit =>
    have hraw : keywordOptions? "submit" t.raw = some (texts ps) := by
      rw [ht]
      exact (keywordOptions?_texts ps "submit").trans (if_pos hoptions)
    rw [reader, Reader.first, hraw, hinside _ rfl, ok_bind, hattributes]
    rfl
  | button =>
    have hraw : keywordOptions? "button" t.raw = some (texts ps) := by
      rw [ht]
      exact (keywordOptions?_texts ps "button").trans (if_pos hoptions)
    rw [reader, Reader.first, hraw, hinside _ rfl, ok_bind, hattributes]
    rfl

end HeadText

/-- **Options are read back.** A directive with options, with any blanks between them, is accepted exactly if their bare
words are its own; its attributes are those that are written, each name at its first place with its last value; the bare
words that are found are those that are written. Where it is accepted, and an open form is around it if it is a part of
one, it compiles with these attributes, and by itself or as its bare word has it. -/
theorem options_read_back (d : HeadText) (ps : List PlacedItem) :
    (d.reader.accepts (d.text ++ texts ps) = true ↔ ∀ w ∈ words ps, d.bare.map WordText.text = some w) ∧
    attributes (texts ps) = lastAtFirst (pairs ps) ∧
    flags (texts ps) = words ps ∧
    ∀ (m : Mode) (t : Token) (c : Context), t.raw = d.text ++ texts ps →
      (d.isPart = true → (c.find? .form).isSome = true) → d.reader.accepts t.raw = true →
      d.reader.first m t c =
        (d.fragment m c.bound (lastAtFirst (pairs ps)) (words ps).isEmpty).map fun f => (f, c) := by
  refine ⟨d.accepts_iff ps, by rw [attributes_items, foldl_putAt_eq], flags_items ps, ?_⟩
  intro m t c ht hpart haccepts
  rw [ht, d.accepts_iff ps] at haccepts
  exact d.first_eq ps ht hpart haccepts

/-- a field with its bare word, which also stands in a value and is the name of an attribute -/
theorem options_of_field :
    let raw : Text := "field bio\n class=\"wide nolabel\n name=\" nolabel nolabel=\"\" class=\"two\""
    let c : Context := Context.start.push ⟨some .form, ⟨.form, "form user", 0, 1⟩, ["form"], false⟩
    let given : Attributes := [("class", "two"), ("nolabel", [])]
    (field? raw).isSome = true ∧ attributes (raw.drop 9) = given ∧ flags (raw.drop 9) = [noLabel] ∧
      ∀ (m : Mode) (position line : Nat), Reader.first m ⟨.field, raw, position, line⟩ c .field =
        .ok (.statements [.field "bio" given false], c) := by
  intro raw c given
  let blank : BlankText := ⟨[' '], by decide, List.forall_mem_singleton.2 (by decide)⟩
  let broken : BlankText :=
    ⟨['\n', ' '], by decide, List.forall_mem_cons.2 ⟨by decide, List.forall_mem_singleton.2 (by decide)⟩⟩
  let d : HeadText := .field blank "bio" (by decide)
  let ps : List PlacedItem :=
    [⟨broken, .pair ⟨"class", "wide nolabel\n name=", by decide, by decide⟩⟩, ⟨blank, .word .noLabel⟩,
      ⟨blank, .pair ⟨"nolabel", [], by decide, by decide⟩⟩, ⟨blank, .pair ⟨"class", "two", by decide, by decide⟩⟩]
  have hraw : raw = d.text ++ texts ps := by decide
  have hrest : raw.drop 9 = texts ps := by decide
  have hgiven : lastAtFirst (pairs ps) = given := by decide
  obtain ⟨haccepts, hattributes, hflags, hfirst⟩ := options_read_back d ps
  have haccepted : d.reader.accepts (d.text ++ texts ps) = true := haccepts.2 (by decide)
  refine ⟨?_, ?_, ?_, fun m position line => ?_⟩
  · rw [hraw]
    exact haccepted
  · rw [hrest, hattributes, hgiven]
  · rw [hrest, hflags]
    rfl
  · have hone := hfirst m ⟨.field, raw, position, line⟩ c hraw (fun _ => rfl) (hraw ▸ haccepted)
    rw [hgiven] at hone
    exact hone

end Directive

end Stencil
