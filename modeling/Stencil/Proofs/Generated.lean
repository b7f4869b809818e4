/-
GENERATED FORMS. A directive that generates a form puts the form together and then writes it; spelled out, the same form
is written piece by piece, its tag given the attributes beforehand and its fields named in the template. Either way the
same is written on a page, and a failure is the same with the same messages, if the fields that are named are those that
the mappings configure. So a template can be respelled anywhere: it compiles if the other does, and renders the same.

- `Form.control_of_chars?`, `Form.openTag_given`: a field by its key or its name, the attributes of the tag given before
  or now.
- `Brings`, `brings_generate`: work whose text is written does the same as other work; a form, piece by piece.
- `Passage.Same`, `Nested.page_respelled`: a derivation and the derivation respelled ask for passages that do the same.
- `render_respelled`: the templates themselves.
-/
import Stencil.Proofs.Entries
import Stencil.Proofs.Respelled
import Stencil.Proofs.Sections
import Stencil.Proofs.Throughout

namespace Stencil

/-! ## Keys that are texts -/

namespace Value

variable {key : Value} {s : Text}

theorem display_of_chars? (h : key.chars? = some s) : key.display = s := by
  rw [display, h]

/-- a text that is a key is told by its characters -/
theorem alike_of_chars? (h : key.chars? = some s) (v : Value) : alike v key = alike v (.text s) := by
  cases key with
  | text t id =>
    cases h
    cases v <;> simp [alike, sameNan, eq, eqAtom, number?]
  | markup t id =>
    cases h
    cases v <;> simp [alike, sameNan, eq, eqAtom, number?]
  | _ => cases h

theorem find?_of_chars? (h : key.chars? = some s) (es : Entries) : find? key es = find? (.text s) es := by
  induction es with
  | nil => rfl
  | cons e es ih => rw [find?, find?, ih, alike_of_chars? h]

theorem isKey_text (s : Text) : (text s).isKey = true := isKey_of_chars? (s := s) rfl

theorem get?_of_chars? (h : key.chars? = some s) (v : Value) : v.get? key = v.get? (.text s) := by
  cases v with
  | mapping es => rw [get?, get?, isKey_of_chars? h, find?_of_chars? h, isKey_text]
  | _ => rfl

theorem int?_of_chars? (h : key.chars? = some s) : key.int? = Option.none := by
  cases key with
  | text t id => rfl
  | markup t id => rfl
  | _ => cases h

theorem reach_of_chars? (h : key.chars? = some s) (v : Value) : v.reach key = v.reach (.text s) := by
  have hmember : v.member key = v.member (.text s) := by
    cases v with
    | mapping es =>
      rw [member, member, valueUnder?, valueUnder?, find?_of_chars? h, int?_of_chars? h]
      rfl
    | _ => simp only [member, int?_of_chars? h, h]; rfl
  have hbeyond : v.isBeyond key = v.isBeyond (.text s) := by
    cases v with
    | range a b c id => simp only [isBeyond, int?_of_chars? h]; rfl
    | _ => rfl
  rw [reach, reach, isKey_of_chars? h, isKey_text, hbeyond, hmember]

end Value

/-! ## Forms -/

namespace Form

variable {f : Form} {key : Value} {s : Text}

theorem labelFor_of_chars? (h : key.chars? = some s) : f.labelFor key = f.labelFor (.text s) := by
  have hcontent (c : Entries) : f.labelElement ((Value.find? (.ofString "label") c).getD key) [] =
      f.labelElement ((Value.find? (.ofString "label") c).getD (.text s)) [] := by
    cases Value.find? (.ofString "label") c with
    | some v => rfl
    | none =>
      have hnone : key.isNone = false := by cases key <;> first | rfl | cases h
      simp only [Option.getD_none, labelElement, valueText, hnone, Value.display_of_chars? h]
      rfl
  simp only [labelFor, config, Value.get?_of_chars? h, hcontent]

/-- **The control of a field** is that of its name. -/
theorem control_of_chars? (h : key.chars? = some s) (attributes : Value) (labelled : Bool) :
    f.control key attributes labelled = f.control (.text s) attributes labelled := by
  have hname : f.controlName key = f.controlName (.text s) := by
    rw [controlName, controlName, Value.display_of_chars? h]
    rfl
  simp only [control, config, current, controlAttributes, errorsFor, Value.get?_of_chars? h, Value.reach_of_chars? h,
    Value.find?_of_chars? h, labelFor_of_chars? h, hname]

end Form

namespace Value

/-- entries with different names, put one after the other, stay as they are -/
theorem putAll_nil {a : List (Text × Text)} (h : (a.map Prod.fst).Nodup) :
    putAll [] (a.map fun e => (.text e.1, .text e.2)) = a.map fun e => (.text e.1, .text e.2) := by
  have hput (k v : Text) (b : List (Text × Text)) (hk : k ∉ b.map Prod.fst) :
      put (.text k) (.text v) (b.map fun e => (Value.text e.1, Value.text e.2)) =
        (b ++ [(k, v)]).map fun e => (.text e.1, .text e.2) := by
    induction b with
    | nil => rfl
    | cons e b ih =>
      rw [List.map_cons, List.mem_cons, not_or] at hk
      have hne : alike (.text e.1) (.text k) = false := by
        simpa [alike, sameNan, eq, eqAtom] using Ne.symm hk.1
      rw [List.map_cons, put, hne, ih hk.2]
      rfl
  have hall (b c : List (Text × Text)) (hc : ((b ++ c).map Prod.fst).Nodup) :
      putAll (b.map fun e => (.text e.1, .text e.2)) (c.map fun e => (.text e.1, .text e.2)) =
        (b ++ c).map fun e => (.text e.1, .text e.2) := by
    induction c generalizing b with
    | nil => rw [List.append_nil]; rfl
    | cons e c ih =>
      have hnew : e.1 ∉ b.map Prod.fst := by
        rw [List.map_append, List.map_cons, List.nodup_append] at hc
        exact fun hmem => hc.2.2 _ hmem _ List.mem_cons_self rfl
      rw [List.append_cons] at hc ⊢
      rw [← ih _ hc, ← hput e.1 e.2 b hnew]
      rfl
  exact hall [] a h

end Value

namespace Form

/-- the form with these attributes of its tag -/
def tagged (f : Form) (a : Attributes) : Form := { f with attributes := a.toValue }

/-- **Attributes of the tag** can be given beforehand. -/
theorem openTag_tagged (f : Form) {a : Attributes} (h : (a.map Prod.fst).Nodup) :
    (f.tagged []).openTag a.toValue = (f.tagged a).openTag .none := by
  have hmerge : (Value.mapping []).merge a.toValue.orEmpty = a.toValue.merge Value.none.orEmpty := by
    rw [Attributes.toValue, Value.orEmpty_mapping, Value.merge, Value.putAll_nil h]
    rfl
  rw [openTag, openTag]
  exact congrArg (· >>= _) hmerge

end Form

/-! ## Writing piece by piece -/

namespace Direct

/-- outcomes on the same page -/
theorem alike_refl {α : Type} (u : Except Failure α × Page) : Alike Eq u u := by
  obtain ⟨r, p⟩ := u
  cases r with
  | ok a => exact .ok rfl
  | error e => exact .error rfl

/-- work does the same as itself -/
theorem parallel_refl {α : Type} (x : Direct α) : Parallel Eq x x := fun _ _ h => h ▸ alike_refl _

theorem parallel_trans {α : Type} {x y z : Direct α} (hxy : Parallel Eq x y) (hyz : Parallel Eq y z) :
    Parallel Eq x z := by
  intro p q h
  have hone := hxy p p rfl
  have htwo := hyz p q h
  generalize x.run.run p = u at hone ⊢
  generalize y.run.run p = v at hone htwo
  generalize z.run.run q = w at htwo ⊢
  cases hone with
  | ok h =>
    cases htwo with
    | ok h' => exact .ok (h.trans h')
  | error h =>
    cases htwo with
    | error h' => exact .error (h'.trans h)

/-- the text of some work with that of other work behind it -/
def joined (w₁ w₂ : Work Text) : Work Text := do
  let a ← w₁
  let b ← w₂
  return a ++ b

/-- writing the text of some work does the same as other work -/
def Brings (w : Work Text) (x : Direct Unit) : Prop := Parallel Eq (do let t ← work w; write t) x

theorem brings_work (w : Work Text) : Brings w (do let t ← work w; write t) := parallel_refl _

theorem brings_pure (t : Text) : Brings (pure t) (write t) := parallel_refl _

theorem run_brings (w : Work Text) (p : Page) : (do let t ← work w; write t : Direct Unit).run.run p =
    match w.run.run p.asked with
    | (.ok t, asked) => (.ok (), { p with output := p.output ++ t, asked := asked })
    | (.error e, asked) => (.error e, { p with asked := asked }) := by
  have hwork : (work w).run.run p = ((w.run.run p.asked).1, { p with asked := (w.run.run p.asked).2 }) := rfl
  rw [run_bind, hwork]
  rcases w.run.run p.asked with ⟨r, asked⟩
  cases r <;> rfl

/-- **Texts one behind the other** are written one after the other. -/
theorem brings_joined {w₁ w₂ : Work Text} {x₁ x₂ : Direct Unit} (h₁ : Brings w₁ x₁) (h₂ : Brings w₂ x₂) :
    Brings (joined w₁ w₂) (do x₁; x₂) := by
  refine parallel_trans ?_ (parallel_bind h₁ fun _ => h₂)
  rintro p _ rfl
  rw [run_brings, joined, run_bind w₁, run_bind, run_brings]
  rcases w₁.run.run p.asked with ⟨r, asked⟩
  cases r with
  | error e => exact .error rfl
  | ok a =>
    simp only
    rw [run_bind, run_brings]
    simp only
    rcases w₂.run.run asked with ⟨r, asked'⟩
    cases r with
    | error e => exact .error rfl
    | ok b => exact .ok (by simp)

theorem brings_nil : Brings (pure []) (pure ()) := by
  rintro p _ rfl
  exact .ok (congrArg (fun output => { p with output := output }) (List.append_nil p.output))

variable {α β : Type}

theorem brings_mapM {f : α → Work Text} {x : β → Direct Unit} {as : List α} {bs : List β}
    (h : List.Forall₂ (fun a b => Brings (f a) (x b)) as bs) :
    Brings (do let ts ← as.mapM f; return Text.cat ts) (bs.forM x) := by
  induction h with
  | nil => exact brings_nil
  | @cons a b as bs hone _ ih =>
    have hcons : (do let ts ← (a :: as).mapM f; return Text.cat ts : Work Text) =
        joined (f a) (do let ts ← as.mapM f; return Text.cat ts) := by
      simp [joined, List.mapM_cons, Text.cat]
    rw [hcons]
    exact brings_joined hone ih

end Direct

/-! ## A form as a whole -/

/-- the names of the fields that mappings configure under a name; what they have there is a mapping, or is not true -/
def Configures (mappings : Value) (name : Text) (fields : List Text) : Prop :=
  ∀ found, mappings.get? (.text name) = .ok found → ∃ es, (found.getD .none).orEmpty = .mapping es ∧
    (es.filter Form.isConfigured).map (·.1.chars?) = fields.map some

/-- the directives in a form: a field for each name, and a button if asked for -/
def Act.formParts (fields : List Text) (submitting : Bool) : List Act :=
  fields.map (fun f => .field f [] true) ++ if submitting then [.submit []] else []

/-- directives without a body one after the other -/
def Passage.acts : List Act → Passage := List.foldr .act .done

theorem Passage.direct_acts (as : List Act) (env : Env) :
    (Passage.acts as).direct env = as.forM fun a => a.direct env := by
  induction as with
  | nil => rfl
  | cons a as ih =>
    rw [acts, List.foldr_cons, Passage.direct]
    exact congrArg (fun rest => do a.direct env; rest) ih

namespace Direct

/-- a form that is put together is its tag, its controls, its button and the closing tag -/
theorem generate_joined {f : Form} {keys : List Value} (h : f.fields = .ok keys) (attributes : Value)
    (submitting : Bool) : f.generate attributes submitting = joined (liftM (f.openTag attributes))
      (joined (do let ts ← keys.mapM fun key => f.control key .none true; return Text.cat ts)
        (joined (if submitting then f.submit .none else pure []) (pure Form.closeTag))) := by
  have hok : (liftM (Except.ok keys : Except Failure (List Value)) : Work (List Value)) = pure keys := rfl
  rw [Form.generate, h]
  cases submitting <;> simp [joined, hok]

/-- **A form piece by piece** is written as the form that is put together. -/
theorem brings_generate {f : Form} {es : Entries} {fields : List Text} {a : Attributes} (submitting : Bool) {env : Env}
    {outer : List Form} (hforms : env.forms = f.tagged a :: outer) (ha : (a.map Prod.fst).Nodup)
    (hes : f.mapping = .mapping es)
    (hfields : (es.filter Form.isConfigured).map (·.1.chars?) = fields.map some) :
    Brings ((f.tagged []).generate a.toValue submitting) (do
      let t ← (f.tagged a).openTag .none
      write t
      (Passage.acts (Act.formParts fields submitting)).direct env
      write Form.closeTag) := by
  let keys := (es.filter Form.isConfigured).map (·.1)
  let button : List Act := if submitting then [.submit []] else []
  let tag : Work Text := liftM ((f.tagged a).openTag .none)
  let controls : Work Text := do
    let ts ← keys.mapM fun key => (f.tagged []).control key .none true
    return Text.cat ts
  let last : Work Text := if submitting then (f.tagged []).submit .none else pure []
  have hcontrols : Brings controls ((fields.map fun n => Act.field n [] true).forM fun act => act.direct env) := by
    have hkeys : List.Forall₂ (fun (e : Value × Value) n => e.1.chars? = some n) (es.filter Form.isConfigured)
        fields := by
      have hsame : List.Forall₂ Eq ((es.filter Form.isConfigured).map (·.1.chars?)) (fields.map some) :=
        hfields ▸ List.forall₂_same.2 fun _ _ => rfl
      simpa using hsame
    refine brings_mapM (List.forall₂_map_left_iff.2 (List.forall₂_map_right_iff.2 (hkeys.imp fun e n hkey => ?_)))
    rw [Form.control_of_chars? hkey, Act.direct, inForm, hforms]
    exact brings_work _
  have hlast : Brings last (button.forM fun act => act.direct env) := by
    cases submitting with
    | false => exact brings_nil
    | true =>
      have hsubmit : (button.forM fun act => act.direct env) = (Act.submit []).direct env := bind_pure_unit
      rw [hsubmit, Act.direct, inForm, hforms]
      exact brings_work _
  have hnames : (f.tagged []).fields = .ok keys := by
    rw [Form.fields, Form.tagged, hes]
    rfl
  have hgenerate : (f.tagged []).generate a.toValue submitting =
      joined tag (joined controls (joined last (pure Form.closeTag))) := by
    rw [generate_joined hnames, Form.openTag_tagged f ha]
  have hparts : (Passage.acts (Act.formParts fields submitting)).direct env = (do
      (fields.map fun n => Act.field n [] true).forM fun act => act.direct env
      button.forM fun act => act.direct env) := by
    rw [Passage.direct_acts, Act.formParts]
    exact List.forM_append
  have hall := brings_joined (brings_work tag)
    (brings_joined hcontrols (brings_joined hlast (brings_pure Form.closeTag)))
  rw [hgenerate, hparts]
  simp only [bind_assoc] at hall ⊢
  exact hall

theorem makeForm_tagged (env : Env) (entity : Value) (name : Text) (a : Attributes) :
    makeForm env entity name a.toValue = (do
      let found ← env.mappings.get? (.text name)
      let f : Form := ⟨entity, name, (found.getD .none).orEmpty, .none, Form.ownErrors entity, env.escaping⟩
      return f.tagged a) := by
  have hmake (mapping : Value) : Form.make entity name mapping .none a.toValue env.escaping =
      pure (Form.tagged ⟨entity, name, mapping.orEmpty, .none, Form.ownErrors entity, env.escaping⟩ a) := by
    have hraw : Form.make entity name mapping .none a.toValue env.escaping =
        pure ⟨entity, name, mapping.orEmpty, a.toValue.orEmpty, Form.ownErrors entity, env.escaping⟩ := rfl
    have hattributes : a.toValue.orEmpty = a.toValue := Value.orEmpty_mapping _
    rw [hraw, hattributes]
    rfl
  refine bind_congr fun found => ?_
  rw [hmake]
  rfl

/-- **Generating a form** does the same as opening it, with the fields that are configured and a button in it. -/
theorem parallel_generate {env : Env} {e : Expr} {name : Text} {a : Attributes} {fields : List Text}
    (hfields : Configures env.mappings name fields) (ha : (a.map Prod.fst).Nodup) (submitting : Bool) :
    Parallel Eq ((Act.generate e name a submitting).direct env) ((Opening.form e name a).direct env fun env' =>
      (Passage.acts (Act.formParts fields submitting)).direct env') := by
  refine parallel_bind (parallel_refl _) fun entity => ?_
  have hbare := makeForm_tagged env entity name []
  have htagged := makeForm_tagged env entity name a
  have hempty : Attributes.toValue [] = .mapping [] := rfl
  rw [← hempty, hbare, htagged]
  cases hget : env.mappings.get? (.text name) with
  | error failure => exact fun _ _ h => .error (h ▸ rfl)
  | ok found =>
    obtain ⟨es, hes, hnames⟩ := hfields found hget
    exact brings_generate submitting rfl ha hes hnames

/-- a construct, if its body does the same wherever the mappings are given -/
theorem parallel_around {env : Env} (o : Opening) {body body' : Env → Direct Unit}
    (h : ∀ env' : Env, env'.mappings = env.mappings → Parallel Eq (body env') (body' env')) :
    Parallel Eq (o.direct env body) (o.direct env body') := by
  cases o with
  | loop names path e =>
    refine parallel_bind (parallel_refl _) fun r => ?_
    cases r with
    | false => exact parallel_refl _
    | true =>
      exact parallel_bind (parallel_refl _) fun _ => parallel_bind (parallel_refl _) fun _ =>
        parallel_forM (fun (entry : (Value × Value) × Nat) => h (env.inLoop names _ entry.2 entry.1) rfl) _
  | capture name =>
    exact parallel_bind (parallel_refl _) fun _ => parallel_bind (parallel_refl _) fun _ =>
      parallel_bind (h env rfl) fun _ => parallel_refl _
  | form e name a =>
    exact parallel_bind (parallel_refl _) fun _ => parallel_bind (parallel_refl _) fun _ =>
      parallel_bind (parallel_refl _) fun _ => parallel_bind (parallel_refl _) fun _ =>
      parallel_bind (h _ rfl) fun _ => parallel_refl _
  | phrase key params =>
    refine parallel_bind (parallel_refl _) fun found => ?_
    cases found with
    | some t => exact parallel_refl _
    | none => exact h env rfl

end Direct

/-! ## Passages -/

/-- passages that do the same wherever the mappings are given -/
def Passage.Same (mappings : Value) (p q : Passage) : Prop :=
  ∀ env : Env, env.mappings = mappings → Direct.Parallel Eq (p.direct env) (q.direct env)

/-- branches that do the same wherever the mappings are given -/
def Choices.Same (mappings : Value) (p q : Choices) : Prop :=
  ∀ env : Env, env.mappings = mappings → Direct.Parallel Eq (p.direct env) (q.direct env)

namespace Passage.Same

open Direct

variable {mappings : Value} {body body' rest rest' : Passage} {more more' : Choices}

theorem act (a : Act) (h : rest.Same mappings rest') : (Passage.act a rest).Same mappings (.act a rest') := by
  intro env henv
  rw [Passage.direct, Passage.direct]
  exact parallel_bind (parallel_refl _) fun _ => h env henv

theorem construct (o : Opening) (hb : body.Same mappings body') (hr : rest.Same mappings rest') :
    (Passage.construct o body rest).Same mappings (.construct o body' rest') := by
  intro env henv
  rw [Passage.direct, Passage.direct]
  exact parallel_bind (parallel_around o fun env' h => hb env' (h.trans henv)) fun _ => hr env henv

theorem choice (c : Condition) (hb : body.Same mappings body') (hm : more.Same mappings more')
    (hr : rest.Same mappings rest') :
    (Passage.choice c body more rest).Same mappings (.choice c body' more' rest') := by
  intro env henv
  rw [Passage.direct, Passage.direct]
  refine parallel_bind (parallel_refl _) fun holds => ?_
  cases holds with
  | true => exact parallel_bind (hb env henv) fun _ => hr env henv
  | false => exact parallel_bind (hm env henv) fun _ => hr env henv

/-- **A generated form** and the form spelled out -/
theorem generate {e : Expr} {name : Text} {a : Attributes} {fields : List Text}
    (hfields : Configures mappings name fields) (ha : (a.map Prod.fst).Nodup) (submitting : Bool)
    (hr : rest.Same mappings rest') : (Passage.act (.generate e name a submitting) rest).Same mappings
      (.construct (.form e name a) (Passage.acts (Act.formParts fields submitting)) rest') := by
  rintro env rfl
  rw [Passage.direct, Passage.direct]
  exact parallel_bind (parallel_generate hfields ha submitting) fun _ => hr env rfl

end Passage.Same

theorem Choices.Same.elsewhen {mappings : Value} {body body' : Passage} {more more' : Choices} (c : Condition)
    (hb : body.Same mappings body') (hm : more.Same mappings more') :
    (Choices.elsewhen c body more).Same mappings (.elsewhen c body' more') := by
  intro env henv
  rw [Choices.direct, Choices.direct]
  refine Direct.parallel_bind (Direct.parallel_refl _) fun holds => ?_
  cases holds with
  | true => exact hb env henv
  | false => exact hm env henv

/-! ## What is asked for -/

open Directive

/-- the last name in the path of the entity -/
def Directive.GenerateText.name (g : GenerateText) : Text := (Reference.Writing.reference ⟨g.entity, none⟩).lastName

/-- the names are those of the fields that the mappings of a render configure for the entity -/
def Fits (mappings : Value) (g : GenerateText) (fields : List Text) : Prop :=
  Configures mappings.orEmpty g.name fields

namespace Directive.GenerateText

theorem lastName_of_parse {g : GenerateText} {r : Reference} (h : Reference.parse g.entity.text = .ok r) :
    r.lastName = g.name := by
  have hparse := Reference.parse_writing (w := ⟨g.entity, none⟩) (u := []) (v := [])
    (by simp [Reference.Writing.proper, g.proper]) (List.forall_mem_nil _) (List.forall_mem_nil _)
  simp only [Reference.Writing.text, List.nil_append, List.append_nil, h] at hparse
  split at hparse
  · rw [Except.ok.inj hparse]
    rfl
  · cases hparse

end Directive.GenerateText

theorem Directive.attributes_nil : attributes [] = [] := OptionText.attributes_texts []

theorem Directive.flags_nil : flags [] = [] := OptionText.flags_texts []

namespace Instruction

variable {m : Mode} {bound : List Text} {g : GenerateText} {t : Token}

theorem read_generate (h : t.written = (.generate, g.text)) : read m bound t = (do
    let r ← Reference.parse g.entity.text
    let e ← m.value bound true g.entity.text
    return .act (.generate e r.lastName (attributes (OptionText.texts g.options)) g.submits)) := by
  have hk : t.kind = .generate := Token.kind_of_written h
  have hparts : generate? t.raw = some ⟨g.entity.text, OptionText.texts g.options⟩ :=
    generate?_eq_some_iff.2 ⟨g, congrArg Prod.snd h, rfl⟩
  simp only [read, hk, hparts, require, ok_bind, contains_flags]

theorem read_form (h : t.written = (.form, g.formText)) : read m bound t = (do
    let r ← Reference.parse g.entity.text
    let e ← m.value bound true g.entity.text
    return .opening (.form e r.lastName (attributes (OptionText.texts g.options)))) := by
  have hk : t.kind = .form := Token.kind_of_written h
  have hraw : t.raw = g.formText := congrArg Prod.snd h
  simp only [read, hk, hraw, form?_text, require, ok_bind, OptionText.attributes_attributesOnly]

theorem read_field {f : Text} (hf : Text.isName f = true) (h : t.written = (.field, "field".toList ++ ' ' :: f)) :
    read m bound t = .ok (.act (.field f [] true)) := by
  have hk : t.kind = .field := Token.kind_of_written h
  have hraw : t.raw = "field".toList ++ ' ' :: f := congrArg Prod.snd h
  have hname : Reference.name? f = some (f, []) := Reference.name?_eq_some_iff.2 ⟨hf, (List.append_nil f).symm, rfl⟩
  have hstart : Text.begins Text.isBlank f = false := by
    have hbegins : Text.begins Text.isNameStart (f ++ []) = true := Text.begins_of_isRun hf
    rw [List.append_nil] at hbegins
    exact Text.begins_apart (fun _ => Text.isBlank_of_isNameStart) hbegins
  have hblank : ∀ c ∈ [' '], Text.isBlank c = true := List.forall_mem_singleton.2 rfl
  have hword : afterWord? "field".toList t.raw = some f :=
    hraw ▸ afterWord?_lead (List.cons_ne_nil ' ' []) hblank hstart
  have hfield : field? t.raw = some ⟨f, []⟩ := by
    refine Option.bind_eq_some_iff.2 ⟨(f, []), Option.bind_eq_some_iff.2 ⟨f, hword, hname⟩, ?_⟩
    rfl
  simp only [read, hk, hfield, require, ok_bind, attributes_nil, flags_nil]
  rfl

theorem read_submit (h : t.written = (.submit, "submit".toList)) : read m bound t = .ok (.act (.submit [])) := by
  have hk : t.kind = .submit := Token.kind_of_written h
  have hraw : t.raw = "submit".toList := congrArg Prod.snd h
  have hoptions : keywordOptions? "submit" t.raw = some [] := by
    rw [hraw]
    decide
  simp only [read, hk, hoptions, require, ok_bind, attributes_nil]
  rfl

end Instruction

/-- a derivation of directives without a body asks for what they ask for -/
theorem page_acts {m : Mode} {bound : List Text} {ts : List Token} {as : List Act}
    (h : List.Forall₂ (fun t a => Instruction.read m bound t = .ok (.act a)) ts as) {n : Nested} (hn : n.tokens = ts) :
    n.page m bound = .ok (Passage.acts as) := by
  induction h generalizing n with
  | nil =>
    rw [done_of_tokens hn]
    rfl
  | @cons t a ts as hread _ ih =>
    have hsingle : t.kind.isSingle = true := (Instruction.fits_of_read hread).1
    obtain ⟨rest, rfl, hrest⟩ := single_of_tokens hsingle hn
    rw [Nested.page, hread, ok_bind]
    simp only [ih hrest, ok_bind]
    rfl

/-- **What stands in a form that is spelled out** -/
theorem page_parts {m : Mode} {bound : List Text} {g : GenerateText} {fields : List Text} {n : Nested}
    (hnames : ∀ f ∈ fields, Text.isName f = true) (h : n.tokens.map Token.written = g.parts fields) :
    n.page m bound = .ok (Passage.acts (Act.formParts fields g.submits)) := by
  have hfields : List.Forall₂ (fun w a => ∀ t : Token, t.written = w → Instruction.read m bound t = .ok (.act a))
      (fields.map fun f => (.field, "field".toList ++ ' ' :: f)) (fields.map fun f => .field f [] true) :=
    List.forall₂_map_left_iff.2 (List.forall₂_map_right_iff.2 (List.forall₂_same.2 fun f hf _ =>
      Instruction.read_field (hnames f hf)))
  have hbutton : List.Forall₂ (fun w a => ∀ t : Token, t.written = w → Instruction.read m bound t = .ok (.act a))
      (if g.submits then [(.submit, "submit".toList)] else []) (if g.submits then [.submit []] else []) := by
    split
    · exact .cons (fun _ => Instruction.read_submit) .nil
    · exact .nil
  have hall := List.rel_append hfields hbutton
  change List.Forall₂ _ (g.parts fields) (Act.formParts fields g.submits) at hall
  rw [← h, List.forall₂_map_left_iff] at hall
  exact page_acts (hall.imp fun t a hread => hread t rfl) rfl

/-- both are there and related, or neither is -/
inductive Together {α β : Type} (R : α → β → Prop) : Except Refusal α → Except Refusal β → Prop where
  | ok {a : α} {b : β} (h : R a b) : Together R (.ok a) (.ok b)
  | error {e e' : Refusal} : Together R (.error e) (.error e')

section

variable {α β γ δ : Type} {R : α → β → Prop} {S : γ → δ → Prop}

theorem together_bind {x : Except Refusal α} {y : Except Refusal β} {f : α → Except Refusal γ}
    {g : β → Except Refusal δ} (h : Together R x y) (hf : ∀ a b, R a b → Together S (f a) (g b)) :
    Together S (x >>= f) (y >>= g) := by
  cases h with
  | ok h => exact hf _ _ h
  | error => exact .error

theorem together_same {x : Except Refusal α} {f : α → Except Refusal γ} {g : α → Except Refusal δ}
    (hf : ∀ a, Together S (f a) (g a)) : Together S (x >>= f) (x >>= g) := by
  cases x with
  | error e => exact .error
  | ok a => exact hf a

end

section

variable {m : Mode} {mappings : Value}

mutual

/-- **A derivation that is respelled** asks for a passage if the derivation does, and the passages do the same. -/
theorem Nested.page_respelled : ∀ (n : Nested) {n' : Nested} (bound : List Text), n.Respelled (Fits mappings) n' →
    Together (Passage.Same mappings.orEmpty) (n.page m bound) (n'.page m bound)
  | .done, _, bound, h => by
    cases h
    exact .ok fun _ _ => Direct.parallel_refl _
  | .single t ht rest, _, bound, h => by
    cases h with
    | single h hrest =>
      rw [Nested.page, Nested.page, Instruction.read_congr h]
      refine together_same fun i => ?_
      cases i with
      | act a => exact together_bind (Nested.page_respelled rest bound hrest) fun _ _ hr => .ok (.act a hr)
      | _ => exact .error
    | @form t ht rest g fields hf start hs body stop he rest' h hnames hfits hstart hbody hrest =>
      rw [Nested.page, Nested.page, Instruction.read_generate h, Instruction.read_form hstart, bind_assoc, bind_assoc]
      cases hparse : Reference.parse g.entity.text with
      | error e => exact .error
      | ok r =>
        rw [ok_bind, ok_bind, bind_assoc, bind_assoc]
        refine together_same fun e => ?_
        simp only [pure_bind, page_parts hnames hbody, ok_bind]
        refine together_bind (Nested.page_respelled rest bound hrest) fun _ _ hr => .ok ?_
        exact .generate (GenerateText.lastName_of_parse hparse ▸ hfits) (nodup_attributes _) g.submits hr
  | .construct f hf start hs body stop he rest, _, bound, h => by
    cases h with
    | construct h hbody hrest =>
      rw [Nested.page, Nested.page, Instruction.read_congr h]
      refine together_same fun i => ?_
      cases i with
      | opening o =>
        exact together_bind (Nested.page_respelled body _ hbody) fun _ _ hb =>
          together_bind (Nested.page_respelled rest bound hrest) fun _ _ hr => .ok (.construct o hb hr)
      | _ => exact .error
  | .conditional start hs body more rest, _, bound, h => by
    cases h with
    | conditional h hbody hmore hrest =>
      rw [Nested.page, Nested.page, Instruction.read_congr h]
      refine together_same fun i => ?_
      cases i with
      | «when» c =>
        exact together_bind (Nested.page_respelled body bound hbody) fun _ _ hb =>
          together_bind (Branches.page_respelled more bound hmore) fun _ _ hm =>
          together_bind (Nested.page_respelled rest bound hrest) fun _ _ hr => .ok (.choice c hb hm hr)
      | _ => exact .error

/-- branches that are respelled ask for choices if the branches do, and the choices do the same -/
theorem Branches.page_respelled : ∀ (b : Branches) {b' : Branches} (bound : List Text),
    b.Respelled (Fits mappings) b' → Together (Choices.Same mappings.orEmpty) (b.page m bound) (b'.page m bound)
  | .stop _ _, _, bound, h => by
    cases h
    exact .ok fun _ _ => Direct.parallel_refl _
  | .elsewhen e he body more, _, bound, h => by
    cases h with
    | elsewhen h hbody hmore =>
      rw [Branches.page, Branches.page, Instruction.read_congr h]
      refine together_same fun i => ?_
      cases i with
      | elsewhen c =>
        exact together_bind (Nested.page_respelled body bound hbody) fun _ _ hb =>
          together_bind (Branches.page_respelled more bound hmore) fun _ _ hm => .ok (.elsewhen c hb hm)
      | _ => exact .error
  | .otherwise e he body stop hstop, _, bound, h => by
    cases h with
    | otherwise h hbody =>
      rw [Branches.page, Branches.page, Instruction.read_congr h]
      refine together_same fun i => ?_
      cases i with
      | otherwise => exact together_bind (Nested.page_respelled body bound hbody) fun _ _ hb => .ok hb
      | _ => exact .error

end

end

/-! ## Templates -/

/-- passages that do the same render the same -/
theorem Passage.Same.render {p q : Passage} {mappings : Value} (h : p.Same mappings.orEmpty q) (escaping : Bool)
    (data : Value) (values : List (Text × Value)) (phrases : Phrases) :
    p.render escaping data values phrases mappings = q.render escaping data values phrases mappings := by
  unfold Passage.render
  cases Template.scopeOf data values with
  | error e => rfl
  | ok es =>
    rcases phrases.toCatalog.run.run [] with ⟨r, asked⟩
    cases r with
    | error e => rfl
    | ok c =>
      have hrun := h ⟨es, c, mappings.orEmpty, escaping, [], [], []⟩ rfl ⟨[], [], [], asked⟩ _ rfl
      simp only
      generalize (p.direct _).run.run _ = u at hrun ⊢
      generalize (q.direct _).run.run _ = v at hrun ⊢
      cases hrun with
      | ok h => rw [h]
      | error hm => simp only [hm]

namespace Compiler

theorem wellNested_of_scan {s : Settings} {strict : Option Bool} {names : List Text} {source : Text} {ts : List Token}
    {t : Template} (hscan : (standard s strict names).scan source = .ok ts)
    (h : (standard s strict names).compile source = .ok t) : WellNested ts := by
  obtain ⟨ts', fs, c, hscan', -, -, rfl, -⟩ := compile_ok h
  cases hscan.symm.trans hscan'
  exact wellNested_of_compile h

/-- **Generating a form is spelling it out.** A template and the template respelled, with the fields that the mappings
configure, both compile or neither does; and with all data, values and phrases they render the same, be it an output
with its sections or a failure. -/
theorem render_respelled {s : Settings} {strict : Option Bool} {names : List Text} {mappings : Value}
    {source source' : Text} {ts ts' : List Token} (hscan : (standard s strict names).scan source = .ok ts)
    (hscan' : (standard s strict names).scan source' = .ok ts') (h : Respelled (Fits mappings) ts ts') :
    ((∃ t, (standard s strict names).compile source = .ok t) ↔
      ∃ t', (standard s strict names).compile source' = .ok t') ∧
    ∀ t t', (standard s strict names).compile source = .ok t → (standard s strict names).compile source' = .ok t' →
      ∀ data values phrases, t.render data values phrases mappings = t'.render data values phrases mappings := by
  by_cases hnested : WellNested ts
  · have hnested' := (wellNested_respelled h).2 hnested
    obtain ⟨n, rfl, -⟩ := id hnested
    obtain ⟨n', us, rfl, hn, hus⟩ := n.exists_respelled (by rwa [List.append_nil])
    cases hus
    rw [List.append_nil] at h hscan' hnested'
    have hk : (standard s strict names).registry = .standard s.comment := rfl
    have hcompile {t : Template} := compile_eq_ok_iff hk hscan (t := t)
    have hcompile' {t : Template} := compile_eq_ok_iff hk hscan' (t := t)
    have htells := tells_respelled (s := (standard s strict names).settings) h
    have hlevels : n'.levels = n.levels := Nested.depth_respelled rfl n hn
    have hloops : n'.loops = n.loops := Nested.depth_respelled rfl n hn
    have hpage := n.page_respelled (m := (standard s strict names).mode) [] hn
    generalize n.page (standard s strict names).mode [] = x at hpage hcompile
    generalize n'.page (standard s strict names).mode [] = y at hpage hcompile'
    cases hpage with
    | error =>
      have hno {t : Template} : (standard s strict names).compile source ≠ .ok t := by
        intro ht
        obtain ⟨⟨p, hp, -⟩, -⟩ := hcompile.1 ht
        cases hp
      have hno' {t : Template} : (standard s strict names).compile source' ≠ .ok t := by
        intro ht
        obtain ⟨⟨p, hp, -⟩, -⟩ := hcompile'.1 ht
        cases hp
      exact ⟨iff_of_false (fun ⟨_, ht⟩ => hno ht) fun ⟨_, ht⟩ => hno' ht, fun _ _ ht => absurd ht hno⟩
    | @ok p q hsame =>
      refine ⟨⟨?_, ?_⟩, fun t t' ht ht' data values phrases => ?_⟩
      · rintro ⟨t, ht⟩
        obtain ⟨-, -, hok, hdeep, hmany⟩ := hcompile.1 ht
        exact ⟨_, hcompile'.2 ⟨⟨q, rfl, rfl⟩, hnested', htells.2 hok, hlevels ▸ hdeep, hloops ▸ hmany⟩⟩
      · rintro ⟨t, ht⟩
        obtain ⟨-, -, hok, hdeep, hmany⟩ := hcompile'.1 ht
        exact ⟨_, hcompile.2 ⟨⟨p, rfl, rfl⟩, hnested, htells.1 hok, hlevels ▸ hdeep, hloops ▸ hmany⟩⟩
      · obtain ⟨⟨_, hp, rfl⟩, -⟩ := hcompile.1 ht
        obtain ⟨⟨_, hq, rfl⟩, -⟩ := hcompile'.1 ht'
        cases hp
        cases hq
        rw [render_of_program (readBlocks_passage p), render_of_program (readBlocks_passage q)]
        exact hsame.render _ data values phrases
  · have hno {t : Template} (ht : (standard s strict names).compile source = .ok t) : False :=
      hnested (wellNested_of_scan hscan ht)
    have hno' {t : Template} (ht : (standard s strict names).compile source' = .ok t) : False :=
      hnested ((wellNested_respelled h).1 (wellNested_of_scan hscan' ht))
    exact ⟨iff_of_false (fun ⟨_, ht⟩ => hno ht) fun ⟨_, ht⟩ => hno' ht, fun _ _ ht => (hno ht).elim⟩

/-- two generated forms, one of them in a loop and one without a button, and the same forms spelled out -/
theorem render_generated_in_loop :
    let source : Text :=
      Text.cat ["\x7b\x7bfor u in us\x7d\x7d\x7b\x7bgenerate u class=\"wide\"\x7d\x7d\x7b\x7bendfor\x7d\x7d",
        "\x7b\x7bgenerate u nosubmit\x7d\x7d"]
    let spelled : Text :=
      Text.cat ["\x7b\x7bfor u in us\x7d\x7d\x7b\x7bform u class=\"wide\"\x7d\x7d\x7b\x7bfield email\x7d\x7d",
        "\x7b\x7bfield bio\x7d\x7d\x7b\x7bsubmit\x7d\x7d\x7b\x7bendform\x7d\x7d\x7b\x7bendfor\x7d\x7d",
        "\x7b\x7bform u\x7d\x7d\x7b\x7bfield email\x7d\x7d\x7b\x7bfield bio\x7d\x7d\x7b\x7bendform\x7d\x7d"]
    let configured (type : String) : Value :=
      .mapping [(.ofString "form", .mapping [(.ofString "type", .ofString type)])]
    let mappings : Value := .mapping [(.ofString "u", .mapping [(.ofString "id", .mapping []),
      (.ofString "email", configured "email"), (.ofString "bio", configured "textarea")])]
    let k := standard .standard none []
    (∃ ts ts', k.scan source = .ok ts ∧ k.scan spelled = .ok ts' ∧ Respelled (Fits mappings) ts ts') ∧
      ∃ t t', k.compile source = .ok t ∧ k.compile spelled = .ok t' ∧
        ∀ data values phrases, t.render data values phrases mappings = t'.render data values phrases mappings := by
  intro source spelled configured mappings k
  have hblank : ∀ c ∈ [' '], Text.isBlank c = true := List.forall_mem_singleton.2 rfl
  let wide : OptionText := ⟨[' '], some ⟨"class".toList, "wide".toList, by decide, by decide⟩, by decide, hblank⟩
  let bare : OptionText := ⟨[' '], none, by decide, hblank⟩
  let generated (options : List OptionText) : GenerateText :=
    ⟨[' '], ⟨['u'], []⟩, options, by decide, hblank, by decide⟩
  let form₁ : List Token := [⟨.form, "form u class=\"wide\"", 15, 1⟩, ⟨.field, "field email", 38, 1⟩,
    ⟨.field, "field bio", 53, 1⟩, ⟨.submit, "submit", 66, 1⟩, ⟨.closing, "endform", 76, 1⟩]
  let form₂ : List Token := [⟨.form, "form u", 97, 1⟩, ⟨.field, "field email", 107, 1⟩, ⟨.field, "field bio", 122, 1⟩,
    ⟨.closing, "endform", 135, 1⟩]
  let ts : List Token := [⟨.loop, "for u in us", 0, 1⟩, ⟨.generate, "generate u class=\"wide\"", 15, 1⟩,
    ⟨.closing, "endfor", 42, 1⟩, ⟨.generate, "generate u nosubmit", 52, 1⟩]
  let ts' : List Token := ⟨.loop, "for u in us", 0, 1⟩ :: (form₁ ++ ⟨.closing, "endfor", 87, 1⟩ :: (form₂ ++ []))
  have hscan : (k.scan source).toOption = some ts := by decide +kernel
  have hspelled : (k.scan spelled).toOption = some ts' := by decide +kernel
  have hfits (options : List OptionText) : Fits mappings (generated options) ["email".toList, "bio".toList] := by
    intro found hfound
    cases hfound
    exact ⟨_, rfl, rfl⟩
  have hrespelled : Respelled (Fits mappings) ts ts' :=
    .same rfl (.form (g := generated [wide]) rfl (by decide) (hfits _) rfl
      (.same rfl (.form (g := generated [bare]) rfl (by decide) (hfits _) rfl .nil)))
  have hok : (k.compile source).toOption.isSome = true := by decide +kernel
  obtain ⟨t, ht⟩ := Option.isSome_iff_exists.1 hok
  obtain ⟨hcompile, hrender⟩ :=
    render_respelled (eq_ok_of_toOption hscan) (eq_ok_of_toOption hspelled) hrespelled
  obtain ⟨t', ht'⟩ := hcompile.1 ⟨t, eq_ok_of_toOption ht⟩
  exact ⟨⟨ts, ts', eq_ok_of_toOption hscan, eq_ok_of_toOption hspelled, hrespelled⟩, t, t', eq_ok_of_toOption ht, ht',
    hrender t t' (eq_ok_of_toOption ht) ht'⟩

/-- a text stands where the mappings should have a mapping: the form can be opened, but it has no fields to generate -/
theorem generate_without_mapping :
    let source : Text := "\x7b\x7bgenerate u\x7d\x7d"
    let spelled : Text := "\x7b\x7bform u\x7d\x7d\x7b\x7bsubmit\x7d\x7d\x7b\x7bendform\x7d\x7d"
    let mappings : Value := .mapping [(.ofString "u", .ofString "abc")]
    let data : Value := .mapping [(.ofString "u", .none)]
    let k := standard .standard none []
    (∃ ts ts', k.scan source = .ok ts ∧ k.scan spelled = .ok ts' ∧ Respelled (fun _ fields => fields = []) ts ts') ∧
      ∃ t t', k.compile source = .ok t ∧ k.compile spelled = .ok t' ∧
        (t.render data [] (.catalog .empty) mappings).outcome = .error (.noAttribute "items") ∧
        (t'.render data [] (.catalog .empty) mappings).outcome =
          .ok ⟨"<form><input type=\"submit\" /></form>", []⟩ := by
  intro source spelled mappings data k
  have hblank : ∀ c ∈ [' '], Text.isBlank c = true := List.forall_mem_singleton.2 rfl
  let generated : GenerateText := ⟨[' '], ⟨['u'], []⟩, [], by decide, hblank, by decide⟩
  let form : List Token := [⟨.form, "form u", 0, 1⟩, ⟨.submit, "submit", 10, 1⟩, ⟨.closing, "endform", 20, 1⟩]
  have hscan : (k.scan source).toOption = some [⟨.generate, "generate u", 0, 1⟩] := by decide +kernel
  have hspelled : (k.scan spelled).toOption = some (form ++ []) := by decide +kernel
  have hrespelled : Respelled (fun _ fields => fields = []) [⟨.generate, "generate u", 0, 1⟩] (form ++ []) :=
    .form (g := generated) rfl (by simp) rfl rfl .nil
  have hfails : (k.compile source).toOption.map (fun t =>
      match (t.render data [] (.catalog .empty) mappings).outcome with
      | .error e => some e
      | .ok _ => none) = some (some (.noAttribute "items")) := by decide +kernel
  have hwrites : (k.compile spelled).toOption.map (fun t =>
      (t.render data [] (.catalog .empty) mappings).outcome.toOption) =
        some (some ⟨"<form><input type=\"submit\" /></form>", []⟩) := by decide +kernel
  obtain ⟨t, ht, hfailed⟩ := Option.map_eq_some_iff.1 hfails
  obtain ⟨t', ht', hwritten⟩ := Option.map_eq_some_iff.1 hwrites
  refine ⟨⟨_, _, eq_ok_of_toOption hscan, eq_ok_of_toOption hspelled, hrespelled⟩, t, t', eq_ok_of_toOption ht,
    eq_ok_of_toOption ht', ?_, eq_ok_of_toOption hwritten⟩
  split at hfailed
  · rename_i e he
    rw [he, Option.some.inj hfailed]
  · cases hfailed

end Compiler

end Stencil
