/-
NO MARKUP OF THE DATA. With escaping on a template writes its own literal text, escaped texts of values, and phrases
that are filled in with escaped texts. If the literal text and the phrases have no character of markup, whatever the
data are the output has none: only a text that the data hold as safe markup, a part of a form, or an attribute that a
field of a phrase takes can bring one in.

- `outputText_avoids`: what is written for a value.
- `leads_opening`, `leads_passage`: a construct writes no markup if its body writes none, and passages write none.
- `render_avoids`: a template without forms renders without characters of markup.
- `class_in_phrase`: a phrase that takes an attribute.
-/
import Stencil.Proofs.Contents
import Stencil.Proofs.Filling
import Stencil.Proofs.Simulation

namespace Stencil

open Text

/-! ## What is written -/

namespace Value

/-- anything but markup that is safe as it stands -/
def Unmarked : Value → Prop
  | .markup _ _ => False
  | _ => True

theorem made_unmarked : Made Unmarked := by
  intro v hv
  cases v <;> trivial

@[simp] theorem unmarked_text (s : Text) (id : Identity) : (text s id).Throughout Unmarked :=
  throughout_atom made_unmarked rfl rfl

@[simp] theorem unmarked_list (xs : List Value) (id : Identity) :
    (list xs id).Throughout Unmarked ↔ ∀ x ∈ xs, x.Throughout Unmarked :=
  throughout_iff.trans (and_iff_right trivial)

@[simp] theorem unmarked_mapping (es : Entries) :
    (mapping es).Throughout Unmarked ↔ ∀ e ∈ es, e.1.Throughout Unmarked ∧ e.2.Throughout Unmarked :=
  throughout_mapping made_unmarked

end Value

/-- **What is written for a value** is escaped. -/
theorem outputText_avoids {v : Value} (hv : v.Unmarked) {t : Text} (h : outputText true v = .ok t) :
    t.Avoids quotation := by
  unfold outputText at h
  split at h
  · cases h
    exact nofun
  · cases h
    exact nofun
  · exact hv.elim
  · split at h
    · cases h
    · cases h
      exact avoids_escape _
  · cases h
    exact avoids_escape _

/-- an environment in which values are escaped and phrases bring in no markup -/
structure Env.Escapes (env : Env) : Prop where
  escaping : env.escaping = true
  values : env.Throughout Value.Unmarked
  catalog : env.catalog.Worded Phrase.Plain

/-- no character of markup has been written -/
structure Page.Unmarked (p : Page) : Prop where
  output : p.output.Avoids markup
  sections : ∀ s ∈ p.sections, s.2.Avoids markup

namespace Direct

theorem leads_write {t : Text} (ht : t.Avoids markup) : Leads Page.Unmarked (write t) Page.Unmarked :=
  leads_modify fun _ hp => ⟨avoids_append.2 ⟨hp.output, ht⟩, hp.sections⟩

theorem gives_work {α : Type} {w : Work α} {T : α → Prop} (hw : Gives (fun _ => True) w T fun _ => True) :
    Gives Page.Unmarked (work w) T Page.Unmarked := by
  intro p hp a p' hrun
  have hrun' : ((w.run.run p.asked).1, { p with asked := (w.run.run p.asked).2 }) = (.ok a, p') := hrun
  rw [Prod.mk.injEq] at hrun'
  rw [← hrun'.2]
  exact ⟨(hw p.asked trivial a _ (Prod.ext hrun'.1 rfl)).1, hp.output, hp.sections⟩

section

variable {env : Env} (henv : env.Escapes)

include henv

theorem gives_eval (e : Expr) : Gives Page.Unmarked (eval env e) (·.Throughout Value.Unmarked) Page.Unmarked :=
  gives_bind gives_get fun p _ => gives_lift fun _ hv =>
    throughout_expr Value.made_unmarked (henv.values.reach Value.made_unmarked p.asked) hv

theorem leads_emit {v : Value} (hv : v.Unmarked) : Leads Page.Unmarked (emit env v) Page.Unmarked := by
  rw [emit, henv.escaping]
  exact (gives_bind (gives_lift fun t ht => outputText_avoids hv ht) fun t ht => (leads_write ht.markup).gives).leads

omit henv in
theorem leads_reached (path : List Segment) : Leads Page.Unmarked (reached env path) Page.Unmarked :=
  leads_bind gives_get.leads fun _ => leads_lift fun _ h => h

omit henv in
theorem leads_holds (c : Condition) : Leads Page.Unmarked (holds env c) Page.Unmarked :=
  leads_bind gives_get.leads fun _ => leads_lift fun _ h => h

/-- **The text of a phrase** has no character of markup. -/
theorem gives_phrase? (key : Text) (params : List (Text × Expr)) :
    Gives Page.Unmarked (phrase? env key params) (fun found => ∀ t ∈ found, t.Avoids markup) Page.Unmarked := by
  have hparam : ∀ p ∈ params, Gives Page.Unmarked
      (do
        let v ← eval env p.2
        return (Value.text p.1, v))
      (fun e => e.1.Throughout Value.Unmarked ∧ e.2.Throughout Value.Unmarked) Page.Unmarked := fun p _ =>
    gives_bind (gives_eval henv p.2) fun v hv => gives_pure ⟨Value.unmarked_text p.1 _, hv⟩
  have htext : ∀ e : Value × Value, e.2.Unmarked → Gives Page.Unmarked
      (do
        let t ← outputText env.escaping e.2
        return (e.1, Value.text t))
      (fun e => e.2.IsText quotation) Page.Unmarked := by
    rw [henv.escaping]
    exact fun e he => gives_bind (gives_lift fun t ht => outputText_avoids he ht) fun t ht => gives_pure ht
  refine gives_bind (gives_mapM hparam) fun values hvalues => ?_
  have hall : Value.EntriesThroughout Value.Unmarked (Value.putAll [] values) :=
    Value.entriesThroughout_nil.putAll hvalues
  refine gives_bind (gives_mapM fun e he => htext e (hall e he).2.here) fun given hgiven => ?_
  refine gives_bind (gives_work (Catalog.translate_avoids henv.catalog hgiven _)) fun filled hfilled => ?_
  exact gives_bind (leads_modify fun p hp => ⟨hp.output, hp.sections⟩).gives fun _ _ => gives_pure hfilled

end

end Direct

/-! ## Passages -/

/-- what is asked for writes no character of markup as it stands, and no part of a form -/
def Instruction.Unmarked : Instruction → Prop
  | act (.write t) => t.Avoids markup
  | act (.emit _) => True
  | act .remark => True
  | act _ => False
  | opening (.form _ _ _) => False
  | _ => True

section

variable {env : Env} (henv : env.Escapes)

include henv

theorem leads_act {a : Act} (ha : (Instruction.act a).Unmarked) : Leads Page.Unmarked (a.direct env) Page.Unmarked := by
  cases a with
  | write t => exact Direct.leads_write ha
  | emit e =>
    exact (gives_bind (Direct.gives_eval henv e) fun v hv => (Direct.leads_emit henv hv.here).gives).leads
  | remark => exact leads_pure fun _ h => h
  | _ => exact ha.elim

/-- **A construct** writes no character of markup if its body writes none, wherever it stands. -/
theorem leads_opening {o : Opening} (ho : (Instruction.opening o).Unmarked) {body : Env → Direct Unit}
    (hbody : ∀ env' : Env, env'.Escapes → Leads Page.Unmarked (body env') Page.Unmarked) :
    Leads Page.Unmarked (o.direct env body) Page.Unmarked := by
  cases o with
  | loop names path e =>
    refine leads_bind (Direct.leads_reached path) fun b => ?_
    split
    · refine Gives.leads (gives_bind (Direct.gives_eval henv e) fun v hv => gives_bind
        (Direct.gives_work (T := Value.EntriesThroughout Value.Unmarked) fun asked _ es asked' hrun =>
          ⟨Value.throughout_pairs Value.made_unmarked hv hrun, trivial⟩) fun es hes => Leads.gives (leads_forM ?_))
      intro p hp
      have hvalues := henv.values.inLoop Value.made_unmarked names es.length p.2 (hes _ (List.fst_mem_of_mem_zipIdx hp))
      exact hbody _ ⟨henv.escaping, hvalues, henv.catalog⟩
    · exact leads_pure fun _ h => h
  | capture name =>
    refine leads_get fun before hbefore => leads_bind (leads_set (Q := Page.Unmarked) ⟨nofun, hbefore.sections⟩)
      fun _ => leads_bind (hbody env henv) fun _ => leads_modify fun p hp => ⟨?_, ?_⟩
    · exact avoids_append.2 ⟨hbefore.output, hp.output⟩
    · exact forall_putAt hp.output hp.sections
  | form e name attributes => exact ho.elim
  | phrase key params =>
    refine Gives.leads (gives_bind (Direct.gives_phrase? henv key params) fun found hfound => Leads.gives ?_)
    cases found with
    | some t => exact Direct.leads_write (hfound t rfl)
    | none => exact hbody env henv

end

mutual

/-- **Passages** write no character of markup. -/
theorem leads_passage : ∀ (p : Passage) {env : Env} (_ : env.Escapes) (_ : ∀ i ∈ p.instructions, i.Unmarked),
    Leads Page.Unmarked (p.direct env) Page.Unmarked
  | .done, _, _, _ => leads_pure fun _ h => h
  | .act a rest, env, henv, hall => by
    rw [Passage.instructions, List.forall_mem_cons] at hall
    rw [Passage.direct]
    exact leads_bind (leads_act henv hall.1) fun _ => leads_passage rest henv hall.2
  | .construct o body rest, env, henv, hall => by
    rw [Passage.instructions, List.forall_mem_cons, List.forall_mem_append] at hall
    rw [Passage.direct]
    exact leads_bind (leads_opening henv hall.1 fun env' henv' => leads_passage body henv' hall.2.1) fun _ =>
      leads_passage rest henv hall.2.2
  | .choice c body more rest, env, henv, hall => by
    rw [Passage.instructions, List.forall_mem_cons, List.forall_mem_append, List.forall_mem_append] at hall
    rw [Passage.direct]
    refine leads_bind (Direct.leads_holds c) fun b => ?_
    have hrest := leads_passage rest henv hall.2.2.2
    cases b with
    | true => exact leads_bind (leads_passage body henv hall.2.1) fun _ => hrest
    | false => exact leads_bind (leads_choices more henv hall.2.2.1) fun _ => hrest

theorem leads_choices : ∀ (more : Choices) {env : Env} (_ : env.Escapes) (_ : ∀ i ∈ more.instructions, i.Unmarked),
    Leads Page.Unmarked (more.direct env) Page.Unmarked
  | .none, _, _, _ => leads_pure fun _ h => h
  | .elsewhen c body more, env, henv, hall => by
    rw [Choices.instructions, List.forall_mem_cons, List.forall_mem_append] at hall
    rw [Choices.direct]
    refine leads_bind (Direct.leads_holds c) fun b => ?_
    cases b with
    | true => exact leads_passage body henv hall.2.1
    | false => exact leads_choices more henv hall.2.2
  | .otherwise body, env, henv, hall => by
    rw [Choices.direct]
    exact leads_passage body henv hall

end

/-! ## Templates -/

/-- the kinds of tokens that write parts of forms -/
def formKinds : List TokenKind := [.form, .field, .submit, .button, .generate]

/-- what a token asks for, unless it writes a part of a form -/
theorem unmarked_of_read {m : Directive.Mode} {bound : List Text} {t : Token} {i : Instruction}
    (h : Instruction.read m bound t = .ok i) (hkind : t.kind ∉ formKinds)
    (hliteral : t.kind = .literal → t.raw.Avoids markup) : i.Unmarked := by
  have hfits := Instruction.fits_of_read h
  cases i with
  | act a =>
    obtain ⟨hsingle, -⟩ := hfits
    cases hk : t.kind
    case literal =>
      simp only [Instruction.read, hk] at h
      cases h
      exact hliteral hk
    case comment =>
      simp only [Instruction.read, hk] at h
      cases h
      trivial
    case interpolation =>
      simp only [Instruction.read, hk, bind_eq_ok] at h
      obtain ⟨e, -, h⟩ := h
      cases h
      trivial
    case field | submit | button | generate => exact absurd (by simp [hk, formKinds]) hkind
    all_goals
      rw [hk] at hsingle
      cases hsingle
  | opening o =>
    cases o with
    | form e name attributes => exact hkind (by simp [hfits.1, Opening.family, Family.opener, formKinds])
    | _ => trivial
  | _ => trivial

namespace Compiler

variable {s : Settings} {strict : Option Bool} {names : List Text} {source : Text} {t : Template}

/-- **Escaping lets no markup of the data through.** With escaping on, a template without parts of forms, whose literal
text has no character of markup, writes none. Neither the texts of the data, of fallbacks and of parameters matter, nor
the conversions, indexes and specifications of the phrases, as long as the phrases have no character of markup and no
apostrophe and their fields take no attributes, and the data hold no text that is safe as it stands. -/
theorem render_avoids (hescaping : t.escaping = true) (h : (standard s strict names).compile source = .ok t)
    (hkinds : ∀ u ∈ t.tokens, u.kind ∉ formKinds) (hliterals : ∀ u ∈ t.tokens, u.kind = .literal → u.raw.Avoids markup)
    {data mappings : Value} {values : List (Text × Value)} {phrases : Phrases} (hdata : data.Throughout Value.Unmarked)
    (hvalues : ∀ v ∈ values, v.2.Throughout Value.Unmarked)
    (hphrases : ∀ c, (phrases.toCatalog.run.run []).1 = .ok c → c.Worded Phrase.Plain) {o : Outcome}
    (ho : (t.render data values phrases mappings).outcome = .ok o) :
    o.output.Avoids markup ∧ ∀ p ∈ o.sections, p.2.Avoids markup := by
  obtain ⟨n, hn, -, -⟩ := wellNested_of_compile h
  obtain ⟨p, hp, -, hprogram⟩ := program_of_compile h hn
  have hall : ∀ i ∈ p.instructions, i.Unmarked := by
    intro i hi
    obtain ⟨u, hu, bound, hread⟩ := read_of_instructions n hp i hi
    rw [hn] at hu
    exact unmarked_of_read hread (hkinds u hu) (hliterals u hu)
  rw [render_of_program hprogram, Passage.render] at ho
  split at ho
  · cases ho
  · rename_i es hes
    split at ho
    · cases ho
    · rename_i c asked hcatalog
      have henv : Env.Escapes ⟨es, c, mappings.orEmpty, t.escaping, [], [], []⟩ :=
        ⟨hescaping, ⟨throughout_scopeOf Value.made_unmarked hdata hvalues hes, nofun, nofun,
          Value.throughout_atom Value.made_unmarked rfl rfl⟩, hphrases c (by rw [hcatalog])⟩
      split at ho
      · rename_i page hrun
        cases ho
        have hstart : Page.Unmarked ⟨[], [], [], asked⟩ := ⟨nofun, nofun⟩
        have hpage := leads_passage p henv hall _ hstart _ _ hrun
        exact ⟨hpage.output, hpage.sections⟩
      · cases ho

/-- a loop over texts and mappings with markup in them, written as they are, and quoted and set in a phrase -/
theorem render_of_loud_data :
    let source : Text := "\x7b\x7bfor a in b\x7d\x7d\x7b\x7btranslate k a=a b=5\x7d\x7d\x7b\x7bendtranslate\x7d\x7d" ++
      "\x7b\x7bsection c\x7d\x7d: \x7b\x7ba\x7d\x7d, \x7b\x7bd ?? '<'\x7d\x7d\x7b\x7bendsection\x7d\x7d\x7b\x7bendfor\x7d\x7d"
    let data : Value := .mapping [(.text "b", .list [.text "<i>", .mapping [(.text "\"", .text "'>")]])]
    let phrases : Phrases := .value (.mapping [(.text "k", .text "\x7ba!r:^\x7bb\x7d\x7d\x7ba[0]\x7d")])
    ∃ t o, (standard .standard none []).compile source = .ok t ∧ (t.render data [] phrases .none).outcome = .ok o ∧
      o.output.Avoids markup ∧ ∀ p ∈ o.sections, p.2.Avoids markup := by
  intro source data phrases
  have hok : ((standard .standard none []).compile source).toOption.map
      (fun t => decide (t.escaping = true ∧ (∀ u ∈ t.tokens, u.kind ∉ formKinds) ∧
        (∀ u ∈ t.tokens, u.kind = .literal → u.raw.Avoids markup) ∧
        (t.render data [] phrases .none).outcome.toOption.isSome = true)) = some true := by decide +kernel
  obtain ⟨t, ht, hall⟩ := Option.map_eq_some_iff.1 hok
  obtain ⟨hescaping, hkinds, hliterals, hsome⟩ := of_decide_eq_true hall
  obtain ⟨o, ho⟩ := Option.isSome_iff_exists.1 hsome
  have hcompile := eq_ok_of_toOption ht
  have houtcome := eq_ok_of_toOption ho
  have hdata : data.Throughout Value.Unmarked := by
    simp [data]
  have hphrases : ∀ c, (phrases.toCatalog.run.run []).1 = .ok c → c.Worded Phrase.Plain := by
    intro c hc
    cases hc
    exact List.forall_mem_singleton.2 (.leaf rfl (by decide +kernel))
  have hvalues : ∀ v ∈ ([] : List (Text × Value)), v.2.Throughout Value.Unmarked := nofun
  exact ⟨t, o, hcompile, houtcome, render_avoids hescaping hcompile hkinds hliterals hdata hvalues hphrases houtcome⟩

/-- without the condition on attributes a field shows the class of a parameter, in angle brackets -/
theorem class_in_phrase :
    let data : Value := .mapping [(.text "b", .text "x")]
    let phrases : Phrases := .value (.mapping [(.text "k", .text "\x7ba.__class__\x7d")])
    ∃ t o, (standard .standard none []).compile "\x7b\x7btranslate k a=b\x7d\x7d\x7b\x7bendtranslate\x7d\x7d" = .ok t ∧
      t.escaping = true ∧ (∀ u ∈ t.tokens, u.kind ∉ formKinds) ∧
      (∀ u ∈ t.tokens, u.kind = .literal → u.raw.Avoids quotation) ∧ data.Throughout Value.Unmarked ∧
      (∀ c, (phrases.toCatalog.run.run []).1 = .ok c → c.Worded (Text.Avoids quotation)) ∧
      (t.render data [] phrases .none).outcome = .ok o ∧ ¬o.output.Avoids markup := by
  intro data phrases
  have hok : ((standard .standard none []).compile
      "\x7b\x7btranslate k a=b\x7d\x7d\x7b\x7bendtranslate\x7d\x7d").toOption.map
      (fun t => decide (t.escaping = true ∧ (∀ u ∈ t.tokens, u.kind ∉ formKinds) ∧
        (∀ u ∈ t.tokens, u.kind = .literal → u.raw.Avoids quotation) ∧
        (t.render data [] phrases .none).outcome.toOption = some ⟨"<class 'str'>", []⟩)) = some true := by
    decide +kernel
  obtain ⟨t, ht, hall⟩ := Option.map_eq_some_iff.1 hok
  obtain ⟨hescaping, hkinds, hliterals, ho⟩ := of_decide_eq_true hall
  have hdata : data.Throughout Value.Unmarked := by
    simp [data]
  have hphrases : ∀ c, (phrases.toCatalog.run.run []).1 = .ok c → c.Worded (Text.Avoids quotation) := by
    intro c hc
    cases hc
    exact List.forall_mem_singleton.2 (.leaf rfl (by decide))
  exact ⟨t, _, eq_ok_of_toOption ht, hescaping, hkinds, hliterals, hdata, hphrases, eq_ok_of_toOption ho, by decide⟩

end Compiler

end Stencil
