/-
FORMS SPELLED OUT. A directive that generates a form can be spelled out: the directive that opens the form with the same
attributes, a field for each name, a button unless the bare word is given, and the directive that closes the form. A
template is respelled if this is done in any places of it and all else is written as before. It is read like the
template that it comes from: it is well nested if that one is, it has a derivation with a form for each generated one,
its constructs stand as deep in one another, and its comments tell a null character if those of the other do.

- `GenerateText.spelledOut`, `Respelled`: a form spelled out, and the templates that are respelled.
- `outline_run`, `wellNested_respelled`: reading a respelled template leaves the same constructs open.
- `Nested.exists_respelled`: the derivation of a respelled template.
- `depth_respelled`, `tells_respelled`: what of it is as before.
-/
import Stencil.Proofs.Derivations
import Stencil.Proofs.Options

namespace Stencil

open Directive

/-- the kind and the text of a token, wherever it begins -/
def Token.written (t : Token) : TokenKind × Text := (t.kind, t.raw)

namespace Directive.GenerateText

/-- the directives in the form: a field for each name, and a button -/
def parts (g : GenerateText) (fields : List Text) : List (TokenKind × Text) :=
  fields.map (fun f => (.field, "field".toList ++ ' ' :: f)) ++ if g.submits then [(.submit, "submit".toList)] else []

/-- the form spelled out -/
def spelledOut (g : GenerateText) (fields : List Text) : List (TokenKind × Text) :=
  (.form, g.formText) :: (g.parts fields ++ [(.closing, "endform".toList)])

end Directive.GenerateText

section

variable (fits : GenerateText → List Text → Prop)

/-- **A template respelled**: some directives that generate a form are spelled out, with names of fields that fit, and
all other tokens are written as before. -/
inductive Respelled : List Token → List Token → Prop where
  | nil : Respelled [] []
  | same {t u : Token} {ts us : List Token} (h : u.written = t.written) (hrest : Respelled ts us) :
    Respelled (t :: ts) (u :: us)
  | form {t : Token} {g : GenerateText} {fields : List Text} {us ts ts' : List Token}
    (ht : t.written = (.generate, g.text)) (hnames : ∀ f ∈ fields, Text.isName f = true) (hfits : fits g fields)
    (hus : us.map Token.written = g.spelledOut fields) (hrest : Respelled ts ts') : Respelled (t :: ts) (us ++ ts')

mutual

/-- a derivation respelled -/
inductive Nested.Respelled : Nested → Nested → Prop where
  | done : Nested.Respelled .done .done
  | single {t u : Token} {ht : t.kind.isSingle = true} {hu : u.kind.isSingle = true} {rest rest' : Nested}
    (h : u.written = t.written) (hrest : rest.Respelled rest') :
    Nested.Respelled (.single t ht rest) (.single u hu rest')
  | form {t : Token} {ht : t.kind.isSingle = true} {rest : Nested} {g : GenerateText} {fields : List Text}
    {hf : Family.form ≠ .conditional} {start : Token} {hs : start.kind = Family.form.opener} {body : Nested}
    {stop : Token} {he : stop.closes? = some .form} {rest' : Nested} (h : t.written = (.generate, g.text))
    (hnames : ∀ f ∈ fields, Text.isName f = true) (hfits : fits g fields) (hstart : start.written = (.form, g.formText))
    (hbody : body.tokens.map Token.written = g.parts fields) (hrest : rest.Respelled rest') :
    Nested.Respelled (.single t ht rest) (.construct .form hf start hs body stop he rest')
  | construct {f : Family} {hf hf' : f ≠ .conditional} {start start' : Token} {hs : start.kind = f.opener}
    {hs' : start'.kind = f.opener} {body body' : Nested} {stop stop' : Token} {he : stop.closes? = some f}
    {he' : stop'.closes? = some f} {rest rest' : Nested} (h : start'.written = start.written)
    (hbody : body.Respelled body') (hrest : rest.Respelled rest') :
    Nested.Respelled (.construct f hf start hs body stop he rest) (.construct f hf' start' hs' body' stop' he' rest')
  | conditional {start start' : Token} {hs : start.kind = .when} {hs' : start'.kind = .when} {body body' : Nested}
    {more more' : Branches} {rest rest' : Nested} (h : start'.written = start.written) (hbody : body.Respelled body')
    (hmore : more.Respelled more') (hrest : rest.Respelled rest') :
    Nested.Respelled (.conditional start hs body more rest) (.conditional start' hs' body' more' rest')

/-- branches respelled -/
inductive Branches.Respelled : Branches → Branches → Prop where
  | stop {t u : Token} {ht : t.closes? = some .conditional} {hu : u.closes? = some .conditional} :
    Branches.Respelled (.stop t ht) (.stop u hu)
  | elsewhen {t u : Token} {ht : t.kind = .elsewhen} {hu : u.kind = .elsewhen} {body body' : Nested}
    {more more' : Branches} (h : u.written = t.written) (hbody : body.Respelled body') (hmore : more.Respelled more') :
    Branches.Respelled (.elsewhen t ht body more) (.elsewhen u hu body' more')
  | otherwise {t u : Token} {ht : t.kind = .otherwise} {hu : u.kind = .otherwise} {body body' : Nested}
    {stop stop' : Token} {he : stop.closes? = some .conditional} {he' : stop'.closes? = some .conditional}
    (h : u.written = t.written) (hbody : body.Respelled body') :
    Branches.Respelled (.otherwise t ht body stop he) (.otherwise u hu body' stop' he')

end

end

/-! ## Tokens that are written the same -/

namespace Token

variable {t u : Token}

theorem kind_of_written {w : TokenKind × Text} (h : t.written = w) : t.kind = w.1 := h ▸ rfl

theorem kind_congr (h : u.written = t.written) : u.kind = t.kind := kind_of_written h

theorem raw_congr (h : u.written = t.written) : u.raw = t.raw := congrArg Prod.snd h

theorem closes?_congr (h : u.written = t.written) : u.closes? = t.closes? := by
  rw [closes?, closes?, kind_congr h, raw_congr h]

theorem sectionName?_congr (h : u.written = t.written) : u.sectionName? = t.sectionName? := by
  rw [sectionName?, sectionName?, kind_congr h, raw_congr h]

end Token

/-- what is read of a token does not depend on where it begins -/
theorem Instruction.read_congr {m : Mode} {bound : List Text} {t u : Token} (h : u.written = t.written) :
    Instruction.read m bound u = Instruction.read m bound t := by
  obtain ⟨kind, raw, position, line⟩ := t
  obtain ⟨kind', raw', position', line'⟩ := u
  cases h
  cases kind <;> rfl

/-! ## The tokens of a form spelled out -/

section

variable {g : GenerateText} {fields : List Text}

/-- the directives in the form stand alone -/
theorem isSingle_of_parts {ts : List Token} (h : ts.map Token.written = g.parts fields) :
    ∀ t ∈ ts, t.kind.isSingle = true := by
  intro t ht
  have hmem : t.written ∈ g.parts fields := h ▸ List.mem_map_of_mem ht
  rw [GenerateText.parts, List.mem_append] at hmem
  rcases hmem with hfield | hsubmit
  · obtain ⟨f, -, hf⟩ := List.mem_map.1 hfield
    rw [Token.kind_of_written hf.symm]
    rfl
  · split at hsubmit
    · rw [Token.kind_of_written (List.mem_singleton.1 hsubmit)]
      rfl
    · cases hsubmit

/-- the directive that opens the form, those in it, and the one that closes it -/
theorem exists_of_spelledOut {us : List Token} (h : us.map Token.written = g.spelledOut fields) :
    ∃ start body stop, us = start :: (body ++ [stop]) ∧ start.written = (.form, g.formText) ∧
      body.map Token.written = g.parts fields ∧ stop.closes? = some .form := by
  obtain ⟨start, rest, rfl, hstart, hrest⟩ := List.map_eq_cons_iff.1 h
  obtain ⟨body, last, rfl, hbody, hlast⟩ := List.map_eq_append_iff.1 hrest
  obtain ⟨stop, nothing, rfl, hstop, hnothing⟩ := List.map_eq_cons_iff.1 hlast
  cases List.map_eq_nil_iff.1 hnothing
  have hcloses : stop.closes? = some .form :=
    (Token.closes?_congr (t := ⟨.closing, "endform".toList, 0, 0⟩) hstop).trans (by decide)
  exact ⟨start, body, stop, rfl, hstart, hbody, hcloses⟩

end

/-! ## Reading from left to right -/

namespace Nesting

/-- the open constructs without their tokens, and the names of the sections so far -/
def outline (s : Nesting) : List (Family × Bool) × List Text := (s.stack.map fun o => (o.family, o.closed), s.sections)

variable {s s' : Nesting}

theorem inForm_eq (s : Nesting) : s.inForm = s.outline.1.any fun o => o.1 == .form := by
  rw [inForm, outline, List.any_map]
  rfl

theorem outline_opened (s : Nesting) (f : Family) (t : Token) : (s.opened f t).map outline =
    if ∀ name ∈ t.sectionName?, name ∉ s.outline.2 then
      some ((f, false) :: s.outline.1, s.outline.2 ++ t.sectionName?.toList)
    else none := by
  unfold opened outline
  split <;> rfl

theorem outline_closedBy (s : Nesting) (f : Family) : (s.closedBy f).map outline =
    match s.outline.1 with
    | o :: rest => if o.1 = f then some (rest, s.outline.2) else none
    | [] => none := by
  unfold closedBy outline
  cases s.stack with
  | nil => rfl
  | cons o rest => by_cases h : o.family = f <;> simp [h]

theorem outline_branched (s : Nesting) (last : Bool) : (s.branched last).map outline =
    match s.outline.1 with
    | o :: rest => if o.1 = .conditional ∧ o.2 = false then some ((o.1, last) :: rest, s.outline.2) else none
    | [] => none := by
  unfold branched outline
  cases s.stack with
  | nil => rfl
  | cons o rest => by_cases h : o.family = .conditional ∧ o.closed = false <;> simp [h]

/-- **One token read**: what it leaves depends on how it is written and on the outline. -/
theorem outline_step {t u : Token} (hs : s'.outline = s.outline) (h : u.written = t.written) :
    (s'.step u).map outline = (s.step t).map outline := by
  unfold step
  rw [Token.kind_congr h, inForm_eq s', inForm_eq s, hs, Token.closes?_congr h]
  cases t.kind
  case literal | interpolation | comment | generate => exact congrArg some hs
  case field | submit | button =>
    cases s.outline.1.any fun o => o.1 == Family.form with
    | false => rfl
    | true => exact congrArg some hs
  case closing =>
    cases t.closes? with
    | none => rfl
    | some f => simp only [Option.bind_some, outline_closedBy, hs]
  all_goals simp only [outline_opened, outline_branched, hs, Token.sectionName?_congr h]

/-- directives that stand alone in a form are read -/
theorem run_singles (hs : s.inForm = true) {ts : List Token} (h : ∀ t ∈ ts, t.kind.isSingle = true) :
    s.run ts = some s := by
  induction ts with
  | nil => rfl
  | cons t ts ih =>
    obtain ⟨ht, hts⟩ := List.forall_mem_cons.1 h
    rw [run, step_single ht, if_neg (by simp [hs]), Option.bind_some, ih hts]

/-- a form that is spelled out is read and leaves what was open -/
theorem run_spelledOut {g : GenerateText} {fields : List Text} {us : List Token}
    (h : us.map Token.written = g.spelledOut fields) (s : Nesting) : s.run us = some s := by
  obtain ⟨start, body, stop, rfl, hstart, hbody, hstop⟩ := exists_of_spelledOut h
  have hk : start.kind = .form := Token.kind_of_written hstart
  have hname : start.sectionName? = none := Token.sectionName?_eq_none (by rw [hk]; decide)
  have hopen : s.step start = some ⟨⟨.form, start, false⟩ :: s.stack, s.sections⟩ := by
    rw [step_opener (f := .form) hk, opened_eq (by simp [hname]), hname, Option.toList_none,
      List.append_nil]
  rw [run, hopen, Option.bind_some, run_append, run_singles rfl (isSingle_of_parts hbody), Option.bind_some, run,
    step_closes hstop, closedBy_cons ⟨.form, start, false⟩]
  rfl

variable {fits : GenerateText → List Text → Prop} {ts us : List Token}

/-- **A respelled template is read** as the template is. -/
theorem outline_run (h : Respelled fits ts us) (hs : s'.outline = s.outline) :
    (s'.run us).map outline = (s.run ts).map outline := by
  induction h generalizing s s' with
  | nil => exact congrArg some hs
  | @same t u ts us hw _ ih =>
    have hone := outline_step hs hw
    simp only [run]
    cases ht : s.step t with
    | none =>
      rw [ht, Option.map_none, Option.map_eq_none_iff] at hone
      rw [hone]
      rfl
    | some s₁ =>
      rw [ht, Option.map_some, Option.map_eq_some_iff] at hone
      obtain ⟨s₂, hu, hs₂⟩ := hone
      rw [hu, Option.bind_some, Option.bind_some, ih hs₂]
  | form ht _ _ hus _ ih =>
    rw [run_append, run_spelledOut hus, Option.bind_some, ih hs, run, step, Token.kind_of_written ht, Option.bind_some]

end Nesting

section

variable {fits : GenerateText → List Text → Prop} {ts us : List Token}

/-- **A respelled template is well nested** exactly if the template is. -/
theorem wellNested_respelled (h : Respelled fits ts us) : WellNested us ↔ WellNested ts := by
  have hempty (s : Nesting) : s.stack = [] ↔ s.outline.1 = [] := by rw [Nesting.outline, List.map_eq_nil_iff]
  have hiff (x : Option Nesting) :
      (∃ s, x = some s ∧ s.stack = []) ↔ ∃ o, x.map Nesting.outline = some o ∧ o.1 = [] := by
    simp only [Option.map_eq_some_iff, hempty]
    grind
  rw [Nesting.wellNested_iff, Nesting.wellNested_iff, hiff, hiff, Nesting.outline_run h rfl]

/-! ## Derivations -/

/-- a token that stands alone is the first of the derivation that begins with it -/
theorem single_of_tokens {n : Nested} {t : Token} {ts : List Token} (ht : t.kind.isSingle = true)
    (h : n.tokens = t :: ts) : ∃ rest : Nested, n = .single t ht rest ∧ rest.tokens = ts := by
  cases n with
  | done => cases h
  | single u hu rest =>
    obtain ⟨rfl, rfl⟩ := List.cons.inj h
    exact ⟨rest, rfl, rfl⟩
  | construct f hf start hs body stop he rest =>
    obtain ⟨rfl, -⟩ := List.cons.inj h
    rw [hs] at ht
    cases f <;> cases ht
  | conditional start hs body more rest =>
    obtain ⟨rfl, -⟩ := List.cons.inj h
    rw [hs] at ht
    cases ht

theorem done_of_tokens {n : Nested} (h : n.tokens = []) : n = .done := by
  cases n with
  | done => rfl
  | _ => cases h

theorem exists_singles {ts : List Token} (h : ∀ t ∈ ts, t.kind.isSingle = true) : ∃ n : Nested, n.tokens = ts := by
  induction ts with
  | nil => exact ⟨.done, rfl⟩
  | cons t ts ih =>
    obtain ⟨ht, hts⟩ := List.forall_mem_cons.1 h
    obtain ⟨n, rfl⟩ := ih hts
    exact ⟨.single t ht n, rfl⟩

/-- a token that stands not for a generated form is written as before -/
theorem same_of_respelled {t : Token} {us : List Token} (hk : t.kind ≠ .generate) (h : Respelled fits (t :: ts) us) :
    ∃ u us', us = u :: us' ∧ u.written = t.written ∧ Respelled fits ts us' := by
  cases h with
  | same h hrest => exact ⟨_, _, rfl, h, hrest⟩
  | form ht => exact absurd (Token.kind_of_written ht) hk

mutual

/-- **The derivation of a respelled template** is that of the template respelled. -/
theorem Nested.exists_respelled : ∀ (n : Nested) {ts us : List Token}, Respelled fits (n.tokens ++ ts) us →
    ∃ (n' : Nested) (us' : List Token), us = n'.tokens ++ us' ∧ n.Respelled fits n' ∧ Respelled fits ts us'
  | .done, ts, us, h => ⟨.done, us, rfl, .done, h⟩
  | .single t ht rest, ts, us, h => by
    rw [Nested.tokens, List.cons_append] at h
    cases h with
    | @same _ u _ us hw hrest =>
      obtain ⟨n', us', rfl, hn, hus⟩ := Nested.exists_respelled rest hrest
      exact ⟨.single u (Token.kind_congr hw ▸ ht) n', us', rfl, .single hw hn, hus⟩
    | form hw hnames hfits hform hrest =>
      obtain ⟨n', us', rfl, hn, hus⟩ := Nested.exists_respelled rest hrest
      obtain ⟨start, body, stop, rfl, hstart, hbody, hstop⟩ := exists_of_spelledOut hform
      obtain ⟨b, rfl⟩ := exists_singles (isSingle_of_parts hbody)
      refine ⟨.construct .form nofun start (Token.kind_of_written hstart) b stop hstop n', us', ?_,
        .form hw hnames hfits hstart hbody hn, hus⟩
      simp [Nested.tokens]
  | .construct f hf start hs body stop he rest, ts, us, h => by
    have hks : start.kind ≠ .generate := by rw [hs]; cases f <;> decide
    have hke : stop.kind ≠ .generate := by rw [Token.kind_of_closes? he]; decide
    rw [Nested.tokens, List.cons_append, List.append_assoc, List.cons_append] at h
    obtain ⟨start', us₁, rfl, hstart, h⟩ := same_of_respelled hks h
    obtain ⟨body', us₂, rfl, hbody, h⟩ := Nested.exists_respelled body h
    obtain ⟨stop', us₃, rfl, hstop, h⟩ := same_of_respelled hke h
    obtain ⟨rest', us₄, rfl, hrest, h⟩ := Nested.exists_respelled rest h
    have hs' : start'.kind = f.opener := Token.kind_congr hstart ▸ hs
    have he' : stop'.closes? = some f := Token.closes?_congr hstop ▸ he
    refine ⟨.construct f hf start' hs' body' stop' he' rest', us₄, ?_, .construct hstart hbody hrest, h⟩
    simp [Nested.tokens]
  | .conditional start hs body more rest, ts, us, h => by
    have hks : start.kind ≠ .generate := by rw [hs]; decide
    rw [Nested.tokens, List.cons_append, List.append_assoc, List.append_assoc] at h
    obtain ⟨start', us₁, rfl, hstart, h⟩ := same_of_respelled hks h
    obtain ⟨body', us₂, rfl, hbody, h⟩ := Nested.exists_respelled body h
    obtain ⟨more', us₃, rfl, hmore, h⟩ := Branches.exists_respelled more h
    obtain ⟨rest', us₄, rfl, hrest, h⟩ := Nested.exists_respelled rest h
    refine ⟨.conditional start' (Token.kind_congr hstart ▸ hs) body' more' rest', us₄, ?_,
      .conditional hstart hbody hmore hrest, h⟩
    simp [Nested.tokens]

/-- the derivation of respelled branches is that of the branches respelled -/
theorem Branches.exists_respelled : ∀ (b : Branches) {ts us : List Token}, Respelled fits (b.tokens ++ ts) us →
    ∃ (b' : Branches) (us' : List Token), us = b'.tokens ++ us' ∧ b.Respelled fits b' ∧ Respelled fits ts us'
  | .stop e he, ts, us, h => by
    have hke : e.kind ≠ .generate := by rw [Token.kind_of_closes? he]; decide
    obtain ⟨e', us₁, rfl, hstop, h⟩ := same_of_respelled hke h
    exact ⟨.stop e' (Token.closes?_congr hstop ▸ he), us₁, rfl, .stop, h⟩
  | .elsewhen e he body more, ts, us, h => by
    have hke : e.kind ≠ .generate := by rw [he]; decide
    rw [Branches.tokens, List.cons_append, List.append_assoc] at h
    obtain ⟨e', us₁, rfl, hstart, h⟩ := same_of_respelled hke h
    obtain ⟨body', us₂, rfl, hbody, h⟩ := Nested.exists_respelled body h
    obtain ⟨more', us₃, rfl, hmore, h⟩ := Branches.exists_respelled more h
    refine ⟨.elsewhen e' (Token.kind_congr hstart ▸ he) body' more', us₃, ?_, .elsewhen hstart hbody hmore, h⟩
    simp [Branches.tokens]
  | .otherwise e he body stop hstop, ts, us, h => by
    have hke : e.kind ≠ .generate := by rw [he]; decide
    have hks : stop.kind ≠ .generate := by rw [Token.kind_of_closes? hstop]; decide
    rw [Branches.tokens, List.cons_append, List.append_assoc, List.singleton_append] at h
    obtain ⟨e', us₁, rfl, hstart, h⟩ := same_of_respelled hke h
    obtain ⟨body', us₂, rfl, hbody, h⟩ := Nested.exists_respelled body h
    obtain ⟨stop', us₃, rfl, hlast, h⟩ := same_of_respelled hks h
    refine ⟨.otherwise e' (Token.kind_congr hstart ▸ he) body' stop' (Token.closes?_congr hlast ▸ hstop), us₃, ?_,
      .otherwise hstart hbody, h⟩
    simp [Branches.tokens]

end

/-! ## Depths -/

variable {measure : Family → Nat}

theorem depth_singles {n : Nested} {ts : List Token} (hn : n.tokens = ts) (h : ∀ t ∈ ts, t.kind.isSingle = true) :
    n.depth measure = 0 := by
  induction ts generalizing n with
  | nil =>
    rw [done_of_tokens hn]
    rfl
  | cons t ts ih =>
    obtain ⟨ht, hts⟩ := List.forall_mem_cons.1 h
    obtain ⟨rest, rfl, hrest⟩ := single_of_tokens ht hn
    rw [Nested.depth, ih hrest hts]

mutual

/-- constructs stand as deep in one another in a respelled derivation, if forms do not count -/
theorem Nested.depth_respelled (hform : measure .form = 0) : ∀ (n : Nested) {n' : Nested}, n.Respelled fits n' →
    n'.depth measure = n.depth measure
  | .done, _, h => by
    cases h
    rfl
  | .single t ht rest, _, h => by
    cases h with
    | single _ hrest => rw [Nested.depth, Nested.depth, Nested.depth_respelled hform rest hrest]
    | form _ _ _ _ hbody hrest =>
      rw [Nested.depth, Nested.depth, Nested.depth_respelled hform rest hrest, hform,
        depth_singles rfl (isSingle_of_parts hbody), Nat.max_eq_right (Nat.zero_le _)]
  | .construct f hf start hs body stop he rest, _, h => by
    cases h with
    | construct _ hbody hrest =>
      rw [Nested.depth, Nested.depth, Nested.depth_respelled hform body hbody, Nested.depth_respelled hform rest hrest]
  | .conditional start hs body more rest, _, h => by
    cases h with
    | conditional _ hbody hmore hrest =>
      rw [Nested.depth, Nested.depth, Nested.depth_respelled hform body hbody,
        Branches.depth_respelled hform more hmore, Nested.depth_respelled hform rest hrest]

/-- and in respelled branches -/
theorem Branches.depth_respelled (hform : measure .form = 0) : ∀ (b : Branches) {b' : Branches}, b.Respelled fits b' →
    b'.depth measure = b.depth measure
  | .stop _ _, _, h => by
    cases h
    rfl
  | .elsewhen e he body more, _, h => by
    cases h with
    | elsewhen _ hbody hmore =>
      rw [Branches.depth, Branches.depth, Nested.depth_respelled hform body hbody,
        Branches.depth_respelled hform more hmore]
  | .otherwise e he body stop hstop, _, h => by
    cases h with
    | otherwise _ hbody => rw [Branches.depth, Branches.depth, Nested.depth_respelled hform body hbody]

end

/-! ## Null characters -/

/-- only attributes of options have null characters -/
theorem null_texts {os : List OptionText} :
    '\x00' ∈ OptionText.texts os ↔ ∃ o ∈ os, ∃ a, o.item = some a ∧ '\x00' ∈ a.text := by
  rw [OptionText.texts, List.mem_flatMap]
  refine exists_congr fun o => and_congr_right fun _ => ?_
  have hlead : '\x00' ∉ o.lead := fun h => absurd (o.lead_blank _ h) (by decide)
  rw [OptionText.text, List.mem_append, or_iff_right hlead, OptionText.body]
  cases o.item with
  | some a => simp
  | none =>
    refine iff_of_false (fun h => ?_) (by simp)
    exact absurd (isAttributeChar_of_mem h) (by decide)

/-- the directive that opens the form has a null character if the one that generates it has -/
theorem null_formText (g : GenerateText) : '\x00' ∈ g.formText ↔ '\x00' ∈ g.text := by
  have hform : '\x00' ∉ "form".toList := by decide
  have hgenerate : '\x00' ∉ "generate".toList := by decide
  have htexts :
      '\x00' ∈ OptionText.texts (OptionText.attributesOnly g.options) ↔ '\x00' ∈ OptionText.texts g.options := by
    rw [null_texts, null_texts]
    refine exists_congr fun o => ⟨?_, ?_⟩
    · rintro ⟨ho, h⟩
      exact ⟨List.mem_of_mem_filter ho, h⟩
    · rintro ⟨ho, a, ha, h⟩
      exact ⟨List.mem_filter.2 ⟨ho, by rw [ha]; rfl⟩, a, ha, h⟩
  have hword {w options : Text} (hw : '\x00' ∉ w) : '\x00' ∈ w ++ (g.lead ++ (g.entity.text ++ options)) ↔
      '\x00' ∈ g.lead ∨ '\x00' ∈ g.entity.text ∨ '\x00' ∈ options := by simp [hw]
  exact (hword hform).trans ((or_congr_right (or_congr_right htexts)).trans (hword hgenerate).symm)

/-- the other directives of a form that is spelled out have none -/
theorem null_spelledOut {g : GenerateText} {fields : List Text} (hnames : ∀ f ∈ fields, Text.isName f = true) :
    (∀ w ∈ g.spelledOut fields, w.1 ≠ .literal → '\x00' ∉ w.2) ↔ '\x00' ∉ g.text := by
  rw [GenerateText.spelledOut, List.forall_mem_cons, List.forall_mem_append, null_formText]
  refine (and_iff_left ⟨fun w hw _ => ?_, ?_⟩).trans (by simp)
  · rcases List.mem_append.1 hw with hfield | hsubmit
    · obtain ⟨f, hf, rfl⟩ := List.mem_map.1 hfield
      have hsolid : '\x00' ∉ f := fun hmem =>
        absurd (Text.isNameChar_of_mem (hnames f hf) _ hmem) (by decide)
      have hnull : '\x00' ∉ ' ' :: f := fun hmem => (List.mem_cons.1 hmem).elim (by decide) hsolid
      exact fun hmem => (List.mem_append.1 hmem).elim (by decide) hnull
    · split at hsubmit
      · rw [List.mem_singleton.1 hsubmit]
        decide
      · cases hsubmit
  · simp

/-- **The comments of a respelled template** tell a null character if those of the template do. -/
theorem tells_respelled {s : Settings} (h : Respelled fits ts us) : s.Tells us ↔ s.Tells ts := by
  refine imp_congr_right fun _ => ?_
  induction h with
  | nil => rfl
  | same hw _ ih => rw [List.forall_mem_cons, List.forall_mem_cons, ih, Token.kind_congr hw, Token.raw_congr hw]
  | @form t g fields us ts ts' ht hnames _ hus _ ih =>
    have hform : (∀ u ∈ us, u.kind ≠ .literal → '\x00' ∉ u.raw) ↔ '\x00' ∉ g.text := by
      rw [← null_spelledOut hnames, ← hus, List.forall_mem_map]
      rfl
    have hgenerate : (t.kind ≠ .literal → '\x00' ∉ t.raw) ↔ '\x00' ∉ g.text := by
      rw [show t.kind = .generate from Token.kind_of_written ht, show t.raw = g.text from congrArg Prod.snd ht]
      simp
    rw [List.forall_mem_append, List.forall_mem_cons, ih, hform, hgenerate]

end

end Stencil
