/-
NESTED TEMPLATES. A sequence of tokens is well nested if it derives from

    nested    := (single | construct | conditional)*
    construct := start nested stop                       a loop, a section, a form or a phrase
    conditional := when nested branches
    branches  := stop | elsewhen nested branches | otherwise nested stop

where all its sections have different names and every part of a form stands in a form at some depth. `Nested` are the
derivations, `Nested.tokens` what they derive.

`Nesting` reads tokens from left to right with a stack of open constructs and the names of the sections so far.
- `wellNested_iff`: a sequence is well nested exactly if it can be read and leaves nothing open.
- `viable_iff`: a sequence is the beginning of a well nested one exactly if it can be read.
- `spine_run`: what was read is the open constructs, one in the other, and complete derivations between them.
-/
import Mathlib
import Stencil.Directive.Grammar

namespace Stencil

/-! ## Derivations -/

/-- the kind of the token that opens a family's constructs -/
def Family.opener : Family → TokenKind
  | loop => .loop
  | conditional => .when
  | capture => .capture
  | form => .form
  | phrase => .translate

/-- a token that stands alone: literal text, or a directive without a body -/
def TokenKind.isSingle : TokenKind → Bool
  | literal | interpolation | comment | generate | field | submit | button => true
  | _ => false

/-- a directive that writes a part of the form around it -/
def TokenKind.isPart : TokenKind → Bool
  | field | submit | button => true
  | _ => false

namespace Token

/-- the family that a closing directive names -/
def closes? (t : Token) : Option Family :=
  if t.kind = .closing then (Directive.closing? t.raw).bind Family.ofName? else none

/-- the name of the section that a token begins -/
def sectionName? (t : Token) : Option Text :=
  if t.kind = .capture then Directive.capture? t.raw else none

theorem kind_of_closes? {t : Token} {f : Family} (h : t.closes? = some f) : t.kind = .closing := by
  unfold closes? at h
  split at h
  · assumption
  · simp at h

theorem sectionName?_eq_none {t : Token} (h : t.kind ≠ .capture) : t.sectionName? = none := by
  simp [sectionName?, h]

end Token

mutual

/-- single tokens, constructs and conditionals one after the other -/
inductive Nested where
  | done
  | single (t : Token) (ht : t.kind.isSingle = true) (rest : Nested)
  | construct (f : Family) (hf : f ≠ .conditional) (start : Token) (hs : start.kind = f.opener) (body : Nested)
      (stop : Token) (he : stop.closes? = some f) (rest : Nested)
  | conditional (start : Token) (hs : start.kind = .when) (body : Nested) (more : Branches) (rest : Nested)

/-- what follows the body of a branch, up to the end of the conditional -/
inductive Branches where
  | stop (t : Token) (ht : t.closes? = some .conditional)
  | elsewhen (t : Token) (ht : t.kind = .elsewhen) (body : Nested) (more : Branches)
  | otherwise (t : Token) (ht : t.kind = .otherwise) (body : Nested) (stop : Token)
      (he : stop.closes? = some .conditional)

end

mutual

/-- the tokens of a derivation -/
def Nested.tokens : Nested → List Token
  | .done => []
  | .single t _ rest => t :: rest.tokens
  | .construct _ _ start _ body stop _ rest => start :: (body.tokens ++ stop :: rest.tokens)
  | .conditional start _ body more rest => start :: (body.tokens ++ (more.tokens ++ rest.tokens))

/-- the tokens of branches -/
def Branches.tokens : Branches → List Token
  | .stop t _ => [t]
  | .elsewhen t _ body more => t :: (body.tokens ++ more.tokens)
  | .otherwise t _ body stop _ => t :: (body.tokens ++ [stop])

end

mutual

/-- every part of a form stands in a form, given whether one is around -/
def Nested.PartsIn (inForm : Bool) : Nested → Prop
  | .done => True
  | .single t _ rest => (t.kind.isPart = true → inForm = true) ∧ rest.PartsIn inForm
  | .construct f _ _ _ body _ _ rest => body.PartsIn (inForm || f == .form) ∧ rest.PartsIn inForm
  | .conditional _ _ body more rest => body.PartsIn inForm ∧ more.PartsIn inForm ∧ rest.PartsIn inForm

/-- every part of a form in the branches stands in a form -/
def Branches.PartsIn (inForm : Bool) : Branches → Prop
  | .stop _ _ => True
  | .elsewhen _ _ body more => body.PartsIn inForm ∧ more.PartsIn inForm
  | .otherwise _ _ body _ _ => body.PartsIn inForm

end

/-- the names of the sections among tokens, in order -/
def sectionNames (ts : List Token) : List Text := ts.filterMap Token.sectionName?

/-- tokens that derive from the grammar, with sections of different names and the parts of forms in forms -/
def WellNested (ts : List Token) : Prop :=
  ∃ n : Nested, n.tokens = ts ∧ n.PartsIn false ∧ (sectionNames ts).Nodup

/-- tokens that can be continued to well nested ones -/
def Viable (ts : List Token) : Prop := ∃ more, WellNested (ts ++ more)

/-- a derivation followed by another -/
def Nested.append : Nested → Nested → Nested
  | .done, n => n
  | .single t ht rest, n => .single t ht (rest.append n)
  | .construct f hf start hs body stop he rest, n => .construct f hf start hs body stop he (rest.append n)
  | .conditional start hs body more rest, n => .conditional start hs body more (rest.append n)

theorem Nested.tokens_append : ∀ m n : Nested, (m.append n).tokens = m.tokens ++ n.tokens
  | .done, n => by simp [append, tokens]
  | .single t ht rest, n => by simp [append, tokens, tokens_append rest n]
  | .construct f hf start hs body stop he rest, n => by simp [append, tokens, tokens_append rest n]
  | .conditional start hs body more rest, n => by simp [append, tokens, tokens_append rest n]

@[simp] theorem sectionNames_append (a b : List Token) : sectionNames (a ++ b) = sectionNames a ++ sectionNames b :=
  List.filterMap_append

theorem sectionNames_cons (t : Token) (ts : List Token) :
    sectionNames (t :: ts) = t.sectionName?.toList ++ sectionNames ts := by
  unfold sectionNames
  cases h : t.sectionName? <;> simp [h]

/-! ## Reading from left to right -/

/-- an open construct; `closed` says whether its last branch has begun -/
structure Frame where
  family : Family
  token : Token
  closed : Bool
  deriving DecidableEq, Repr

/-- the open constructs, the innermost first, and the names of the sections so far -/
structure Nesting where
  stack : List Frame
  sections : List Text
  deriving DecidableEq, Repr

namespace Nesting

/-- nothing read yet -/
def start : Nesting := ⟨[], []⟩

/-- a form is open -/
def inForm (s : Nesting) : Bool := s.stack.any fun o => o.family == .form

/-- a construct opened; a section must have a new name -/
def opened (s : Nesting) (f : Family) (t : Token) : Option Nesting :=
  if ∀ name ∈ t.sectionName?, name ∉ s.sections then
    some ⟨⟨f, t, false⟩ :: s.stack, s.sections ++ t.sectionName?.toList⟩
  else none

/-- the innermost construct closed, if it is of that family -/
def closedBy (s : Nesting) (f : Family) : Option Nesting :=
  match s.stack with
  | o :: rest => if o.family = f then some { s with stack := rest } else none
  | [] => none

/-- another branch of the innermost construct, if that is a conditional before its last branch -/
def branched (s : Nesting) (last : Bool) : Option Nesting :=
  match s.stack with
  | o :: rest =>
    if o.family = .conditional ∧ o.closed = false then some { s with stack := { o with closed := last } :: rest }
    else none
  | [] => none

/-- one token read -/
def step (s : Nesting) (t : Token) : Option Nesting :=
  match t.kind with
  | .literal | .interpolation | .comment | .generate => some s
  | .field | .submit | .button => if s.inForm then some s else none
  | .loop => s.opened .loop t
  | .when => s.opened .conditional t
  | .capture => s.opened .capture t
  | .form => s.opened .form t
  | .translate => s.opened .phrase t
  | .elsewhen => s.branched false
  | .otherwise => s.branched true
  | .closing => t.closes?.bind s.closedBy

/-- tokens read one after the other -/
def run (s : Nesting) : List Token → Option Nesting
  | [] => some s
  | t :: ts => (s.step t).bind fun s' => s'.run ts

theorem run_append (s : Nesting) (a b : List Token) : s.run (a ++ b) = (s.run a).bind fun s' => s'.run b := by
  induction a generalizing s with
  | nil => rfl
  | cons t a ih =>
    simp only [List.cons_append, run, Option.bind_assoc]
    cases s.step t with
    | none => rfl
    | some s' => simp [ih]

theorem run_snoc (s : Nesting) (a : List Token) (t : Token) :
    s.run (a ++ [t]) = (s.run a).bind fun s' => s'.step t := by
  rw [run_append]
  congr 1
  funext s'
  simp [run]

/-! ## What one token does -/

theorem step_single {t : Token} (ht : t.kind.isSingle = true) (s : Nesting) :
    s.step t = if t.kind.isPart = true ∧ s.inForm = false then none else some s := by
  cases hk : t.kind <;> simp [hk, TokenKind.isSingle] at ht <;> simp [step, hk, TokenKind.isPart]
  all_goals cases s.inForm <;> simp

theorem step_opener {t : Token} {f : Family} (ht : t.kind = f.opener) (s : Nesting) : s.step t = s.opened f t := by
  cases f <;> simp [step, ht, Family.opener]

theorem step_elsewhen {t : Token} (ht : t.kind = .elsewhen) (s : Nesting) : s.step t = s.branched false := by
  simp [step, ht]

theorem step_otherwise {t : Token} (ht : t.kind = .otherwise) (s : Nesting) : s.step t = s.branched true := by
  simp [step, ht]

theorem step_closes {t : Token} {f : Family} (ht : t.closes? = some f) (s : Nesting) : s.step t = s.closedBy f := by
  simp [step, Token.kind_of_closes? ht, ht]

/-- **What a token that can be read is, and what it leaves.** -/
theorem step_cases {s s' : Nesting} {t : Token} (h : s.step t = some s') :
    (t.kind.isSingle = true ∧ (t.kind.isPart = true → s.inForm = true) ∧ s' = s) ∨
    (∃ f, t.kind = f.opener ∧ s.opened f t = some s') ∨
    (t.kind = .elsewhen ∧ s.branched false = some s') ∨
    (t.kind = .otherwise ∧ s.branched true = some s') ∨
    (∃ f, t.closes? = some f ∧ s.closedBy f = some s') := by
  by_cases hs : t.kind.isSingle = true
  · left
    rw [step_single hs] at h
    split at h
    · simp at h
    · rename_i hp
      refine ⟨hs, fun hpart => ?_, (Option.some.inj h).symm⟩
      cases hf : s.inForm with
      | true => rfl
      | false => exact absurd ⟨hpart, hf⟩ hp
  · right
    cases hk : t.kind <;> simp [hk, TokenKind.isSingle] at hs
    case loop => exact .inl ⟨.loop, rfl, by rw [← step_opener (f := .loop) hk]; exact h⟩
    case when => exact .inl ⟨.conditional, rfl, by rw [← step_opener (f := .conditional) hk]; exact h⟩
    case capture => exact .inl ⟨.capture, rfl, by rw [← step_opener (f := .capture) hk]; exact h⟩
    case form => exact .inl ⟨.form, rfl, by rw [← step_opener (f := .form) hk]; exact h⟩
    case translate => exact .inl ⟨.phrase, rfl, by rw [← step_opener (f := .phrase) hk]; exact h⟩
    case elsewhen => exact .inr (.inl ⟨rfl, by rw [← step_elsewhen hk]; exact h⟩)
    case otherwise => exact .inr (.inr (.inl ⟨rfl, by rw [← step_otherwise hk]; exact h⟩))
    case closing =>
      simp only [step, hk, Option.bind_eq_some_iff] at h
      obtain ⟨f, hf, hc⟩ := h
      exact .inr (.inr (.inr ⟨f, hf, hc⟩))

theorem opened_eq {s : Nesting} {f : Family} {t : Token} (h : ∀ name ∈ t.sectionName?, name ∉ s.sections) :
    s.opened f t = some ⟨⟨f, t, false⟩ :: s.stack, s.sections ++ t.sectionName?.toList⟩ := by
  rw [opened, if_pos h]

theorem opened_some {s s' : Nesting} {f : Family} {t : Token} (h : s.opened f t = some s') :
    (∀ name ∈ t.sectionName?, name ∉ s.sections) ∧
      s' = ⟨⟨f, t, false⟩ :: s.stack, s.sections ++ t.sectionName?.toList⟩ := by
  unfold opened at h
  split at h
  · rename_i hn
    exact ⟨hn, (Option.some.inj h).symm⟩
  · simp at h

theorem closedBy_cons (o : Frame) (rest : List Frame) (sections : List Text) :
    closedBy ⟨o :: rest, sections⟩ o.family = some ⟨rest, sections⟩ := by
  simp [closedBy]

theorem closedBy_some {s s' : Nesting} {f : Family} (h : s.closedBy f = some s') :
    ∃ o rest, s.stack = o :: rest ∧ o.family = f ∧ s' = ⟨rest, s.sections⟩ := by
  unfold closedBy at h
  split at h
  · rename_i o rest hstack
    split at h
    · rename_i ho
      exact ⟨o, rest, hstack, ho, (Option.some.inj h).symm⟩
    · simp at h
  · simp at h

theorem branched_cons (t : Token) (rest : List Frame) (sections : List Text) (last : Bool) :
    branched ⟨⟨.conditional, t, false⟩ :: rest, sections⟩ last =
      some ⟨⟨.conditional, t, last⟩ :: rest, sections⟩ := by
  simp [branched]

theorem branched_some {s s' : Nesting} {last : Bool} (h : s.branched last = some s') :
    ∃ t rest, s.stack = ⟨.conditional, t, false⟩ :: rest ∧ s' = ⟨⟨.conditional, t, last⟩ :: rest, s.sections⟩ := by
  unfold branched at h
  split at h
  · rename_i o rest hstack
    split at h
    · rename_i ho
      obtain ⟨f, t, closed⟩ := o
      obtain ⟨rfl, rfl⟩ := ho
      exact ⟨t, rest, hstack, (Option.some.inj h).symm⟩
    · simp at h
  · simp at h

/-! ## What reading does to the sections -/

theorem step_sections {s s' : Nesting} {t : Token} (h : s.step t = some s') :
    s'.sections = s.sections ++ t.sectionName?.toList ∧ ∀ name ∈ t.sectionName?, name ∉ s.sections := by
  have keep : ∀ k : TokenKind, t.kind = k → k ≠ .capture → t.sectionName? = none :=
    fun k hk hne => Token.sectionName?_eq_none (hk ▸ hne)
  rcases step_cases h with ⟨hs, -, rfl⟩ | ⟨f, -, ho⟩ | ⟨hk, hb⟩ | ⟨hk, hb⟩ | ⟨f, hf, hc⟩
  · have : t.sectionName? = none := Token.sectionName?_eq_none fun hk => by simp [hk, TokenKind.isSingle] at hs
    simp [this]
  · obtain ⟨hn, rfl⟩ := opened_some ho
    exact ⟨rfl, hn⟩
  · obtain ⟨_, _, -, rfl⟩ := branched_some hb
    simp [keep _ hk]
  · obtain ⟨_, _, -, rfl⟩ := branched_some hb
    simp [keep _ hk]
  · obtain ⟨_, _, -, -, rfl⟩ := closedBy_some hc
    simp [keep _ (Token.kind_of_closes? hf)]

/-- the sections that were read are the sections of the tokens, all of different names -/
theorem run_sections {s s' : Nesting} {ts : List Token} (h : s.run ts = some s') (hn : s.sections.Nodup) :
    s'.sections = s.sections ++ sectionNames ts ∧ s'.sections.Nodup := by
  induction ts generalizing s with
  | nil =>
    cases h
    simp [sectionNames, hn]
  | cons t ts ih =>
    simp only [run, Option.bind_eq_some_iff] at h
    obtain ⟨s₁, hstep, hrun⟩ := h
    obtain ⟨hsec, hnew⟩ := step_sections hstep
    have hn₁ : s₁.sections.Nodup := by
      rw [hsec]
      cases hname : t.sectionName? with
      | none => simpa using hn
      | some name =>
        have hnot : name ∉ s.sections := hnew name (by simp [hname])
        refine List.nodup_append.2 ⟨hn, by simp, fun a ha b hb hab => ?_⟩
        simp only [Option.toList_some, List.mem_singleton] at hb
        exact hnot (hb ▸ hab ▸ ha)
    obtain ⟨hfin, hnod⟩ := ih hrun hn₁
    exact ⟨by rw [hfin, hsec, sectionNames_cons, List.append_assoc], hnod⟩

/-! ## Derivations can be read -/

theorem fresh_of_nodup {sections : List Text} {t : Token} {more : List Text}
    (h : (sections ++ (t.sectionName?.toList ++ more)).Nodup) : ∀ name ∈ t.sectionName?, name ∉ sections := by
  intro name hname hmem
  have hd := (List.nodup_append.1 h).2.2
  exact hd name hmem name (List.mem_append_left _ (by simpa using hname)) rfl

theorem inForm_cons (o : Frame) (stack : List Frame) (sections sections' : List Text) :
    inForm ⟨o :: stack, sections⟩ = (inForm ⟨stack, sections'⟩ || o.family == .form) := by
  simp [inForm, Bool.or_comm]

theorem inForm_conditional (t : Token) (closed : Bool) (stack : List Frame) (sections sections' : List Text) :
    inForm ⟨⟨.conditional, t, closed⟩ :: stack, sections⟩ = inForm ⟨stack, sections'⟩ := by
  simp [inForm]

@[simp] theorem conditional_beq_form : (Family.conditional == Family.form) = false := rfl

mutual

/-- a derivation is read without a change of the open constructs -/
theorem run_nested : ∀ (n : Nested) (stack : List Frame) (sections : List Text), n.PartsIn (inForm ⟨stack, sections⟩) →
    (sections ++ sectionNames n.tokens).Nodup →
    run ⟨stack, sections⟩ n.tokens = some ⟨stack, sections ++ sectionNames n.tokens⟩
  | .done, stack, sections, _, _ => by simp [Nested.tokens, run, sectionNames]
  | .single t ht rest, stack, sections, hp, hn => by
    have hname : t.sectionName? = none :=
      Token.sectionName?_eq_none fun hk => by simp [hk, TokenKind.isSingle] at ht
    simp only [Nested.tokens, sectionNames_cons, hname, Option.toList_none, List.nil_append] at hn ⊢
    rw [run, step_single ht, if_neg fun h => by simp [hp.1 h.1] at h]
    exact run_nested rest stack sections hp.2 hn
  | .construct f hf start hs body stop he rest, stack, sections, hp, hn => by
    have hstop : stop.sectionName? = none :=
      Token.sectionName?_eq_none (by rw [Token.kind_of_closes? he]; decide)
    simp only [Nested.tokens, sectionNames_cons, sectionNames_append, hstop, Option.toList_none,
      List.nil_append] at hn ⊢
    rw [run, step_opener hs, opened_eq (fresh_of_nodup hn), Option.bind_some, run_append]
    simp only [← List.append_assoc] at hn ⊢
    rw [run_nested body _ _ (by rw [inForm_cons _ _ _ sections]; exact hp.1) (List.nodup_append.1 hn).1,
      Option.bind_some, run, step_closes he, closedBy_cons ⟨f, start, false⟩, Option.bind_some]
    exact run_nested rest stack _ hp.2 hn
  | .conditional start hs body more rest, stack, sections, hp, hn => by
    have hname : start.sectionName? = none := Token.sectionName?_eq_none (by rw [hs]; decide)
    simp only [Nested.tokens, sectionNames_cons, sectionNames_append, hname, Option.toList_none,
      List.nil_append, ← List.append_assoc] at hn ⊢
    rw [run, step_opener (f := .conditional) hs, opened_eq (by simp [hname]), Option.bind_some, List.append_assoc,
      run_append]
    simp only [hname, Option.toList_none, List.append_nil]
    have hn' := (List.nodup_append.1 hn).1
    rw [run_nested body _ _ (by rw [inForm_conditional _ _ _ _ sections]; exact hp.1) (List.nodup_append.1 hn').1,
      Option.bind_some, run_append, run_branches more _ _ _ (by exact hp.2.1) hn', Option.bind_some]
    exact run_nested rest stack _ hp.2.2 hn

/-- branches close the conditional in which they stand -/
theorem run_branches : ∀ (b : Branches) (t : Token) (stack : List Frame) (sections : List Text),
    b.PartsIn (inForm ⟨stack, sections⟩) → (sections ++ sectionNames b.tokens).Nodup →
    run ⟨⟨.conditional, t, false⟩ :: stack, sections⟩ b.tokens = some ⟨stack, sections ++ sectionNames b.tokens⟩
  | .stop e he, t, stack, sections, _, _ => by
    have hname : e.sectionName? = none :=
      Token.sectionName?_eq_none (by rw [Token.kind_of_closes? he]; decide)
    simp [Branches.tokens, run, step_closes he, closedBy, sectionNames, hname]
  | .elsewhen e he body more, t, stack, sections, hp, hn => by
    have hname : e.sectionName? = none := Token.sectionName?_eq_none (by rw [he]; decide)
    simp only [Branches.tokens, sectionNames_cons, sectionNames_append, hname, Option.toList_none,
      List.nil_append, ← List.append_assoc] at hn ⊢
    rw [run, step_elsewhen he, branched_cons, Option.bind_some, run_append,
      run_nested body _ _ (by rw [inForm_conditional _ _ _ _ sections]; exact hp.1) (List.nodup_append.1 hn).1,
      Option.bind_some]
    exact run_branches more t stack _ hp.2 hn
  | .otherwise e he body stop hs, t, stack, sections, hp, hn => by
    have hname : e.sectionName? = none := Token.sectionName?_eq_none (by rw [he]; decide)
    have hstop : stop.sectionName? = none :=
      Token.sectionName?_eq_none (by rw [Token.kind_of_closes? hs]; decide)
    simp only [Branches.tokens, sectionNames_cons, sectionNames_append, hname, hstop, Option.toList_none,
      List.nil_append] at hn ⊢
    rw [run, step_otherwise he, branched_cons, Option.bind_some, run_append,
      run_nested body _ _ (by rw [inForm_conditional _ _ _ _ sections]; exact hp)
        (by simpa [sectionNames, hstop] using hn), Option.bind_some]
    simp [run, step_closes hs, closedBy, sectionNames]

end

mutual

/-- what was read has its parts of forms in forms, and the open constructs are those of before -/
theorem partsIn_of_run : ∀ (n : Nested) (s s' : Nesting), s.run n.tokens = some s' →
    n.PartsIn s.inForm ∧ s'.stack = s.stack
  | .done, s, s', h => by
    cases h
    exact ⟨trivial, rfl⟩
  | .single t ht rest, s, s', h => by
    simp only [Nested.tokens, run, Option.bind_eq_some_iff] at h
    obtain ⟨s₁, hstep, hrun⟩ := h
    rw [step_single ht] at hstep
    split at hstep
    · simp at hstep
    · rename_i hpart
      cases hstep
      obtain ⟨hp, hs⟩ := partsIn_of_run rest _ _ hrun
      refine ⟨⟨fun hk => ?_, hp⟩, hs⟩
      cases hf : s.inForm with
      | true => rfl
      | false => exact absurd ⟨hk, hf⟩ hpart
  | .construct f hf start hs body stop he rest, s, s', h => by
    simp only [Nested.tokens, run, Option.bind_eq_some_iff, run_append, step_opener hs, step_closes he] at h
    obtain ⟨s₁, hopen, s₂, hbody, s₃, hclose, hrest⟩ := h
    obtain ⟨-, rfl⟩ := opened_some hopen
    obtain ⟨hp, hs₂⟩ := partsIn_of_run body _ _ hbody
    obtain ⟨o, stack, hs₂', -, rfl⟩ := closedBy_some hclose
    obtain ⟨-, rfl⟩ := List.cons.inj (hs₂.symm.trans hs₂')
    obtain ⟨hp', hs'⟩ := partsIn_of_run rest _ _ hrest
    exact ⟨⟨by rw [inForm_cons _ _ _ s.sections] at hp; exact hp, hp'⟩, hs'⟩
  | .conditional start hs body more rest, s, s', h => by
    simp only [Nested.tokens, run, Option.bind_eq_some_iff, run_append,
      step_opener (f := .conditional) hs] at h
    obtain ⟨s₁, hopen, s₂, hbody, s₃, hmore, hrest⟩ := h
    obtain ⟨-, rfl⟩ := opened_some hopen
    obtain ⟨hp, hs₂⟩ := partsIn_of_run body _ _ hbody
    obtain ⟨hm, hs₃⟩ := partsIn_of_branches more _ _ _ _ hs₂ hmore
    obtain ⟨hp', hs'⟩ := partsIn_of_run rest _ _ hrest
    rw [inForm_conditional _ _ _ _ s.sections] at hp
    refine ⟨⟨hp, ?_, ?_⟩, hs'.trans hs₃⟩
    · rw [inForm, hs₂] at hm
      simpa [inForm] using hm
    · rw [inForm, hs₃] at hp'
      exact hp'

/-- branches that were read have their parts of forms in forms, and close the conditional -/
theorem partsIn_of_branches : ∀ (b : Branches) (t : Token) (stack : List Frame) (s s' : Nesting),
    s.stack = ⟨.conditional, t, false⟩ :: stack → s.run b.tokens = some s' → b.PartsIn s.inForm ∧ s'.stack = stack
  | .stop e he, t, stack, s, s', hstack, h => by
    simp only [Branches.tokens, run, Option.bind_eq_some_iff, step_closes he] at h
    obtain ⟨s₁, hclose, hdone⟩ := h
    cases hdone
    obtain ⟨o, rest, hs, -, rfl⟩ := closedBy_some hclose
    exact ⟨trivial, (List.cons.inj (hs.symm.trans hstack)).2⟩
  | .elsewhen e he body more, t, stack, s, s', hstack, h => by
    simp only [Branches.tokens, run, Option.bind_eq_some_iff, run_append, step_elsewhen he] at h
    obtain ⟨s₁, hbranch, s₂, hbody, hmore⟩ := h
    obtain ⟨t', rest, hs, rfl⟩ := branched_some hbranch
    obtain ⟨ht, rfl⟩ := List.cons.inj (hs.symm.trans hstack)
    obtain ⟨hp, hs₂⟩ := partsIn_of_run body _ _ hbody
    obtain ⟨hm, hs'⟩ := partsIn_of_branches more _ _ _ _ hs₂ hmore
    rw [inForm, hs₂] at hm
    refine ⟨⟨?_, ?_⟩, hs'⟩
    · simpa [inForm, hs] using hp
    · simpa [inForm, hs] using hm
  | .otherwise e he body stop hs, t, stack, s, s', hstack, h => by
    simp only [Branches.tokens, run, Option.bind_eq_some_iff, run_append, step_otherwise he, step_closes hs] at h
    obtain ⟨s₁, hbranch, s₂, hbody, s₃, hclose, hdone⟩ := h
    cases hdone
    obtain ⟨t', rest, hs₀, rfl⟩ := branched_some hbranch
    obtain ⟨-, rfl⟩ := List.cons.inj (hs₀.symm.trans hstack)
    obtain ⟨hp, hs₂⟩ := partsIn_of_run body _ _ hbody
    obtain ⟨o, stack', hs₂', -, rfl⟩ := closedBy_some hclose
    refine ⟨?_, (List.cons.inj (hs₂.symm.trans hs₂')).2.symm⟩
    rw [Branches.PartsIn]
    simpa [inForm, hs₀] using hp

end

/-! ## What was read derives -/

/-- what stands in a conditional that is open: a body and then branches, the last of which may be `otherwise` -/
inductive Interior : Bool → List Token → Prop where
  | first (n : Nested) : Interior false n.tokens
  | elsewhen {ts : List Token} {t : Token} (h : Interior false ts) (ht : t.kind = .elsewhen) (n : Nested) :
    Interior false (ts ++ t :: n.tokens)
  | otherwise {ts : List Token} {t : Token} (h : Interior false ts) (ht : t.kind = .otherwise) (n : Nested) :
    Interior true (ts ++ t :: n.tokens)

/-- tokens that can stand in an open construct so far -/
def Holds (o : Frame) (ts : List Token) : Prop :=
  o.token.kind = o.family.opener ∧
    if o.family = .conditional then Interior o.closed ts else ∃ n : Nested, n.tokens = ts

/-- tokens that open the constructs of a stack, one in the other, and close all others -/
inductive Spine : List Frame → List Token → Prop where
  | outermost (n : Nested) : Spine [] n.tokens
  | inner {o : Frame} {stack : List Frame} {ts body : List Token} (h : Spine stack ts) (ho : Holds o body) :
    Spine (o :: stack) (ts ++ o.token :: body)

theorem Interior.append {closed : Bool} {ts : List Token} (h : Interior closed ts) (n : Nested) :
    Interior closed (ts ++ n.tokens) := by
  cases h with
  | first m => rw [← Nested.tokens_append]; exact .first _
  | elsewhen h ht m =>
    rw [List.append_assoc, List.cons_append, ← Nested.tokens_append]
    exact .elsewhen h ht _
  | otherwise h ht m =>
    rw [List.append_assoc, List.cons_append, ← Nested.tokens_append]
    exact .otherwise h ht _

theorem Holds.append {o : Frame} {ts : List Token} (h : Holds o ts) (n : Nested) : Holds o (ts ++ n.tokens) := by
  refine ⟨h.1, ?_⟩
  have h₂ := h.2
  split
  · rename_i hf
    rw [if_pos hf] at h₂
    exact h₂.append n
  · rename_i hf
    rw [if_neg hf] at h₂
    obtain ⟨m, rfl⟩ := h₂
    exact ⟨m.append n, Nested.tokens_append m n⟩

theorem Spine.append {stack : List Frame} {ts : List Token} (h : Spine stack ts) (n : Nested) :
    Spine stack (ts ++ n.tokens) := by
  cases h with
  | outermost m => rw [← Nested.tokens_append]; exact .outermost _
  | inner h ho =>
    rw [List.append_assoc, List.cons_append]
    exact .inner h (ho.append n)

/-- what stands in a conditional becomes its derivation as soon as branches follow that close it -/
theorem Interior.close {closed : Bool} {ts : List Token} (h : Interior closed ts) :
    ∀ b : Branches, (closed = true → ∃ e he, b = .stop e he) →
      ∃ (n : Nested) (b' : Branches), ts ++ b.tokens = n.tokens ++ b'.tokens := by
  induction h with
  | first n => exact fun b _ => ⟨n, b, rfl⟩
  | @elsewhen ts t h ht n ih =>
    intro b _
    obtain ⟨m, b', hb⟩ := ih (.elsewhen t ht n b) (by simp)
    exact ⟨m, b', by rw [← hb]; simp [Branches.tokens]⟩
  | @otherwise ts t h ht n ih =>
    intro b hstop
    obtain ⟨e, he, rfl⟩ := hstop rfl
    obtain ⟨m, b', hb⟩ := ih (.otherwise t ht n e he) (by simp)
    exact ⟨m, b', by rw [← hb]; simp [Branches.tokens]⟩

/-- an open construct and its closing directive derive -/
theorem Holds.close {o : Frame} {ts : List Token} (h : Holds o ts) {e : Token} (he : e.closes? = some o.family) :
    ∃ n : Nested, n.tokens = o.token :: (ts ++ [e]) := by
  obtain ⟨hopen, h⟩ := h
  split at h
  · rename_i hf
    obtain ⟨n, b, hb⟩ := h.close (.stop e (hf ▸ he)) fun _ => ⟨e, hf ▸ he, rfl⟩
    refine ⟨.conditional o.token (by rw [hopen, hf]; rfl) n b .done, ?_⟩
    simp only [Branches.tokens] at hb
    simp [Nested.tokens, hb]
  · rename_i hf
    obtain ⟨n, rfl⟩ := h
    exact ⟨.construct o.family hf o.token hopen n e he .done, by simp [Nested.tokens]⟩

/-- **One token more.** What has been read and the token are again the open constructs, one in the other. -/
theorem spine_step {s s' : Nesting} {ts : List Token} {t : Token} (hs : Spine s.stack ts) (h : s.step t = some s') :
    Spine s'.stack (ts ++ [t]) := by
  rcases step_cases h with ⟨ht, -, rfl⟩ | ⟨f, ht, ho⟩ | ⟨ht, hb⟩ | ⟨ht, hb⟩ | ⟨f, ht, hc⟩
  · exact hs.append (.single t ht .done)
  · obtain ⟨-, rfl⟩ := opened_some ho
    refine .inner (o := ⟨f, t, false⟩) hs ⟨ht, ?_⟩
    split
    · exact .first .done
    · exact ⟨.done, rfl⟩
  · obtain ⟨u, rest, hstack, rfl⟩ := branched_some hb
    rw [hstack] at hs
    cases hs with
    | inner hs hu =>
      rw [List.append_assoc]
      exact .inner (o := ⟨.conditional, u, false⟩) hs ⟨hu.1, .elsewhen hu.2 ht .done⟩
  · obtain ⟨u, rest, hstack, rfl⟩ := branched_some hb
    rw [hstack] at hs
    cases hs with
    | inner hs hu =>
      rw [List.append_assoc]
      exact .inner (o := ⟨.conditional, u, true⟩) hs ⟨hu.1, .otherwise hu.2 ht .done⟩
  · obtain ⟨o, rest, hstack, rfl, rfl⟩ := closedBy_some hc
    rw [hstack] at hs
    cases hs with
    | inner hs ho =>
      obtain ⟨n, hn⟩ := ho.close ht
      rw [List.append_assoc, List.cons_append, ← hn]
      exact hs.append n

/-- **What was read** is the open constructs, one in the other, and complete derivations between them. -/
theorem spine_run {s : Nesting} {ts : List Token} (h : start.run ts = some s) : Spine s.stack ts := by
  suffices ∀ (ts pre : List Token) (s₀ : Nesting), Spine s₀.stack pre → s₀.run ts = some s →
      Spine s.stack (pre ++ ts) from this ts [] start (.outermost .done) h
  intro ts
  induction ts with
  | nil =>
    intro pre s₀ hs hrun
    cases hrun
    simpa using hs
  | cons t ts ih =>
    intro pre s₀ hs hrun
    simp only [run, Option.bind_eq_some_iff] at hrun
    obtain ⟨s₁, hstep, hrun⟩ := hrun
    have := ih (pre ++ [t]) s₁ (spine_step hs hstep) hrun
    simpa using this

/-! ## Well nested tokens and their beginnings -/

/-- **Well nested tokens** are those that can be read and leave nothing open. -/
theorem wellNested_iff (ts : List Token) : WellNested ts ↔ ∃ s, start.run ts = some s ∧ s.stack = [] := by
  constructor
  · rintro ⟨n, rfl, hp, hn⟩
    exact ⟨_, run_nested n [] [] hp (by simpa using hn), rfl⟩
  · rintro ⟨s, hrun, hs⟩
    have hspine := spine_run hrun
    rw [hs] at hspine
    cases hspine with
    | outermost n =>
      obtain ⟨hsec, hnod⟩ := run_sections hrun List.nodup_nil
      exact ⟨n, rfl, (partsIn_of_run n _ _ hrun).1, by simpa [hsec, start] using hnod⟩

instance (ts : List Token) : Decidable (WellNested ts) :=
  decidable_of_iff ((start.run ts).any (fun s => s.stack.isEmpty) = true) (by
    rw [wellNested_iff, Option.any_eq_true]
    simp)

/-- the closing directive of a family -/
def closer (f : Family) : Token := ⟨.closing, "end" ++ f.name, 0, 0⟩

theorem closes?_closer (f : Family) : (closer f).closes? = some f := by
  cases f <;> decide

/-- open constructs can always be closed, innermost first -/
theorem run_closers (stack : List Frame) (sections : List Text) :
    run ⟨stack, sections⟩ (stack.map fun o => closer o.family) = some ⟨[], sections⟩ := by
  induction stack with
  | nil => rfl
  | cons o stack ih =>
    rw [List.map_cons, run, step_closes (closes?_closer o.family), closedBy_cons, Option.bind_some, ih]

/-- **Beginnings of well nested tokens** are those that can be read. -/
theorem viable_iff (ts : List Token) : Viable ts ↔ ∃ s, start.run ts = some s := by
  constructor
  · rintro ⟨more, h⟩
    obtain ⟨s, hrun, -⟩ := (wellNested_iff _).1 h
    rw [run_append, Option.bind_eq_some_iff] at hrun
    obtain ⟨s', hs', -⟩ := hrun
    exact ⟨s', hs'⟩
  · rintro ⟨s, hrun⟩
    refine ⟨s.stack.map fun o => closer o.family, (wellNested_iff _).2 ⟨⟨[], s.sections⟩, ?_, rfl⟩⟩
    rw [run_append, hrun, Option.bind_some, run_closers]

/-- tokens that cannot be read have a first one that cannot -/
theorem run_eq_none {s : Nesting} {ts : List Token} (h : s.run ts = none) :
    ∃ pre t post s', ts = pre ++ t :: post ∧ s.run pre = some s' ∧ s'.step t = none := by
  induction ts generalizing s with
  | nil => simp [run] at h
  | cons t ts ih =>
    cases hstep : s.step t with
    | none => exact ⟨[], t, ts, s, rfl, rfl, hstep⟩
    | some s₁ =>
      rw [run, hstep, Option.bind_some] at h
      obtain ⟨pre, u, post, s', rfl, hpre, hu⟩ := ih h
      exact ⟨t :: pre, u, post, s', rfl, by rw [run, hstep, Option.bind_some, hpre], hu⟩

end Nesting

/-- the token is the first with which the tokens before it cannot be continued to well nested ones -/
def FirstBad (ts : List Token) (t : Token) : Prop :=
  ∃ pre post, ts = pre ++ t :: post ∧ Viable pre ∧ ¬ Viable (pre ++ [t])

/-- the token begins the innermost construct that is not closed: what follows it can stand in that construct, with all
its own constructs closed -/
def InnermostOpen (ts : List Token) (t : Token) : Prop :=
  ∃ pre body, ts = pre ++ t :: body ∧
    ((∃ f, f ≠ Family.conditional ∧ t.kind = f.opener ∧ ∃ n : Nested, n.tokens = body) ∨
      (t.kind = .when ∧ ∃ closed, Nesting.Interior closed body))

namespace Nesting

/-- the first token that cannot be read is the first bad one -/
theorem firstBad_of_step {s : Nesting} {pre : List Token} {t : Token} (hpre : start.run pre = some s)
    (ht : s.step t = none) (post : List Token) : FirstBad (pre ++ t :: post) t := by
  refine ⟨pre, post, rfl, (viable_iff pre).2 ⟨s, hpre⟩, fun h => ?_⟩
  obtain ⟨s', hs'⟩ := (viable_iff _).1 h
  rw [run_snoc, hpre, Option.bind_some, ht] at hs'
  simp at hs'

/-- the construct on top of the stack is the innermost one that is not closed -/
theorem innermostOpen_of_run {s : Nesting} {ts : List Token} {o : Frame} {stack : List Frame}
    (h : start.run ts = some s) (hs : s.stack = o :: stack) : InnermostOpen ts o.token := by
  have hspine := spine_run h
  rw [hs] at hspine
  cases hspine with
  | @inner _ _ pre body _ ho =>
    refine ⟨pre, body, rfl, ?_⟩
    obtain ⟨hopen, ho⟩ := ho
    split at ho
    · rename_i hf
      exact .inr ⟨by rw [hopen, hf]; rfl, o.closed, ho⟩
    · rename_i hf
      exact .inl ⟨o.family, hf, hopen, ho⟩

end Nesting

end Stencil
