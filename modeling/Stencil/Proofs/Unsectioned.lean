/-
TEMPLATES WITHOUT THEIR SECTIONS. Leaving out the directives that begin and end sections leaves a template that
compiles, in which the body of every section stands where the section stood: a section binds no names, takes no
temporaries and has no level of code.

- `Instruction.compile_unsectioned`, `tokens_unsectioned`: the other directives are compiled as before, one by one and
  all of them.
- `Nested.page_unsectioned`: what the derivation without its sections asks for.
- `compile_unsectioned`: the template without its sections compiles to the passage without its sections, and its code
  can be loaded.
-/
import Stencil.Proofs.Refusals

namespace Stencil

/-! ## Tokens, derivations and passages -/

/-- the token begins or ends a section -/
def Token.marksSection (t : Token) : Bool := t.kind == .capture || t.closes? == some .capture

/-- tokens without those that begin or end a section -/
def unsectioned (ts : List Token) : List Token := ts.filter fun t => !t.marksSection

mutual

/-- a derivation with the bodies of its sections in their place -/
def Nested.unsectioned : Nested → Nested
  | .done => .done
  | .single t ht rest => .single t ht rest.unsectioned
  | .construct f hf start hs body stop he rest =>
    if f = .capture then body.unsectioned.append rest.unsectioned
    else .construct f hf start hs body.unsectioned stop he rest.unsectioned
  | .conditional start hs body more rest =>
    .conditional start hs body.unsectioned more.unsectioned rest.unsectioned

/-- branches with the bodies of their sections in their place -/
def Branches.unsectioned : Branches → Branches
  | .stop t ht => .stop t ht
  | .elsewhen t ht body more => .elsewhen t ht body.unsectioned more.unsectioned
  | .otherwise t ht body stop he => .otherwise t ht body.unsectioned stop he

end

/-- a passage followed by another -/
def Passage.append : Passage → Passage → Passage
  | .done, q => q
  | .act a rest, q => .act a (rest.append q)
  | .construct o body rest, q => .construct o body (rest.append q)
  | .choice c body more rest, q => .choice c body more (rest.append q)

mutual

/-- a passage with the bodies of its sections in their place -/
def Passage.unsectioned : Passage → Passage
  | .done => .done
  | .act a rest => .act a rest.unsectioned
  | .construct o body rest =>
    if o.family = .capture then body.unsectioned.append rest.unsectioned
    else .construct o body.unsectioned rest.unsectioned
  | .choice c body more rest => .choice c body.unsectioned more.unsectioned rest.unsectioned

/-- choices with the bodies of their sections in their place -/
def Choices.unsectioned : Choices → Choices
  | .none => .none
  | .elsewhen c body more => .elsewhen c body.unsectioned more.unsectioned
  | .otherwise body => .otherwise body.unsectioned

end

namespace Token

variable {t : Token}

theorem marksSection_of_closes? {f : Family} (h : t.closes? = some f) : t.marksSection = (f == .capture) := by
  simp [marksSection, h, kind_of_closes? h]

/-- a token that is no closing directive -/
theorem marksSection_of_kind (h : t.kind ≠ .closing) : t.marksSection = (t.kind == .capture) := by
  simp [marksSection, closes?, h]

theorem marksSection_single (h : t.kind.isSingle = true) : t.marksSection = false := by
  cases hk : t.kind <;> simp [hk, TokenKind.isSingle] at h <;> simp [marksSection_of_kind, hk]

theorem marksSection_opener {f : Family} (h : t.kind = f.opener) : t.marksSection = (f == .capture) := by
  rw [marksSection_of_kind (by rw [h]; cases f <;> decide), h]
  cases f <;> rfl

end Token

theorem unsectioned_cons (t : Token) (ts : List Token) :
    unsectioned (t :: ts) = if t.marksSection then unsectioned ts else t :: unsectioned ts := by
  cases h : t.marksSection <;> simp [unsectioned, h]

@[simp] theorem unsectioned_append (a b : List Token) : unsectioned (a ++ b) = unsectioned a ++ unsectioned b :=
  List.filter_append a b

mutual

/-- **The tokens of a derivation without its sections** are those that mark no section. -/
theorem Nested.tokens_unsectioned : ∀ n : Nested, n.unsectioned.tokens = Stencil.unsectioned n.tokens
  | .done => rfl
  | .single t ht rest => by
    simp [Nested.unsectioned, Nested.tokens, unsectioned_cons, Token.marksSection_single ht,
      Nested.tokens_unsectioned rest]
  | .construct f hf start hs body stop he rest => by
    simp only [Nested.tokens, unsectioned_cons, unsectioned_append, Token.marksSection_opener hs,
      Token.marksSection_of_closes? he]
    by_cases h : f = .capture
    · simp [Nested.unsectioned, h, Nested.tokens_append, Nested.tokens_unsectioned body,
        Nested.tokens_unsectioned rest]
    · simp [Nested.unsectioned, h, Nested.tokens, Nested.tokens_unsectioned body, Nested.tokens_unsectioned rest]
  | .conditional start hs body more rest => by
    have hstart : start.marksSection = false := Token.marksSection_opener (f := .conditional) hs
    simp [Nested.unsectioned, Nested.tokens, unsectioned_cons, hstart, Nested.tokens_unsectioned body,
      Branches.tokens_unsectioned more, Nested.tokens_unsectioned rest]

/-- the tokens of branches without their sections are those that mark no section -/
theorem Branches.tokens_unsectioned : ∀ b : Branches, b.unsectioned.tokens = Stencil.unsectioned b.tokens
  | .stop t ht => by
    simp [Branches.unsectioned, Branches.tokens, Stencil.unsectioned, Token.marksSection_of_closes? ht]
  | .elsewhen t ht body more => by
    have hmark : t.marksSection = false := by simp [Token.marksSection_of_kind, ht]
    simp [Branches.unsectioned, Branches.tokens, unsectioned_cons, hmark, Nested.tokens_unsectioned body,
      Branches.tokens_unsectioned more]
  | .otherwise t ht body stop he => by
    have hmark : t.marksSection = false := by simp [Token.marksSection_of_kind, ht]
    have hstop : Stencil.unsectioned [stop] = [stop] := by
      simp [Stencil.unsectioned, Token.marksSection_of_closes? he]
    simp [Branches.unsectioned, Branches.tokens, unsectioned_cons, hmark, Nested.tokens_unsectioned body, hstop]

end

/-! ## Compiling without sections -/

namespace Context

/-- the context without the sections that are open and those that were -/
def unsectioned (c : Context) : Context := ⟨c.stack.filter fun o => o.family != some .capture, [], c.counter⟩

/-- the sections that are open bind no names -/
def SectionsBare (c : Context) : Prop := ∀ o ∈ c.stack, o.family = some .capture → o.names = []

variable {c : Context}

theorem bound_unsectioned (h : c.SectionsBare) : c.unsectioned.bound = c.bound := by
  obtain ⟨stack, sections, counter⟩ := c
  unfold SectionsBare at h
  simp only [bound, unsectioned, ← List.filter_reverse] at h ⊢
  induction stack with
  | nil => rfl
  | cons o stack ih =>
    obtain ⟨ho, hstack⟩ := List.forall_mem_cons.1 h
    simp only [List.reverse_cons, List.filter_append, List.flatMap_append, ih hstack]
    by_cases hf : o.family = some .capture
    · simp [hf, ho hf]
    · simp [hf]

theorem find?_unsectioned {f : Family} (hf : f ≠ .capture) : c.unsectioned.find? f = c.find? f := by
  simp only [find?, unsectioned, List.find?_filter]
  congr 1
  funext o
  by_cases ho : o.family = some f
  · simp [ho, hf]
  · simp [ho]

end Context

namespace Instruction

open Compiler

variable {t : Token} {c c' : Context}

/-- another branch begins without the sections as it does with them -/
theorem branch_unsectioned (h : branch t c = .ok c') : branch t c.unsectioned = .ok c'.unsectioned := by
  unfold branch at h
  split at h
  · rename_i o rest hs
    split at h
    · rename_i hf
      have hfamily : o.family = some .conditional := beq_iff_eq.1 hf
      have hstack : c.unsectioned.stack = o :: rest.filter fun o => o.family != some .capture := by
        simp [Context.unsectioned, hs, hfamily]
      unfold branch
      simp only [hstack, hf, if_true]
      split at h
      · simp at h
      · rename_i hclosed
        rw [if_neg hclosed]
        split at h
        · rename_i hk
          cases h
          simp [hk, Context.unsectioned, hfamily]
        · rename_i hk
          cases h
          simp [hk]
    · simp at h
  · simp at h

/-- the last fragment of a construct that is no section does not depend on what is open -/
theorem last_unsectioned {f : Family} (hf : f ≠ .capture) (t : Token) (c c' : Context) :
    f.closer.last t c = f.closer.last t c' := by
  cases f with
  | capture => exact absurd rfl hf
  | _ => rfl

/-- **What an instruction leaves without the sections**: a mark of a section leaves nothing else, and all others compile
as they do with them. -/
theorem compile_unsectioned {i : Instruction} {f : Fragment} (hi : i.Fits t) (h : i.compile t c = .ok (f, c')) :
    if t.marksSection then c'.unsectioned = c.unsectioned else i.compile t c.unsectioned = .ok (f, c'.unsectioned) := by
  cases i with
  | act a =>
    obtain ⟨rfl, rfl⟩ := compile_act_ok h
    rw [if_neg (by simp [Token.marksSection_single hi.1])]
    simp only [compile, Context.find?_unsectioned (f := .form) (by decide)] at h ⊢
    split at h
    · simp at h
    · rename_i hform
      rw [if_neg hform]
  | opening o =>
    obtain ⟨rfl, rfl⟩ := compile_opening_ok h
    rw [Token.marksSection_opener hi.1]
    cases o with
    | capture name => simp [inside, Context.unsectioned, Opening.family, Opening.temporaries]
    | _ => rfl
  | when cond =>
    cases h
    rw [if_neg (by simp [Token.marksSection_opener (f := .conditional) hi])]
    rfl
  | elsewhen cond =>
    obtain ⟨rfl, hb⟩ := compile_elsewhen_ok h
    rw [if_neg (by simp [Token.marksSection_of_kind, show t.kind = .elsewhen from hi]), compile, branch_unsectioned hb]
    rfl
  | otherwise =>
    obtain ⟨rfl, hb⟩ := compile_otherwise_ok h
    rw [if_neg (by simp [Token.marksSection_of_kind, show t.kind = .otherwise from hi]), compile,
      branch_unsectioned hb]
    rfl
  | closing g =>
    rw [Token.marksSection_of_closes? hi]
    cases hs : c.stack with
    | nil => simp [compile, hs] at h
    | cons o rest =>
      obtain ⟨hg, hlast, rfl⟩ := compile_closing_ok hs h
      by_cases hcapture : g = .capture
      · simp [hcapture, Context.unsectioned, hs, hg]
      · have hstack : c.unsectioned.stack = o :: rest.filter fun o => o.family != some .capture := by
          simp [Context.unsectioned, hs, hg, hcapture]
        rw [if_neg (by simpa using hcapture)]
        simp only [compile, hstack, hg, beq_self_eq_true, if_true, last_unsectioned hcapture t _ c, hlast]
        rfl

/-- sections stay without names of their own -/
theorem sectionsBare_compile {i : Instruction} {f : Fragment} (hc : c.SectionsBare) (h : i.compile t c = .ok (f, c')) :
    c'.SectionsBare := by
  have hbranch : branch t c = .ok c' → c'.SectionsBare := by
    intro hb
    obtain ⟨o, rest, closed, hs, rfl⟩ := branch_ok hb
    unfold Context.SectionsBare at hc ⊢
    rw [hs, List.forall_mem_cons] at hc
    exact List.forall_mem_cons.2 hc
  cases i with
  | act a =>
    obtain ⟨-, rfl⟩ := compile_act_ok h
    exact hc
  | opening o =>
    obtain ⟨-, rfl⟩ := compile_opening_ok h
    refine List.forall_mem_cons.2 ⟨fun ho => ?_, hc⟩
    cases o <;> simp [Opening.family] at ho
    rfl
  | when cond =>
    cases h
    exact List.forall_mem_cons.2 ⟨fun _ => rfl, hc⟩
  | elsewhen cond => exact hbranch (compile_elsewhen_ok h).2
  | otherwise => exact hbranch (compile_otherwise_ok h).2
  | closing g =>
    cases hs : c.stack with
    | nil => simp [compile, hs] at h
    | cons o rest =>
      obtain ⟨-, -, rfl⟩ := compile_closing_ok hs h
      unfold Context.SectionsBare at hc
      rw [hs, List.forall_mem_cons] at hc
      exact hc.2

end Instruction

namespace Compiler

variable {comment : Text} {m : Directive.Mode}

/-- **Tokens that compile** do so without the marks of their sections. -/
theorem tokens_unsectioned {c c' : Context} {ts : List Token} {fs : List Fragment}
    (hclass : ∀ t ∈ ts, t.Classified (.standard comment)) (hc : c.SectionsBare)
    (h : tokens (.standard comment) m c ts = .ok (fs, c')) :
    ∃ fs', tokens (.standard comment) m c.unsectioned (unsectioned ts) = .ok (fs', c'.unsectioned) := by
  induction ts generalizing c fs with
  | nil =>
    cases h
    exact ⟨[], rfl⟩
  | cons t ts ih =>
    obtain ⟨ht, hts⟩ := List.forall_mem_cons.1 hclass
    obtain ⟨i, f, c₁, rest, hread, hfit, hcompile, hrest, rfl⟩ := tokens_cons_ok ht h
    obtain ⟨fs', hfs'⟩ := ih hts (Instruction.sectionsBare_compile hc hcompile) hrest
    have hone := Instruction.compile_unsectioned hfit hcompile
    rw [unsectioned_cons]
    split at hone
    · rename_i hmark
      rw [if_pos hmark, ← hone]
      exact ⟨fs', hfs'⟩
    · rename_i hmark
      rw [if_neg hmark]
      -- the token asks for the same, as the same names are bound around it
      rw [← Context.bound_unsectioned hc] at hread
      have htoken : token (.standard comment) m t c.unsectioned = .ok (f, c₁.unsectioned) := by
        rw [Instruction.token_of_read ht hread, hone]
      exact ⟨f :: fs', by simp only [tokens, htoken, hfs', map_ok]⟩

end Compiler

/-! ## What is asked for without sections -/

section

variable {m : Directive.Mode} {bound : List Text}

/-- derivations one after the other ask for what they ask for, one after the other -/
theorem page_append : ∀ (a : Nested) {b : Nested} {p q : Passage}, a.page m bound = .ok p → b.page m bound = .ok q →
    (a.append b).page m bound = .ok (p.append q)
  | .done, b, p, q, ha, hb => by
    cases ha
    exact hb
  | .single t ht rest, b, p, q, ha, hb => by
    obtain ⟨i, r, hi, hr, rfl⟩ := page_single_ok ha
    simp [Nested.append, Nested.page, hi, page_append rest hr hb, Passage.append]
  | .construct f hf start hs body stop he rest, b, p, q, ha, hb => by
    obtain ⟨o, pb, r, ho, -, hbody, hr, rfl⟩ := page_construct_ok ha
    simp [Nested.append, Nested.page, ho, hbody, page_append rest hr hb, Passage.append]
  | .conditional start hs body more rest, b, p, q, ha, hb => by
    obtain ⟨c, pb, pm, r, hc, hbody, hmore, hr, rfl⟩ := page_conditional_ok ha
    simp [Nested.append, Nested.page, hc, hbody, hmore, page_append rest hr hb, Passage.append]

mutual

/-- **What a derivation asks for without its sections** is what it asks for, without its sections. -/
theorem Nested.page_unsectioned : ∀ (n : Nested) {bound : List Text} {p : Passage}, n.page m bound = .ok p →
    n.unsectioned.page m bound = .ok p.unsectioned
  | .done, bound, p, h => by
    cases h
    rfl
  | .single t ht rest, bound, p, h => by
    obtain ⟨a, r, ha, hr, rfl⟩ := page_single_ok h
    simp [Nested.unsectioned, Nested.page, ha, Nested.page_unsectioned rest hr, Passage.unsectioned]
  | .construct f hf start hs body stop he rest, bound, p, h => by
    obtain ⟨o, b, r, ho, rfl, hb, hr, rfl⟩ := page_construct_ok h
    have hbody := Nested.page_unsectioned body hb
    have hrest := Nested.page_unsectioned rest hr
    by_cases hcapture : o.family = .capture
    · have hbinds : o.binds = [] := by
        cases o <;> simp [Opening.family] at hcapture
        rfl
      rw [hbinds, List.append_nil] at hbody
      simp only [Nested.unsectioned, Passage.unsectioned, hcapture, if_true]
      exact page_append _ hbody hrest
    · simp [Nested.unsectioned, Passage.unsectioned, hcapture, Nested.page, ho, hbody, hrest]
  | .conditional start hs body more rest, bound, p, h => by
    obtain ⟨c, b, ms, r, hc, hb, hms, hr, rfl⟩ := page_conditional_ok h
    simp [Nested.unsectioned, Nested.page, hc, Nested.page_unsectioned body hb,
      Branches.page_unsectioned more hms, Nested.page_unsectioned rest hr, Passage.unsectioned]

/-- what branches ask for without their sections -/
theorem Branches.page_unsectioned : ∀ (b : Branches) {bound : List Text} {p : Choices}, b.page m bound = .ok p →
    b.unsectioned.page m bound = .ok p.unsectioned
  | .stop t ht, bound, p, h => by
    cases h
    rfl
  | .elsewhen t ht body more, bound, p, h => by
    obtain ⟨c, b, ms, hc, hb, hms, rfl⟩ := page_elsewhen_ok h
    simp [Branches.unsectioned, Branches.page, hc, Nested.page_unsectioned body hb,
      Branches.page_unsectioned more hms, Choices.unsectioned]
  | .otherwise t ht body stop he, bound, p, h => by
    obtain ⟨b, hb, rfl⟩ := page_otherwise_ok h
    simp [Branches.unsectioned, Branches.page, read_of_page_otherwise h, Nested.page_unsectioned body hb, Choices.unsectioned]

end

end

/-! ## Measures without sections -/

section

variable {measure : Family → Nat}

theorem depth_append : ∀ a b : Nested, (a.append b).depth measure = max (a.depth measure) (b.depth measure)
  | .done, b => by simp [Nested.append, Nested.depth]
  | .single t ht rest, b => by simp [Nested.append, Nested.depth, depth_append rest b]
  | .construct f hf start hs body stop he rest, b => by
    simp [Nested.append, Nested.depth, depth_append rest b, Nat.max_assoc]
  | .conditional start hs body more rest, b => by
    simp [Nested.append, Nested.depth, depth_append rest b, Nat.max_assoc]

mutual

/-- constructs stand as deep in one another without the sections, if those do not count -/
theorem Nested.depth_unsectioned (h : measure .capture = 0) : ∀ n : Nested,
    n.unsectioned.depth measure = n.depth measure
  | .done => rfl
  | .single t ht rest => by simp [Nested.unsectioned, Nested.depth, Nested.depth_unsectioned h rest]
  | .construct f hf start hs body stop he rest => by
    have hbody := Nested.depth_unsectioned h body
    have hrest := Nested.depth_unsectioned h rest
    by_cases hcapture : f = .capture
    · simp [Nested.unsectioned, hcapture, depth_append, Nested.depth, hbody, hrest, h]
    · simp [Nested.unsectioned, hcapture, Nested.depth, hbody, hrest]
  | .conditional start hs body more rest => by
    simp [Nested.unsectioned, Nested.depth, Nested.depth_unsectioned h body, Branches.depth_unsectioned h more,
      Nested.depth_unsectioned h rest]

/-- branches are as deep without the sections -/
theorem Branches.depth_unsectioned (h : measure .capture = 0) : ∀ b : Branches,
    b.unsectioned.depth measure = b.depth measure
  | .stop _ _ => rfl
  | .elsewhen t ht body more => by
    simp [Branches.unsectioned, Branches.depth, Nested.depth_unsectioned h body, Branches.depth_unsectioned h more]
  | .otherwise t ht body stop he => by
    simp [Branches.unsectioned, Branches.depth, Nested.depth_unsectioned h body]

end

end

/-! ## Templates without sections -/

namespace Compiler

/-- a null character in the code of some of the tokens is in the code of all -/
theorem null_of_subset {k : Compiler} {ts us : List Token} {fs gs : List Fragment} (hlength : fs.length = ts.length)
    (hsub : us ⊆ ts) (h : '\x00' ∈ (k.template us gs).code) : '\x00' ∈ (k.template ts fs).code := by
  simp only [template, mem_programCode (c := '\x00') (by decide) (by decide)] at h ⊢
  rcases h with hhead | ⟨p, hp, htold | ⟨l, -, hmem⟩⟩
  · exact .inl hhead
  · obtain ⟨i, hi, hget⟩ := List.getElem_of_mem (hsub (List.of_mem_zip hp).1)
    have hi' : i < fs.length := hlength ▸ hi
    have hpair : (p.1, fs[i]) ∈ ts.zip fs := by
      have hzip : i < (ts.zip fs).length := by simp [hi, hi']
      have hat : (ts.zip fs)[i] = (p.1, fs[i]) := by simp [hget]
      exact hat ▸ List.getElem_mem hzip
    exact .inr ⟨_, hpair, .inl htold⟩
  · exact absurd hmem (not_mem_code (by decide) l.stmt)

variable {k : Compiler} {n : Nested} {p : Passage}

/-- the directives of a template compile without its sections, to the passage without its sections -/
theorem fragments_unsectioned {comment : Text} (hk : k.registry = .standard comment)
    (hclass : ∀ t ∈ n.tokens, t.Classified (.standard comment)) (hp : n.page k.mode [] = .ok p) {fs : List Fragment}
    {c : Context} (h : tokens k.registry k.mode .start n.tokens = .ok (fs, c)) (hclosed : c.stack = []) :
    k.fragments (unsectioned n.tokens) = .ok (p.unsectioned.fragments 0) := by
  have hclass' : ∀ t ∈ n.unsectioned.tokens, t.Classified (.standard comment) := fun t ht =>
    hclass t (List.mem_of_mem_filter (n.tokens_unsectioned ▸ ht))
  have hstart : Context.start.SectionsBare := fun o ho => absurd ho List.not_mem_nil
  rw [hk] at h
  obtain ⟨gs, hgs⟩ := tokens_unsectioned hclass hstart h
  rw [← n.tokens_unsectioned] at hgs ⊢
  obtain ⟨q, hq, rfl, -, -⟩ := page_of_tokens n.unsectioned hclass' hgs
  cases hq.symm.trans (n.page_unsectioned hp)
  change tokens (.standard comment) k.mode .start _ = .ok (p.unsectioned.fragments 0, _) at hgs
  have hempty : c.unsectioned.stack = [] := by rw [Context.unsectioned, hclosed, List.filter_nil]
  simp only [fragments, hk, hgs, checkClosed, hempty, ok_bind, pure_eq_ok]

/-- code that can be loaded can be loaded without the sections -/
theorem checkCode_unsectioned (hp : n.page k.mode [] = .ok p) (hlength : (p.fragments 0).length = n.tokens.length)
    (h : checkCode (k.template n.tokens (p.fragments 0)) = .ok ()) :
    checkCode (k.template (unsectioned n.tokens) (p.unsectioned.fragments 0)) = .ok () := by
  have hpage := n.page_unsectioned hp
  have hheight : (p.unsectioned.block 0).height = (p.block 0).height := by
    rw [measures_height.page _ hpage, measures_height.page _ hp, Nested.depth_unsectioned rfl]
  have hloops : (p.unsectioned.block 0).loopDepth = (p.block 0).loopDepth := by
    rw [measures_loopDepth.page _ hpage, measures_loopDepth.page _ hp, Nested.depth_unsectioned rfl]
  have hsub : unsectioned n.tokens ⊆ n.tokens := fun _ => List.mem_of_mem_filter
  rw [checkCode_page] at h ⊢
  rw [hheight, hloops]
  split at h
  · simp at h
  · rename_i hnull
    have hnull' : ¬(k.template (unsectioned n.tokens) (p.unsectioned.fragments 0)).code.contains '\x00' = true :=
      fun hmem => hnull (List.contains_iff_mem.2 (null_of_subset hlength hsub (List.contains_iff_mem.1 hmem)))
    rw [if_neg hnull']
    exact h

/-- **A template without its sections** compiles to its passage without its sections, and its code can be loaded. -/
theorem compile_unsectioned {s : Settings} {strict : Option Bool} {names : List Text} {source : Text} {t : Template}
    (h : (standard s strict names).compile source = .ok t) (hn : n.tokens = t.tokens)
    (hp : n.page (standard s strict names).mode [] = .ok p) :
    (standard s strict names).fragments (unsectioned t.tokens) = .ok (p.unsectioned.fragments 0) ∧
      checkCode ((standard s strict names).template (unsectioned t.tokens) (p.unsectioned.fragments 0)) = .ok () := by
  obtain ⟨ts, fs, c, hscan, htokens, hclosed, rfl, hcheck⟩ := compile_ok h
  obtain rfl : n.tokens = ts := hn
  have hclass : ∀ t ∈ n.tokens, t.Classified (.standard s.comment) := classified_of_scan hscan
  obtain ⟨q, hq, hfs, -, -⟩ := page_of_tokens n hclass htokens
  cases hq.symm.trans hp
  obtain rfl : fs = p.fragments 0 := hfs
  exact ⟨fragments_unsectioned rfl hclass hp htokens hclosed,
    checkCode_unsectioned hp (length_tokens htokens) hcheck⟩

end Compiler

end Stencil
