/-
PASSAGES: templates as nested structures. A passage is what a derivation asks for, token by token; its fragments are
what compiling it adds to the program, and its block is the same program with nested bodies.

- `page_of_tokens`: a derivation that compiles asks for a passage, and its fragments are the passage's.
- `page_of_fragments`: the fragments of tokens that compile are those of a passage.
- `readBlocks_passage`: the lines of the passage's fragments, each at its depth, are read as the passage's block.
- `program_of_compile`: the program of a compiled template is the block of the passage that its derivation asks for.
-/
import Stencil.Proofs.Acceptance

namespace Stencil

/-! ## Passages -/

mutual

/-- acts, constructs and conditionals one after the other -/
inductive Passage where
  | done
  | act (a : Act) (rest : Passage)
  | construct (o : Opening) (body rest : Passage)
  | choice (c : Condition) (body : Passage) (more : Choices) (rest : Passage)

/-- the branches of a conditional after its first -/
inductive Choices where
  | none
  | elsewhen (c : Condition) (body : Passage) (more : Choices)
  | otherwise (body : Passage)

end

mutual

/-- what a derivation asks for, given the names that are bound around it -/
def Nested.page (m : Directive.Mode) (bound : List Text) : Nested → Except Refusal Passage
  | .done => .ok .done
  | .single t _ rest => do
    match ← Instruction.read m bound t with
    | .act a =>
      let r ← rest.page m bound
      return .act a r
    | _ => Directive.malformed t
  | .construct _ _ start _ body _ _ rest => do
    match ← Instruction.read m bound start with
    | .opening o =>
      let b ← body.page m (bound ++ o.binds)
      let r ← rest.page m bound
      return .construct o b r
    | _ => Directive.malformed start
  | .conditional start _ body more rest => do
    match ← Instruction.read m bound start with
    | .when c =>
      let b ← body.page m bound
      let more ← more.page m bound
      let r ← rest.page m bound
      return .choice c b more r
    | _ => Directive.malformed start

/-- what branches ask for -/
def Branches.page (m : Directive.Mode) (bound : List Text) : Branches → Except Refusal Choices
  | .stop _ _ => .ok .none
  | .elsewhen t _ body more => do
    match ← Instruction.read m bound t with
    | .elsewhen c =>
      let b ← body.page m bound
      let more ← more.page m bound
      return .elsewhen c b more
    | _ => Directive.malformed t
  | .otherwise t _ body _ _ => do
    match ← Instruction.read m bound t with
    | .otherwise =>
      let b ← body.page m bound
      return .otherwise b
    | _ => Directive.malformed t

end

mutual

/-- how many temporaries a passage takes -/
def Passage.temporaries : Passage → Nat
  | .done => 0
  | .act _ rest => rest.temporaries
  | .construct o body rest => o.temporaries + body.temporaries + rest.temporaries
  | .choice _ body more rest => body.temporaries + more.temporaries + rest.temporaries

/-- how many temporaries branches take -/
def Choices.temporaries : Choices → Nat
  | .none => 0
  | .elsewhen _ body more => body.temporaries + more.temporaries
  | .otherwise body => body.temporaries

end

/-! ## Fragments of passages -/

/-- the fragment of the first branch -/
def whenFragment (c : Condition) : Fragment := ⟨[⟨0, .when c⟩, ⟨1, .pass⟩], 1⟩

/-- the fragment of another branch -/
def elsewhenFragment (c : Condition) : Fragment := ⟨[⟨-1, .elsewhen c⟩, ⟨0, .pass⟩], 0⟩

/-- the fragment of the last branch -/
def otherwiseFragment : Fragment := ⟨[⟨-1, .otherwise⟩, ⟨0, .pass⟩], 0⟩

/-- the fragment of the end of a conditional -/
def endFragment : Fragment := ⟨[], -1⟩

mutual

/-- the fragments of a passage, with temporaries numbered after `n` -/
def Passage.fragments (n : Nat) : Passage → List Fragment
  | .done => []
  | .act a rest => a.fragment :: rest.fragments n
  | .construct o body rest =>
    o.first n :: (body.fragments (n + o.temporaries) ++
      o.last :: rest.fragments (n + o.temporaries + body.temporaries))
  | .choice c body more rest =>
    whenFragment c :: (body.fragments n ++ (more.fragments (n + body.temporaries) ++
      rest.fragments (n + body.temporaries + more.temporaries)))

/-- the fragments of branches -/
def Choices.fragments (n : Nat) : Choices → List Fragment
  | .none => [endFragment]
  | .elsewhen c body more =>
    elsewhenFragment c :: (body.fragments n ++ more.fragments (n + body.temporaries))
  | .otherwise body => otherwiseFragment :: (body.fragments n ++ [endFragment])

end

namespace Compiler

variable {comment : Text} {m : Directive.Mode}

theorem tokens_append (r : Registry) (c : Context) (a b : List Token) :
    tokens r m c (a ++ b) = (tokens r m c a >>= fun p => (tokens r m p.2 b).map fun q => (p.1 ++ q.1, q.2)) := by
  induction a generalizing c with
  | nil =>
    cases h : tokens r m c b <;> simp [tokens, h]
  | cons t a ih =>
    simp only [List.cons_append, tokens]
    cases token r m t c with
    | error e => rfl
    | ok p =>
      simp only [ih]
      cases tokens r m p.2 a with
      | error e => rfl
      | ok q => cases h : tokens r m q.2 b <;> simp [h]

/-- tokens that compile, divided at some place -/
theorem tokens_append_ok {r : Registry} {c c' : Context} {a b : List Token} {fs : List Fragment}
    (h : tokens r m c (a ++ b) = .ok (fs, c')) :
    ∃ fa ca fb, tokens r m c a = .ok (fa, ca) ∧ tokens r m ca b = .ok (fb, c') ∧ fs = fa ++ fb := by
  rw [tokens_append, bind_eq_ok] at h
  obtain ⟨⟨fa, ca⟩, ha, h⟩ := h
  rw [map_eq_ok] at h
  obtain ⟨⟨fb, cb⟩, hb, h⟩ := h
  cases h
  exact ⟨fa, ca, fb, ha, hb, rfl⟩

/-- every token has a fragment -/
theorem length_tokens {r : Registry} {c c' : Context} {ts : List Token} {fs : List Fragment}
    (h : tokens r m c ts = .ok (fs, c')) : fs.length = ts.length := by
  induction ts generalizing c fs with
  | nil =>
    cases h
    rfl
  | cons t ts ih =>
    rw [tokens] at h
    split at h
    · simp at h
    · rw [map_eq_ok] at h
      obtain ⟨⟨fs', c₁⟩, hrest, h⟩ := h
      cases h
      simp [ih hrest]

theorem length_fragments {k : Compiler} {ts : List Token} {fs : List Fragment} (h : k.fragments ts = .ok fs) :
    fs.length = ts.length := by
  simp only [fragments, bind_eq_ok, Prod.exists] at h
  obtain ⟨fs', c, htokens, u, -, hfs⟩ := h
  cases hfs
  exact length_tokens htokens

/-- **A token that compiles** has been read, and its fragment is that of what it asks for. -/
theorem tokens_cons_ok {c c' : Context} {t : Token} {ts : List Token} {fs : List Fragment}
    (hclass : t.Classified (.standard comment)) (h : tokens (.standard comment) m c (t :: ts) = .ok (fs, c')) :
    ∃ i f c₁ rest, Instruction.read m c.bound t = .ok i ∧ i.Fits t ∧ i.compile t c = .ok (f, c₁) ∧
      tokens (.standard comment) m c₁ ts = .ok (rest, c') ∧ fs = f :: rest := by
  rw [tokens] at h
  split at h
  · simp at h
  · rename_i f c₁ htok
    rw [map_eq_ok] at h
    obtain ⟨⟨rest, c₂⟩, hrest, h⟩ := h
    cases h
    obtain ⟨i, hi⟩ := Instruction.read_of_token hclass htok
    exact ⟨i, f, c₁, rest, hi, Instruction.fits_of_read hi, by rw [← Instruction.token_of_read hclass hi, htok], hrest,
      rfl⟩

end Compiler

namespace Instruction

variable {t : Token} {i : Instruction}

theorem act_of_fits (hi : i.Fits t) (ht : t.kind.isSingle = true) : ∃ a, i = .act a := by
  cases i with
  | act a => exact ⟨a, rfl⟩
  | opening o => cases o <;> simp [hi.1, Opening.family, Family.opener, TokenKind.isSingle] at ht
  | closing f => simp [Token.kind_of_closes? hi, TokenKind.isSingle] at ht
  | _ => simp [show t.kind = _ from hi, TokenKind.isSingle] at ht

theorem opening_of_fits (hi : i.Fits t) {f : Family} (hf : f ≠ .conditional) (ht : t.kind = f.opener) :
    ∃ o, i = .opening o ∧ o.family = f := by
  cases i with
  | act a => cases f <;> simp [Fits, ht, Family.opener, TokenKind.isSingle] at hi
  | opening o =>
    refine ⟨o, rfl, ?_⟩
    have hopener : o.family.opener = f.opener := hi.1.symm.trans ht
    cases o <;> cases f <;> simp [Opening.family, Family.opener] at hopener <;> rfl
  | closing g => cases f <;> simp [Token.kind_of_closes? hi, Family.opener] at ht
  | _ => cases f <;> simp [show t.kind = _ from hi, Family.opener] at ht hf

theorem when_of_fits (hi : i.Fits t) (ht : t.kind = .when) : ∃ c, i = .when c := by
  cases i with
  | act a => simp [Fits, ht, TokenKind.isSingle] at hi
  | opening o => cases o <;> simp [Fits, ht, Opening.family, Family.opener] at hi
  | when c => exact ⟨c, rfl⟩
  | closing f => simp [Token.kind_of_closes? hi] at ht
  | _ => simp [Fits, ht] at hi

theorem elsewhen_of_fits (hi : i.Fits t) (ht : t.kind = .elsewhen) : ∃ c, i = .elsewhen c := by
  cases i with
  | act a => simp [Fits, ht, TokenKind.isSingle] at hi
  | opening o => cases o <;> simp [Fits, ht, Opening.family, Family.opener] at hi
  | elsewhen c => exact ⟨c, rfl⟩
  | closing f => simp [Token.kind_of_closes? hi] at ht
  | _ => simp [Fits, ht] at hi

theorem otherwise_of_fits (hi : i.Fits t) (ht : t.kind = .otherwise) : i = .otherwise := by
  cases i with
  | act a => simp [Fits, ht, TokenKind.isSingle] at hi
  | opening o => cases o <;> simp [Fits, ht, Opening.family, Family.opener] at hi
  | otherwise => rfl
  | closing f => simp [Token.kind_of_closes? hi] at ht
  | _ => simp [Fits, ht] at hi

theorem closing_of_fits (hi : i.Fits t) {f : Family} (ht : t.closes? = some f) : i = .closing f := by
  have hk := Token.kind_of_closes? ht
  cases i with
  | act a => simp [Fits, hk, TokenKind.isSingle] at hi
  | opening o => cases o <;> simp [Fits, hk, Opening.family, Family.opener] at hi
  | closing g =>
    have : some g = some f := hi.symm.trans ht
    rw [Option.some.inj this]
  | _ => simp [Fits, hk] at hi

variable {c c' : Context} {f : Fragment}

theorem compile_act_ok {a : Act} (h : (act a).compile t c = .ok (f, c')) : f = a.fragment ∧ c' = c := by
  rw [compile] at h
  split at h
  · simp at h
  · cases h
    exact ⟨rfl, rfl⟩

theorem compile_opening_ok {o : Opening} (h : (opening o).compile t c = .ok (f, c')) :
    f = o.first c.counter ∧ c' = inside t c o := by
  rw [compile] at h
  split at h
  · simp at h
  · cases h
    exact ⟨rfl, rfl⟩

/-- a branch changes nothing of the open constructs but that the innermost may be in its last branch -/
theorem branch_ok (h : Compiler.branch t c = .ok c') :
    ∃ o rest closed, c.stack = o :: rest ∧ c' = { c with stack := { o with closedBranches := closed } :: rest } := by
  unfold Compiler.branch at h
  split at h
  · rename_i o rest hs
    refine ⟨o, rest, ?_⟩
    split at h
    · split at h
      · simp at h
      · split at h
        · cases h
          exact ⟨true, hs, rfl⟩
        · cases h
          exact ⟨o.closedBranches, hs, by rw [← hs]⟩
    · simp at h
  · simp at h

theorem compile_elsewhen_ok {cond : Condition} (h : (elsewhen cond).compile t c = .ok (f, c')) :
    f = elsewhenFragment cond ∧ Compiler.branch t c = .ok c' := by
  rw [compile, map_eq_ok] at h
  obtain ⟨c₁, hb, h⟩ := h
  cases h
  exact ⟨rfl, hb⟩

theorem compile_otherwise_ok (h : otherwise.compile t c = .ok (f, c')) :
    f = otherwiseFragment ∧ Compiler.branch t c = .ok c' := by
  rw [compile, map_eq_ok] at h
  obtain ⟨c₁, hb, h⟩ := h
  cases h
  exact ⟨rfl, hb⟩

theorem compile_closing_ok {g : Family} {o : OpenConstruct} {rest : List OpenConstruct} (hs : c.stack = o :: rest)
    (h : (closing g).compile t c = .ok (f, c')) :
    o.family = some g ∧ g.closer.last t c = .ok f ∧ c' = { c with stack := rest } := by
  simp only [compile, hs] at h
  split at h
  · rename_i hg
    rw [map_eq_ok] at h
    obtain ⟨f', hf, h⟩ := h
    cases h
    exact ⟨beq_iff_eq.1 hg, hf, rfl⟩
  · simp at h

end Instruction

/-- the end of a construct compiles to its last fragment -/
theorem last_of_closer {o : Opening} {t stop : Token} {c : Context} {names : List Text} {closed : Bool}
    {rest : List OpenConstruct} {f : Fragment} (hs : c.stack = ⟨some o.family, t, names, closed⟩ :: rest)
    (ht : t.kind = o.family.opener) (hname : t.sectionName? = o.section?)
    (h : o.family.closer.last stop c = .ok f) : f = o.last := by
  cases o with
  | capture name =>
    have hraw : Directive.capture? t.raw = some name := by
      simpa [Token.sectionName?, ht, Opening.family, Opening.section?, Family.opener] using hname
    have hfind : c.find? .capture = some ⟨some .capture, t, names, closed⟩ := by
      simp [Context.find?, hs, Opening.family]
    simp only [Opening.family, Family.closer, Reader.last, Directive.endCapture, hfind, Directive.require, hraw] at h
    cases h
    rfl
  | _ =>
    cases h
    rfl

namespace Compiler

variable {comment : Text} {m : Directive.Mode}

mutual

/-- **A derivation that compiles asks for a passage**, whose fragments are what compiling it gives. -/
theorem page_of_tokens : ∀ (n : Nested) {c c' : Context} {fs : List Fragment},
    (∀ t ∈ n.tokens, t.Classified (.standard comment)) → tokens (.standard comment) m c n.tokens = .ok (fs, c') →
    ∃ p, n.page m c.bound = .ok p ∧ fs = p.fragments c.counter ∧ c'.stack = c.stack ∧
      c'.counter = c.counter + p.temporaries
  | .done, c, c', fs, _, h => by
    cases h
    exact ⟨.done, rfl, rfl, rfl, rfl⟩
  | .single t ht rest, c, c', fs, hclass, h => by
    simp only [Nested.tokens, List.forall_mem_cons] at hclass
    obtain ⟨i, f, c₁, fr, hi, hfit, hcomp, hrest, rfl⟩ := tokens_cons_ok hclass.1 h
    obtain ⟨a, rfl⟩ := Instruction.act_of_fits hfit ht
    obtain ⟨rfl, rfl⟩ := Instruction.compile_act_ok hcomp
    obtain ⟨r, hr, rfl, hstack, hcount⟩ := page_of_tokens rest hclass.2 hrest
    exact ⟨.act a r, by simp [Nested.page, hi, hr], rfl, hstack, hcount⟩
  | .construct g hg start hs body stop he rest, c, c', fs, hclass, h => by
    simp only [Nested.tokens, List.forall_mem_cons, List.forall_mem_append] at hclass
    obtain ⟨hstart, hbodyc, hstop, hrestc⟩ := hclass
    obtain ⟨i, f, c₁, fr, hi, hfit, hcomp, hrest₁, rfl⟩ := tokens_cons_ok hstart h
    obtain ⟨o, rfl, rfl⟩ := Instruction.opening_of_fits hfit hg hs
    obtain ⟨rfl, rfl⟩ := Instruction.compile_opening_ok hcomp
    obtain ⟨fb, c₂, fr, hbody, hrest₂, rfl⟩ := tokens_append_ok hrest₁
    obtain ⟨b, hb, rfl, hstack₂, hcount₂⟩ := page_of_tokens body hbodyc hbody
    obtain ⟨j, f, c₃, fr, -, hfit', hcomp, hrest₃, rfl⟩ := tokens_cons_ok hstop hrest₂
    cases Instruction.closing_of_fits hfit' he
    obtain ⟨-, hlast, rfl⟩ := Instruction.compile_closing_ok hstack₂ hcomp
    cases last_of_closer hstack₂ hs hfit.2 hlast
    obtain ⟨r, hr, rfl, hstack, hcount⟩ := page_of_tokens rest hrestc hrest₃
    have hbound : Context.bound ⟨c.stack, c₂.sections, c₂.counter⟩ = c.bound := rfl
    have hbound' : (Instruction.inside start c o).bound = c.bound ++ o.binds := by
      simp [Instruction.inside, Context.bound]
    rw [hbound] at hr
    rw [hbound'] at hb
    refine ⟨.construct o b r, by simp [Nested.page, hi, hb, hr], ?_, hstack, ?_⟩
    · simp only [Passage.fragments, hcount₂, Instruction.inside]
    · simp only [Passage.temporaries, hcount, hcount₂, Instruction.inside]
      omega
  | .conditional start hs body more rest, c, c', fs, hclass, h => by
    simp only [Nested.tokens, List.forall_mem_cons, List.forall_mem_append] at hclass
    obtain ⟨hstart, hbodyc, hmorec, hrestc⟩ := hclass
    obtain ⟨i, f, c₁, fr, hi, hfit, hcomp, hrest₁, rfl⟩ := tokens_cons_ok hstart h
    obtain ⟨cond, rfl⟩ := Instruction.when_of_fits hfit hs
    cases hcomp
    obtain ⟨fb, c₂, fr, hbody, hrest₂, rfl⟩ := tokens_append_ok hrest₁
    obtain ⟨b, hb, rfl, hstack₂, hcount₂⟩ := page_of_tokens body hbodyc hbody
    obtain ⟨fm, c₃, fr, hmore, hrest₃, rfl⟩ := tokens_append_ok hrest₂
    obtain ⟨ms, hms, rfl, hstack₃, hcount₃⟩ := page_of_branches more hmorec hstack₂ hmore
    obtain ⟨r, hr, rfl, hstack, hcount⟩ := page_of_tokens rest hrestc hrest₃
    have hbound : (c.push ⟨some .conditional, start, [], false⟩).bound = c.bound := by
      simp [Context.push, Context.bound]
    have hbound₂ : c₂.bound = c.bound := by rw [← hbound, Context.bound, hstack₂, Context.bound]
    have hbound₃ : c₃.bound = c.bound := by rw [Context.bound, hstack₃, Context.bound]
    rw [hbound] at hb
    rw [hbound₂] at hms
    rw [hbound₃] at hr
    refine ⟨.choice cond b ms r, by simp [Nested.page, hi, hb, hms, hr], ?_, hstack.trans hstack₃, ?_⟩
    · simp only [Passage.fragments, hcount₂, hcount₃, Context.push]
      rfl
    · simp only [Passage.temporaries, hcount, hcount₂, hcount₃, Context.push]
      omega

/-- branches that compile ask for choices, whose fragments are what compiling them gives -/
theorem page_of_branches : ∀ (b : Branches) {o : OpenConstruct} {rest : List OpenConstruct} {c c' : Context}
    {fs : List Fragment}, (∀ t ∈ b.tokens, t.Classified (.standard comment)) → c.stack = o :: rest →
    tokens (.standard comment) m c b.tokens = .ok (fs, c') →
    ∃ more, b.page m c.bound = .ok more ∧ fs = more.fragments c.counter ∧ c'.stack = rest ∧
      c'.counter = c.counter + more.temporaries
  | .stop e he, o, rest, c, c', fs, hclass, hs, h => by
    simp only [Branches.tokens, List.forall_mem_cons] at hclass
    obtain ⟨i, f, c₁, fr, -, hfit, hcomp, hrest, rfl⟩ := tokens_cons_ok hclass.1 h
    cases Instruction.closing_of_fits hfit he
    obtain ⟨-, hlast, rfl⟩ := Instruction.compile_closing_ok hs hcomp
    cases hlast
    cases hrest
    exact ⟨.none, rfl, rfl, rfl, rfl⟩
  | .elsewhen e he body more, o, rest, c, c', fs, hclass, hs, h => by
    simp only [Branches.tokens, List.forall_mem_cons, List.forall_mem_append] at hclass
    obtain ⟨hec, hbodyc, hmorec⟩ := hclass
    obtain ⟨i, f, c₁, fr, hi, hfit, hcomp, hrest₁, rfl⟩ := tokens_cons_ok hec h
    obtain ⟨cond, rfl⟩ := Instruction.elsewhen_of_fits hfit he
    obtain ⟨rfl, hbranch⟩ := Instruction.compile_elsewhen_ok hcomp
    have hbound₁ : c₁.bound = c.bound := Instruction.bound_branch hbranch
    obtain ⟨o', rest', closed, hs', rfl⟩ := Instruction.branch_ok hbranch
    obtain ⟨rfl, rfl⟩ := List.cons.inj (hs'.symm.trans hs)
    obtain ⟨fb, c₂, fr, hbody, hrest₂, rfl⟩ := tokens_append_ok hrest₁
    obtain ⟨b, hb, rfl, hstack₂, hcount₂⟩ := page_of_tokens body hbodyc hbody
    obtain ⟨ms, hms, rfl, hstack, hcount⟩ := page_of_branches more hmorec hstack₂ hrest₂
    have hbound₂ : c₂.bound = c.bound := by rw [← hbound₁, Context.bound, hstack₂, Context.bound]
    rw [hbound₁] at hb
    rw [hbound₂] at hms
    refine ⟨.elsewhen cond b ms, by simp [Branches.page, hi, hb, hms], ?_, hstack, ?_⟩
    · simp only [Choices.fragments, hcount₂]
    · simp only [Choices.temporaries, hcount, hcount₂]
      omega
  | .otherwise e he body stop hstop, o, rest, c, c', fs, hclass, hs, h => by
    simp only [Branches.tokens, List.forall_mem_cons, List.forall_mem_append] at hclass
    obtain ⟨hec, hbodyc, hstopc, -⟩ := hclass
    obtain ⟨i, f, c₁, fr, hi, hfit, hcomp, hrest₁, rfl⟩ := tokens_cons_ok hec h
    cases Instruction.otherwise_of_fits hfit he
    obtain ⟨rfl, hbranch⟩ := Instruction.compile_otherwise_ok hcomp
    have hbound₁ : c₁.bound = c.bound := Instruction.bound_branch hbranch
    obtain ⟨o', rest', closed, hs', rfl⟩ := Instruction.branch_ok hbranch
    obtain ⟨rfl, rfl⟩ := List.cons.inj (hs'.symm.trans hs)
    obtain ⟨fb, c₂, fr, hbody, hrest₂, rfl⟩ := tokens_append_ok hrest₁
    obtain ⟨b, hb, rfl, hstack₂, hcount₂⟩ := page_of_tokens body hbodyc hbody
    obtain ⟨j, f, c₃, fr, -, hfit', hcomp, hrest₃, rfl⟩ := tokens_cons_ok hstopc hrest₂
    cases Instruction.closing_of_fits hfit' hstop
    obtain ⟨-, hlast, rfl⟩ := Instruction.compile_closing_ok hstack₂ hcomp
    cases hlast
    cases hrest₃
    rw [hbound₁] at hb
    refine ⟨.otherwise b, by simp [Branches.page, hi, hb], rfl, rfl, ?_⟩
    simp only [Choices.temporaries, hcount₂]

end

end Compiler

section

variable {m : Directive.Mode} {bound : List Text}

/-- what a derivation asks for, by its parts -/
theorem page_single_ok {t : Token} {ht : t.kind.isSingle = true} {rest : Nested} {p : Passage}
    (h : (Nested.single t ht rest).page m bound = .ok p) :
    ∃ a r, Instruction.read m bound t = .ok (.act a) ∧ rest.page m bound = .ok r ∧ p = .act a r := by
  rw [Nested.page, bind_eq_ok] at h
  obtain ⟨i, hi, h⟩ := h
  obtain ⟨a, rfl⟩ := Instruction.act_of_fits (Instruction.fits_of_read hi) ht
  rw [bind_eq_ok] at h
  obtain ⟨r, hr, h⟩ := h
  cases h
  exact ⟨a, r, hi, hr, rfl⟩

theorem page_construct_ok {f : Family} {hf : f ≠ .conditional} {start : Token} {hs : start.kind = f.opener}
    {body : Nested} {stop : Token} {he : stop.closes? = some f} {rest : Nested} {p : Passage}
    (h : (Nested.construct f hf start hs body stop he rest).page m bound = .ok p) :
    ∃ o b r, Instruction.read m bound start = .ok (.opening o) ∧ o.family = f ∧
      body.page m (bound ++ o.binds) = .ok b ∧ rest.page m bound = .ok r ∧ p = .construct o b r := by
  rw [Nested.page, bind_eq_ok] at h
  obtain ⟨i, hi, h⟩ := h
  obtain ⟨o, rfl, ho⟩ := Instruction.opening_of_fits (Instruction.fits_of_read hi) hf hs
  simp only [bind_eq_ok] at h
  obtain ⟨b, hb, r, hr, h⟩ := h
  cases h
  exact ⟨o, b, r, hi, ho, hb, hr, rfl⟩

theorem page_conditional_ok {start : Token} {hs : start.kind = .when} {body : Nested} {more : Branches} {rest : Nested}
    {p : Passage} (h : (Nested.conditional start hs body more rest).page m bound = .ok p) :
    ∃ c b ms r, Instruction.read m bound start = .ok (.when c) ∧ body.page m bound = .ok b ∧
      more.page m bound = .ok ms ∧ rest.page m bound = .ok r ∧ p = .choice c b ms r := by
  rw [Nested.page, bind_eq_ok] at h
  obtain ⟨i, hi, h⟩ := h
  obtain ⟨c, rfl⟩ := Instruction.when_of_fits (Instruction.fits_of_read hi) hs
  simp only [bind_eq_ok] at h
  obtain ⟨b, hb, ms, hms, r, hr, h⟩ := h
  cases h
  exact ⟨c, b, ms, r, hi, hb, hms, hr, rfl⟩

theorem page_elsewhen_ok {t : Token} {ht : t.kind = .elsewhen} {body : Nested} {more : Branches} {p : Choices}
    (h : (Branches.elsewhen t ht body more).page m bound = .ok p) :
    ∃ c b ms, Instruction.read m bound t = .ok (.elsewhen c) ∧ body.page m bound = .ok b ∧
      more.page m bound = .ok ms ∧ p = .elsewhen c b ms := by
  rw [Branches.page, bind_eq_ok] at h
  obtain ⟨i, hi, h⟩ := h
  obtain ⟨c, rfl⟩ := Instruction.elsewhen_of_fits (Instruction.fits_of_read hi) ht
  simp only [bind_eq_ok] at h
  obtain ⟨b, hb, ms, hms, h⟩ := h
  cases h
  exact ⟨c, b, ms, hi, hb, hms, rfl⟩

theorem read_of_page_otherwise {t : Token} {ht : t.kind = .otherwise}
    {body : Nested} {stop : Token} {he : stop.closes? = some .conditional} {p : Choices}
    (h : (Branches.otherwise t ht body stop he).page m bound = .ok p) :
    Instruction.read m bound t = .ok .otherwise := by
  rw [Branches.page, bind_eq_ok] at h
  obtain ⟨i, hi, -⟩ := h
  rw [hi, Instruction.otherwise_of_fits (Instruction.fits_of_read hi) ht]

theorem page_otherwise_ok {t : Token} {ht : t.kind = .otherwise} {body : Nested} {stop : Token}
    {he : stop.closes? = some .conditional} {p : Choices}
    (h : (Branches.otherwise t ht body stop he).page m bound = .ok p) :
    ∃ b, body.page m bound = .ok b ∧ p = .otherwise b := by
  rw [Branches.page, bind_eq_ok] at h
  obtain ⟨i, hi, h⟩ := h
  cases Instruction.otherwise_of_fits (Instruction.fits_of_read hi) ht
  simp only [bind_eq_ok] at h
  obtain ⟨b, hb, h⟩ := h
  cases h
  exact ⟨b, hb, rfl⟩

end

/-! ## Blocks -/

/-- a block followed by another -/
def Block.append : Block → Block → Block
  | .done, k => k
  | .step s rest, k => .step s (rest.append k)
  | .nest s body rest, k => .nest s body (rest.append k)

namespace Block

theorem append_assoc (a b k : Block) : (a.append b).append k = a.append (b.append k) := by
  induction a with
  | done => rfl
  | step s rest ih => simp [append, ih]
  | nest s body rest _ ih => simp [append, ih]

theorem append_done (b : Block) : b.append .done = b := by
  induction b with
  | done => rfl
  | step s rest ih => simp [append, ih]
  | nest s body rest _ ih => simp [append, ih]

/-- statements one after the other -/
def steps (stmts : List Stmt) : Block := stmts.foldr .step .done

end Block

/-- the block of a directive without a body -/
def Act.block (a : Act) : Block := .steps (a.fragment.lines.map (·.stmt))

/-- the block of a construct around that of its body, with temporaries numbered after `n` -/
def Opening.block (n : Nat) (body : Block) : Opening → Block
  | loop names path e =>
    .nest (.whenReached path)
      (.step (.iterate (n + 1) e) (.step (.loopOpen (n + 1)) (.step .scopeLoop
        (.nest (.forEach (n + 2) (n + 3) (n + 1))
          (.step (.iterationBegin (n + 2))
            ((Block.steps (Directive.loopBinds names (n + 2) (n + 3))).append
              (body.append (.step .iterationEnd .done))))
          (.step .scopeClose (.step .loopClose .done))))))
      .done
  | capture name => .step .captureBegin (body.append (.step (.captureEnd name) .done))
  | form e name attributes =>
    .step (.formOpen e name attributes) (.step .writeFormOpen (.step .scopeForm
      (body.append (.step .writeFormClose (.step .scopeClose (.step .formClose .done))))))
  | phrase key params =>
    .step (.translate (n + 1) key params)
      (.nest (.whenText (n + 1)) (.step (.writeText (n + 1)) .done) (.nest .otherwise (.step .pass body) .done))

mutual

/-- the block of a passage, with temporaries numbered after `n` -/
def Passage.block (n : Nat) : Passage → Block
  | .done => .done
  | .act a rest => a.block.append (rest.block n)
  | .construct o body rest =>
    (o.block n (body.block (n + o.temporaries))).append (rest.block (n + o.temporaries + body.temporaries))
  | .choice c body more rest =>
    .nest (.when c) (.step .pass (body.block n))
      ((more.block (n + body.temporaries)).append (rest.block (n + body.temporaries + more.temporaries)))

/-- the block of branches -/
def Choices.block (n : Nat) : Choices → Block
  | .none => .done
  | .elsewhen c body more => .nest (.elsewhen c) (.step .pass (body.block n)) (more.block (n + body.temporaries))
  | .otherwise body => .nest .otherwise (.step .pass (body.block n)) .done

end

/-! ## Lines read as blocks -/

/-- the depth after fragments -/
def depthAfter (d : Int) (fs : List Fragment) : Int := d + (fs.map (·.shift)).sum

theorem placeLines_append (d : Int) (fs gs : List Fragment) :
    placeLines d (fs ++ gs) = placeLines d fs ++ placeLines (depthAfter d fs) gs := by
  induction fs generalizing d with
  | nil => simp [placeLines, depthAfter]
  | cons f fs ih => simp [placeLines, depthAfter, ih, Int.add_assoc]

theorem depthAfter_append (d : Int) (fs gs : List Fragment) :
    depthAfter d (fs ++ gs) = depthAfter (depthAfter d fs) gs := by
  simp [depthAfter, Int.add_assoc]

/-- lines none of which is further left than a depth -/
def Inside (d : Int) (ls : List Line) : Prop := ∀ l ∈ ls, d ≤ l.depth

/-- lines the first of which, if any, is not deeper than a depth -/
def Outside (d : Int) (ls : List Line) : Prop := ∀ l ∈ ls.head?, l.depth ≤ d

theorem readBlocks_step {d : Int} {s : Stmt} {ls : List Line} (hs : s.heads = false) :
    readBlocks (⟨d, s⟩ :: ls) = .step s (readBlocks ls) := by
  rw [readBlocks]
  simp [hs]

/-- a line that heads a block, the deeper lines after it, and lines that are not deeper -/
theorem readBlocks_nest {d : Int} {s : Stmt} {body tail : List Line} (hs : s.heads = true)
    (hbody : Inside (d + 1) body) (htail : Outside d tail) :
    readBlocks (⟨d, s⟩ :: (body ++ tail)) = .nest s (readBlocks body) (readBlocks tail) := by
  have hdeep : ∀ l ∈ body, decide (d < l.depth) = true := by
    intro l hl
    have := hbody l hl
    simp only [decide_eq_true_eq]
    omega
  have htake : tail.takeWhile (fun m => decide (d < m.depth)) = [] := by
    cases tail with
    | nil => rfl
    | cons l ls =>
      have : l.depth ≤ d := htail l (by simp)
      simp [List.takeWhile_cons]
      omega
  have hdrop : tail.dropWhile (fun m => decide (d < m.depth)) = tail := by
    cases tail with
    | nil => rfl
    | cons l ls =>
      have : l.depth ≤ d := htail l (by simp)
      rw [List.dropWhile_cons, if_neg (by simp; omega)]
  rw [readBlocks]
  simp only [hs, if_true]
  rw [List.takeWhile_append_of_pos hdeep, List.dropWhile_append_of_pos hdeep, htake, hdrop, List.append_nil]

theorem readBlocks_steps {d : Int} {stmts : List Stmt} (hs : ∀ s ∈ stmts, s.heads = false) (ls : List Line) :
    readBlocks (stmts.map (fun s => ⟨d, s⟩) ++ ls) = (Block.steps stmts).append (readBlocks ls) := by
  induction stmts with
  | nil => rfl
  | cons s stmts ih =>
    rw [List.map_cons, List.cons_append, readBlocks_step (hs s List.mem_cons_self),
      ih fun t ht => hs t (List.mem_cons_of_mem s ht)]
    rfl

theorem inside_cons {d : Int} {l : Line} {ls : List Line} : Inside d (l :: ls) ↔ d ≤ l.depth ∧ Inside d ls := by
  simp [Inside]

theorem inside_append {d : Int} {as bs : List Line} : Inside d (as ++ bs) ↔ Inside d as ∧ Inside d bs :=
  List.forall_mem_append

theorem inside_nil (d : Int) : Inside d [] := fun l hl => by simp at hl

theorem inside_map {d e : Int} (h : d ≤ e) (stmts : List Stmt) : Inside d (stmts.map fun s => ⟨e, s⟩) := by
  intro l hl
  obtain ⟨s, -, rfl⟩ := List.mem_map.1 hl
  exact h

theorem Inside.mono {d e : Int} {ls : List Line} (h : Inside e ls) (hd : d ≤ e) : Inside d ls :=
  fun l hl => Int.le_trans hd (h l hl)

theorem outside_nil (d : Int) : Outside d [] := fun l hl => by simp at hl

theorem outside_cons (d : Int) (s : Stmt) (ls : List Line) : Outside d (⟨d, s⟩ :: ls) := by
  intro m hm
  simp only [List.head?_cons, Option.mem_some_iff] at hm
  subst hm
  exact Int.le_refl d

/-- fragments placed from a depth on, none of whose lines is further left than `d`, that come back to `d` and are read
as a block before whatever is not deeper than `d` -/
structure LaidOut (start d : Int) (fs : List Fragment) (b : Block) : Prop where
  depth : depthAfter start fs = d
  inside : Inside d (placeLines start fs)
  outside : ∀ tail, Outside d tail → Outside d (placeLines start fs ++ tail)
  reads : ∀ tail, Outside d tail → readBlocks (placeLines start fs ++ tail) = b.append (readBlocks tail)

namespace LaidOut

variable {start d : Int} {fs gs : List Fragment} {b k : Block}

theorem nil (d : Int) : LaidOut d d [] .done where
  depth := by simp [depthAfter]
  inside := inside_nil d
  outside := fun tail h => h
  reads := fun tail _ => rfl

theorem append (hf : LaidOut start d fs b) (hg : LaidOut d d gs k) : LaidOut start d (fs ++ gs) (b.append k) where
  depth := by rw [depthAfter_append, hf.depth, hg.depth]
  inside := by
    rw [placeLines_append, hf.depth]
    exact inside_append.2 ⟨hf.inside, hg.inside⟩
  outside := fun tail h => by
    rw [placeLines_append, hf.depth, List.append_assoc]
    exact hf.outside _ (hg.outside tail h)
  reads := fun tail h => by
    rw [placeLines_append, hf.depth, List.append_assoc, hf.reads _ (hg.outside tail h), hg.reads tail h,
      Block.append_assoc]

/-- lines at the depth, none of which heads a block -/
theorem statements (stmts : List Stmt) (hs : ∀ s ∈ stmts, s.heads = false) (d : Int) :
    LaidOut d d [.statements stmts] (.steps stmts) := by
  have hlines : placeLines d [.statements stmts] = stmts.map fun s => ⟨d, s⟩ := by
    simp [placeLines, Fragment.statements]
  refine ⟨by simp [depthAfter, Fragment.statements], ?_, fun tail h => ?_, fun tail _ => ?_⟩
  · rw [hlines]
    exact inside_map (Int.le_refl d) stmts
  · rw [hlines]
    cases stmts with
    | nil => exact h
    | cons s stmts => exact outside_cons d _ _
  · rw [hlines]
    exact readBlocks_steps hs tail

/-- a branch: the line that heads it, the fragments of its body, and what follows in its conditional -/
theorem branch {f : Fragment} {s : Stmt} (hs : s.heads = true) (hf : placeLines start [f] = [⟨d, s⟩, ⟨d + 1, .pass⟩])
    (hshift : start + f.shift = d + 1) (hb : LaidOut (d + 1) (d + 1) fs b) (hg : LaidOut (d + 1) d gs k) :
    LaidOut start d (f :: (fs ++ gs)) (.nest s (.step .pass b) k) := by
  have hlines : placeLines start (f :: (fs ++ gs)) =
      ⟨d, s⟩ :: ((⟨d + 1, .pass⟩ :: placeLines (d + 1) fs) ++ placeLines (d + 1) gs) := by
    rw [← List.singleton_append, placeLines_append, hf]
    simp [depthAfter, hshift, placeLines_append]
    have := hb.depth
    simp only [depthAfter] at this
    rw [this]
  refine ⟨?_, ?_, fun tail _ => ?_, fun tail h => ?_⟩
  · rw [← List.singleton_append, depthAfter_append, depthAfter_append]
    simp only [depthAfter, List.map_cons, List.map_nil, List.sum_cons, List.sum_nil, Int.add_zero, hshift]
    have h₁ := hb.depth
    have h₂ := hg.depth
    simp only [depthAfter] at h₁ h₂
    rw [h₁, h₂]
  · rw [hlines]
    refine inside_cons.2 ⟨Int.le_refl d,
      inside_append.2 ⟨inside_cons.2 ⟨Int.le_add_one (Int.le_refl d), ?_⟩, hg.inside⟩⟩
    exact hb.inside.mono (by omega)
  · rw [hlines]
    exact outside_cons d _ _
  · rw [hlines, List.cons_append, List.append_assoc,
      readBlocks_nest hs (inside_cons.2 ⟨Int.le_refl _, hb.inside⟩) (hg.outside tail h), hg.reads tail h]
    have hbody := hb.reads [] (outside_nil _)
    rw [List.append_nil] at hbody
    rw [readBlocks_step rfl, hbody, readBlocks, Block.append_done]
    rfl

/-- the end of a conditional or a phrase -/
theorem ending (d : Int) : LaidOut (d + 1) d [⟨[], -1⟩] .done where
  depth := Int.add_neg_cancel_right d 1
  inside := inside_nil d
  outside := fun _ h => h
  reads := fun _ _ => rfl

end LaidOut

theorem heads_loopBinds (names : List Text) (key item : Nat) :
    ∀ s ∈ Directive.loopBinds names key item, s.heads = false := by
  intro s hs
  unfold Directive.loopBinds at hs
  split at hs <;> simp at hs
  · rw [hs]
    rfl
  · rcases hs with rfl | rfl <;> rfl

/-- the lines of a first fragment, a body that comes back to its depth, and a last fragment -/
theorem placeLines_around {fs : List Fragment} {f g : Fragment} {d e : Int} (he : d + f.shift = e)
    (hb : depthAfter e fs = e) : placeLines d (f :: (fs ++ [g])) =
      f.lines.map (fun l => { l with depth := d + l.depth }) ++
        (placeLines e fs ++ g.lines.map fun l => { l with depth := e + l.depth }) := by
  simp only [placeLines, he, placeLines_append, hb, List.append_nil]

theorem depthAfter_around {fs : List Fragment} {f g : Fragment} {d e : Int} (he : d + f.shift = e)
    (hb : depthAfter e fs = e) : depthAfter d (f :: (fs ++ [g])) = e + g.shift := by
  rw [← List.singleton_append, depthAfter_append, depthAfter_append]
  simp [depthAfter, he] at hb ⊢
  omega

/-- a loop around a body that is laid out at every depth is laid out -/
theorem laidOut_loop (names : List Text) (path : List Segment) (e : Expr) (n : Nat) {fs : List Fragment} {b : Block}
    (hb : ∀ d, LaidOut d d fs b) (d : Int) :
    LaidOut d d ((Opening.loop names path e).first n :: (fs ++ [Directive.endLoop]))
      ((Opening.loop names path e).block n b) := by
  have hdepth : d + 2 + -1 = d + 1 := by omega
  -- what one iteration runs
  let iteration : List Line := ⟨d + 2, .iterationBegin (n + 2)⟩ ::
    ((Directive.loopBinds names (n + 2) (n + 3)).map (fun s => ⟨d + 2, s⟩) ++
      (placeLines (d + 2) fs ++ [⟨d + 2, .iterationEnd⟩]))
  -- what runs if the path reaches something
  let guarded : List Line := ⟨d + 1, .iterate (n + 1) e⟩ :: ⟨d + 1, .loopOpen (n + 1)⟩ :: ⟨d + 1, .scopeLoop⟩ ::
    ⟨d + 1, .forEach (n + 2) (n + 3) (n + 1)⟩ :: (iteration ++ [⟨d + 1, .scopeClose⟩, ⟨d + 1, .loopClose⟩])
  have hlines : placeLines d ((Opening.loop names path e).first n :: (fs ++ [Directive.endLoop])) =
      ⟨d, .whenReached path⟩ :: guarded := by
    rw [placeLines_around (e := d + 2) rfl (hb _).depth]
    simp [Opening.first, Directive.endLoop, iteration, guarded, hdepth]
  have hiteration : Inside (d + 2) iteration :=
    inside_cons.2 ⟨Int.le_refl _, inside_append.2 ⟨inside_map (Int.le_refl _) _,
      inside_append.2 ⟨(hb _).inside, inside_cons.2 ⟨Int.le_refl _, inside_nil _⟩⟩⟩⟩
  have hguarded : Inside (d + 1) guarded := by
    refine inside_cons.2 ⟨Int.le_refl _, inside_cons.2 ⟨Int.le_refl _, inside_cons.2 ⟨Int.le_refl _,
      inside_cons.2 ⟨Int.le_refl _, inside_append.2 ⟨hiteration.mono (by omega), ?_⟩⟩⟩⟩⟩
    exact inside_cons.2 ⟨Int.le_refl _, inside_cons.2 ⟨Int.le_refl _, inside_nil _⟩⟩
  have hread₂ : readBlocks iteration = .step (.iterationBegin (n + 2))
      ((Block.steps (Directive.loopBinds names (n + 2) (n + 3))).append (b.append (.step .iterationEnd .done))) := by
    rw [readBlocks_step rfl, readBlocks_steps (heads_loopBinds names _ _),
      (hb _).reads _ (outside_cons _ _ _), readBlocks_step rfl, readBlocks]
  have hread₁ : readBlocks guarded = .step (.iterate (n + 1) e) (.step (.loopOpen (n + 1)) (.step .scopeLoop
      (.nest (.forEach (n + 2) (n + 3) (n + 1)) (readBlocks iteration)
        (.step .scopeClose (.step .loopClose .done))))) := by
    have hlast : readBlocks [⟨d + 1, .scopeClose⟩, ⟨d + 1, .loopClose⟩] =
        .step .scopeClose (.step .loopClose .done) := by
      rw [readBlocks_step rfl, readBlocks_step rfl, readBlocks]
    rw [readBlocks_step rfl, readBlocks_step rfl, readBlocks_step rfl,
      readBlocks_nest rfl (hiteration.mono (by omega)) (outside_cons _ _ _), hlast]
  refine ⟨?_, ?_, fun tail _ => ?_, fun tail h => ?_⟩
  · rw [depthAfter_around (e := d + 2) rfl (hb _).depth]
    simp only [Directive.endLoop]
    omega
  · rw [hlines]
    exact inside_cons.2 ⟨Int.le_refl d, hguarded.mono (by omega)⟩
  · rw [hlines]
    exact outside_cons d _ _
  · rw [hlines, List.cons_append, readBlocks_nest rfl hguarded h, hread₁, hread₂]
    rfl

/-- a phrase around a body that is laid out at every depth is laid out -/
theorem laidOut_phrase (key : Text) (params : List (Text × Expr)) (n : Nat) {fs : List Fragment} {b : Block}
    (hb : ∀ d, LaidOut d d fs b) (d : Int) :
    LaidOut d d ((Opening.phrase key params).first n :: (fs ++ [(Opening.phrase key params).last]))
      ((Opening.phrase key params).block n b) := by
  let alternative : List Line := ⟨d + 1, .pass⟩ :: placeLines (d + 1) fs
  have hlines : placeLines d ((Opening.phrase key params).first n :: (fs ++ [(Opening.phrase key params).last])) =
      ⟨d, .translate (n + 1) key params⟩ :: ⟨d, .whenText (n + 1)⟩ :: ([⟨d + 1, .writeText (n + 1)⟩] ++
        ⟨d, .otherwise⟩ :: alternative) := by
    rw [placeLines_around (e := d + 1) rfl (hb _).depth]
    simp [Opening.first, Opening.last, alternative]
  have halternative : Inside (d + 1) alternative := inside_cons.2 ⟨Int.le_refl _, (hb _).inside⟩
  have hread : readBlocks alternative = .step .pass b := by
    have := (hb (d + 1)).reads [] (outside_nil _)
    rw [List.append_nil, readBlocks, Block.append_done] at this
    rw [readBlocks_step rfl, this]
  refine ⟨?_, ?_, fun tail _ => ?_, fun tail h => ?_⟩
  · rw [depthAfter_around (e := d + 1) rfl (hb _).depth]
    simp only [Opening.last]
    omega
  · rw [hlines]
    refine inside_cons.2 ⟨Int.le_refl d, inside_cons.2 ⟨Int.le_refl d, inside_append.2 ⟨?_, ?_⟩⟩⟩
    · exact inside_cons.2 ⟨Int.le_add_one (Int.le_refl d), inside_nil _⟩
    · exact inside_cons.2 ⟨Int.le_refl d, halternative.mono (by omega)⟩
  · rw [hlines]
    exact outside_cons d _ _
  · have hsplit : placeLines d ((Opening.phrase key params).first n :: (fs ++ [(Opening.phrase key params).last])) ++
        tail = ⟨d, .translate (n + 1) key params⟩ :: ⟨d, .whenText (n + 1)⟩ :: ([⟨d + 1, .writeText (n + 1)⟩] ++
          ⟨d, .otherwise⟩ :: (alternative ++ tail)) := by
      rw [hlines]
      rfl
    rw [hsplit, readBlocks_step rfl,
      readBlocks_nest rfl (inside_cons.2 ⟨Int.le_refl _, inside_nil _⟩) (outside_cons d _ _),
      readBlocks_step rfl, readBlocks, readBlocks_nest rfl halternative h, hread]
    rfl

/-- **A construct** around a body that is laid out at every depth is laid out. -/
theorem laidOut_opening (o : Opening) (n : Nat) {fs : List Fragment} {b : Block} (hb : ∀ d, LaidOut d d fs b)
    (d : Int) :
    LaidOut d d (o.first n :: (fs ++ [o.last])) (o.block n b) := by
  cases o with
  | loop names path e => exact laidOut_loop names path e n hb d
  | capture name =>
    exact (LaidOut.statements [.captureBegin] (by simp [Stmt.heads]) d).append
      ((hb d).append (LaidOut.statements [.captureEnd name] (by simp [Stmt.heads]) d))
  | form e name attributes =>
    exact (LaidOut.statements [.formOpen e name attributes, .writeFormOpen, .scopeForm]
      (by simp [Stmt.heads]) d).append
      ((hb d).append (LaidOut.statements [.writeFormClose, .scopeClose, .formClose] (by simp [Stmt.heads]) d))
  | phrase key params => exact laidOut_phrase key params n hb d

/-- the fragment of a directive without a body is laid out -/
theorem laidOut_act (a : Act) (d : Int) : LaidOut d d [a.fragment] a.block := by
  cases a with
  | remark => exact LaidOut.statements [] (by simp) d
  | _ => exact LaidOut.statements [_] (by simp [Stmt.heads]) d

mutual

/-- **The fragments of a passage** are laid out at every depth, and read as its block. -/
theorem laidOut_passage : ∀ (p : Passage) (n : Nat) (d : Int), LaidOut d d (p.fragments n) (p.block n)
  | .done, _, d => .nil d
  | .act a rest, n, d => (laidOut_act a d).append (laidOut_passage rest n d)
  | .construct o body rest, n, d => by
    have hconstruct := laidOut_opening o n (fun d => laidOut_passage body (n + o.temporaries) d) d
    have := hconstruct.append (laidOut_passage rest (n + o.temporaries + body.temporaries) d)
    simpa [Passage.fragments, Passage.block] using this
  | .choice c body more rest, n, d => by
    have hrest := laidOut_passage rest (n + body.temporaries + more.temporaries) d
    have hmore := (laidOut_choices more (n + body.temporaries) d).append hrest
    exact .branch rfl (by simp [placeLines, whenFragment]) rfl (laidOut_passage body n (d + 1)) hmore

/-- the fragments of branches are laid out from the depth of a body on, and come back to that of the conditional -/
theorem laidOut_choices : ∀ (more : Choices) (n : Nat) (d : Int), LaidOut (d + 1) d (more.fragments n) (more.block n)
  | .none, _, d => .ending d
  | .elsewhen c body more, n, d =>
    .branch rfl (by simp [placeLines, elsewhenFragment]) (by simp [elsewhenFragment])
      (laidOut_passage body n (d + 1))
      (laidOut_choices more (n + body.temporaries) d)
  | .otherwise body, n, d =>
    .branch rfl (by simp [placeLines, otherwiseFragment]) (by simp [otherwiseFragment])
      (laidOut_passage body n (d + 1)) (.ending d)

end

/-- **The program of passages** is their block. -/
theorem readBlocks_passage (p : Passage) : readBlocks (programLines (p.fragments 0)) = p.block 0 := by
  have h := (laidOut_passage p 0 bodyDepth).reads [] (outside_nil _)
  rw [List.append_nil, readBlocks, Block.append_done] at h
  exact h

namespace Compiler

theorem stack_of_checkClosed {c : Context} {u : Unit} (h : checkClosed c = .ok u) : c.stack = [] := by
  unfold checkClosed at h
  split at h
  · assumption
  · simp at h

/-- the parts of a compilation that comes to an end -/
theorem compile_ok {k : Compiler} {source : Text} {t : Template} (h : k.compile source = .ok t) :
    ∃ ts fs c, k.scan source = .ok ts ∧ tokens k.registry k.mode .start ts = .ok (fs, c) ∧ c.stack = [] ∧
      t = k.template ts fs ∧ checkCode t = .ok () := by
  simp only [compile, fragments, bind_eq_ok] at h
  obtain ⟨ts, hscan, fs, ⟨⟨fs', c⟩, htoks, ⟨u, hclosed, hfs⟩⟩, ⟨v, hcheck, ht⟩⟩ := h
  cases hfs
  cases ht
  exact ⟨ts, _, c, hscan, htoks, stack_of_checkClosed hclosed, rfl, hcheck⟩

/-- **The program of a compiled template** is the block of the passage that its derivation asks for. -/
theorem program_of_compile {s : Settings} {strict : Option Bool} {names : List Text} {source : Text} {t : Template}
    (h : (standard s strict names).compile source = .ok t) {n : Nested} (hn : n.tokens = t.tokens) :
    ∃ p, n.page (standard s strict names).mode [] = .ok p ∧ t.fragments = p.fragments 0 ∧ t.program = p.block 0 := by
  obtain ⟨ts, fs, c, hscan, htoks, -, rfl, -⟩ := compile_ok h
  obtain rfl : n.tokens = ts := hn
  have hclass : ∀ t ∈ n.tokens, t.Classified (.standard s.comment) := classified_of_scan hscan
  obtain ⟨p, hp, rfl, -, -⟩ := page_of_tokens n hclass htoks
  exact ⟨p, hp, rfl, readBlocks_passage p⟩

/-- tokens that compile can be read -/
theorem run_of_tokens {comment : Text} {m : Directive.Mode} {ts : List Token} {c c' : Context} {fs : List Fragment}
    (hclass : ∀ t ∈ ts, t.Classified (.standard comment)) (h : c.Sound)
    (htoks : tokens (.standard comment) m c ts = .ok (fs, c')) : c'.Sound ∧ c.nesting.run ts = some c'.nesting := by
  induction ts generalizing c fs with
  | nil =>
    cases htoks
    exact ⟨h, rfl⟩
  | cons t ts ih =>
    simp only [List.forall_mem_cons] at hclass
    obtain ⟨i, f, c₁, rest, -, hfit, hcomp, hrest, -⟩ := tokens_cons_ok hclass.1 htoks
    have hone := agrees_compile h hfit
    rw [hcomp] at hone
    cases hstep : c.nesting.step t with
    | none =>
      rw [hstep] at hone
      cases hone
    | some s =>
      rw [hstep] at hone
      cases hone with
      | both hsound =>
        obtain ⟨hsound', hrun⟩ := ih hclass.2 hsound hrest
        exact ⟨hsound', by rw [Nesting.run, hstep, Option.bind_some, hrun]⟩

/-- tokens that compile and leave nothing open are well nested -/
theorem wellNested_of_tokens {comment : Text} {m : Directive.Mode} {ts : List Token} {fs : List Fragment} {c : Context}
    (hclass : ∀ t ∈ ts, t.Classified (.standard comment)) (htoks : tokens (.standard comment) m .start ts = .ok (fs, c))
    (hclosed : c.stack = []) : WellNested ts := by
  obtain ⟨-, hrun⟩ := run_of_tokens hclass Context.sound_start htoks
  exact (Nesting.wellNested_iff ts).2 ⟨_, hrun, by simp [Context.nesting, hclosed]⟩

/-- **A compiled template is well nested.** -/
theorem wellNested_of_compile {s : Settings} {strict : Option Bool} {names : List Text} {source : Text} {t : Template}
    (h : (standard s strict names).compile source = .ok t) : WellNested t.tokens := by
  obtain ⟨ts, fs, c, hscan, htoks, hclosed, rfl, -⟩ := compile_ok h
  have hclass : ∀ t ∈ ts, t.Classified (.standard s.comment) := classified_of_scan hscan
  exact wellNested_of_tokens hclass htoks hclosed

/-- **Tokens that compile derive**, and their fragments are those of a passage that their derivation asks for. -/
theorem page_of_fragments {k : Compiler} {comment : Text} (hk : k.registry = .standard comment) {ts : List Token}
    {fs : List Fragment} (hclass : ∀ t ∈ ts, t.Classified k.registry) (hfs : k.fragments ts = .ok fs) :
    ∃ (n : Nested) (p : Passage), n.tokens = ts ∧ n.page k.mode [] = .ok p ∧ fs = p.fragments 0 := by
  rw [hk] at hclass
  simp only [fragments, hk, bind_eq_ok] at hfs
  obtain ⟨⟨fs', c⟩, htoks, ⟨u, hclosed, hfs⟩⟩ := hfs
  cases hfs
  obtain ⟨n, rfl, -⟩ := wellNested_of_tokens hclass htoks (stack_of_checkClosed hclosed)
  obtain ⟨p, hp, hfragments, -⟩ := page_of_tokens n hclass htoks
  exact ⟨n, p, rfl, hp, hfragments⟩

end Compiler

end Stencil
