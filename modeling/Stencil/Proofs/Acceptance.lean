/-
ACCEPTED TEMPLATES. Compiling keeps the same open constructs and sections as reading the tokens by `Nesting`, so that in
safe mode a template whose tokens follow their grammars is compiled exactly if it is well nested.

- `compile_nesting`: one token is compiled exactly if it can be read, and leaves the same open constructs.
- `tokens_of_run`, `tokens_of_bad`: tokens are compiled as far as they can be read; the first that cannot be read is at
  fault.
- `compile_iff_wellNested`: which templates are compiled, and where the fault of the others is.
-/
import Stencil.Proofs.Lenient

namespace Stencil

/-! ## The tokens of a scan -/

namespace Text

theorem isPrefix_stripEnd (s : Text) : stripEnd s <+: s := by
  rw [stripEnd, ← List.reverse_suffix, List.reverse_reverse]
  exact List.dropWhile_suffix _

/-- a text without the blanks at its ends stands in it -/
theorem isInfix_strip (s : Text) : strip s <:+: s :=
  (isPrefix_stripEnd _).isInfix.trans (List.dropWhile_suffix _).isInfix

end Text

/-- a token of literal text, or one whose text stands in a directive among the pieces and has its kind -/
def Token.OfChunks (classify : Text → TokenKind) (cs : List Delimiter.Chunk) (t : Token) : Prop :=
  t.kind = .literal ∨
    (∃ body, .directive body ∈ cs ∧ t.raw <:+: body) ∧ (t.kind = .comment ∨ classify t.raw = t.kind)

namespace Scan

variable {s : Settings} {classify : Text → TokenKind} {source : Text} {cs : List Delimiter.Chunk}

/-- the tokens scanned so far are those of the pieces -/
def OfChunks (classify : Text → TokenKind) (cs : List Delimiter.Chunk) (st : Scan) : Prop :=
  ∀ t ∈ st.tokens, t.OfChunks classify cs

theorem ofChunks_add {st : Scan} {kind : TokenKind} {raw : Text} {position : Nat} (h : st.OfChunks classify cs)
    (hk : ∀ line, Token.OfChunks classify cs ⟨kind, raw, position, line⟩) :
    (st.add source kind raw position).OfChunks classify cs := by
  have push : ∀ line,
      OfChunks classify cs ⟨⟨kind, raw, position, line⟩ :: st.tokens, st.counter.moveTo source position⟩ :=
    fun line => List.forall_mem_cons.2 ⟨hk line, h⟩
  unfold add
  simp only
  split
  · exact h
  · split
    · rename_i last before hst _
      split
      · rename_i hl
        -- the token that grows stays literal
        intro t ht
        rcases List.mem_cons.1 ht with rfl | ht
        · exact .inl (beq_iff_eq.1 hl)
        · exact h t (by rw [hst]; exact List.mem_cons_of_mem last ht)
      · rw [hst] at push
        exact push _
    · exact push _

theorem ofChunks_directive {st st' : Scan} {body : Text} {position : Nat} (h : st.OfChunks classify cs)
    (hbody : .directive body ∈ cs) (hd : st.directive s classify source body position = .ok st') :
    st'.OfChunks classify cs := by
  have hstrip := Text.isInfix_strip body
  unfold directive at hd
  simp only at hd
  split at hd
  · simp [fail] at hd
  · split at hd
    · simp [fail] at hd
    · split at hd
      · cases hd
        have hraw := (Text.isInfix_strip _).trans ((List.drop_suffix s.comment.length (Text.strip body)).isInfix)
        exact ofChunks_add h fun line => .inr ⟨⟨body, hbody, hraw.trans hstrip⟩, .inl rfl⟩
      · cases hd
        exact ofChunks_add h fun line => .inr ⟨⟨body, hbody, hstrip⟩, .inr rfl⟩

theorem ofChunks_literal {st st' : Scan} {text : Text} {position : Nat} (h : st.OfChunks classify cs)
    (hl : st.literal s source text position = .ok st') : st'.OfChunks classify cs := by
  unfold literal at hl
  split at hl
  · cases hl
    exact ofChunks_add h fun _ => .inl rfl
  · simp [fail] at hl

theorem ofChunks_chunk {st st' : Scan} {c : Delimiter.Chunk} {position : Nat} (h : st.OfChunks classify cs)
    (hmem : c ∈ cs) (hc : st.chunk s classify source position c = .ok st') : st'.OfChunks classify cs := by
  cases c with
  | plain t => exact ofChunks_literal h hc
  | tail t => exact ofChunks_literal h hc
  | escaped body =>
    cases hc
    exact ofChunks_add h fun _ => .inl rfl
  | directive body => exact ofChunks_directive h hmem hc

theorem ofChunks_run {run : List Delimiter.Chunk} {position : Nat} {st st' : Scan} (h : st.OfChunks classify cs)
    (hmem : ∀ c ∈ run, c ∈ cs) (hr : Scan.run s classify source position st run = .ok st') :
    st'.OfChunks classify cs := by
  induction run generalizing position st with
  | nil =>
    cases hr
    exact h
  | cons c run ih =>
    rw [Scan.run] at hr
    split at hr
    · rename_i st₁ hc
      obtain ⟨hc', hrun⟩ := List.forall_mem_cons.1 hmem
      exact ih (ofChunks_chunk h hc' hc) hrun hr
    · simp at hr

end Scan

namespace Compiler

/-- **The tokens of a template** are those of its pieces. -/
theorem ofChunks_of_scan {k : Compiler} {source : Text} {ts : List Token} (h : k.scan source = .ok ts) :
    ∀ t ∈ ts, t.OfChunks k.registry.classify
      (Delimiter.chunks k.settings.opening k.settings.closing k.settings.opening_ne source) := by
  unfold scan Stencil.scan scanAll at h
  cases hr : Scan.run k.settings k.registry.classify source 0 .start
      (Delimiter.chunks k.settings.opening k.settings.closing k.settings.opening_ne source) with
  | error f => simp [hr, Except.mapError] at h
  | ok st =>
    simp only [hr, map_ok, Except.mapError, Except.ok.injEq] at h
    subst h
    intro t ht
    have hstart : Scan.start.OfChunks k.registry.classify
        (Delimiter.chunks k.settings.opening k.settings.closing k.settings.opening_ne source) := by
      simp [Scan.OfChunks, Scan.start]
    exact Scan.ofChunks_run hstart (fun _ hc => hc) hr t (List.mem_reverse.1 ht)

/-- **The tokens of a template** have the kinds that the registry gives them. -/
theorem classified_of_scan {k : Compiler} {source : Text} {ts : List Token} (h : k.scan source = .ok ts) :
    ∀ t ∈ ts, t.Classified k.registry :=
  fun t ht => (ofChunks_of_scan h t ht).imp id And.right

end Compiler

/-! ## What compiling knows of the nesting -/

/-- an open construct without the names it binds -/
def OpenConstruct.frame (o : OpenConstruct) : Frame := ⟨o.family.getD .loop, o.token, o.closedBranches⟩

namespace Context

/-- the open constructs and the sections of a compilation -/
def nesting (c : Context) : Nesting := ⟨c.stack.map OpenConstruct.frame, c.sections⟩

/-- every open construct has a family, and every open section a name -/
def Sound (c : Context) : Prop :=
  ∀ o ∈ c.stack, (∃ f, o.family = some f) ∧
    (o.family = some .capture → ∃ name, Directive.capture? o.token.raw = some name)

theorem sound_start : Sound .start := fun o ho => by simp [start] at ho

theorem Sound.cons {c : Context} {o : OpenConstruct} {stack : List OpenConstruct} (h : c.Sound)
    (hs : c.stack = o :: stack) : (∃ f, o.family = some f) ∧
      (o.family = some .capture → ∃ name, Directive.capture? o.token.raw = some name) :=
  h o (by rw [hs]; exact List.mem_cons_self)

theorem Sound.isForm {c : Context} {o : OpenConstruct} (h : c.Sound) (ho : o ∈ c.stack) :
    (o.frame.family == .form) = (o.family == some .form) := by
  obtain ⟨⟨f, hf⟩, -⟩ := h o ho
  simp [OpenConstruct.frame, hf]

theorem inForm_nesting {c : Context} (h : c.Sound) : c.nesting.inForm = (c.find? .form).isSome := by
  rw [find?, List.isSome_find?, Nesting.inForm, nesting, List.any_map]
  rw [Bool.eq_iff_iff, List.any_eq_true, List.any_eq_true]
  constructor
  · rintro ⟨o, ho, hf⟩
    exact ⟨o, ho, by rw [← h.isForm ho]; exact hf⟩
  · rintro ⟨o, ho, hf⟩
    exact ⟨o, ho, by rw [Function.comp, h.isForm ho]; exact hf⟩

/-- the context in which a construct is open tracks it -/
theorem Sound.push {c : Context} (h : c.Sound) {f : Family} {t : Token} (names : List Text)
    (hname : f = .capture → ∃ name, Directive.capture? t.raw = some name) :
      (c.push ⟨some f, t, names, false⟩).Sound := by
  intro o ho
  rcases List.mem_cons.1 ho with rfl | ho
  · exact ⟨⟨f, rfl⟩, fun hf => hname (Option.some.inj hf)⟩
  · exact h o ho

end Context

/-! ## One token -/

/-- the closing reader of the innermost construct's family gives its last fragment -/
theorem last_eq_ok {c : Context} (h : c.Sound) {o : OpenConstruct} {stack : List OpenConstruct}
    (hs : c.stack = o :: stack)
    {f : Family} (hf : o.family = some f) (t : Token) : ∃ fragment, f.closer.last t c = .ok fragment := by
  cases f
  case capture =>
    obtain ⟨name, hname⟩ := (h.cons hs).2 hf
    have hfind : c.find? .capture = some o := by simp [Context.find?, hs, hf]
    exact ⟨_, by simp only [Family.closer, Reader.last, Directive.endCapture, hfind, Directive.require, hname]; rfl⟩
  all_goals exact ⟨_, rfl⟩

/-- what compiling and reading a token leave is the same, or both refuse the token -/
inductive Agrees (t : Token) : Except Refusal Context → Option Nesting → Prop where
  | both {c : Context} (h : c.Sound) : Agrees t (.ok c) (some c.nesting)
  | neither (cause : Cause) : Agrees t (.error (.fault (.of cause t.raw))) none

theorem agrees_ok {t : Token} {c : Context} {s : Nesting} (h : c.Sound) (hs : c.nesting = s) :
    Agrees t (.ok c) (some s) := hs ▸ .both h

/-- another branch begins in the compilation exactly if it can be read -/
theorem agrees_branch {c : Context} (h : c.Sound) (t : Token) :
    Agrees t (Compiler.branch t c) (c.nesting.branched (t.kind == .otherwise)) := by
  unfold Compiler.branch Nesting.branched Context.nesting
  cases hs : c.stack with
  | nil => exact .neither _
  | cons o rest =>
    obtain ⟨⟨f, hf⟩, -⟩ := h.cons hs
    by_cases hc : f = .conditional
    · subst hc
      simp only [List.map_cons, OpenConstruct.frame, hf, Option.getD_some, BEq.rfl, if_true, true_and]
      cases hclosed : o.closedBranches with
      | true => exact .neither _
      | false =>
        cases hk : t.kind == .otherwise with
        | true =>
          refine agrees_ok (fun p hp => ?_) (by simp [Context.nesting, OpenConstruct.frame])
          rcases List.mem_cons.1 hp with rfl | hp
          · exact ⟨⟨_, rfl⟩, fun hf => by simp at hf⟩
          · exact h p (by rw [hs]; exact List.mem_cons_of_mem o hp)
        | false => exact agrees_ok h (by simp [Context.nesting, hs, OpenConstruct.frame, hf, hclosed])
    · have hne : (some f == some Family.conditional) = false := by simpa using hc
      simp only [List.map_cons, OpenConstruct.frame, hf, hne, Option.getD_some, hc, false_and, if_false]
      exact .neither _

/-- a construct begins in the compilation exactly if it can be read -/
theorem agrees_opened {c : Context} (h : c.Sound) {t : Token} {o : Opening} (ht : t.kind = o.family.opener)
    (hname : t.sectionName? = o.section?) :
    Agrees t ((Instruction.compile t c (.opening o)).map (·.2)) (c.nesting.opened o.family t) := by
  have hnamed : o.family = .capture → ∃ name, Directive.capture? t.raw = some name := by
    intro hf
    cases o <;> simp [Opening.family] at hf
    rename_i name
    exact ⟨name, by simpa [Token.sectionName?, ht, Opening.family, Opening.section?, Family.opener] using hname⟩
  have hsound : (Instruction.inside t c o).Sound := h.push (f := o.family) o.binds hnamed
  have hsame : (Instruction.inside t c o).nesting =
      ⟨⟨o.family, t, false⟩ :: c.nesting.stack, c.nesting.sections ++ t.sectionName?.toList⟩ := by
    rw [hname]
    rfl
  by_cases hnew : ∀ name ∈ t.sectionName?, name ∉ c.nesting.sections
  · have hfilter : (o.section?.filter fun name => c.sections.contains name) = none := by
      rw [Option.filter_eq_none_iff]
      intro name hmem
      have hnot : name ∉ c.sections := hnew name (hname ▸ hmem)
      simpa using hnot
    rw [Nesting.opened_eq hnew, Instruction.compile, hfilter]
    exact agrees_ok hsound hsame
  · rw [Nesting.opened, if_neg hnew, Instruction.compile]
    rw [hname] at hnew
    cases hs : o.section? with
    | none =>
      rw [hs] at hnew
      exact absurd (fun name hmem => by simp at hmem) hnew
    | some name =>
      rw [hs] at hnew
      have hmem : c.sections.contains name = true := by simpa [Context.nesting] using hnew
      simp only [Option.filter, hmem, if_true]
      exact .neither _

/-- **One token** is compiled exactly if it can be read, and leaves the same open constructs. -/
theorem agrees_compile {c : Context} (h : c.Sound) {t : Token} {i : Instruction} (hi : i.Fits t) :
    Agrees t ((i.compile t c).map (·.2)) (c.nesting.step t) := by
  cases i with
  | act a =>
    rw [Nesting.step_single hi.1, hi.2, Context.inForm_nesting h, Instruction.compile]
    cases hp : a.isPart with
    | false => exact .both h
    | true =>
      cases hf : c.find? .form with
      | none => exact .neither _
      | some o => exact .both h
  | opening o =>
    rw [Nesting.step_opener hi.1]
    exact agrees_opened h hi.1 hi.2
  | when cond =>
    have hname : t.sectionName? = none := Token.sectionName?_eq_none (by rw [hi]; decide)
    rw [Nesting.step_opener (f := .conditional) hi, Nesting.opened_eq (by simp [hname])]
    refine agrees_ok (h.push [] (by simp)) ?_
    simp [Context.nesting, Context.push, OpenConstruct.frame, hname]
  | elsewhen cond =>
    have hb := agrees_branch h t
    rw [hi] at hb
    rw [Nesting.step_elsewhen hi, Instruction.compile]
    cases hc : Compiler.branch t c <;> rw [hc] at hb <;> exact hb
  | otherwise =>
    have hb := agrees_branch h t
    rw [hi] at hb
    rw [Nesting.step_otherwise hi, Instruction.compile]
    cases hc : Compiler.branch t c <;> rw [hc] at hb <;> exact hb
  | closing f =>
    rw [Nesting.step_closes hi]
    unfold Instruction.compile Nesting.closedBy Context.nesting
    cases hs : c.stack with
    | nil => exact .neither _
    | cons o rest =>
      obtain ⟨⟨g, hg⟩, -⟩ := h.cons hs
      by_cases hgf : g = f
      · subst hgf
        obtain ⟨fragment, hlast⟩ := last_eq_ok h hs hg t
        simp only [List.map_cons, OpenConstruct.frame, hg, Option.getD_some, BEq.rfl, if_true, hlast]
        refine agrees_ok (fun p hp => h p (by rw [hs]; exact List.mem_cons_of_mem o hp)) rfl
      · have hne : (some g == some f) = false := by simpa using hgf
        simp only [List.map_cons, OpenConstruct.frame, hg, hne, Option.getD_some, hgf, if_false]
        exact .neither _

/-! ## All tokens -/

/-- the text of a token follows its own grammar, and a closing directive names a family -/
def Token.FollowsGrammar (t : Token) : Prop := ∃ i, Instruction.read ⟨false, []⟩ [] t = .ok i

instance (t : Token) : Decidable t.FollowsGrammar :=
  decidable_of_iff ((Instruction.read ⟨false, []⟩ [] t).isOk = true) (by
    unfold Token.FollowsGrammar
    cases Instruction.read ⟨false, []⟩ [] t <;> simp [Except.isOk, Except.toBool])

namespace Compiler

variable {comment : Text} {m : Directive.Mode}

/-- a token that follows its grammar is compiled exactly if it can be read -/
theorem agrees_token (hm : m.strict = false) {c : Context} (h : c.Sound) {t : Token}
    (hclass : t.Classified (.standard comment)) (hread : t.FollowsGrammar) :
    Agrees t ((token (.standard comment) m t c).map (·.2)) (c.nesting.step t) := by
  obtain ⟨i, hi⟩ := hread
  have hi' : Instruction.read m c.bound t = .ok i := by
    obtain ⟨strict, names⟩ := m
    subst hm
    rw [Instruction.read_lenient hi names c.bound, Instruction.relaxed_of_safe hi rfl]
  rw [Instruction.token_of_read hclass hi']
  exact agrees_compile h (Instruction.fits_of_read hi)

/-- tokens that can be read are compiled, and leave the same open constructs -/
theorem tokens_of_run (hm : m.strict = false) {ts : List Token} (hclass : ∀ t ∈ ts, t.Classified (.standard comment))
    (hread : ∀ t ∈ ts, t.FollowsGrammar) {c : Context} (h : c.Sound) {s : Nesting} (hrun : c.nesting.run ts = some s) :
    ∃ fs c', tokens (.standard comment) m c ts = .ok (fs, c') ∧ c'.Sound ∧ c'.nesting = s := by
  induction ts generalizing c with
  | nil =>
    cases hrun
    exact ⟨[], c, rfl, h, rfl⟩
  | cons t ts ih =>
    simp only [Nesting.run, Option.bind_eq_some_iff] at hrun
    obtain ⟨s₁, hstep, hrun⟩ := hrun
    have hone := agrees_token hm h (hclass t List.mem_cons_self) (hread t List.mem_cons_self)
    rw [hstep] at hone
    cases htok : token (.standard comment) m t c with
    | error e =>
      rw [htok] at hone
      cases hone
    | ok p =>
      rw [htok] at hone
      cases hone with
      | both hsound =>
        obtain ⟨fs, c', hfs, hrest⟩ := ih (fun u hu => hclass u (List.mem_cons_of_mem t hu))
          (fun u hu => hread u (List.mem_cons_of_mem t hu)) hsound hrun
        exact ⟨p.1 :: fs, c', by simp [tokens, htok, hfs], hrest⟩

/-- the first token that cannot be read is at fault -/
theorem tokens_of_bad (hm : m.strict = false) {pre post : List Token} {t : Token}
    (hclass : ∀ u ∈ pre ++ t :: post, u.Classified (.standard comment))
    (hread : ∀ u ∈ pre ++ t :: post, u.FollowsGrammar) {c : Context} (h : c.Sound) {s : Nesting}
    (hpre : c.nesting.run pre = some s) (hbad : s.step t = none) :
    ∃ f, tokens (.standard comment) m c (pre ++ t :: post) = .error (.fault f) ∧ f.place = some t.place := by
  induction pre generalizing c with
  | nil =>
    cases hpre
    have hone := agrees_token hm h (hclass t List.mem_cons_self) (hread t List.mem_cons_self)
    rw [hbad] at hone
    cases htok : token (.standard comment) m t c with
    | ok p =>
      rw [htok] at hone
      cases hone
    | error e =>
      rw [htok] at hone
      cases hone with
      | neither cause => exact ⟨(Fault.of cause t.raw).locate t, by simp [tokens, htok, Refusal.locate], rfl⟩
  | cons u pre ih =>
    simp only [Nesting.run, Option.bind_eq_some_iff] at hpre
    obtain ⟨s₁, hstep, hpre⟩ := hpre
    have hone := agrees_token hm h (hclass u List.mem_cons_self) (hread u List.mem_cons_self)
    rw [hstep] at hone
    cases htok : token (.standard comment) m u c with
    | error e =>
      rw [htok] at hone
      cases hone
    | ok p =>
      rw [htok] at hone
      cases hone with
      | both hsound =>
        obtain ⟨f, hf, hplace⟩ := ih (fun v hv => hclass v (List.mem_cons_of_mem u hv))
          (fun v hv => hread v (List.mem_cons_of_mem u hv)) hsound hpre
        exact ⟨f, by simp [tokens, htok, hf], hplace⟩

/-- what the check of the generated code refuses is no fault of the template -/
theorem not_fault_of_checkCode {t : Template} {e : Refusal} (h : checkCode t = .error e) (f : Fault) :
    e ≠ .fault f := by
  rintro rfl
  unfold checkCode at h
  split at h
  · simp at h
  · cases hshape : Shape.check (programLines t.fragments) with
    | error e =>
      rw [hshape] at h
      cases e <;> simp [Except.mapError, misshapen] at h
    | ok u =>
      simp only [hshape, Except.mapError, ok_bind] at h
      split at h
      · simp at h
      · split at h <;> simp at h

/-- whether a scanned template has a fault is decided by its fragments -/
theorem compile_eq_fault {k : Compiler} {source : Text} {ts : List Token} (hscan : k.scan source = .ok ts) (f : Fault) :
    k.compile source = .error (.fault f) ↔ k.fragments ts = .error (.fault f) := by
  unfold compile
  rw [hscan, ok_bind]
  cases hfs : k.fragments ts with
  | error e => simp
  | ok fs =>
    simp only [ok_bind, reduceCtorEq, iff_false]
    cases hcheck : checkCode (k.template ts fs) with
    | error e => simpa using not_fault_of_checkCode hcheck f
    | ok u => simp

/-- **The compiler accepts the well nested templates.** In safe mode a template whose tokens follow their grammars has
no fault exactly if it is well nested. The fault of another is at the first token with which the tokens before it cannot
be continued to well nested ones, or, if there is none, at the beginning of the innermost construct that is open. -/
theorem compile_iff_wellNested (s : Settings) (strict : Option Bool) (names : List Text) (source : Text)
    (ts : List Token) (hsafe : (standard s strict names).mode.strict = false)
    (hscan : (standard s strict names).scan source = .ok ts) (hread : ∀ t ∈ ts, t.FollowsGrammar) :
    ((∀ f, (standard s strict names).compile source ≠ .error (.fault f)) ↔ WellNested ts) ∧
    (¬ WellNested ts → ∃ f t, (standard s strict names).compile source = .error (.fault f) ∧
      f.place = some t.place ∧ (FirstBad ts t ∨ (Viable ts ∧ InnermostOpen ts t))) := by
  have hclass : ∀ t ∈ ts, t.Classified (.standard s.comment) := classified_of_scan hscan
  have hstart : Context.start.nesting = Nesting.start := rfl
  have haccept : WellNested ts → ∀ f, (standard s strict names).compile source ≠ .error (.fault f) := by
    intro hw f
    obtain ⟨s', hrun, hclosed⟩ := (Nesting.wellNested_iff ts).1 hw
    obtain ⟨fs, c', htoks, -, rfl⟩ := tokens_of_run hsafe hclass hread Context.sound_start hrun
    have hempty : c'.stack = [] := List.map_eq_nil_iff.1 hclosed
    have hfs : (standard s strict names).fragments ts = .ok fs := by
      unfold fragments
      rw [show (standard s strict names).registry = .standard s.comment from rfl, htoks]
      simp [checkClosed, hempty]
    rw [Ne, compile_eq_fault hscan, hfs]
    simp
  have hreject : ¬ WellNested ts → ∃ f t, (standard s strict names).compile source = .error (.fault f) ∧
      f.place = some t.place ∧ (FirstBad ts t ∨ (Viable ts ∧ InnermostOpen ts t)) := by
    intro hw
    cases hrun : Nesting.start.run ts with
    | none =>
      obtain ⟨pre, t, post, s', rfl, hpre, hbad⟩ := Nesting.run_eq_none hrun
      obtain ⟨f, hf, hplace⟩ := tokens_of_bad hsafe hclass hread Context.sound_start hpre hbad
      refine ⟨f, t, (compile_eq_fault hscan f).2 ?_, hplace, .inl (Nesting.firstBad_of_step hpre hbad post)⟩
      unfold fragments
      rw [show (standard s strict names).registry = .standard s.comment from rfl, hf]
      rfl
    | some s' =>
      obtain ⟨fs, c', htoks, hsound, rfl⟩ := tokens_of_run hsafe hclass hread Context.sound_start hrun
      cases hstack : c'.stack with
      | nil => exact absurd ((Nesting.wellNested_iff ts).2 ⟨_, hrun, by simp [Context.nesting, hstack]⟩) hw
      | cons o rest =>
        have hopen : c'.nesting.stack = o.frame :: rest.map OpenConstruct.frame := by
          simp [Context.nesting, hstack]
        refine ⟨.here (.neverClosed o.token.raw) o.token, o.token, (compile_eq_fault hscan _).2 ?_, rfl,
          .inr ⟨(Nesting.viable_iff ts).2 ⟨_, hrun⟩, Nesting.innermostOpen_of_run hrun hopen⟩⟩
        unfold fragments
        rw [show (standard s strict names).registry = .standard s.comment from rfl, htoks]
        simp [checkClosed, hstack]
  refine ⟨⟨fun hok => ?_, haccept⟩, hreject⟩
  refine Classical.byContradiction fun hw => ?_
  obtain ⟨f, _, hf, -⟩ := hreject hw
  exact hok f hf

/-- a conditional in which a loop stays open is at fault at the loop -/
theorem compile_open_loop :
    let ts : List Token := [⟨.when, "if a", 0, 1⟩, ⟨.literal, "x", 10, 1⟩, ⟨.loop, "for b in a", 11, 1⟩]
    (standard .standard none []).scan "\x7b\x7b if a \x7d\x7dx\x7b\x7b for b in a \x7d\x7d" = .ok ts ∧
    ∃ f t, (standard .standard none []).compile "\x7b\x7b if a \x7d\x7dx\x7b\x7b for b in a \x7d\x7d" =
      .error (.fault f) ∧
      f.place = some t.place ∧ (FirstBad ts t ∨ (Viable ts ∧ InnermostOpen ts t)) := by
  have hscan : (standard .standard none []).scan "\x7b\x7b if a \x7d\x7dx\x7b\x7b for b in a \x7d\x7d" =
      .ok [⟨.when, "if a", 0, 1⟩, ⟨.literal, "x", 10, 1⟩, ⟨.loop, "for b in a", 11, 1⟩] := by cbv
  exact ⟨hscan, (compile_iff_wellNested .standard none [] _ _ rfl hscan (by decide +kernel)).2 (by decide +kernel)⟩

end Compiler

end Stencil
