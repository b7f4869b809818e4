/-
COMPILED DERIVATIONS. What compiles derives and asks for a passage; here is the converse. A derivation that asks for a
passage compiles if its sections have different names and the parts of its forms stand in forms, and its fragments are
the passage's. So the templates that compile are known by their derivations alone, in strict mode too.

- `null_code_iff`: which code has a null character.
- `token_of_step`: a token that can be read, by its text and in its place, is compiled.
- `tokens_of_page`: so are the tokens of a derivation that asks for a passage.
- `compile_eq_ok_iff`: which templates are compiled, and what they become.
-/
import Stencil.Proofs.Refusals

namespace Stencil

/-! ## Null characters -/

/-- every character but a blank stands in a word -/
theorem exists_word {s : Text} {c : Char} (hc : c ∈ s) (hblank : Text.isBlank c = false) :
    ∃ w ∈ Text.words s, c ∈ w := by
  have hfrom (word s : Text) (h : c ∈ word ∨ c ∈ s) : ∃ w ∈ Text.wordsFrom word s, c ∈ w := by
    induction s generalizing word with
    | nil =>
      have hword : c ∈ word := h.resolve_right List.not_mem_nil
      have hne : word.isEmpty = false := List.isEmpty_eq_false_iff.2 (List.ne_nil_of_mem hword)
      exact ⟨word.reverse, by simp [Text.wordsFrom, hne], List.mem_reverse.2 hword⟩
    | cons d s ih =>
      rw [Text.wordsFrom]
      split
      · rename_i hd
        have hlater : c ∈ d :: s → ∃ w ∈ Text.wordsFrom [] s, c ∈ w := by
          intro hmem
          refine ih [] (.inr ((List.mem_cons.1 hmem).resolve_left ?_))
          rintro rfl
          rw [hd] at hblank
          cases hblank
        split
        · rename_i hempty
          exact hlater (h.resolve_left (by simp [List.isEmpty_iff.1 hempty]))
        · rcases h with hword | hmem
          · exact ⟨_, List.mem_cons_self, List.mem_reverse.2 hword⟩
          · obtain ⟨w, hw, hcw⟩ := hlater hmem
            exact ⟨w, List.mem_cons_of_mem _ hw, hcw⟩
      · refine ih _ ?_
        rcases h with hword | hmem
        · exact .inl (List.mem_cons_of_mem _ hword)
        · exact (List.mem_cons.1 hmem).imp (fun heq : c = d => heq ▸ List.mem_cons_self) id
  exact hfrom [] s (.inr hc)

/-- a comment has a null character exactly if the directive has one that it tells -/
theorem null_remark_iff {t : Token} : '\x00' ∈ remark t ↔ '\x00' ∈ t.raw := by
  refine ⟨null_of_remark, fun h => ?_⟩
  obtain ⟨w, hw, hmem⟩ := exists_word h (by decide)
  refine List.mem_flatten.2 ⟨Text.sep [' '] (Text.words t.raw), by simp, ?_⟩
  exact (Text.mem_sep (by decide) _).2 ⟨w, hw, hmem⟩

/-- the directives have no null character that a comment would tell -/
def Settings.Tells (s : Settings) (ts : List Token) : Prop :=
  s.annotate = true → ∀ t ∈ ts, t.kind ≠ .literal → '\x00' ∉ t.raw

/-- **Code has a null character** exactly if a comment tells one of a directive. -/
theorem null_code_iff {s : Settings} {ts : List Token} {fs : List Fragment} (hlength : fs.length = ts.length) :
    '\x00' ∉ programCode s (ts.zip fs) ↔ s.Tells ts := by
  constructor
  · intro h hannotate t ht hk hnull
    obtain ⟨i, hi, rfl⟩ := List.getElem_of_mem ht
    have hpair : (ts[i], fs[i]) ∈ ts.zip fs := by
      rw [← List.getElem_zip (h := by simp [hi, hlength])]
      exact List.getElem_mem _
    refine h ((mem_programCode (by decide) (by decide) s _).2 (.inr ⟨_, hpair, .inl ⟨?_, null_remark_iff.2 hnull⟩⟩))
    simp [hannotate, hk]
  · intro h hnull
    obtain ⟨hannotate, p, hp, hk, hraw⟩ := null_programCode hnull
    exact h hannotate p.1 (List.of_mem_zip hp).1 hk hraw

/-! ## Derivations -/

theorem Instruction.read_of_closes? {m : Directive.Mode} {bound : List Text} {t : Token} {f : Family}
    (h : t.closes? = some f) : Instruction.read m bound t = .ok (.closing f) := by
  have hk := Token.kind_of_closes? h
  rw [Token.closes?, if_pos hk, Option.bind_eq_some_iff] at h
  obtain ⟨name, hname, hf⟩ := h
  simp only [Instruction.read, hk, Instruction.readClosing, hname, hf]

theorem bound_of_stack {c c' : Context} (h : c'.stack = c.stack) : c'.bound = c.bound := by
  rw [Context.bound, h, Context.bound]

namespace Compiler

variable {comment : Text} {m : Directive.Mode}

/-- **A token that can be read**, by its own text and among the open constructs, is compiled. -/
theorem token_of_step {c : Context} {t : Token} {i : Instruction} {s : Nesting}
    (hclass : t.Classified (.standard comment)) (h : c.Sound) (hi : Instruction.read m c.bound t = .ok i)
    (hstep : c.nesting.step t = some s) :
    ∃ f c', token (.standard comment) m t c = .ok (f, c') ∧ i.compile t c = .ok (f, c') ∧ c'.Sound ∧
      c'.nesting = s := by
  have hone := agrees_compile h (Instruction.fits_of_read hi)
  rw [hstep] at hone
  have htoken := Instruction.token_of_read hclass hi
  cases hcompile : i.compile t c with
  | error e =>
    rw [hcompile] at hone
    cases hone
  | ok p =>
    rw [hcompile] at hone
    cases hone with
    | both hsound => exact ⟨p.1, p.2, htoken.trans hcompile, rfl, hsound, rfl⟩

theorem tokens_cons_of {r : Registry} {c c₁ c' : Context} {t : Token} {ts : List Token} {f : Fragment}
    {fs : List Fragment} (ht : token r m t c = .ok (f, c₁)) (hts : tokens r m c₁ ts = .ok (fs, c')) :
    tokens r m c (t :: ts) = .ok (f :: fs, c') := by
  rw [tokens, ht]
  simp only [hts, map_ok]

theorem tokens_append_of {r : Registry} {c c₁ c' : Context} {a b : List Token} {fa fb : List Fragment}
    (ha : tokens r m c a = .ok (fa, c₁)) (hb : tokens r m c₁ b = .ok (fb, c')) :
    tokens r m c (a ++ b) = .ok (fa ++ fb, c') := by
  rw [tokens_append, ha, ok_bind, hb, map_ok]

/-- what compiling a derivation leaves: the constructs that were open, and what reading it leaves -/
theorem left_of_tokens {n : Nested} {c c' : Context} {fs : List Fragment} {s : Nesting}
    (hclass : ∀ t ∈ n.tokens, t.Classified (.standard comment)) (h : c.Sound)
    (hrun : c.nesting.run n.tokens = some s) (htokens : tokens (.standard comment) m c n.tokens = .ok (fs, c')) :
    c'.Sound ∧ c'.nesting = s ∧ c'.stack = c.stack := by
  obtain ⟨hsound, hrun'⟩ := run_of_tokens hclass h htokens
  obtain ⟨-, -, -, hstack, -⟩ := page_of_tokens n hclass htokens
  exact ⟨hsound, Option.some.inj (hrun'.symm.trans hrun), hstack⟩

mutual

/-- **A derivation that asks for a passage compiles** where it can be read. -/
theorem tokens_of_page : ∀ (n : Nested) {c : Context} {p : Passage} {s : Nesting},
    (∀ t ∈ n.tokens, t.Classified (.standard comment)) → c.Sound → n.page m c.bound = .ok p →
    c.nesting.run n.tokens = some s → ∃ fs c', tokens (.standard comment) m c n.tokens = .ok (fs, c')
  | .done, c, p, s, _, _, _, _ => ⟨[], c, rfl⟩
  | .single t ht rest, c, p, s, hclass, h, hp, hrun => by
    simp only [Nested.tokens, List.forall_mem_cons] at hclass
    simp only [Nested.tokens, Nesting.run, Option.bind_eq_some_iff] at hrun ⊢
    obtain ⟨s₁, hstep, hrun⟩ := hrun
    obtain ⟨a, r, hread, hr, -⟩ := page_single_ok hp
    obtain ⟨f, c₁, htoken, hcompile, hsound, rfl⟩ := token_of_step hclass.1 h hread hstep
    obtain ⟨-, rfl⟩ := Instruction.compile_act_ok hcompile
    obtain ⟨fs, c', hrest⟩ := tokens_of_page rest hclass.2 hsound hr hrun
    exact ⟨_, _, tokens_cons_of htoken hrest⟩
  | .construct g hg start hs body stop he rest, c, p, s, hclass, h, hp, hrun => by
    simp only [Nested.tokens, List.forall_mem_cons, List.forall_mem_append] at hclass
    obtain ⟨hstart, hbodyc, hstop, hrestc⟩ := hclass
    simp only [Nested.tokens, Nesting.run, Nesting.run_append, Option.bind_eq_some_iff] at hrun ⊢
    obtain ⟨s₁, hopen, s₂, hbody, s₃, hclose, hrest⟩ := hrun
    obtain ⟨o, b, r, hread, -, hb, hr, -⟩ := page_construct_ok hp
    obtain ⟨f, c₁, htoken, hcompile, hsound, rfl⟩ := token_of_step hstart h hread hopen
    obtain ⟨-, rfl⟩ := Instruction.compile_opening_ok hcompile
    have hbound : (Instruction.inside start c o).bound = c.bound ++ o.binds := by
      simp [Instruction.inside, Context.bound]
    rw [← hbound] at hb
    obtain ⟨fb, c₂, htokens⟩ := tokens_of_page body hbodyc hsound hb hbody
    obtain ⟨hsound₂, rfl, hstack⟩ := left_of_tokens hbodyc hsound hbody htokens
    obtain ⟨f', c₃, hlast, hcompile', hsound₃, rfl⟩ :=
      token_of_step hstop hsound₂ (Instruction.read_of_closes? he) hclose
    obtain ⟨-, -, rfl⟩ := Instruction.compile_closing_ok hstack hcompile'
    obtain ⟨fr, c', hrest'⟩ := tokens_of_page rest hrestc hsound₃ hr hrest
    exact ⟨_, _, tokens_cons_of htoken (tokens_append_of htokens (tokens_cons_of hlast hrest'))⟩
  | .conditional start hs body more rest, c, p, s, hclass, h, hp, hrun => by
    simp only [Nested.tokens, List.forall_mem_cons, List.forall_mem_append] at hclass
    obtain ⟨hstart, hbodyc, hmorec, hrestc⟩ := hclass
    simp only [Nested.tokens, Nesting.run, Nesting.run_append, Option.bind_eq_some_iff] at hrun ⊢
    obtain ⟨s₁, hopen, s₂, hbody, s₃, hmore, hrest⟩ := hrun
    obtain ⟨cond, b, ms, r, hread, hb, hms, hr, -⟩ := page_conditional_ok hp
    obtain ⟨f, c₁, htoken, hcompile, hsound, rfl⟩ := token_of_step hstart h hread hopen
    cases hcompile
    have hbound : (c.push ⟨some .conditional, start, [], false⟩).bound = c.bound := by
      simp [Context.push, Context.bound]
    rw [← hbound] at hb hms
    obtain ⟨fb, c₂, htokens⟩ := tokens_of_page body hbodyc hsound hb hbody
    obtain ⟨hsound₂, rfl, hstack⟩ := left_of_tokens hbodyc hsound hbody htokens
    rw [← bound_of_stack hstack] at hms
    obtain ⟨fm, c₃, hbranches⟩ := tokens_of_branches more hmorec hsound₂ hstack hms hmore
    obtain ⟨hsound₃, hrun₃⟩ := run_of_tokens hmorec hsound₂ hbranches
    obtain ⟨-, -, -, hstack₃, -⟩ := page_of_branches more hmorec hstack hbranches
    obtain rfl := Option.some.inj (hrun₃.symm.trans hmore)
    rw [← bound_of_stack hstack₃] at hr
    obtain ⟨fr, c', hrest'⟩ := tokens_of_page rest hrestc hsound₃ hr hrest
    exact ⟨_, _, tokens_cons_of htoken (tokens_append_of htokens (tokens_append_of hbranches hrest'))⟩

/-- branches that ask for choices compile where they can be read -/
theorem tokens_of_branches : ∀ (b : Branches) {o : OpenConstruct} {stack : List OpenConstruct} {c : Context}
    {p : Choices} {s : Nesting}, (∀ t ∈ b.tokens, t.Classified (.standard comment)) → c.Sound → c.stack = o :: stack →
    b.page m c.bound = .ok p → c.nesting.run b.tokens = some s →
    ∃ fs c', tokens (.standard comment) m c b.tokens = .ok (fs, c')
  | .stop e he, o, stack, c, p, s, hclass, h, hstack, hp, hrun => by
    simp only [Branches.tokens, List.forall_mem_cons] at hclass
    simp only [Branches.tokens, Nesting.run, Option.bind_eq_some_iff] at hrun ⊢
    obtain ⟨s₁, hstep, -⟩ := hrun
    obtain ⟨f, c₁, htoken, -⟩ := token_of_step hclass.1 h (Instruction.read_of_closes? (m := m) he) hstep
    exact ⟨_, _, tokens_cons_of htoken rfl⟩
  | .elsewhen e he body more, o, stack, c, p, s, hclass, h, hstack, hp, hrun => by
    simp only [Branches.tokens, List.forall_mem_cons, List.forall_mem_append] at hclass
    obtain ⟨hec, hbodyc, hmorec⟩ := hclass
    simp only [Branches.tokens, Nesting.run, Nesting.run_append, Option.bind_eq_some_iff] at hrun ⊢
    obtain ⟨s₁, hstep, s₂, hbody, hmore⟩ := hrun
    obtain ⟨cond, b, ms, hread, hb, hms, -⟩ := page_elsewhen_ok hp
    obtain ⟨f, c₁, htoken, hcompile, hsound, rfl⟩ := token_of_step hec h hread hstep
    obtain ⟨-, hbranch⟩ := Instruction.compile_elsewhen_ok hcompile
    rw [← Instruction.bound_branch hbranch] at hb hms
    obtain ⟨fb, c₂, htokens⟩ := tokens_of_page body hbodyc hsound hb hbody
    obtain ⟨hsound₂, rfl, hstack₂⟩ := left_of_tokens hbodyc hsound hbody htokens
    obtain ⟨o', rest', closed, -, rfl⟩ := Instruction.branch_ok hbranch
    rw [← bound_of_stack hstack₂] at hms
    obtain ⟨fm, c', hbranches⟩ := tokens_of_branches more hmorec hsound₂ hstack₂ hms hmore
    exact ⟨_, _, tokens_cons_of htoken (tokens_append_of htokens hbranches)⟩
  | .otherwise e he body stop hstop, o, stack, c, p, s, hclass, h, hstack, hp, hrun => by
    simp only [Branches.tokens, List.forall_mem_cons, List.forall_mem_append] at hclass
    obtain ⟨hec, hbodyc, hstopc, -⟩ := hclass
    simp only [Branches.tokens, Nesting.run, Nesting.run_append, Option.bind_eq_some_iff] at hrun ⊢
    obtain ⟨s₁, hstep, s₂, hbody, s₃, hclose, -⟩ := hrun
    obtain ⟨b, hb, -⟩ := page_otherwise_ok hp
    obtain ⟨f, c₁, htoken, hcompile, hsound, rfl⟩ := token_of_step hec h (read_of_page_otherwise hp) hstep
    obtain ⟨-, hbranch⟩ := Instruction.compile_otherwise_ok hcompile
    rw [← Instruction.bound_branch hbranch] at hb
    obtain ⟨fb, c₂, htokens⟩ := tokens_of_page body hbodyc hsound hb hbody
    obtain ⟨hsound₂, rfl, -⟩ := left_of_tokens hbodyc hsound hbody htokens
    obtain ⟨f', c₃, hlast, -⟩ :=
      token_of_step hstopc hsound₂ (Instruction.read_of_closes? (m := m) hstop) hclose
    exact ⟨_, _, tokens_cons_of htoken (tokens_append_of htokens (tokens_cons_of hlast rfl))⟩

end

variable {k : Compiler} {n : Nested}

/-- **The tokens that compile** are well nested and derive from what asks for a passage, and their fragments are the
passage's. -/
theorem fragments_eq_ok_iff (hk : k.registry = .standard comment) (hclass : ∀ t ∈ n.tokens, t.Classified k.registry)
    {fs : List Fragment} : k.fragments n.tokens = .ok fs ↔
      WellNested n.tokens ∧ ∃ p, n.page k.mode [] = .ok p ∧ fs = p.fragments 0 := by
  rw [hk] at hclass
  simp only [fragments, hk, bind_eq_ok, Prod.exists]
  constructor
  · rintro ⟨fs', c, htokens, u, hclosed, hfs⟩
    cases hfs
    obtain ⟨p, hp, hfragments, -⟩ := page_of_tokens n hclass htokens
    exact ⟨wellNested_of_tokens hclass htokens (stack_of_checkClosed hclosed), p, hp, hfragments⟩
  · rintro ⟨hnested, p, hp, rfl⟩
    obtain ⟨s, hrun, -⟩ := (Nesting.wellNested_iff _).1 hnested
    obtain ⟨fs, c, htokens⟩ := tokens_of_page n hclass Context.sound_start hp hrun
    obtain ⟨q, hq, hfragments, hstack, -⟩ := page_of_tokens n hclass htokens
    cases hq.symm.trans hp
    obtain rfl : fs = p.fragments 0 := hfragments
    exact ⟨_, c, htokens, (), by simp [checkClosed, hstack, Context.start], rfl⟩

/-- the tokens of a derivation that asks for a passage are refused only when their code is loaded -/
theorem compile_of_page (hk : k.registry = .standard comment) {source : Text} {p : Passage}
    (hscan : k.scan source = .ok n.tokens) (hp : n.page k.mode [] = .ok p)
    (hfs : k.fragments n.tokens = .ok (p.fragments 0)) :
    k.compile source =
      if (k.template n.tokens (p.fragments 0)).code.contains '\x00' then .error .nullCharacter
      else if depthLimit ≤ n.levels + 1 then .error .depthLimit
      else if loopLimit < n.loops then .error .loopLimit
      else .ok (k.template n.tokens (p.fragments 0)) := by
  have hprogram : (k.template n.tokens (p.fragments 0)).program = p.block 0 := readBlocks_passage p
  rw [compile_of_fragments hk hscan hfs, hprogram, measures_height.page n hp, measures_loopDepth.page n hp]
  rfl

/-- **The templates that compile** are well nested and derive from what asks for a passage, no comment of them tells a
null character, and not too many levels or loops stand in one another. -/
theorem compile_eq_ok_iff (hk : k.registry = .standard comment) {source : Text} (hscan : k.scan source = .ok n.tokens)
    {t : Template} : k.compile source = .ok t ↔
      (∃ p, n.page k.mode [] = .ok p ∧ t = k.template n.tokens (p.fragments 0)) ∧ WellNested n.tokens ∧
        k.settings.Tells n.tokens ∧ n.levels + 1 < depthLimit ∧ n.loops ≤ loopLimit := by
  have hclass : ∀ t ∈ n.tokens, t.Classified k.registry := classified_of_scan hscan
  have hnull {fs : List Fragment} (hfs : k.fragments n.tokens = .ok fs) :
      '\x00' ∉ (k.template n.tokens fs).code ↔ k.settings.Tells n.tokens :=
    null_code_iff (length_fragments hfs)
  constructor
  · intro h
    obtain ⟨ts, fs, c, hscan', htokens, hclosed, rfl, -⟩ := compile_ok h
    cases hscan.symm.trans hscan'
    have hfs : k.fragments n.tokens = .ok fs := by simp [fragments, htokens, checkClosed, hclosed]
    obtain ⟨hnested, p, hp, rfl⟩ := (fragments_eq_ok_iff hk hclass).1 hfs
    rw [compile_of_page hk hscan hp hfs] at h
    split at h
    · cases h
    · rename_i hcode
      split at h
      · cases h
      · rename_i hlevels
        split at h
        · cases h
        · rename_i hloops
          exact ⟨⟨p, hp, rfl⟩, hnested, (hnull hfs).1 fun hmem => hcode (List.contains_iff_mem.2 hmem),
            Nat.lt_of_not_le hlevels, Nat.le_of_not_lt hloops⟩
  · rintro ⟨⟨p, hp, rfl⟩, hnested, htells, hlevels, hloops⟩
    have hfs := (fragments_eq_ok_iff hk hclass).2 ⟨hnested, p, hp, rfl⟩
    rw [compile_of_page hk hscan hp hfs, if_neg fun hmem => (hnull hfs).2 htells (List.contains_iff_mem.1 hmem),
      if_neg (Nat.not_le_of_lt hlevels), if_neg (Nat.not_lt_of_le hloops)]

end Compiler

end Stencil
