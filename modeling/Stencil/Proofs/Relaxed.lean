/-
PROGRAMS WITHOUT DEMANDS. A program relaxed is nothing where it demanded a value, and else the same: its lines are those
of the program, so are its blocks, and code that can be loaded can be loaded relaxed.

- `tokens_relaxed`: tokens that compile in some mode compile in safe mode, to the fragments relaxed.
- `compile_relaxed`: so does a template.
- `null_programCode`: code has a null character only in a comment, and then the directive has it that the comment tells.
- `demands_of_read`, `read_strict`: in strict mode an interpolation without a fallback demands its value, and nothing
  else does.
-/
import Stencil.Proofs.Failing
import Stencil.Proofs.Lenient
import Stencil.Proofs.Lookups
import Stencil.Proofs.Visible

namespace Stencil

/-! ## Statements, lines and blocks -/

/-- a statement that writes nothing where it demanded a value -/
def Stmt.relaxed : Stmt → Stmt
  | emit e => emit e.relaxed
  | s => s

/-- a line whose statement is relaxed -/
def Line.relaxed (l : Line) : Line := { l with stmt := l.stmt.relaxed }

/-- a fragment whose lines are relaxed -/
def Fragment.relaxed (f : Fragment) : Fragment := { f with lines := f.lines.map Line.relaxed }

/-- a block whose statements are relaxed -/
def Block.relaxed : Block → Block
  | done => done
  | step s rest => step s.relaxed rest.relaxed
  | nest s body rest => nest s.relaxed body.relaxed rest.relaxed

namespace Expr

@[simp] theorem demands_relaxed (e : Expr) : e.relaxed.demands = [] := by
  cases e <;> rfl

theorem relaxed_of_demands {e : Expr} (h : e.demands = []) : e.relaxed = e := by
  cases e with
  | demand path reference => cases h
  | _ => rfl

end Expr

namespace Stmt

@[simp] theorem heads_relaxed (s : Stmt) : s.relaxed.heads = s.heads := by
  cases s <;> rfl

@[simp] theorem sequel_relaxed (s : Stmt) : s.relaxed.sequel = s.sequel := by
  cases s <;> rfl

theorem relaxed_of_demands {s : Stmt} (h : s.demands = []) : s.relaxed = s := by
  cases s with
  | emit e => exact congrArg emit (Expr.relaxed_of_demands h)
  | _ => rfl

end Stmt

namespace Block

@[simp] theorem loopDepth_relaxed (b : Block) : b.relaxed.loopDepth = b.loopDepth := by
  induction b with
  | done => rfl
  | step s rest ih => simpa only [relaxed, loopDepth] using ih
  | nest s body rest ihb ihr => cases s <;> simp only [relaxed, Stmt.relaxed, loopDepth, ihb, ihr]

@[simp] theorem readsNames_relaxed (b : Block) (ran : Bool) : b.relaxed.readsNames ran = b.readsNames ran := by
  induction b generalizing ran with
  | done => rfl
  | step s rest ih =>
    simp only [relaxed, readsNames, ih]
    cases s <;> rfl
  | nest s body rest ihb ihr => cases s <;> simp only [relaxed, Stmt.relaxed, readsNames, ihb, ihr]

end Block

/-- the blocks of relaxed lines -/
theorem readBlocks_relaxed (lines : List Line) : readBlocks (lines.map Line.relaxed) = (readBlocks lines).relaxed := by
  induction lines using readBlocks.induct with
  | case1 => simp [readBlocks, Block.relaxed]
  | case2 l ls h ihb ihr =>
    have hdeeper : (fun m : Line => decide (l.relaxed.depth < m.depth)) ∘ Line.relaxed =
        fun m => decide (l.depth < m.depth) := rfl
    have hl : l.relaxed.stmt.heads = true := by rw [← h]; exact Stmt.heads_relaxed _
    rw [List.map_cons, readBlocks, if_pos hl, List.takeWhile_map, List.dropWhile_map, hdeeper, ihb, ihr, readBlocks,
      if_pos h]
    rfl
  | case3 l ls h ih =>
    have hl : ¬l.relaxed.stmt.heads = true := by
      rw [show l.relaxed.stmt.heads = l.stmt.heads from Stmt.heads_relaxed _]
      exact h
    rw [List.map_cons, readBlocks, if_neg hl, ih, readBlocks, if_neg h]
    rfl

theorem placeLines_relaxed (fs : List Fragment) (d : Int) :
    placeLines d (fs.map Fragment.relaxed) = (placeLines d fs).map Line.relaxed := by
  induction fs generalizing d with
  | nil => rfl
  | cons f fs ih =>
    rw [List.map_cons, placeLines, placeLines, List.map_append, ← ih]
    simp [Fragment.relaxed, Line.relaxed]

theorem programLines_relaxed (fs : List Fragment) :
    programLines (fs.map Fragment.relaxed) = (programLines fs).map Line.relaxed := placeLines_relaxed fs bodyDepth

/-! ## Code that can be loaded -/

namespace Shape

theorem add_relaxed (s : Shape) (l : Line) : s.add l.relaxed = s.add l := by
  have hadmits : ∀ level : Level, admits level l.relaxed.stmt = admits level l.stmt := by
    intro level
    obtain ⟨d, s⟩ := l
    cases s <;> rfl
  simp only [add, hadmits]
  simp [Line.relaxed, Line.margin]

theorem check_relaxed (lines : List Line) : check (lines.map Line.relaxed) = check lines := by
  simp only [check, List.foldlM_map, add_relaxed]

end Shape

theorem readsNames_relaxed (lines : List Line) : readsNames (lines.map Line.relaxed) = readsNames lines := by
  have hmargin : (fun l : Line => decide (0 < l.margin)) ∘ Line.relaxed = fun l => decide (0 < l.margin) := rfl
  rw [readsNames, outerLines, List.dropWhile_map, hmargin, readBlocks_relaxed, Block.readsNames_relaxed]
  rfl

/-! ## Characters of the code -/

namespace Layout

/-- a character stands in a line -/
def Holds (c : Char) (l : Layout) : Prop := ∃ line ∈ l.lines, c ∈ line

variable {c : Char} {s : Settings}

theorem holds_addAt (hc : c ≠ ' ') (depth : Int) (text : Text) (l : Layout) :
    (l.addAt s depth text).Holds c ↔ c ∈ text ∨ l.Holds c := by
  simp [Holds, addAt, Settings.indentation, List.mem_replicate, hc]

theorem holds_addFragment (hc : c ≠ ' ') (lines : List (Int × Text)) (shift : Int) (l : Layout) :
    (l.addFragment s lines shift).Holds c ↔ (∃ p ∈ lines, c ∈ p.2) ∨ l.Holds c := by
  have hfold : ∀ acc : Layout, (lines.foldl (fun acc line => acc.addAt s (l.depth + line.1) line.2) acc).Holds c ↔
      (∃ p ∈ lines, c ∈ p.2) ∨ acc.Holds c := by
    induction lines with
    | nil => simp
    | cons p lines ih =>
      intro acc
      rw [List.foldl_cons, ih, holds_addAt hc]
      simp [or_assoc, or_left_comm]
  exact hfold l

theorem mem_source (hc : c ≠ '\n') (l : Layout) : c ∈ l.source ↔ l.Holds c := by
  have hfeed : c ∉ ['\n'] := by simpa using hc
  simp [source, Text.mem_sep hfeed, hc, Holds]

end Layout

/-- a character in what one token adds to the code -/
def InCode (c : Char) (s : Settings) (p : Token × Fragment) : Prop :=
  ((s.annotate && p.1.kind != .literal) = true ∧ c ∈ remark p.1) ∨ ∃ l ∈ p.2.lines, c ∈ l.stmt.code

/-- **A character of the code** that is no blank and no line feed stands in the head or in what some token adds. -/
theorem mem_programCode {c : Char} (hc : c ≠ ' ') (hn : c ≠ '\n') (s : Settings) (parts : List (Token × Fragment)) :
    c ∈ programCode s parts ↔ (∃ p ∈ headLines, c ∈ p.2) ∨ ∃ p ∈ parts, InCode c s p := by
  have htoken : ∀ (l : Layout) (p : Token × Fragment), (addToken s l p).Holds c ↔ InCode c s p ∨ l.Holds c := by
    intro l p
    have hlines : (∃ q ∈ p.2.codeLines, c ∈ q.2) ↔ ∃ l ∈ p.2.lines, c ∈ l.stmt.code := by
      refine ⟨fun ⟨q, hq, hc⟩ => ?_, fun ⟨l, hl, hc⟩ => ⟨_, List.mem_map_of_mem hl, hc⟩⟩
      obtain ⟨l, hl, rfl⟩ := List.mem_map.1 hq
      exact ⟨l, hl, hc⟩
    unfold addToken
    cases h : s.annotate && p.1.kind != .literal with
    | false => simp [Layout.holds_addFragment hc, hlines, InCode, h]
    | true => simp [Layout.holds_addFragment hc, hlines, InCode, h, Layout.add, Layout.holds_addAt hc, or_assoc,
        or_left_comm]
  have hfold : ∀ l : Layout, (parts.foldl (addToken s) l).Holds c ↔ (∃ p ∈ parts, InCode c s p) ∨ l.Holds c := by
    induction parts with
    | nil => simp
    | cons p parts ih =>
      intro l
      rw [List.foldl_cons, ih, htoken]
      simp [or_assoc, or_left_comm]
  rw [programCode, Layout.mem_source hn, programLayout, hfold, Layout.holds_addFragment hc]
  simp [Layout.Holds, Layout.start, or_comm]

/-- a null character of a comment stands in the directive that it tells -/
theorem null_of_remark {t : Token} (h : '\x00' ∈ remark t) : '\x00' ∈ t.raw := by
  obtain ⟨w, hw, hmem⟩ := word_of_mem_remark (by decide) h
  exact (mem_words hw hmem).1

/-- **A null character of the code** stands in a directive that a comment tells. -/
theorem null_programCode {s : Settings} {parts : List (Token × Fragment)} (h : '\x00' ∈ programCode s parts) :
    s.annotate = true ∧ ∃ p ∈ parts, p.1.kind ≠ .literal ∧ '\x00' ∈ p.1.raw := by
  rw [mem_programCode (by decide) (by decide)] at h
  rcases h with hhead | ⟨p, hp, ⟨htold, hmem⟩ | ⟨l, -, hmem⟩⟩
  · exact absurd hhead (by decide)
  · rw [Bool.and_eq_true, bne_iff_ne] at htold
    exact ⟨htold.1, p, hp, htold.2, null_of_remark hmem⟩
  · exact absurd hmem (not_mem_code (by decide) l.stmt)

/-! ## What a token demands -/

theorem Expr.demands_of_relaxed {e : Expr} (h : e.relaxed = e) : e.demands = [] := by
  rw [← h, demands_relaxed]

theorem Test.demands_eq (t : Test) : t.demands = t.exprs.flatMap Expr.demands := by
  cases t <;> simp [demands, exprs]

/-- what a condition demands, its expressions demand -/
theorem Condition.demands_eq (c : Condition) : c.demands = c.exprs.flatMap Expr.demands := by
  simp only [demands, exprs, List.flatMap_append, List.flatMap_assoc, Test.demands_eq]

namespace Directive

variable {m : Mode} {bound : List Text}

theorem demands_value {source : Text} {e : Expr} (h : m.value bound true source = .ok e) : e.demands = [] :=
  Expr.demands_of_relaxed (relaxed_of_value h (.inl rfl))

theorem demands_operand {source : Text} {e : Expr} (h : m.operand bound true source = .ok e) :
    e.demands = [] := by
  unfold Mode.operand at h
  split at h
  · rw [map_eq_ok] at h
    obtain ⟨l, -, rfl⟩ := h
    rfl
  · exact demands_value h

end Directive

namespace Instruction

open Directive

variable {m : Mode} {bound : List Text} {t : Token} {i : Instruction}

/-- the references that an instruction demands a value of -/
def demands : Instruction → List Text
  | act (.emit e) => e.demands
  | act (.generate e _ _ _) => e.demands
  | opening (.loop _ _ e) => e.demands
  | opening (.form e _ _) => e.demands
  | opening (.phrase _ params) => params.flatMap fun p => p.2.demands
  | when c => c.demands
  | elsewhen c => c.demands
  | _ => []

theorem demands_eq (i : Instruction) : i.demands = i.exprs.flatMap Expr.demands := by
  cases i with
  | act a => cases a <;> simp [demands, exprs]
  | opening o => cases o <;> simp [demands, exprs, List.flatMap_map]
  | _ => simp [demands, exprs, Condition.demands_eq]

/-- **What a token demands** is the value of the interpolation that it is, if it has no fallback. -/
theorem demands_of_read (h : read m bound t = .ok i) :
    i.demands = [] ∨ t.kind = .interpolation ∧ ∃ r, Reference.parse t.raw = .ok r ∧ r.fallback = none ∧
      i = .act (.emit (.demand r.path r.raw)) := by
  by_cases hk : t.kind = .interpolation
  · simp only [read, hk, bind_eq_ok] at h
    obtain ⟨e, he, h⟩ := h
    cases h
    simp only [Mode.value, bind_eq_ok] at he
    obtain ⟨r, hr, -, -, he⟩ := he
    cases hf : r.fallback with
    | some f =>
      simp only [hf, bind_eq_ok] at he
      obtain ⟨l, -, he⟩ := he
      cases he
      exact .inl rfl
    | none =>
      rw [hf] at he
      cases he
      by_cases hs : (m.strict && !false) = true
      · exact .inr ⟨hk, r, hr, hf, by simp only [hs, if_true]⟩
      · exact .inl (by simp only [hs]; rfl)
  · refine .inl ?_
    rw [demands_eq, List.flatMap_eq_nil_iff]
    intro e he
    obtain ⟨source, hsource | hsource⟩ := (given_of_read h hk).2 e he
    · exact demands_value hsource
    · exact demands_operand hsource

/-- **In strict mode** an interpolation without a fallback demands its value. -/
theorem read_strict (h : read m bound t = .ok i) (hm : m.strict = true) (hk : t.kind = .interpolation) {r : Reference}
    (hr : Reference.parse t.raw = .ok r) (hf : r.fallback = none) : i = .act (.emit (.demand r.path r.raw)) := by
  simp only [read, hk, Mode.value, hr, ok_bind, bind_eq_ok, hf, hm] at h
  obtain ⟨e, ⟨-, -, he⟩, h⟩ := h
  cases he
  cases h
  rfl

/-! ## Compiling what a token asks for -/

theorem first_relaxed (o : Opening) (n : Nat) : (o.first n).relaxed = o.first n := by
  cases o with
  | loop names path e =>
    have hbinds : (loopBinds names (n + 2) (n + 3)).map (fun s => (⟨2, s⟩ : Line).relaxed) =
        (loopBinds names (n + 2) (n + 3)).map fun s => ⟨2, s⟩ := by
      unfold loopBinds
      split <;> rfl
    simpa [Opening.first, Fragment.relaxed, Line.relaxed, Stmt.relaxed] using hbinds
  | _ => rfl

theorem last_relaxed {t : Token} {c : Context} {f : Family} {fragment : Fragment}
    (h : f.closer.last t c = .ok fragment) : fragment.relaxed = fragment := by
  cases f with
  | capture =>
    simp only [Family.closer, Reader.last, endCapture] at h
    split at h
    · simp at h
    · rw [map_eq_ok] at h
      obtain ⟨name, -, rfl⟩ := h
      rfl
  | _ =>
    cases h
    rfl

/-- an instruction relaxed compiles to its fragment relaxed -/
theorem compile_relaxed {c c' : Context} {f : Fragment} (h : i.compile t c = .ok (f, c')) :
    i.relaxed.compile t c = .ok (f.relaxed, c') := by
  cases i with
  | act a =>
    have hpart : a.relaxed.isPart = a.isPart := by cases a <;> rfl
    have hfragment : a.relaxed.fragment = a.fragment.relaxed := by cases a <;> rfl
    simp only [compile, relaxed, hpart, hfragment] at h ⊢
    split at h
    · simp at h
    · rename_i hopen
      cases h
      rw [if_neg hopen]
  | opening o =>
    obtain ⟨rfl, -⟩ := compile_opening_ok h
    rw [first_relaxed]
    exact h
  | when cond =>
    cases h
    rfl
  | elsewhen cond =>
    simp only [compile, relaxed, map_eq_ok, Prod.mk.injEq] at h ⊢
    obtain ⟨c₁, hc, rfl, rfl⟩ := h
    exact ⟨c₁, hc, rfl, rfl⟩
  | otherwise =>
    simp only [compile, relaxed, map_eq_ok, Prod.mk.injEq] at h ⊢
    obtain ⟨c₁, hc, rfl, rfl⟩ := h
    exact ⟨c₁, hc, rfl, rfl⟩
  | closing f =>
    simp only [compile, relaxed] at h ⊢
    split at h
    · simp at h
    · split at h
      · rename_i hfamily
        rw [if_pos hfamily]
        rw [map_eq_ok] at h ⊢
        obtain ⟨fragment, hf, h⟩ := h
        cases h
        exact ⟨_, hf, by rw [last_relaxed hf]⟩
      · simp at h

/-- a fragment demands what its instruction does -/
theorem demands_of_compile {c c' : Context} {f : Fragment} (h : i.compile t c = .ok (f, c')) :
    (f.lines.flatMap fun l => l.stmt.demands) = i.demands := by
  cases i with
  | act a =>
    obtain ⟨rfl, -⟩ := compile_act_ok h
    cases a <;> simp [Act.fragment, Fragment.statements, Fragment.empty, Stmt.demands, demands]
  | opening o =>
    obtain ⟨rfl, -⟩ := compile_opening_ok h
    cases o with
    | loop names path e =>
      have hbinds : (loopBinds names (c.counter + 2) (c.counter + 3)).flatMap Stmt.demands = [] := by
        unfold loopBinds
        split <;> rfl
      simpa [Opening.first, Stmt.demands, demands, List.flatMap_map] using hbinds
    | _ => simp [Opening.first, Fragment.statements, Stmt.demands, demands]
  | when cond =>
    cases h
    simp [Stmt.demands, demands]
  | elsewhen cond =>
    simp only [compile, map_eq_ok, Prod.mk.injEq] at h
    obtain ⟨c₁, -, rfl, -⟩ := h
    simp [Stmt.demands, demands]
  | otherwise =>
    simp only [compile, map_eq_ok, Prod.mk.injEq] at h
    obtain ⟨c₁, -, rfl, -⟩ := h
    simp [Stmt.demands, demands]
  | closing f =>
    simp only [compile] at h
    split at h
    · simp at h
    · split at h
      · rw [map_eq_ok] at h
        obtain ⟨fragment, hf, h⟩ := h
        cases h
        have hfragment := last_relaxed hf
        cases f with
        | capture =>
          simp only [Family.closer, Reader.last, endCapture] at hf
          split at hf
          · simp at hf
          · rw [map_eq_ok] at hf
            obtain ⟨name, -, rfl⟩ := hf
            rfl
        | _ =>
          cases hf
          rfl
      · simp at h

end Instruction

/-! ## Templates -/

namespace Compiler

variable {comment : Text} {m : Directive.Mode}

/-- **Tokens that compile** in some mode compile in safe mode, to the fragments relaxed. -/
theorem tokens_relaxed {c c' : Context} {ts : List Token} {fs : List Fragment}
    (hclass : ∀ t ∈ ts, t.Classified (.standard comment)) (h : tokens (.standard comment) m c ts = .ok (fs, c'))
    (names : List Text) : tokens (.standard comment) ⟨false, names⟩ c ts = .ok (fs.map Fragment.relaxed, c') := by
  induction ts generalizing c fs with
  | nil =>
    cases h
    rfl
  | cons t ts ih =>
    obtain ⟨ht, hts⟩ := List.forall_mem_cons.1 hclass
    obtain ⟨i, f, c₁, rest, hread, -, hcompile, hrest, rfl⟩ := tokens_cons_ok ht h
    have htoken : token (.standard comment) ⟨false, names⟩ t c = .ok (f.relaxed, c₁) := by
      rw [Instruction.token_of_read ht (Instruction.read_lenient hread names c.bound),
        Instruction.compile_relaxed hcompile]
    rw [tokens, htoken]
    simp only [ih hts hrest, map_ok, List.map_cons]

/-- the fragment of a token of a template is compiled from what the token asks for -/
theorem read_of_tokens {c c' : Context} {ts : List Token} {fs : List Fragment}
    (hclass : ∀ t ∈ ts, t.Classified (.standard comment)) (h : tokens (.standard comment) m c ts = .ok (fs, c')) :
    ∀ p ∈ ts.zip fs, ∃ bound i c₁ c₂, Instruction.read m bound p.1 = .ok i ∧ i.compile p.1 c₁ = .ok (p.2, c₂) := by
  induction ts generalizing c fs with
  | nil => simp
  | cons t ts ih =>
    obtain ⟨ht, hts⟩ := List.forall_mem_cons.1 hclass
    obtain ⟨i, f, c₁, rest, hread, -, hcompile, hrest, rfl⟩ := tokens_cons_ok ht h
    rw [List.zip_cons_cons]
    exact List.forall_mem_cons.2 ⟨⟨_, i, c, c₁, hread, hcompile⟩, ih hts hrest⟩

/-- tokens that compile to code that can be loaded are a template -/
theorem compile_of_tokens {k : Compiler} {source : Text} {ts : List Token} {fs : List Fragment} {c : Context}
    (hscan : k.scan source = .ok ts) (htoks : tokens k.registry k.mode .start ts = .ok (fs, c)) (hclosed : c.stack = [])
    (hcheck : checkCode (k.template ts fs) = .ok ()) : k.compile source = .ok (k.template ts fs) := by
  simp only [compile, fragments, hscan, htoks, checkClosed, hclosed, hcheck, ok_bind, pure_eq_ok]

/-- code that can be loaded can be loaded relaxed -/
theorem checkCode_relaxed {k k' : Compiler} (hk : k'.settings = k.settings) {ts : List Token} {fs : List Fragment}
    (h : checkCode (k.template ts fs) = .ok ()) : checkCode (k'.template ts (fs.map Fragment.relaxed)) = .ok () := by
  have hnull : '\x00' ∈ (k'.template ts (fs.map Fragment.relaxed)).code → '\x00' ∈ (k.template ts fs).code := by
    simp only [template, hk, mem_programCode (c := '\x00') (by decide) (by decide)]
    rintro (hhead | ⟨p, hp, hcode⟩)
    · exact .inl hhead
    · rw [List.zip_map_right, List.mem_map] at hp
      obtain ⟨q, hq, rfl⟩ := hp
      exact .inr ⟨q, hq, hcode.imp id fun ⟨l, _, hnull⟩ => absurd hnull (not_mem_code (by decide) l.stmt)⟩
  unfold checkCode at h ⊢
  split at h
  · simp at h
  · rename_i hcode
    have hcode' : ¬(k'.template ts (fs.map Fragment.relaxed)).code.contains '\x00' = true := by
      simp only [List.contains_iff_mem] at hcode ⊢
      exact fun h => hcode (hnull h)
    have hlines : programLines (k'.template ts (fs.map Fragment.relaxed)).fragments =
        (programLines (k.template ts fs).fragments).map Line.relaxed := programLines_relaxed fs
    have hdepth : (k'.template ts (fs.map Fragment.relaxed)).program.loopDepth =
        (k.template ts fs).program.loopDepth := by
      simp only [template, programLines_relaxed, readBlocks_relaxed, Block.loopDepth_relaxed]
    rw [if_neg hcode', hlines, Shape.check_relaxed, readsNames_relaxed, hdepth]
    exact h

/-- **A template that compiles** in some mode compiles in safe mode, to its fragments relaxed. -/
theorem compile_relaxed {s : Settings} {strict safe : Option Bool} {names : List Text} {source : Text} {t : Template}
    (hsafe : (standard s safe names).mode.strict = false) (h : (standard s strict names).compile source = .ok t) :
    (standard s safe names).compile source =
      .ok ((standard s safe names).template t.tokens (t.fragments.map Fragment.relaxed)) := by
  obtain ⟨ts, fs, c, hscan, htoks, hclosed, rfl, hcheck⟩ := compile_ok h
  have hmode : (standard s safe names).mode = ⟨false, names⟩ := by
    rw [← hsafe]
    rfl
  have hclass : ∀ t ∈ ts, t.Classified (.standard s.comment) := classified_of_scan hscan
  have hstrict : tokens (.standard s.comment) (standard s strict names).mode .start ts = .ok (fs, c) := htoks
  have hrelaxed := tokens_relaxed hclass hstrict names
  have htoks' : tokens (standard s safe names).registry (standard s safe names).mode .start ts =
      .ok (fs.map Fragment.relaxed, c) := by
    rw [hmode]
    exact hrelaxed
  have hscan' : (standard s safe names).scan source = .ok ts := hscan
  have hcheck' : checkCode ((standard s safe names).template ts (fs.map Fragment.relaxed)) = .ok () :=
    checkCode_relaxed (k := standard s strict names) rfl hcheck
  exact compile_of_tokens hscan' htoks' hclosed hcheck'

end Compiler

end Stencil
