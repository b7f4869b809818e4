/-
TEMPLATE TEXT IS NO CODE. What a directive contributes to the program has one of the shapes that its grammar has, and
what it takes from the template stands there in literals only. So the lines of code that a token gives, read by the
shapes of lines and the rules for literals, are exactly the statements for the parts that the grammar found in it:
no text of a template adds a line, ends a literal or becomes anything else than the value of one.

- `legible_value`, `legible_operand`: what is read from a template can be read back from code.
- `Reader.Begins`, `Reader.Ends`: the statements of a directive, by the parts of its text.
- `Reader.reads_back`: the lines of a token are these statements.
-/
import Stencil.Proofs.Lines
import Stencil.Proofs.Names
import Stencil.Render.Run

namespace Stencil

/-! ## Legible expressions -/

/-- a literal whose double is in the form in which doubles are stored -/
def Literal.Stored : Literal → Prop
  | float x => x.Canonical
  | _ => True

/-- an expression all literals of which are stored so -/
def Expr.Stored : Expr → Prop
  | literal l => l.Stored
  | lookup _ default => default.Stored
  | demand _ _ => True

theorem Code.legible_of_stored {l : Literal} (hstored : l.Stored) (hfinite : l.Finite) : Code.Legible l := by
  cases l with
  | float x =>
    cases x with
    | finite negative m e => exact hstored
    | infinite negative => exact hfinite.elim
  | _ => trivial

theorem Expr.legible_of_stored {e : Expr} (hstored : e.Stored) (hfinite : e.Finite) : e.Legible := by
  cases e with
  | literal l => exact Code.legible_of_stored hstored hfinite
  | lookup path default => exact Code.legible_of_stored hstored hfinite
  | demand path reference => trivial

/-- **A literal of a template** is stored as doubles are. -/
theorem Literal.stored_of_parse {source : Text} {l : Literal} (h : Literal.parse source = .ok l) : l.Stored := by
  have hwords : ∀ w ∈ Literal.words, w.2.Stored := by
    simp [Literal.words, Literal.Stored]
  simp only [Literal.parse] at h
  split at h
  · rename_i w hw
    cases h
    exact hwords w (List.mem_of_find?_eq_some hw)
  · split at h
    · cases h
      trivial
    · split at h
      · split at h
        · simp at h
        · cases h
          trivial
      · split at h
        · cases h
          exact Binary64.canonical_ofDecimal _ _ _
        · simp at h

namespace Directive

variable {m : Mode} {bound : List Text} {source : Text} {e : Expr}

theorem stored_value {lenient : Bool} (h : m.value bound lenient source = .ok e) : e.Stored := by
  simp only [Mode.value, bind_eq_ok] at h
  obtain ⟨r, -, _, -, h⟩ := h
  split at h
  · simp only [bind_eq_ok] at h
    obtain ⟨l, hl, h⟩ := h
    cases h
    exact Literal.stored_of_parse hl
  · cases h
    split <;> trivial

theorem stored_operand (source : Text) (e : Expr) (h : m.operand bound true source = .ok e) : e.Stored := by
  unfold Mode.operand at h
  split at h
  · rw [map_eq_ok] at h
    obtain ⟨l, hl, rfl⟩ := h
    exact Literal.stored_of_parse hl
  · exact stored_value h

/-- **Attributes** have different names. -/
theorem nodup_attributes (s : Text) : ((attributes s).map Prod.fst).Nodup := nodup_foldl_putAt _ List.nodup_nil

end Directive

/-! ## The statements of a directive -/

namespace Reader

open Directive

/-- the statements by which a directive begins: their shapes are those of its grammar, and what stands in them is what
the grammar finds in the token's text -/
inductive Begins (m : Mode) (t : Token) (c : Context) : Reader → List Stmt → Prop
  | literal : Begins m t c .literal [.write t.raw]
  | interpolation {e : Expr} (value : m.value c.bound false t.raw = .ok e) : Begins m t c .interpolation [.emit e]
  | loop {p : LoopParts} {path : List Segment} {e : Expr} (parts : loopParts t = .ok p)
      (reached : m.reached c.bound p.path = .ok path) (value : m.value c.bound true p.path = .ok e) :
      Begins m t c .loop
        ([.whenReached path, .iterate (c.counter + 1) e, .loopOpen (c.counter + 1), .scopeLoop,
          .forEach (c.counter + 2) (c.counter + 3) (c.counter + 1), .iterationBegin (c.counter + 2)] ++
          loopBinds p.names (c.counter + 2) (c.counter + 3))
  | conditional {text : Text} {cond : Condition} (parts : when? t.raw = some text)
      (value : condition m c.bound t.raw text = .ok cond) : Begins m t c .conditional [.when cond, .pass]
  | elsewhen {text : Text} {cond : Condition} (parts : elsewhen? t.raw = some text)
      (value : condition m c.bound t.raw text = .ok cond) : Begins m t c .elsewhen [.elsewhen cond, .pass]
  | otherwise (bare : isOtherwise t.raw = true) : Begins m t c .otherwise [.otherwise, .pass]
  | capture {name : Text} (parts : capture? t.raw = some name) : Begins m t c .capture [.captureBegin]
  | form {p : Optioned} {r : Reference} {e : Expr} (parts : form? t.raw = some p)
      (reference : Reference.parse p.subject = .ok r) (value : m.value c.bound true p.subject = .ok e) :
      Begins m t c .form [.formOpen e r.lastName (attributes p.options), .writeFormOpen, .scopeForm]
  | field {p : Optioned} (parts : field? t.raw = some p) :
      Begins m t c .field [.field p.subject (attributes p.options) (!(flags p.options).contains noLabel)]
  | submit {options : Text} (parts : keywordOptions? "submit" t.raw = some options) :
      Begins m t c .submit [.submit (attributes options)]
  | button {options : Text} (parts : keywordOptions? "button" t.raw = some options) :
      Begins m t c .button [.button (attributes options)]
  | generate {p : Optioned} {r : Reference} {e : Expr} (parts : generate? t.raw = some p)
      (reference : Reference.parse p.subject = .ok r) (value : m.value c.bound true p.subject = .ok e) :
      Begins m t c .generate
        [.generate e r.lastName (attributes p.options) (!(flags p.options).contains noSubmit)]
  | phrase {p : PhraseParts} {ps : List (Text × Expr)} (parts : phrase? t.raw = some p)
      (values : Instruction.readParams m c.bound p.params = .ok ps) :
      Begins m t c .phrase
        [.translate (c.counter + 1) p.key ps, .whenText (c.counter + 1), .writeText (c.counter + 1), .otherwise, .pass]
  | comment : Begins m t c .comment []

/-- the statements by which a construct ends; only the end of a section has a part of a text, the name that the
section was opened with -/
inductive Ends (c : Context) : Reader → List Stmt → Prop
  | loop : Ends c .loop [.iterationEnd, .scopeClose, .loopClose]
  | conditional : Ends c .conditional []
  | elsewhen : Ends c .elsewhen []
  | capture {o : OpenConstruct} {name : Text} (opened : c.find? .capture = some o)
      (parts : capture? o.token.raw = some name) : Ends c .capture [.captureEnd name]
  | form : Ends c .form [.writeFormClose, .scopeClose, .formClose]
  | phrase : Ends c .phrase []

variable {m : Mode} {t : Token} {c : Context} {r : Reader} {f : Fragment}

theorem parts_of_requireInForm {α : Type} {parts : Option α} {p : α} (h : requireInForm t c parts = .ok p) :
    parts = some p := by
  simp only [requireInForm, bind_eq_ok] at h
  obtain ⟨q, hq, h⟩ := h
  split at h
  · simp at h
  · cases h
    exact Instruction.require_eq_ok.1 hq

/-- **A token that begins a directive** gives the directive's statements. -/
theorem begins_of_first {c' : Context} (h : r.first m t c = .ok (f, c')) : r.Begins m t c (f.lines.map Line.stmt) := by
  cases r <;> simp only [first, bind_eq_ok, map_eq_ok, Prod.mk.injEq] at h
  case blank => simp at h
  case literal =>
    cases h
    exact .literal
  case interpolation =>
    obtain ⟨e, he, rfl, -⟩ := h
    exact .interpolation he
  case loop =>
    simp only [startLoop, bind_eq_ok] at h
    obtain ⟨p, hp, path, hpath, e, he, h⟩ := h
    cases h
    simpa [Function.comp_def, Context.fresh] using Begins.loop hp hpath he
  case conditional =>
    obtain ⟨text, ht, cond, hc, h⟩ := h
    cases h
    exact .conditional (Instruction.require_eq_ok.1 ht) hc
  case elsewhen =>
    obtain ⟨text, ht, cond, hc, h⟩ := h
    cases h
    exact .elsewhen (Instruction.require_eq_ok.1 ht) hc
  case otherwise =>
    split at h
    · rename_i hbare
      cases h
      exact .otherwise hbare
    · simp [malformed] at h
  case capture =>
    simp only [startCapture, bind_eq_ok] at h
    obtain ⟨name, hname, h⟩ := h
    split at h
    · simp at h
    · cases h
      exact .capture (Instruction.require_eq_ok.1 hname)
  case form =>
    obtain ⟨f', h, rfl, -⟩ := h
    simp only [startForm, bind_eq_ok] at h
    obtain ⟨p, hp, r, hr, e, he, h⟩ := h
    cases h
    exact .form (Instruction.require_eq_ok.1 hp) hr he
  case field =>
    obtain ⟨f', h, rfl, -⟩ := h
    simp only [fieldFragment, bind_eq_ok] at h
    obtain ⟨p, hp, h⟩ := h
    cases h
    exact .field (parts_of_requireInForm hp)
  case submit =>
    obtain ⟨options, hoptions, h⟩ := h
    cases h
    exact .submit (parts_of_requireInForm hoptions)
  case button =>
    obtain ⟨options, hoptions, h⟩ := h
    cases h
    exact .button (parts_of_requireInForm hoptions)
  case generate =>
    obtain ⟨f', h, rfl, -⟩ := h
    simp only [generateFragment, bind_eq_ok] at h
    obtain ⟨p, hp, r, hr, e, he, h⟩ := h
    cases h
    exact .generate (Instruction.require_eq_ok.1 hp) hr he
  case phrase =>
    simp only [startPhrase, bind_eq_ok] at h
    obtain ⟨p, hp, ps, hps, h⟩ := h
    cases h
    exact .phrase (Instruction.require_eq_ok.1 hp) hps
  case comment =>
    cases h
    exact .comment

/-- **A token that ends a construct** gives the statements of the end. -/
theorem ends_of_last (h : r.last t c = .ok f) : r.Ends c (f.lines.map Line.stmt) := by
  cases r <;> simp only [last, Except.ok.injEq, reduceCtorEq] at h
  case loop =>
    subst h
    exact .loop
  case conditional =>
    subst h
    exact .conditional
  case elsewhen =>
    subst h
    exact .elsewhen
  case capture =>
    unfold endCapture at h
    split at h
    · simp at h
    · rename_i o ho
      rw [map_eq_ok] at h
      obtain ⟨name, hname, rfl⟩ := h
      exact .capture ho (Instruction.require_eq_ok.1 hname)
  case form =>
    subst h
    exact .form
  case phrase =>
    subst h
    exact .phrase

/-- what the statements of a directive have of expressions and attributes can be read back, if it is finite -/
theorem stored_of_begins {stmts : List Stmt} (h : r.Begins m t c stmts) :
    ∀ s ∈ stmts, (∀ e ∈ s.exprs, e.Stored) ∧ ∀ a ∈ s.mappings, (a.map Prod.fst).Nodup := by
  cases h
  case loop p path e parts reached value =>
    refine List.forall_mem_append.2 ⟨?_, ?_⟩
    · simp [Stmt.exprs, Stmt.mappings, stored_value value]
    · unfold loopBinds
      split <;> simp [Stmt.exprs, Stmt.mappings]
  case phrase p ps parts values =>
    simpa [Stmt.exprs, Stmt.mappings] using fun e n hp => params_readParams stored_operand values (n, e) hp
  case conditional text cond parts value =>
    simpa [Stmt.exprs, Stmt.mappings] using exprs_condition stored_operand value
  case elsewhen text cond parts value =>
    simpa [Stmt.exprs, Stmt.mappings] using exprs_condition stored_operand value
  case interpolation e value =>
    simpa [Stmt.exprs, Stmt.mappings] using stored_value value
  case form p r e parts reference value =>
    simpa [Stmt.exprs, Stmt.mappings] using ⟨stored_value value, nodup_attributes _⟩
  case generate p r e parts reference value =>
    simpa [Stmt.exprs, Stmt.mappings] using ⟨stored_value value, nodup_attributes _⟩
  all_goals simp [Stmt.exprs, Stmt.mappings, nodup_attributes]

theorem stored_of_ends {stmts : List Stmt} (h : r.Ends c stmts) : ∀ s ∈ stmts, s.exprs = [] ∧ s.mappings = [] := by
  cases h <;> simp [Stmt.exprs, Stmt.mappings]

end Reader

/-! ## Fragments read back -/

/-- the lines of a fragment are read as these statements, and none of them holds a line feed -/
def Fragment.ReadsAs (f : Fragment) (stmts : List Stmt) : Prop :=
  (f.codeLines.mapM fun l => Code.line? l.2) = some stmts ∧ ∀ l ∈ f.codeLines, '\n' ∉ l.2

theorem Fragment.readsAs_of_legible {f : Fragment} (h : ∀ s ∈ f.lines.map Line.stmt, s.Legible) :
    f.ReadsAs (f.lines.map Line.stmt) := by
  obtain ⟨lines, shift⟩ := f
  refine ⟨?_, ?_⟩
  · induction lines with
    | nil => rfl
    | cons l ls ih =>
      obtain ⟨hl, hls⟩ := List.forall_mem_cons.1 h
      have hrest := ih hls
      simp only [Fragment.codeLines] at hrest
      simp only [Fragment.codeLines, List.map_cons, List.mapM_cons, Code.line?_code hl, hrest]
      rfl
  · intro l hl
    obtain ⟨line, -, rfl⟩ := List.mem_map.1 hl
    exact not_mem_code (by decide) line.stmt

/-- **Template text adds no code.** Whatever a token, the open constructs and the mode are, the lines that a directive
contributes are read as the statements of its grammar for the parts of the token, if no number in it is beyond all
doubles; so are the lines of the end of a construct. In particular what is written for literal text is the text. -/
theorem Reader.reads_back (r : Reader) (m : Directive.Mode) (t : Token) (c : Context) :
    (∀ f c', r.first m t c = .ok (f, c') → (∀ e ∈ f.exprs, e.Finite) →
      ∃ stmts, r.Begins m t c stmts ∧ f.ReadsAs stmts) ∧
    (∀ f, r.last t c = .ok f → ∃ stmts, r.Ends c stmts ∧ f.ReadsAs stmts) ∧
    ∃ quoted, (Stmt.write t.raw).code = Text.cat ["_write(", quoted, ")"] ∧ Code.quoted? quoted = some (t.raw, []) ∧
      ∀ s : State, (Render.exec (.write t.raw)).run.run s = (.ok (), { s with output := t.raw :: s.output }) := by
  refine ⟨fun f c' h hfinite => ?_, fun f h => ?_, ?_⟩
  · have hbegins := begins_of_first h
    refine ⟨_, hbegins, Fragment.readsAs_of_legible fun s hs => ?_⟩
    obtain ⟨hstored, hmappings⟩ := stored_of_begins hbegins s hs
    obtain ⟨l, hl, rfl⟩ := List.mem_map.1 hs
    refine ⟨fun e he => Expr.legible_of_stored (hstored e he) (hfinite e ?_), hmappings⟩
    exact List.mem_flatMap.2 ⟨l, hl, he⟩
  · have hends := ends_of_last h
    refine ⟨_, hends, Fragment.readsAs_of_legible fun s hs => ?_⟩
    obtain ⟨hexprs, hmappings⟩ := stored_of_ends hends s hs
    exact ⟨by simp [hexprs], by simp [hmappings]⟩
  · have hquoted := Text.Quoted.quoted?_encode t.raw []
    rw [List.append_nil] at hquoted
    exact ⟨_, rfl, hquoted, fun _ => rfl⟩

/-- a condition with both marks, a backslash, a line feed and a negative decimal in its literals, and the end of a
section -/
theorem Reader.reads_back_marks :
    let raw : Text := "if a['x\"'] ?? \"it's \\\n\" != -12.50 and not b.0"
    let t : Token := ⟨.when, raw, 0, 1⟩
    let o : OpenConstruct := ⟨some .capture, ⟨.capture, "section page", 0, 1⟩, [], false⟩
    (∃ f c', Reader.conditional.first ⟨false, []⟩ t .start = .ok (f, c') ∧
      ∃ stmts, Reader.conditional.Begins ⟨false, []⟩ t .start stmts ∧ f.ReadsAs stmts) ∧
    ∃ f, Reader.capture.last t ⟨[o], [], 0⟩ = .ok f ∧
      ∃ stmts, Reader.capture.Ends ⟨[o], [], 0⟩ stmts ∧ f.ReadsAs stmts := by
  intro raw t o
  have hok : (Reader.conditional.first ⟨false, []⟩ t .start).toOption.map
      (fun p => decide (∀ e ∈ p.1.exprs, e.Finite)) = some true := by decide +kernel
  obtain ⟨⟨f, c'⟩, hp, hfinite⟩ := Option.map_eq_some_iff.1 hok
  have hfirst := eq_ok_of_toOption hp
  have hlast : Reader.capture.last t ⟨[o], [], 0⟩ = .ok (.statements [.captureEnd "page"]) := by decide
  exact ⟨⟨f, c', hfirst, (Reader.reads_back .conditional _ t .start).1 f c' hfirst (of_decide_eq_true hfinite)⟩,
    _, hlast, (Reader.reads_back .capture ⟨false, []⟩ t _).2.1 _ hlast⟩

end Stencil
