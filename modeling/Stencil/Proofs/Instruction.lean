/-
WHAT A TOKEN ASKS FOR. `Instruction.read` reads the text of one token by its own grammar, whatever stands around it;
`Instruction.compile` is what compiling it does to the open constructs, the sections and the temporaries.

- `fits_of_read`: what a token asks for fits its kind.
- `token_of_read`, `read_of_token`: compiling a token is reading it and then compiling what it asks for, and a token
  that compiles can be read.
-/
import Stencil.Proofs.Nested
import Stencil.Proofs.Step
import Stencil.Template

namespace Stencil

/-! ## Instructions -/

/-- literal text, or what a directive without a body writes -/
inductive Act where
  | write (s : Text)
  | emit (e : Expr)
  | field (name : Text) (attributes : Attributes) (labelled : Bool)
  | submit (attributes : Attributes)
  | button (attributes : Attributes)
  | generate (e : Expr) (name : Text) (attributes : Attributes) (submitting : Bool)
  | remark
  deriving DecidableEq, Repr

/-- the beginning of a construct with one body -/
inductive Opening where
  | loop (names : List Text) (path : List Segment) (e : Expr)
  | capture (name : Text)
  | form (e : Expr) (name : Text) (attributes : Attributes)
  | phrase (key : Text) (params : List (Text × Expr))
  deriving DecidableEq, Repr

/-- what a token asks for -/
inductive Instruction where
  | act (a : Act)
  | opening (o : Opening)
  | when (c : Condition)
  | elsewhen (c : Condition)
  | otherwise
  | closing (f : Family)
  deriving DecidableEq, Repr

namespace Instruction

open Directive

/-- a closing directive, by the family it names -/
def readClosing (t : Token) : Except Refusal Instruction :=
  match closing? t.raw with
  | none => .error (.fault (.of (.malformedClosing t.raw) t.raw))
  | some name =>
    match Family.ofName? name with
    | some f => .ok (.closing f)
    | none => .error (.fault (.of (.unknownFamily name) t.raw))

/-- the parameters of a phrase -/
def readParams (m : Mode) (bound : List Text) (s : Text) : Except Refusal (List (Text × Expr)) :=
  (params s).mapM fun p => (m.operand bound true p.2).map fun e => (p.1, e)

/-- what a token asks for by its own text -/
def read (m : Mode) (bound : List Text) (t : Token) : Except Refusal Instruction :=
  match t.kind with
  | .literal => .ok (.act (.write t.raw))
  | .comment => .ok (.act .remark)
  | .interpolation => do
    let e ← m.value bound false t.raw
    return .act (.emit e)
  | .field => do
    let p ← require t (field? t.raw)
    return .act (.field p.subject (attributes p.options) (!(flags p.options).contains noLabel))
  | .submit => do
    let options ← require t (keywordOptions? "submit" t.raw)
    return .act (.submit (attributes options))
  | .button => do
    let options ← require t (keywordOptions? "button" t.raw)
    return .act (.button (attributes options))
  | .generate => do
    let p ← require t (generate? t.raw)
    let r ← Reference.parse p.subject
    let e ← m.value bound true p.subject
    return .act (.generate e r.lastName (attributes p.options) (!(flags p.options).contains noSubmit))
  | .loop => do
    let p ← loopParts t
    let path ← m.reached bound p.path
    let e ← m.value bound true p.path
    return .opening (.loop p.names path e)
  | .capture => do
    let name ← require t (capture? t.raw)
    return .opening (.capture name)
  | .form => do
    let p ← require t (form? t.raw)
    let r ← Reference.parse p.subject
    let e ← m.value bound true p.subject
    return .opening (.form e r.lastName (attributes p.options))
  | .translate => do
    let p ← require t (phrase? t.raw)
    let ps ← readParams m bound p.params
    return .opening (.phrase p.key ps)
  | .when => do
    let text ← require t (when? t.raw)
    let c ← condition m bound t.raw text
    return .when c
  | .elsewhen => do
    let text ← require t (elsewhen? t.raw)
    let c ← condition m bound t.raw text
    return .elsewhen c
  | .otherwise => if isOtherwise t.raw then .ok .otherwise else malformed t
  | .closing => readClosing t

end Instruction

/-! ## Fragments -/

/-- the fragment of a directive without a body -/
def Act.fragment : Act → Fragment
  | write s => .statements [.write s]
  | emit e => .statements [.emit e]
  | field name attributes labelled => .statements [.field name attributes labelled]
  | submit attributes => .statements [.submit attributes]
  | button attributes => .statements [.button attributes]
  | generate e name attributes submitting => .statements [.generate e name attributes submitting]
  | remark => .empty

/-- the part of a form that a directive writes -/
def Act.isPart : Act → Bool
  | field _ _ _ => true
  | submit _ => true
  | button _ => true
  | _ => false

namespace Opening

/-- the family of a construct -/
def family : Opening → Family
  | loop _ _ _ => .loop
  | capture _ => .capture
  | form _ _ _ => .form
  | phrase _ _ => .phrase

/-- how many temporaries the beginning of a construct takes -/
def temporaries : Opening → Nat
  | loop _ _ _ => 3
  | phrase _ _ => 1
  | _ => 0

/-- the names that a construct binds for its body -/
def binds : Opening → List Text
  | loop names _ _ => "loop".toList :: names
  | form _ _ _ => ["form"]
  | _ => []

/-- the section that a construct begins -/
def section? : Opening → Option Text
  | capture name => some name
  | _ => none

/-- the fragment of the beginning of a construct, with temporaries numbered after `n` -/
def first (n : Nat) : Opening → Fragment
  | loop names path e =>
    ⟨[⟨0, .whenReached path⟩, ⟨1, .iterate (n + 1) e⟩, ⟨1, .loopOpen (n + 1)⟩, ⟨1, .scopeLoop⟩,
      ⟨1, .forEach (n + 2) (n + 3) (n + 1)⟩, ⟨2, .iterationBegin (n + 2)⟩] ++
      (Directive.loopBinds names (n + 2) (n + 3)).map fun s => ⟨2, s⟩, 2⟩
  | capture _ => .statements [.captureBegin]
  | form e name attributes => .statements [.formOpen e name attributes, .writeFormOpen, .scopeForm]
  | phrase key params =>
    ⟨[⟨0, .translate (n + 1) key params⟩, ⟨0, .whenText (n + 1)⟩, ⟨1, .writeText (n + 1)⟩, ⟨0, .otherwise⟩,
      ⟨1, .pass⟩], 1⟩

/-- the fragment of the end of a construct -/
def last : Opening → Fragment
  | loop _ _ _ => Directive.endLoop
  | capture name => .statements [.captureEnd name]
  | form _ _ _ => Directive.endForm
  | phrase _ _ => ⟨[], -1⟩

end Opening

/-- the reader of a family's closing directive -/
def Family.closer : Family → Reader
  | loop => .loop
  | conditional => .conditional
  | capture => .capture
  | form => .form
  | phrase => .phrase

namespace Instruction

/-- what is asked for is what the kind of a token says -/
def Fits (t : Token) : Instruction → Prop
  | act a => t.kind.isSingle = true ∧ t.kind.isPart = a.isPart
  | opening o => t.kind = o.family.opener ∧ t.sectionName? = o.section?
  | when _ => t.kind = .when
  | elsewhen _ => t.kind = .elsewhen
  | otherwise => t.kind = .otherwise
  | closing f => t.closes? = some f

/-- the context in which a construct is open, its beginning compiled -/
def inside (t : Token) (c : Context) (o : Opening) : Context :=
  ⟨⟨some o.family, t, o.binds, false⟩ :: c.stack, c.sections ++ o.section?.toList, c.counter + o.temporaries⟩

/-- what compiling an instruction adds to the program, and the context that it leaves -/
def compile (t : Token) (c : Context) : Instruction → Except Refusal (Fragment × Context)
  | act a =>
    if a.isPart && (c.find? .form).isNone then .error (.fault (.of (.outsideForm t.raw) t.raw))
    else .ok (a.fragment, c)
  | opening o =>
    match o.section?.filter fun name => c.sections.contains name with
    | some name => .error (.fault (.of (.repeatedSection name) t.raw))
    | none => .ok (o.first c.counter, inside t c o)
  | when cond => .ok (⟨[⟨0, .when cond⟩, ⟨1, .pass⟩], 1⟩, c.push ⟨some .conditional, t, [], false⟩)
  | elsewhen cond => (Compiler.branch t c).map fun c' => (⟨[⟨-1, .elsewhen cond⟩, ⟨0, .pass⟩], 0⟩, c')
  | otherwise => (Compiler.branch t c).map fun c' => (⟨[⟨-1, .otherwise⟩, ⟨0, .pass⟩], 0⟩, c')
  | closing f =>
    match c.stack with
    | [] => .error (.fault (.of (.nothingToClose t.raw) t.raw))
    | o :: rest =>
      if o.family == some f then (f.closer.last t c).map fun fragment => (fragment, { c with stack := rest })
      else .error (.fault (.of (.wrongClosing t.raw o.token.raw o.token.line) t.raw))

end Instruction

/-! ## The specification of a token -/

namespace TokenKind

/-- the reader of a kind's directives -/
def reader : TokenKind → Reader
  | loop => .loop
  | when => .conditional
  | elsewhen => .elsewhen
  | otherwise => .otherwise
  | capture => .capture
  | form => .form
  | field => .field
  | submit => .submit
  | button => .button
  | generate => .generate
  | translate => .phrase
  | _ => .blank

/-- the family that a kind's directives open -/
def opens? : TokenKind → Option Family
  | loop => some .loop
  | when => some .conditional
  | capture => some .capture
  | form => some .form
  | translate => some .phrase
  | _ => none

/-- the kinds of directives that begin with a spelling -/
def isSpelled (k : TokenKind) : Bool := k.reader != .blank

end TokenKind

/-! ## The registry -/

theorem forall_putAt {α β : Type} [BEq α] {Q : β → Prop} {k : α} {v : β} {es : List (α × β)} (hv : Q v)
    (h : ∀ p ∈ es, Q p.2) : ∀ p ∈ putAt k v es, Q p.2 := by
  induction es with
  | nil => exact List.forall_mem_singleton.2 hv
  | cons e es ih =>
    obtain ⟨he, hes⟩ := List.forall_mem_cons.1 h
    rw [putAt]
    split
    · exact List.forall_mem_cons.2 ⟨hv, hes⟩
    · exact List.forall_mem_cons.2 ⟨he, ih hes⟩

namespace Registry

/-- the specification is the one of its kind -/
def Regular (spec : Spec) : Prop :=
  spec.reader = spec.kind.reader ∧ spec.opens = spec.kind.opens?.isSome ∧
    (spec.opens = true → spec.family = spec.kind.opens?)

instance (spec : Spec) : Decidable (Regular spec) := by
  unfold Regular; infer_instance

theorem specs_standard (comment : Text) : (standard comment).specs = (standard []).specs := rfl

theorem families_standard (comment : Text) : (standard comment).families = (standard []).families := rfl

theorem regular_standard (comment : Text) : ∀ e ∈ (standard comment).specs, Regular e.2 := by
  rw [specs_standard]
  decide

theorem closer?_standard (comment : Text) (f : Family) : (standard comment).closer? f = some f.closer := by
  rw [closer?, families_standard]
  cases f <;> decide

theorem mem_of_better {raw : Text} {specs : List Spec} {best : Option (Spec × Nat)} {p : Spec × Nat}
    (h : specs.foldl (better raw) best = some p) : best = some p ∨ p.1 ∈ specs := by
  induction specs generalizing best with
  | nil => exact .inl h
  | cons spec specs ih =>
    rcases ih h with hb | hmem
    · have : better raw best spec = best ∨ ∃ n, better raw best spec = some (spec, n) := by
        unfold better
        split
        · exact .inl rfl
        · split
          · split
            · exact .inr ⟨_, rfl⟩
            · exact .inl rfl
          · exact .inr ⟨_, rfl⟩
      rcases this with h' | ⟨n, h'⟩
      · exact .inl (h'.symm.trans hb)
      · rw [h', Option.some.injEq] at hb
        exact .inr (by rw [← hb]; exact List.mem_cons_self)
    · exact .inr (List.mem_cons_of_mem spec hmem)

theorem mem_of_match? {r : Registry} {raw : Text} {spec : Spec} (h : r.match? raw = some spec) :
    ∃ e ∈ r.specs, e.2 = spec := by
  rw [match?, Option.map_eq_some_iff] at h
  obtain ⟨p, hp, rfl⟩ := h
  rcases mem_of_better hp with h' | h'
  · simp at h'
  · exact List.mem_map.1 h'

end Registry

/-- a token whose kind is the one that the registry gives to its text -/
def Token.Classified (r : Registry) (t : Token) : Prop :=
  t.kind = .literal ∨ t.kind = .comment ∨ r.classify t.raw = t.kind

/-- **The specification of a classified token** is the one of its kind. -/
theorem spec_of_classified {comment : Text} {t : Token} (ht : t.Classified (.standard comment))
    (hk : t.kind.isSpelled = true) :
    ∃ spec, (Registry.standard comment).match? t.raw = some spec ∧ spec.reader = t.kind.reader ∧
      spec.opens = t.kind.opens?.isSome ∧ (spec.opens = true → spec.family = t.kind.opens?) := by
  rcases ht with h | h | h
  · simp [h, TokenKind.isSpelled, TokenKind.reader] at hk
  · simp [h, TokenKind.isSpelled, TokenKind.reader] at hk
  · unfold Registry.classify at h
    split at h
    · simp [← h, TokenKind.isSpelled, TokenKind.reader] at hk
    · split at h
      · rename_i spec hspec
        obtain ⟨e, he, rfl⟩ := Registry.mem_of_match? hspec
        exact ⟨_, hspec, h ▸ Registry.regular_standard comment e he⟩
      · split at h <;> simp [← h, TokenKind.isSpelled, TokenKind.reader] at hk

/-- compiling a token that begins with a spelling: its branch is checked, it is read, and what it opens is open -/
theorem token_spelled {comment : Text} {m : Directive.Mode} {t : Token} (ht : t.Classified (.standard comment))
    (hk : t.kind.isSpelled = true) (c : Context) :
    Compiler.token (.standard comment) m t c =
      (do
        let c ← if t.kind == .elsewhen || t.kind == .otherwise then Compiler.branch t c else .ok c
        let p ← t.kind.reader.first m t c
        match t.kind.opens? with
        | some f => do
          let names ← t.kind.reader.binds t
          return (p.1, p.2.push ⟨some f, t, names, false⟩)
        | none => return p) := by
  obtain ⟨spec, hm, hreader, hopens, hfamily⟩ := spec_of_classified ht hk
  have hd : Compiler.token (.standard comment) m t c = Compiler.directive (.standard comment) m t c := by
    cases h : t.kind <;> simp [Compiler.token, h] <;> simp [h, TokenKind.isSpelled, TokenKind.reader] at hk
  rw [hd, Compiler.directive, hm]
  cases hf : t.kind.opens? with
  | none =>
    rw [hf, Option.isSome_none] at hopens
    simp [hreader, hopens]
  | some f =>
    rw [hf, Option.isSome_some] at hopens
    simp [hreader, hopens, hfamily hopens, hf]

namespace Instruction

open Directive

theorem require_eq_ok {α : Type} {t : Token} {parts : Option α} {p : α} : require t parts = .ok p ↔ parts = some p := by
  cases parts <;> simp [require, malformed]

/-- **What a token asks for** fits its kind. -/
theorem fits_of_read {m : Mode} {bound : List Text} {t : Token} {i : Instruction} (h : read m bound t = .ok i) :
    i.Fits t := by
  unfold read at h
  cases hk : t.kind <;> simp only [hk, bind_eq_ok] at h
  case literal =>
    cases h
    simp [Fits, hk, TokenKind.isSingle, TokenKind.isPart, Act.isPart]
  case comment =>
    cases h
    simp [Fits, hk, TokenKind.isSingle, TokenKind.isPart, Act.isPart]
  case interpolation =>
    obtain ⟨e, -, h⟩ := h
    cases h
    simp [Fits, hk, TokenKind.isSingle, TokenKind.isPart, Act.isPart]
  case loop =>
    obtain ⟨p, -, path, -, e, -, h⟩ := h
    cases h
    simp [Fits, hk, Family.opener, Opening.family, Opening.section?, Token.sectionName?]
  case when =>
    obtain ⟨text, -, c, -, h⟩ := h
    cases h
    exact hk
  case elsewhen =>
    obtain ⟨text, -, c, -, h⟩ := h
    cases h
    exact hk
  case otherwise =>
    split at h
    · cases h
      exact hk
    · simp [malformed] at h
  case capture =>
    obtain ⟨name, hname, h⟩ := h
    cases h
    simp [Fits, hk, Family.opener, Opening.family, Opening.section?, Token.sectionName?, require_eq_ok.1 hname]
  case form =>
    obtain ⟨p, -, r, -, e, -, h⟩ := h
    cases h
    simp [Fits, hk, Family.opener, Opening.family, Opening.section?, Token.sectionName?]
  case field =>
    obtain ⟨p, -, h⟩ := h
    cases h
    simp [Fits, hk, TokenKind.isSingle, TokenKind.isPart, Act.isPart]
  case submit =>
    obtain ⟨options, -, h⟩ := h
    cases h
    simp [Fits, hk, TokenKind.isSingle, TokenKind.isPart, Act.isPart]
  case button =>
    obtain ⟨options, -, h⟩ := h
    cases h
    simp [Fits, hk, TokenKind.isSingle, TokenKind.isPart, Act.isPart]
  case generate =>
    obtain ⟨p, -, r, -, e, -, h⟩ := h
    cases h
    simp [Fits, hk, TokenKind.isSingle, TokenKind.isPart, Act.isPart]
  case translate =>
    obtain ⟨p, -, ps, -, h⟩ := h
    cases h
    simp [Fits, hk, Family.opener, Opening.family, Opening.section?, Token.sectionName?]
  case closing =>
    unfold readClosing at h
    split at h
    · simp at h
    · rename_i name hname
      split at h
      · rename_i f hf
        cases h
        simp [Fits, Token.closes?, hk, hname, hf]
      · simp at h

/-- a part of a form needs an open form -/
theorem requireInForm_eq {α : Type} {t : Token} {c : Context} {parts : Option α} {p : α}
    (h : require t parts = .ok p) :
    requireInForm t c parts =
      if (c.find? .form).isNone then .error (.fault (.of (.outsideForm t.raw) t.raw)) else .ok p := by
  rw [requireInForm, h]
  rfl

/-- a branch binds no names -/
theorem bound_branch {t : Token} {c c' : Context} (h : Compiler.branch t c = .ok c') : c'.bound = c.bound := by
  unfold Compiler.branch at h
  split at h
  · rename_i o rest hs
    split at h
    · split at h
      · simp at h
      · split at h
        · cases h
          simp [Context.bound, hs]
        · cases h
          rfl
    · simp at h
  · simp at h

/-- **Compiling a token that can be read** is compiling what it asks for. -/
theorem token_of_read {comment : Text} {m : Mode} {t : Token} {c : Context} {i : Instruction}
    (ht : t.Classified (.standard comment)) (h : read m c.bound t = .ok i) :
    Compiler.token (.standard comment) m t c = i.compile t c := by
  cases hk : t.kind
  case literal =>
    simp only [read, hk, Except.ok.injEq] at h
    subst h
    simp [Compiler.token, hk, Reader.first, compile, Act.fragment, Act.isPart]
  case comment =>
    simp only [read, hk, Except.ok.injEq] at h
    subst h
    simp [Compiler.token, hk, Reader.first, compile, Act.fragment, Act.isPart]
  case interpolation =>
    simp only [read, hk, bind_eq_ok] at h
    obtain ⟨e, he, h⟩ := h
    cases h
    simp [Compiler.token, hk, Reader.first, he, compile, Act.fragment, Act.isPart]
  case closing =>
    simp only [read, hk, readClosing] at h
    split at h
    · simp at h
    · rename_i name hname
      split at h
      · rename_i f hf
        cases h
        have hclosed : Compiler.closedFamily (.standard comment) t = .ok (f, f.closer) := by
          simp [Compiler.closedFamily, hname, hf, Registry.closer?_standard]
        simp only [Compiler.token, hk, Compiler.close, hclosed, ok_bind, compile]
        cases hs : c.stack with
        | nil => rfl
        | cons o rest =>
          simp only
          split
          · cases f.closer.last t c <;> rfl
          · rfl
      · simp at h
  all_goals rw [token_spelled ht (by rw [hk]; rfl)]
  case loop =>
    simp only [read, hk, bind_eq_ok] at h
    obtain ⟨p, hp, path, hpath, e, he, h⟩ := h
    cases h
    simp [hk, TokenKind.reader, TokenKind.opens?, Reader.first, Reader.binds, startLoop, hp, hpath, he, Context.fresh,
      compile, Opening.first, Opening.section?, Opening.family, Opening.binds,
      Opening.temporaries, inside, Context.push]
  case when =>
    simp only [read, hk, bind_eq_ok] at h
    obtain ⟨text, htext, cond, hcond, h⟩ := h
    cases h
    simp [hk, TokenKind.reader, TokenKind.opens?, Reader.first, Reader.binds, htext, hcond, compile]
  case elsewhen =>
    simp only [read, hk, bind_eq_ok] at h
    obtain ⟨text, htext, cond, hcond, h⟩ := h
    cases h
    have hbound : ∀ c', Compiler.branch t c = .ok c' → c'.bound = c.bound := fun c' h => bound_branch h
    simp only [hk, TokenKind.reader, TokenKind.opens?, Reader.first, htext, ok_bind, compile]
    cases hb : Compiler.branch t c with
    | error e => rfl
    | ok c' => simp [hbound c' hb, hcond]
  case otherwise =>
    simp only [read, hk] at h
    split at h
    · rename_i hraw
      cases h
      simp only [hk, TokenKind.reader, TokenKind.opens?, Reader.first, hraw, compile]
      cases Compiler.branch t c <;> rfl
    · simp [malformed] at h
  case capture =>
    simp only [read, hk, bind_eq_ok] at h
    obtain ⟨name, hname, h⟩ := h
    cases h
    by_cases hnew : name ∈ c.sections <;>
      simp [hk, TokenKind.reader, TokenKind.opens?, Reader.first, Reader.binds, startCapture, hname, compile, hnew,
        Option.filter, Opening.first, Opening.section?, Opening.family, Opening.binds,
      Opening.temporaries, inside, Context.push]
  case form =>
    simp only [read, hk, bind_eq_ok] at h
    obtain ⟨p, hp, r, hr, e, he, h⟩ := h
    cases h
    simp [hk, TokenKind.reader, TokenKind.opens?, Reader.first, Reader.binds, startForm, hp, hr, he, compile,
      Opening.first, Opening.section?, Opening.family, Opening.binds,
      Opening.temporaries, inside, Context.push]
  case field =>
    simp only [read, hk, bind_eq_ok] at h
    obtain ⟨p, hp, h⟩ := h
    cases h
    simp only [hk, TokenKind.reader, TokenKind.opens?, Reader.first, fieldFragment, requireInForm_eq hp, compile]
    cases hform : c.find? .form <;> simp [hform, Act.fragment, Act.isPart]
  case submit =>
    simp only [read, hk, bind_eq_ok] at h
    obtain ⟨p, hp, h⟩ := h
    cases h
    simp only [hk, TokenKind.reader, TokenKind.opens?, Reader.first, requireInForm_eq hp, compile]
    cases hform : c.find? .form <;> simp [hform, Act.fragment, Act.isPart]
  case button =>
    simp only [read, hk, bind_eq_ok] at h
    obtain ⟨p, hp, h⟩ := h
    cases h
    simp only [hk, TokenKind.reader, TokenKind.opens?, Reader.first, requireInForm_eq hp, compile]
    cases hform : c.find? .form <;> simp [hform, Act.fragment, Act.isPart]
  case generate =>
    simp only [read, hk, bind_eq_ok] at h
    obtain ⟨p, hp, r, hr, e, he, h⟩ := h
    cases h
    simp [hk, TokenKind.reader, TokenKind.opens?, Reader.first, generateFragment, hp, hr, he, compile, Act.fragment,
      Act.isPart]
  case translate =>
    simp only [read, hk, bind_eq_ok] at h
    obtain ⟨p, hp, ps, hps, h⟩ := h
    cases h
    simp only [readParams] at hps
    simp [hk, TokenKind.reader, TokenKind.opens?, Reader.first, Reader.binds, startPhrase, hp, hps, Context.fresh,
      compile, Opening.first, Opening.section?, Opening.family, Opening.binds,
      Opening.temporaries, inside, Context.push]

theorem require_of_requireInForm {α : Type} {t : Token} {c : Context} {parts : Option α} {p : α}
    (h : requireInForm t c parts = .ok p) : require t parts = .ok p := by
  simp only [requireInForm, bind_eq_ok] at h
  obtain ⟨q, hq, h⟩ := h
  split at h
  · simp at h
  · cases h
    exact hq

/-- **A token that compiles can be read.** -/
theorem read_of_token {comment : Text} {m : Mode} {t : Token} {c : Context} {p : Fragment × Context}
    (ht : t.Classified (.standard comment)) (h : Compiler.token (.standard comment) m t c = .ok p) :
    ∃ i, read m c.bound t = .ok i := by
  cases hk : t.kind
  case literal => exact ⟨_, by rw [read, hk]⟩
  case comment => exact ⟨_, by rw [read, hk]⟩
  case interpolation =>
    simp only [Compiler.token, hk, Reader.first, map_eq_ok] at h
    obtain ⟨e, he, -⟩ := h
    exact ⟨_, by simp only [read, hk, he]; rfl⟩
  case closing =>
    simp only [Compiler.token, hk, Compiler.close, bind_eq_ok] at h
    obtain ⟨⟨f, reader⟩, hf, -⟩ := h
    simp only [Compiler.closedFamily] at hf
    split at hf
    · simp at hf
    · rename_i name hname
      split at hf
      · rename_i q hq
        rw [Option.bind_eq_some_iff] at hq
        obtain ⟨g, hg, -⟩ := hq
        exact ⟨.closing g, by simp [read, hk, readClosing, hname, hg]⟩
      · simp at hf
  all_goals
    rw [token_spelled ht (by rw [hk]; rfl)] at h
    simp +decide only [hk, TokenKind.reader, TokenKind.opens?, Reader.first, if_true, if_false, ok_bind,
      bind_eq_ok] at h
  case loop =>
    obtain ⟨q, hq, -⟩ := h
    simp only [startLoop, bind_eq_ok] at hq
    obtain ⟨parts, hparts, path, hpath, e, he, -⟩ := hq
    exact ⟨.opening (.loop parts.names path e), by simp [read, hk, hparts, hpath, he]⟩
  case when =>
    obtain ⟨q, ⟨text, htext, cond, hcond, -⟩, -⟩ := h
    exact ⟨.when cond, by simp [read, hk, htext, hcond]⟩
  case elsewhen =>
    obtain ⟨c', hc, p', hp', -⟩ := h
    obtain ⟨text, htext, cond, hcond, -⟩ := hp'
    rw [bound_branch hc] at hcond
    exact ⟨.elsewhen cond, by simp [read, hk, htext, hcond]⟩
  case otherwise =>
    obtain ⟨c', hc, q, hq, -⟩ := h
    split at hq
    · rename_i hraw
      exact ⟨.otherwise, by simp [read, hk, hraw]⟩
    · simp [malformed] at hq
  case capture =>
    obtain ⟨q, hq, -⟩ := h
    simp only [startCapture, bind_eq_ok] at hq
    obtain ⟨name, hname, -⟩ := hq
    exact ⟨.opening (.capture name), by simp [read, hk, hname]⟩
  case form =>
    obtain ⟨q, hq, -⟩ := h
    simp only [startForm, map_eq_ok, bind_eq_ok] at hq
    obtain ⟨_, ⟨parts, hparts, r, hr, e, he, -⟩, -⟩ := hq
    exact ⟨.opening (.form e r.lastName (attributes parts.options)), by simp [read, hk, hparts, hr, he]⟩
  case field =>
    obtain ⟨q, hq, -⟩ := h
    simp only [fieldFragment, map_eq_ok, bind_eq_ok] at hq
    obtain ⟨_, ⟨parts, hparts, -⟩, -⟩ := hq
    exact ⟨_, by simp only [read, hk, require_of_requireInForm hparts]; rfl⟩
  case submit =>
    obtain ⟨q, ⟨options, hoptions, -⟩, -⟩ := h
    exact ⟨_, by simp only [read, hk, require_of_requireInForm hoptions]; rfl⟩
  case button =>
    obtain ⟨q, ⟨options, hoptions, -⟩, -⟩ := h
    exact ⟨_, by simp only [read, hk, require_of_requireInForm hoptions]; rfl⟩
  case generate =>
    obtain ⟨q, hq, -⟩ := h
    simp only [generateFragment, map_eq_ok, bind_eq_ok] at hq
    obtain ⟨_, ⟨parts, hparts, r, hr, e, he, -⟩, -⟩ := hq
    exact ⟨_, by simp only [read, hk, hparts, hr, he, ok_bind]; rfl⟩
  case translate =>
    obtain ⟨q, hq, -⟩ := h
    simp only [startPhrase, bind_eq_ok] at hq
    obtain ⟨parts, hparts, ps, hps, -⟩ := hq
    exact ⟨.opening (.phrase parts.key ps), by simp [read, hk, hparts, readParams, hps]⟩

end Instruction

end Stencil
