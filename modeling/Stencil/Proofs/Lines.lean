/-
LINES READ BACK. A line of code has one of some fixed shapes: it begins with a mark, and after it stand literals,
temporaries, expressions and conditions with more marks between them. `Code.line?` reads a line by these shapes alone:
it knows neither the template nor the statement that the line was written for.

- `expr?_code`, `condition?_code`: expressions and conditions are read back.
- `line?_code`: so is the line of every statement whose literals can be read back.
-/
import Stencil.Proofs.Contents
import Stencil.Proofs.Literals

namespace Stencil

namespace Code

/-! ## Parts of lines -/

/-- the literal that is a segment of a path -/
def segment? (s : Text) : Option (Segment × Text) :=
  (literal? s).bind fun (l, rest) =>
    match l with
    | .text name => some (.name name, rest)
    | .int (.ofNat n) => some (.index n, rest)
    | _ => none

/-- a path as a tuple of its segments -/
def path? (s : Text) : Option (List Segment × Text) := tuple? segment? s

/-- attributes as a mapping, in which no name stands twice -/
def attributes? (s : Text) : Option (Attributes × Text) :=
  (mapping? quoted? s).filter fun p => (p.1.map Prod.fst).Nodup

/-- a truth value -/
def flag? (s : Text) : Option (Bool × Text) :=
  (literal? s).bind fun (l, rest) =>
    match l with
    | .bool b => some (b, rest)
    | _ => none

/-- the number of a temporary after its purpose -/
def place? (s : Text) : Option (Nat × Text) :=
  (number? s).bind fun (l, rest) =>
    match l with
    | .int (.ofNat n) => some (n, rest)
    | _ => none

/-- a lookup after its name: the path that it asks for, and its default -/
def lookup? (s : Text) : Option (Expr × Text) := do
  let (path, s) ← path? s
  let s ← Text.after? ", " s
  let (default, s) ← literal? s
  let rest ← Text.after? ")" s
  return (.lookup path default, rest)

/-- a lookup that must succeed, after its name: the path that it asks for, and the reference that a failure names -/
def demand? (s : Text) : Option (Expr × Text) := do
  let (path, s) ← path? s
  let s ← Text.after? ", " s
  let (reference, s) ← quoted? s
  let rest ← Text.after? ")" s
  return (.demand path reference, rest)

/-- an expression: a literal or a lookup -/
def expr? (s : Text) : Option (Expr × Text) :=
  ((literal? s).map fun (l, rest) => (.literal l, rest)) <|>
    (Text.after? "lookup(_scope, " s).bind lookup? <|> (Text.after? "lookup_strict(_scope, " s).bind demand?

/-- a truth test after its name -/
def truth? (s : Text) : Option (Test × Text) := do
  let (e, s) ← expr? s
  let rest ← Text.after? ")" s
  return (.truth e, rest)

/-- a comparison after its name: the operator as a text, and the two sides -/
def comparison? (s : Text) : Option (Test × Text) := do
  let (name, s) ← quoted? s
  let op ← Comparison.ofText? name
  let s ← Text.after? ", " s
  let (left, s) ← expr? s
  let s ← Text.after? ", " s
  let (right, s) ← expr? s
  let rest ← Text.after? ")" s
  return (.compare op left right, rest)

/-- a test -/
def test? (s : Text) : Option (Test × Text) :=
  (Text.after? "bool(" s).bind truth? <|> (Text.after? "compare(" s).bind comparison?

/-- the rest of a clause in its parentheses -/
def closed? (negated : Bool) (s : Text) : Option (Clause × Text) := do
  let (test, s) ← test? s
  let rest ← Text.after? ")" s
  return (⟨negated, test⟩, rest)

/-- a clause -/
def clause? (s : Text) : Option (Clause × Text) :=
  (Text.after? "(not " s).bind (closed? true) <|> (Text.after? "(" s).bind (closed? false)

/-- a connective between two clauses -/
def connective? (s : Text) : Option (Connective × Text) :=
  ((Text.after? " and " s).map fun rest => (.and, rest)) <|> (Text.after? " or " s).map fun rest => (.or, rest)

/-- the clauses that follow with their connectives; at most `n` of them -/
def clausesUpTo : Nat → Text → Option (List (Connective × Clause) × Text)
  | 0, s => some ([], s)
  | n + 1, s =>
    match connective? s with
    | none => some ([], s)
    | some (c, s) => do
      let (cl, s) ← clause? s
      let (more, rest) ← clausesUpTo n s
      return ((c, cl) :: more, rest)

/-- a condition -/
def condition? (s : Text) : Option (Condition × Text) := do
  let (first, s) ← clause? s
  let (more, rest) ← clausesUpTo s.length s
  return (⟨first, more⟩, rest)

/-- the temporary that holds a part of the current entry -/
def half? (s : Text) : Option (Half × Text) :=
  ((Text.after? "_key_" s).bind place?).map (fun (n, rest) => (.key n, rest)) <|>
    ((Text.after? "_value_" s).bind place?).map fun (n, rest) => (.item n, rest)

/-! ## Parts read back -/

/-- a mark that no word or number goes on with is something that follows them -/
theorem atNumberEnd_append {mark : Text} (h : (!mark.isEmpty && Directive.atNumberEnd mark) = true) (s : Text) :
    Directive.atNumberEnd (mark ++ s) = true := by
  cases mark with
  | nil => simp at h
  | cons c cs => simpa [Directive.atNumberEnd] using h

theorem literal?_code {l : Literal} (h : Legible l) {rest : Text} (hrest : Directive.atNumberEnd rest = true) :
    literal? (l.code ++ rest) = some (l, rest) := reads_literal h rest hrest

theorem segment?_code (x : Segment) {rest : Text} (hrest : Directive.atNumberEnd rest = true) :
    segment? (x.code ++ rest) = some (x, rest) := by
  cases x with
  | name s =>
    rw [segment?, show Segment.code (.name s) = (Literal.text s).code from rfl,
      literal?_code (l := .text s) trivial hrest]
    rfl
  | index n =>
    rw [segment?, show Segment.code (.index n) = (Literal.int n).code from rfl,
      literal?_code (l := .int n) trivial hrest]
    rfl

/-- **A path** is read back. -/
theorem path?_code (path : List Segment) {rest : Text} (hrest : Directive.atNumberEnd rest = true) :
    path? (pathCode path ++ rest) = some (path, rest) :=
  reads_tuple (fun x _ _ h => segment?_code x h) (fun _ => rfl) rest hrest

/-- **Attributes** are read back. -/
theorem attributes?_code {a : Attributes} (h : (a.map Prod.fst).Nodup) {rest : Text}
    (hrest : Directive.atNumberEnd rest = true) : attributes? (a.code ++ rest) = some (a, rest) := by
  have hvalue : ∀ e ∈ a, Reads quoted? (Text.Quoted.encode e.2) e.2 :=
    fun e _ s _ => Text.Quoted.quoted?_encode e.2 s
  have hmapping := reads_mapping hvalue rest hrest
  rw [attributes?, Attributes.code, hmapping]
  simp [Option.filter_some, h]

theorem flag?_code (b : Bool) {rest : Text} (hrest : Directive.atNumberEnd rest = true) :
    flag? (flagCode b ++ rest) = some (b, rest) := by
  rw [flag?, show flagCode b = (Literal.bool b).code from rfl, literal?_code (l := .bool b) trivial hrest]
  rfl

theorem place?_ofNat (n : Nat) {rest : Text} (hrest : Directive.atNumberEnd rest = true) :
    place? (Text.ofNat n ++ rest) = some (n, rest) := by
  rw [place?, show Text.ofNat n = Text.ofInt n from rfl, number?_ofInt n hrest]
  rfl

end Code

/-- an expression that can be read back -/
def Expr.Legible : Expr → Prop
  | literal l => Code.Legible l
  | lookup _ default => Code.Legible default
  | demand _ _ => True

namespace Code

/-- **An expression** is read back. -/
theorem expr?_code {e : Expr} (h : e.Legible) {rest : Text} (hrest : Directive.atNumberEnd rest = true) :
    expr? (e.code ++ rest) = some (e, rest) := by
  cases e with
  | literal l =>
    rw [expr?, Expr.code, literal?_code h hrest]
    rfl
  | lookup path default =>
    have hdefault : Legible default := h
    have hcode : (Expr.lookup path default).code ++ rest =
        "lookup(_scope, ".toList ++ (pathCode path ++ (", ".toList ++ (default.code ++ (")".toList ++ rest)))) := by
      simp [Expr.code, Text.cat]
    have hliteral (s : Text) : literal? ("lookup(_scope, ".toList ++ s) = none := rfl
    simp (disch := exact atNumberEnd_append rfl _) only [hcode, expr?, hliteral, lookup?, path?_code,
      Text.after?_append, literal?_code hdefault, Option.bind_eq_bind, Option.bind_some]
    rfl
  | demand path reference =>
    have hcode : (Expr.demand path reference).code ++ rest =
        "lookup_strict(_scope, ".toList ++
          (pathCode path ++ (", ".toList ++ (Text.Quoted.encode reference ++ (")".toList ++ rest)))) := by
      simp [Expr.code, Text.cat]
    have hliteral (s : Text) : literal? ("lookup_strict(_scope, ".toList ++ s) = none := rfl
    have hlookup (s : Text) : Text.after? "lookup(_scope, " ("lookup_strict(_scope, ".toList ++ s) = none := rfl
    simp (disch := exact atNumberEnd_append rfl _) only [hcode, expr?, hliteral, hlookup, demand?, path?_code,
      Text.after?_append, Text.Quoted.quoted?_encode, Option.bind_eq_bind, Option.bind_some]
    rfl

theorem half?_code (half : Half) {rest : Text} (hrest : Directive.atNumberEnd rest = true) :
    half? (half.code ++ rest) = some (half, rest) := by
  cases half with
  | key n =>
    have hkey : (Half.key n).code ++ rest = "_key_".toList ++ (Text.ofNat n ++ rest) := by simp [Half.code, temporary]
    rw [half?, hkey, Text.after?_append, Option.bind_some, place?_ofNat n hrest]
    rfl
  | item n =>
    have hitem : (Half.item n).code ++ rest = "_value_".toList ++ (Text.ofNat n ++ rest) := by
      simp [Half.code, temporary]
    have hkey (s : Text) : Text.after? "_key_" ("_value_".toList ++ s) = none := rfl
    rw [half?, hitem, hkey, Text.after?_append, Option.bind_some, place?_ofNat n hrest]
    rfl

/-- **A test** is read back. -/
theorem test?_code {t : Test} (h : ∀ e ∈ t.exprs, e.Legible) (rest : Text) :
    test? (t.code ++ rest) = some (t, rest) := by
  cases t with
  | truth e =>
    have he : e.Legible := h e (by simp [Test.exprs])
    have hcode : (Test.truth e).code ++ rest = "bool(".toList ++ (e.code ++ (")".toList ++ rest)) := by
      simp [Test.code, Text.cat]
    simp (disch := exact atNumberEnd_append rfl _) only [hcode, test?, truth?, Text.after?_append,
      expr?_code he, Option.bind_eq_bind, Option.bind_some]
    rfl
  | compare op l r =>
    have hl : l.Legible := h l (by simp [Test.exprs])
    have hr : r.Legible := h r (by simp [Test.exprs])
    have hcode : (Test.compare op l r).code ++ rest =
        "compare(".toList ++ (Text.Quoted.encode op.text ++
          (", ".toList ++ (l.code ++ (", ".toList ++ (r.code ++ (")".toList ++ rest)))))) := by
      simp [Test.code, Text.cat]
    have hbool (s : Text) : Text.after? "bool(" ("compare(".toList ++ s) = none := rfl
    have hop : Comparison.ofText? op.text = some op := by
      cases op <;> rfl
    simp (disch := exact atNumberEnd_append rfl _) only [hcode, test?, hbool, comparison?, hop,
      Text.after?_append, Text.Quoted.quoted?_encode, expr?_code hl, expr?_code hr, Option.bind_eq_bind,
      Option.bind_some]
    rfl

/-- **A clause** is read back. -/
theorem clause?_code {c : Clause} (h : ∀ e ∈ c.test.exprs, e.Legible) (rest : Text) :
    clause? (c.code ++ rest) = some (c, rest) := by
  obtain ⟨negated, test⟩ := c
  have htest (negated : Bool) : closed? negated (test.code ++ (")".toList ++ rest)) = some (⟨negated, test⟩, rest) := by
    simp only [closed?, test?_code h, Text.after?_append, Option.bind_eq_bind, Option.bind_some]
    rfl
  cases negated with
  | true =>
    have hcode : Clause.code ⟨true, test⟩ ++ rest = "(not ".toList ++ (test.code ++ (")".toList ++ rest)) := by
      simp [Clause.code, Text.cat]
    rw [hcode, clause?, Text.after?_append, Option.bind_some, htest]
    rfl
  | false =>
    have hcode : Clause.code ⟨false, test⟩ ++ rest = "(".toList ++ (test.code ++ (")".toList ++ rest)) := by
      simp [Clause.code, Text.cat]
    have hnot : Text.after? "(not " ("(".toList ++ (test.code ++ (")".toList ++ rest))) = none := by
      cases test <;> rfl
    rw [hcode, clause?, hnot, Text.after?_append, Option.bind_some, htest]
    rfl

theorem clausesUpTo_code {more : List (Connective × Clause)}
    (h : ∀ p ∈ more, ∀ e ∈ p.2.test.exprs, e.Legible) {n : Nat} (hn : more.length ≤ n) {rest : Text}
    (hrest : connective? rest = none) :
    clausesUpTo n ((more.flatMap fun r => ' ' :: r.1.code ++ ' ' :: r.2.code) ++ rest) = some (more, rest) := by
  induction more generalizing n with
  | nil => cases n <;> simp [clausesUpTo, hrest]
  | cons p more ih =>
    obtain ⟨hp, hmore⟩ := List.forall_mem_cons.1 h
    obtain ⟨c, cl⟩ := p
    cases n with
    | zero => simp at hn
    | succ n =>
      have hconnective (s : Text) : connective? (' ' :: c.code ++ ' ' :: s) = some (c, s) := by
        cases c with
        | and => simp [connective?, Connective.code, Text.after?]
        | or => simp [connective?, Connective.code, Text.after?]
      have hcode : ((((c, cl) :: more).flatMap fun r => ' ' :: r.1.code ++ ' ' :: r.2.code) ++ rest) =
          ' ' :: c.code ++ ' ' ::
            (cl.code ++ ((more.flatMap fun r => ' ' :: r.1.code ++ ' ' :: r.2.code) ++ rest)) := by
        simp
      simp only [hcode, clausesUpTo, hconnective, clause?_code hp, ih hmore (by simpa using hn), Option.bind_eq_bind,
        Option.bind_some]
      rfl

theorem length_le_clauses (more : List (Connective × Clause)) :
    more.length ≤ (more.flatMap fun r => ' ' :: r.1.code ++ ' ' :: r.2.code).length := by
  induction more with
  | nil => simp
  | cons p more ih =>
    rw [List.flatMap_cons, List.length_append, List.length_cons]
    have hone : 1 ≤ (' ' :: p.1.code ++ ' ' :: p.2.code).length := by simp
    omega

/-- **A condition** is read back up to the mark after it. -/
theorem condition?_code {c : Condition} (h : ∀ e ∈ c.exprs, e.Legible) {rest : Text} (hrest : connective? rest = none) :
    condition? (c.code ++ rest) = some (c, rest) := by
  obtain ⟨first, more⟩ := c
  obtain ⟨hfirst, hmore⟩ := List.forall_mem_append.1 h
  have hlength : more.length ≤ ((more.flatMap fun r => ' ' :: r.1.code ++ ' ' :: r.2.code) ++ rest).length := by
    have := length_le_clauses more
    rw [List.length_append]
    omega
  have hcode : Condition.code ⟨first, more⟩ ++ rest =
      first.code ++ ((more.flatMap fun r => ' ' :: r.1.code ++ ' ' :: r.2.code) ++ rest) := by
    simp [Condition.code]
  have hmore : ∀ p ∈ more, ∀ e ∈ p.2.test.exprs, e.Legible := fun p hp e he =>
    hmore e (List.mem_flatMap.2 ⟨p, hp, he⟩)
  simp only [hcode, condition?, clause?_code hfirst, clausesUpTo_code hmore hlength hrest, Option.bind_eq_bind,
    Option.bind_some]
  rfl

/-! ## Lines -/

/-- the statement if nothing but the mark is left -/
def upTo (mark : Text) (s : Text) (stmt : Stmt) : Option Stmt := if s = mark then some stmt else none

/-- the shape of a line: a mark, and how the line goes on -/
structure LineShape where
  mark : Text
  more : Text → Option Stmt

/-- a line of this shape -/
def LineShape.read? (shape : LineShape) (line : Text) : Option Stmt := (Text.after? shape.mark line).bind shape.more

/-- a line that is always the same -/
def LineShape.fixed (stmt : Stmt) : LineShape := ⟨stmt.code, fun s => upTo "" s stmt⟩

/-- the shapes that lines have -/
def lineShapes : List LineShape :=
  [⟨"_write(", fun s => do
      let (t, s) ← quoted? s
      upTo ")" s (.write t)⟩,
   ⟨"_emit(", fun s => do
      let (e, s) ← expr? s
      upTo ")" s (.emit e)⟩,
   ⟨"if ", fun s => do
      let (c, s) ← condition? s
      upTo ":" s (.when c)⟩,
   ⟨"elif ", fun s => do
      let (c, s) ← condition? s
      upTo ":" s (.elsewhen c)⟩,
   ⟨"if exists(_scope, ", fun s => do
      let (path, s) ← path? s
      upTo "):" s (.whenReached path)⟩,
   ⟨"if _text_", fun s => do
      let (text, s) ← place? s
      upTo " is not None:" s (.whenText text)⟩,
   ⟨"_items_", fun s => do
      let (items, s) ← place? s
      let s ← Text.after? " = iterate(" s
      let (e, s) ← expr? s
      upTo ")" s (.iterate items e)⟩,
   ⟨"_loop = LoopContext(len(_items_", fun s => do
      let (items, s) ← place? s
      upTo "), _loop)" s (.loopOpen items)⟩,
   ⟨"for _key_", fun s => do
      let (key, s) ← place? s
      let s ← Text.after? ", _value_" s
      let (item, s) ← place? s
      let s ← Text.after? " in _items_" s
      let (items, s) ← place? s
      upTo ":" s (.forEach key item items)⟩,
   ⟨"_loop.iteration_begin(_key_", fun s => do
      let (key, s) ← place? s
      upTo ")" s (.iterationBegin key)⟩,
   ⟨"_scope[", fun s => do
      let (name, s) ← quoted? s
      let s ← Text.after? "] = " s
      let (half, s) ← half? s
      upTo "" s (.bind name half)⟩,
   ⟨"_r.capture_end(", fun s => do
      let (name, s) ← quoted? s
      upTo ")" s (.captureEnd name)⟩,
   ⟨"_form = _r.form_open(", fun s => do
      let (e, s) ← expr? s
      let s ← Text.after? ", " s
      let (name, s) ← quoted? s
      let s ← Text.after? ", " s
      let (a, s) ← attributes? s
      upTo ", _form)" s (.formOpen e name a)⟩,
   ⟨"_write(_form.input_for(", fun s => do
      let (name, s) ← quoted? s
      let s ← Text.after? ", " s
      let (a, s) ← attributes? s
      let s ← Text.after? ", " s
      let (labelled, s) ← flag? s
      upTo "))" s (.field name a labelled)⟩,
   ⟨"_write(_form.submit(", fun s => do
      let (a, s) ← attributes? s
      upTo "))" s (.submit a)⟩,
   ⟨"_write(_form.button(", fun s => do
      let (a, s) ← attributes? s
      upTo "))" s (.button a)⟩,
   ⟨"_write(_r.form_open(", fun s => do
      let (e, s) ← expr? s
      let s ← Text.after? ", " s
      let (name, s) ← quoted? s
      let s ← Text.after? ", \x7b\x7d, _form).generate(" s
      let (a, s) ← attributes? s
      let s ← Text.after? ", " s
      let (submitting, s) ← flag? s
      upTo "))" s (.generate e name a submitting)⟩,
   ⟨"_text_", fun s => do
      let (text, s) ← place? s
      let s ← Text.after? " = _r.translate(" s
      let (key, s) ← quoted? s
      let s ← Text.after? ", " s
      let (params, s) ← mapping? expr? s
      upTo ")" s (.translate text key params)⟩,
   ⟨"_write(_text_", fun s => do
      let (text, s) ← place? s
      upTo ")" s (.writeText text)⟩] ++
    [Stmt.pass, .scopeLoop, .iterationEnd, .scopeClose, .loopClose, .otherwise, .captureBegin, .writeFormOpen,
      .scopeForm, .writeFormClose, .formClose].map .fixed

/-- the statement that a line is -/
def line? (line : Text) : Option Stmt := lineShapes.findSome? fun shape => shape.read? line

/-! ## Lines read back -/

@[simp] theorem upTo_mark (mark : Text) (stmt : Stmt) : upTo mark (mark ++ []) stmt = some stmt := by
  simp [upTo]

/-- neither mark begins the other -/
def LineShape.Apart (a b : LineShape) : Prop := ¬ a.mark <+: b.mark ∧ ¬ b.mark <+: a.mark

instance (a b : LineShape) : Decidable (a.Apart b) := inferInstanceAs (Decidable (_ ∧ _))

/-- no line of the second shape is read by the first -/
def LineShape.Misses (a b : LineShape) : Prop := ∀ more, a.read? (b.mark ++ more) = none

theorem LineShape.Apart.misses {a b : LineShape} (h : a.Apart b) : a.Misses b := by
  intro more
  have hafter : Text.after? a.mark (b.mark ++ more) = none := by
    rw [Option.eq_none_iff_forall_ne_some]
    intro rest hrest
    have hprefix : a.mark <+: b.mark ++ more := ⟨rest, (Text.after?_eq_some_iff.1 hrest).symm⟩
    rcases List.prefix_or_prefix_of_prefix hprefix (List.prefix_append _ _) with hab | hba
    · exact h.1 hab
    · exact h.2 hba
  rw [LineShape.read?, hafter, Option.bind_none]

/-- a shape misses a mark that goes on behind its own as it cannot be read -/
theorem LineShape.misses_of_prefix {a b : LineShape} {beginning : Text} (h : beginning <+: b.mark)
    (hmiss : ∀ more, a.read? (beginning ++ more) = none) : a.Misses b := by
  obtain ⟨rest, hrest⟩ := h
  intro more
  rw [← hrest, List.append_assoc]
  exact hmiss _

-- one evaluation for all pairs: each mark is taken apart once
theorem marks_apart :
    (∀ b ∈ lineShapes.drop 1, lineShapes[0].Apart b ∨ "_write(_".toList <+: b.mark) ∧
    (∀ b ∈ lineShapes.drop 2, lineShapes[1].Apart b) ∧
    (∀ b ∈ lineShapes.drop 3, lineShapes[2].Apart b ∨ "if exists(_scope, ".toList <+: b.mark ∨
      "if _text_".toList <+: b.mark) ∧
    (lineShapes.drop 3).Pairwise LineShape.Apart := by
  decide +kernel

/-- a shape misses the lines of all shapes behind it -/
theorem lineShapes_misses : lineShapes.Pairwise LineShape.Misses := by
  obtain ⟨hwrite, hemit, hwhen, hmore⟩ := marks_apart
  refine .cons ?_ (.cons ?_ (.cons ?_ (hmore.imp LineShape.Apart.misses)))
  · intro b hb
    rcases hwrite b hb with h | h
    · exact h.misses
    · exact LineShape.misses_of_prefix h fun more => rfl
  · exact fun b hb => (hemit b hb).misses
  · intro b hb
    rcases hwhen b hb with h | h | h
    · exact h.misses
    · exact LineShape.misses_of_prefix h fun more => rfl
    · exact LineShape.misses_of_prefix h fun more => rfl

/-- a line is read by the shape that it has -/
theorem line?_of_shape {line : Text} {stmt : Stmt} (k : Nat) (more : Text) {shape : LineShape}
    (hk : lineShapes[k]? = some shape) (hline : line = shape.mark ++ more) (h : shape.more more = some stmt) :
    line? line = some stmt := by
  obtain ⟨hlt, hget⟩ := List.getElem?_eq_some_iff.1 hk
  have hsplit : lineShapes = lineShapes.take k ++ shape :: lineShapes.drop (k + 1) := by
    rw [← hget, ← List.drop_eq_getElem_cons hlt, List.take_append_drop]
  have hmisses := lineShapes_misses
  rw [hsplit, List.pairwise_append] at hmisses
  have hbefore : (lineShapes.take k).findSome? (fun shape => shape.read? line) = none := by
    rw [List.findSome?_eq_none_iff]
    intro a ha
    rw [hline]
    exact hmisses.2.2 a ha shape List.mem_cons_self more
  have hread : shape.read? line = some stmt := by
    rw [hline, LineShape.read?, Text.after?_append, Option.bind_some, h]
  rw [line?, hsplit, List.findSome?_append, hbefore, Option.none_or, List.findSome?_cons, hread]

/-- a line that is always the same -/
theorem line?_fixed {stmt : Stmt} (k : Nat) (hk : lineShapes[k]? = some (.fixed stmt)) :
    line? stmt.code = some stmt :=
  line?_of_shape k [] hk (List.append_nil _).symm (upTo_mark [] stmt)

theorem params?_code {params : List (Text × Expr)} (h : ∀ e ∈ params.map Prod.snd, e.Legible) {rest : Text}
    (hrest : Directive.atNumberEnd rest = true) :
    mapping? expr? (mappingCode (params.map fun p => (p.1, p.2.code)) ++ rest) = some (params, rest) :=
  reads_mapping (fun p hp _ hs => expr?_code (h p.2 (List.mem_map.2 ⟨p, hp, rfl⟩)) hs) rest hrest

end Code

/-- the mappings of attributes in a statement -/
def Stmt.mappings : Stmt → List Attributes
  | formOpen _ _ a => [a]
  | field _ a _ => [a]
  | submit a => [a]
  | button a => [a]
  | generate _ _ a _ => [a]
  | _ => []

/-- a statement that can be read back -/
structure Stmt.Legible (s : Stmt) : Prop where
  exprs : ∀ e ∈ s.exprs, e.Legible
  mappings : ∀ a ∈ s.mappings, (a.map Prod.fst).Nodup

namespace Code

variable {e : Expr} {a : Attributes} {c : Condition}

theorem line?_write (t : Text) : line? (Stmt.write t).code = some (.write t) := by
  refine line?_of_shape 0 (Text.Quoted.encode t ++ (")".toList ++ [])) rfl rfl ?_
  simp only [Text.Quoted.quoted?_encode, Option.bind_eq_bind, Option.bind_some, upTo_mark]

theorem line?_emit (he : e.Legible) : line? (Stmt.emit e).code = some (.emit e) := by
  refine line?_of_shape 1 (e.code ++ (")".toList ++ [])) rfl rfl ?_
  simp (disch := exact atNumberEnd_append rfl _) only [expr?_code he, Option.bind_eq_bind, Option.bind_some, upTo_mark]

theorem line?_when (hc : ∀ e ∈ c.exprs, e.Legible) : line? (Stmt.when c).code = some (.when c) := by
  have hread : condition? (c.code ++ (":".toList ++ [])) = some (c, ":".toList ++ []) := condition?_code hc rfl
  refine line?_of_shape 2 (c.code ++ (":".toList ++ [])) rfl rfl ?_
  simp only [hread, Option.bind_eq_bind, Option.bind_some, upTo_mark]

theorem line?_elsewhen (hc : ∀ e ∈ c.exprs, e.Legible) : line? (Stmt.elsewhen c).code = some (.elsewhen c) := by
  have hread : condition? (c.code ++ (":".toList ++ [])) = some (c, ":".toList ++ []) := condition?_code hc rfl
  refine line?_of_shape 3 (c.code ++ (":".toList ++ [])) rfl rfl ?_
  simp only [hread, Option.bind_eq_bind, Option.bind_some, upTo_mark]

theorem line?_whenReached (path : List Segment) :
    line? (Stmt.whenReached path).code = some (.whenReached path) := by
  have hline : Stmt.code (.whenReached path) =
      "if exists(_scope, ".toList ++ (pathCode path ++ ("):".toList ++ [])) := by
    change "if ".toList ++
      (("exists(_scope, ".toList ++ (pathCode path ++ (")".toList ++ []))) ++ (":".toList ++ [])) = _
    simp only [List.append_assoc]
    rfl
  refine line?_of_shape 4 _ rfl hline ?_
  simp (disch := exact atNumberEnd_append rfl _) only [path?_code, Option.bind_eq_bind, Option.bind_some, upTo_mark]

theorem line?_whenText (text : Nat) : line? (Stmt.whenText text).code = some (.whenText text) := by
  refine line?_of_shape 5 (Text.ofNat text ++ (" is not None:".toList ++ [])) rfl rfl ?_
  simp (disch := exact atNumberEnd_append rfl _) only [place?_ofNat, Option.bind_eq_bind, Option.bind_some, upTo_mark]

theorem line?_iterate (items : Nat) (he : e.Legible) :
    line? (Stmt.iterate items e).code = some (.iterate items e) := by
  refine line?_of_shape 6 (Text.ofNat items ++ (" = iterate(".toList ++ (e.code ++ (")".toList ++ [])))) rfl rfl ?_
  simp (disch := exact atNumberEnd_append rfl _) only [place?_ofNat, Text.after?_append, expr?_code he,
    Option.bind_eq_bind, Option.bind_some, upTo_mark]

theorem line?_loopOpen (items : Nat) : line? (Stmt.loopOpen items).code = some (.loopOpen items) := by
  refine line?_of_shape 7 (Text.ofNat items ++ ("), _loop)".toList ++ [])) rfl rfl ?_
  simp (disch := exact atNumberEnd_append rfl _) only [place?_ofNat, Option.bind_eq_bind, Option.bind_some, upTo_mark]

theorem line?_forEach (key item items : Nat) :
    line? (Stmt.forEach key item items).code = some (.forEach key item items) := by
  refine line?_of_shape 8
    (Text.ofNat key ++ (", _value_".toList ++ (Text.ofNat item ++ (" in _items_".toList ++ (Text.ofNat items ++
      (":".toList ++ [])))))) rfl rfl ?_
  simp (disch := exact atNumberEnd_append rfl _) only [place?_ofNat, Text.after?_append, Option.bind_eq_bind,
    Option.bind_some, upTo_mark]

theorem line?_iterationBegin (key : Nat) : line? (Stmt.iterationBegin key).code = some (.iterationBegin key) := by
  refine line?_of_shape 9 (Text.ofNat key ++ (")".toList ++ [])) rfl rfl ?_
  simp (disch := exact atNumberEnd_append rfl _) only [place?_ofNat, Option.bind_eq_bind, Option.bind_some, upTo_mark]

theorem line?_bind (name : Text) (half : Half) : line? (Stmt.bind name half).code = some (.bind name half) := by
  have hhalf : half? (half.code ++ []) = some (half, []) := half?_code half rfl
  refine line?_of_shape 10 (Text.Quoted.encode name ++ ("] = ".toList ++ (half.code ++ []))) rfl rfl ?_
  simp only [Text.Quoted.quoted?_encode, Text.after?_append, hhalf, Option.bind_eq_bind, Option.bind_some]
  rfl

theorem line?_captureEnd (name : Text) : line? (Stmt.captureEnd name).code = some (.captureEnd name) := by
  refine line?_of_shape 11 (Text.Quoted.encode name ++ (")".toList ++ [])) rfl rfl ?_
  simp only [Text.Quoted.quoted?_encode, Option.bind_eq_bind, Option.bind_some, upTo_mark]

theorem line?_formOpen (he : e.Legible) (name : Text) (ha : (a.map Prod.fst).Nodup) :
    line? (Stmt.formOpen e name a).code = some (.formOpen e name a) := by
  refine line?_of_shape 12
    (e.code ++ (", ".toList ++ (Text.Quoted.encode name ++ (", ".toList ++ (a.code ++ (", _form)".toList ++
      [])))))) rfl rfl ?_
  simp (disch := exact atNumberEnd_append rfl _) only [expr?_code he, Text.Quoted.quoted?_encode, attributes?_code ha,
    Text.after?_append, Option.bind_eq_bind, Option.bind_some, upTo_mark]

theorem line?_field (name : Text) (ha : (a.map Prod.fst).Nodup) (labelled : Bool) :
    line? (Stmt.field name a labelled).code = some (.field name a labelled) := by
  refine line?_of_shape 13
    (Text.Quoted.encode name ++ (", ".toList ++ (a.code ++ (", ".toList ++ (flagCode labelled ++ ("))".toList ++
      [])))))) rfl rfl ?_
  simp (disch := exact atNumberEnd_append rfl _) only [Text.Quoted.quoted?_encode, attributes?_code ha, flag?_code,
    Text.after?_append, Option.bind_eq_bind, Option.bind_some, upTo_mark]

theorem line?_submit (ha : (a.map Prod.fst).Nodup) : line? (Stmt.submit a).code = some (.submit a) := by
  refine line?_of_shape 14 (a.code ++ ("))".toList ++ [])) rfl rfl ?_
  simp (disch := exact atNumberEnd_append rfl _) only [attributes?_code ha, Option.bind_eq_bind, Option.bind_some,
    upTo_mark]

theorem line?_button (ha : (a.map Prod.fst).Nodup) : line? (Stmt.button a).code = some (.button a) := by
  refine line?_of_shape 15 (a.code ++ ("))".toList ++ [])) rfl rfl ?_
  simp (disch := exact atNumberEnd_append rfl _) only [attributes?_code ha, Option.bind_eq_bind, Option.bind_some,
    upTo_mark]

theorem line?_generate (he : e.Legible) (name : Text) (ha : (a.map Prod.fst).Nodup) (submitting : Bool) :
    line? (Stmt.generate e name a submitting).code = some (.generate e name a submitting) := by
  refine line?_of_shape 16
    (e.code ++ (", ".toList ++ (Text.Quoted.encode name ++ (", \x7b\x7d, _form).generate(".toList ++ (a.code ++
      (", ".toList ++ (flagCode submitting ++ ("))".toList ++ [])))))))) rfl rfl ?_
  simp (disch := exact atNumberEnd_append rfl _) only [expr?_code he, Text.Quoted.quoted?_encode, attributes?_code ha,
    flag?_code, Text.after?_append, Option.bind_eq_bind, Option.bind_some, upTo_mark]

theorem line?_translate (text : Nat) (key : Text) {params : List (Text × Expr)}
    (hparams : ∀ e ∈ params.map Prod.snd, e.Legible) :
    line? (Stmt.translate text key params).code = some (.translate text key params) := by
  refine line?_of_shape 17
    (Text.ofNat text ++ (" = _r.translate(".toList ++ (Text.Quoted.encode key ++ (", ".toList ++
      (mappingCode (params.map fun p => (p.1, p.2.code)) ++ (")".toList ++ [])))))) rfl rfl ?_
  simp (disch := exact atNumberEnd_append rfl _) only [place?_ofNat, Text.Quoted.quoted?_encode, params?_code hparams,
    Text.after?_append, Option.bind_eq_bind, Option.bind_some, upTo_mark]

theorem line?_writeText (text : Nat) : line? (Stmt.writeText text).code = some (.writeText text) := by
  refine line?_of_shape 18 (Text.ofNat text ++ (")".toList ++ [])) rfl rfl ?_
  simp (disch := exact atNumberEnd_append rfl _) only [place?_ofNat, Option.bind_eq_bind, Option.bind_some, upTo_mark]

/-- **The line of a statement** is read back. -/
theorem line?_code {s : Stmt} (h : s.Legible) : line? s.code = some s := by
  obtain ⟨hexprs, hmappings⟩ := h
  cases s
  case write t => exact line?_write t
  case emit e => exact line?_emit (hexprs e (List.mem_singleton_self e))
  case when c => exact line?_when hexprs
  case elsewhen c => exact line?_elsewhen hexprs
  case whenReached path => exact line?_whenReached path
  case whenText text => exact line?_whenText text
  case iterate items e => exact line?_iterate items (hexprs e (List.mem_singleton_self e))
  case loopOpen items => exact line?_loopOpen items
  case forEach key item items => exact line?_forEach key item items
  case iterationBegin key => exact line?_iterationBegin key
  case bind name half => exact line?_bind name half
  case captureEnd name => exact line?_captureEnd name
  case formOpen e name a =>
    exact line?_formOpen (hexprs e (List.mem_singleton_self e)) name (hmappings a (List.mem_singleton_self a))
  case field name a labelled => exact line?_field name (hmappings a (List.mem_singleton_self a)) labelled
  case submit a => exact line?_submit (hmappings a (List.mem_singleton_self a))
  case button a => exact line?_button (hmappings a (List.mem_singleton_self a))
  case generate e name a submitting =>
    exact line?_generate (hexprs e (List.mem_singleton_self e)) name (hmappings a (List.mem_singleton_self a))
      submitting
  case translate text key params => exact line?_translate text key hexprs
  case writeText text => exact line?_writeText text
  case pass => exact line?_fixed 19 rfl
  case scopeLoop => exact line?_fixed 20 rfl
  case iterationEnd => exact line?_fixed 21 rfl
  case scopeClose => exact line?_fixed 22 rfl
  case loopClose => exact line?_fixed 23 rfl
  case otherwise => exact line?_fixed 24 rfl
  case captureBegin => exact line?_fixed 25 rfl
  case writeFormOpen => exact line?_fixed 26 rfl
  case scopeForm => exact line?_fixed 27 rfl
  case writeFormClose => exact line?_fixed 28 rfl
  case formClose => exact line?_fixed 29 rfl

end Code

end Stencil
