/-
LITERALS KEEP THEIR VALUES IN CODE. `Code.evaluate?` is the value of the code of an expression, from its text alone:
a literal has the value that it is written for, nothing is known under a bare name, and the arguments of a lookup are
evaluated before it. The one literal without a value is a decimal beyond all doubles, which is written as a name.

- `constant?_code`: the code of a literal has its value, or is the name.
- `evaluate?_code`: the value of an expression's code is that of the expression.
- `operand_of_literal`, `value_of_fallback`: what a literal is written as by itself, and behind a reference.
- `literal_preserved`: the value of a literal's text against that of its code.
- `decimal_beyond`: a decimal whose code has no value.
-/
import Stencil.Proofs.Inert
import Stencil.Proofs.Reserved

namespace Stencil

/-! ## The value of code -/

namespace Code

/-- the name that code begins with, behind a sign or not, and the rest -/
def name? (s : Text) : Option (Text × Text) :=
  Text.run? Text.isNameStart Text.isNameChar
    (match s with
    | '-' :: cs => cs
    | s => s)

/-- the value of the constant that code begins with, and the rest; a bare name has none -/
def constant? (s : Text) : Option (Except Failure Literal × Text) :=
  ((literal? s).map fun p => (.ok p.1, p.2)) <|> (name? s).map fun p => (.error (.unknownName p.1), p.2)

/-- the value of a lookup after its name: its default is evaluated before the path is followed -/
def lookupValue? (reach : Reach) (s : Text) : Option (Except Failure Value) := do
  let (path, s) ← path? s
  let s ← Text.after? ", " s
  let (default, s) ← constant? s
  if s = ")".toList then
    return do
      let d ← default
      let found ← reach path
      return found.getD d.toValue
  else none

/-- the value of code that is a constant or a lookup, where `reach` gives what a path reaches -/
def evaluate? (reach : Reach) (s : Text) : Option (Except Failure Value) :=
  (((constant? s).filter fun p => p.2.isEmpty).map fun p => p.1.map Literal.toValue) <|>
    (Text.after? "lookup(_scope, " s).bind (lookupValue? reach)

/-- the value that the code of a literal has -/
def kept (l : Literal) : Except Failure Literal := if l.Finite then .ok l else .error (.unknownName "inf")

variable {l : Literal}

/-- **The code of a literal** has its value; a decimal beyond all doubles is written as a name. -/
theorem constant?_code (h : l.Stored) {rest : Text} (hrest : rest = [] ∨ rest = ")".toList) :
    constant? (l.code ++ rest) = some (kept l, rest) := by
  by_cases hfinite : l.Finite
  · have hend : Directive.atNumberEnd rest = true := by rcases hrest with rfl | rfl <;> rfl
    rw [constant?, literal?_code (legible_of_stored h hfinite) hend, kept, if_pos hfinite]
    rfl
  · obtain ⟨negative, rfl⟩ : ∃ negative, l = .float (.infinite negative) := by
      cases l with
      | float x =>
        cases x with
        | infinite negative => exact ⟨negative, rfl⟩
        | finite negative m e => exact absurd trivial hfinite
      | _ => exact absurd trivial hfinite
    rcases hrest with rfl | rfl <;> cases negative <;> rfl

theorem eval_eq_kept (l : Literal) : l.eval = (kept l).map Literal.toValue := by
  cases l with
  | float x => cases x <;> rfl
  | _ => rfl

/-- **The code of an expression** that demands nothing has the value of the expression. -/
theorem evaluate?_code {e : Expr} (h : e.Stored) (hdemand : ∀ path reference, e ≠ .demand path reference)
    (reach : Reach) : evaluate? reach e.code = some (e.eval reach) := by
  cases e with
  | literal l =>
    have hcode := constant?_code (l := l) h (.inl rfl)
    rw [List.append_nil] at hcode
    rw [Expr.code, Expr.eval, evaluate?, hcode, eval_eq_kept]
    rfl
  | lookup path default =>
    have hcode : (Expr.lookup path default).code =
        "lookup(_scope, ".toList ++ (pathCode path ++ (", ".toList ++ (default.code ++ ")".toList))) := by
      simp [Expr.code, Text.cat]
    have hname (s : Text) : constant? ("lookup(_scope, ".toList ++ s) =
        some (.error (.unknownName "lookup"), "(_scope, ".toList ++ s) := rfl
    have hdefault := constant?_code (l := default) h (.inr rfl)
    have hvalue : lookupValue? reach (pathCode path ++ (", ".toList ++ (default.code ++ ")".toList))) =
        some ((Expr.lookup path default).eval reach) := by
      rw [lookupValue?, path?_code path (atNumberEnd_append rfl _)]
      simp only [Option.bind_eq_bind, Option.bind_some, Text.after?_append, hdefault, if_true, Expr.eval, eval_eq_kept]
      cases kept default <;> rfl
    rw [hcode, evaluate?, hname, Text.after?_append, Option.bind_some, hvalue]
    rfl
  | demand path reference => exact absurd rfl (hdemand path reference)

end Code

/-! ## The code of literals -/

open LiteralText

/-- an integer has no more digits than are read -/
def Literal.IsShort (source : Text) : Prop :=
  areDigits (unsigned (Text.strip source)).2 = true → (unsigned (Text.strip source)).2.length ≤ digitLimit

/-- the literal is a decimal that is rounded to no double -/
def Literal.IsBeyond (source : Text) : Prop :=
  ∃ negative whole fraction, Text.strip source = (number negative whole (some fraction)).text ∧
    Literal.areDigits whole = true ∧ Literal.areDigits fraction = true ∧
    Binary64.limit * 10 ^ fraction.length ≤ Literal.numberOf (whole ++ fraction)

theorem LiteralText.short_of_isShort {l : LiteralText} (h : l.proper = true) {source : Text}
    (hsource : Text.strip source = l.text) (hshort : Literal.IsShort source) : l.short = true := by
  cases l with
  | number negative whole fraction =>
    cases fraction with
    | none =>
      have hwhole : Literal.areDigits whole = true := by simpa [proper] using h
      have hunsigned : Literal.unsigned (Text.strip source) = (negative, whole) := by
        have hsign : Literal.unsigned (LiteralText.sign negative ++ (whole ++ [])) = (negative, whole ++ []) :=
          Literal.unsigned_sign hwhole []
        simpa [hsource, LiteralText.text, fractionText] using hsign
      rw [Literal.IsShort, hunsigned] at hshort
      simpa [short] using hshort hwhole
    | some f => rfl
  | _ => rfl

/-- **A literal has no double as its value** exactly if it is a decimal beyond all of them. -/
theorem LiteralText.finite_iff {l : LiteralText} (h : l.proper = true) (hshort : l.short = true) {source : Text}
    (hsource : Text.strip source = l.text) : l.value.Finite ↔ ¬Literal.IsBeyond source := by
  have hnumber {negative : Bool} {whole fraction : Text} :
      ¬(number negative whole (some fraction)).value.Finite ↔
        Binary64.limit * 10 ^ fraction.length ≤ Literal.numberOf (whole ++ fraction) := by
    rw [← Binary64.ofDecimal_infinite_iff negative, value]
    cases Binary64.ofDecimal negative (Literal.numberOf (whole ++ fraction)) (-(fraction.length : Int)) <;>
      simp [Literal.Finite]
  rw [← not_iff_not, not_not]
  constructor
  · intro hbeyond
    cases l with
    | number negative whole fraction =>
      cases fraction with
      | none => exact absurd trivial hbeyond
      | some f =>
        rw [proper, Bool.and_eq_true] at h
        exact ⟨negative, whole, f, hsource, h.1, h.2, hnumber.1 hbeyond⟩
    | _ => exact absurd trivial hbeyond
  · rintro ⟨negative, whole, f, htext, hwhole, hfraction, hbeyond⟩
    have hproper : (number negative whole (some f)).proper = true := by simp [proper, hwhole, hfraction]
    -- both are read from the one text
    have hvalue := Literal.parse_text h
    rw [if_pos hshort, ← hsource, htext, Literal.parse_text hproper] at hvalue
    have hsame : (number negative whole (some f)).value = l.value := Except.ok.inj hvalue
    rw [← hsame]
    exact hnumber.2 hbeyond

namespace Directive.Mode

variable {source : Text} {l : LiteralText}

/-- a literal by itself -/
theorem operand_of_literal (hliteral : Literal.isLiteral source = true) {value : Literal}
    (hparse : Literal.parse source = .ok value) (m : Mode) (bound : List Text) (lenient : Bool) :
    m.operand bound lenient source = .ok (.literal value) := by
  rw [operand, hliteral, hparse]
  rfl

/-- a literal that stands behind a reference -/
theorem value_of_fallback {value : Literal} (hproper : l.proper = true) (hsource : Text.strip source = l.text)
    (hparse : Literal.parse l.text = .ok value) {raw u v : Text} {r : Reference} (hraw : Reference.parse raw = .ok r)
    (hnone : r.fallback = none) (hblank : ∀ c ∈ u ++ v, Text.isBlank c = true) {m : Mode} {bound : List Text}
    (hcheck : m.check bound r = .ok ()) (lenient : Bool) :
    m.value bound lenient (raw ++ u ++ "??" ++ v ++ source) = .ok (.lookup r.path value) := by
  obtain ⟨⟨path, fallback⟩, hw, hshort, hstrip, rfl⟩ := Reference.writing_of_parse hraw
  obtain rfl : fallback = none := by simpa [Reference.Writing.reference] using hnone
  obtain ⟨a, b, hab, hraw'⟩ := Text.exists_strip raw
  obtain ⟨c, d, hcd, hsource'⟩ := Text.exists_strip source
  rw [hstrip] at hraw'
  rw [hsource] at hsource'
  simp only [List.forall_mem_append] at hblank hab hcd
  -- the blanks around the two texts stand before the reference, around the mark and behind the literal
  let w : Reference.Writing := ⟨path, some ⟨b ++ u, v ++ c, l⟩⟩
  have htext : raw ++ u ++ "??" ++ v ++ source = a ++ w.text ++ d := by
    rw [hraw', hsource']
    simp [w, Reference.Writing.text, FallbackText.text]
  have hproper' : w.proper = true := by
    rw [Reference.Writing.proper, Bool.and_eq_true] at hw ⊢
    simp only [w, Option.all_some, FallbackText.proper, hproper, Bool.and_true, Bool.and_eq_true, List.all_eq_true,
      List.forall_mem_append]
    exact ⟨hw.1, ⟨hab.2, hblank.1⟩, hblank.2, hcd.1⟩
  have hparse' : Reference.parse (a ++ w.text ++ d) = .ok w.reference := by
    rw [Reference.parse_writing hproper' hab.1 hcd.2]
    exact if_pos hshort
  have hcheck' : m.check bound w.reference = .ok () := by
    rw [check] at hcheck ⊢
    split at hcheck
    · cases hcheck
    · rename_i hroot
      exact if_neg hroot
  rw [htext, Mode.value, hparse', ok_bind, hcheck', ok_bind]
  simp only [w, Reference.Writing.reference, Option.map_some, hparse]
  rfl

end Directive.Mode

/-- **Literals keep their values in code.** The text of every literal that is no integer of too many digits has a
value. The code of the literal by itself has exactly this value, wherever it stands; so has the code of the literal as
the fallback of a reference whose path reaches nothing, and what the path reaches is not changed by it. The exception
are decimals beyond all doubles, from half a unit above the greatest one on: their code is a name that stands for
nothing, and evaluating it fails. -/
theorem literal_preserved {source : Text} (hliteral : Literal.isLiteral source = true)
    (hshort : Literal.IsShort source) :
    ∃ l, Literal.parse source = .ok l ∧ (l.Finite ↔ ¬Literal.IsBeyond source) ∧
      (l.Finite → Code.kept l = .ok l) ∧ (¬l.Finite → Code.kept l = .error (.unknownName "inf")) ∧
      (∀ (m : Directive.Mode) (bound : List Text) (lenient : Bool), ∃ e, m.operand bound lenient source = .ok e ∧
        ∀ reach, Code.evaluate? reach e.code = some ((Code.kept l).map Literal.toValue)) ∧
      ∀ (m : Directive.Mode) (bound : List Text) (lenient : Bool) (raw u v : Text) (r : Reference),
        Reference.parse raw = .ok r → r.fallback = none → m.check bound r = .ok () →
        (∀ c ∈ u ++ v, Text.isBlank c = true) →
          ∃ e, m.value bound lenient (raw ++ u ++ "??" ++ v ++ source) = .ok e ∧
            ∀ (reach : Reach) (found : Option Value), reach r.path = .ok found →
              Code.evaluate? reach e.code = some ((Code.kept l).map fun l => found.getD l.toValue) := by
  obtain ⟨t, hproper, hsource⟩ := Literal.isLiteral_iff.1 hliteral
  have hread : t.short = true := LiteralText.short_of_isShort hproper hsource hshort
  have hparse : Literal.parse t.text = .ok t.value := by
    rw [Literal.parse_text hproper, if_pos hread]
  have hstrip : Text.strip t.text = t.text := by
    simpa using (Literal.solid_text hproper).strip (u := []) (v := []) (by simp) (by simp)
  have hparse' : Literal.parse source = .ok t.value := by
    rw [← hparse, Literal.parse, Literal.parse, hsource, hstrip]
  have hstored : t.value.Stored := Literal.stored_of_parse hparse
  refine ⟨t.value, hparse', LiteralText.finite_iff hproper hread hsource, fun h => if_pos h, fun h => if_neg h,
    fun m bound lenient => ?_, ?_⟩
  · refine ⟨_, Directive.Mode.operand_of_literal hliteral hparse' m bound lenient, fun reach => ?_⟩
    rw [Code.evaluate?_code (e := .literal t.value) hstored (by simp), Expr.eval, Code.eval_eq_kept]
  · intro m bound lenient raw u v r hraw hnone hcheck hblank
    refine ⟨_, Directive.Mode.value_of_fallback hproper hsource hparse hraw hnone hblank hcheck lenient, ?_⟩
    intro reach found hfound
    rw [Code.evaluate?_code (e := .lookup r.path t.value) hstored (by simp), Expr.eval, Code.eval_eq_kept, hfound]
    cases Code.kept t.value <;> rfl

/-- a text in marks, with blanks around it, by itself and behind a reference -/
theorem text_preserved :
    let source : Text := " 'it\\\"s' "
    let reference : Text := "a.b".toList ++ " " ++ "??" ++ "" ++ source
    Literal.isLiteral source = true ∧ Literal.IsShort source ∧
      ∀ (reach : Reach), reach [.name "a", .name "b"] = .ok none →
        ∃ e e', (⟨false, []⟩ : Directive.Mode).operand [] false source = .ok e ∧
          (⟨false, []⟩ : Directive.Mode).value [] false reference = .ok e' ∧
          Code.evaluate? reach e.code = some (.ok (.text "it\\\"s")) ∧
          Code.evaluate? reach e'.code = some (.ok (.text "it\\\"s")) := by
  intro source reference
  have hliteral : Literal.isLiteral source = true := by decide
  have hshort : Literal.IsShort source := by unfold Literal.IsShort; decide
  refine ⟨hliteral, hshort, fun reach hreach => ?_⟩
  obtain ⟨l, hparse, -, hfinite, -, hoperand, hfallback⟩ := literal_preserved hliteral hshort
  obtain rfl : l = .text "it\\\"s" := by
    have hvalue : Literal.parse source = .ok (.text "it\\\"s") := eq_ok_of_toOption (by decide)
    exact Except.ok.inj (hparse.symm.trans hvalue)
  have hraw : Reference.parse "a.b" = .ok ⟨"a", [.name "b"], none, "a.b"⟩ := eq_ok_of_toOption (by decide +kernel)
  obtain ⟨e, he, hvalue⟩ := hoperand ⟨false, []⟩ [] false
  obtain ⟨e', he', hvalue'⟩ :=
    hfallback ⟨false, []⟩ [] false "a.b" " " "" _ hraw rfl rfl (List.forall_mem_singleton.2 rfl)
  have hkept := hfinite trivial
  refine ⟨e, e', he, he', ?_, ?_⟩
  · rw [hvalue reach, hkept]
    rfl
  · rw [hvalue' reach none hreach, hkept]
    rfl

/-- a decimal beyond all doubles: its code by itself and in a template has no value -/
theorem decimal_beyond :
    let source : Text := '1' :: (List.replicate 309 '0' ++ ".0".toList)
    let template : Text := "\x7b\x7b x ?? ".toList ++ source ++ " \x7d\x7d".toList
    Literal.isLiteral source = true ∧ Literal.IsShort source ∧
      Literal.parse source = .ok (.float (.infinite false)) ∧
      (∀ reach, Code.evaluate? reach (Literal.float (.infinite false)).code = some (.error (.unknownName "inf"))) ∧
      ∃ t, (Compiler.standard .standard none []).compile template = .ok t ∧
        (t.render (.mapping []) [] (.value .none) .none).outcome = .error (.unknownName "inf") := by
  intro source template
  have hrender : ((Compiler.standard .standard none []).compile template).toOption.map (fun t =>
      match (t.render (.mapping []) [] (.value .none) .none).outcome with
      | .error e => some e
      | .ok _ => none) = some (some (.unknownName "inf")) := by
    decide +kernel
  obtain ⟨t, ht, hfailed⟩ := Option.map_eq_some_iff.1 hrender
  refine ⟨by decide +kernel, by unfold Literal.IsShort; decide +kernel, eq_ok_of_toOption (by decide +kernel),
    fun reach => rfl, t, eq_ok_of_toOption ht, ?_⟩
  split at hfailed
  · rename_i e he
    rw [he, Option.some.inj hfailed]
  · cases hfailed

end Stencil
