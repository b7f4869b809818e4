/-
WHAT CONDITIONS MEAN. A tree of the grammar is true or not by what its paths reach: a disjunction of the conjunctions
that stand between one `or` and the next, each clause negated as often as it has nots in front. Its clauses are looked
at from left to right, and none that no longer matters.

- `ConditionText.holds`: the truth of a tree, said without the code that a condition becomes.
- `Condition.eval_eq`: the flat condition that is evaluated is this disjunction of conjunctions.
- `tokens_of_printed`: a tree printed with blanks between its tokens has those tokens.
- `condition_means`: what is printed is accepted, and the code that it becomes is true exactly if the tree is.
-/
import Stencil.Proofs.Clauses
import Stencil.Proofs.Inert

namespace Stencil

namespace Directive

/-! ## The truth of a tree -/

/-- the value of an operand: the literal, or what the path reaches, or else the fallback or nothing -/
def OperandText.value (reach : Reach) : OperandText → Except Failure Value
  | literal l => return l.value.toValue
  | path p => do
    let found ← reach p.path
    return found.getD .none
  | fallback p l => do
    let found ← reach p.path
    return found.getD l.value.toValue

/-- what a clause says without its nots: an operand is truthy, or two compare -/
def ClauseText.tested (reach : Reach) (c : ClauseText) : Except Failure Bool :=
  match c.right with
  | none => do
    let v ← c.left.value reach
    return v.truthy
  | some (op, r) => do
    let v ← c.left.value reach
    let w ← r.value reach
    return op.apply v w

/-- a clause holds: an odd number of nots negates all that it says -/
def ClauseText.holds (reach : Reach) (c : ClauseText) : Except Failure Bool := do
  let b ← c.tested reach
  return if c.nots % 2 = 1 then !b else b

/-- the conjunctions: what stands between one `or` and the next -/
def conjunctions {α : Type} (first : α) : List (Connective × α) → List (List α)
  | [] => [[first]]
  | (.or, next) :: rest => [first] :: conjunctions next rest
  | (.and, next) :: rest => (conjunctions next rest).modifyHead (first :: ·)

/-- **A condition holds** if one of its conjunctions does, that is, all of its clauses -/
def ConditionText.holds (reach : Reach) (c : ConditionText) : Except Failure Bool :=
  (conjunctions c.first c.rest).anyM fun g => g.allM (ClauseText.holds reach)

example : conjunctions 1 [(.and, 2), (.or, 3), (.or, 4), (.and, 5)] = [[1, 2], [3], [4, 5]] := by decide

/-! ## What is evaluated -/

section

variable {reach : Reach}

theorem conjunctions_ne_nil {α : Type} (first : α) (rest : List (Connective × α)) : conjunctions first rest ≠ [] := by
  induction rest generalizing first with
  | nil => nofun
  | cons r rest ih =>
    obtain ⟨w, next⟩ := r
    cases w with
    | or => nofun
    | and => simpa [conjunctions] using ih next

/-- the clauses behind a connective, as conditions have them -/
def clausesOf (rest : List (Connective × ClauseText)) : List (Connective × Clause) :=
  rest.map fun r => (r.1, r.2.clause)

/-- a clause that begins a conjunction is looked at before the others of it -/
theorem anyM_modifyHead (first : ClauseText) (gs : List (List ClauseText)) (hne : gs ≠ []) :
    (gs.modifyHead (first :: ·)).anyM (fun g => g.allM (ClauseText.holds reach)) =
      first.holds reach >>= fun b =>
        if b then gs.anyM (fun g => g.allM (ClauseText.holds reach))
        else gs.tail.anyM fun g => g.allM (ClauseText.holds reach) := by
  cases gs with
  | nil => exact absurd rfl hne
  | cons g gs =>
    rw [List.modifyHead_cons, List.anyM_cons, List.allM_cons, bind_assoc]
    refine congrArg (first.holds reach >>= ·) (funext fun b => ?_)
    cases b with
    | true => rw [if_pos rfl, if_pos rfl, List.anyM_cons]
    | false => rfl

/-- **Clauses evaluated one after the other** are the conjunctions that they are: those behind a clause that fails begin
with the next `or`. -/
theorem evalRest_eq {rest : List (Connective × ClauseText)}
    (h : ∀ r ∈ rest, r.2.clause.eval reach = r.2.holds reach) :
    (∀ first, evalRest reach false (clausesOf rest) =
      (conjunctions first rest).tail.anyM fun g => g.allM (ClauseText.holds reach)) ∧
    ∀ first : ClauseText, (first.holds reach >>= fun b => evalRest reach b (clausesOf rest)) =
      (conjunctions first rest).anyM fun g => g.allM (ClauseText.holds reach) := by
  induction rest with
  | nil =>
    refine ⟨fun first => rfl, fun first => ?_⟩
    rw [conjunctions, List.anyM_cons, List.allM_cons, bind_assoc]
    refine congrArg (first.holds reach >>= ·) (funext fun b => ?_)
    cases b <;> rfl
  | cons r rest ih =>
    obtain ⟨w, next⟩ := r
    obtain ⟨hskip, hrun⟩ := ih fun r hr => h r (List.mem_cons_of_mem _ hr)
    have hnext : next.clause.eval reach = next.holds reach := h (w, next) List.mem_cons_self
    cases w with
    | or =>
      -- the conjunction before ends here: it decides, or the clauses behind do
      have hor : evalRest reach false (clausesOf ((.or, next) :: rest)) =
          (conjunctions next rest).anyM fun g => g.allM (ClauseText.holds reach) := by
        rw [← hrun next, ← hnext]
        rfl
      refine ⟨fun first => hor, fun first => ?_⟩
      rw [conjunctions, List.anyM_cons, List.allM_cons, bind_assoc]
      refine congrArg (first.holds reach >>= ·) (funext fun b => ?_)
      cases b with
      | true => rfl
      | false => exact hor
    | and =>
      have hand : evalRest reach true (clausesOf ((.and, next) :: rest)) =
          (conjunctions next rest).anyM fun g => g.allM (ClauseText.holds reach) := by
        rw [← hrun next, ← hnext]
        rfl
      refine ⟨fun first => ?_, fun first => ?_⟩
      · rw [conjunctions, List.tail_modifyHead]
        exact hskip next
      · rw [conjunctions, anyM_modifyHead first _ (conjunctions_ne_nil next rest)]
        refine congrArg (first.holds reach >>= ·) (funext fun b => ?_)
        cases b with
        | true => exact hand
        | false => exact hskip next

end

/-! ## Operands and clauses -/

/-- the token is a number within all doubles, or no path that begins with one of the words that are literals -/
def Lexeme.ordinary : Lexeme → Bool
  | literal l => decide l.value.Finite
  | path p => Literal.words.all fun w => w.1 != p.root
  | _ => true

section

variable {reach : Reach}

theorem eval_of_finite {l : Literal} (h : l.Finite) : l.eval = .ok l.toValue := by
  cases l with
  | float x =>
    cases x with
    | finite negative m e => rfl
    | infinite negative => exact h.elim
  | _ => rfl

/-- a path that begins with none of the words that are literals is none of them -/
theorem expr_of_ordinary {p : PathText} (hp : p.proper = true) (h : (Lexeme.path p).ordinary = true) :
    OperandText.expr (.path p) = .lookup p.path .null := by
  have hnone : (Literal.words.find? fun w => w.1 == p.text) = none := by
    refine List.find?_eq_none.2 fun w hw htext => ?_
    have hname : ∀ w ∈ Literal.words, (⟨w.1, []⟩ : PathText).proper = true := by decide
    have hword : (⟨w.1, []⟩ : PathText).text = p.text := (List.append_nil w.1).trans (beq_iff_eq.1 htext)
    have hroot := List.all_eq_true.1 h w hw
    rw [← Reference.eq_of_text_eq (hname w hw) hp hword, bne_self_eq_false] at hroot
    cases hroot
  rw [OperandText.expr, hnone]

/-- **The expression of an operand** has its value. -/
theorem eval_operand {o : OperandText} (hlegible : ∀ x ∈ o.lexemes, x.legible = true)
    (h : ∀ x ∈ o.lexemes, x.ordinary = true) : o.expr.eval reach = o.value reach := by
  cases o with
  | literal l => exact eval_of_finite (of_decide_eq_true (h (.literal l) List.mem_cons_self))
  | path p =>
    have hp := hlegible (.path p) List.mem_cons_self
    rw [Lexeme.legible, Bool.and_eq_true] at hp
    rw [expr_of_ordinary hp.1 (h (.path p) List.mem_cons_self)]
    rfl
  | fallback p l =>
    have hl : l.value.Finite := of_decide_eq_true (h (.literal l) (by simp [OperandText.lexemes]))
    simp only [OperandText.expr, Expr.eval, eval_of_finite hl, ok_bind, OperandText.value]

/-- **What a clause becomes** holds exactly if it does. -/
theorem eval_clause {c : ClauseText} (hlegible : ∀ x ∈ c.lexemes, x.legible = true)
    (h : ∀ x ∈ c.lexemes, x.ordinary = true) : c.clause.eval reach = c.holds reach := by
  rw [ClauseText.lexemes, List.forall_mem_append, List.forall_mem_append] at hlegible h
  have hleft : c.left.expr.eval reach = c.left.value reach := eval_operand hlegible.2.1 h.2.1
  have htest : c.test.eval reach = c.tested reach := by
    unfold ClauseText.test ClauseText.tested
    cases hright : c.right with
    | none => simp only [Test.eval, hleft]
    | some r =>
      obtain ⟨op, o⟩ := r
      rw [hright, ClauseText.rightLexemes, List.forall_mem_cons] at hlegible h
      have hright' : o.expr.eval reach = o.value reach := eval_operand hlegible.2.2.2 h.2.2.2
      simp only [Test.eval, hleft, hright']
  simp only [Clause.eval, ClauseText.clause, htest, ClauseText.holds, beq_iff_eq]

/-- **What a tree becomes** is true exactly if the tree is. -/
theorem eval_condition {c : ConditionText} (hlegible : ∀ x ∈ c.lexemes, x.legible = true)
    (h : ∀ x ∈ c.lexemes, x.ordinary = true) : c.condition.eval reach = c.holds reach := by
  rw [ConditionText.lexemes, List.forall_mem_append] at hlegible h
  have hrest : ∀ r ∈ c.rest, r.2.clause.eval reach = r.2.holds reach := fun r hr => by
    have hsub : ∀ x ∈ r.2.lexemes, x ∈ ConditionText.restLexemes c.rest := fun x hx =>
      List.mem_flatMap.2 ⟨r, hr, List.mem_cons_of_mem _ hx⟩
    exact eval_clause (fun x hx => hlegible.2 x (hsub x hx)) fun x hx => h.2 x (hsub x hx)
  rw [ConditionText.holds, ← (evalRest_eq hrest).2 c.first, ← eval_clause hlegible.1 h.1]
  rfl

end

/-! ## Printed conditions -/

/-- tokens, each behind its gap, and the last gap -/
def printed (gaps : List Text) (xs : List Lexeme) (last : Text) : Text :=
  (List.zipWith (fun g x => g ++ Lexeme.text x) gaps xs).flatten ++ last

/-- the gaps around tokens are blanks, one at least between each token and the next -/
structure Spaced (gaps : List Text) (xs : List Lexeme) (last : Text) : Prop where
  length : gaps.length = xs.length
  blank : ∀ g ∈ last :: gaps, ∀ c ∈ g, Text.isBlank c = true
  between : ∀ g ∈ gaps.tail, g ≠ []

section

variable {x : Lexeme} {s rest : Text}

/-- a token that stands where it is read is the one that is taken -/
theorem taken_of_stands (hx : x.StandsAt s rest) (hread : part? s = some (x.part, rest)) : x.Taken s rest := by
  obtain ⟨y, hy, hpart⟩ := taken_of_part? hread
  have hlength : y.text.length = x.text.length := by rw [Lexeme.text, Lexeme.text, hpart]
  refine ⟨hx, ?_⟩
  obtain hword | hlongest := hy.first
  · -- both begin like a word, and are read as literals
    have hlead : x.lead = .path := by
      rw [lead_unique hx hy.stands]
      cases y with
      | literal l => cases l <;> first | rfl | cases hword
      | _ => cases hword
    left
    cases x with
    | literal l => cases l <;> first | rfl | cases hlead
    | path p =>
      cases y with
      | literal l => cases hpart
      | _ => cases hword
    | _ => cases hlead
  · exact .inr fun z r hz => hlength ▸ hlongest z r hz

/-- no blank but the first decides whether a rest may follow -/
theorem allows_blank (hrest : Text.begins (fun c => !Text.isBlank c) rest = false) : x.allows rest = true := by
  have hnil : x.allows [] = true := by
    cases x with
    | literal l => cases l <;> rfl
    | _ => rfl
  cases rest with
  | nil => exact hnil
  | cons c rest =>
    have hc : ∀ d ∈ [c], Text.isBlank d = true := by simpa using hrest
    have hhead : x.allows (c :: rest) = x.allows ([] ++ [c]) := by
      cases x with
      | literal l => cases l <;> rfl
      | _ => rfl
    rw [hhead, Lexeme.allows_append hc, hnil]

/-- no word that is a literal stands where a token begins like no word -/
theorem not_word_of_lead (hx : x.StandsAt s rest) (hne : x.lead ≠ .path) {l : LiteralText} {r : Text}
    (hl : (Lexeme.literal l).StandsAt s r) : (Lexeme.literal l).isWord = false := by
  have hlead := lead_unique hx hl
  cases l <;> first | rfl | exact absurd hlead hne

/-- no word that is a literal stands where an ordinary path does -/
theorem not_word_of_path {p : PathText} (hp : p.proper = true) (hend : p.endsAt rest = true)
    (hordinary : (Lexeme.path p).ordinary = true) {l : LiteralText} {r : Text}
    (hl : (Lexeme.literal l).StandsAt (p.text ++ rest) r) : (Lexeme.literal l).isWord = false := by
  rw [PathText.proper, Bool.and_eq_true] at hp
  have hroot : Reference.name? (p.text ++ rest) = some (p.root, PathText.tail p.segments ++ rest) :=
    Reference.name?_eq_some_iff.2 ⟨hp.1, List.append_assoc .., (Reference.endsAt_iff.1 hend).1⟩
  have hword {w : Text × Literal} (hw : w ∈ Literal.words) (hs : p.text ++ rest = w.1 ++ r)
      (hatEnd : Literal.atWordEnd r = true) : False := by
    have hname : ∀ w ∈ Literal.words, Text.isName w.1 = true := by decide
    have hr : Text.begins Text.isNameChar r = false := by
      cases r with
      | nil => rfl
      | cons c r =>
        have hc : Text.isWord c = false := by simpa [Literal.atWordEnd] using hatEnd
        cases hchar : Text.isNameChar c with
        | false => exact hchar
        | true => rw [Text.isWord_of_isNameChar hchar] at hc; cases hc
    have hread := hroot.symm.trans (Reference.name?_eq_some_iff.2 ⟨hname w hw, hs, hr⟩)
    rw [Option.some.injEq, Prod.mk.injEq] at hread
    have hne := List.all_eq_true.1 hordinary w hw
    rw [hread.1, bne_self_eq_false] at hne
    cases hne
  cases l with
  | null => exact (hword (w := ("null", .null)) (by decide) hl.split hl.allows).elim
  | bool b =>
    cases b with
    | true => exact (hword (w := ("true", .bool true)) (by decide) hl.split hl.allows).elim
    | false => exact (hword (w := ("false", .bool false)) (by decide) hl.split hl.allows).elim
  | _ => rfl

/-- an operator is read if nothing behind it makes it a longer one -/
theorem operator?_of_begins (h : Text.begins (· == '=') rest = false) (op : Comparison) :
    operator? (op.text ++ rest) = some (op, rest) := by
  cases rest with
  | nil => cases op <;> rfl
  | cons c r =>
    rw [Text.begins_cons, beq_eq_false_iff_ne] at h
    cases op <;> simp [operator?, operators, Comparison.text, Text.after?, h.symm]

/-- **A token with a blank behind it** is taken, if it is ordinary. -/
theorem taken_of_ordinary (hx : x.proper = true) (hordinary : x.ordinary = true)
    (hrest : Text.begins (fun c => !Text.isBlank c) rest = false) : x.Taken (x.text ++ rest) rest := by
  have hstands : x.StandsAt (x.text ++ rest) rest := ⟨hx, rfl, allows_blank hrest⟩
  refine taken_of_stands hstands ?_
  cases x with
  | literal l => exact part?_of_literal_stands hstands
  | operator op =>
    have hliteral : afterOperand? (op.text ++ rest) = none :=
      afterOperand?_eq_none hstands nofun fun l r hl => not_word_of_lead hstands nofun hl
    have hequals : Text.begins (· == '=') rest = false := by
      refine Text.begins_anti (fun c hc => ?_) hrest
      rw [beq_iff_eq.1 hc]
      decide
    exact part?_of_operator hliteral (operator?_of_begins hequals op)
  | fallback =>
    have hliteral : afterOperand? ("??".toList ++ rest) = none :=
      afterOperand?_eq_none hstands nofun fun l r hl => not_word_of_lead hstands nofun hl
    exact part?_of_fallback hliteral (operator?_eq_none hstands nofun) (Text.after?_eq_some_iff.2 rfl)
  | path p =>
    have hend : p.endsAt rest = true := by
      refine Reference.endsAt_of_begins p (Text.begins_anti (fun c hc => ?_) hrest)
      cases hblank : Text.isBlank c with
      | false => rfl
      | true => rw [Reference.continues_of_isBlank hblank] at hc; cases hc
    have hliteral : afterOperand? (p.text ++ rest) = none :=
      afterOperand?_eq_none hstands nofun fun l r hl => not_word_of_path hx hend hordinary hl
    have hpath : Reference.takePath? (p.text ++ rest) = some (p.text, rest) :=
      Reference.takePath?_eq_some_iff.2 ⟨p, hx, rfl, rfl, hend⟩
    have hread := part?_of_path hliteral (operator?_eq_none hstands nofun) (after?_eq_none hstands nofun)
    rw [hpath] at hread
    exact hread

/-- no gap but the first is empty, so that no token stands right before another -/
theorem begins_printed {gaps : List Text} {xs : List Lexeme} {last : Text}
    (blank : ∀ g ∈ last :: gaps, ∀ c ∈ g, Text.isBlank c = true) (ne : ∀ g ∈ gaps, g ≠ []) :
    Text.begins (fun c => !Text.isBlank c) (printed gaps xs last) = false := by
  have hgap {g r : Text} (hg : ∀ c ∈ g, Text.isBlank c = true) (hne : g ≠ []) :
      Text.begins (fun c => !Text.isBlank c) (g ++ r) = false := by
    cases g with
    | nil => exact absurd rfl hne
    | cons c g => simpa using hg c List.mem_cons_self
  have hlast : Text.begins (fun c => !Text.isBlank c) last = false := by
    cases last with
    | nil => rfl
    | cons c last => simpa using blank (c :: last) List.mem_cons_self c List.mem_cons_self
  cases gaps with
  | nil => exact hlast
  | cons g gaps =>
    cases xs with
    | nil => exact hlast
    | cons x xs =>
      simp only [printed, List.zipWith_cons_cons, List.flatten_cons, List.append_assoc]
      exact hgap (blank g (by simp)) (ne g List.mem_cons_self)

/-- **What is printed with blanks between its tokens** has these tokens. -/
theorem tokens_of_printed {gaps : List Text} {xs : List Lexeme} {last : Text} (h : Spaced gaps xs last)
    (hlegible : ∀ x ∈ xs, x.legible = true) (hordinary : ∀ x ∈ xs, x.ordinary = true) :
    Tokens (printed gaps xs last) xs := by
  induction xs generalizing gaps with
  | nil =>
    rw [printed, List.zipWith_nil_right, List.flatten_nil, List.nil_append]
    exact .done (h.blank last List.mem_cons_self)
  | cons x xs ih =>
    obtain ⟨hlength, hblank, hbetween⟩ := h
    cases gaps with
    | nil => cases hlength
    | cons g gaps =>
      rw [List.forall_mem_cons] at hlegible hordinary
      rw [List.forall_mem_cons, List.forall_mem_cons] at hblank
      have hrest : ∀ g ∈ last :: gaps, ∀ c ∈ g, Text.isBlank c = true :=
        List.forall_mem_cons.2 ⟨hblank.1, hblank.2.2⟩
      have hx := hlegible.1
      rw [Lexeme.legible, Bool.and_eq_true] at hx
      have hfront : Text.begins (fun c => !Text.isBlank c) (printed gaps xs last) = false :=
        begins_printed hrest hbetween
      have htaken := taken_of_ordinary hx.1 hordinary.1 hfront
      have hmore := ih ⟨Nat.succ.inj hlength, hrest, fun g hg => hbetween g (List.mem_of_mem_tail hg)⟩ hlegible.2
        hordinary.2
      have hsplit : printed (g :: gaps) (x :: xs) last = g ++ (x.text ++ printed gaps xs last) := by
        simp [printed]
      rw [hsplit]
      exact .token hblank.2.1 htaken hmore

end

/-! ## What conditions mean -/

/-- the expressions of an ordinary tree hold no number beyond all doubles -/
theorem finite_condition {c : ConditionText} (h : ∀ x ∈ c.lexemes, x.ordinary = true) :
    ∀ e ∈ c.condition.exprs, e.Finite := by
  have hoperand {o : OperandText} (ho : ∀ x ∈ o.lexemes, x.ordinary = true) : o.expr.Finite := by
    cases o with
    | literal l => exact of_decide_eq_true (ho (.literal l) List.mem_cons_self)
    | path p =>
      have hwords : ∀ w ∈ Literal.words, w.2.Finite := by decide
      cases hword : Literal.words.find? (fun w => w.1 == p.text) with
      | some w =>
        rw [OperandText.expr, hword]
        exact hwords w (List.mem_of_find?_eq_some hword)
      | none =>
        rw [OperandText.expr, hword]
        trivial
    | fallback p l => exact of_decide_eq_true (ho (.literal l) (by simp [OperandText.lexemes]))
  have hclause {cl : ClauseText} (hcl : ∀ x ∈ cl.lexemes, x.ordinary = true) :
      ∀ e ∈ cl.clause.test.exprs, e.Finite := by
    rw [ClauseText.lexemes, List.forall_mem_append, List.forall_mem_append] at hcl
    unfold ClauseText.clause ClauseText.test
    cases hright : cl.right with
    | none => simpa [Test.exprs] using hoperand hcl.2.1
    | some r =>
      rw [hright, ClauseText.rightLexemes, List.forall_mem_cons] at hcl
      simpa [Test.exprs] using ⟨hoperand hcl.2.1, hoperand hcl.2.2.2⟩
  rw [ConditionText.lexemes, List.forall_mem_append] at h
  intro e he
  rcases List.mem_append.1 he with he | he
  · exact hclause h.1 e he
  · obtain ⟨p, hp, he⟩ := List.mem_flatMap.1 he
    obtain ⟨r, hr, rfl⟩ := List.mem_map.1 hp
    exact hclause (fun x hx => h.2 x (List.mem_flatMap.2 ⟨r, hr, List.mem_cons_of_mem _ hx⟩)) e he

/-- **Conditions mean what they say.** A tree none of whose operands is a bare word, printed with blanks between its
tokens, is accepted in safe mode. What it becomes is code that reads as one condition, and this condition is true in a
scope exactly if the tree is, and fails exactly if it does. -/
theorem condition_means (names bound : List Text) (raw : Text) {c : ConditionText} {gaps : List Text} {last : Text}
    (hfree : c.free = true) (hlegible : ∀ x ∈ c.lexemes, x.legible = true)
    (hordinary : ∀ x ∈ c.lexemes, x.ordinary = true) (hspaced : Spaced gaps c.lexemes last) :
    ∃ k, condition ⟨false, names⟩ bound raw (printed gaps c.lexemes last) = .ok k ∧
      Code.condition? k.code = some (k, []) ∧ ∀ reach : Reach, k.eval reach = c.holds reach := by
  have htokens := tokens_of_printed hspaced hlegible hordinary
  have hread : condition ⟨false, names⟩ bound raw (printed gaps c.lexemes last) = .ok c.condition :=
    condition_of_tokens hfree hlegible htokens
  have hstored : ∀ e ∈ c.condition.exprs, e.Stored := exprs_condition stored_operand hread
  have hexprs : ∀ e ∈ c.condition.exprs, e.Legible := fun e he =>
    Expr.legible_of_stored (hstored e he) (finite_condition hordinary e he)
  have hcode : Code.condition? (c.condition.code ++ []) = some (c.condition, []) := Code.condition?_code hexprs rfl
  rw [List.append_nil] at hcode
  exact ⟨c.condition, hread, hcode, fun reach => eval_condition hlegible hordinary⟩

/-- a negated comparison in a conjunction, and a fallback behind an `or` -/
def mixed : ConditionText where
  first := ⟨1, .path ⟨"user", [.name "age"]⟩, some (.ge, .literal (.number false "18" none))⟩
  rest := [(.and, ⟨2, .path ⟨"active", []⟩, none⟩),
    (.or, ⟨0, .fallback ⟨"role", []⟩ (.quoted '"' "guest"), some (.ne, .literal (.quoted '"' "admin"))⟩)]

/-- one tree as it is printed, and evaluated where nothing is reached -/
theorem mixed_means : ∃ k, condition ⟨false, []⟩ [] "if"
      " not user.age >= 18 and not not active or role ?? \"guest\" != \"admin\"\t" = .ok k ∧
    Code.condition? k.code = some (k, []) ∧ k.eval (fun _ => .ok none) = .ok true := by
  have hspaced : Spaced (List.replicate 14 [' ']) mixed.lexemes ['\t'] := by
    refine ⟨by decide, fun g hg => ?_, by decide⟩
    rcases List.mem_cons.1 hg with rfl | hg
    · exact List.forall_mem_singleton.2 (by decide)
    · rw [List.eq_of_mem_replicate hg]
      exact List.forall_mem_singleton.2 (by decide)
  obtain ⟨k, hread, hcode, heval⟩ := condition_means [] [] "if" (c := mixed) (by decide) (by decide)
    (by decide) hspaced
  have htext : printed (List.replicate 14 [' ']) mixed.lexemes ['\t'] =
      " not user.age >= 18 and not not active or role ?? \"guest\" != \"admin\"\t" := by decide
  rw [htext] at hread
  have htruth : mixed.holds (fun _ => .ok none) = .ok true := eq_ok_of_toOption (by decide)
  exact ⟨k, hread, hcode, (heval _).trans htruth⟩

end Directive

end Stencil
