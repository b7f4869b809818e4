/-
COHERENCE OF COMPARISONS. Values stand in one order whichever of them comes first, so that an operator says of two
values what the flipped one says of them the other way round; two lists or tuples are told apart by the same items from
both sides. What a condition is does not change if a negated equation in it becomes an inequation, or if the operands
of an operator change places with each other.

- `Comparison.flipped`: the operator that says the same with the operands the other way round.
- `order?_flipped`, `apply_flipped`: operators on all well-formed values, those without an order included.
- `ConditionText.Turned`: conditions that differ in how their comparisons are written.
- `comparisons_cohere`: such conditions always choose the same branch.
-/
import Stencil.Proofs.Lenient
import Stencil.Proofs.Likeness
import Stencil.Proofs.Meaning

namespace Stencil

/-! ## Operators the other way round -/

/-- the operator that says the same of two values the other way round -/
def Comparison.flipped : Comparison → Comparison
  | lt => gt
  | gt => lt
  | le => ge
  | ge => le
  | op => op

theorem Comparison.holds_flipped (op : Comparison) (o : Ordering) : op.flipped.holds o.swap = op.holds o := by
  cases op <;> cases o <;> rfl

theorem Text.orderCodes_swap (as bs : List Nat) : (orderCodes as bs).swap = orderCodes bs as := by
  induction as generalizing bs with
  | nil => cases bs <;> rfl
  | cons a as ih =>
    cases bs with
    | nil => rfl
    | cons b bs =>
      rw [orderCodes, orderCodes]
      by_cases hsame : a = b
      · rw [if_pos (beq_iff_eq.2 hsame), if_pos (beq_iff_eq.2 hsame.symm), ih]
      · rw [if_neg (mt beq_iff_eq.1 hsame), if_neg (mt beq_iff_eq.1 (Ne.symm hsame))]
        exact Std.OrientedCmp.eq_swap.symm

namespace Value

theorem Exact.order_swap (x y : Exact) : (x.order y).swap = y.order x := by
  rw [Exact.order_eq, Exact.order_eq]
  exact Std.OrientedCmp.eq_swap.symm

/-- values without parts are ordered by numbers, by characters or by bytes, or not at all -/
theorem orderAtom_flipped (op : Comparison) (a b : Value) : orderAtom op a b = orderAtom op.flipped b a := by
  have hnumber (x y : Exact) : some (op.holds (x.order y)) = some (op.flipped.holds (y.order x)) := by
    rw [← Exact.order_swap x y, Comparison.holds_flipped]
  have hcodes (x y : List Nat) :
      some (op.holds (Text.orderCodes x y)) = some (op.flipped.holds (Text.orderCodes y x)) := by
    rw [← Text.orderCodes_swap x y, Comparison.holds_flipped]
  cases a <;> cases b <;> first | rfl | exact hnumber _ _ | exact hcodes _ _

mutual

/-- **Values stand in one order**, or in none, whichever of them comes first. -/
theorem order?_flipped (op : Comparison) (a b : Value) (ha : a.WellFormed) (hb : b.WellFormed) :
    order? op a b = order? op.flipped b a := by
  cases a with
  | list xs id =>
    cases b with
    | list ys id' => exact orderItems_flipped op xs ys (fun _ => ha.inside) fun _ => hb.inside
    | _ => rfl
  | tuple xs id =>
    cases b with
    | tuple ys id' => exact orderItems_flipped op xs ys (fun _ => ha.inside) fun _ => hb.inside
    | _ => rfl
  | _ =>
    cases b with
    | list ys id' => rfl
    | tuple ys id' => rfl
    | _ => simpa only [order?] using orderAtom_flipped op _ _

theorem orderItems_flipped (op : Comparison) (xs ys : List Value) (hxs : ∀ x ∈ xs, x.WellFormed)
    (hys : ∀ y ∈ ys, y.WellFormed) : orderItems op xs ys = orderItems op.flipped ys xs := by
  have hholds (o : Ordering) : some (op.holds o) = some (op.flipped.holds o.swap) :=
    congrArg some (op.holds_flipped o).symm
  cases xs with
  | nil =>
    cases ys with
    | nil => exact hholds .eq
    | cons y ys =>
      have hless : compare 0 (y :: ys).length = .lt := compare_lt_iff_lt.2 (by simp)
      rw [orderItems, hless]
      exact hholds .lt
  | cons x xs =>
    cases ys with
    | nil =>
      have hless : compare 0 (x :: xs).length = .lt := compare_lt_iff_lt.2 (by simp)
      rw [orderItems, orderItems, hless]
      exact hholds .gt
    | cons y ys =>
      rw [List.forall_mem_cons] at hxs hys
      rw [orderItems, orderItems, alike_comm hxs.1 hys.1, order?_flipped op x y hxs.1 hys.1,
        orderItems_flipped op xs ys hxs.2 hys.2]

end

/-- **An operator says of two values** what the flipped one says of them the other way round. -/
theorem apply_flipped (op : Comparison) {a b : Value} (ha : a.WellFormed) (hb : b.WellFormed) :
    op.apply a b = op.flipped.apply b a := by
  have hequal : eq a b = eq b a := eq_comm_of_wellFormed a b ha hb
  cases op with
  | eq => exact hequal
  | ne => exact congrArg (!·) hequal
  | lt => exact congrArg (·.getD false) (order?_flipped .lt a b ha hb)
  | gt => exact congrArg (·.getD false) (order?_flipped .gt a b ha hb)
  | le => exact congrArg (·.getD false) (order?_flipped .le a b ha hb)
  | ge => exact congrArg (·.getD false) (order?_flipped .ge a b ha hb)

end Value

/-! ## Conditions whose comparisons are written otherwise -/

namespace Directive

/-- the same clause, but that a negated equation is an inequation or that the operands are the other way round -/
inductive ClauseText.Turned : ClauseText → ClauseText → Prop
  | same (c : ClauseText) : c.Turned c
  | negated (n : Nat) (l r : OperandText) : Turned ⟨n + 1, l, some (.eq, r)⟩ ⟨n, l, some (.ne, r)⟩
  | swapped (n : Nat) (op : Comparison) (l r : OperandText) : Turned ⟨n, l, some (op, r)⟩ ⟨n, r, some (op.flipped, l)⟩

theorem ClauseText.Turned.free {c c' : ClauseText} (h : c.Turned c') : c'.free = c.free := by
  cases h with
  | same => rfl
  | negated n l r => rfl
  | swapped n op l r => exact Bool.and_comm _ _

/-- no tokens come in but the operators, which can always be read -/
theorem ClauseText.Turned.legible {c c' : ClauseText} (h : c.Turned c') (hc : ∀ x ∈ c.lexemes, x.legible = true) :
    ∀ x ∈ c'.lexemes, x.legible = true := by
  cases h with
  | same => exact hc
  | negated n l r =>
    intro x hx
    simp only [lexemes, rightLexemes, List.mem_append, List.mem_cons] at hc hx
    rcases hx with hx | hx | rfl | hx
    · exact hc x (.inl (List.mem_replicate.2 ⟨n.succ_ne_zero, (List.mem_replicate.1 hx).2⟩))
    · exact hc x (.inr (.inl hx))
    · rfl
    · exact hc x (.inr (.inr (.inr hx)))
  | swapped n op l r =>
    intro x hx
    simp only [lexemes, rightLexemes, List.mem_append, List.mem_cons] at hc hx
    rcases hx with hx | hx | rfl | hx
    · exact hc x (.inl hx)
    · exact hc x (.inr (.inr (.inr hx)))
    · rfl
    · exact hc x (.inr (.inl hx))

section

variable {rest rest' : List (Connective × ClauseText)}

/-- the clauses behind the first one are turned one by one, behind the same connectives -/
def RestTurned (rest rest' : List (Connective × ClauseText)) : Prop :=
  List.Forall₂ (fun r r' => r.1 = r'.1 ∧ r.2.Turned r'.2) rest rest'

theorem RestTurned.free (h : RestTurned rest rest') : (rest'.all fun r => r.2.free) = rest.all fun r => r.2.free := by
  induction h with
  | nil => rfl
  | cons hone hmore ih => rw [List.all_cons, List.all_cons, hone.2.free, ih]

theorem RestTurned.legible (h : RestTurned rest rest')
    (hrest : ∀ x ∈ ConditionText.restLexemes rest, x.legible = true) :
    ∀ x ∈ ConditionText.restLexemes rest', x.legible = true := by
  induction h with
  | nil => exact hrest
  | cons hone hmore ih =>
    rw [ConditionText.restLexemes, List.flatMap_cons, List.forall_mem_append, List.forall_mem_cons] at hrest ⊢
    rw [← hone.1]
    exact ⟨⟨hrest.1.1, hone.2.legible hrest.1.2⟩, ih hrest.2⟩

end

/-- the same condition, but for how its comparisons are written -/
structure ConditionText.Turned (c c' : ConditionText) : Prop where
  first : c.first.Turned c'.first
  rest : RestTurned c.rest c'.rest

theorem ConditionText.Turned.free {c c' : ConditionText} (h : c.Turned c') : c'.free = c.free := by
  rw [ConditionText.free, ConditionText.free, h.first.free, h.rest.free]

theorem ConditionText.Turned.legible {c c' : ConditionText} (h : c.Turned c')
    (hc : ∀ x ∈ c.lexemes, x.legible = true) : ∀ x ∈ c'.lexemes, x.legible = true := by
  rw [ConditionText.lexemes, List.forall_mem_append] at hc ⊢
  exact ⟨h.first.legible hc.1, h.rest.legible hc.2⟩

section

variable {reach : Reach}

/-- every value that a path reaches is well-formed -/
def ReachesWellFormed (reach : Reach) : Prop := ∀ path v, reach path = .ok (some v) → v.WellFormed

theorem wellFormed_toValue (l : Literal) : l.toValue.WellFormed := Value.wellFormed_atom (by cases l <;> rfl)

/-- the value of an expression is a literal, or is reached -/
theorem wellFormed_eval (hreach : ReachesWellFormed reach) {e : Expr} {v : Value} (h : e.eval reach = .ok v) :
    v.WellFormed := by
  have hliteral {l : Literal} {w : Value} (hl : l.eval = .ok w) : w.WellFormed := by
    unfold Literal.eval at hl
    split at hl
    · cases hl
    · cases hl
      exact wellFormed_toValue l
  cases e with
  | literal l => exact hliteral h
  | lookup path default =>
    simp only [Expr.eval, bind_eq_ok] at h
    obtain ⟨d, hd, found, hfound, h⟩ := h
    cases h
    cases found with
    | none => exact hliteral hd
    | some w => exact hreach path w hfound
  | demand path reference =>
    simp only [Expr.eval, bind_eq_ok] at h
    obtain ⟨found, hfound, h⟩ := h
    cases found with
    | none => cases h
    | some w =>
      cases h
      exact hreach path _ hfound

/-- **A comparison of two values never fails.** -/
theorem eval_compare {op : Comparison} {l r : Expr} {a b : Value} (ha : l.eval reach = .ok a)
    (hb : r.eval reach = .ok b) : (Test.compare op l r).eval reach = .ok (op.apply a b) := by
  rw [Test.eval, ha, ok_bind, hb]
  rfl

theorem eval_compare_iff {op : Comparison} {l r : Expr} {t : Bool} : (Test.compare op l r).eval reach = .ok t ↔
    ∃ a b, l.eval reach = .ok a ∧ r.eval reach = .ok b ∧ op.apply a b = t := by
  simp only [Test.eval, bind_eq_ok]
  constructor
  · rintro ⟨a, ha, b, hb, ht⟩
    exact ⟨a, b, ha, hb, Except.ok.inj ht⟩
  · rintro ⟨a, b, ha, hb, rfl⟩
    exact ⟨a, ha, b, hb, rfl⟩

theorem eval_clause_iff {c : Clause} {t : Bool} :
    c.eval reach = .ok t ↔ ∃ b, c.test.eval reach = .ok b ∧ (if c.negated then !b else b) = t := by
  simp only [Clause.eval, bind_eq_ok]
  exact exists_congr fun b => and_congr_right fun _ => ⟨Except.ok.inj, congrArg _⟩

/-- **A clause turned** holds where it did. -/
theorem ClauseText.Turned.eval {c c' : ClauseText} (h : c.Turned c') (hreach : ReachesWellFormed reach) (t : Bool) :
    c.clause.eval reach = .ok t ↔ c'.clause.eval reach = .ok t := by
  cases h with
  | same => rfl
  | negated n l r =>
    simp only [eval_clause_iff, clause, test, eval_compare_iff]
    -- one not more and one negation less
    have hnots (a b : Value) :
        (if (n + 1) % 2 == 1 then !Comparison.eq.apply a b else Comparison.eq.apply a b) =
          if n % 2 == 1 then !Comparison.ne.apply a b else Comparison.ne.apply a b := by
      show (if (n + 1) % 2 == 1 then !Value.eq a b else Value.eq a b) =
        if n % 2 == 1 then !!Value.eq a b else !Value.eq a b
      rcases Nat.mod_two_eq_zero_or_one n with hn | hn
      · simp [Nat.add_mod, hn]
      · simp [Nat.add_mod, hn]
    constructor
    · rintro ⟨b, ⟨v, w, hv, hw, rfl⟩, rfl⟩
      exact ⟨_, ⟨v, w, hv, hw, rfl⟩, (hnots v w).symm⟩
    · rintro ⟨b, ⟨v, w, hv, hw, rfl⟩, rfl⟩
      exact ⟨_, ⟨v, w, hv, hw, rfl⟩, hnots v w⟩
  | swapped n op l r =>
    simp only [eval_clause_iff, clause, test, eval_compare_iff]
    have hvalues {e : OperandText} {v : Value} (hv : e.expr.eval reach = .ok v) : v.WellFormed :=
      wellFormed_eval hreach hv
    constructor
    · rintro ⟨b, ⟨v, w, hv, hw, rfl⟩, rfl⟩
      exact ⟨_, ⟨w, v, hw, hv, (Value.apply_flipped op (hvalues hv) (hvalues hw)).symm⟩, rfl⟩
    · rintro ⟨b, ⟨w, v, hw, hv, rfl⟩, rfl⟩
      exact ⟨_, ⟨v, w, hv, hw, Value.apply_flipped op (hvalues hv) (hvalues hw)⟩, rfl⟩

theorem RestTurned.eval {rest rest' : List (Connective × ClauseText)} (h : RestTurned rest rest')
    (hreach : ReachesWellFormed reach) (b t : Bool) :
    evalRest reach b (clausesOf rest) = .ok t ↔ evalRest reach b (clausesOf rest') = .ok t := by
  induction h generalizing b with
  | nil => rfl
  | @cons r r' rest rest' hone hmore ih =>
    obtain ⟨w, c⟩ := r
    obtain ⟨w', c'⟩ := r'
    obtain ⟨rfl, hclause⟩ : w = w' ∧ c.Turned c' := hone
    -- where the next clause is looked at, it holds in both or in neither
    have hlooked : (c.clause.eval reach >>= fun b => evalRest reach b (clausesOf rest)) = .ok t ↔
        (c'.clause.eval reach >>= fun b => evalRest reach b (clausesOf rest')) = .ok t := by
      rw [bind_eq_ok, bind_eq_ok]
      exact exists_congr fun b => and_congr (hclause.eval hreach b) (ih b)
    cases w with
    | and =>
      cases b with
      | true => exact hlooked
      | false => exact ih false
    | or =>
      cases b with
      | true => exact Iff.rfl
      | false => exact hlooked

/-- **A condition turned** holds where it did. -/
theorem ConditionText.Turned.eval {c c' : ConditionText} (h : c.Turned c') (hreach : ReachesWellFormed reach)
    (t : Bool) : c.condition.eval reach = .ok t ↔ c'.condition.eval reach = .ok t := by
  rw [Condition.eval, Condition.eval, bind_eq_ok, bind_eq_ok]
  exact exists_congr fun b => and_congr (h.first.eval hreach b) (h.rest.eval hreach b t)

end

/-- what a mode accepts with the tokens of a tree is what the tree means -/
theorem eq_condition_of_tokens {m : Mode} {bound : List Text} {raw text : Text} {c : ConditionText} {k : Condition}
    (hfree : c.free = true) (hlegible : ∀ x ∈ c.lexemes, x.legible = true) (htokens : Tokens text c.lexemes)
    (hread : condition m bound raw text = .ok k) : k = c.condition := by
  have hsafe : condition ⟨false, []⟩ bound raw text = .ok k := condition_lenient hread [] bound
  rw [condition_of_tokens hfree hlegible htokens] at hsafe
  exact (Except.ok.inj hsafe).symm

/-- **Comparisons cohere.** Of two well-formed values the inequation is the negated equation, and each ordering says
what its opposite says of them the other way round. No comparison of values fails. So conditions that differ in how their
comparisons are written are both accepted in safe mode, and choose the same branch in every mode that accepts them. -/
theorem comparisons_cohere :
    (∀ a b : Value, a.WellFormed → b.WellFormed →
      Comparison.ne.apply a b = !Comparison.eq.apply a b ∧ Comparison.lt.apply a b = Comparison.gt.apply b a ∧
        Comparison.le.apply a b = Comparison.ge.apply b a) ∧
    (∀ (reach : Reach) (op : Comparison) (l r : Expr) (a b : Value), l.eval reach = .ok a → r.eval reach = .ok b →
      (Test.compare op l r).eval reach = .ok (op.apply a b)) ∧
    ∀ (c c' : ConditionText) (text text' : Text), c.Turned c' → c.free = true →
      (∀ x ∈ c.lexemes, x.legible = true) → Tokens text c.lexemes → Tokens text' c'.lexemes →
        (∀ names bound raw, (∃ k, condition ⟨false, names⟩ bound raw text = .ok k) ∧
          ∃ k', condition ⟨false, names⟩ bound raw text' = .ok k') ∧
        ∀ (m : Mode) (bound : List Text) (raw raw' : Text) (k k' : Condition), condition m bound raw text = .ok k →
          condition m bound raw' text' = .ok k' → ∀ reach : Reach, ReachesWellFormed reach →
            ∀ t, k.eval reach = .ok t ↔ k'.eval reach = .ok t := by
  refine ⟨fun a b ha hb => ⟨rfl, Value.apply_flipped .lt ha hb, Value.apply_flipped .le ha hb⟩,
    fun reach op l r a b => eval_compare, ?_⟩
  intro c c' text text' hturned hfree hlegible htokens htokens'
  have hfree' : c'.free = true := hturned.free.trans hfree
  have hlegible' : ∀ x ∈ c'.lexemes, x.legible = true := hturned.legible hlegible
  constructor
  · intro names bound raw
    exact ⟨⟨_, condition_of_tokens hfree hlegible htokens⟩, ⟨_, condition_of_tokens hfree' hlegible' htokens'⟩⟩
  · intro m bound raw raw' k k' hread hread' reach hreach t
    rw [eq_condition_of_tokens hfree hlegible htokens hread, eq_condition_of_tokens hfree' hlegible' htokens' hread']
    exact hturned.eval hreach t

/-- a list of a mapping that holds what is no number, and of a number -/
def listed (x : Value) : Value := .list [.mapping [(.text "k", .nan 7)], x]

/-- the paths a and b reach lists that differ by one, far beyond what every double tells apart -/
def bothListed : Reach := fun path =>
  .ok (if path = [.name "a"] then some (listed (.int 9007199254740993))
    else if path = [.name "b"] then some (listed (.float (.finite false 4503599627370496 1))) else none)

theorem wellFormed_listed {x : Value} (hx : x.WellFormed) : (listed x).WellFormed := by
  refine ⟨trivial, List.forall_mem_cons.2 ⟨⟨⟨?_, List.pairwise_singleton ..⟩, ?_⟩, List.forall_mem_singleton.2 hx⟩⟩
  · exact List.forall_mem_singleton.2 rfl
  · exact List.forall_mem_cons.2 ⟨Value.wellFormed_atom rfl, List.forall_mem_singleton.2 (Value.wellFormed_atom rfl)⟩

/-- tokens with a blank before each of them -/
theorem tokens_of_blanks (xs : List Lexeme) (hlegible : ∀ x ∈ xs, x.legible = true)
    (hordinary : ∀ x ∈ xs, x.ordinary = true) : Tokens (printed (List.replicate xs.length [' ']) xs []) xs := by
  refine tokens_of_printed ⟨List.length_replicate, ?_, ?_⟩ hlegible hordinary
  · refine List.forall_mem_cons.2 ⟨nofun, fun g hg => ?_⟩
    rw [List.eq_of_mem_replicate hg]
    exact List.forall_mem_singleton.2 (by decide)
  · intro g hg
    rw [List.eq_of_mem_replicate (List.mem_of_mem_tail hg)]
    nofun

/-- two comparisons -/
def compared : ConditionText where
  first := ⟨1, .path ⟨"a", []⟩, some (.eq, .path ⟨"b", []⟩)⟩
  rest := [(.and, ⟨0, .path ⟨"a", []⟩, some (.gt, .path ⟨"b", []⟩)⟩)]

/-- the same two, written otherwise -/
def comparedTurned : ConditionText where
  first := ⟨0, .path ⟨"a", []⟩, some (.ne, .path ⟨"b", []⟩)⟩
  rest := [(.and, ⟨0, .path ⟨"b", []⟩, some (.lt, .path ⟨"a", []⟩)⟩)]

/-- a whole number and a double in a list, compared from both sides -/
theorem cohere_listed :
    (Comparison.gt.apply (listed (.int 9007199254740993)) (listed (.float (.finite false 4503599627370496 1))) = true ∧
      Comparison.lt.apply (listed (.float (.finite false 4503599627370496 1)))
        (listed (.int 9007199254740993)) = true) ∧
    (Test.compare .gt (.lookup [.name "a"] .null) (.lookup [.name "b"] .null)).eval bothListed = .ok true ∧
    ∃ k k', condition ⟨false, []⟩ [] "if" " not a == b and a > b" = .ok k ∧
      condition ⟨false, []⟩ [] "if" " a != b and b < a" = .ok k' ∧ k.eval bothListed = .ok true ∧
        k'.eval bothListed = .ok true := by
  have hint : (listed (.int 9007199254740993)).WellFormed := wellFormed_listed (Value.wellFormed_atom rfl)
  have hfloat : (listed (.float (.finite false 4503599627370496 1))).WellFormed :=
    wellFormed_listed (Value.wellFormed_atom rfl)
  have hreach : ReachesWellFormed bothListed := by
    intro path v h
    have h' := Except.ok.inj h
    split at h'
    · exact Option.some.inj h' ▸ hint
    · split at h'
      · exact Option.some.inj h' ▸ hfloat
      · cases h'
  have htokens : Tokens " not a == b and a > b" compared.lexemes :=
    tokens_of_blanks compared.lexemes (by decide) (by decide)
  have htokens' : Tokens " a != b and b < a" comparedTurned.lexemes :=
    tokens_of_blanks comparedTurned.lexemes (by decide) (by decide)
  have hturned : compared.Turned comparedTurned :=
    ⟨.negated 0 _ _, .cons ⟨rfl, .swapped 0 .gt (.path ⟨"a", []⟩) (.path ⟨"b", []⟩)⟩ .nil⟩
  obtain ⟨hvalues, htests, hconditions⟩ := comparisons_cohere
  have hless : Comparison.lt.apply (listed (.float (.finite false 4503599627370496 1)))
      (listed (.int 9007199254740993)) = true := by decide
  have hmore := (hvalues _ _ hfloat hint).2.1.symm.trans hless
  have htest := htests bothListed .gt (.lookup [.name "a"] .null) (.lookup [.name "b"] .null) _ _ rfl rfl
  obtain ⟨haccepted, hsame⟩ := hconditions compared comparedTurned _ _ hturned (by decide) (by decide) htokens htokens'
  obtain ⟨⟨k, hk⟩, k', hk'⟩ := haccepted [] [] "if"
  have htrue : k.eval bothListed = .ok true := by
    rw [eq_condition_of_tokens (by decide) (by decide) htokens hk]
    exact eq_ok_of_toOption (by decide)
  have htrue' := (hsame ⟨false, []⟩ [] "if" "if" k k' hk hk' bothListed hreach true).1 htrue
  exact ⟨⟨hmore, hless⟩, htest.trans (congrArg _ hmore), k, k', hk, hk', htrue, htrue'⟩

end Directive

end Stencil
