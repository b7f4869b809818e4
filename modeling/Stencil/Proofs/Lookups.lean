/-
LOOKUPS. A statement asks for what some paths reach, and these are written in it: evaluation asks for nothing else. In
strict mode the first name of every path is known where the path is read, as a declared name or as one that an open
construct binds.

- `Stmt.paths`: the paths that a statement asks for.
- `Condition.eval_congr`: a condition depends on what its paths reach, and on nothing else.
- `exprs_condition`, `params_readParams`: the expressions of a condition and of parameters are operands.
- `Instruction.given_of_read`: where the paths and expressions of an instruction come from.
- `Instruction.knows_of_read`: what a token asks for, in strict mode.
-/
import Stencil.Proofs.Instruction

namespace Stencil

/-! ## The paths of a statement -/

/-- the paths that an expression asks for -/
def Expr.paths : Expr → List (List Segment)
  | literal _ => []
  | lookup path _ => [path]
  | demand path _ => [path]

/-- the expressions of a test -/
def Test.exprs : Test → List Expr
  | truth e => [e]
  | compare _ l r => [l, r]

/-- the expressions of a condition -/
def Condition.exprs (c : Condition) : List Expr := c.first.test.exprs ++ c.rest.flatMap fun p => p.2.test.exprs

/-- the paths that a condition asks for -/
def Condition.paths (c : Condition) : List (List Segment) := c.exprs.flatMap Expr.paths

/-- the paths that a statement asks for -/
def Stmt.paths : Stmt → List (List Segment)
  | emit e => e.paths
  | whenReached path => [path]
  | iterate _ e => e.paths
  | when c => c.paths
  | elsewhen c => c.paths
  | formOpen e _ _ => e.paths
  | generate e _ _ _ => e.paths
  | translate _ _ params => params.flatMap fun p => p.2.paths
  | _ => []

section Congruence

variable {reach reach' : Reach}

theorem Expr.eval_congr {e : Expr} (h : ∀ path ∈ e.paths, reach path = reach' path) : e.eval reach = e.eval reach' := by
  cases e with
  | literal l => rfl
  | lookup path default => simp only [eval, h path (by simp [paths])]
  | demand path reference => simp only [eval, h path (by simp [paths])]

theorem Test.eval_congr {t : Test} (h : ∀ e ∈ t.exprs, ∀ path ∈ e.paths, reach path = reach' path) :
    t.eval reach = t.eval reach' := by
  cases t with
  | truth e => simp only [eval, Expr.eval_congr (h e (by simp [exprs]))]
  | compare op l r =>
    simp only [eval, Expr.eval_congr (h l (by simp [exprs])), Expr.eval_congr (h r (by simp [exprs]))]

theorem evalRest_congr {rest : List (Connective × Clause)}
    (h : ∀ p ∈ rest, ∀ e ∈ p.2.test.exprs, ∀ path ∈ e.paths, reach path = reach' path) (b : Bool) :
    evalRest reach b rest = evalRest reach' b rest := by
  induction rest generalizing b with
  | nil => rfl
  | cons p rest ih =>
    obtain ⟨hp, hrest⟩ := List.forall_mem_cons.1 h
    obtain ⟨c, cl⟩ := p
    have hcl : cl.eval reach = cl.eval reach' := by simp only [Clause.eval, Test.eval_congr hp]
    cases c <;> simp only [evalRest, hcl, ih hrest]

/-- **A condition** depends on what its paths reach. -/
theorem Condition.eval_congr {c : Condition} (h : ∀ path ∈ c.paths, reach path = reach' path) :
    c.eval reach = c.eval reach' := by
  have hexprs : ∀ e ∈ c.exprs, ∀ path ∈ e.paths, reach path = reach' path := by
    intro e he path hpath
    exact h path (List.mem_flatMap.2 ⟨e, he, hpath⟩)
  have hfirst : c.first.eval reach = c.first.eval reach' := by
    simp only [Clause.eval, Test.eval_congr fun e he => hexprs e (List.mem_append_left _ he)]
  have hrest (b : Bool) : evalRest reach b c.rest = evalRest reach' b c.rest :=
    evalRest_congr (fun p hp e he => hexprs e (List.mem_append_right _ (List.mem_flatMap.2 ⟨p, hp, he⟩))) b
  simp only [eval, hfirst, hrest]

end Congruence

/-! ## Operands -/

namespace Directive

variable {m : Mode} {bound : List Text} {P : Expr → Prop}

theorem expr_operand (hP : ∀ source e, m.operand bound true source = .ok e → P e) {raw : Text} {ps : List Part}
    {p : Expr × List Part} (h : operand m bound raw ps = .ok p) : P p.1 := by
  have hmap : ∀ {source : Text} {rest : List Part},
      (m.operand bound true source).map (fun e => (e, rest)) = .ok p → P p.1 := by
    intro source rest h
    rw [map_eq_ok] at h
    obtain ⟨e, he, rfl⟩ := h
    exact hP source e he
  unfold operand at h
  split at h
  · simp at h
  · exact hmap h
  · split at h
    · simp at h
    · split at h
      · split at h
        · simp at h
        · split at h
          · exact hmap h
          · simp at h
      · exact hmap h
  · simp at h

theorem exprs_clause (hP : ∀ source e, m.operand bound true source = .ok e → P e) {raw : Text} {ps : List Part}
    {p : Clause × List Part} (h : clause m bound raw ps = .ok p) : ∀ e ∈ p.1.test.exprs, P e := by
  simp only [clause, bind_eq_ok] at h
  obtain ⟨⟨left, rest⟩, hleft, h⟩ := h
  have hl : P left := expr_operand hP hleft
  simp only at h
  split at h
  · simp only [bind_eq_ok] at h
    obtain ⟨⟨right, rest'⟩, hright, h⟩ := h
    cases h
    have hr : P right := expr_operand hP hright
    simp [Test.exprs, hl, hr]
  · cases h
    simpa [Test.exprs] using hl

theorem exprs_clausesUpTo (hP : ∀ source e, m.operand bound true source = .ok e → P e) {raw : Text} {n : Nat}
    {ps : List Part} {cs : List (Connective × Clause)} (h : clausesUpTo m bound raw n ps = .ok cs) :
    ∀ p ∈ cs, ∀ e ∈ p.2.test.exprs, P e := by
  induction n generalizing ps cs with
  | zero =>
    cases ps with
    | nil =>
      cases h
      simp
    | cons p ps => simp [clausesUpTo] at h
  | succ n ih =>
    cases ps with
    | nil =>
      simp only [clausesUpTo, Except.ok.injEq] at h
      simp [← h]
    | cons p ps =>
      simp only [clausesUpTo] at h
      split at h
      · simp at h
      · simp only [bind_eq_ok] at h
        obtain ⟨q, hq, more, hmore, h⟩ := h
        cases h
        exact List.forall_mem_cons.2 ⟨exprs_clause hP hq, ih hmore⟩

/-- **The expressions of a condition** are operands, none of which demands its value. -/
theorem exprs_condition (hP : ∀ source e, m.operand bound true source = .ok e → P e) {raw text : Text} {c : Condition}
    (h : condition m bound raw text = .ok c) : ∀ e ∈ c.exprs, P e := by
  unfold condition at h
  split at h
  · simp at h
  · simp only [bind_eq_ok] at h
    obtain ⟨q, hq, more, hmore, h⟩ := h
    cases h
    intro e he
    rcases List.mem_append.1 he with he | he
    · exact exprs_clause hP hq e he
    · obtain ⟨p, hp, he⟩ := List.mem_flatMap.1 he
      exact exprs_clausesUpTo hP hmore p hp e he

/-- **The expressions of parameters** are operands too. -/
theorem params_readParams (hP : ∀ source e, m.operand bound true source = .ok e → P e) {s : Text}
    {ps : List (Text × Expr)} (h : Instruction.readParams m bound s = .ok ps) : ∀ p ∈ ps, P p.2 := by
  have hall : ∀ (qs : List (Text × Text)) (ps : List (Text × Expr)),
      (qs.mapM fun p => (m.operand bound true p.2).map fun e => (p.1, e)) = .ok ps → ∀ p ∈ ps, P p.2 := by
    intro qs
    induction qs with
    | nil =>
      intro ps h
      cases h
      simp
    | cons q qs ih =>
      intro ps h
      simp only [List.mapM_cons, bind_eq_ok] at h
      obtain ⟨p, hp, ps', hps, h⟩ := h
      cases h
      rw [map_eq_ok] at hp
      obtain ⟨e, he, rfl⟩ := hp
      exact List.forall_mem_cons.2 ⟨hP _ e he, ih ps' hps⟩
  exact hall _ ps h

end Directive

/-! ## Known names -/

/-- the path begins with one of the names -/
def Knows (names : List Text) (path : List Segment) : Prop := ∃ root rest, path = .name root :: rest ∧ root ∈ names

theorem Knows.mono {names names' : List Text} {path : List Segment} (h : Knows names path) (hsub : names ⊆ names') :
    Knows names' path := by
  obtain ⟨root, rest, rfl, hroot⟩ := h
  exact ⟨root, rest, rfl, hsub hroot⟩

namespace Directive

variable {m : Mode} {bound : List Text}

/-- **A reference that passes in strict mode** begins with a declared name or a bound one. -/
theorem knows_check (hm : m.strict = true) {r : Reference} (h : m.check bound r = .ok ()) :
    Knows (m.names ++ bound) r.path := by
  unfold Mode.check at h
  split at h
  · cases h
  · rename_i hknown
    refine ⟨r.root, r.segments, rfl, ?_⟩
    simpa [hm, Classical.or_iff_not_imp_left] using hknown

theorem knows_value (hm : m.strict = true) {lenient : Bool} {source : Text} {e : Expr}
    (h : m.value bound lenient source = .ok e) : ∀ path ∈ e.paths, Knows (m.names ++ bound) path := by
  simp only [Mode.value, bind_eq_ok] at h
  obtain ⟨r, -, _, hcheck, h⟩ := h
  have hknows := knows_check hm hcheck
  intro path hpath
  have hpath : path = r.path := by
    split at h
    · simp only [bind_eq_ok] at h
      obtain ⟨l, -, h⟩ := h
      cases h
      simpa [Expr.paths] using hpath
    · cases h
      split at hpath <;> simpa [Expr.paths] using hpath
  rw [hpath]
  exact hknows

theorem knows_reached (hm : m.strict = true) {source : Text} {path : List Segment}
    (h : m.reached bound source = .ok path) : Knows (m.names ++ bound) path := by
  simp only [Mode.reached, bind_eq_ok] at h
  obtain ⟨r, -, _, hcheck, h⟩ := h
  cases h
  exact knows_check hm hcheck

theorem knows_operand (hm : m.strict = true) (source : Text) (e : Expr) (h : m.operand bound true source = .ok e) :
    ∀ path ∈ e.paths, Knows (m.names ++ bound) path := by
  unfold Mode.operand at h
  split at h
  · rw [map_eq_ok] at h
    obtain ⟨l, -, rfl⟩ := h
    simp [Expr.paths]
  · exact knows_value hm h

end Directive

/-- the paths that a directive without a body asks for -/
def Act.paths : Act → List (List Segment)
  | emit e => e.paths
  | generate e _ _ _ => e.paths
  | _ => []

/-- the paths that the beginning of a construct asks for -/
def Opening.paths : Opening → List (List Segment)
  | loop _ path e => path :: e.paths
  | form e _ _ => e.paths
  | phrase _ params => params.flatMap fun p => p.2.paths
  | capture _ => []

namespace Instruction

open Directive

variable {m : Mode} {bound : List Text} {t : Token} {i : Instruction}

/-- the paths that an instruction asks for -/
def paths : Instruction → List (List Segment)
  | act a => a.paths
  | opening o => o.paths
  | when c => c.paths
  | elsewhen c => c.paths
  | _ => []

/-- the expressions that an instruction has -/
def exprs : Instruction → List Expr
  | act (.emit e) => [e]
  | act (.generate e _ _ _) => [e]
  | opening (.loop _ _ e) => [e]
  | opening (.form e _ _) => [e]
  | opening (.phrase _ params) => params.map Prod.snd
  | when c => c.exprs
  | elsewhen c => c.exprs
  | _ => []

/-- the paths that an instruction has beside those of its expressions -/
def reached : Instruction → List (List Segment)
  | opening (.loop _ path _) => [path]
  | _ => []

/-- an instruction asks for the paths that it has -/
theorem paths_eq (i : Instruction) : i.paths = i.reached ++ i.exprs.flatMap Expr.paths := by
  cases i with
  | act a => cases a <;> simp [paths, Act.paths, reached, exprs]
  | opening o => cases o <;> simp [paths, Opening.paths, reached, exprs, List.flatMap_map]
  | _ => simp [paths, reached, exprs, Condition.paths]

/-- the expression of a text whose value may be missing -/
def Given (m : Mode) (bound : List Text) (e : Expr) : Prop :=
  ∃ source, m.value bound true source = .ok e ∨ m.operand bound true source = .ok e

/-- **An instruction has** references that are reached, and expressions of texts, if it writes no value. -/
theorem given_of_read (h : read m bound t = .ok i) (hk : t.kind ≠ .interpolation) :
    (∀ path ∈ i.reached, ∃ source, m.reached bound source = .ok path) ∧ ∀ e ∈ i.exprs, Given m bound e := by
  have hoperand (source : Text) (e : Expr) (he : m.operand bound true source = .ok e) : Given m bound e :=
    ⟨source, .inr he⟩
  unfold read at h
  cases hkind : t.kind <;> simp only [hkind, bind_eq_ok] at h
  case interpolation => exact absurd hkind hk
  case loop =>
    obtain ⟨p, -, path, hpath, e, he, h⟩ := h
    cases h
    simp only [reached, exprs, List.forall_mem_singleton]
    exact ⟨⟨_, hpath⟩, _, .inl he⟩
  case form =>
    obtain ⟨p, -, r, -, e, he, h⟩ := h
    cases h
    simp only [reached, exprs, List.forall_mem_singleton]
    exact ⟨by simp, _, .inl he⟩
  case generate =>
    obtain ⟨p, -, r, -, e, he, h⟩ := h
    cases h
    simp only [reached, exprs, List.forall_mem_singleton]
    exact ⟨by simp, _, .inl he⟩
  case translate =>
    obtain ⟨p, -, ps, hps, h⟩ := h
    cases h
    refine ⟨by simp [reached], fun e he => ?_⟩
    obtain ⟨q, hq, rfl⟩ := List.mem_map.1 he
    exact params_readParams hoperand hps q hq
  case when =>
    obtain ⟨text, -, c, hc, h⟩ := h
    cases h
    exact ⟨by simp [reached], exprs_condition hoperand hc⟩
  case elsewhen =>
    obtain ⟨text, -, c, hc, h⟩ := h
    cases h
    exact ⟨by simp [reached], exprs_condition hoperand hc⟩
  case otherwise =>
    split at h
    · cases h
      simp [reached, exprs]
    · simp [malformed] at h
  case closing =>
    unfold readClosing at h
    split at h
    · simp at h
    · split at h
      · cases h
        simp [reached, exprs]
      · simp at h
  case literal =>
    cases h
    simp [reached, exprs]
  case comment =>
    cases h
    simp [reached, exprs]
  all_goals
    obtain ⟨p, -, h⟩ := h
    cases h
    simp [reached, exprs]

/-- **What a token asks for** in strict mode begins with names that are known where it stands. -/
theorem knows_of_read (hm : m.strict = true) (h : read m bound t = .ok i) :
    ∀ path ∈ i.paths, Knows (m.names ++ bound) path := by
  by_cases hk : t.kind = .interpolation
  · simp only [read, hk, bind_eq_ok] at h
    obtain ⟨e, he, h⟩ := h
    cases h
    exact knows_value hm he
  · obtain ⟨hreached, hexprs⟩ := given_of_read h hk
    rw [paths_eq]
    intro path hpath
    rcases List.mem_append.1 hpath with hpath | hpath
    · obtain ⟨source, hsource⟩ := hreached path hpath
      exact knows_reached hm hsource
    · obtain ⟨e, he, hpath⟩ := List.mem_flatMap.1 hpath
      obtain ⟨source, hsource | hsource⟩ := hexprs e he
      · exact knows_value hm hsource path hpath
      · exact knows_operand hm source e hsource path hpath

end Instruction

end Stencil
