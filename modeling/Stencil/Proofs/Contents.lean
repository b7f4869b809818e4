/-
WHAT A PASSAGE CONSISTS OF. The instructions of a passage are those that its tokens ask for, in their order; whatever
expression an instruction has stands in a statement of the passage's fragments.

- `read_of_instructions`: every instruction of a passage is what one of its tokens asks for.
- `exprs_passage`: the expressions of the instructions stand in the fragments.
-/
import Stencil.Proofs.Lookups
import Stencil.Proofs.Passage

namespace Stencil

/-! ## Instructions -/

mutual

/-- what a passage consists of, ends of constructs and last branches aside -/
def Passage.instructions : Passage → List Instruction
  | .done => []
  | .act a rest => .act a :: rest.instructions
  | .construct o body rest => .opening o :: (body.instructions ++ rest.instructions)
  | .choice c body more rest => .when c :: (body.instructions ++ (more.instructions ++ rest.instructions))

/-- what branches consist of -/
def Choices.instructions : Choices → List Instruction
  | .none => []
  | .elsewhen c body more => .elsewhen c :: (body.instructions ++ more.instructions)
  | .otherwise body => body.instructions

end

/-- one of the tokens asks for the instruction, with some names bound around it -/
def Instruction.AskedIn (m : Directive.Mode) (ts : List Token) (i : Instruction) : Prop :=
  ∃ t ∈ ts, ∃ bound, Instruction.read m bound t = .ok i

section

variable {m : Directive.Mode} {bound : List Text}

theorem Instruction.AskedIn.mono {ts ts' : List Token} {i : Instruction} (h : i.AskedIn m ts) (hts : ts ⊆ ts') :
    i.AskedIn m ts' := by
  obtain ⟨t, ht, bound, hi⟩ := h
  exact ⟨t, hts ht, bound, hi⟩

mutual

/-- **Every instruction of a passage** is what one of its tokens asks for. -/
theorem read_of_instructions : ∀ (n : Nested) {bound : List Text} {p : Passage} (_ : n.page m bound = .ok p),
    ∀ i ∈ p.instructions, i.AskedIn m n.tokens
  | .done, _, _, h => by
    cases h
    simp [Passage.instructions]
  | .single t ht rest, bound, _, h => by
    obtain ⟨a, r, ha, hr, rfl⟩ := page_single_ok h
    intro i hi
    rcases List.mem_cons.1 hi with rfl | hi
    · exact ⟨t, by simp [Nested.tokens], bound, ha⟩
    · exact (read_of_instructions rest hr i hi).mono fun u hu => by simp [Nested.tokens, hu]
  | .construct f hf start hs body stop he rest, bound, _, h => by
    obtain ⟨o, b, r, ho, -, hb, hr, rfl⟩ := page_construct_ok h
    intro i hi
    simp only [Passage.instructions, List.mem_cons, List.mem_append] at hi
    rcases hi with rfl | hi | hi
    · exact ⟨start, by simp [Nested.tokens], bound, ho⟩
    · exact (read_of_instructions body hb i hi).mono fun u hu => by simp [Nested.tokens, hu]
    · exact (read_of_instructions rest hr i hi).mono fun u hu => by simp [Nested.tokens, hu]
  | .conditional start hs body more rest, bound, _, h => by
    obtain ⟨c, b, ms, r, hc, hb, hms, hr, rfl⟩ := page_conditional_ok h
    intro i hi
    simp only [Passage.instructions, List.mem_cons, List.mem_append] at hi
    rcases hi with rfl | hi | hi | hi
    · exact ⟨start, by simp [Nested.tokens], bound, hc⟩
    · exact (read_of_instructions body hb i hi).mono fun u hu => by simp [Nested.tokens, hu]
    · exact (read_of_instructions_branches more hms i hi).mono fun u hu => by simp [Nested.tokens, hu]
    · exact (read_of_instructions rest hr i hi).mono fun u hu => by simp [Nested.tokens, hu]

/-- every instruction of branches is what one of their tokens asks for -/
theorem read_of_instructions_branches : ∀ (b : Branches) {bound : List Text} {p : Choices}
    (_ : b.page m bound = .ok p), ∀ i ∈ p.instructions, i.AskedIn m b.tokens
  | .stop _ _, _, _, h => by
    cases h
    simp [Choices.instructions]
  | .elsewhen t ht body more, bound, _, h => by
    obtain ⟨c, b, ms, hc, hb, hms, rfl⟩ := page_elsewhen_ok h
    intro i hi
    simp only [Choices.instructions, List.mem_cons, List.mem_append] at hi
    rcases hi with rfl | hi | hi
    · exact ⟨t, by simp [Branches.tokens], bound, hc⟩
    · exact (read_of_instructions body hb i hi).mono fun u hu => by simp [Branches.tokens, hu]
    · exact (read_of_instructions_branches more hms i hi).mono fun u hu => by simp [Branches.tokens, hu]
  | .otherwise t ht body stop he, bound, _, h => by
    obtain ⟨b, hb, rfl⟩ := page_otherwise_ok h
    intro i hi
    exact (read_of_instructions body hb i hi).mono fun u hu => by simp [Branches.tokens, hu]

end

end

/-! ## Expressions in fragments -/

/-- a literal that is no number beyond all doubles -/
def Literal.Finite : Literal → Prop
  | float (.infinite _) => False
  | _ => True

instance (l : Literal) : Decidable l.Finite :=
  match l with
  | .float (.infinite _) => isFalse id
  | .float (.finite _ _ _) => isTrue trivial
  | .null => isTrue trivial
  | .bool _ => isTrue trivial
  | .int _ => isTrue trivial
  | .text _ => isTrue trivial

/-- an expression all literals of which are finite -/
def Expr.Finite : Expr → Prop
  | literal l => l.Finite
  | lookup _ default => default.Finite
  | demand _ _ => True

instance (e : Expr) : Decidable e.Finite :=
  match e with
  | .literal l => inferInstanceAs (Decidable l.Finite)
  | .lookup _ default => inferInstanceAs (Decidable default.Finite)
  | .demand _ _ => isTrue trivial

/-- the expressions of a statement -/
def Stmt.exprs : Stmt → List Expr
  | emit e => [e]
  | iterate _ e => [e]
  | when c => c.exprs
  | elsewhen c => c.exprs
  | formOpen e _ _ => [e]
  | generate e _ _ _ => [e]
  | translate _ _ params => params.map Prod.snd
  | _ => []

/-- the expressions of a fragment's statements -/
def Fragment.exprs (f : Fragment) : List Expr := f.lines.flatMap fun l => l.stmt.exprs

theorem exprs_act (a : Act) : (Instruction.act a).exprs = a.fragment.exprs := by
  cases a <;> rfl

theorem exprs_opening (o : Opening) (n : Nat) : (Instruction.opening o).exprs ⊆ (o.first n).exprs := by
  cases o <;> simp [Instruction.exprs, Fragment.exprs, Opening.first, Fragment.statements, Stmt.exprs]

mutual

/-- **The expressions of a passage's instructions** stand in its fragments. -/
theorem exprs_passage : ∀ (p : Passage) (n : Nat) {e : Expr}, e ∈ p.instructions.flatMap Instruction.exprs →
    e ∈ (p.fragments n).flatMap Fragment.exprs
  | .done, _, _, he => he
  | .act a rest, n, e, he => by
    simp only [Passage.instructions, Passage.fragments, List.flatMap_cons, List.mem_append, exprs_act] at he ⊢
    exact he.imp_right (exprs_passage rest n)
  | .construct o body rest, n, e, he => by
    simp only [Passage.instructions, Passage.fragments, List.flatMap_cons, List.flatMap_append,
      List.mem_append] at he ⊢
    rcases he with he | he | he
    · exact .inl (exprs_opening o n he)
    · exact .inr (.inl (exprs_passage body _ he))
    · exact .inr (.inr (.inr (exprs_passage rest _ he)))
  | .choice c body more rest, n, e, he => by
    simp only [Passage.instructions, Passage.fragments, List.flatMap_cons, List.flatMap_append,
      List.mem_append] at he ⊢
    rcases he with he | he | he | he
    · exact .inl (by simpa [Fragment.exprs, whenFragment, Stmt.exprs, Instruction.exprs] using he)
    · exact .inr (.inl (exprs_passage body _ he))
    · exact .inr (.inr (.inl (exprs_choices more _ he)))
    · exact .inr (.inr (.inr (exprs_passage rest _ he)))

theorem exprs_choices : ∀ (more : Choices) (n : Nat) {e : Expr}, e ∈ more.instructions.flatMap Instruction.exprs →
    e ∈ (more.fragments n).flatMap Fragment.exprs
  | .none, _, _, he => absurd he List.not_mem_nil
  | .elsewhen c body more, n, e, he => by
    simp only [Choices.instructions, Choices.fragments, List.flatMap_cons, List.flatMap_append,
      List.mem_append] at he ⊢
    rcases he with he | he | he
    · exact .inl (by simpa [Fragment.exprs, elsewhenFragment, Stmt.exprs, Instruction.exprs] using he)
    · exact .inr (.inl (exprs_passage body _ he))
    · exact .inr (.inr (exprs_choices more _ he))
  | .otherwise body, n, e, he => by
    simp only [Choices.instructions, Choices.fragments, List.flatMap_cons, List.flatMap_append,
      List.mem_append] at he ⊢
    exact .inr (.inl (exprs_passage body _ he))

end

end Stencil
