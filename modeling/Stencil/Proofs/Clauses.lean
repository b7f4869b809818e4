/-
THE GRAMMAR OF CONDITIONS. A condition that is accepted is read from a tree of its grammar,

    condition := clause (('and' | 'or') clause)*
    clause    := 'not'* operand [operator operand]
    operand   := literal | path | path '??' literal

whose paths are none of the bare words and, or, not.

- `OperandText`, `ClauseText`, `ConditionText`: the trees, with the tokens that they are written as and what they mean.
- `condition_of_tokens`: a text whose tokens are those of a tree is read as what the tree means.
- `tree_of_reads`: other tokens are malformed.
- `condition_accepts`: the texts that are accepted are those whose tokens are those of a tree.
-/
import Stencil.Proofs.Lexemes

namespace Stencil.Directive

/-! ## Trees -/

/-- an operand as it is written -/
inductive OperandText where
  | literal (l : LiteralText)
  | path (p : PathText)
  | fallback (p : PathText) (l : LiteralText)
  deriving DecidableEq, Repr

namespace OperandText

/-- the tokens -/
def lexemes : OperandText → List Lexeme
  | literal l => [.literal l]
  | path p => [.path p]
  | fallback p l => [.path p, .fallback, .literal l]

/-- the path is none of the bare words and, or, not -/
def free : OperandText → Bool
  | literal _ => true
  | path p => !reservedWords.contains p.text
  | fallback p _ => !reservedWords.contains p.text

/-- the expression that is meant; a word that is a literal is one even where a path is read -/
def expr : OperandText → Expr
  | literal l => .literal l.value
  | path p =>
    match Literal.words.find? fun w => w.1 == p.text with
    | some w => .literal w.2
    | none => .lookup p.path .null
  | fallback p l => .lookup p.path l.value

end OperandText

/-- the bare word not -/
def notWord : Lexeme := .path ⟨"not", []⟩

/-- a clause as it is written -/
structure ClauseText where
  nots : Nat
  left : OperandText
  right : Option (Comparison × OperandText)
  deriving DecidableEq, Repr

namespace ClauseText

/-- the tokens behind the nots and the first operand -/
def rightLexemes : Option (Comparison × OperandText) → List Lexeme
  | none => []
  | some (op, r) => .operator op :: r.lexemes

/-- the tokens -/
def lexemes (c : ClauseText) : List Lexeme :=
  List.replicate c.nots notWord ++ (c.left.lexemes ++ rightLexemes c.right)

/-- no operand is one of the bare words -/
def free (c : ClauseText) : Bool := c.left.free && c.right.all fun r => r.2.free

/-- what is tested -/
def test (c : ClauseText) : Test :=
  match c.right with
  | none => .truth c.left.expr
  | some (op, r) => .compare op c.left.expr r.expr

/-- the clause that is meant -/
def clause (c : ClauseText) : Clause := ⟨c.nots % 2 == 1, c.test⟩

end ClauseText

/-- the bare word of a connective -/
def connectiveWord : Connective → Lexeme
  | .and => .path ⟨"and", []⟩
  | .or => .path ⟨"or", []⟩

/-- a condition as it is written -/
structure ConditionText where
  first : ClauseText
  rest : List (Connective × ClauseText)
  deriving DecidableEq, Repr

namespace ConditionText

/-- the tokens of the clauses behind the first, each behind its connective -/
def restLexemes (rest : List (Connective × ClauseText)) : List Lexeme :=
  rest.flatMap fun r => connectiveWord r.1 :: r.2.lexemes

/-- the tokens -/
def lexemes (c : ConditionText) : List Lexeme := c.first.lexemes ++ restLexemes c.rest

/-- no operand is one of the bare words -/
def free (c : ConditionText) : Bool := c.first.free && c.rest.all fun r => r.2.free

/-- the condition that is meant -/
def condition (c : ConditionText) : Condition := ⟨c.first.clause, c.rest.map fun r => (r.1, r.2.clause)⟩

end ConditionText

/-- the tokens derive from the grammar of conditions -/
def Derives (xs : List Lexeme) : Prop := ∃ c : ConditionText, c.free = true ∧ c.lexemes = xs

/-- the token can be read, with its integers and indexes -/
def Lexeme.legible (x : Lexeme) : Bool := x.proper && x.short

/-! ## Operands -/

section

variable {names bound : List Text} {p : PathText} {l : LiteralText}

/-- the text of a token has no blanks to leave out -/
theorem strip_of_solid {t : Text} (h : Text.Solid t) : Text.strip t = t := by
  simpa using h.strip (List.forall_mem_nil _) (List.forall_mem_nil _)

theorem operand_literal (hl : l.proper = true) (hshort : l.short = true) (lenient : Bool) :
    Mode.operand ⟨false, names⟩ bound lenient l.text = .ok (.literal l.value) := by
  have hliteral : Literal.isLiteral l.text = true :=
    Literal.isLiteral_iff.2 ⟨l, hl, strip_of_solid (Literal.solid_text hl)⟩
  rw [Mode.operand, if_pos hliteral, Literal.parse_text hl, if_pos hshort]
  rfl

/-- a text that begins like a path is a literal only if it is one of the words -/
theorem word_of_isLiteral {t : Text} (hsolid : Text.Solid t) (hbegins : Text.begins Text.isNameStart t = true)
    (h : Literal.isLiteral t = true) : ∃ w ∈ Literal.words, w.1 = t := by
  obtain ⟨l, hl, hs⟩ := Literal.isLiteral_iff.1 h
  rw [strip_of_solid hsolid] at hs
  subst hs
  obtain ⟨c, cs, hc, hlead⟩ := lead_text (x := .literal l) hl
  have htext : l.text = c :: cs := hc
  rw [htext, Text.begins_cons] at hbegins
  rw [leadOf_nameStart hbegins] at hlead
  cases l with
  | null => exact ⟨("null", .null), by decide, rfl⟩
  | bool b =>
    cases b with
    | true => exact ⟨("true", .bool true), by decide, rfl⟩
    | false => exact ⟨("false", .bool false), by decide, rfl⟩
  | quoted mark s => cases hlead
  | number negative whole fraction => cases hlead

theorem begins_path (hp : p.proper = true) (t : Text) : Text.begins Text.isNameStart (p.text ++ t) = true := by
  rw [PathText.proper, Bool.and_eq_true] at hp
  rw [PathText.text, List.append_assoc]
  exact Text.begins_of_isRun hp.1

theorem value_path (hp : p.proper = true) (hshort : p.short = true) (lenient : Bool) :
    Mode.value ⟨false, names⟩ bound lenient p.text = .ok (.lookup p.path .null) := by
  have hw : (⟨p, none⟩ : Reference.Writing).proper = true := by simp [Reference.Writing.proper, hp]
  have hparse : Reference.parse p.text = .ok (⟨p, none⟩ : Reference.Writing).reference := by
    have h := Reference.parse_writing hw (List.forall_mem_nil _) (List.forall_mem_nil _)
    rw [if_pos hshort] at h
    simpa [Reference.Writing.text] using h
  simp only [Mode.value, hparse, ok_bind]
  rfl

/-- **A path** is the value that it reaches, unless it is one of the words that are literals. -/
theorem operand_path (hp : p.proper = true) (hshort : p.short = true) :
    Mode.operand ⟨false, names⟩ bound true p.text = .ok (OperandText.expr (.path p)) := by
  have hstrip := strip_of_solid (Reference.solid_path hp)
  have hbegins : Text.begins Text.isNameStart p.text = true := by simpa using begins_path hp []
  cases hword : Literal.words.find? (fun w => w.1 == p.text) with
  | some w =>
    have hliteral : Literal.isLiteral p.text = true := by
      have hw := List.find?_some hword
      rw [← beq_iff_eq.1 hw]
      have hwords : ∀ w ∈ Literal.words, Literal.isLiteral w.1 = true := by decide
      exact hwords w (List.mem_of_find?_eq_some hword)
    have hparse : Literal.parse p.text = .ok w.2 := by
      unfold Literal.parse
      simp only [hstrip, hword]
    rw [Mode.operand, if_pos hliteral, hparse, OperandText.expr, hword]
    rfl
  | none =>
    have hliteral : Literal.isLiteral p.text ≠ true := by
      intro h
      obtain ⟨w, hw, htext⟩ := word_of_isLiteral (Reference.solid_path hp) hbegins h
      exact List.find?_eq_none.1 hword w hw (beq_iff_eq.2 htext)
    rw [Mode.operand, if_neg hliteral, value_path hp hshort, OperandText.expr, hword]

/-- **A path with a fallback** is the value that it reaches, or the fallback. -/
theorem operand_fallback (hp : p.proper = true) (hshort : p.short = true) (hl : l.proper = true)
    (hlshort : l.short = true) : Mode.operand ⟨false, names⟩ bound true (Text.cat [p.text, " ?? ", l.text]) =
      .ok (.lookup p.path l.value) := by
  have hf : (⟨[' '], [' '], l⟩ : FallbackText).proper = true := by
    simp [FallbackText.proper, hl, show Text.isBlank ' ' = true by decide]
  have hw : (⟨p, some ⟨[' '], [' '], l⟩⟩ : Reference.Writing).proper = true := by
    simp [Reference.Writing.proper, hp, hf]
  have htext : Text.cat [p.text, " ?? ", l.text] = (⟨p, some ⟨[' '], [' '], l⟩⟩ : Reference.Writing).text := by
    simp [Text.cat, Reference.Writing.text, FallbackText.text]
  have hliteral : Literal.isLiteral (Text.cat [p.text, " ?? ", l.text]) ≠ true := by
    intro h
    have hbegins : Text.begins Text.isNameStart (Text.cat [p.text, " ?? ", l.text]) = true := by
      simpa [Text.cat] using begins_path hp (" ?? ".toList ++ l.text)
    obtain ⟨w, hw', hwtext⟩ := word_of_isLiteral (htext ▸ Reference.solid_text hw) hbegins h
    -- none of the words has a question mark
    have hmark : ∀ w ∈ Literal.words, '?' ∉ w.1 := by decide
    exact hmark w hw' (by simp [hwtext, Text.cat])
  have hparse : Reference.parse (Text.cat [p.text, " ?? ", l.text]) =
      .ok (⟨p, some ⟨[' '], [' '], l⟩⟩ : Reference.Writing).reference := by
    have h := Reference.parse_writing hw (List.forall_mem_nil _) (List.forall_mem_nil _)
    rw [if_pos hshort, List.nil_append, List.append_nil] at h
    rw [htext, h]
  have hfallback : Literal.parse l.text = .ok l.value := by rw [Literal.parse_text hl, if_pos hlshort]
  rw [Mode.operand, if_neg hliteral]
  simp only [Mode.value, hparse, ok_bind, Reference.Writing.reference, Option.map_some, hfallback]
  rfl

end

/-! ## Trees are read -/

section

variable {names bound : List Text} {raw : Text}

/-- the condition of tokens that are read already -/
def conditionOf (m : Mode) (bound : List Text) (raw : Text) (ps : List Part) : Except Refusal Condition := do
  let (first, rest) ← clause m bound raw ps
  let more ← clausesUpTo m bound raw rest.length rest
  return ⟨first, more⟩

theorem condition_eq {m : Mode} {text : Text} {ps : List Part} (h : parts text = .ok ps) :
    condition m bound raw text = conditionOf m bound raw ps := by
  rw [condition, h]
  rfl

/-- the tokens of an operand are read as what it means -/
theorem operand_lexemes {o : OperandText} {ps : List Part} (hfree : o.free = true)
    (hlegible : ∀ x ∈ o.lexemes, x.legible = true) (hps : ps.head? ≠ some .fallback) :
    operand ⟨false, names⟩ bound raw (o.lexemes.map Lexeme.part ++ ps) = .ok (o.expr, ps) := by
  cases o with
  | literal l =>
    have hl := hlegible (.literal l) (by simp [OperandText.lexemes])
    rw [Lexeme.legible, Bool.and_eq_true] at hl
    simp only [OperandText.lexemes, List.map_cons, List.map_nil, List.cons_append, List.nil_append, Lexeme.part,
      operand, operand_literal hl.1 hl.2, map_ok]
    rfl
  | path p =>
    have hp := hlegible (.path p) (by simp [OperandText.lexemes])
    rw [Lexeme.legible, Bool.and_eq_true] at hp
    have hreserved : reservedWords.contains p.text = false := by simpa [OperandText.free] using hfree
    have hoperand : Mode.operand ⟨false, names⟩ bound true p.text = .ok (OperandText.expr (.path p)) :=
      operand_path hp.1 hp.2
    have hread : operand ⟨false, names⟩ bound raw (.path p.text :: ps) =
        (Mode.operand ⟨false, names⟩ bound true p.text).map fun e => (e, ps) := by
      simp only [operand, hreserved, Bool.false_eq_true, if_false]
      split
      · exact absurd rfl hps
      · rfl
    rw [hoperand] at hread
    exact hread
  | fallback p l =>
    have hp := hlegible (.path p) (by simp [OperandText.lexemes])
    have hl := hlegible (.literal l) (by simp [OperandText.lexemes])
    rw [Lexeme.legible, Bool.and_eq_true] at hp hl
    have hreserved : reservedWords.contains p.text = false := by simpa [OperandText.free] using hfree
    have hliteral : Literal.isLiteral l.text = true :=
      Literal.isLiteral_iff.2 ⟨l, hl.1, strip_of_solid (Literal.solid_text hl.1)⟩
    simp only [OperandText.lexemes, List.map_cons, List.map_nil, List.cons_append, List.nil_append, Lexeme.part,
      operand, hreserved, Bool.false_eq_true, if_false, Part.text, hliteral, if_true,
      operand_fallback hp.1 hp.2 hl.1 hl.2, map_ok]
    rfl

/-- one more not negates -/
theorem nots_cons {n : Nat} {ps qs : List Part} (h : nots ps = (n % 2 == 1, qs)) :
    nots (notWord.part :: ps) = ((n + 1) % 2 == 1, qs) := by
  have hnot : notWord.part = .path "not" := rfl
  have hodd : (!(n % 2 == 1)) = ((n + 1) % 2 == 1) := by
    rw [Bool.eq_iff_iff]
    simp
    omega
  rw [hnot, nots, if_pos (by decide), h, ← hodd]

/-- nots are counted -/
theorem nots_replicate (n : Nat) {ps : List Part} (hps : ps.head? ≠ some notWord.part) :
    nots (List.replicate n notWord.part ++ ps) = (n % 2 == 1, ps) := by
  induction n with
  | zero =>
    cases ps with
    | nil => rfl
    | cons p ps =>
      cases p with
      | path s =>
        have hs : ¬(s == "not".toList) = true := by
          rw [beq_iff_eq]
          rintro rfl
          exact hps rfl
        rw [List.replicate_zero, List.nil_append, nots, if_neg hs]
        rfl
      | _ => rfl
  | succ n ih =>
    rw [List.replicate_succ, List.cons_append]
    exact nots_cons ih

/-- no operand begins with a not -/
theorem head_lexemes {o : OperandText} (hfree : o.free = true) (ps : List Part) :
    (o.lexemes.map Lexeme.part ++ ps).head? ≠ some notWord.part := by
  have hpath {p : PathText} (hp : (!reservedWords.contains p.text) = true) :
      some (Part.path p.text) ≠ some notWord.part := by
    intro h
    have htext : p.text = "not".toList := by injection h with h; injection h
    rw [htext] at hp
    exact absurd hp (by decide)
  cases o with
  | literal l => nofun
  | path p => exact hpath hfree
  | fallback p l => exact hpath hfree

/-- nothing that a clause goes on with -/
def Stops (ps : List Part) : Prop := ps.head? ≠ some .fallback ∧ ∀ op, ps.head? ≠ some (.operator op)

/-- the tokens of a clause are read as what it means -/
theorem clause_lexemes {c : ClauseText} {ps : List Part} (hfree : c.free = true)
    (hlegible : ∀ x ∈ c.lexemes, x.legible = true) (hps : Stops ps) :
    clause ⟨false, names⟩ bound raw (c.lexemes.map Lexeme.part ++ ps) = .ok (c.clause, ps) := by
  rw [ClauseText.free, Bool.and_eq_true] at hfree
  rw [ClauseText.lexemes, List.forall_mem_append, List.forall_mem_append] at hlegible
  have hnots : nots (c.lexemes.map Lexeme.part ++ ps) = (c.nots % 2 == 1,
      c.left.lexemes.map Lexeme.part ++ ((ClauseText.rightLexemes c.right).map Lexeme.part ++ ps)) := by
    rw [ClauseText.lexemes, List.map_append, List.map_append, List.map_replicate, List.append_assoc, List.append_assoc]
    exact nots_replicate c.nots (head_lexemes hfree.1 _)
  have hleft (ps' : List Part) (hps' : ps'.head? ≠ some .fallback) :
      operand ⟨false, names⟩ bound raw (c.left.lexemes.map Lexeme.part ++ ps') = .ok (c.left.expr, ps') :=
    operand_lexemes hfree.1 hlegible.2.1 hps'
  unfold clause
  simp only [hnots]
  cases hright : c.right with
  | none =>
    rw [hright] at hnots
    simp only [ClauseText.rightLexemes, List.map_nil, List.nil_append, hleft ps hps.1, ok_bind]
    split
    · rename_i op qs
      exact absurd rfl (hps.2 op)
    · simp only [pure_eq_ok, ClauseText.clause, ClauseText.test, hright]
  | some r =>
    obtain ⟨op, o⟩ := r
    rw [hright] at hfree hlegible
    have hoperand : operand ⟨false, names⟩ bound raw (o.lexemes.map Lexeme.part ++ ps) = .ok (o.expr, ps) :=
      operand_lexemes hfree.2 (fun x hx => hlegible.2.2 x (List.mem_cons_of_mem _ hx)) hps.1
    simp only [ClauseText.rightLexemes, List.map_cons, List.cons_append, Lexeme.part]
    rw [hleft _ (fun h => by cases h)]
    simp only [ok_bind, hoperand, pure_eq_ok, ClauseText.clause, ClauseText.test, hright]

theorem stops_restLexemes (rest : List (Connective × ClauseText)) :
    Stops ((ConditionText.restLexemes rest).map Lexeme.part) := by
  cases rest with
  | nil => exact ⟨nofun, nofun⟩
  | cons r rest =>
    obtain ⟨w, c⟩ := r
    cases w with
    | and => exact ⟨nofun, nofun⟩
    | or => exact ⟨nofun, nofun⟩

theorem connective?_word (w : Connective) : connective? (connectiveWord w).part = some w := by
  cases w <;> rfl

/-- the tokens of clauses, each behind its connective, are read as what they mean -/
theorem clausesUpTo_lexemes {rest : List (Connective × ClauseText)} {n : Nat} (hn : rest.length ≤ n)
    (hfree : (rest.all fun r => r.2.free) = true)
    (hlegible : ∀ x ∈ ConditionText.restLexemes rest, x.legible = true) :
    clausesUpTo ⟨false, names⟩ bound raw n ((ConditionText.restLexemes rest).map Lexeme.part) =
      .ok (rest.map fun r => (r.1, r.2.clause)) := by
  induction rest generalizing n with
  | nil => cases n <;> rfl
  | cons r rest ih =>
    cases n with
    | zero => simp at hn
    | succ n =>
      obtain ⟨w, c⟩ := r
      rw [List.all_cons, Bool.and_eq_true] at hfree
      have htokens : ConditionText.restLexemes ((w, c) :: rest) =
          connectiveWord w :: (c.lexemes ++ ConditionText.restLexemes rest) := by
        simp [ConditionText.restLexemes]
      rw [htokens, List.forall_mem_cons, List.forall_mem_append] at hlegible
      have hclause : clause ⟨false, names⟩ bound raw (c.lexemes.map Lexeme.part ++
          (ConditionText.restLexemes rest).map Lexeme.part) =
            .ok (c.clause, (ConditionText.restLexemes rest).map Lexeme.part) :=
        clause_lexemes hfree.1 hlegible.2.1 (stops_restLexemes rest)
      have hmore := ih (Nat.le_of_succ_le_succ hn) hfree.2 hlegible.2.2
      rw [htokens, List.map_cons, List.map_append, clausesUpTo]
      simp only [connective?_word, hclause, ok_bind, hmore, pure_eq_ok, List.map_cons]

theorem length_le_restLexemes (rest : List (Connective × ClauseText)) :
    rest.length ≤ (ConditionText.restLexemes rest).length := by
  induction rest with
  | nil => exact Nat.zero_le _
  | cons r rest ih =>
    rw [ConditionText.restLexemes] at ih ⊢
    simp only [List.flatMap_cons, List.cons_append, List.length_cons, List.length_append]
    omega

/-- **The tokens of a tree are read** as the condition that it means. -/
theorem conditionOf_lexemes {c : ConditionText} (hfree : c.free = true)
    (hlegible : ∀ x ∈ c.lexemes, x.legible = true) :
    conditionOf ⟨false, names⟩ bound raw (c.lexemes.map Lexeme.part) = .ok c.condition := by
  rw [ConditionText.free, Bool.and_eq_true] at hfree
  rw [ConditionText.lexemes, List.forall_mem_append] at hlegible
  have hclause : clause ⟨false, names⟩ bound raw (c.first.lexemes.map Lexeme.part ++
      (ConditionText.restLexemes c.rest).map Lexeme.part) =
        .ok (c.first.clause, (ConditionText.restLexemes c.rest).map Lexeme.part) :=
    clause_lexemes hfree.1 hlegible.1 (stops_restLexemes c.rest)
  have hmore : clausesUpTo ⟨false, names⟩ bound raw ((ConditionText.restLexemes c.rest).map Lexeme.part).length
      ((ConditionText.restLexemes c.rest).map Lexeme.part) = .ok (c.rest.map fun r => (r.1, r.2.clause)) :=
    clausesUpTo_lexemes (by simpa using length_le_restLexemes c.rest) hfree.2 hlegible.2
  rw [conditionOf, ConditionText.lexemes, List.map_append, hclause]
  simp only [ok_bind, hmore, pure_eq_ok, ConditionText.condition]

/-- **A text whose tokens are those of a tree** is the condition that the tree means. -/
theorem condition_of_tokens {c : ConditionText} {text : Text} (hfree : c.free = true)
    (hlegible : ∀ x ∈ c.lexemes, x.legible = true) (htokens : Tokens text c.lexemes) :
    condition ⟨false, names⟩ bound raw text = .ok c.condition := by
  rw [condition_eq (parts_eq_ok_iff.2 ⟨c.lexemes, htokens, rfl⟩), conditionOf_lexemes hfree hlegible]

end

/-! ## What is read is a tree -/

/-- the refusal is a fault of a malformed directive -/
def Malformed : Refusal → Prop
  | .fault f => f.cause.kind = .malformed
  | _ => False

/-- reading some of the tokens fails for a malformed directive, or takes such ones as are wanted; if it takes others,
a literal is next -/
def Takes {α : Type} (wanted : List Lexeme → Prop) (xs : List Lexeme) : Except Refusal (α × List Part) → Prop
  | .error e => Malformed e
  | .ok (_, ps) => ∃ ys zs, xs = ys ++ zs ∧ ps = zs.map Lexeme.part ∧ (wanted ys ∨ ∃ l zs', zs = .literal l :: zs')

/-- a path that is one of the words that are literals stands directly before a literal -/
def Parted (xs : List Lexeme) : Prop :=
  ∀ ys p zs, xs = ys ++ .path p :: zs → Literal.isLiteral p.text = true → ∃ l zs', zs = .literal l :: zs'

theorem Parted.suffix (ys : List Lexeme) {zs : List Lexeme} (h : Parted (ys ++ zs)) : Parted zs := by
  intro us p vs hzs hword
  exact h (ys ++ us) p vs (by rw [hzs, List.append_assoc]) hword

/-- a token that is a literal is written as one, or as a path that is one of the words -/
theorem literal_of_isLiteral {y : Lexeme} (hy : y.legible = true) (h : Literal.isLiteral y.text = true) :
    ((∃ l, y = .literal l) ∨ ∃ q, y = .path q) ∧
      ∃ l : LiteralText, l.proper = true ∧ l.short = true ∧ y.text = l.text := by
  rw [Lexeme.legible, Bool.and_eq_true] at hy
  obtain ⟨l, hl, hs⟩ := Literal.isLiteral_iff.1 h
  rw [strip_of_solid (Lexeme.solid hy.1)] at hs
  have hlead : y.lead = (Lexeme.literal l).lead := by
    obtain ⟨c, cs, hc, hy'⟩ := lead_text hy.1
    obtain ⟨d, ds, hd, hl'⟩ := lead_text (x := .literal l) hl
    have htexts : c :: cs = d :: ds := hc.symm.trans (hs.trans hd)
    rw [← hy', ← hl', (List.cons.inj htexts).1]
  cases y with
  | literal l₀ => exact ⟨.inl ⟨l₀, rfl⟩, l₀, hy.1, hy.2, rfl⟩
  | operator op => cases l <;> cases hlead
  | fallback => cases l <;> cases hlead
  | path q =>
    refine ⟨.inr ⟨q, rfl⟩, l, hl, ?_, hs⟩
    cases l with
    | null => rfl
    | bool b => rfl
    | quoted mark s => rfl
    | number negative whole fraction => cases hlead

section

variable {names bound : List Text} {raw : Text} {xs : List Lexeme}

/-- the tokens of an operand -/
def OperandTokens (ys : List Lexeme) : Prop := ∃ o : OperandText, o.free = true ∧ o.lexemes = ys

/-- the tokens of a clause -/
def ClauseTokens (ys : List Lexeme) : Prop := ∃ c : ClauseText, c.free = true ∧ c.lexemes = ys

theorem takes_ok {α : Type} {wanted : List Lexeme → Prop} (ys : List Lexeme) {zs : List Lexeme} {a : α}
    {r : Except Refusal (α × List Part)} (h : r = .ok (a, zs.map Lexeme.part))
    (hwanted : wanted ys ∨ ∃ l zs', zs = .literal l :: zs') : Takes wanted (ys ++ zs) r := by
  rw [h]
  exact ⟨ys, zs, rfl, rfl, hwanted⟩

theorem operand_fallback_cons {m : Mode} {s : Text} (h : reservedWords.contains s = false) (p : Part)
    (ps : List Part) : operand m bound raw (.path s :: .fallback :: p :: ps) =
      if Literal.isLiteral p.text then (m.operand bound true (Text.cat [s, " ?? ", p.text])).map fun e => (e, ps)
      else .error (.fault (.of (.literalExpected raw) raw)) := by
  simp only [operand, h, Bool.false_eq_true, if_false]

/-- a path that the fallback mark follows takes the literal behind the mark -/
theorem fallback_takes {p : PathText} {zs : List Lexeme} (hfree : reservedWords.contains p.text = false)
    (hlegible : ∀ x ∈ Lexeme.path p :: .fallback :: zs, x.legible = true)
    (hparted : Parted (.path p :: .fallback :: zs)) :
    Takes OperandTokens (.path p :: .fallback :: zs)
      (operand ⟨false, names⟩ bound raw ((Lexeme.path p :: .fallback :: zs).map Lexeme.part)) := by
  have hp := hlegible (.path p) (by simp)
  rw [Lexeme.legible, Bool.and_eq_true] at hp
  rw [List.map_cons, List.map_cons]
  cases zs with
  | nil =>
    simp only [Lexeme.part, operand, hfree, List.map_nil]
    exact rfl
  | cons y zs =>
    have hpath : (Lexeme.path p).part = .path p.text := rfl
    have hmark : Lexeme.fallback.part = .fallback := rfl
    rw [List.map_cons, hpath, hmark, operand_fallback_cons hfree]
    have htext : y.part.text = y.text := rfl
    rw [htext]
    by_cases hliteral : Literal.isLiteral y.text = true
    · obtain ⟨hkind, l, hl, hlshort, hy⟩ := literal_of_isLiteral (hlegible y (by simp)) hliteral
      rw [if_pos hliteral, hy, operand_fallback hp.1 hp.2 hl hlshort]
      refine takes_ok [.path p, .fallback, y] (map_ok _ _) ?_
      rcases hkind with ⟨l', rfl⟩ | ⟨q, rfl⟩
      · exact .inl ⟨.fallback p l', by rw [OperandText.free, hfree, Bool.not_false], rfl⟩
      · exact .inr (hparted [.path p, .fallback] q zs rfl hliteral)
    · rw [if_neg hliteral]
      exact rfl

/-- **Reading an operand** takes the tokens of one. -/
theorem operand_takes (hlegible : ∀ x ∈ xs, x.legible = true) (hparted : Parted xs) :
    Takes OperandTokens xs (operand ⟨false, names⟩ bound raw (xs.map Lexeme.part)) := by
  cases xs with
  | nil => exact rfl
  | cons x rest =>
    have hx := hlegible x List.mem_cons_self
    cases x with
    | operator op => exact rfl
    | fallback => exact rfl
    | literal l =>
      rw [Lexeme.legible, Bool.and_eq_true] at hx
      have hread : operand ⟨false, names⟩ bound raw ((Lexeme.literal l :: rest).map Lexeme.part) =
          .ok (.literal l.value, rest.map Lexeme.part) := by
        rw [List.map_cons, Lexeme.part, operand, operand_literal hx.1 hx.2]
        rfl
      exact takes_ok [.literal l] hread (.inl ⟨.literal l, rfl, rfl⟩)
    | path p =>
      cases hreserved : reservedWords.contains p.text with
      | true =>
        simp only [List.map_cons, Lexeme.part, operand, hreserved, if_true]
        exact rfl
      | false =>
        by_cases hfallback : ∃ zs, rest = .fallback :: zs
        · obtain ⟨zs, rfl⟩ := hfallback
          exact fallback_takes hreserved hlegible hparted
        · have hhead : (rest.map Lexeme.part).head? ≠ some .fallback := by
            cases rest with
            | nil => nofun
            | cons z rest =>
              cases z with
              | fallback => exact absurd ⟨rest, rfl⟩ hfallback
              | _ => nofun
          have hfree : (OperandText.path p).free = true := by rw [OperandText.free, hreserved, Bool.not_false]
          have hread : operand ⟨false, names⟩ bound raw ((Lexeme.path p :: rest).map Lexeme.part) =
              .ok (OperandText.expr (.path p), rest.map Lexeme.part) :=
            operand_lexemes hfree (by simpa [OperandText.lexemes] using hx) hhead
          exact takes_ok [.path p] hread (.inl ⟨.path p, hfree, rfl⟩)

/-- a path that is a bare word is written in one way -/
theorem eq_word {x : Lexeme} {w : Text} (hw : Text.isName w = true) (hx : x.legible = true)
    (h : x.part = .path w) : x = .path ⟨w, []⟩ := by
  rw [Lexeme.legible, Bool.and_eq_true] at hx
  cases x with
  | literal l => cases h
  | operator op => cases h
  | fallback => cases h
  | path p =>
    have hword : (⟨w, []⟩ : PathText).proper = true := by rw [PathText.proper, hw]; rfl
    have htext : p.text = (⟨w, []⟩ : PathText).text := by
      have hempty : (⟨w, []⟩ : PathText).text = w := List.append_nil w
      rw [hempty]
      exact Part.path.inj h
    rw [Reference.eq_of_text_eq hx.1 hword htext]

/-- the nots before a clause -/
theorem nots_lexemes (hlegible : ∀ x ∈ xs, x.legible = true) : ∃ n zs, xs = List.replicate n notWord ++ zs ∧
    nots (xs.map Lexeme.part) = (n % 2 == 1, zs.map Lexeme.part) := by
  induction xs with
  | nil => exact ⟨0, [], rfl, rfl⟩
  | cons x xs ih =>
    rw [List.forall_mem_cons] at hlegible
    by_cases hnot : x.part = notWord.part
    · obtain ⟨n, zs, rfl, hnots⟩ := ih hlegible.2
      have hx : x = notWord := eq_word rfl hlegible.1 hnot
      refine ⟨n + 1, zs, by rw [hx, List.replicate_succ, List.cons_append], ?_⟩
      rw [List.map_cons, hx]
      exact nots_cons hnots
    · refine ⟨0, x :: xs, rfl, ?_⟩
      have hhead : (x.part :: xs.map Lexeme.part).head? ≠ some notWord.part := fun h => hnot (Option.some.inj h)
      exact nots_replicate 0 hhead

/-- **Reading a clause** takes the tokens of one. -/
theorem clause_takes (hlegible : ∀ x ∈ xs, x.legible = true) (hparted : Parted xs) :
    Takes ClauseTokens xs (clause ⟨false, names⟩ bound raw (xs.map Lexeme.part)) := by
  obtain ⟨n, zs, rfl, hnots⟩ := nots_lexemes hlegible
  rw [List.forall_mem_append] at hlegible
  have hleft : Takes OperandTokens zs (operand ⟨false, names⟩ bound raw (zs.map Lexeme.part)) :=
    operand_takes hlegible.2 (hparted.suffix _)
  unfold clause
  simp only [hnots]
  cases hread : operand ⟨false, names⟩ bound raw (zs.map Lexeme.part) with
  | error e =>
    rw [hread] at hleft
    exact hleft
  | ok r =>
    obtain ⟨left, ps⟩ := r
    rw [hread] at hleft
    obtain ⟨ys, us, rfl, rfl, hwanted⟩ := hleft
    simp only [ok_bind]
    by_cases hop : ∃ op vs, us = .operator op :: vs
    · obtain ⟨op, vs, rfl⟩ := hop
      obtain ⟨o, hfree, rfl⟩ | ⟨l, zs', hl⟩ := hwanted
      · rw [List.forall_mem_append, List.forall_mem_cons] at hlegible
        have hright : Takes OperandTokens vs (operand ⟨false, names⟩ bound raw (vs.map Lexeme.part)) :=
          operand_takes hlegible.2.2.2 (Parted.suffix [.operator op] ((hparted.suffix _).suffix _))
        simp only [List.map_cons, Lexeme.part]
        cases hread' : operand ⟨false, names⟩ bound raw (vs.map Lexeme.part) with
        | error e =>
          rw [hread'] at hright
          exact hright
        | ok r' =>
          obtain ⟨right, ps'⟩ := r'
          rw [hread'] at hright
          obtain ⟨ys', ws, rfl, rfl, hwanted'⟩ := hright
          refine ⟨List.replicate n notWord ++ (o.lexemes ++ .operator op :: ys'), ws, by simp, rfl, ?_⟩
          refine hwanted'.imp_left ?_
          rintro ⟨o', hfree', rfl⟩
          exact ⟨⟨n, o, some (op, o')⟩, by simp [ClauseText.free, hfree, hfree'], rfl⟩
      · cases hl
    · have hwanted' : ClauseTokens (List.replicate n notWord ++ ys) ∨ ∃ l zs', us = .literal l :: zs' := by
        refine hwanted.imp_left ?_
        rintro ⟨o, hfree, rfl⟩
        exact ⟨⟨n, o, none⟩, by simp [ClauseText.free, hfree], by simp [ClauseText.lexemes, ClauseText.rightLexemes]⟩
      split
      · rename_i op ps hus
        obtain ⟨u, us', rfl, hu, -⟩ := List.map_eq_cons_iff.1 hus
        cases u with
        | operator op' => exact absurd ⟨op', us', rfl⟩ hop
        | _ => cases hu
      · exact ⟨List.replicate n notWord ++ ys, us, by simp, rfl, hwanted'⟩

/-- the tokens of clauses, each behind its connective -/
def RestTokens (ys : List Lexeme) : Prop :=
  ∃ rest : List (Connective × ClauseText), (rest.all fun r => r.2.free) = true ∧ ConditionText.restLexemes rest = ys

/-- no connective is a literal -/
theorem restLexemes_ne_literal (rest : List (Connective × ClauseText)) (l : LiteralText) (zs : List Lexeme) :
    ConditionText.restLexemes rest ≠ .literal l :: zs := by
  cases rest with
  | nil => nofun
  | cons r rest =>
    obtain ⟨w, c⟩ := r
    cases w <;> nofun

theorem eq_connectiveWord {x : Lexeme} {w : Connective} (hx : x.legible = true) (h : connective? x.part = some w) :
    x = connectiveWord w := by
  unfold connective? at h
  split at h
  · rename_i s hs
    split at h
    · rename_i hand
      cases h
      rw [beq_iff_eq.1 hand] at hs
      exact eq_word rfl hx hs
    · split at h
      · rename_i hor
        cases h
        rw [beq_iff_eq.1 hor] at hs
        exact eq_word rfl hx hs
      · cases h
  · cases h

/-- **Reading clauses** fails for a malformed directive, or takes all tokens. -/
theorem clausesUpTo_takes {n : Nat} (hlegible : ∀ x ∈ xs, x.legible = true) (hparted : Parted xs) :
    match clausesUpTo ⟨false, names⟩ bound raw n (xs.map Lexeme.part) with
    | .error e => Malformed e
    | .ok _ => RestTokens xs := by
  induction n generalizing xs with
  | zero =>
    cases xs with
    | nil => exact ⟨[], rfl, rfl⟩
    | cons x xs => exact rfl
  | succ n ih =>
    cases xs with
    | nil => exact ⟨[], rfl, rfl⟩
    | cons x xs =>
      rw [List.forall_mem_cons] at hlegible
      rw [List.map_cons, clausesUpTo]
      cases hconnective : connective? x.part with
      | none => exact rfl
      | some w =>
        have hx : x = connectiveWord w := eq_connectiveWord hlegible.1 hconnective
        have hclause : Takes ClauseTokens xs (clause ⟨false, names⟩ bound raw (xs.map Lexeme.part)) :=
          clause_takes hlegible.2 (Parted.suffix [x] hparted)
        simp only
        cases hread : clause ⟨false, names⟩ bound raw (xs.map Lexeme.part) with
        | error e =>
          rw [hread] at hclause
          exact hclause
        | ok r =>
          obtain ⟨cl, ps⟩ := r
          rw [hread] at hclause
          obtain ⟨ys, zs, rfl, rfl, hwanted⟩ := hclause
          rw [List.forall_mem_append] at hlegible
          have hmore := ih hlegible.2.2 (Parted.suffix (x :: ys) hparted)
          simp only [ok_bind]
          cases hread' : clausesUpTo ⟨false, names⟩ bound raw n (zs.map Lexeme.part) with
          | error e =>
            rw [hread'] at hmore
            exact hmore
          | ok cs =>
            rw [hread'] at hmore
            obtain ⟨rest, hrest, rfl⟩ := hmore
            obtain ⟨c, hfree, rfl⟩ | ⟨l, zs', hl⟩ := hwanted
            · exact ⟨(w, c) :: rest, by simp [hfree, hrest], by simp [ConditionText.restLexemes, hx]⟩
            · exact absurd hl (restLexemes_ne_literal rest l zs')

/-- **Tokens that are read as a condition** are those of a tree; all others are malformed. -/
theorem conditionOf_takes (hlegible : ∀ x ∈ xs, x.legible = true) (hparted : Parted xs) :
    match conditionOf ⟨false, names⟩ bound raw (xs.map Lexeme.part) with
    | .error e => Malformed e
    | .ok _ => Derives xs := by
  have hclause : Takes ClauseTokens xs (clause ⟨false, names⟩ bound raw (xs.map Lexeme.part)) :=
    clause_takes hlegible hparted
  unfold conditionOf
  cases hread : clause ⟨false, names⟩ bound raw (xs.map Lexeme.part) with
  | error e =>
    rw [hread] at hclause
    exact hclause
  | ok r =>
    obtain ⟨cl, ps⟩ := r
    rw [hread] at hclause
    obtain ⟨ys, zs, rfl, rfl, hwanted⟩ := hclause
    rw [List.forall_mem_append] at hlegible
    have hmore : match clausesUpTo ⟨false, names⟩ bound raw (zs.map Lexeme.part).length (zs.map Lexeme.part) with
        | .error e => Malformed e
        | .ok _ => RestTokens zs := clausesUpTo_takes hlegible.2 (hparted.suffix _)
    simp only [ok_bind]
    cases hread' : clausesUpTo ⟨false, names⟩ bound raw (zs.map Lexeme.part).length (zs.map Lexeme.part) with
    | error e =>
      rw [hread'] at hmore
      exact hmore
    | ok cs =>
      rw [hread'] at hmore
      obtain ⟨rest, hrest, rfl⟩ := hmore
      obtain ⟨c, hfree, rfl⟩ | ⟨l, zs', hl⟩ := hwanted
      · exact ⟨⟨c, rest⟩, by simp [ConditionText.free, hfree, hrest], rfl⟩
      · exact absurd hl (restLexemes_ne_literal rest l zs')

end

/-! ## What is accepted -/

/-- the tokens of a text can be read -/
theorem proper_of_tokens {s : Text} {xs : List Lexeme} (h : Tokens s xs) : ∀ x ∈ xs, x.proper = true := by
  induction h with
  | done _ => exact nofun
  | token _ taken _ ih => exact List.forall_mem_cons.2 ⟨taken.stands.proper, ih⟩

/-- only literals begin with a character outside ASCII -/
theorem literal_of_wide {x : Lexeme} {c : Char} {cs : Text} (hx : x.proper = true) (htext : x.text = c :: cs)
    (hc : 128 ≤ c.toNat) : ∃ l, x = .literal l := by
  cases x with
  | literal l => exact ⟨l, rfl⟩
  | operator op => cases op <;> cases htext <;> exact absurd hc (by decide)
  | fallback =>
    cases htext
    exact absurd hc (by decide)
  | path p =>
    have hbegins : Text.begins Text.isNameStart p.text = true := by simpa using begins_path hx []
    have hpath : p.text = c :: cs := htext
    rw [hpath, Text.begins_cons] at hbegins
    have := Text.toNat_of_isNameStart hbegins
    omega

/-- behind a path that is one of the words that are literals a word character goes on, which is outside ASCII -/
theorem wide_of_taken {p : PathText} {s rest : Text} (h : (Lexeme.path p).Taken s rest)
    (hword : Literal.isLiteral p.text = true) :
    ∃ c r, rest = c :: r ∧ Text.isWord c = true ∧ 128 ≤ c.toNat := by
  obtain hbad | hlongest := h.first
  · cases hbad
  have hp : p.proper = true := h.stands.proper
  have hbegins : Text.begins Text.isNameStart p.text = true := by simpa using begins_path hp []
  obtain ⟨w, hw, htext⟩ := word_of_isLiteral (Reference.solid_path hp) hbegins hword
  have hroot : p = ⟨w.1, []⟩ := by
    have hname : ∀ w ∈ Literal.words, (⟨w.1, []⟩ : PathText).proper = true := by decide
    refine Reference.eq_of_text_eq hp (hname w hw) (htext.symm.trans ?_)
    exact (List.append_nil w.1).symm
  -- the word does not end here, or it would be taken
  have hend : Literal.atWordEnd rest = false := by
    cases hatEnd : Literal.atWordEnd rest with
    | false => rfl
    | true =>
      have hstands : ∃ l, (Lexeme.literal l).isWord = true ∧ (Lexeme.literal l).StandsAt s rest := by
        have hs : s = w.1 ++ rest := by rw [h.stands.split, htext]; rfl
        rw [Literal.words, List.mem_cons, List.mem_cons, List.mem_singleton] at hw
        rcases hw with rfl | rfl | rfl
        · exact ⟨.bool true, rfl, rfl, hs, hatEnd⟩
        · exact ⟨.bool false, rfl, rfl, hs, hatEnd⟩
        · exact ⟨.null, rfl, rfl, hs, hatEnd⟩
      obtain ⟨l, hl, hstands⟩ := hstands
      rw [(hlongest _ rest hstands).1] at hl
      cases hl
  have hname : Text.begins Text.isNameChar rest = false := by
    have hpath : p.endsAt rest = true := by
      refine (Reference.endsAt_iff_longest hp).2 fun q r hq hs => ?_
      exact (hlongest (.path q) r ⟨hq, h.stands.split.trans hs, rfl⟩).2
    have h := (Reference.endsAt_iff.1 hpath).1
    rwa [hroot] at h
  cases rest with
  | nil => cases hend
  | cons c r =>
    have hc : Text.isWord c = true := by simpa [Literal.atWordEnd] using hend
    refine ⟨c, r, rfl, hc, ?_⟩
    by_contra hascii
    rw [Text.isWord, if_pos (by omega)] at hc
    rw [Text.begins_cons, hc] at hname
    cases hname

/-- a path that is one of the words that are literals has a literal behind it -/
theorem parted_of_tokens {s : Text} {xs : List Lexeme} (h : Tokens s xs) : Parted xs := by
  induction h with
  | done _ =>
    intro ys p zs hxs
    simp at hxs
  | token blank taken more ih =>
    intro ys p zs hxs hword
    cases ys with
    | cons y ys => exact ih ys p zs (List.cons.inj hxs).2 hword
    | nil =>
      obtain ⟨rfl, rfl⟩ := List.cons.inj hxs
      obtain ⟨c, r, hrest, hc, hwide⟩ := wide_of_taken taken hword
      have hblank : Text.isBlank c ≠ true := fun hblank => by
        rw [Text.isWord_of_isBlank hblank] at hc
        cases hc
      cases more with
      | done blank' => exact absurd (blank' c (by rw [hrest]; exact List.mem_cons_self)) hblank
      | token blank' taken' more' =>
        rename_i u t rest' y ys
        cases u with
        | cons b u =>
          obtain ⟨rfl, -⟩ := List.cons.inj hrest
          exact absurd (blank' b List.mem_cons_self) hblank
        | nil =>
          obtain ⟨d, ds, hd, -⟩ := lead_text taken'.stands.proper
          have hsplit : y.text ++ rest' = c :: r := taken'.stands.split.symm.trans hrest
          rw [hd] at hsplit
          obtain ⟨rfl, -⟩ := List.cons.inj hsplit
          obtain ⟨l, rfl⟩ := literal_of_wide taken'.stands.proper hd hwide
          exact ⟨l, ys, rfl⟩

/-- a text is the tokens that it has and the blanks before and behind them -/
theorem source_tokens {s : Text} {xs : List Lexeme} (h : Tokens s xs) : ∃ (gaps : List Text) (last : Text),
    gaps.length = xs.length ∧ (∀ g ∈ last :: gaps, ∀ c ∈ g, Text.isBlank c = true) ∧
      s = (List.zipWith (fun g x => g ++ Lexeme.text x) gaps xs).flatten ++ last := by
  induction h with
  | done blank => exact ⟨[], _, rfl, by simpa using blank, rfl⟩
  | token blank taken more ih =>
    rename_i u t rest x ys
    obtain ⟨gaps, last, hlength, hblank, hs⟩ := ih
    rw [List.forall_mem_cons] at hblank
    refine ⟨u :: gaps, last, by rw [List.length_cons, List.length_cons, hlength], ?_, ?_⟩
    · exact List.forall_mem_cons.2 ⟨hblank.1, List.forall_mem_cons.2 ⟨blank, hblank.2⟩⟩
    · rw [taken.stands.split, hs]
      simp

section

variable {names bound : List Text} {raw text : Text}

theorem legible_of_tokens {xs : List Lexeme} (h : Tokens text xs) (hshort : ∀ x ∈ xs, x.short = true) :
    ∀ x ∈ xs, x.legible = true := fun x hx => by
  rw [Lexeme.legible, proper_of_tokens h x hx, hshort x hx, Bool.and_self]

/-- a text is read as tokens that derive from the grammar, or it is malformed -/
theorem condition_takes (hshort : ∀ xs, Tokens text xs → ∀ x ∈ xs, x.short = true) :
    match condition ⟨false, names⟩ bound raw text with
    | .error e => Malformed e
    | .ok _ => ∃ xs, Tokens text xs ∧ Derives xs := by
  cases hparts : parts text with
  | error cause =>
    obtain ⟨t, rfl⟩ := partsUpTo_eq_error hparts
    rw [condition, hparts]
    exact rfl
  | ok ps =>
    obtain ⟨xs, hxs, rfl⟩ := parts_eq_ok_iff.1 hparts
    have htakes : match conditionOf ⟨false, names⟩ bound raw (xs.map Lexeme.part) with
        | .error e => Malformed e
        | .ok _ => Derives xs := conditionOf_takes (legible_of_tokens hxs (hshort xs hxs)) (parted_of_tokens hxs)
    rw [condition_eq hparts]
    cases hread : conditionOf ⟨false, names⟩ bound raw (xs.map Lexeme.part) with
    | error e =>
      rw [hread] at htakes
      exact htakes
    | ok k =>
      rw [hread] at htakes
      exact ⟨xs, hxs, htakes⟩

end

/-- **The conditions that are accepted** in safe mode are the texts whose tokens derive from the grammar, and nothing of
them is passed over; every other text is malformed. Integers and indexes have no more digits than are read. -/
theorem condition_accepts (names bound : List Text) (raw text : Text)
    (hshort : ∀ xs, Tokens text xs → ∀ x ∈ xs, x.short = true) :
    ((∃ k, condition ⟨false, names⟩ bound raw text = .ok k) ↔ ∃ xs, Tokens text xs ∧ Derives xs) ∧
    ((¬∃ xs, Tokens text xs ∧ Derives xs) → ∃ f, condition ⟨false, names⟩ bound raw text = .error (.fault f) ∧
      f.cause.kind = .malformed) ∧
    (∀ xs, Tokens text xs → ∃ (gaps : List Text) (last : Text), gaps.length = xs.length ∧
      (∀ g ∈ last :: gaps, ∀ c ∈ g, Text.isBlank c = true) ∧
        text = (List.zipWith (fun g x => g ++ Lexeme.text x) gaps xs).flatten ++ last) := by
  have htakes : match condition ⟨false, names⟩ bound raw text with
      | .error e => Malformed e
      | .ok _ => ∃ xs, Tokens text xs ∧ Derives xs := condition_takes hshort
  refine ⟨⟨?_, ?_⟩, ?_, fun xs => source_tokens⟩
  · rintro ⟨k, hk⟩
    rw [hk] at htakes
    exact htakes
  · rintro ⟨xs, hxs, c, hfree, rfl⟩
    exact ⟨c.condition, condition_of_tokens hfree (legible_of_tokens hxs (hshort _ hxs)) hxs⟩
  · intro hno
    cases hread : condition ⟨false, names⟩ bound raw text with
    | ok k =>
      rw [hread] at htakes
      exact absurd htakes hno
    | error e =>
      rw [hread] at htakes
      cases e with
      | fault f => exact ⟨f, rfl, htakes⟩
      | _ => exact htakes.elim

/-- a token that is no longer than an integer may be has no long integer -/
theorem Lexeme.short_of_length {x : Lexeme} (h : x.text.length ≤ digitLimit) : x.short = true := by
  cases x with
  | operator op => rfl
  | fallback => rfl
  | literal l =>
    cases l with
    | number negative whole fraction =>
      cases fraction with
      | some f => rfl
      | none =>
        have hlength : whole.length ≤ (LiteralText.number negative whole none).text.length := by
          simp [LiteralText.text]
          omega
        exact decide_eq_true (hlength.trans h)
    | _ => rfl
  | path p =>
    have hpath : (PathText.tail p.segments).length ≤ digitLimit := by
      have h' : p.text.length ≤ digitLimit := h
      rw [PathText.text, List.length_append] at h'
      omega
    refine List.all_eq_true.2 fun q hq => ?_
    have hq' : q.text.length ≤ (PathText.tail p.segments).length :=
      (List.sublist_flatten_of_mem (List.mem_map_of_mem hq)).length_le
    cases q with
    | name n => rfl
    | key mark k => rfl
    | dotIndex d =>
      have hd : d.length ≤ (SegmentText.dotIndex d).text.length := by simp [SegmentText.text]
      exact decide_eq_true (by omega)
    | index d =>
      have hd : d.length ≤ (SegmentText.index d).text.length := by
        simp [SegmentText.text]
        omega
      exact decide_eq_true (by omega)

theorem short_of_length {text : Text} {xs : List Lexeme} (h : Tokens text xs) (hlength : text.length ≤ digitLimit) :
    ∀ x ∈ xs, x.short = true := by
  induction h with
  | done _ => exact nofun
  | token blank taken more ih =>
    rw [taken.stands.split, List.length_append, List.length_append] at hlength
    exact List.forall_mem_cons.2 ⟨Lexeme.short_of_length (by omega), ih (by omega)⟩

/-- a comparison that is negated is accepted; a word that is a literal has no members -/
theorem accepts_negated_comparison :
    (∃ xs, Tokens "not user.age >= 18 and role ?? 'guest' != null " xs ∧ Derives xs) ∧
      ∃ f, condition ⟨false, []⟩ [] "if true.x" "true.x" = .error (.fault f) ∧ f.cause.kind = .malformed := by
  have hfirst := condition_accepts [] [] "if" "not user.age >= 18 and role ?? 'guest' != null "
    fun xs hxs => short_of_length hxs (by decide)
  have hsecond := condition_accepts [] [] "if true.x" "true.x" fun xs hxs => short_of_length hxs (by decide)
  refine ⟨hfirst.1.1 ?_, hsecond.2.1 fun h => ?_⟩
  · have hsome : ((condition ⟨false, []⟩ [] "if" "not user.age >= 18 and role ?? 'guest' != null ").toOption).isSome =
        true := by decide +kernel
    obtain ⟨k, hk⟩ := Option.isSome_iff_exists.1 hsome
    exact ⟨k, eq_ok_of_toOption hk⟩
  · obtain ⟨k, hk⟩ := hsecond.1.2 h
    have hnone : ((condition ⟨false, []⟩ [] "if true.x" "true.x").toOption).isSome = false := by decide
    rw [hk] at hnone
    cases hnone

end Stencil.Directive
