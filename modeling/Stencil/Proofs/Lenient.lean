/-
READING WITHOUT STRICTNESS. What a token asks for in strict mode is what it asks for in safe mode, but for the
interpolations without a fallback: they no longer demand a value. Nothing else of a token depends on the mode, on the
declared names or on the names that are bound.

- `read_lenient`: what a token asks for in some mode, relaxed, it asks for in safe mode.
- `read_safe`: in safe mode the names that are bound do not matter.
-/
import Stencil.Proofs.Instruction

namespace Stencil

/-- an expression that is nothing where it demanded a value -/
def Expr.relaxed : Expr → Expr
  | demand path _ => lookup path .null
  | e => e

/-- the same without a demand -/
def Act.relaxed : Act → Act
  | emit e => emit e.relaxed
  | a => a

/-- the same without a demand -/
def Instruction.relaxed : Instruction → Instruction
  | act a => act a.relaxed
  | i => i

namespace Directive

variable {m : Mode} {bound : List Text}

/-- in safe mode every name is known -/
theorem check_safe (names bound : List Text) (r : Reference) : Mode.check ⟨false, names⟩ bound r = .ok () := rfl

theorem value_relaxed {lenient : Bool} {source : Text} {e : Expr} (h : m.value bound lenient source = .ok e)
    (names bound' : List Text) (lenient' : Bool) :
    Mode.value ⟨false, names⟩ bound' lenient' source = .ok e.relaxed := by
  simp only [Mode.value, bind_eq_ok] at h ⊢
  obtain ⟨r, hr, -, -, h⟩ := h
  refine ⟨r, hr, (), check_safe names bound' r, ?_⟩
  cases hf : r.fallback with
  | some f =>
    simp only [hf, bind_eq_ok] at h ⊢
    obtain ⟨l, hl, h⟩ := h
    cases h
    exact ⟨l, hl, rfl⟩
  | none =>
    rw [hf] at h
    cases h
    by_cases hs : (m.strict && !lenient) = true
    · simp [hs, Expr.relaxed]
    · simp [hs, Expr.relaxed]

/-- a lenient reference demands nothing, and none does in safe mode -/
theorem relaxed_of_value {lenient : Bool} {source : Text} {e : Expr} (h : m.value bound lenient source = .ok e)
    (hl : lenient = true ∨ m.strict = false) : e.relaxed = e := by
  simp only [Mode.value, bind_eq_ok] at h
  obtain ⟨r, -, -, -, h⟩ := h
  cases hf : r.fallback with
  | some f =>
    simp only [hf, bind_eq_ok] at h
    obtain ⟨l, -, h⟩ := h
    cases h
    rfl
  | none =>
    rw [hf] at h
    cases h
    rcases hl with rfl | hm
    · simp [Expr.relaxed]
    · simp [hm, Expr.relaxed]

theorem value_lenient {source : Text} {e : Expr} (h : m.value bound true source = .ok e)
    (names bound' : List Text) : Mode.value ⟨false, names⟩ bound' true source = .ok e := by
  rw [value_relaxed h names bound' true, relaxed_of_value h (.inl rfl)]

theorem reached_lenient {source : Text} {path : List Segment} (h : m.reached bound source = .ok path)
    (names bound' : List Text) : Mode.reached ⟨false, names⟩ bound' source = .ok path := by
  simp only [Mode.reached, bind_eq_ok] at h ⊢
  obtain ⟨r, hr, -, -, h⟩ := h
  exact ⟨r, hr, (), check_safe names bound' r, h⟩

/-- the value of a literal or a lenient reference -/
theorem valueOrLiteral_lenient {source : Text} {e : Expr} (h : m.operand bound true source = .ok e)
    (names bound' : List Text) : Mode.operand ⟨false, names⟩ bound' true source = .ok e := by
  unfold Mode.operand at h ⊢
  split at h
  · rename_i hlit
    rw [if_pos hlit]
    exact h
  · rename_i hlit
    rw [if_neg hlit]
    exact value_lenient h names bound'

theorem operand_lenient {raw : Text} {ps : List Part} {p : Expr × List Part} (h : operand m bound raw ps = .ok p)
    (names bound' : List Text) : operand ⟨false, names⟩ bound' raw ps = .ok p := by
  unfold operand at h ⊢
  split at h
  · simp at h
  · rw [map_eq_ok] at h ⊢
    obtain ⟨e, he, rfl⟩ := h
    exact ⟨e, valueOrLiteral_lenient he names bound', rfl⟩
  · rename_i s rest
    split at h
    · simp at h
    · rename_i hw
      rw [if_neg hw]
      split at h
      · split at h
        · simp at h
        · split at h
          · rename_i hlit
            rw [map_eq_ok] at h
            obtain ⟨e, he, rfl⟩ := h
            simp only [hlit, if_true, valueOrLiteral_lenient he names bound', map_ok]
          · simp at h
      · rw [map_eq_ok] at h
        obtain ⟨e, he, rfl⟩ := h
        simp [valueOrLiteral_lenient he names bound']
  · simp at h

theorem clause_lenient {raw : Text} {ps : List Part} {p : Clause × List Part} (h : clause m bound raw ps = .ok p)
    (names bound' : List Text) : clause ⟨false, names⟩ bound' raw ps = .ok p := by
  simp only [clause, bind_eq_ok] at h ⊢
  obtain ⟨⟨left, rest⟩, hleft, h⟩ := h
  refine ⟨(left, rest), operand_lenient hleft names bound', ?_⟩
  simp only at h ⊢
  split at h
  · simp only [bind_eq_ok] at h ⊢
    obtain ⟨q, hq, h⟩ := h
    exact ⟨q, operand_lenient hq names bound', h⟩
  · exact h

theorem clausesUpTo_lenient {raw : Text} {n : Nat} {ps : List Part} {cs : List (Connective × Clause)}
    (h : clausesUpTo m bound raw n ps = .ok cs) (names bound' : List Text) :
    clausesUpTo ⟨false, names⟩ bound' raw n ps = .ok cs := by
  induction n generalizing ps cs with
  | zero =>
    cases ps with
    | nil => exact h
    | cons p ps => simp [clausesUpTo] at h
  | succ n ih =>
    cases ps with
    | nil => simpa [clausesUpTo] using h
    | cons p ps =>
      simp only [clausesUpTo] at h ⊢
      split at h
      · simp at h
      · simp only [bind_eq_ok] at h ⊢
        obtain ⟨q, hq, more, hmore, h⟩ := h
        exact ⟨q, clause_lenient hq names bound', more, ih hmore, h⟩

/-- a condition is the same in every mode -/
theorem condition_lenient {raw text : Text} {c : Condition} (h : condition m bound raw text = .ok c)
    (names bound' : List Text) : condition ⟨false, names⟩ bound' raw text = .ok c := by
  unfold condition at h ⊢
  split at h
  · simp at h
  · simp only [bind_eq_ok] at h ⊢
    obtain ⟨q, hq, more, hmore, h⟩ := h
    exact ⟨q, clause_lenient hq names bound', more, clausesUpTo_lenient hmore names bound', h⟩

end Directive

/-- what succeeds for each of a list succeeds alike for another function that agrees with it -/
theorem mapM_eq_ok {ε α β : Type} {f g : α → Except ε β} (hfg : ∀ a b, f a = .ok b → g a = .ok b) {as : List α}
    {bs : List β} (h : as.mapM f = .ok bs) : as.mapM g = .ok bs := by
  induction as generalizing bs with
  | nil => simpa using h
  | cons a as ih =>
    simp only [List.mapM_cons, bind_eq_ok] at h ⊢
    obtain ⟨b, hb, bs', hbs, h⟩ := h
    exact ⟨b, hfg a b hb, bs', ih hbs, h⟩

namespace Instruction

open Directive

variable {m : Mode} {bound : List Text} {t : Token} {i : Instruction}

theorem readParams_lenient {s : Text} {ps : List (Text × Expr)} (h : readParams m bound s = .ok ps)
    (names bound' : List Text) : readParams ⟨false, names⟩ bound' s = .ok ps := by
  refine mapM_eq_ok (fun p q hq => ?_) h
  rw [map_eq_ok] at hq ⊢
  obtain ⟨e, he, rfl⟩ := hq
  exact ⟨e, valueOrLiteral_lenient he names bound', rfl⟩

/-- **What a token asks for in some mode**, relaxed, it asks for in safe mode. -/
theorem read_lenient (h : read m bound t = .ok i) (names bound' : List Text) :
    read ⟨false, names⟩ bound' t = .ok i.relaxed := by
  unfold read at h ⊢
  cases hk : t.kind <;> simp only [hk] at h ⊢
  case literal => cases h; rfl
  case comment => cases h; rfl
  case interpolation =>
    simp only [bind_eq_ok] at h ⊢
    obtain ⟨e, he, h⟩ := h
    cases h
    exact ⟨e.relaxed, value_relaxed he names bound' false, rfl⟩
  case loop =>
    simp only [bind_eq_ok] at h ⊢
    obtain ⟨p, hp, path, hpath, e, he, h⟩ := h
    cases h
    exact ⟨p, hp, path, reached_lenient hpath names bound', e, value_lenient he names bound', rfl⟩
  case when =>
    simp only [bind_eq_ok] at h ⊢
    obtain ⟨text, htext, c, hc, h⟩ := h
    cases h
    exact ⟨text, htext, c, condition_lenient hc names bound', rfl⟩
  case elsewhen =>
    simp only [bind_eq_ok] at h ⊢
    obtain ⟨text, htext, c, hc, h⟩ := h
    cases h
    exact ⟨text, htext, c, condition_lenient hc names bound', rfl⟩
  case otherwise =>
    split at h
    · rename_i hraw
      cases h
      rw [if_pos hraw]
      rfl
    · simp [malformed] at h
  case capture =>
    simp only [bind_eq_ok] at h ⊢
    obtain ⟨name, hname, h⟩ := h
    cases h
    exact ⟨name, hname, rfl⟩
  case form =>
    simp only [bind_eq_ok] at h ⊢
    obtain ⟨p, hp, r, hr, e, he, h⟩ := h
    cases h
    exact ⟨p, hp, r, hr, e, value_lenient he names bound', rfl⟩
  case field =>
    simp only [bind_eq_ok] at h ⊢
    obtain ⟨p, hp, h⟩ := h
    cases h
    exact ⟨p, hp, rfl⟩
  case submit =>
    simp only [bind_eq_ok] at h ⊢
    obtain ⟨options, hoptions, h⟩ := h
    cases h
    exact ⟨options, hoptions, rfl⟩
  case button =>
    simp only [bind_eq_ok] at h ⊢
    obtain ⟨options, hoptions, h⟩ := h
    cases h
    exact ⟨options, hoptions, rfl⟩
  case generate =>
    simp only [bind_eq_ok] at h ⊢
    obtain ⟨p, hp, r, hr, e, he, h⟩ := h
    cases h
    exact ⟨p, hp, r, hr, e, value_lenient he names bound', rfl⟩
  case translate =>
    simp only [bind_eq_ok] at h ⊢
    obtain ⟨p, hp, ps, hps, h⟩ := h
    cases h
    exact ⟨p, hp, ps, readParams_lenient hps names bound', rfl⟩
  case closing =>
    unfold readClosing at h
    split at h
    · simp at h
    · rename_i name hname
      split at h
      · rename_i f hf
        cases h
        simp [readClosing, hname, hf, relaxed]
      · simp at h

/-- in safe mode nothing is demanded -/
theorem relaxed_of_safe (h : read m bound t = .ok i) (hm : m.strict = false) : i.relaxed = i := by
  cases i with
  | act a =>
    cases a with
    | emit e =>
      have hk : t.kind = .interpolation := by
        unfold read at h
        cases hk : t.kind <;> simp only [hk, bind_eq_ok] at h
        case interpolation => rfl
        case otherwise => split at h <;> simp [malformed] at h
        case closing =>
          unfold readClosing at h
          split at h
          · simp at h
          · split at h <;> simp at h
        all_goals simp at h
      simp only [read, hk, bind_eq_ok] at h
      obtain ⟨e', he, h⟩ := h
      cases h
      simp only [relaxed, Act.relaxed, relaxed_of_value he (.inr hm)]
    | _ => rfl
  | _ => rfl

/-- **In safe mode** what a token asks for does not depend on the names that are bound. -/
theorem read_safe {names bound' : List Text} (h : read ⟨false, names⟩ bound t = .ok i) :
    read ⟨false, names⟩ bound' t = .ok i := by
  rw [read_lenient h names bound', relaxed_of_safe h rfl]

end Instruction

end Stencil
