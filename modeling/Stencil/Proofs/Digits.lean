/-
LONG NUMBERS. Reading a directive fails with a fault that is not yet located, or because an integer has more digits than
are read. That integer stands in the text of the directive, since whatever a grammar takes out of a text stands in it.

- `LongNumber`: a text has more digits one behind the other than are read.
- `fails_parse`, `fails_value`, `fails_condition`: references, values and conditions fail for nothing else.
- `Compiler.fails_token`: compiling a token fails for nothing else.
-/
import Stencil.Proofs.Chunks
import Stencil.Proofs.Failing

namespace Stencil

/-- more digits one behind the other than an integer is read from -/
def LongNumber (s : Text) : Prop :=
  ∃ digits, digits <:+: s ∧ (∀ c ∈ digits, Text.isDigit c = true) ∧ digitLimit < digits.length

namespace Refusal

/-- a fault, or an integer of the text that has too many digits -/
def OfText (s : Text) : Refusal → Prop
  | .fault _ => True
  | .digitLimit => LongNumber s
  | _ => False

/-- a fault that nothing is told of where it stands, or an integer of the text that has too many digits -/
def Unplaced (s : Text) : Refusal → Prop
  | .fault f => f.place = none
  | .digitLimit => LongNumber s
  | _ => False

theorem Unplaced.ofText {s : Text} {e : Refusal} (h : e.Unplaced s) : e.OfText s := by
  cases e with
  | fault f => trivial
  | digitLimit => exact h
  | _ => exact h.elim

end Refusal

theorem LongNumber.mono {s t : Text} (h : LongNumber s) (hs : s <:+: t) : LongNumber t := by
  obtain ⟨digits, hdigits, hall, hlong⟩ := h
  exact ⟨digits, hdigits.trans hs, hall, hlong⟩

/-- a character that is no digit parts numbers -/
theorem LongNumber.of_append_cons {s t : Text} {c : Char} (hc : Text.isDigit c = false) (h : LongNumber (s ++ c :: t)) :
    LongNumber s ∨ LongNumber t := by
  obtain ⟨digits, hdigits, hall, hlong⟩ := h
  have hne : digits ≠ [] := by
    rintro rfl
    simp at hlong
  have hnot : c ∉ digits := fun hmem => by simp [hall c hmem] at hc
  rcases (Text.infix_append_cons hne hnot s t).1 hdigits with hs | ht
  · exact .inl ⟨digits, hs, hall, hlong⟩
  · exact .inr ⟨digits, ht, hall, hlong⟩

/-- a text that is no longer than an integer may be has no long number -/
theorem not_longNumber_of_length {s : Text} (h : s.length ≤ digitLimit) : ¬LongNumber s := by
  rintro ⟨digits, hdigits, -, hlong⟩
  have := hdigits.length_le
  omega

section

variable {ε α β : Type} {P Q : ε → Prop}

theorem Fails.mono {x : Except ε α} (h : Fails P x) (hpq : ∀ e, P e → Q e) : Fails Q x := fun e he => hpq e (h e he)

/-- as `fails_bind`, for what the first step has given -/
theorem fails_bind_ok {x : Except ε α} {f : α → Except ε β} (hx : Fails P x) (hf : ∀ a, x = .ok a → Fails P (f a)) :
    Fails P (x >>= f) := by
  cases x with
  | error e => exact fails_error (hx e rfl)
  | ok a => exact hf a rfl

theorem fails_mapM_mem {f : α → Except ε β} {as : List α} (hf : ∀ a ∈ as, Fails P (f a)) : Fails P (as.mapM f) := by
  induction as with
  | nil => exact fails_ok _
  | cons a as ih =>
    rw [List.mapM_cons]
    refine fails_bind (hf a List.mem_cons_self) fun _ => fails_bind ?_ fun _ => fails_ok _
    exact ih fun b hb => hf b (List.mem_cons_of_mem a hb)

end

section

variable {α : Type} {s t : Text}

theorem fails_fault (s : Text) (cause : Cause) {raw : Text} :
    Fails (Refusal.Unplaced s) (.error (.fault (.of cause raw)) : Except Refusal α) :=
  fails_error rfl

/-- what fails for a part of a text fails for the text -/
theorem fails_within {x : Except Refusal α} (h : Fails (Refusal.Unplaced s) x) (hs : LongNumber s → LongNumber t) :
    Fails (Refusal.Unplaced t) x := by
  refine h.mono fun e he => ?_
  cases e with
  | fault f => exact he
  | digitLimit => exact hs he
  | _ => exact he.elim

theorem fails_unplaced_mono {x : Except Refusal α} (h : Fails (Refusal.Unplaced s) x) (hs : s <:+: t) :
    Fails (Refusal.Unplaced t) x :=
  fails_within h fun hlong => hlong.mono hs

end

/-! ## What is taken out of a text -/

/-- the first of two results that there is, is one of them -/
theorem of_orElse {α : Type} {a b : Option α} {x : α} (h : (a <|> b) = some x) : a = some x ∨ b = some x := by
  rw [Option.orElse_eq_orElse, Option.orElse_eq_or, Option.or_eq_some_iff] at h
  exact h.imp id And.right

namespace Text

variable {s rest : Text}

theorem suffix_of_after? {mark : Text} (h : after? mark s = some rest) : rest <:+ s := ⟨mark, (eq_of_after? h).symm⟩

end Text

namespace Literal

variable {s rest : Text}

theorem suffix_of_afterDigits? (h : afterDigits? s = some rest) : rest <:+ s := by
  unfold afterDigits? at h
  split at h
  · split at h
    · cases h
      exact (List.dropWhile_suffix _).trans (List.suffix_cons _ _)
    · cases h
  · cases h

theorem suffix_of_afterNumber? (h : afterNumber? s = some rest) : rest <:+ s := by
  simp only [afterNumber?, Option.map_eq_some_iff] at h
  obtain ⟨r, hr, h⟩ := h
  have hwhole : r <:+ s := by
    split at hr
    · exact (suffix_of_afterDigits? hr).trans (List.suffix_cons _ _)
    · exact suffix_of_afterDigits? hr
  refine List.IsSuffix.trans ?_ hwhole
  split at h
  · rename_i cs
    cases hcs : afterDigits? cs with
    | none =>
      rw [hcs] at h
      exact h ▸ List.suffix_refl _
    | some r' =>
      rw [hcs] at h
      exact h ▸ (suffix_of_afterDigits? hcs).trans (List.suffix_cons _ _)
  · exact h ▸ List.suffix_refl _

theorem suffix_of_afterQuoted? {mark : Char} (h : afterQuoted? mark s = some rest) : rest <:+ s := by
  unfold afterQuoted? at h
  split at h
  · rename_i c cs
    split at h
    · split at h
      · rename_i q r hq
        cases h
        have hdrop : q :: rest <:+ cs := hq ▸ List.dropWhile_suffix _
        exact ((List.suffix_cons q rest).trans hdrop).trans (List.suffix_cons c cs)
      · cases h
    · cases h
  · cases h

theorem suffix_of_afterKeyword? (h : afterKeyword? s = some rest) : rest <:+ s := by
  obtain ⟨w, -, h⟩ := List.exists_of_findSome?_eq_some h
  exact Text.suffix_of_after? (Option.filter_eq_some_iff.1 h).1

theorem suffix_of_after? (h : after? s = some rest) : rest <:+ s := by
  rcases of_orElse h with h | h
  · exact suffix_of_afterQuoted? h
  rcases of_orElse h with h | h
  · exact suffix_of_afterQuoted? h
  rcases of_orElse h with h | h
  · exact suffix_of_afterNumber? h
  · exact suffix_of_afterKeyword? h

/-- a literal stands at the beginning of a text, and what follows it at the end -/
theorem of_take? {l : Text} (h : take? s = some (l, rest)) : l <+: s ∧ rest <:+ s := by
  simp only [take?, Option.map_eq_some_iff, Prod.mk.injEq] at h
  obtain ⟨r, hr, rfl, rfl⟩ := h
  exact ⟨List.take_prefix _ _, suffix_of_after? hr⟩

theorem suffix_of_unsigned (s : Text) : (unsigned s).2 <:+ s := by
  unfold unsigned
  split
  · exact List.suffix_cons _ _
  · exact List.suffix_refl _

theorem digits_of_areDigits (h : areDigits s = true) : ∀ c ∈ s, Text.isDigit c = true := by
  rw [areDigits, Bool.and_eq_true, List.all_eq_true] at h
  exact h.2

/-- **A literal** fails with a fault, or for an integer in its text. -/
theorem fails_parse (source : Text) : Fails (Refusal.Unplaced source) (parse source) := by
  unfold parse
  simp only
  split
  · exact fails_ok _
  · split
    · exact fails_ok _
    · split
      · rename_i hdigits
        split
        · rename_i hlong
          -- the digits stand in the text behind the sign
          have hin : (unsigned (Text.strip source)).2 <:+: source :=
            (suffix_of_unsigned _).isInfix.trans (Text.isInfix_strip source)
          exact fails_error ⟨_, hin, digits_of_areDigits hdigits, hlong⟩
        · exact fails_ok _
      · split
        · exact fails_ok _
        · exact fails_fault _ _

end Literal

namespace Reference

variable {s rest : Text}

theorem suffix_of_name? {n : Text} (h : name? s = some (n, rest)) : rest <:+ s := by
  unfold name? at h
  split at h
  · rename_i c cs
    split at h
    · cases h
      exact (List.dropWhile_suffix _).trans (List.suffix_cons c cs)
    · cases h
  · cases h

/-- digits stand at the beginning of a text, and what follows them at the end -/
theorem of_digits? {d : Text} (h : digits? s = some (d, rest)) :
    d <+: s ∧ rest <:+ s ∧ ∀ c ∈ d, Text.isDigit c = true := by
  unfold digits? at h
  split at h
  · rename_i c cs
    split at h
    · rename_i hc
      cases h
      refine ⟨?_, (List.dropWhile_suffix _).trans (List.suffix_cons c cs), ?_⟩
      · exact List.cons_prefix_cons.2 ⟨rfl, List.takeWhile_prefix _⟩
      · exact List.forall_mem_cons.2 ⟨hc, fun d hd => List.mem_takeWhile_imp hd⟩
    · cases h
  · cases h

theorem suffix_of_key? {mark : Char} {p : SegmentText} (h : key? mark s = some (p, rest)) :
    rest <:+ s ∧ ∃ name, p = .key mark name := by
  simp only [key?] at h
  split at h
  · rename_i c cs hdrop
    split at h
    · rw [Option.map_eq_some_iff] at h
      obtain ⟨r, hr, h⟩ := h
      cases h
      have hcs : c :: cs <:+ s := hdrop ▸ List.dropWhile_suffix _
      exact ⟨((Text.suffix_of_after? hr).trans (List.suffix_cons c cs)).trans hcs, _, rfl⟩
    · cases h
  · cases h

theorem fails_indexOf {d : Text} (hd : d <:+: s) (hall : ∀ c ∈ d, Text.isDigit c = true) :
    Fails (Refusal.Unplaced s) (indexOf d) := by
  unfold indexOf
  split
  · rename_i hlong
    exact fails_error ⟨d, hd, hall, hlong⟩
  · exact fails_ok _

/-- a segment fails only for an index in its text, and what follows it stands at the end -/
theorem of_segment? {p : SegmentText} (h : segment? s = some (p, rest)) :
    rest <:+ s ∧ Fails (Refusal.Unplaced s) (segmentOf p) := by
  unfold segment? at h
  split at h
  · rename_i cs
    have hcs : cs <:+ '.' :: cs := List.suffix_cons _ _
    split at h
    · rename_i n r hn
      cases h
      exact ⟨(suffix_of_name? hn).trans hcs, fails_ok _⟩
    · rw [Option.map_eq_some_iff] at h
      obtain ⟨⟨d, r⟩, hd, h⟩ := h
      cases h
      obtain ⟨hin, hrest, hall⟩ := of_digits? hd
      exact ⟨hrest.trans hcs, fails_indexOf (hin.isInfix.trans hcs.isInfix) hall⟩
  · obtain ⟨hrest, name, rfl⟩ := suffix_of_key? h
    exact ⟨(hrest.trans (List.suffix_cons _ _)).trans (List.suffix_cons _ _), fails_ok _⟩
  · obtain ⟨hrest, name, rfl⟩ := suffix_of_key? h
    exact ⟨(hrest.trans (List.suffix_cons _ _)).trans (List.suffix_cons _ _), fails_ok _⟩
  · rename_i cs _ _
    have hcs : cs <:+ '[' :: cs := List.suffix_cons _ _
    simp only [Option.bind_eq_some_iff, Option.map_eq_some_iff] at h
    obtain ⟨⟨d, r⟩, hd, r', hr, h⟩ := h
    cases h
    obtain ⟨hin, hrest, hall⟩ := of_digits? hd
    exact ⟨((Text.suffix_of_after? hr).trans hrest).trans hcs, fails_indexOf (hin.isInfix.trans hcs.isInfix) hall⟩
  · cases h

theorem of_segmentTexts (s : Text) :
    (segmentTexts s).2 <:+ s ∧ ∀ p ∈ (segmentTexts s).1, Fails (Refusal.Unplaced s) (segmentOf p) := by
  fun_induction segmentTexts s with
  | case1 s h => exact ⟨List.suffix_refl s, by simp⟩
  | case2 s p rest h ps after hmore ih =>
    rw [hmore] at ih
    obtain ⟨hrest, hp⟩ := of_segment? h
    refine ⟨ih.1.trans hrest, List.forall_mem_cons.2 ⟨hp, fun q hq => ?_⟩⟩
    exact fails_unplaced_mono (ih.2 q hq) hrest.isInfix

/-- the segments of a path fail only for its text, and what follows it stands at the end -/
theorem of_path? {root : Text} {ps : List SegmentText} (h : path? s = some (root, ps, rest)) :
    rest <:+ s ∧ ∀ p ∈ ps, Fails (Refusal.Unplaced s) (segmentOf p) := by
  simp only [path?, Option.map_eq_some_iff] at h
  obtain ⟨⟨n, r⟩, hn, h⟩ := h
  cases h
  have hr := suffix_of_name? hn
  obtain ⟨hrest, hps⟩ := of_segmentTexts r
  exact ⟨hrest.trans hr, fun p hp => fails_unplaced_mono (hps p hp) hr.isInfix⟩

/-- a path stands at the beginning of a text, and what follows it at the end -/
theorem of_takePath? {p : Text} (h : takePath? s = some (p, rest)) : p <+: s ∧ rest <:+ s := by
  simp only [takePath?, Option.map_eq_some_iff] at h
  obtain ⟨⟨root, ps, r⟩, hpath, h⟩ := h
  cases h
  exact ⟨List.take_prefix _ _, (of_path? hpath).1⟩

/-- a fallback stands in the text -/
theorem infix_of_fallback? {l : Text} (h : fallback? s = some (l, rest)) : l <:+: s := by
  simp only [fallback?, Option.bind_eq_some_iff] at h
  obtain ⟨r, hr, htake⟩ := h
  have hr : r <:+ s := (Text.suffix_of_after? hr).trans (List.dropWhile_suffix _)
  exact (Literal.of_take? htake).1.isInfix.trans ((List.dropWhile_suffix _).trans hr).isInfix

/-- the segments and the fallback of a reference are its own -/
theorem of_grammar? {root : Text} {ps : List SegmentText} {fallback : Option Text}
    (h : grammar? s = some (root, ps, fallback)) :
    (∀ p ∈ ps, Fails (Refusal.Unplaced s) (segmentOf p)) ∧ ∀ l ∈ fallback, l <:+: s := by
  simp only [grammar?, Option.bind_eq_some_iff] at h
  obtain ⟨⟨root', ps', rest⟩, hpath, h⟩ := h
  obtain ⟨hrest, hps⟩ := of_path? hpath
  split at h
  · cases h
    exact ⟨hps, by simp⟩
  · rw [Option.bind_eq_some_iff] at h
    obtain ⟨⟨l, after⟩, hl, h⟩ := h
    split at h
    · cases h
      refine ⟨hps, fun l' hl' => ?_⟩
      cases hl'
      exact (infix_of_fallback? hl).trans hrest.isInfix
    · cases h

/-- **A reference** fails with a fault, or for an index in its text. -/
theorem fails_parse (source : Text) : Fails (Refusal.Unplaced source) (parse source) := by
  unfold parse
  simp only
  split
  · exact fails_fault _ _
  · rename_i root ps fallback hgrammar
    have hsegments := fails_mapM_mem (of_grammar? hgrammar).1
    split
    · exact fails_ok _
    · rename_i e he
      exact fails_unplaced_mono (fails_error (hsegments e he)) (Text.isInfix_strip source)

/-- the fallback of a reference stands in its text -/
theorem infix_of_parse {source l : Text} {r : Reference} (h : parse source = .ok r) (hl : l ∈ r.fallback) :
    l <:+: source := by
  unfold parse at h
  simp only at h
  split at h
  · cases h
  · rename_i root ps fallback hgrammar
    split at h
    · cases h
      exact ((of_grammar? hgrammar).2 l hl).trans (Text.isInfix_strip source)
    · cases h

end Reference

/-! ## Values and conditions -/

namespace Directive

variable {m : Mode} {bound : List Text}

namespace Mode

theorem fails_check (s : Text) (r : Reference) : Fails (Refusal.Unplaced s) (m.check bound r) := by
  unfold check
  split
  · exact fails_fault _ _
  · exact fails_ok _

/-- **The value of a reference** fails with a fault, or for an integer in its text. -/
theorem fails_value (lenient : Bool) (source : Text) :
    Fails (Refusal.Unplaced source) (m.value bound lenient source) := by
  refine fails_bind_ok (Reference.fails_parse source) fun r hr => fails_bind (fails_check source r) fun _ => ?_
  cases hf : r.fallback with
  | none => exact fails_ok _
  | some l =>
    have hl : l <:+: source := Reference.infix_of_parse hr hf
    exact fails_bind (fails_unplaced_mono (Literal.fails_parse l) hl) fun _ => fails_ok _

theorem fails_reached (source : Text) : Fails (Refusal.Unplaced source) (m.reached bound source) :=
  fails_bind (Reference.fails_parse source) fun r => fails_bind (fails_check source r) fun _ => fails_ok _

theorem fails_operand (lenient : Bool) (source : Text) :
    Fails (Refusal.Unplaced source) (m.operand bound lenient source) := by
  unfold operand
  split
  · exact fails_map (Literal.fails_parse source) _
  · exact fails_value lenient source

end Mode

/-- tokens of a condition whose numbers stand in a text -/
def PartsOf (s : Text) (ps : List Part) : Prop := ∀ p ∈ ps, LongNumber p.text → LongNumber s

variable {s raw rest : Text} {ps : List Part}

theorem PartsOf.suffix {ps' : List Part} (h : PartsOf s ps) (hps : ps' <:+ ps) : PartsOf s ps' :=
  fun p hp => h p (hps.subset hp)

theorem suffix_of_afterOperand? (h : afterOperand? s = some rest) : rest <:+ s := by
  rcases of_orElse h with h | h
  · exact Literal.suffix_of_afterQuoted? h
  rcases of_orElse h with h | h
  · exact Literal.suffix_of_afterQuoted? h
  rcases of_orElse h with h | h
  · exact Literal.suffix_of_afterNumber? (Option.filter_eq_some_iff.1 h).1
  · exact Literal.suffix_of_afterKeyword? h

/-- a token of a condition has the numbers of its text, and what follows it stands at the end -/
theorem of_part? {p : Part} (h : part? s = some (p, rest)) : rest <:+ s ∧ (LongNumber p.text → LongNumber s) := by
  rcases of_orElse h with h | h
  · rw [Option.map_eq_some_iff] at h
    obtain ⟨r, hr, h⟩ := h
    cases h
    exact ⟨suffix_of_afterOperand? hr, fun hlong => hlong.mono (List.take_prefix _ _).isInfix⟩
  rcases of_orElse h with h | h
  · rw [Option.map_eq_some_iff] at h
    obtain ⟨⟨op, r⟩, hop, h⟩ := h
    cases h
    obtain ⟨op', -, hop⟩ := List.exists_of_findSome?_eq_some hop
    rw [Option.map_eq_some_iff] at hop
    obtain ⟨r', hr, hop⟩ := hop
    cases hop
    refine ⟨Text.suffix_of_after? hr, fun hlong => absurd hlong (not_longNumber_of_length ?_)⟩
    show op.text.length ≤ digitLimit
    cases op <;> decide
  rcases of_orElse h with h | h
  · rw [Option.map_eq_some_iff] at h
    obtain ⟨r, hr, h⟩ := h
    cases h
    exact ⟨Text.suffix_of_after? hr, fun hlong => absurd hlong (not_longNumber_of_length (by decide))⟩
  · rw [Option.map_eq_some_iff] at h
    obtain ⟨⟨path, r⟩, hpath, h⟩ := h
    cases h
    obtain ⟨hin, hrest⟩ := Reference.of_takePath? hpath
    exact ⟨hrest, fun hlong => hlong.mono hin.isInfix⟩

section

-- unfolded, the token that a text begins with takes the equation beyond what is checked in time
attribute [local irreducible] part?

theorem partsUpTo_cons (n : Nat) (c : Char) (cs : Text) :
    partsUpTo (n + 1) (c :: cs) =
      match part? ((c :: cs).dropWhile Text.isBlank) with
      | none => .error (.invalidCondition (Text.strip (c :: cs)))
      | some (p, rest) => (partsUpTo n rest).map (p :: ·) := rfl

end

theorem partsOf_of_partsUpTo {n : Nat} (h : partsUpTo n s = .ok ps) : PartsOf s ps := by
  induction n generalizing s ps with
  | zero =>
    cases s with
    | nil =>
      cases h
      exact fun p hp => by simp at hp
    | cons c cs => cases h
  | succ n ih =>
    cases s with
    | nil =>
      cases h
      exact fun p hp => by simp at hp
    | cons c cs =>
      rw [partsUpTo_cons] at h
      cases hp : part? ((c :: cs).dropWhile Text.isBlank) with
      | none => simp [hp] at h
      | some q =>
        simp only [hp, map_eq_ok] at h
        obtain ⟨qs, hqs, rfl⟩ := h
        obtain ⟨hrest, hnumber⟩ := of_part? hp
        have hdrop : (c :: cs).dropWhile Text.isBlank <:+ c :: cs := List.dropWhile_suffix _
        refine List.forall_mem_cons.2 ⟨fun hlong => (hnumber hlong).mono hdrop.isInfix, fun p hp hlong => ?_⟩
        exact (ih hqs p hp hlong).mono (hrest.trans hdrop).isInfix

theorem partsOf_of_parts {text : Text} (h : parts text = .ok ps) : PartsOf text ps :=
  fun p hp hlong => (partsOf_of_partsUpTo h p hp hlong).mono (Text.isPrefix_stripEnd text).isInfix

/-- a reference and a fallback joined have the numbers of the two -/
theorem longNumber_of_fallback {p l : Text} (h : LongNumber (Text.cat [p, " ?? ", l])) :
    LongNumber p ∨ LongNumber l := by
  have hjoined : Text.cat [p, " ?? ", l] = p ++ ' ' :: ([] ++ '?' :: ([] ++ '?' :: ([] ++ ' ' :: l))) := by
    simp [Text.cat]
  have hnil : ¬LongNumber [] := not_longNumber_of_length (Nat.zero_le _)
  rw [hjoined] at h
  refine (h.of_append_cons (by decide)).imp id fun h => ?_
  have h := (h.of_append_cons (by decide)).resolve_left hnil
  have h := (h.of_append_cons (by decide)).resolve_left hnil
  exact (h.of_append_cons (by decide)).resolve_left hnil

/-- an operand fails with a fault, or for an integer in the text of its condition -/
theorem fails_operand (h : PartsOf raw ps) : Fails (Refusal.Unplaced raw) (operand m bound raw ps) := by
  unfold operand
  split
  · exact fails_fault _ _
  · rename_i l rest
    exact fails_map (fails_within (Mode.fails_operand true l) (h (.literal l) List.mem_cons_self)) _
  · rename_i path rest
    have hpath : LongNumber path → LongNumber raw := h (.path path) List.mem_cons_self
    split
    · exact fails_fault _ _
    · split
      · split
        · exact fails_fault _ _
        · rename_i p rest
          split
          · refine fails_map (fails_within (Mode.fails_operand true _) fun hlong => ?_) _
            rcases longNumber_of_fallback hlong with hlong | hlong
            · exact hpath hlong
            · exact h p (by simp) hlong
          · exact fails_fault _ _
      · exact fails_map (fails_within (Mode.fails_operand true path) hpath) _
  · exact fails_fault _ _

theorem suffix_of_operand {p : Expr × List Part} (h : operand m bound raw ps = .ok p) : p.2 <:+ ps := by
  have hmap : ∀ {source : Text} {rest : List Part},
      (m.operand bound true source).map (fun e => (e, rest)) = .ok p → p.2 = rest := by
    intro source rest h
    rw [map_eq_ok] at h
    obtain ⟨e, -, rfl⟩ := h
    rfl
  unfold operand at h
  split at h
  · cases h
  · rename_i l rest
    rw [hmap h]
    exact List.suffix_cons _ _
  · rename_i path rest
    split at h
    · cases h
    · split at h
      · split at h
        · cases h
        · rename_i p' rest
          split at h
          · rw [hmap h]
            exact ((List.suffix_cons p' rest).trans (List.suffix_cons _ _)).trans (List.suffix_cons _ _)
          · cases h
      · rw [hmap h]
        exact List.suffix_cons _ _
  · cases h

theorem suffix_of_nots (ps : List Part) : (nots ps).2 <:+ ps := by
  fun_induction nots ps with
  | case1 path rest hnot negated after hafter ih =>
    rw [hafter] at ih
    exact ih.trans (List.suffix_cons _ _)
  | case2 path rest hnot => exact List.suffix_refl _
  | case3 ps h => exact List.suffix_refl _

theorem fails_clause (h : PartsOf raw ps) : Fails (Refusal.Unplaced raw) (clause m bound raw ps) := by
  have hnots := h.suffix (suffix_of_nots ps)
  unfold clause
  refine fails_bind_ok (fails_operand hnots) fun p hp => ?_
  obtain ⟨left, rest⟩ := p
  have hrest : PartsOf raw rest := hnots.suffix (suffix_of_operand hp)
  simp only
  split
  · rename_i op more
    exact fails_bind (fails_operand (hrest.suffix (List.suffix_cons _ more))) fun _ => fails_ok _
  · exact fails_ok _

theorem suffix_of_clause {p : Clause × List Part} (h : clause m bound raw ps = .ok p) : p.2 <:+ ps := by
  simp only [clause, bind_eq_ok] at h
  obtain ⟨⟨left, rest⟩, hleft, h⟩ := h
  have hrest : rest <:+ ps := (suffix_of_operand hleft).trans (suffix_of_nots ps)
  simp only at h
  split at h
  · simp only [bind_eq_ok] at h
    obtain ⟨q, hq, h⟩ := h
    cases h
    exact ((suffix_of_operand hq).trans (List.suffix_cons _ _)).trans hrest
  · cases h
    exact hrest

theorem fails_clausesUpTo {n : Nat} (h : PartsOf raw ps) :
    Fails (Refusal.Unplaced raw) (clausesUpTo m bound raw n ps) := by
  induction n generalizing ps with
  | zero =>
    cases ps with
    | nil => exact fails_ok _
    | cons p ps => exact fails_fault _ _
  | succ n ih =>
    cases ps with
    | nil => exact fails_ok _
    | cons p ps =>
      rw [clausesUpTo]
      have hps := h.suffix (List.suffix_cons p ps)
      split
      · exact fails_fault _ _
      · refine fails_bind_ok (fails_clause hps) fun q hq => ?_
        exact fails_bind (ih (hps.suffix (suffix_of_clause hq))) fun _ => fails_ok _

/-- **A condition** fails with a fault, or for an integer in the text of its directive. -/
theorem fails_condition {text : Text} (htext : text <:+: raw) :
    Fails (Refusal.Unplaced raw) (condition m bound raw text) := by
  unfold condition
  split
  · exact fails_fault _ _
  · rename_i ps hps
    have hparts : PartsOf raw ps := fun p hp hlong => (partsOf_of_parts hps p hp hlong).mono htext
    refine fails_bind_ok (fails_clause hparts) fun p hp => ?_
    exact fails_bind (fails_clausesUpTo (hparts.suffix (suffix_of_clause hp))) fun _ => fails_ok _

/-! ## Directives -/

theorem suffix_of_afterBlanks? (h : afterBlanks? s = some rest) : rest <:+ s := by
  unfold afterBlanks? at h
  split at h
  · split at h
    · cases h
      exact (List.dropWhile_suffix _).trans (List.suffix_cons _ _)
    · cases h
  · cases h

theorem suffix_of_afterWord? {word : Text} (h : afterWord? word s = some rest) : rest <:+ s := by
  rw [afterWord?, Option.bind_eq_some_iff] at h
  obtain ⟨r, hr, h⟩ := h
  exact (suffix_of_afterBlanks? h).trans (Text.suffix_of_after? hr)

theorem suffix_of_afterBlanksSome? (h : afterBlanksSome? s = some rest) : rest <:+ s := by
  rw [afterBlanksSome?, Option.bind_eq_some_iff] at h
  obtain ⟨r, hr, h⟩ := h
  split at h
  · split at h
    · cases h
      exact List.drop_suffix _ _
    · cases h
  · cases h
    exact suffix_of_afterBlanks? hr

theorem suffix_of_secondName? {n : Text} (h : secondName? s = some (n, rest)) : rest <:+ s := by
  rw [secondName?, Option.bind_eq_some_iff] at h
  obtain ⟨r, hr, h⟩ := h
  have hr : r <:+ s := (Text.suffix_of_after? hr).trans (List.dropWhile_suffix _)
  exact ((Reference.suffix_of_name? h).trans (List.dropWhile_suffix _)).trans hr

theorem infix_of_loopPath? {p : Text} (h : loopPath? s = some p) : p <:+: s := by
  simp only [loopPath?, Option.bind_eq_some_iff] at h
  obtain ⟨q, ⟨r, ⟨r', hr', hr⟩, hq⟩, h⟩ := h
  split at h
  · cases h
    have hr : r <:+ s := (suffix_of_afterWord? hr).trans (suffix_of_afterBlanks? hr')
    exact (Reference.of_takePath? hq).1.isInfix.trans hr.isInfix
  · cases h

/-- the path of a loop stands in its directive -/
theorem infix_of_loop? {p : LoopParts} (h : loop? s = some p) : p.path <:+: s := by
  simp only [loop?, Option.bind_eq_some_iff] at h
  obtain ⟨r, hr, ⟨n, r'⟩, hn, h⟩ := h
  have hr' : r' <:+ s := (Reference.suffix_of_name? hn).trans (suffix_of_afterWord? hr)
  split at h
  · rename_i k r'' hk
    rw [Option.map_eq_some_iff] at h
    obtain ⟨path, hpath, rfl⟩ := h
    exact (infix_of_loopPath? hpath).trans ((suffix_of_secondName? hk).trans hr').isInfix
  · rw [Option.map_eq_some_iff] at h
    obtain ⟨path, hpath, rfl⟩ := h
    exact (infix_of_loopPath? hpath).trans hr'.isInfix

/-- the condition of a branch stands in its directive -/
theorem infix_of_when? {text : Text} (h : when? s = some text) : text <:+: s := by
  rw [when?, Option.bind_eq_some_iff] at h
  obtain ⟨r, hr, h⟩ := h
  exact ((suffix_of_afterBlanksSome? h).trans (Text.suffix_of_after? hr)).isInfix

theorem infix_of_elsewhen? {text : Text} (h : elsewhen? s = some text) : text <:+: s := by
  rcases of_orElse h with h | h
  · rw [Option.bind_eq_some_iff] at h
    obtain ⟨r, hr, h⟩ := h
    exact ((suffix_of_afterBlanksSome? h).trans (Text.suffix_of_after? hr)).isInfix
  · simp only [Option.bind_eq_some_iff] at h
    obtain ⟨r, ⟨r', hr', hr⟩, h⟩ := h
    exact ((suffix_of_afterBlanksSome? h).trans ((Text.suffix_of_after? hr).trans (suffix_of_afterWord? hr'))).isInfix

theorem infix_of_pathAndOptions? {word : Option Text} {p : Optioned} (h : pathAndOptions? word s = some p) :
    p.subject <:+: s := by
  rw [pathAndOptions?, Option.bind_eq_some_iff] at h
  obtain ⟨q, hq, h⟩ := h
  split at h
  · cases h
    exact (Reference.of_takePath? hq).1.isInfix
  · cases h

/-- the entity of a form stands in its directive -/
theorem infix_of_form? {p : Optioned} (h : form? s = some p) : p.subject <:+: s := by
  rw [form?, Option.bind_eq_some_iff] at h
  obtain ⟨r, hr, h⟩ := h
  exact (infix_of_pathAndOptions? h).trans (suffix_of_afterWord? hr).isInfix

theorem infix_of_generate? {p : Optioned} (h : generate? s = some p) : p.subject <:+: s := by
  rw [generate?, Option.bind_eq_some_iff] at h
  obtain ⟨r, hr, h⟩ := h
  exact (infix_of_pathAndOptions? h).trans (suffix_of_afterWord? hr).isInfix

theorem infix_of_phrase? {p : PhraseParts} (h : phrase? s = some p) : p.params <:+: s := by
  rw [phrase?, Option.bind_eq_some_iff] at h
  obtain ⟨r, hr, h⟩ := h
  split at h
  · rename_i c cs
    simp only at h
    split at h
    · cases h
      exact ((List.dropWhile_suffix _).trans ((List.suffix_cons c cs).trans (suffix_of_afterWord? hr))).isInfix
    · cases h
  · cases h

theorem of_takeOperand? {v : Text} (h : takeOperand? s = some (v, rest)) : v <:+: s ∧ rest <:+ s := by
  rcases of_orElse h with h | h
  · exact (Literal.of_take? h).imp_left List.IsPrefix.isInfix
  · exact (Reference.of_takePath? h).imp_left List.IsPrefix.isInfix

theorem of_param? {p : Text × Text} (h : param? s = some (p, rest)) : p.2 <:+: s ∧ rest <:+ s := by
  simp only [param?, afterEquals?, Option.bind_eq_some_iff, Option.map_eq_some_iff] at h
  obtain ⟨⟨n, r⟩, ⟨⟨n', r₁⟩, hn, r₂, hr₂, hr⟩, ⟨v, r₃⟩, hv, h⟩ := h
  cases h
  cases hr
  have hr : r₂.dropWhile Text.isBlank <:+ s := (List.dropWhile_suffix _).trans ((Text.suffix_of_after? hr₂).trans
    ((List.dropWhile_suffix _).trans (Reference.suffix_of_name? hn)))
  obtain ⟨hin, hrest⟩ := of_takeOperand? hv
  exact ⟨hin.trans hr.isInfix, hrest.trans hr⟩

/-- the operands of the parameters in a text stand in it -/
theorem infix_of_params (s : Text) : ∀ p ∈ params s, p.2 <:+: s := by
  have hupTo : ∀ (n : Nat) (s : Text), ∀ p ∈ paramsUpTo n s, p.2 <:+: s := by
    intro n
    induction n with
    | zero => simp [paramsUpTo]
    | succ n ih =>
      intro s
      cases s with
      | nil => simp [paramsUpTo]
      | cons c cs =>
        simp only [paramsUpTo]
        cases hp : param? (c :: cs) with
        | none => exact fun p hmem => (ih cs p hmem).trans (List.suffix_cons c cs).isInfix
        | some q =>
          obtain ⟨hin, hrest⟩ := of_param? hp
          exact List.forall_mem_cons.2 ⟨hin, fun p hmem => (ih _ p hmem).trans hrest.isInfix⟩
  exact hupTo s.length s

variable {t : Token} {c : Context}

theorem fails_malformed {α : Type} (t : Token) : Fails (Refusal.Unplaced t.raw) (malformed t : Except Refusal α) :=
  fails_fault _ _

theorem fails_require {α : Type} (t : Token) (parts : Option α) : Fails (Refusal.Unplaced t.raw) (require t parts) := by
  unfold require
  split
  · exact fails_ok _
  · exact fails_malformed t

theorem fails_requireInForm {α : Type} (t : Token) (c : Context) (parts : Option α) :
    Fails (Refusal.Unplaced t.raw) (requireInForm t c parts) := by
  refine fails_bind (fails_require t parts) fun _ => ?_
  split
  · exact fails_fault _ _
  · exact fails_ok _

theorem fails_loopParts (t : Token) : Fails (Refusal.Unplaced t.raw) (loopParts t) := by
  refine fails_bind (fails_require t _) fun p => ?_
  split
  · exact fails_fault _ _
  · split
    · exact fails_fault _ _
    · exact fails_ok _

/-- the path of a loop stands in its directive -/
theorem infix_of_loopParts {p : LoopParts} (h : loopParts t = .ok p) : p.path <:+: t.raw := by
  simp only [loopParts, bind_eq_ok, Instruction.require_eq_ok] at h
  obtain ⟨q, hq, h⟩ := h
  split at h
  · cases h
  · split at h
    · cases h
    · cases h
      exact infix_of_loop? hq

theorem fails_startLoop : Fails (Refusal.Unplaced t.raw) (startLoop m t c) := by
  refine fails_bind_ok (fails_loopParts t) fun p hp => ?_
  have hpath := infix_of_loopParts hp
  refine fails_bind (fails_unplaced_mono (Mode.fails_reached p.path) hpath) fun _ => ?_
  exact fails_bind (fails_unplaced_mono (Mode.fails_value true p.path) hpath) fun _ => fails_ok _

theorem fails_startCapture : Fails (Refusal.Unplaced t.raw) (startCapture t c) := by
  refine fails_bind (fails_require t _) fun _ => ?_
  split
  · exact fails_fault _ _
  · exact fails_ok _

theorem fails_startForm : Fails (Refusal.Unplaced t.raw) (startForm m t c) := by
  refine fails_bind_ok (fails_require t _) fun p hp => ?_
  have hsubject := infix_of_form? (Instruction.require_eq_ok.1 hp)
  refine fails_bind (fails_unplaced_mono (Reference.fails_parse p.subject) hsubject) fun _ => ?_
  exact fails_bind (fails_unplaced_mono (Mode.fails_value true p.subject) hsubject) fun _ => fails_ok _

theorem fails_generateFragment : Fails (Refusal.Unplaced t.raw) (generateFragment m t c) := by
  refine fails_bind_ok (fails_require t _) fun p hp => ?_
  have hsubject := infix_of_generate? (Instruction.require_eq_ok.1 hp)
  refine fails_bind (fails_unplaced_mono (Reference.fails_parse p.subject) hsubject) fun _ => ?_
  exact fails_bind (fails_unplaced_mono (Mode.fails_value true p.subject) hsubject) fun _ => fails_ok _

theorem fails_startPhrase : Fails (Refusal.Unplaced t.raw) (startPhrase m t c) := by
  refine fails_bind_ok (fails_require t _) fun p hp => ?_
  have hparams := infix_of_phrase? (Instruction.require_eq_ok.1 hp)
  refine fails_bind (fails_mapM_mem fun q hq => fails_map ?_ _) fun _ => fails_ok _
  exact fails_unplaced_mono (Mode.fails_operand true q.2) ((infix_of_params _ q hq).trans hparams)

end Directive

namespace Reader

open Directive

variable {m : Mode} {t : Token} {c : Context}

/-- **The beginning of a directive** fails with a fault, or for an integer in its text. -/
theorem fails_first {r : Reader} (hr : r ≠ .blank) : Fails (Refusal.Unplaced t.raw) (r.first m t c) := by
  cases r with
  | blank => exact absurd rfl hr
  | literal => exact fails_ok _
  | interpolation => exact fails_map (Mode.fails_value false t.raw) _
  | loop => exact fails_startLoop
  | conditional =>
    refine fails_bind_ok (fails_require t _) fun text htext => ?_
    exact fails_bind (fails_condition (infix_of_when? (Instruction.require_eq_ok.1 htext))) fun _ => fails_ok _
  | elsewhen =>
    refine fails_bind_ok (fails_require t _) fun text htext => ?_
    exact fails_bind (fails_condition (infix_of_elsewhen? (Instruction.require_eq_ok.1 htext))) fun _ => fails_ok _
  | otherwise =>
    simp only [first]
    split
    · exact fails_ok _
    · exact fails_malformed t
  | capture => exact fails_startCapture
  | form => exact fails_map fails_startForm _
  | field => exact fails_map (fails_bind (fails_requireInForm t c _) fun _ => fails_ok _) _
  | submit => exact fails_bind (fails_requireInForm t c _) fun _ => fails_ok _
  | button => exact fails_bind (fails_requireInForm t c _) fun _ => fails_ok _
  | generate => exact fails_map fails_generateFragment _
  | phrase => exact fails_startPhrase
  | comment => exact fails_ok _

theorem fails_last (r : Reader) : Fails (Refusal.Unplaced t.raw) (r.last t c) := by
  cases r with
  | capture =>
    simp only [last, endCapture]
    split
    · exact fails_fault _ _
    · rename_i o ho
      cases h : capture? o.token.raw with
      | none => exact fails_fault _ _
      | some name => exact fails_ok _
  | loop => exact fails_ok _
  | conditional => exact fails_ok _
  | elsewhen => exact fails_ok _
  | form => exact fails_ok _
  | phrase => exact fails_ok _
  | _ => exact fails_fault _ _

theorem fails_binds (r : Reader) : Fails (Refusal.Unplaced t.raw) (r.binds t) := by
  cases r with
  | loop => exact fails_map (fails_loopParts t) _
  | _ => exact fails_ok _

end Reader

/-! ## Tokens -/

namespace Compiler

variable {comment : Text} {m : Directive.Mode} {t : Token} {c : Context}

theorem fails_branch : Fails (Refusal.Unplaced t.raw) (branch t c) := by
  unfold branch
  split
  · split
    · split
      · exact fails_fault _ _
      · split <;> exact fails_ok _
    · exact fails_fault _ _
  · exact fails_fault _ _

theorem fails_close : Fails (Refusal.Unplaced t.raw) (close (.standard comment) t c) := by
  have hclosed : Fails (Refusal.Unplaced t.raw) (closedFamily (.standard comment) t) := by
    unfold closedFamily
    split
    · exact fails_fault _ _
    · split
      · exact fails_ok _
      · exact fails_fault _ _
  refine fails_bind hclosed fun p => ?_
  simp only
  split
  · exact fails_fault _ _
  · split
    · exact fails_bind (Reader.fails_last _) fun _ => fails_ok _
    · exact fails_fault _ _

/-- reading a token and opening what it opens -/
theorem fails_opened (hreader : t.kind.reader ≠ .blank) :
    Fails (Refusal.Unplaced t.raw) (do
      let p ← t.kind.reader.first m t c
      match t.kind.opens? with
      | some f => do
        let names ← t.kind.reader.binds t
        return (p.1, p.2.push ⟨some f, t, names, false⟩)
      | none => return p) := by
  refine fails_bind (Reader.fails_first hreader) fun p => ?_
  split
  · exact fails_bind (Reader.fails_binds _) fun _ => fails_ok _
  · exact fails_ok _

/-- **Compiling a token** fails with a fault that is not yet located, or for an integer in its text. -/
theorem fails_token (ht : t.Classified (.standard comment)) :
    Fails (Refusal.Unplaced t.raw) (token (.standard comment) m t c) := by
  cases hspelled : t.kind.isSpelled with
  | false =>
    cases hk : t.kind <;> simp [hk, TokenKind.isSpelled, TokenKind.reader] at hspelled <;>
      simp only [token, hk]
    case literal => exact Reader.fails_first (by simp)
    case comment => exact Reader.fails_first (by simp)
    case interpolation => exact Reader.fails_first (by simp)
    case closing => exact fails_close
  | true =>
    have hreader : t.kind.reader ≠ .blank := by simpa [TokenKind.isSpelled] using hspelled
    rw [token_spelled ht hspelled]
    simp only
    split
    · exact fails_bind fails_branch fun _ => fails_opened hreader
    · exact fails_opened hreader

end Compiler

end Stencil
