/-
A SCAN ON ITS OWN. Settings give the delimiters and the mark of comments, and a registry says what is a comment. A
template that is scanned on its own is cut by its settings and classified by the standard registry; a compiler takes
both from its settings. The two scans are compared piece by piece: they stop at the same places whatever is a comment,
and what they find differs exactly by the kinds of the directives.

- `Registry.classify_eq_iff`: the texts that two registries classify alike.
- `Scan.kinds_run`: the kinds of the tokens that a scan finds.
- `Scan.counter_run`: a scan fails, or ends, whatever the kinds are.
- `scan_eq_iff`: when two ways to classify give the same scan.
- `scanAlone_eq_iff`: a scan on its own against the compiler's.
-/
import Stencil.Proofs.Spellings
import Stencil.Proofs.Tokens

namespace Stencil

open Delimiter (Chunk)

/-! ## Registries -/

namespace Registry

theorem match?_standard (comment raw : Text) : (standard comment).match? raw = (standard []).match? raw := by
  rw [match?, match?, specs_standard]

theorem comment_standard (comment : Text) : (standard comment).comment = comment := rfl

/-- no directive is a comment by its spelling -/
theorem kind_ne_comment {comment raw : Text} {spec : Spec} (h : (standard comment).match? raw = some spec) :
    spec.kind ≠ .comment := by
  have hspecs : ∀ e ∈ (standard comment).specs, e.2.kind ≠ .comment := by
    rw [specs_standard]
    decide
  obtain ⟨e, he, rfl⟩ := mem_of_match? h
  exact hspecs e he

theorem classify_eq_comment_iff {comment raw : Text} :
    (standard comment).classify raw = .comment ↔ Text.startsWith raw comment = true := by
  rw [classify, comment_standard]
  constructor
  · intro h
    split at h
    · assumption
    · split at h
      · rename_i spec hspec
        exact absurd h (kind_ne_comment hspec)
      · split at h <;> cases h
  · intro h
    rw [if_pos h]

/-- **Two registries** of the language give a text the same kind exactly if it begins with the marks of both or with
neither. -/
theorem classify_eq_iff {comment comment' raw : Text} :
    (standard comment).classify raw = (standard comment').classify raw ↔
      Text.startsWith raw comment = Text.startsWith raw comment' := by
  constructor
  · intro h
    rw [Bool.eq_iff_iff, ← classify_eq_comment_iff, ← classify_eq_comment_iff, h]
  · intro h
    rw [classify, classify, comment_standard, comment_standard, h, match?_standard, match?_standard comment']

end Registry

/-! ## Scans with two ways to classify -/

/-- the text of a piece that is a directive, without the blanks around it -/
def Delimiter.Chunk.directive? : Chunk → Option Text
  | directive body => some (Text.strip body)
  | _ => none

/-- the texts of the directives in a template -/
def directiveTexts (s : Settings) (source : Text) : List Text :=
  (Delimiter.chunks s.opening s.closing s.opening_ne source).filterMap Chunk.directive?

/-- the kinds of the tokens that are directives -/
def directiveKinds (ts : List Token) : List TokenKind := (ts.map (·.kind)).filter (· != .literal)

namespace Scan

variable {s : Settings} {source : Text} {classify classify' : Text → TokenKind} {st st' : Scan} {position : Nat}

theorem counter_add (kind : TokenKind) (raw : Text) (st : Scan) :
    (st.add source kind raw position).counter = st.counter.moveTo source position := by
  unfold add
  split
  · rfl
  · split
    · split <;> rfl
    · rfl

theorem kinds_add_literal (raw : Text) (st : Scan) :
    directiveKinds (st.add source .literal raw position).tokens = directiveKinds st.tokens := by
  unfold add
  split
  · rfl
  · split
    · rename_i last before htokens
      split
      · rename_i hlast
        simp [directiveKinds, htokens, beq_iff_eq.1 hlast]
      · rename_i hlast
        simp [directiveKinds, htokens]
    · simp [directiveKinds]

theorem kinds_add {kind : TokenKind} (hk : kind ≠ .literal) (raw : Text) (st : Scan) :
    directiveKinds (st.add source kind raw position).tokens = kind :: directiveKinds st.tokens := by
  rw [add_of_ne_literal hk, push, directiveKinds, List.map_cons, List.filter_cons_of_pos (by simpa using hk)]
  rfl

/-- **One piece more** adds the kind of its directive, if it is one. -/
theorem kinds_chunk (hclass : ∀ raw, classify raw ≠ .literal) {c : Chunk}
    (h : st.chunk s classify source position c = .ok st') :
    directiveKinds st'.tokens = (c.directive?.map classify).toList ++ directiveKinds st.tokens := by
  have hliteral {text : Text} (h : st.literal s source text position = .ok st') :
      directiveKinds st'.tokens = directiveKinds st.tokens := by
    unfold literal at h
    split at h
    · cases h
      exact kinds_add_literal _ st
    · cases h
  cases c with
  | plain text => exact hliteral h
  | tail text => exact hliteral h
  | escaped body =>
    cases h
    exact kinds_add_literal _ st
  | directive body =>
    rw [chunk, directive] at h
    split at h
    · cases h
    · simp only at h
      split at h
      · cases h
      · split at h
        · rename_i hcomment
          cases h
          rw [kinds_add (by decide)]
          simp [Chunk.directive?, hcomment]
        · cases h
          rw [kinds_add (hclass _)]
          rfl

/-- **All pieces** add the kinds of their directives, the last of them first. -/
theorem kinds_run (hclass : ∀ raw, classify raw ≠ .literal) {cs : List Chunk}
    (h : run s classify source position st cs = .ok st') :
    directiveKinds st'.tokens = ((cs.filterMap Chunk.directive?).map classify).reverse ++ directiveKinds st.tokens := by
  induction cs generalizing position st with
  | nil =>
    cases h
    rfl
  | cons c cs ih =>
    rw [run] at h
    split at h
    · rename_i st₁ hone
      rw [ih h, kinds_chunk hclass hone]
      cases hc : c.directive? <;> simp [hc]
    · cases h

/-- a piece fails or is counted without regard to the kind of its directive -/
theorem counter_chunk {st st' : Scan} (h : st.counter = st'.counter) (c : Chunk) :
    (st.chunk s classify source position c).map counter = (st'.chunk s classify' source position c).map counter := by
  have hliteral (text : Text) :
      (st.literal s source text position).map counter = (st'.literal s source text position).map counter := by
    unfold literal fail
    cases literalText s text <;> simp [counter_add, h]
  cases c with
  | plain text => exact hliteral text
  | tail text => exact hliteral text
  | escaped body => simp [chunk, counter_add, h]
  | directive body =>
    simp only [chunk, directive, fail, h]
    split
    · rfl
    · split
      · rfl
      · split <;> split <;> rw [map_ok, map_ok, counter_add, counter_add, h]

/-- **A scan fails or comes to its end** without regard to the kinds of the directives. -/
theorem counter_run {st st' : Scan} (h : st.counter = st'.counter) (cs : List Chunk) :
    (run s classify source position st cs).map counter = (run s classify' source position st' cs).map counter := by
  induction cs generalizing position st st' with
  | nil => exact congrArg Except.ok h
  | cons c cs ih =>
    have hone : (st.chunk s classify source position c).map counter =
        (st'.chunk s classify' source position c).map counter := counter_chunk h c
    rw [run, run]
    cases hx : st.chunk s classify source position c with
    | error f =>
      cases hy : st'.chunk s classify' source position c with
      | error f' => rw [hx, hy] at hone; exact hone
      | ok st₂ => rw [hx, hy] at hone; cases hone
    | ok st₁ =>
      cases hy : st'.chunk s classify' source position c with
      | error f' => rw [hx, hy] at hone; cases hone
      | ok st₂ =>
        rw [hx, hy] at hone
        exact ih (Except.ok.inj hone)

/-- ways to classify that give the directives the same kinds scan the same -/
theorem run_congr {cs : List Chunk} (h : ∀ raw ∈ cs.filterMap Chunk.directive?, classify raw = classify' raw) :
    run s classify source position st cs = run s classify' source position st cs := by
  induction cs generalizing position st with
  | nil => rfl
  | cons c cs ih =>
    have hone : st.chunk s classify source position c = st.chunk s classify' source position c := by
      cases c with
      | directive body =>
        have hbody : classify (Text.strip body) = classify' (Text.strip body) := h _ List.mem_cons_self
        simp only [chunk, directive, hbody]
      | _ => rfl
    have hrest : ∀ raw ∈ cs.filterMap Chunk.directive?, classify raw = classify' raw := by
      intro raw hraw
      apply h
      rw [List.filterMap_cons]
      split
      · exact hraw
      · exact List.mem_cons_of_mem _ hraw
    rw [run, run, hone]
    split
    · exact ih hrest
    · rfl

end Scan

/-- **Two scans of a template** find the same tokens, or fail the same, exactly if they fail or give each directive the
same kind. -/
theorem scan_eq_iff {s : Settings} {source : Text} {classify classify' : Text → TokenKind}
    (hclass : ∀ raw, classify raw ≠ .literal) (hclass' : ∀ raw, classify' raw ≠ .literal) :
    scan s classify source = scan s classify' source ↔
      (∃ f, scan s classify source = .error f) ∨ ∀ raw ∈ directiveTexts s source, classify raw = classify' raw := by
  have hcounter : (scanAll s classify source).map Scan.counter = (scanAll s classify' source).map Scan.counter :=
    Scan.counter_run rfl _
  -- both scans fail, or both end; where they end, equal tokens are of equal kinds
  constructor
  · intro h
    cases hx : scanAll s classify source with
    | error f => exact .inl ⟨f, by rw [scan, hx, map_error]⟩
    | ok st =>
      right
      cases hy : scanAll s classify' source with
      | error f => rw [scan, scan, hx, hy] at h; cases h
      | ok st' =>
        rw [scan, scan, hx, hy, map_ok, map_ok, Except.ok.injEq, List.reverse_inj] at h
        have hkinds := Scan.kinds_run hclass hx
        rw [h, Scan.kinds_run hclass' hy, List.append_left_inj, List.reverse_inj, List.map_inj_left] at hkinds
        intro raw hraw
        exact (hkinds raw hraw).symm
  · rintro (⟨f, hf⟩ | h)
    · cases hx : scanAll s classify source with
      | error g =>
        cases hy : scanAll s classify' source with
        | error g' =>
          rw [hx, hy] at hcounter
          rw [scan, scan, hx, hy, Except.error.inj hcounter]
        | ok st' => rw [hx, hy] at hcounter; cases hcounter
      | ok st => rw [scan, hx] at hf; cases hf
    · rw [scan, scan, scanAll, scanAll, Scan.run_congr h]

/-- **A template scanned on its own**, in any settings, has the tokens that a compiler in these settings finds, or the
same fault, exactly if it has a fault or each of its directives begins with the standard mark of comments if and only if
it begins with the mark of the settings. -/
theorem scanAlone_eq_iff (s : Settings) (strict : Option Bool) (names : List Text) (source : Text) :
    (scanAlone s source).mapError Refusal.fault = (Compiler.standard s strict names).scan source ↔
      (∃ f, scanAlone s source = .error f) ∨ ∀ raw ∈ directiveTexts s source,
        Text.startsWith raw Settings.standard.comment = Text.startsWith raw s.comment := by
  have hfault {x y : Except Fault (List Token)} : x.mapError Refusal.fault = y.mapError Refusal.fault ↔ x = y := by
    constructor
    · intro h
      cases x <;> cases y <;> cases h <;> rfl
    · intro h
      rw [h]
  have hscan : (Compiler.standard s strict names).scan source =
      (scan s (Registry.standard s.comment).classify source).mapError Refusal.fault := rfl
  rw [hscan, hfault, scanAlone, scan_eq_iff (classify_ne_literal _) (classify_ne_literal _)]
  simp only [Registry.classify_eq_iff]

/-- with a mark of comments other than the standard one, a directive that begins with the standard one is a comment on
its own, and an interpolation for the compiler -/
theorem scanAlone_other_mark :
    let s : Settings := { Settings.standard with comment := ['%'], comment_ne := by decide }
    let source : Text := "\x7b\x7b# x \x7d\x7d"
    scanAlone s source = .ok [⟨.comment, "x", 0, 1⟩] ∧
      (Compiler.standard s none []).scan source = .ok [⟨.interpolation, "# x", 0, 1⟩] := by
  intro s source
  have halone : (scanAlone s source).toOption = some [⟨.comment, "x", 0, 1⟩] := by decide +kernel
  have hcompiler : ((Compiler.standard s none []).scan source).toOption = some [⟨.interpolation, "# x", 0, 1⟩] := by
    decide +kernel
  exact ⟨eq_ok_of_toOption halone, eq_ok_of_toOption hcompiler⟩

end Stencil
