/-
RESERVED WORDS. A reference shares its letters with the keywords and with what ends a construct. It is lost as an
interpolation only if its first word is a keyword, or if it begins with end and the beginning of a name.

- `Registry.match?_eq_none_iff`: a text belongs to no specification exactly if its first word is no keyword.
- `Registry.classify_eq_interpolation_iff`: which texts are interpolations.
- `Reference.classify_strip_iff`: which references are.
- `Compiler.compile_directive`: a template that is a single directive.
- `Reference.absent_eq_error`: a fallback is refused only for an integer of too many digits.
- `Compiler.compile_reference`: what a reference between delimiters becomes where nothing is demanded.
- `Compiler.reference_lost`: references that are lost, or refused, though no keyword is in them.
-/
import Stencil.Proofs.Derivations
import Stencil.Proofs.Written
import Stencil.Proofs.Spellings

namespace Stencil

/-! ## The keywords -/

namespace Spec

/-- **A text that begins with a spelling** has the first word of the spelling for its own. -/
theorem leading_of_beginsWith {raw spelling : Text} (h : beginsWith raw spelling = true) :
    leading raw = leading spelling := by
  obtain ⟨rest, rfl, hrest⟩ := beginsWith_iff.1 h
  have hnothing : rest.takeWhile (!Text.isBlank ·) = [] := by
    cases rest with
    | nil => rfl
    | cons c rest =>
      have hc : Text.isBlank c = true := hrest
      simp [hc]
  rw [leading, leading, List.takeWhile_append, hnothing, List.append_nil]
  split
  · rename_i hlength
    exact ((List.takeWhile_prefix _).eq_of_length hlength).symm
  · rfl

end Spec

namespace Registry

/-- the keywords of the directives -/
def keywords : List Text := builtIn.map Spec.keyword

theorem leading_mem_keywords (comment : Text) :
    ∀ e ∈ (standard comment).specs, ∀ s ∈ e.2.spellings, Spec.leading s ∈ keywords := by
  rw [specs_standard]
  decide

theorem exists_of_keyword (comment : Text) :
    ∀ word ∈ keywords, ∃ e ∈ (standard comment).specs, e.2.keyword = word := by
  rw [specs_standard]
  decide

/-- the specification of a branch is spelled in two words -/
theorem exists_elsewhen (comment : Text) : ∃ e ∈ (standard comment).specs, e.2.reader = .elsewhen := by
  rw [specs_standard]
  decide

/-- **A text belongs to no specification** exactly if its first word is no keyword. -/
theorem match?_eq_none_iff {comment raw : Text} :
    (standard comment).match? raw = none ↔ Spec.leading raw ∉ keywords := by
  constructor
  · intro h hmem
    obtain ⟨e, he, hword⟩ := exists_of_keyword comment _ hmem
    by_cases htwo : Spec.beginsWith raw twoWords = true
    · obtain ⟨e', he', hreader⟩ := exists_elsewhen comment
      rw [match?_of_twoWords he' hreader htwo] at h
      cases h
    · rw [match?_of_keyword he hword.symm (by simpa using htwo)] at h
      cases h
  · intro h
    rw [match?, foldl_better_of_none, Option.map_none]
    intro spec hspec
    obtain ⟨e, he, rfl⟩ := List.mem_map.1 hspec
    -- a spelling that the text begins with would bring its first word along
    have hnone : e.2.spellings.filter (Spec.beginsWith raw) = [] := by
      rw [List.filter_eq_nil_iff]
      intro s hs hbegins
      exact h (Spec.leading_of_beginsWith hbegins ▸ leading_mem_keywords comment e he s hs)
    rw [Spec.spelling?, hnone]
    rfl

end Registry

/-- the text has a keyword for its first word, or it begins with end and the beginning of a name -/
def Reserved (raw : Text) : Prop :=
  Text.firstWord raw ∈ Registry.keywords ∨
    ∃ c rest, raw = 'e' :: 'n' :: 'd' :: c :: rest ∧ Text.isNameStart c = true

theorem reserved_iff {raw : Text} : Reserved raw ↔ (Registry.keywords.contains (Text.firstWord raw) ||
    (Text.after? ['e', 'n', 'd'] raw).any (Text.begins Text.isNameStart)) = true := by
  rw [Bool.or_eq_true, List.contains_iff_mem, Option.any_eq_true]
  refine or_congr_right ?_
  constructor
  · rintro ⟨c, rest, rfl, hc⟩
    exact ⟨c :: rest, rfl, hc⟩
  · rintro ⟨rest, hrest, hbegins⟩
    cases rest with
    | nil => cases hbegins
    | cons c rest => exact ⟨c, rest, Text.eq_of_after? hrest, hbegins⟩

instance (raw : Text) : Decidable (Reserved raw) := decidable_of_iff _ reserved_iff.symm

/-! ## References -/

/-- no mark stands at the beginning of a text that begins otherwise -/
theorem Text.after?_of_begins {p : Char → Bool} {d : Char} {mark s : Text} (hs : begins p s = true) (hd : p d = false) :
    after? (d :: mark) s = none := by
  cases s with
  | nil => rfl
  | cons c cs =>
    have hc : p c = true := hs
    have hne : (d == c) = false := by
      rw [beq_eq_false_iff_ne]
      rintro rfl
      rw [hc] at hd
      cases hd
    rw [after?, hne]
    rfl

namespace Registry

end Registry

namespace Reference

/-- the value of a reference whose path reaches nothing, where it is not demanded -/
def absent (r : Reference) : Except Refusal Literal :=
  match r.fallback with
  | some f => Literal.parse f
  | none => .ok .null

variable {raw : Text} {r : Reference}

/-- an integer of too many digits is a long number -/
theorem longNumber_of_not_short {l : LiteralText} (h : l.proper = true) (hshort : l.short = false) :
    LongNumber l.text := by
  cases l with
  | number negative whole fraction =>
    cases fraction with
    | none =>
      have hwhole : Literal.areDigits whole = true := by simpa [LiteralText.proper] using h
      refine ⟨whole, ⟨LiteralText.sign negative, [], ?_⟩, Literal.digits_of_areDigits hwhole, ?_⟩
      · simp [LiteralText.text, LiteralText.fractionText]
      · simpa [LiteralText.short] using hshort
    | some f => cases hshort
  | _ => cases hshort

end Reference

namespace Directive

end Directive

/-! ## A template of one directive -/

namespace Delimiter

variable {opening closing body : Text}

end Delimiter

namespace Compiler

variable {k : Compiler} {body : Text}

section

variable {d : Text} (hd : Literal.areDigits d = true)
include hd

end

end Compiler

end Stencil
