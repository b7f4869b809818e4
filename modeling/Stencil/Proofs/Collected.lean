/-
THE CHARACTERS OF A REFERENCE. `isReferenceChar` is to tell the characters that a reference may have outside quoted
keys, so that a reader can collect a reference character by character. It knows the digits 0 to 9 only, but an index
may be written in digits of any script, and such a reference is cut short.

- `Text.isForeignDigit`: a digit of another script.
- `Reference.isReference_iff`: a text is a reference without a fallback exactly if it is a path.
- `SegmentText.isReferenceChar_text`, `PathText.isReferenceChar_text`: the characters of a path without quoted keys.
- `Reference.collected_iff`: which references are collected whole.
- `Reference.foreign_index_cut`: one that is not.
-/
import Stencil.Proofs.Written

namespace Stencil

/-- a digit, but none of 0 to 9 -/
def Text.isForeignDigit (c : Char) : Bool := Text.isDigit c && !c.isDigit

namespace Reference

open Text (isForeignDigit)

variable {c : Char} {s : Text}

/-! ## Characters -/

theorem isReferenceChar_of_isNameChar (h : Text.isNameChar c = true) : isReferenceChar c = !isForeignDigit c := by
  have hforeign : isForeignDigit c = false := by
    rw [isForeignDigit, Bool.and_eq_false_iff]
    rw [Text.isNameChar, Char.isAlphanum, Bool.or_right_comm, Bool.or_eq_true] at h
    exact h.imp Text.isDigit_of_isNameStart (by simp [·])
  rw [isReferenceChar, h, hforeign]
  rfl

theorem isReferenceChar_of_isDigit (h : Text.isDigit c = true) : isReferenceChar c = !isForeignDigit c := by
  cases hc : c.isDigit with
  | true => exact isReferenceChar_of_isNameChar (by simp [Text.isNameChar, Char.isAlphanum, hc])
  | false =>
    -- a digit of another script is neither a letter nor one of the marks of a path
    have hname : Text.isNameChar c = false := by
      have hstart := Text.isNameStart_of_isDigit h
      rw [Text.isNameStart, Bool.or_eq_false_iff] at hstart
      simp [Text.isNameChar, Char.isAlphanum, hstart, hc]
    obtain ⟨-, hpoint, hquote, hmark⟩ := Literal.isDigit_apart h
    have hopening : c ≠ '[' := by
      rintro rfl
      exact absurd h (by decide)
    have hclosing : c ≠ ']' := by
      rintro rfl
      exact absurd h (by decide)
    simp [isReferenceChar, isForeignDigit, hname, h, hc, hpoint, hquote, hmark, hopening, hclosing]

end Reference

/-! ## Paths -/

namespace SegmentText

open Reference
open Text (isForeignDigit)

/-- a key in quotes -/
def isKey : SegmentText → Bool
  | key _ _ => true
  | _ => false

/-- **The characters of a segment** that is no key in quotes are told, but for digits of other scripts. -/
theorem isReferenceChar_text {p : SegmentText} (h : p.proper = true) (hkey : p.isKey = false) :
    ∀ c ∈ p.text, isReferenceChar c = !isForeignDigit c := by
  have hdigits {d : Text} (hd : Literal.areDigits d = true) : ∀ c ∈ d, isReferenceChar c = !isForeignDigit c :=
    fun c hc => isReferenceChar_of_isDigit (Literal.digits_of_areDigits hd c hc)
  cases p with
  | name n =>
    have hname : ∀ c ∈ n, isReferenceChar c = !isForeignDigit c :=
      fun c hc => isReferenceChar_of_isNameChar (Text.isNameChar_of_mem h c hc)
    exact List.forall_mem_cons.2 ⟨by decide, hname⟩
  | dotIndex d => exact List.forall_mem_cons.2 ⟨by decide, hdigits h⟩
  | index d =>
    refine List.forall_mem_cons.2 ⟨by decide, List.forall_mem_append.2 ⟨hdigits h, ?_⟩⟩
    exact List.forall_mem_singleton.2 (by decide)
  | key mark k => cases hkey

end SegmentText

/-- **The characters of a path** without keys in quotes are told, but for digits of other scripts. -/
theorem PathText.isReferenceChar_text {p : PathText} (h : p.proper = true)
    (hkey : p.segments.any SegmentText.isKey = false) :
    ∀ c ∈ p.text, Reference.isReferenceChar c = !Text.isForeignDigit c := by
  rw [proper, Bool.and_eq_true, List.all_eq_true] at h
  rw [List.any_eq_false] at hkey
  refine List.forall_mem_append.2 ⟨fun c hc => ?_, fun c hc => ?_⟩
  · exact Reference.isReferenceChar_of_isNameChar (Text.isNameChar_of_mem h.1 c hc)
  · obtain ⟨q, hq, hc⟩ := List.mem_flatMap.1 hc
    exact SegmentText.isReferenceChar_text (h.2 q hq) (by simpa using hkey q hq) c hc

namespace Reference

variable {s : Text}

/-- **A text is a reference** without a fallback exactly if it is a path. -/
theorem isReference_iff : isReference s false = true ↔ ∃ p : PathText, p.proper = true ∧ s = p.text := by
  constructor
  · intro h
    unfold isReference at h
    split at h
    · rename_i root ps hgrammar
      obtain ⟨⟨path, fallback⟩, hw, rfl, -, hnone⟩ := grammar?_eq_some_iff.1 hgrammar
      obtain rfl : fallback = none := by simpa using hnone.symm
      rw [Writing.proper, Bool.and_eq_true] at hw
      exact ⟨path, hw.1, List.append_nil _⟩
    · cases h
    · cases h
  · rintro ⟨p, hp, rfl⟩
    have hgrammar : grammar? p.text = some (p.root, p.segments, none) :=
      grammar?_eq_some_iff.2 ⟨⟨p, none⟩, by simp [Writing.proper, hp], (List.append_nil _).symm, rfl, rfl⟩
    rw [isReference, hgrammar]

/-- a key in quotes stands in the path that a text begins with -/
def hasKey (s : Text) : Bool := (path? s).any fun p => p.2.1.any SegmentText.isKey

theorem hasKey_text {p : PathText} (h : p.proper = true) : hasKey p.text = p.segments.any SegmentText.isKey := by
  have hpath : path? (p.text ++ []) = some (p.root, p.segments, []) :=
    path?_eq_some_iff.2 ⟨h, rfl, endsAt_of_begins p rfl⟩
  rw [List.append_nil] at hpath
  rw [hasKey, hpath]
  rfl

/-- a text is collected whole, whatever follows it, exactly if all its characters are -/
theorem prefix_takeWhile_iff {p : Char → Bool} (rest : Text) :
    s <+: (s ++ rest).takeWhile p ↔ ∀ c ∈ s, p c = true := by
  constructor
  · intro h c hc
    exact List.mem_takeWhile_imp (h.subset hc)
  · intro h
    rw [List.takeWhile_append_of_pos h]
    exact List.prefix_append _ _

/-- **Which references are collected whole.** In a reference without keys in quotes every character is told, but for
the digits of other scripts in its indexes. A reader that collects the characters it is told cuts the reference short
exactly if it has such a digit, whatever follows the reference. -/
theorem collected_iff (s : Text) (href : isReference s false = true) (hkey : hasKey s = false) :
    (∀ c ∈ s, isReferenceChar c = !Text.isForeignDigit c) ∧
    ∀ rest, s <+: (s ++ rest).takeWhile isReferenceChar ↔ ∀ c ∈ s, Text.isForeignDigit c = false := by
  obtain ⟨p, hp, rfl⟩ := isReference_iff.1 href
  rw [hasKey_text hp] at hkey
  have hchars := PathText.isReferenceChar_text hp hkey
  refine ⟨hchars, fun rest => ?_⟩
  rw [prefix_takeWhile_iff]
  refine forall₂_congr fun c hc => ?_
  rw [hchars c hc, Bool.not_eq_true']

/-- an index in the digits 0 to 9 is told, one in others is not -/
theorem collected_two_scripts :
    let s : Text := "row[0].x_1.\u0663"
    isReference s false = true ∧ hasKey s = false ∧ (∀ c ∈ s, isReferenceChar c = !Text.isForeignDigit c) ∧
      ¬ s <+: (s ++ " y".toList).takeWhile isReferenceChar := by
  intro s
  have href : isReference s false = true := by decide +kernel
  have hkey : hasKey s = false := by decide +kernel
  obtain ⟨hchars, hwhole⟩ := collected_iff s href hkey
  refine ⟨href, hkey, hchars, ?_⟩
  rw [hwhole]
  exact fun h => absurd (h '\u0663' (by decide +kernel)) (by decide +kernel)

/-- **A character of a reference that is not told:** the index is written in a digit of another script. -/
theorem foreign_index_cut :
    ¬ ∀ s : Text, isReference s false = true → hasKey s = false → ∀ c ∈ s, isReferenceChar c = true := by
  intro h
  have hchar := h "items.\u0663" (by decide +kernel) (by decide +kernel) '\u0663' (by decide +kernel)
  exact absurd hchar (by decide +kernel)

end Reference

end Stencil
