/-
SPELLINGS AND GRAMMARS. The registry tells directives apart by their spellings, and each reader has a grammar of its
own for the whole text; neither is derived from the other.

- `match?_congr`: which specification a text belongs to depends on its first word alone, and on whether it begins
  with the spelling of two words.
- `begins_of_accepts`: a text that follows the grammar of a reader begins with its keyword, or with the two words of
  a branch.
- `match_of_accepts`: a text that follows the grammar of a specification belongs to that specification and has its
  kind, unless the two words of a branch stand apart by other blanks than one space. Such a text has the kind of a
  last branch, whose grammar it does not follow.
- `else_wide_if`: two spaces between the two words.
-/
import Stencil.Proofs.Chunks
import Stencil.Proofs.Instruction

namespace Stencil

open Directive

/-! ## The grammars -/

namespace Reader

/-- the text follows the grammar of the reader -/
def accepts (raw : Text) : Reader → Bool
  | loop => (loop? raw).isSome
  | conditional => (when? raw).isSome
  | elsewhen => (elsewhen? raw).isSome
  | otherwise => isOtherwise raw
  | capture => (capture? raw).isSome
  | form => (form? raw).isSome
  | field => (field? raw).isSome
  | submit => (keywordOptions? "submit" raw).isSome
  | button => (keywordOptions? "button" raw).isSome
  | generate => (generate? raw).isSome
  | phrase => (phrase? raw).isSome
  | blank => false
  | literal => false
  | interpolation => false
  | comment => false

/-- the keyword that the grammar of the reader begins with -/
def keyword : Reader → Text
  | loop => "for"
  | conditional => "if"
  | elsewhen => "elseif"
  | otherwise => "else"
  | capture => "section"
  | form => "form"
  | field => "field"
  | submit => "submit"
  | button => "button"
  | generate => "generate"
  | phrase => "translate"
  | _ => []

theorem require_eq_malformed {α : Type} {t : Token} {parts : Option α} (h : parts.isSome = false) :
    require t parts = malformed t := by
  rw [Option.isSome_eq_false_iff, Option.isNone_iff_eq_none] at h
  rw [h, require]

theorem requireInForm_eq_malformed {α : Type} {t : Token} {c : Context} {parts : Option α}
    (h : parts.isSome = false) : requireInForm t c parts = malformed t := by
  rw [requireInForm, require_eq_malformed h]
  rfl

/-- a directive that does not follow the grammar of its reader is refused as malformed -/
theorem first_of_not_accepts {m : Mode} {t : Token} {c : Context} {r : Reader} (hr : r.keyword ≠ [])
    (h : r.accepts t.raw = false) : r.first m t c = malformed t := by
  cases r <;> rw [accepts] at h
  case otherwise => simp [first, h]
  case conditional => rw [first, require_eq_malformed h]; rfl
  case elsewhen => rw [first, require_eq_malformed h]; rfl
  case loop => rw [first, startLoop, loopParts, require_eq_malformed h]; rfl
  case capture => rw [first, startCapture, require_eq_malformed h]; rfl
  case form => rw [first, startForm, require_eq_malformed h]; rfl
  case phrase => rw [first, startPhrase, require_eq_malformed h]; rfl
  case field => rw [first, fieldFragment, requireInForm_eq_malformed h]; rfl
  case generate => rw [first, generateFragment, require_eq_malformed h]; rfl
  case submit => rw [first, requireInForm_eq_malformed h]; rfl
  case button => rw [first, requireInForm_eq_malformed h]; rfl
  all_goals exact absurd rfl hr

end Reader

/-! ## The first word -/

namespace Spec

/-- what a text begins with, up to its first blank -/
def leading (raw : Text) : Text := raw.takeWhile (!Text.isBlank ·)

theorem beginsWith_iff {raw spelling : Text} :
    beginsWith raw spelling = true ↔ ∃ rest, raw = spelling ++ rest ∧ atBlank rest = true := by
  constructor
  · intro h
    unfold beginsWith at h
    split at h
    · rename_i hrest
      exact ⟨[], Text.after?_eq_some_iff.1 hrest, rfl⟩
    · rename_i c rest hrest
      exact ⟨c :: rest, Text.after?_eq_some_iff.1 hrest, h⟩
    · simp at h
  · rintro ⟨rest, hraw, hrest⟩
    rw [beginsWith, Text.after?_eq_some_iff.2 hraw]
    cases rest with
    | nil => rfl
    | cons c rest => exact hrest

/-- a text begins with a spelling without blanks exactly if that is its first word -/
theorem beginsWith_eq_leading {raw spelling : Text} (hspelling : spelling.all (!Text.isBlank ·) = true) :
    beginsWith raw spelling = (leading raw == spelling) := by
  rw [Bool.eq_iff_iff, beginsWith_iff, beq_iff_eq]
  constructor
  · rintro ⟨rest, rfl, hrest⟩
    rw [leading, List.takeWhile_append_of_pos (List.all_eq_true.1 hspelling)]
    cases rest with
    | nil => simp
    | cons c rest => simpa [atBlank] using hrest
  · intro h
    refine ⟨raw.dropWhile (!Text.isBlank ·), ?_, ?_⟩
    · rw [← h, leading, List.takeWhile_append_dropWhile]
    · have hhead := List.head?_dropWhile_not (!Text.isBlank ·) raw
      cases hrest : raw.dropWhile (!Text.isBlank ·) with
      | nil => rfl
      | cons c rest => simpa [hrest, atBlank] using hhead

end Spec

/-! ## The specification of a text -/

namespace Registry

/-- the spelling of two words -/
def twoWords : Text := "else if"

/-- a specification is spelled in one word, of which its keyword is one, or in the two words of a branch -/
structure Spelled (spec : Spec) : Prop where
  spelling : ∀ s ∈ spec.spellings, s = twoWords ∨ s.all (!Text.isBlank ·) = true
  keyword : spec.keyword ∈ spec.spellings ∧ spec.keyword.all (!Text.isBlank ·) = true
  apart : Spec.beginsWith spec.keyword twoWords = false
  reader : spec.keyword = spec.reader.keyword ∧ spec.reader = spec.kind.reader
  branch : spec.reader = .elsewhen → twoWords ∈ spec.spellings

instance (spec : Spec) : Decidable (Spelled spec) :=
  decidable_of_iff ((∀ s ∈ spec.spellings, s = twoWords ∨ s.all (!Text.isBlank ·) = true) ∧
    (spec.spellings.contains spec.keyword = true ∧ spec.keyword.all (!Text.isBlank ·) = true) ∧
    Spec.beginsWith spec.keyword twoWords = false ∧
    (spec.keyword = spec.reader.keyword ∧ spec.reader = spec.kind.reader) ∧
    (spec.reader = .elsewhen → spec.spellings.contains twoWords = true)) (by
      simp only [List.contains_iff_mem]
      exact ⟨fun ⟨h₁, h₂, h₃, h₄, h₅⟩ => ⟨h₁, h₂, h₃, h₄, h₅⟩, fun ⟨h₁, h₂, h₃, h₄, h₅⟩ => ⟨h₁, h₂, h₃, h₄, h₅⟩⟩)

theorem spelled_standard (comment : Text) : ∀ e ∈ (standard comment).specs, Spelled e.2 := by
  rw [specs_standard]
  decide

/-- **The specification of a text** depends on its first word, and on whether it begins with the spelling of two. -/
theorem match?_congr {comment raw raw' : Text} (hword : Spec.leading raw = Spec.leading raw')
    (htwo : Spec.beginsWith raw twoWords = Spec.beginsWith raw' twoWords) :
    (standard comment).match? raw = (standard comment).match? raw' := by
  have hspelling (e) (he : e ∈ (standard comment).specs) : e.2.spelling? raw = e.2.spelling? raw' := by
    have hfilter : e.2.spellings.filter (Spec.beginsWith raw) = e.2.spellings.filter (Spec.beginsWith raw') := by
      apply List.filter_congr
      intro s hs
      rcases (spelled_standard comment e he).spelling s hs with rfl | hs
      · exact htwo
      · rw [Spec.beginsWith_eq_leading hs, Spec.beginsWith_eq_leading hs, hword]
    rw [Spec.spelling?, Spec.spelling?, hfilter]
  have hbest : (standard comment).specs.foldl (fun best e => better raw best e.2) none =
      (standard comment).specs.foldl (fun best e => better raw' best e.2) none := by
    apply List.foldl_ext
    intro best e he
    rw [better, better, hspelling e he]
  rw [match?, match?, List.foldl_map, List.foldl_map, hbest]

/-- specifications none of whose spellings a text begins with do not change what was found -/
theorem foldl_better_of_none {raw : Text} {specs : List Spec} (h : ∀ spec ∈ specs, spec.spelling? raw = none)
    (best : Option (Spec × Nat)) : specs.foldl (better raw) best = best := by
  induction specs with
  | nil => rfl
  | cons spec specs ih =>
    obtain ⟨hspec, hspecs⟩ := List.forall_mem_cons.1 h
    have hone : better raw best spec = best := by rw [better, hspec]
    rw [List.foldl_cons, hone, ih hspecs]

/-- the number of a registration tells the specification -/
structure Numbered (r : Registry) : Prop where
  earlier : ∀ e ∈ r.specs, e.2.serial < r.count
  unique : ∀ e ∈ r.specs, ∀ e' ∈ r.specs, e.2.serial = e'.2.serial → e.2 = e'.2

theorem mem_register {r : Registry} {spec : Spec} :
    ∀ e ∈ (r.register spec).specs, e.2 = { spec with serial := r.count } ∨ ∃ e' ∈ r.specs, e'.2 = e.2 := by
  have hputs : ∀ (spellings : List Text) (es : List (Text × Spec)),
      (∀ e ∈ es, e.2 = { spec with serial := r.count } ∨ ∃ e' ∈ r.specs, e'.2 = e.2) →
      ∀ e ∈ spellings.foldl (fun acc s => putAt s { spec with serial := r.count } acc) es,
        e.2 = { spec with serial := r.count } ∨ ∃ e' ∈ r.specs, e'.2 = e.2 := by
    intro spellings
    induction spellings with
    | nil => exact fun es hes => hes
    | cons s spellings ih =>
      intro es hes
      exact ih _ (forall_putAt (Q := fun t => t = { spec with serial := r.count } ∨ ∃ e' ∈ r.specs, e'.2 = t)
        (.inl rfl) hes)
  exact hputs _ r.specs fun e he => .inr ⟨e, he, rfl⟩

theorem Numbered.register {r : Registry} (h : r.Numbered) (spec : Spec) : (r.register spec).Numbered := by
  constructor
  · intro e he
    show e.2.serial < r.count + 1
    rcases mem_register e he with heq | ⟨e', he', heq⟩
    · rw [heq]
      exact Nat.lt_succ_self _
    · rw [← heq]
      exact Nat.lt_succ_of_lt (h.earlier e' he')
  · intro e he f hf hserial
    rcases mem_register e he with heq | ⟨e', he', heq⟩ <;> rcases mem_register f hf with hfq | ⟨f', hf', hfq⟩
    · rw [heq, hfq]
    · rw [heq, ← hfq] at hserial
      exact absurd hserial.symm (h.earlier f' hf').ne
    · rw [← heq, hfq] at hserial
      exact absurd hserial (h.earlier e' he').ne
    · rw [← heq, ← hfq] at hserial ⊢
      exact h.unique e' he' f' hf' hserial

theorem numbered_standard (comment : Text) : (standard comment).Numbered := by
  have hregister : ∀ (specs : List Spec) (r : Registry), r.Numbered → (specs.foldl register r).Numbered := by
    intro specs
    induction specs with
    | nil => exact fun r hr => hr
    | cons spec specs ih => exact fun r hr => ih _ (hr.register spec)
  exact hregister builtIn _ ⟨List.forall_mem_nil _, List.forall_mem_nil _⟩

/-- the spellings stand for their own specifications -/
theorem match?_spelling (comment : Text) : ∀ e ∈ (standard comment).specs, ∀ s ∈ e.2.spellings,
    (standard comment).match? s = some e.2 := by
  -- the numbers are compared, not the texts of descriptions and examples
  have hserial : ∀ e ∈ (standard []).specs, ∀ s ∈ e.2.spellings,
      ((standard []).match? s).map (·.serial) = some e.2.serial := by decide
  intro e he s hs
  obtain ⟨spec, hspec, hnumber⟩ := Option.map_eq_some_iff.1 (hserial e (specs_standard comment ▸ he) s hs)
  obtain ⟨e', he', rfl⟩ := mem_of_match? hspec
  have heq : e'.2 = e.2 := (numbered_standard comment).unique e' he' e he hnumber
  exact hspec.trans (congrArg some heq)

end Registry

/-! ## From the grammar to the keyword -/

namespace Directive

theorem atBlank_of_afterBlanks? {s rest : Text} (h : afterBlanks? s = some rest) : atBlank s = true := by
  cases s with
  | nil => rfl
  | cons c s =>
    rw [afterBlanks?] at h
    split at h
    · assumption
    · simp at h

theorem atBlank_of_afterBlanksSome? {s rest : Text} (h : afterBlanksSome? s = some rest) : atBlank s = true := by
  rw [afterBlanksSome?, Option.bind_eq_some_iff] at h
  obtain ⟨r, hr, -⟩ := h
  exact atBlank_of_afterBlanks? hr

theorem atBlank_of_areOptions {word : Option Text} {s : Text} (h : areOptions word s = true) : atBlank s = true := by
  cases s with
  | nil => rfl
  | cons c s =>
    rw [areOptions, List.length_cons, areOptionsUpTo, Bool.and_eq_true] at h
    exact h.1

theorem beginsWith_of_afterWord? {β : Type} {word s : Text} {f : Text → Option β} {b : β}
    (h : (afterWord? word s).bind f = some b) : Spec.beginsWith s word = true := by
  rw [Option.bind_eq_some_iff] at h
  obtain ⟨rest, h, -⟩ := h
  rw [afterWord?, Option.bind_eq_some_iff] at h
  obtain ⟨r, hr, hblank⟩ := h
  exact Spec.beginsWith_iff.2 ⟨r, Text.after?_eq_some_iff.1 hr, atBlank_of_afterBlanks? hblank⟩

theorem beginsWith_of_keywordOptions? {word s rest : Text} (h : keywordOptions? word s = some rest) :
    Spec.beginsWith s word = true := by
  rw [keywordOptions?, Option.bind_eq_some_iff] at h
  obtain ⟨r, hr, hoptions⟩ := h
  split at hoptions
  · rename_i hare
    exact Spec.beginsWith_iff.2 ⟨r, Text.after?_eq_some_iff.1 hr, atBlank_of_areOptions hare⟩
  · simp at hoptions

/-- the text begins with the words else and if, and with blanks between them that are not a single space -/
def Apart (raw : Text) : Prop :=
  ∃ blanks rest : Text, raw = "else" ++ blanks ++ "if" ++ rest ∧ blanks ≠ [] ∧ blanks.all Text.isBlank = true ∧
    blanks ≠ [' ']

theorem blanks_of_afterWord? {word s rest : Text} (h : afterWord? word s = some rest) :
    ∃ blanks, s = word ++ blanks ++ rest ∧ blanks ≠ [] ∧ blanks.all Text.isBlank = true := by
  rw [afterWord?, Option.bind_eq_some_iff] at h
  obtain ⟨r, hr, hblank⟩ := h
  cases r with
  | nil => simp [afterBlanks?] at hblank
  | cons c r =>
    rw [afterBlanks?] at hblank
    split at hblank
    · rename_i hc
      obtain rfl := Option.some.inj hblank
      refine ⟨c :: r.takeWhile Text.isBlank, ?_, List.cons_ne_nil c _, ?_⟩
      · rw [Text.after?_eq_some_iff.1 hr, List.append_assoc, List.cons_append, List.takeWhile_append_dropWhile]
      · rw [List.all_cons, hc, List.all_takeWhile, Bool.and_self]
    · simp at hblank

/-- a branch begins with the one word, with the two words, or with the two words further apart -/
theorem begins_of_elsewhen? {raw text : Text} (h : elsewhen? raw = some text) :
    Spec.beginsWith raw "elseif" = true ∨ Spec.beginsWith raw Registry.twoWords = true ∨ Apart raw := by
  simp only [elsewhen?, Option.orElse_eq_orElse, Option.orElse_eq_or, Option.or_eq_some_iff,
    Option.bind_eq_some_iff] at h
  rcases h with ⟨rest, hrest, hblank⟩ | ⟨-, rest, ⟨r, hr, hrest⟩, hblank⟩
  · exact .inl (Spec.beginsWith_iff.2 ⟨rest, Text.after?_eq_some_iff.1 hrest, atBlank_of_afterBlanksSome? hblank⟩)
  · obtain ⟨blanks, hraw, hne, hall⟩ := blanks_of_afterWord? hr
    rw [Text.after?_eq_some_iff.1 hrest, ← List.append_assoc] at hraw
    by_cases hone : blanks = [' ']
    · refine .inr (.inl (Spec.beginsWith_iff.2 ⟨rest, ?_, atBlank_of_afterBlanksSome? hblank⟩))
      rw [hraw, hone]
      rfl
    · exact .inr (.inr ⟨blanks, rest, hraw, hne, hall, hone⟩)

/-- such a text has else for its first word, and does not begin with the spelling of two -/
theorem leading_of_apart {raw : Text} (h : Apart raw) :
    Spec.leading raw = "else".toList ∧ Spec.beginsWith raw Registry.twoWords = false := by
  obtain ⟨blanks, rest, rfl, hne, hall, hone⟩ := h
  obtain ⟨c, blanks, rfl⟩ := List.exists_cons_of_ne_nil hne
  rw [List.all_cons, Bool.and_eq_true] at hall
  constructor
  · have helse : "else".toList.all (!Text.isBlank ·) = true := by
      simp only [String.reduceToList]
      decide
    rw [Spec.leading, List.append_assoc, List.append_assoc, List.takeWhile_append_of_pos (List.all_eq_true.1 helse)]
    simp [hall.1]
  · rw [Bool.eq_false_iff, Ne, Spec.beginsWith_iff]
    rintro ⟨r, hraw, -⟩
    -- behind the first blank stands an `i` on one side, the next blank on the other
    have hwords : Registry.twoWords = "else".toList ++ [' ', 'i', 'f'] := by
      show "else if".toList = _
      simp
    have htail : c :: (blanks ++ "if".toList ++ rest) = ' ' :: 'i' :: 'f' :: r := by
      rw [hwords] at hraw
      simpa using hraw
    obtain ⟨rfl, hbehind⟩ := List.cons.inj htail
    cases blanks with
    | nil => exact hone rfl
    | cons d blanks =>
      obtain ⟨hd, -⟩ := List.cons.inj hbehind
      rw [List.all_cons, hd] at hall
      have hi : Text.isBlank 'i' = false := by decide
      simp [hi] at hall

end Directive

/-- **A text that follows the grammar of a reader** begins with its keyword, or with the two words of a branch. -/
theorem begins_of_accepts {raw : Text} {r : Reader} (h : r.accepts raw = true) :
    Spec.beginsWith raw r.keyword = true ∨
      r = .elsewhen ∧ (Spec.beginsWith raw Registry.twoWords = true ∨ Apart raw) := by
  cases r <;> simp only [Reader.accepts, Option.isSome_iff_exists, reduceCtorEq] at h
  case elsewhen =>
    obtain ⟨text, h⟩ := h
    exact (begins_of_elsewhen? h).imp id fun h => ⟨rfl, h⟩
  all_goals left
  case otherwise =>
    obtain rfl : raw = "else".toList := by simpa [isOtherwise] using h
    decide
  case conditional =>
    obtain ⟨text, h⟩ := h
    rw [when?, Option.bind_eq_some_iff] at h
    obtain ⟨rest, hrest, hblank⟩ := h
    exact Spec.beginsWith_iff.2 ⟨rest, Text.after?_eq_some_iff.1 hrest, atBlank_of_afterBlanksSome? hblank⟩
  case field =>
    obtain ⟨p, h⟩ := h
    rw [field?, Option.bind_assoc] at h
    exact beginsWith_of_afterWord? h
  case submit =>
    obtain ⟨options, h⟩ := h
    exact beginsWith_of_keywordOptions? h
  case button =>
    obtain ⟨options, h⟩ := h
    exact beginsWith_of_keywordOptions? h
  all_goals
    obtain ⟨parts, h⟩ := h
    exact beginsWith_of_afterWord? h

/-! ## Dispatch -/

namespace Registry

theorem leading_of_twoWords {raw : Text} (h : Spec.beginsWith raw twoWords = true) :
    Spec.leading raw = Spec.leading twoWords := by
  obtain ⟨rest, rfl, -⟩ := Spec.beginsWith_iff.1 h
  rfl

/-- a text that begins with a keyword, and not with the spelling of two words, belongs to its specification -/
theorem match?_of_keyword {comment raw : Text} {e : Text × Spec} (he : e ∈ (standard comment).specs)
    (h : Spec.leading raw = e.2.keyword) (htwo : Spec.beginsWith raw twoWords = false) :
    (standard comment).match? raw = some e.2 := by
  have hspelled := spelled_standard comment e he
  obtain ⟨hmem, hall⟩ := hspelled.keyword
  rw [← match?_spelling comment e he _ hmem]
  apply match?_congr
  · rw [h, Spec.leading, List.takeWhile_eq_self_iff.2 (List.all_eq_true.1 hall)]
  · rw [htwo, hspelled.apart]

/-- a text that begins with the spelling of two words belongs to the specification of a branch -/
theorem match?_of_twoWords {comment raw : Text} {e : Text × Spec} (he : e ∈ (standard comment).specs)
    (hreader : e.2.reader = .elsewhen) (h : Spec.beginsWith raw twoWords = true) :
    (standard comment).match? raw = some e.2 := by
  rw [← match?_spelling comment e he _ ((spelled_standard comment e he).branch hreader)]
  exact match?_congr (leading_of_twoWords h) (h.trans (by decide))

theorem classify_of_match? {r : Registry} {raw : Text} {spec : Spec} (hmark : Text.startsWith raw r.comment = false)
    (h : r.match? raw = some spec) : r.classify raw = spec.kind := by
  rw [classify, hmark, h]
  rfl

/-- the specification of the last branch -/
theorem exists_otherwise (comment : Text) : ∃ e ∈ (standard comment).specs,
    e.2.keyword = "else".toList ∧ e.2.reader = .otherwise ∧ e.2.kind = .otherwise := by
  rw [specs_standard]
  decide

end Registry

theorem ne_else_of_apart {raw : Text} (h : Apart raw) : raw ≠ "else".toList := by
  obtain ⟨blanks, rest, rfl, -⟩ := h
  intro hraw
  simpa using congrArg List.length hraw

/-- a text that follows the grammar of a reader and has else for its first word is the word alone, or a branch -/
theorem eq_else_of_leading {raw : Text} {r : Reader} (h : r.accepts raw = true)
    (hword : r.keyword = "else".toList) : raw = "else".toList := by
  cases r <;> first | (exact absurd hword (by decide)) | simpa [Reader.accepts, isOtherwise] using h

/-- **Grammars and spellings**: a text that follows the grammar of a registered specification, and is no comment,
belongs to that specification and has its kind, however its words are spelled and whatever blanks stand between
them; but for the words of a branch with other blanks between them than one space. Those have the kind of a last
branch, and are refused as malformed. -/
theorem match_of_accepts {comment raw : Text} {e : Text × Spec} (hmark : Text.startsWith raw comment = false)
    (he : e ∈ (Registry.standard comment).specs) (h : e.2.reader.accepts raw = true) :
    (¬ Apart raw → (Registry.standard comment).match? raw = some e.2 ∧
      (Registry.standard comment).classify raw = e.2.kind) ∧
    (Apart raw → e.2.kind = .elsewhen ∧ (Registry.standard comment).classify raw = .otherwise ∧
      ∃ spec, (Registry.standard comment).match? raw = some spec ∧ spec.reader = .otherwise ∧
        ∀ m t c, t.raw = raw → spec.reader.first m t c = malformed t) := by
  have hspelled := Registry.spelled_standard comment e he
  have hall := hspelled.keyword.2
  obtain ⟨hkeyword, hkind⟩ := hspelled.reader
  have hleading (h : Spec.beginsWith raw e.2.reader.keyword = true) : Spec.leading raw = e.2.keyword := by
    rwa [← hkeyword, Spec.beginsWith_eq_leading hall, beq_iff_eq] at h
  have helse (h' : e.2.keyword = "else".toList) : raw = "else".toList := eq_else_of_leading h (hkeyword.symm.trans h')
  constructor
  · intro hapart
    have hmatch : (Registry.standard comment).match? raw = some e.2 := by
      rcases begins_of_accepts h with hbegins | ⟨hreader, htwo | hapart'⟩
      · by_cases htwo : Spec.beginsWith raw Registry.twoWords = true
        · have hraw := helse (by
            rw [← hleading hbegins, Registry.leading_of_twoWords htwo]
            decide)
          rw [hraw] at htwo
          exact absurd htwo (by decide)
        · exact Registry.match?_of_keyword he (hleading hbegins) (by simpa using htwo)
      · exact Registry.match?_of_twoWords he hreader htwo
      · exact absurd hapart' hapart
    exact ⟨hmatch, Registry.classify_of_match? hmark hmatch⟩
  · intro hapart
    obtain ⟨hword, htwo⟩ := leading_of_apart hapart
    have hne : raw ≠ "else".toList := ne_else_of_apart hapart
    obtain ⟨e', he', hword', hreader', hkind'⟩ := Registry.exists_otherwise comment
    have hmatch := Registry.match?_of_keyword he' (hword.trans hword'.symm) htwo
    refine ⟨?_, (Registry.classify_of_match? hmark hmatch).trans hkind', e'.2, hmatch, hreader', ?_⟩
    · rcases begins_of_accepts h with hbegins | ⟨hreader, -⟩
      · exact absurd (helse ((hleading hbegins).symm.trans hword)) hne
      · rw [hkind] at hreader
        cases hk : e.2.kind <;> simp [hk, TokenKind.reader] at hreader ⊢
    · intro m t c ht
      have hrefused : Reader.otherwise.accepts t.raw = false := by
        rw [ht, Reader.accepts, isOtherwise, beq_eq_false_iff_ne]
        exact hne
      rw [hreader']
      exact Reader.first_of_not_accepts (by decide) hrefused

/-- blanks of three kinds in front of the name of a section -/
theorem section_wide :
    ∃ e ∈ (Registry.standard "#").specs, Text.startsWith "section \t\n side-bar" "#" = false ∧
      e.2.reader.accepts "section \t\n side-bar".toList = true ∧
      (Registry.standard "#").match? "section \t\n side-bar" = some e.2 ∧
      (Registry.standard "#").classify "section \t\n side-bar" = e.2.kind := by
  have hnot : ¬ Apart "section \t\n side-bar".toList := fun h => absurd (leading_of_apart h).1 (by decide)
  refine ⟨(Registry.standard "#").specs[2], List.getElem_mem (by decide), by decide,
    by decide, ?_⟩
  exact (match_of_accepts (by decide) (List.getElem_mem _) (by decide)).1 hnot

/-- two spaces between the words of a branch: the grammar of branches takes the text, the registry gives it to the
last branch -/
theorem else_wide_if :
    ∃ e ∈ (Registry.standard "#").specs, Text.startsWith "else  if b" "#" = false ∧
      e.2.reader.accepts "else  if b".toList = true ∧ (Registry.standard "#").match? "else  if b" ≠ some e.2 ∧
      e.2.kind = .elsewhen ∧ (Registry.standard "#").classify "else  if b" = .otherwise := by
  decide

end Stencil
