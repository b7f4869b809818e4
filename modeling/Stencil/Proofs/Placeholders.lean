/-
FIELDS WITHOUT A PARAMETER. A phrase consists of characters, of doubled braces, and of fields: a name with accessors, a
conversion and a specification, both optional. A field whose name is no parameter gets its name in braces for a value,
and what the field asks for is then done to that value. So it stands as it is written if it is its name and no more; a
conversion or a specification is carried out and gone.

- `FieldText`, `PhrasePart`: a field and a part of a phrase as they are written.
- `pieces_texts`, `exists_parts`: the parts of a phrase, and that every phrase without a flaw of form has parts.
- `fill_texts`: a phrase is filled in part by part.
- `fill_unknown_iff`: a field without accessors stands as it is written exactly if it is its name and no more.
- `unknown_fields_stay`: what a catalog has for a key.
-/
import Stencil.Proofs.Filling

namespace Stencil.Phrase

/-! ## Phrases as they are written -/

/-- a name with accessors, where no mark ends it and each bracket is closed -/
def isFieldName (bracket : Bool) : Text → Bool
  | [] => !bracket
  | c :: cs =>
    if bracket then isFieldName (c != ']') cs
    else !(c == '\x7b' || c == '\x7d' || c == ':' || c == '!') && isFieldName (c == '[') cs

/-- a specification, where each brace that closes a field has one that opens it, `depth` of them before -/
def isSpecification (depth : Nat) : Text → Bool
  | [] => depth == 0
  | c :: cs =>
    if c == '\x7d' then
      match depth with
      | 0 => false
      | d + 1 => isSpecification d cs
    else isSpecification (if c == '\x7b' then depth + 1 else depth) cs

/-- a field as it is written -/
structure FieldText where
  name : Text
  conversion : Option Char
  spec : Option Text
  isName : isFieldName false name = true
  isSpec : spec.all (isSpecification 0) = true

namespace FieldText

/-- a conversion with its mark -/
def conversionText : Option Char → Text
  | some v => ['!', v]
  | none => []

/-- a specification with its mark -/
def specText : Option Text → Text
  | some s => ':' :: s
  | none => []

/-- what stands behind the name -/
def tail (f : FieldText) : Text := conversionText f.conversion ++ specText f.spec

/-- the field -/
def text (f : FieldText) : Text := '\x7b' :: (f.name ++ (f.tail ++ ['\x7d']))

/-- the field that is read -/
def field (f : FieldText) : Field := ⟨f.name, f.conversion, f.spec.getD []⟩

end FieldText

/-- a part of a phrase as it is written -/
inductive PhrasePart where
  | char (c : Char) (plain : c ≠ '\x7b' ∧ c ≠ '\x7d')
  | doubled (c : Char) (brace : c = '\x7b' ∨ c = '\x7d')
  | field (f : FieldText)

namespace PhrasePart

/-- the part -/
def text : PhrasePart → Text
  | char c _ => [c]
  | doubled c _ => [c, c]
  | field f => f.text

/-- the piece that is read -/
def piece : PhrasePart → Piece
  | char c _ => .char c
  | doubled c _ => .char c
  | field f => .field f.field

/-- parts one behind the other -/
def texts (ps : List PhrasePart) : Text := ps.flatMap text

end PhrasePart

/-! ## Reading what is written -/

section

variable {s rest : Text}

/-- the marks that end a name -/
def endsName (c : Char) : Bool := c == '\x7d' || c == ':' || c == '!'

/-- a name is read up to the mark that ends it -/
theorem takeName_written {bracket : Bool} {name : Text} {mark : Char} (hname : isFieldName bracket name = true)
    (hmark : endsName mark = true) : takeName bracket (name ++ mark :: rest) = .ok (name, mark, rest) := by
  induction name generalizing bracket with
  | nil =>
    have hbracket : bracket = false := by simpa [isFieldName] using hname
    have hopen : (mark == '\x7b') = false := by
      rw [beq_eq_false_iff_ne]
      rintro rfl
      cases hmark
    have hends : (mark == '\x7d' || mark == ':' || mark == '!') = true := hmark
    rw [hbracket, List.nil_append, takeName, if_neg Bool.false_ne_true, hopen, if_neg Bool.false_ne_true, if_pos hends]
  | cons c cs ih =>
    rw [List.cons_append, takeName]
    cases bracket with
    | true =>
      rw [isFieldName, if_pos rfl] at hname
      rw [if_pos rfl, ih hname, map_ok]
    | false =>
      simp only [isFieldName, Bool.false_eq_true, if_false, Bool.and_eq_true, Bool.not_eq_true',
        Bool.or_eq_false_iff] at hname
      obtain ⟨⟨⟨⟨hopen, hclose⟩, hcolon⟩, hmark'⟩, hname⟩ := hname
      simp only [Bool.false_eq_true, if_false, hopen, hclose, hcolon, hmark', Bool.or_self, ih hname, map_ok]

theorem written_of_takeName {bracket : Bool} {name : Text} {mark : Char}
    (h : takeName bracket s = .ok (name, mark, rest)) :
    isFieldName bracket name = true ∧ endsName mark = true ∧ s = name ++ mark :: rest := by
  induction s generalizing bracket name with
  | nil => cases h
  | cons c cs ih =>
    have hlater {b : Bool} (h : (takeName b cs).map (fun p => (c :: p.1, p.2)) = .ok (name, mark, rest)) :
        ∃ name', name = c :: name' ∧ isFieldName b name' = true ∧ endsName mark = true ∧
          cs = name' ++ mark :: rest := by
      rw [map_eq_ok] at h
      obtain ⟨⟨name', mark', rest'⟩, htake, heq⟩ := h
      cases heq
      exact ⟨name', rfl, ih htake⟩
    rw [takeName] at h
    cases bracket with
    | true =>
      rw [if_pos rfl] at h
      obtain ⟨name', rfl, hname, hmark, rfl⟩ := hlater h
      exact ⟨by rw [isFieldName, if_pos rfl, hname], hmark, rfl⟩
    | false =>
      rw [if_neg Bool.false_ne_true] at h
      split at h
      · cases h
      · rename_i hopen
        split at h
        · rename_i hends
          cases h
          exact ⟨rfl, hends, rfl⟩
        · rename_i hends
          obtain ⟨name', rfl, hname, hmark, rfl⟩ := hlater h
          refine ⟨?_, hmark, rfl⟩
          simp only [Bool.or_eq_true, not_or, Bool.not_eq_true] at hopen hends
          simp only [isFieldName, Bool.false_eq_true, if_false, hopen, hends, Bool.or_self, Bool.not_false,
            Bool.true_and, hname]

/-- a specification is read up to the brace that closes the field -/
theorem takeSpec_written {depth : Nat} {spec : Text} (hspec : isSpecification depth spec = true) :
    takeSpec depth (spec ++ '\x7d' :: rest) = .ok (spec, rest) := by
  induction spec generalizing depth with
  | nil =>
    have hdepth : depth = 0 := by simpa [isSpecification] using hspec
    subst hdepth
    rfl
  | cons c cs ih =>
    rw [List.cons_append]
    by_cases hclose : c = '\x7d'
    · subst hclose
      cases depth with
      | zero => cases hspec
      | succ d =>
        have hspec' : isSpecification d cs = true := hspec
        simp only [takeSpec, BEq.rfl, if_true, ih hspec', map_ok]
    · have hclose' : (c == '\x7d') = false := beq_eq_false_iff_ne.2 hclose
      rw [isSpecification.eq_def] at hspec
      simp only [hclose', Bool.false_eq_true, if_false] at hspec
      rw [takeSpec.eq_def]
      simp only [hclose', Bool.false_eq_true, if_false, ih hspec, map_ok]

theorem written_of_takeSpec {depth : Nat} {spec : Text} (h : takeSpec depth s = .ok (spec, rest)) :
    isSpecification depth spec = true ∧ s = spec ++ '\x7d' :: rest := by
  induction s generalizing depth spec with
  | nil => cases h
  | cons c cs ih =>
    have hlater {d : Nat} (h : (takeSpec d cs).map (fun p => (c :: p.1, p.2)) = .ok (spec, rest)) :
        ∃ spec', spec = c :: spec' ∧ isSpecification d spec' = true ∧ cs = spec' ++ '\x7d' :: rest := by
      rw [map_eq_ok] at h
      obtain ⟨⟨spec', rest'⟩, htake, heq⟩ := h
      cases heq
      exact ⟨spec', rfl, ih htake⟩
    rw [takeSpec.eq_def] at h
    dsimp only at h
    split at h
    · rename_i hclose
      rw [beq_iff_eq] at hclose
      subst hclose
      split at h
      · cases h
        exact ⟨rfl, rfl⟩
      · rename_i d
        obtain ⟨spec', rfl, hspec, rfl⟩ := hlater h
        exact ⟨hspec, rfl⟩
    · rename_i hclose
      obtain ⟨spec', rfl, hspec, rfl⟩ := hlater h
      refine ⟨?_, rfl⟩
      rw [isSpecification.eq_def]
      simp only [hclose, Bool.false_eq_true, if_false, hspec]

theorem takeConversion_written {spec : Option Text} (hspec : spec.all (isSpecification 0) = true) (v : Char) :
    takeConversion (v :: (FieldText.specText spec ++ '\x7d' :: rest)) = .ok (v, spec.getD [], rest) := by
  cases spec with
  | none => rfl
  | some spec =>
    have htake : takeSpec 0 (spec ++ '\x7d' :: rest) = .ok (spec, rest) := takeSpec_written hspec
    have hcolon : (':' == '\x7d') = false := rfl
    simp only [FieldText.specText, List.cons_append, takeConversion, hcolon, Bool.false_eq_true, if_false, BEq.rfl,
      if_true, htake, map_ok, Option.getD_some]

theorem written_of_takeConversion {v : Char} {spec : Text} (h : takeConversion s = .ok (v, spec, rest)) :
    ∃ t : Option Text, t.all (isSpecification 0) = true ∧ spec = t.getD [] ∧
      s = v :: (FieldText.specText t ++ '\x7d' :: rest) := by
  unfold takeConversion at h
  split at h
  · cases h
  · cases h
  · rename_i v' c cs
    split at h
    · rename_i hc
      cases h
      exact ⟨none, rfl, rfl, by rw [beq_iff_eq.1 hc]; rfl⟩
    · split at h
      · rename_i hc
        obtain ⟨⟨spec', rest'⟩, htake, heq⟩ := map_eq_ok.1 h
        cases heq
        obtain ⟨hspec, rfl⟩ := written_of_takeSpec htake
        exact ⟨some _, hspec, rfl, by rw [beq_iff_eq.1 hc]; rfl⟩
      · cases h

/-- **A field is read as it is written.** -/
theorem takeField_written (f : FieldText) :
    takeField (f.name ++ (f.tail ++ '\x7d' :: rest)) = .ok (f.field, rest) := by
  obtain ⟨name, conversion, spec, hname, hspec⟩ := f
  cases conversion with
  | some v =>
    have htake : takeName false (name ++ '!' :: v :: (FieldText.specText spec ++ '\x7d' :: rest)) =
        .ok (name, '!', v :: (FieldText.specText spec ++ '\x7d' :: rest)) := takeName_written hname rfl
    simp [takeField, FieldText.tail, FieldText.conversionText, htake, takeConversion_written hspec, FieldText.field]
  | none =>
    cases spec with
    | some spec =>
      have htake : takeName false (name ++ ':' :: (spec ++ '\x7d' :: rest)) =
          .ok (name, ':', spec ++ '\x7d' :: rest) := takeName_written hname rfl
      have hspec : takeSpec 0 (spec ++ '\x7d' :: rest) = .ok (spec, rest) := takeSpec_written hspec
      simp [takeField, FieldText.tail, FieldText.conversionText, FieldText.specText, htake, hspec, FieldText.field]
    | none =>
      have htake : takeName false (name ++ '\x7d' :: rest) = .ok (name, '\x7d', rest) := takeName_written hname rfl
      simp [takeField, FieldText.tail, FieldText.conversionText, FieldText.specText, htake, FieldText.field]

/-- what is read as a field is written so -/
theorem written_of_takeField {f : Field} (h : takeField s = .ok (f, rest)) :
    ∃ t : FieldText, f = t.field ∧ s = t.name ++ (t.tail ++ '\x7d' :: rest) := by
  rw [takeField, bind_eq_ok] at h
  obtain ⟨⟨name, mark, after⟩, htake, h⟩ := h
  obtain ⟨hname, hmark, rfl⟩ := written_of_takeName htake
  dsimp only at h
  split at h
  · rename_i hbang
    rw [bind_eq_ok] at h
    obtain ⟨⟨v, spec, rest'⟩, hconversion, h⟩ := h
    cases h
    obtain ⟨t, ht, rfl, rfl⟩ := written_of_takeConversion hconversion
    exact ⟨⟨name, some v, t, hname, ht⟩, rfl, by rw [beq_iff_eq.1 hbang]; rfl⟩
  · split at h
    · rename_i hcolon
      rw [bind_eq_ok] at h
      obtain ⟨⟨spec, rest'⟩, hspec, h⟩ := h
      cases h
      obtain ⟨hproper, rfl⟩ := written_of_takeSpec hspec
      exact ⟨⟨name, none, some spec, hname, hproper⟩, rfl, by rw [beq_iff_eq.1 hcolon]; rfl⟩
    · rename_i hbang hcolon
      cases h
      have hclose : mark = '\x7d' := by
        simpa [endsName, hbang, hcolon] using hmark
      exact ⟨⟨name, none, none, hname, rfl⟩, rfl, by rw [hclose]; rfl⟩

end

/-! ## The parts of a phrase -/

open PhrasePart

/-- a character that is no brace stands for itself -/
theorem pieces_char {c : Char} (hopen : c ≠ '\x7b') (hclose : c ≠ '\x7d') (rest : Text) :
    pieces (c :: rest) = .char c :: pieces rest := by
  rw [pieces]
  · rintro rfl _
    exact hopen rfl
  · rintro _ rfl _
    exact hopen rfl
  · rintro _ rfl _
    exact hclose rfl
  · exact hclose
  · exact hopen

/-- **A phrase is read part by part.** -/
theorem pieces_texts (ps : List PhrasePart) : pieces (texts ps) = ps.map piece := by
  induction ps with
  | nil => rw [texts, List.flatMap_nil, pieces, List.map_nil]
  | cons p ps ih =>
    have htexts : texts (p :: ps) = p.text ++ texts ps := rfl
    rw [htexts, List.map_cons, ← ih]
    cases p with
    | char c plain => rw [PhrasePart.text, List.singleton_append, pieces_char plain.1 plain.2, piece]
    | doubled c brace =>
      rcases brace with rfl | rfl
      · rw [PhrasePart.text, List.cons_append, List.cons_append, List.nil_append, pieces]
        rfl
      · rw [PhrasePart.text, List.cons_append, List.cons_append, List.nil_append, pieces]
        rfl
    | field f =>
      have hfield : PhrasePart.text (.field f) ++ texts ps =
          '\x7b' :: (f.name ++ (f.tail ++ '\x7d' :: texts ps)) := by
        simp [PhrasePart.text, FieldText.text]
      rw [hfield, pieces_field (takeField_written f)]
      rfl

/-- **A phrase whose form is without flaw** has parts. -/
theorem exists_parts {s : Text} (h : ∀ flaw, Piece.broken flaw ∉ pieces s) :
    ∃ ps : List PhrasePart, s = texts ps := by
  induction s using pieces.induct with
  | case1 => exact ⟨[], rfl⟩
  | case2 => exact absurd (by rw [pieces]; exact List.mem_singleton_self _) (h .loneOpening)
  | case3 rest ih =>
    rw [pieces] at h
    obtain ⟨ps, rfl⟩ := ih fun flaw hflaw => h flaw (List.mem_cons_of_mem _ hflaw)
    exact ⟨.doubled _ (.inl rfl) :: ps, rfl⟩
  | case4 rest ih =>
    rw [pieces] at h
    obtain ⟨ps, rfl⟩ := ih fun flaw hflaw => h flaw (List.mem_cons_of_mem _ hflaw)
    exact ⟨.doubled _ (.inr rfl) :: ps, rfl⟩
  | case5 tail htail =>
    refine absurd ?_ (h .loneClosing)
    rw [pieces]
    · exact List.mem_singleton_self _
    · exact htail
  | case6 rest hne hopen f rest' hf ih =>
    rw [pieces_field hf] at h
    obtain ⟨ps, rfl⟩ := ih fun flaw hflaw => h flaw (List.mem_cons_of_mem _ hflaw)
    obtain ⟨t, rfl, rfl⟩ := written_of_takeField hf
    exact ⟨.field t :: ps, by simp [texts, PhrasePart.text, FieldText.text]⟩
  | case7 rest hne hopen flaw hf =>
    refine absurd ?_ (h flaw)
    rw [pieces]
    · split
      · rename_i f rest' hf'
        rw [hf] at hf'
        cases hf'
      · rename_i flaw' hflaw
        rw [hf] at hflaw
        cases hflaw
        exact List.mem_singleton_self _
    · exact hne
    · exact hopen
  | case8 c rest h₁ h₂ h₃ hclose hopen ih =>
    rw [pieces_char hopen hclose] at h
    obtain ⟨ps, rfl⟩ := ih fun flaw hflaw => h flaw (List.mem_cons_of_mem _ hflaw)
    exact ⟨.char c ⟨hopen, hclose⟩ :: ps, rfl⟩

/-! ## Fields whose name is no parameter -/

namespace FieldText

/-- the name that a field begins with is that of a parameter -/
def isKnown (es : Entries) (f : FieldText) : Bool := (Value.find? (.text (f.name.takeWhile continuesName)) es).isSome

/-- a field without accessors -/
def isPlain (f : FieldText) : Bool := f.name.all continuesName

/-- a field that is the name of a parameter and no more -/
structure Bare (f : FieldText) : Prop where
  plain : f.isPlain = true
  name : parameter? f.name = .ok f.name
  conversion : f.conversion = none
  spec : f.spec = none

theorem Bare.text_eq {f : FieldText} (h : f.Bare) : f.text = '\x7b' :: f.name ++ ['\x7d'] := by
  simp [text, tail, h.conversion, h.spec, conversionText, specText]

end FieldText

section

variable {es : Entries} {f : FieldText}

/-- a field without accessors is its first name, and nothing is behind it -/
theorem first_of_plain (h : f.isPlain = true) :
    f.name.takeWhile continuesName = f.name ∧ f.name.dropWhile continuesName = [] := by
  have hall : ∀ c ∈ f.name, continuesName c = true := List.all_eq_true.1 h
  exact ⟨List.takeWhile_eq_self_iff.2 hall, List.dropWhile_eq_nil_iff.2 hall⟩

theorem eq_of_parameter? (hplain : f.isPlain = true) {first : Text} (h : parameter? f.name = .ok first) :
    first = f.name := by
  rw [parameter?, (first_of_plain hplain).1, bind_eq_ok] at h
  obtain ⟨n, -, h⟩ := h
  dsimp only at h
  split at h
  · cases h
  · cases h
    rfl

/-- what stands for a name that is no parameter -/
def standIn (name : Text) : Text := '\x7b' :: name ++ ['\x7d']

/-- **A field without accessors whose name is no parameter** looks at the name in braces, if that can be a name. -/
theorem thing_unknown (hplain : f.isPlain = true) (hunknown : f.isKnown es = false) :
    f.field.thing (argument es) =
      ((parameter? f.name).mapError Stop.flaw).map fun first => .value (.text (standIn first)) := by
  obtain ⟨htake, hdrop⟩ := first_of_plain hplain
  have hargument : argument es f.name = .text (standIn f.name) := by
    rw [FieldText.isKnown, htake, Option.isSome_eq_false_iff, Option.isNone_iff_eq_none] at hunknown
    rw [argument, hunknown, Option.getD_none]
    rfl
  rw [Field.thing]
  cases hname : parameter? f.name with
  | error flaw => simp [FieldText.field, hname, Except.mapError]
  | ok first => simp [FieldText.field, hname, Except.mapError, hdrop, steps, eq_of_parameter? hplain hname, hargument]

/-- **A field that is its name and no more** stands as it is written. -/
theorem fill_bare (hbare : f.Bare) (hunknown : f.isKnown es = false) (inner : Text → Except Stop Text) :
    (Piece.field f.field).fill (argument es) inner = .ok f.text := by
  have hthing := thing_unknown hbare.plain hunknown
  rw [hbare.name] at hthing
  have hconversion : f.field.conversion = none := hbare.conversion
  have hspec : f.field.spec = [] := by rw [FieldText.field, hbare.spec, Option.getD_none]
  rw [Piece.fill, hthing, hconversion, hspec, hbare.text_eq]
  rfl

/-! ## What specifications and conversions leave -/

/-- a text set in a field is a part of it between characters that fill -/
theorem format_text {s spec out : Text} {id : Identity} (h : format (.value (.text s id)) spec = .ok out) :
    ∃ (n before after : Nat) (fill : Char),
      out = List.replicate before fill ++ s.take n ++ List.replicate after fill := by
  rw [format] at h
  split at h
  · cases h
    exact ⟨s.length, 0, 0, ' ', by simp [Thing.display, Value.display, Value.chars?]⟩
  · simp only [setValue, bind_eq_ok] at h
    obtain ⟨f, -, a, -, h⟩ := h
    cases h
    unfold Alignment.apply
    cases a.precision with
    | some n => exact ⟨n, _, _, a.fill, rfl⟩
    | none => exact ⟨s.length, _, _, a.fill, by rw [List.take_length]⟩

/-- **A mark inside braces** is not brought in by filling: the character that fills would stand at an end. -/
theorem not_filled {s t : Text} {mark fill : Char} {n before after : Nat} (hs : mark ∉ s) (ht : mark ∈ t)
    (hopen : mark ≠ '\x7b') (hclose : mark ≠ '\x7d') :
    '\x7b' :: (t ++ ['\x7d']) ≠ List.replicate before fill ++ s.take n ++ List.replicate after fill := by
  intro h
  have hmem : mark ∈ List.replicate before fill ++ s.take n ++ List.replicate after fill := by
    rw [← h]
    simp [ht]
  rcases List.mem_append.1 hmem with hmem | hmem
  · rcases List.mem_append.1 hmem with hmem | hmem
    · obtain ⟨hpos, rfl⟩ := List.mem_replicate.1 hmem
      obtain ⟨k, rfl⟩ := Nat.exists_eq_succ_of_ne_zero hpos
      rw [List.replicate_succ, List.cons_append, List.cons_append, List.cons.injEq] at h
      exact hopen h.1.symm
    · exact hs (List.take_subset _ _ hmem)
  · obtain ⟨hpos, rfl⟩ := List.mem_replicate.1 hmem
    obtain ⟨k, rfl⟩ := Nat.exists_eq_succ_of_ne_zero hpos
    have hlast := congrArg List.getLast? h
    rw [List.replicate_succ', ← List.append_assoc, List.getLast?_concat, ← List.cons_append, List.getLast?_concat,
      Option.some.injEq] at hlast
    exact hclose hlast.symm

/-- the marks of conversions and specifications -/
def fieldMarks : List Char := ['!', ':']

/-- a name without accessors has none of the marks -/
theorem avoids_name {name : Text} (hname : isFieldName false name = true) (hplain : name.all continuesName = true) :
    name.Avoids fieldMarks := by
  induction name with
  | nil => exact nofun
  | cons c cs ih =>
    rw [List.all_cons, Bool.and_eq_true] at hplain
    have hbracket : (c == '[') = false := by
      rw [beq_eq_false_iff_ne]
      rintro rfl
      exact absurd hplain.1 (by decide)
    simp only [isFieldName, Bool.false_eq_true, if_false, hbracket, Bool.and_eq_true, Bool.not_eq_true',
      Bool.or_eq_false_iff, beq_eq_false_iff_ne] at hname
    obtain ⟨⟨⟨-, hcolon⟩, hbang⟩, hname⟩ := hname
    exact Text.avoids_cons.2 ⟨by simp [fieldMarks, hcolon, hbang], ih hname hplain.2⟩

theorem avoids_convert {s : Text} (hs : s.Avoids fieldMarks) {conversion : Option Char} {t : Thing}
    (h : convert (.value (.text s)) conversion = .ok t) : ∃ u : Text, t = .value (.text u) ∧ u.Avoids fieldMarks := by
  have hliteral : (Text.Quoted.encode s).Avoids fieldMarks := by
    refine Text.Quoted.avoids_quoted (by decide) ?_ hs
    unfold Text.Quoted.markFor
    split <;> decide
  unfold convert at h
  split at h
  · cases h
    exact ⟨s, rfl, hs⟩
  · cases h
    exact ⟨_, rfl, hliteral⟩
  · cases h
    exact ⟨s, rfl, hs⟩
  · cases h
    exact ⟨_, rfl, Text.Quoted.avoids_toAscii (by decide) hliteral⟩
  · cases h

/-- **A field without accessors whose name is no parameter stands as it is written** exactly if it is its name and no
more. -/
theorem fill_unknown_iff (hplain : f.isPlain = true) (hunknown : f.isKnown es = false)
    (inner : Text → Except Stop Text) :
    (Piece.field f.field).fill (argument es) inner = .ok f.text ↔ f.Bare := by
  refine ⟨fun h => ?_, fun hbare => fill_bare hbare hunknown inner⟩
  rw [Piece.fill, thing_unknown hplain hunknown, bind_eq_ok] at h
  obtain ⟨t, hthing, h⟩ := h
  obtain ⟨first, hfirst, rfl⟩ := map_eq_ok.1 hthing
  rw [mapError_eq_ok] at hfirst
  obtain rfl := eq_of_parameter? hplain hfirst
  rw [bind_eq_ok] at h
  obtain ⟨u, hconvert, h⟩ := h
  have hformat : ∃ spec, format u spec = .ok f.text := by
    split at h
    · obtain ⟨spec, -, h⟩ := bind_eq_ok.1 h
      exact ⟨spec, h⟩
    · exact ⟨_, h⟩
  obtain ⟨spec, hformat⟩ := hformat
  have hstandIn : (standIn f.name).Avoids fieldMarks :=
    Text.avoids_cons.2 ⟨by decide, Text.avoids_append.2 ⟨avoids_name f.isName hplain, by decide⟩⟩
  obtain ⟨core, rfl, hcore⟩ := avoids_convert hstandIn hconvert
  obtain ⟨n, before, after, fill, hout⟩ := format_text hformat
  have htext : f.text = '\x7b' :: ((f.name ++ f.tail) ++ ['\x7d']) := by simp [FieldText.text]
  rw [htext] at hout
  -- a mark behind the name would have to stand in what the field looks at
  have hmark : ∀ mark ∈ fieldMarks, mark ∉ f.tail := by
    intro mark hmark hmem
    have hbraces : mark ≠ '\x7b' ∧ mark ≠ '\x7d' := by
      have hall : ∀ c ∈ fieldMarks, c ≠ '\x7b' ∧ c ≠ '\x7d' := by simp [fieldMarks]
      exact hall mark hmark
    exact not_filled (fun hc => hcore mark hc hmark) (List.mem_append_right _ hmem) hbraces.1 hbraces.2 hout
  refine ⟨hplain, hfirst, ?_, ?_⟩
  · cases hconversion : f.conversion with
    | none => rfl
    | some v => exact absurd (by simp [FieldText.tail, hconversion, FieldText.conversionText]) (hmark '!' (by decide))
  · cases hspec : f.spec with
    | none => rfl
    | some spec => exact absurd (by simp [FieldText.tail, hspec, FieldText.specText]) (hmark ':' (by decide))

end

/-! ## Phrases filled in -/

/-- what stands for a part: a field whose name is no parameter as it is written -/
def PhrasePart.outcome (es : Entries) : PhrasePart → Except Stop Text
  | .char c _ => .ok [c]
  | .doubled c _ => .ok [c]
  | .field f => if f.isKnown es then (Piece.field f.field).fill (argument es) (fillTo (argument es) 1) else .ok f.text

theorem fill_eq (es : Entries) (s : Text) : fill es s = do
    let texts ← (pieces s).mapM (Piece.fill (argument es) (fillTo (argument es) 1))
    return Text.cat texts := rfl

/-- **A phrase is filled in part by part**, if its fields without a parameter are their names and no more. -/
theorem fill_texts {es : Entries} {ps : List PhrasePart}
    (hbare : ∀ f, .field f ∈ ps → f.isKnown es = false → f.Bare) :
    fill es (texts ps) = (ps.mapM (PhrasePart.outcome es)).map Text.cat := by
  have hpart : ∀ p ∈ ps, (p.piece.fill (argument es) (fillTo (argument es) 1)) = p.outcome es := by
    intro p hp
    cases p with
    | char c plain => rfl
    | doubled c brace => rfl
    | field f =>
      rw [PhrasePart.outcome]
      split
      · rfl
      · rename_i hknown
        have hunknown : f.isKnown es = false := Bool.eq_false_iff.2 hknown
        exact fill_bare (hbare f hp hunknown) hunknown _
  have hmap : (pieces (texts ps)).mapM (Piece.fill (argument es) (fillTo (argument es) 1)) =
      ps.mapM (PhrasePart.outcome es) := by
    rw [pieces_texts]
    clear hbare
    induction ps with
    | nil => rfl
    | cons p ps ih =>
      obtain ⟨hp, hps⟩ := List.forall_mem_cons.1 hpart
      rw [List.map_cons, List.mapM_cons, List.mapM_cons, hp, ih hps]
  rw [fill_eq, hmap]
  cases ps.mapM (PhrasePart.outcome es) <;> rfl

end Stencil.Phrase

namespace Stencil.Catalog

open Phrase PhrasePart

/-- a translation with parameters is the phrase filled in, or as it is written if it has a flaw -/
theorem translate_eq {c : Catalog} {key params : Value} {s : Text} {es : Entries}
    (hmessage : c.message? key = .ok (some s)) (hparams : params.orEmpty = .mapping es) :
    c.translate key params =
      match fill es s with
      | .ok text => return ⟨some text, []⟩
      | .error (.flaw flaw) => return asWritten key s flaw
      | .error (.failure e) => throw e := by
  have hok : (liftM (c.message? key) : Work (Option Text)) = pure (some s) := by rw [hmessage]; rfl
  have hentries {α : Type} (k : Option Entries → Work α) : (parameters? params >>= k) = k (some es) := by
    have hpure : parameters? params = pure (some es) := by
      rw [parameters?, hparams]
      rfl
    rw [hpure, pure_bind]
  rw [translate, hok, pure_bind]
  exact hentries _

/-- **Fields without a parameter stay in a translation.** A phrase whose form is without flaw has parts. If its fields
whose name is no parameter are that name and no more, they stand in the text as they are written, and the other parts
are filled in around them. Of the fields without accessors no others stand as they are written. -/
theorem unknown_fields_stay {s : Text} (hform : ∀ flaw, Piece.broken flaw ∉ pieces s) :
    (∃ ps : List PhrasePart, s = texts ps) ∧
    ∀ ps : List PhrasePart, s = texts ps → ∀ es : Entries,
      ((∀ f, .field f ∈ ps → f.isKnown es = false → f.Bare) →
        ∀ (c : Catalog) (key params : Value), c.message? key = .ok (some s) → params.orEmpty = .mapping es →
          c.translate key params =
            match ps.mapM (outcome es) with
            | .ok ts => return ⟨some (Text.cat ts), []⟩
            | .error (.flaw flaw) => return asWritten key s flaw
            | .error (.failure e) => throw e) ∧
      ∀ f, .field f ∈ ps → f.isPlain = true → f.isKnown es = false → ∀ inner,
        ((Piece.field f.field).fill (argument es) inner = .ok f.text ↔ f.Bare) := by
  refine ⟨exists_parts hform, fun ps hs es => ⟨fun hbare c key params hmessage hparams => ?_, ?_⟩⟩
  · have hfill : fill es s = (ps.mapM (outcome es)).map Text.cat := by rw [hs, fill_texts hbare]
    rw [translate_eq hmessage hparams, hfill]
    cases ps.mapM (outcome es) with
    | ok ts => rfl
    | error stop => cases stop <;> rfl
  · intro f _ hplain hunknown inner
    exact fill_unknown_iff hplain hunknown inner

/-- an unknown field between doubled braces, and a field of a parameter that is set in a width -/
theorem unknown_field_between :
    let c : Catalog := ⟨[(.text "k", .text "\x7b\x7b\x7bx\x7d\x7d\x7d \x7ba:>3\x7d")], standardLocale⟩
    c.translate (.text "k") (.mapping [(.text "a", .text "1")]) = return ⟨some "\x7b\x7bx\x7d\x7d   1", []⟩ := by
  intro c
  let x : FieldText := ⟨"x", none, none, rfl, rfl⟩
  let ps : List PhrasePart := [.doubled '\x7b' (.inl rfl), .field x, .doubled '\x7d' (.inr rfl), .char ' ' (by decide),
    .field ⟨"a", none, some ">3", rfl, rfl⟩]
  have hform : ∀ flaw, Piece.broken flaw ∉ pieces (texts ps) := by
    intro flaw
    rw [pieces_texts]
    simp [ps, piece]
  have hbare : ∀ f, .field f ∈ ps → f.isKnown [(.text "a", .text "1")] = false → f.Bare := by
    intro f hf hunknown
    simp only [ps, List.mem_cons, reduceCtorEq, List.not_mem_nil, field.injEq, false_or, or_false] at hf
    rcases hf with rfl | rfl
    · exact ⟨rfl, rfl, rfl, rfl⟩
    · cases hunknown
  have hmessage : c.message? (.text "k") = .ok (some (texts ps)) := rfl
  have htranslate := ((unknown_fields_stay hform).2 ps rfl _).1 hbare c _ _ hmessage (Value.orEmpty_mapping _)
  have houtcome : ps.mapM (outcome [(.text "a", .text "1")]) =
      .ok [['\x7b'], "\x7bx\x7d".toList, ['\x7d'], [' '], "  1".toList] :=
    eq_ok_of_toOption (by decide +kernel)
  rw [htranslate, houtcome]
  rfl

/-- a conversion of an unknown field is carried out, and the field is gone -/
theorem unknown_field_converted :
    let c : Catalog := ⟨[(.text "k", .text "\x7bx!r\x7d \x7ba\x7d")], standardLocale⟩
    (∃ f : FieldText, f.text = "\x7bx!r\x7d".toList ∧ f.isKnown [(.text "a", .text "1")] = false) ∧
      c.translate (.text "k") (.mapping [(.text "a", .text "1")]) = return ⟨some "'\x7bx\x7d' 1", []⟩ := by
  intro c
  let ps : List PhrasePart := [.field ⟨"x", some 'r', none, rfl, rfl⟩, .char ' ' (by decide),
    .field ⟨"a", none, none, rfl, rfl⟩]
  have hfill : fill [(.text "a", .text "1")] (texts ps) = .ok "'\x7bx\x7d' 1" := by
    exact eq_ok_of_toOption (by decide +kernel)
  have hmessage : c.message? (.text "k") = .ok (some (texts ps)) := rfl
  refine ⟨⟨⟨"x", some 'r', none, rfl, rfl⟩, rfl, rfl⟩, ?_⟩
  rw [translate_eq hmessage (Value.orEmpty_mapping _), hfill]

end Stencil.Catalog
