/-
PHRASES FILLED IN. A phrase that is filled in consists of its own characters, of those of its parameters, and of those
that quotation and alignment add. Parameters that are escaped are texts without brackets, quotation marks and
apostrophes, and as long as no field takes an attribute all that fields look at are such texts: so neither conversions
nor specifications, nor fields inside these, can bring in a character of markup.

- `avoids_escape`: an escaped text has none of the characters.
- `avoids_encode`: a quoted text has apostrophes around it, but no character of markup.
- `fill_avoids`: a phrase filled in has no character of markup.
- `translate_avoids`: nor has what a catalog has for a key.
-/
import Stencil.Catalog.Basic
import Stencil.Proofs.Kept
import Stencil.Proofs.Throughout
import Stencil.Proofs.Visible
import Stencil.Text.Markup

namespace Stencil

/-! ## Texts without some characters -/

namespace Text

/-- the characters that stand around tags and around the values of attributes -/
def markup : List Char := ['<', '>', '"']

/-- the same, and the apostrophe -/
def quotation : List Char := '\'' :: markup

/-- none of the characters stands in the text -/
def Avoids (marks : List Char) (s : Text) : Prop := ∀ c ∈ s, c ∉ marks

instance (marks : List Char) (s : Text) : Decidable (s.Avoids marks) :=
  List.decidableBAll (fun c : Char => c ∉ marks) s

section

variable {marks : List Char} {s t : Text}

theorem Avoids.subset (h : s.Avoids marks) (hts : t ⊆ s) : t.Avoids marks := fun c hc => h c (hts hc)

theorem Avoids.markup (h : s.Avoids quotation) : s.Avoids Text.markup :=
  fun c hc hmark => h c hc (List.mem_cons_of_mem _ hmark)

theorem avoids_append : (s ++ t).Avoids marks ↔ s.Avoids marks ∧ t.Avoids marks := List.forall_mem_append

theorem avoids_cons {c : Char} : Avoids marks (c :: s) ↔ c ∉ marks ∧ s.Avoids marks := List.forall_mem_cons

theorem avoids_replicate {c : Char} (hc : c ∉ marks) (n : Nat) : Avoids marks (List.replicate n c) :=
  fun d hd => by rwa [List.eq_of_mem_replicate hd]

theorem avoids_cat {parts : List Text} (h : ∀ t ∈ parts, t.Avoids marks) : (cat parts).Avoids marks := by
  intro c hc
  obtain ⟨t, ht, hc⟩ := List.mem_flatten.1 hc
  exact h t ht c hc

theorem avoids_flatMap {f : Char → Text} (h : ∀ c ∈ s, (f c).Avoids marks) : Avoids marks (s.flatMap f) := by
  intro d hd
  obtain ⟨c, hc, hd⟩ := List.mem_flatMap.1 hd
  exact h c hc d hd

end

/-- **An escaped text** has no brackets, no quotation marks and no apostrophes. -/
theorem avoids_escape (s : Text) : (escape s).Avoids quotation := by
  refine avoids_flatMap fun c _ => ?_
  unfold escapeChar
  repeat' split
  any_goals decide
  rename_i hless hgreater hquote hapostrophe
  simp_all [Avoids, quotation, markup]

namespace Quoted

/-- the characters of escapes -/
def escapeCharacters : List Char := "\\nrtxuU0123456789abcdef".toList

section

variable {marks : List Char} (hescape : Avoids marks escapeCharacters)

include hescape

/-- a character by its code -/
theorem avoids_code (n : Nat) : (code n).Avoids marks := by
  have hdigit : ∀ d < 16, Nat.digitChar d ∈ escapeCharacters := by decide
  have hhex (width : Nat) : (hex width n).Avoids marks := by
    refine avoids_append.2 ⟨avoids_replicate (hescape '0' (by decide)) _, fun c hc => ?_⟩
    obtain ⟨d, hd, rfl⟩ := mem_toDigits (by decide) hc
    exact hescape _ (hdigit d hd)
  unfold code
  repeat' split
  all_goals exact avoids_cons.2 ⟨hescape _ (by decide), avoids_cons.2 ⟨hescape _ (by decide), hhex _⟩⟩

/-- a quoted text brings in escapes, and the mark around it -/
theorem avoids_quoted {s : Text} (hmark : markFor s ∉ marks) (hs : s.Avoids marks) : (encode s).Avoids marks := by
  have hchar : ∀ c ∈ s, (encodeChar isPrintable (markFor s) c).Avoids marks := by
    intro c hc
    have htwo {d : Char} (hd : d ∈ escapeCharacters) : Avoids marks ['\\', d] :=
      avoids_cons.2 ⟨hescape _ (by decide), avoids_cons.2 ⟨hescape d hd, nofun⟩⟩
    unfold encodeChar
    repeat' split
    · exact avoids_cons.2 ⟨hescape _ (by decide), avoids_cons.2 ⟨hs c hc, nofun⟩⟩
    · exact htwo (by decide)
    · exact htwo (by decide)
    · exact htwo (by decide)
    · exact avoids_cons.2 ⟨hs c hc, nofun⟩
    · exact avoids_code hescape _
  rw [encode, encodeWith]
  exact avoids_cons.2 ⟨hmark, avoids_append.2 ⟨avoids_flatMap hchar, avoids_cons.2 ⟨hmark, nofun⟩⟩⟩

/-- a text with its characters outside ASCII by their codes -/
theorem avoids_toAscii {s : Text} (hs : s.Avoids marks) : (Phrase.toAscii s).Avoids marks := by
  refine avoids_flatMap fun c hc => ?_
  split
  · exact avoids_cons.2 ⟨hs c hc, nofun⟩
  · exact avoids_code hescape _

end

theorem escape_quotation : Avoids quotation escapeCharacters := by decide

/-- **A text without apostrophes and characters of markup** is quoted without characters of markup. -/
theorem avoids_encode {s : Text} (h : s.Avoids quotation) : (encode s).Avoids markup := by
  have hmark : markFor s = '\'' := by
    have hnone : '\'' ∉ s := fun hmem => h _ hmem (by decide)
    simp [markFor, hnone]
  exact avoids_quoted (escape_quotation.markup) (by rw [hmark]; decide) h.markup

end Quoted

end Text

open Text

/-! ## The pieces of a phrase -/

namespace Phrase

theorem subset_of_takeName {b : Bool} {s name rest : Text} {mark : Char}
    (h : takeName b s = .ok (name, mark, rest)) : name ⊆ s ∧ rest ⊆ s := by
  induction s generalizing b name with
  | nil => cases h
  | cons c cs ih =>
    have hlater : ∀ {b'}, (takeName b' cs).map (fun p => (c :: p.1, p.2)) = .ok (name, mark, rest) →
        name ⊆ c :: cs ∧ rest ⊆ c :: cs := by
      intro b' h
      rw [map_eq_ok] at h
      obtain ⟨⟨name', mark', rest'⟩, hrec, heq⟩ := h
      simp only [Prod.mk.injEq] at heq
      obtain ⟨rfl, rfl, rfl⟩ := heq
      obtain ⟨hname, hrest⟩ := ih hrec
      exact ⟨List.cons_subset_cons c hname, List.subset_cons_of_subset c hrest⟩
    simp only [takeName] at h
    split at h
    · exact hlater h
    · split at h
      · cases h
      · split at h
        · cases h
          exact ⟨List.nil_subset _, List.subset_cons_self _ _⟩
        · exact hlater h

theorem subset_of_takeSpec {depth : Nat} {s spec rest : Text} (h : takeSpec depth s = .ok (spec, rest)) :
    spec ⊆ s ∧ rest ⊆ s := by
  induction s generalizing depth spec with
  | nil => cases h
  | cons c cs ih =>
    have hlater : ∀ {d}, (takeSpec d cs).map (fun p => (c :: p.1, p.2)) = .ok (spec, rest) →
        spec ⊆ c :: cs ∧ rest ⊆ c :: cs := by
      intro d h
      rw [map_eq_ok] at h
      obtain ⟨⟨spec', rest'⟩, hrec, heq⟩ := h
      simp only [Prod.mk.injEq] at heq
      obtain ⟨rfl, rfl⟩ := heq
      obtain ⟨hspec, hrest⟩ := ih hrec
      exact ⟨List.cons_subset_cons c hspec, List.subset_cons_of_subset c hrest⟩
    simp only [takeSpec] at h
    split at h
    · split at h
      · cases h
        exact ⟨List.nil_subset _, List.subset_cons_self _ _⟩
      · exact hlater h
    · exact hlater h

theorem subset_of_takeConversion {s spec rest : Text} {v : Char} (h : takeConversion s = .ok (v, spec, rest)) :
    spec ⊆ s ∧ rest ⊆ s := by
  unfold takeConversion at h
  split at h
  · cases h
  · cases h
  · rename_i v' c cs
    have hcs : cs ⊆ v' :: c :: cs := fun d hd => by simp [hd]
    split at h
    · cases h
      exact ⟨List.nil_subset _, hcs⟩
    · split at h
      · rw [map_eq_ok] at h
        obtain ⟨⟨spec', rest'⟩, hspec, heq⟩ := h
        cases heq
        obtain ⟨hspec, hrest⟩ := subset_of_takeSpec hspec
        exact ⟨List.Subset.trans hspec hcs, List.Subset.trans hrest hcs⟩
      · cases h

theorem subset_of_takeField {s rest : Text} {f : Field} (h : takeField s = .ok (f, rest)) :
    f.name ⊆ s ∧ f.spec ⊆ s ∧ rest ⊆ s := by
  simp only [takeField, bind_eq_ok] at h
  obtain ⟨⟨name, mark, after⟩, htake, h⟩ := h
  obtain ⟨hname, hafter⟩ := subset_of_takeName htake
  simp only at h
  split at h
  · rw [bind_eq_ok] at h
    obtain ⟨⟨v, spec, rest'⟩, hspec, h⟩ := h
    cases h
    obtain ⟨hspec, hrest⟩ := subset_of_takeConversion hspec
    exact ⟨hname, List.Subset.trans hspec hafter, List.Subset.trans hrest hafter⟩
  · split at h
    · rw [bind_eq_ok] at h
      obtain ⟨⟨spec, rest'⟩, hspec, h⟩ := h
      cases h
      obtain ⟨hspec, hrest⟩ := subset_of_takeSpec hspec
      exact ⟨hname, List.Subset.trans hspec hafter, List.Subset.trans hrest hafter⟩
    · cases h
      exact ⟨hname, List.nil_subset _, hafter⟩

/-- a field that can be read is the first piece -/
theorem pieces_field {s rest : Text} {f : Field} (h : takeField s = .ok (f, rest)) :
    pieces ('\x7b' :: s) = .field f :: pieces rest := by
  rw [pieces]
  · split
    · rename_i f' rest' hf
      rw [h] at hf
      cases hf
      rfl
    · rename_i flaw hf
      rw [h] at hf
      cases hf
  · rintro rfl
    cases h
  · rintro cs rfl
    cases h

/-- the characters that a piece brings with it -/
def Piece.chars : Piece → Text
  | char c => [c]
  | field f => f.name ++ f.spec
  | broken _ => []

/-- **The characters of a piece** are characters of the phrase. -/
theorem subset_of_mem_pieces {s : Text} {p : Piece} (hp : p ∈ pieces s) : p.chars ⊆ s := by
  induction s using pieces.induct with
  | case1 => simp [pieces] at hp
  | case2 =>
    rw [pieces, List.mem_singleton] at hp
    rw [hp]
    exact List.nil_subset _
  | case3 rest ih =>
    rw [pieces, List.mem_cons] at hp
    rcases hp with rfl | hp
    · simp [Piece.chars]
    · exact fun c hc => by simp [ih hp hc]
  | case4 rest ih =>
    rw [pieces, List.mem_cons] at hp
    rcases hp with rfl | hp
    · simp [Piece.chars]
    · exact fun c hc => by simp [ih hp hc]
  | case5 tail htail =>
    rw [pieces, List.mem_singleton] at hp
    · rw [hp]
      exact List.nil_subset _
    · exact htail
  | case6 rest hne hopen f rest' hf ih =>
    rw [pieces_field hf, List.mem_cons] at hp
    obtain ⟨hname, hspec, hrest⟩ := subset_of_takeField hf
    rcases hp with rfl | hp
    · exact fun c hc => List.mem_cons_of_mem _ ((List.mem_append.1 hc).elim (@hname c) (@hspec c))
    · exact fun c hc => List.mem_cons_of_mem _ (hrest (ih hp hc))
  | case7 rest hne hopen flaw hf =>
    have hpieces : pieces ('\x7b' :: rest) = [.broken flaw] := by
      rw [pieces]
      · split
        · rename_i f' rest'' hf'
          rw [hf] at hf'
          cases hf'
        · rename_i flaw' hflaw
          rw [hf] at hflaw
          cases hflaw
          rfl
      · exact hne
      · exact hopen
    rw [hpieces, List.mem_singleton] at hp
    rw [hp]
    exact List.nil_subset _
  | case8 c rest h₁ h₂ h₃ h₄ h₅ ih =>
    rw [pieces, List.mem_cons] at hp
    · rcases hp with rfl | hp
      · simp [Piece.chars]
      · exact fun d hd => List.mem_cons_of_mem _ (ih hp hd)
    all_goals assumption

/-! ## What fields look at -/

/-- the accessor of an attribute -/
def Step.isMember : Step → Bool
  | member _ => true
  | _ => false

/-- a field takes an attribute, also inside specifications to a depth -/
def takesAttribute : Nat → Text → Bool
  | 0, _ => false
  | depth + 1, s => (pieces s).any fun
    | .field f => (steps (f.name.dropWhile continuesName)).any Step.isMember || takesAttribute depth f.spec
    | _ => false

end Phrase

/-- a text without the characters -/
def Value.IsText (marks : List Char) : Value → Prop
  | .text s _ => s.Avoids marks
  | _ => False

/-- a text without the characters -/
def Thing.IsText (marks : List Char) : Thing → Prop
  | value v => v.IsText marks
  | _ => False

namespace Phrase

section

variable {marks : List Char} {t t' : Thing}

theorem exists_of_isText (ht : t.IsText marks) : ∃ s id, t = .value (.text s id) := by
  cases t with
  | value v =>
    cases v with
    | text s id => exact ⟨s, id, rfl⟩
    | _ => exact ht.elim
  | _ => exact ht.elim

theorem isText_of_reach (ht : t.IsText marks) {step : Step} (hstep : step.isMember = false)
    (h : step.reach t = .ok t') : t'.IsText marks := by
  obtain ⟨s, id, rfl⟩ := exists_of_isText ht
  cases step with
  | member name => cases hstep
  | broken flaw => cases h
  | key name => cases h
  | index n =>
    have hitem : (Thing.value (.text s id)).item (.int n) =
        (s[n]?.map fun c => Thing.text [c]).elim (.error (.beyond "string ".toList)) .ok := rfl
    rw [Step.reach, hitem] at h
    cases hc : s[n]? with
    | none =>
      rw [hc] at h
      cases h
    | some c =>
      rw [hc] at h
      cases h
      exact Avoids.subset (s := s) ht (List.cons_subset.2 ⟨List.mem_of_getElem? hc, List.nil_subset _⟩)

theorem isText_of_steps (ht : t.IsText marks) {ss : List Step} (hss : ss.any Step.isMember = false)
    (h : ss.foldlM Step.reach t = .ok t') : t'.IsText marks := by
  induction ss generalizing t with
  | nil =>
    cases h
    exact ht
  | cons step ss ih =>
    rw [List.any_cons, Bool.or_eq_false_iff] at hss
    rw [List.foldlM_cons, bind_eq_ok] at h
    obtain ⟨u, hu, h⟩ := h
    exact ih (isText_of_reach ht hss.1 hu) hss.2 h

/-- **A conversion** brings in apostrophes, but no character of markup. -/
theorem isText_of_convert (ht : t.IsText quotation) {conversion : Option Char} (h : convert t conversion = .ok t') :
    t'.IsText markup := by
  obtain ⟨s, id, rfl⟩ := exists_of_isText ht
  have hs : s.Avoids quotation := ht
  have hliteral : (Thing.value (.text s id)).literal.Avoids markup := Quoted.avoids_encode hs
  unfold convert at h
  split at h
  · cases h
    exact hs.markup
  · cases h
    exact hliteral
  · cases h
    exact hs.markup
  · cases h
    exact Quoted.avoids_toAscii Quoted.escape_quotation.markup hliteral
  · cases h

end

end Phrase

/-! ## Specifications -/

namespace Specification

theorem mem_of_takeSide {source rest : Text} {c : Char} {side : Option Side}
    (h : takeSide source = (some c, side, rest)) : c ∈ source := by
  unfold takeSide at h
  split at h
  · split at h
    · cases h
      exact List.mem_cons_self
    · split at h <;> cases h
  · split at h <;> cases h
  · cases h

/-- **The character that fills** is one of the specification. -/
theorem fill_of_parse {owner source : Text} {standard : Option Char} {f : Specification}
    (h : parse owner standard source = .ok f) : ∃ rest, takeSide source = (f.fill, f.side, rest) := by
  simp only [parse, bind_eq_ok] at h
  obtain ⟨width, -, grouping, -, precision, -, h⟩ := h
  refine ⟨(takeSide source).2.2, ?_⟩
  split at h
  · cases h
  · split at h
    · split at h
      · cases h
      · cases h
        rfl
    · cases h
      rfl

end Specification

theorem Alignment.fill_of_ofSpecification {owner : Text} {f : Specification} {a : Alignment}
    (h : ofSpecification owner f = .ok a) : ∃ d ∈ ['0', ' '], a.fill = f.fill.getD d := by
  unfold ofSpecification at h
  repeat' split at h
  all_goals cases h
  all_goals exact ⟨_, by decide, rfl⟩

/-! ## Phrases -/

namespace Phrase

/-- a text in a field consists of its characters and of the one that fills -/
theorem avoids_align {marks : List Char} {a : Alignment} {s : Text} (hs : s.Avoids marks) (hfill : a.fill ∉ marks) :
    (a.apply s).Avoids marks := by
  have hpad : ∀ n, Avoids marks (List.replicate n a.fill) := avoids_replicate hfill
  unfold Alignment.apply
  refine avoids_append.2 ⟨avoids_append.2 ⟨hpad _, ?_⟩, hpad _⟩
  split
  · exact hs.subset (List.take_subset _ _)
  · exact hs

/-- **A text set by a specification** has the characters of both, spaces and zeros. -/
theorem avoids_format {t : Thing} (ht : t.IsText markup) {spec out : Text} (hspec : spec.Avoids markup)
    (h : format t spec = .ok out) : out.Avoids markup := by
  obtain ⟨s, id, rfl⟩ := exists_of_isText ht
  unfold format at h
  split at h
  · cases h
    exact ht
  · simp only [setValue, specification, bind_eq_ok, mapError_eq_ok] at h
    obtain ⟨f, ⟨f', hparse, hwidth⟩, a, halign, h⟩ := h
    have hf : f' = f := by
      split at hwidth
      · cases hwidth
      · exact Except.ok.inj hwidth
    subst hf
    have hfill : a.fill ∉ markup := by
      obtain ⟨d, hd, hfill⟩ := Alignment.fill_of_ofSpecification halign
      obtain ⟨rest, hside⟩ := Specification.fill_of_parse hparse
      have hstandard : ∀ d ∈ ['0', ' '], d ∉ markup := by simp [markup]
      rw [hfill]
      cases hc : f'.fill with
      | none => exact hstandard d hd
      | some c =>
        rw [hc] at hside
        exact hspec c (Specification.mem_of_takeSide hside)
    cases h
    exact avoids_align ht hfill

section

variable {arguments : Text → Value}
  (harguments : ∀ name : Text, name.Avoids quotation → (arguments name).IsText quotation)

include harguments

theorem isText_of_thing {f : Field} (hname : f.name.Avoids quotation)
    (hsteps : (steps (f.name.dropWhile continuesName)).any Step.isMember = false) {t : Thing}
    (h : f.thing arguments = .ok t) : t.IsText quotation := by
  simp only [Field.thing, bind_eq_ok, mapError_eq_ok] at h
  obtain ⟨first, hfirst, h⟩ := h
  have hmem : first.Avoids quotation := by
    simp only [parameter?, bind_eq_ok] at hfirst
    obtain ⟨n, -, hfirst⟩ := hfirst
    split at hfirst
    · cases hfirst
    · cases hfirst
      exact hname.subset (List.takeWhile_subset _)
  exact isText_of_steps (t := .value (arguments first)) (harguments first hmem) hsteps h

/-- **A phrase filled in** to a depth has no character of markup, if the phrase has none and no apostrophe either. -/
theorem fillTo_avoids {depth : Nat} {s out : Text} (hs : s.Avoids quotation)
    (hattribute : takesAttribute depth s = false) (h : fillTo arguments depth s = .ok out) : out.Avoids markup := by
  induction depth generalizing s out with
  | zero => cases h
  | succ depth ih =>
    simp only [fillTo, bind_eq_ok] at h
    obtain ⟨texts, htexts, h⟩ := h
    cases h
    refine avoids_cat (forall_of_mapM htexts fun p hp text htext => ?_)
    have hchars : p.chars.Avoids quotation := hs.subset (subset_of_mem_pieces hp)
    have hp := List.any_eq_false.1 hattribute p hp
    cases p with
    | char c =>
      cases htext
      exact hchars.markup
    | broken flaw => cases htext
    | field f =>
      obtain ⟨hname, hspec⟩ := avoids_append.1 hchars
      simp only [Bool.or_eq_true, not_or, Bool.not_eq_true] at hp
      simp only [Piece.fill, bind_eq_ok] at htext
      obtain ⟨t, ht, u, hu, htext⟩ := htext
      have hthing := isText_of_convert (isText_of_thing harguments hname hp.1 ht) hu
      split at htext
      · rw [bind_eq_ok] at htext
        obtain ⟨inner, hinner, htext⟩ := htext
        exact avoids_format hthing (ih hspec hp.2 hinner) htext
      · exact avoids_format hthing hspec.markup htext

end

/-- **A phrase filled in** with texts has no character of markup. -/
theorem fill_avoids {es : Entries} (hes : ∀ e ∈ es, e.2.IsText quotation) {s out : Text} (hs : s.Avoids quotation)
    (hattribute : takesAttribute 2 s = false) (h : fill es s = .ok out) : out.Avoids markup := by
  refine fillTo_avoids (fun name hname => ?_) hs hattribute h
  unfold argument
  cases hv : Value.find? (.text name) es with
  | none => exact avoids_cons.2 ⟨by decide, avoids_append.2 ⟨hname, by decide⟩⟩
  | some v =>
    obtain ⟨e, he, rfl⟩ := Value.mem_of_find? hv
    exact hes e he

end Phrase

/-! ## The catalog -/

/-- all that a value holds at the ends of its mappings has a text with the property -/
inductive Value.Worded (Q : Text → Prop) : Value → Prop
  | leaf {v : Value} (hv : v.isMapping = false) (h : Q v.display) : v.Worded Q
  | mapping {es : Entries} (h : ∀ e ∈ es, e.2.Worded Q) : Worded Q (.mapping es)

/-- a phrase that brings in no character of markup, whatever its parameters are -/
def Phrase.Plain (s : Text) : Prop := s.Avoids quotation ∧ takesAttribute 2 s = false

instance (s : Text) : Decidable (Phrase.Plain s) :=
  inferInstanceAs (Decidable (s.Avoids quotation ∧ Phrase.takesAttribute 2 s = false))

namespace Catalog

variable {c : Catalog} {Q : Text → Prop}

/-- all messages of the catalog have the property -/
def Worded (Q : Text → Prop) (c : Catalog) : Prop := ∀ e ∈ c.messages, e.2.Worded Q

theorem worded_of_follow? {v w : Value} (hv : v.Worded Q) {path : List Text} (h : follow? v path = some w) :
    w.Worded Q := by
  induction path generalizing v with
  | nil =>
    cases h
    exact hv
  | cons p ps ih =>
    cases hv with
    | leaf hv h' =>
      cases v <;> first | cases h | cases hv
    | mapping hes =>
      rw [follow?, Option.bind_eq_some_iff] at h
      obtain ⟨u, hu, h⟩ := h
      obtain ⟨e, he, rfl⟩ := Value.mem_of_find? hu
      exact ih (hes e he) h

/-- **The phrase of a key** is one of the messages. -/
theorem worded_of_message? (hc : c.Worded Q) {key : Value} {s : Text} (h : c.message? key = .ok (some s)) : Q s := by
  have hdisplay {v : Value} (hv : v.Worded Q) (hmapping : v.isMapping = false) : Q v.display := by
    cases hv with
    | leaf _ hQ => exact hQ
    | mapping _ => cases hmapping
  unfold message? at h
  split at h
  · split at h
    · rename_i v hv
      cases h
      rw [flat?, Option.filter_eq_some_iff] at hv
      obtain ⟨e, he, rfl⟩ := Value.mem_of_find? hv.1
      exact hdisplay (hc e he) (by simpa using hv.2)
    · split at h
      · simp only [Except.ok.injEq, Option.map_eq_some_iff] at h
        obtain ⟨v, hv, rfl⟩ := h
        rw [nested?, Option.filter_eq_some_iff] at hv
        obtain ⟨hv, hkind⟩ := hv
        simp only [Bool.and_eq_true, Bool.not_eq_true'] at hkind
        exact hdisplay (worded_of_follow? (.mapping hc) hv) hkind.2
      · cases h
  · cases h

/-- **What a catalog has for a key** has no character of markup, if its parameters are escaped texts. -/
theorem translate_avoids (hc : c.Worded Phrase.Plain) {es : Entries} (hes : ∀ e ∈ es, e.2.IsText quotation)
    (key : Value) : Gives (fun _ : Asked => True) (c.translate key (.mapping es))
      (fun filled => ∀ t ∈ filled.text, t.Avoids markup) fun _ => True := by
  have hparameters : parameters? (.mapping es) = pure (some es) := by
    rw [parameters?, Value.orEmpty_mapping]
    rfl
  have hmessage : ∀ m, c.message? key = .ok m → ∀ phrase ∈ m, Phrase.Plain phrase := by
    rintro _ hm phrase rfl
    exact worded_of_message? hc hm
  refine gives_bind (gives_lift hmessage) fun m hm => ?_
  split
  · exact gives_pure nofun
  · rename_i phrase
    have hphrase : Phrase.Plain phrase := hm phrase rfl
    rw [hparameters, pure_bind]
    simp only
    split
    · rename_i text htext
      refine gives_pure fun t ht => ?_
      cases ht
      exact Phrase.fill_avoids hes hphrase.1 hphrase.2 htext
    · refine gives_pure fun t ht => ?_
      cases ht
      exact hphrase.1.markup
    · exact gives_throw

end Catalog

end Stencil
