/-
OPTIONS OF A FORM as they are written: behind blanks either an attribute in quotes or a bare word. The grammar divides a
text into such options. Attributes and bare words are then found by a second search through the text, and the search
finds what the grammar has divided: nothing inside an attribute is taken for an option, and nothing outside for a part
of one.

- `AttributeText`, `WordText`, `PlacedItem`: an attribute, a bare word and an option as they are written.
- `areOptions_iff`, `areOptions_texts_iff`: what the grammar accepts is a text of options whose bare words are allowed.
- `attributes_items`, `flags_items`: the attributes and the bare words of such a text.
- `OptionText`, `GenerateText`: an option with the bare word by which a generated form has no button, and a directive
  that generates a form, as they are written.
- `attributes_texts`, `flags_texts`: the attributes and the bare words of these.
- `generate?_eq_some_iff`, `form?_text`: a directive that generates a form, and the one that opens the form by itself.
-/
import Stencil.Proofs.Parameters
import Stencil.Proofs.Spellings

namespace Stencil

/-! ## Words -/

namespace Text

/-- a blank belongs to no word -/
theorem words_blank {c : Char} (hc : isBlank c = true) (s : Text) : words (c :: s) = words s := by
  simp [words, wordsFrom, hc]

theorem words_blanks {lead : Text} (h : ∀ c ∈ lead, isBlank c = true) (s : Text) : words (lead ++ s) = words s := by
  induction lead with
  | nil => rfl
  | cons c lead ih =>
    obtain ⟨hc, hlead⟩ := List.forall_mem_cons.1 h
    rw [List.cons_append, words_blank hc, ih hlead]

/-- **A run without blanks** up to a blank or the end is a word. -/
theorem words_run {w rest : Text} (ne : w ≠ []) (hw : ∀ c ∈ w, isBlank c = false)
    (hrest : Directive.atBlank rest = true) : words (w ++ rest) = w :: words rest := by
  have hfrom (u : Text) : wordsFrom u (w ++ rest) = wordsFrom (w.reverse ++ u) rest := by
    clear ne
    induction w generalizing u with
    | nil => rfl
    | cons c w ih =>
      obtain ⟨hc, hw⟩ := List.forall_mem_cons.1 hw
      have hgrow : wordsFrom u (c :: (w ++ rest)) = wordsFrom (c :: u) (w ++ rest) := by simp [wordsFrom, hc]
      rw [List.cons_append, hgrow, ih hw, List.reverse_cons, List.append_assoc, List.singleton_append]
  rw [words, hfrom]
  cases rest with
  | nil => simp [wordsFrom, words, ne]
  | cons c rest => simp [wordsFrom, words, ne, show isBlank c = true from hrest]

end Text

namespace Directive

/-! ## Options as they are written -/

theorem isAttributeChar_of_isBlank {c : Char} (h : Text.isBlank c = true) : isAttributeChar c = false := by
  have hdash : c ≠ '-' := by
    rintro rfl
    exact absurd h (by decide)
  simp [isAttributeChar, Text.isWord_of_isBlank h, hdash]

/-- an attribute as it is written -/
structure AttributeText where
  name : Text
  value : Text
  isName : Text.isRun Text.isNameStart isAttributeChar name = true
  closed : '"' ∉ value

namespace AttributeText

/-- the attribute, its value in quotes -/
def text (a : AttributeText) : Text := a.name ++ '=' :: '"' :: (a.value ++ ['"'])

/-- the name and the value -/
def pair (a : AttributeText) : Text × Text := (a.name, a.value)

end AttributeText

/-- a bare word as it is written -/
structure WordText where
  text : Text
  ne : text ≠ []
  chars : ∀ c ∈ text, isAttributeChar c = true

namespace WordText

/-- no blank stands in a bare word -/
theorem isBlank_of_mem (w : WordText) : ∀ c ∈ w.text, Text.isBlank c = false := by
  intro c hc
  rw [Bool.eq_false_iff]
  intro hblank
  have hchar := w.chars c hc
  rw [isAttributeChar_of_isBlank hblank] at hchar
  cases hchar

end WordText

/-- what an option is -/
inductive ItemText where
  | word (w : WordText)
  | pair (a : AttributeText)

namespace ItemText

/-- the option without the blanks in front of it -/
def text : ItemText → Text
  | word w => w.text
  | pair a => a.text

/-- the bare word -/
def word? : ItemText → Option Text
  | word w => some w.text
  | pair _ => none

/-- the name and the value of an attribute -/
def pair? : ItemText → Option (Text × Text)
  | word _ => none
  | pair a => some a.pair

/-- a bare word is the one that is allowed -/
def Allowed (word : Option Text) (i : ItemText) : Prop := ∀ w ∈ i.word?, word = some w

/-- no option begins with a blank -/
theorem begins_text (i : ItemText) (rest : Text) : Text.begins Text.isBlank (i.text ++ rest) = false := by
  cases i with
  | word w =>
    have hsolid := Text.solid_of_forall w.ne w.isBlank_of_mem
    rw [text, Text.begins_append w.ne, hsolid.front]
  | pair a =>
    have hstart : Text.begins Text.isNameStart (a.text ++ rest) = true := by
      rw [AttributeText.text, List.append_assoc]
      exact Text.begins_of_isRun a.isName
    exact Text.begins_apart (fun _ => Text.isBlank_of_isNameStart) hstart

end ItemText

/-- blanks, one or more -/
structure BlankText where
  text : Text
  ne : text ≠ []
  blank : ∀ c ∈ text, Text.isBlank c = true

theorem BlankText.atBlank_append (b : BlankText) (rest : Text) : atBlank (b.text ++ rest) = true := by
  obtain ⟨c, text, htext⟩ := List.exists_cons_of_ne_nil b.ne
  rw [htext]
  exact b.blank c (by rw [htext]; exact List.mem_cons_self)

/-- an option behind blanks -/
structure PlacedItem where
  lead : BlankText
  item : ItemText

namespace PlacedItem

/-- options one behind the other -/
def texts (ps : List PlacedItem) : Text := ps.flatMap fun p => p.lead.text ++ p.item.text

/-- the names and values of the attributes -/
def pairs (ps : List PlacedItem) : List (Text × Text) := ps.filterMap fun p => p.item.pair?

/-- the bare words -/
def words (ps : List PlacedItem) : List Text := ps.filterMap fun p => p.item.word?

theorem texts_cons (p : PlacedItem) (ps : List PlacedItem) :
    texts (p :: ps) = p.lead.text ++ (p.item.text ++ texts ps) := by
  rw [texts, List.flatMap_cons, List.append_assoc]
  rfl

theorem atBlank_texts (ps : List PlacedItem) : atBlank (texts ps) = true := by
  cases ps with
  | nil => rfl
  | cons p ps =>
    rw [texts_cons]
    exact p.lead.atBlank_append _

/-- the blanks in front of an option are left out -/
theorem dropWhile_texts_cons (p : PlacedItem) (ps : List PlacedItem) :
    (texts (p :: ps)).dropWhile Text.isBlank = p.item.text ++ texts ps := by
  rw [texts_cons]
  exact (Text.span_run p.lead.blank (p.item.begins_text _)).2

end PlacedItem

/-! ## Where an attribute stands -/

/-- **An attribute** stands at the beginning of a text as it is written. -/
theorem attribute?_eq_some_iff {s rest : Text} {p : Text × Text} :
    attribute? s = some (p, rest) ↔ ∃ a : AttributeText, p = a.pair ∧ s = a.text ++ rest := by
  constructor
  · intro h
    cases s with
    | nil => cases h
    | cons c cs =>
      simp only [attribute?] at h
      split at h
      · rename_i hc
        split at h
        · rename_i v hv
          split at h
          · rename_i q r hq
            obtain ⟨rfl, rfl⟩ := Prod.mk.inj (Option.some.inj h)
            have hname : Text.isRun Text.isNameStart isAttributeChar (c :: cs.takeWhile isAttributeChar) = true := by
              rw [Text.isRun, hc, List.all_takeWhile, Bool.and_self]
            have hclosed : '"' ∉ v.takeWhile (· != '"') := fun hmem => by simpa using List.mem_takeWhile_imp hmem
            have hquote : q = '"' := by
              have hhead := List.head?_dropWhile_not (· != '"') v
              simpa [hq] using hhead
            refine ⟨⟨_, _, hname, hclosed⟩, rfl, ?_⟩
            have hvalue : v = v.takeWhile (· != '"') ++ '"' :: r := by
              calc v = v.takeWhile (· != '"') ++ v.dropWhile (· != '"') := List.takeWhile_append_dropWhile.symm
                _ = _ := by rw [hq, hquote]
            have hsplit : cs = cs.takeWhile isAttributeChar ++ '=' :: '"' :: v := by
              calc cs = cs.takeWhile isAttributeChar ++ cs.dropWhile isAttributeChar :=
                    List.takeWhile_append_dropWhile.symm
                _ = _ := by rw [hv]
            calc c :: cs = c :: (cs.takeWhile isAttributeChar ++ '=' :: '"' :: v) := by rw [← hsplit]
              _ = c :: (cs.takeWhile isAttributeChar ++ '=' :: '"' :: (v.takeWhile (· != '"') ++ '"' :: r)) := by
                rw [← hvalue]
              _ = _ := by simp [AttributeText.text]
          · cases h
        · cases h
      · cases h
  · rintro ⟨⟨name, value, hname, hclosed⟩, rfl, rfl⟩
    cases name with
    | nil => cases hname
    | cons c cs =>
      rw [Text.isRun, Bool.and_eq_true, List.all_eq_true] at hname
      have hequals (t : Text) : Text.begins isAttributeChar ('=' :: t) = false :=
        show isAttributeChar '=' = false by decide
      have hvalue : ∀ d ∈ value, (d != '"') = true := fun d hd => bne_iff_ne.2 fun h => hclosed (h ▸ hd)
      have hquote : Text.begins (· != '"') ('"' :: rest) = false := rfl
      obtain ⟨hrun, hafter⟩ := Text.span_run hname.2 (hequals ('"' :: (value ++ '"' :: rest)))
      obtain ⟨hin, hout⟩ := Text.span_run hvalue hquote
      simp only [AttributeText.text, List.cons_append, List.append_assoc, List.nil_append]
      simp only [attribute?, hname.1, if_true, hafter, hout, hin, hrun, AttributeText.pair]

theorem attribute?_text (a : AttributeText) (rest : Text) : attribute? (a.text ++ rest) = some (a.pair, rest) :=
  attribute?_eq_some_iff.2 ⟨a, rfl, rfl⟩

/-- no attribute begins with a run of its characters up to a blank or the end -/
theorem attribute?_run {w rest : Text} (hw : ∀ c ∈ w, isAttributeChar c = true) (hrest : atBlank rest = true) :
    attribute? (w ++ rest) = none := by
  rw [Option.eq_none_iff_forall_ne_some]
  rintro ⟨p, r⟩ h
  obtain ⟨a, -, hs⟩ := attribute?_eq_some_iff.1 h
  have hname : ∀ c ∈ a.name, isAttributeChar c = true := Text.forall_of_isRun a.isName fun c hc => by
    rw [isAttributeChar, Text.isWord_of_isNameChar (Text.isNameChar_of_isNameStart hc), Bool.true_or]
  have htext : a.text ++ r = a.name ++ '=' :: '"' :: (a.value ++ '"' :: r) := by simp [AttributeText.text]
  -- both runs end at the same place, one in front of a blank and one in front of an equals sign
  have hleft := (Text.span_run hw (begins_of_atBlank (fun _ => isAttributeChar_of_isBlank) hrest)).2
  have hequals (u : Text) : Text.begins isAttributeChar ('=' :: u) = false := show isAttributeChar '=' = false by decide
  have hright := (Text.span_run hname (hequals ('"' :: (a.value ++ '"' :: r)))).2
  rw [hs, htext, hright] at hleft
  rw [← hleft] at hrest
  exact absurd hrest (show Text.isBlank '=' ≠ true by decide)

/-! ## What the grammar accepts -/

section

variable {word : Option WordText}

/-- **One option** in front of a blank or the end. -/
theorem afterOption?_eq_some_iff {s rest : Text} : afterOption? (word.map WordText.text) s = some rest ↔
    atBlank rest = true ∧ ∃ i : ItemText, i.Allowed (word.map WordText.text) ∧ s = i.text ++ rest := by
  have hattribute : ((attribute? s).map (·.2)).filter atBlank = some rest ↔
      atBlank rest = true ∧ ∃ a : AttributeText, s = a.text ++ rest := by
    rw [Option.filter_eq_some_iff, Option.map_eq_some_iff, and_comm]
    refine and_congr_right fun _ => ⟨?_, ?_⟩
    · rintro ⟨⟨p, r⟩, hp, rfl⟩
      obtain ⟨a, -, hs⟩ := attribute?_eq_some_iff.1 hp
      exact ⟨a, hs⟩
    · rintro ⟨a, hs⟩
      exact ⟨(a.pair, rest), attribute?_eq_some_iff.2 ⟨a, rfl, hs⟩, rfl⟩
  have hallowed (a : AttributeText) (word : Option Text) : (ItemText.pair a).Allowed word :=
    fun w hw => absurd hw (Option.not_mem_none w)
  cases word with
  | none =>
    refine hattribute.trans (and_congr_right fun _ => ⟨fun ⟨a, ha⟩ => ⟨.pair a, hallowed a _, ha⟩, ?_⟩)
    rintro ⟨w | a, hw, hs⟩
    · cases hw _ rfl
    · exact ⟨a, hs⟩
  | some w =>
    rw [Option.map_some, afterOption?, Option.bind_some]
    cases h : (Text.after? w.text s).filter atBlank with
    | some r =>
      obtain ⟨hr, hblank⟩ := Option.filter_eq_some_iff.1 h
      have hs := Text.after?_eq_some_iff.1 hr
      have hnone : attribute? s = none := hs ▸ attribute?_run w.chars hblank
      constructor
      · intro heq
        cases heq
        exact ⟨hblank, .word w, fun v hv => congrArg some (Option.some.inj hv), hs⟩
      · rintro ⟨-, v | a, hv, hs'⟩
        · have hvw : w.text = v.text := Option.some.inj (hv _ rfl)
          rw [hs, ItemText.text, ← hvw, List.append_cancel_left_eq] at hs'
          rw [hs']
        · rw [hs', ItemText.text, attribute?_text] at hnone
          cases hnone
    | none =>
      refine hattribute.trans (and_congr_right fun hblank => ⟨fun ⟨a, ha⟩ => ⟨.pair a, hallowed a _, ha⟩, ?_⟩)
      rintro ⟨v | a, hv, hs⟩
      · have hvw : w.text = v.text := Option.some.inj (hv _ rfl)
        rw [ItemText.text, ← hvw] at hs
        rw [Text.after?_eq_some_iff.2 hs, Option.filter_some, if_pos hblank] at h
        cases h
      · exact ⟨a, hs⟩

open PlacedItem

theorem areOptionsUpTo_texts {ps : List PlacedItem} (hps : ∀ p ∈ ps, p.item.Allowed (word.map WordText.text)) {n : Nat}
    (hn : (texts ps).length ≤ n) : areOptionsUpTo (word.map WordText.text) n (texts ps) = true := by
  induction ps generalizing n with
  | nil => cases n <;> rfl
  | cons p ps ih =>
    obtain ⟨hp, hps⟩ := List.forall_mem_cons.1 hps
    obtain ⟨c, lead, hlead⟩ := List.exists_cons_of_ne_nil p.lead.ne
    have hc : Text.isBlank c = true := p.lead.blank c (by rw [hlead]; exact List.mem_cons_self)
    have hdrop := dropWhile_texts_cons p ps
    have hone := afterOption?_eq_some_iff.2 ⟨atBlank_texts ps, p.item, hp, rfl⟩
    rw [texts_cons, hlead] at hn hdrop
    simp only [List.cons_append, List.length_cons, List.length_append] at hn
    rw [List.cons_append, List.dropWhile_cons_of_pos hc] at hdrop
    cases n with
    | zero => omega
    | succ n =>
      rw [texts_cons, hlead, List.cons_append, areOptionsUpTo, hc, hdrop, hone]
      exact ih hps (by omega)

/-- what the grammar accepts is a text of options -/
theorem exists_options {n : Nat} {s : Text} (h : areOptionsUpTo (word.map WordText.text) n s = true) :
    ∃ ps : List PlacedItem, (∀ p ∈ ps, p.item.Allowed (word.map WordText.text)) ∧ s = texts ps := by
  induction n generalizing s with
  | zero =>
    cases s with
    | nil => exact ⟨[], List.forall_mem_nil _, rfl⟩
    | cons c cs => cases h
  | succ n ih =>
    cases s with
    | nil => exact ⟨[], List.forall_mem_nil _, rfl⟩
    | cons c cs =>
      rw [areOptionsUpTo, Bool.and_eq_true] at h
      obtain ⟨hc, h⟩ := h
      split at h
      · rename_i rest hrest
        obtain ⟨ps, hps, rfl⟩ := ih h
        have hlead : ∀ d ∈ c :: cs.takeWhile Text.isBlank, Text.isBlank d = true :=
          List.forall_mem_cons.2 ⟨hc, fun d hd => List.mem_takeWhile_imp hd⟩
        obtain ⟨-, i, hi, hs⟩ := afterOption?_eq_some_iff.1 hrest
        refine ⟨⟨⟨_, List.cons_ne_nil _ _, hlead⟩, i⟩ :: ps, List.forall_mem_cons.2 ⟨hi, hps⟩, ?_⟩
        rw [texts_cons, ← hs, List.cons_append, List.takeWhile_append_dropWhile]
      · cases h

/-- **What the grammar accepts** are exactly the texts of options. -/
theorem areOptions_iff {s : Text} : areOptions (word.map WordText.text) s = true ↔
    ∃ ps : List PlacedItem, (∀ p ∈ ps, p.item.Allowed (word.map WordText.text)) ∧ s = texts ps := by
  refine ⟨exists_options, ?_⟩
  rintro ⟨ps, hps, rfl⟩
  exact areOptionsUpTo_texts hps le_rfl

end

/-! ## The search for attributes -/

theorem pieces_of_attribute {s rest : Text} {p : Text × Text} (h : attribute? s = some (p, rest)) :
    pieces s = .pair p.1 p.2 :: pieces rest := by
  cases s with
  | nil => cases h
  | cons c cs =>
    rw [pieces]
    split
    · rename_i n v r hr
      rw [h] at hr
      cases hr
      rfl
    · rename_i hnone
      rw [h] at hnone
      cases hnone

theorem pieces_of_none {c : Char} {cs : Text} (h : attribute? (c :: cs) = none) :
    pieces (c :: cs) = .char c :: pieces cs := by
  rw [pieces]
  split
  · rename_i hr
    rw [h] at hr
    cases hr
  · rfl

/-- the search passes over blanks -/
theorem pieces_lead {lead : Text} (h : ∀ c ∈ lead, Text.isBlank c = true) (s : Text) :
    pieces (lead ++ s) = lead.map .char ++ pieces s := by
  induction lead with
  | nil => rfl
  | cons c lead ih =>
    obtain ⟨hc, hlead⟩ := List.forall_mem_cons.1 h
    have hnone : attribute? (c :: (lead ++ s)) = none := attribute?_run (List.forall_mem_nil _) hc
    rw [List.cons_append, pieces_of_none hnone, ih hlead]
    rfl

/-- the search passes over a word -/
theorem pieces_run {w rest : Text} (hw : ∀ c ∈ w, isAttributeChar c = true) (hrest : atBlank rest = true) :
    pieces (w ++ rest) = w.map .char ++ pieces rest := by
  induction w with
  | nil => rfl
  | cons c w ih =>
    have hnone : attribute? (c :: (w ++ rest)) = none := attribute?_run hw hrest
    rw [List.cons_append, pieces_of_none hnone, ih (List.forall_mem_cons.1 hw).2]
    rfl

namespace PlacedItem

/-- the pieces of an option -/
def pieces (p : PlacedItem) : List Piece :=
  p.lead.text.map .char ++
    match p.item with
    | .word w => w.text.map .char
    | .pair a => [.pair a.name a.value]

/-- **The search finds the options** one after the other. -/
theorem pieces_texts (ps : List PlacedItem) : Directive.pieces (texts ps) = ps.flatMap pieces := by
  induction ps with
  | nil =>
    rw [texts, List.flatMap_nil, Directive.pieces]
    rfl
  | cons p ps ih =>
    rw [texts_cons, pieces_lead p.lead.blank, List.flatMap_cons, pieces, ← ih]
    cases p.item with
    | word w =>
      simp only [ItemText.text]
      rw [pieces_run w.chars (atBlank_texts ps), List.append_assoc]
    | pair a =>
      simp only [ItemText.text]
      rw [pieces_of_attribute (attribute?_text a _), List.append_assoc]
      rfl

theorem filterMap_char (s : Text) : (s.map Piece.char).filterMap Piece.pair? = [] := by
  induction s with
  | nil => rfl
  | cons c s ih => rw [List.map_cons, List.filterMap_cons_none rfl, ih]

/-- **The attributes of options** are those that are written, put one after the other. -/
theorem attributes_items (ps : List PlacedItem) :
    attributes (texts ps) = (pairs ps).foldl (fun acc a => putAt a.1 a.2 acc) [] := by
  have hpairs : (ps.flatMap pieces).filterMap Piece.pair? = pairs ps := by
    induction ps with
    | nil => rfl
    | cons p ps ih =>
      rw [List.flatMap_cons, List.filterMap_append, ih, pieces, List.filterMap_append, filterMap_char]
      unfold pairs
      cases h : p.item with
      | word w =>
        simp only [filterMap_char]
        simp [h, ItemText.pair?]
      | pair a => simp [h, Piece.pair?, ItemText.pair?, AttributeText.pair]
  rw [attributes, pieces_texts, hpairs]

/-- **The bare words of options** are those that are written. -/
theorem flags_items (ps : List PlacedItem) : flags (texts ps) = words ps := by
  have hchars (s : Text) : (s.map Piece.char).map Piece.blanked = s := by simp [Piece.blanked, Function.comp_def]
  have hblank (ps : List PlacedItem) : atBlank ((ps.flatMap pieces).map Piece.blanked) = true := by
    cases ps with
    | nil => rfl
    | cons p ps =>
      obtain ⟨c, lead, hlead⟩ := List.exists_cons_of_ne_nil p.lead.ne
      rw [List.flatMap_cons, pieces, hlead]
      exact p.lead.blank c (by rw [hlead]; exact List.mem_cons_self)
  rw [flags, pieces_texts]
  induction ps with
  | nil => rfl
  | cons p ps ih =>
    rw [List.flatMap_cons, pieces, List.append_assoc, List.map_append, hchars, Text.words_blanks p.lead.blank,
      List.map_append]
    cases h : p.item with
    | word w =>
      have hword : words (p :: ps) = w.text :: words ps := by simp [words, h, ItemText.word?]
      rw [hword, hchars, Text.words_run w.ne w.isBlank_of_mem (hblank ps), ih]
    | pair a =>
      have hword : words (p :: ps) = words ps := by simp [words, h, ItemText.word?]
      have hspace : [Piece.pair a.name a.value].map Piece.blanked = [' '] := rfl
      rw [hword, hspace, List.singleton_append, Text.words_blank (by decide), ih]

/-- **Options are accepted** exactly if their bare words are the one that is allowed. -/
theorem areOptions_texts_iff {word : Option WordText} {ps : List PlacedItem} :
    areOptions (word.map WordText.text) (texts ps) = true ↔ ∀ w ∈ words ps, word.map WordText.text = some w := by
  have hwords (ps : List PlacedItem) :
      (∀ p ∈ ps, p.item.Allowed (word.map WordText.text)) ↔ ∀ w ∈ words ps, word.map WordText.text = some w := by
    simp only [words, List.mem_filterMap, ItemText.Allowed, Option.mem_def]
    exact ⟨fun h w ⟨p, hp, hw⟩ => h p hp w hw, fun h p hp w hw => h w ⟨p, hp, hw⟩⟩
  rw [areOptions_iff]
  constructor
  · rintro ⟨qs, hqs, htexts⟩
    -- the search finds one and the same bare words, whichever way the text is divided
    rw [← flags_items, htexts, flags_items]
    exact (hwords qs).1 hqs
  · exact fun h => ⟨ps, (hwords ps).2 h, rfl⟩

end PlacedItem

/-! ## Options of a generated form -/

/-- the bare word by which a generated form has no button -/
def WordText.noSubmit : WordText :=
  ⟨Directive.noSubmit, by decide, List.all_eq_true.1 (show Directive.noSubmit.all isAttributeChar = true by decide)⟩

theorem isAttributeChar_of_mem {c : Char} (h : c ∈ noSubmit) : isAttributeChar c = true :=
  WordText.noSubmit.chars c h

/-- an option as it is written, behind blanks; the bare word if it is no attribute -/
structure OptionText where
  lead : Text
  item : Option AttributeText
  lead_ne : lead ≠ []
  lead_blank : ∀ c ∈ lead, Text.isBlank c = true

namespace OptionText

/-- the option behind the blanks in front of it -/
def body (o : OptionText) : Text :=
  match o.item with
  | some a => a.text
  | none => noSubmit

/-- the option -/
def text (o : OptionText) : Text := o.lead ++ o.body

/-- options one behind the other -/
def texts (os : List OptionText) : Text := os.flatMap text

/-- the options that are attributes -/
def attributesOnly (os : List OptionText) : List OptionText := os.filter (·.item.isSome)

/-- the names and values of the attributes -/
def pairs (os : List OptionText) : List (Text × Text) := os.filterMap fun o => o.item.map AttributeText.pair

theorem texts_cons (o : OptionText) (os : List OptionText) : texts (o :: os) = o.lead ++ (o.body ++ texts os) := by
  rw [texts, List.flatMap_cons, text, List.append_assoc]
  rfl

/-- the option among options with any bare words -/
def placed (o : OptionText) : PlacedItem :=
  ⟨⟨o.lead, o.lead_ne, o.lead_blank⟩, o.item.elim (.word .noSubmit) .pair⟩

theorem texts_placed (os : List OptionText) : PlacedItem.texts (os.map placed) = texts os := by
  rw [PlacedItem.texts, List.flatMap_map, texts]
  congr 1
  funext o
  rw [text, body, placed]
  cases o.item <;> rfl

theorem pairs_placed (os : List OptionText) : PlacedItem.pairs (os.map placed) = pairs os := by
  rw [PlacedItem.pairs, List.filterMap_map, pairs]
  congr 1
  funext o
  rw [Function.comp_apply, placed]
  cases o.item <;> rfl

theorem words_placed (os : List OptionText) :
    PlacedItem.words (os.map placed) = (os.filter (·.item.isNone)).map fun _ => noSubmit := by
  induction os with
  | nil => rfl
  | cons o os ih =>
    rw [PlacedItem.words] at ih ⊢
    rw [List.map_cons, List.filterMap_cons, ih, placed]
    cases h : o.item with
    | some a => rw [List.filter_cons_of_neg (by simp [h])]; rfl
    | none => rw [List.filter_cons_of_pos (by simp [h])]; rfl

theorem atBlank_texts (os : List OptionText) : atBlank (texts os) = true :=
  texts_placed os ▸ PlacedItem.atBlank_texts _

/-- **The attributes of options** are those that are written, the last value of a name at the place of its first. -/
theorem attributes_texts (os : List OptionText) :
    attributes (texts os) = (pairs os).foldl (fun acc a => putAt a.1 a.2 acc) [] := by
  rw [← texts_placed, PlacedItem.attributes_items, pairs_placed]

/-- **The bare words of options** are those that are written. -/
theorem flags_texts (os : List OptionText) :
    flags (texts os) = (os.filter (·.item.isNone)).map fun _ => noSubmit := by
  rw [← texts_placed, PlacedItem.flags_items, words_placed]

theorem pairs_attributesOnly (os : List OptionText) : pairs (attributesOnly os) = pairs os := by
  induction os with
  | nil => rfl
  | cons o os ih =>
    unfold pairs attributesOnly at ih ⊢
    cases h : o.item <;> simp [h, ih]

theorem item_of_mem_attributesOnly {o : OptionText} {os : List OptionText} (h : o ∈ attributesOnly os) :
    o.item ≠ none := by
  have hsome := (List.mem_filter.1 h).2
  intro hnone
  rw [hnone] at hsome
  cases hsome

/-- the attributes stay when the bare word is left out -/
theorem attributes_attributesOnly (os : List OptionText) :
    attributes (texts (attributesOnly os)) = attributes (texts os) := by
  rw [attributes_texts, attributes_texts, pairs_attributesOnly]

/-- the option is an attribute, or the bare word is allowed -/
def Allowed (word : Option Text) (o : OptionText) : Prop := o.item = none → word = some noSubmit

theorem areOptions_texts {word : Option WordText} {os : List OptionText}
    (hos : ∀ o ∈ os, o.Allowed (word.map WordText.text)) :
    areOptions (word.map WordText.text) (texts os) = true := by
  rw [← texts_placed, PlacedItem.areOptions_texts_iff, words_placed]
  intro w hw
  obtain ⟨o, ho, rfl⟩ := List.mem_map.1 hw
  obtain ⟨ho, hnone⟩ := List.mem_filter.1 ho
  exact hos o ho (Option.isNone_iff_eq_none.1 hnone)

/-- options with no other bare word -/
theorem exists_of_allowed {ps : List PlacedItem} (h : ∀ p ∈ ps, p.item.Allowed (some noSubmit)) :
    ∃ os : List OptionText, PlacedItem.texts ps = texts os := by
  induction ps with
  | nil => exact ⟨[], rfl⟩
  | cons p ps ih =>
    obtain ⟨hp, hps⟩ := List.forall_mem_cons.1 h
    obtain ⟨os, hos⟩ := ih hps
    obtain ⟨⟨lead, ne, hlead⟩, i⟩ := p
    rw [PlacedItem.texts_cons, hos]
    cases i with
    | word w =>
      have hw : noSubmit = w.text := Option.some.inj (hp _ rfl)
      refine ⟨⟨lead, none, ne, hlead⟩ :: os, ?_⟩
      rw [texts_cons]
      exact congrArg (fun t => lead ++ (t ++ texts os)) hw.symm
    | pair a =>
      refine ⟨⟨lead, some a, ne, hlead⟩ :: os, ?_⟩
      rw [texts_cons]
      rfl

end OptionText

open OptionText

/-! ## Directives of forms -/

/-- the directive that generates a form, as it is written -/
structure GenerateText where
  lead : Text
  entity : PathText
  options : List OptionText
  lead_ne : lead ≠ []
  lead_blank : ∀ c ∈ lead, Text.isBlank c = true
  proper : entity.proper = true

namespace GenerateText

/-- the directive -/
def text (g : GenerateText) : Text := "generate".toList ++ (g.lead ++ (g.entity.text ++ texts g.options))

/-- the directive that opens a form for the same entity with the same attributes -/
def formText (g : GenerateText) : Text :=
  "form".toList ++ (g.lead ++ (g.entity.text ++ texts (attributesOnly g.options)))

/-- no option is the bare word -/
def submits (g : GenerateText) : Bool := g.options.all (·.item.isSome)

end GenerateText

/-- a word, blanks, and what begins with none -/
theorem afterWord?_lead {w lead rest : Text} (ne : lead ≠ []) (hlead : ∀ c ∈ lead, Text.isBlank c = true)
    (hrest : Text.begins Text.isBlank rest = false) : afterWord? w (w ++ (lead ++ rest)) = some rest := by
  obtain ⟨c, lead', rfl⟩ := List.exists_cons_of_ne_nil ne
  obtain ⟨hc, hlead'⟩ := List.forall_mem_cons.1 hlead
  rw [afterWord?, Text.after?_append, Option.bind_some, List.cons_append, afterBlanks?, if_pos hc,
    (Text.span_run hlead' hrest).2]

theorem pathAndOptions?_text (word : Option WordText) {p : PathText} (hp : p.proper = true) {os : List OptionText}
    (hos : ∀ o ∈ os, o.Allowed (word.map WordText.text)) :
    pathAndOptions? (word.map WordText.text) (p.text ++ texts os) = some ⟨p.text, texts os⟩ := by
  rw [pathAndOptions?, takePath?_path hp (atBlank_texts os), Option.bind_some, if_pos (areOptions_texts hos)]

/-- a path does not begin with a blank -/
theorem begins_entity {p : PathText} (hp : p.proper = true) (rest : Text) :
    Text.begins Text.isBlank (p.text ++ rest) = false :=
  Text.begins_apart (fun _ => Text.isBlank_of_isNameStart) (begins_path hp rest)

/-- **What generates a form** is a directive as it is written, and what is read of it are its entity and its options. -/
theorem generate?_eq_some_iff {s : Text} {o : Optioned} :
    generate? s = some o ↔ ∃ g : GenerateText, s = g.text ∧ o = ⟨g.entity.text, texts g.options⟩ := by
  constructor
  · intro h
    obtain ⟨rest, hrest, h⟩ := Option.bind_eq_some_iff.1 h
    obtain ⟨lead, hs, ne, hlead⟩ := blanks_of_afterWord? hrest
    rw [pathAndOptions?, Option.bind_eq_some_iff] at h
    obtain ⟨⟨subject, options⟩, hpath, h⟩ := h
    obtain ⟨p, hp, rfl, hsplit, -⟩ := Reference.takePath?_eq_some_iff.1 hpath
    cases hoptions : areOptions (some noSubmit) options with
    | false =>
      simp [hoptions] at h
    | true =>
      obtain ⟨ps, hps, rfl⟩ := (@areOptions_iff (some .noSubmit) options).1 hoptions
      obtain ⟨os, hos⟩ := exists_of_allowed hps
      rw [hos] at hsplit hoptions h
      simp only [hoptions, if_true] at h
      obtain rfl := Option.some.inj h
      rw [hsplit] at hs
      exact ⟨⟨lead, p, os, ne, List.all_eq_true.1 hlead, hp⟩, hs.trans (List.append_assoc _ _ _), rfl⟩
  · rintro ⟨g, rfl, rfl⟩
    exact Option.bind_eq_some_iff.2 ⟨_, afterWord?_lead g.lead_ne g.lead_blank (begins_entity g.proper _),
      pathAndOptions?_text (some .noSubmit) g.proper fun _ _ _ => rfl⟩

/-- the form that a directive opens, which generates the form otherwise -/
theorem form?_text (g : GenerateText) : form? g.formText = some ⟨g.entity.text, texts (attributesOnly g.options)⟩ := by
  exact Option.bind_eq_some_iff.2 ⟨_, afterWord?_lead g.lead_ne g.lead_blank (begins_entity g.proper _),
    pathAndOptions?_text none g.proper fun o ho hnone => absurd hnone (item_of_mem_attributesOnly ho)⟩

/-- the form has a button unless the bare word is among its options -/
theorem contains_flags (g : GenerateText) : (!(flags (texts g.options)).contains noSubmit) = g.submits := by
  rw [flags_texts, Bool.eq_iff_iff, GenerateText.submits]
  simp [Option.isSome_iff_ne_none]

example : attributes " nosubmit a=\"1 nosubmit\" b=\"2\" a=\"3\"" = [(['a'], ['3']), (['b'], ['2'])] := by
  decide +kernel

end Directive

end Stencil
