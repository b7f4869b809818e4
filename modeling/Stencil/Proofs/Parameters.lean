/-
THE PARAMETERS OF A PHRASE as they are written: behind blanks a name, an equals sign with any blanks around it, and a
literal or a path, up to a blank or the end. The grammar divides a text into such parameters, in one way only. What
they are is then read by a second search through the text, which takes a literal wherever one stands, even if it is the
first name of a longer path: in `a=true.x` it reads the word true.

- `ArgumentText`, `ParamText`: an operand and a parameter as they are written.
- `afterParamOperand?_eq_some_iff`, `exists_texts`: what the grammar accepts.
- `items_unique`: the division is unique.
- `paramsUpTo_texts`: what the search finds in a text of parameters.
- `params_division`: the parameters of a phrase are those of the division, unless an operand is cut off.
-/
import Stencil.Proofs.Meaning

namespace Stencil.Directive

/-! ## Parameters as they are written -/

/-- the operand of a parameter as it is written -/
inductive ArgumentText where
  | literal (l : LiteralText) (proper : l.proper = true)
  | path (p : PathText) (proper : p.proper = true)

namespace ArgumentText

/-- the operand -/
def text : ArgumentText → Text
  | literal l _ => l.text
  | path p _ => p.text

/-- the operand is a path that goes on behind its first name, which is one of the words that are literals -/
def cutOff : ArgumentText → Bool
  | literal _ _ => false
  | path p _ => Literal.words.any (·.1 == p.root) && !p.segments.isEmpty

end ArgumentText

/-- a parameter as it is written, with the blanks in front of it and around its equals sign -/
structure ParamText where
  lead : Text
  name : Text
  before : Text
  after : Text
  operand : ArgumentText
  lead_ne : lead ≠ []
  lead_blank : ∀ c ∈ lead, Text.isBlank c = true
  isName : Text.isName name = true
  before_blank : ∀ c ∈ before, Text.isBlank c = true
  after_blank : ∀ c ∈ after, Text.isBlank c = true

namespace ParamText

/-- the parameter behind the blanks in front of it -/
def body (p : ParamText) : Text := p.name ++ (p.before ++ '=' :: (p.after ++ p.operand.text))

/-- the parameter -/
def text (p : ParamText) : Text := p.lead ++ p.body

/-- the name and the text of the operand -/
def item (p : ParamText) : Text × Text := (p.name, p.operand.text)

/-- parameters one behind the other -/
def texts (ps : List ParamText) : Text := ps.flatMap text

end ParamText

/-! ## What the grammar accepts -/

section

variable {s rest : Text}

theorem atBlank_iff : atBlank s = true ↔ s = [] ∨ Text.begins Text.isBlank s = true := by
  cases s <;> simp [atBlank]

/-- in front of a blank or the end no run of other characters goes on -/
theorem begins_of_atBlank {p : Char → Bool} (hp : ∀ c, Text.isBlank c = true → p c = false) (h : atBlank s = true) :
    Text.begins p s = false := by
  rcases atBlank_iff.1 h with rfl | h
  · rfl
  · exact Text.begins_apart hp h

/-- **A parameter's name and equals sign** stand at the beginning, and no blank behind them is left. -/
theorem afterEquals?_eq_some_iff {n : Text} : afterEquals? s = some (n, rest) ↔ ∃ before after : Text,
    Text.isName n = true ∧ (∀ c ∈ before, Text.isBlank c = true) ∧ (∀ c ∈ after, Text.isBlank c = true) ∧
      s = n ++ (before ++ '=' :: (after ++ rest)) ∧ Text.begins Text.isBlank rest = false := by
  have hequals (t : Text) : Text.begins Text.isBlank ('=' :: t) = false := show Text.isBlank '=' = false by decide
  have split (t : Text) : t = t.takeWhile Text.isBlank ++ t.dropWhile Text.isBlank :=
    List.takeWhile_append_dropWhile.symm
  have blank (t : Text) : ∀ c ∈ t.takeWhile Text.isBlank, Text.isBlank c = true :=
    fun c hc => List.mem_takeWhile_imp hc
  simp only [afterEquals?, Option.bind_eq_some_iff, Option.map_eq_some_iff, Prod.exists, Reference.name?_eq_some_iff,
    Text.after?_eq_some_iff, Prod.mk.injEq]
  constructor
  · rintro ⟨n', r, ⟨hn, rfl, -⟩, r', hr, rfl, rfl⟩
    refine ⟨r.takeWhile Text.isBlank, r'.takeWhile Text.isBlank, hn, blank r, blank r', ?_, Text.begins_dropWhile _ _⟩
    rw [← split r', List.append_cancel_left_eq]
    calc r = r.takeWhile Text.isBlank ++ r.dropWhile Text.isBlank := split r
      _ = _ := by rw [hr]; rfl
  · rintro ⟨before, after, hn, hbefore, hafter, rfl, hrest⟩
    have hend : Text.begins Text.isNameChar (before ++ '=' :: (after ++ rest)) = false := by
      cases before with
      | nil => exact show Text.isNameChar '=' = false by decide
      | cons b _ =>
        rw [List.cons_append, Text.begins_cons]
        exact Text.isNameChar_of_isBlank (hbefore b List.mem_cons_self)
    refine ⟨n, _, ⟨hn, rfl, hend⟩, after ++ rest, ?_, rfl, (Text.span_run hafter hrest).2⟩
    exact (Text.span_run hbefore (hequals _)).2

/-- a literal that begins like a name is one of the words, and ends where a word ends -/
theorem word_of_literal {l : LiteralText} (hl : l.proper = true) (h : Text.begins Text.isNameStart l.text = true) :
    (∃ w ∈ Literal.words, w.1 = l.text) ∧ ∀ r, l.endsAt r = Literal.atWordEnd r := by
  obtain ⟨c, cs, hc, hlead⟩ := lead_text (x := .literal l) hl
  have htext : l.text = c :: cs := hc
  rw [htext, Text.begins_cons] at h
  rw [leadOf_nameStart h] at hlead
  cases l with
  | null => exact ⟨⟨("null", .null), by decide, rfl⟩, fun _ => rfl⟩
  | bool b =>
    cases b with
    | true => exact ⟨⟨("true", .bool true), by decide, rfl⟩, fun _ => rfl⟩
    | false => exact ⟨⟨("false", .bool false), by decide, rfl⟩, fun _ => rfl⟩
  | quoted mark s => cases hlead
  | number negative whole fraction => cases hlead

/-- each of the words is a name and is read as a literal where it ends -/
theorem literal_of_word {w : Text × Literal} (h : w ∈ Literal.words) :
    Text.isName w.1 = true ∧ ∃ l : LiteralText, l.proper = true ∧ l.text = w.1 ∧
      ∀ r, l.endsAt r = Literal.atWordEnd r := by
  simp only [Literal.words, List.mem_cons, List.not_mem_nil, or_false] at h
  rcases h with rfl | rfl | rfl
  · exact ⟨by decide, .bool true, rfl, rfl, fun _ => rfl⟩
  · exact ⟨by decide, .bool false, rfl, rfl, fun _ => rfl⟩
  · exact ⟨by decide, .null, rfl, rfl, fun _ => rfl⟩

theorem isNameChar_of_atWordEnd (h : Literal.atWordEnd s = true) : Text.begins Text.isNameChar s = false := by
  cases s with
  | nil => rfl
  | cons c s =>
    rw [Literal.atWordEnd, Bool.not_eq_true'] at h
    rw [Text.begins_cons, Bool.eq_false_iff]
    intro hc
    rw [Text.isWord_of_isNameChar hc] at h
    cases h

/-- behind the first name of a path stands a mark, a blank or the end, so that it is a word of its own -/
theorem atWordEnd_tail (ps : List SegmentText) (hrest : atBlank rest = true) :
    Literal.atWordEnd (PathText.tail ps ++ rest) = true := by
  have hend (t : Text) (h : Text.begins Text.isWord t = false) : Literal.atWordEnd t = true := by
    cases t with
    | nil => rfl
    | cons c t => rw [Literal.atWordEnd, ← Text.begins_cons Text.isWord c t, h, Bool.not_false]
  by_cases hps : ps = []
  · subst hps
    exact hend _ (begins_of_atBlank (fun _ => Text.isWord_of_isBlank) hrest)
  · exact hend _ (Reference.begins_tail hps (by decide) (by decide) rest)

/-- no blank stands where a path goes on -/
theorem atBlank_tail {ps : List SegmentText} (ne : ps ≠ []) (rest : Text) :
    atBlank (PathText.tail ps ++ rest) = false := by
  have hpoint : Text.isBlank '.' = false := by decide
  have hbracket : Text.isBlank '[' = false := by decide
  cases ps with
  | nil => exact absurd rfl ne
  | cons q qs =>
    cases q with
    | name n => exact hpoint
    | dotIndex d => exact hpoint
    | index d => exact hbracket
    | key mark k => exact hbracket

/-- a path begins with a literal if its first name is one of the words that are literals -/
theorem after?_path {p : PathText} (hp : p.proper = true) (hrest : atBlank rest = true) :
    Literal.after? (p.text ++ rest) =
      if Literal.words.any (·.1 == p.root) then some (PathText.tail p.segments ++ rest) else none := by
  have hroot : Text.isName p.root = true := (Bool.and_eq_true _ _ ▸ hp).1
  have hend := atWordEnd_tail p.segments hrest
  have htext : p.text ++ rest = p.root ++ (PathText.tail p.segments ++ rest) := List.append_assoc _ _ _
  split
  · rename_i hword
    obtain ⟨w, hw, heq⟩ := List.any_eq_true.1 hword
    obtain ⟨-, l, hl, hlw, hends⟩ := literal_of_word hw
    refine Literal.after?_eq_some_iff.2 ⟨l, hl, ?_, by rw [hends, hend]⟩
    rw [htext, hlw, beq_iff_eq.1 heq]
  · rename_i hword
    rw [Option.eq_none_iff_forall_ne_some]
    intro r hr
    obtain ⟨l, hl, hs, hends⟩ := Literal.after?_eq_some_iff.1 hr
    have hbegins : Text.begins Text.isNameStart l.text = true := by
      have := begins_path hp rest
      rwa [hs, Text.begins_append (Literal.solid_text hl).ne] at this
    obtain ⟨⟨w, hw, hwl⟩, hends'⟩ := word_of_literal hl hbegins
    -- the word and the first name are the name that the text begins with
    have hname : Reference.name? (p.text ++ rest) = some (p.root, PathText.tail p.segments ++ rest) :=
      Reference.name?_eq_some_iff.2 ⟨hroot, htext, isNameChar_of_atWordEnd hend⟩
    have hname' : Reference.name? (p.text ++ rest) = some (l.text, r) := by
      refine Reference.name?_eq_some_iff.2 ⟨hwl ▸ (literal_of_word hw).1, hs, isNameChar_of_atWordEnd ?_⟩
      rw [← hends', hends]
    rw [hname, Option.some.injEq, Prod.mk.injEq] at hname'
    exact hword (List.any_eq_true.2 ⟨w, hw, by rw [hwl, hname'.1, beq_iff_eq]⟩)

/-- a literal ends in front of a blank or the end -/
theorem endsAt_of_atBlank (l : LiteralText) (h : atBlank rest = true) : l.endsAt rest = true := by
  have hdigit := begins_of_atBlank (fun _ => Text.isDigit_of_isBlank) h
  have hword : Literal.atWordEnd rest = true := atWordEnd_tail [] h
  have hfraction : LiteralText.atFraction rest = false := by
    refine Literal.atFraction_eq_false ?_
    rintro cs rfl
    exact absurd h (show Text.isBlank '.' ≠ true by decide)
  cases l with
  | null => exact hword
  | bool b => exact hword
  | quoted mark s => rfl
  | number negative whole fraction => cases fraction <;> simp [LiteralText.endsAt, hdigit, hfraction]

theorem takePath?_path {p : PathText} (hp : p.proper = true) (hrest : atBlank rest = true) :
    Reference.takePath? (p.text ++ rest) = some (p.text, rest) :=
  Reference.takePath?_eq_some_iff.2 ⟨p, hp, rfl, rfl, Reference.endsAt_of_begins p
    (begins_of_atBlank (fun _ => Reference.continues_of_isBlank) hrest)⟩

/-- **An operand of a parameter** stands at the beginning, and a blank or the end behind it. -/
theorem afterParamOperand?_eq_some_iff :
    afterParamOperand? s = some rest ↔ ∃ o : ArgumentText, s = o.text ++ rest ∧ atBlank rest = true := by
  constructor
  · intro h
    rcases of_orElse h with h | h
    · obtain ⟨h, hrest⟩ := Option.filter_eq_some_iff.1 h
      obtain ⟨l, hl, rfl, -⟩ := Literal.after?_eq_some_iff.1 h
      exact ⟨.literal l hl, rfl, hrest⟩
    · obtain ⟨h, hrest⟩ := Option.filter_eq_some_iff.1 h
      obtain ⟨⟨t, r⟩, htake, rfl⟩ := Option.map_eq_some_iff.1 h
      obtain ⟨p, hp, rfl, rfl, -⟩ := Reference.takePath?_eq_some_iff.1 htake
      exact ⟨.path p hp, rfl, hrest⟩
  · rintro ⟨o, rfl, hrest⟩
    rw [afterParamOperand?]
    cases o with
    | literal l hl =>
      have h : Literal.after? (l.text ++ rest) = some rest :=
        Literal.after?_eq_some_iff.2 ⟨l, hl, rfl, endsAt_of_atBlank l hrest⟩
      simp only [ArgumentText.text, h, Option.filter_some, hrest, if_true]
      rfl
    | path p hp =>
      simp only [ArgumentText.text, after?_path hp hrest, takePath?_path hp hrest, Option.map_some, Option.filter_some,
        hrest, if_true]
      split
      · -- the word is the whole operand, or what follows it is no blank
        by_cases hps : p.segments = []
        · rw [Option.filter_some, hps, PathText.tail, List.flatMap_nil, List.nil_append, if_pos hrest]
          rfl
        · rw [Option.filter_some, atBlank_tail hps, if_neg Bool.false_ne_true]
          rfl
      · rfl

end

/-! ## The division of a text of parameters -/

namespace ParamText

variable {ps qs : List ParamText} {n : Nat}

/-- a text of parameters ends, or a blank stands at its beginning -/
theorem atBlank_texts (ps : List ParamText) : atBlank (texts ps) = true := by
  cases ps with
  | nil => rfl
  | cons p ps =>
    cases hlead : p.lead with
    | nil => exact absurd hlead p.lead_ne
    | cons c cs =>
      have hc : Text.isBlank c = true := p.lead_blank c (by simp [hlead])
      simp [texts, text, hlead, atBlank, hc]

theorem texts_cons (p : ParamText) (ps : List ParamText) : texts (p :: ps) = p.lead ++ (p.body ++ texts ps) := by
  simp [texts, text]

theorem solid_operand (o : ArgumentText) : Text.Solid o.text := by
  cases o with
  | literal l hl => exact Literal.solid_text hl
  | path p hp => exact Reference.solid_path hp

theorem begins_operand (o : ArgumentText) (rest : Text) : Text.begins Text.isBlank (o.text ++ rest) = false := by
  rw [Text.begins_append (solid_operand o).ne, (solid_operand o).front]

/-- the blanks in front of a parameter are left out -/
theorem dropWhile_texts_cons (p : ParamText) (ps : List ParamText) :
    (texts (p :: ps)).dropWhile Text.isBlank = p.body ++ texts ps := by
  have hbegins : Text.begins Text.isBlank (p.body ++ texts ps) = false := by
    rw [body, List.append_assoc, Text.begins_append (Reference.solid_name p.isName).ne,
      (Reference.solid_name p.isName).front]
  rw [texts_cons]
  exact (Text.span_run p.lead_blank hbegins).2

/-- a parameter is read up to its operand -/
theorem afterEquals?_body (p : ParamText) (rest : Text) :
    afterEquals? (p.body ++ rest) = some (p.name, p.operand.text ++ rest) := by
  refine afterEquals?_eq_some_iff.2 ⟨p.before, p.after, p.isName, p.before_blank, p.after_blank, ?_, ?_⟩
  · simp [body]
  · exact begins_operand _ _

theorem afterParamOperand?_operand (o : ArgumentText) (ps : List ParamText) :
    afterParamOperand? (o.text ++ texts ps) = some (texts ps) :=
  afterParamOperand?_eq_some_iff.2 ⟨o, rfl, atBlank_texts ps⟩

end ParamText

open ParamText

/-- **What the grammar accepts** is a text of parameters. -/
theorem exists_texts {n : Nat} {s : Text} (h : areParamsUpTo n s = true) : ∃ ps : List ParamText, s = texts ps := by
  induction n generalizing s with
  | zero =>
    cases s with
    | nil => exact ⟨[], rfl⟩
    | cons c cs => cases h
  | succ n ih =>
    cases s with
    | nil => exact ⟨[], rfl⟩
    | cons c cs =>
      rw [areParamsUpTo, Bool.and_eq_true] at h
      obtain ⟨hc, h⟩ := h
      split at h
      · rename_i rest hrest
        obtain ⟨ps, rfl⟩ := ih h
        obtain ⟨⟨name, r⟩, hequals, hoperand⟩ := Option.bind_eq_some_iff.1 hrest
        obtain ⟨before, after, hname, hbefore, hafter, hs, -⟩ := afterEquals?_eq_some_iff.1 hequals
        obtain ⟨o, ho, -⟩ := afterParamOperand?_eq_some_iff.1 hoperand
        have ho' : r = o.text ++ texts ps := ho
        have hlead : ∀ d ∈ c :: cs.takeWhile Text.isBlank, Text.isBlank d = true :=
          List.forall_mem_cons.2 ⟨hc, fun d hd => List.mem_takeWhile_imp hd⟩
        refine ⟨⟨_, name, before, after, o, List.cons_ne_nil _ _, hlead, hname, hbefore, hafter⟩ :: ps, ?_⟩
        have hsplit : cs = cs.takeWhile Text.isBlank ++ cs.dropWhile Text.isBlank :=
          List.takeWhile_append_dropWhile.symm
        rw [hs, ho'] at hsplit
        rw [texts_cons, body, List.cons_append]
        simpa using hsplit
      · cases h

/-- **A text is divided into parameters in one way only.** -/
theorem items_unique {ps qs : List ParamText} (h : texts ps = texts qs) :
    ps.map item = qs.map item := by
  have hnil (p : ParamText) (ps : List ParamText) : texts (p :: ps) ≠ [] := by
    simp [texts_cons, p.lead_ne]
  induction ps generalizing qs with
  | nil =>
    cases qs with
    | nil => rfl
    | cons q qs => exact absurd h.symm (hnil q qs)
  | cons p ps ih =>
    cases qs with
    | nil => exact absurd h (hnil p ps)
    | cons q qs =>
      have hbody : p.body ++ texts ps = q.body ++ texts qs := by
        rw [← dropWhile_texts_cons, h, dropWhile_texts_cons]
      have hname := congrArg afterEquals? hbody
      rw [afterEquals?_body, afterEquals?_body, Option.some.injEq, Prod.mk.injEq] at hname
      have hrest := congrArg afterParamOperand? hname.2
      rw [afterParamOperand?_operand, afterParamOperand?_operand, Option.some.injEq] at hrest
      have hoperand : p.operand.text = q.operand.text := by
        rw [hrest] at hname
        exact List.append_cancel_right hname.2
      rw [List.map_cons, List.map_cons, ih hrest, item, item, hname.1, hoperand]

/-! ## The search for parameters -/

namespace ArgumentText

/-- the operand that the search takes: the first name of one that is cut off -/
def found (o : ArgumentText) : Text :=
  match o with
  | literal l _ => l.text
  | path p _ => if o.cutOff then p.root else p.text

/-- what is left of an operand that is cut off -/
def left (o : ArgumentText) : Text :=
  match o with
  | literal _ _ => []
  | path p _ => if o.cutOff then PathText.tail p.segments else []

theorem found_append_left (o : ArgumentText) : o.found ++ o.left = o.text := by
  cases o with
  | literal l hl => exact List.append_nil _
  | path p hp =>
    unfold found left
    dsimp only
    split
    · rfl
    · exact List.append_nil _

/-- of an operand that is cut off something is left, and of no other -/
theorem left_eq_nil_iff (o : ArgumentText) : o.left = [] ↔ o.cutOff = false := by
  cases o with
  | literal l hl => exact ⟨fun _ => rfl, fun _ => rfl⟩
  | path p hp =>
    unfold left
    dsimp only
    split
    · rename_i hcut
      have hsegments : p.segments ≠ [] := by
        simp only [cutOff, Bool.and_eq_true, Bool.not_eq_true', List.isEmpty_eq_false_iff] at hcut
        exact hcut.2
      have htail := atBlank_tail hsegments []
      constructor
      · intro hnil
        rw [hnil] at htail
        cases htail
      · intro hno
        rw [hcut] at hno
        cases hno
    · rename_i hcut
      exact ⟨fun _ => Bool.eq_false_iff.2 hcut, fun _ => rfl⟩

end ArgumentText

/-- **The search takes the literal** that an operand is or begins with, else the whole path. -/
theorem takeOperand?_operand (o : ArgumentText) {rest : Text} (hrest : atBlank rest = true) :
    takeOperand? (o.text ++ rest) = some (o.found, o.left ++ rest) := by
  cases o with
  | literal l hl =>
    have htake : Literal.take? (l.text ++ rest) = some (l.text, rest) :=
      Literal.take?_eq_some_iff.2 ⟨l, hl, rfl, rfl, endsAt_of_atBlank l hrest⟩
    simp only [takeOperand?, ArgumentText.text, htake]
    rfl
  | path p hp =>
    have hafter := after?_path hp hrest
    have htext : p.text ++ rest = p.root ++ (PathText.tail p.segments ++ rest) := List.append_assoc _ _ _
    rw [takeOperand?, ArgumentText.text, Literal.take?, hafter, takePath?_path hp hrest, ArgumentText.found,
      ArgumentText.left, ArgumentText.cutOff]
    cases hword : Literal.words.any (·.1 == p.root) with
    | false => simp
    | true =>
      simp only [if_true, Option.map_some, Bool.true_and, htext, Reference.take_sub_length]
      cases hps : p.segments with
      | nil => simp [PathText.text, hps, PathText.tail]
      | cons q qs => simp

theorem param?_body (p : ParamText) {rest : Text} (hrest : atBlank rest = true) :
    param? (p.body ++ rest) = some ((p.name, p.operand.found), p.operand.left ++ rest) := by
  simp only [param?, afterEquals?_body, Option.bind_some, takeOperand?_operand _ hrest, Option.map_some]

/-- no parameter begins with a blank -/
theorem param?_blank {c : Char} (hc : Text.isBlank c = true) (s : Text) : param? (c :: s) = none := by
  have hname : Reference.name? (c :: s) = none := by
    rw [Option.eq_none_iff_forall_ne_some]
    rintro ⟨n, rest⟩ h
    obtain ⟨hn, hs, -⟩ := Reference.name?_eq_some_iff.1 h
    have hsolid := Reference.solid_name hn
    have hfront : Text.begins Text.isBlank (n ++ rest) = false := by
      rw [Text.begins_append hsolid.ne, hsolid.front]
    rw [← hs, Text.begins_cons, hc] at hfront
    cases hfront
  rw [param?, afterEquals?, hname]
  rfl

/-- the search passes over blanks -/
theorem paramsUpTo_lead {lead : Text} (hlead : ∀ c ∈ lead, Text.isBlank c = true) (n : Nat) (s : Text) :
    paramsUpTo (lead.length + n) (lead ++ s) = paramsUpTo n s := by
  induction lead with
  | nil => rw [List.length_nil, Nat.zero_add, List.nil_append]
  | cons c lead ih =>
    obtain ⟨hc, hlead⟩ := List.forall_mem_cons.1 hlead
    rw [List.length_cons, Nat.succ_add, List.cons_append, paramsUpTo, param?_blank hc, ih hlead]

/-- the search comes to a parameter and goes on behind what it takes of it -/
theorem paramsUpTo_body (p : ParamText) {rest : Text} (hrest : atBlank rest = true) (n : Nat) :
    paramsUpTo (n + 1) (p.body ++ rest) = (p.name, p.operand.found) :: paramsUpTo n (p.operand.left ++ rest) := by
  have hparam := param?_body p hrest
  cases hbody : p.body ++ rest with
  | nil =>
    rw [hbody] at hparam
    cases hparam
  | cons c cs =>
    rw [hbody] at hparam
    rw [paramsUpTo, hparam]

/-- **The search finds the parameters of a text** exactly if none of their operands is cut off. -/
theorem paramsUpTo_texts {ps : List ParamText} {n : Nat} (hn : (texts ps).length ≤ n) :
    paramsUpTo n (texts ps) = ps.map item ↔ ∀ p ∈ ps, p.operand.cutOff = false := by
  induction ps generalizing n with
  | nil => cases n <;> simp [texts, paramsUpTo]
  | cons p ps ih =>
    have hne : p.operand.text ≠ [] := (solid_operand p.operand).ne
    have hlength : (texts (p :: ps)).length = p.lead.length + (p.body.length + (texts ps).length) := by
      rw [texts_cons, List.length_append, List.length_append]
    have hbody : 0 < p.body.length := by
      rw [List.length_pos_iff]
      simp [body]
    obtain ⟨m, rfl⟩ : ∃ m, n = p.lead.length + (m + 1) := ⟨n - p.lead.length - 1, by omega⟩
    rw [texts_cons, paramsUpTo_lead p.lead_blank, paramsUpTo_body p (atBlank_texts ps), List.map_cons, item,
      List.forall_mem_cons]
    cases hcut : p.operand.cutOff with
    | false =>
      have hleft := p.operand.left_eq_nil_iff.2 hcut
      have hfound : p.operand.found = p.operand.text := by
        rw [← p.operand.found_append_left, hleft, List.append_nil]
      rw [hleft, hfound, List.nil_append, ← ih (n := m) (by omega)]
      simp
    | true =>
      have hfound : p.operand.found ≠ p.operand.text := by
        intro h
        have happend := p.operand.found_append_left
        rw [h] at happend
        have hleft := p.operand.left_eq_nil_iff.1 (List.append_right_eq_self.1 happend)
        rw [hcut] at hleft
        cases hleft
      simp [hfound]

/-! ## Phrases -/

/-- a phrase has the parameters that its text is divided into -/
theorem texts_of_phrase? {s : Text} {parts : PhraseParts} (h : phrase? s = some parts) :
    ∃ items : List ParamText, parts.params = texts items := by
  obtain ⟨rest, -, h⟩ := Option.bind_eq_some_iff.1 h
  cases rest with
  | nil => cases h
  | cons c cs =>
    dsimp only at h
    split at h
    · rename_i hparams
      cases h
      exact exists_texts (Bool.and_eq_true _ _ ▸ hparams).2
    · cases h

/-- the parameters of a phrase with each operand read as a whole -/
def wholeParams (m : Mode) (bound : List Text) (items : List ParamText) : Except Refusal (List (Text × Expr)) :=
  items.mapM fun i => (m.operand bound true i.operand.text).map fun e => (i.name, e)

/-- **The parameters of a phrase are those that the grammar divides its text into**, and each operand is compiled as a
whole, unless one of the operands is a path that goes on behind a word which is a literal; then they are not. -/
theorem params_division {s : Text} {parts : PhraseParts} (h : phrase? s = some parts) :
    (∃ items : List ParamText, parts.params = texts items) ∧
    ∀ items : List ParamText, parts.params = texts items →
      (∀ items', parts.params = texts items' → items'.map item = items.map item) ∧
      (params parts.params = items.map item ↔ ∀ i ∈ items, i.operand.cutOff = false) ∧
      ((∀ i ∈ items, i.operand.cutOff = false) → ∀ (m : Mode) (t : Token) (c : Context), t.raw = s →
        startPhrase m t c = do
          let ps ← wholeParams m c.bound items
          return (⟨[⟨0, .translate (c.counter + 1) parts.key ps⟩, ⟨0, .whenText (c.counter + 1)⟩,
            ⟨1, .writeText (c.counter + 1)⟩, ⟨0, .otherwise⟩, ⟨1, .pass⟩], 1⟩,
            { c with counter := c.counter + 1 })) := by
  refine ⟨texts_of_phrase? h, fun items hitems => ?_⟩
  have hparams : params parts.params = items.map item ↔ ∀ i ∈ items, i.operand.cutOff = false := by
    rw [params, hitems]
    exact paramsUpTo_texts le_rfl
  refine ⟨fun items' h' => items_unique (h'.symm.trans hitems), hparams, ?_⟩
  rintro hcut m t c rfl
  have hwhole : (params parts.params).mapM (fun p => (m.operand c.bound true p.2).map fun e => (p.1, e)) =
      wholeParams m c.bound items := by
    rw [hparams.2 hcut, wholeParams, List.mapM_map]
    rfl
  have hrequire : require t (phrase? t.raw) = .ok parts := by rw [h]; rfl
  have hstart : startPhrase m t c = do
      let ps ← (params parts.params).mapM fun p => (m.operand c.bound true p.2).map fun e => (p.1, e)
      return (⟨[⟨0, .translate (c.counter + 1) parts.key ps⟩, ⟨0, .whenText (c.counter + 1)⟩,
        ⟨1, .writeText (c.counter + 1)⟩, ⟨0, .otherwise⟩, ⟨1, .pass⟩], 1⟩,
        { c with counter := c.counter + 1 }) := by
    rw [startPhrase, hrequire]
    rfl
  rw [hstart, hwhole]

theorem one_blank : ∀ c ∈ ([' '] : Text), Text.isBlank c = true := List.forall_mem_singleton.2 (by decide)

/-- a quoted text that looks like a parameter, and a path -/
theorem params_of_directive :
    phrase? "translate k a='b=1' c= d.e" = some ⟨"k", " a='b=1' c= d.e"⟩ ∧
      params " a='b=1' c= d.e" = [("a".toList, "'b=1'".toList), ("c".toList, "d.e".toList)] := by
  have h : phrase? "translate k a='b=1' c= d.e" = some ⟨"k", " a='b=1' c= d.e"⟩ := by decide +kernel
  let quoted : ParamText := ⟨[' '], ['a'], [], [], .literal (.quoted '\'' "b=1") (by decide),
    by simp, one_blank, by decide, List.forall_mem_nil _, List.forall_mem_nil _⟩
  let path : ParamText := ⟨[' '], ['c'], [], [' '], .path ⟨"d", [.name "e"]⟩ (by decide),
    by simp, one_blank, by decide, List.forall_mem_nil _, one_blank⟩
  have hcut : ∀ i ∈ [quoted, path], i.operand.cutOff = false :=
    List.forall_mem_cons.2 ⟨rfl, List.forall_mem_singleton.2 (by decide)⟩
  exact ⟨h, ((params_division h).2 [quoted, path] rfl).2.1.2 hcut⟩

/-- a path that goes on behind a word: the word is read for the path, and a parameter inside its key -/
theorem params_cut_off :
    phrase? "translate k a=true['b=1']" = some ⟨"k", " a=true['b=1']"⟩ ∧
      (∃ i : ParamText, texts [i] = " a=true['b=1']".toList ∧ i.item = ("a".toList, "true['b=1']".toList)) ∧
      params " a=true['b=1']" = [("a".toList, "true".toList), ("b".toList, "1".toList)] := by
  refine ⟨by decide +kernel, ⟨⟨[' '], ['a'], [], [], .path ⟨"true", [.key '\'' "b=1"]⟩ (by decide +kernel),
    by simp, one_blank, by decide, List.forall_mem_nil _, List.forall_mem_nil _⟩, rfl, rfl⟩, by decide⟩

end Stencil.Directive
