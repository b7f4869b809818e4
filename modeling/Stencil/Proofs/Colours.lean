/-
COLOURS CHANGE NO TEXT. A template in colours is its characters and those of the codes between them: every character is
marked as put in or as the template's own. Without those put in the spans are the text again; the line feed that is put
at the end of a line stands in a span without a colour, so that it and nothing else is left out at the end.

- `ends_of_reaches`: no span is empty, and none in a colour ends with a line feed.
- `shown_mark`, `kept_mark`, `exists_codes_mark`: a span in its colour with its characters marked.
- `marks_line`: all characters of a line and of the codes in it, but for the line feed.
- `highlighting_keeps_text`: highlighting changes no text.
-/
import Stencil.Proofs.Places
import Stencil.Proofs.Rules
import Stencil.Report

namespace Stencil

namespace Highlight

/-! ## What spans end with -/

/-- a span that is not empty, and does not end with a line feed if it has a colour -/
def Ends (s : Span) : Prop := s.text ≠ [] ∧ (s.style.colour?.isSome = true → s.text.getLast? ≠ some '\n')

theorem groups_of_rules (state : State) : ∀ r ∈ state.rules, ∀ g ∈ r.groups,
    g.1.consumes = true ∧ (g.2.colour?.isSome = true → g.1.endsBeforeFeed = true) := by
  cases state <;> decide

theorem ends_of_mem_groupWays {groups : List (Pattern × Style)} {last : Option Char} {s : Text}
    {a : List Span × Text} (hgroups : ∀ g ∈ groups,
      g.1.consumes = true ∧ (g.2.colour?.isSome = true → g.1.endsBeforeFeed = true))
    (h : a ∈ groupWays groups last s) : ∀ sp ∈ a.1, Ends sp := by
  induction groups generalizing last s a with
  | nil =>
    rw [List.mem_singleton.1 h]
    nofun
  | cons g groups ih =>
    obtain ⟨b, hb, h⟩ := List.mem_flatMap.1 h
    obtain ⟨d, hd, rfl⟩ := List.mem_map.1 h
    obtain ⟨⟨hconsumes, hends⟩, hmore⟩ := List.forall_mem_cons.1 hgroups
    refine List.forall_mem_cons.2 ⟨⟨ne_nil_of_mem_ways hconsumes hb, fun hcolour => ?_⟩, ih hmore hd⟩
    exact getLast?_of_mem_ways (hends hcolour) hb

/-- **No span is empty**, and none in a colour ends with a line feed. -/
theorem ends_of_reaches {s : Text} {m : Machine} (h : (Machine.start s).Reaches m) :
    ∀ sp, .span sp ∈ m.pieces → Ends sp := by
  induction h with
  | refl => nofun
  | @tail m m' hmore hstep ih =>
    intro sp hsp
    obtain ⟨move, spans, rest, hfound, rfl⟩ | ⟨cs, -, rfl⟩ | ⟨c, cs, -, rfl⟩ := step_cases hstep
    · rcases List.mem_append.1 hsp with hsp | hsp
      · exact ih sp hsp
      · obtain ⟨sp', hsp', heq⟩ := List.mem_map.1 hsp
        cases heq
        obtain ⟨r, hr, hway⟩ := List.exists_of_findSome?_eq_some hfound
        obtain ⟨a, ha, hmove⟩ := Option.map_eq_some_iff.1 hway
        cases hmove
        exact ends_of_mem_groupWays (groups_of_rules m.top r hr) (List.mem_of_mem_head? ha) sp hsp'
    -- neither a line feed nor an error is a span
    · exact ih sp (by simpa using hsp)
    · exact ih sp (by simpa using hsp)

theorem ends_of_mem_spansFrom {s : Text} {sp : Span} (h : sp ∈ spansFrom false s) : Ends sp := by
  obtain ⟨m, hm, hdone⟩ := exists_done false [] s
  have hpieces := (pieces_of_done hm hdone).2
  exact ends_of_reaches hm sp (hpieces ▸ List.mem_map_of_mem h)

/-! ## Marked characters -/

/-- characters, each with a mark for those that are put in -/
abbrev Marked := List (Char × Bool)

/-- characters that are put in -/
def inserted (s : Text) : Marked := s.map fun c => (c, true)

/-- characters of the template -/
def original (s : Text) : Marked := s.map fun c => (c, false)

/-- all characters -/
def shown (m : Marked) : Text := m.map Prod.fst

/-- the characters that were not put in -/
def kept (m : Marked) : Text := (m.filter fun c => !c.2).map Prod.fst

/-- the characters that were put in -/
def removed (m : Marked) : Text := (m.filter fun c => c.2).map Prod.fst

/-- the characters without the line feeds at the end -/
def dropFeedMarks (m : Marked) : Marked := (m.reverse.dropWhile fun c => c.1 == '\n').reverse

/-- a line in a colour, as `paintLine` has it -/
def markLine (colour : Nat) (line : Text) : Marked :=
  inserted (sequence (Text.ofNat colour)) ++ original (splitFeed line).1 ++ inserted plain ++
    original (splitFeed line).2

/-- a span in its colour, as `paint` has it -/
def mark (s : Span) : Marked :=
  match s.style.colour? with
  | some colour => (Text.lines s.text).flatMap (markLine colour)
  | none => original s.text

/-- a template in colours, as `terminal` has it -/
def marks (s : Text) : Marked := dropFeedMarks ((spans s).flatMap mark)

/-- the code of the colour of a style, or the code that ends a colour -/
def IsCode (code : Text) : Prop :=
  code = plain ∨ ∃ (style : Style) (colour : Nat), style.colour? = some colour ∧ code = sequence (Text.ofNat colour)

section

variable {m m' : Marked} {s : Text}

theorem shown_append (m m' : Marked) : shown (m ++ m') = shown m ++ shown m' := List.map_append

theorem kept_append (m m' : Marked) : kept (m ++ m') = kept m ++ kept m' := by
  rw [kept, List.filter_append, List.map_append]
  rfl

theorem removed_append (m m' : Marked) : removed (m ++ m') = removed m ++ removed m' := by
  rw [removed, List.filter_append, List.map_append]
  rfl

theorem original_append (s t : Text) : original (s ++ t) = original s ++ original t := List.map_append

theorem shown_flatMap {α : Type} (as : List α) (f : α → Marked) :
    shown (as.flatMap f) = as.flatMap fun a => shown (f a) := List.map_flatMap

theorem kept_flatMap {α : Type} (as : List α) (f : α → Marked) :
    kept (as.flatMap f) = as.flatMap fun a => kept (f a) := by
  rw [kept, List.filter_flatMap, List.map_flatMap]
  rfl

@[simp] theorem shown_inserted (s : Text) : shown (inserted s) = s := by simp [shown, inserted, Function.comp_def]

@[simp] theorem shown_original (s : Text) : shown (original s) = s := by simp [shown, original, Function.comp_def]

@[simp] theorem kept_inserted (s : Text) : kept (inserted s) = [] := by simp [kept, inserted]

@[simp] theorem kept_original (s : Text) : kept (original s) = s := by
  simp [kept, original, List.filter_map, Function.comp_def]

@[simp] theorem removed_inserted (s : Text) : removed (inserted s) = s := by
  simp [removed, inserted, List.filter_map, Function.comp_def]

@[simp] theorem removed_original (s : Text) : removed (original s) = [] := by simp [removed, original]

theorem shown_dropFeedMarks (m : Marked) : shown (dropFeedMarks m) = dropFeeds (shown m) := by
  have hreverse : (shown m).reverse = m.reverse.map Prod.fst := List.map_reverse.symm
  rw [dropFeeds, hreverse, List.dropWhile_map, ← List.map_reverse]
  rfl

/-! ### Lines and spans -/

theorem splitFeed_append (line : Text) : (splitFeed line).1 ++ (splitFeed line).2 = line := by
  unfold splitFeed
  split
  · rename_i hlast
    exact List.dropLast_append_getLast? '\n' (beq_iff_eq.1 hlast)
  · exact List.append_nil line

theorem flatten_linesFrom (line s : Text) : (Text.linesFrom line s).flatten = line.reverse ++ s := by
  fun_induction Text.linesFrom line s with
  | case1 line hempty => simp [List.isEmpty_iff.1 hempty]
  | case2 line hline => simp
  | case3 line cs ih => simp [ih]
  | case4 line c cs hnot hend ih => simp [ih]
  | case5 line c cs hnot hend ih => simp [ih]

theorem flatten_lines (s : Text) : (Text.lines s).flatten = s := flatten_linesFrom [] s

theorem shown_mark (s : Span) : shown (mark s) = paint s := by
  unfold mark paint
  cases s.style.colour? with
  | none => exact shown_original s.text
  | some colour =>
    show shown ((Text.lines s.text).flatMap (markLine colour)) = (Text.lines s.text).flatMap (paintLine colour)
    rw [shown_flatMap]
    refine List.flatMap_congr fun line _ => ?_
    rw [markLine, shown_append, shown_append, shown_append]
    simp [paintLine]

/-- **Without what is put in** a span is its text. -/
theorem kept_mark (s : Span) : kept (mark s) = s.text := by
  unfold mark
  cases s.style.colour? with
  | none => exact kept_original s.text
  | some colour =>
    have hline (line : Text) : kept (markLine colour line) = line := by
      rw [markLine, kept_append, kept_append, kept_append]
      simpa using splitFeed_append line
    show kept ((Text.lines s.text).flatMap (markLine colour)) = s.text
    simp only [kept_flatMap, hline]
    exact List.flatMap_id'.trans (flatten_lines s.text)

/-- what is put in are codes, if it is so in each of the parts -/
theorem exists_codes_flatMap {α : Type} {l : List α} {f : α → Marked}
    (h : ∀ a ∈ l, ∃ codes : List Text, (∀ c ∈ codes, IsCode c) ∧ removed (f a) = codes.flatten) :
    ∃ codes : List Text, (∀ c ∈ codes, IsCode c) ∧ removed (l.flatMap f) = codes.flatten := by
  induction l with
  | nil => exact ⟨[], nofun, rfl⟩
  | cons a l ih =>
    obtain ⟨⟨codes, hcodes, hremoved⟩, hmore⟩ := List.forall_mem_cons.1 h
    obtain ⟨codes', hcodes', hremoved'⟩ := ih hmore
    refine ⟨codes ++ codes', List.forall_mem_append.2 ⟨hcodes, hcodes'⟩, ?_⟩
    rw [List.flatMap_cons, removed_append, hremoved, hremoved', List.flatten_append]

/-- **What is put in** are the codes of colours. -/
theorem exists_codes_mark (s : Span) :
    ∃ codes : List Text, (∀ c ∈ codes, IsCode c) ∧ removed (mark s) = codes.flatten := by
  unfold mark
  cases hcolour : s.style.colour? with
  | none => exact ⟨[], nofun, removed_original s.text⟩
  | some colour =>
    refine exists_codes_flatMap fun line _ => ⟨[sequence (Text.ofNat colour), plain], ?_, ?_⟩
    · exact List.forall_mem_cons.2 ⟨.inr ⟨s.style, colour, hcolour, rfl⟩, List.forall_mem_singleton.2 (.inl rfl)⟩
    · rw [markLine, removed_append, removed_append, removed_append]
      simp

theorem feed_notMem_code {code : Text} (h : IsCode code) : '\n' ∉ code := by
  rcases h with rfl | ⟨style, colour, hcolour, rfl⟩
  · decide
  · cases style <;> cases hcolour <;> decide

theorem feed_of_mem_mark {s : Span} {b : Bool} (h : ('\n', b) ∈ mark s) : '\n' ∈ s.text := by
  cases b with
  | false =>
    rw [← kept_mark s]
    exact List.mem_map.2 ⟨('\n', false), List.mem_filter.2 ⟨h, rfl⟩, rfl⟩
  | true =>
    obtain ⟨codes, hcodes, hremoved⟩ := exists_codes_mark s
    have hmem : '\n' ∈ removed (mark s) := List.mem_map.2 ⟨('\n', true), List.mem_filter.2 ⟨h, rfl⟩, rfl⟩
    rw [hremoved] at hmem
    obtain ⟨code, hcode, hfeed⟩ := List.mem_flatten.1 hmem
    exact absurd hfeed (feed_notMem_code (hcodes code hcode))

/-! ## A line in colours -/

/-- a text with no line feed at its two ends, no carriage return, and no mark of a byte order in front -/
structure OneLine (line : Text) : Prop where
  feed : '\n' ∉ line
  carriage : '\r' ∉ line
  order : line.head? ≠ some '\uFEFF'

theorem unixLines_eq {s : Text} (h : '\r' ∉ s) : Text.unixLines s = s := by
  fun_induction Text.unixLines s with
  | case1 => rfl
  | case2 cs ih => exact absurd List.mem_cons_self h
  | case3 c cs hnot ih =>
    rw [List.mem_cons, not_or] at h
    rw [if_neg (by simpa using Ne.symm h.1), ih h.2]

theorem dropWhile_feed {s : Text} (h : '\n' ∉ s) : s.dropWhile (· == '\n') = s := by
  cases s with
  | nil => rfl
  | cons c cs =>
    rw [List.mem_cons, not_or] at h
    rw [List.dropWhile_cons_of_neg (by simpa using Ne.symm h.1)]

theorem normalise_line {line : Text} (h : OneLine line) : normalise line = line ++ ['\n'] := by
  obtain ⟨hfeed, hcarriage, horder⟩ := h
  have hreverse : '\n' ∉ line.reverse := by rwa [List.mem_reverse]
  have hunix : ((Text.unixLines line).dropWhile (· == '\n')).reverse.dropWhile (· == '\n') = line.reverse := by
    rw [unixLines_eq hcarriage, dropWhile_feed hfeed, dropWhile_feed hreverse]
  cases line with
  | nil => rfl
  | cons c cs =>
    have horderMark : ¬(c.toNat == 0xFEFF) = true := by
      intro hc
      rw [List.head?_cons, ← Char.ofNat_toNat c, beq_iff_eq.1 hc] at horder
      exact horder rfl
    simp only [normalise]
    rw [if_neg horderMark, hunix, List.reverse_reverse]

theorem dropFeedMarks_feed {m : Marked} (h : ∀ b, ('\n', b) ∉ m) :
    dropFeedMarks (m ++ original ['\n']) = m := by
  have hstop : m.reverse.dropWhile (fun c => c.1 == '\n') = m.reverse := by
    cases hm : m.reverse with
    | nil => rfl
    | cons c cs =>
      have hc : ¬(c.1 == '\n') = true := fun hc =>
        h c.2 (List.mem_reverse.1 (by rw [hm, ← beq_iff_eq.1 hc]; exact List.mem_cons_self))
      exact List.dropWhile_cons_of_neg hc
  have hreverse : (m ++ original ['\n']).reverse = ('\n', false) :: m.reverse := List.reverse_append
  rw [dropFeedMarks, hreverse]
  show (m.reverse.dropWhile fun c => c.1 == '\n').reverse = m
  rw [hstop, List.reverse_reverse]

/-- **The spans of a line** end with the line feed that is put at its end, and nothing else is left out. -/
theorem marks_line {line : Text} (h : OneLine line) :
    (spans line).flatMap mark = marks line ++ original ['\n'] ∧ kept (marks line) = line := by
  have hspans : (spans line).flatMap Span.text = line ++ ['\n'] := by
    rw [spans, flatMap_spansFrom, normalise_line h]
  have hkept : kept ((spans line).flatMap mark) = line ++ ['\n'] := by
    rw [kept_flatMap, ← hspans]
    exact List.flatMap_congr fun sp _ => kept_mark sp
  obtain hnil | ⟨before, last, hlast⟩ := List.eq_nil_or_concat (spans line)
  · rw [hnil] at hspans
    exact absurd hspans.symm (by simp)
  · rw [List.concat_eq_append] at hlast
    have hmem : last ∈ spans line := hlast ▸ List.mem_append_right before List.mem_cons_self
    have hends : Ends last := ends_of_mem_spansFrom hmem
    rw [hlast, List.flatMap_append, List.flatMap_singleton] at hspans
    -- the last span ends with the line feed, so it has no colour
    have hfeed : last.text.getLast? = some '\n' := by
      have hwhole := congrArg List.getLast? hspans
      rw [List.getLast?_append, List.getLast?_append] at hwhole
      obtain ⟨c, hc⟩ := Option.isSome_iff_exists.1 (List.getLast?_isSome.2 hends.1)
      rw [hc] at hwhole ⊢
      exact hwhole
    have hplain : mark last = original last.text := by
      unfold mark
      cases hcolour : last.style.colour? with
      | none => rfl
      | some colour => exact absurd hfeed (hends.2 (by rw [hcolour]; rfl))
    have hsplit : last.text.dropLast ++ ['\n'] = last.text := List.dropLast_append_getLast? '\n' hfeed
    have hline : before.flatMap Span.text ++ last.text.dropLast = line := by
      rw [← hsplit, ← List.append_assoc] at hspans
      exact List.append_cancel_right hspans
    have hall : (spans line).flatMap mark =
        (before.flatMap mark ++ original last.text.dropLast) ++ original ['\n'] := by
      have horiginal : original last.text = original last.text.dropLast ++ original ['\n'] := by
        rw [← original_append, hsplit]
      rw [hlast, List.flatMap_append, List.flatMap_singleton, hplain, horiginal, List.append_assoc]
    have hclear : ∀ b, ('\n', b) ∉ before.flatMap mark ++ original last.text.dropLast := by
      intro b hmem
      refine h.feed ?_
      rw [← hline]
      rcases List.mem_append.1 hmem with hmem | hmem
      · obtain ⟨sp, hsp, hmem⟩ := List.mem_flatMap.1 hmem
        exact List.mem_append_left _ (List.mem_flatMap.2 ⟨sp, hsp, feed_of_mem_mark hmem⟩)
      · obtain ⟨c, hc, hmark⟩ := List.mem_map.1 hmem
        exact List.mem_append_right _ ((Prod.mk.inj hmark).1 ▸ hc)
    have hmarks : marks line = before.flatMap mark ++ original last.text.dropLast := by
      rw [marks, hall, dropFeedMarks_feed hclear]
    refine ⟨by rw [hall, hmarks], ?_⟩
    rw [hall, kept_append, kept_original, ← hmarks] at hkept
    exact List.append_cancel_right hkept

theorem shown_marks (s : Text) : shown (marks s) = terminal s := by
  rw [marks, shown_dropFeedMarks, shown_flatMap, terminal]
  exact congrArg dropFeeds (List.flatMap_congr fun sp _ => shown_mark sp)

end

end Highlight

/-! ## Reports in colours -/

namespace Diagnostic

open Highlight

/-- the line of the template where the fault stands; none if it has no place -/
def sourceLine (source : Text) (d : Diagnostic) : Text :=
  match d.position with
  | none => []
  | some p => (lineAround source (offset source.length p)).1

/-- the diagnostic with its line in colours, as `highlighted` has it -/
def marked (source : Text) (d : Diagnostic) : Marked :=
  match d.position with
  | none => original d.text
  | some p =>
    original (Text.cat [d.head, "\nLine ", numberText d.line, ", position ", numberText d.position, "\nContext: "]) ++
      marks (lineAround source (offset source.length p)).1 ++
        original (Text.cat ["\n         ",
          List.replicate (p - (lineAround source (offset source.length p)).2).toNat ' ', "^"])

section

variable {source : Text} {d : Diagnostic}

theorem shown_marked (source : Text) (d : Diagnostic) : shown (d.marked source) = d.highlighted source := by
  unfold marked highlighted contextWith
  cases d.position with
  | none => exact shown_original d.text
  | some p =>
    simp only [shown_append, shown_original, shown_marks]
    simp [Text.cat]

theorem offset_le (length : Nat) (position : Int) : offset length position ≤ length := by
  unfold offset
  split <;> omega

theorem oneLine_sourceLine (hcarriage : '\r' ∉ d.sourceLine source)
    (horder : (d.sourceLine source).head? ≠ some '\uFEFF') : OneLine (d.sourceLine source) := by
  refine ⟨?_, hcarriage, horder⟩
  unfold sourceLine
  cases d.position with
  | none => nofun
  | some p =>
    obtain ⟨before, hline, -⟩ := lineAround_isLine source (offset_le source.length p)
    exact hline.single

theorem kept_marked (h : OneLine (d.sourceLine source)) : kept (d.marked source) = d.context source := by
  unfold sourceLine at h
  unfold marked context contextWith
  cases hposition : d.position with
  | none => exact kept_original d.text
  | some p =>
    rw [hposition] at h
    simp only [kept_append, kept_original, (marks_line h).2]
    simp [Text.cat]

theorem exists_codes_marked (h : OneLine (d.sourceLine source)) :
    ∃ codes : List Text, (∀ c ∈ codes, IsCode c) ∧ removed (d.marked source) = codes.flatten := by
  unfold sourceLine at h
  unfold marked
  cases hposition : d.position with
  | none => exact ⟨[], nofun, removed_original d.text⟩
  | some p =>
    rw [hposition] at h
    have hparts (line : Text) : ∃ codes : List Text, (∀ c ∈ codes, IsCode c) ∧
        removed ((spans line).flatMap mark) = codes.flatten := exists_codes_flatMap fun sp _ => exists_codes_mark sp
    obtain ⟨codes, hcodes, hremoved⟩ := hparts (lineAround source (offset source.length p)).1
    rw [(marks_line h).1, removed_append, removed_original, List.append_nil] at hremoved
    refine ⟨codes, hcodes, ?_⟩
    rw [removed_append, removed_append, removed_original, removed_original, hremoved, List.append_nil, List.nil_append]

end

/-- **Highlighting changes no text.** At every moment of the machine on a text what is written and what is left are the
text as it is read; all that is written are spans, and there are no more states than the two. It comes to an end, and
has then written all of the text as the spans that are its own. And a report with a line in colours is the report
without them, once the codes that were put in are taken out, if no carriage return is in that line and no mark of a
byte order in front of it. -/
theorem highlighting_keeps_text :
    (∀ text : Text,
      (∀ m, (Machine.start (normalise text)).Reaches m →
        m.written ++ m.rest = normalise text ∧ (∀ p ∈ m.pieces, ∃ sp, p = .span sp) ∧
          (m.top = .root ∧ m.below = [] ∨ m.top = .directive ∧ m.below = [.root]) ∧
            (m.step = none → m.written = normalise text ∧ m.pieces = (spans text).map .span)) ∧
      ∃ m, (Machine.start (normalise text)).Reaches m ∧ m.step = none) ∧
    ∀ (source : Text) (d : Diagnostic), '\r' ∉ d.sourceLine source → (d.sourceLine source).head? ≠ some '\uFEFF' →
      shown (d.marked source) = d.highlighted source ∧ kept (d.marked source) = d.context source ∧
        ∃ codes : List Text, (∀ c ∈ codes, IsCode c) ∧ removed (d.marked source) = codes.flatten := by
  refine ⟨fun text => ⟨fun m hm => ?_, exists_done false [] (normalise text)⟩, fun source d hcarriage horder => ?_⟩
  · have hwritten : m.written ++ m.rest = normalise text := append_of_reaches hm
    refine ⟨hwritten, ?_, ?_, fun hdone => ?_⟩
    · obtain ⟨isInside, sps, rest, rfl, -⟩ := midway_of_reaches hm
      intro p hp
      obtain ⟨sp, -, rfl⟩ := List.mem_map.1 hp
      exact ⟨sp, rfl⟩
    · obtain ⟨isInside, sps, rest, rfl, -⟩ := midway_of_reaches hm
      cases isInside with
      | false => exact .inl ⟨rfl, rfl⟩
      | true => exact .inr ⟨rfl, rfl⟩
    · obtain ⟨hrest, hpieces⟩ := pieces_of_done hm hdone
      rw [hrest, List.append_nil] at hwritten
      exact ⟨hwritten, hpieces⟩
  · have hline : OneLine (d.sourceLine source) := oneLine_sourceLine hcarriage horder
    exact ⟨shown_marked source d, kept_marked hline, exists_codes_marked hline⟩

/-- a condition that is never closed, on the second line of a template -/
def unclosed : Diagnostic := ⟨.unmatched, "'if' is never closed", "if x", some 6, some 2⟩

/-- a text with a comment that goes over its line and a directive without its end, and a report of another -/
theorem keeps_text_of_unclosed :
    (∃ m, (Machine.start (normalise "\n\x7b\x7b# a\r\n\\\x7b\x7b \x7b\x7b endif 'x")).Reaches m ∧ m.step = none ∧
      m.written = "\x7b\x7b# a\n\\\x7b\x7b \x7b\x7b endif 'x\n".toList) ∧
    kept (unclosed.marked "<b>\r\n\x7b\x7b if x \x7d\x7db") =
      "UnmatchedDirective: 'if' is never closed\nLine 2, position 6\nContext: \x7b\x7b if x \x7d\x7db\n          ^".toList := by
  obtain ⟨htexts, hreports⟩ := highlighting_keeps_text
  obtain ⟨hmoments, m, hm, hdone⟩ := htexts "\n\x7b\x7b# a\r\n\\\x7b\x7b \x7b\x7b endif 'x"
  obtain ⟨-, -, -, hend⟩ := hmoments m hm
  have hkept := (hreports "<b>\r\n\x7b\x7b if x \x7d\x7db" unclosed (by decide) (by decide)).2.1
  exact ⟨⟨m, hm, hdone, (hend hdone).1.trans (by decide)⟩, hkept.trans (by decide)⟩

end Diagnostic

end Stencil
