/-
RULES OF HIGHLIGHTING. The spans of a text a second time: a machine with a stack of states takes, at every place, the
first rule of the state on top whose patterns match there, writes what they match in their styles, and moves the stack.
Where no rule matches, a line feed leads back to the first state, and any other character is an error.

- `step_cases`: what a step can do.
- `append_of_reaches`: whatever the rules are, what is written and what is left are the text.
- `covers_root`, `covers_directive`: the rules of the two states say how a text begins, as `outside` and `inside` do.
- `step_at`: on a text that is not read to its end a step takes the next spans, and errs nowhere.
- `at_of_reaches`, `exists_done`: every machine that is reached has one state or two, and the last one has all spans.
-/
import Mathlib.Logic.Relation
import Stencil.Proofs.Lexemes
import Stencil.Proofs.Patterns

namespace Stencil.Highlight

/-! ## Rules -/

/-- outside and inside of directives -/
inductive State where
  | root | directive
  deriving DecidableEq, Repr

/-- what a rule does to the stack of states -/
inductive Move where
  | stay
  | push (state : State)
  | pop

/-- the stack as a rule leaves it: what is on top, and what is below; the last state is never taken away -/
def Move.apply : Move → State → List State → State × List State
  | stay, top, below => (top, below)
  | push state, top, below => (state, top :: below)
  | pop, top, [] => (top, [])
  | pop, _, state :: below => (state, below)

/-- a rule: patterns one behind the other, the styles of what they match, and what it does to the stack -/
structure Rule where
  groups : List (Pattern × Style)
  move : Move

/-- a rule of one pattern -/
def rule (x : Pattern) (style : Style) (move : Move) : Rule := ⟨[(x, style)], move⟩

/-- the ways in which a text begins with what the patterns match -/
def groupWays : List (Pattern × Style) → (last : Option Char) → Text → List (List Span × Text)
  | [], _, s => [([], s)]
  | (x, style) :: groups, last, s => (x.ways last s).flatMap fun a =>
      (groupWays groups (a.1.getLast? <|> last) a.2).map fun b => (⟨style, a.1⟩ :: b.1, b.2)

/-- what the first of the rules that matches does: its move, the spans that it takes, and the rest -/
def found? (rules : List Rule) (last : Option Char) (s : Text) : Option (Move × List Span × Text) :=
  rules.findSome? fun r => (groupWays r.groups last s).head?.map fun a => (r.move, a)

/-- delimiters with a mark behind the first one, to the end of a directive on the same line -/
def comment : Pattern :=
  .seq (.oneOf ["\x7b\x7b"]) (.seq (.run true Text.isBlank) (.seq (.char (· == '#'))
    (.seq (.run false (· != '\n')) (.oneOf ["\x7d\x7d"]))))

/-- a text between two of the marks -/
def quoted (mark : Char) : Pattern :=
  .seq (.char (· == mark)) (.seq (.run true (· != mark)) (.char (· == mark)))

/-- digits, perhaps with a fraction -/
def unsigned : Pattern :=
  .seq (.plus Text.isDigit) (.optional (.seq (.oneOf ["."]) (.plus Text.isDigit)))

/-- the rules of a state -/
def State.rules : State → List Rule
  | root =>
    [rule (.oneOf ["\\\x7b\x7b"]) .other .stay,
     rule comment .comment .stay,
     rule (.oneOf ["\x7b\x7b"]) .delimiter (.push .directive),
     rule (.plus fun c => c != '\x7b' && c != '\\') .other .stay,
     rule (.char fun c => c == '\x7b' || c == '\\') .other .stay]
  | directive =>
    [rule (.oneOf ["\x7d\x7d"]) .delimiter .pop,
     rule (.plus Text.isBlank) .text .stay,
     ⟨[(.oneOf ["/", "end"], .punctuation), (.plus Text.isWord, .keyword)], .stay⟩,
     rule (.words keywords) .keyword .stay,
     rule (.words wordOperators) .wordOperator .stay,
     rule (.words constants) .constant .stay,
     rule (.oneOf operators) .operator .stay,
     rule (.either (quoted '"') (quoted '\'')) .string .stay,
     rule (.seq (.optional (.oneOf ["-"])) unsigned) .number .stay,
     rule (.seq (.char Text.isNameStart) (.run true Text.isWord)) .name .stay,
     rule (.char fun c => c == '.' || c == '[' || c == ']' || c == ',') .punctuation .stay,
     rule (.char (· != '\n')) .text .stay]

/-! ## The machine -/

/-- what is written: a span, a line feed that no rule matches, or another character that none does -/
inductive Piece where
  | span (s : Span)
  | feed
  | error (c : Char)

/-- the characters -/
def Piece.text : Piece → Text
  | span s => s.text
  | feed => ['\n']
  | error c => [c]

/-- the stack of states, with its top apart, what is left of the text, and what is written -/
structure Machine where
  top : State
  below : List State
  rest : Text
  pieces : List Piece

namespace Machine

/-- the machine in front of a text -/
def start (s : Text) : Machine := ⟨.root, [], s, []⟩

/-- what is written -/
def written (m : Machine) : Text := m.pieces.flatMap Piece.text

/-- one step; none at the end of the text, if no rule matches there -/
def step (m : Machine) : Option Machine :=
  match found? m.top.rules m.written.getLast? m.rest with
  | some (move, spans, rest) =>
    some ⟨(move.apply m.top m.below).1, (move.apply m.top m.below).2, rest, m.pieces ++ spans.map .span⟩
  | none =>
    match m.rest with
    | [] => none
    | c :: cs =>
      if c == '\n' then some ⟨.root, [], cs, m.pieces ++ [.feed]⟩
      else some ⟨m.top, m.below, cs, m.pieces ++ [.error c]⟩

/-- the machines that steps lead to -/
def Reaches : Machine → Machine → Prop := Relation.ReflTransGen fun m m' => m.step = some m'

end Machine

/-! ## Nothing is lost -/

section

variable {m m' : Machine} {s : Text}

theorem append_of_mem_groupWays {groups : List (Pattern × Style)} {last : Option Char} {a : List Span × Text}
    (h : a ∈ groupWays groups last s) : a.1.flatMap Span.text ++ a.2 = s := by
  induction groups generalizing last s a with
  | nil =>
    rw [List.mem_singleton.1 h]
    rfl
  | cons g groups ih =>
    obtain ⟨b, hb, h⟩ := List.mem_flatMap.1 h
    obtain ⟨d, hd, rfl⟩ := List.mem_map.1 h
    rw [List.flatMap_cons, List.append_assoc, ih hd]
    exact append_of_mem_ways hb

theorem append_of_found? {rules : List Rule} {last : Option Char} {move : Move} {spans : List Span} {rest : Text}
    (h : found? rules last s = some (move, spans, rest)) : spans.flatMap Span.text ++ rest = s := by
  obtain ⟨r, -, h⟩ := List.exists_of_findSome?_eq_some h
  obtain ⟨a, ha, hmove⟩ := Option.map_eq_some_iff.1 h
  cases hmove
  exact append_of_mem_groupWays (List.mem_of_mem_head? ha)

/-- **What a step can do**: take what a rule finds, go back to the first state at a line feed, or err. -/
theorem step_cases (h : m.step = some m') :
    (∃ move spans rest, found? m.top.rules m.written.getLast? m.rest = some (move, spans, rest) ∧
      m' = ⟨(move.apply m.top m.below).1, (move.apply m.top m.below).2, rest, m.pieces ++ spans.map .span⟩) ∨
    (∃ cs, m.rest = '\n' :: cs ∧ m' = ⟨.root, [], cs, m.pieces ++ [.feed]⟩) ∨
    ∃ c cs, m.rest = c :: cs ∧ m' = ⟨m.top, m.below, cs, m.pieces ++ [.error c]⟩ := by
  unfold Machine.step at h
  split at h
  · rename_i move spans rest hfound
    exact .inl ⟨move, spans, rest, hfound, (Option.some.inj h).symm⟩
  · split at h
    · cases h
    · rename_i c cs hrest
      split at h
      · rename_i hc
        exact .inr (.inl ⟨cs, by rw [hrest, beq_iff_eq.1 hc], (Option.some.inj h).symm⟩)
      · exact .inr (.inr ⟨c, cs, hrest, (Option.some.inj h).symm⟩)

/-- **A step loses nothing**, whatever the rules are. -/
theorem append_of_step (h : m.step = some m') : m'.written ++ m'.rest = m.written ++ m.rest := by
  have hwritten (pieces : List Piece) : (m.pieces ++ pieces).flatMap Piece.text =
      m.written ++ pieces.flatMap Piece.text := List.flatMap_append
  obtain ⟨move, spans, rest, hfound, rfl⟩ | ⟨cs, hrest, rfl⟩ | ⟨c, cs, hrest, rfl⟩ := step_cases h
  · have hspans : (spans.map Piece.span).flatMap Piece.text = spans.flatMap Span.text := by
      rw [List.flatMap_map]
      rfl
    rw [Machine.written, hwritten, hspans, List.append_assoc, append_of_found? hfound]
  · rw [Machine.written, hwritten, hrest, List.append_assoc]
    rfl
  · rw [Machine.written, hwritten, hrest, List.append_assoc]
    rfl

/-- **Nothing is lost**: what is written and what is left are the text. -/
theorem append_of_reaches (h : (Machine.start s).Reaches m) : m.written ++ m.rest = s := by
  induction h with
  | refl => rfl
  | tail hmore hstep ih => rw [append_of_step hstep, ih]

end

/-! ## Rules and openings -/

/-- the spans of an opening of a text by its first character and the others, and the rest -/
def Opening.taken (o : Opening) (c : Char) (cs : Text) : List Span × Text :=
  match o.second with
  | none => ([⟨o.style, c :: cs.take o.more⟩], cs.drop o.more)
  | some (style, more) =>
    ([⟨o.style, c :: cs.take o.more⟩, ⟨style, (cs.drop o.more).take (more + 1)⟩], (cs.drop o.more).drop (more + 1))

/-- the state outside or inside of directives -/
def stateOf (isInside : Bool) : State := if isInside then .directive else .root

/-- the move of a rule, given on which side of a delimiter the text is before and after it -/
def moveFor (before after : Bool) : Move := if before == after then .stay else if after then .push .directive else .pop

/-- on one side of the delimiters the rules say how a text begins -/
def Covers (isInside : Bool) (rules : List Rule) (opening? : Text → Option Opening) : Prop :=
  ∀ last c cs, found? rules last (c :: cs) =
    (opening? (c :: cs)).map fun o => (moveFor isInside o.inside, o.taken c cs)

section

variable {isInside : Bool} {style : Style} {x : Pattern} {f g : Text → Option Opening}

theorem taken_one {after : Bool} {m rest cs : Text} {c : Char} (ne : m ≠ []) (h : m ++ rest = c :: cs) :
    (one style m.length after).taken c cs = ([⟨style, m⟩], rest) := by
  cases m with
  | nil => exact absurd rfl ne
  | cons d m =>
    obtain ⟨rfl, rfl⟩ := List.cons.inj h
    simp [one, Opening.taken]

theorem covers_nil : Covers isInside [] fun _ => none := fun _ _ _ => rfl

/-- the rules behind the first say how a text begins where the first says nothing -/
theorem covers_cons {r : Rule} {rules : List Rule} (hr : Covers isInside [r] f) (hrules : Covers isInside rules g) :
    Covers isInside (r :: rules) fun s => (f s).or (g s) := by
  intro last c cs
  have hfound : found? ([r] ++ rules) last (c :: cs) =
      (found? [r] last (c :: cs)).or (found? rules last (c :: cs)) := List.findSome?_append
  rw [List.singleton_append] at hfound
  rw [hfound, hr, hrules, Option.map_or]

/-- **A rule of one pattern** says that a text begins with a span as long as what the pattern matches. -/
theorem covers_rule (isInside after : Bool) (hx : x.consumes = true)
    (h : ∀ last c cs, f (c :: cs) = (x.first? last (c :: cs)).map fun a => one style a.1.length after) :
    Covers isInside [rule x style (moveFor isInside after)] f := by
  intro last c cs
  have hways : groupWays [(x, style)] last (c :: cs) = (x.ways last (c :: cs)).map fun a => ([⟨style, a.1⟩], a.2) := by
    rw [List.map_eq_flatMap]
    rfl
  have hfound : found? [rule x style (moveFor isInside after)] last (c :: cs) =
      (x.first? last (c :: cs)).map fun a => (moveFor isInside after, [⟨style, a.1⟩], a.2) := by
    rw [found?, List.findSome?_singleton, rule, hways, List.head?_map, Option.map_map]
    rfl
  rw [hfound, h last, Option.map_map]
  cases hfirst : x.first? last (c :: cs) with
  | none => rfl
  | some a =>
    have hne : a.1 ≠ [] := ne_nil_of_mem_ways hx (List.mem_of_mem_head? hfirst)
    have htaken : (one style a.1.length after).taken c cs = ([⟨style, a.1⟩], a.2) :=
      taken_one hne (append_of_first? hfirst)
    rw [Option.map_some, Option.map_some, Function.comp_apply, htaken]
    rfl

/-- the same by what is left behind the span -/
theorem covers_of_rest (isInside after : Bool) (hx : x.consumes = true) (h : ∀ last c cs, f (c :: cs) =
      (x.first? last (c :: cs)).map fun a => one style ((c :: cs).length - a.2.length) after) :
    Covers isInside [rule x style (moveFor isInside after)] f := by
  refine covers_rule isInside after hx fun last c cs => ?_
  rw [h last]
  cases hfirst : x.first? last (c :: cs) with
  | none => rfl
  | some a =>
    have hlength : (c :: cs).length - a.2.length = a.1.length := by
      rw [← append_of_first? hfirst, List.length_append, Nat.add_sub_cancel]
    rw [Option.map_some, Option.map_some, hlength]

/-! ### Texts, runs and words -/

theorem covers_oneOf (isInside after : Bool) {texts : List Text} (ne : (Pattern.oneOf texts).consumes = true) :
    Covers isInside [rule (.oneOf texts) style (moveFor isInside after)] fun s =>
      (texts.find? fun t => Text.startsWith s t).map fun t => one style t.length after := by
  refine covers_rule isInside after ne fun last c cs => ?_
  rw [Pattern.first?, Pattern.ways, List.head?_filterMap]
  clear ne
  induction texts with
  | nil => rfl
  | cons t texts ih =>
    rw [List.findSome?_cons, List.find?_cons, Text.startsWith]
    cases Text.after? t (c :: cs) with
    | none => exact ih
    | some rest => rfl

theorem covers_char (isInside after : Bool) (p : Char → Bool) :
    Covers isInside [rule (.char p) style (moveFor isInside after)] fun s =>
      (s.head?.filter p).map fun _ => one style 1 after := by
  refine covers_rule isInside after rfl fun last c cs => ?_
  rw [Pattern.first?_char, List.head?_cons, Option.filter_some]
  split <;> rfl

theorem covers_run (isInside after : Bool) (p q : Char → Bool) :
    Covers isInside [rule (.seq (.char p) (.run true q)) style (moveFor isInside after)] fun s =>
      (Text.run? p q s).map fun a => one style a.1.length after := by
  refine covers_rule isInside after rfl fun last c cs => ?_
  rw [Pattern.first?_char_run]

theorem covers_words (isInside after : Bool) {texts : List Text}
    (htexts : ∀ t ∈ texts, t ≠ [] ∧ t.all Text.isWord = true) :
    Covers isInside [rule (.words texts) style (moveFor isInside after)] fun s =>
      if texts.contains (s.takeWhile Text.isWord) then some (one style (s.takeWhile Text.isWord).length after)
      else none := by
  have hx : (Pattern.words texts).consumes = true := by
    refine (Bool.or_eq_true ..).mpr (.inl (List.all_eq_true.2 fun t ht => ?_))
    simpa using (htexts t ht).1
  refine covers_rule isInside after hx fun last c cs => ?_
  rw [Pattern.first?_words htexts]
  split <;> rfl

/-! ### Literals and comments -/

theorem rest_quoted (mark : Char) (last : Option Char) (s : Text) :
    ((quoted mark).first? last s).map Prod.snd = Literal.afterQuoted? mark s := by
  have hmiss (last : Option Char) (c : Char) (cs : Text) (hc : (c != mark) = true) :
      (Pattern.char (· == mark)).first? last (c :: cs) = none := by
    rw [Pattern.first?_char, if_neg (by simpa using hc)]
  cases s with
  | nil => rfl
  | cons c cs =>
    rw [quoted, Pattern.first?_seq_char, Literal.afterQuoted?]
    split
    · rw [Pattern.first?_seq_run hmiss]
      have hend := Text.begins_dropWhile (· != mark) cs
      cases hrest : cs.dropWhile (· != mark) with
      | nil => rfl
      | cons d rest =>
        rw [hrest, Text.begins_cons, bne_eq_false_iff_eq] at hend
        rw [Pattern.first?_char, if_pos (beq_iff_eq.2 hend)]
        rfl
    · rfl

theorem afterDigits?_eq (s : Text) : Literal.afterDigits? s = (Text.run? Text.isDigit Text.isDigit s).map Prod.snd := by
  cases s with
  | nil => rfl
  | cons c cs =>
    rw [Literal.afterDigits?, Text.run?]
    split <;> rfl

theorem rest_unsigned (last : Option Char) (s : Text) :
    (unsigned.first? last s).map Prod.snd = (Literal.afterDigits? s).map fun rest =>
      match rest with
      | '.' :: cs => (Literal.afterDigits? cs).getD rest
      | rest => rest := by
  have hfraction (last : Option Char) (rest : Text) :
      (((Pattern.seq (.oneOf ["."]) (.plus Text.isDigit)).first? last rest).getD ([], rest)).2 =
        match rest with
        | '.' :: cs => (Literal.afterDigits? cs).getD rest
        | rest => rest := by
    rw [Pattern.first?_seq_text]
    split
    · rename_i cs
      have hafter : Text.after? "." ('.' :: cs) = some cs := rfl
      rw [hafter, Option.bind_some, Pattern.first?_plus, afterDigits?_eq]
      cases Text.run? Text.isDigit Text.isDigit cs <;> rfl
    · rename_i hdot
      have hafter : Text.after? "." rest = none := by
        refine Option.eq_none_iff_forall_ne_some.2 fun cs hcs => ?_
        exact hdot cs (Text.eq_of_after? hcs)
      rw [hafter]
      rfl
  have hsome (last : Option Char) (s : Text) :
      ((Pattern.optional (.seq (.oneOf ["."]) (.plus Text.isDigit))).first? last s).isSome = true := by
    rw [Pattern.first?_optional]
    rfl
  rw [unsigned, Pattern.first?_seq_of_isSome hsome, Pattern.first?_plus, afterDigits?_eq]
  cases Text.run? Text.isDigit Text.isDigit s with
  | none => rfl
  | some a =>
    rw [Option.bind_some, Pattern.first?_optional, Option.map_some, Option.map_some]
    exact congrArg some (hfraction _ _)

theorem rest_number (last : Option Char) (s : Text) :
    ((Pattern.seq (.optional (.oneOf ["-"])) unsigned).first? last s).map Prod.snd = Literal.afterNumber? s := by
  have hways : (Pattern.optional (.oneOf ["-"])).ways last s =
      ((Text.after? "-" s).map fun rest => ("-".toList, rest)).toList ++ [([], s)] := by
    rw [Pattern.optional, Pattern.ways, Pattern.ways_text, Pattern.ways_text]
    rfl
  have hrest {last : Option Char} {s before : Text} :
      ((unsigned.first? last s).map fun b => (before ++ b.1, b.2)).map Prod.snd =
        (unsigned.first? last s).map Prod.snd := by
    rw [Option.map_map]
    rfl
  rw [Pattern.first?_seq, hways, List.findSome?_append, List.findSome?_singleton]
  unfold Literal.afterNumber?
  split
  · rename_i cs
    have hafter : Text.after? "-" ('-' :: cs) = some cs := rfl
    -- no digits begin with the sign
    have hsign (last : Option Char) : unsigned.first? last ('-' :: cs) = none :=
      Option.map_eq_none_iff.1 ((rest_unsigned last ('-' :: cs)).trans rfl)
    rw [hafter, Option.map_some, Option.toList_some, List.findSome?_singleton, hsign, Option.map_none, Option.or_none,
      hrest]
    exact rest_unsigned _ cs
  · rename_i hminus
    have hafter : Text.after? "-" s = none := by
      refine Option.eq_none_iff_forall_ne_some.2 fun cs hcs => ?_
      exact hminus cs (Text.eq_of_after? hcs)
    rw [hafter, Option.map_none, Option.toList_none, List.findSome?_nil, Option.none_or, hrest]
    exact rest_unsigned _ s

theorem length_comment (last : Option Char) (s : Text) :
    (comment.first? last s).map (fun a => s.length - a.2.length) = commentLength? s := by
  have hmark (last : Option Char) (c : Char) (cs : Text) (hc : Text.isBlank c = true) :
      (Pattern.seq (.char (· == '#')) (.seq (.run false (· != '\n')) (.oneOf ["\x7d\x7d"]))).first? last (c :: cs) =
        none := by
    have hne : ¬(c == '#') = true := by
      rintro h
      rw [beq_iff_eq.1 h] at hc
      exact absurd hc (by decide)
    rw [Pattern.first?_seq_char, if_neg hne]
  rw [comment, Pattern.first?_seq_text, commentLength?]
  cases Text.after? "\x7b\x7b" s with
  | none => rfl
  | some rest =>
    rw [Option.bind_some, Option.bind_some, Pattern.first?_seq_run hmark]
    split
    · rename_i cs hcs
      rw [hcs, Pattern.first?_seq_char, if_pos BEq.rfl, Pattern.first?_lazy]
      cases Text.cut? "\x7d\x7d" cs with
      | none => rfl
      | some q =>
        obtain ⟨before, behind⟩ := q
        have hline : before.all (· != '\n') = !before.contains '\n' := by
          rw [Bool.eq_iff_iff]
          simp only [List.all_eq_true, bne_iff_ne, Bool.not_eq_true', ← Bool.not_eq_true, List.contains_iff_mem]
          exact ⟨fun h hmem => h _ hmem rfl, fun h c hc hfeed => h (hfeed ▸ hc)⟩
        have hkept : (some (before, behind)).filter (fun q => q.1.all (· != '\n')) =
            if before.contains '\n' then none else some (before, behind) := by
          rw [Option.filter_some, hline]
          cases before.contains '\n' <;> rfl
        show _ = if before.contains '\n' then none else some (s.length - behind.length)
        rw [hkept]
        cases before.contains '\n' <;> rfl
    · rename_i hcs
      cases hrest : rest.dropWhile Text.isBlank with
      | nil => rfl
      | cons c cs =>
        have hne : ¬(c == '#') = true := fun h => hcs cs (by rw [hrest, beq_iff_eq.1 h])
        rw [Pattern.first?_seq_char, if_neg hne]
        rfl

theorem covers_literal {rest? : Text → Option Text} (hx : x.consumes = true)
    (h : ∀ last s, (x.first? last s).map Prod.snd = rest? s) :
    Covers true [rule x style .stay] fun s => literal? style (rest? s) s :=
  covers_of_rest true true hx fun last c cs => by
    rw [← h last, literal?, Option.map_map]
    rfl

theorem covers_comment : Covers false [rule comment .comment .stay] fun s =>
    (commentLength? s).map fun n => one .comment n false :=
  covers_of_rest false false rfl fun last c cs => by
    rw [← length_comment last, Option.map_map]
    rfl

/-! ### Closing directives -/

theorem runLength_cons (p : Char → Bool) (c : Char) (cs : Text) :
    runLength p (c :: cs) = if p c then (cs.takeWhile p).length + 1 else 0 := by
  rw [runLength, List.takeWhile_cons]
  split <;> rfl

theorem findSome?_toList {α β : Type} (o : Option α) (f : α → Option β) : o.toList.findSome? f = o.bind f := by
  cases o with
  | none => rfl
  | some a => exact List.findSome?_singleton

theorem or_of_orElse {α : Type} (o o' : Option α) : (o <|> o') = o.or o' := by
  cases o <;> rfl

/-- a mark and the name behind it are two spans -/
theorem taken_named {mark cs : Text} {c : Char} (ne : mark ≠ []) :
    ((named? mark (c :: cs)).map fun o => (moveFor true o.inside, o.taken c cs)) =
      (Text.after? mark (c :: cs)).bind fun rest => (Text.run? Text.isWord Text.isWord rest).map fun b =>
        (Move.stay, [⟨Style.punctuation, mark⟩, ⟨Style.keyword, b.1⟩], b.2) := by
  rw [named?]
  cases hmark : Text.after? mark (c :: cs) with
  | none => rfl
  | some rest =>
    rw [Option.bind_some, Option.bind_some]
    have hsplit : mark ++ rest = c :: cs := (Text.eq_of_after? hmark).symm
    cases mark with
    | nil => exact absurd rfl ne
    | cons e mark =>
      obtain ⟨rfl, rfl⟩ := List.cons.inj hsplit
      cases rest with
      | nil => rfl
      | cons d ds =>
        rw [Text.run?, runLength_cons]
        by_cases hd : Text.isWord d = true
        · have htake : ds.take (ds.takeWhile Text.isWord).length = ds.takeWhile Text.isWord :=
            (List.prefix_iff_eq_take.1 (List.takeWhile_prefix _)).symm
          have hdrop : ds.drop (ds.takeWhile Text.isWord).length = ds.dropWhile Text.isWord :=
            calc ds.drop (ds.takeWhile Text.isWord).length
                = (ds.takeWhile Text.isWord ++ ds.dropWhile Text.isWord).drop (ds.takeWhile Text.isWord).length := by
                  rw [List.takeWhile_append_dropWhile]
              _ = ds.dropWhile Text.isWord := List.drop_left
          simp [hd, Opening.taken, moveFor, htake, hdrop]
        · rw [if_neg hd, if_neg hd]
          rfl

theorem covers_closing : Covers true
    [⟨[(.oneOf ["/", "end"], .punctuation), (.plus Text.isWord, .keyword)], .stay⟩] closing? := by
  intro last c cs
  have hname (mark rest : Text) :
      (groupWays [(.plus Text.isWord, .keyword)] (mark.getLast? <|> last) rest).head? =
        (Text.run? Text.isWord Text.isWord rest).map fun b => ([⟨Style.keyword, b.1⟩], b.2) := by
    rw [← Pattern.first?_plus _ (mark.getLast? <|> last), Pattern.first?, ← List.head?_map, List.map_eq_flatMap]
    rfl
  have hmarks : (Pattern.oneOf ["/", "end"]).ways last (c :: cs) =
      ((Text.after? "/" (c :: cs)).map fun rest => ("/".toList, rest)).toList ++
        ((Text.after? "end" (c :: cs)).map fun rest => ("end".toList, rest)).toList := by
    rw [← Pattern.ways_text _ last, ← Pattern.ways_text _ last]
    exact List.filterMap_append (l := ["/".toList])
  rw [found?, List.findSome?_singleton, groupWays, List.head?_flatMap, hmarks, List.findSome?_append]
  simp only [List.head?_map, hname, findSome?_toList, Option.map_or, Option.map_bind, Option.bind_map,
    Function.comp_def, Option.map_map]
  rw [closing?, or_of_orElse, Option.map_or, taken_named (by decide), taken_named (by decide)]

end

/-! ## The rules of both states -/

/-- how a text begins, outside or inside of directives -/
def opening (isInside : Bool) (c : Char) (cs : Text) : Opening :=
  if isInside then inside c (c :: cs) else outside (c :: cs)

theorem covers_congr {isInside : Bool} {rules : List Rule} {f g : Text → Option Opening}
    (h : Covers isInside rules f) (hfg : ∀ c cs, f (c :: cs) = g (c :: cs)) : Covers isInside rules g := by
  intro last c cs
  rw [h last, hfg]

/-- **Outside of directives** the rules say how a text begins. -/
theorem covers_root : Covers false State.root.rules fun s => some (outside s) := by
  refine covers_congr (covers_cons (covers_oneOf false false (by decide)) (covers_cons covers_comment
    (covers_cons (covers_oneOf false true (by decide)) (covers_cons (covers_run false false _ _)
      (covers_cons (covers_char false false _) covers_nil))))) fun c cs => ?_
  simp only [List.find?_singleton, outside]
  cases Text.startsWith (c :: cs) "\\\x7b\x7b" with
  | true => rfl
  | false =>
    cases commentLength? (c :: cs) with
    | some n => rfl
    | none =>
      cases Text.startsWith (c :: cs) "\x7b\x7b" with
      | true => rfl
      | false =>
        simp only [Text.run?, runLength_cons, List.head?_cons, Option.filter_some]
        by_cases hc : (c != '\x7b' && c != '\\') = true
        · rw [if_pos hc, if_pos hc, Nat.max_eq_right (Nat.le_add_left 1 _)]
          rfl
        · have hbrace : (c == '\x7b' || c == '\\') = true := by
            rw [Bool.or_eq_true, beq_iff_eq, beq_iff_eq]
            rw [Bool.and_eq_true, bne_iff_ne, bne_iff_ne] at hc
            tauto
          rw [if_neg hc, if_neg hc, if_pos hbrace]
          rfl

theorem word?_eq (s : Text) : word? s =
    (if keywords.contains (s.takeWhile Text.isWord) then some (one .keyword (s.takeWhile Text.isWord).length true)
      else none).or
    ((if wordOperators.contains (s.takeWhile Text.isWord) then
      some (one .wordOperator (s.takeWhile Text.isWord).length true) else none).or
    (if constants.contains (s.takeWhile Text.isWord) then some (one .constant (s.takeWhile Text.isWord).length true)
      else none)) := by
  simp only [word?]
  cases keywords.contains (s.takeWhile Text.isWord) with
  | true => rfl
  | false => cases wordOperators.contains (s.takeWhile Text.isWord) <;> rfl

theorem areWords : (∀ t ∈ keywords, t ≠ [] ∧ t.all Text.isWord = true) ∧
    (∀ t ∈ wordOperators, t ≠ [] ∧ t.all Text.isWord = true) ∧
      ∀ t ∈ constants, t ≠ [] ∧ t.all Text.isWord = true := by decide

/-- **Inside of directives** the rules say how a text begins. -/
theorem covers_directive : Covers true State.directive.rules fun s => s.head?.map fun c => inside c s := by
  obtain ⟨hkeywords, hoperators, hconstants⟩ := areWords
  have hstrings (last : Option Char) (s : Text) :
      ((Pattern.either (quoted '"') (quoted '\'')).first? last s).map Prod.snd =
        (Literal.afterQuoted? '"' s <|> Literal.afterQuoted? '\'' s) := by
    rw [Pattern.first?_either, Option.map_or, rest_quoted, rest_quoted, or_of_orElse]
  refine covers_congr (covers_cons (covers_oneOf true false (by decide)) (covers_cons (covers_run true true _ _)
    (covers_cons covers_closing (covers_cons (covers_words true true hkeywords)
      (covers_cons (covers_words true true hoperators) (covers_cons (covers_words true true hconstants)
        (covers_cons (covers_oneOf true true (by decide)) (covers_cons (covers_literal (by decide) hstrings)
          (covers_cons (covers_literal rfl rest_number) (covers_cons (covers_run true true _ _)
            (covers_cons (covers_char true true _) (covers_cons (covers_char true true _) covers_nil)))))))))))) ?_
  intro c cs
  rw [List.head?_cons, Option.map_some, inside]
  simp only [List.find?_singleton]
  cases Text.startsWith (c :: cs) "\x7d\x7d" with
  | true => rfl
  | false =>
    simp only [Text.run?, runLength_cons, Option.filter_some]
    by_cases hblank : Text.isBlank c = true
    · rw [if_pos hblank, if_pos hblank, if_pos hblank]
      rfl
    · have hfeed : (c != '\n') = true := by
        rw [bne_iff_ne]
        rintro rfl
        exact hblank (by decide)
      rw [if_neg hblank, if_neg hblank, if_pos hfeed, if_neg Bool.false_ne_true, if_neg Bool.false_ne_true,
        ← Option.or_some]
      simp only [or_of_orElse, word?_eq, operator?, Option.or_assoc]
      by_cases hstart : Text.isNameStart c = true
      · rw [if_pos hstart, if_pos hstart, if_pos (Text.isWord_of_isNameStart hstart)]
        rfl
      · rw [if_neg hstart, if_neg hstart]
        cases c == '.' || c == '[' || c == ']' || c == ',' <;> rfl

/-- the rules of a state say how a text begins on its side of the delimiters -/
theorem found?_rules (isInside : Bool) (last : Option Char) (c : Char) (cs : Text) :
    found? (stateOf isInside).rules last (c :: cs) = some
      (moveFor isInside (opening isInside c cs).inside, (opening isInside c cs).taken c cs) := by
  cases isInside with
  | false => exact covers_root last c cs
  | true => exact covers_directive last c cs

/-- no rule matches at the end of the text -/
theorem found?_nil (isInside : Bool) (last : Option Char) : found? (stateOf isInside).rules last [] = none := by
  cases isInside <;> rfl

/-! ## The machine on a text -/

theorem spansFrom_cons (isInside : Bool) (c : Char) (cs : Text) : spansFrom isInside (c :: cs) =
    ((opening isInside c cs).taken c cs).1 ++
      spansFrom (opening isInside c cs).inside ((opening isInside c cs).taken c cs).2 := by
  rw [spansFrom, ← opening, Opening.taken]
  cases (opening isInside c cs).second <;> rfl

theorem length_taken (o : Opening) (c : Char) (cs : Text) : (o.taken c cs).2.length ≤ cs.length := by
  unfold Opening.taken
  cases o.second with
  | none => exact List.length_drop .. ▸ Nat.sub_le ..
  | some r =>
    rw [List.length_drop, List.length_drop]
    omega

/-- the machine in the midst of a text, outside or inside of directives -/
def Machine.midway (isInside : Bool) (spans : List Span) (rest : Text) : Machine :=
  ⟨stateOf isInside, if isInside then [.root] else [], rest, spans.map .span⟩

section

variable {isInside : Bool} {spans : List Span} {rest s : Text} {m : Machine}

/-- **A step** takes the spans with which the rest begins, and changes the side of the delimiters with them. -/
theorem step_midway (c : Char) (cs : Text) : (Machine.midway isInside spans (c :: cs)).step =
    some (.midway (opening isInside c cs).inside (spans ++ ((opening isInside c cs).taken c cs).1)
      ((opening isInside c cs).taken c cs).2) := by
  have hmove (after : Bool) : (moveFor isInside after).apply (stateOf isInside) (if isInside then [.root] else []) =
      (stateOf after, if after then [.root] else []) := by
    cases isInside <;> cases after <;> rfl
  simp only [Machine.step, Machine.midway, found?_rules, hmove, List.map_append]

theorem step_end : (Machine.midway isInside spans []).step = none := by
  simp only [Machine.step, Machine.midway, found?_nil]

/-- **Every machine that is reached** has written spans of the text, and the rest gives the others. -/
theorem midway_of_reaches (h : (Machine.start s).Reaches m) : ∃ isInside spans rest,
    m = .midway isInside spans rest ∧ spansFrom false s = spans ++ spansFrom isInside rest := by
  induction h with
  | refl => exact ⟨false, [], s, rfl, rfl⟩
  | tail hmore hstep ih =>
    obtain ⟨isInside, spans, rest, rfl, hspans⟩ := ih
    cases rest with
    | nil =>
      rw [step_end] at hstep
      cases hstep
    | cons c cs =>
      rw [step_midway] at hstep
      exact ⟨_, _, _, (Option.some.inj hstep).symm, by rw [hspans, spansFrom_cons, List.append_assoc]⟩

theorem exists_done (isInside : Bool) (spans : List Span) (rest : Text) :
    ∃ m, (Machine.midway isInside spans rest).Reaches m ∧ m.step = none := by
  induction hn : rest.length using Nat.strong_induction_on generalizing isInside spans rest with
  | _ n ih =>
    cases rest with
    | nil => exact ⟨_, .refl, step_end⟩
    | cons c cs =>
      have hless : ((opening isInside c cs).taken c cs).2.length < n := by
        have := length_taken (opening isInside c cs) c cs
        rw [List.length_cons] at hn
        omega
      obtain ⟨m, hm, hdone⟩ := ih _ hless _ _ _ rfl
      exact ⟨m, .head (step_midway c cs) hm, hdone⟩

/-- **A machine that stops** has read all of the text and written all of its spans. -/
theorem pieces_of_done (h : (Machine.start s).Reaches m) (hdone : m.step = none) :
    m.rest = [] ∧ m.pieces = (spansFrom false s).map .span := by
  obtain ⟨isInside, spans, rest, rfl, hspans⟩ := midway_of_reaches h
  cases rest with
  | nil =>
    rw [hspans, spansFrom, List.append_nil]
    exact ⟨rfl, rfl⟩
  | cons c cs =>
    rw [step_midway] at hdone
    cases hdone

/-- **The spans** one after the other are the text. -/
theorem flatMap_spansFrom (s : Text) : (spansFrom false s).flatMap Span.text = s := by
  obtain ⟨m, hm, hdone⟩ := exists_done false [] s
  obtain ⟨hrest, hpieces⟩ := pieces_of_done hm hdone
  have hall := append_of_reaches hm
  rw [hrest, List.append_nil, Machine.written, hpieces, List.flatMap_map] at hall
  exact hall

end

end Stencil.Highlight
