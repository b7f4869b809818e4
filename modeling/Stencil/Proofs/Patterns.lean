/-
PATTERNS. A pattern is matched at the beginning of a text by trying: an earlier choice before a later one, a greedy run
as long as it can be and a lazy one as short as it can be, and whenever what follows does not match, the next way. What
is found is the first way of all.

- `Pattern.ways`: all ways to match, in the order in which they are tried.
- `append_of_mem_ways`, `ne_nil_of_mem_ways`, `getLast?_of_mem_ways`: each of them divides the text, and what is said of
  the pattern by its shape holds of what it matches.
- `greedy_eq`: behind the longest run of a class come those that leave a character of the class.
- `Pattern.first?_seq_run`, `Pattern.first?_lazy`, `Pattern.first?_words`: what is found for a run with something behind
  it, for a lazy run up to a mark, and for one of some words.
-/
import Stencil.Highlight.Span
import Stencil.Proofs.Constants

namespace Stencil.Highlight

/-- a pattern: a character of a class, one of some texts, a run of characters of a class, two patterns one after the
other, one of two patterns, and the edge of a word -/
inductive Pattern where
  | char (p : Char → Bool)
  | oneOf (texts : List Text)
  | run (greedy : Bool) (p : Char → Bool)
  | seq (x y : Pattern)
  | either (x y : Pattern)
  | edge

/-- the beginnings of a text that have only characters of a class, shorter ones first, each with what follows it -/
def beginnings (p : Char → Bool) : Text → List (Text × Text)
  | [] => [([], [])]
  | c :: cs => ([], c :: cs) :: if p c then (beginnings p cs).map fun a => (c :: a.1, a.2) else []

/-- a character of a word is there -/
def hasWord (c : Option Char) : Bool := c.any Text.isWord

namespace Pattern

/-- the ways in which a text begins with what a pattern matches, in the order in which they are tried: what is matched
and what follows; `last` is the character in front of the text -/
def ways : Pattern → (last : Option Char) → Text → List (Text × Text)
  | char _, _, [] => []
  | char p, _, c :: cs => if p c then [([c], cs)] else []
  | oneOf texts, _, s => texts.filterMap fun t => (Text.after? t s).map fun rest => (t, rest)
  | run greedy p, _, s => if greedy then (beginnings p s).reverse else beginnings p s
  | seq x y, last, s => (x.ways last s).flatMap fun a =>
      (y.ways (a.1.getLast? <|> last) a.2).map fun b => (a.1 ++ b.1, b.2)
  | either x y, last, s => x.ways last s ++ y.ways last s
  | edge, last, s => if hasWord last != hasWord s.head? then [([], s)] else []

/-- the way that is found -/
def first? (x : Pattern) (last : Option Char) (s : Text) : Option (Text × Text) := (x.ways last s).head?

/-- a run of one character or more -/
def plus (p : Char → Bool) : Pattern := seq (char p) (run true p)

/-- a pattern or nothing -/
def optional (x : Pattern) : Pattern := either x (oneOf [[]])

/-- one of some words, with no character of a word behind it -/
def words (texts : List Text) : Pattern := seq (oneOf texts) edge

/-- the pattern matches no empty text -/
def consumes : Pattern → Bool
  | char _ => true
  | oneOf texts => texts.all fun t => !t.isEmpty
  | run _ _ => false
  | seq x y => x.consumes || y.consumes
  | either x y => x.consumes && y.consumes
  | edge => false

/-- the pattern matches no text that ends with a line feed -/
def endsBeforeFeed : Pattern → Bool
  | char p => !p '\n'
  | oneOf texts => texts.all fun t => t.getLast? != some '\n'
  | run _ p => !p '\n'
  | seq x y => y.endsBeforeFeed && (y.consumes || x.endsBeforeFeed)
  | either x y => x.endsBeforeFeed && y.endsBeforeFeed
  | edge => true

end Pattern

/-! ## Ways divide the text -/

section

variable {p : Char → Bool} {s : Text} {a : Text × Text}

theorem append_of_mem_beginnings (h : a ∈ beginnings p s) : a.1 ++ a.2 = s := by
  induction s generalizing a with
  | nil =>
    rw [beginnings, List.mem_singleton] at h
    rw [h, List.append_nil]
  | cons c cs ih =>
    rw [beginnings, List.mem_cons] at h
    rcases h with rfl | h
    · rfl
    · split at h
      · obtain ⟨b, hb, rfl⟩ := List.mem_map.1 h
        exact congrArg (c :: ·) (ih hb)
      · cases h

theorem forall_of_mem_beginnings (h : a ∈ beginnings p s) : ∀ c ∈ a.1, p c = true := by
  induction s generalizing a with
  | nil =>
    rw [beginnings, List.mem_singleton] at h
    rw [h]
    nofun
  | cons c cs ih =>
    rw [beginnings, List.mem_cons] at h
    rcases h with rfl | h
    · nofun
    · split at h
      · rename_i hc
        obtain ⟨b, hb, rfl⟩ := List.mem_map.1 h
        exact List.forall_mem_cons.2 ⟨hc, ih hb⟩
      · cases h

/-! ### What a way is for each shape of a pattern -/

section

variable {x y : Pattern} {last : Option Char}

theorem of_mem_char (h : a ∈ (Pattern.char p).ways last s) : ∃ c cs, s = c :: cs ∧ p c = true ∧ a = ([c], cs) := by
  cases s with
  | nil => cases h
  | cons c cs =>
    rw [Pattern.ways] at h
    split at h
    · rename_i hc
      exact ⟨c, cs, rfl, hc, List.mem_singleton.1 h⟩
    · cases h

theorem of_mem_oneOf {texts : List Text} (h : a ∈ (Pattern.oneOf texts).ways last s) :
    a.1 ∈ texts ∧ a.1 ++ a.2 = s := by
  obtain ⟨t, ht, h⟩ := List.mem_filterMap.1 h
  obtain ⟨rest, hrest, rfl⟩ := Option.map_eq_some_iff.1 h
  exact ⟨ht, (Text.eq_of_after? hrest).symm⟩

theorem of_mem_run {greedy : Bool} (h : a ∈ (Pattern.run greedy p).ways last s) : a ∈ beginnings p s := by
  rw [Pattern.ways] at h
  split at h
  · exact List.mem_reverse.1 h
  · exact h

theorem of_mem_seq (h : a ∈ (Pattern.seq x y).ways last s) :
    ∃ b ∈ x.ways last s, ∃ d ∈ y.ways (b.1.getLast? <|> last) b.2, a = (b.1 ++ d.1, d.2) := by
  obtain ⟨b, hb, h⟩ := List.mem_flatMap.1 h
  obtain ⟨d, hd, rfl⟩ := List.mem_map.1 h
  exact ⟨b, hb, d, hd, rfl⟩

theorem of_mem_edge (h : a ∈ Pattern.edge.ways last s) : a = ([], s) := by
  rw [Pattern.ways] at h
  split at h
  · exact List.mem_singleton.1 h
  · cases h

/-- **Every way to match** divides the text. -/
theorem append_of_mem_ways (h : a ∈ x.ways last s) : a.1 ++ a.2 = s := by
  induction x generalizing last s a with
  | char p =>
    obtain ⟨c, cs, rfl, -, rfl⟩ := of_mem_char h
    rfl
  | oneOf texts => exact (of_mem_oneOf h).2
  | run greedy p => exact append_of_mem_beginnings (of_mem_run h)
  | seq x y ihx ihy =>
    obtain ⟨b, hb, d, hd, rfl⟩ := of_mem_seq h
    show b.1 ++ d.1 ++ d.2 = s
    rw [List.append_assoc, ihy hd, ihx hb]
  | either x y ihx ihy =>
    rcases List.mem_append.1 h with h | h
    · exact ihx h
    · exact ihy h
  | edge =>
    rw [of_mem_edge h]
    rfl

theorem ne_nil_of_mem_ways (hx : x.consumes = true) (h : a ∈ x.ways last s) : a.1 ≠ [] := by
  induction x generalizing last s a with
  | char p =>
    obtain ⟨c, cs, -, -, rfl⟩ := of_mem_char h
    nofun
  | oneOf texts =>
    have hne := List.all_eq_true.1 hx a.1 (of_mem_oneOf h).1
    simpa using hne
  | run greedy p => cases hx
  | seq x y ihx ihy =>
    obtain ⟨b, hb, d, hd, rfl⟩ := of_mem_seq h
    intro hnil
    obtain ⟨hbnil, hdnil⟩ := List.append_eq_nil_iff.1 hnil
    rcases (Bool.or_eq_true ..).mp hx with hx | hy
    · exact ihx hx hb hbnil
    · exact ihy hy hd hdnil
  | either x y ihx ihy =>
    obtain ⟨hx, hy⟩ := (Bool.and_eq_true ..).mp hx
    rcases List.mem_append.1 h with h | h
    · exact ihx hx h
    · exact ihy hy h
  | edge => cases hx

theorem getLast?_of_mem_ways (hx : x.endsBeforeFeed = true) (h : a ∈ x.ways last s) : a.1.getLast? ≠ some '\n' := by
  have hrun {p : Char → Bool} {t : Text} (hp : (!p '\n') = true) (ht : ∀ c ∈ t, p c = true) :
      t.getLast? ≠ some '\n' := by
    intro hlast
    rw [ht '\n' (List.mem_of_getLast? hlast)] at hp
    cases hp
  induction x generalizing last s a with
  | char p =>
    obtain ⟨c, cs, -, hc, rfl⟩ := of_mem_char h
    exact hrun hx (List.forall_mem_singleton.2 hc)
  | oneOf texts => exact bne_iff_ne.1 (List.all_eq_true.1 hx a.1 (of_mem_oneOf h).1)
  | run greedy p => exact hrun hx (forall_of_mem_beginnings (of_mem_run h))
  | seq x y ihx ihy =>
    obtain ⟨b, hb, d, hd, rfl⟩ := of_mem_seq h
    obtain ⟨hy, hx⟩ := (Bool.and_eq_true ..).mp hx
    have hdlast := ihy hy hd
    show (b.1 ++ d.1).getLast? ≠ some '\n'
    rw [List.getLast?_append]
    cases hlast : d.1.getLast? with
    | some e =>
      rw [hlast] at hdlast
      exact hdlast
    | none =>
      -- nothing was matched behind
      have hnil := List.getLast?_eq_none_iff.1 hlast
      rcases (Bool.or_eq_true ..).mp hx with hne | hx
      · exact absurd hnil (ne_nil_of_mem_ways hne hd)
      · exact ihx hx hb
  | either x y ihx ihy =>
    obtain ⟨hx, hy⟩ := (Bool.and_eq_true ..).mp hx
    rcases List.mem_append.1 h with h | h
    · exact ihx hx h
    · exact ihy hy h
  | edge =>
    rw [of_mem_edge h]
    nofun

theorem append_of_first? (h : x.first? last s = some a) : a.1 ++ a.2 = s :=
  append_of_mem_ways (List.mem_of_mem_head? h)

end

end

/-! ## Runs -/

section

variable {p : Char → Bool} {s : Text}

/-- **The longest run comes first**; the others leave a character of the class behind them. -/
theorem greedy_eq (p : Char → Bool) (s : Text) : ∃ more, (beginnings p s).reverse =
    (s.takeWhile p, s.dropWhile p) :: more ∧ ∀ a ∈ more, ∃ c r, a.2 = c :: r ∧ p c = true := by
  induction s with
  | nil => exact ⟨[], rfl, nofun⟩
  | cons c cs ih =>
    obtain ⟨more, hmore, hleft⟩ := ih
    by_cases hc : p c = true
    · refine ⟨more.map (fun a => (c :: a.1, a.2)) ++ [([], c :: cs)], ?_, fun a ha => ?_⟩
      · rw [beginnings, if_pos hc, List.reverse_cons, ← List.map_reverse, hmore, List.takeWhile_cons_of_pos hc,
          List.dropWhile_cons_of_pos hc]
        rfl
      · rcases List.mem_append.1 ha with ha | ha
        · obtain ⟨b, hb, rfl⟩ := List.mem_map.1 ha
          exact hleft b hb
        · rw [List.mem_singleton.1 ha]
          exact ⟨c, cs, rfl, hc⟩
    · refine ⟨[], ?_, nofun⟩
      rw [beginnings, if_neg hc, List.takeWhile_cons_of_neg hc, List.dropWhile_cons_of_neg hc]
      rfl

theorem head?_greedy (p : Char → Bool) (s : Text) :
    (beginnings p s).reverse.head? = some (s.takeWhile p, s.dropWhile p) := by
  obtain ⟨more, hmore, -⟩ := greedy_eq p s
  rw [hmore, List.head?_cons]

end

/-! ## What is found -/

namespace Pattern

section

variable {p q : Char → Bool} {last : Option Char} {s : Text} {x y : Pattern}

theorem ways_text (t : Text) (last : Option Char) (s : Text) :
    (oneOf [t]).ways last s = ((Text.after? t s).map fun rest => (t, rest)).toList := by
  rw [ways, List.filterMap_cons]
  cases Text.after? t s <;> rfl

theorem first?_text (t : Text) (last : Option Char) (s : Text) :
    (oneOf [t]).first? last s = (Text.after? t s).map fun rest => (t, rest) := by
  rw [first?, ways_text]
  cases Text.after? t s <;> rfl

theorem first?_char (p : Char → Bool) (last : Option Char) (c : Char) (cs : Text) :
    (char p).first? last (c :: cs) = if p c then some ([c], cs) else none := by
  rw [first?, ways]
  split <;> rfl

theorem first?_run (p : Char → Bool) (last : Option Char) (s : Text) :
    (run true p).first? last s = some (s.takeWhile p, s.dropWhile p) := by
  rw [first?, ways, if_pos rfl, head?_greedy]

theorem first?_either (x y : Pattern) (last : Option Char) (s : Text) :
    (either x y).first? last s = (x.first? last s).or (y.first? last s) := by
  rw [first?, ways, List.head?_append]
  rfl

/-- of two patterns the first way is found that leaves a way for the second -/
theorem first?_seq (x y : Pattern) (last : Option Char) (s : Text) :
    (seq x y).first? last s = (x.ways last s).findSome? fun a =>
      (y.first? (a.1.getLast? <|> last) a.2).map fun b => (a.1 ++ b.1, b.2) := by
  rw [first?, ways, List.head?_flatMap]
  simp only [List.head?_map]
  rfl

theorem first?_seq_text (t : Text) (y : Pattern) (last : Option Char) (s : Text) :
    (seq (oneOf [t]) y).first? last s = (Text.after? t s).bind fun rest =>
      (y.first? (t.getLast? <|> last) rest).map fun b => (t ++ b.1, b.2) := by
  rw [first?_seq, ways_text]
  cases Text.after? t s with
  | none => rfl
  | some rest => exact List.findSome?_singleton

/-- one of some texts is the first, or one of the others -/
theorem first?_seq_oneOf_cons (t : Text) (texts : List Text) (y : Pattern) (last : Option Char) (s : Text) :
    (seq (oneOf (t :: texts)) y).first? last s =
      ((seq (oneOf [t]) y).first? last s).or ((seq (oneOf texts) y).first? last s) := by
  have hways : (oneOf (t :: texts)).ways last s = (oneOf [t]).ways last s ++ (oneOf texts).ways last s :=
    List.filterMap_append (l := [t])
  rw [first?_seq, first?_seq, first?_seq, hways, List.findSome?_append]

theorem first?_seq_char (p : Char → Bool) (y : Pattern) (last : Option Char) (c : Char) (cs : Text) :
    (seq (char p) y).first? last (c :: cs) =
      if p c then (y.first? (some c) cs).map fun b => (c :: b.1, b.2) else none := by
  rw [first?_seq, ways]
  split
  · exact List.findSome?_singleton
  · rfl

/-- behind a run what cannot begin with a character of its class stands behind the longest one -/
theorem first?_seq_run (hy : ∀ last c cs, p c = true → y.first? last (c :: cs) = none) (last : Option Char) (s : Text) :
    (seq (run true p) y).first? last s =
      (y.first? ((s.takeWhile p).getLast? <|> last) (s.dropWhile p)).map fun b => (s.takeWhile p ++ b.1, b.2) := by
  obtain ⟨more, hmore, hleft⟩ := greedy_eq p s
  rw [first?_seq, ways, if_pos rfl, hmore, List.findSome?_cons]
  cases hfirst : y.first? ((s.takeWhile p).getLast? <|> last) (s.dropWhile p) with
  | some b => rfl
  | none =>
    refine List.findSome?_eq_none_iff.2 fun a ha => ?_
    obtain ⟨c, r, hr, hc⟩ := hleft a ha
    rw [hr, hy _ c r hc, Option.map_none]

/-- what is found first for the first of two patterns stays, if the second is always found -/
theorem first?_seq_of_isSome (hy : ∀ last s, (y.first? last s).isSome = true) (last : Option Char) (s : Text) :
    (seq x y).first? last s = (x.first? last s).bind fun a =>
      (y.first? (a.1.getLast? <|> last) a.2).map fun b => (a.1 ++ b.1, b.2) := by
  rw [first?_seq, first?]
  cases x.ways last s with
  | nil => rfl
  | cons a more =>
    obtain ⟨b, hb⟩ := Option.isSome_iff_exists.1 (hy (a.1.getLast? <|> last) a.2)
    rw [List.findSome?_cons, List.head?_cons, Option.bind_some, hb, Option.map_some]

/-- a character of one class and the longest run of another -/
theorem first?_char_run (p q : Char → Bool) (last : Option Char) (s : Text) :
    (seq (char p) (run true q)).first? last s = Text.run? p q s := by
  cases s with
  | nil => rfl
  | cons c cs => rw [first?_seq_char, first?_run, Option.map_some, Text.run?]

theorem first?_plus (p : Char → Bool) (last : Option Char) (s : Text) : (plus p).first? last s = Text.run? p p s :=
  first?_char_run p p last s

theorem first?_optional (x : Pattern) (last : Option Char) (s : Text) :
    (optional x).first? last s = some ((x.first? last s).getD ([], s)) := by
  rw [optional, first?_either, first?_text]
  cases x.first? last s <;> rfl

/-! ### Lazy runs -/

/-- a mark looked for behind ever longer beginnings is found where it first stands, if they get there -/
theorem findSome?_beginnings (mark : Text) (p : Char → Bool) (s : Text) :
    ((beginnings p s).findSome? fun a => (Text.after? mark a.2).map fun rest => (a.1 ++ mark, rest)) =
      ((Text.cut? mark s).filter fun q => q.1.all p).map fun q => (q.1 ++ mark, q.2) := by
  induction s with
  | nil =>
    cases hmark : Text.after? mark [] <;> simp [beginnings, Text.cut?, hmark]
  | cons c cs ih =>
    rw [beginnings, List.findSome?_cons, Text.cut?]
    cases hmark : Text.after? mark (c :: cs) with
    | some rest => simp
    | none =>
      by_cases hc : p c = true
      · have hcons (q : Text × Text) : (Text.after? mark q.2).map (fun rest => (c :: q.1 ++ mark, rest)) =
            ((Text.after? mark q.2).map fun rest => (q.1 ++ mark, rest)).map fun b => (c :: b.1, b.2) := by
          cases Text.after? mark q.2 <;> rfl
        have hmore := congrArg (Option.map fun b : Text × Text => (c :: b.1, b.2)) ih
        rw [List.map_findSome?] at hmore
        rw [if_pos hc, List.findSome?_map]
        simp only [Function.comp_def, hcons] at hmore ⊢
        refine hmore.trans ?_
        cases Text.cut? mark cs with
        | none => rfl
        | some q => cases hall : q.1.all p <;> simp [Option.filter, hc, hall]
      · rw [if_neg hc]
        cases Text.cut? mark cs with
        | none => simp
        | some q => simp [hc]

/-- **A lazy run** and the mark behind it end where the mark first stands, if the run gets there. -/
theorem first?_lazy (mark : Text) (p : Char → Bool) (last : Option Char) (s : Text) :
    (seq (run false p) (oneOf [mark])).first? last s =
      ((Text.cut? mark s).filter fun q => q.1.all p).map fun q => (q.1 ++ mark, q.2) := by
  rw [← findSome?_beginnings, first?_seq, ways, if_neg Bool.false_ne_true]
  simp only [first?_text, Option.map_map]
  rfl

/-! ### Words -/

theorem hasWord_head? (s : Text) : hasWord s.head? = Text.begins Text.isWord s := by
  cases s <;> rfl

/-- a word stands in front with no more of a word behind it if it is the longest run -/
theorem after?_word {t : Text} (ht : t.all Text.isWord = true) (s : Text) :
    ((Text.after? t s).bind fun rest => if hasWord rest.head? then none else some (t, rest)) =
      if s.takeWhile Text.isWord == t then some (t, s.dropWhile Text.isWord) else none := by
  have hrun := List.all_eq_true.1 ht
  cases hafter : Text.after? t s with
  | none =>
    have hne : ¬(s.takeWhile Text.isWord == t) = true := by
      intro h
      have hs : Text.after? t s = some (s.dropWhile Text.isWord) :=
        Text.after?_eq_some_iff.2 (by rw [← beq_iff_eq.1 h, List.takeWhile_append_dropWhile])
      rw [hafter] at hs
      cases hs
    rw [if_neg hne]
    rfl
  | some rest =>
    obtain rfl := Text.eq_of_after? hafter
    rw [Option.bind_some, hasWord_head?]
    cases hword : Text.begins Text.isWord rest with
    | false =>
      obtain ⟨htake, hdrop⟩ := Text.span_run hrun hword
      rw [htake, hdrop, if_pos (beq_iff_eq.2 rfl)]
      rfl
    | true =>
      have hne : ¬((t ++ rest).takeWhile Text.isWord == t) = true := by
        intro h
        have htake := beq_iff_eq.1 h
        rw [List.takeWhile_append_of_pos hrun, List.append_right_eq_self] at htake
        cases rest with
        | nil => cases hword
        | cons c rest =>
          rw [Text.begins_cons] at hword
          rw [List.takeWhile_cons_of_pos hword] at htake
          cases htake
      rw [if_neg hne]
      rfl

theorem first?_edge {t : Text} (ne : t ≠ []) (ht : t.all Text.isWord = true) (last : Option Char) (rest : Text) :
    edge.first? (t.getLast? <|> last) rest = if hasWord rest.head? then none else some ([], rest) := by
  have hlast : hasWord (t.getLast? <|> last) = true := by
    rw [List.getLast?_eq_some_getLast ne]
    exact List.all_eq_true.1 ht _ (List.getLast_mem ne)
  rw [first?, ways, hlast]
  cases hasWord rest.head? <;> rfl

/-- **A whole word is found** if it is one of the words. -/
theorem first?_words {texts : List Text} (htexts : ∀ t ∈ texts, t ≠ [] ∧ t.all Text.isWord = true)
    (last : Option Char) (s : Text) : (words texts).first? last s =
      if texts.contains (s.takeWhile Text.isWord) then some (s.takeWhile Text.isWord, s.dropWhile Text.isWord)
      else none := by
  rw [words]
  induction texts with
  | nil => rfl
  | cons t texts ih =>
    obtain ⟨⟨ne, ht⟩, hmore⟩ := List.forall_mem_cons.1 htexts
    have hword : (seq (oneOf [t]) edge).first? last s =
        if s.takeWhile Text.isWord == t then some (t, s.dropWhile Text.isWord) else none := by
      rw [first?_seq_text, ← after?_word ht s]
      refine congrArg ((Text.after? t s).bind ·) (funext fun rest => ?_)
      rw [first?_edge ne ht]
      cases hasWord rest.head? <;> simp
    rw [first?_seq_oneOf_cons, hword, ih hmore, List.contains_cons]
    cases heq : s.takeWhile Text.isWord == t with
    | true => rw [beq_iff_eq.1 heq, Bool.true_or, if_pos rfl, Option.some_or]
    | false => rw [Bool.false_or, if_neg Bool.false_ne_true, Option.none_or]

end

end Pattern

end Stencil.Highlight
