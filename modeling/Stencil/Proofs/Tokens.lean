/-
THE TOKENS OF A TEMPLATE. Nothing of a template is lost by scanning it, and nothing stands in two tokens: the pieces of
the text, put together, are the text, and the tokens are read off them one after the other.

- `Text.unescape`: a text without the backslashes that stand directly before an opening mark.
- `LineCounter.counts_moveTo`: the counter gives the line of the position that it was moved to.
- `Reads`: the tokens of the pieces. A directive is a token by itself; literal text is the whole of the pieces between
  two directives.
- `Scan.sound_chunk`, `Scan.sound_run`: scanning one piece more, and scanning them all, keeps to `Reads`.
- `scan_lossless`: the division and the tokens of a template that scans.
-/
import Stencil.Proofs.Chunks
import Stencil.Proofs.Instruction

namespace Stencil

namespace Text

/-- the text without the backslashes that stand directly before a mark -/
def unescape (mark : Text) : Text → Text
  | [] => []
  | c :: cs => if c == '\\' && startsWith cs mark then unescape mark cs else c :: unescape mark cs

theorem startsWith_iff {s mark : Text} : startsWith s mark = true ↔ mark <+: s := by
  simp only [startsWith, Option.isSome_iff_exists, after?_eq_some_iff]
  constructor
  · rintro ⟨rest, rfl⟩
    exact List.prefix_append mark rest
  · rintro ⟨rest, rfl⟩
    exact ⟨rest, rfl⟩

/-- a text in which the mark does not stand is as it was -/
theorem unescape_of_not_infix {mark s : Text} (h : ¬ mark <:+: s) : unescape mark s = s := by
  induction s with
  | nil => rfl
  | cons c cs ih =>
    have hcs : ¬ mark <:+: cs := fun hmark => h (hmark.trans (List.suffix_cons c cs).isInfix)
    have hfront : startsWith cs mark = false := by
      rw [Bool.eq_false_iff, ne_eq, startsWith_iff]
      exact fun hpre => hcs hpre.isInfix
    simp [unescape, hfront, ih hcs]

/-- a text without backslashes in front of another stays -/
theorem unescape_append {mark u : Text} (h : '\\' ∉ u) (s : Text) :
    unescape mark (u ++ s) = u ++ unescape mark s := by
  induction u with
  | nil => rfl
  | cons c u ih =>
    simp only [List.mem_cons, not_or] at h
    simp [unescape, Ne.symm h.1, ih h.2]

/-- up to the first mark only the backslash before it goes -/
theorem unescape_escaped {mark before : Text} (hmark : '\\' ∉ mark) (h : FirstAfter mark (before ++ ['\\']))
    (rest : Text) :
    unescape mark (before ++ ['\\'] ++ mark ++ rest) = before ++ mark ++ unescape mark rest := by
  induction before with
  | nil =>
    have hfront : startsWith (mark ++ rest) mark = true := startsWith_iff.2 (List.prefix_append mark rest)
    simp [unescape, hfront, unescape_append hmark]
  | cons c before ih =>
    have hfront : startsWith (before ++ ['\\'] ++ mark ++ rest) mark = false := by
      rw [Bool.eq_false_iff, ne_eq, startsWith_iff]
      rintro ⟨r, hr⟩
      cases before with
      | nil => exact FirstAfter.not_front (h.tail) hr.symm
      | cons d ds => exact FirstAfter.not_front (h.tail) hr.symm
    calc unescape mark (c :: (before ++ ['\\'] ++ mark ++ rest))
        = c :: unescape mark (before ++ ['\\'] ++ mark ++ rest) := by simp only [unescape, hfront]; simp
      _ = c :: (before ++ mark ++ unescape mark rest) := by rw [ih h.tail]

theorem unescape_ne_nil {mark s : Text} (ne : mark ≠ []) (hmark : '\\' ∉ mark) (hs : s ≠ []) :
    unescape mark s ≠ [] := by
  cases s with
  | nil => exact hs
  | cons c cs =>
    unfold unescape
    split
    · rename_i hc
      simp only [Bool.and_eq_true, startsWith_iff] at hc
      obtain ⟨rest, rfl⟩ := hc.2
      simp [unescape_append hmark, ne]
    · simp

end Text

/-! ## Literal text -/

section Literal

variable {opening : Text} {ne : opening ≠ []}

/-- literal text without an opening mark is written out as it stands -/
theorem literalFrom_of_not_infix {s : Text} (h : ¬ opening <:+: s) (offset : Nat) (lead : Text) :
    literalFrom opening ne offset lead s = .ok s := by
  rw [literalFrom]
  split
  · rfl
  · rename_i before rest hcut
    rw [Text.cut?_eq_none_iff.2 h] at hcut
    cases hcut

/-- **Literal text is written out without the backslashes of its opening marks.** -/
theorem literalFrom_eq_unescape (hopen : '\\' ∉ opening) {offset : Nat} {lead s t : Text}
    (hlead : lead.getLast? ≠ some '\\') (h : literalFrom opening ne offset lead s = .ok t) :
    t = Text.unescape opening s := by
  fun_induction literalFrom opening ne offset lead s generalizing t with
  | case1 offset lead s hcut =>
    cases h
    exact (Text.unescape_of_not_infix (Text.cut?_eq_none_iff.1 hcut)).symm
  | case2 offset lead s before rest hcut hescaped ih =>
    obtain ⟨more, hmore, ht⟩ := bind_eq_ok.1 h
    cases ht
    have hlast : before.getLast? = some '\\' := by
      cases before with
      | nil => exact absurd (by simpa using hescaped) hlead
      | cons c cs => simpa using hescaped
    have hbefore : before = before.dropLast ++ ['\\'] := (List.dropLast_append_getLast? _ hlast).symm
    obtain ⟨rfl, hfirst⟩ := Text.cut?_eq_some_iff.1 hcut
    rw [hbefore] at hfirst ⊢
    rw [Text.unescape_escaped hopen hfirst, ih ?_ hmore, List.dropLast_concat]
    intro hmem
    exact hopen (List.mem_of_getLast? hmem)
  | case3 offset lead s before rest hcut hescaped => cases h

end Literal

/-! ## Lines -/

namespace LineCounter

/-- the counter gives the line of its position -/
def Counts (source : Text) (c : LineCounter) : Prop :=
  ∃ p : Nat, c.offset = p ∧ c.line = 1 + Text.lineFeeds (source.take p)

theorem before_natCast (source : Text) (p : Nat) : before source p = p := by
  have hp : ¬ (p : Int) < 0 := by omega
  simp only [before, hp, if_false]
  rfl

theorem counts_start (source : Text) : start.Counts source := ⟨0, rfl, rfl⟩

/-- **Lines are counted from wherever the counter stood.** -/
theorem counts_moveTo {source : Text} {c : LineCounter} (h : c.Counts source) (p : Nat) :
    (c.moveTo source p).Counts source ∧ (c.moveTo source p).line = 1 + Text.lineFeeds (source.take p) := by
  have hline : (c.moveTo source p).line = 1 + Text.lineFeeds (source.take p) := by
    obtain ⟨q, hq, hcount⟩ := h
    by_cases hback : p < q
    · have hstart : before source start.offset = 0 := before_natCast source 0
      simp only [moveTo, hq, Int.ofNat_lt, hback, if_true, hstart, before_natCast]
      simp [start]
    · have hsplit : source.take p = source.take q ++ (source.drop q).take (p - q) := by
        rw [← List.take_add, Nat.add_sub_cancel' (Nat.le_of_not_lt hback)]
      simp only [moveTo, hq, Int.ofNat_lt, hback, if_false, before_natCast, hcount]
      rw [hsplit, Text.lineFeeds, Text.lineFeeds, Text.lineFeeds, List.count_append, Nat.add_assoc]
  exact ⟨⟨p, rfl, hline⟩, hline⟩

end LineCounter

/-! ## Reading tokens off the pieces -/

open Delimiter (Chunk)

namespace Delimiter.Chunk

/-- the piece is a directive that no backslash escapes -/
def isDirective : Chunk → Bool
  | directive _ => true
  | _ => false

/-- what a piece adds to the literal text that it stands in -/
def shown (opening closing : Text) : Chunk → Text
  | plain t => t
  | escaped body => opening ++ body ++ closing
  | directive _ => []
  | tail t => Text.unescape opening t

end Delimiter.Chunk

section Reads

variable (s : Settings) (classify : Text → TokenKind)

/-- how much of the text the pieces take -/
def extent (cs : List Chunk) : Nat := (cs.flatMap (Chunk.source s.opening s.closing)).length

/-- the token of a directive: its body without the blanks around it, a comment's also without its mark -/
structure Token.OfDirective (body : Text) (t : Token) : Prop where
  closed : ¬ s.opening <:+: body
  nonblank : Text.strip body ≠ []
  kind : t.kind = classify (Text.strip body)
  kind_ne : t.kind ≠ .literal
  raw : t.raw = if t.kind = .comment then Text.strip ((Text.strip body).drop s.comment.length) else Text.strip body

/-- the token of literal text: that of all its pieces -/
structure Token.OfLiteral (run : List Chunk) (t : Token) : Prop where
  run_ne : run ≠ []
  literal : ∀ c ∈ run, c.isDirective = false
  kind : t.kind = .literal
  raw : t.raw = run.flatMap (Chunk.shown s.opening s.closing)

/-- **The tokens of a list of pieces.** Every directive is one token, and so is every run of other pieces that begins
at a directive's end or with the first piece; each is at the place where its pieces begin. -/
inductive Reads : List Chunk → List Token → Prop where
  | nothing : Reads [] []
  | directive {cs : List Chunk} {ts : List Token} {body : Text} {t : Token} :
      Reads cs ts → t.OfDirective s classify body → t.position = extent s cs →
      Reads (cs ++ [.directive body]) (ts ++ [t])
  | literal {cs run : List Chunk} {ts : List Token} {t : Token} :
      Reads cs ts → (∀ c ∈ cs.getLast?, c.isDirective = true) → t.OfLiteral s run → t.position = extent s cs →
      Reads (cs ++ run) (ts ++ [t])

variable {s classify}

namespace Reads

variable {cs : List Chunk} {ts : List Token}

/-- the run of a literal token that is the last one -/
theorem run_of_literal {t : Token} (h : Reads s classify cs (ts ++ [t])) (hk : t.kind = .literal) :
    ∃ cs' run, cs = cs' ++ run ∧ Reads s classify cs' ts ∧ (∀ c ∈ cs'.getLast?, c.isDirective = true) ∧
      t.OfLiteral s run ∧ t.position = extent s cs' := by
  generalize hts : ts ++ [t] = us at h
  cases h with
  | nothing => simp at hts
  | directive hr ht hp =>
    obtain ⟨rfl, rfl⟩ := List.append_inj' hts rfl |>.imp_right List.singleton_inj.1
    exact absurd hk ht.kind_ne
  | literal hr hlast ht hp =>
    obtain ⟨rfl, rfl⟩ := List.append_inj' hts rfl |>.imp_right List.singleton_inj.1
    exact ⟨_, _, rfl, hr, hlast, ht, hp⟩

/-- without a literal token at the end the last piece is a directive -/
theorem directive_of_last (h : Reads s classify cs ts) (hk : ∀ t ∈ ts.getLast?, t.kind ≠ .literal) :
    ∀ c ∈ cs.getLast?, c.isDirective = true := by
  cases h with
  | nothing => simp
  | directive hr ht hp => simp [Chunk.isDirective]
  | literal hr hlast ht hp => exact absurd ht.kind (hk _ (by simp))

/-- behind a directive the last token is not literal -/
theorem last_of_directive (h : Reads s classify cs ts) (hc : ∀ c ∈ cs.getLast?, c.isDirective = true) :
    ∀ t ∈ ts.getLast?, t.kind ≠ .literal := by
  cases h with
  | nothing => simp
  | directive hr ht hp => simpa using ht.kind_ne
  | literal hr hlast ht hp =>
    rename_i cs run ts t
    have hrun := List.getLast?_eq_some_getLast ht.run_ne
    have hdirective := hc _ (by rw [List.getLast?_append, hrun]; rfl)
    rw [ht.literal _ (List.getLast_mem ht.run_ne)] at hdirective
    cases hdirective

/-- there are tokens exactly if there are pieces -/
theorem eq_nil_iff (h : Reads s classify cs ts) : cs = [] ↔ ts = [] := by
  cases h with
  | nothing => simp
  | directive hr ht hp => simp
  | literal hr hlast ht hp => simp [ht.run_ne]

/-- the last token of pieces that end with a directive -/
theorem last_directive {body : Text} (h : Reads s classify (cs ++ [.directive body]) ts) :
    ∃ ts' t, ts = ts' ++ [t] ∧ Reads s classify cs ts' ∧ t.OfDirective s classify body ∧ t.position = extent s cs := by
  generalize hcs : cs ++ [.directive body] = ds at h
  cases h with
  | nothing => simp at hcs
  | directive hr ht hp =>
    obtain ⟨rfl, hlast⟩ := List.append_inj' hcs rfl
    cases hlast
    exact ⟨_, _, rfl, hr, ht, hp⟩
  | literal hr hlast ht hp =>
    rename_i cs' run ts t
    have hmem : .directive body ∈ run := by
      have hrun := List.getLast?_eq_some_getLast ht.run_ne
      have hboth := congrArg List.getLast? hcs
      rw [List.getLast?_append, List.getLast?_append, hrun] at hboth
      simp only [List.getLast?_singleton, Option.some_or, Option.some.injEq] at hboth
      rw [hboth]
      exact List.getLast_mem ht.run_ne
    cases ht.literal _ hmem

/-- pieces without a directive are one literal token, or none -/
theorem of_literal (h : Reads s classify cs ts) (hc : ∀ c ∈ cs, c.isDirective = false) :
    ts = [] ∨ ∃ t, ts = [t] ∧ t.OfLiteral s cs ∧ t.position = 0 := by
  cases h with
  | nothing => exact .inl rfl
  | directive hr ht hp =>
    rename_i cs ts body t
    cases hc (.directive body) (by simp)
  | literal hr hlast ht hp =>
    rename_i cs run ts t
    have hnil : cs = [] := by
      rcases List.eq_nil_or_concat cs with rfl | ⟨cs, c, rfl⟩
      · rfl
      · have hdirective := hlast c (by simp)
        rw [hc c (by simp)] at hdirective
        cases hdirective
    subst hnil
    rw [hr.eq_nil_iff.1 rfl]
    exact .inr ⟨t, rfl, ht, hp⟩

/-- the pieces of a text take at least a character each -/
theorem source_ne_nil {c : Chunk} (h : c.Proper s.opening s.closing) : c.source s.opening s.closing ≠ [] := by
  cases c with
  | plain t => exact h.1
  | escaped body => simp [Chunk.source]
  | directive body => simp [Chunk.source, s.opening_ne]
  | tail t => exact h.1

theorem shown_ne_nil (hopen : '\\' ∉ s.opening) {c : Chunk} (h : c.Proper s.opening s.closing)
    (hc : c.isDirective = false) : c.shown s.opening s.closing ≠ [] := by
  cases c with
  | plain t => exact h.1
  | escaped body => simp [Chunk.shown, s.opening_ne]
  | directive body => cases hc
  | tail t => exact Text.unescape_ne_nil s.opening_ne hopen h.1

theorem extent_lt (cs : List Chunk) {run : List Chunk} (ne : run ≠ [])
    (hrun : ∀ c ∈ run, c.Proper s.opening s.closing) : extent s cs < extent s (cs ++ run) := by
  obtain ⟨c, run, rfl⟩ := List.exists_cons_of_ne_nil ne
  have hpos : 0 < (c.source s.opening s.closing).length :=
    List.length_pos_iff.2 (source_ne_nil (hrun c List.mem_cons_self))
  simp only [extent, List.flatMap_append, List.flatMap_cons, List.length_append]
  omega

/-- the tokens begin one after the other, in the text that was scanned -/
theorem positions (h : Reads s classify cs ts) (hproper : ∀ c ∈ cs, c.Proper s.opening s.closing) :
    ts.Pairwise (fun t u => t.position < u.position) ∧ ∀ t ∈ ts, t.position < extent s cs := by
  have hsnoc {cs run : List Chunk} {ts : List Token} {t : Token} (hp : t.position = extent s cs) (ne : run ≠ [])
      (hproper : ∀ c ∈ cs ++ run, c.Proper s.opening s.closing)
      (ih : ts.Pairwise (fun t u => t.position < u.position) ∧ ∀ t ∈ ts, t.position < extent s cs) :
      (ts ++ [t]).Pairwise (fun t u => t.position < u.position) ∧
        ∀ u ∈ ts ++ [t], u.position < extent s (cs ++ run) := by
    have hlt := extent_lt cs ne (fun c hc => hproper c (by simp [hc]))
    refine ⟨List.pairwise_append.2 ⟨ih.1, List.pairwise_singleton _ t, ?_⟩, ?_⟩
    · intro u hu v hv
      rw [List.mem_singleton.1 hv, hp]
      exact ih.2 u hu
    · intro u hu
      rcases List.mem_append.1 hu with hu | hu
      · exact (ih.2 u hu).trans hlt
      · rw [List.mem_singleton.1 hu, hp]
        exact hlt
  induction h with
  | nothing => exact ⟨.nil, by simp⟩
  | directive hr ht hp ih => exact hsnoc hp (by simp) hproper (ih fun c hc => hproper c (by simp [hc]))
  | literal hr hlast ht hp ih => exact hsnoc hp ht.run_ne hproper (ih fun c hc => hproper c (by simp [hc]))

/-- no literal token is empty -/
theorem raw_ne_nil (hopen : '\\' ∉ s.opening) (h : Reads s classify cs ts)
    (hproper : ∀ c ∈ cs, c.Proper s.opening s.closing) : ∀ t ∈ ts, t.kind = .literal → t.raw ≠ [] := by
  induction h with
  | nothing => simp
  | directive hr ht hp ih =>
    intro u hu hk
    rcases List.mem_append.1 hu with hu | hu
    · exact ih (fun c hc => hproper c (by simp [hc])) u hu hk
    · rw [List.mem_singleton.1 hu] at hk
      exact absurd hk ht.kind_ne
  | literal hr hlast ht hp ih =>
    rename_i cs run ts t
    intro u hu hk
    rcases List.mem_append.1 hu with hu | hu
    · exact ih (fun c hc => hproper c (by simp [hc])) u hu hk
    · obtain ⟨c, run, rfl⟩ := List.exists_cons_of_ne_nil ht.run_ne
      rw [List.mem_singleton.1 hu, ht.raw, List.flatMap_cons]
      have hc := shown_ne_nil hopen (hproper c (by simp)) (ht.literal c List.mem_cons_self)
      simp [hc]

/-- no two literal tokens stand side by side -/
theorem separated (h : Reads s classify cs ts) :
    ts.IsChain (fun t u => ¬ (t.kind = .literal ∧ u.kind = .literal)) := by
  induction h with
  | nothing => exact .nil
  | directive hr ht hp ih =>
    refine List.isChain_append.2 ⟨ih, .singleton _, ?_⟩
    rintro t - u hu ⟨-, hk⟩
    cases hu
    exact ht.kind_ne hk
  | literal hr hlast ht hp ih =>
    refine List.isChain_append.2 ⟨ih, .singleton _, ?_⟩
    rintro t hmem u - ⟨hk, -⟩
    exact hr.last_of_directive hlast t hmem hk

end Reads

end Reads

/-! ## Scanning -/

namespace Scan

variable {s : Settings} {classify : Text → TokenKind} {source : Text}

/-- **What a scan has found** after some pieces: their tokens, on the lines where they stand. -/
structure Sound (s : Settings) (classify : Text → TokenKind) (source : Text) (cs : List Chunk) (st : Scan) : Prop where
  reads : Reads s classify cs st.tokens.reverse
  counter : st.counter.Counts source
  lines : ∀ t ∈ st.tokens, t.line = 1 + Text.lineFeeds (source.take t.position)

theorem sound_start : Sound s classify source [] .start :=
  ⟨.nothing, LineCounter.counts_start source, by simp [start]⟩

/-- a token behind those found so far -/
def push (source : Text) (kind : TokenKind) (raw : Text) (position : Nat) (st : Scan) : Scan :=
  let counter := st.counter.moveTo source position
  ⟨⟨kind, raw, position, counter.line⟩ :: st.tokens, counter⟩

theorem add_of_ne_literal {kind : TokenKind} (hk : kind ≠ .literal) (raw : Text) (position : Nat) (st : Scan) :
    st.add source kind raw position = st.push source kind raw position := by
  unfold add push
  cases kind <;> first | exact absurd rfl hk | rfl

/-- a directive that is no comment is a token of its own -/
theorem directive_eq_push {body : Text} (hopen : ¬ s.opening <:+: body) (hstrip : Text.strip body ≠ [])
    (hcomment : classify (Text.strip body) ≠ .comment) (hliteral : classify (Text.strip body) ≠ .literal)
    (position : Nat) (st : Scan) :
    st.directive s classify source body position =
      .ok (st.push source (classify (Text.strip body)) (Text.strip body) position) := by
  rw [directive, if_neg (by rwa [Text.holds_iff])]
  simp only [List.isEmpty_iff, hstrip, if_false]
  rw [add_of_ne_literal hliteral]

theorem add_literal {raw : Text} (hraw : raw ≠ []) (position : Nat) {st : Scan}
    (hlast : ∀ t ∈ st.tokens.head?, t.kind ≠ .literal) :
    st.add source .literal raw position = st.push source .literal raw position := by
  obtain ⟨tokens, counter⟩ := st
  unfold add push
  cases tokens with
  | nil => simp [hraw]
  | cons t before =>
    have hk : t.kind ≠ .literal := hlast t (by simp)
    simp [hraw, hk]

theorem add_joined {raw : Text} (hraw : raw ≠ []) (position : Nat) {st : Scan} {last : Token} {before : List Token}
    (htokens : st.tokens = last :: before) (hk : last.kind = .literal) :
    st.add source .literal raw position =
      ⟨{ last with raw := last.raw ++ raw } :: before, st.counter.moveTo source position⟩ := by
  unfold add
  simp [hraw, htokens, hk]

theorem sound_push {cs : List Chunk} {st : Scan} {c : Chunk} {raw : Text} {kind : TokenKind}
    (h : Sound s classify source cs st)
    (hreads : ∀ t : Token, t.kind = kind → t.raw = raw → t.position = extent s cs →
      Reads s classify (cs ++ [c]) (st.tokens.reverse ++ [t])) :
    Sound s classify source (cs ++ [c]) (st.push source kind raw (extent s cs)) := by
  obtain ⟨hcounter, hline⟩ := LineCounter.counts_moveTo h.counter (extent s cs)
  refine ⟨?_, hcounter, ?_⟩
  · rw [push, List.reverse_cons]
    exact hreads _ rfl rfl rfl
  · intro t ht
    rcases List.mem_cons.1 ht with rfl | ht
    · exact hline
    · exact h.lines t ht

/-- literal text makes a literal token before it longer, or is a token more -/
theorem sound_add_literal {cs : List Chunk} {st : Scan} {c : Chunk} (h : Sound s classify source cs st)
    (hc : c.isDirective = false) (hne : c.shown s.opening s.closing ≠ []) :
    Sound s classify source (cs ++ [c]) (st.add source .literal (c.shown s.opening s.closing) (extent s cs)) := by
  by_cases hlast : ∀ t ∈ st.tokens.head?, t.kind ≠ .literal
  · rw [add_literal hne _ hlast]
    refine sound_push h fun t hkind hraw hposition => ?_
    refine .literal h.reads (h.reads.directive_of_last (by simpa using hlast)) ?_ hposition
    exact ⟨by simp, by simpa using hc, hkind, by simpa using hraw⟩
  · obtain ⟨last, before, htokens, hk⟩ : ∃ last before, st.tokens = last :: before ∧ last.kind = .literal := by
      cases htokens : st.tokens with
      | nil => simp [htokens] at hlast
      | cons last before => exact ⟨last, before, rfl, by simpa [htokens] using hlast⟩
    have hreads := h.reads
    rw [htokens, List.reverse_cons] at hreads
    obtain ⟨cs, run, rfl, hr, hdirective, ht, hp⟩ := hreads.run_of_literal hk
    rw [add_joined hne _ htokens hk]
    refine ⟨?_, (LineCounter.counts_moveTo h.counter _).1, ?_⟩
    · rw [List.reverse_cons, List.append_assoc]
      refine .literal hr hdirective ⟨by simp, ?_, hk, ?_⟩ hp
      · intro d hd
        rcases List.mem_append.1 hd with hd | hd
        · exact ht.literal d hd
        · rw [List.mem_singleton.1 hd]
          exact hc
      · simp [ht.raw]
    · intro t hmem
      rcases List.mem_cons.1 hmem with rfl | hmem
      · exact h.lines last (by simp [htokens])
      · exact h.lines t (by simp [htokens, hmem])

/-- **One piece more** is read as `Reads` says. -/
theorem sound_chunk (hclass : ∀ raw, classify raw ≠ .literal) (hopen : '\\' ∉ s.opening) {cs : List Chunk}
    {st st' : Scan} {c : Chunk} (h : Sound s classify source cs st) (hc : c.Proper s.opening s.closing)
    (hstep : st.chunk s classify source (extent s cs) c = .ok st') : Sound s classify source (cs ++ [c]) st' := by
  have hliteral {text : Text} (hstep : st.literal s source text (extent s cs) = .ok st') :
      st' = st.add source .literal (Text.unescape s.opening text) (extent s cs) := by
    unfold literal at hstep
    split at hstep
    · rename_i t ht
      cases hstep
      rw [literalFrom_eq_unescape hopen (by simp) ht]
    · cases hstep
  cases c with
  | plain text =>
    have hshown : Text.unescape s.opening text = text := Text.unescape_of_not_infix hc.2
    rw [hliteral hstep, hshown]
    exact sound_add_literal h rfl hc.1
  | escaped body =>
    cases hstep
    refine sound_add_literal h (c := .escaped body) rfl ?_
    simp [Chunk.shown, s.opening_ne]
  | tail text =>
    rw [hliteral hstep]
    exact sound_add_literal h (c := .tail text) rfl (Text.unescape_ne_nil s.opening_ne hopen hc.1)
  | directive body =>
    simp only [chunk, directive] at hstep
    split at hstep
    · cases hstep
    · rename_i hholds
      rw [Text.holds_iff] at hholds
      split at hstep
      · cases hstep
      · rename_i hblank
        have hnonblank : Text.strip body ≠ [] := by simpa using hblank
        split at hstep
        · rename_i hcomment
          cases hstep
          rw [add_of_ne_literal (by decide)]
          refine sound_push h fun t hkind hraw hposition => .directive h.reads ⟨hholds, hnonblank, ?_, ?_, ?_⟩ hposition
          · rw [hkind, hcomment]
          · rw [hkind]
            decide
          · rw [hraw, if_pos hkind]
        · rename_i kind hcomment
          cases hstep
          rw [add_of_ne_literal (hclass _)]
          refine sound_push h fun t hkind hraw hposition =>
            .directive h.reads ⟨hholds, hnonblank, hkind, ?_, ?_⟩ hposition
          · rw [hkind]
            exact hclass _
          · rw [hraw, if_neg (fun hc => hcomment (hkind.symm.trans hc))]

/-- **All pieces** are read as `Reads` says. -/
theorem sound_run (hclass : ∀ raw, classify raw ≠ .literal) (hopen : '\\' ∉ s.opening) {cs rest : List Chunk}
    {st st' : Scan} (h : Sound s classify source cs st) (hrest : ∀ c ∈ rest, c.Proper s.opening s.closing)
    (hrun : run s classify source (extent s cs) st rest = .ok st') : Sound s classify source (cs ++ rest) st' := by
  induction rest generalizing cs st with
  | nil =>
    cases hrun
    simpa using h
  | cons c rest ih =>
    rw [run] at hrun
    split at hrun
    · rename_i st₁ hstep
      have hone := sound_chunk hclass hopen h (hrest c (by simp)) hstep
      have hextent : extent s cs + (c.source s.opening s.closing).length = extent s (cs ++ [c]) := by simp [extent]
      rw [hextent] at hrun
      simpa using ih hone (fun d hd => hrest d (by simp [hd])) hrun
    · cases hrun

end Scan

theorem classify_ne_literal (comment raw : Text) : (Registry.standard comment).classify raw ≠ .literal := by
  have hspecs : ∀ e ∈ (Registry.standard comment).specs, e.2.kind ≠ .literal := by
    rw [Registry.specs_standard]
    decide
  unfold Registry.classify
  split
  · decide
  · split
    · rename_i spec hspec
      obtain ⟨e, he, rfl⟩ := Registry.mem_of_match? hspec
      exact hspecs e he
    · split <;> decide

/-- a text that scans, by its pieces: their tokens, each on the line where it stands -/
theorem reads_of_scan {s : Settings} {classify : Text → TokenKind} (hclass : ∀ raw, classify raw ≠ .literal)
    (hopen : '\\' ∉ s.opening) {source : Text} {ts : List Token} (h : scan s classify source = .ok ts) :
    Reads s classify (Delimiter.chunks s.opening s.closing s.opening_ne source) ts ∧
      ∀ t ∈ ts, t.line = 1 + Text.lineFeeds (source.take t.position) := by
  obtain ⟨st, hst, rfl⟩ := map_eq_ok.1 h
  have hsound := Scan.sound_run hclass hopen Scan.sound_start (Delimiter.proper_chunks s.opening_ne hopen source) hst
  exact ⟨hsound.reads, fun t ht => hsound.lines t (List.mem_reverse.1 ht)⟩

/-- **Scanning loses nothing and doubles nothing.** The pieces of a template that scans are the template, and its
tokens are read off them: one for each directive, with its body, and one for all the literal text between two, which
lacks but the backslashes of escaped opening marks. Every token is at its place, on its line, and behind the tokens
before it. -/
theorem scan_lossless (s : Settings) (comment source : Text) (ts : List Token) (hopen : '\\' ∉ s.opening)
    (h : scan s (Registry.standard comment).classify source = .ok ts) :
    let cs := Delimiter.chunks s.opening s.closing s.opening_ne source
    cs.flatMap (Chunk.source s.opening s.closing) = source ∧
    (∀ c ∈ cs, c.Proper s.opening s.closing) ∧ cs.IsChain Chunk.Before ∧
    Reads s (Registry.standard comment).classify cs ts ∧
    (∀ t ∈ ts, t.kind = .literal → t.raw ≠ []) ∧
    ts.IsChain (fun t u => ¬ (t.kind = .literal ∧ u.kind = .literal)) ∧
    ts.Pairwise (fun t u => t.position < u.position) ∧
    ∀ t ∈ ts, t.line = 1 + Text.lineFeeds (source.take t.position) := by
  intro cs
  have hproper : ∀ c ∈ cs, c.Proper s.opening s.closing := Delimiter.proper_chunks s.opening_ne hopen source
  obtain ⟨hreads, hlines⟩ := reads_of_scan (classify_ne_literal comment) hopen h
  refine ⟨Delimiter.source_chunks _ _ _ source, hproper, Delimiter.chunks_chain _ hopen source, hreads, ?_, ?_, ?_,
    hlines⟩
  · exact hreads.raw_ne_nil hopen hproper
  · exact hreads.separated
  · exact (hreads.positions hproper).1

/-- two escapes, a directive and a comment: of the tail only the backslash goes -/
theorem scan_escapes :
    let source : Text := "a\n\\\x7b\x7b b \x7d\x7d\x7b\x7b c \x7d\x7d\x7b\x7b# d \x7d\x7d\\\x7b\x7b"
    let ts : List Token := [⟨.literal, "a\n\x7b\x7b b \x7d\x7d", 0, 1⟩, ⟨.interpolation, "c", 10, 2⟩,
      ⟨.comment, "d", 17, 2⟩, ⟨.literal, "\x7b\x7b", 25, 2⟩]
    let cs := Delimiter.chunks ['\x7b', '\x7b'] ['\x7d', '\x7d'] (by decide) source
    '\\' ∉ Settings.standard.opening ∧
    scan .standard (Registry.standard ['#']).classify source = .ok ts ∧
    cs.flatMap (Chunk.source ['\x7b', '\x7b'] ['\x7d', '\x7d']) = source ∧
    Reads .standard (Registry.standard ['#']).classify cs ts := by
  intro source ts cs
  have hopen : '\\' ∉ Settings.standard.opening := by decide
  have hscan : scan .standard (Registry.standard ['#']).classify source = .ok ts :=
    eq_ok_of_toOption (by decide +kernel)
  obtain ⟨hsource, -, -, hreads, -⟩ := scan_lossless .standard ['#'] source ts hopen hscan
  exact ⟨hopen, hscan, hsource, hreads⟩

end Stencil
