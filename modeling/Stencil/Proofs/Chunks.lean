/-
THE PIECES OF A TEMPLATE. `Delimiter.chunks` divides a text into plain text, escaped directives, directives and the
text after the last of them. Here it is said which division that is: every search of the scanner finds the first
place there is, and a directive is the first one that begins in what is left of the text.

- `Text.FirstAfter`: a mark that is put behind a text stands there for the first time.
- `Text.cut?_eq_some_iff`, `Text.holds_iff`: `cut?` finds the first place of a mark, `holds` tells if there is one.
- `Delimiter.find?_eq_some_iff`: what is found is the first directive, with its backslash if it has one.
- `Chunk.Proper`, `Chunk.Follows`: what a piece is, and which pieces stand side by side.
- `Delimiter.proper_chunks`, `Delimiter.chunks_chain`: the pieces of every text are such.

Only one thing is asked of the marks: the opening one holds no backslash, so that a backslash before it is none of
its own characters.
-/
import Mathlib.Data.List.Chain
import Stencil.Token.Delimiter

namespace Stencil

namespace Text

/-- the mark, put behind the text, stands there for the first time -/
def FirstAfter (mark before : Text) : Prop := ∀ a b, before ++ mark = a ++ mark ++ b → b = []

/-- a mark is taken off exactly where it stands in front -/
theorem after?_eq_some_iff {mark s rest : Text} : after? mark s = some rest ↔ s = mark ++ rest := by
  refine ⟨eq_of_after?, ?_⟩
  rintro rfl
  induction mark with
  | nil => rfl
  | cons p ps ih => simpa [after?] using ih

theorem firstAfter_nil (mark : Text) : FirstAfter mark [] := by
  intro a b h
  have hlen := congrArg List.length h
  simp only [List.nil_append, List.length_append] at hlen
  exact List.eq_nil_of_length_eq_zero (by omega)

/-- if a mark stands for the first time behind a text, it does so behind the text without its first character -/
theorem FirstAfter.tail {mark before : Text} {c : Char} (h : FirstAfter mark (c :: before)) :
    FirstAfter mark before := by
  intro a b hab
  exact h (c :: a) b (by simp [hab])

/-- a mark that stands for the first time behind a text with one character more does not stand in front -/
theorem FirstAfter.not_front {mark before s r : Text} {c : Char} (h : FirstAfter mark (c :: before)) :
    c :: before ++ mark ++ s ≠ mark ++ r := by
  intro heq
  have hfront : mark <+: c :: before ++ mark := by
    refine List.prefix_of_prefix_length_le ⟨r, heq.symm⟩ (List.prefix_append _ s) ?_
    simp only [List.length_append]
    omega
  obtain ⟨b, hb⟩ := hfront
  have hnil : b = [] := h [] b (by simpa using hb.symm)
  have hlen := congrArg List.length hb
  simp only [hnil, List.append_nil, List.length_append, List.length_cons] at hlen
  omega

/-- behind a character with which the mark does not begin, a mark stands for the first time if it does without it -/
theorem FirstAfter.cons {mark before : Text} {c : Char} (h : FirstAfter mark before)
    (hfront : ∀ b, c :: before ++ mark ≠ mark ++ b) : FirstAfter mark (c :: before) := by
  intro a b hab
  cases a with
  | nil => exact absurd hab (hfront b)
  | cons d a =>
    simp only [List.cons_append, List.cons.injEq] at hab
    exact h a b hab.2

/-- **A text is divided at the first place of the mark.** -/
theorem cut?_eq_some_iff {mark s before rest : Text} :
    cut? mark s = some (before, rest) ↔ s = before ++ mark ++ rest ∧ FirstAfter mark before := by
  constructor
  · intro h
    refine ⟨eq_of_cut? h, ?_⟩
    induction s generalizing before with
    | nil =>
      simp only [cut?, Option.map_eq_some_iff, Prod.mk.injEq] at h
      obtain ⟨_, -, rfl, -⟩ := h
      exact firstAfter_nil mark
    | cons c cs ih =>
      simp only [cut?] at h
      split at h
      · cases h
        exact firstAfter_nil mark
      · rename_i hnone
        simp only [Option.map_eq_some_iff, Prod.mk.injEq] at h
        obtain ⟨⟨b, r⟩, hcut, rfl, rfl⟩ := h
        refine (ih hcut).cons fun x hx => ?_
        have hafter : after? mark (c :: cs) = some (x ++ r) := by
          rw [after?_eq_some_iff, eq_of_cut? hcut, ← List.append_assoc, ← hx]
          simp
        rw [hafter] at hnone
        cases hnone
  · rintro ⟨rfl, h⟩
    induction before with
    | nil =>
      cases hs : mark ++ rest with
      | nil =>
        obtain ⟨rfl, rfl⟩ := List.append_eq_nil_iff.1 hs
        rfl
      | cons c cs => simp [cut?, hs, after?_eq_some_iff.2 hs.symm]
    | cons c before ih =>
      have hnone : after? mark (c :: (before ++ mark ++ rest)) = none := by
        cases hafter : after? mark (c :: (before ++ mark ++ rest)) with
        | none => rfl
        | some r => exact absurd (after?_eq_some_iff.1 hafter) (by simpa using h.not_front)
      simp only [List.cons_append, cut?, hnone, ih h.tail, Option.map_some]

theorem cut?_append {mark before : Text} (h : FirstAfter mark before) (rest : Text) :
    cut? mark (before ++ mark ++ rest) = some (before, rest) :=
  cut?_eq_some_iff.2 ⟨rfl, h⟩

/-- a text that is not divided does not hold the mark -/
theorem cut?_eq_none_iff {mark s : Text} : cut? mark s = none ↔ ¬ mark <:+: s := by
  constructor
  · rintro h ⟨a, b, hab⟩
    induction s generalizing a with
    | nil =>
      simp only [List.append_eq_nil_iff] at hab
      obtain ⟨⟨-, rfl⟩, -⟩ := hab
      cases h
    | cons c cs ih =>
      simp only [cut?] at h
      split at h
      · cases h
      · rename_i hnone
        cases a with
        | nil =>
          have hafter : after? mark (c :: cs) = some b := after?_eq_some_iff.2 (by simpa using hab.symm)
          rw [hafter] at hnone
          cases hnone
        | cons d a =>
          simp only [List.cons_append, List.cons.injEq] at hab
          exact ih (Option.map_eq_none_iff.1 h) a hab.2
  · intro h
    cases hcut : cut? mark s with
    | none => rfl
    | some p =>
      obtain ⟨before, rest⟩ := p
      exact absurd ⟨before, rest, (eq_of_cut? hcut).symm⟩ h

/-- `holds` tells if a mark stands anywhere in a text -/
theorem holds_iff {mark s : Text} : holds mark s = true ↔ mark <:+: s := by
  rw [holds, Option.isSome_iff_ne_none, ne_eq, cut?_eq_none_iff, Classical.not_not]

theorem holds_eq_false_iff {mark s : Text} : holds mark s = false ↔ ¬ mark <:+: s := by
  rw [← Bool.not_eq_true, holds_iff]

/-- behind a text that does not hold it a mark stands for the first time, unless the two overlap -/
theorem FirstAfter.not_infix {mark before : Text} (ne : mark ≠ []) (h : FirstAfter mark before) :
    ¬ mark <:+: before := by
  rintro ⟨a, b, rfl⟩
  have hnil := h a (b ++ mark) (by simp)
  exact ne (List.append_eq_nil_iff.1 hnil).2

/-- a character that is not in a mark keeps it from standing across -/
theorem infix_append_cons {mark : Text} {c : Char} (ne : mark ≠ []) (hc : c ∉ mark) (u v : Text) :
    mark <:+: u ++ c :: v ↔ mark <:+: u ∨ mark <:+: v := by
  have hfront : ¬ mark <+: c :: v := by
    rw [List.prefix_cons_iff]
    rintro (hnil | ⟨t, rfl, -⟩)
    · exact ne hnil
    · exact hc List.mem_cons_self
  rw [List.infix_append_iff_ne_nil, List.infix_cons_iff]
  constructor
  · rintro (hu | (hfront' | hv) | ⟨l₁, l₂, -, hl₂, rfl, -, hpre⟩)
    · exact .inl hu
    · exact absurd hfront' hfront
    · exact .inr hv
    · rcases List.prefix_cons_iff.1 hpre with hnil | ⟨t, rfl, -⟩
      · exact absurd hnil hl₂
      · exact absurd (List.mem_append_right l₁ List.mem_cons_self) hc
  · rintro (hu | hv)
    · exact .inl hu
    · exact .inr (.inl (.inr hv))

/-- a mark stands for the first time behind a text if it does not stand earlier, without its last character too -/
theorem firstAfter_iff {mark : Text} (ne : mark ≠ []) {before : Text} :
    FirstAfter mark before ↔ ¬ mark <:+: before ++ mark.dropLast := by
  have hmark : before ++ mark = before ++ mark.dropLast ++ [mark.getLast ne] := by
    rw [List.append_assoc, List.dropLast_concat_getLast]
  constructor
  · rintro h ⟨a, b, hab⟩
    have hnil := h a (b ++ [mark.getLast ne]) (by rw [hmark, ← List.append_assoc, hab])
    exact absurd (congrArg List.length hnil) (by simp)
  · intro h a b hab
    rcases List.eq_nil_or_concat b with rfl | ⟨b, z, rfl⟩
    · rfl
    · refine absurd ⟨a, b, ?_⟩ h
      have hlast : a ++ mark ++ b ++ [z] = before ++ mark.dropLast ++ [mark.getLast ne] := by
        rw [← hmark, hab]
        simp
      exact (List.append_inj' hlast rfl).1

/-- behind a text without the mark and a character that is not in it, the rest alone decides -/
theorem firstAfter_append_cons {mark : Text} {c : Char} (ne : mark ≠ []) (hc : c ∉ mark) {u v : Text} :
    FirstAfter mark (u ++ c :: v) ↔ ¬ mark <:+: u ∧ FirstAfter mark v := by
  rw [firstAfter_iff ne, firstAfter_iff ne, List.append_assoc, List.cons_append, infix_append_cons ne hc, not_or]

theorem FirstAfter.of_append {mark u v : Text} (h : FirstAfter mark (u ++ v)) : FirstAfter mark v := by
  intro a b hab
  exact h (u ++ a) b (by rw [List.append_assoc, hab]; simp)

end Text

namespace Delimiter

open Text

variable {opening closing : Text}

/-- a directive stands in front of a text exactly if the text begins so -/
theorem bodyAt?_eq_some_iff {s body rest : Text} :
    bodyAt? opening closing s = some (body, rest) ↔
      s = opening ++ body ++ closing ++ rest ∧ FirstAfter closing body := by
  simp only [bodyAt?, Option.bind_eq_some_iff, after?_eq_some_iff, cut?_eq_some_iff]
  constructor
  · rintro ⟨_, rfl, rfl, h⟩
    exact ⟨by simp, h⟩
  · rintro ⟨rfl, h⟩
    exact ⟨_, by simp, rfl, h⟩

/-- no directive stands in front of a text exactly if no closing mark follows an opening one -/
theorem bodyAt?_eq_none_iff {s : Text} :
    bodyAt? opening closing s = none ↔ ∀ body rest, s ≠ opening ++ body ++ closing ++ rest := by
  constructor
  · rintro h body rest rfl
    rw [bodyAt?, after?_eq_some_iff.2 (show _ = opening ++ (body ++ closing ++ rest) by simp), Option.bind_some,
      cut?_eq_none_iff] at h
    exact h ⟨body, rest, rfl⟩
  · intro h
    cases hbody : bodyAt? opening closing s with
    | none => rfl
    | some p =>
      obtain ⟨body, rest⟩ := p
      exact absurd (bodyAt?_eq_some_iff.1 hbody).1 (h body rest)

/-- the backslash of an escaped directive -/
def Match.escape (m : Match) : Text := if m.escaped then ['\\'] else []

/-- what is found is the first directive: no opening mark begins before it, and it is escaped if it can be -/
structure Match.First (opening closing : Text) (m : Match) : Prop where
  closes : FirstAfter closing m.body
  opens : FirstAfter opening (m.before ++ m.escape)
  escapes : m.escaped = false → m.before.getLast? ≠ some '\\'

theorem firstAfter_backslash (ne : opening ≠ []) (hopen : '\\' ∉ opening) : FirstAfter opening ['\\'] := by
  refine (firstAfter_nil opening).cons fun b hb => ?_
  cases opening with
  | nil => exact ne rfl
  | cons o os =>
    simp only [List.cons_append, List.nil_append, List.cons.injEq] at hb
    rw [hb.1] at hopen
    exact hopen List.mem_cons_self

theorem first_of_find? (ne : opening ≠ []) (hopen : '\\' ∉ opening) {s : Text} {m : Match}
    (h : find? opening closing s = some m) : m.First opening closing := by
  induction s generalizing m with
  | nil => cases h
  | cons c cs ih =>
    simp only [find?] at h
    split at h
    · rename_i body rest hbody
      split at hbody
      · cases h
        exact ⟨(bodyAt?_eq_some_iff.1 hbody).2, by simpa [Match.escape] using firstAfter_backslash ne hopen,
          by simp⟩
      · cases hbody
    · rename_i hunescaped
      split at h
      · rename_i body rest hbody
        cases h
        exact ⟨(bodyAt?_eq_some_iff.1 hbody).2, by simpa [Match.escape] using firstAfter_nil opening, by simp⟩
      · rename_i hnone
        simp only [Option.map_eq_some_iff] at h
        obtain ⟨⟨before, escaped, body, rest⟩, hm, rfl⟩ := h
        have hfirst := ih hm
        have hsource := eq_of_find? hm
        refine ⟨hfirst.closes, ?_, ?_⟩
        · -- an opening mark at the first character would have been found there, since a closing one follows
          have hopens : FirstAfter opening (before ++ if escaped then ['\\'] else []) := hfirst.opens
          refine hopens.cons (c := c) fun b hb => bodyAt?_eq_none_iff.1 hnone (b ++ body) rest ?_
          calc c :: cs = (c :: (before ++ if escaped then ['\\'] else []) ++ opening) ++ body ++ closing ++ rest := by
                rw [hsource]
                simp [Match.source]
            _ = opening ++ (b ++ body) ++ closing ++ rest := by
                rw [hb]
                simp
        · rintro (rfl : escaped = false) hlast
          cases before with
          | nil =>
            simp only [List.getLast?_singleton, Option.some.injEq] at hlast
            simp only [hlast, BEq.rfl, if_true] at hunescaped
            exact bodyAt?_eq_none_iff.1 hunescaped body rest (by simpa [Match.source] using hsource)
          | cons d ds => exact hfirst.escapes rfl (by simpa using hlast)

theorem find?_of_first (ne : opening ≠ []) (hopen : '\\' ∉ opening) {m : Match} (h : m.First opening closing) :
    find? opening closing (m.before ++ m.source opening closing ++ m.rest) = some m := by
  obtain ⟨before, escaped, body, rest⟩ := m
  have hbody : bodyAt? opening closing (opening ++ body ++ closing ++ rest) = some (body, rest) :=
    bodyAt?_eq_some_iff.2 ⟨rfl, h.closes⟩
  induction before with
  | nil =>
    cases escaped with
    | true =>
      simp only [Match.source, List.append_assoc] at hbody ⊢
      simp [find?, hbody]
    | false =>
      cases opening with
      | nil => exact absurd rfl ne
      | cons o os =>
        have ho : o ≠ '\\' := by
          rintro rfl
          exact hopen (by simp)
        simp only [Match.source, List.append_assoc, List.cons_append] at hbody ⊢
        simp [find?, ho, hbody]
  | cons c before ih =>
    have hopens : FirstAfter opening (c :: (before ++ if escaped then ['\\'] else [])) := h.opens
    have hrest : find? opening closing (before ++ Match.source opening closing ⟨before, escaped, body, rest⟩ ++ rest) =
        some ⟨before, escaped, body, rest⟩ := by
      refine ih ⟨h.closes, hopens.tail, ?_⟩
      intro hescaped hlast
      refine h.escapes hescaped ?_
      cases before with
      | nil => cases hlast
      | cons d ds => simpa using hlast
    have hunescaped : (if c == '\\' then
        bodyAt? opening closing (before ++ Match.source opening closing ⟨before, escaped, body, rest⟩ ++ rest)
        else none) = none := by
      by_cases hc : c = '\\'
      · simp only [hc, BEq.rfl, if_true]
        rw [bodyAt?_eq_none_iff]
        intro body' rest' heq
        cases before with
        | nil =>
          cases escaped with
          | true =>
            refine (firstAfter_backslash ne hopen).not_front (s := body ++ closing ++ rest)
              (r := body' ++ closing ++ rest') ?_
            simpa [Match.source] using heq
          | false => exact h.escapes rfl (by simp [hc])
        | cons d ds =>
          refine hopens.tail.not_front (s := body ++ closing ++ rest) (r := body' ++ closing ++ rest') ?_
          simpa [Match.source] using heq
      · simp [hc]
    have hnone : bodyAt? opening closing
        (c :: (before ++ Match.source opening closing ⟨before, escaped, body, rest⟩ ++ rest)) = none := by
      rw [bodyAt?_eq_none_iff]
      intro body' rest' heq
      refine hopens.not_front (s := body ++ closing ++ rest) (r := body' ++ closing ++ rest') ?_
      simpa [Match.source] using heq
    have hsource : Match.source opening closing ⟨c :: before, escaped, body, rest⟩ =
        Match.source opening closing ⟨before, escaped, body, rest⟩ := rfl
    simp only [hsource, List.cons_append, find?, hunescaped, hnone, hrest, Option.map_some]

/-- **The search finds the first directive.** -/
theorem find?_eq_some_iff (ne : opening ≠ []) (hopen : '\\' ∉ opening) {s : Text} {m : Match} :
    find? opening closing s = some m ↔
      s = m.before ++ m.source opening closing ++ m.rest ∧ m.First opening closing := by
  constructor
  · intro h
    exact ⟨eq_of_find? h, first_of_find? ne hopen h⟩
  · rintro ⟨rfl, h⟩
    exact find?_of_first ne hopen h

/-- a text in which nothing is found holds no directive -/
theorem find?_eq_none_iff (ne : opening ≠ []) {s : Text} :
    find? opening closing s = none ↔ ∀ a body rest, s ≠ a ++ opening ++ body ++ closing ++ rest := by
  constructor
  · intro h a body rest heq
    induction s generalizing a with
    | nil => simp_all
    | cons c cs ih =>
      simp only [find?] at h
      split at h
      · cases h
      · split at h
        · cases h
        · rename_i hnone
          cases a with
          | nil => exact bodyAt?_eq_none_iff.1 hnone body rest (by simpa using heq)
          | cons d a =>
            simp only [List.cons_append, List.cons.injEq] at heq
            exact ih (Option.map_eq_none_iff.1 h) a heq.2
  · intro h
    cases hm : find? opening closing s with
    | none => rfl
    | some m =>
      refine absurd (eq_of_find? hm) ?_
      simpa [Match.source, Match.escape] using h (m.before ++ m.escape) m.body m.rest

/-- **A piece** as the division makes it: plain text holds no opening mark, a directive ends at the first closing mark
behind its opening one, and the text behind the last directive holds none. -/
def Chunk.Proper (opening closing : Text) : Chunk → Prop
  | plain t => t ≠ [] ∧ ¬ opening <:+: t
  | escaped body => FirstAfter closing body
  | directive body => FirstAfter closing body
  | tail t => t ≠ [] ∧ ∀ a body rest, t ≠ a ++ opening ++ body ++ closing ++ rest

/-- **Pieces side by side**: plain text goes up to a directive, which has no backslash before it unless that escapes
it, and behind the tail comes nothing. -/
def Chunk.Before : Chunk → Chunk → Prop
  | plain _, plain _ => False
  | plain _, tail _ => False
  | plain t, directive _ => t.getLast? ≠ some '\\'
  | tail _, _ => False
  | _, _ => True

/-- a directive that was found, as a piece -/
def Match.chunk (m : Match) : Chunk := if m.escaped then .escaped m.body else .directive m.body

/-- plain text as a piece, if there is any -/
def plainChunk (t : Text) : List Chunk := if t.isEmpty then [] else [.plain t]

theorem chunks_of_find? (ne : opening ≠ []) {s : Text} {m : Match} (h : find? opening closing s = some m) :
    chunks opening closing ne s = plainChunk m.before ++ m.chunk :: chunks opening closing ne m.rest := by
  rw [chunks]
  split
  · rename_i hnone
    rw [hnone] at h
    cases h
  · rename_i m' hm
    rw [hm] at h
    cases h
    rfl

theorem chunks_of_none (ne : opening ≠ []) {s : Text} (h : find? opening closing s = none) :
    chunks opening closing ne s = if s.isEmpty then [] else [.tail s] := by
  rw [chunks]
  split
  · rfl
  · rename_i m hm
    rw [hm] at h
    cases h

/-- **The pieces of a text are proper.** -/
theorem proper_chunks (ne : opening ≠ []) (hopen : '\\' ∉ opening) (s : Text) :
    ∀ c ∈ chunks opening closing ne s, c.Proper opening closing := by
  fun_induction chunks opening closing ne s with
  | case1 s h he => simp
  | case2 s h he =>
    simp only [List.mem_singleton, forall_eq]
    exact ⟨by simpa using he, (find?_eq_none_iff ne).1 h⟩
  | case3 s m h ih =>
    have hfirst := first_of_find? ne hopen h
    intro c hc
    simp only [List.mem_append, List.mem_cons] at hc
    rcases hc with hc | rfl | hc
    · split at hc
      · cases hc
      · rename_i hbefore
        cases List.mem_singleton.1 hc
        refine ⟨by simpa using hbefore, fun hmark => ?_⟩
        exact hfirst.opens.not_infix ne (hmark.trans (List.prefix_append _ _).isInfix)
    · split <;> exact hfirst.closes
    · exact ih c hc

/-- **The pieces of a text stand side by side as they may.** -/
theorem chunks_chain (ne : opening ≠ []) (hopen : '\\' ∉ opening) (s : Text) :
    (chunks opening closing ne s).IsChain Chunk.Before := by
  fun_induction chunks opening closing ne s with
  | case1 s h he => exact .nil
  | case2 s h he => exact .singleton _
  | case3 s m h ih =>
    have hfirst := first_of_find? ne hopen h
    have hfound : ((if m.escaped then .escaped m.body else .directive m.body) ::
        chunks opening closing ne m.rest).IsChain Chunk.Before := by
      refine List.isChain_cons.2 ⟨fun c _ => ?_, ih⟩
      split <;> trivial
    split
    · exact hfound
    · refine List.isChain_cons_cons.2 ⟨?_, hfound⟩
      cases hescaped : m.escaped with
      | true => trivial
      | false => exact hfirst.escapes hescaped

end Delimiter

end Stencil
