/-
TEMPLATES WITH TEXT BEHIND THEM. What is scanned up to the last directive of a text is scanned alike with any text
behind it: only what follows that directive can become part of another one. The whole text is scanned before its
directives are compiled, so a fault of a directive stays the fault of every longer template that scans.

- `Delimiter.find?_append`, `chunks_append`: the directives of a text are the first ones of every longer text.
- `Scan.run_append`: they are scanned alike.
- `Scan.directives_run`: which tokens of directives a scan adds, and where they stand; literal text adds none.
- `Scan.fails_run`: where a scan fails, and why.
- `Compiler.tokens_directives`: the tokens of directives alone decide over a fault.
- `Compiler.first_fault_stays`: a fault of a directive is the fault of every longer template that scans; one that does
  not scan fails behind the directive.
- `Compiler.fault_behind`: a text with a fault, and a longer one that does not scan.
-/
import Stencil.Proofs.Places
import Stencil.Proofs.Standalone

namespace Stencil

/-- what a step fails with -/
def error? {ε α : Type} (x : Except ε α) : Option ε :=
  match x with
  | .error e => some e
  | .ok _ => none

theorem eq_error_of_error? {ε α : Type} {x : Except ε α} {e : ε} (h : error? x = some e) : x = .error e := by
  cases x with
  | error e' => exact congrArg Except.error (Option.some.inj h)
  | ok a => cases h

/-! ## Directives of longer texts -/

namespace Delimiter

variable {opening closing : Text}

theorem bodyAt?_append {s body rest : Text} (h : bodyAt? opening closing s = some (body, rest)) (b : Text) :
    bodyAt? opening closing (s ++ b) = some (body, rest ++ b) := by
  obtain ⟨rfl, hfirst⟩ := bodyAt?_eq_some_iff.1 h
  exact bodyAt?_eq_some_iff.2 ⟨by simp, hfirst⟩

/-- no directive begins in front of a longer text, if a closing mark of the text leaves room for an opening one -/
theorem bodyAt?_append_eq_none {s u rest : Text} (h : bodyAt? opening closing s = none)
    (hs : s = u ++ closing ++ rest) (hroom : opening.length ≤ u.length) (b : Text) :
    bodyAt? opening closing (s ++ b) = none := by
  rw [bodyAt?_eq_none_iff] at h ⊢
  intro body rest' heq
  have hprefix : opening <+: u := by
    have hfront : opening <+: u ++ (closing ++ rest ++ b) :=
      ⟨body ++ closing ++ rest', by rw [← List.append_assoc, ← List.append_assoc, ← heq, hs]; simp⟩
    exact List.prefix_of_prefix_length_le hfront (List.prefix_append _ _) hroom
  obtain ⟨v, rfl⟩ := hprefix
  exact h v rest hs

/-- **The first directive** of a text is that of every longer text. -/
theorem find?_append (ne : opening ≠ []) {s : Text} {m : Match} (h : find? opening closing s = some m)
    (hbody : m.escaped = false → m.body ≠ []) (b : Text) :
    find? opening closing (s ++ b) = some { m with rest := m.rest ++ b } := by
  induction s generalizing m with
  | nil => cases h
  | cons c cs ih =>
    rw [List.cons_append, find?]
    rw [find?] at h
    cases hescaped : (if c == '\\' then bodyAt? opening closing cs else none) with
    | some p =>
      obtain ⟨body, rest⟩ := p
      rw [hescaped] at h
      cases h
      split at hescaped
      · rw [if_pos ‹_›, bodyAt?_append hescaped b]
      · cases hescaped
    | none =>
      rw [hescaped] at h
      dsimp only at h
      -- what follows a backslash is no directive of the longer text either
      have hnone {u rest : Text} (hcs : cs = u ++ closing ++ rest) (hroom : opening.length ≤ u.length) :
          (if c == '\\' then bodyAt? opening closing (cs ++ b) else none) = none := by
        split at hescaped
        · rw [if_pos ‹_›]
          exact bodyAt?_append_eq_none hescaped hcs hroom b
        · rw [if_neg ‹_›]
      cases hfront : bodyAt? opening closing (c :: cs) with
      | some p =>
        obtain ⟨body, rest⟩ := p
        rw [hfront] at h
        cases h
        obtain ⟨o, os, rfl⟩ := List.exists_cons_of_ne_nil ne
        have hcs : cs = os ++ body ++ closing ++ rest := by
          simpa using (List.cons.inj (eq_of_bodyAt? hfront)).2
        have hroom : (o :: os).length ≤ (os ++ body).length := by
          have hpos : 0 < body.length := List.length_pos_iff.2 (hbody rfl)
          simp only [List.length_cons, List.length_append]
          omega
        rw [hnone hcs hroom, ← List.cons_append, bodyAt?_append hfront b]
      | none =>
        rw [hfront] at h
        obtain ⟨m', hm', rfl⟩ := Option.map_eq_some_iff.1 h
        have hcs : cs = m'.before ++ m'.escape ++ opening ++ m'.body ++ closing ++ m'.rest := by
          simpa [Match.source, Match.escape] using eq_of_find? hm'
        have hroom : opening.length ≤ (m'.before ++ m'.escape ++ opening ++ m'.body).length := by
          simp only [List.length_append]
          omega
        have hroom' : opening.length ≤ (c :: (m'.before ++ m'.escape ++ opening ++ m'.body)).length :=
          Nat.le_succ_of_le hroom
        rw [hnone hcs hroom, ← List.cons_append,
          bodyAt?_append_eq_none hfront (by rw [List.cons_append, List.cons_append, ← hcs]) hroom' b]
        rw [ih hm' hbody]
        rfl

/-- **The pieces of a text** up to its last directive are the first ones of every longer text. -/
theorem chunks_append (ne : opening ≠ []) {s : Text}
    (hbody : ∀ body, Chunk.directive body ∈ chunks opening closing ne s → body ≠ []) (b : Text) :
    ∃ cs t, find? opening closing t = none ∧ chunks opening closing ne s = cs ++ chunks opening closing ne t ∧
      chunks opening closing ne (s ++ b) = cs ++ chunks opening closing ne (t ++ b) := by
  induction hn : s.length using Nat.strongRecOn generalizing s with
  | ind n ih =>
    cases hfind : find? opening closing s with
    | none => exact ⟨[], s, hfind, rfl, rfl⟩
    | some m =>
      rw [chunks_of_find? ne hfind] at hbody ⊢
      have hmatch : m.escaped = false → m.body ≠ [] := fun h =>
        hbody m.body (List.mem_append_right _ (by simp [Match.chunk, h]))
      have hrest : ∀ body, Chunk.directive body ∈ chunks opening closing ne m.rest → body ≠ [] := fun body h =>
        hbody body (List.mem_append_right _ (List.mem_cons_of_mem _ h))
      obtain ⟨cs, t, ht, hchunks, hlonger⟩ := ih m.rest.length (hn ▸ length_rest_lt ne hfind) hrest rfl
      refine ⟨plainChunk m.before ++ m.chunk :: cs, t, ht, ?_, ?_⟩
      · rw [hchunks]
        simp
      · rw [chunks_of_find? ne (find?_append ne hfind hmatch b), hlonger]
        simp [Match.chunk]

end Delimiter

/-! ## Scanning -/

open Delimiter (Chunk)

namespace LineCounter

variable {a : Text} {c : LineCounter}

/-- the counter stands in the text, at the line of its position -/
def StandsIn (a : Text) (c : LineCounter) : Prop := c.Counts a ∧ ∃ p : Nat, p ≤ a.length ∧ c.offset = p

theorem standsIn_start (a : Text) : start.StandsIn a := ⟨counts_start a, 0, Nat.zero_le _, rfl⟩

theorem StandsIn.append (h : c.StandsIn a) (b : Text) : c.Counts (a ++ b) := by
  obtain ⟨⟨q, hq, hline⟩, p, hp, hoffset⟩ := h
  obtain rfl : p = q := by rw [hoffset] at hq; exact_mod_cast hq
  exact ⟨p, hoffset, by rw [hline, List.take_append_of_le_length hp]⟩

/-- where a counter is moved in a text, it is moved alike in every longer text -/
theorem StandsIn.moveTo_append (h : c.StandsIn a) (b : Text) {p : Nat} (hp : p ≤ a.length) :
    c.moveTo (a ++ b) p = c.moveTo a p := by
  have hline : (c.moveTo (a ++ b) p).line = (c.moveTo a p).line := by
    rw [(counts_moveTo (h.append b) p).2, (counts_moveTo h.1 p).2, List.take_append_of_le_length hp]
  have hoffset : (c.moveTo (a ++ b) p).offset = (c.moveTo a p).offset := rfl
  cases hleft : c.moveTo (a ++ b) p
  cases hright : c.moveTo a p
  rw [hleft, hright] at hline hoffset
  exact congrArg₂ LineCounter.mk hline hoffset

theorem StandsIn.moveTo (h : c.StandsIn a) {p : Nat} (hp : p ≤ a.length) : (c.moveTo a p).StandsIn a :=
  ⟨(counts_moveTo h.1 p).1, p, hp, rfl⟩

end LineCounter

namespace Scan

variable {s : Settings} {classify : Text → TokenKind} {source a : Text} {st st' : Scan} {position : Nat}

/-- a token is added alike where the counter is moved alike -/
theorem add_congr {source' : Text} (h : st.counter.moveTo source' position = st.counter.moveTo source position)
    (kind : TokenKind) (raw : Text) : st.add source' kind raw position = st.add source kind raw position := by
  unfold add
  rw [h]

/-- **A piece that scans** adds one token, the same in every source; only a directive adds one that is no literal. -/
theorem chunk_eq_add {c : Chunk} (h : st.chunk s classify source position c = .ok st') :
    ∃ kind raw,
      (∀ (source : Text) (st : Scan) (position : Nat),
        st.chunk s classify source position c = .ok (st.add source kind raw position)) ∧
      (kind ≠ .literal → ∃ body, c = .directive body) ∧ ∀ body, c = .directive body → body ≠ [] := by
  have hliteral {text : Text} (h : st.literal s source text position = .ok st') :
      ∃ raw, ∀ (source : Text) (st : Scan) (position : Nat),
        st.literal s source text position = .ok (st.add source .literal raw position) := by
    unfold literal at h ⊢
    cases hraw : literalText s text with
    | error e => rw [hraw] at h; cases h
    | ok raw => exact ⟨raw, fun _ _ _ => rfl⟩
  cases c with
  | plain text =>
    obtain ⟨raw, hraw⟩ := hliteral h
    exact ⟨.literal, raw, hraw, fun hk => absurd rfl hk, nofun⟩
  | tail text =>
    obtain ⟨raw, hraw⟩ := hliteral h
    exact ⟨.literal, raw, hraw, fun hk => absurd rfl hk, nofun⟩
  | escaped body => exact ⟨.literal, s.opening ++ body ++ s.closing, fun _ _ _ => rfl, fun hk => absurd rfl hk, nofun⟩
  | directive body =>
    simp only [chunk, directive] at h ⊢
    split at h
    · cases h
    · rename_i hopen
      split at h
      · cases h
      · rename_i hstrip
        have hne : body ≠ [] := by
          rintro rfl
          exact hstrip rfl
        simp only [hopen, hstrip, Bool.false_eq_true, if_false]
        cases hk : classify (Text.strip body) with
        | comment => exact ⟨.comment, _, fun _ _ _ => rfl, fun _ => ⟨body, rfl⟩, fun _ h => by cases h; exact hne⟩
        | _ => exact ⟨_, _, fun _ _ _ => rfl, fun _ => ⟨body, rfl⟩, fun _ h => by cases h; exact hne⟩

/-- **Pieces of a text** are scanned alike in every longer text. -/
theorem run_append {cs : List Chunk} (hst : st.counter.StandsIn a) (h : run s classify a position st cs = .ok st')
    (hroom : position + extent s cs ≤ a.length) (b : Text) :
    run s classify (a ++ b) position st cs = .ok st' ∧ st'.counter.StandsIn a := by
  induction cs generalizing position st with
  | nil =>
    cases h
    exact ⟨rfl, hst⟩
  | cons c cs ih =>
    rw [extent, List.flatMap_cons, List.length_append] at hroom
    rw [run] at h ⊢
    cases hone : st.chunk s classify a position c with
    | error f => rw [hone] at h; cases h
    | ok st₁ =>
      obtain ⟨kind, raw, hadd, -⟩ := chunk_eq_add hone
      have hp : position ≤ a.length := by omega
      have hst₁ : st₁ = st.add a kind raw position := by
        rw [hadd] at hone
        exact (Except.ok.inj hone).symm
      have hcounter : st₁.counter.StandsIn a := by
        rw [hst₁, counter_add]
        exact hst.moveTo hp
      rw [hone] at h
      rw [hadd, add_congr (hst.moveTo_append b hp), ← hst₁]
      exact ih hcounter h (by rw [extent]; omega)

/-- pieces one after the other -/
theorem run_concat {cs ds : List Chunk} : run s classify source position st (cs ++ ds) =
    (run s classify source position st cs).bind fun st' =>
      run s classify source (position + extent s cs) st' ds := by
  induction cs generalizing position st with
  | nil => rfl
  | cons c cs ih =>
    rw [List.cons_append, run, run]
    cases st.chunk s classify source position c with
    | error f => rfl
    | ok st₁ =>
      dsimp only
      rw [ih, extent, extent, List.flatMap_cons, List.length_append, Nat.add_assoc]

/-- the tokens of directives -/
def directives (ts : List Token) : List Token := ts.filter (·.kind != .literal)

theorem directives_add_literal (raw : Text) (st : Scan) :
    directives (st.add source .literal raw position).tokens = directives st.tokens := by
  unfold add
  split
  · rfl
  · split
    · rename_i last before htokens
      split
      · rename_i hlast
        simp [directives, htokens, beq_iff_eq.1 hlast]
      · rename_i hlast
        simp [directives, htokens]
    · simp [directives]

/-- **The tokens of directives** that pieces add stand in the pieces; literal text adds none. -/
theorem directives_run {cs : List Chunk} (h : run s classify source position st cs = .ok st') :
    ∃ new, directives st'.tokens = new ++ directives st.tokens ∧
      (∀ t ∈ new, position ≤ t.position ∧ t.position < position + extent s cs) ∧
      ((∀ body, Chunk.directive body ∉ cs) → new = []) := by
  induction cs generalizing position st with
  | nil =>
    cases h
    exact ⟨[], rfl, by simp, fun _ => rfl⟩
  | cons c cs ih =>
    rw [run] at h
    cases hone : st.chunk s classify source position c with
    | error f => rw [hone] at h; cases h
    | ok st₁ =>
      rw [hone] at h
      obtain ⟨new, hnew, hplaces, hnone⟩ := ih h
      obtain ⟨kind, raw, hadd, hdirective, -⟩ := chunk_eq_add hone
      have hst₁ : st₁ = st.add source kind raw position := by
        rw [hadd] at hone
        exact (Except.ok.inj hone).symm
      have hextent : extent s (c :: cs) = (c.source s.opening s.closing).length + extent s cs := by
        rw [extent, extent, List.flatMap_cons, List.length_append]
      by_cases hk : kind = .literal
      · refine ⟨new, ?_, fun t ht => ?_, fun h => hnone fun body hb => h body (List.mem_cons_of_mem _ hb)⟩
        · rw [hnew, hst₁, hk, directives_add_literal]
        · have := hplaces t ht
          omega
      · obtain ⟨body, rfl⟩ := hdirective hk
        have hlength : 0 < ((Chunk.directive body).source s.opening s.closing).length := by
          have := List.length_pos_iff.2 s.opening_ne
          simp only [Chunk.source, List.length_append]
          omega
        refine ⟨new ++ [⟨kind, raw, position, (st.counter.moveTo source position).line⟩], ?_, fun t ht => ?_, ?_⟩
        · rw [hnew, hst₁, add_of_ne_literal hk, push, directives, directives,
            List.filter_cons_of_pos (by simpa using hk)]
          simp
        · rcases List.mem_append.1 ht with ht | ht
          · have := hplaces t ht
            omega
          · rw [List.mem_singleton.1 ht]
            dsimp only
            omega
        · exact fun h => absurd List.mem_cons_self (h body)

end Scan

/-! ## Faults of scans -/

/-- a directive by itself is at fault: neither the way it is delimited nor a construct that stays open -/
def Cause.isOfDirective : Cause → Bool
  | unterminated => false
  | nestedDelimiter => false
  | emptyDirective => false
  | neverClosed _ => false
  | _ => true

/-- delimiters are at fault, at a position or behind it -/
def Fault.OfScan (position : Nat) (f : Fault) : Prop :=
  f.cause.isOfDirective = false ∧ ∃ p, f.place = some p ∧ position ≤ p.position

namespace Scan

variable {s : Settings} {classify : Text → TokenKind} {source : Text} {st : Scan} {position : Nat}

/-- **A piece that does not scan** fails for its delimiters, at a position in or behind it, on the line that the counter
gives there. -/
theorem chunk_eq_fail {c : Chunk} {f : Fault} (h : st.chunk s classify source position c = .error f) :
    ∃ p, position ≤ p ∧ f.place = some ⟨p, (st.counter.moveTo source p).line⟩ ∧ f.cause.isOfDirective = false := by
  have hliteral {text : Text} (h : st.literal s source text position = .error f) :
      ∃ p, position ≤ p ∧ f.place = some ⟨p, (st.counter.moveTo source p).line⟩ ∧ f.cause.isOfDirective = false := by
    unfold literal at h
    split at h
    · cases h
    · cases h
      exact ⟨_, Nat.le_add_right _ _, rfl, rfl⟩
  cases c with
  | plain text => exact hliteral h
  | tail text => exact hliteral h
  | escaped body => cases h
  | directive body =>
    simp only [chunk, directive] at h
    split at h
    · cases h
      exact ⟨position, Nat.le_refl _, rfl, rfl⟩
    · split at h
      · cases h
        exact ⟨position, Nat.le_refl _, rfl, rfl⟩
      · split at h <;> cases h

theorem fails_chunk (c : Chunk) : Fails (Fault.OfScan position) (st.chunk s classify source position c) := by
  intro f hf
  obtain ⟨p, hp, hplace, hcause⟩ := chunk_eq_fail hf
  exact ⟨hcause, _, hplace, hp⟩

/-- **A scan** fails for its delimiters only, not before the piece where it began. -/
theorem fails_run (cs : List Chunk) : Fails (Fault.OfScan position) (run s classify source position st cs) := by
  induction cs generalizing position st with
  | nil => exact fails_ok _
  | cons c cs ih =>
    rw [run]
    cases hone : st.chunk s classify source position c with
    | error f => exact fails_error (fails_chunk c f hone)
    | ok st' =>
      intro f hf
      obtain ⟨hcause, p, hp, hle⟩ := ih f hf
      exact ⟨hcause, p, hp, Nat.le_trans (Nat.le_add_right _ _) hle⟩

/-- the directives of pieces that scan are not empty -/
theorem body_ne_nil {cs : List Chunk} {st' : Scan} (h : run s classify source position st cs = .ok st') :
    ∀ body, Chunk.directive body ∈ cs → body ≠ [] := by
  induction cs generalizing position st with
  | nil => simp
  | cons c cs ih =>
    rw [run] at h
    cases hone : st.chunk s classify source position c with
    | error f => rw [hone] at h; cases h
    | ok st₁ =>
      rw [hone] at h
      obtain ⟨-, -, -, -, hbody⟩ := chunk_eq_add hone
      intro body hmem
      rcases List.mem_cons.1 hmem with hc | hmem
      · exact hbody body hc.symm
      · exact ih h body hmem

end Scan

/-- what is left of a text without directives has none -/
theorem directive_notMem_chunks {opening closing : Text} (ne : opening ≠ []) {t : Text}
    (h : Delimiter.find? opening closing t = none) (body : Text) :
    Chunk.directive body ∉ Delimiter.chunks opening closing ne t := by
  rw [Delimiter.chunks_of_none ne h]
  split <;> simp

open Scan in
/-- **A text that scans**, and the same with more behind it: the directives of the text are the first ones, and if the
whole does not scan, the fault lies behind them. -/
theorem scan_append {s : Settings} {classify : Text → TokenKind} {a : Text} {ts : List Token}
    (h : scan s classify a = .ok ts) (b : Text) :
    ∃ stop, (∀ t ∈ directives ts, t.position < stop) ∧
      match scan s classify (a ++ b) with
      | .ok ts' => ∃ more, directives ts' = directives ts ++ more
      | .error f => f.OfScan stop := by
  obtain ⟨st, hrun, rfl⟩ := map_eq_ok.1 h
  obtain ⟨cs, t, ht, hchunks, hlonger⟩ := Delimiter.chunks_append s.opening_ne (body_ne_nil hrun) b
  have hsource := Delimiter.source_chunks s.opening s.closing s.opening_ne a
  rw [hchunks, List.flatMap_append, Delimiter.source_chunks] at hsource
  rw [scanAll, hchunks, run_concat] at hrun
  cases hone : run s classify a 0 .start cs with
  | error f => rw [hone] at hrun; cases hrun
  | ok st₁ =>
    rw [hone] at hrun
    obtain ⟨new, hnew, -, hnone⟩ := directives_run hrun
    obtain rfl : new = [] := hnone (directive_notMem_chunks s.opening_ne ht)
    obtain ⟨found, hfound, hplaces, -⟩ := directives_run hone
    have hroom : 0 + extent s cs ≤ a.length := by
      have := congrArg List.length hsource
      rw [List.length_append] at this
      rw [extent]
      omega
    obtain ⟨hlongerRun, -⟩ := run_append (LineCounter.standsIn_start a) hone hroom b
    have hreversed (u : Scan) : directives u.tokens.reverse = (directives u.tokens).reverse := List.filter_reverse
    have hdirectives : directives st.tokens.reverse = found.reverse := by
      rw [hreversed, hnew, hfound]
      simp [directives, Scan.start]
    refine ⟨extent s cs, fun u hu => ?_, ?_⟩
    · rw [hdirectives, List.mem_reverse] at hu
      have := hplaces u hu
      omega
    · rw [scan, scanAll, hlonger, run_concat, hlongerRun]
      dsimp only [Except.bind]
      cases hrest : run s classify (a ++ b) (0 + extent s cs) st₁
          (Delimiter.chunks s.opening s.closing s.opening_ne (t ++ b)) with
      | error f =>
        have hfails := fails_run _ f hrest
        rw [Nat.zero_add] at hfails
        exact hfails
      | ok st₂ =>
        obtain ⟨more, hmore, -⟩ := directives_run hrest
        refine ⟨more.reverse, ?_⟩
        rw [hdirectives, hreversed, hmore, hfound]
        simp [directives, Scan.start]

/-! ## Compiling -/

namespace Compiler

open Scan (directives)

variable {r : Registry} {m : Directive.Mode} {comment : Text}

theorem token_literal {t : Token} (hk : t.kind = .literal) (c : Context) : ∃ f, token r m t c = .ok (f, c) := by
  rw [token, hk]
  exact ⟨_, rfl⟩

/-- **The tokens of directives** alone decide over a fault, and over the constructs that are open in the end. -/
theorem tokens_directives (ts : List Token) (c : Context) :
    (tokens r m c (directives ts)).map Prod.snd = (tokens r m c ts).map Prod.snd := by
  induction ts generalizing c with
  | nil => rfl
  | cons t ts ih =>
    have hmap {x : Except Refusal (List Fragment × Context)} (f : Fragment) :
        (x.map fun p => (f :: p.1, p.2)).map Prod.snd = x.map Prod.snd := by cases x <;> rfl
    rw [tokens, directives]
    by_cases hk : t.kind = .literal
    · obtain ⟨f, hf⟩ := token_literal (r := r) (m := m) hk c
      rw [List.filter_cons_of_neg (by simp [hk]), hf]
      dsimp only
      rw [hmap]
      exact ih c
    · rw [List.filter_cons_of_pos (by simpa using hk), tokens]
      cases token r m t c with
      | error e => rfl
      | ok p =>
        dsimp only
        rw [hmap, hmap]
        exact ih p.2

theorem tokens_error_iff {ts : List Token} {c : Context} {e : Refusal} :
    tokens r m c (directives ts) = .error e ↔ tokens r m c ts = .error e := by
  have h := tokens_directives (r := r) (m := m) ts c
  cases hleft : tokens r m c (directives ts) <;> cases hright : tokens r m c ts <;> rw [hleft, hright] at h <;>
    simp at h ⊢
  exact h ▸ Iff.rfl

/-- a fault of tokens stands at one of them -/
theorem place_of_tokens {ts : List Token} (hclass : ∀ t ∈ ts, t.Classified (.standard comment)) {c : Context}
    {f : Fault} (h : tokens (.standard comment) m c ts = .error (.fault f)) : ∃ t ∈ ts, f.place = some t.place := by
  induction ts generalizing c with
  | nil => cases h
  | cons t ts ih =>
    rw [List.forall_mem_cons] at hclass
    rw [tokens] at h
    cases htoken : token (.standard comment) m t c with
    | error e =>
      rw [htoken] at h
      have hunplaced := fails_token hclass.1 e htoken
      cases e with
      | fault f' =>
        cases h
        have hplace : f'.place = none := hunplaced
        exact ⟨t, List.mem_cons_self, by simp [Fault.locate, hplace]⟩
      | _ => cases h
    | ok p =>
      rw [htoken] at h
      dsimp only at h
      cases hrest : tokens (.standard comment) m p.2 ts with
      | error e =>
        rw [hrest] at h
        cases h
        obtain ⟨t', ht', hplace⟩ := ih hclass.2 hrest
        exact ⟨t', List.mem_cons_of_mem _ ht', hplace⟩
      | ok q => rw [hrest] at h; cases h

/-- a fault of a scan is one of its delimiters -/
theorem ofScan_of_scan {k : Compiler} {source : Text} {e : Refusal} (h : k.scan source = .error e) :
    ∃ f, Stencil.scan k.settings k.registry.classify source = .error f ∧ e = .fault f ∧ f.OfScan 0 := by
  rw [scan] at h
  cases hscan : Stencil.scan k.settings k.registry.classify source with
  | ok ts => rw [hscan] at h; cases h
  | error f =>
    rw [hscan] at h
    cases h
    refine ⟨f, rfl, rfl, ?_⟩
    rw [Stencil.scan] at hscan
    cases hrun : scanAll k.settings k.registry.classify source with
    | ok st => rw [hrun] at hscan; cases hscan
    | error f' =>
      rw [hrun] at hscan
      cases hscan
      exact Scan.fails_run _ _ hrun

/-- a fault of a directive is one of the tokens of a template that scans -/
theorem fault_of_directive_iff {k : Compiler} {source : Text} {f : Fault} (hf : f.cause.isOfDirective = true) :
    k.compile source = .error (.fault f) ↔
      ∃ ts, k.scan source = .ok ts ∧ tokens k.registry k.mode .start ts = .error (.fault f) := by
  cases hscan : k.scan source with
  | error e =>
    obtain ⟨f', -, rfl, hcause, -⟩ := ofScan_of_scan hscan
    rw [compile, hscan, error_bind]
    refine iff_of_false ?_ (by simp)
    rintro h
    cases h
    rw [hf] at hcause
    cases hcause
  | ok ts =>
    rw [compile_eq_fault hscan, fragments]
    simp only [Except.ok.injEq, exists_eq_left']
    cases htokens : tokens k.registry k.mode .start ts with
    | error e => rw [error_bind, Except.error.injEq, Except.error.injEq]
    | ok p =>
      rw [ok_bind]
      refine iff_of_false ?_ fun h => by cases h
      -- a construct that stays open is no fault of its directive
      cases hcheck : checkClosed p.2 with
      | ok u => exact fun h => by cases h
      | error e =>
        rw [error_bind]
        rintro h
        cases h
        rw [checkClosed] at hcheck
        split at hcheck
        · cases hcheck
        · cases hcheck
          cases hf

/-- **The first fault stays.** Let a template have a fault of one of its directives: one that is invalid, unknown,
unresolved, misplaced or closes nothing, but no fault of delimiters and no construct that stays open. The template with
any text behind it has the same fault at the same place, if it scans. If it does not, since the whole is scanned before
a directive is compiled, then its fault is the one of the delimiters, which lie behind the directive. -/
theorem first_fault_stays (s : Settings) (strict : Option Bool) (names : List Text) {a : Text} {f : Fault}
    (h : (standard s strict names).compile a = .error (.fault f)) (hf : f.cause.isOfDirective = true) (b : Text) :
    (∀ ts, (standard s strict names).scan (a ++ b) = .ok ts →
      (standard s strict names).compile (a ++ b) = .error (.fault f)) ∧
    ∀ e, (standard s strict names).scan (a ++ b) = .error e →
      (standard s strict names).compile (a ++ b) = .error e ∧
        ∃ g p q, e = .fault g ∧ g.cause.isOfDirective = false ∧ f.place = some p ∧ g.place = some q ∧
          p.position < q.position := by
  obtain ⟨ts, hscan, htokens⟩ := (fault_of_directive_iff hf).1 h
  have hclass : ∀ t ∈ ts, t.Classified (.standard s.comment) := classified_of_scan hscan
  have hdirectives : tokens (.standard s.comment) (standard s strict names).mode .start (directives ts) =
      .error (.fault f) := tokens_error_iff.2 htokens
  have hscanner : Stencil.scan s (Registry.standard s.comment).classify a = .ok ts := mapError_eq_ok.1 hscan
  obtain ⟨stop, hstop, hlonger⟩ := scan_append hscanner b
  constructor
  · intro ts' hscan'
    have hscanner' : Stencil.scan s (Registry.standard s.comment).classify (a ++ b) = .ok ts' :=
      mapError_eq_ok.1 hscan'
    rw [hscanner'] at hlonger
    obtain ⟨more, hmore⟩ := hlonger
    refine (fault_of_directive_iff hf).2 ⟨ts', hscan', tokens_error_iff.1 ?_⟩
    rw [hmore, tokens_append]
    exact congrArg (· >>= _) hdirectives
  · intro e he
    obtain ⟨g, hg, rfl, -⟩ := ofScan_of_scan he
    have hg' : Stencil.scan s (Registry.standard s.comment).classify (a ++ b) = .error g := hg
    rw [hg'] at hlonger
    obtain ⟨hcause, q, hq, hle⟩ := hlonger
    obtain ⟨t, ht, hplace⟩ := place_of_tokens (fun t ht => hclass t (List.mem_filter.1 ht).1) hdirectives
    refine ⟨by rw [compile, he, error_bind], g, t.place, q, rfl, hcause, hplace, hq, ?_⟩
    exact Nat.lt_of_lt_of_le (hstop t ht) hle

/-- a closing directive where nothing is open, with a delimiter behind it that the text behind goes on with -/
theorem first_fault_stays_before_text :
    let k := standard .standard none []
    let f : Fault := .here (.nothingToClose "endfor") ⟨.closing, "endfor", 1, 1⟩
    k.compile "a\x7b\x7bendfor\x7d\x7d\x7b" = .error (.fault f) ∧ f.cause.isOfDirective = true ∧
      k.compile ("a\x7b\x7bendfor\x7d\x7d\x7b".toList ++ "\x7b if \x7d\x7d".toList) = .error (.fault f) := by
  intro k f
  have hfault : k.compile "a\x7b\x7bendfor\x7d\x7d\x7b" = .error (.fault f) := eq_error_of_error? (by decide +kernel)
  have hscan : ∃ ts, k.scan ("a\x7b\x7bendfor\x7d\x7d\x7b".toList ++ "\x7b if \x7d\x7d".toList) = .ok ts :=
    ⟨[⟨.literal, "a", 0, 1⟩, ⟨.closing, "endfor", 1, 1⟩, ⟨.when, "if", 11, 1⟩],
      eq_ok_of_toOption (by decide +kernel)⟩
  obtain ⟨ts, hts⟩ := hscan
  exact ⟨hfault, rfl, (first_fault_stays .standard none [] hfault rfl _).1 ts hts⟩

/-- a text with a fault of its directive, and an opening delimiter more -/
theorem fault_behind :
    let k := standard .standard none []
    let f : Fault := .here (.nothingToClose "endfor") ⟨.closing, "endfor", 0, 1⟩
    let g : Fault := ⟨.unterminated, "\x7b\x7b", some ⟨10, 1⟩⟩
    k.compile "\x7b\x7bendfor\x7d\x7d" = .error (.fault f) ∧ f.cause.isOfDirective = true ∧
      k.compile ("\x7b\x7bendfor\x7d\x7d".toList ++ "\x7b\x7b".toList) = .error (.fault g) ∧ f ≠ g := by
  intro k f g
  exact ⟨eq_error_of_error? (by decide +kernel), rfl, eq_error_of_error? (by decide +kernel), by decide⟩

end Compiler

end Stencil
