/-
LINES ARE COUNTED FROM WHERE ONE STANDS. A scanner does not count lines from the beginning of the template for every
place that it tells: it goes on from the last one, be that the last request, the last token of a scan or the fault that
stopped one. Its answers are those of a scanner that was never asked before, whatever was asked, and in which order.

- `Place.OnLine`: a place tells the line of its position.
- `Scan.Counted`: a state in which every line is that of its position.
- `Scan.counted_runKeeping`: a scan leaves such a state, at its end and at a fault.
- `Scan.run_eq_runKeeping`: what a scan finds does not depend on whether its state is kept.
- `Scan.counted_answer`: one answer, and the state that it leaves.
- `Scan.answers_exact`: the answers to all requests.
-/
import Stencil.Proofs.Continued
import Stencil.Token.Request

namespace Stencil

/-- the line is that of the position, counted from the beginning -/
def Place.OnLine (source : Text) (p : Place) : Prop := p.line = 1 + Text.lineFeeds (source.take p.position)

namespace Scan

open Delimiter (Chunk)

variable {s : Settings} {classify : Text → TokenKind} {source : Text} {st st' : Scan} {position : Nat}

/-- every line of a state is that of its position: the one that the counter stands on, and those of the tokens -/
structure Counted (source : Text) (st : Scan) : Prop where
  counter : st.counter.Counts source
  tokens : ∀ t ∈ st.tokens, t.place.OnLine source

theorem counted_start (source : Text) : Counted source .start := ⟨LineCounter.counts_start source, by simp [start]⟩

/-- a place to which the counter is moved is on its line -/
theorem Counted.onLine (h : Counted source st) (p : Nat) :
    (⟨p, (st.counter.moveTo source p).line⟩ : Place).OnLine source :=
  (LineCounter.counts_moveTo h.counter p).2

theorem Counted.moveTo (h : Counted source st) (p : Nat) :
    Counted source { st with counter := st.counter.moveTo source p } :=
  ⟨(LineCounter.counts_moveTo h.counter p).1, h.tokens⟩

/-! ## What a scan leaves -/

/-- a token begins where one began before, or where the counter is moved to -/
theorem place_of_mem_add {kind : TokenKind} {raw : Text} {t : Token}
    (h : t ∈ (st.add source kind raw position).tokens) :
    (∃ u ∈ st.tokens, u.place = t.place) ∨ t.place = ⟨position, (st.counter.moveTo source position).line⟩ := by
  unfold add at h
  split at h
  · exact .inl ⟨t, h, rfl⟩
  · split at h
    · rename_i last before htokens _
      split at h
      · rcases List.mem_cons.1 h with rfl | h
        · exact .inl ⟨last, by simp [htokens], rfl⟩
        · exact .inl ⟨t, by simp [htokens, h], rfl⟩
      · rcases List.mem_cons.1 h with rfl | h
        · exact .inr rfl
        · exact .inl ⟨t, htokens ▸ h, rfl⟩
    · rcases List.mem_cons.1 h with rfl | h
      · exact .inr rfl
      · exact .inl ⟨t, h, rfl⟩

theorem counted_add (h : Counted source st) (kind : TokenKind) (raw : Text) (position : Nat) :
    Counted source (st.add source kind raw position) where
  counter := by
    rw [counter_add]
    exact (h.moveTo position).counter
  tokens t ht := by
    rcases place_of_mem_add ht with ⟨u, hu, hplace⟩ | hplace
    · rw [← hplace]
      exact h.tokens u hu
    · rw [hplace]
      exact h.onLine position

theorem counted_chunk {c : Chunk} (h : Counted source st)
    (hstep : st.chunk s classify source position c = .ok st') : Counted source st' := by
  obtain ⟨kind, raw, hadd, -⟩ := chunk_eq_add hstep
  rw [hadd] at hstep
  cases hstep
  exact counted_add h kind raw position

theorem counted_stopAt (h : Counted source st) (f : Fault) : Counted source (st.stopAt source f) := by
  unfold stopAt
  split
  · exact h.moveTo _
  · exact h

/-- **A scan leaves a counted state,** whether it comes to the end or stops; if it stops, its fault is on its line. -/
theorem counted_runKeeping (s : Settings) (classify : Text → TokenKind) (position : Nat) (cs : List Chunk)
    (h : Counted source st) :
    Counted source (runKeeping s classify source position st cs).2 ∧
      ∀ f, (runKeeping s classify source position st cs).1 = some f → ∃ p, f.place = some p ∧ p.OnLine source := by
  induction cs generalizing position st with
  | nil => exact ⟨h, nofun⟩
  | cons c cs ih =>
    rw [runKeeping]
    cases hstep : st.chunk s classify source position c with
    | ok st' => exact ih _ (counted_chunk h hstep)
    | error f =>
      -- the line of the fault is the last one that was counted, so the counter is left there
      obtain ⟨p, -, hplace, -⟩ := chunk_eq_fail hstep
      refine ⟨counted_stopAt h f, fun f' hf => ?_⟩
      cases hf
      exact ⟨_, hplace, h.onLine p⟩

/-- keeping the state of a scan does not change what it finds -/
theorem run_eq_runKeeping (cs : List Chunk) : run s classify source position st cs =
    match runKeeping s classify source position st cs with
    | (none, st') => .ok st'
    | (some f, _) => .error f := by
  induction cs generalizing position st with
  | nil => rfl
  | cons c cs ih =>
    rw [run, runKeeping]
    cases st.chunk s classify source position c with
    | ok st' => exact ih
    | error f => rfl

theorem scanKeeping_fst : (scanKeeping s classify source).1 = scan s classify source := by
  rw [scan, scanAll, run_eq_runKeeping, scanKeeping]
  rcases runKeeping s classify source 0 .start (Delimiter.chunks s.opening s.closing s.opening_ne source) with
    ⟨_ | f, st⟩
  · rfl
  · rfl

/-- what a scan finds is on its lines: every token, or the fault -/
def OnLines (source : Text) : Except Fault (List Token) → Prop
  | .ok ts => ∀ t ∈ ts, t.place.OnLine source
  | .error f => ∃ p, f.place = some p ∧ p.OnLine source

/-- the whole scan of a template leaves a counted state, and what it finds is on its lines -/
theorem counted_scanKeeping (s : Settings) (classify : Text → TokenKind) (source : Text) :
    Counted source (scanKeeping s classify source).2 ∧ OnLines source (scanKeeping s classify source).1 := by
  obtain ⟨hstate, hfault⟩ := counted_runKeeping s classify 0
    (Delimiter.chunks s.opening s.closing s.opening_ne source) (counted_start source)
  rw [scanKeeping]
  rcases hrun : runKeeping s classify source 0 .start (Delimiter.chunks s.opening s.closing s.opening_ne source) with
    ⟨_ | f, st⟩
  · rw [hrun] at hstate
    exact ⟨hstate, fun t ht => hstate.tokens t (List.mem_reverse.1 ht)⟩
  · rw [hrun] at hstate hfault
    exact ⟨hstate, hfault f rfl⟩

/-! ## Requests -/

/-- the answer that looks at nothing but the template -/
def Request.direct (s : Settings) (classify : Text → TokenKind) (source : Text) : Request → Answer
  | tokens => .tokens (scan s classify source)
  | line position => .line (1 + Text.lineFeeds (source.take position.toNat))

/-- **One request** is answered directly, and leaves a counted state. -/
theorem counted_answer (s : Settings) (classify : Text → TokenKind) (h : Counted source st) {r : Request}
    (hr : ∀ p, r = .line p → 0 ≤ p) :
    (answer s classify source st r).1 = r.direct s classify source ∧
      Counted source (answer s classify source st r).2 := by
  cases r with
  | tokens => exact ⟨congrArg Answer.tokens scanKeeping_fst, (counted_scanKeeping s classify source).1⟩
  | line position =>
    obtain ⟨p, rfl⟩ := Int.eq_ofNat_of_zero_le (hr position rfl)
    exact ⟨congrArg Answer.line (h.onLine p), h.moveTo p⟩

theorem answers_of_counted {rs : List Request} (h : Counted source st) (hrs : ∀ p, .line p ∈ rs → 0 ≤ p) :
    answers s classify source st rs = rs.map (Request.direct s classify source) := by
  induction rs generalizing st with
  | nil => rfl
  | cons r rs ih =>
    obtain ⟨hanswer, hstate⟩ := counted_answer s classify h fun p hp => hrs p (hp ▸ List.mem_cons_self)
    rw [List.map_cons, ← hanswer, ← ih hstate fun p hp => hrs p (List.mem_cons_of_mem r hp)]
    rfl

/-- **Lines are exact.** A scanner answers every request, for a line or for the tokens, as if nothing had been asked
before: the line of a position is 1 and the line feeds before it, wherever the scanner stood, be it behind the end of
the template, or at the fault of a scan. So are the lines that scans tell, of tokens and of a fault. -/
theorem answers_exact (s : Settings) (classify : Text → TokenKind) (source : Text) (rs : List Request)
    (h : ∀ p, .line p ∈ rs → 0 ≤ p) :
    answers s classify source .start rs = rs.map (Request.direct s classify source) ∧
    (∀ ts, scan s classify source = .ok ts →
      ∀ t ∈ ts, t.line = 1 + Text.lineFeeds (source.take t.position)) ∧
    ∀ f, scan s classify source = .error f →
      ∃ p, f.place = some p ∧ p.line = 1 + Text.lineFeeds (source.take p.position) := by
  have hfound := (counted_scanKeeping s classify source).2
  rw [scanKeeping_fst] at hfound
  refine ⟨answers_of_counted (counted_start source) h, fun ts hts => ?_, fun f hf => ?_⟩
  · rw [hts] at hfound
    exact hfound
  · rw [hf] at hfound
    exact hfound

/-- a scan that stops on the fourth line, between lines asked for behind the end, before the fault and at the start -/
theorem answers_around_fault :
    let source : Text := "a\n\x7b\x7b b \x7d\x7d\n\nx \x7b\x7b c"
    let f : Fault := ⟨.unterminated, "\x7b\x7b c", some ⟨13, 4⟩⟩
    let rs : List Request := [.line 90, .line 3, .tokens, .line 10, .line 3, .line 13, .tokens, .line 0]
    (∀ p, .line p ∈ rs → 0 ≤ p) ∧ scan .standard (Registry.standard ['#']).classify source = .error f ∧
      answers .standard (Registry.standard ['#']).classify source .start rs =
        [.line 4, .line 2, .tokens (.error f), .line 3, .line 2, .line 4, .tokens (.error f), .line 1] := by
  intro source f rs
  have hrs : ∀ p, .line p ∈ rs → 0 ≤ p := by simp [rs]
  have hscan : scan .standard (Registry.standard ['#']).classify source = .error f :=
    eq_error_of_error? (by decide +kernel)
  refine ⟨hrs, hscan, ?_⟩
  rw [(answers_exact .standard (Registry.standard ['#']).classify source rs hrs).1]
  simp only [rs, List.map_cons, List.map_nil, Request.direct, hscan]
  rfl

end Scan

end Stencil
