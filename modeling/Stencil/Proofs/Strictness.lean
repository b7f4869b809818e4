/-
STRICT AND SAFE RENDERS. A template that compiles in strict mode compiles in safe mode, and its strict render is the
safe one unless it comes to an interpolation without a fallback whose path reaches nothing: there it fails with the
text of the reference. Loops, conditions, forms and phrases never fail so, in strict mode either.

- `Template.Misses`: a moment before such an interpolation.
- `Template.course`: the moments that a render comes by.
- `Compiler.strict_refines_safe`: the strict render beside the safe one.
-/
import Stencil.Proofs.Refines

namespace Stencil

/-! ## Where a render stands -/

/-- the token to whose fragment a line of the program belongs -/
def tokenAt? : List (Token × Fragment) → Nat → Option Token
  | [], _ => none
  | p :: parts, line => if line < p.2.lines.length then some p.1 else tokenAt? parts (line - p.2.lines.length)

/-- a render stands before an interpolation without a fallback whose path reaches nothing -/
structure Template.Misses (t : Template) (m : Moment) (r : Reference) : Prop where
  running : m.next.isSome = true
  reference : ∃ u, tokenAt? (t.tokens.zip t.fragments) m.line = some u ∧ u.kind = .interpolation ∧
    Reference.parse u.raw = .ok r
  plain : r.fallback = none
  missing : m.state.reach r.path = .ok none

/-- the moments that a render comes by -/
def Template.course (t : Template) (data : Value) (values : List (Text × Value)) (phrases : Phrases)
    (mappings : Value) : List Moment :=
  match scopeOf data values with
  | .error _ => []
  | .ok es =>
    match phrases.toCatalog.run.run [] with
    | (.error _, _) => []
    | (.ok c, asked) => t.moments (State.start es c mappings t.escaping asked)

/-- a line of the program belongs to the fragment of a token -/
theorem tokenAt_of_line {ts : List Token} {fs : List Fragment} (hlength : fs.length = ts.length) {d : Int} {i : Nat}
    {l : Line} (h : (placeLines d fs)[i]? = some l) :
    ∃ p ∈ ts.zip fs, tokenAt? (ts.zip fs) i = some p.1 ∧ ∃ l' ∈ p.2.lines, l'.stmt = l.stmt := by
  induction fs generalizing ts d i with
  | nil => simp [placeLines] at h
  | cons f fs ih =>
    cases ts with
    | nil => simp at hlength
    | cons t ts =>
      rw [placeLines] at h
      by_cases hi : i < f.lines.length
      · rw [List.getElem?_append_left (by simpa using hi), List.getElem?_map, Option.map_eq_some_iff] at h
        obtain ⟨l', hl', rfl⟩ := h
        exact ⟨(t, f), List.mem_cons_self, by simp [tokenAt?, hi], l', List.mem_of_getElem? hl', rfl⟩
      · rw [List.getElem?_append_right (by simpa using hi), List.length_map] at h
        obtain ⟨p, hp, htoken, hline⟩ := ih (by simpa using hlength) h
        exact ⟨p, List.mem_cons_of_mem _ hp, by simpa [tokenAt?, hi] using htoken, hline⟩

theorem tokenAt_relaxed (ts : List Token) (fs : List Fragment) (line : Nat) :
    tokenAt? (ts.zip (fs.map Fragment.relaxed)) line = tokenAt? (ts.zip fs) line := by
  induction fs generalizing ts line with
  | nil => simp
  | cons f fs ih =>
    cases ts with
    | nil => rfl
    | cons t ts => simp [tokenAt?, Fragment.relaxed, ← ih]

/-- the statement before which a run of a template stands is the one at its line -/
theorem next_of_moments {t : Template} (ht : t.program = readBlocks (programLines t.fragments)) {s : State} {m : Moment}
    (hm : m ∈ t.moments s) {st : Stmt} (hst : m.next = some st) :
    ∃ l, (programLines t.fragments)[m.line]? = some l ∧ l.stmt = st := by
  have hpasses : Passes (fun m => ∀ st ∈ m.next, (t.program.stmts)[m.line]? = some st) (fun _ => True) t.watch
      fun _ => True :=
    passes_inner (passes_next t.program 0 bodyDepth false fun i u hi => by rwa [Nat.zero_add]) fun _ _ => by simp
  have h := ((hpasses ⟨s, []⟩ trivial).1 m hm).resolve_left (by simp) st hst
  rw [ht, stmts_readBlocks, List.getElem?_map, Option.map_eq_some_iff] at h
  exact h

/-! ## The run -/

/-- the first of two lists' members with a property is the same if the lists are -/
theorem first_unique {α : Type} {P : α → Prop} {a a' b b' : List α} {x x' : α} (h : a ++ x :: b = a' ++ x' :: b')
    (ha : ∀ y ∈ a, ¬P y) (hx : P x) (ha' : ∀ y ∈ a', ¬P y) (hx' : P x') : x = x' := by
  induction a generalizing a' with
  | nil =>
    cases a' with
    | nil => exact (List.cons.inj h).1
    | cons y a' => exact absurd ((List.cons.inj h).1 ▸ hx) (ha' y List.mem_cons_self)
  | cons y a ih =>
    cases a' with
    | nil => exact absurd ((List.cons.inj h).1 ▸ hx') (ha y List.mem_cons_self)
    | cons y' a' =>
      exact ih (List.cons.inj h).2 (fun z hz => ha z (List.mem_cons_of_mem y hz)) fun z hz =>
        ha' z (List.mem_cons_of_mem y' hz)

/-- a render is what its watched run comes to -/
theorem run_watched (t : Template) (s : State) :
    t.run s =
      match ((t.watch.run.run ⟨s, []⟩).1, (t.watch.run.run ⟨s, []⟩).2.state) with
      | (.ok (), s') => ⟨.ok ⟨s'.result, s'.sections⟩, s'.messages.reverse⟩
      | (.error e, s') => ⟨.error e, s'.messages.reverse⟩ := by
  have hforgets : Forgets t.watch (t.program.run false) := forgets_inner (watch_run _ _ _ _) _ _ _
  obtain ⟨hr, hs⟩ := hforgets ⟨s, []⟩
  rw [hr, hs]
  rfl

/-- **A run beside the run relaxed**: both come to the same by the same moments, and nothing that is demanded is
lacking; or the run stops at the first moment that lacks a value. -/
theorem run_beside {t t' : Template} (hlenient : t.program.Lenient) (hprogram : t'.program = t.program.relaxed)
    (hlines : (programLines t'.fragments).length = (programLines t.fragments).length) (s : State) :
    (t.run s = t'.run s ∧ t'.moments s = (t.moments s).map Moment.relaxed ∧ Calm (t.moments s) ∧
      ∀ r, (t.run s).outcome ≠ .error (.undefined r)) ∨
    ∃ before m reference, t.moments s = before ++ [m] ∧ Calm before ∧ m.Lacks reference ∧
      (t.moments s).map Moment.relaxed <+: t'.moments s ∧ (t.run s).outcome = .error (.undefined reference) := by
  have hrefines : Refines t.watch t'.watch := by
    rw [Template.watch, Template.watch, hprogram, hlines]
    exact refines_inner (watch_refines hlenient 0 bodyDepth false) _ _
  have habreast := hrefines.abreast ⟨s, []⟩ ⟨s, []⟩ ⟨rfl, rfl, by simp [Calm]⟩
  rw [run_watched t, run_watched t', Template.moments, Template.moments]
  generalize t.watch.run.run ⟨s, []⟩ = u at habreast ⊢
  generalize t'.watch.run.run ⟨s, []⟩ = u' at habreast ⊢
  cases habreast with
  | @same r v v' hv hr =>
    refine .inl ⟨by simp only [hv.state], hv.moments, hv.calm, fun reference => ?_⟩
    cases r with
    | error e =>
      rintro h
      cases h
      exact hr _ rfl
    | ok a => simp
  | @stopped r' v v' before m reference hmoments hbefore hm halong =>
    exact .inr ⟨before, m, reference, hmoments, hbefore, hm, halong, rfl⟩

/-! ## Strict templates -/

namespace Compiler

section

variable {s : Settings} {strict safe : Option Bool} {names : List Text} {source : Text} {t : Template}

/-- the fragments of a template are compiled from what its tokens ask for -/
theorem read_of_compile (h : (standard s strict names).compile source = .ok t) :
    t.fragments.length = t.tokens.length ∧ t.program = readBlocks (programLines t.fragments) ∧
      ∀ p ∈ t.tokens.zip t.fragments, ∃ bound i c c',
        Instruction.read (standard s strict names).mode bound p.1 = .ok i ∧
        i.compile p.1 c = .ok (p.2, c') := by
  obtain ⟨ts, fs, c, hscan, htoks, -, rfl, -⟩ := compile_ok h
  have hclass : ∀ t ∈ ts, t.Classified (.standard s.comment) := classified_of_scan hscan
  have hstrict : tokens (.standard s.comment) (standard s strict names).mode .start ts = .ok (fs, c) := htoks
  exact ⟨length_tokens hstrict, rfl, read_of_tokens hclass hstrict⟩

/-- a statement of a template that demands a value writes an interpolation without a fallback -/
theorem demands_of_line {p : Token × Fragment} {m : Directive.Mode} {bound : List Text} {i : Instruction}
    {c c' : Context} (hread : Instruction.read m bound p.1 = .ok i) (hcompile : i.compile p.1 c = .ok (p.2, c'))
    {l : Line} (hl : l ∈ p.2.lines) :
    l.stmt.demands = [] ∨ p.1.kind = .interpolation ∧ ∃ r, Reference.parse p.1.raw = .ok r ∧ r.fallback = none ∧
      l.stmt = .emit (.demand r.path r.raw) := by
  rcases Instruction.demands_of_read hread with hnone | ⟨hk, r, hr, hf, rfl⟩
  · rw [← Instruction.demands_of_compile hcompile, List.flatMap_eq_nil_iff] at hnone
    exact .inl (hnone l hl)
  · obtain ⟨hfragment, -⟩ := Instruction.compile_act_ok hcompile
    rw [hfragment] at hl
    simp only [Act.fragment, Fragment.statements, List.map_cons, List.map_nil, List.mem_singleton] at hl
    exact .inr ⟨hk, r, hr, hf, by rw [hl]⟩

/-- a template demands only what it writes -/
theorem lenient_program (h : (standard s strict names).compile source = .ok t) : t.program.Lenient := by
  obtain ⟨hlength, hprogram, hread⟩ := read_of_compile h
  rw [hprogram]
  refine lenient_readBlocks fun l hl => ?_
  obtain ⟨i, hi⟩ := List.getElem?_of_mem hl
  obtain ⟨p, hp, -, l', hl', hstmt⟩ := tokenAt_of_line hlength hi
  obtain ⟨bound, i, c, c', hi, hc⟩ := hread p hp
  rw [← hstmt]
  exact (demands_of_line hi hc hl').imp id fun ⟨_, r, _, _, h⟩ => ⟨_, h⟩

/-- **A value is lacking** where the template misses a reference. -/
theorem lacks_iff_misses (hstrict : (standard s strict names).mode.strict = true)
    (h : (standard s strict names).compile source = .ok t) {st : State} {m : Moment} (hm : m ∈ t.moments st)
    (reference : Text) : m.Lacks reference ↔ ∃ r, t.Misses m r ∧ r.raw = reference := by
  obtain ⟨hlength, hprogram, hread⟩ := read_of_compile h
  constructor
  · rintro ⟨path, hnext, hreach⟩
    obtain ⟨l, hl, hstmt⟩ := next_of_moments hprogram hm hnext
    obtain ⟨p, hp, htoken, l', hl', hsame⟩ := tokenAt_of_line hlength hl
    obtain ⟨bound, i, c, c', hi, hc⟩ := hread p hp
    rcases demands_of_line hi hc hl' with hnone | ⟨hk, r, hr, hf, hdemand⟩
    · rw [hsame, hstmt] at hnone
      cases hnone
    · rw [hsame, hstmt] at hdemand
      cases hdemand
      exact ⟨r, ⟨by rw [hnext]; rfl, ⟨p.1, htoken, hk, hr⟩, hf, hreach⟩, rfl⟩
  · rintro ⟨r, hmisses, rfl⟩
    obtain ⟨st', hnext⟩ := Option.isSome_iff_exists.1 hmisses.running
    obtain ⟨l, hl, hstmt⟩ := next_of_moments hprogram hm hnext
    obtain ⟨p, hp, htoken, l', hl', hsame⟩ := tokenAt_of_line hlength hl
    obtain ⟨u, hu, hk, hr⟩ := hmisses.reference
    obtain rfl : p.1 = u := Option.some.inj (htoken.symm.trans hu)
    obtain ⟨bound, i, c, c', hi, hc⟩ := hread p hp
    rw [Instruction.read_strict hi hstrict hk hr hmisses.plain] at hc
    obtain ⟨hfragment, -⟩ := Instruction.compile_act_ok hc
    rw [hfragment] at hl'
    simp only [Act.fragment, Fragment.statements, List.map_cons, List.map_nil, List.mem_singleton] at hl'
    refine ⟨r.path, ?_, hmisses.missing⟩
    rw [hnext, ← hstmt, ← hsame, hl']

end

end Compiler

/-! ## The two modes -/

/-- how a strict render stands beside a safe one: `strictly` and `safely` are what they come to, `course` and
`course'` the moments they come by, `t` and `t'` the templates -/
structure Stricter (t t' : Template) (strictly safely : Rendered) (course course' : List Moment) : Prop where
  /-- the result is the safe one, or the failure of a reference -/
  outcome : strictly = safely ∨ ∃ reference, strictly.outcome = .error (.undefined reference)
  /-- the strict render goes the way of the safe one as far as it goes -/
  along : course.map Moment.relaxed <+: course'
  /-- it fails with a reference where it misses one -/
  misses : ∀ reference, strictly.outcome = .error (.undefined reference) ↔
    ∃ m ∈ course, ∃ r, t.Misses m r ∧ r.raw = reference
  /-- and that is the first one the safe render misses -/
  first : ∀ reference, strictly.outcome = .error (.undefined reference) ↔
    ∃ before m after r, course' = before ++ m :: after ∧ (∀ e ∈ before, ∀ q, ¬t'.Misses e q) ∧ t'.Misses m r ∧
      r.raw = reference

/-- what fails before it begins, fails alike -/
theorem stricter_failed (t t' : Template) {e : Failure} (he : e.Other) :
    Stricter t t' ⟨.error e, []⟩ ⟨.error e, []⟩ [] [] where
  outcome := .inl rfl
  along := List.prefix_refl _
  misses reference := by
    refine ⟨fun h => ?_, fun ⟨m, hm, _⟩ => by simp at hm⟩
    cases h
    exact he.elim
  first reference := by
    refine ⟨fun h => ?_, fun ⟨before, m, after, r, h, _⟩ => by simp at h⟩
    cases h
    exact he.elim

namespace Compiler

section

variable {s : Settings} {strict safe : Option Bool} {names : List Text} {source : Text} {t t' : Template}

/-- a relaxed template misses what the template does -/
theorem misses_relaxed (htokens : t'.tokens = t.tokens) (hfragments : t'.fragments = t.fragments.map Fragment.relaxed)
    (m : Moment) (r : Reference) : t'.Misses m.relaxed r ↔ t.Misses m r := by
  have htoken : ∀ line, tokenAt? (t'.tokens.zip t'.fragments) line = tokenAt? (t.tokens.zip t.fragments) line := by
    intro line
    rw [htokens, hfragments, tokenAt_relaxed]
  constructor
  · rintro ⟨hrunning, hreference, hplain, hmissing⟩
    exact ⟨by simpa [Moment.relaxed] using hrunning, by rw [← htoken]; exact hreference, hplain, hmissing⟩
  · rintro ⟨hrunning, hreference, hplain, hmissing⟩
    exact ⟨by simpa [Moment.relaxed] using hrunning, by rw [htoken]; exact hreference, hplain, hmissing⟩

/-- **A strict run** beside a safe one, from one state. -/
theorem stricter_run (hstrict : (standard s strict names).mode.strict = true)
    (h : (standard s strict names).compile source = .ok t) (htokens : t'.tokens = t.tokens)
    (hfragments : t'.fragments = t.fragments.map Fragment.relaxed) (hprogram : t'.program = t.program.relaxed)
    (st : State) : Stricter t t' (t.run st) (t'.run st) (t.moments st) (t'.moments st) := by
  have hlines : (programLines t'.fragments).length = (programLines t.fragments).length := by
    rw [hfragments, programLines_relaxed, List.length_map]
  have hlacks : ∀ {m}, m ∈ t.moments st → ∀ reference, m.Lacks reference ↔ ∃ r, t.Misses m r ∧ r.raw = reference :=
    fun hm => lacks_iff_misses hstrict h hm
  have hcalm : ∀ {ms : List Moment}, (∀ m ∈ ms, m ∈ t.moments st) → Calm ms → ∀ m ∈ ms, ∀ r, ¬t.Misses m r :=
    fun hms hc m hm r hr => hc m hm r.raw ((hlacks (hms m hm) _).2 ⟨r, hr, rfl⟩)
  rcases run_beside (lenient_program h) hprogram hlines st with
    ⟨hrun, hmoments, hc, hother⟩ | ⟨before, m, reference, hmoments, hbefore, hm, halong, hrun⟩
  · have hmiss := hcalm (fun _ hm => hm) hc
    refine ⟨.inl hrun, hmoments ▸ List.prefix_refl _, fun reference => ⟨fun h => absurd h (hother reference), ?_⟩,
      fun reference => ⟨fun h => absurd h (hother reference), ?_⟩⟩
    · rintro ⟨m, hm, r, hr, -⟩
      exact absurd hr (hmiss m hm r)
    · rintro ⟨before, m', after, r, hsplit, -, hr, -⟩
      have hmem : m' ∈ (t.moments st).map Moment.relaxed := by
        rw [← hmoments, hsplit]
        simp
      obtain ⟨m, hm, rfl⟩ := List.mem_map.1 hmem
      exact absurd ((misses_relaxed htokens hfragments m r).1 hr) (hmiss m hm r)
  · have hmem : m ∈ t.moments st := by simp [hmoments]
    obtain ⟨r, hr, hraw⟩ := (hlacks hmem reference).1 hm
    have hmiss := hcalm (fun m hm => by simp [hmoments, hm]) hbefore
    have hmiss' : ∀ e ∈ before.map Moment.relaxed, ∀ q, ¬t'.Misses e q := by
      intro e he q hq
      obtain ⟨m, hm, rfl⟩ := List.mem_map.1 he
      exact hmiss m hm q ((misses_relaxed htokens hfragments m q).1 hq)
    have hr' : t'.Misses m.relaxed r := (misses_relaxed htokens hfragments m r).2 hr
    obtain ⟨after, hafter⟩ := halong
    have hcourse : t'.moments st = before.map Moment.relaxed ++ m.relaxed :: after := by
      rw [← hafter, hmoments]
      simp
    -- a moment lacks the value of one reference only
    have hunique : ∀ {reference'}, m.Lacks reference' → reference = reference' := by
      rintro reference' ⟨path', hnext', -⟩
      obtain ⟨path, hnext, -⟩ := hm
      rw [hnext] at hnext'
      cases hnext'
      rfl
    refine ⟨.inr ⟨reference, hrun⟩, ⟨after, hafter⟩, fun reference' => ⟨fun h => ?_, ?_⟩,
      fun reference' => ⟨fun h => ?_, ?_⟩⟩
    · obtain rfl : reference = reference' := by
        rw [hrun] at h
        cases h
        rfl
      exact ⟨m, hmem, r, hr, hraw⟩
    · rintro ⟨m', hm', q, hq, rfl⟩
      rw [hmoments, List.mem_append, List.mem_singleton] at hm'
      rcases hm' with hm' | rfl
      · exact absurd hq (hmiss m' hm' q)
      · rw [hrun, hunique ((hlacks hmem _).2 ⟨q, hq, rfl⟩)]
    · obtain rfl : reference = reference' := by
        rw [hrun] at h
        cases h
        rfl
      exact ⟨_, _, after, r, hcourse, hmiss', hr', hraw⟩
    · rintro ⟨before', m', after', q, hsplit, hbefore', hm', rfl⟩
      obtain rfl : m.relaxed = m' := first_unique (P := fun m => ∃ q, t'.Misses m q) (hcourse.symm.trans hsplit)
        (fun e he ⟨q, hq⟩ => hmiss' e he q hq) ⟨r, hr'⟩ (fun e he ⟨q, hq⟩ => hbefore' e he q hq) ⟨q, hm'⟩
      have hq := (misses_relaxed htokens hfragments m q).1 hm'
      rw [hrun, hunique ((hlacks hmem _).2 ⟨q, hq, rfl⟩)]

/-- **Strict mode refines safe mode.** A template that compiles in strict mode compiles in safe mode, and only its
interpolations demand a value. Its strict render comes to what the safe render comes to, or fails with the reference
of the first interpolation without a fallback whose path reaches nothing; and it does so exactly where a render comes
to one. -/
theorem strict_refines_safe (hstrict : (standard s strict names).mode.strict = true)
    (hsafe : (standard s safe names).mode.strict = false) (h : (standard s strict names).compile source = .ok t) :
    ∃ t', (standard s safe names).compile source = .ok t' ∧
      (∀ p ∈ t.tokens.zip t.fragments, ∀ l ∈ p.2.lines, l.stmt.demands ≠ [] → p.1.kind = .interpolation) ∧
      ∀ data values phrases mappings, Stricter t t' (t.render data values phrases mappings)
        (t'.render data values phrases mappings) (t.course data values phrases mappings)
        (t'.course data values phrases mappings) := by
  obtain ⟨-, hprogram, hread⟩ := read_of_compile h
  have hescaping : t.escaping = s.escaping := by
    obtain ⟨ts, fs, c, -, -, -, rfl, -⟩ := compile_ok h
    rfl
  let t' := (standard s safe names).template t.tokens (t.fragments.map Fragment.relaxed)
  have hprogram' : t'.program = t.program.relaxed := by
    rw [hprogram, ← readBlocks_relaxed, ← programLines_relaxed]
    rfl
  refine ⟨t', compile_relaxed hsafe h, fun p hp l hl hdemands => ?_, fun data values phrases mappings => ?_⟩
  · obtain ⟨bound, i, c, c', hi, hc⟩ := hread p hp
    exact ((demands_of_line hi hc hl).resolve_left hdemands).1
  · unfold Template.render Template.course
    have hscope := other_scopeOf data values
    generalize Template.scopeOf data values = data at hscope ⊢
    cases data with
    | error e => exact stricter_failed t t' (hscope e rfl)
    | ok es =>
      have hcatalog := other_toCatalog phrases []
      generalize phrases.toCatalog.run.run [] = found at hcatalog ⊢
      obtain ⟨c, asked⟩ := found
      cases c with
      | error e => exact stricter_failed t t' (hcatalog e rfl)
      | ok c =>
        have hescaping' : t'.escaping = t.escaping := hescaping.symm
        have htokens : t'.tokens = t.tokens := rfl
        dsimp only
        rw [hescaping']
        exact stricter_run hstrict h htokens rfl hprogram' _

end

/-- the second of two interpolations has no fallback: where nothing is given, the strict render fails with it, and the
safe render comes to it -/
theorem strict_fails_at_second :
    let source : Text := "\x7b\x7b a.b ?? 1 \x7d\x7d\x7b\x7b a \x7d\x7d"
    ∃ t t', (standard .standard (some true) ["a"]).compile source = .ok t ∧
      (standard .standard (some false) ["a"]).compile source = .ok t' ∧
      (t.render .none [] (.catalog .empty) .none).outcome = .error (.undefined "a") ∧
      ∃ m ∈ t'.course .none [] (.catalog .empty) .none, ∃ r, t'.Misses m r ∧ r.raw = "a".toList := by
  intro source
  have hrender : ((standard .standard (some true) ["a"]).compile source).toOption.map (fun t =>
      match (t.render .none [] (.catalog .empty) .none).outcome with
      | .error e => some e
      | .ok _ => none) = some (some (.undefined "a")) := by
    decide +kernel
  obtain ⟨t, ht, hfailed⟩ := Option.map_eq_some_iff.1 hrender
  have hok := eq_ok_of_toOption ht
  have houtcome : (t.render .none [] (.catalog .empty) .none).outcome = .error (.undefined "a") := by
    split at hfailed
    · rename_i e he
      rw [he, Option.some.inj hfailed]
    · cases hfailed
  have hsafe : (standard .standard (some false) ["a"]).mode.strict = false := rfl
  obtain ⟨t', hok', -, hrenders⟩ := strict_refines_safe rfl hsafe hok
  obtain ⟨before, m, after, r, hcourse, -, hm, hr⟩ := ((hrenders _ _ _ _).first _).1 houtcome
  exact ⟨t, t', hok, hok', houtcome, m, by rw [hcourse]; simp, r, hm, hr⟩

end Compiler

end Stencil
