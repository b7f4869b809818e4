/-
DECLARED NAMES ARE ENOUGH. A template that compiles in strict mode asks only for paths that begin with declared names or
with names that an open loop or form binds. If the data have every declared name, each path begins with a name that is
found, wherever the render stands; and if no value is missing in what the render is given, a template that writes only
single names never fails for one that is undefined.

- `Compiler.passes_strict`: the moments of a strict run.
- `Compiler.declared_names_suffice`: the lookups of a strict render.
- `Compiler.undefined_in_mappings`: a value that is missing in the field mappings makes a name undefined.
-/
import Stencil.Proofs.Strictness
import Stencil.Proofs.Whole

namespace Stencil

/-- a template that writes only single names -/
def Template.WritesNames (t : Template) : Prop :=
  ∀ u ∈ t.tokens, u.kind = .interpolation → ∀ r, Reference.parse u.raw = .ok r → r.segments = []

instance decidableOk {ε α : Type} (x : Except ε α) (P : α → Prop) [DecidablePred P] :
    Decidable (∀ a, x = .ok a → P a) :=
  match x with
  | .ok a => decidable_of_iff (P a) ⟨fun h _ ha => Except.ok.inj ha ▸ h, fun h => h a rfl⟩
  | .error _ => isTrue nofun

instance (t : Template) : Decidable t.WritesNames := by
  unfold Template.WritesNames
  infer_instance

/-- a run that fails for a name that is undefined comes to a moment that lacks its value -/
theorem lacks_of_undefined {t : Template} (hlenient : t.program.Lenient) {s : State} {reference : Text}
    (h : (t.run s).outcome = .error (.undefined reference)) : ∃ m ∈ t.moments s, m.Lacks reference := by
  let u : Template := { t with fragments := t.fragments.map Fragment.relaxed, program := t.program.relaxed }
  have hprogram : u.program = t.program.relaxed := rfl
  have hlines : (programLines u.fragments).length = (programLines t.fragments).length := by
    rw [programLines_relaxed, List.length_map]
  rcases run_beside hlenient hprogram hlines s with
    ⟨-, -, -, hother⟩ | ⟨before, m, reference', hmoments, -, hm, -, hrun⟩
  · exact absurd h (hother reference)
  · rw [hrun] at h
    cases h
    exact ⟨m, by simp [hmoments], hm⟩

/-- the value of a single name that is found is there, in a whole state -/
theorem reach_single {s : State} (hs : s.Whole) {root : Text} (h : s.Roots [.name root]) :
    s.reach [.name root] ≠ .ok none := by
  obtain ⟨root', rest, hpath, hfound⟩ := h
  cases hpath
  obtain ⟨v, hv⟩ := Option.isSome_iff_exists.1 hfound
  have hmissing : v.isMissing = false := by
    have := (hs.find? hv).ne_missing
    cases v <;> simp [Value.isMissing] at this ⊢
  simp [State.reach, hv, hmissing, Value.reachAll]

namespace Compiler

section

variable {s : Settings} {strict : Option Bool} {names : List Text} {source : Text} {t : Template}

/-- **The moments of a strict run**, from data that have the declared names: the paths of the next statement begin with
names that are found. -/
theorem passes_strict (hstrict : (standard s strict names).mode.strict = true)
    (h : (standard s strict names).compile source = .ok t) {E : State → Prop} (hE : Lasting E) {st : State}
    (hst : E st) (hscope : st.scope = []) (hdata : ∀ name ∈ names, (Value.find? (.text name) st.data).isSome)
    {m : Moment} (hm : m ∈ t.moments st) :
    E m.state ∧ ∀ next ∈ m.next, ∀ path ∈ next.paths, m.state.Roots path := by
  obtain ⟨n, hn, -⟩ := wellNested_of_compile h
  obtain ⟨p, hp, -, hprogram⟩ := program_of_compile h hn
  have hbalanced : (p.block 0).Balanced names [] := balanced_page hstrict n hp (List.Subset.refl []) 0
  have hprovides : st.Provides names [] := ⟨hdata, hscope ▸ .nil⟩
  have hpasses : Passes (fun m => E m.state ∧ ∀ next ∈ m.next, ∀ path ∈ next.paths, m.state.Roots path)
      (fun st => st.Provides names [] ∧ E st) t.watch (fun st => st.Provides names [] ∧ E st) := by
    rw [Template.watch, hprogram]
    have hblock := passes_scoped hE _ hbalanced.known 0 bodyDepth false
    rw [hbalanced.layers] at hblock
    exact passes_inner hblock fun st hst => ⟨hst.2, by simp⟩
  exact ((hpasses ⟨st, []⟩ ⟨hprovides, hst⟩).1 m hm).resolve_left (by simp)

/-- **Declared names are enough.** If the data of a render in strict mode have every declared name, each path that is
asked for begins with a name that is found. If moreover nothing is missing in the data and in the field mappings, and
the template writes only single names, the render does not fail for a name that is undefined. -/
theorem declared_names_suffice (hstrict : (standard s strict names).mode.strict = true)
    (h : (standard s strict names).compile source = .ok t) {data : Value} {values : List (Text × Value)} {es : Entries}
    (hscope : Template.scopeOf data values = .ok es) (hnames : ∀ name ∈ names, (Value.find? (.text name) es).isSome)
    (phrases : Phrases) (mappings : Value) :
    (∀ m ∈ t.course data values phrases mappings, ∀ next ∈ m.next, ∀ path ∈ next.paths, m.state.Roots path) ∧
    (t.WritesNames → Value.WholeEntries es → mappings.Whole →
      ∀ reference, (t.render data values phrases mappings).outcome ≠ .error (.undefined reference)) := by
  unfold Template.course Template.render
  rw [hscope]
  have hcatalog := other_toCatalog phrases []
  generalize phrases.toCatalog.run.run [] = found at hcatalog ⊢
  obtain ⟨c, asked⟩ := found
  cases c with
  | error e =>
    refine ⟨by simp, fun _ _ _ reference hfailed => ?_⟩
    cases hfailed
    exact hcatalog _ rfl
  | ok c =>
    refine ⟨fun m hm => ?_, fun hsingle hes hmappings reference hfailed => ?_⟩
    · have hany : Lasting fun _ => True :=
        ⟨fun _ _ _ _ _ _ => trivial, fun _ _ _ _ _ _ =>
          ⟨fun _ _ _ => ⟨fun _ _ _ _ _ => trivial, fun _ _ _ _ _ => trivial⟩, trivial⟩⟩
      exact (passes_strict hstrict h hany trivial rfl hnames hm).2
    · have hwhole : (State.start es c mappings t.escaping asked).Whole :=
        ⟨hes, Value.whole_orEmpty hmappings, by simp [State.start], by simp [State.start], by simp [State.start],
          by simp [State.start]⟩
      obtain ⟨m, hm, hlacks⟩ := lacks_of_undefined (lenient_program h) hfailed
      obtain ⟨hstate, hroots⟩ := passes_strict hstrict h lasting_whole hwhole rfl hnames hm
      obtain ⟨path, hnext, hreach⟩ := hlacks
      -- the statement writes an interpolation
      obtain ⟨hlength, hprogram, hread⟩ := read_of_compile h
      obtain ⟨l, hl, hstmt⟩ := next_of_moments hprogram hm hnext
      obtain ⟨p, hp, -, l', hl', hsame⟩ := tokenAt_of_line hlength hl
      obtain ⟨bound, i, c₁, c₂, hi, hc⟩ := hread p hp
      rcases demands_of_line hi hc hl' with hnone | ⟨hk, r, hr, -, hdemand⟩
      · rw [hsame, hstmt] at hnone
        cases hnone
      · rw [hsame, hstmt] at hdemand
        cases hdemand
        have hpath : r.path = [.name r.root] := by
          rw [Reference.path, hsingle p.1 (List.of_mem_zip hp).1 hk r hr]
        have hroot := hroots _ hnext r.path (by simp [Stmt.paths, Expr.paths])
        rw [hpath] at hroot hreach
        exact reach_single hstate hroot hreach

end

/-- a form in a loop: its names, those of the loop and the declared ones are found, and the render does not fail -/
theorem declared_in_loop_and_form :
    let source : Text :=
      Text.cat ["\x7b\x7bfor v in a\x7d\x7d\x7b\x7bform u\x7d\x7d", "\x7b\x7bv\x7d\x7d\x7b\x7bu\x7d\x7d",
        "\x7b\x7bendform\x7d\x7d\x7b\x7bendfor\x7d\x7d"]
    let data : Value := .mapping [(.text "a", .list [.int 1]), (.text "u", .none)]
    ∃ t, (standard .standard (some true) ["a", "u"]).compile source = .ok t ∧
      (∀ m ∈ t.course data [] (.catalog .empty) .none, ∀ next ∈ m.next, ∀ path ∈ next.paths, m.state.Roots path) ∧
      ∀ reference, (t.render data [] (.catalog .empty) .none).outcome ≠ .error (.undefined reference) := by
  intro source data
  have hcompile : ((standard .standard (some true) ["a", "u"]).compile source).toOption.map
      (fun t => decide t.WritesNames) = some true := by
    decide +kernel
  obtain ⟨t, ht, hnames⟩ := Option.map_eq_some_iff.1 hcompile
  have hscope : Template.scopeOf data [] = .ok [(.text "a", .list [.int 1]), (.text "u", .none)] := rfl
  have hsuffice := declared_names_suffice rfl (eq_ok_of_toOption ht) hscope (by decide) (.catalog .empty) .none
  exact ⟨t, eq_ok_of_toOption ht, hsuffice.1,
    hsuffice.2 (of_decide_eq_true hnames) (by simp [Value.WholeEntries]) Value.whole_none⟩

/-- a value that is missing in the field mappings is bound to a name, and makes it undefined -/
theorem undefined_in_mappings :
    let source : Text :=
      Text.cat ["\x7b\x7bform u\x7d\x7d\x7b\x7bfor v in form.mapping\x7d\x7d", "\x7b\x7bv\x7d\x7d",
        "\x7b\x7bendfor\x7d\x7d\x7b\x7bendform\x7d\x7d"]
    let es : Entries := [(.text "u", .none)]
    let mappings : Value := .mapping [(.text "u", .mapping [(.text "a", .missing)])]
    ∃ t, (standard .standard (some true) ["u"]).compile source = .ok t ∧
      t.WritesNames ∧ Template.scopeOf (.mapping es) [] = .ok es ∧ (Value.find? (.text "u") es).isSome ∧
      Value.WholeEntries es ∧
      (t.render (.mapping es) [] (.catalog .empty) mappings).outcome = .error (.undefined "v") := by
  intro source es mappings
  have hcompile : ((standard .standard (some true) ["u"]).compile source).toOption.map (fun t =>
      (decide t.WritesNames, match (t.render (.mapping es) [] (.catalog .empty) mappings).outcome with
        | .error e => some e
        | .ok _ => none)) = some (true, some (.undefined "v")) := by
    decide +kernel
  obtain ⟨t, ht, hrender⟩ := Option.map_eq_some_iff.1 hcompile
  simp only [Prod.mk.injEq] at hrender
  obtain ⟨hnames, hfailed⟩ := hrender
  refine ⟨t, eq_ok_of_toOption ht, of_decide_eq_true hnames, rfl, by decide, by simp [Value.WholeEntries, es], ?_⟩
  split at hfailed
  · rename_i e he
    rw [he, Option.some.inj hfailed]
  · cases hfailed

end Compiler

end Stencil
