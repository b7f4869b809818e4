/-
REGISTRATIONS. The registry holds under each spelling the specification that was registered for it last, in the place
of the first. A text is matched with specifications, not with the entries of the registry: each is asked for its own
spellings, and these can have been registered again for another since. So the spelling that decides is the longest
registered one that the text begins with, and the specification is the first listed that has this spelling for its own.

- `specs_extended`: the entries after any registrations.
- `spellings_listed`: what is true of the entries, whatever was registered.
- `match?_eq_find?`: the specification that a text is matched with.
- `match_agrees_iff`: it is the one that the registry holds under the spelling exactly if no other that has the spelling
  is listed before this one.
- `alias_taken_over`: an alias that was registered again.
-/
import Stencil.Proofs.Optioned
import Stencil.Proofs.Spellings

namespace Stencil

/-- what is found first has nothing else that is looked for in front of it -/
theorem find?_eq_some_iff_first {α : Type} {p : α → Bool} {l : List α} {a : α} (ha : a ∈ l) (hp : p a = true) :
    l.find? p = some a ↔ ∀ before b after, l = before ++ b :: after → p b = true → a ≠ b → a ∈ before := by
  constructor
  · rintro h before b after rfl hb hne
    rw [List.find?_append, Option.or_eq_some_iff] at h
    rcases h with h | ⟨-, h⟩
    · exact List.mem_of_find?_eq_some h
    · rw [List.find?_cons_of_pos hb, Option.some.injEq] at h
      exact absurd h.symm hne
  · intro h
    cases hfound : l.find? p with
    | none => exact absurd hp (List.find?_eq_none.1 hfound a ha)
    | some b =>
      obtain ⟨hb, before, after, hl, hbefore⟩ := List.find?_eq_some_iff_append.1 hfound
      by_contra hne
      have hmem := h before b after hl hb fun heq => hne (congrArg some heq.symm)
      exact absurd hp (by simpa using hbefore a hmem)

/-! ## The longest spelling -/

namespace Spec

variable {spec : Spec} {raw s t : Text}

/-- the spelling is one of the specification's own -/
def has (s : Text) (spec : Spec) : Bool := spec.spellings.contains s

theorem has_iff : has s spec = true ↔ s ∈ spec.spellings := List.contains_iff_mem

/-- two spellings of one length that a text begins with are the same -/
theorem eq_of_beginsWith (hs : beginsWith raw s = true) (ht : beginsWith raw t = true) (h : s.length = t.length) :
    s = t := by
  obtain ⟨rest, hraw, -⟩ := beginsWith_iff.1 hs
  obtain ⟨rest', hraw', -⟩ := beginsWith_iff.1 ht
  exact (List.append_inj (hraw.symm.trans hraw') h).1

/-- the longest of some spellings, and of one that was found before -/
theorem foldl_longer (ss : List Text) (best : Text) : ∃ t, ss.foldl longer (some best) = some t ∧
    (t = best ∨ t ∈ ss) ∧ best.length ≤ t.length ∧ ∀ u ∈ ss, u.length ≤ t.length := by
  induction ss generalizing best with
  | nil => exact ⟨best, rfl, .inl rfl, le_rfl, nofun⟩
  | cons s ss ih =>
    by_cases hs : best.length < s.length
    · obtain ⟨t, ht, hmem, hbest, hall⟩ := ih s
      refine ⟨t, by rw [List.foldl_cons, longer, if_pos hs, ht], .inr ?_, by omega, ?_⟩
      · rcases hmem with rfl | hmem
        · exact List.mem_cons_self
        · exact List.mem_cons_of_mem s hmem
      · exact List.forall_mem_cons.2 ⟨hbest, hall⟩
    · obtain ⟨t, ht, hmem, hbest, hall⟩ := ih best
      refine ⟨t, by rw [List.foldl_cons, longer, if_neg hs, ht], hmem.imp_right (List.mem_cons_of_mem s), hbest, ?_⟩
      exact List.forall_mem_cons.2 ⟨by omega, hall⟩

theorem spelling?_eq_none_iff : spec.spelling? raw = none ↔ ∀ s ∈ spec.spellings, beginsWith raw s = false := by
  rw [spelling?]
  cases h : spec.spellings.filter (beginsWith raw) with
  | nil => simpa using List.filter_eq_nil_iff.1 h
  | cons s ss =>
    obtain ⟨t, ht, -⟩ := foldl_longer ss s
    have hs : s ∈ spec.spellings.filter (beginsWith raw) := by rw [h]; exact List.mem_cons_self
    rw [List.mem_filter] at hs
    rw [List.foldl_cons, longer, ht]
    constructor
    · intro hsome
      cases hsome
    · intro hnone
      rw [hnone s hs.1] at hs
      exact absurd hs.2 Bool.false_ne_true

/-- a spelling that is found is the longest that the text begins with -/
theorem of_spelling? (h : spec.spelling? raw = some s) : s ∈ spec.spellings ∧ beginsWith raw s = true ∧
    ∀ t ∈ spec.spellings, beginsWith raw t = true → t.length ≤ s.length := by
  rw [spelling?] at h
  cases hf : spec.spellings.filter (beginsWith raw) with
  | nil => rw [hf] at h; cases h
  | cons t ts =>
    obtain ⟨u, hu, hmem, ht, hts⟩ := foldl_longer ts t
    rw [hf, List.foldl_cons, longer, hu, Option.some.injEq] at h
    subst h
    have hmem' : u ∈ spec.spellings.filter (beginsWith raw) := by
      rw [hf, List.mem_cons]
      exact hmem
    rw [List.mem_filter] at hmem'
    refine ⟨hmem'.1, hmem'.2, fun v hv hbegins => ?_⟩
    have hv' : v ∈ t :: ts := hf ▸ List.mem_filter.2 ⟨hv, hbegins⟩
    rcases List.mem_cons.1 hv' with rfl | hv'
    · exact ht
    · exact hts v hv'

/-- a spelling that no other is longer than is found -/
theorem spelling?_eq_some (hs : s ∈ spec.spellings) (hbegins : beginsWith raw s = true)
    (hlongest : ∀ t ∈ spec.spellings, beginsWith raw t = true → t.length ≤ s.length) : spec.spelling? raw = some s := by
  cases h : spec.spelling? raw with
  | none => rw [spelling?_eq_none_iff.1 h s hs] at hbegins; cases hbegins
  | some t =>
    obtain ⟨ht, htbegins, htlongest⟩ := of_spelling? h
    rw [eq_of_beginsWith hbegins htbegins (le_antisymm (htlongest s hs hbegins) (hlongest t ht htbegins))]

end Spec

namespace Registry

/-! ## The entries after registrations -/

/-- the registry of the language with more specifications, registered one after the other -/
def extended (comment : Text) (specs : List Spec) : Registry := specs.foldl register (standard comment)

/-- specifications as they are registered, each with the number of its registration -/
def numbered (n : Nat) : List Spec → List Spec
  | [] => []
  | spec :: specs => { spec with serial := n } :: numbered (n + 1) specs

/-- all that was registered, the directives of the language first -/
def history (specs : List Spec) : List Spec := numbered 0 (builtIn ++ specs)

/-- a specification under each of its spellings -/
def placed (spec : Spec) : List (Text × Spec) := spec.spellings.map fun s => (s, spec)

theorem specs_register (r : Registry) (spec : Spec) : (r.register spec).specs =
    (placed { spec with serial := r.count }).foldl (fun acc a => putAt a.1 a.2 acc) r.specs := by
  rw [placed, List.foldl_map]
  rfl

theorem specs_foldl_register (r : Registry) (specs : List Spec) : (specs.foldl register r).specs =
    ((numbered r.count specs).flatMap placed).foldl (fun acc a => putAt a.1 a.2 acc) r.specs := by
  induction specs generalizing r with
  | nil => rfl
  | cons spec specs ih =>
    have hcount : (r.register spec).count = r.count + 1 := rfl
    rw [List.foldl_cons, ih, specs_register, hcount, numbered, List.flatMap_cons, List.foldl_append]

variable (comment : Text) (specs : List Spec)

/-- **The entries after any registrations**: each spelling once, where it was registered first, with the specification
that was registered for it last. -/
theorem specs_extended : (extended comment specs).specs = lastAtFirst ((history specs).flatMap placed) := by
  have hall : extended comment specs = (builtIn ++ specs).foldl register (empty comment) := by
    rw [List.foldl_append]
    rfl
  rw [hall, specs_foldl_register, ← foldl_putAt_eq]
  rfl

/-- what is registered under a spelling was registered for it last -/
theorem get?_extended (s : Text) :
    (extended comment specs).get? s = getAt? s ((history specs).flatMap placed).reverse := by
  rw [← getAt?_foldl_putAt, foldl_putAt_eq, ← specs_extended comment]
  rfl

theorem mem_placed {specs : List Spec} {e : Text × Spec} (h : e ∈ specs.flatMap placed) :
    e.2 ∈ specs ∧ e.1 ∈ e.2.spellings := by
  obtain ⟨spec, hspec, he⟩ := List.mem_flatMap.1 h
  obtain ⟨s, hs, rfl⟩ := List.mem_map.1 he
  exact ⟨hspec, hs⟩

/-- **Listed specifications** have the spelling that they are listed under, and all their spellings are registered. -/
theorem spellings_listed :
    ∀ e ∈ (extended comment specs).specs, e.2 ∈ history specs ∧ e.1 ∈ e.2.spellings ∧
      ∀ s ∈ e.2.spellings, s ∈ (extended comment specs).spellings := by
  intro e he
  have hkeys : (extended comment specs).spellings =
      (((history specs).flatMap placed).map Prod.fst).eraseDups := by
    rw [spellings, specs_extended, ← foldl_putAt_eq, keys_foldl_putAt]
  rw [specs_extended] at he
  obtain ⟨n, -, hn⟩ := List.mem_filterMap.1 he
  obtain ⟨spec, hspec, rfl⟩ := Option.map_eq_some_iff.1 hn
  obtain ⟨hmem, hspelling⟩ := mem_placed (List.mem_reverse.1 (mem_of_getAt? hspec))
  refine ⟨hmem, hspelling, fun s hs => ?_⟩
  rw [hkeys, List.mem_eraseDups]
  exact List.mem_map.2 ⟨(s, spec), List.mem_flatMap.2 ⟨spec, hmem, List.mem_map.2 ⟨s, hs, rfl⟩⟩, rfl⟩

/-! ## Matching -/

/-- the longest of the registered spellings that a text begins with -/
structure Longest (r : Registry) (raw s : Text) : Prop where
  listed : s ∈ r.spellings
  begins : Spec.beginsWith raw s = true
  longest : ∀ t ∈ r.spellings, Spec.beginsWith raw t = true → t.length ≤ s.length

/-- the specifications in the order of the entries that hold them -/
def listed (r : Registry) : List Spec := r.specs.map (·.2)

/-- whatever has the spelling for its own, but is not what the registry holds under it, is listed behind what is -/
def CountsFirst (r : Registry) (s : Text) : Prop :=
  ∀ before spec after, r.listed = before ++ spec :: after → s ∈ spec.spellings → r.get? s ≠ some spec →
    ∃ current ∈ before, r.get? s = some current

section

variable {raw s : Text} {specs : List Spec}

/-- a specification that was found stays if no other has a longer spelling -/
theorem foldl_better_kept {n : Nat} (h : ∀ spec ∈ specs, ∀ t, spec.spelling? raw = some t → t.length ≤ n)
    (found : Spec) : specs.foldl (better raw) (some (found, n)) = some (found, n) := by
  induction specs with
  | nil => rfl
  | cons spec specs ih =>
    obtain ⟨hspec, hspecs⟩ := List.forall_mem_cons.1 h
    have hkept : better raw (some (found, n)) spec = some (found, n) := by
      rw [better]
      cases ht : spec.spelling? raw with
      | none => rfl
      | some t => exact if_neg (Nat.not_lt.2 (hspec t ht))
    rw [List.foldl_cons, hkept, ih hspecs]

/-- **The best of some specifications** is the first that has the longest spelling. -/
theorem foldl_better (hbegins : Spec.beginsWith raw s = true)
    (hlongest : ∀ spec ∈ specs, ∀ t ∈ spec.spellings, Spec.beginsWith raw t = true → t.length ≤ s.length)
    {found : Spec} (hfound : specs.find? (Spec.has s) = some found)
    {best : Option (Spec × Nat)} (hbest : ∀ p ∈ best, p.2 < s.length) :
    specs.foldl (better raw) best = some (found, s.length) := by
  induction specs generalizing best with
  | nil => cases hfound
  | cons spec specs ih =>
    obtain ⟨hspec, hspecs⟩ := List.forall_mem_cons.1 hlongest
    rw [List.foldl_cons]
    by_cases hs : Spec.has s spec = true
    · -- the first that has the spelling: nothing before is as good, nothing behind is better
      rw [List.find?_cons_of_pos hs, Option.some.injEq] at hfound
      subst hfound
      have hspelling := Spec.spelling?_eq_some (Spec.has_iff.1 hs) hbegins hspec
      have hbetter : better raw best spec = some (spec, s.length) := by
        rw [better, hspelling]
        cases best with
        | none => rfl
        | some p => exact if_pos (hbest p rfl)
      rw [hbetter]
      refine foldl_better_kept (fun spec' hspec' t ht => ?_) spec
      obtain ⟨hmem, htbegins, -⟩ := Spec.of_spelling? ht
      exact hspecs spec' hspec' t hmem htbegins
    · rw [List.find?_cons_of_neg hs] at hfound
      refine ih hspecs hfound fun p hp => ?_
      rw [better] at hp
      cases ht : spec.spelling? raw with
      | none =>
        rw [ht] at hp
        exact hbest p hp
      | some t =>
        have hshorter : t.length < s.length := by
          obtain ⟨hmem, htbegins, -⟩ := Spec.of_spelling? ht
          refine lt_of_le_of_ne (hspec t hmem htbegins) fun hlength => hs ?_
          rw [← Spec.eq_of_beginsWith htbegins hbegins hlength]
          exact Spec.has_iff.2 hmem
        rw [ht] at hp
        cases best with
        | none =>
          cases hp
          exact hshorter
        | some q =>
          dsimp only at hp
          split at hp
          · cases hp
            exact hshorter
          · exact hbest p hp

end

section

variable (comment : Text) (specs : List Spec) {raw s : Text}

/-- a text that begins with no registered spelling is matched with nothing -/
theorem match?_of_no_spelling (h : ∀ s ∈ (extended comment specs).spellings, Spec.beginsWith raw s = false) :
    (extended comment specs).match? raw = none := by
  rw [match?, foldl_better_of_none, Option.map_none]
  intro spec hmem
  obtain ⟨e, he, rfl⟩ := List.mem_map.1 hmem
  exact Spec.spelling?_eq_none_iff.2 fun t ht => h t ((spellings_listed comment specs e he).2.2 t ht)

/-- under a registered spelling a specification is found, which is listed and has the spelling -/
theorem exists_get? (h : s ∈ (extended comment specs).spellings) : ∃ current ∈ (extended comment specs).listed,
    (extended comment specs).get? s = some current ∧ s ∈ current.spellings := by
  obtain ⟨e, he, rfl⟩ := List.mem_map.1 h
  obtain ⟨current, hcurrent⟩ := exists_getAt? he
  have hmem : (e.1, current) ∈ (extended comment specs).specs := mem_of_getAt? hcurrent
  exact ⟨current, List.mem_map.2 ⟨_, hmem, rfl⟩, hcurrent, (spellings_listed comment specs _ hmem).2.1⟩

/-- **A text is matched** with the first listed specification that has the longest spelling for its own. -/
theorem match?_eq_find? (h : (extended comment specs).Longest raw s) : (extended comment specs).match? raw =
    (extended comment specs).listed.find? (Spec.has s) := by
  obtain ⟨current, hlisted, -, hs⟩ := exists_get? comment specs h.listed
  cases hfound : (extended comment specs).listed.find? (Spec.has s) with
  | none => exact absurd (Spec.has_iff.2 hs) (List.find?_eq_none.1 hfound current hlisted)
  | some found =>
    have hlongest : ∀ spec ∈ (extended comment specs).listed, ∀ t ∈ spec.spellings,
        Spec.beginsWith raw t = true → t.length ≤ s.length := by
      intro spec hspec t ht hbegins
      obtain ⟨e, he, rfl⟩ := List.mem_map.1 hspec
      exact h.longest t ((spellings_listed comment specs e he).2.2 t ht) hbegins
    have hbest : (extended comment specs).listed.foldl (better raw) none = some (found, s.length) :=
      foldl_better h.begins hlongest hfound (by simp)
    rw [match?, ← listed, hbest]
    rfl

/-- what counts for a spelling counts first if only one specification was ever registered for it -/
theorem countsFirst_of_unique (hs : s ∈ (extended comment specs).spellings)
    (h : ∀ spec ∈ history specs, ∀ spec' ∈ history specs, s ∈ spec.spellings → s ∈ spec'.spellings → spec = spec') :
    (extended comment specs).CountsFirst s := by
  intro before spec after hsplit hspelling hne
  obtain ⟨current, hlisted, hget, hcurrent⟩ := exists_get? comment specs hs
  have hmem {spec : Spec} (hspec : spec ∈ (extended comment specs).listed) : spec ∈ history specs := by
    obtain ⟨e, he, rfl⟩ := List.mem_map.1 hspec
    exact (spellings_listed comment specs e he).1
  have hspec : spec ∈ (extended comment specs).listed := by simp [hsplit]
  rw [hget, h current (hmem hlisted) spec (hmem hspec) hcurrent hspelling] at hne
  exact absurd rfl hne

/-- **Matching and the registry**, after any registrations. The registry holds under each spelling what was registered
for it last. A text that begins with no registered spelling is matched with nothing. Else the longest such spelling
decides, and the text is matched with the first listed specification that has it for its own. This is the one that the
registry holds under the spelling exactly if it is listed before all others that have the spelling; so it is where no
other was ever registered for the spelling. -/
theorem match_agrees_iff :
    (∀ s, (extended comment specs).get? s = getAt? s ((history specs).flatMap placed).reverse) ∧
    ((∀ s ∈ (extended comment specs).spellings, Spec.beginsWith raw s = false) →
      (extended comment specs).match? raw = none) ∧
    ∀ s, (extended comment specs).Longest raw s →
      (extended comment specs).match? raw =
        (extended comment specs).listed.find? (Spec.has s) ∧
      ((extended comment specs).match? raw = (extended comment specs).get? s ↔
        (extended comment specs).CountsFirst s) ∧
      ((∀ spec ∈ history specs, ∀ spec' ∈ history specs, s ∈ spec.spellings → s ∈ spec'.spellings → spec = spec') →
        (extended comment specs).match? raw = (extended comment specs).get? s) := by
  refine ⟨get?_extended comment specs, match?_of_no_spelling comment specs, fun s h => ?_⟩
  obtain ⟨current, hlisted, hget, hcurrent⟩ := exists_get? comment specs h.listed
  have hiff : (extended comment specs).match? raw = (extended comment specs).get? s ↔
      (extended comment specs).CountsFirst s := by
    rw [match?_eq_find? comment specs h, hget,
      find?_eq_some_iff_first hlisted (Spec.has_iff.2 hcurrent)]
    simp only [CountsFirst, hget, Spec.has_iff, ne_eq, Option.some.injEq, exists_eq_right']
  exact ⟨match?_eq_find? comment specs h, hiff, fun hunique =>
    hiff.2 (countsFirst_of_unique comment specs h.listed hunique)⟩

end

/-- loops with a spelling that is registered already -/
def repeated (spelling : Text) : Spec := inlined spelling .loop "A loop by another name" .loop none [] []

/-- the keyword of loops registered again: the new specification is in the place of the old one -/
theorem agrees_for_again :
    (extended "#" [repeated "for"]).Longest "for x in xs" "for" ∧
      (extended "#" [repeated "for"]).match? "for x in xs" = (extended "#" [repeated "for"]).get? "for" ∧
      (extended "#" [repeated "for"]).CountsFirst "for" := by
  have hlongest : (extended "#" [repeated "for"]).Longest "for x in xs" "for" := ⟨by decide, by decide, by decide⟩
  have hmatch : (extended "#" [repeated "for"]).match? "for x in xs" = (extended "#" [repeated "for"]).get? "for" := by
    decide
  exact ⟨hlongest, hmatch, ((match_agrees_iff "#" [repeated "for"]).2.2 "for" hlongest).2.1.1 hmatch⟩

/-- the alias of a branch registered again, for loops: the branch is listed before, by its keyword, and is still
matched -/
theorem alias_taken_over :
    (extended "#" [repeated "else if"]).Longest "else if x" "else if" ∧
      ((extended "#" [repeated "else if"]).get? "else if").map (·.kind) = some .loop ∧
      ((extended "#" [repeated "else if"]).match? "else if x").map (·.kind) = some .elsewhen ∧
      (extended "#" [repeated "else if"]).match? "else if x" ≠
        (extended "#" [repeated "else if"]).get? "else if" := by
  refine ⟨⟨by decide, by decide, by decide⟩, by decide, by decide, by decide⟩

end Registry

end Stencil
