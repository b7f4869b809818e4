/-
THE ENTRY OF A KEY. A key denotes the entry under the key as it is, unless that is a mapping, and else the value at
its path. A value is a phrase by its text, unless it is nothing or a mapping. The phrase of a key is that of the entry
it denotes, wherever the entry stands, with one exception: nothing that stands under the key as it is counts as a
phrase, too, whose text is that of nothing.

- `message?_flat`, `message?_nested`: the phrase of a key, from where its entry stands.
- `contains_iff`, `gives_translate`, `direct_phrase`: a key is in a catalog, a translation has a text, and the body of
  a directive is left out, if the key has a phrase.
- `phrase_of_entry`: the whole rule, for every catalog and every key.
-/
import Stencil.Proofs.Simulation

namespace Stencil

namespace Value

/-- the phrase that a value is -/
def phrase? (v : Value) : Option Text := if v.isNone || v.isMapping then Option.none else some v.display

theorem isNone_iff {v : Value} : v.isNone = true ↔ v = .none := by
  cases v <;> simp [isNone]

/-- a text can be a key -/
theorem isKey_of_chars? {key : Value} {s : Text} (h : key.chars? = some s) : key.isKey = true := by
  cases key with
  | text s id => simp [isKey]
  | markup s id => simp [isKey]
  | _ => simp [chars?] at h

end Value

namespace Catalog

/-- the entry that a key denotes: that under the key as it is, unless it is a mapping, else the value at its path -/
def denoted? (c : Catalog) (key : Value) (s : Text) : Option Value :=
  (c.flat? key).or (follow? (.mapping c.messages) (Text.parts '.' s))

variable {c : Catalog} {key v : Value} {s : Text}

theorem isMapping_of_flat? (h : c.flat? key = some v) : v.isMapping = false := by
  obtain ⟨-, hv⟩ := Option.filter_eq_some_iff.1 h
  simpa using hv

/-- at a path of keys, the test for a phrase is that of values -/
theorem nested?_map_display (c : Catalog) (path : List Text) :
    (c.nested? path).map Value.display = (follow? (.mapping c.messages) path).bind Value.phrase? := by
  unfold nested?
  cases follow? (.mapping c.messages) path with
  | none => rfl
  | some v => cases hn : v.isNone <;> cases hm : v.isMapping <;> simp [Value.phrase?, Option.filter, hn, hm]

/-- **A key without an entry of its own** has the phrase of the value at its path. -/
theorem message?_nested (hkey : key.chars? = some s) (h : c.flat? key = none) :
    c.message? key = .ok ((c.denoted? key s).bind Value.phrase?) := by
  have hdenoted : c.denoted? key s = follow? (.mapping c.messages) (Text.parts '.' s) := by
    rw [denoted?, h, Option.none_or]
  rw [hdenoted, ← nested?_map_display]
  simp only [message?, Value.isKey_of_chars? hkey, if_true, h, hkey]

/-- **A key with an entry of its own** has the text of the entry for a phrase, whatever the entry is. -/
theorem message?_flat (hkey : key.chars? = some s) (h : c.flat? key = some v) :
    c.message? key = .ok (some v.display) := by
  simp only [message?, Value.isKey_of_chars? hkey, if_true, h]

/-- a key has a phrase or it has none: a lookup does not fail -/
theorem message?_total (c : Catalog) (hkey : key.chars? = some s) : ∃ m, c.message? key = .ok m := by
  cases h : c.flat? key with
  | none => exact ⟨_, message?_nested hkey h⟩
  | some v => exact ⟨_, message?_flat hkey h⟩

/-- a key whose own entry is not nothing has the phrase of the entry it denotes -/
theorem message?_entry (hkey : key.chars? = some s) (h : c.flat? key ≠ some .none) :
    c.message? key = .ok ((c.denoted? key s).bind Value.phrase?) := by
  cases hflat : c.flat? key with
  | none => exact message?_nested hkey hflat
  | some v =>
    have hdenoted : c.denoted? key s = some v := by rw [denoted?, hflat, Option.some_or]
    have hnone : v.isNone = false := by
      rw [Bool.eq_false_iff]
      intro hv
      exact h (by rw [hflat, Value.isNone_iff.1 hv])
    have hphrase : v.phrase? = some v.display := by
      simp [Value.phrase?, hnone, isMapping_of_flat? hflat]
    rw [message?_flat hkey hflat, hdenoted, Option.bind_some, hphrase]

/-- nothing under the key as it is denotes no phrase, and has one -/
theorem message?_nothing (hkey : key.chars? = some s) (h : c.flat? key = some .none) :
    c.message? key = .ok (some "None") ∧ (c.denoted? key s).bind Value.phrase? = none := by
  refine ⟨message?_flat hkey h, ?_⟩
  rw [denoted?, h, Option.some_or]
  rfl

/-- a key is in the catalog if it has a phrase -/
theorem contains_iff (c : Catalog) (hkey : key.chars? = some s) :
    c.contains key = true ↔ ∃ t, c.message? key = .ok (some t) := by
  obtain ⟨m, hm⟩ := message?_total c hkey
  simp [contains, hkey, hm, Option.isSome_iff_exists]

/-- a translation that does not fail has a text if the key has a phrase -/
theorem gives_translate (c : Catalog) (key params : Value) : Gives (fun _ : Asked => True) (c.translate key params)
    (fun filled => filled.text = none ↔ c.message? key = .ok none) fun _ => True := by
  refine gives_bind (T := fun m => c.message? key = .ok m) (gives_lift fun m hm => hm) fun m hm => ?_
  cases m with
  | none => exact gives_pure (by simp [hm])
  | some phrase =>
    have found (t : Text) : some t = none ↔ c.message? key = .ok none := by simp [hm]
    refine gives_bind (T := fun _ => True) (fun _ _ _ _ _ => ⟨trivial, trivial⟩) fun es _ => ?_
    cases es with
    | none => exact gives_pure (found _)
    | some es =>
      dsimp only
      split
      · exact gives_pure (found _)
      · exact gives_pure (found _)
      · exact gives_throw

end Catalog

namespace Direct

/-- a phrase of a directive that does not fail has a text if the key has a phrase -/
theorem gives_found (env : Env) (key : Text) (params : List (Text × Expr)) :
    Gives (fun _ => True) (phrase? env key params)
      (fun found => found = none ↔ env.catalog.message? (.text key) = .ok none) fun _ => True := by
  have any {α : Type} (x : Direct α) : Gives (fun _ => True) x (fun _ => True) fun _ => True :=
    fun _ _ _ _ _ => ⟨trivial, trivial⟩
  have hwork (given : Value) : Gives (fun _ => True) (work (env.catalog.translate (.text key) given))
      (fun filled => filled.text = none ↔ env.catalog.message? (.text key) = .ok none) fun _ => True := by
    intro page _ filled page' hrun
    have hrun' : ((env.catalog.translate (.text key) given).run.run page.asked).1 = .ok filled :=
      congrArg Prod.fst hrun
    exact ⟨(env.catalog.gives_translate (.text key) given page.asked trivial filled _ (Prod.ext hrun' rfl)).1, trivial⟩
  refine gives_bind (any _) fun values _ => gives_bind (any _) fun given _ => ?_
  exact gives_bind (hwork _) fun filled hfilled => gives_bind (any _) fun _ _ => gives_pure hfilled

end Direct

/-- **The body of a directive for a phrase** is interpreted if the key has no phrase; else the phrase is written. -/
theorem direct_phrase {env : Env} {key : Text} {params : List (Text × Expr)} {found : Option Text} {page page' : Page}
    (h : (Direct.phrase? env key params).run.run page = (.ok found, page')) (body : Env → Direct Unit) :
    (env.catalog.message? (.text key) = .ok none ∧
      ((Opening.phrase key params).direct env body).run.run page = (body env).run.run page') ∨
    (∃ phrase t, env.catalog.message? (.text key) = .ok (some phrase) ∧ found = some t ∧
      ((Opening.phrase key params).direct env body).run.run page = (Direct.write t).run.run page') := by
  have hfound := (Direct.gives_found env key params page trivial found page' h).1
  have hrun (k : Option Text → Direct Unit) :
      (Direct.phrase? env key params >>= k).run.run page = (k found).run.run page' := by
    rw [run_bind, h]
  cases found with
  | none => exact .inl ⟨hfound.1 rfl, hrun _⟩
  | some t =>
    obtain ⟨m, hm⟩ := env.catalog.message?_total (show (Value.text key).chars? = some key from rfl)
    cases m with
    | none => cases hfound.2 hm
    | some phrase => exact .inr ⟨phrase, t, hm, rfl, hrun _⟩

namespace Catalog

/-- **The phrase of a key is that of the entry it denotes**, wherever the entry stands, except that nothing under the
key as it is has the text of nothing. The key is in the catalog if it has a phrase, and a directive for it that comes
to its phrase interprets its body if it has none. -/
theorem phrase_of_entry (c : Catalog) {key : Value} {s : Text} (hkey : key.chars? = some s) :
    (c.message? key = .ok ((c.denoted? key s).bind Value.phrase?) ↔ c.flat? key ≠ some .none) ∧
    (c.flat? key = some .none → c.message? key = .ok (some "None")) ∧
    (c.contains key = true ↔ c.message? key ≠ .ok none) ∧
    ∀ {env : Env} {params : List (Text × Expr)} {found : Option Text} {page page' : Page} (body : Env → Direct Unit),
      env.catalog = c → key = .text s → (Direct.phrase? env s params).run.run page = (.ok found, page') →
      ((Opening.phrase s params).direct env body).run.run page =
        if c.contains key then (Direct.write (found.getD [])).run.run page' else (body env).run.run page' := by
  have hcontains : c.contains key = true ↔ c.message? key ≠ .ok none := by
    obtain ⟨m, hm⟩ := message?_total c hkey
    rw [contains_iff c hkey, hm]
    cases m <;> simp
  refine ⟨⟨fun h hflat => ?_, message?_entry hkey⟩, fun h => (message?_nothing hkey h).1, hcontains, ?_⟩
  · obtain ⟨hm, hdenoted⟩ := message?_nothing hkey hflat
    rw [hm, hdenoted] at h
    cases h
  · rintro env params found page page' body rfl rfl h
    rcases direct_phrase h body with ⟨hm, hrun⟩ | ⟨phrase, t, hm, rfl, hrun⟩
    · rw [hrun, if_neg fun hc => hcontains.1 hc hm]
    · rw [hrun, if_pos (hcontains.2 (by rw [hm]; nofun)), Option.getD_some]

/-- a key divided by points has no phrase where it reaches nothing, and the text that it reaches -/
theorem phrase_of_entry_nested :
    let c : Catalog := ⟨[(.text "a", .mapping [(.text "b", .none), (.text "c", .text "x")])], standardLocale⟩
    c.message? (.text "a.b") = .ok none ∧ c.message? (.text "a.c") = .ok (some "x") := by
  intro c
  have hb : c.flat? (.text "a.b") = none := rfl
  have hc : c.flat? (.text "a.c") = none := rfl
  constructor
  · exact (c.phrase_of_entry (show (Value.text "a.b").chars? = some _ from rfl)).1.2 (by rw [hb]; nofun)
  · exact (c.phrase_of_entry (show (Value.text "a.c").chars? = some _ from rfl)).1.2 (by rw [hc]; nofun)

/-- nothing under a key of its own is no phrase, and the key has one -/
theorem nothing_has_phrase :
    let c : Catalog := ⟨[(.text "k", .none)], standardLocale⟩
    (c.denoted? (.text "k") "k").bind Value.phrase? = none ∧ c.message? (.text "k") = .ok (some "None") ∧
      c.contains (.text "k") = true :=
  ⟨rfl, rfl, rfl⟩

end Catalog

end Stencil
