/-
PROPERTIES OF ALL THAT A VALUE HOLDS. A property holds throughout a value if it holds of the value, of its parts, of
their parts, and so on. A render reaches what it was given and what it makes itself; a property of what it makes that
holds throughout what it was given therefore holds throughout whatever it reaches.

- `throughout_member`: what a key reaches.
- `throughout_expr`: the value of an expression.
- `throughout_pairs`: what a loop goes through.
- `Env.Throughout.reach`: what a path reaches in an environment.
-/
import Stencil.Proofs.Direct

namespace Stencil

namespace Value

/-- what can be reached in a value; a method does not give its owner -/
def parts : Value → List Value
  | .list xs .. => xs
  | .tuple xs .. => xs
  | .mapping es => es.flatMap fun e => [e.1, e.2]
  | .object _ _ fields => fields.map (·.2)
  | .stream _ xs => xs
  | .loop _ _ key parent => [key, parent]
  | .form _ _ entity config attributes errors _ parent => [entity, config, attributes, errors, parent]
  | _ => []

/-- the property holds of the value, and throughout its parts -/
inductive Throughout (P : Value → Prop) : Value → Prop
  | intro {v : Value} (here : P v) (inside : ∀ w ∈ v.parts, w.Throughout P) : v.Throughout P

/-- a value of a kind that a render makes itself; it makes forms too, of what it was given -/
def isMade : Value → Bool
  | .none => true
  | .bool _ => true
  | .int _ _ => true
  | .float _ _ => true
  | .nan _ => true
  | .text _ _ => true
  | .mapping _ => true
  | .method _ _ => true
  | .loop _ _ _ _ => true
  | _ => false

/-- the property holds of whatever a render makes itself -/
def Made (P : Value → Prop) : Prop := ∀ v : Value, v.isMade = true → P v

variable {P : Value → Prop}

theorem Throughout.here {v : Value} (h : v.Throughout P) : P v := by
  obtain ⟨h, -⟩ := h
  exact h

theorem Throughout.inside {v w : Value} (h : v.Throughout P) (hw : w ∈ v.parts) : w.Throughout P := by
  obtain ⟨-, h⟩ := h
  exact h w hw

theorem throughout_iff {v : Value} : v.Throughout P ↔ P v ∧ ∀ w ∈ v.parts, w.Throughout P :=
  ⟨fun h => ⟨h.here, fun _ hw => h.inside hw⟩, fun h => ⟨h.1, h.2⟩⟩

theorem Throughout.mono {Q : Value → Prop} (hPQ : ∀ v, P v → Q v) {v : Value} (h : v.Throughout P) :
    v.Throughout Q := by
  induction h with
  | intro here _ ih => exact ⟨hPQ _ here, ih⟩

/-- the property holds throughout all keys and values -/
def EntriesThroughout (P : Value → Prop) (es : Entries) : Prop := ∀ e ∈ es, e.1.Throughout P ∧ e.2.Throughout P

theorem entriesThroughout_nil : EntriesThroughout P [] := by simp [EntriesThroughout]

/-- what a render makes itself has the property throughout if it has no parts -/
theorem throughout_atom (hP : Made P) {v : Value} (hv : v.isMade = true) (hparts : v.parts = []) : v.Throughout P :=
  ⟨hP v hv, by simp [hparts]⟩

theorem throughout_mapping_iff {es : Entries} :
    Throughout P (.mapping es) ↔ P (.mapping es) ∧ EntriesThroughout P es := by
  refine ⟨fun h => ⟨h.here, fun e he => ⟨h.inside ?_, h.inside ?_⟩⟩, fun h => ⟨h.1, fun w hw => ?_⟩⟩
  · exact List.mem_flatMap.2 ⟨e, he, by simp⟩
  · exact List.mem_flatMap.2 ⟨e, he, by simp⟩
  · obtain ⟨e, he, hw⟩ := List.mem_flatMap.1 hw
    simp only [List.mem_cons, List.not_mem_nil, or_false] at hw
    rcases hw with rfl | rfl
    · exact (h.2 e he).1
    · exact (h.2 e he).2

theorem throughout_mapping (hP : Made P) {es : Entries} : Throughout P (.mapping es) ↔ EntriesThroughout P es :=
  throughout_mapping_iff.trans (and_iff_right (hP _ rfl))

/-! ## Entries -/

theorem mem_of_find? {es : Entries} {key v : Value} (h : find? key es = some v) : ∃ e ∈ es, e.2 = v := by
  induction es with
  | nil => cases h
  | cons e es ih =>
    rw [find?] at h
    split at h
    · exact ⟨e, List.mem_cons_self, Option.some.inj h⟩
    · obtain ⟨e', he', hv⟩ := ih h
      exact ⟨e', List.mem_cons_of_mem e he', hv⟩

theorem throughout_find? {es : Entries} (h : EntriesThroughout P es) {key v : Value} (hv : find? key es = some v) :
    v.Throughout P := by
  obtain ⟨e, he, rfl⟩ := mem_of_find? hv
  exact (h e he).2

theorem EntriesThroughout.put {es : Entries} (h : EntriesThroughout P es) {key v : Value} (hkey : key.Throughout P)
    (hv : v.Throughout P) : EntriesThroughout P (put key v es) := by
  induction es with
  | nil => exact List.forall_mem_singleton.2 ⟨hkey, hv⟩
  | cons e es ih =>
    obtain ⟨he, hes⟩ := List.forall_mem_cons.1 h
    rw [Value.put]
    split
    · exact List.forall_mem_cons.2 ⟨⟨he.1, hv⟩, hes⟩
    · exact List.forall_mem_cons.2 ⟨he, ih hes⟩

theorem EntriesThroughout.putAll {es more : Entries} (h : EntriesThroughout P es) (hmore : EntriesThroughout P more) :
    EntriesThroughout P (putAll es more) := by
  unfold Value.putAll
  induction more generalizing es with
  | nil => exact h
  | cons e more ih =>
    obtain ⟨he, hmore⟩ := List.forall_mem_cons.1 hmore
    exact ih (h.put he.1 he.2) hmore

theorem entriesThroughout_numbered (hP : Made P) {xs : List Value} (h : ∀ x ∈ xs, x.Throughout P) :
    EntriesThroughout P (numbered xs) := by
  intro e he
  obtain ⟨p, hp, rfl⟩ := List.mem_map.1 he
  exact ⟨throughout_atom hP rfl rfl, h _ (List.fst_mem_of_mem_zipIdx hp)⟩

theorem throughout_rangeItems (hP : Made P) (a b c : Int) : ∀ x ∈ rangeItems a b c, x.Throughout P := by
  intro x hx
  obtain ⟨i, -, rfl⟩ := List.mem_map.1 hx
  exact throughout_atom hP rfl rfl

/-! ## What is reached -/

theorem throughout_fields (hP : Made P) {v : Value} (h : v.Throughout P) : ∀ f ∈ v.fields, f.2.Throughout P := by
  have hatom (w : Value) (hw : w.isMade = true ∧ w.parts = []) : w.Throughout P := throughout_atom hP hw.1 hw.2
  cases v with
  | object id name fields =>
    intro f hf
    exact h.inside (List.mem_map_of_mem hf)
  | loop depth facts key parent =>
    have hparts : ∀ w ∈ [key, parent], w.Throughout P := fun w hw => h.inside hw
    simp only [List.forall_mem_cons] at hparts
    simp [fields, hparts, hatom, isMade, parts]
  | form depth name entity config attributes errors escaping parent =>
    have hparts : ∀ w ∈ [entity, config, attributes, errors, parent], w.Throughout P := fun w hw => h.inside hw
    simp only [List.forall_mem_cons] at hparts
    simp [fields, hparts, hatom, isMade, parts]
  | _ => simp [fields, hatom, isMade, parts]

theorem throughout_attribute? (hP : Made P) {v w : Value} (h : v.Throughout P) {name : Text}
    (hw : v.attribute? name = some w) : w.Throughout P := by
  unfold attribute? at hw
  split at hw
  · rename_i f hf
    cases hw
    exact throughout_fields hP h f (List.mem_of_find?_eq_some hf)
  · split at hw
    · cases hw
      exact throughout_atom hP rfl rfl
    · cases hw

theorem throughout_item? (hP : Made P) {v w : Value} (h : v.Throughout P) {i : Nat} (hw : v.item? i = some w) :
    w.Throughout P := by
  cases v with
  | list xs id => exact h.inside (List.mem_of_getElem? hw)
  | tuple xs id => exact h.inside (List.mem_of_getElem? hw)
  | range a b c id =>
    simp only [item?] at hw
    split at hw
    · cases hw
      exact throughout_atom hP rfl rfl
    · cases hw
  | _ => cases hw

theorem throughout_valueUnder? {es : Entries} (h : EntriesThroughout P es) {key w : Value}
    (hw : valueUnder? es key = some w) : w.Throughout P := by
  unfold valueUnder? at hw
  split at hw
  · rename_i v hv
    cases hw
    exact throughout_find? h hv
  · split at hw
    · exact throughout_find? h hw
    · cases hw

theorem throughout_getD {found : Option Value} (h : ∀ w, found = some w → w.Throughout P) :
    (found.getD .missing).Throughout P ∨ found.getD .missing = .missing := by
  cases found with
  | none => exact .inr rfl
  | some w => exact .inl (h w rfl)

/-- **What a key reaches** has the property throughout, or is not there. -/
theorem throughout_member (hP : Made P) {v : Value} (h : v.Throughout P) (key : Value) :
    (v.member key).Throughout P ∨ v.member key = .missing := by
  unfold member
  split
  · exact throughout_getD fun w hw => throughout_valueUnder? ((throughout_mapping hP).1 h) hw
  · split
    · split
      · exact .inr rfl
      · exact throughout_getD fun w hw => throughout_item? hP h hw
    · split
      · exact .inr rfl
      · exact throughout_getD fun w hw => throughout_attribute? hP h hw
    · exact .inr rfl

/-- what keys reach one after the other has the property throughout -/
theorem throughout_reachAll (hP : Made P) {v w : Value} (h : v.Throughout P) {keys : List Value}
    (hw : v.reachAll keys = .ok (some w)) : w.Throughout P := by
  induction keys generalizing v with
  | nil =>
    cases hw
    exact h
  | cons k keys ih =>
    rw [reachAll, bind_eq_ok] at hw
    obtain ⟨u, hu, hw⟩ := hw
    split at hw
    · cases hw
    · rename_i hthere
      have hmember : u = v.member k := by
        unfold reach at hu
        split at hu
        · cases hu
        · split at hu <;> cases hu
          rfl
      refine ih ?_ hw
      rw [hmember] at hthere ⊢
      exact (throughout_member hP h k).resolve_right fun hm => hthere (by rw [hm]; rfl)

theorem throughout_current (hP : Made P) {v : Value} (h : v.Throughout P) (asked : Asked) :
    (v.current asked).Throughout P := by
  unfold current
  split
  · split
    · exact throughout_atom hP rfl rfl
    · exact h
  · exact h

theorem orEmpty_mapping (es : Entries) : (mapping es).orEmpty = .mapping es := by cases es <;> rfl

theorem throughout_orEmpty (hP : Made P) {v : Value} (h : v.Throughout P) : v.orEmpty.Throughout P := by
  unfold orEmpty
  split
  · exact h
  · exact throughout_atom hP rfl rfl

/-- **What a loop goes through** has the property throughout. -/
theorem throughout_pairs (hP : Made P) {v : Value} (hv : v.Throughout P) {asked asked' : Asked} {es : Entries}
    (h : v.pairs.run.run asked = (.ok es, asked')) : EntriesThroughout P es := by
  cases v with
  | mapping es =>
    cases h
    exact (throughout_mapping hP).1 hv
  | list xs id =>
    cases h
    exact entriesThroughout_numbered hP fun x hx => hv.inside hx
  | tuple xs id =>
    cases h
    exact entriesThroughout_numbered hP fun x hx => hv.inside hx
  | range a b c id =>
    cases h
    exact entriesThroughout_numbered hP (throughout_rangeItems hP a b c)
  | stream id xs =>
    cases h
    exact entriesThroughout_numbered hP fun x hx => hv.inside (List.mem_of_mem_drop hx)
  | _ =>
    cases h
    exact entriesThroughout_nil

end Value

/-! ## Expressions -/

section

variable {P : Value → Prop} (hP : Value.Made P)

include hP

theorem throughout_literal {l : Literal} {v : Value} (h : l.eval = .ok v) : v.Throughout P := by
  have hvalue : l.toValue.Throughout P := by
    cases l <;> exact Value.throughout_atom hP rfl rfl
  unfold Literal.eval at h
  split at h
  · cases h
  · cases h
    exact hvalue

/-- **The value of an expression** has the property throughout if what its paths reach has. -/
theorem throughout_expr {reach : Reach} (hreach : ∀ path v, reach path = .ok (some v) → v.Throughout P) {e : Expr}
    {v : Value} (h : e.eval reach = .ok v) : v.Throughout P := by
  cases e with
  | literal l => exact throughout_literal hP h
  | lookup path default =>
    simp only [Expr.eval, bind_eq_ok] at h
    obtain ⟨d, hd, found, hfound, h⟩ := h
    cases h
    cases found with
    | none => exact throughout_literal hP hd
    | some w => exact hreach path w hfound
  | demand path reference =>
    simp only [Expr.eval, bind_eq_ok] at h
    obtain ⟨found, hfound, h⟩ := h
    cases found with
    | none => cases h
    | some w =>
      cases h
      exact hreach path _ hfound

theorem throughout_loops {ls : List Loop} (h : ∀ l ∈ ls, l.key.Throughout P) : (Loop.value ls).Throughout P := by
  induction ls with
  | nil => exact Value.throughout_atom hP rfl rfl
  | cons l ls ih =>
    obtain ⟨hl, hls⟩ := List.forall_mem_cons.1 h
    exact ⟨hP _ rfl, by simp [Loop.value, Value.parts, hl, ih hls]⟩

theorem throughout_attributes (a : Attributes) : a.toValue.Throughout P := by
  refine (Value.throughout_mapping hP).2 fun e he => ?_
  obtain ⟨p, -, rfl⟩ := List.mem_map.1 he
  exact ⟨Value.throughout_atom hP rfl rfl, Value.throughout_atom hP rfl rfl⟩

/-- the names that a template refers to have values with the property throughout if the data have it -/
theorem throughout_scopeOf {data : Value} {values : List (Text × Value)} {es : Entries} (hdata : data.Throughout P)
    (hvalues : ∀ v ∈ values, v.2.Throughout P) (h : Template.scopeOf data values = .ok es) :
    Value.EntriesThroughout P es := by
  have hmore : Value.EntriesThroughout P (values.map fun v => (Value.text v.1, v.2)) := by
    intro e he
    obtain ⟨v, hv, rfl⟩ := List.mem_map.1 he
    exact ⟨Value.throughout_atom hP rfl rfl, hvalues v hv⟩
  unfold Template.scopeOf at h
  split at h
  · cases h
  · have hscope := Value.throughout_orEmpty hP hdata
    unfold Value.merge at h
    split at h
    · rename_i es' fs hes hfs
      cases h
      cases hfs
      rw [hes, Value.throughout_mapping hP] at hscope
      exact hscope.putAll (Value.entriesThroughout_nil.putAll hmore)
    · cases h

end

/-! ## Environments -/

/-- the property holds throughout all that an environment shows -/
structure Env.Throughout (P : Value → Prop) (env : Env) : Prop where
  data : Value.EntriesThroughout P env.data
  layers : ∀ l ∈ env.layers, ∀ p ∈ l, p.2.Throughout P
  loops : ∀ l ∈ env.loops, l.key.Throughout P
  forms : (Form.value env.forms).Throughout P

namespace Env.Throughout

variable {P : Value → Prop} {env : Env}

theorem find? (h : env.Throughout P) {name : Text} {v : Value} (hv : env.find? name = some v) : v.Throughout P := by
  rw [Env.find?, Option.or_eq_some_iff] at hv
  rcases hv with hv | ⟨-, hv⟩
  · obtain ⟨l, hl, hv⟩ := List.exists_of_findSome?_eq_some hv
    obtain ⟨p, hp, rfl⟩ := Option.map_eq_some_iff.1 hv
    exact h.layers l hl p (List.mem_of_find?_eq_some hp)
  · exact Value.throughout_find? h.data hv

/-- **What a path reaches** in an environment has the property throughout. -/
theorem reach (h : env.Throughout P) (hP : Value.Made P) (asked : Asked) (path : List Segment) (v : Value)
    (hv : env.reach asked path = .ok (some v)) : v.Throughout P := by
  unfold Env.reach at hv
  split at hv
  · split at hv
    · cases hv
    · rename_i root rest _ w hw
      split at hv
      · cases hv
      · rw [map_eq_ok] at hv
        obtain ⟨found, hfound, hv⟩ := hv
        obtain ⟨u, rfl, rfl⟩ := Option.map_eq_some_iff.1 hv
        exact Value.throughout_current hP (Value.throughout_reachAll hP (h.find? hw) hfound) asked
  · cases hv

end Env.Throughout

namespace Env

theorem forall_layer {Q : Value → Prop} {own : Text} {v : Value} (hv : Q v) {names : List (Text × Value)}
    (hnames : ∀ p ∈ names, Q p.2) : ∀ p ∈ layer own v names, Q p.2 := by
  have hputs : ∀ (names l : List (Text × Value)), (∀ p ∈ names, Q p.2) → (∀ p ∈ l, Q p.2) →
      ∀ p ∈ names.foldl (fun l p => putAt p.1 p.2 l) l, Q p.2 := by
    intro names
    induction names with
    | nil => exact fun l _ hl => hl
    | cons n names ih =>
      intro l hnames hl
      obtain ⟨hn, hnames⟩ := List.forall_mem_cons.1 hnames
      exact ih _ hnames (forall_putAt hn hl)
  exact hputs names _ hnames (List.forall_mem_singleton.2 hv)

variable {P : Value → Prop} {env : Env}

/-- inside an iteration over an entry with the property -/
theorem Throughout.inLoop (h : env.Throughout P) (hP : Value.Made P) (names : List Text) (count index : Nat)
    {e : Value × Value} (he : e.1.Throughout P ∧ e.2.Throughout P) : (env.inLoop names count index e).Throughout P := by
  have hloops : ∀ l ∈ (env.inLoop names count index e).loops, l.key.Throughout P :=
    List.forall_mem_cons.2 ⟨he.1, h.loops⟩
  have hnames : ∀ p ∈ bindings names e, p.2.Throughout P := by
    unfold bindings
    split <;> simp [he]
  exact ⟨h.data, List.forall_mem_cons.2 ⟨forall_layer (throughout_loops hP hloops) hnames, h.layers⟩, hloops, h.forms⟩

/-- inside a form that shows what has the property -/
theorem Throughout.inForm (h : env.Throughout P) {f : Form} (hforms : (Form.value (f :: env.forms)).Throughout P) :
    (env.inForm f).Throughout P :=
  ⟨h.data, List.forall_mem_cons.2 ⟨forall_layer hforms nofun, h.layers⟩, h.loops, hforms⟩

end Env

end Stencil
