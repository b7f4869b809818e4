/-
NAMES IN LAYERS. A name that is put under a value has it, and all other names keep theirs; a name that a loop or a form
does not show is looked for in the layers around it, whatever loops and forms are open.

- `find?_put`, `getAt?_putAt`, `getAt?_of_mem`: looking a name up after one was put.
- `nodup_putAt`, `nodup_foldl_putAt`: names stay different when values are put under them.
- `findFrom_congr`: what a lookup depends on.
- `getAt?_layer`: the layer of a loop or a form by its names.
-/
import Stencil.Proofs.Direct

namespace Stencil

theorem getAt?_putAt {α β : Type} [BEq α] [LawfulBEq α] (a k : α) (v : β) (es : List (α × β)) :
    getAt? a (putAt k v es) = if k == a then some v else getAt? a es := by
  induction es with
  | nil => cases h : k == a <;> simp [putAt, getAt?, h]
  | cons e es ih =>
    unfold getAt? at ih ⊢
    cases hk : e.1 == k with
    | true =>
      have he : e.1 = k := beq_iff_eq.1 hk
      cases h : k == a <;> simp [putAt, he, h]
    | false =>
      cases he : e.1 == a with
      | true =>
        have hka : (k == a) = false := by
          rw [← beq_iff_eq.1 he]
          simpa using fun h => by simp [h] at hk
        simp [putAt, hk, he, hka]
      | false => simpa [putAt, hk, he] using ih

/-- a name that was put once is not put again -/
theorem keys_putAt {α β : Type} [BEq α] [LawfulBEq α] (k : α) (v : β) (es : List (α × β)) :
    (putAt k v es).map Prod.fst = if k ∈ es.map Prod.fst then es.map Prod.fst else es.map Prod.fst ++ [k] := by
  induction es with
  | nil => simp [putAt]
  | cons e es ih =>
    rw [putAt]
    split
    · rename_i heq
      simp [beq_iff_eq.1 heq]
    · rename_i hne
      have hne : k ≠ e.1 := fun heq => hne (by simp [heq])
      simp only [List.map_cons, ih, List.mem_cons, hne, false_or]
      split <;> simp

/-- different names stay different when a value is put under one -/
theorem nodup_putAt {α β : Type} [BEq α] [LawfulBEq α] {k : α} (v : β) {es : List (α × β)}
    (h : (es.map Prod.fst).Nodup) : ((putAt k v es).map Prod.fst).Nodup := by
  rw [keys_putAt]
  split
  · exact h
  · rename_i hk
    exact h.append (List.nodup_singleton k) (List.disjoint_singleton.2 hk)

theorem nodup_foldl_putAt {α β : Type} [BEq α] [LawfulBEq α] (ps : List (α × β)) {es : List (α × β)}
    (h : (es.map Prod.fst).Nodup) : ((ps.foldl (fun acc p => putAt p.1 p.2 acc) es).map Prod.fst).Nodup := by
  induction ps generalizing es with
  | nil => exact h
  | cons p ps ih => exact ih (nodup_putAt p.2 h)

theorem putAt_of_notMem {α β : Type} [BEq α] [LawfulBEq α] {key : α} {value : β} {es : List (α × β)}
    (h : key ∉ es.map (·.1)) : putAt key value es = es ++ [(key, value)] := by
  induction es with
  | nil => rfl
  | cons e es ih =>
    rw [List.map_cons, List.mem_cons, not_or] at h
    have hne : (e.1 == key) = false := by simpa using Ne.symm h.1
    rw [putAt, hne, ih h.2]
    rfl

/-- under a key that is there once is the value that stands with it -/
theorem getAt?_of_mem {α β : Type} [BEq α] [LawfulBEq α] {key : α} {value : β} {es : List (α × β)}
    (hkeys : (es.map (·.1)).Nodup) (h : (key, value) ∈ es) : getAt? key es = some value := by
  induction es with
  | nil => simp at h
  | cons e es ih =>
    rw [List.map_cons, List.nodup_cons] at hkeys
    rcases List.mem_cons.1 h with rfl | h
    · simp [getAt?]
    · have hne : (e.1 == key) = false := by
        rw [beq_eq_false_iff_ne]
        rintro rfl
        exact hkeys.1 (List.mem_map_of_mem (f := (·.1)) h)
      rw [getAt?, List.find?_cons, hne]
      exact ih hkeys.2 h

theorem mem_of_getAt? {α β : Type} [BEq α] [LawfulBEq α] {k : α} {v : β} {es : List (α × β)} (h : getAt? k es = some v) : (k, v) ∈ es := by
  obtain ⟨e, he, rfl⟩ := Option.map_eq_some_iff.1 h
  have hkey : e.1 = k := by simpa using List.find?_some he
  rw [← hkey]
  exact List.mem_of_find?_eq_some he

theorem exists_getAt? {α β : Type} [BEq α] [LawfulBEq α] {e : α × β} {es : List (α × β)} (h : e ∈ es) : ∃ v, getAt? e.1 es = some v := by
  rw [← Option.isSome_iff_exists, getAt?, Option.isSome_map, List.find?_isSome]
  exact ⟨e, h, beq_self_eq_true e.1⟩

theorem getAt?_eq_none {α β : Type} [BEq α] [LawfulBEq α] {key : α} {es : List (α × β)}
    (h : key ∉ es.map (·.1)) : getAt? key es = none := by
  rw [getAt?, Option.map_eq_none_iff, List.find?_eq_none]
  intro e he hkey
  exact h (beq_iff_eq.1 hkey ▸ List.mem_map_of_mem he)

namespace Value

/-- a value is equal to one text at most -/
theorem alike_text {v : Value} {k : Text} (h : alike v (.text k) = true) (a : Text) :
    alike v (.text a) = (k == a) := by
  cases v <;> simp [alike, sameNan, eq, eqAtom, number?] at h ⊢
  all_goals rw [h]

theorem find?_put (a k : Text) (v : Value) (es : Entries) :
    find? (.text a) (put (.text k) v es) = if a = k then some v else find? (.text a) es := by
  have hself : ∀ a k : Text, alike (.text k) (.text a) = (k == a) := fun a k => by
    simp [alike, sameNan, eq, eqAtom]
  induction es with
  | nil =>
    by_cases h : a = k
    · simp [put, find?, hself, h]
    · simp [put, find?, hself, h, Ne.symm h]
  | cons e es ih =>
    obtain ⟨k', w⟩ := e
    cases hk : alike k' (.text k) with
    | true =>
      simp only [put, hk, if_true, find?, alike_text hk a]
      by_cases h : a = k
      · simp [h]
      · simp [h, Ne.symm h]
    | false =>
      simp only [put, hk, Bool.false_eq_true, if_false, find?, ih]
      by_cases h : a = k
      · simp [h, hk]
      · simp [h]

end Value

namespace State

/-- a name is looked for in the data, the loops if it is theirs, and the forms if it is theirs -/
theorem findFrom_congr {s s' : State} (hdata : s'.data = s.data) {name : Text}
    (hloops : name = "loop".toList → s'.loops = s.loops) (hforms : name = "form".toList → s'.forms = s.forms)
    (ls : List Layer) : s'.findFrom name ls = s.findFrom name ls := by
  induction ls with
  | nil => rw [findFrom, findFrom, hdata]
  | cons l ls ih =>
    rw [findFrom, findFrom, ih]
    split
    · rfl
    · split
      · rename_i hshown
        have hname : l.shown.name = name := beq_iff_eq.1 hshown
        cases hl : l.shown with
        | loop => rw [shown, shown, hloops (by rw [← hname, hl]; rfl)]
        | form => rw [shown, shown, hforms (by rw [← hname, hl]; rfl)]
      · rfl

/-- a layer is looked at before those around it: its names, and then what it shows -/
theorem findFrom_cons (s : State) (name : Text) (l : Layer) (ls : List Layer) :
    s.findFrom name (l :: ls) =
      (Value.find? (.text name) l.names).or
        (if name = l.shown.name then some (s.shown l.shown) else s.findFrom name ls) := by
  rw [findFrom]
  cases Value.find? (.text name) l.names with
  | some v => rfl
  | none =>
    by_cases h : name = l.shown.name
    · simp [h]
    · have hne : ¬ (l.shown.name == name) = true := by simpa using Ne.symm h
      rw [if_neg h, if_neg hne]
      rfl

theorem find?_congr {s s' : State} (hdata : s'.data = s.data) (hscope : s'.scope = s.scope)
    (hloops : s'.loops = s.loops) (hforms : s'.forms = s.forms) (name : Text) : s'.find? name = s.find? name := by
  rw [find?, hscope]
  exact findFrom_congr hdata (fun _ => hloops) (fun _ => hforms) s.scope

end State

namespace Env

theorem find?_cons (env : Env) (layer : List (Text × Value)) (loops : List Loop) (forms : List Form) (name : Text) :
    find? ⟨env.data, env.catalog, env.mappings, env.escaping, layer :: env.layers, loops, forms⟩ name =
      (getAt? name layer).or (env.find? name) := by
  cases h : getAt? name layer <;> simp [find?, h]

/-- the layer of a loop or a form: the last of its names, and else its own -/
theorem getAt?_layer_nil (own name : Text) (v : Value) :
    getAt? name (layer own v []) = if name = own then some v else none := by
  by_cases h : name = own
  · simp [layer, getAt?, h]
  · simp [layer, getAt?, h, Ne.symm h]

end Env

end Stencil
