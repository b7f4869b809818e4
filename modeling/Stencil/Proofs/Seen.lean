/-
WHAT TEMPLATES SEE OF A VALUE. No path goes through an attribute whose name begins with an underscore, and nothing else
that is done with a value looks at one, but for the attribute by which a value says that it is markup. What is seen of
a value is the value with the hidden attributes of all objects in it left out, however deep they lie; whatever is done
with values comes to the same on what is seen of them.

- `Value.seen`: what is seen of a value.
- `eq_seen`, `order?_seen`: comparison.
- `literal_seen`, `display_seen`: text.
- `member_seen`, `reachAll_seen`: what a key reaches, and what keys reach one after the other.
-/
import Stencil.Proofs.Throughout

namespace Stencil

namespace Value

/-! ## Hidden attributes left out -/

/-- a name that hides an attribute: a private one, other than that by which a value says that it is markup -/
def isHidden (name : Text) : Bool := isPrivate name && name != "__html__".toList

mutual

/-- what is seen of a value -/
def seen : Value → Value
  | .list xs id => .list (seenItems xs) id
  | .tuple xs id => .tuple (seenItems xs) id
  | .mapping es => .mapping (seenEntries es)
  | .object id name fields => .object id name (seenFields fields)
  | .stream id xs => .stream id (seenItems xs)
  | .method owner name => .method (seen owner) name
  | .loop depth facts key parent => .loop depth facts (seen key) (seen parent)
  | .form depth name entity config attributes errors escaping parent =>
    .form depth name (seen entity) (seen config) (seen attributes) (seen errors) escaping (seen parent)
  | v => v

/-- what is seen of items -/
def seenItems : List Value → List Value
  | [] => []
  | x :: xs => seen x :: seenItems xs

/-- what is seen of entries -/
def seenEntries : List (Value × Value) → List (Value × Value)
  | [] => []
  | (k, v) :: es => (seen k, seen v) :: seenEntries es

/-- what is seen of attributes: those that are not hidden -/
def seenFields : List (Text × Value) → List (Text × Value)
  | [] => []
  | (name, v) :: fields => if isHidden name then seenFields fields else (name, seen v) :: seenFields fields

end

/-- what is seen of an entry -/
def seenEntry (e : Value × Value) : Value × Value := (e.1.seen, e.2.seen)

/-- what is seen of a named value -/
def seenField (f : Text × Value) : Text × Value := (f.1, f.2.seen)

theorem seenItems_eq_map (xs : List Value) : seenItems xs = xs.map seen := by
  induction xs with
  | nil => rfl
  | cons x xs ih => rw [seenItems, ih, List.map_cons]

theorem seenEntries_eq_map (es : Entries) : seenEntries es = es.map seenEntry := by
  induction es with
  | nil => rfl
  | cons e es ih => rw [seenEntries, ih, List.map_cons, seenEntry]

theorem seenFields_eq_map (fields : List (Text × Value)) :
    seenFields fields = (fields.filter fun f => !isHidden f.1).map seenField := by
  induction fields with
  | nil => rfl
  | cons f fields ih =>
    rw [seenFields, ih, List.filter_cons]
    cases isHidden f.1 <;> rfl

variable (a b v w key : Value) (es fs : Entries) (xs ys : List Value) (s : Text) (id : Identity) (n : Nat)

@[simp] theorem seen_none : seen .none = .none := rfl

@[simp] theorem seen_missing : seen .missing = .missing := rfl

@[simp] theorem seen_int (i : Int) : seen (.int i id) = .int i id := rfl

@[simp] theorem seen_text : seen (.text s id) = .text s id := rfl

@[simp] theorem seen_list : seen (.list xs id) = .list (xs.map seen) id := by rw [seen, seenItems_eq_map]

@[simp] theorem seen_tuple : seen (.tuple xs id) = .tuple (xs.map seen) id := by rw [seen, seenItems_eq_map]

@[simp] theorem seen_mapping : seen (.mapping es) = .mapping (es.map seenEntry) := by rw [seen, seenEntries_eq_map]

@[simp] theorem seen_stream : seen (.stream n xs) = .stream n (xs.map seen) := by rw [seen, seenItems_eq_map]

theorem seen_method : seen (.method v s) = .method v.seen s := rfl

theorem seen_object (fields : List (Text × Value)) :
    seen (.object n s fields) = .object n s ((fields.filter fun f => !isHidden f.1).map seenField) := by
  rw [seen, seenFields_eq_map]

theorem seen_of_chars? (hv : v.chars?.isSome = true) : v.seen = v := by
  cases v with
  | text s id => rfl
  | markup s id => rfl
  | _ => cases hv

/-! ## The shape of a value -/

@[simp] theorem kind_seen : v.seen.kind = v.kind := by cases v <;> rfl

@[simp] theorem identity_seen : v.seen.identity = v.identity := by cases v <;> rfl

@[simp] theorem isNone_seen : v.seen.isNone = v.isNone := by cases v <;> rfl

@[simp] theorem isMissing_seen : v.seen.isMissing = v.isMissing := by cases v <;> rfl

@[simp] theorem chars?_seen : v.seen.chars? = v.chars? := by cases v <;> rfl

@[simp] theorem int?_seen : v.seen.int? = v.int? := by cases v <;> rfl

@[simp] theorem number?_seen : v.seen.number? = v.number? := by cases v <;> rfl

@[simp] theorem methods_seen : v.seen.methods = v.methods := by cases v <;> rfl

theorem entries?_seen : v.seen.entries? = v.entries?.map (List.map seenEntry) := by
  cases v with
  | mapping es => rw [seen_mapping]; rfl
  | _ => rfl

@[simp] theorem isMapping_seen : v.seen.isMapping = v.isMapping := by cases v <;> rfl

@[simp] theorem truthy_seen : v.seen.truthy = v.truthy := by
  cases v with
  | list xs id => simp [truthy]
  | tuple xs id => simp [truthy]
  | mapping es => simp [truthy]
  | _ => rfl

@[simp] theorem orEmpty_seen : v.seen.orEmpty = v.orEmpty.seen := by
  rw [orEmpty, orEmpty, truthy_seen]
  cases v.truthy <;> rfl

@[simp] theorem isSingle_seen : v.seen.isSingle = v.isSingle := by
  cases v with
  | tuple xs id => simp [isSingle]
  | _ => rfl

/-! ## Comparison -/

@[simp] theorem sameNan_seen : sameNan a.seen b.seen = sameNan a b := by cases a <;> cases b <;> rfl

theorem eqAtom_seen : eqAtom a.seen b.seen = eqAtom a b := by cases a <;> cases b <;> rfl

theorem eq_mapping : eq (.mapping es) (.mapping fs) = (es.length == fs.length && subEntries es fs) := rfl

theorem eq_method (s' : Text) :
    eq (.method a s) (.method b s') = (s == s' && sameOwner (eq a b) s a b) := rfl

theorem sameOwner_seen (equal : Bool) : sameOwner equal s a.seen b.seen = sameOwner equal s a b := by
  simp only [sameOwner, sameThing, kind_seen, identity_seen, isSingle_seen]

mutual

/-- **Values are equal** if what is seen of them is. -/
theorem eq_seen (a b : Value) : eq a.seen b.seen = eq a b := by
  cases a with
  | list xs id =>
    cases b with
    | list ys id' =>
      rw [seen_list, seen_list]
      exact eqItems_seen xs ys
    | _ => rfl
  | tuple xs id =>
    cases b with
    | tuple ys id' =>
      rw [seen_tuple, seen_tuple]
      exact eqItems_seen xs ys
    | _ => rfl
  | mapping es =>
    cases b with
    | mapping fs =>
      rw [seen_mapping, seen_mapping, eq_mapping, eq_mapping, List.length_map, List.length_map, subEntries_seen es fs]
    | _ => rfl
  | method owner name =>
    cases b with
    | method owner' name' =>
      rw [seen_method, seen_method, eq_method, eq_method, eq_seen owner owner', sameOwner_seen]
    | _ => rfl
  | _ => exact eqAtom_seen _ b

theorem eqItems_seen (xs ys : List Value) : eqItems (xs.map seen) (ys.map seen) = eqItems xs ys := by
  cases xs with
  | nil => cases ys <;> rfl
  | cons x xs =>
    cases ys with
    | nil => rfl
    | cons y ys => simp only [List.map_cons, eqItems, sameNan_seen, eq_seen x y, eqItems_seen xs ys]

theorem subEntries_seen (es fs : Entries) : subEntries (es.map seenEntry) (fs.map seenEntry) = subEntries es fs := by
  cases es with
  | nil => rfl
  | cons e es =>
    obtain ⟨k, v⟩ := e
    simp only [List.map_cons, seenEntry, subEntries, List.any_map, Function.comp_def, sameNan_seen, eq_seen k,
      eq_seen v]
    rw [← subEntries_seen es fs]

end

theorem eq_ofString_seen (s : String) : eq v.seen (.ofString s) = eq v (.ofString s) := eq_seen v (.ofString s)

@[simp] theorem alike_seen : alike a.seen b.seen = alike a b := by rw [alike, alike, sameNan_seen, eq_seen]

theorem orderAtom_seen (op : Comparison) : orderAtom op a.seen b.seen = orderAtom op a b := by
  simp only [orderAtom, chars?_seen, number?_seen]
  cases a <;> cases b <;> rfl

mutual

/-- **Values stand in an order** as what is seen of them does. -/
theorem order?_seen (op : Comparison) (a b : Value) : order? op a.seen b.seen = order? op a b := by
  have hatom := orderAtom_seen a b op
  cases a with
  | list xs id =>
    cases b with
    | list ys id' =>
      rw [seen_list, seen_list]
      exact orderItems_seen op xs ys
    | _ => rfl
  | tuple xs id =>
    cases b with
    | tuple ys id' =>
      rw [seen_tuple, seen_tuple]
      exact orderItems_seen op xs ys
    | _ => rfl
  | _ => exact hatom

theorem orderItems_seen (op : Comparison) (xs ys : List Value) :
    orderItems op (xs.map seen) (ys.map seen) = orderItems op xs ys := by
  cases xs with
  | nil => simp only [List.map_nil, orderItems, List.length_map]
  | cons x xs =>
    cases ys with
    | nil => rfl
    | cons y ys => simp only [List.map_cons, orderItems, alike_seen, order?_seen op x y, orderItems_seen op xs ys]

end

theorem apply_seen (op : Comparison) : op.apply a.seen b.seen = op.apply a b := by
  cases op <;> simp only [Comparison.apply, eq_seen, order?_seen]

/-! ## Text -/

theorem literal_list : literal (.list xs id) = '[' :: Text.sep ", ".toList (literals xs) ++ [']'] := rfl

theorem literal_tuple : literal (.tuple (a :: b :: xs) id) =
    '(' :: Text.sep ", ".toList (literals (a :: b :: xs)) ++ [')'] := rfl

theorem literal_tuple_single : literal (.tuple [v] id) = '(' :: v.literal ++ [',', ')'] := rfl

theorem literal_mapping : literal (.mapping es) = '\x7b' :: Text.sep ", ".toList (entryLiterals es) ++ ['\x7d'] := rfl

theorem methodText_seen : methodText v.seen s = methodText v s := by cases v <;> rfl

mutual

/-- **A value's text inside another** is that of what is seen of it. -/
theorem literal_seen (v : Value) : v.seen.literal = v.literal := by
  cases v with
  | list xs id => rw [seen_list, literal_list, literal_list, literals_seen xs]
  | tuple xs id =>
    match xs with
    | [] => rfl
    | [x] => rw [seen_tuple, List.map_singleton, literal_tuple_single, literal_tuple_single, literal_seen x]
    | x :: y :: xs =>
      rw [seen_tuple, List.map_cons, List.map_cons, literal_tuple, literal_tuple, ← List.map_cons, ← List.map_cons,
        literals_seen (x :: y :: xs)]
  | mapping es => rw [seen_mapping, literal_mapping, literal_mapping, entryLiterals_seen es]
  | method owner name => exact methodText_seen owner name
  | _ => rfl

theorem literals_seen (xs : List Value) : literals (xs.map seen) = literals xs := by
  cases xs with
  | nil => rfl
  | cons x xs => simp only [List.map_cons, literals, literal_seen x, literals_seen xs]

theorem entryLiterals_seen (es : Entries) : entryLiterals (es.map seenEntry) = entryLiterals es := by
  cases es with
  | nil => rfl
  | cons e es =>
    obtain ⟨k, v⟩ := e
    simp only [List.map_cons, seenEntry, entryLiterals, literal_seen k, literal_seen v]
    rw [← entryLiterals_seen es]

end

@[simp] theorem display_seen : v.seen.display = v.display := by rw [display, display, chars?_seen, literal_seen]

/-! ## Keys and entries -/

mutual

theorem isKey_seen (v : Value) : v.seen.isKey = v.isKey := by
  cases v with
  | tuple xs id => simpa only [seen_tuple, isKey] using areKeys_seen xs
  | _ => rfl

theorem areKeys_seen (xs : List Value) : areKeys (xs.map seen) = areKeys xs := by
  cases xs with
  | nil => rfl
  | cons x xs => simp only [List.map_cons, areKeys, isKey_seen x, areKeys_seen xs]

end

@[simp] theorem find?_seen : find? key.seen (es.map seenEntry) = (find? key es).map seen := by
  induction es with
  | nil => rfl
  | cons e es ih =>
    simp only [List.map_cons, seenEntry, find?, alike_seen]
    cases alike e.1 key with
    | true => rfl
    | false => exact ih

@[simp] theorem find?_text_seen : find? (.text s) (es.map seenEntry) = (find? (.text s) es).map seen :=
  find?_seen (.text s) es

theorem find?_ofString_seen (s : String) :
    find? (.ofString s) (es.map seenEntry) = (find? (.ofString s) es).map seen :=
  find?_seen (.ofString s) es

/-- a value found, or else one of which all is seen -/
theorem seen_getD (found : Option Value) {d : Value} (hd : d.seen = d) :
    (found.map seen).getD d = (found.getD d).seen := by
  cases found with
  | none => exact hd.symm
  | some v => rfl

theorem put_seen : put key.seen v.seen (es.map seenEntry) = (put key v es).map seenEntry := by
  induction es with
  | nil => rfl
  | cons e es ih =>
    simp only [List.map_cons, seenEntry, put, alike_seen]
    cases alike e.1 key with
    | true => rfl
    | false => exact congrArg ((e.1.seen, e.2.seen) :: ·) ih

theorem put_text_seen : put (.text s) v.seen (es.map seenEntry) = (put (.text s) v es).map seenEntry :=
  put_seen v (.text s) es

theorem put_ofString_seen (s : String) :
    put (.ofString s) v.seen (es.map seenEntry) = (put (.ofString s) v es).map seenEntry :=
  put_seen v (.ofString s) es

theorem putAll_seen : putAll (es.map seenEntry) (fs.map seenEntry) = (putAll es fs).map seenEntry := by
  unfold putAll
  induction fs generalizing es with
  | nil => rfl
  | cons e fs ih => simp only [List.map_cons, List.foldl_cons, seenEntry, put_seen, ← ih]

theorem erase_seen : erase key.seen (es.map seenEntry) = (erase key es).map seenEntry := by
  simp only [erase, List.filter_map, Function.comp_def, seenEntry, alike_seen]

/-! ## What is reached -/

theorem fields_seen (hv : v.kind ≠ .object) : v.seen.fields = v.fields.map seenField := by
  cases v with
  | object id name fields => exact absurd rfl hv
  | _ => rfl

/-- the attribute of a value under a name that is not hidden -/
theorem attribute?_seen {name : Text} (hname : isHidden name = false) :
    v.seen.attribute? name = (v.attribute? name).map seen := by
  have hfind : (v.seen.fields.find? fun f => f.1 == name) = (v.fields.find? fun f => f.1 == name).map seenField := by
    by_cases hv : v.kind = .object
    · cases v with
      | object id text fields =>
        -- a field of this name is not among those that are left out
        have hkept (f : Text × Value) : (!isHidden f.1 && f.1 == name) = (f.1 == name) := by
          by_cases hf : f.1 = name
          · simp [hf, hname]
          · simp [hf]
        rw [seen_object]
        simp only [Value.fields, List.find?_map, List.find?_filter, Function.comp_def, seenField, ← Bool.and_eq_true,
          Bool.decide_eq_true, hkept]
      | _ => cases hv
    · rw [fields_seen v hv, List.find?_map]
      rfl
  rw [attribute?, attribute?, hfind, methods_seen]
  cases v.fields.find? fun f => f.1 == name with
  | some f => rfl
  | none => cases v.methods.any fun m => m.toList == name <;> rfl

theorem item?_seen (i : Nat) : v.seen.item? i = (v.item? i).map seen := by
  cases v with
  | list xs id => simp [item?]
  | tuple xs id => simp [item?]
  | range start stop step id =>
    simp only [seen, item?]
    split <;> rfl
  | _ => rfl

theorem valueUnder?_seen : valueUnder? (es.map seenEntry) key.seen = (valueUnder? es key).map seen := by
  simp only [valueUnder?, find?_seen, int?_seen, display_seen, find?_text_seen]
  cases find? key es with
  | some v => rfl
  | none => cases key.int?.isSome <;> rfl

theorem member_of_not_mapping (hv : v.isMapping = false) :
    v.member key =
      match key.int?, key.chars? with
      | some i, _ => if i < 0 then .missing else (v.item? i.toNat).getD .missing
      | _, some s => if isPrivate s then .missing else (v.attribute? s).getD .missing
      | _, _ => .missing := by
  cases v with
  | mapping es => cases hv
  | _ => rfl

theorem isHidden_of_not_private {name : Text} (h : isPrivate name = false) : isHidden name = false := by
  rw [isHidden, h, Bool.false_and]

/-- **What a key reaches** in what is seen of a value is seen of what it reaches in the value. -/
theorem member_seen : v.seen.member key.seen = (v.member key).seen := by
  cases hv : v.isMapping with
  | true =>
    cases v with
    | mapping es =>
      rw [seen_mapping]
      simp only [member, valueUnder?_seen, seen_getD _ seen_missing]
    | _ => cases hv
  | false =>
    rw [member_of_not_mapping v key hv, member_of_not_mapping v.seen key.seen (by rwa [isMapping_seen]), int?_seen,
      chars?_seen]
    cases key.int? with
    | some i =>
      by_cases hi : i < 0
      · simp only [hi, if_true, seen_missing]
      · simp only [hi, if_false, item?_seen, seen_getD _ seen_missing]
    | none =>
      cases key.chars? with
      | none => rfl
      | some s =>
        cases hs : isPrivate s with
        | true => simp only [hs, if_true, seen_missing]
        | false =>
          simp only [hs, Bool.false_eq_true, if_false, attribute?_seen v (isHidden_of_not_private hs),
            seen_getD _ seen_missing]

theorem isBeyond_seen : v.seen.isBeyond key.seen = v.isBeyond key := by
  unfold isBeyond
  rw [int?_seen]
  cases v <;> rfl

theorem reach_seen : v.seen.reach key.seen = (v.reach key).map seen := by
  rw [reach, reach, isMapping_seen, isKey_seen, isBeyond_seen, member_seen]
  split
  · rfl
  · split <;> rfl

/-- **What keys reach one after the other** in what is seen of a value is seen of what they reach in the value. -/
theorem reachAll_seen (keys : List Value) :
    v.seen.reachAll (keys.map seen) = (v.reachAll keys).map (Option.map seen) := by
  induction keys generalizing v with
  | nil => rfl
  | cons k keys ih =>
    rw [List.map_cons, reachAll, reachAll, reach_seen]
    cases v.reach k with
    | error e => rfl
    | ok w =>
      show (if w.seen.isMissing then _ else _) = Except.map _ (if w.isMissing then _ else _)
      rw [isMissing_seen]
      cases w.isMissing with
      | true => rfl
      | false => exact ih w

theorem reachAll_segments_seen (path : List Segment) :
    v.seen.reachAll (path.map Segment.toValue) = (v.reachAll (path.map Segment.toValue)).map (Option.map seen) := by
  have hpath : (path.map Segment.toValue).map seen = path.map Segment.toValue := by
    rw [List.map_map]
    exact List.map_congr_left fun segment _ => by cases segment <;> rfl
  rw [← reachAll_seen, hpath]

theorem current_seen (asked : Asked) : v.seen.current asked = (v.current asked).seen := by
  cases v with
  | method owner name =>
    cases owner with
    | stream id xs =>
      simp only [seen, current, seenItems_eq_map, List.length_map]
      split
      · rfl
      · rw [seen, seen, seenItems_eq_map]
    | _ => rfl
  | _ => rfl

/-! ## Mappings -/

theorem noMethod_seen {name : Text} (hname : isHidden name = false) : v.seen.noMethod name = v.noMethod name := by
  rw [noMethod, noMethod, attribute?_seen v hname, Option.isSome_map]

theorem get?_seen : v.seen.get? key.seen = (v.get? key).map (Option.map seen) := by
  have hmethod : v.seen.noMethod "get" = v.noMethod "get" := noMethod_seen v rfl
  cases v with
  | mapping es =>
    rw [seen_mapping]
    simp only [get?, isKey_seen, find?_seen]
    split <;> rfl
  | _ => exact congrArg Except.error hmethod

theorem mappingEntries_seen : v.seen.mappingEntries = v.mappingEntries.map (List.map seenEntry) := by
  have hmethod : v.seen.noMethod "items" = v.noMethod "items" := noMethod_seen v rfl
  cases v with
  | mapping es =>
    rw [seen_mapping]
    rfl
  | _ => exact congrArg Except.error hmethod

theorem merge_seen : v.seen.merge w.seen = (v.merge w).map (List.map seenEntry) := by
  cases v with
  | mapping es =>
    cases w with
    | mapping fs =>
      rw [seen_mapping, seen_mapping]
      exact congrArg Except.ok (putAll_seen es fs)
    | _ => rw [seen_mapping]; rfl
  | _ => rfl

/-! ## Items -/

theorem plainItems?_seen : v.seen.plainItems? = v.plainItems?.map (List.map seen) := by
  cases v with
  | text s id => simp [plainItems?]
  | markup s id => simp [plainItems?, seen]
  | bytes bs id => simp [plainItems?, seen]
  | list xs id => rw [seen_list]; rfl
  | tuple xs id => rw [seen_tuple]; rfl
  | mapping es => simp [plainItems?, seenEntry]
  | range start stop step id => simp [plainItems?, seen, rangeItems]
  | _ => rfl

theorem numbered_seen : numbered (xs.map seen) = (numbered xs).map seenEntry := by
  simp [numbered, List.zipIdx_map, seenEntry]

end Value

end Stencil
