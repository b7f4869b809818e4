/-
LIKENESS OF VALUES. A value without parts is told from others by its atom: the exact number that it is, its characters,
what it counts, or which thing it is. Keys are alike if their atoms are, and those of tuples if their items are, so that
likeness of keys is an equivalence. Two mappings with as many entries are equal if the entries of one have their like in
the other; where no two keys of a mapping are alike, it does not matter which of the two is the one.

- `Exact.order_eq`: numbers stand in the order of their exact values.
- `likeAtom_iff`, `alike_iff_essence`: values without parts, and keys, by what tells them.
- `Value.WellFormed`: in every mapping that a value holds the keys differ.
- `exists_of_covers`: as many things as those that they cover are all covered by them.
- `eq_comm_of_wellFormed`: equality does not depend on which value comes first.
-/
import Mathlib.Data.Rat.Cast.Order
import Mathlib.Order.WithBot
import Mathlib.Tactic
import Stencil.Value.Order

namespace Stencil

/-! ## Exact values -/

/-- two pairs that stand in the same order compare alike -/
theorem compare_congr {α β : Type} [LinearOrder α] [LinearOrder β] {a b : α} {c d : β} (hless : a < b ↔ c < d)
    (hmore : b < a ↔ d < c) : compare a b = compare c d := by
  rcases lt_trichotomy a b with h | rfl | h
  · rw [compare_lt_iff_lt.2 h, compare_lt_iff_lt.2 (hless.1 h)]
  · have hle : c ≤ d := not_lt.1 fun h => lt_irrefl a (hmore.2 h)
    have hge : d ≤ c := not_lt.1 fun h => lt_irrefl a (hless.2 h)
    have hsame : c = d := le_antisymm hle hge
    rw [compare_eq_iff_eq.2 rfl, compare_eq_iff_eq.2 hsame]
  · rw [compare_gt_iff_gt.2 h, compare_gt_iff_gt.2 (hmore.1 h)]

namespace Binary64

/-- the exact value of a double; the infinities lie beyond all numbers -/
def value : Binary64 → WithBot (WithTop ℚ)
  | finite s m e => (((signed s m : ℚ) * 2 ^ e : ℚ) : WithTop ℚ)
  | infinite s => if s then ⊥ else ((⊤ : WithTop ℚ) : WithBot (WithTop ℚ))

theorem orderDyadic_eq (a e b f : Int) : orderDyadic a e b f = compare ((a : ℚ) * 2 ^ e) ((b : ℚ) * 2 ^ f) := by
  have hscale : (0 : ℚ) < 2 ^ min e f := by positivity
  -- both are whole multiples of the smaller power
  have hvalue (n k : Int) (hk : min e f ≤ k) :
      (n : ℚ) * 2 ^ k = ((n * Int.pow 2 (k - min e f).toNat : Int) : ℚ) * 2 ^ min e f := by
    have hpow : ((Int.pow 2 (k - min e f).toNat : Int) : ℚ) = 2 ^ (k - min e f) := by
      obtain ⟨j, hj⟩ := Int.eq_ofNat_of_zero_le (show 0 ≤ k - min e f by omega)
      rw [hj]
      show (((2 : Int) ^ (j : Int).toNat : Int) : ℚ) = 2 ^ (j : Int)
      simp
    rw [Int.cast_mul, hpow, mul_assoc, ← zpow_add₀ (by norm_num), sub_add_cancel]
  rw [orderDyadic, hvalue a e (min_le_left e f), hvalue b f (min_le_right e f)]
  refine compare_congr ?_ ?_
  · rw [mul_lt_mul_iff_left₀ hscale, Int.cast_lt]
  · rw [mul_lt_mul_iff_left₀ hscale, Int.cast_lt]

end Binary64

namespace Value

/-- the value of an exact number -/
def Exact.value : Exact → WithBot (WithTop ℚ)
  | .int n => ((n : ℚ) : WithTop ℚ)
  | .float x => x.value

theorem compare_finite (p q : ℚ) :
    compare ((p : WithTop ℚ) : WithBot (WithTop ℚ)) ((q : WithTop ℚ) : WithBot (WithTop ℚ)) = compare p q :=
  compare_congr (by rw [WithBot.coe_lt_coe, WithTop.coe_lt_coe]) (by rw [WithBot.coe_lt_coe, WithTop.coe_lt_coe])

/-- an infinity lies beyond all numbers -/
theorem compare_infinite (q : ℚ) (t : Bool) :
    compare ((q : WithTop ℚ) : WithBot (WithTop ℚ)) (Binary64.infinite t).value = if t then .gt else .lt := by
  cases t with
  | true => exact compare_gt_iff_gt.2 (WithBot.bot_lt_coe _)
  | false => exact compare_lt_iff_lt.2 (WithBot.coe_lt_coe.2 (WithTop.coe_lt_top q))

theorem orderInt_eq (n : Int) (y : Binary64) :
    Binary64.orderInt n y = compare (Exact.int n).value (Exact.float y).value := by
  cases y with
  | finite t m f =>
    rw [Binary64.orderInt, Binary64.orderDyadic_eq, zpow_zero, mul_one]
    exact (compare_finite _ _).symm
  | infinite t => exact (compare_infinite n t).symm

theorem order_eq (x y : Binary64) : Binary64.order x y = compare (Exact.float x).value (Exact.float y).value := by
  cases x with
  | finite s m e =>
    cases y with
    | finite t n f =>
      rw [Binary64.order, Binary64.orderDyadic_eq]
      exact (compare_finite _ _).symm
    | infinite t => exact (compare_infinite _ t).symm
  | infinite s =>
    cases y with
    | finite t n f =>
      have hswap : compare (Exact.float (.infinite s)).value (Exact.float (.finite t n f)).value =
          (compare (Exact.float (.finite t n f)).value (Exact.float (.infinite s)).value).swap :=
        Std.OrientedCmp.eq_swap
      have hbeyond := compare_infinite ((Binary64.signed t n : ℚ) * 2 ^ f) s
      rw [hswap]
      refine Eq.trans ?_ (congrArg Ordering.swap hbeyond.symm)
      cases s <;> rfl
    | infinite t =>
      cases s with
      | true =>
        cases t with
        | true => exact (compare_eq_iff_eq.2 rfl).symm
        | false => exact (compare_lt_iff_lt.2 (WithBot.bot_lt_coe _)).symm
      | false =>
        cases t with
        | true => exact (compare_gt_iff_gt.2 (WithBot.bot_lt_coe _)).symm
        | false => exact (compare_eq_iff_eq.2 rfl).symm

/-- **Numbers stand in the order** of their exact values. -/
theorem Exact.order_eq (x y : Exact) : x.order y = compare x.value y.value := by
  cases x with
  | int a =>
    cases y with
    | int b =>
      rw [Exact.order, Exact.value, Exact.value, compare_finite]
      exact compare_congr Int.cast_lt.symm Int.cast_lt.symm
    | float y => exact orderInt_eq a y
  | float x =>
    cases y with
    | int b =>
      rw [Exact.order, orderInt_eq]
      exact Std.OrientedCmp.eq_swap.symm
    | float y => exact Value.order_eq x y

/-! ## Values without parts -/

/-- what tells a value without parts from others -/
inductive Atom where
  | nothing
  | missing
  | number (x : WithBot (WithTop ℚ))
  | nan (id : Nat)
  | text (s : Text)
  | bytes (bs : List UInt8)
  | object (id : Nat)
  | stream (id : Nat)
  | range (counted : Nat × Int × Int)
  | loop (depth : Nat)
  | form (depth : Nat)

/-- what a range counts: how many numbers, from which one on, and by which step if there is a next one -/
def counted (start stop step : Int) : Nat × Int × Int :=
  let n := rangeLength start stop step
  if n = 0 then (0, 0, 0) else if n = 1 then (1, start, 0) else (n, start, step)

/-- the atom of a value; a value with parts and a method have none -/
def atom? : Value → Option Atom
  | .none => some .nothing
  | .missing => some .missing
  | .bool b => some (.number (Exact.int (if b then 1 else 0)).value)
  | .int n _ => some (.number (Exact.int n).value)
  | .float x _ => some (.number (Exact.float x).value)
  | .nan i => some (.nan i)
  | .text s _ => some (.text s)
  | .markup s _ => some (.text s)
  | .bytes bs _ => some (.bytes bs)
  | .object i _ _ => some (.object i)
  | .stream i _ => some (.stream i)
  | .range a b s _ => some (.range (counted a b s))
  | .loop d _ _ _ => some (.loop d)
  | .form d _ _ _ _ _ _ _ => some (.form d)
  | _ => Option.none

theorem rangeEq_iff (a b s a' b' s' : Int) :
    rangeEq a b s a' b' s' = true ↔ counted a b s = counted a' b' s' := by
  unfold rangeEq counted
  generalize rangeLength a b s = n
  generalize rangeLength a' b' s' = n'
  simp only [Bool.and_eq_true, Bool.or_eq_true, beq_iff_eq]
  grind

theorem order_eq_iff (x y : Exact) : x.order y = .eq ↔ x.value = y.value := by
  rw [Exact.order_eq, compare_eq_iff_eq]

/-- **Values without parts** are alike if their atoms are the same. -/
theorem likeAtom_iff (a b : Value) :
    (sameNan a b || eqAtom a b) = true ↔ a.atom?.isSome = true ∧ a.atom? = b.atom? := by
  cases a <;> cases b <;> simp [sameNan, eqAtom, number?, atom?, order_eq_iff, rangeEq_iff]

/-! ## Keys -/

mutual

/-- a key as data have them: no list, no mapping, no method, and no tuple that holds one -/
def isPlainKey : Value → Bool
  | .list _ _ => false
  | .mapping _ => false
  | .method _ _ => false
  | .tuple xs _ => arePlainKeys xs
  | _ => true

/-- all of them are keys as data have them -/
def arePlainKeys : List Value → Bool
  | [] => true
  | x :: xs => isPlainKey x && arePlainKeys xs

end

/-- what tells a key from others: its atom, or what tells the items of a tuple -/
inductive Essence where
  | atom (x : Option Atom)
  | tuple (items : List Essence)

mutual

/-- the essence of a key -/
def essence : Value → Essence
  | .tuple xs _ => .tuple (essences xs)
  | v => .atom v.atom?

/-- the essences of the items of a tuple -/
def essences : List Value → List Essence
  | [] => []
  | x :: xs => essence x :: essences xs

end

/-- a key that is no tuple is told by its atom -/
theorem alike_of_atom {k l : Value} (hk : k.atom?.isSome = true) (hl : l.isPlainKey = true) :
    alike k l = true ↔ k.essence = l.essence := by
  have heq : alike k l = (sameNan k l || eqAtom k l) := by
    cases k <;> first | rfl | cases hk
  have hessence : k.essence = .atom k.atom? := by
    cases k <;> first | rfl | cases hk
  rw [heq, likeAtom_iff, hessence]
  cases l with
  | tuple ys id =>
    constructor
    · rintro ⟨-, h⟩
      rw [h] at hk
      cases hk
    · nofun
  | _ => simp [essence, hk]

mutual

/-- **Keys are alike** if their essences are the same. -/
theorem alike_iff_essence (k l : Value) (hk : k.isPlainKey = true) (hl : l.isPlainKey = true) :
    alike k l = true ↔ k.essence = l.essence := by
  cases k with
  | tuple xs id =>
    cases l with
    | tuple ys id' =>
      have hitems := eqItems_iff_essences xs ys hk hl
      rw [essence, essence, Essence.tuple.injEq, ← hitems]
      rfl
    | _ => exact ⟨nofun, nofun⟩
  | list xs id => cases hk
  | mapping es => cases hk
  | method owner name => cases hk
  | _ => exact alike_of_atom rfl hl

theorem eqItems_iff_essences (xs ys : List Value) (hxs : arePlainKeys xs = true) (hys : arePlainKeys ys = true) :
    eqItems xs ys = true ↔ essences xs = essences ys := by
  cases xs with
  | nil => cases ys <;> simp [eqItems, essences]
  | cons x xs =>
    cases ys with
    | nil => simp [eqItems, essences]
    | cons y ys =>
      rw [arePlainKeys, Bool.and_eq_true] at hxs hys
      have hone := alike_iff_essence x y hxs.1 hys.1
      rw [alike] at hone
      rw [eqItems, Bool.and_eq_true, hone, eqItems_iff_essences xs ys hxs.2 hys.2, essences, essences, List.cons.injEq]

end

/-! ## Well-formed values -/

/-- the keys of a mapping are keys as data have them, and no two of them are alike -/
def KeysApart : Value → Prop
  | .mapping es => (∀ e ∈ es, e.1.isPlainKey = true) ∧ es.Pairwise fun e f => alike e.1 f.1 = false
  | _ => True

/-- the values that are looked into when a value is compared -/
def held : Value → List Value
  | .list xs _ => xs
  | .tuple xs _ => xs
  | .mapping es => es.flatMap fun e => [e.1, e.2]
  | .method owner _ => [owner]
  | _ => []

/-- in every mapping that a value holds the keys differ -/
inductive WellFormed : Value → Prop
  | intro {v : Value} (apart : v.KeysApart) (inside : ∀ w ∈ v.held, w.WellFormed) : v.WellFormed

theorem WellFormed.apart {v : Value} (h : v.WellFormed) : v.KeysApart := by
  obtain ⟨h, -⟩ := h
  exact h

theorem WellFormed.inside {v w : Value} (h : v.WellFormed) (hw : w ∈ v.held) : w.WellFormed := by
  obtain ⟨-, h⟩ := h
  exact h w hw

/-- a value without parts is well-formed -/
theorem wellFormed_atom {v : Value} (h : v.atom?.isSome = true) : v.WellFormed := by
  cases v with
  | list xs id => cases h
  | tuple xs id => cases h
  | mapping es => cases h
  | method owner name => cases h
  | _ => exact ⟨trivial, nofun⟩

theorem wellFormed_entry {es : Entries} (h : WellFormed (.mapping es)) {e : Value × Value} (he : e ∈ es) :
    e.1.WellFormed ∧ e.2.WellFormed := by
  constructor
  · exact h.inside (List.mem_flatMap.2 ⟨e, he, by simp⟩)
  · exact h.inside (List.mem_flatMap.2 ⟨e, he, by simp⟩)

/-! ## Equality from both sides -/

/-- as many things as those that they cover, no two of which cover the same, are all covered by them -/
theorem exists_of_covers {α β : Type} {R : α → β → Prop} {es : List α} {fs : List β} (hlength : fs.length ≤ es.length)
    (hcover : ∀ e ∈ es, ∃ f ∈ fs, R e f) (hapart : es.Pairwise fun e e' => ∀ f ∈ fs, R e f → ¬R e' f) :
    ∀ f ∈ fs, ∃ e ∈ es, R e f := by
  induction es generalizing fs with
  | nil =>
    rw [List.length_nil, Nat.le_zero, List.length_eq_zero_iff] at hlength
    simp [hlength]
  | cons e es ih =>
    obtain ⟨⟨g, hg, heg⟩, hcover⟩ := List.forall_mem_cons.1 hcover
    obtain ⟨before, after, rfl⟩ := List.append_of_mem hg
    obtain ⟨happart, hapart⟩ := List.pairwise_cons.1 hapart
    have hsub : ∀ f ∈ before ++ after, f ∈ before ++ g :: after := by
      intro f hf
      simp only [List.mem_append, List.mem_cons] at hf ⊢
      tauto
    -- without the first and what it covers, the others still cover as many
    have hrest : ∀ f ∈ before ++ after, ∃ e ∈ es, R e f := by
      refine ih (by simp at hlength ⊢; omega) (fun e' he' => ?_) ?_
      · obtain ⟨f, hf, hR⟩ := hcover e' he'
        have hne : f ≠ g := by
          rintro rfl
          exact happart e' he' f hf heg hR
        refine ⟨f, ?_, hR⟩
        simp only [List.mem_append, List.mem_cons] at hf ⊢
        tauto
      · exact hapart.imp fun h f hf => h f (hsub f hf)
    intro f hf
    by_cases hfg : f = g
    · exact ⟨e, List.mem_cons_self, hfg ▸ heg⟩
    · have hf' : f ∈ before ++ after := by
        simp only [List.mem_append, List.mem_cons] at hf ⊢
        tauto
      obtain ⟨e', he', hR⟩ := hrest f hf'
      exact ⟨e', List.mem_cons_of_mem e he', hR⟩

theorem sameNan_comm (a b : Value) : sameNan a b = sameNan b a := by
  cases a <;> cases b <;> first | rfl | exact Bool.beq_comm

theorem eqAtom_comm (a b : Value) : eqAtom a b = eqAtom b a := by
  rw [Bool.eq_iff_iff]
  cases hnan : sameNan a b with
  | true => cases a <;> cases b <;> first | exact Iff.rfl | cases hnan
  | false =>
    have hone := likeAtom_iff a b
    have hother := likeAtom_iff b a
    rw [hnan, Bool.false_or] at hone
    rw [sameNan_comm, hnan, Bool.false_or] at hother
    rw [hone, hother]
    constructor
    · rintro ⟨ha, h⟩
      exact ⟨h ▸ ha, h.symm⟩
    · rintro ⟨hb, h⟩
      exact ⟨h ▸ hb, h.symm⟩

theorem sameThing_comm (equal : Bool) (a b : Value) : sameThing equal a b = sameThing equal b a := by
  unfold sameThing
  cases a.identity <;> cases b.identity <;> grind

theorem sameOwner_comm (equal : Bool) (name : Text) (a b : Value) :
    sameOwner equal name a b = sameOwner equal name b a := by
  rw [sameOwner, sameOwner, sameThing_comm]
  split
  · exact Bool.beq_comm
  · rfl

theorem subEntries_iff (es fs : Entries) : subEntries es fs = true ↔
    ∀ e ∈ es, ∃ f ∈ fs, alike e.1 f.1 = true ∧ alike e.2 f.2 = true := by
  induction es with
  | nil => simp [subEntries]
  | cons e es ih =>
    obtain ⟨k, v⟩ := e
    rw [subEntries, Bool.and_eq_true, ih, List.any_eq_true, List.forall_mem_cons]
    simp only [Bool.and_eq_true, alike]

/-- **Equal mappings** are equal from both sides, if their keys differ. -/
theorem subEntries_comm {es fs : Entries} (hes : KeysApart (.mapping es)) (hfs : KeysApart (.mapping fs))
    (hlength : es.length = fs.length)
    (hcomm : ∀ e ∈ es, ∀ f ∈ fs, alike e.1 f.1 = alike f.1 e.1 ∧ alike e.2 f.2 = alike f.2 e.2)
    (h : subEntries es fs = true) : subEntries fs es = true := by
  rw [subEntries_iff] at h ⊢
  have hapart : es.Pairwise fun e e' => ∀ f ∈ fs, (alike e.1 f.1 = true ∧ alike e.2 f.2 = true) →
      ¬(alike e'.1 f.1 = true ∧ alike e'.2 f.2 = true) := by
    refine hes.2.imp_of_mem fun {e e'} he he' hapart f hf hlike hlike' => ?_
    have hkey := (alike_iff_essence e.1 f.1 (hes.1 e he) (hfs.1 f hf)).1 hlike.1
    have hkey' := (alike_iff_essence e'.1 f.1 (hes.1 e' he') (hfs.1 f hf)).1 hlike'.1
    have hsame := (alike_iff_essence e.1 e'.1 (hes.1 e he) (hes.1 e' he')).2 (hkey.trans hkey'.symm)
    rw [hsame] at hapart
    cases hapart
  intro f hf
  obtain ⟨e, he, hkey, hvalue⟩ := exists_of_covers hlength.ge h hapart f hf
  obtain ⟨hkeys, hvalues⟩ := hcomm e he f hf
  exact ⟨e, he, hkeys ▸ hkey, hvalues ▸ hvalue⟩

mutual

/-- **Equality does not depend** on which of two well-formed values comes first. -/
theorem eq_comm_of_wellFormed (a b : Value) (ha : a.WellFormed) (hb : b.WellFormed) : eq a b = eq b a := by
  cases a with
  | list xs id =>
    cases b with
    | list ys id' => exact eqItems_comm xs ys (fun _ => ha.inside) fun _ => hb.inside
    | _ => rfl
  | tuple xs id =>
    cases b with
    | tuple ys id' => exact eqItems_comm xs ys (fun _ => ha.inside) fun _ => hb.inside
    | _ => rfl
  | mapping es =>
    cases b with
    | mapping fs =>
      have hcomm : ∀ e ∈ es, ∀ f ∈ fs, alike e.1 f.1 = alike f.1 e.1 ∧ alike e.2 f.2 = alike f.2 e.2 := by
        intro e he f hf
        have hentry := alike_comm_entries es (fun e he => wellFormed_entry ha he) e he
        exact ⟨hentry.1 f.1 (wellFormed_entry hb hf).1, hentry.2 f.2 (wellFormed_entry hb hf).2⟩
      show (es.length == fs.length && subEntries es fs) = (fs.length == es.length && subEntries fs es)
      rw [Bool.eq_iff_iff, Bool.and_eq_true, Bool.and_eq_true, beq_iff_eq, beq_iff_eq]
      constructor
      · rintro ⟨hlength, h⟩
        exact ⟨hlength.symm, subEntries_comm ha.apart hb.apart hlength hcomm h⟩
      · rintro ⟨hlength, h⟩
        refine ⟨hlength.symm, subEntries_comm hb.apart ha.apart hlength (fun f hf e he => ?_) h⟩
        exact ⟨(hcomm e he f hf).1.symm, (hcomm e he f hf).2.symm⟩
    | _ => rfl
  | method owner name =>
    cases b with
    | method owner' name' =>
      have howner := eq_comm_of_wellFormed owner owner' (ha.inside (by simp [held])) (hb.inside (by simp [held]))
      by_cases hname : name = name'
      · subst hname
        show (name == name && sameOwner (eq owner owner') name owner owner') =
          (name == name && sameOwner (eq owner' owner) name owner' owner)
        rw [howner, sameOwner_comm]
      · show (name == name' && _) = (name' == name && _)
        rw [beq_eq_false_iff_ne.2 hname, beq_eq_false_iff_ne.2 (Ne.symm hname)]
        rfl
    | _ => rfl
  | _ =>
    cases b <;> exact eqAtom_comm _ _

theorem eqItems_comm (xs ys : List Value) (hxs : ∀ x ∈ xs, x.WellFormed) (hys : ∀ y ∈ ys, y.WellFormed) :
    eqItems xs ys = eqItems ys xs := by
  cases xs with
  | nil => cases ys <;> rfl
  | cons x xs =>
    cases ys with
    | nil => rfl
    | cons y ys =>
      rw [List.forall_mem_cons] at hxs hys
      rw [eqItems, eqItems, sameNan_comm, eq_comm_of_wellFormed x y hxs.1 hys.1, eqItems_comm xs ys hxs.2 hys.2]

/-- the keys and values of entries are like others from both sides -/
theorem alike_comm_entries (es : Entries) (hes : ∀ e ∈ es, e.1.WellFormed ∧ e.2.WellFormed) : ∀ e ∈ es,
    (∀ w : Value, w.WellFormed → alike e.1 w = alike w e.1) ∧
      ∀ w : Value, w.WellFormed → alike e.2 w = alike w e.2 := by
  cases es with
  | nil => nofun
  | cons e es =>
    obtain ⟨k, v⟩ := e
    rw [List.forall_mem_cons] at hes ⊢
    refine ⟨⟨fun w hw => ?_, fun w hw => ?_⟩, alike_comm_entries es hes.2⟩
    · rw [alike, alike, sameNan_comm, eq_comm_of_wellFormed k w hes.1.1 hw]
    · rw [alike, alike, sameNan_comm, eq_comm_of_wellFormed v w hes.1.2 hw]

end

theorem alike_comm {a b : Value} (ha : a.WellFormed) (hb : b.WellFormed) : alike a b = alike b a := by
  rw [alike, alike, sameNan_comm, eq_comm_of_wellFormed a b ha hb]

end Value

end Stencil
