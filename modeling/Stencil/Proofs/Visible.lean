/-
VISIBLE CODE. A statement is written in characters from the space on: texts are quoted, and in a quoted text every
other character is given by its code. In particular no line of code holds a line feed or a null character.

- `visible_encode`: a quoted text is visible, whatever the text is.
- `visible_code`: so is the line of code of a statement.
- `word_of_mem_remark`: the control characters of a comment that tells a directive stand in words of the directive.
-/
import Stencil.Program.Layout

namespace Stencil

namespace Text

/-- no control character stands in the text -/
def Visible (s : Text) : Prop := ∀ c ∈ s, 32 ≤ c.toNat

@[simp] theorem visible_nil : Visible [] := by simp [Visible]

@[simp] theorem visible_cons (c : Char) (s : Text) : Visible (c :: s) ↔ 32 ≤ c.toNat ∧ s.Visible := by simp [Visible]

@[simp] theorem visible_append (s t : Text) : Visible (s ++ t) ↔ s.Visible ∧ t.Visible := List.forall_mem_append

instance (s : Text) : Decidable (Visible s) := List.decidableBAll (fun c : Char => 32 ≤ c.toNat) s

theorem visible_replicate (n : Nat) {c : Char} (hc : 32 ≤ c.toNat) : Visible (List.replicate n c) := by
  intro d hd
  rw [List.eq_of_mem_replicate hd]
  exact hc

theorem visible_cat {parts : List Text} (h : ∀ t ∈ parts, t.Visible) : Visible (cat parts) := by
  intro c hc
  obtain ⟨t, ht, hc⟩ := List.mem_flatten.1 hc
  exact h t ht c hc

theorem mem_sep {c : Char} {between : Text} (hc : c ∉ between) (texts : List Text) :
    c ∈ sep between texts ↔ ∃ t ∈ texts, c ∈ t := by
  induction texts using sep.induct with
  | case1 => simp [sep]
  | case2 t => simp [sep]
  | case3 t u rest ih => simp [sep, ih, hc]

theorem visible_sep {between : Text} (hb : between.Visible) {texts : List Text} (h : ∀ t ∈ texts, t.Visible) :
    Visible (sep between texts) := by
  induction texts using sep.induct with
  | case1 => exact visible_nil
  | case2 t => exact h t (by simp)
  | case3 t u rest ih =>
    obtain ⟨ht, hrest⟩ := List.forall_mem_cons.1 h
    rw [sep]
    simp [ht, hb, ih hrest]

theorem Visible.sublist {s t : Text} (h : t.Visible) (hs : s.Sublist t) : s.Visible := fun c hc => h c (hs.subset hc)

/-! ## Numbers and quoted texts -/

/-- the digits of a number in a base -/
theorem mem_toDigits {b : Nat} (hb : 1 < b) {n : Nat} {c : Char} (hc : c ∈ Nat.toDigits b n) :
    ∃ d, d < b ∧ c = Nat.digitChar d := by
  induction n using Nat.strongRecOn with
  | ind n ih =>
    rw [Nat.toDigits_eq_if hb] at hc
    split at hc
    · rename_i hn
      exact ⟨n, hn, List.mem_singleton.1 hc⟩
    · rename_i hn
      rcases List.mem_append.1 hc with hc | hc
      · exact ih (n / b) (Nat.div_lt_self (by omega) hb) hc
      · exact ⟨n % b, Nat.mod_lt n (by omega), List.mem_singleton.1 hc⟩

theorem visible_toDigits {b : Nat} (hb : 1 < b) (hb' : b ≤ 16) (n : Nat) : Visible (Nat.toDigits b n) := by
  have hdigit : ∀ d < 16, 32 ≤ (Nat.digitChar d).toNat := by decide
  intro c hc
  obtain ⟨d, hd, rfl⟩ := mem_toDigits hb hc
  exact hdigit d (Nat.lt_of_lt_of_le hd hb')

@[simp] theorem visible_ofNat (n : Nat) : Visible (ofNat n) := visible_toDigits (by decide) (by decide) n

@[simp] theorem visible_ofInt (n : Int) : Visible (ofInt n) := by
  cases n <;> simp [ofInt]

namespace Quoted

theorem visible_hex (width n : Nat) : Visible (hex width n) := by
  simp [hex, visible_toDigits, visible_replicate]

theorem visible_encodeChar {mark : Char} (hmark : 32 ≤ mark.toNat) (c : Char) :
    Visible (encodeChar isPrintable mark c) := by
  unfold encodeChar
  split
  · rename_i hc
    rw [Bool.or_eq_true, beq_iff_eq, beq_iff_eq] at hc
    rcases hc with rfl | rfl
    · simp [hmark]
    · decide
  · split
    · decide
    · split
      · decide
      · split
        · decide
        · split
          · rename_i hplain
            have hprintable : 32 ≤ c.toNat := by
              unfold isPrintable at hplain
              grind
            simp [hprintable]
          · unfold code
            split
            · simp [visible_hex]
            · split <;> simp [visible_hex]

/-- **A quoted text** is visible. -/
@[simp] theorem visible_encode (s : Text) : Visible (encode s) := by
  have hmark : 32 ≤ (markFor s).toNat := by
    unfold markFor
    split <;> decide
  have hchars : Visible (s.flatMap (encodeChar isPrintable (markFor s))) := by
    intro d hd
    obtain ⟨c, -, hd⟩ := List.mem_flatMap.1 hd
    exact visible_encodeChar hmark c d hd
  simp [encode, encodeWith, hmark, hchars]

end Quoted

end Text

namespace Binary64

open Text

theorem visible_layout {digits : Text} (h : digits.Visible) (point : Int) : Visible (layout digits point) := by
  have htake : ∀ n, Visible (digits.take n) := fun n => h.sublist (List.take_sublist n _)
  have hdrop : ∀ n, Visible (digits.drop n) := fun n => h.sublist (List.drop_sublist n _)
  have hexponent : ∀ x, Visible (exponentText x) := by
    intro x
    unfold exponentText
    split <;> simp [visible_replicate]
  unfold layout
  split
  · split
    · simp [visible_replicate, h]
    · split
      · simp [visible_replicate, h]
      · simp [htake, hdrop]
  · simp only [visible_append]
    refine ⟨⟨htake 1, ?_⟩, hexponent _⟩
    split
    · exact visible_nil
    · exact (visible_cons _ _).2 ⟨by decide, hdrop 1⟩

@[simp] theorem visible_text (x : Binary64) : x.text.Visible := by
  cases x with
  | infinite negative => cases negative <;> decide
  | finite negative m e =>
    have htrim : Visible (trimZeros (ofNat (shortest negative m e).1)) := by
      intro c hc
      rw [trimZeros, List.mem_reverse] at hc
      exact visible_ofNat _ c (List.mem_reverse.1 ((List.dropWhile_suffix _).subset hc))
    simp only [text]
    split
    · cases negative <;> decide
    · cases negative <;> simp [visible_layout htrim]

end Binary64

/-! ## Statements -/

open Text

@[simp] theorem visible_literal (l : Literal) : l.code.Visible := by
  cases l with
  | bool b => cases b <;> decide
  | null => decide
  | _ => simp [Literal.code]

theorem visible_tupleCode {items : List Text} (h : ∀ t ∈ items, t.Visible) : (tupleCode items).Visible := by
  unfold tupleCode
  split
  · rename_i x
    simpa using h x (by simp)
  · have hsep : (sep ", ".toList items).Visible := visible_sep (by decide) h
    simpa using hsep

@[simp] theorem visible_pathCode (path : List Segment) : (pathCode path).Visible := by
  refine visible_tupleCode fun t ht => ?_
  obtain ⟨s, -, rfl⟩ := List.mem_map.1 ht
  cases s <;> simp [Segment.code]

theorem visible_mappingCode {entries : List (Text × Text)} (h : ∀ e ∈ entries, e.2.Visible) :
    (mappingCode entries).Visible := by
  have hentries : ∀ t ∈ entries.map fun e => Quoted.encode e.1 ++ ':' :: ' ' :: e.2, t.Visible := by
    intro t ht
    obtain ⟨e, he, rfl⟩ := List.mem_map.1 ht
    simp [h e he]
  have hsep : Text.Visible (Text.sep ", ".toList _) := visible_sep (by decide) hentries
  rw [mappingCode, visible_append, visible_cons]
  exact ⟨⟨by decide, hsep⟩, by decide⟩

@[simp] theorem visible_attributes (a : Attributes) : a.code.Visible := by
  refine visible_mappingCode fun e he => ?_
  obtain ⟨p, -, rfl⟩ := List.mem_map.1 he
  simp

@[simp] theorem visible_expr (e : Expr) : e.code.Visible := by
  cases e with
  | literal l => exact visible_literal l
  | lookup path default => exact visible_cat (by simp)
  | demand path reference => exact visible_cat (by simp)

@[simp] theorem visible_clause (c : Clause) : c.code.Visible := by
  have htest : c.test.code.Visible := by
    cases c.test <;> exact visible_cat (by simp)
  unfold Clause.code
  split <;> exact visible_cat (by simp [htest])

@[simp] theorem visible_condition (c : Condition) : c.code.Visible := by
  have hrest : Visible (c.rest.flatMap fun r => ' ' :: r.1.code ++ ' ' :: r.2.code) := by
    intro d hd
    obtain ⟨r, -, hd⟩ := List.mem_flatMap.1 hd
    have hconnective : r.1.code.Visible := by cases r.1 <;> decide
    have hall : Visible (' ' :: r.1.code ++ ' ' :: r.2.code) := by simp [hconnective]
    exact hall d hd
  rw [Condition.code, visible_append]
  exact ⟨visible_clause _, hrest⟩

@[simp] theorem visible_flag (b : Bool) : (flagCode b).Visible := by
  cases b <;> decide

@[simp] theorem visible_temporary (purpose : Text) (n : Nat) : (temporary purpose n).Visible ↔ purpose.Visible := by
  simp [temporary]

/-- **The line of code of a statement** is visible. -/
theorem visible_code (s : Stmt) : s.code.Visible := by
  cases s with
  | translate text key params =>
    have hparams : (mappingCode (params.map fun p => (p.1, p.2.code))).Visible := by
      refine visible_mappingCode fun e he => ?_
      obtain ⟨p, -, rfl⟩ := List.mem_map.1 he
      simp
    exact visible_cat (by simp [hparams])
  | whenReached path =>
    have hreached : (reachedCode path).Visible := visible_cat (by simp)
    exact visible_cat (by simp [hreached])
  | iterate items e => exact visible_cat (by simp)
  | loopOpen items => exact visible_cat (by simp)
  | forEach key item items => exact visible_cat (by simp)
  | iterationBegin key => exact visible_cat (by simp)
  | whenText text => exact visible_cat (by simp)
  | writeText text => exact visible_cat (by simp)
  | bind name half =>
    have hhalf : half.code.Visible := by cases half <;> simp [Half.code]
    exact visible_cat (by simp [hhalf])
  | write s => exact visible_cat (by simp)
  | emit e => exact visible_cat (by simp)
  | when c => exact visible_cat (by simp)
  | elsewhen c => exact visible_cat (by simp)
  | captureEnd name => exact visible_cat (by simp)
  | formOpen e name attributes => exact visible_cat (by simp)
  | field name attributes labelled => exact visible_cat (by simp)
  | submit attributes => exact visible_cat (by simp)
  | button attributes => exact visible_cat (by simp)
  | generate e name attributes submitting => exact visible_cat (by simp)
  | _ => decide

/-- a control character stands in no line of code -/
theorem not_mem_code {c : Char} (hc : c.toNat < 32) (s : Stmt) : c ∉ s.code :=
  fun h => absurd (visible_code s c h) (Nat.not_le.2 hc)

/-! ## Comments -/

/-- the characters of a word stand in the text, and none of them is blank -/
theorem mem_words {s w : Text} {c : Char} (hw : w ∈ Text.words s) (hc : c ∈ w) : c ∈ s ∧ isBlank c = false := by
  have hfrom : ∀ word s : Text, (∀ d ∈ word, isBlank d = false) → w ∈ wordsFrom word s →
      (c ∈ word ∨ c ∈ s) ∧ isBlank c = false := by
    intro word s
    induction s generalizing word with
    | nil =>
      intro hword hw
      rw [wordsFrom] at hw
      split at hw
      · simp at hw
      · rw [List.mem_singleton.1 hw, List.mem_reverse] at hc
        exact ⟨.inl hc, hword c hc⟩
    | cons d s ih =>
      intro hword hw
      have hlater : w ∈ wordsFrom [] s → (c ∈ word ∨ c ∈ d :: s) ∧ isBlank c = false := fun hw =>
        (ih [] (by simp) hw).imp_left fun h => .inr (List.mem_cons_of_mem d (h.resolve_left List.not_mem_nil))
      rw [wordsFrom] at hw
      split at hw
      · split at hw
        · exact hlater hw
        · rcases List.mem_cons.1 hw with rfl | hw
          · rw [List.mem_reverse] at hc
            exact ⟨.inl hc, hword c hc⟩
          · exact hlater hw
      · rename_i hd
        obtain ⟨hmem, hblank⟩ := ih (d :: word) (List.forall_mem_cons.2 ⟨by simpa using hd, hword⟩) hw
        refine ⟨?_, hblank⟩
        rcases hmem with hmem | hmem
        · exact (List.mem_cons.1 hmem).elim (fun h => .inr (h ▸ List.mem_cons_self)) .inl
        · exact .inr (List.mem_cons_of_mem d hmem)
  obtain ⟨hmem, hblank⟩ := hfrom [] s (by simp) hw
  exact ⟨hmem.resolve_left List.not_mem_nil, hblank⟩

/-- **A control character of a comment** stands in a word of the directive that the comment tells. -/
theorem word_of_mem_remark {t : Token} {c : Char} (hc : c.toNat < 32) (h : c ∈ remark t) :
    ∃ w ∈ Text.words t.raw, c ∈ w := by
  have hvisible {u : Text} (hu : u.Visible) (hmem : c ∈ u) : False := absurd (hu c hmem) (Nat.not_le.2 hc)
  obtain ⟨part, hpart, hmem⟩ := List.mem_flatten.1 h
  simp only [List.mem_cons, List.not_mem_nil, or_false] at hpart
  rcases hpart with rfl | rfl | rfl
  · exact (hvisible (by decide) hmem).elim
  · exact (mem_sep (fun hmem => hvisible (u := [' ']) (by decide) hmem) _).1 hmem
  · exact (hvisible (by decide) hmem).elim

end Stencil
