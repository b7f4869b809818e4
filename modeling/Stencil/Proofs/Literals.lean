/-
LITERALS READ BACK. What the template language writes into code is read there by the rules for literals in code: a text
stands between two equal marks, with escapes for characters after backslashes; a tuple stands between parentheses, with
a comma after a single item; a mapping stands between braces. Reading gives back exactly what was written.

- `quoted?_encode`: every text is read back from its quotes, whatever characters and halves are in it.
- `reads_literal`: so is every literal, if a double in it is finite and in stored form.
- `reads_tuple`, `reads_mapping`: tuples and mappings of what can be read back.
-/
import Stencil.Document.Quoted
import Stencil.Program.Code
import Stencil.Proofs.Chunks
import Stencil.Proofs.Numerals
import Stencil.Proofs.Visible

namespace Stencil

namespace Code

/-! ## Texts in quotes -/

/-- the characters that stand for others after a backslash -/
def escapes : List (Char × Char) :=
  [('\\', '\\'), ('\'', '\''), ('"', '"'), ('n', '\n'), ('r', '\r'), ('t', '\t'), ('a', '\x07'), ('b', '\x08'),
   ('f', '\x0c'), ('v', '\x0b')]

/-- the character whose code stands here in so many hexadecimal digits, and the rest -/
def coded? (width : Nat) (s : Text) : Option (Char × Text) :=
  if width ≤ s.length then (Document.coded? (s.take width)).map fun c => (c, s.drop width) else none

/-- the character of the escape that stands after a backslash, and the rest -/
def escape? : Text → Option (Char × Text)
  | 'x' :: cs => coded? 2 cs
  | 'u' :: cs => coded? 4 cs
  | 'U' :: cs => coded? 8 cs
  | c :: cs => (escapes.find? fun e => e.1 == c).map fun e => (e.2, cs)
  | [] => none

theorem length_coded? {width : Nat} {s rest : Text} {c : Char} (h : coded? width s = some (c, rest)) :
    rest.length ≤ s.length := by
  unfold coded? at h
  split at h
  · simp only [Option.map_eq_some_iff, Prod.mk.injEq] at h
    obtain ⟨_, -, -, rfl⟩ := h
    simp
  · simp at h

theorem length_escape? {s rest : Text} {c : Char} (h : escape? s = some (c, rest)) : rest.length < s.length := by
  unfold escape? at h
  split at h
  · exact Nat.lt_succ_of_le (length_coded? h)
  · exact Nat.lt_succ_of_le (length_coded? h)
  · exact Nat.lt_succ_of_le (length_coded? h)
  · simp only [Option.map_eq_some_iff, Prod.mk.injEq] at h
    obtain ⟨_, -, -, rfl⟩ := h
    simp
  · simp at h

/-- the text up to a mark, and the rest after it; no line ends in between -/
def untilMark? (mark : Char) (s : Text) : Option (Text × Text) :=
  match s with
  | [] => none
  | '\\' :: cs =>
    match _h : escape? cs with
    | some (c, rest) => (untilMark? mark rest).map fun p => (c :: p.1, p.2)
    | none => none
  | c :: cs =>
    if c == mark then some ([], cs)
    else if c == '\n' || c == '\r' then none
    else (untilMark? mark cs).map fun p => (c :: p.1, p.2)
termination_by s.length
decreasing_by
  · have := length_escape? _h
    simp
    omega
  · simp

/-- the text in quotes that code begins with, and the rest -/
def quoted? (s : Text) : Option (Text × Text) :=
  match s with
  | c :: cs => if c == '\'' || c == '"' then untilMark? c cs else none
  | [] => none

end Code

/-! ## Characters by their codes -/

namespace Text

@[simp] theorem after?_append (mark s : Text) : after? mark (mark ++ s) = some s := after?_eq_some_iff.2 rfl

/-- **A character is known** by its code, and so is a half. -/
theorem ofCode?_code (c : Char) : ofCode? (code c) = some c := by
  unfold code
  split
  · rename_i hhalf
    simp only [isHalf, Bool.and_eq_true, decide_eq_true_eq] at hhalf
    have hinvalid : ¬(c.toNat - halfShift).isValidChar := by
      have := hhalf.2
      simp only [isHalfCode, Bool.and_eq_true, decide_eq_true_eq] at this
      simp only [Nat.isValidChar]
      omega
    rw [ofCode?, if_neg hinvalid, if_pos hhalf.2, Nat.sub_add_cancel hhalf.1, Char.ofNat_toNat]
  · have hvalid : c.toNat.isValidChar := c.valid
    rw [ofCode?, if_pos hvalid, Char.ofNat_toNat]

theorem code_lt (c : Char) : code c < 16 ^ 8 := by
  have hvalid : c.toNat.isValidChar := c.valid
  simp only [Nat.isValidChar] at hvalid
  unfold code
  split <;> omega

namespace Quoted

open Document

theorem hexNumber?_append (s : Text) (c : Char) :
    hexNumber? (s ++ [c]) = (hexNumber? s).bind fun n => (hexValue? c).map fun d => 16 * n + d := by
  unfold hexNumber?
  rw [List.foldlM_append]
  cases List.foldlM (fun n c => (hexValue? c).map fun d => 16 * n + d) 0 s <;> simp

theorem hexNumber?_toDigits (n : Nat) : hexNumber? (Nat.toDigits 16 n) = some n := by
  have hdigit : ∀ d < 16, hexValue? (Nat.digitChar d) = some d := by decide
  induction n using Nat.strongRecOn with
  | ind n ih =>
    rw [Nat.toDigits_eq_if (by decide)]
    split
    · rename_i hn
      simp [hexNumber?, hdigit n hn]
    · rw [hexNumber?_append, ih (n / 16) (by omega), Option.bind_some, hdigit _ (Nat.mod_lt n (by decide)),
        Option.map_some]
      congr 1
      omega

theorem hexNumber?_zeros (n : Nat) (s : Text) : hexNumber? (List.replicate n '0' ++ s) = hexNumber? s := by
  induction n with
  | zero => rfl
  | succ n ih =>
    rw [← ih]
    rfl

/-- **A number in hexadecimal digits** is read back. -/
theorem hexNumber?_hex (width n : Nat) : hexNumber? (hex width n) = some n := by
  rw [hex, hexNumber?_zeros, hexNumber?_toDigits]

theorem length_hex {width n : Nat} (hwidth : 0 < width) (hn : n < 16 ^ width) : (hex width n).length = width := by
  have := (Nat.length_toDigits_le_iff (by decide) hwidth).2 hn
  simp [hex]
  omega

theorem coded?_hex {width : Nat} (hwidth : 0 < width) {c : Char} (hc : Text.code c < 16 ^ width) (s : Text) :
    Code.coded? width (hex width (Text.code c) ++ s) = some (c, s) := by
  have hlength := length_hex hwidth hc
  have hcode : Document.coded? (hex width (Text.code c)) = some c := by
    rw [Document.coded?, hexNumber?_hex, Option.bind_some, ofCode?_code]
  rw [Code.coded?, if_pos (by simp [hlength]), List.take_left' hlength, List.drop_left' hlength, hcode, Option.map_some]

/-- **The code of a character** is an escape for it. -/
theorem exists_escape_code (c : Char) (s : Text) :
    ∃ t, code (Text.code c) ++ s = '\\' :: t ∧ Code.escape? t = some (c, s) := by
  unfold code
  split
  · rename_i hsmall
    exact ⟨_, rfl, coded?_hex (by decide) hsmall s⟩
  · split
    · rename_i hsmall
      exact ⟨_, rfl, coded?_hex (by decide) hsmall s⟩
    · exact ⟨_, rfl, coded?_hex (by decide) (code_lt c) s⟩

theorem untilMark?_escape (mark : Char) {s rest : Text} {c : Char} (h : Code.escape? s = some (c, rest)) :
    Code.untilMark? mark ('\\' :: s) = (Code.untilMark? mark rest).map fun p => (c :: p.1, p.2) := by
  rw [Code.untilMark?]
  split
  · rename_i heq
    rw [h] at heq
    cases heq
    rfl
  · rename_i heq
    rw [h] at heq
    cases heq

theorem untilMark?_plain {mark c : Char} (hmark : c ≠ mark) (hslash : c ≠ '\\') (hfeed : c ≠ '\n') (hreturn : c ≠ '\r')
    (s : Text) : Code.untilMark? mark (c :: s) = (Code.untilMark? mark s).map fun p => (c :: p.1, p.2) := by
  rw [Code.untilMark?]
  · simp [hmark, hfeed, hreturn]
  · simpa using hslash

variable {mark : Char} (hmark : mark = '\'' ∨ mark = '"')

include hmark

/-- **A character in quotes** is read back. -/
theorem untilMark?_encodeChar (c : Char) (s : Text) :
    Code.untilMark? mark (encodeChar isPrintable mark c ++ s) =
      (Code.untilMark? mark s).map fun p => (c :: p.1, p.2) := by
  unfold encodeChar
  split
  · rename_i hspecial
    rw [Bool.or_eq_true, beq_iff_eq, beq_iff_eq] at hspecial
    refine untilMark?_escape mark ?_
    rcases hspecial with rfl | rfl
    · rcases hmark with rfl | rfl <;> rfl
    · rfl
  · rename_i hspecial
    simp only [Bool.or_eq_true, beq_iff_eq, not_or] at hspecial
    split
    · rename_i hc
      rw [beq_iff_eq.1 hc]
      exact untilMark?_escape mark rfl
    · rename_i hfeed
      split
      · rename_i hc
        rw [beq_iff_eq.1 hc]
        exact untilMark?_escape mark rfl
      · rename_i hreturn
        split
        · rename_i hc
          rw [beq_iff_eq.1 hc]
          exact untilMark?_escape mark rfl
        · split
          · exact untilMark?_plain hspecial.1 hspecial.2 (by simpa using hfeed) (by simpa using hreturn) s
          · obtain ⟨t, ht, hescape⟩ := exists_escape_code c s
            rw [ht]
            exact untilMark?_escape mark hescape

theorem untilMark?_mark (s : Text) : Code.untilMark? mark (mark :: s) = some ([], s) := by
  rcases hmark with rfl | rfl <;> simp [Code.untilMark?]

theorem untilMark?_encode (s rest : Text) :
    Code.untilMark? mark (s.flatMap (encodeChar isPrintable mark) ++ mark :: rest) = some (s, rest) := by
  induction s with
  | nil => exact untilMark?_mark hmark rest
  | cons c cs ih => rw [List.flatMap_cons, List.append_assoc, untilMark?_encodeChar hmark, ih, Option.map_some]

omit hmark

theorem markFor_eq (s : Text) : markFor s = '\'' ∨ markFor s = '"' := by
  unfold markFor
  split <;> simp

/-- **A text in quotes** is read back. -/
theorem quoted?_encode (s rest : Text) : Code.quoted? (encode s ++ rest) = some (s, rest) := by
  have hmark := markFor_eq s
  have hopen : (markFor s == '\'' || markFor s == '"') = true := by simpa using hmark
  rw [encode, encodeWith, List.cons_append, List.append_assoc, Code.quoted?, if_pos hopen]
  exact untilMark?_encode hmark s rest

end Quoted

end Text

/-! ## Literals -/

namespace Code

/-- the words that are literals in code -/
def words : List (Text × Literal) := [("None", .null), ("True", .bool true), ("False", .bool false)]

/-- the word for a literal that code begins with, and the rest -/
def word? (s : Text) : Option (Literal × Text) :=
  words.findSome? fun w => (Literal.afterWord? w.1 s).map fun rest => (w.2, rest)

/-- the literal that code begins with, and the rest -/
def literal? (s : Text) : Option (Literal × Text) :=
  number? s <|> word? s <|> (quoted? s).map fun p => (.text p.1, p.2)

/-- a literal that can be read back: a double in it is finite and in stored form -/
def Legible : Literal → Prop
  | .float (.finite negative m e) => (Binary64.finite negative m e).Canonical
  | .float (.infinite _) => False
  | _ => True

/-- code is read as what it was written for, if nothing follows that a word or number could go on with -/
def Reads {α : Type} (read : Text → Option (α × Text)) (code : Text) (a : α) : Prop :=
  ∀ rest, Directive.atNumberEnd rest = true → read (code ++ rest) = some (a, rest)

theorem number?_mark {mark : Char} (hmark : mark = '\'' ∨ mark = '"') (s : Text) : number? (mark :: s) = none := by
  rcases hmark with rfl | rfl <;> rfl

theorem word?_mark {mark : Char} (hmark : mark = '\'' ∨ mark = '"') (s : Text) : word? (mark :: s) = none := by
  rcases hmark with rfl | rfl <;> rfl

theorem afterWord?_append {rest : Text} (hrest : Directive.atNumberEnd rest = true) (word : Text) :
    Literal.afterWord? word (word ++ rest) = some rest := by
  have hend : Literal.atWordEnd rest = true := by
    cases rest with
    | nil => rfl
    | cons c cs =>
      have hc : Text.isWord c = false ∧ c ≠ '.' := by simpa [Directive.atNumberEnd] using hrest
      simp [Literal.atWordEnd, hc.1]
  simp [Literal.afterWord?, Text.after?_append, Option.filter_some, hend]

/-- the words differ in their first characters, so that no other is found -/
theorem literal?_word {rest : Text} (hrest : Directive.atNumberEnd rest = true) {w : Text × Literal} (hw : w ∈ words) :
    literal? (w.1 ++ rest) = some (w.2, rest) := by
  have hword := afterWord?_append hrest w.1
  simp only [words, List.mem_cons, List.not_mem_nil, or_false] at hw
  rcases hw with rfl | rfl | rfl
  · have hnumber : number? ("None".toList ++ rest) = none := rfl
    simp only [literal?, word?, words, List.findSome?_cons, hnumber, hword, Option.map_some]
    rfl
  · have hnumber : number? ("True".toList ++ rest) = none := rfl
    have hnone : Literal.afterWord? "None" ("True".toList ++ rest) = none := rfl
    simp only [literal?, word?, words, List.findSome?_cons, hnumber, hnone, hword, Option.map_none, Option.map_some]
    rfl
  · have hnumber : number? ("False".toList ++ rest) = none := rfl
    have hnone : Literal.afterWord? "None" ("False".toList ++ rest) = none := rfl
    have htrue : Literal.afterWord? "True" ("False".toList ++ rest) = none := rfl
    simp only [literal?, word?, words, List.findSome?_cons, hnumber, hnone, htrue, hword, Option.map_none,
      Option.map_some]
    rfl

/-- **A literal** is read back. -/
theorem reads_literal {l : Literal} (h : Legible l) : Reads literal? l.code l := by
  intro rest hrest
  cases l with
  | null => exact literal?_word hrest (w := ("None", .null)) (by simp [words])
  | bool b =>
    cases b with
    | true => exact literal?_word hrest (w := ("True", .bool true)) (by simp [words])
    | false => exact literal?_word hrest (w := ("False", .bool false)) (by simp [words])
  | int n => simp [literal?, Literal.code, number?_ofInt n hrest]
  | float x =>
    cases x with
    | infinite negative => exact h.elim
    | finite negative m e => simp [literal?, Literal.code, Binary64.number?_text h hrest]
  | text s =>
    obtain ⟨t, ht⟩ : ∃ t, Text.Quoted.encode s = Text.Quoted.markFor s :: t := ⟨_, rfl⟩
    have hmark := Text.Quoted.markFor_eq s
    have hquoted := Text.Quoted.quoted?_encode s rest
    rw [ht, List.cons_append] at hquoted
    simp [literal?, Literal.code, ht, number?_mark hmark, word?_mark hmark, hquoted]

/-! ## Tuples and mappings -/

section Items

variable {α : Type}

/-- items with a comma and a space between each two, up to a closing mark; at most `n` of them -/
def itemsUpTo (item : Text → Option (α × Text)) (close : Text) : Nat → Text → Option (List α × Text)
  | 0, _ => none
  | n + 1, s =>
    (item s).bind fun (a, rest) =>
      match Text.after? ", " rest with
      | some rest => (itemsUpTo item close n rest).map fun p => (a :: p.1, p.2)
      | none => (Text.after? close rest).map fun rest => ([a], rest)

/-- a tuple that code begins with, and the rest; a single item has a comma behind it -/
def tuple? (item : Text → Option (α × Text)) (s : Text) : Option (List α × Text) :=
  (Text.after? "(" s).bind fun s =>
    match item s with
    | none => (Text.after? ")" s).map fun rest => ([], rest)
    | some (a, rest) =>
      match Text.after? ",)" rest with
      | some rest => some ([a], rest)
      | none => (Text.after? ", " rest).bind fun rest =>
        (itemsUpTo item ")" rest.length rest).map fun p => (a :: p.1, p.2)

/-- an entry of a mapping, and the rest -/
def keyed? (value : Text → Option (α × Text)) (s : Text) : Option ((Text × α) × Text) :=
  (quoted? s).bind fun (key, rest) => (Text.after? ": " rest).bind fun rest =>
    (value rest).map fun (a, rest) => ((key, a), rest)

/-- a mapping that code begins with, and the rest -/
def mapping? (value : Text → Option (α × Text)) (s : Text) : Option (List (Text × α) × Text) :=
  (Text.after? "\x7b" s).bind fun s =>
    itemsUpTo (keyed? value) "\x7d" s.length s <|> (Text.after? "\x7d" s).map fun rest => ([], rest)

theorem length_le_sep {between : Text} (hbetween : between ≠ []) (texts : List Text) :
    texts.length ≤ (Text.sep between texts).length + 1 := by
  have := List.length_pos_of_ne_nil hbetween
  induction texts using Text.sep.induct with
  | case1 => simp
  | case2 t => simp [Text.sep]
  | case3 t u rest ih =>
    simp only [Text.sep, List.length_cons, List.length_append] at ih ⊢
    omega

theorem itemsUpTo_sep {item : Text → Option (α × Text)} {code : α → Text} {close : Char}
    (hclose : Directive.atNumberEnd [close] = true) (hcomma : close ≠ ',') {as : List α} (hne : as ≠ [])
    (h : ∀ a ∈ as, Reads item (code a) a) {n : Nat} (hn : as.length ≤ n) (rest : Text) :
    itemsUpTo item [close] n (Text.sep ", " (as.map code) ++ close :: rest) = some (as, rest) := by
  induction as generalizing n with
  | nil => exact absurd rfl hne
  | cons a as ih =>
    obtain ⟨ha, has⟩ := List.forall_mem_cons.1 h
    cases n with
    | zero => simp at hn
    | succ n =>
      cases as with
      | nil =>
        have hend : Directive.atNumberEnd (close :: rest) = true := hclose
        simp [itemsUpTo, Text.sep, ha _ hend, Text.after?, hcomma.symm]
      | cons b bs =>
        have hrest := ih (by simp) has (n := n) (by simpa using hn)
        have hsep : Text.sep ", " ((a :: b :: bs).map code) ++ close :: rest =
            code a ++ (", ".toList ++ (Text.sep ", " ((b :: bs).map code) ++ close :: rest)) := by
          simp [Text.sep]
        rw [hsep, itemsUpTo, ha _ rfl, Option.bind_some]
        simp only [Text.after?_append, hrest, Option.map_some]

/-- **Items** that can be read back are read back one after the other. -/
theorem items_sep {item : Text → Option (α × Text)} {code : α → Text} (close : Char)
    (hclose : Directive.atNumberEnd [close] = true) (hcomma : close ≠ ',') {as : List α} (hne : as ≠ [])
    (h : ∀ a ∈ as, Reads item (code a) a) (rest : Text) :
    itemsUpTo item [close] (Text.sep ", " (as.map code) ++ close :: rest).length
      (Text.sep ", " (as.map code) ++ close :: rest) = some (as, rest) := by
  refine itemsUpTo_sep hclose hcomma hne h ?_ rest
  have hsep := length_le_sep (show ", ".toList ≠ [] by decide) (as.map code)
  rw [List.length_map] at hsep
  rw [List.length_append, List.length_cons]
  omega

/-- **A tuple** of what can be read back is read back. -/
theorem reads_tuple {item : Text → Option (α × Text)} {code : α → Text} {as : List α}
    (h : ∀ a ∈ as, Reads item (code a) a) (hnone : ∀ rest, item (')' :: rest) = none) :
    Reads (tuple? item) (tupleCode (as.map code)) as := by
  intro rest hrest
  cases as with
  | nil => simp [tuple?, tupleCode, Text.sep, Text.after?, hnone]
  | cons a as =>
    obtain ⟨ha, has⟩ := List.forall_mem_cons.1 h
    cases as with
    | nil =>
      have hcode : tupleCode ([a].map code) ++ rest = "(".toList ++ (code a ++ (",)".toList ++ rest)) := by
        simp [tupleCode]
      rw [hcode, tuple?, Text.after?_append, Option.bind_some, ha _ rfl]
      simp only [Text.after?_append]
    | cons b bs =>
      have hcode : tupleCode ((a :: b :: bs).map code) ++ rest =
          "(".toList ++ (code a ++ (", ".toList ++ (Text.sep ", " ((b :: bs).map code) ++ ')' :: rest))) := by
        simp [tupleCode, Text.sep]
      have hpair (s : Text) : Text.after? ",)" (", ".toList ++ s) = none := rfl
      have hmore := items_sep ')' rfl (by decide) (by simp) has rest
      rw [hcode, tuple?, Text.after?_append, Option.bind_some, ha _ rfl]
      simp only [hpair, Text.after?_append, Option.bind_some]
      exact congrArg (Option.map fun p => (a :: p.1, p.2)) hmore

theorem reads_entry {value : Text → Option (α × Text)} {code : α → Text} {e : Text × α}
    (h : Reads value (code e.2) e.2) : Reads (keyed? value) (Text.Quoted.encode e.1 ++ ':' :: ' ' :: code e.2) e := by
  intro rest hrest
  have hcode : Text.Quoted.encode e.1 ++ ':' :: ' ' :: code e.2 ++ rest =
      Text.Quoted.encode e.1 ++ (": ".toList ++ (code e.2 ++ rest)) := by
    simp
  simp only [hcode, keyed?, Text.Quoted.quoted?_encode, Option.bind_some, Text.after?_append, h rest hrest,
    Option.map_some]

/-- **A mapping** of what can be read back is read back. -/
theorem reads_mapping {value : Text → Option (α × Text)} {code : α → Text} {entries : List (Text × α)}
    (h : ∀ e ∈ entries, Reads value (code e.2) e.2) :
    Reads (mapping? value) (mappingCode (entries.map fun e => (e.1, code e.2))) entries := by
  intro rest hrest
  cases entries with
  | nil => rfl
  | cons e es =>
    have hentries := items_sep '\x7d' rfl (by decide) (List.cons_ne_nil e es) (fun e he => reads_entry (h e he)) rest
    have hcode : mappingCode ((e :: es).map fun e => (e.1, code e.2)) ++ rest =
        "\x7b".toList ++ (Text.sep ", " ((e :: es).map fun e => Text.Quoted.encode e.1 ++ ':' :: ' ' :: code e.2) ++
          '\x7d' :: rest) := by
      simp [mappingCode, Function.comp_def]
    rw [hcode, mapping?, Text.after?_append, Option.bind_some, show "\x7d".toList = ['\x7d'] from rfl, hentries]
    rfl

end Items

end Code

end Stencil
