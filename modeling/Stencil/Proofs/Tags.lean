/-
TAGS. Markup as one who reads it sees it: tags, each with the text behind it. A tag opens an element, with attributes
that have a value in quotation marks or none at all, or it closes one. Whatever the texts and values are, if they are
escaped before they are written, the reader finds the tags that were written, and in them the texts and values.

- `Text.decoded`, `Text.Escaped`: a text without its references, and the texts that have no marks but in references.
- `Tag`, `Markup`: markup, as it is written and as it is read.
- `read_write`: what is written is read again, if no text has a bracket and no value a quotation mark.
- `reads_escaped`: escaped texts and values are read as themselves.
-/
import Stencil.Proofs.Filling
import Stencil.Proofs.Options

namespace Stencil

/-! ## References -/

namespace Text

/-- a text without its references: each is the character that it stands for -/
def decoded : Text → Text
  | '&' :: 'a' :: 'm' :: 'p' :: ';' :: s => '&' :: decoded s
  | '&' :: 'l' :: 't' :: ';' :: s => '<' :: decoded s
  | '&' :: 'g' :: 't' :: ';' :: s => '>' :: decoded s
  | '&' :: 'q' :: 'u' :: 'o' :: 't' :: ';' :: s => '"' :: decoded s
  | '&' :: '#' :: 'x' :: '2' :: '7' :: ';' :: s => '\'' :: decoded s
  | c :: s => c :: decoded s
  | [] => []

/-- the five references -/
def references : List Text := ["&amp;", "&lt;", "&gt;", "&quot;", "&#x27;"]

/-- a text without brackets, quotation marks and apostrophes, in which every ampersand begins a reference -/
structure Escaped (s : Text) : Prop where
  avoids : s.Avoids quotation
  referenced : ∀ behind, '&' :: behind <:+ s → ∃ r ∈ references, r <+: '&' :: behind

theorem decoded_of_ne {c : Char} (hc : c ≠ '&') (s : Text) : decoded (c :: s) = c :: decoded s := by
  rw [decoded] <;> exact fun _ h => absurd h hc

/-- an escaped character stands for itself -/
theorem decoded_escapeChar (c : Char) (s : Text) : decoded (escapeChar c ++ s) = c :: decoded s := by
  unfold escapeChar
  split_ifs with hamp hless hgreater hquote hapostrophe
  · rw [beq_iff_eq.1 hamp]; rfl
  · rw [beq_iff_eq.1 hless]; rfl
  · rw [beq_iff_eq.1 hgreater]; rfl
  · rw [beq_iff_eq.1 hquote]; rfl
  · rw [beq_iff_eq.1 hapostrophe]; rfl
  · exact decoded_of_ne (by simpa using hamp) s

/-- **An escaped text** stands for the text. -/
theorem decoded_escape (s : Text) : decoded (escape s) = s := by
  induction s with
  | nil => rfl
  | cons c s ih => rw [escape, List.flatMap_cons, decoded_escapeChar, ← escape, ih]

/-- only at its beginning can an escaped character have an ampersand, and there it is a reference -/
theorem escapeChar_eq_cons (c : Char) :
    ∃ d t, escapeChar c = d :: t ∧ '&' ∉ t ∧ (d = '&' → escapeChar c ∈ references) := by
  unfold escapeChar
  split_ifs with hamp
  · exact ⟨_, _, rfl, by decide, fun _ => by decide⟩
  · exact ⟨_, _, rfl, by decide, fun _ => by decide⟩
  · exact ⟨_, _, rfl, by decide, fun _ => by decide⟩
  · exact ⟨_, _, rfl, by decide, fun _ => by decide⟩
  · exact ⟨_, _, rfl, by decide, fun _ => by decide⟩
  · exact ⟨c, [], rfl, List.not_mem_nil, fun h => absurd (beq_iff_eq.2 h) hamp⟩

theorem suffix_of_not_mem {c : Char} {behind t u : Text} (ht : c ∉ t) (h : c :: behind <:+ t ++ u) :
    c :: behind <:+ u := by
  induction t with
  | nil => exact h
  | cons d t ih =>
    rw [List.mem_cons, not_or] at ht
    rcases List.suffix_cons_iff.1 h with heq | htail
    · exact absurd (List.cons_eq_cons.1 heq).1 ht.1
    · exact ih ht.2 htail

/-- **An escaped text** has ampersands in references only. -/
theorem escaped_escape (s : Text) : (escape s).Escaped := by
  refine ⟨avoids_escape s, fun behind h => ?_⟩
  induction s with
  | nil => exact absurd (List.suffix_nil.1 h) (List.cons_ne_nil _ _)
  | cons c s ih =>
    obtain ⟨d, t, hchar, ht, href⟩ := escapeChar_eq_cons c
    rw [escape, List.flatMap_cons, ← escape, hchar, List.cons_append] at h
    rcases List.suffix_cons_iff.1 h with heq | htail
    · obtain ⟨rfl, rfl⟩ := List.cons_eq_cons.1 heq
      exact ⟨_, href rfl, by rw [hchar]; exact List.prefix_append ('&' :: t) (escape s)⟩
    · exact ih (suffix_of_not_mem ht htail)

end Text

/-! ## Tags as they are written -/

/-- a tag: it opens an element, which may end with it, or closes one -/
inductive Tag where
  | opening (name : Text) (attributes : List (Text × Option Text)) (single : Bool)
  | closing (name : Text)
  deriving DecidableEq, Repr

/-- a sequence of tags, each with the text behind it -/
abbrev Markup := List (Tag × Text)

namespace Tag

/-- an attribute after a space; one without a value is a name alone -/
def attributeText : Text × Option Text → Text
  | (name, some value) => Text.cat [" ", name, "=\"", value, "\""]
  | (name, none) => ' ' :: name

/-- how a tag ends -/
def ending (single : Bool) : Text := if single then " />" else ">"

/-- the tag as it is written -/
def text : Tag → Text
  | opening name attributes single => Text.cat ["<", name, attributes.flatMap attributeText, ending single]
  | closing name => Text.cat ["</", name, ">"]

/-- the name of the element -/
def name : Tag → Text
  | opening name _ _ => name
  | closing name => name

/-- the values of the attributes -/
def values : Tag → List Text
  | opening _ attributes _ => attributes.filterMap (·.2)
  | closing _ => []

/-- the tag with all values changed alike -/
def onValues (g : Text → Text) : Tag → Tag
  | opening name attributes single => opening name (attributes.map fun a => (a.1, a.2.map g)) single
  | closing name => closing name

/-- a character of a name: no blank, and no mark that ends one -/
def isNameChar (c : Char) : Bool := !Text.isBlank c && !(['=', '"', '\'', '<', '>', '/'].contains c)

/-- a name of elements or attributes -/
def IsName (n : Text) : Prop := n ≠ [] ∧ ∀ c ∈ n, isNameChar c = true

instance (n : Text) : Decidable (IsName n) :=
  decidable_of_iff (n ≠ [] ∧ n.all isNameChar = true) (by rw [IsName, List.all_eq_true])

/-- what stands for names are names -/
def Named : Tag → Prop
  | opening name attributes _ => IsName name ∧ ∀ a ∈ attributes, IsName a.1
  | closing name => IsName name

end Tag

namespace Markup

/-- the markup as it is written -/
def write (m : Markup) : Text := m.flatMap fun p => p.1.text ++ p.2

/-- the values of all attributes and all texts -/
def texts (m : Markup) : List Text := m.flatMap fun p => p.2 :: p.1.values

/-- the markup with all values and texts changed alike -/
def onTexts (g : Text → Text) (m : Markup) : Markup := m.map fun p => (p.1.onValues g, g p.2)

/-- all tags have names -/
def Named (m : Markup) : Prop := ∀ p ∈ m, p.1.Named

@[simp] theorem write_nil : write [] = [] := rfl

@[simp] theorem write_cons (p : Tag × Text) (m : Markup) : write (p :: m) = p.1.text ++ p.2 ++ write m := rfl

@[simp] theorem write_append (m n : Markup) : write (m ++ n) = write m ++ write n := List.flatMap_append

@[simp] theorem onTexts_append (g : Text → Text) (m n : Markup) :
    onTexts g (m ++ n) = onTexts g m ++ onTexts g n := List.map_append

theorem Named.onTexts {m : Markup} (h : m.Named) (g : Text → Text) : (m.onTexts g).Named := by
  intro p hp
  obtain ⟨⟨t, s⟩, ht, rfl⟩ := List.mem_map.1 hp
  have hnamed := h _ ht
  cases t with
  | opening name attributes single =>
    refine ⟨hnamed.1, fun a ha => ?_⟩
    obtain ⟨b, hb, rfl⟩ := List.mem_map.1 ha
    exact hnamed.2 b hb
  | closing name => exact hnamed

theorem texts_onTexts (g : Text → Text) (m : Markup) : (m.onTexts g).texts = m.texts.map g := by
  have htag (t : Tag) : (t.onValues g).values = t.values.map g := by
    cases t with
    | opening name attributes single =>
      simp only [Tag.onValues, Tag.values, List.filterMap_map, List.map_filterMap]
      rfl
    | closing name => rfl
  simp only [texts, onTexts, List.flatMap_map, List.map_flatMap, htag, List.map_cons]

theorem onTexts_onTexts {g k : Text → Text} (h : ∀ s, k (g s) = s) (m : Markup) : (m.onTexts g).onTexts k = m := by
  have hvalue (v : Option Text) : (v.map g).map k = v := by
    cases v with
    | none => rfl
    | some s => rw [Option.map_some, Option.map_some, h]
  have htag (t : Tag) : (t.onValues g).onValues k = t := by
    cases t with
    | opening name attributes single =>
      simp only [Tag.onValues, List.map_map, Function.comp_def, hvalue, Prod.mk.eta, List.map_id']
    | closing name => rfl
  simp only [onTexts, List.map_map, Function.comp_def, htag, h, Prod.mk.eta, List.map_id']

end Markup

/-! ## Reading tags -/

namespace Tag

/-- what stands between quotation marks, and the rest -/
def readQuoted? (s : Text) : Option (Text × Text) :=
  match s.dropWhile (· != '"') with
  | _ :: rest => some (s.takeWhile (· != '"'), rest)
  | [] => none

/-- an attribute after a space, and the rest -/
def readAttribute? : Text → Option ((Text × Option Text) × Text)
  | ' ' :: s =>
    let name := s.takeWhile isNameChar
    if name.isEmpty then none
    else
      match s.dropWhile isNameChar with
      | '=' :: '"' :: v => (readQuoted? v).map fun q => ((name, some q.1), q.2)
      | rest => some ((name, none), rest)
  | _ => none

/-- the end of a tag, and the rest -/
def readEnding? : Text → Option (Bool × Text)
  | '>' :: rest => some (false, rest)
  | ' ' :: '/' :: '>' :: rest => some (true, rest)
  | _ => none

theorem length_readQuoted? {s q rest : Text} (h : readQuoted? s = some (q, rest)) : rest.length < s.length := by
  unfold readQuoted? at h
  split at h
  · rename_i c rest' hdrop
    cases h
    have hle := Reference.length_dropWhile_le (· != '"') s
    rw [hdrop] at hle
    exact hle
  · cases h

theorem length_readAttribute? {s rest : Text} {a : Text × Option Text} (h : readAttribute? s = some (a, rest)) :
    rest.length < s.length := by
  unfold readAttribute? at h
  split at h
  · rename_i s
    have hle := Reference.length_dropWhile_le isNameChar s
    dsimp only at h
    split_ifs at h
    split at h
    · rename_i v hdrop
      obtain ⟨⟨q, rest⟩, hquoted, heq⟩ := Option.map_eq_some_iff.1 h
      cases heq
      have hless := length_readQuoted? hquoted
      rw [hdrop] at hle
      simp only [List.length_cons] at hle ⊢
      omega
    · cases h
      exact Nat.lt_succ_of_le hle
  · cases h

/-- the attributes and the end of a tag, and the rest -/
def readAttributes? (s : Text) : Option ((List (Text × Option Text) × Bool) × Text) :=
  match readEnding? s with
  | some (single, rest) => some (([], single), rest)
  | none =>
    match _h : readAttribute? s with
    | some (a, rest) => (readAttributes? rest).map fun r => ((a :: r.1.1, r.1.2), r.2)
    | none => none
termination_by s.length
decreasing_by exact length_readAttribute? _h

/-- a tag, and the rest -/
def read? : Text → Option (Tag × Text)
  | '<' :: '/' :: s =>
    let name := s.takeWhile isNameChar
    match s.dropWhile isNameChar with
    | '>' :: rest => if name.isEmpty then none else some (closing name, rest)
    | _ => none
  | '<' :: s =>
    let name := s.takeWhile isNameChar
    if name.isEmpty then none
    else (readAttributes? (s.dropWhile isNameChar)).map fun r => (opening name r.1.1 r.1.2, r.2)
  | _ => none

theorem length_readEnding? {s rest : Text} {single : Bool} (h : readEnding? s = some (single, rest)) :
    rest.length < s.length := by
  unfold readEnding? at h
  split at h
  · cases h
    exact Nat.lt_succ_self _
  · cases h
    simp only [List.length_cons]
    omega
  · cases h

theorem length_readAttributes? {s rest : Text} {r : List (Text × Option Text) × Bool}
    (h : readAttributes? s = some (r, rest)) : rest.length < s.length := by
  induction s using readAttributes?.induct generalizing r with
  | case1 s single rest' hend =>
    rw [readAttributes?, hend] at h
    cases h
    exact length_readEnding? hend
  | case2 s hend a more hattribute ih =>
    rw [readAttributes?, hend, hattribute] at h
    obtain ⟨⟨r', rest'⟩, hmore, heq⟩ := Option.map_eq_some_iff.1 h
    cases heq
    exact (ih hmore).trans (length_readAttribute? hattribute)
  | case3 s hend hattribute =>
    rw [readAttributes?, hend, hattribute] at h
    cases h

theorem length_read? {s rest : Text} {t : Tag} (h : read? s = some (t, rest)) : rest.length < s.length := by
  unfold read? at h
  split at h
  · rename_i s
    have hle := Reference.length_dropWhile_le isNameChar s
    dsimp only at h
    split at h
    · rename_i rest' hdrop
      split_ifs at h
      cases h
      rw [hdrop] at hle
      simp only [List.length_cons] at hle ⊢
      omega
    · cases h
  · rename_i s _
    have hle := Reference.length_dropWhile_le isNameChar s
    dsimp only at h
    split_ifs at h
    obtain ⟨⟨r, rest'⟩, hread, heq⟩ := Option.map_eq_some_iff.1 h
    cases heq
    exact Nat.lt_succ_of_le ((length_readAttributes? hread).le.trans hle)
  · cases h

end Tag

namespace Markup

/-- the markup that a text is; nothing if it is no sequence of tags with texts behind them -/
def read? (s : Text) : Option Markup :=
  match s with
  | [] => some []
  | c :: cs =>
    match _h : Tag.read? (c :: cs) with
    | some (t, rest) => (read? (rest.dropWhile (· != '<'))).map ((t, rest.takeWhile (· != '<')) :: ·)
    | none => none
termination_by s.length
decreasing_by exact (Reference.length_dropWhile_le _ _).trans_lt (Tag.length_read? _h)

end Markup

/-! ## Reading what is written -/

namespace Tag

section

variable {n rest : Text} {a : Text × Option Text} {as : List (Text × Option Text)} {single : Bool}

/-- a space or the end of a tag stands in front -/
def Stops (s : Text) : Prop := ∃ c t, s = c :: t ∧ (c = ' ' ∨ c = '>')

theorem Stops.begins (h : Stops rest) : Text.begins isNameChar rest = false := by
  obtain ⟨c, t, rfl, rfl | rfl⟩ := h <;> rfl

theorem IsName.isEmpty (h : IsName n) : n.isEmpty = false := List.isEmpty_eq_false_iff.2 h.1

/-- what stands in front of the rest of a tag -/
theorem stops_attributes (as : List (Text × Option Text)) (single : Bool) (rest : Text) :
    Stops (as.flatMap attributeText ++ (ending single ++ rest)) := by
  cases as with
  | nil => cases single <;> exact ⟨_, _, rfl, by decide⟩
  | cons a as => obtain ⟨n, _ | v⟩ := a <;> exact ⟨' ', _, rfl, .inl rfl⟩

theorem readEnding?_ending (single : Bool) (rest : Text) :
    readEnding? (ending single ++ rest) = some (single, rest) := by
  cases single <;> rfl

/-- an attribute is no end of a tag: behind the space stands a name -/
theorem readEnding?_attribute (h : IsName a.1) (rest : Text) : readEnding? (attributeText a ++ rest) = none := by
  obtain ⟨n, v⟩ := a
  obtain ⟨hne, hall⟩ := h
  cases n with
  | nil => exact absurd rfl hne
  | cons c cs =>
    have hc : c ≠ '/' := by
      rintro rfl
      exact absurd (hall '/' List.mem_cons_self) (by decide)
    cases v with
    | none => simp [attributeText, readEnding?, hc]
    | some v => simp [attributeText, readEnding?, Text.cat, hc]

theorem readQuoted?_quoted {v : Text} (hv : '"' ∉ v) (rest : Text) :
    readQuoted? (v ++ '"' :: rest) = some (v, rest) := by
  have hrun : ∀ c ∈ v, (c != '"') = true := fun c hc => bne_iff_ne.2 fun h => hv (h ▸ hc)
  obtain ⟨htake, hdrop⟩ := Text.span_run hrun (show Text.begins (· != '"') ('"' :: rest) = false from rfl)
  rw [readQuoted?, hdrop, htake]

/-- **An attribute** is read up to the next one or the end of the tag. -/
theorem readAttribute?_attribute (hname : IsName a.1) (hvalue : ∀ v, a.2 = some v → '"' ∉ v) (hrest : Stops rest) :
    readAttribute? (attributeText a ++ rest) = some (a, rest) := by
  obtain ⟨n, _ | v⟩ := a
  · obtain ⟨htake, hdrop⟩ := Text.span_run hname.2 hrest.begins
    simp only [attributeText, List.cons_append, readAttribute?, htake, hdrop, hname.isEmpty]
    obtain ⟨c, t, rfl, rfl | rfl⟩ := hrest <;> rfl
  · obtain ⟨htake, hdrop⟩ :=
      Text.span_run hname.2 (show Text.begins isNameChar ('=' :: '"' :: (v ++ '"' :: rest)) = false from rfl)
    have htext : attributeText (n, some v) ++ rest = ' ' :: (n ++ '=' :: '"' :: (v ++ '"' :: rest)) := by
      simp [attributeText, Text.cat]
    simp only [htext, readAttribute?, htake, hdrop, hname.isEmpty, readQuoted?_quoted (hvalue v rfl)]
    rfl

/-- **The attributes** of a tag, one after the other. -/
theorem readAttributes?_attributes (hnames : ∀ a ∈ as, IsName a.1) (hvalues : ∀ v ∈ as.filterMap (·.2), '"' ∉ v)
    (single : Bool) (rest : Text) :
    readAttributes? (as.flatMap attributeText ++ (ending single ++ rest)) = some ((as, single), rest) := by
  induction as with
  | nil => rw [List.flatMap_nil, List.nil_append, readAttributes?, readEnding?_ending]
  | cons a as ih =>
    obtain ⟨hname, hnames⟩ := List.forall_mem_cons.1 hnames
    have hvalue : ∀ v, a.2 = some v → '"' ∉ v := fun v hv =>
      hvalues v (List.mem_filterMap.2 ⟨a, List.mem_cons_self, hv⟩)
    have hothers : ∀ v ∈ as.filterMap (·.2), '"' ∉ v := fun v hv =>
      hvalues v (((List.sublist_cons_self a as).filterMap _).subset hv)
    rw [List.flatMap_cons, List.append_assoc, readAttributes?, readEnding?_attribute hname,
      readAttribute?_attribute hname hvalue (stops_attributes as single rest)]
    simp only [ih hnames hothers, Option.map_some]

/-- **A tag** is read, whatever stands behind it. -/
theorem read?_text {t : Tag} (hnamed : t.Named) (hvalues : ∀ v ∈ t.values, '"' ∉ v) (rest : Text) :
    read? (t.text ++ rest) = some (t, rest) := by
  cases t with
  | opening name attributes single =>
    obtain ⟨hname, hnames⟩ := hnamed
    have htext : (opening name attributes single).text ++ rest =
        '<' :: (name ++ (attributes.flatMap attributeText ++ (ending single ++ rest))) := by
      simp [text, Text.cat]
    obtain ⟨htake, hdrop⟩ := Text.span_run hname.2 (stops_attributes attributes single rest).begins
    rw [htext, read?]
    · simp only [htake, hdrop, hname.isEmpty, readAttributes?_attributes hnames hvalues]
      rfl
    · -- a name does not begin with the mark of a closing tag
      intro s hs
      obtain ⟨hne, hall⟩ := hname
      cases name with
      | nil => exact hne rfl
      | cons c cs =>
        obtain ⟨rfl, -⟩ := List.cons_eq_cons.1 hs
        exact absurd (hall '/' List.mem_cons_self) (by decide)
  | closing name =>
    have htext : (closing name).text ++ rest = '<' :: '/' :: (name ++ '>' :: rest) := by simp [text, Text.cat]
    obtain ⟨htake, hdrop⟩ := Text.span_run hnamed.2 (show Text.begins isNameChar ('>' :: rest) = false from rfl)
    simp only [htext, read?, htake, hdrop, hnamed.isEmpty]
    rfl

end

end Tag

namespace Markup

/-- markup ends, or the next tag begins -/
theorem begins_write (m : Markup) : Text.begins (· != '<') m.write = false := by
  rcases m with _ | ⟨⟨_ | _, s⟩, m⟩ <;> rfl

/-- **Markup is read as it was written,** if no text has a bracket and no value a quotation mark. -/
theorem read_write {m : Markup} (hnamed : m.Named) (htexts : ∀ s ∈ m.texts, s.Avoids Text.markup) :
    read? m.write = some m := by
  induction m with
  | nil => rw [write_nil, read?]
  | cons p m ih =>
    obtain ⟨t, s⟩ := p
    obtain ⟨hname, hnamed⟩ := List.forall_mem_cons.1 hnamed
    rw [texts, List.flatMap_cons, List.forall_mem_append, List.forall_mem_cons] at htexts
    obtain ⟨⟨htext, hvalues⟩, htexts⟩ := htexts
    have hquotes : ∀ v ∈ t.values, '"' ∉ v := fun v hv hq => hvalues v hv '"' hq (by decide)
    have hbrackets : ∀ c ∈ s, (c != '<') = true := fun c hc =>
      bne_iff_ne.2 fun h => htext c hc (h ▸ by decide)
    obtain ⟨htake, hdrop⟩ := Text.span_run hbrackets (begins_write m)
    have hread := Tag.read?_text hname hquotes (s ++ write m)
    obtain ⟨c, cs, hcons⟩ : ∃ c cs, t.text ++ (s ++ write m) = c :: cs := by
      cases t <;> exact ⟨_, _, rfl⟩
    rw [write_cons, List.append_assoc, hcons, read?]
    rw [hcons] at hread
    split
    · rename_i found rest hfound
      cases hread.symm.trans hfound
      rw [htake, hdrop, ih hnamed htexts]
      rfl
    · rename_i hnone
      cases hread.symm.trans hnone

/-- the text is read as markup in which all values and texts are escaped, and these stand for what the markup has -/
def ReadsAs (text : Text) (m : Markup) : Prop :=
  ∃ raw, read? text = some raw ∧ (∀ s ∈ raw.texts, s.Escaped) ∧ raw.onTexts Text.decoded = m

/-- **Escaped values and texts** are read as themselves. -/
theorem reads_escaped {m : Markup} (h : m.Named) : ReadsAs (m.onTexts Text.escape).write m := by
  have hescaped : ∀ s ∈ (m.onTexts Text.escape).texts, s.Escaped := by
    rw [texts_onTexts, List.forall_mem_map]
    exact fun s _ => Text.escaped_escape s
  exact ⟨_, read_write (h.onTexts _) fun s hs => (hescaped s hs).avoids.markup, hescaped,
    onTexts_onTexts Text.decoded_escape m⟩

end Markup

end Stencil
