/-
DELIMITERS. A directive is an opening mark, a body and the first closing mark after the opening; one that is
preceded by a backslash is text. `find?` locates the first directive of a text, `chunks` divides a whole text
into plain text, escaped directives and directives. Nothing is lost: the sources of the chunks, one after the
other, are the text (`source_chunks`).
-/
import Stencil.Text.Basic

namespace Stencil.Delimiter

/-- a directive in a text: what precedes it, whether a backslash escapes it, its body, and what follows it -/
structure Match where
  before : Text
  escaped : Bool
  body : Text
  rest : Text
  deriving DecidableEq, Repr

/-- the body and the rest of a text that begins with the opening mark -/
def bodyAt? (opening closing s : Text) : Option (Text × Text) :=
  (Text.after? opening s).bind (Text.cut? closing)

/-- the first directive of a text -/
def find? (opening closing : Text) : Text → Option Match
  | [] => none
  | c :: cs =>
    match if c == '\\' then bodyAt? opening closing cs else none with
    | some (body, rest) => some ⟨[], true, body, rest⟩
    | none =>
      match bodyAt? opening closing (c :: cs) with
      | some (body, rest) => some ⟨[], false, body, rest⟩
      | none => (find? opening closing cs).map fun m => { m with before := c :: m.before }

/-- the directive as it stands in the text -/
def Match.source (opening closing : Text) (m : Match) : Text :=
  (if m.escaped then ['\\'] else []) ++ opening ++ m.body ++ closing

theorem eq_of_bodyAt? {opening closing s body rest : Text} (h : bodyAt? opening closing s = some (body, rest)) :
    s = opening ++ body ++ closing ++ rest := by
  simp only [bodyAt?, Option.bind_eq_some_iff] at h
  obtain ⟨t, ht, hc⟩ := h
  rw [Text.eq_of_after? ht, Text.eq_of_cut? hc]
  simp

/-- a text is what precedes its first directive, the directive and what follows it -/
theorem eq_of_find? {opening closing s : Text} {m : Match} (h : find? opening closing s = some m) :
    s = m.before ++ m.source opening closing ++ m.rest := by
  induction s generalizing m with
  | nil => simp [find?] at h
  | cons c cs ih =>
    simp only [find?] at h
    split at h
    · rename_i body rest hb
      split at hb
      · rename_i hc
        simp only [Option.some.injEq] at h
        subst h
        simp [Match.source, eq_of_bodyAt? hb, beq_iff_eq.mp hc]
      · simp at hb
    · split at h
      · rename_i body rest hb
        simp only [Option.some.injEq] at h
        subst h
        simp [Match.source, eq_of_bodyAt? hb]
      · simp only [Option.map_eq_some_iff] at h
        obtain ⟨m', hm', rfl⟩ := h
        rw [ih hm']
        simp [Match.source]

theorem length_rest_lt {opening closing s : Text} (ne : opening ≠ []) {m : Match}
    (h : find? opening closing s = some m) : m.rest.length < s.length := by
  have : 0 < opening.length := List.length_pos_iff.mpr ne
  rw [eq_of_find? h]
  simp [Match.source]
  omega

/-- a piece of a template -/
inductive Chunk where
  /-- text before a directive -/
  | plain (text : Text)
  /-- a directive that a backslash escapes, by its body -/
  | escaped (body : Text)
  /-- a directive, by its body -/
  | directive (body : Text)
  /-- the text after the last directive -/
  | tail (text : Text)
  deriving DecidableEq, Repr

/-- the piece as it stands in the template -/
def Chunk.source (opening closing : Text) : Chunk → Text
  | plain t => t
  | escaped body => '\\' :: (opening ++ body ++ closing)
  | directive body => opening ++ body ++ closing
  | tail t => t

/-- the pieces of a template, in order -/
def chunks (opening closing : Text) (ne : opening ≠ []) (s : Text) : List Chunk :=
  match h : find? opening closing s with
  | none => if s.isEmpty then [] else [.tail s]
  | some m =>
    (if m.before.isEmpty then [] else [.plain m.before]) ++
      (if m.escaped then .escaped m.body else .directive m.body) :: chunks opening closing ne m.rest
termination_by s.length
decreasing_by exact length_rest_lt ne h

/-- the pieces of a template, put together, are the template -/
theorem source_chunks (opening closing : Text) (ne : opening ≠ []) (s : Text) :
    (chunks opening closing ne s).flatMap (Chunk.source opening closing) = s := by
  fun_induction chunks opening closing ne s with
  | case1 s h he => simp_all
  | case2 s h he => simp [Chunk.source]
  | case3 s m h ih =>
    conv => rhs; rw [eq_of_find? h]
    rcases hb : m.before with _ | ⟨c, cs⟩ <;> rcases he : m.escaped <;>
      simp [Chunk.source, Match.source, he, ih]

/-- where a directive lies in a text: from its start up to its end -/
structure Place where
  start : Nat
  stop : Nat
  escaped : Bool
  body : Text
  deriving DecidableEq, Repr

/-- the directives of the pieces that begin at `start` -/
def placesFrom (opening closing : Text) (start : Nat) : List Chunk → List Place
  | [] => []
  | c :: cs =>
    let stop := start + (c.source opening closing).length
    let rest := placesFrom opening closing stop cs
    match c with
    | .escaped body => ⟨start, stop, true, body⟩ :: rest
    | .directive body => ⟨start, stop, false, body⟩ :: rest
    | _ => rest

/-- every directive of a text, the escaped ones too, with its place -/
def places (opening closing : Text) (ne : opening ≠ []) (s : Text) : List Place :=
  placesFrom opening closing 0 (chunks opening closing ne s)

end Stencil.Delimiter
