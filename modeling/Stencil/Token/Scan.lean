/-
SCANNING. `scan` turns a template into tokens, from left to right. Text between directives becomes literal
tokens, adjacent ones joined; an escaped directive is literal text without its backslash. A directive is stripped
and classified; one that is empty, or that holds an opening mark, is refused, and so is text with an opening mark
that is never closed, unless a backslash stands before it.

Lines are counted by a `LineCounter`, which goes on from the last position asked for and starts anew for an
earlier one; `LineCounter.line` gives 1 plus the number of line feeds before the position, whatever was asked
before. A position below zero lies so far before the end of the source; what is asked after it is counted from
there.
-/
import Stencil.Fault
import Stencil.Settings
import Stencil.Token.Delimiter

namespace Stencil

/-- the line that was found last, and the position it was found for -/
structure LineCounter where
  line : Nat
  offset : Int
  deriving DecidableEq, Repr

namespace LineCounter

/-- the counter at the beginning of a text -/
def start : LineCounter := ⟨1, 0⟩

/-- how many characters of the source stand before a position -/
def before (source : Text) (position : Int) : Nat :=
  if position < 0 then (source.length + position).toNat else position.toNat

/-- the counter moved to a position of the source -/
def moveTo (source : Text) (c : LineCounter) (position : Int) : LineCounter :=
  let c := if position < c.offset then start else c
  let first := before source c.offset
  ⟨c.line + Text.lineFeeds ((source.drop first).take (before source position - first)), position⟩

end LineCounter

/-- how much of an unterminated directive a fault shows -/
def shownLength : Nat := 40

/-- the text with every opening mark that a backslash precedes, but for those backslashes; `lead` is the text
before, and a mark without a backslash is given by its offset and the text from it on -/
def literalFrom (opening : Text) (ne : opening ≠ []) (offset : Nat) (lead s : Text) :
    Except (Nat × Text) Text :=
  match _h : Text.cut? opening s with
  | none => .ok s
  | some (before, rest) =>
    if (if before.isEmpty then lead else before).getLast? == some '\\' then do
      let more ← literalFrom opening ne (offset + before.length + opening.length) opening rest
      return before.dropLast ++ opening ++ more
    else .error (offset + before.length, opening ++ rest)
termination_by s.length
decreasing_by
  have : 0 < opening.length := List.length_pos_iff.mpr ne
  rw [Text.eq_of_cut? _h]
  simp
  omega

/-- literal text as it is written out -/
def literalText (s : Settings) (text : Text) : Except (Nat × Text) Text :=
  literalFrom s.opening s.opening_ne 0 [] text

/-- the state of a scan: the tokens found, last first, and the line counter -/
structure Scan where
  tokens : List Token
  counter : LineCounter
  deriving Repr

namespace Scan

/-- nothing scanned yet -/
def start : Scan := ⟨[], .start⟩

/-- one token more; literal text joins a literal token before it, and empty literal text is none -/
def add (source : Text) (kind : TokenKind) (raw : Text) (position : Nat) (st : Scan) : Scan :=
  let counter := st.counter.moveTo source position
  if kind == .literal && raw.isEmpty then { st with counter := counter }
  else
    match kind, st.tokens with
    | .literal, last :: before =>
      if last.kind == .literal then ⟨{ last with raw := last.raw ++ raw } :: before, counter⟩
      else ⟨⟨.literal, raw, position, counter.line⟩ :: last :: before, counter⟩
    | kind, tokens => ⟨⟨kind, raw, position, counter.line⟩ :: tokens, counter⟩

/-- a fault at a position of the source -/
def fail {α : Type} (source : Text) (cause : Cause) (raw : Text) (position : Nat) (st : Scan) : Except Fault α :=
  .error ⟨cause, raw, some ⟨position, (st.counter.moveTo source position).line⟩⟩

/-- literal text of the source -/
def literal (s : Settings) (source text : Text) (position : Nat) (st : Scan) : Except Fault Scan :=
  match literalText s text with
  | .ok t => .ok (st.add source .literal t position)
  | .error (offset, rest) => st.fail source .unterminated (rest.take shownLength) (position + offset)

/-- a directive of the source -/
def directive (s : Settings) (classify : Text → TokenKind) (source body : Text) (position : Nat) (st : Scan) :
    Except Fault Scan :=
  if Text.holds s.opening body then st.fail source .nestedDelimiter body position
  else
    let raw := Text.strip body
    if raw.isEmpty then st.fail source .emptyDirective (s.opening ++ body ++ s.closing) position
    else
      match classify raw with
      | .comment => .ok (st.add source .comment (Text.strip (raw.drop s.comment.length)) position)
      | kind => .ok (st.add source kind raw position)

/-- one piece of the source -/
def chunk (s : Settings) (classify : Text → TokenKind) (source : Text) (position : Nat) (st : Scan) :
    Delimiter.Chunk → Except Fault Scan
  | .plain t => st.literal s source t position
  | .tail t => st.literal s source t position
  | .escaped body => .ok (st.add source .literal (s.opening ++ body ++ s.closing) position)
  | .directive body => st.directive s classify source body position

/-- the pieces of the source from a position on -/
def run (s : Settings) (classify : Text → TokenKind) (source : Text) :
    Nat → Scan → List Delimiter.Chunk → Except Fault Scan
  | _, st, [] => .ok st
  | position, st, c :: cs =>
    match st.chunk s classify source position c with
    | .ok st' => run s classify source (position + (c.source s.opening s.closing).length) st' cs
    | .error f => .error f

end Scan

/-- the whole scan of a template -/
def scanAll (s : Settings) (classify : Text → TokenKind) (source : Text) : Except Fault Scan :=
  Scan.run s classify source 0 .start (Delimiter.chunks s.opening s.closing s.opening_ne source)

/-- the tokens of a template -/
def scan (s : Settings) (classify : Text → TokenKind) (source : Text) : Except Fault (List Token) :=
  (scanAll s classify source).map fun st => st.tokens.reverse

end Stencil
