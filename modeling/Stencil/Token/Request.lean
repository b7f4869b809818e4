/-
REQUESTS. A scanner reads one template, and is asked for its tokens or for the line of a position, as often as one likes
and in any order. Every scan begins anew. What it leaves, be it at its end or at a fault, is where the lines asked for
after it are counted from. `Scan.answers` are the answers to a series of requests.
-/
import Stencil.Token.Scan

namespace Stencil.Scan

/-- the state at a fault: the line of its place was asked for last -/
def stopAt (source : Text) (f : Fault) (st : Scan) : Scan :=
  match f.place with
  | some p => { st with counter := st.counter.moveTo source p.position }
  | none => st

/-- the pieces of the source from a position on: the fault that stops the scan, if there is one, and the state that
is left -/
def runKeeping (s : Settings) (classify : Text → TokenKind) (source : Text) :
    Nat → Scan → List Delimiter.Chunk → Option Fault × Scan
  | _, st, [] => (none, st)
  | position, st, c :: cs =>
    match st.chunk s classify source position c with
    | .ok st' => runKeeping s classify source (position + (c.source s.opening s.closing).length) st' cs
    | .error f => (some f, st.stopAt source f)

/-- the whole scan of a template, and the state that it leaves -/
def scanKeeping (s : Settings) (classify : Text → TokenKind) (source : Text) : Except Fault (List Token) × Scan :=
  match runKeeping s classify source 0 .start (Delimiter.chunks s.opening s.closing s.opening_ne source) with
  | (none, st) => (.ok st.tokens.reverse, st)
  | (some f, st) => (.error f, st)

/-- what a scanner is asked for -/
inductive Request where
  /-- the tokens of the template -/
  | tokens
  /-- the line of a position -/
  | line (position : Int)
  deriving DecidableEq, Repr

/-- what a scanner answers -/
inductive Answer where
  /-- the tokens, or the fault of the template -/
  | tokens (found : Except Fault (List Token))
  /-- a line -/
  | line (n : Nat)
  deriving Repr

/-- the answer to a request, and the state that it leaves -/
def answer (s : Settings) (classify : Text → TokenKind) (source : Text) (st : Scan) : Request → Answer × Scan
  | .tokens =>
    let (found, st) := scanKeeping s classify source
    (.tokens found, st)
  | .line position =>
    let counter := st.counter.moveTo source position
    (.line counter.line, { st with counter := counter })

/-- the answers to requests, one after the other -/
def answers (s : Settings) (classify : Text → TokenKind) (source : Text) : Scan → List Request → List Answer
  | _, [] => []
  | st, r :: rs =>
    let (a, st) := answer s classify source st r
    a :: answers s classify source st rs

end Stencil.Scan
