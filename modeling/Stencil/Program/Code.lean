/-
CODE. How expressions, conditions and statements are written. Whatever comes from the template is written as a
literal: texts in quotes, paths as tuples, attributes as mappings.
-/
import Stencil.Program.Basic

namespace Stencil

/-- items between parentheses, with a comma after a single one -/
def tupleCode (items : List Text) : Text :=
  match items with
  | [x] => '(' :: x ++ [',', ')']
  | xs => '(' :: Text.sep ", ".toList xs ++ [')']

/-- entries between braces -/
def mappingCode (entries : List (Text × Text)) : Text :=
  '\x7b' :: Text.sep ", ".toList (entries.map fun e => Text.Quoted.encode e.1 ++ ':' :: ' ' :: e.2) ++ ['\x7d']

/-- attributes as a mapping -/
def Attributes.code (a : Attributes) : Text := mappingCode (a.map fun e => (e.1, Text.Quoted.encode e.2))

/-- a segment as a literal -/
def Segment.code : Segment → Text
  | .name s => Text.Quoted.encode s
  | .index n => Text.ofNat n

/-- a path as a tuple -/
def pathCode (path : List Segment) : Text := tupleCode (path.map Segment.code)

/-- a truth value as a literal -/
def flagCode (b : Bool) : Text := if b then "True" else "False"

/-- an expression -/
def Expr.code : Expr → Text
  | literal l => l.code
  | lookup path default => Text.cat ["lookup(_scope, ", pathCode path, ", ", default.code, ")"]
  | demand path reference =>
    Text.cat ["lookup_strict(_scope, ", pathCode path, ", ", Text.Quoted.encode reference, ")"]

/-- the test that a path reaches something -/
def reachedCode (path : List Segment) : Text := Text.cat ["exists(_scope, ", pathCode path, ")"]

/-- a test -/
def Test.code : Test → Text
  | truth e => Text.cat ["bool(", e.code, ")"]
  | compare op l r => Text.cat ["compare(", Text.Quoted.encode op.text, ", ", l.code, ", ", r.code, ")"]

/-- a clause -/
def Clause.code (c : Clause) : Text :=
  if c.negated then Text.cat ["(not ", c.test.code, ")"] else Text.cat ["(", c.test.code, ")"]

/-- a connective -/
def Connective.code : Connective → Text
  | and => "and"
  | or => "or"

/-- a condition -/
def Condition.code (c : Condition) : Text :=
  c.first.code ++ c.rest.flatMap fun r => ' ' :: r.1.code ++ ' ' :: r.2.code

/-- a temporary by its purpose and number -/
def temporary (purpose : Text) (n : Nat) : Text := '_' :: purpose ++ '_' :: Text.ofNat n

/-- the temporary that holds a part of the current entry -/
def Half.code : Half → Text
  | key n => temporary "key" n
  | item n => temporary "value" n

/-- a statement as a line of code -/
def Stmt.code : Stmt → Text
  | pass => "pass"
  | write s => Text.cat ["_write(", Text.Quoted.encode s, ")"]
  | emit e => Text.cat ["_emit(", e.code, ")"]
  | whenReached path => Text.cat ["if ", reachedCode path, ":"]
  | iterate items e => Text.cat [temporary "items" items, " = iterate(", e.code, ")"]
  | loopOpen items => Text.cat ["_loop = LoopContext(len(", temporary "items" items, "), _loop)"]
  | scopeLoop => "_scope = _scope.new_child(\x7b'loop': _loop\x7d)"
  | forEach key item items =>
    Text.cat ["for ", temporary "key" key, ", ", temporary "value" item, " in ", temporary "items" items, ":"]
  | iterationBegin key => Text.cat ["_loop.iteration_begin(", temporary "key" key, ")"]
  | bind name half => Text.cat ["_scope[", Text.Quoted.encode name, "] = ", half.code]
  | iterationEnd => "_loop.iteration_end()"
  | scopeClose => "_scope = _scope.parents"
  | loopClose => "_loop = _loop.parent"
  | when c => Text.cat ["if ", c.code, ":"]
  | elsewhen c => Text.cat ["elif ", c.code, ":"]
  | otherwise => "else:"
  | captureBegin => "_r.capture_begin()"
  | captureEnd name => Text.cat ["_r.capture_end(", Text.Quoted.encode name, ")"]
  | formOpen e name attributes =>
    Text.cat ["_form = _r.form_open(", e.code, ", ", Text.Quoted.encode name, ", ", attributes.code, ", _form)"]
  | writeFormOpen => "_write(_form.open())"
  | scopeForm => "_scope = _scope.new_child(\x7b'form': _form\x7d)"
  | writeFormClose => "_write(_form.close())"
  | formClose => "_form = _form.parent"
  | field name attributes labelled =>
    Text.cat ["_write(_form.input_for(", Text.Quoted.encode name, ", ", attributes.code, ", ", flagCode labelled,
      "))"]
  | submit attributes => Text.cat ["_write(_form.submit(", attributes.code, "))"]
  | button attributes => Text.cat ["_write(_form.button(", attributes.code, "))"]
  | generate e name attributes submitting =>
    Text.cat ["_write(_r.form_open(", e.code, ", ", Text.Quoted.encode name, ", \x7b\x7d, _form).generate(",
      attributes.code, ", ", flagCode submitting, "))"]
  | translate text key params =>
    Text.cat [temporary "text" text, " = _r.translate(", Text.Quoted.encode key, ", ",
      mappingCode (params.map fun p => (p.1, p.2.code)), ")"]
  | whenText text => Text.cat ["if ", temporary "text" text, " is not None:"]
  | writeText text => Text.cat ["_write(", temporary "text" text, ")"]

end Stencil
