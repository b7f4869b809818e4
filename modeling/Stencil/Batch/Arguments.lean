/-
ARGUMENTS of the command line. A switch begins with a hyphen; long ones may be shortened as long as they are not
ambiguous. A switch with a value takes it after an equals sign or as the next argument; switches of one letter can
stand together after one hyphen. Anything else is refused once all arguments are read, while help and version are
told as soon as they are met.
-/
import Stencil.Text.Basic

namespace Stencil.Batch

/-- what a batch is asked to do -/
structure Options where
  pattern : Text
  data : Option Text
  catalog : Option Text
  mappings : Option Text
  strict : Bool
  verbosity : Nat
  deriving DecidableEq, Repr

/-- the options where nothing is asked for -/
def Options.standard : Options := ⟨"*.tpl", none, none, none, false, 1⟩

/-- a switch -/
inductive Switch where
  | help | pattern | data | catalog | mappings | strict | verbosity | version
  deriving DecidableEq, Repr

/-- what arguments ask for -/
inductive Request where
  | run (o : Options)
  | help
  | version
  | misuse
  deriving DecidableEq, Repr

namespace Switch

/-- the switches as they are written -/
def spellings : List (Text × Switch) :=
  [("-h", help), ("--help", help), ("--pattern", pattern), ("--dataFile", data), ("--catalogFile", catalog),
   ("--mappingsFile", mappings), ("--strict", strict), ("-v", verbosity), ("--verbosity", verbosity),
   ("-V", version), ("--version", version)]

/-- the switch that is written so -/
def ofText? (s : Text) : Option Switch := (spellings.find? fun e => e.1 == s).map (·.2)

/-- the switch has a value -/
def isValued : Switch → Bool
  | pattern => true
  | data => true
  | catalog => true
  | mappings => true
  | _ => false

/-- options with the value of a switch -/
def assign (o : Options) (value : Text) : Switch → Options
  | pattern => { o with pattern := value }
  | data => { o with data := some value }
  | catalog => { o with catalog := some value }
  | mappings => { o with mappings := some value }
  | _ => o

/-- options with a switch that has no value; help and version end the reading -/
def turnOn (o : Options) : Switch → Except Request Options
  | help => .error .help
  | version => .error .version
  | strict => .ok { o with strict := true }
  | verbosity => .ok { o with verbosity := o.verbosity + 1 }
  | _ => .ok o

end Switch

/-- an argument as it is understood; `joined` is what follows a switch in the same argument, and `marked` says that
an equals sign stands between -/
inductive Argument where
  | operand (s : Text)
  | dashes
  | unknown
  | ambiguous
  | switch (s : Switch) (short : Bool) (joined : Option Text) (marked : Bool)
  deriving DecidableEq, Repr

/-- a text divided at its first equals sign -/
def splitMark (s : Text) : Text × Option Text :=
  match Text.cut? "=" s with
  | some (name, value) => (name, some value)
  | none => (s, none)

/-- a text of digits, or of digits around a point, after a hyphen -/
def isNegative (s : Text) : Bool :=
  match s with
  | '-' :: digits =>
    let whole := digits.takeWhile Text.isDigit
    match digits.dropWhile Text.isDigit with
    | [] => !whole.isEmpty
    | '.' :: fraction => !fraction.isEmpty && fraction.all Text.isDigit
    | _ => false
  | _ => false

/-- an argument that is no spelling of a switch as it stands -/
def otherwise (s : Text) : Argument :=
  if isNegative s || s.contains ' ' then .operand s else .unknown

/-- a shortened long switch -/
def shortened (s : Text) : Argument :=
  let (name, value) := splitMark s
  match Switch.spellings.filter fun e => Text.startsWith e.1 name with
  | [] => otherwise s
  | [e] => .switch e.2 false value value.isSome
  | _ => .ambiguous

/-- an argument understood -/
def understand (s : Text) : Argument :=
  match s with
  | '-' :: c :: rest =>
    match Switch.ofText? s with
    | some switch => .switch switch (c != '-') none false
    | none =>
      let (name, value) := splitMark s
      match Switch.ofText? name, value with
      | some switch, some v => .switch switch (c != '-') (some v) true
      | _, _ =>
        if c == '-' then shortened s
        else
          match Switch.ofText? ['-', c] with
          | some switch => .switch switch true (some rest) false
          | none => otherwise s
  | _ => .operand s

/-- the arguments understood; after two hyphens all are operands -/
def understandAll : List Text → List Argument
  | [] => []
  | s :: rest =>
    if s == ['-', '-'] then .dashes :: rest.map .operand else understand s :: understandAll rest

/-- the switches of one letter that stand together, and whether something else follows them; none if a hyphen or an
equals sign does -/
def cluster? : Text → Option (List Switch × Bool)
  | [] => some ([], false)
  | c :: cs =>
    if c == '-' || c == '=' then none
    else
      match Switch.ofText? ['-', c] with
      | none => some ([], true)
      | some s => (cluster? cs).map fun p => (s :: p.1, p.2)

/-- options with arguments applied from left to right; `refused` says that an argument is nobody's -/
def apply (o : Options) (refused : Bool) : List Argument → Except Request Options
  | [] => if refused then .error .misuse else .ok o
  | .switch s short joined marked :: rest =>
    match s.isValued, joined with
    | true, some v => apply (s.assign o v) refused rest
    | true, none =>
      match rest with
      | .operand v :: rest => apply (s.assign o v) refused rest
      | _ => .error .misuse
    | false, none => do
      let o ← s.turnOn o
      apply o refused rest
    | false, some v =>
      if !short || marked || v.isEmpty then .error .misuse
      else
        match cluster? v with
        | none => .error .misuse
        | some (more, others) => do
          let o ← (s :: more).foldlM Switch.turnOn o
          apply o (refused || others) rest
  | .ambiguous :: _ => .error .misuse
  | _ :: rest => apply o true rest

/-- what arguments ask for -/
def request (arguments : List Text) : Request :=
  let as := understandAll arguments
  if as.contains .ambiguous then .misuse
  else
    match apply .standard false as with
    | .ok o => .run o
    | .error r => r

end Stencil.Batch
