/-
BATCHES. A batch compiles the templates of a folder that a pattern stands for, and renders them if there are data.
Every template is treated by itself: its code or its text is written under its name with another suffix, or its
fault or failure is told and counted. The batch succeeds if no template fails.

The templates are treated one after the other, and the output folder is handed on from one to the next; `treat` is
the treatment of one template. `run` gives the exit status, what is told, the log and the files that are written.
-/
import Stencil.Batch.Arguments
import Stencil.Batch.Glob
import Stencil.Document
import Stencil.Render.Run
import Stencil.Report

namespace Stencil.Batch

/-- what ends a batch beside its own errors -/
inductive Stop where
  | pattern (f : Glob.PatternFault)
  /-- the name of a document holds a character that no name can hold -/
  | documentName
  /-- a document has a number without a value -/
  | documentNumber
  | refusal (r : Refusal)
  | failure (f : Failure)
  | folder (f : FolderFault)
  deriving DecidableEq, Repr

/-- what all templates of a batch are treated with -/
structure Job where
  strict : Bool
  verbosity : Nat
  output : Text
  data : Option Entries
  catalog : Option Catalog
  mappings : Entries

/-- what comes of a template -/
inductive Result where
  | written (target : Path)
  | failed (report : Text)
  | stopped (s : Stop)
  deriving DecidableEq, Repr

/-- what comes of a template, what the log tells of it, and the output folder after it -/
structure Treated where
  result : Result
  records : List Record
  folder : Folder

/-- the outcome of a batch -/
structure Outcome where
  exit : Nat
  stop : Option Stop
  errors : Text
  records : List Record
  files : Files

/-- a record outside of the work on a template -/
def general (level : Int) (parts : List Text) : Record := ⟨⟨level, Text.cat parts⟩, none⟩

/-- the suffix of code -/
def codeSuffix : Text := ".py"

/-- the suffix of rendered text -/
def textSuffix : Text := ".html"

namespace Job

/-- the names that templates may refer to in strict mode -/
def names (j : Job) : List Text :=
  if j.strict then (j.data.getD []).filterMap fun e => e.1.chars? else []

/-- the compiler of a job -/
def compiler (j : Job) : Compiler := .standard .standard (some j.strict) j.names

/-- a fault as it is told: with colours for those who want details -/
def report (j : Job) (source : Text) (f : Fault) : Text :=
  if 2 ≤ j.verbosity then f.diagnostic.highlighted source else f.diagnostic.context source

/-- where the phrases of a job come from -/
def phrases (j : Job) : Phrases :=
  match j.catalog with
  | some c => .catalog c
  | none => .value .none

/-- a text written under a template's name with another suffix, into the folder at a place -/
def written (j : Job) (path place : Path) (suffix content : Text) (before : List Record) (f : Folder) : Treated :=
  let target := path.withSuffix suffix
  match f.write place (target.getLast?.getD []) content with
  | (f, none) => ⟨.written target, before ++ [general 2 ["Wrote ", target.inside j.output]], f⟩
  | (f, some e) => ⟨.stopped (.folder e), before, f⟩

/-- a compiled template, rendered if there are data, and written into the folder at a place -/
def finish (j : Job) (path place : Path) (t : Template) (f : Folder) : Treated :=
  match j.data with
  | none => j.written path place codeSuffix t.code [] f
  | some data =>
    let r := t.render (.mapping data) [] j.phrases (.mapping j.mappings)
    let records := r.messages.map fun m => ⟨m, none⟩
    match r.outcome with
    | .ok o => j.written path place textSuffix o.output records f
    | .error (.undefined reference) =>
      ⟨.failed (Text.cat [path.text, ": render error: ", (Failure.undefined reference).message, "\n"]), records, f⟩
    | .error e => ⟨.stopped (.failure e), records, f⟩

/-- a template -/
def treat (j : Job) (path : Path) (text : Text) (f : Folder) : Treated :=
  let source := Text.unixLines text
  let records : List Record := (j.compiler.messages path.text source).map fun m => ⟨m, some path.text⟩
  match j.compiler.compile source with
  | .error (.fault e) => ⟨.failed (Text.cat [path.text, ":\n", j.report source e, "\n"]), records, f⟩
  | .error r => ⟨.stopped (.refusal r), records, f⟩
  | .ok t =>
    match f.makeFolders false [] path.dropLast with
    | .error e => ⟨.stopped (.folder e), records, f⟩
    | .ok (place, f) =>
      let done := j.finish path place t f
      { done with records := records ++ done.records }

/-- templates one after the other, up to one that stops the batch -/
def treatAll (j : Job) (f : Folder) : Files → List Treated
  | [] => []
  | e :: rest =>
    let t := j.treat e.1 e.2 f
    match t.result with
    | .stopped _ => [t]
    | _ => t :: treatAll j t.folder rest

end Job

/-- what is told of a failed template -/
def Treated.report (t : Treated) : Text :=
  match t.result with
  | .failed report => report
  | _ => []

/-- the place of the file that is written -/
def Treated.target? (t : Treated) : Option Path :=
  match t.result with
  | .written target => some target
  | _ => none

/-- what stops the batch -/
def Treated.stop? (t : Treated) : Option Stop :=
  match t.result with
  | .stopped s => some s
  | _ => none

/-- the template failed -/
def Treated.isFailed (t : Treated) : Bool :=
  match t.result with
  | .failed _ => true
  | _ => false

/-- what the log tells at the end of a batch without failures -/
def summary (output : Text) (count : Nat) (targets : List Path) : List Record :=
  general 1 ["✓ Compilation successful!"] :: general 1 ["  Templates: ", Text.ofNat count] ::
    targets.map fun p => general 1 ["  ", p.inside output]

/-- the outcome of templates that were treated, after what the log told before -/
def conclude (j : Job) (before : List Record) (treated : List Treated) : Outcome :=
  let failures := (treated.filter Treated.isFailed).length
  let reports := Text.cat (treated.map Treated.report)
  let records := before ++ treated.flatMap (·.records)
  let files := ((treated.getLast?.map Treated.folder).getD Folder.empty).listing
  match treated.findSome? Treated.stop? with
  | some s => ⟨0, some s, reports, records, files⟩
  | none =>
    if failures == 0 then
      ⟨0, none, reports, records ++ summary j.output treated.length (treated.filterMap Treated.target?), files⟩
    else
      ⟨1, none, reports ++ Text.cat ["Error: ", Text.ofNat failures, " template(s) failed\n"], records, files⟩

/-- an outcome without files -/
def refuse (error : Text) (records : List Record) : Outcome :=
  ⟨1, none, Text.cat ["Error: ", error, "\n"], records, []⟩

/-- an outcome without files that stops the batch -/
def stopAt (s : Stop) (records : List Record) : Outcome := ⟨0, some s, [], records, []⟩

/-- the text of a file that is named in an option -/
def fileText (folder : Folder) (name : Text) : Option Text :=
  if Path.isAbsolute name then none else (folder.place? (Path.ofText name)).bind folder.text?

/-- the place of a file that is named in an option -/
def filePlace (input name : Text) : Text :=
  if Path.isAbsolute name then name else (Path.ofText name).inside input

/-- what is given for an outcome where a document cannot be used, after what the log told before -/
def badDocument (input name : Text) (before : List Record) : DocumentFault → Outcome
  | .digitLimit => stopAt .documentNumber before
  | f => refuse (f.message (filePlace input name)) before

/-- the entries of the document with a number that is named in an option, if one is; else the outcome -/
def load (input : Text) (folder : Folder) (serial : Nat) (before : List Record) (name : Option Text) :
    Except Outcome (Option Entries) :=
  match name with
  | none => .ok none
  | some [] => .ok none
  | some name =>
    if name.contains '\x00' then .error (stopAt .documentName before)
    else (Document.entries serial (fileText folder name)).mapError (badDocument input name before) |>.map some

/-- what the log tells of a catalog -/
def catalogRecords (input : Text) (o : Options) (c : Option Catalog) : List Record :=
  match c, o.catalog with
  | some c, some name => [⟨c.loaded (filePlace input name), none⟩]
  | _, _ => []

/-- the outcome of templates with the documents of a folder, after what the log told before -/
def treatFolder (o : Options) (input output : Text) (folder : Folder) (templates : Files) (before : List Record) :
    Except Outcome Outcome := do
  let data ← load input folder 0 before o.data
  let document ← load input folder 1 before o.catalog
  let catalog := document.map fun d => Catalog.ofDocument d none
  let before := before ++ catalogRecords input o catalog
  let mappings ← load input folder 2 before o.mappings
  let j : Job := ⟨o.strict, o.verbosity, output, data, catalog, mappings.getD []⟩
  let before := before ++ [general 2 ["Output directory: ", output], general 1 ["Compiling templates..."]]
  return conclude j before (j.treatAll .empty templates)

/-- the outcome of a batch, with all that the log could tell -/
def runAll (o : Options) (input output : Text) (folder : Folder) : Outcome :=
  let before := [general 2 ["Checking environment..."]]
  match Glob.select o.pattern folder with
  | .error f => stopAt (.pattern f) before
  | .ok [] => refuse (Text.cat ["No templates matching '", o.pattern, "' in ", input]) before
  | .ok found =>
    let templates := found.filterMap fun r => (folder.text? r.place).map fun t => (r.path, t)
    let outcome := treatFolder o input output folder templates
      (before ++ [general 2 ["Found ", Text.ofNat found.length, " templates"]])
    match outcome with
    | .ok r => r
    | .error r => r

/-- the outcome of a batch, with what the log tells at its verbosity -/
def run (o : Options) (input output : Text) (folder : Folder) : Outcome :=
  let outcome := runAll o input output folder
  { outcome with records := outcome.records.filter fun r => Log.shows (some o.verbosity) r.message }

end Stencil.Batch
