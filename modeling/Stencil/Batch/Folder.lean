/-
FOLDERS. What lies in a folder are files with their texts, and folders that hold files or were made empty. A path
may lead back by two points, so a place has more than one path; `place?` is where a path leads.

`makeFolders` and `write` are what a batch does in its output folder. A file is not put where a folder is, no
folder where a file is, a name has at most `nameLimit` bytes, and a text with halves of characters leaves an empty
file.
-/
import Stencil.Batch.Path
import Stencil.Keyed
import Stencil.Text.Half

namespace Stencil

/-- the files of a folder -/
abbrev Files := List (Path × Text)

/-- the files in a folder and the folders that were made in it -/
structure Folder where
  files : Files
  made : List Path
  deriving DecidableEq, Repr

/-- why something cannot be put in a folder -/
inductive FolderFault where
  /-- a file is where a folder has to be made -/
  | occupied
  /-- a file is where a folder should lead on -/
  | blocked
  /-- a folder is where a file has to be written -/
  | isFolder
  /-- a name is too long -/
  | longName
  /-- a text cannot be written -/
  | unwritable
  deriving DecidableEq, Repr

/-- how many bytes a name has at most -/
def nameLimit : Nat := 255

/-- a name that is too long for a file -/
def isLongName (name : Text) : Bool := nameLimit < (name.map Char.utf8Size).foldr (· + ·) 0

/-- the name that leads back -/
def backName : Text := ".."

namespace Folder

/-- nothing in the folder -/
def empty : Folder := ⟨[], []⟩

/-- a folder with files -/
def ofFiles (files : Files) : Folder := ⟨files, []⟩

/-- the text of the file at a place -/
def text? (f : Folder) (p : Path) : Option Text := getAt? p f.files

/-- a file is at the place -/
def isFile (f : Folder) (p : Path) : Bool := (f.text? p).isSome

/-- the path stands above another -/
def isAbove (p q : Path) : Bool := p.isPrefixOf q && p.length < q.length

/-- a folder is at the place -/
def isFolder (f : Folder) (p : Path) : Bool :=
  p.isEmpty || f.files.any (fun e => isAbove p e.1) || f.made.any fun q => p.isPrefixOf q

/-- the names in the folder at a place, each once -/
def names (f : Folder) (p : Path) : List Text :=
  ((f.files.map (·.1) ++ f.made).filterMap fun q => if isAbove p q then q[p.length]? else none).eraseDups

/-- where a name leads from a place; nowhere but in a folder, and not out of the whole -/
def next? (f : Folder) (p : Path) (name : Text) : Option Path :=
  if !f.isFolder p then none
  else if name == backName then (if p.isEmpty then none else some p.dropLast)
  else
    let q := p ++ [name]
    if f.isFolder q || f.isFile q then some q else none

/-- where a path leads -/
def place? (f : Folder) (p : Path) : Option Path := p.foldlM f.next? []

/-- a folder made for every name of a path that leads nowhere yet, and where the path leads; `created` says that one
was made -/
def makeFolders (created : Bool) (p : Path) : Path → Folder → Except FolderFault (Path × Folder)
  | [], f => .ok (p, f)
  | name :: rest, f =>
    match f.next? p name with
    | some q =>
      if f.isFile q then .error (if rest.isEmpty || created then .occupied else .blocked)
      else makeFolders created q rest f
    | none =>
      if isLongName name then .error .longName
      else makeFolders true (p ++ [name]) rest { f with made := (p ++ [name]) :: f.made }

/-- a text written under a name at a place, and what ends the work -/
def write (p : Path) (name content : Text) (f : Folder) : Folder × Option FolderFault :=
  let q := p ++ [name]
  if isLongName name then (f, some .longName)
  else if f.isFolder q then (f, some .isFolder)
  else if Text.isWritable content then ({ f with files := putAt q content f.files }, none)
  else ({ f with files := putAt q [] f.files }, some .unwritable)

/-- the files in the order of their places -/
def listing (f : Folder) : Files := f.files.mergeSort fun a b => Path.le a.1 b.1

end Folder

end Stencil
