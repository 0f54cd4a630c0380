/-
The files that registry documents are read from.

Files stand in folders, and folders in the root. A path goes through folders
step by step, from the root if it starts with a slash, and from the working
folder if not. A step back leads to the folder that a folder stands in; the root
stands in itself. So one file is named by many paths, absolute ones among them
and such that leave the working folder and come back.

Where a path leads to no file, the reason is the first one on the way
(`Files.read`, the `read_to_string` of `load_file` and `get_inner`).
-/
import Measurement.Fault
import Measurement.Table

set_option autoImplicit false

namespace Measurement

/-- A finite number of text files, under their steps from the root, and the working folder, by its
steps from the root. -/
structure Files where
  home : List (List Char)
  texts : Table String
deriving DecidableEq

namespace Files

/-- No files, and a working folder in the root. -/
def none : Files := ⟨["home".toList], .empty⟩

/-- A step that stays where it is. -/
def stays (step : List Char) : Bool := step.isEmpty || step == ['.']

/-- The steps of a path. -/
def steps (path : String) : List (List Char) := path.toList.splitOnP (· == '/')

/-- The key under which a file with the given steps from the root is kept. -/
def joined (names : List (List Char)) : String := String.ofList (['/'].intercalate names)

/-- The folder that a path starts in. -/
def start (files : Files) (path : String) : List (List Char) :=
  if path.startsWith "/" then [] else files.home

/-- The key under which the file of a path without steps back is kept. -/
def place (files : Files) (path : String) : String :=
  joined (files.start path ++ (steps path).filter fun step => !stays step)

/-- The files after writing one. -/
def write (files : Files) (path text : String) : Files :=
  { files with texts := files.texts.insert (files.place path) text }

/-- The files after removing one. -/
def remove (files : Files) (path : String) : Files :=
  { files with texts := files.texts.erase (files.place path) }

/-! ## 1. Ways -/

/-- Where a way through folders has led to. -/
inductive Stand where
  /-- A folder, by its steps from the root. -/
  | folder (names : List (List Char))
  /-- A file, by its key. -/
  | file (key : String)
deriving DecidableEq

/-- The largest length of a name, in octets. -/
def maxName : Nat := 255

/-- The largest length of a path, in octets. -/
def maxPath : Nat := 4095

/-- Whether there is a folder: the working folder is in it or below it, or some file is. -/
def hasFolder (files : Files) (names : List (List Char)) : Bool :=
  names.isPrefixOf files.home
    || files.texts.names.any fun key => (joined names ++ "/").toList.isPrefixOf key.toList

/-- The step to a name in a folder. -/
def enter (files : Files) (names : List (List Char)) (name : List Char) : Except FileFault Stand :=
  let inside := names ++ [name]
  if (files.texts.get? (joined inside)).isSome then .ok (.file (joined inside))
  else if files.hasFolder inside then .ok (.folder inside)
  else .error .missing

/-- One step on the way. -/
def go (files : Files) (stand : Stand) (step : List Char) : Except FileFault Stand :=
  match stand with
  -- Even a step that would stay needs a folder to stay in.
  | .file _ => .error .notFolder
  | .folder names =>
    if stays step then .ok stand
    else if step = ['.', '.'] then .ok (.folder names.dropLast)
    else if maxName < (String.ofList step).utf8ByteSize then .error .nameTooLong
    else files.enter names step

/-- Where a path leads to. -/
def follow (files : Files) (path : String) : Except FileFault Stand :=
  if path.contains '\x00' then .error .noPath
  else if path.isEmpty then .error .missing
  else if maxPath < path.utf8ByteSize then .error .nameTooLong
  else (steps path).foldlM files.go (.folder (files.start path))

/-- The text of the file that a path leads to. -/
def read (files : Files) (path : String) : Except FileFault String :=
  match files.follow path with
  | .error e => .error e
  | .ok (.file key) => (files.texts.get? key).elim (.error .missing) .ok
  | .ok (.folder _) => .error .folder

end Files

end Measurement
