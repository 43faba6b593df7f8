import Grimoire.Number.Numeral
import Grimoire.Text.Utf8

/-!
# Files

What it takes to open a file by its path, and why that can fail. A `Folder` is a folder whose
contents are known. A path is followed name by name, so the first name that leads nowhere decides
how opening it fails, and two dots lead back only from a folder that is there.
-/

namespace Grimoire

/-- Why a file cannot be opened: the number and the words of the system's error, and its name. -/
structure FileError where
  number : Nat
  reason : Text
  title : Text
deriving DecidableEq

namespace FileError

/-- There is nothing behind the path. -/
def notFound : FileError := ⟨2, "No such file or directory", "FileNotFoundError"⟩

/-- Something on the way is no folder. -/
def notAFolder : FileError := ⟨20, "Not a directory", "NotADirectoryError"⟩

/-- What is behind the path is a folder and no file. -/
def isFolder : FileError := ⟨21, "Is a directory", "IsADirectoryError"⟩

/-- The path, or a name in it, is too long. -/
def nameTooLong : FileError := ⟨36, "File name too long", "OSError"⟩

/-- The words in which the system's error is shown, with the path as it was given. -/
def message (e : FileError) (path : Text) : Text :=
  "[Errno " ++ Numeral.digits e.number ++ "] " ++ e.reason ++ ": " ++ Text.quoted path

end FileError

/-- Opens files: the bytes behind a path. -/
abbrev Opener := Text → Except FileError (List UInt8)

/-- A folder: the files in it by their paths, and the paths of the folders in it. -/
structure Folder where
  files : List (Text × List UInt8)
  folders : List Text

namespace Folder

/-- The steps of a path: what stands between its slashes. -/
def steps : Text → List Text
  | [] => [[]]
  | c :: cs =>
    if c = '/' then [] :: steps cs
    else match steps cs with
      | [] => [[c]]
      | s :: ss => (c :: s) :: ss

/-- The steps of a path that lead somewhere: empty ones and single dots do not. -/
def route (path : Text) : List Text := (steps path).filter fun s => s ≠ [] ∧ s ≠ Text.ofString "."

/-- The contents of the file at the end of a route. A file that is given more than once has the
contents given last. -/
def file? (f : Folder) (r : List Text) : Option (List UInt8) :=
  (f.files.reverse.find? fun (name, _) => route name = r).map (·.2)

/-- Whether a route leads to a folder. -/
def hasFolder (f : Folder) (r : List Text) : Bool :=
  -- What is in a folder shows that the folder is there.
  r = [] || f.folders.any (fun name => r.isPrefixOf (route name))
    || f.files.any (fun (name, _) => r.isPrefixOf (route name) && decide (route name ≠ r))

/-- The longest name in a path, in bytes. -/
def nameLimit : Nat := 255

/-- The longest path, in bytes. -/
def pathLimit : Nat := 4095

/-- Where a path leads. -/
inductive Target where
  /-- The folder itself or one inside of it, at the end of a route. -/
  | folder (route : List Text)
  /-- A folder that the folder lies in. Nothing else is in it. -/
  | outside
  | file (bytes : List UInt8)
deriving DecidableEq

/-- Where a path starts: at the folder, or far outside of it if it starts with a slash. -/
def origin (path : Text) : Target :=
  if path.head? = some ('/' : CodePoint) then .outside else .folder []

/-- What is at the end of a route inside the folder. -/
def find (f : Folder) (r : List Text) : Except FileError Target :=
  match f.file? r with
  | some bytes => .ok (.file bytes)
  | none => if f.hasFolder r then .ok (.folder r) else .error .notFound

/-- The folder around a place. There is nothing around the outside but itself. -/
def Target.around : Target → Target
  | .folder [] => .outside
  | .folder r => .folder r.dropLast
  | here => here

/-- Goes one step on. An empty step and a single dot lead to where one is, two dots lead to the
folder around it, and from a file there is no way on. -/
def step (f : Folder) : Target → Text → Except FileError Target
  | .file _, _ => .error .notAFolder
  | here, name =>
    if name = [] ∨ name = Text.ofString "." then .ok here
    else if name = Text.ofString ".." then .ok here.around
    else if nameLimit < Utf8.size name then .error .nameTooLong
    else match here with
      | .folder r => f.find (r ++ [name])
      | _ => .error .notFound

/-- Opens files in a folder. The path is followed step by step, so every folder on the way has to
exist. -/
def opener (f : Folder) : Opener := fun path =>
  if path = [] then .error .notFound
  else if pathLimit < Utf8.size path then .error .nameTooLong
  else do
    match ← (steps path).foldlM f.step (origin path) with
    | .file bytes => return bytes
    | .folder _ | .outside => throw .isFolder

end Folder
end Grimoire
