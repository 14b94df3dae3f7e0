import Quill.Text.Search

/-!
# Files by path

A folder is given by its files, each under the names that lead to it. A path is walked name by name
from the folder it starts in, and a walk that ends at a file gives the text of the file. Nothing is
known of what lies outside of the folder, except that it is made of folders too.
-/

set_option autoImplicit false

namespace Quill

/-- Why a file could not be read. -/
inductive ReadProblem
  | missing
  | notFolder
  | isFolder
  | nameTooLong
  | notText
  | other (message : String)
deriving DecidableEq, Repr

/-- What is said about a file that could not be read. -/
def ReadProblem.message : ReadProblem → String
  | .missing => "No such file or directory (os error 2)"
  | .notFolder => "Not a directory (os error 20)"
  | .isFolder => "Is a directory (os error 21)"
  | .nameTooLong => "File name too long (os error 36)"
  | .notText => "stream did not contain valid UTF-8"
  | .other message => message

/-- The text of a file, or why there is none. -/
abbrev Content := Except ReadProblem String

/-- The content of a file with these bytes. -/
def contentOfBytes (bytes : ByteArray) : Content :=
  match String.fromUTF8? bytes with
  | some text => .ok text
  | none => .error .notText

/-- The names in a path. A slash at an end, or next to another, stands beside an empty name. -/
def pathNames (path : String) : List String := (Text.cut '/' [] path.toList).map String.ofList

/-- A folder: its files, each with the names that lead to it. -/
structure Folder where
  files : List (List String × Content)

namespace Folder

/-- The folder with these files, each given with its path. -/
def ofFiles (files : List (String × Content)) : Folder :=
  ⟨files.map fun (path, content) => (pathNames path, content)⟩

/-- The most bytes in a name. -/
def nameLimit : Nat := 255

/-- The most bytes in a path. -/
def pathLimit : Nat := 4095

/-- What a walk has reached: a folder outside, a folder inside, or a file. -/
inductive Place
  | outside
  | inside (names : List String)
  | file (content : Content)

/-- What some names lead to: a file, or the folder that a file lies in. -/
def find (f : Folder) (names : List String) : Except ReadProblem Place :=
  match f.files.lookup names with
  | some content => .ok (.file content)
  | none =>
    if f.files.any fun (path, _) => names.isPrefixOf path then .ok (.inside names)
    else .error .missing

/-- Walks on by one name. The empty name and `.` stay, and `..` goes back; behind a file there is
nothing, not even for those. -/
def step (f : Folder) : Place → String → Except ReadProblem Place
  | .file _, _ => .error .notFolder
  | place, "" | place, "." => .ok place
  | .outside, ".." | .inside [], ".." => .ok .outside
  | .inside names, ".." => .ok (.inside names.dropLast)
  | place, name =>
    if nameLimit < name.utf8ByteSize then .error .nameTooLong
    else
      match place with
      | .inside names => f.find (names ++ [name])
      | _ => .error .missing

/-- What a path leads to. A path that begins with a slash starts outside. -/
def walk (f : Folder) (path : String) : Except ReadProblem Place :=
  (pathNames path).foldlM f.step (if path.startsWith "/" then .outside else .inside [])

/-- The content of the file at a path. -/
def read (f : Folder) (path : String) : Content :=
  if path.isEmpty then .error .missing
  else if pathLimit < path.utf8ByteSize then .error .nameTooLong
  else
    match f.walk path with
    | .ok (.file content) => content
    | .ok _ => .error .isFolder
    | .error problem => .error problem

end Folder

end Quill
