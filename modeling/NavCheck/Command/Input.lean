import NavCheck.Text.CharClass

/-!
# Input files

What a path leads to, and the text that is read from it. A run sees files through a `TextSource`; one that sees nothing but
a few given files gets it from a `FileTree`.
-/

namespace NavCheck

/-- Why no text was read. -/
inductive ReadFault where
  | missing
  | isFolder
  | underFile
  | nameTooLong
  | nulInPath
  | notText
  | other (message : String)
deriving DecidableEq

/-- How a fault of reading is written. -/
def ReadFault.message : ReadFault → String
  | .missing => "No such file or directory (os error 2)"
  | .isFolder => "Is a directory (os error 21)"
  | .underFile => "Not a directory (os error 20)"
  | .nameTooLong => "File name too long (os error 36)"
  | .nulInPath => "file name contained an unexpected NUL byte"
  | .notText => "stream did not contain valid UTF-8"
  | .other message => message

/-- The way from a path to its text. -/
abbrev TextSource := String → Except ReadFault String

/-- The text of bytes in UTF-8. -/
def readText (bytes : ByteArray) : Except ReadFault String :=
  match String.fromUTF8? bytes with
  | some text => .ok text
  | none => .error .notText

/-- What a path leads to. -/
inductive FileEntry where
  | file (bytes : ByteArray)
  | folder

/-- The files and folders below one folder, each with its path from there; a folder that holds one of them need not be named. -/
abbrev FileTree := List (String × FileEntry)

namespace FileTree

/-- The parts of a path between its slashes. -/
def parts (path : String) : List String :=
  (path.toList.splitOn '/').map String.ofList

/-- Does a part of a path stay where it is? -/
def stays (part : String) : Bool :=
  part.isEmpty || part == "."

/-- The parts of a path that lead on. -/
def steps (path : String) : List String :=
  (parts path).filter fun part => !stays part

/-- What stands at the end of steps from the top. -/
def entry? (tree : FileTree) (at_ : List String) : Option FileEntry :=
  match tree.find? fun e => steps e.1 == at_ with
  | some e => some e.2
  | none => if at_.isEmpty || tree.any (at_.isPrefixOf <| steps ·.1) then some .folder else none

/-- The most bytes that a name in a path can have. -/
def maxNameSize : Nat := 255

/-- The most bytes that a path can have. -/
def maxPathSize : Nat := 4095

/-- Why a name leads to nothing. -/
def absent (name : String) : ReadFault :=
  if maxNameSize < name.utf8ByteSize then .nameTooLong else .missing

/-- Goes on outside the tree, where nothing is known but the folders on the way up. -/
def walkOutside : List String → Except ReadFault FileEntry
  | [] => .ok .folder
  | step :: rest => if step = ".." then walkOutside rest else .error (absent step)

/-- Goes on from a folder of the tree, step by step. -/
def walk (tree : FileTree) (here : List String) : List String → Except ReadFault FileEntry
  | [] => .ok .folder
  | step :: rest =>
    if step = ".." then if here.isEmpty then walkOutside rest else walk tree here.dropLast rest
    else
      match tree.entry? (here ++ [step]) with
      | none => .error (absent step)
      | some .folder => walk tree (here ++ [step]) rest
      | some (.file bytes) => if rest.isEmpty then .ok (.file bytes) else .error .underFile

/-- What a path leads to; one that begins with a slash leads out of the tree. -/
def find (tree : FileTree) (path : String) : Except ReadFault FileEntry :=
  if path.toList.contains (Char.ofNat 0) then .error .nulInPath
  else if path.isEmpty then .error .missing
  else if maxPathSize < path.utf8ByteSize then .error .nameTooLong
  else if path.toList.head? = some '/' then walkOutside (steps path)
  else tree.walk [] (steps path)

/-- Reads the text under a path; a path that ends as a folder must lead to one. -/
def read (tree : FileTree) (path : String) : Except ReadFault String :=
  match tree.find path with
  | .error fault => .error fault
  | .ok .folder => .error .isFolder
  | .ok (.file bytes) => if (parts path).getLast?.any stays then .error .underFile else readText bytes

end FileTree

end NavCheck
