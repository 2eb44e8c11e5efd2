/-!
Files in directories, and what a path leads to among them. A path is followed
component by component: each one is looked up in a directory, an empty one and
`.` stay there, and `..` goes back to the directory around it, which for the
root is the root itself.
-/

namespace ScalarC

inductive FileTree where
  | file (content : ByteArray)
  | directory (entries : List (String × FileTree))

inductive ReadFailure where
  | missing
  | isDirectory
  | notDirectory
  | nameTooLong
  | denied
  | notText
  | other (reason : String)
  deriving DecidableEq

def ReadFailure.reason : ReadFailure → String
  | missing => "No such file or directory (os error 2)"
  | isDirectory => "Is a directory (os error 21)"
  | notDirectory => "Not a directory (os error 20)"
  | nameTooLong => "File name too long (os error 36)"
  | denied => "Permission denied (os error 13)"
  | notText => "stream did not contain valid UTF-8"
  | other reason => reason

namespace FileTree

/-- The most bytes a path can have. -/
def pathLimit : Nat := 4095

/-- The most bytes a component can have. -/
def nameLimit : Nat := 255

def entry (entries : List (String × FileTree)) (name : String) :
    Except ReadFailure FileTree :=
  if nameLimit < name.utf8ByteSize then .error .nameTooLong
  else match entries.lookup name with
    | some found => .ok found
    | none => .error .missing

/-- What the components lead to from `here`. `around` are the directories around
it, the nearest first. -/
def follow (around : List FileTree) : FileTree → List String → Except ReadFailure FileTree
  | here, [] => .ok here
  | .file _, _ :: _ => .error .notDirectory
  | .directory entries, component :: rest =>
      let here := FileTree.directory entries
      if component.isEmpty ∨ component = "." then follow around here rest
      else if component = ".." then follow around.tail (around.headD here) rest
      else do
        let next ← entry entries component
        follow (here :: around) next rest

/-- What a path leads to in the tree with this root. A path without a slash in
front is followed from the directory with the components `working`. -/
def find (root : FileTree) (working : List String) (path : String) :
    Except ReadFailure FileTree :=
  if path.isEmpty then .error .missing
  else if pathLimit < path.utf8ByteSize then .error .nameTooLong
  else if path.toList.head? = some '/' then follow [] root (path.splitOn "/")
  else follow [] root (working ++ path.splitOn "/")

def read (root : FileTree) (working : List String) (path : String) :
    Except ReadFailure ByteArray := do
  match ← root.find working path with
  | .file content => .ok content
  | .directory _ => .error .isDirectory

end FileTree

end ScalarC
