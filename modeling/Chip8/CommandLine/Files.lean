import Chip8.Fault

/-!
# Files

What a command finds at a path. A path leads through directories, one component
after the other, from the root if it begins with a slash and from the working
directory otherwise. The first component that cannot be followed decides the
failure.
-/
namespace Chip8

inductive FileTree
  | file (contents : List UInt8)
  | directory (entries : List (String × FileTree))

namespace FileTree

/-- The number of bytes that a path must stay below. -/
def pathLimit : Nat := 4096

/-- The greatest number of bytes in a component. -/
def nameLimit : Nat := 255

/-- Follows components. The directories that lead here are given, the last one
first; above the root there is only the root itself. -/
def walk : (above : List FileTree) → FileTree → List String → Except FileFailure FileTree
  | _, here, [] => .ok here
  | _, .file _, _ :: _ => .error .notADirectory
  | above, .directory entries, name :: rest =>
    if name = "" ∨ name = "." then walk above (.directory entries) rest
    else if name = ".." then
      match above with
      | [] => walk [] (.directory entries) rest
      | parent :: others => walk others parent rest
    else if nameLimit < name.utf8ByteSize then .error .nameTooLong
    else
      match entries.lookup name with
      | some there => walk (.directory entries :: above) there rest
      | none => .error .notFound

/-- Reads a file, given the working directory by its components. -/
def read (root : FileTree) (home : List String) (path : String) :
    Except FileFailure (List UInt8) :=
  if path.isEmpty then .error .notFound
  else if pathLimit ≤ path.utf8ByteSize then .error .nameTooLong
  else
    let components := path.splitOn "/"
    match walk [] root (if path.startsWith "/" then components else home ++ components) with
    | .ok (.file contents) => .ok contents
    | .ok (.directory _) => .error .isADirectory
    | .error failure => .error failure

end FileTree

end Chip8
