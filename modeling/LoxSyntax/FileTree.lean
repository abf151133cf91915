import LoxSyntax.Failure

namespace LoxSyntax

abbrev Bytes := List UInt8

/-- The content of a file, or why there is none. -/
abbrev FileContent := Except InputFault Bytes

/-- The text of a file. -/
def FileContent.text (content : FileContent) : Except Failure String :=
  match content with
  | .error fault => .error (.input fault)
  | .ok bytes =>
    match Utf8.decode bytes with
    | .ok text => .ok text
    | .error _ => .error (.input .notText)

inductive FileTree where
  | file (content : Bytes)
  | directory (entries : List (String × FileTree))

namespace FileTree

/-- The most bytes of one name on a path. -/
def maxName : Nat := 255

/-- The most bytes of a path. -/
def maxPath : Nat := 4095

/-- A place in a tree, and the directories around it, the nearest one first. -/
structure Place where
  here : FileTree
  around : List FileTree

namespace Place

/-- Goes on by one part of a path. Only a directory leads further, and the outermost one is around
itself. -/
def enter (place : Place) (part : String) : Except InputFault Place :=
  match place.here with
  | .file _ => .error .notDirectory
  | .directory entries =>
    if part = "." then .ok place
    else if part = ".." then
      match place.around with
      | [] => .ok place
      | outer :: more => .ok ⟨outer, more⟩
    else if maxName < part.utf8ByteSize then .error .nameTooLong
    else match entries.lookup part with
      | none => .error .notFound
      | some tree => .ok ⟨tree, place.here :: place.around⟩

/-- The outermost directory around a place. -/
def outermost (place : Place) : Place := ⟨place.around.getLast?.getD place.here, []⟩

/-- The content of the file at the end of a path. A slash in front leads from the outermost
directory on, and one at the end stands behind the name of a directory only. -/
def read (place : Place) (path : String) : FileContent := do
  if path.isEmpty then throw .notFound
  if maxPath < path.utf8ByteSize then throw .nameTooLong
  let start := if path.startsWith "/" then place.outermost else place
  let parts := (path.splitOn "/").filter (!·.isEmpty)
  match (← parts.foldlM enter start).here with
  | .directory _ => throw .isDirectory
  | .file content => if path.endsWith "/" then throw .notDirectory else return content

end Place

end FileTree

end LoxSyntax
