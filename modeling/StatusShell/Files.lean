import StatusShell.Fault

/-!
Paths, and a tree of files to look them up in.  A path is looked up one part
after the other from the current directory.
-/

namespace StatusShell

/-- A path without empty and neutral parts.  `root` is empty for a path from
the current directory. -/
structure Path where
  root : String
  parts : List String
  deriving DecidableEq, Repr

namespace Path

/-- The pieces of a text between slashes. -/
def pieces (text : List Char) : List (List Char) :=
  text.foldr
    (fun c pieces =>
      match pieces with
      | piece :: pieces => if c = '/' then [] :: piece :: pieces else (c :: piece) :: pieces
      | [] => [[c]])
    [[]]

/-- The root of a path as written: two slashes stay two, any other number of
them in front counts as one. -/
def rootOf (text : List Char) : String :=
  match (text.takeWhile (· = '/')).length with
  | 0 => ""
  | 2 => "//"
  | _ => "/"

/-- The path that a text writes.  Empty parts and single dots are dropped;
double dots are kept. -/
def ofString (text : String) : Path :=
  let parts := (pieces text.toList).map String.ofList
  ⟨rootOf text.toList, parts.filter fun part => part ≠ "" && part ≠ "."⟩

/-- The text of a path.  The empty path is the current directory, a dot. -/
def text (path : Path) : String :=
  if path.root = "" ∧ path.parts = [] then "." else path.root ++ "/".intercalate path.parts

end Path

/-- Files with their contents, and directories, by their parts from the current
directory.  Directories that hold something exist without being listed. -/
structure FileTree where
  files : List (List String × ByteArray)
  directories : List (List String)

namespace FileTree

/-- What stands at a place. -/
inductive Entry where
  | file (contents : ByteArray)
  | directory

/-- A place reached on the way through a tree: one inside the tree, or one
outside of it, where nothing is known but further directories above. -/
inductive Place where
  | inside (parts : List String)
  | outside
  deriving DecidableEq, Repr

/-- What stands in a tree under the given parts. -/
def entry? (tree : FileTree) (parts : List String) : Option Entry :=
  match tree.files.find? fun file => file.1 == parts with
  | some file => some (.file file.2)
  | none =>
      if parts.isEmpty || tree.files.any (parts.isPrefixOf ·.1)
          || tree.directories.any parts.isPrefixOf then some .directory
      else none

/-- The most bytes that a part of a path may have. -/
def partLimit : Nat := 255

/-- The most bytes that a whole path may have. -/
def pathLimit : Nat := 4095

/-- The fault of looking for a part where nothing of that name stands. -/
def missing (part : String) : OsFault :=
  if partLimit < part.utf8ByteSize then .nameTooLong else .noSuchFile

/-- Go on from a place by one part. -/
def advance (tree : FileTree) : Place → String → Except OsFault Place
  | .outside, part => if part = ".." then .ok .outside else .error (missing part)
  | .inside parts, part =>
      match tree.entry? parts with
      | none => .error .noSuchFile
      | some (.file _) => .error .notADirectory
      | some .directory =>
          if part = ".." then .ok (if parts.isEmpty then .outside else .inside parts.dropLast)
          else if (tree.entry? (parts ++ [part])).isSome then .ok (.inside (parts ++ [part]))
          else .error (missing part)

/-- The contents of the file at a path, looked up part by part. -/
def lookUp (tree : FileTree) (path : Path) : Except OsFault ByteArray := do
  if pathLimit < path.text.utf8ByteSize then throw .nameTooLong
  let start := if path.root = "" then .inside [] else .outside
  match ← path.parts.foldlM tree.advance start with
  | .outside => .error .isADirectory
  | .inside parts =>
      match tree.entry? parts with
      | none => .error .noSuchFile
      | some (.file contents) => .ok contents
      | some .directory => .error .isADirectory

/-- The contents of the file at a path.  The operating system is not asked for
a name that it cannot be given. -/
def read (tree : FileTree) (path : Path) : Except Fault ByteArray :=
  if path.text.toList.contains '\x00' then .error .embeddedNull
  else (tree.lookUp path).mapError .os

end FileTree

/-- A script file could not be read. -/
structure ReadFault where
  path : String
  cause : OsFault
  deriving DecidableEq, Repr

/-- What a reader is told about a script file that could not be read. -/
def ReadFault.message (fault : ReadFault) : String :=
  fault.path ++ ": " ++ fault.cause.account

/-- Read a script file, naming it as `shown` if the operating system refuses.
Any other fault escapes. -/
def FileTree.readScript (tree : FileTree) (shown : String) (path : Path) :
    Except Fault (Except ReadFault ByteArray) :=
  match tree.read path with
  | .ok contents => .ok (.ok contents)
  | .error (.os cause) => .ok (.error ⟨shown, cause⟩)
  | .error fault => .error fault

end StatusShell
