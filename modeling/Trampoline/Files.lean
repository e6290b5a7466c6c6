/-!
Paths, and the files and directories at hand.
-/

set_option autoImplicit false

namespace Trampoline

/-- Where a path starts: in the current directory or at the root. Exactly two slashes at the front
are a spelling of the root that is kept; more than two are not. -/
inductive Anchor where
  | here
  | root
  | doubleRoot
deriving DecidableEq

namespace Anchor

def ofText (text : String) : Anchor :=
  match text.toList with
  | '/' :: '/' :: '/' :: _ => .root
  | '/' :: '/' :: _ => .doubleRoot
  | '/' :: _ => .root
  | _ => .here

def text : Anchor → String
  | .here => ""
  | .root => "/"
  | .doubleRoot => "//"

end Anchor

structure Path where
  anchor : Anchor
  steps : List String
deriving DecidableEq

namespace Path

/-- Empty steps and steps that stay in place do not count. -/
def ofText (text : String) : Path :=
  ⟨.ofText text, (text.splitOn "/").filter fun step => step != "" && step != "."⟩

/-- The current directory is written as a point. -/
def text (p : Path) : String :=
  if p = ⟨.here, []⟩ then "." else p.anchor.text ++ "/".intercalate p.steps

end Path

structure Files where
  files : List (Path × String) := []
  directories : List Path := []

/-- A place that a path leads to: below the current directory, or at or above the directories
around it, of which nothing but themselves is known. -/
inductive Place where
  | above
  | below (steps : List String)

inductive Found where
  | file (content : String)
  | directory
  | missing

namespace Files

def file? (fs : Files) (path : Path) : Option String :=
  (fs.files.find? fun (name, _) => name = path).map Prod.snd

/-- Steps below the current directory lead to a directory if a file lies further down. -/
def isDirectory (fs : Files) (steps : List String) : Bool :=
  steps.isEmpty || fs.directories.contains ⟨.here, steps⟩
    || fs.files.any fun (name, _) =>
      name.anchor == .here && steps.isPrefixOf name.steps && steps != name.steps

def exists_ (fs : Files) (steps : List String) : Bool :=
  (fs.file? ⟨.here, steps⟩).isSome || fs.isDirectory steps

/-- One step of a path. There is no way on from a file or to a missing name. -/
def step (fs : Files) (place : Place) (name : String) : Option Place :=
  match place with
  | .above => if name = ".." then some .above else none
  | .below steps =>
      if !fs.isDirectory steps then none
      else if name = ".." then
        if steps.isEmpty then some .above else some (.below steps.dropLast)
      else if fs.exists_ (steps ++ [name]) then some (.below (steps ++ [name]))
      else none

def start : Anchor → Place
  | .here => .below []
  | .root => .above
  | .doubleRoot => .above

def foundAt (fs : Files) : Option Place → Found
  | none => .missing
  | some .above => .directory
  | some (.below steps) =>
      match fs.file? ⟨.here, steps⟩ with
      | some content => .file content
      | none => .directory

/-- What a path names. A path that is listed as it stands needs no walk. -/
def find (fs : Files) (path : Path) : Found :=
  match fs.file? path with
  | some content => .file content
  | none =>
      if fs.directories.contains path then .directory
      else fs.foundAt (path.steps.foldlM fs.step (start path.anchor))

end Files

end Trampoline
