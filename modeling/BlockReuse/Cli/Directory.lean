import BlockReuse.Text.Parts

/-!
# Directories — what a path leads to

A path is followed name by name from the directory the program runs in, and every name but the
last has to lead to a directory. An empty name or a dot stays where it is, two dots lead to the
directory around. Of what lies around the directory the program runs in, nothing is known but that
it is made of directories; of what lies below the root of all directories, only the folders that
every system has and the null device, which reads as an empty file.
-/

set_option autoImplicit false

namespace BlockReuse.Cli

/-- Why an input cannot be read. -/
inductive ReadError where
  | missing
  | notDirectory
  | directory
  | nameTooLong
  | notText
  deriving DecidableEq, Repr

def ReadError.message : ReadError → String
  | missing => "No such file or directory (os error 2)"
  | notDirectory => "Not a directory (os error 20)"
  | directory => "Is a directory (os error 21)"
  | nameTooLong => "File name too long (os error 36)"
  | notText => "stream did not contain valid UTF-8"

/-- What paths lead to. -/
abbrev Files := String → Except ReadError ByteArray

/-- What a name in a directory stands for. -/
inductive Entry where
  | folder
  | file (content : ByteArray)

/-- A directory with all that is in it, each entry behind the names that lead to it. -/
structure Directory where
  entries : List (List String × Entry)

/-- The names a path is made of. -/
def pathNames (path : String) : List String :=
  (Text.parts '/' path.toList).map String.ofList

/-- Whether a name leads nowhere else. -/
def staysPut (name : String) : Bool := name == "" || name == "."

/-- Where a path has led so far: by names from the directory the program runs in, to a directory
around that one, or by names from the root of all directories. -/
inductive Standing where
  | inside (names : List String)
  | around
  | belowRoot (names : List String)
  deriving DecidableEq, Repr

namespace Standing

/-- Where a path starts. -/
def start (path : String) : Standing :=
  if path.startsWith "/" then belowRoot [] else inside []

/-- The directory around. The root is its own. -/
def parent : Standing → Standing
  | inside names => if names = [] then around else inside names.dropLast
  | around => around
  | belowRoot names => belowRoot names.dropLast

/-- Where one more name leads. The names in a directory around are not known. -/
def child? (name : String) : Standing → Option Standing
  | inside names => some (inside (names ++ [name]))
  | around => none
  | belowRoot names => some (belowRoot (names ++ [name]))

end Standing

/-- What names lead to from the root, on every system. -/
def systemEntry? : List String → Option Entry
  | [] => some .folder
  | [name] =>
    if name ∈ ["bin", "dev", "etc", "lib", "proc", "tmp", "usr", "var"] then some .folder else none
  | ["dev", "null"] => some (.file ByteArray.empty)
  | _ => none

namespace Directory

/-- The directory with entries at given paths. -/
def ofPaths (entries : List (String × Entry)) : Directory :=
  ⟨entries.map fun (path, entry) => ((pathNames path).filter (!staysPut ·), entry)⟩

/-- What names lead to. Whatever lies on the way to an entry is a folder. -/
def entry? (d : Directory) (names : List String) : Option Entry :=
  match d.entries.lookup names with
  | some entry => some entry
  | none =>
    if names = [] || d.entries.any (fun e => names.isPrefixOf e.1) then some .folder else none

/-- What is found where a path has led. -/
def entryAt? (d : Directory) : Standing → Option Entry
  | .inside names => d.entry? names
  | .around => some .folder
  | .belowRoot names => systemEntry? names

/-- The most bytes a name may have. -/
def longestName : Nat := 255

/-- The most bytes a path may have. -/
def longestPath : Nat := 4095

/-- Follows one more name. -/
def follow (d : Directory) (standing : Standing) (name : String) : Except ReadError Standing :=
  match d.entryAt? standing with
  | none => .error .missing
  | some (.file _) => .error .notDirectory
  | some .folder =>
    if staysPut name then .ok standing
    else if name = ".." then .ok standing.parent
    else if longestName < name.utf8ByteSize then .error .nameTooLong
    else
      match standing.child? name with
      | some next => .ok next
      | none => .error .missing

/-- The content of the file that a path leads to. -/
def read (d : Directory) : Files := fun path => do
  if longestPath < path.utf8ByteSize then .error .nameTooLong
  else
    match d.entryAt? (← (pathNames path).foldlM d.follow (.start path)) with
    | none => .error .missing
    | some .folder => .error .directory
    | some (.file content) => .ok content

end Directory

end BlockReuse.Cli
