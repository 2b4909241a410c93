import FrameCache.Error

/-!
# Directories

A cache keeps its partitions in one flat directory. The directory is modelled as the list
of its entries, each a file with its bytes or a subdirectory; names are unique. The
operations fail the way the file system does: a name holding the NUL character is refused
before anything is looked up, a name of more than 255 bytes is `nameTooLong`, reading or removing a missing name is `notFound`, writing into or reading a
subdirectory is `isADirectory`, creating a name that exists is `alreadyExists`.
-/

namespace FrameCache

/-- An entry of a directory. -/
inductive Entry where
  | file (data : ByteArray)
  | folder

/-- A flat directory: its entries by name, in the order they were made. -/
structure Directory where
  entries : List (String × Entry)

namespace Directory

/-- The directory without entries. -/
def empty : Directory := ⟨[]⟩

/-- The entry called `name`. -/
def lookup? (d : Directory) (name : String) : Option Entry :=
  (d.entries.find? (·.1 == name)).map (·.2)

/-- The directory with `name` set to `e`: an existing entry is replaced in place, a new one
is added last. -/
def put (d : Directory) (name : String) (e : Entry) : Directory :=
  if d.entries.any (·.1 == name) then ⟨d.entries.map fun m => if m.1 == name then (name, e) else m⟩
  else ⟨d.entries ++ [(name, e)]⟩

/-- The directory without `name`. -/
def erase (d : Directory) (name : String) : Directory := ⟨d.entries.filter (·.1 != name)⟩

/-- The longest name of an entry, in UTF-8 bytes. -/
def maxNameBytes : Nat := 255

/-- Refuses a name that holds the NUL character, which no path can contain. -/
def checkNul (name : String) : Except IoFailure Unit :=
  if name.contains (Char.ofNat 0) then .error (.invalidInput "file name contained an unexpected NUL byte")
  else .ok ()

/-- Refuses a name with the NUL character or longer than `maxNameBytes` bytes, as every
operation on a name does before it looks the name up. -/
def checkName (name : String) : Except IoFailure Unit := do
  checkNul name
  if name.utf8ByteSize > maxNameBytes then throw .nameTooLong

/-- The entry called `name`, as opening it finds it. -/
def find (d : Directory) (name : String) : Except IoFailure Entry := do
  checkName name
  match d.lookup? name with
  | some e => .ok e
  | none => .error .notFound

/-- The names of all entries, in byte order. -/
def names (d : Directory) : List String := (d.entries.map (·.1)).mergeSort (fun a b => decide (a ≤ b))

/-- Creates or truncates the file `name` and writes `data` to it. -/
def writeFile (d : Directory) (name : String) (data : ByteArray) : Except IoFailure Directory := do
  checkName name
  match d.lookup? name with
  | some .folder => .error .isADirectory
  | _ => .ok (d.put name (.file data))

/-- Creates the subdirectory `name`. -/
def makeFolder (d : Directory) (name : String) : Except IoFailure Directory := do
  checkName name
  match d.lookup? name with
  | some _ => .error .alreadyExists
  | none => .ok (d.put name .folder)

/-- Removes the file `name`. -/
def removeFile (d : Directory) (name : String) : Except IoFailure Directory := do
  match ← d.find name with
  | .file _ => .ok (d.erase name)
  | .folder => .error .isADirectory

/-- Reads the whole file `name`. -/
def readFile (d : Directory) (name : String) : Except IoFailure ByteArray := do
  match ← d.find name with
  | .file data => .ok data
  | .folder => .error .isADirectory

/-- Moves the file `source` to `target`, replacing a file there; both names are checked for
the NUL character first, then the source is looked up before the target. -/
def rename (d : Directory) (source target : String) : Except IoFailure Directory := do
  checkNul source
  checkNul target
  let e ← d.find source
  checkName target
  match d.lookup? target with
  | some .folder => .error .isADirectory
  | _ => .ok ((d.erase source).put target e)

end Directory

end FrameCache
