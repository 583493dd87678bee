import Graft.Edit.Error

/-! Files by their paths. A file holds bytes, which may be a text in UTF-8 or not. The system may refuse to look at a
file, to read it or to write to it. -/

namespace Graft

inductive FileEntry where
  | directory
  | file (bytes : ByteArray)

namespace FileEntry

def ofText (text : Text) : FileEntry := .file (String.ofList text).toUTF8

/-- The size that is reported before anything is read. A directory takes one block. -/
def size : FileEntry → Nat
  | directory => 4096
  | file bytes => bytes.size

def isFile : FileEntry → Bool
  | directory => false
  | file _ => true

def text : FileEntry → Except FileFailure Text
  | directory => .error .isDirectory
  | file bytes =>
    match String.fromUTF8? bytes with
    | some text => .ok text.toList
    | none => .error .notText

end FileEntry

/-- The names from the working directory down to an entry. A slash in front stands for the root, and
points lead out of the working directory. -/
abbrev Place := List Text

namespace Place

/-- The directory that a place lies in. The root lies in itself. -/
def parent (place : Place) : Place :=
  match place.getLast? with
  | none => [['.', '.']]
  | some name => if name = ['/'] then place else if name = ['.', '.'] then place ++ [name] else place.dropLast

/-- Where one step of a path leads. Single points and empty steps lead nowhere. -/
def enter (place : Place) (step : Text) : Place :=
  if step.isEmpty || step = ['.'] then place
  else if step = ['.', '.'] then place.parent
  else place ++ [step]

def start (path : Text) : Place := if path.head? = some '/' then [['/']] else []

/-- Where a path leads if every step can be taken. -/
def ofPath (path : Text) : Place := (Text.splitOn '/' path).foldl enter (start path)

/-- Whether a place is the working directory or one around it. -/
def isAround (place : Place) : Bool := place = [['/']] || place.all fun name => name = ['.', '.']

end Place

/-- What the system answers before anything is done at a place. A file can be looked at that must not be read, and one
that must not be written stays as it is. -/
structure Rights where
  look : Place → Except FileFailure Unit
  read : Place → Except FileFailure Unit
  write : Place → Text → Except FileFailure Unit

/-- Nothing is refused. -/
def Rights.full : Rights := ⟨fun _ => .ok (), fun _ => .ok (), fun _ _ => .ok ()⟩

/-- A name takes no more bytes than this. -/
def longestName : Nat := 255

def longestPath : Nat := 4095

/-- Files by their paths, in the order in which they were made. -/
structure Files where
  entries : List (Text × FileEntry)

namespace Files

/-- The entry at a place. The directories on the way to an entry are there as well. -/
def at? (files : Files) (place : Place) : Option FileEntry :=
  match files.entries.find? fun (path, _) => Place.ofPath path = place with
  | some (_, entry) => some entry
  | none =>
    if place.isAround || files.entries.any fun (path, _) => place.isPrefixOf (Place.ofPath path) then
      some .directory
    else none

/-- Take a step from a place, which must be a directory. -/
def step (files : Files) (place : Place) (name : Text) : Except FileFailure Place :=
  match files.at? place with
  | none => .error .missing
  | some (.file _) => .error .notDirectory
  | some .directory => if longestName < name.bytes then .error .longName else .ok (place.enter name)

/-- Follow a path to its end, where there need not be anything. -/
def follow (files : Files) (path : Text) : Except FileFailure Place :=
  if path.isEmpty then .error .missing
  else if longestPath < path.bytes then .error .longName
  else (Text.splitOn '/' path).foldlM files.step (Place.start path)

/-- Look at what is at the end of a path. -/
def look (files : Files) (path : Text) (rights : Rights := .full) : Except FileFailure FileEntry := do
  let place ← files.follow path
  rights.look place
  match files.at? place with
  | some entry => .ok entry
  | none => .error .missing

/-- Read a text that is there. -/
def readText (files : Files) (path : Text) (rights : Rights) : Except FileFailure Text := do
  let entry ← files.look path rights
  rights.read (← files.follow path)
  entry.text

def put (files : Files) (place : Place) (text : Text) : Files :=
  ⟨files.entries.map fun (path, entry) =>
    (path, if Place.ofPath path = place && entry.isFile then .ofText text else entry)⟩

/-- Write a text over the one that is there. -/
def writeText (files : Files) (path text : Text) (rights : Rights) : Except FileFailure Files := do
  let place ← files.follow path
  rights.write place text
  return files.put place text

end Files
end Graft
