import LockTrace.Folder.Device

/-!
# Files and directories

The files that a run can see, as a value. A path is followed name by name, and the first
thing that stands in its way is told the way an operating system tells it.
-/

namespace LockTrace

/-- What is found at a location. -/
inductive Entry where
  | file (contents : Bytes)
  | directory
  /-- A directory of the operating system, in which nothing can be made. -/
  | systemDirectory
  | device (d : Device)
deriving DecidableEq, Repr

def Entry.isDirectory : Entry → Bool
  | directory => true
  | systemDirectory => true
  | _ => false

/-- What is found where. The root is a directory and needs no entry. -/
structure Folder where
  /-- Where paths start that do not start at the root. -/
  workingDir : Location
  entries : List (Location × Entry)
  /-- The locations that only lead to others, with the locations they lead to. -/
  links : List (Location × Location)
deriving DecidableEq, Repr

namespace Folder

/-! ### Entries -/

/-- What is found at a location. -/
def get? (f : Folder) (l : Location) : Option Entry :=
  if l = [] then some .directory else f.entries.lookup l

/-- Put an entry at a location. -/
def put (f : Folder) (l : Location) (e : Entry) : Folder :=
  let entries :=
    if (f.entries.lookup l).isSome then f.entries.map fun d => if d.1 = l then (l, e) else d
    else f.entries ++ [(l, e)]
  { f with entries := entries }

/-- Put an entry at a location, with the directories that lead to it. -/
def putDeep (f : Folder) (l : Location) (e : Entry) : Folder :=
  let above := (List.range l.length).map (l.take ·)
  (above.foldl (fun f d => if (f.get? d).isNone then f.put d .directory else f) f).put l e

/-- Let one location lead to another. -/
def link (f : Folder) (l target : Location) : Folder := { f with links := (l, target) :: f.links }

/-- What is found on any computer, with a working directory. -/
def standard (workingDir : Location) : Folder :=
  [(workingDir, .directory), (["dev", "null"], .device .null), (["dev", "full"], .device .full),
    (["proc"], .systemDirectory)].foldl (fun f (l, e) => f.putDeep l e) ⟨workingDir, [], []⟩

/-! ### Following paths -/

/-- Where a path starts. -/
def start (f : Folder) (path : String) : Location :=
  if Path.isAbsolute path then [] else f.workingDir

/-- The location to which a name leads. The root is its own parent. -/
def move (f : Folder) (l : Location) (name : String) : Location :=
  if name = "." then l
  else if name = ".." then l.dropLast
  else (f.links.lookup (l ++ [name])).getD (l ++ [name])

/-- What keeps a location from being a directory. -/
def checkDirectory (f : Folder) (l : Location) : Except FileError Unit :=
  match f.get? l with
  | none => .error .notFound
  | some e => if e.isDirectory then .ok () else .error .notDirectory

/-- Follow a name from a directory. There need be no entry where it leads. -/
def follow (f : Folder) (l : Location) (name : String) : Except FileError Location := do
  f.checkDirectory l
  if Path.maxNameSize < name.utf8ByteSize then .error .nameTooLong else .ok (f.move l name)

/-- The location that a path names, whether there is an entry or not. -/
def locate (f : Folder) (path : String) : Except FileError Location := do
  Path.check path
  (Path.parts path).foldlM f.follow (f.start path)

/-! ### Reading -/

/-- Open a path for reading. -/
def openEntry (f : Folder) (path : String) : Except FileError Entry := do
  let l ← f.locate path
  match f.get? l with
  | none => .error .notFound
  | some e =>
    if Path.endsInSlash path && !e.isDirectory then .error .notDirectory
    else
      if let .device d := e then d.check
      .ok e

/-- Whether a path names a directory. -/
def isDirectory (f : Folder) (path : String) : Bool :=
  match f.openEntry path with
  | .ok e => e.isDirectory
  | .error _ => false

/-- The contents of what was opened for reading. A directory has none. -/
def contents : Entry → Except FileError Bytes
  | .file bs => .ok bs
  | .device _ => .ok []
  | _ => .error .isDirectory

/-! ### Writing -/

/-- The location that a path to a new file names. A slash after the last name calls for a
    directory, which a new file never is, so that name is not even followed. -/
def locateNew (f : Folder) (path : String) : Except FileError Location := do
  if Path.endsInSlash path then
    Path.check path
    let l ← (Path.parts path).dropLast.foldlM f.follow (f.start path)
    f.checkDirectory l
    .error .isDirectory
  else f.locate path

/-- Make an entry where there is none yet. -/
def make (f : Folder) (l : Location) (e : Entry) : Except FileError Folder :=
  if f.get? l.dropLast = some .systemDirectory then .error .notFound else .ok (f.put l e)

/-- Open a file for writing, and empty it. It is made if it is not there. The location stands
    for the open file from then on. -/
def create (f : Folder) (path : String) : Except FileError (Location × Folder) := do
  let l ← f.locateNew path
  match f.get? l with
  | none => .ok (l, ← f.make l (.file []))
  | some (.file _) => .ok (l, f.put l (.file []))
  | some (.device d) =>
    d.check
    .ok (l, f)
  | some _ => .error .isDirectory

/-- Write to an open file, from an offset on. -/
def writeAt (f : Folder) (l : Location) (offset : Nat) (piece : Bytes) :
    Except FileError Folder :=
  match f.get? l with
  | some (.file bs) => .ok (f.put l (.file (bs.overlay offset piece)))
  | some (.device d) => (d.write piece).map fun d => f.put l (.device d)
  | _ => .ok f

/-- Write a whole file. -/
def write (f : Folder) (path : String) (bs : Bytes) : Except FileError Folder := do
  let (l, f) ← f.create path
  f.writeAt l 0 bs

/-- Make a directory in a directory that is there. -/
def makeDirectory (f : Folder) (path : String) : Except FileError Folder := do
  let l ← f.locate path
  if (f.get? l).isSome then .error .alreadyExists else f.make l .directory

/-- Make a directory, or leave it if it is there. If something is missing on the way to it,
    `above` makes the directories there, and it is tried once more. -/
def ensureDirectory (f : Folder) (path : String) (above : Unit → Except FileError Folder) :
    Except FileError Folder :=
  let settle (f : Folder) : Except FileError Folder → Except FileError Folder
    | .ok f => .ok f
    | .error e => if f.isDirectory path then .ok f else .error e
  match f.makeDirectory path with
  | .error .notFound => do
    let f ← above ()
    settle f (f.makeDirectory path)
  | result => settle f result

/-- Make the directories that the pieces of a path name, given in reverse. -/
def makePieces (f : Folder) : List String → Except FileError Folder
  | [] => .ok f
  | piece :: above =>
    if Path.moves piece then
      f.ensureDirectory (Path.ofPieces (piece :: above).reverse) fun () => f.makePieces above
    else f.makePieces above

/-- Make the directory at a path and those that lead to it. A directory that is there stays.
    The empty path asks for nothing. -/
def makeDirectories (f : Folder) (path : String) : Except FileError Folder :=
  if path = "" then .ok f
  else f.ensureDirectory path fun () => f.makePieces (Path.above (Path.pieces path).reverse)

/-! ### What a run has changed -/

/-- The files below the working directory that are new in `f` or have other contents than in
    `earlier`, by their paths from there. -/
def changes (f earlier : Folder) : List (String × Bytes) :=
  f.entries.filterMap fun (l, e) =>
    match e, f.workingDir.isPrefixOf? l with
    | .file bs, some names =>
      if earlier.get? l = some e then none else some (Path.ofPieces names, bs)
    | _, _ => none

end Folder

end LockTrace
