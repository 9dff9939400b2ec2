import Zstandard.Endpoint

/-!
# A file system

A file system holds a node under each path: a file with its contents, or a directory. Opening
needs a node to be there; creating makes a file empty or new, and needs its directory. An open
pair of files reads from one path and writes to another, or to the same, each at its own place,
so what is written can be read again where the paths are equal.
-/

namespace Zstandard

/-- What stands under a path. -/
inductive Node where
  | file (contents : ByteArray)
  | directory

/-- Nodes under paths; of two under one path the first counts. -/
structure FileSystem where
  nodes : List (String × Node)

namespace FileSystem

/-- Nothing is under the path. -/
def notFound : IoError := .plain .notFound "No such file or directory (os error 2)"

/-- A part of the path is not a directory. -/
def notADirectory : IoError := .plain .notADirectory "Not a directory (os error 20)"

/-- A directory is under the path where a file has to be. -/
def isADirectory : IoError := .plain .isADirectory "Is a directory (os error 21)"

/-- The node under a path. -/
def node? (f : FileSystem) (path : String) : Option Node := f.nodes.lookup path

/-- The contents of the file under a path. -/
def contents? (f : FileSystem) (path : String) : Option ByteArray :=
  match f.node? path with
  | some (.file contents) => some contents
  | _ => none

/-- The file system with another file under a path. -/
def put (f : FileSystem) (path : String) (contents : ByteArray) : FileSystem :=
  ⟨(path, .file contents) :: f.nodes.filter (·.1 != path)⟩

/-- The path of the directory that a path lies in, if it names one. -/
def parent? (path : String) : Option String :=
  match path.toList.reverse.dropWhile (· != '/') with
  | [] => none
  | _ :: rest => some (String.ofList rest.reverse)

/-- Whether a new file may be put under a path. -/
def room (f : FileSystem) (path : String) : Except IoError Unit :=
  match parent? path with
  | none => .ok ()
  | some parent =>
    match f.node? parent with
    | some .directory => .ok ()
    | some (.file _) => .error notADirectory
    | none => .error notFound

/-- Makes the file under a path empty, or a new one. -/
def create (f : FileSystem) (path : String) : Except IoError FileSystem :=
  match f.node? path with
  | some .directory => .error isADirectory
  | some (.file _) => .ok (f.put path .empty)
  | none =>
    match f.room path with
    | .ok () => .ok (f.put path .empty)
    | .error e => .error e

/-- The size a path's node is listed with. -/
def sizeOf (f : FileSystem) (path : String) : Except IoError Nat :=
  match f.node? path with
  | none => .error notFound
  | some (.file contents) => .ok contents.size
  | some .directory => .ok 4096

end FileSystem

/-- A file being read and a file being written. -/
structure OpenFiles where
  files : FileSystem
  source : String
  readAt : Nat
  destination : String
  writeAt : Nat

namespace OpenFiles

/-- Reads on in the source. -/
def read (o : OpenFiles) (room : Nat) : Except IoError ByteArray × OpenFiles :=
  match o.files.node? o.source with
  | none => (.error FileSystem.notFound, o)
  | some .directory => (.error FileSystem.isADirectory, o)
  | some (.file contents) =>
    let chunk := contents.extract o.readAt (o.readAt + room)
    (.ok chunk, { o with readAt := o.readAt + chunk.size })

theorem read_size_le {o o' : OpenFiles} {room : Nat} {b : ByteArray}
    (h : o.read room = (.ok b, o')) : b.size ≤ room := by
  unfold read at h
  split at h
  · simp at h
  · simp at h
  · simp only [Prod.mk.injEq, Except.ok.injEq] at h
    rw [← h.1, ByteArray.size_extract]
    omega

/-- Writes on in the destination; all that is offered is taken. -/
def write (o : OpenFiles) (s : Slice) : Except IoError Nat × OpenFiles :=
  match o.files.contents? o.destination with
  | none => (.error FileSystem.notFound, o)
  | some contents =>
    let head := s.appendTo (contents.extract 0 o.writeAt)
    let rest := contents.extract (o.writeAt + s.size) contents.size
    (.ok s.size,
      { o with files := o.files.put o.destination (head ++ rest), writeAt := o.writeAt + s.size })

instance : Reader OpenFiles where
  read := read
  size_le := read_size_le

instance : Writer OpenFiles where
  write := write
  flush o := (.ok (), o)
  taken_le {o o' s n} h := by
    unfold write at h
    split at h
    · simp at h
    · simp only [Prod.mk.injEq, Except.ok.injEq] at h
      omega

end OpenFiles

end Zstandard
