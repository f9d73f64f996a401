import Cohort.Membership.Disk
import Cohort.Wire.Message

/-!
# A membership store in files

This store keeps one file for each node in a directory that all nodes share. A record is written
beside its file first and then put in its place, so that nobody reads half of one. Files that are
no records are skipped.

## Main definitions

* `FileStore.openAt`: a store in a directory, which is made if it is missing.
* `FileStore.heartbeat`, `FileStore.load`, `FileStore.shutDown`.
-/

namespace Cohort

/-- A directory of records. -/
structure FileStore where
  disk : Disk
  directory : Place
  deriving DecidableEq

namespace FileStore

/-- The name of this kind of store. -/
def kind : String := "file"

/-- Open a store in a directory, which is made if it is missing. What was made on the way stays
even if there is no store in the end. -/
def openAt (disk : Disk) (base : Place) (path : String) : Outcome FileStore × Disk :=
  match disk.makeDirectories base path with
  | (some directory, disk) => (.ok ⟨disk, directory⟩, disk)
  | (none, disk) => (.error .io, disk)

/-- A store in an empty directory among temporary files. The directory has the empty name, so that
only paths that start in it lead into it. -/
def fresh : FileStore :=
  let directory := ["tmp", ""]
  ⟨(Disk.empty.pave [] directory).2, directory⟩

/-- Open a store in the directory `sub` of a directory below this one. -/
def openUnder (s : FileStore) (path : String) : Outcome Unit × FileStore :=
  let (opened, disk) := FileStore.openAt s.disk s.directory (Disk.join path "sub")
  (opened.map fun _ => (), { s with disk })

/-- Put any file into the directory, if that can be done. -/
def writeFile (s : FileStore) (path : String) (content : Bytes) : FileStore :=
  { s with disk := (s.disk.write? s.directory path content).getD s.disk }

/-- Make a directory in the directory. -/
def makeDirectory (s : FileStore) (path : String) : FileStore :=
  { s with disk := (s.disk.makeDirectories s.directory path).2 }

/-- Delete the directory and all that is in it. -/
def deleteAll (s : FileStore) : FileStore := { s with disk := s.disk.deleteAll s.directory }

/-- The content of a file in the directory. -/
def contents? (s : FileStore) (path : String) : Option Bytes := s.disk.read? s.directory path

/-- The names of all that is in the directory, in order. -/
def fileNames (s : FileStore) : List String := s.disk.children s.directory

/-- What stands before the last dot of a file name and what stands after it; nothing if there is
no dot, or nothing before it. -/
def splitExtension? (name : String) : Option (String × String) :=
  let reversed := name.toList.reverse
  let extension := (reversed.takeWhile (· ≠ '.')).reverse
  match (reversed.dropWhile (· ≠ '.')).drop 1 with
  | [] => none
  | stem => if name = ".." then none else some (String.ofList stem.reverse, String.ofList extension)

/-- Whether a file name is that of a record. -/
def isRecordName (name : String) : Bool := (splitExtension? name).map Prod.snd = some "node"

/-- The file name with `tmp` for its extension. A name that is two dots without its extension means
the directory above, and stays that. -/
def draftName (name : String) : String :=
  match splitExtension? name with
  | some (".", _) => ".."
  | some (stem, _) => stem ++ ".tmp"
  | none => name ++ ".tmp"

/-- The path of a node's record. -/
def recordPath (node : NodeName) : String := node ++ ".node"

/-- The path beside another one where its content is written first. -/
def draftPath (path : String) : String :=
  let names := path.splitOn "/"
  "/".intercalate (names.dropLast ++ [draftName (names.getLastD "")])

/-- Write a record beside its place, then put it there. -/
def save (s : FileStore) (record : NodeRecord) : Outcome Unit × FileStore :=
  let path := recordPath record.name
  match s.disk.write? s.directory (draftPath path) (NodeRecord.codec.encode record) with
  | none => (.error .io, s)
  | some drafted =>
    match drafted.rename? s.directory (draftPath path) path with
    | none => (.error .io, { s with disk := drafted })
    | some disk => (.ok (), { s with disk })

/-- Store the record of a node that is there, stamped `now`. -/
def heartbeat (s : FileStore) (now : Nat) (record : NodeRecord) : Outcome Unit × FileStore :=
  s.save (record.stamped now)

/-- All records, by name. -/
def load (s : FileStore) : Outcome (List NodeRecord) :=
  if s.disk.isDirectory s.directory then
    let records := (s.fileNames.filter isRecordName).filterMap fun name =>
      (s.contents? name).bind NodeRecord.codec.decode?
    .ok (records.mergeSort fun a b => a.name ≤ b.name)
  else .error .io

/-- Mark a node as cleanly gone, if it is known. -/
def shutDown (s : FileStore) (node : NodeName) : Outcome Unit × FileStore :=
  match (s.disk.locate? s.directory (recordPath node)).bind s.disk.entry? with
  | none => (.ok (), s)
  | some .directory => (.error .io, s)
  | some (.file content) =>
    match NodeRecord.codec.decode? content with
    | none => (.error .system, s)
    | some record => s.save { record with hasLeft := true }

end FileStore

end Cohort
