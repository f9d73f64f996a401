import Cohort.Bytes
import Std.Data.ExtTreeMap

/-!
# A directory tree

Files and directories by path. A path starts at a base directory, or at the root if it begins with
a slash, and is walked step by step: empty steps and single dots stay where they are, two dots lead
to the directory above, and everything that a path passes through has to be a directory that is
there. Only what its last step names may be missing. A path that ends in a slash leads to
directories alone.

A tree takes names and whole paths up to a length each, commonly 255 octets and 4095, and neither
holds the zero character. No step of a path is empty, so a directory with the empty name can be a
base, but no path that starts elsewhere leads into it.

## Main definitions

* `Disk.locate?`: the place that a path leads to.
* `Disk.read?`, `Disk.write?`, `Disk.rename?`, `Disk.makeDirectories`, `Disk.children`.
-/

namespace Cohort

/-- What a path leads to. -/
inductive DiskEntry where
  | file (content : Bytes)
  | directory
  deriving DecidableEq, Repr

/-- The names that lead from the root to a place. -/
abbrev Place := List String

/-- Files and directories by place. The root is always there. -/
structure Disk where
  entries : Std.ExtTreeMap Place DiskEntry
  /-- The most octets that a name may have. -/
  longestName : Nat
  /-- The most octets that a whole path may have. -/
  longestPath : Nat
  deriving DecidableEq

namespace Disk

/-- Nothing but the root, and the common limits. -/
def empty : Disk where
  entries := ∅
  longestName := 255
  longestPath := 4095

/-! ## Paths -/

/-- Whether a step can name something. -/
def isName (d : Disk) (step : String) : Bool := step.utf8ByteSize ≤ d.longestName

/-- Whether a text can be a path. -/
def isPath (d : Disk) (path : String) : Bool :=
  path.utf8ByteSize ≤ d.longestPath && !path.toList.contains '\x00'

/-- A name below a path. -/
def join (path name : String) : String :=
  if path = "" || path.endsWith "/" then path ++ name else path ++ "/" ++ name

/-- The steps of a path. -/
def steps (path : String) : List String := (path.splitOn "/").filter (· ≠ "")

/-- All steps from the root on: those to the base, unless the path starts at the root itself, and
those of the path. -/
def route (base : Place) (path : String) : List String :=
  if path.startsWith "/" then steps path else base ++ steps path

/-- Whether a path leads to directories alone. -/
def wantsDirectory (path : String) : Bool := path = "" || path.endsWith "/"

/-! ## Where paths lead -/

/-- What is at a place. -/
def entry? (d : Disk) (place : Place) : Option DiskEntry :=
  if place = [] then some .directory else d.entries[place]?

/-- Whether a place is a directory. -/
def isDirectory (d : Disk) (place : Place) : Bool := d.entry? place = some .directory

/-- The directory that is one step further. -/
def walk (d : Disk) (place : Place) : String → Option Place
  | "." => some place
  | ".." => some place.dropLast
  | name => if d.isDirectory (place ++ [name]) then some (place ++ [name]) else none

/-- The place that a path leads to, whether anything is there or not. -/
def locate? (d : Disk) (base : Place) (path : String) : Option Place := do
  guard (d.isPath path)
  let above ← (route base path).dropLast.foldlM d.walk []
  let place ← match (route base path).getLast? with
    | none | some "." => some above
    | some ".." => some above.dropLast
    | some name => if d.isName name then some (above ++ [name]) else none
  guard (!wantsDirectory path || d.isDirectory place)
  return place

/-! ## Files -/

/-- The content of a file. -/
def read? (d : Disk) (base : Place) (path : String) : Option Bytes := do
  match d.entry? (← d.locate? base path) with
  | some (.file content) => some content
  | _ => none

/-- Write a file, over a file that is there. -/
def write? (d : Disk) (base : Place) (path : String) (content : Bytes) : Option Disk := do
  let place ← d.locate? base path
  if d.isDirectory place then none
  else some { d with entries := d.entries.insert place (.file content) }

/-- Move a file, over a file that is there. -/
def rename? (d : Disk) (base : Place) (source target : String) : Option Disk := do
  let content ← d.read? base source
  let place ← d.locate? base source
  Disk.write? { d with entries := d.entries.erase place } base target content

/-! ## Directories -/

/-- Walk on from a directory and make the directories that are missing on the way. What was made
before the way was barred stays. Tells where the way ended, unless it was barred. -/
def pave (d : Disk) (place : Place) : List String → Option Place × Disk
  | [] => (some place, d)
  | "." :: rest => pave d place rest
  | ".." :: rest => pave d place.dropLast rest
  | name :: rest =>
    let next := place ++ [name]
    match d.entry? next with
    | some .directory => pave d next rest
    | some (.file _) => (none, d)
    | none =>
      if d.isName name then pave { d with entries := d.entries.insert next .directory } next rest
      else (none, d)

/-- Make a directory and all that are missing on the way to it. -/
def makeDirectories (d : Disk) (base : Place) (path : String) : Option Place × Disk :=
  if d.isPath path then d.pave [] (route base path) else (none, d)

/-- Delete a place and all that is below it. -/
def deleteAll (d : Disk) (place : Place) : Disk :=
  { d with entries := d.entries.filter fun other _ => !place.isPrefixOf other }

/-- The names of what is in a directory, in order. -/
def children (d : Disk) (place : Place) : List String :=
  d.entries.keys.filterMap fun other =>
    if other.dropLast = place then other.getLast? else none

end Disk

end Cohort
