import RunnerFleet.CommandLine.Program

/-!
# A disk in memory

A tree of directories with text files and stores, on which the program can be run without a
machine. A path is followed part by part from the root or from the working directory; every part
but the last must be a directory. Names and paths have a greatest length.
-/

namespace RunnerFleet.CommandLine

abbrev Place := List String

inductive Entry where
  | directory
  | text (s : String)
  | store (s : Store)

structure Disk where
  here : Place
  entries : List (Place × Entry)
  clock : Seconds

namespace Disk

/-- The parts of a path; empty parts and single points count for nothing. -/
def parts (path : String) : List String :=
  (path.splitOn "/").filter fun part => part ≠ "" && part ≠ "."

def longestName : Nat := 255

def longestPath : Nat := 4095

def isPath (path : String) : Bool :=
  path.utf8ByteSize ≤ longestPath && !path.toList.contains '\x00'

def endsInPoint (path : String) : Bool :=
  ((path.splitOn "/").filter fun part => part ≠ "").getLast? = some "."

def base (d : Disk) (path : String) : Place := if path.toList.head? = some '/' then [] else d.here

def entry? (d : Disk) (p : Place) : Option Entry :=
  if p = [] then some .directory else d.entries.lookup p

def isDirectory (d : Disk) (p : Place) : Bool :=
  match d.entry? p with
  | some .directory => true
  | _ => false

def child (p : Place) (part : String) : Place := if part = ".." then p.tail else part :: p

def follow (d : Disk) (p : Place) : List String → Option Place
  | [] => some p
  | part :: rest => if d.isDirectory p then follow d (child p part) rest else none

def endsAsDirectory (path : String) : Bool :=
  path.toList.getLast? = some '/' || endsInPoint path

/-- The text of the file that a path leads to. -/
def readText (d : Disk) (path : String) : Option String := do
  let p ← d.follow (d.base path) (parts path)
  match d.entry? p with
  | some (.text s) => if isPath path && !endsAsDirectory path then some s else none
  | _ => none

def put (d : Disk) (p : Place) (e : Entry) : Disk :=
  { d with entries := (p, e) :: d.entries.filter fun q => q.1 ≠ p }

/-- Makes the directories along a path, up to the first part that cannot be one. -/
def makeDirectories (d : Disk) (p : Place) : List String → Disk
  | [] => d
  | part :: rest =>
    let p := child p part
    match d.entry? p with
    | some .directory => makeDirectories d p rest
    | some _ => d
    | none =>
      if part.utf8ByteSize ≤ longestName then makeDirectories (d.put p .directory) p rest else d

/-- The directory that a path leads to. It is made if need be, but with a point after it it has to
be there. -/
def directory (path : String) (d : Disk) : Option Place × Disk :=
  if isPath path then
    let names := parts path
    let d := d.makeDirectories (d.base path) (if endsInPoint path then names.dropLast else names)
    ((d.follow (d.base path) names).filter d.isDirectory, d)
  else (none, d)

/-- Opens the store in a directory, which is made if need be. An empty file becomes an empty
store. -/
def openStore (path : String) (d : Disk) : Except OpenError Store × Disk :=
  match d.directory path with
  | (none, d) => (.error .noDirectory, d)
  | (some p, d) =>
    let file := storeFile :: p
    match d.entry? file, isPath (storePath path) with
    | some (.store s), true => (.ok s, d)
    | some (.text ""), true | none, true => (.ok .empty, d.put file (.store .empty))
    | _, _ => (.error .broken, d)

def saveStore (directory : String) (s : Store) (d : Disk) : Disk :=
  match d.follow (d.base directory) (parts directory) with
  | some p => d.put (storeFile :: p) (.store s)
  | none => d

/-- A disk with a directory `here` and files in it. The path of a file may lead through further
directories. -/
def ofFiles (here : String) (files : List (String × String)) (clock : Seconds) : Disk :=
  let d := Disk.makeDirectories ⟨(parts here).reverse, [], clock⟩ [] (parts here)
  files.foldl (fun d (path, s) =>
    let file := (parts path).reverse
    let d := d.makeDirectories d.here file.tail.reverse
    d.put (file ++ d.here) (.text s)) d

def host : Host (StateM Disk) where
  readText path := fun d => (d.readText path, d)
  openStore path := openStore path
  saveStore directory s := fun d => ((), saveStore directory s d)
  now := fun d => (d.clock, d)

end Disk

end RunnerFleet.CommandLine
