import SwiftCodec.Files.Directories

/-!
A tree of files as a value. A place in it is the list of names that lead there from the root; the
root and the places on the way to any other are directories. Paths that are not absolute start
from a home directory. Nothing is shared, linked or protected.
-/
namespace SwiftCodec

inductive Entry where
  | directory
  | text (contents : String)
  /-- A file whose bytes are not text. -/
  | binary
deriving DecidableEq, Repr

structure Tree where
  home : List String := []
  entries : List (List String × Entry) := []
deriving DecidableEq, Repr

namespace Tree

def find? (t : Tree) (place : List String) : Option Entry :=
  if place = [] then some .directory else t.entries.lookup place

def putInto (place : List String) (entry : Entry) :
    List (List String × Entry) → List (List String × Entry)
  | [] => [(place, entry)]
  | (p, e) :: rest =>
    if p = place then (p, entry) :: rest else (p, e) :: putInto place entry rest

def put (t : Tree) (place : List String) (entry : Entry) : Tree :=
  { t with entries := putInto place entry t.entries }

/-- Where a path leads. -/
inductive Found where
  | entry (place : List String) (e : Entry)
  /-- Only the last name is missing; a slash may stand behind it. -/
  | missing (place : List String) (slash : Bool)
deriving DecidableEq, Repr

/-- Follows names from a directory. -/
def follow (t : Tree) (place : List String) : List String → Except FileError Found
  | [] => .ok (.entry place .directory)
  | name :: rest =>
    if Path.isIdle name then t.follow place rest
    else if name = ".." then t.follow place.dropLast rest
    else if 255 < name.utf8ByteSize then .error .nameTooLong
    else
      let here := place ++ [name]
      match t.find? here with
      | some .directory => t.follow here rest
      | some e => if rest = [] then .ok (.entry here e) else .error .notDirectory
      | none =>
        if rest.all (· = "") then .ok (.missing here (! rest.isEmpty)) else .error .notFound

def locate (t : Tree) (path : String) : Except FileError Found :=
  if path.toList.contains '\x00' then .error .nulInPath
  else if path.isEmpty then .error .notFound
  else if 4096 ≤ path.utf8ByteSize then .error .nameTooLong
  else t.follow (if Path.isAbsolute path then [] else t.home) (Path.names path)

def readText (t : Tree) (path : String) : Except FileError String := do
  match ← t.locate path with
  | .entry _ (.text s) => .ok s
  | .entry _ .binary => .error .notText
  | .entry _ .directory => .error .isDirectory
  | .missing .. => .error .notFound

def kind? (t : Tree) (path : String) : Option FileKind :=
  match t.locate path with
  | .ok (.entry _ .directory) => some .directory
  | .ok (.entry _ _) => some .file
  | _ => none

/-- The names under a place. -/
def namesUnder (t : Tree) (place : List String) : List String :=
  t.entries.filterMap fun (p, _) =>
    if p.dropLast = place then p.getLast? else none

def list (t : Tree) (path : String) : Except FileError (List String) := do
  match ← t.locate path with
  | .entry place .directory => .ok (t.namesUnder place)
  | .entry .. => .error .notDirectory
  | .missing .. => .error .notFound

/-- Puts a text in a file, which need not exist yet. -/
def write (t : Tree) (path contents : String) : Except FileError Tree := do
  match ← t.locate path with
  | .entry _ .directory => .error .isDirectory
  | .entry place _ => .ok (t.put place (.text contents))
  | .missing place slash =>
    if slash then .error .isDirectory else .ok (t.put place (.text contents))

def makeDirectory (t : Tree) (path : String) : Except FileError Tree := do
  match ← t.locate path with
  | .entry .. => .error .exists
  | .missing place _ => .ok (t.put place .directory)

/-- Directories made in a tree. -/
def maker : DirectoryMaker (StateM Tree) where
  make path t :=
    match t.makeDirectory path with
    | .ok made => (none, made)
    | .error e => (some e, t)
  isDirectory path t := (t.kind? path = some .directory, t)

/-- Makes a directory and those it lies under. Those made before an error stay. -/
def makeDirectories (t : Tree) (path : String) : Option FileError × Tree := maker.makeAll path t

end Tree

/-- What an inquiry finds out about a tree of files. -/
def Inquiry.answer {α : Type} (t : Tree) : Inquiry α → α
  | .done a => a
  | .read path next => (next (t.readText path)).answer t
  | .kind path next => (next (t.kind? path)).answer t
  | .list path next => (next (t.list path)).answer t

end SwiftCodec
