import CatLang.Fault

/-! A directory tree held in memory, and what reading a path in it gives. -/
namespace CatLang

inductive FileNode where
  | file (bytes : List UInt8)
  | folder

/-- Files and folders by their place, which is a path from the working folder without detours. The
folders above an entry exist with it. -/
structure Folder where
  entries : List (List String × FileNode)

namespace Folder

def isAbove (place : List String) : Bool := place.all (· == "..")

def parent (place : List String) : List String :=
  if isAbove place then place ++ [".."] else place.dropLast

def find? (f : Folder) (place : List String) : Option FileNode :=
  match f.entries.lookup place with
  | some node => some node
  | none =>
    if isAbove place || f.entries.any (fun e => place.isPrefixOf e.1) then some .folder else none

def walk (f : Folder) (place : List String) : List String → Except Fault (List UInt8)
  | [] =>
    match f.find? place with
    | some (.file bytes) => .ok bytes
    | some .folder => .error .isDirectory
    | none => .error .notFound
  | step :: rest =>
    match f.find? place with
    | some .folder =>
      if step = "" ∨ step = "." then walk f place rest
      else if step = ".." then walk f (parent place) rest
      else walk f (place ++ [step]) rest
    | some (.file _) => .error .notDirectory
    | none => .error .notFound

/-- The bytes of the file at a path. Nothing is known of the files at the root of the system. -/
def read (f : Folder) (path : String) : Except Fault (List UInt8) :=
  if path.toList.contains (Char.ofNat 0) then .error .invalidInput
  else match path.splitOn "/" with
    | [""] => .error .notFound
    | "" :: rest =>
      if rest.all (["", ".", ".."].contains ·) then .error .isDirectory else .error .notFound
    | steps => f.walk [] steps

/-- What is put last at a place stays there. -/
def put (f : Folder) (place : List String) (node : FileNode) : Folder :=
  ⟨f.entries.filter (fun e => e.1 ≠ place) ++ [(place, node)]⟩

/-- Puts a node where the steps lead from `place`, and makes the folders on the way. -/
def putAlong (f : Folder) (place : List String) (node : FileNode) : List String → Folder
  | [] => f.put place node
  | step :: rest =>
    if step = "" ∨ step = "." then f.putAlong place node rest
    else if step = ".." then
      (if (f.find? place).isNone then f.put place .folder else f).putAlong (parent place) node rest
    else f.putAlong (place ++ [step]) node rest

def add (f : Folder) (path : String) (node : FileNode) : Folder :=
  f.putAlong [] node (path.splitOn "/")

end Folder

end CatLang
