import BindingProxy.Files.Path
import BindingProxy.Text.Bytes

/-!
# Disks

A disk is a tree of folders and files without links.  It is kept as the places of its folders and
files; a place is the list of names that lead to it from the root.  Not every path can be used on a
disk: there are limits to its length and to that of its names, and it holds no null character.
-/

namespace BindingProxy

/-- The names that lead from the root to a folder or file. -/
abbrev Place := List String

/-- What a file holds. -/
inductive Content where
  | text (s : String)
  /-- Bytes that are not the code of any text. -/
  | undecodable
deriving Repr, DecidableEq, Inhabited

/-- Whether a path can be used on a disk: it has less than 4096 bytes, each of its names has at most
255, and none of its characters is null. -/
def Path.isUsable (p : Path) : Bool :=
  byteWidth p.text.toList < 4096 && p.segments.all (byteWidth ·.toList ≤ 255) &&
    !p.text.toList.contains '\x00'

/-- Why a path leads to no place. -/
inductive Obstacle where
  /-- The path cannot be used on a disk. -/
  | unusable
  | missing
  /-- There is a file where a folder is needed. -/
  | notFolder
  /-- There is something already, or a folder where a file is needed. -/
  | occupied
deriving Repr, DecidableEq, Inhabited

/-- The folders of a disk, apart from the root, and its files. -/
structure Disk where
  folders : List Place := []
  files : List (Place × Content) := []
deriving Repr, DecidableEq, Inhabited

namespace Disk

def hasFolder (d : Disk) (place : Place) : Bool := place.isEmpty || d.folders.contains place

/-- The content of the file at a place. -/
def content? (d : Disk) (place : Place) : Option Content := d.files.lookup place

/-- The place one segment further. -/
def advance (place : Place) (segment : String) : Place :=
  if Path.isIdle segment then place
  else if segment == ".." then place.dropLast
  else place ++ [segment]

/-- The place to which segments lead.  All places on the way have to be folders; the last one may be
anything or not exist. -/
def follow (d : Disk) (place : Place) : List String → Except Obstacle Place
  | [] => .ok place
  | segment :: rest =>
    if d.hasFolder place then d.follow (advance place segment) rest
    else if (d.content? place).isSome then .error .notFolder
    else .error .missing

/-- The place of an absolute path. -/
def place (d : Disk) (p : Path) : Except Obstacle Place :=
  if p.isUsable then d.follow [] p.body else .error .unusable

def isFolder (d : Disk) (p : Path) : Bool :=
  match d.place p with
  | .ok place => d.hasFolder place
  | .error _ => false

def isFile (d : Disk) (p : Path) : Bool :=
  match d.place p with
  | .ok place => (d.content? place).isSome
  | .error _ => false

/-- The content of the file at a path. -/
def read? (d : Disk) (p : Path) : Option Content :=
  match d.place p with
  | .ok place => d.content? place
  | .error _ => none

/-! ### Listing -/

/-- The order of the walk through a folder: names are compared by their code points, and what is in
a folder stands where the folder does. -/
def precedes : Place → Place → Bool
  | [], _ => true
  | _ :: _, [] => false
  | a :: as, b :: bs => a < b || (a == b && precedes as bs)

/-- The files below a folder, as places seen from it, in the order of a walk. -/
def filesBelow (d : Disk) (folder : Place) : List Place :=
  (d.files.filterMap fun (place, _) =>
    if folder.isPrefixOf place then some (place.drop folder.length) else none).mergeSort precedes

/-! ### Changing -/

/-- A disk with a file at a place. -/
def setFile (d : Disk) (place : Place) (content : Content) : Disk :=
  { d with files := (place, content) :: d.files.filter (·.1 != place) }

/-- A disk with a new folder at a path, whose own folder has to exist. -/
def createFolder (d : Disk) (p : Path) : Except Obstacle Disk :=
  match Path.trimEnd p.body with
  | [] => .error .occupied
  | segments => do
    if !p.isUsable then throw .unusable
    let outer ← d.follow [] segments.dropLast
    -- Looking at a place from within finds out whether it is a folder.
    let _ ← d.follow outer [""]
    let place := advance outer (segments.getLastD "")
    if d.hasFolder place || (d.content? place).isSome then throw .occupied
    return { d with folders := place :: d.folders }

/-- A disk with a folder at the first of the given paths, each of which is in the folder at the
next one. -/
def createChain (d : Disk) : List Path → Except Obstacle Disk
  | [] => .error .missing
  | p :: outer =>
    match d.createFolder p with
    | .ok d => .ok d
    | .error .missing => do
      let d ← d.createChain outer
      match d.createFolder p with
      | .ok d => .ok d
      | .error obstacle => if d.isFolder p then .ok d else .error obstacle
    | .error obstacle => if d.isFolder p then .ok d else .error obstacle

/-- A disk with a folder at a path and with all the folders around it. -/
def createFolders (d : Disk) (p : Path) : Except Obstacle Disk :=
  if p.text.isEmpty then .ok d else d.createChain p.ancestors

/-- A disk with a text written to the file at a path. -/
def write (d : Disk) (p : Path) (text : String) : Except Obstacle Disk := do
  let place ← d.place p
  if d.hasFolder place then throw .occupied
  return d.setFile place (.text text)

end Disk

end BindingProxy
