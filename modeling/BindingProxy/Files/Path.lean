import BindingProxy.Text.Lines

/-!
# Paths

A path is a text whose segments are divided by slashes.  Empty segments and single dots mean
nothing, a dot at the very beginning apart, and two dots go to the enclosing folder.  Two paths with
the same components lead to the same place, but each keeps its own spelling, which is what is shown.
-/

namespace BindingProxy

/-- A path to a file or folder. -/
structure Path where
  text : String
deriving Repr, DecidableEq, Inhabited

/-- A meaningful part of a path. -/
inductive PathComponent where
  | root
  /-- The dot at the beginning of a path. -/
  | here
  | up
  | name (s : String)
deriving Repr, DecidableEq, Inhabited

namespace Path

/-- The pieces of a path between its slashes. -/
def segments (p : Path) : List String := (splitAtChar '/' p.text.toList).map String.ofList

/-- The text with the given segments. -/
def joinSegments (segments : List String) : String := String.intercalate "/" segments

def isAbsolute (p : Path) : Bool := p.text.toList.head? == some '/'

/-- The segments after the root or the dot at the beginning. -/
def body (p : Path) : List String :=
  match p.segments with
  | "" :: rest => if p.isAbsolute then rest else "" :: rest
  | "." :: rest => rest
  | segments => segments

/-- The component at the beginning that is not in the body. -/
def lead (p : Path) : Option PathComponent :=
  match p.segments with
  | "" :: _ => if p.isAbsolute then some .root else none
  | "." :: _ => some .here
  | _ => none

/-- A segment that means nothing. -/
def isIdle (segment : String) : Bool := segment == "" || segment == "."

/-- The components among segments, each with the segments after it. -/
def tails : List String → List (PathComponent × List String)
  | [] => []
  | segment :: rest =>
    if isIdle segment then tails rest
    else if segment == ".." then (.up, rest) :: tails rest
    else (.name segment, rest) :: tails rest

/-- The components of a path, each with the segments after it. -/
def pieces (p : Path) : List (PathComponent × List String) :=
  match p.lead with
  | some lead => (lead, p.body) :: tails p.body
  | none => tails p.body

/-- The components of a path. -/
def components (p : Path) : List PathComponent := p.pieces.map (·.1)

/-- Segments without the idle ones at their end. -/
def trimEnd (segments : List String) : List String := (segments.reverse.dropWhile isIdle).reverse

/-- Segments without the idle ones at both ends. -/
def trim (segments : List String) : List String := trimEnd (segments.dropWhile isIdle)

/-- The path `q` seen from the folder `p`.  An absolute `q` stands for itself. -/
def join (p q : Path) : Path :=
  if q.isAbsolute || p.text.isEmpty then q
  else if p.text.toList.getLast? == some '/' then ⟨p.text ++ q.text⟩
  else ⟨p.text ++ "/" ++ q.text⟩

/-- What is left of a path below a base; `none` if the path is not below it. -/
def below? (p base : Path) : Option Path :=
  let count := base.components.length
  if base.components.isPrefixOf p.components then
    match count with
    | 0 => some p
    | before + 1 => (p.pieces[before]?).map fun piece => ⟨joinSegments (trim piece.2)⟩
  else none

/-- The last component, if it is a name. -/
def fileName? (p : Path) : Option String :=
  match p.components.getLast? with
  | some (.name s) => some s
  | _ => none

/-- The path without its last component; `none` if there is none to leave out. -/
def parent? (p : Path) : Option Path :=
  match trimEnd p.body, p.lead with
  | [], none | [], some .root => none
  | [], some _ => some ⟨""⟩
  | segments, lead =>
    let rest := trimEnd segments.dropLast
    match lead with
    | some .root => some ⟨"/" ++ joinSegments rest⟩
    | some _ => some ⟨joinSegments ("." :: rest)⟩
    | none => some ⟨joinSegments rest⟩

/-- A path and the paths of the folders around it, from the inside out, `bound` of them at most. -/
def ancestorsWithin : Nat → Path → List Path
  | 0, _ => []
  | bound + 1, p =>
    p :: (match p.parent? with
      | some parent => ancestorsWithin bound parent
      | none => [])

/-- A path and the paths of the folders around it, from the inside out. -/
def ancestors (p : Path) : List Path := ancestorsWithin (p.segments.length + 1) p

/-- The part of a file's name after its last dot; a dot at the beginning does not count. -/
def extension? (p : Path) : Option String :=
  match p.fileName? with
  | none => none
  | some name =>
    match (splitAtChar '.' name.toList).reverse with
    | [] | [_] | [_, []] => none
    | last :: _ => some (String.ofList last)

/-- Whether a path leads down only: all its components are names. -/
def isDescending (p : Path) : Bool :=
  p.components.all fun
    | .name _ => true
    | _ => false

end Path

end BindingProxy
