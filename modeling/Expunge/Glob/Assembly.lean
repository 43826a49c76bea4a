import Expunge.Glob.Token

/-!
# From signs to parts

The second step of reading a glob puts its signs together: two stars between separators stand for
any directories, and groups hold alternatives.
-/

namespace Expunge.Glob
set_option autoImplicit false

/-- A group that is being read. -/
structure OpenGroup where
  /-- The parts before the group, the last one first. -/
  before : List Token
  /-- The finished alternatives, the last one first. -/
  finished : List (List Token) := []

/-- How far a glob has been read. -/
structure Reading where
  /-- The character before the next sign. -/
  last : Option Char := none
  /-- The parts of the current branch, the last one first. -/
  branch : List Token := []
  /-- The open groups, the innermost first. -/
  groups : List OpenGroup := []

namespace Reading

/-- Adds a part that a sign ending in `last` stands for. -/
def push (r : Reading) (t : Token) (last : Char) : Reading :=
  { r with last := some last, branch := t :: r.branch }

/-- Two stars that stand for themselves. -/
def pushStars (r : Reading) : Reading := (r.push .star '*').push .star '*'

/-- Puts a part for directories in the place of the separator before it; it adds nothing to
directories at the start or to everything below. -/
def pushDirectories (r : Reading) (t : Token) (last : Char) : Reading :=
  match r.branch with
  | .leadingDirectories :: _ | .everythingBelow :: _ => { r with last := some last }
  | _ :: older => { r with last := some last, branch := t :: older }
  | [] => r.push t last

/-- Two stars after the current branch do not follow a separator, nor the start of a branch. -/
def continuesName (r : Reading) : Bool :=
  r.last != some '/' && (r.groups.isEmpty || (r.last != some ',' && r.last != some '{'))

end Reading

/-- Puts the signs of a glob together. -/
def assemble (d : Dialect) (r : Reading) : List Lexeme → Except Fault (List Token)
  | [] => if r.groups.isEmpty then .ok r.branch.reverse else .error .unclosedGroup
  | .star :: .star :: .plain '/' :: rest =>
    if r.branch.isEmpty then assemble d (r.push .leadingDirectories '/') rest
    else if r.continuesName then assemble d (r.pushStars.push (.literal '/') '/') rest
    else assemble d (r.pushDirectories .innerDirectories '/') rest
  | [.star, .star] =>
    if r.branch.isEmpty then assemble d (r.push .leadingDirectories '*') []
    else if r.continuesName then assemble d r.pushStars []
    else assemble d (r.pushDirectories .everythingBelow '*') []
  | .star :: .star :: next :: rest =>
    if r.branch.isEmpty || r.continuesName || r.groups.isEmpty ||
        (next != .comma && next != .closeGroup) then
      assemble d r.pushStars (next :: rest)
    else assemble d (r.pushDirectories .everythingBelow '*') (next :: rest)
  | .star :: rest => assemble d (r.push .star '*') rest
  | .anyByte :: rest => assemble d (r.push .anyByte '?') rest
  | .plain c :: rest => assemble d (r.push (.literal c) c) rest
  | .escaped c :: rest => assemble d (r.push (.literal c) c) rest
  | .charClass negated ranges :: rest => assemble d (r.push (.charClass negated ranges) ']') rest
  | .broken cause :: _ => .error cause
  | .openGroup :: rest => assemble d ⟨some '{', [], ⟨r.branch, []⟩ :: r.groups⟩ rest
  | .comma :: rest =>
    match r.groups with
    | [] => assemble d (r.push (.literal ',') ',') rest
    | g :: gs => assemble d ⟨some ',', [], ⟨g.before, r.branch.reverse :: g.finished⟩ :: gs⟩ rest
  | .closeGroup :: rest =>
    match r.groups with
    | [] => .error .unopenedGroup
    | g :: gs =>
      let t := Token.ofBranches d (r.branch.reverse :: g.finished).reverse
      assemble d ⟨some '}', t :: g.before, gs⟩ rest

end Expunge.Glob
