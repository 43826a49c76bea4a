import Expunge.Diff.Chunk

/-!
# Shortest differences

A shortest difference is found by dividing: what two texts share at their ends is kept, and the
rest is cut in the middle of a shortest way, which is sought from both ends at once. The ways of
`d` changes are known by the furthest place that each diagonal reaches.
-/

namespace Expunge.Diff
set_option autoImplicit false

/-- The furthest place that ways of some number of changes reach on a diagonal: `start` old lines
are read before the shared lines at the end of the way, and `stop` after them. -/
structure Reach where
  diagonal : Int
  start : Nat
  stop : Nat

/-- How many old lines are read where each diagonal is entered by one more change; the places
before it are those of one change less, the highest diagonal first. -/
def entries : List Nat → List Nat
  | [] => [0]
  | x :: xs =>
    (x + 1) :: List.zipWith (fun above below => if below < above then above else below + 1)
      (x :: xs) xs ++ [(x :: xs).getLastD 0]

/-- The number of lines that two texts share from the given places on. -/
def sharedFrom (old new : Array TextLine) (x y : Nat) : Nat :=
  if h : x < old.size ∧ y < new.size then
    if old[x] = new[y] then sharedFrom old new (x + 1) (y + 1) + 1 else 0
  else 0
termination_by old.size - x
decreasing_by omega

/-- The places that ways of `d` changes reach, the highest diagonal first. -/
def reaches (old new : Array TextLine) (d : Nat) (before : List Nat) : List Reach :=
  (entries before).zipIdx.map fun (x, i) =>
    let k : Int := d - 2 * i
    ⟨k, x, x + sharedFrom old new x (x - k).toNat⟩

/-- The old lines read by ways of `d` changes on a diagonal. -/
def readAt (d : Int) (places : Array Nat) (k : Int) : Nat := places.getD ((d - k) / 2).toNat 0

/-- The cut in the middle of a shortest way, as the numbers of old and new lines before it. Ways
of `d` changes are sought from the start of two texts and from their end, which is the start of
the two other texts; `forward` and `backward` hold the places of one change less. -/
def middleFrom (old new oldBack newBack : Array TextLine) (d : Nat) (forward backward : List Nat) :
    Nat → Option (Nat × Nat)
  | 0 => none
  | left + 1 =>
    let n := old.size
    let m := new.size
    let delta : Int := n - m
    let ahead := reaches old new d forward
    let backStops := backward.toArray
    let meeting := if delta % 2 = 0 then none
      else ahead.find? fun r => decide ((r.diagonal - delta).natAbs < d) &&
        decide (n ≤ r.stop + readAt (d - 1) backStops (delta - r.diagonal))
    match meeting with
    | some r => some (r.start, (r.start - r.diagonal).toNat)
    | none =>
      let back := reaches oldBack newBack d backward
      let aheadStops := (ahead.map (·.stop)).toArray
      let meeting := if delta % 2 = 0 then
          back.find? fun r => decide ((r.diagonal - delta).natAbs ≤ d) &&
            decide (n ≤ r.stop + readAt d aheadStops (delta - r.diagonal))
        else none
      match meeting with
      | some r => some (n - r.stop, m - (r.stop - r.diagonal).toNat)
      | none =>
        middleFrom old new oldBack newBack (d + 1) (ahead.map (·.stop)) (back.map (·.stop)) left

/-- The cut in the middle of a shortest way between two lists of lines. -/
def middle (old new : List TextLine) : Option (Nat × Nat) :=
  middleFrom old.toArray new.toArray old.reverse.toArray new.reverse.toArray 0 [] []
    ((old.length + new.length + 1) / 2 + 1)

/-- Kept lines, if there are any. -/
def kept (ls : List TextLine) : List Chunk := if ls = [] then [] else [.keep ls]

/-- A shortest difference between two lists of lines. -/
def shortest (old new : List TextLine) : List Chunk :=
  let head := commonPrefix old new
  let old' := old.drop head
  let new' := new.drop head
  let tail := commonSuffix old' new'
  let a := old'.take (old'.length - tail)
  let b := new'.take (new'.length - tail)
  let inner :=
    if a = [] then if b = [] then [] else [.insert b]
    else if b = [] then [.delete a]
    else
      match middle a b with
      | none => [.delete a, .insert b]
      | some (x, y) =>
        if _smaller : (a.take x).length + (b.take y).length < old.length + new.length ∧
            (a.drop x).length + (b.drop y).length < old.length + new.length then
          shortest (a.take x) (b.take y) ++ shortest (a.drop x) (b.drop y)
        else [.delete a, .insert b]
  kept (old.take head) ++ inner ++ kept (old'.drop (old'.length - tail))
termination_by old.length + new.length
decreasing_by
  · exact _smaller.1
  · exact _smaller.2

end Expunge.Diff
