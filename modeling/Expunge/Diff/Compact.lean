import Expunge.Diff.Search

/-!
# Tidy differences

A shortest difference may split what belongs together. Tidying gathers the deletions between kept
lines, and slides each insertion up and down over the kept lines beside it, as far as it spells the
same text, so that it meets and joins other insertions.
-/

namespace Expunge.Diff
set_option autoImplicit false

/-- A deletion, if it has lines. -/
def deleted (ls : List TextLine) : List Chunk := if ls = [] then [] else [.delete ls]

/-- Gathers the deletions between kept lines behind the insertions there. -/
def gatherDeletes (pending : List TextLine) : List Chunk → List Chunk
  | [] => deleted pending
  | .delete ls :: cs => gatherDeletes (pending ++ ls) cs
  | .insert ls :: cs => .insert ls :: gatherDeletes pending cs
  | .keep ls :: cs => deleted pending ++ .keep ls :: gatherDeletes [] cs

/-- Puts kept lines before chunks. -/
def keepBefore (ls : List TextLine) : List Chunk → List Chunk
  | .keep ls' :: cs => .keep (ls ++ ls') :: cs
  | cs => .keep ls :: cs

/-- Puts kept lines after chunks, the last chunk first. -/
def keepAfter (ls : List TextLine) : List Chunk → List Chunk
  | .keep ls' :: cs => .keep (ls' ++ ls) :: cs
  | cs => .keep ls :: cs

/-- The number of chunks and lines. -/
def weight : List Chunk → Nat
  | [] => 0
  | c :: cs => c.weight + weight cs

/-- An insertion between the chunks before it, the last one first, and those after it. -/
structure Slide where
  before : List Chunk
  lines : List TextLine
  after : List Chunk

/-- Slides an insertion up: over lines that it can take in at its end, over deletions, and into
other insertions. -/
def slideUp (before : List Chunk) (ls : List TextLine) (after : List Chunk) : Slide :=
  match before with
  | [] => ⟨[], ls, after⟩
  | .delete ds :: cs => slideUp cs ls (.delete ds :: after)
  | .insert is :: cs => slideUp cs (is ++ ls) after
  | .keep ks :: cs =>
    let n := commonSuffix ks ls
    if n = 0 then ⟨.keep ks :: cs, ls, after⟩
    else
      let moved := ks.drop (ks.length - n)
      let ls' := moved ++ ls.take (ls.length - n)
      if n < ks.length then slideUp (.keep (ks.take (ks.length - n)) :: cs) ls' (keepBefore moved after)
      else slideUp cs ls' (keepBefore moved after)
termination_by weight before
decreasing_by all_goals simp [weight, Chunk.weight]; try omega

/-- Slides an insertion down. -/
def slideDown (before : List Chunk) (ls : List TextLine) (after : List Chunk) : Slide :=
  match after with
  | [] => ⟨before, ls, []⟩
  | .delete ds :: cs => slideDown (.delete ds :: before) ls cs
  | .insert is :: cs => slideDown before (ls ++ is) cs
  | .keep ks :: cs =>
    let n := commonPrefix ks ls
    if n = 0 then ⟨before, ls, .keep ks :: cs⟩
    else
      let moved := ks.take n
      let ls' := ls.drop n ++ moved
      if n < ks.length then slideDown (keepAfter moved before) ls' (.keep (ks.drop n) :: cs)
      else slideDown (keepAfter moved before) ls' cs
termination_by weight after
decreasing_by all_goals simp [weight, Chunk.weight]; try omega

/-- The number of insertions. -/
def insertCount (cs : List Chunk) : Nat := cs.countP Chunk.isInsert

theorem insertCount_cons (c : Chunk) (cs : List Chunk) :
    insertCount (c :: cs) = insertCount cs + if c.isInsert then 1 else 0 := by
  simp [insertCount, List.countP_cons]

theorem insertCount_le_cons (c : Chunk) (cs : List Chunk) :
    insertCount cs ≤ insertCount (c :: cs) := by
  simp [insertCount_cons]

theorem insertCount_keepBefore (ls : List TextLine) (cs : List Chunk) :
    insertCount (keepBefore ls cs) = insertCount cs := by
  unfold keepBefore
  split <;> simp [insertCount_cons, Chunk.isInsert]

/-- Sliding up leaves the insertions below. -/
theorem insertCount_slideUp (before : List Chunk) (ls : List TextLine) (after : List Chunk) :
    insertCount (slideUp before ls after).after = insertCount after := by
  fun_induction slideUp before ls after with
  | case1 | case4 => rfl
  | case2 ls after ds cs ih => simpa [insertCount_cons, Chunk.isInsert] using ih
  | case3 ls after is cs ih => exact ih
  | case5 ls after ks cs n some moved ls' part ih => rw [ih, insertCount_keepBefore]
  | case6 ls after ks cs n some moved ls' all ih => rw [ih, insertCount_keepBefore]

/-- Sliding down leaves no more insertions below. -/
theorem insertCount_slideDown (before : List Chunk) (ls : List TextLine) (after : List Chunk) :
    insertCount (slideDown before ls after).after ≤ insertCount after := by
  fun_induction slideDown before ls after with
  | case1 | case4 => exact Nat.le_refl _
  | case2 before ls ds cs ih => exact Nat.le_trans ih (insertCount_le_cons ..)
  | case3 before ls is cs ih => exact Nat.le_trans ih (insertCount_le_cons ..)
  | case5 before ls ks cs n some moved ls' part ih =>
    simpa [insertCount_cons, Chunk.isInsert] using ih
  | case6 before ls ks cs n some moved ls' all ih => exact Nat.le_trans ih (insertCount_le_cons ..)

/-- Slides every insertion up and down; `before` holds the chunks that are done, the last one
first. -/
def slideInserts (before : List Chunk) (chunks : List Chunk) : List Chunk :=
  match chunks with
  | [] => before.reverse
  | .insert ls :: cs =>
    let up := slideUp before ls cs
    let down := slideDown up.before up.lines up.after
    have : insertCount down.after < insertCount (.insert ls :: cs) := by
      have h := insertCount_slideDown up.before up.lines up.after
      rw [insertCount_slideUp] at h
      have more : insertCount (.insert ls :: cs) = insertCount cs + 1 := insertCount_cons ..
      rw [more]
      exact Nat.lt_succ_of_le h
    slideInserts (.insert down.lines :: down.before) down.after
  | c :: cs => slideInserts (c :: before) cs
termination_by (insertCount chunks, chunks.length)
decreasing_by
  · exact Prod.Lex.left _ _ this
  · by_cases h : insertCount cs < insertCount (c :: cs)
    · exact Prod.Lex.left _ _ h
    · have : insertCount (c :: cs) = insertCount cs := by
        rw [insertCount_cons] at h ⊢
        omega
      rw [this]
      exact Prod.Lex.right _ (by simp)

/-- A line of a difference. -/
inductive Change
  | keep (line : TextLine)
  | delete (line : TextLine)
  | insert (line : TextLine)
  deriving DecidableEq, Repr

/-- The lines of chunks; between kept lines the deletions come before the insertions. -/
def changesOf (deletes inserts : List TextLine) : List Chunk → List Change
  | [] => deletes.map .delete ++ inserts.map .insert
  | .delete ls :: cs => changesOf (deletes ++ ls) inserts cs
  | .insert ls :: cs => changesOf deletes (inserts ++ ls) cs
  | .keep ls :: cs =>
    deletes.map .delete ++ inserts.map .insert ++ ls.map .keep ++ changesOf [] [] cs

/-- The difference between two texts, line by line. -/
def compare (old new : String) : List Change :=
  changesOf [] []
    (slideInserts [] (gatherDeletes [] (shortest (textLines old.toList) (textLines new.toList))))

end Expunge.Diff
