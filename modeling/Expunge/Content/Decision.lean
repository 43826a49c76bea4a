import Expunge.Content.Comment
import Expunge.Content.Snippet

/-!
# What to do with a file

A file that is proprietary as a whole is deleted, a file with licensed snippets is replaced
by what is left without them, and every other file is kept. The decision looks at the content alone.
-/

namespace Expunge
set_option autoImplicit false

/-- What became, or would become, of a file. -/
inductive Outcome
  | removed
  | snippetsRemoved (count : Nat)
  | unchanged
  | error (message : String)
  deriving DecidableEq, Repr, Inhabited

/-- The file was, or would be, deleted or replaced. -/
def Outcome.isChange : Outcome → Bool
  | .removed | .snippetsRemoved _ => true
  | .unchanged | .error _ => false

/-- What is to be done with a file. -/
inductive Decision
  | keep
  | delete
  /-- Put the new content in place of the old one, `removed` snippets shorter. -/
  | replace (content : String) (removed : Nat) (spans : List Span)
  deriving DecidableEq, Repr, Inhabited

namespace Decision

/-- The outcome of a decision that could be carried out. -/
def outcome : Decision → Outcome
  | keep => .unchanged
  | delete => .removed
  | replace _ removed _ => .snippetsRemoved removed

/-- The snippets that a decision takes out of a file. -/
def spans : Decision → List Span
  | keep | delete => []
  | replace _ _ spans => spans

/-- The decision on a content. -/
def ofContent (m : Markers) (t : CommentTokens) (content : String) : Decision :=
  if isProprietary m t content then .delete
  else
    let e := m.excise content
    if e.isChanged then .replace e.content e.removed e.spans else .keep

theorem ofContent_eq_delete_iff {m : Markers} {t : CommentTokens} {content : String} :
    ofContent m t content = .delete ↔ isProprietary m t content = true := by
  simp only [ofContent]
  by_cases h : isProprietary m t content
  · simp [h]
  · by_cases c : (m.excise content).isChanged <;> simp [h, c]

/-- A replacement is the excision of a file that is not proprietary as a whole. -/
theorem ofContent_eq_replace_iff {m : Markers} {t : CommentTokens} {content new : String} {n : Nat}
    {ss : List Span} :
    ofContent m t content = .replace new n ss ↔ isProprietary m t content = false ∧
      m.excise content = ⟨new, ss⟩ ∧ n = ss.length ∧ ss ≠ [] := by
  simp only [ofContent]
  by_cases h : isProprietary m t content
  · simp [h]
  · cases e : m.excise content with
    | mk c s => cases s <;> grind [Excision.isChanged, Excision.removed]

end Decision
end Expunge
