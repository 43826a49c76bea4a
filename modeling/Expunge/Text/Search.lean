/-!
# Searching a text for a token

`startsWith` and `occursIn` are the tests that decide every rule of the program; their `_iff`
lemmas say that they are the prefix and the infix relation of lists. The empty token occurs
everywhere.
-/

namespace Expunge.Text
set_option autoImplicit false

/-- The text starts with the token. -/
def startsWith (token cs : List Char) : Bool := token.isPrefixOf cs

/-- The token occurs somewhere in the text. -/
def occursIn (token : List Char) : List Char → Bool
  | [] => token.isEmpty
  | c :: cs => startsWith token (c :: cs) || occursIn token cs

theorem startsWith_iff {token cs : List Char} : startsWith token cs = true ↔ token <+: cs :=
  List.isPrefixOf_iff_prefix

theorem occursIn_iff {token cs : List Char} : occursIn token cs = true ↔ token <:+: cs := by
  induction cs with
  | nil => simp [occursIn]
  | cons c cs ih => simp [occursIn, startsWith_iff, ih, List.infix_cons_iff]

@[simp] theorem occursIn_nil_left (cs : List Char) : occursIn [] cs = true := by
  simp [occursIn_iff]

end Expunge.Text
