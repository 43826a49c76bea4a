/-!
# Visible text

What remains of a text when the control sequences of terminals are cut. A sequence starts with
the escape character, and the characters after it tell how far it goes. White space shows even
inside a sequence, and then all that follows it shows up to the next character that never does.
-/

namespace Expunge.Text
set_option autoImplicit false

/-- Where the reading of a control sequence stands. -/
inductive SequencePlace
  /-- Outside of sequences. -/
  | outside
  /-- After the escape character. -/
  | escape
  /-- After the escape character and a mark that takes one more. -/
  | marked
  /-- After the bracket that opens a list of numbers. -/
  | numbers
  /-- At the start of a string for the device. -/
  | header
  /-- After numbers at the start of a string for the device. -/
  | headerNumbers
  /-- After a mark at the start of a string for the device. -/
  | headerMarks
  /-- In a string that only a new sequence ends. -/
  | string
  /-- In a command, which a bell ends. -/
  | command
  deriving DecidableEq, Repr

/-- A byte of the character ends a string. -/
def endsString (c : Char) : Bool := (String.utf8EncodeChar c).contains 0x9C

/-- The code point is in a range. -/
def isWithin (low high : Nat) (c : Char) : Bool := decide (low ≤ c.toNat) && decide (c.toNat ≤ high)

namespace SequencePlace

/-- The place after a mark that follows the escape character. -/
def opened (c : Char) : SequencePlace :=
  if c = '[' then numbers
  else if c = ']' then command
  else if c = 'P' then header
  else if c = 'X' || c = '^' || c = '_' then string
  else if isWithin 0x20 0x2F c then marked
  else if isWithin 0x30 0x7E c then outside
  else escape

/-- The place after a character. The escape character starts a new sequence anywhere, and the
characters 18 and 1A cancel one. -/
def next (p : SequencePlace) (c : Char) : SequencePlace :=
  if c = '\x1B' then escape
  else if c = '\x18' || c = '\x1A' then outside
  else
    match p with
    | outside => outside
    | escape => opened c
    | marked => if isWithin 0x30 0x7E c then outside else marked
    | numbers => if isWithin 0x40 0x7E c then outside else numbers
    | header =>
      if isWithin 0x20 0x2F c then headerMarks
      else if isWithin 0x30 0x3F c then headerNumbers
      else if isWithin 0x40 0x7E c then string
      else header
    | headerNumbers =>
      if isWithin 0x20 0x2F c then headerMarks
      else if isWithin 0x3C 0x7E c then string
      else headerNumbers
    | headerMarks => if isWithin 0x30 0x7E c then string else headerMarks
    | string => if endsString c then outside else string
    | command => if c = '\x07' then outside else command

end SequencePlace

/-- White space of ASCII but for the vertical tab. -/
def isPlainSpace (c : Char) : Bool := c ∈ [' ', '\t', '\n', '\x0C', '\r']

/-- The character shows outside of sequences. -/
def isShown (c : Char) : Bool := isPlainSpace c || (decide (0x20 ≤ c.toNat) && c != '\x7F')

/-- A control character that shows wherever it stands, but for strings and commands. -/
def SequencePlace.shows (p : SequencePlace) (c : Char) : Bool :=
  match p with
  | outside => isShown c
  | escape | marked | numbers => isPlainSpace c && c != ' '
  | header | headerNumbers | headerMarks | string | command => false

/-- What remains of a text from a place on; `after` tells that the last character remained. -/
def visibleFrom (after : Bool) (p : SequencePlace) : List Char → List Char
  | [] => []
  | c :: cs =>
    if p.shows c || after && isShown c then
      c :: visibleFrom true (if isWithin 0 0x7F c then p else .outside) cs
    else visibleFrom false (p.next c) cs

/-- What remains of a text. -/
def visible (cs : List Char) : List Char := visibleFrom false .outside cs

@[simp] theorem visible_nil : visible [] = [] := rfl

theorem shows_outside (c : Char) : SequencePlace.outside.shows c = isShown c := rfl

/-- Characters that remain are shown. -/
theorem isShown_of_shows {p : SequencePlace} {c : Char} (h : p.shows c = true) :
    isShown c = true := by
  cases p <;> simp_all [SequencePlace.shows, isShown]

/-- A text of shown characters remains as it is. -/
theorem visible_of_all {cs : List Char} (h : cs.all isShown = true) : visible cs = cs := by
  have whole : ∀ after, visibleFrom after .outside cs = cs := by
    induction cs with
    | nil => intro _; rfl
    | cons c cs ih =>
      intro after
      simp only [List.all_cons, Bool.and_eq_true] at h
      simp [visibleFrom, shows_outside, h.1, ih h.2]
  exact whole false

/-- Nothing remains that does not show. -/
theorem all_isShown_visible (cs : List Char) : (visible cs).all isShown = true := by
  have rest : ∀ after p, (visibleFrom after p cs).all isShown = true := by
    induction cs with
    | nil => intro _ _; rfl
    | cons c cs ih =>
      intro after p
      rw [visibleFrom]
      split
      next h =>
        have shown : isShown c = true := by
          rcases Bool.or_eq_true_iff.1 h with h | h
          · exact isShown_of_shows h
          · exact (Bool.and_eq_true_iff.1 h).2
        simp only [List.all_cons, shown, ih, Bool.and_self]
      next => exact ih _ _
  exact rest false .outside

/-- The escape character does not remain. -/
theorem escape_notMem_visible (cs : List Char) : '\x1B' ∉ visible cs := fun h => by
  have shown := List.all_eq_true.1 (all_isShown_visible cs) _ h
  exact absurd shown (by decide)

end Expunge.Text
