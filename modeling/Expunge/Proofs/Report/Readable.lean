import Expunge.Report.Datum
import Mathlib.Data.Nat.Digits.Defs

/-!
# JSON text can be read in one way

The text of a value ends where the value does: two values with texts behind them that read the same
are the same, and so is what is behind them (`render_append_inj`). A character in quotes ends by
itself, a text at the first quote that no backslash stands before, and a number at the first
character that is no digit. So different values have different texts (`toText_inj`).
-/

namespace Expunge
set_option autoImplicit false

namespace Datum

/-! ### Texts in quotes -/

/-- The characters that are written with a letter or a sign behind a backslash. -/
def marks : List (Char × Char) :=
  [('"', '"'), ('\\', '\\'), ('\x08', 'b'), ('\x0C', 'f'), ('\n', 'n'), ('\r', 'r'), ('\t', 't')]

/-- The three ways to write a character in quotes. -/
inductive Quoted : Char → List Char → Prop
  | plain {c : Char} (noQuote : c ≠ '"') (noBackslash : c ≠ '\\') : Quoted c [c]
  | mark {c e : Char} (mem : (c, e) ∈ marks) : Quoted c ['\\', e]
  | code {c : Char} (control : c.toNat < 0x20) : Quoted c
      ['\\', 'u', '0', '0', Nat.digitChar (c.toNat / 16), Nat.digitChar (c.toNat % 16)]

theorem quoted_quoteChar (c : Char) : Quoted c (quoteChar c) := by
  have mark : ∀ e, (c, e) ∈ marks → Quoted c ['\\', e] := fun e => .mark
  unfold quoteChar
  split
  · exact mark _ (by simp_all [marks])
  split
  · exact mark _ (by simp_all [marks])
  split
  · exact mark _ (by simp_all [marks])
  split
  · exact mark _ (by simp_all [marks])
  split
  · exact mark _ (by simp_all [marks])
  split
  · exact mark _ (by simp_all [marks])
  split
  · exact mark _ (by simp_all [marks])
  split
  · exact .code (by assumption)
  · exact .plain (by assumption) (by assumption)

variable {c c' : Char} {cs cs' rest rest' written written' : List Char} {n n' depth : Nat}
  {d d' : Datum}

/-- A character in quotes is no quote. -/
theorem Quoted.ne_quote (h : Quoted c written) : written ++ rest ≠ '"' :: rest' := by
  cases h <;> simp_all

/-- A character in quotes ends by itself. -/
theorem Quoted.unique (h : Quoted c written) (h' : Quoted c' written')
    (same : written ++ rest = written' ++ rest') : c = c' ∧ rest = rest' := by
  have letters : ∀ {c e}, (c, e) ∈ marks → e ≠ 'u' := by
    intro c e mem
    exact (by decide : ∀ p ∈ marks, p.2 ≠ 'u') _ mem
  cases h with
  | plain _ noBackslash =>
    cases h' with
    | plain => simpa using same
    | mark | code => exact absurd (List.cons.inj same).1 noBackslash
  | mark mem =>
    cases h' with
    | plain _ noBackslash => exact absurd (List.cons.inj same).1.symm noBackslash
    | mark mem' =>
      have determined : ∀ p ∈ marks, ∀ q ∈ marks, p.2 = q.2 → p.1 = q.1 := by decide
      simp only [List.cons_append, List.nil_append, List.cons.injEq, true_and] at same
      obtain ⟨sign, rfl⟩ := same
      exact ⟨determined _ mem _ mem' sign, rfl⟩
    | code =>
      have sign := (List.cons.inj (List.cons.inj same).2).1
      exact absurd sign (letters mem)
  | code control =>
    cases h' with
    | plain _ noBackslash => exact absurd (List.cons.inj same).1.symm noBackslash
    | mark mem' =>
      have sign := (List.cons.inj (List.cons.inj same).2).1
      exact absurd sign.symm (letters mem')
    | code control' =>
      have digits : ∀ a < 16, ∀ b < 16, Nat.digitChar a = Nat.digitChar b → a = b := by decide
      simp only [List.cons_append, List.nil_append, List.cons.injEq, true_and] at same
      obtain ⟨high, low, rfl⟩ := same
      have high := digits _ (by omega) _ (by omega) high
      have low := digits _ (by omega) _ (by omega) low
      exact ⟨Char.toNat_inj.1 (by omega), rfl⟩

/-- What is in quotes ends at the quote. -/
theorem flatMap_quoteChar_inj
    (same : cs.flatMap quoteChar ++ '"' :: rest = cs'.flatMap quoteChar ++ '"' :: rest') :
    cs = cs' ∧ rest = rest' := by
  induction cs generalizing cs' with
  | nil =>
    cases cs' with
    | nil => simpa using same
    | cons c' cs' =>
      rw [List.flatMap_cons, List.append_assoc] at same
      exact absurd same.symm (quoted_quoteChar c').ne_quote
  | cons c cs ih =>
    rw [List.flatMap_cons, List.append_assoc] at same
    cases cs' with
    | nil => exact absurd same (quoted_quoteChar c).ne_quote
    | cons c' cs' =>
      rw [List.flatMap_cons, List.append_assoc] at same
      obtain ⟨rfl, behind⟩ := (quoted_quoteChar c).unique (quoted_quoteChar c') same
      obtain ⟨rfl, rfl⟩ := ih behind
      exact ⟨rfl, rfl⟩

/-- A text in quotes ends by itself. -/
theorem quote_append_inj (same : quote cs ++ rest = quote cs' ++ rest') :
    cs = cs' ∧ rest = rest' :=
  flatMap_quoteChar_inj (by simpa [quote] using same)

/-! ### Numbers -/

/-- No digit follows. -/
def NoDigit (rest : List Char) : Prop := ∀ c ∈ rest.head?, c.isDigit = false

/-- A number is the digits up to the first character that is none. -/
theorem takeWhile_toDigits (stop : NoDigit rest) :
    (Nat.toDigits 10 n ++ rest).takeWhile Char.isDigit = Nat.toDigits 10 n := by
  have digits : ∀ c ∈ Nat.toDigits 10 n, c.isDigit = true :=
    fun c => Nat.isDigit_of_mem_toDigits (by decide) (by decide)
  have none : rest.takeWhile Char.isDigit = [] := by
    cases rest with
    | nil => rfl
    | cons c cs => simp [stop c rfl]
  rw [List.takeWhile_append_of_pos digits, none, List.append_nil]

theorem toDigits_append_inj (stop : NoDigit rest) (stop' : NoDigit rest')
    (same : Nat.toDigits 10 n ++ rest = Nat.toDigits 10 n' ++ rest') : n = n' ∧ rest = rest' := by
  have digits : Nat.toDigits 10 n = Nat.toDigits 10 n' := by
    rw [← takeWhile_toDigits stop, same, takeWhile_toDigits stop']
  refine ⟨?_, List.append_cancel_left (digits ▸ same)⟩
  calc
    n = Nat.ofDigitChars 10 (Nat.toDigits 10 n) 0 := Nat.ofDigitChars_ten_toDigits.symm
    _ = Nat.ofDigitChars 10 (Nat.toDigits 10 n') 0 := by rw [digits]
    _ = n' := Nat.ofDigitChars_ten_toDigits

/-! ### Values -/

/-- The text of a value can start with the character. -/
def Starts : Datum → Char → Prop
  | text _, c => c = '"'
  | number _, c => c.isDigit = true
  | flag true, c => c = 't'
  | flag false, c => c = 'f'
  | list _, c => c = '['
  | record _, c => c = '{'

theorem exists_render_eq_cons (depth : Nat) (d : Datum) :
    ∃ c cs, render depth d = c :: cs ∧ d.Starts c := by
  cases d with
  | text s => exact ⟨_, _, rfl, rfl⟩
  | number n =>
    obtain ⟨c, cs, e⟩ := List.exists_cons_of_ne_nil (Nat.toDigits_ne_nil (n := n) (b := 10))
    refine ⟨c, cs, e, Nat.isDigit_of_mem_toDigits (n := n) (by decide) (Nat.le_refl 10) ?_⟩
    rw [e]
    exact List.mem_cons_self
  | flag b => cases b <;> exact ⟨_, _, rfl, rfl⟩
  | list ds => cases ds <;> exact ⟨_, _, rfl, rfl⟩
  | record fs => cases fs <;> exact ⟨_, _, rfl, rfl⟩

/-- The values are of one kind. -/
def SameKind : Datum → Datum → Prop
  | text _, text _ | number _, number _ | list _, list _ | record _, record _ => True
  | flag b, flag b' => b = b'
  | _, _ => False

/-- The first character of its text tells what a value is. -/
theorem Starts.sameKind (h : d.Starts c) (h' : d'.Starts c) : d.SameKind d' := by
  rcases d with _ | _ | (_ | _) | _ | _ <;> rcases d' with _ | _ | (_ | _) | _ | _ <;>
    simp_all [Starts, SameKind]

theorem sameKind_of_render (same : render depth d ++ rest = render depth d' ++ rest') :
    d.SameKind d' := by
  obtain ⟨c, cs, text, starts⟩ := exists_render_eq_cons depth d
  obtain ⟨c', cs', text', starts'⟩ := exists_render_eq_cons depth d'
  rw [text, text'] at same
  obtain rfl := (List.cons.inj same).1
  exact starts.sameKind starts'

/-- What stands behind an item is no digit. -/
theorem noDigit_renderItems {ds : List Datum} :
    NoDigit (renderItems depth ds ++ rest) := by
  cases ds <;> rintro c ⟨⟩ <;> rfl

theorem noDigit_renderFields {fs : List (String × Datum)} :
    NoDigit (renderFields depth fs ++ rest) := by
  obtain _ | ⟨⟨key, d⟩, fs⟩ := fs <;> rintro c ⟨⟩ <;> rfl

/-- Lists that read the same hold items that read the same. -/
theorem renderItems_of_render {ds ds' : List Datum}
    (same : render depth (list ds) ++ rest = render depth (list ds') ++ rest') :
    renderItems depth ds ++ rest = renderItems depth ds' ++ rest' := by
  cases ds with
  | nil =>
    cases ds' with
    | nil => exact congrArg (renderItems depth [] ++ ·) (List.append_cancel_left same)
    | cons d' ds' => cases same
  | cons d ds =>
    cases ds' with
    | nil => cases same
    | cons d' ds' => exact congrArg (',' :: ·) (List.cons.inj same).2

/-- Records that read the same hold fields that read the same. -/
theorem renderFields_of_render {fs fs' : List (String × Datum)}
    (same : render depth (record fs) ++ rest = render depth (record fs') ++ rest') :
    renderFields depth fs ++ rest = renderFields depth fs' ++ rest' := by
  cases fs with
  | nil =>
    cases fs' with
    | nil => exact congrArg (renderFields depth [] ++ ·) (List.append_cancel_left same)
    | cons f' fs' => cases same
  | cons f fs =>
    cases fs' with
    | nil => cases same
    | cons f' fs' => exact congrArg (',' :: ·) (List.cons.inj same).2

mutual

/-- **The text of a value ends where the value does**, if no digit is behind it. -/
theorem render_append_inj (d : Datum) {d' : Datum} {depth : Nat} {rest rest' : List Char}
    (stop : NoDigit rest) (stop' : NoDigit rest')
    (same : render depth d ++ rest = render depth d' ++ rest') : d = d' ∧ rest = rest' := by
  have kind := sameKind_of_render same
  match d with
  | text s =>
    cases d' with
    | text s' =>
      obtain ⟨chars, rfl⟩ := quote_append_inj same
      exact ⟨congrArg text (String.toList_inj.1 chars), rfl⟩
    | _ => exact kind.elim
  | number n =>
    cases d' with
    | number n' =>
      obtain ⟨rfl, rfl⟩ := toDigits_append_inj stop stop' same
      exact ⟨rfl, rfl⟩
    | _ => exact kind.elim
  | flag b =>
    cases d' with
    | flag b' =>
      obtain rfl : b = b' := kind
      exact ⟨rfl, List.append_cancel_left same⟩
    | _ => exact kind.elim
  | list ds =>
    cases d' with
    | list ds' =>
      obtain ⟨rfl, rfl⟩ := renderItems_append_inj ds (renderItems_of_render same)
      exact ⟨rfl, rfl⟩
    | _ => exact kind.elim
  | record fs =>
    cases d' with
    | record fs' =>
      obtain ⟨rfl, rfl⟩ := renderFields_append_inj fs (renderFields_of_render same)
      exact ⟨rfl, rfl⟩
    | _ => exact kind.elim

/-- The items of a list end at its bracket. -/
theorem renderItems_append_inj (ds : List Datum) {ds' : List Datum} {depth : Nat}
    {rest rest' : List Char}
    (same : renderItems depth ds ++ rest = renderItems depth ds' ++ rest') :
    ds = ds' ∧ rest = rest' := by
  match ds with
  | [] =>
    cases ds' with
    | nil => exact ⟨rfl, List.append_cancel_left same⟩
    | cons d' ds' => cases same
  | d :: ds =>
    cases ds' with
    | nil => cases same
    | cons d' ds' =>
      simp only [renderItems, List.cons_append, List.append_assoc, List.cons.injEq, true_and,
        List.append_cancel_left_eq] at same
      obtain ⟨rfl, behind⟩ := render_append_inj d noDigit_renderItems noDigit_renderItems same
      obtain ⟨rfl, rfl⟩ := renderItems_append_inj ds behind
      exact ⟨rfl, rfl⟩

/-- The fields of a record end at its brace. -/
theorem renderFields_append_inj (fs : List (String × Datum)) {fs' : List (String × Datum)}
    {depth : Nat} {rest rest' : List Char}
    (same : renderFields depth fs ++ rest = renderFields depth fs' ++ rest') :
    fs = fs' ∧ rest = rest' := by
  match fs with
  | [] =>
    cases fs' with
    | nil => exact ⟨rfl, List.append_cancel_left same⟩
    | cons f' fs' => cases same
  | (key, d) :: fs =>
    obtain _ | ⟨⟨key', d'⟩, fs'⟩ := fs'
    · cases same
    · simp only [renderFields, List.cons_append, List.append_assoc, List.cons.injEq, true_and,
        List.append_cancel_left_eq] at same
      obtain ⟨chars, value⟩ := quote_append_inj same
      obtain rfl := String.toList_inj.1 chars
      obtain ⟨rfl, behind⟩ := render_append_inj d noDigit_renderFields noDigit_renderFields
        (List.append_cancel_left value)
      obtain ⟨rfl, rfl⟩ := renderFields_append_inj fs behind
      exact ⟨rfl, rfl⟩

end

/-- Different values have different texts. -/
theorem toText_inj : d.toText = d'.toText ↔ d = d' := by
  constructor
  · intro same
    have same := congrArg String.toList same
    rw [toText, toText, String.toList_ofList, String.toList_ofList] at same
    have nothing : NoDigit [] := by
      rintro c ⟨⟩
    exact (render_append_inj d nothing nothing (congrArg (· ++ []) same)).1
  · rintro rfl
    rfl

end Datum
end Expunge
