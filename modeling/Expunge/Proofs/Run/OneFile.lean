import Expunge.Proofs.Files.Update
import Expunge.Run

/-!
# One file of a run

What a run means to do with a file depends on its path, its bytes and on whether it may be read
(`Settings.reportOn`, `Settings.fate`). A real run does that if the tree does not refuse it, and else
tells of the failure and what was meant (`Settings.realReport`, `Settings.realFate`). `treatFile_eq`
is that no other place is looked at or touched; `FileEffect` spells out the cases.
-/

namespace Expunge
set_option autoImplicit false
open Expunge.Path

/-- The text of the bytes of a file, if they are not more than `limit` and may be read; the fault is
that of the path at which they are read. -/
def textWithin (refused : Refusals) (bytes : ByteArray) (limit : Nat) :
    Except (String → Fault) String :=
  if limit < bytes.size then .error (.tooLarge · bytes.size limit)
  else
    match refused .read with
    | some cause => .error (.unreadable · cause)
    | none =>
      match String.fromUTF8? bytes with
      | some content => .ok content
      | none => .error (.unreadable · .notUtf8)

namespace Decision

/-- What a decision leaves of the file it is about. -/
def left (d : Decision) (e : Entry) : Option Entry :=
  match d with
  | keep => some e
  | delete => none
  | replace content _ _ => some (.file content.toUTF8)

/-- Why a decision cannot be carried out. -/
def hindrance? (d : Decision) (refused : Refusals) : Option IoError :=
  match d with
  | keep => none
  | delete => refused .remove
  | replace .. => refused .write

theorem isLink_of_left {d : Decision} {e e' : Entry} (h : d.left e = some e')
    (link : e.isLink = false) : e'.isLink = false := by
  cases d with
  | keep => exact Option.some.inj h ▸ link
  | delete => cases h
  | replace content count spans =>
    rw [← Option.some.inj h]
    rfl

end Decision

/-- The report that something was meant and failed. -/
def FileReport.failed (r : FileReport) (message : String) : FileReport :=
  { r with outcome := .error message, intended := some r.outcome }

namespace Settings

/-- What a run tells of a file, if nothing hinders it. -/
def reportOn (s : Settings) (mode : RunMode) (refused : Refusals) (path : String)
    (bytes : ByteArray) : FileReport :=
  match textWithin refused bytes s.scan.maxFileSize with
  | .error fault => { file := path, outcome := .error (fault path).message }
  | .ok content =>
    let d := Decision.ofContent s.markers s.comments content
    ⟨path, d.outcome, none, d.spans, d.change? mode content⟩

/-- What a real run leaves of a file, if nothing hinders it. -/
def fate (s : Settings) (refused : Refusals) (e : Entry) : Option Entry :=
  match e with
  | .file bytes =>
    match textWithin refused bytes s.scan.maxFileSize with
    | .error _ => some e
    | .ok content => (Decision.ofContent s.markers s.comments content).left e
  | .directory | .link _ => some e

/-- What hinders a real run to do with a file what it means to. -/
def hindrance? (s : Settings) (refused : Refusals) (e : Entry) : Option IoError :=
  match e with
  | .file bytes =>
    match textWithin refused bytes s.scan.maxFileSize with
    | .error _ => none
    | .ok content => (Decision.ofContent s.markers s.comments content).hindrance? refused
  | .directory | .link _ => none

/-- What a real run tells of a file. -/
def realReport (s : Settings) (mode : RunMode) (refused : Refusals) (path : String)
    (bytes : ByteArray) : FileReport :=
  match s.hindrance? refused (.file bytes) with
  | none => s.reportOn mode refused path bytes
  | some cause =>
    (s.reportOn mode refused path bytes).failed (Fault.unwritable path cause).message

/-- What a real run leaves of a file. -/
def realFate (s : Settings) (refused : Refusals) (e : Entry) : Option Entry :=
  match s.hindrance? refused e with
  | none => s.fate refused e
  | some _ => some e

variable {s : Settings} {refused : Refusals} {e e' : Entry}

theorem realFate_of_free (free : s.hindrance? refused e = none) :
    s.realFate refused e = s.fate refused e := by
  rw [realFate, free]

theorem realFate_of_hindered {cause : IoError} (hindered : s.hindrance? refused e = some cause) :
    s.realFate refused e = some e := by
  rw [realFate, hindered]

/-- A file does not become a link. -/
theorem isLink_of_fate (h : s.fate refused e = some e') (link : e.isLink = false) :
    e'.isLink = false := by
  cases e with
  | directory => exact Option.some.inj h ▸ link
  | link target => exact Option.some.inj h ▸ link
  | file bytes =>
    cases text : textWithin refused bytes s.scan.maxFileSize with
    | error fault =>
      simp only [fate, text] at h
      exact Option.some.inj h ▸ link
    | ok content =>
      simp only [fate, text] at h
      exact Decision.isLink_of_left h link

theorem isLink_of_realFate (h : s.realFate refused e = some e') (link : e.isLink = false) :
    e'.isLink = false := by
  cases hindered : s.hindrance? refused e with
  | none => exact isLink_of_fate (realFate_of_free hindered ▸ h) link
  | some cause =>
    rw [realFate_of_hindered hindered] at h
    exact Option.some.inj h ▸ link

end Settings

/-- The bytes are a text within a limit and may be read. -/
structure HasContent (refused : Refusals) (bytes : ByteArray) (limit : Nat) (content : String) :
    Prop where
  fits : bytes.size ≤ limit
  readable : refused .read = none
  decoded : String.fromUTF8? bytes = some content

/-- What a real run tells of a file, and what stands in its place at the end. -/
inductive FileEffect (s : Settings) (mode : RunMode) (refused : Refusals) (path : String)
    (bytes : ByteArray) : FileReport → Option Entry → Prop
  | tooLarge (large : s.scan.maxFileSize < bytes.size) :
    FileEffect s mode refused path bytes
      { file := path
        outcome := .error (Fault.tooLarge path bytes.size s.scan.maxFileSize).message }
      (some (.file bytes))
  | notRead (fits : bytes.size ≤ s.scan.maxFileSize) (cause : IoError)
      (refusal : refused .read = some cause) :
    FileEffect s mode refused path bytes
      { file := path, outcome := .error (Fault.unreadable path cause).message }
      (some (.file bytes))
  | notText (fits : bytes.size ≤ s.scan.maxFileSize) (readable : refused .read = none)
      (broken : String.fromUTF8? bytes = none) :
    FileEffect s mode refused path bytes
      { file := path, outcome := .error (Fault.unreadable path .notUtf8).message }
      (some (.file bytes))
  | unchanged (content : String) (text : HasContent refused bytes s.scan.maxFileSize content)
      (decided : Decision.ofContent s.markers s.comments content = .keep) :
    FileEffect s mode refused path bytes { file := path, outcome := .unchanged }
      (some (.file bytes))
  | removed (content : String) (text : HasContent refused bytes s.scan.maxFileSize content)
      (decided : Decision.ofContent s.markers s.comments content = .delete)
      (free : refused .remove = none) :
    FileEffect s mode refused path bytes { file := path, outcome := .removed } none
  | notRemoved (content : String) (text : HasContent refused bytes s.scan.maxFileSize content)
      (decided : Decision.ofContent s.markers s.comments content = .delete) (cause : IoError)
      (refusal : refused .remove = some cause) :
    FileEffect s mode refused path bytes
      { file := path
        outcome := .error (Fault.unwritable path cause).message
        intended := some .removed }
      (some (.file bytes))
  | rewritten (content left : String) (count : Nat) (spans : List Span)
      (text : HasContent refused bytes s.scan.maxFileSize content)
      (decided : Decision.ofContent s.markers s.comments content = .replace left count spans)
      (free : refused .write = none) :
    FileEffect s mode refused path bytes
      { file := path
        outcome := .snippetsRemoved count
        spans := spans
        change := if mode.keepsContent then some ⟨content, left⟩ else none }
      (some (.file left.toUTF8))
  | notRewritten (content left : String) (count : Nat) (spans : List Span)
      (text : HasContent refused bytes s.scan.maxFileSize content)
      (decided : Decision.ofContent s.markers s.comments content = .replace left count spans)
      (cause : IoError) (refusal : refused .write = some cause) :
    FileEffect s mode refused path bytes
      { file := path
        outcome := .error (Fault.unwritable path cause).message
        intended := some (.snippetsRemoved count)
        spans := spans
        change := if mode.keepsContent then some ⟨content, left⟩ else none }
      (some (.file bytes))

variable {t : FileTree} {path : String} {loc : Location} {bytes : ByteArray} {s : Settings}
  {mode : RunMode} {refused : Refusals}

/-! ### Files with and without a text -/

section
variable {content : String} (text : textWithin refused bytes s.scan.maxFileSize = .ok content)
include text

theorem Settings.fate_of_text : s.fate refused (.file bytes) =
    (Decision.ofContent s.markers s.comments content).left (.file bytes) := by
  simp only [fate, text]

theorem Settings.hindrance?_of_text : s.hindrance? refused (.file bytes) =
    (Decision.ofContent s.markers s.comments content).hindrance? refused := by
  simp only [hindrance?, text]

theorem Settings.reportOn_of_text :
    s.reportOn mode refused path bytes =
      let d := Decision.ofContent s.markers s.comments content
      ⟨path, d.outcome, none, d.spans, d.change? mode content⟩ := by
  simp only [reportOn, text]

end

section
variable {fault : String → Fault}
  (noText : textWithin refused bytes s.scan.maxFileSize = .error fault)
include noText

theorem Settings.fate_of_no_text : s.fate refused (.file bytes) = some (.file bytes) := by
  simp only [fate, noText]

theorem Settings.hindrance?_of_no_text : s.hindrance? refused (.file bytes) = none := by
  simp only [hindrance?, noText]

theorem Settings.reportOn_of_no_text : s.reportOn mode refused path bytes =
    { file := path, outcome := .error (fault path).message } := by
  simp only [reportOn, noText]

end

/-- The report and the fate of a file are its effect. -/
theorem fileEffect_real (s : Settings) (mode : RunMode) (refused : Refusals) (path : String)
    (bytes : ByteArray) : FileEffect s mode refused path bytes
      (s.realReport mode refused path bytes) (s.realFate refused (.file bytes)) := by
  unfold Settings.realReport Settings.realFate
  by_cases large : s.scan.maxFileSize < bytes.size
  · have noText : textWithin refused bytes s.scan.maxFileSize =
        .error (.tooLarge · bytes.size s.scan.maxFileSize) := if_pos large
    rw [Settings.hindrance?_of_no_text noText, Settings.fate_of_no_text noText]
    simp only [Settings.reportOn_of_no_text noText]
    exact .tooLarge large
  have fits : bytes.size ≤ s.scan.maxFileSize := Nat.le_of_not_lt large
  cases refusal : refused .read with
  | some cause =>
    have noText : textWithin refused bytes s.scan.maxFileSize = .error (.unreadable · cause) := by
      rw [textWithin, if_neg large, refusal]
    rw [Settings.hindrance?_of_no_text noText, Settings.fate_of_no_text noText]
    simp only [Settings.reportOn_of_no_text noText]
    exact .notRead fits cause refusal
  | none =>
    cases decoded : String.fromUTF8? bytes with
    | none =>
      have noText : textWithin refused bytes s.scan.maxFileSize = .error (.unreadable · .notUtf8) := by
        rw [textWithin, if_neg large, refusal, decoded]
      rw [Settings.hindrance?_of_no_text noText, Settings.fate_of_no_text noText]
      simp only [Settings.reportOn_of_no_text noText]
      exact .notText fits refusal decoded
    | some content =>
      have text : textWithin refused bytes s.scan.maxFileSize = .ok content := by
        rw [textWithin, if_neg large, refusal, decoded]
      have has : HasContent refused bytes s.scan.maxFileSize content := ⟨fits, refusal, decoded⟩
      rw [Settings.hindrance?_of_text text, Settings.fate_of_text text,
        Settings.reportOn_of_text text]
      cases decided : Decision.ofContent s.markers s.comments content with
      | keep => exact .unchanged content has decided
      | delete =>
        cases hindered : refused .remove with
        | none =>
          simpa [Decision.hindrance?, hindered] using .removed content has decided hindered
        | some cause =>
          simpa [Decision.hindrance?, hindered, FileReport.failed] using
            .notRemoved content has decided cause hindered
      | replace left count spans =>
        cases hindered : refused .write with
        | none =>
          simpa [Decision.hindrance?, hindered] using
            .rewritten content left count spans has decided hindered
        | some cause =>
          simpa [Decision.hindrance?, hindered, FileReport.failed] using
            .notRewritten content left count spans has decided cause hindered

/-! ### What is read of a file -/

namespace FileTree

/-- A found file is read from its bytes, if it may be. -/
theorem readWithin_eq (found : t.find path = .ok (.file loc bytes)) (limit : Nat) :
    t.readWithin path limit =
      (textWithin (t.refusals loc) bytes limit).mapError (· path) := by
  have size : t.sizeOf path = .ok bytes.size := by
    rw [sizeOf, found]
    rfl
  simp only [readWithin, size, readText, readBytes, permit, found, textWithin, bind, Except.bind,
    Except.mapError]
  split
  · rfl
  · cases t.refusals loc .read with
    | some cause => rfl
    | none =>
      dsimp only
      cases String.fromUTF8? bytes <;> rfl

/-- What is not a file cannot be read. -/
theorem exists_fault_of_not_file (noFile : ∀ loc bytes, t.find path ≠ .ok (.file loc bytes))
    (limit : Nat) : ∃ fault, t.readWithin path limit = .error fault := by
  cases found : t.find path with
  | error cause => simp [readWithin, sizeOf, found, bind, Except.bind, Except.mapError]
  | ok place =>
    cases place with
    | file loc bytes => exact absurd found (noFile loc bytes)
    | directory loc =>
      simp only [readWithin, sizeOf, readText, readBytes, found, bind, Except.bind, Except.mapError]
      split
      · exact ⟨_, rfl⟩
      · exact ⟨_, rfl⟩

/-- A found file has a name. -/
theorem exists_name_of_find (found : t.find path = .ok (.file loc bytes)) :
    ∃ name dir, loc = name :: dir ∧ t.get? (name :: dir) = some (.file bytes) := by
  have here := get?_of_find_eq_file found
  have noDirectory : t.get? loc ≠ some .directory := by simp [here]
  obtain ⟨name, dir, rfl⟩ := exists_name noDirectory
  exact ⟨name, dir, rfl, here⟩

end FileTree

theorem treatFile_of_text {content : String}
    (text : textWithin (t.refusals loc) bytes s.scan.maxFileSize = .ok content)
    (found : t.find path = .ok (.file loc bytes)) :
    treatFile t path s mode = treatContent t path content s mode := by
  rw [treatFile, FileTree.readWithin_eq found, text, Except.mapError]

theorem treatFile_of_no_text {fault : String → Fault}
    (noText : textWithin (t.refusals loc) bytes s.scan.maxFileSize = .error fault)
    (found : t.find path = .ok (.file loc bytes)) :
    treatFile t path s mode = (s.reportOn mode (t.refusals loc) path bytes, t) := by
  rw [treatFile, FileTree.readWithin_eq found, noText, Except.mapError, Settings.reportOn, noText]

/-- What is not a file is reported, and the tree is left alone. -/
theorem exists_treatFile_eq_of_not_file (s : Settings) (mode : RunMode)
    (noFile : ∀ loc bytes, t.find path ≠ .ok (.file loc bytes)) :
    ∃ fault : Fault, treatFile t path s mode =
      ({ file := path, outcome := .error fault.message }, t) := by
  obtain ⟨fault, unread⟩ := FileTree.exists_fault_of_not_file noFile s.scan.maxFileSize
  exact ⟨fault, by rw [treatFile, unread]⟩

/-! ### A real run over one file without links -/

variable (free : t.LinkFree) (spelled : EndsInName path)
  (found : t.find path = .ok (.file loc bytes)) (real : mode.dryRun = false)
include free spelled found

/-- A decision on a found file changes its entry alone, unless that is refused. -/
theorem Decision.perform_eq (d : Decision) : d.perform t path =
    match d.hindrance? (t.refusals loc) with
    | none => .ok (t.updateAt loc d.left)
    | some cause => .error (.unwritable path cause) := by
  obtain ⟨directory, last, some, named, rfl⟩ := spelled
  obtain ⟨name, dir, rfl, here⟩ := FileTree.exists_name_of_find found
  cases d with
  | keep =>
    have kept : t.updateAt (name :: dir) keep.left = t := FileTree.updateAt_eq_self here rfl
    rw [perform, hindrance?, kept]
  | delete =>
    have place := FileTree.namedPlace_join free named some found
    simp only [perform, FileTree.remove, FileTree.permit, place, hindrance?, bind, Except.bind]
    cases t.refusals (name :: dir) .remove <;> rfl
  | replace content count spans =>
    have place := FileTree.writePlace_join free named some found
    simp only [perform, FileTree.write, FileTree.writeBytes, FileTree.permit, place, hindrance?,
      bind, Except.bind, FileTree.put_eq_updateAt here]
    cases t.refusals (name :: dir) .write <;> rfl

include real

/-- A real run tells of a found file and changes its entry as its bytes say. -/
theorem treatFile_eq : treatFile t path s mode =
    (s.realReport mode (t.refusals loc) path bytes,
      t.updateAt loc (s.realFate (t.refusals loc))) := by
  obtain ⟨name, dir, rfl, here⟩ := FileTree.exists_name_of_find found
  cases text : textWithin (t.refusals (name :: dir)) bytes s.scan.maxFileSize with
  | error fault =>
    have free := Settings.hindrance?_of_no_text text
    rw [treatFile_of_no_text text found, Settings.realReport, free, FileTree.updateAt_eq_self here
      ((Settings.realFate_of_free free).trans (Settings.fate_of_no_text text))]
  | ok content =>
    have performed := Decision.perform_eq free spelled found
      (Decision.ofContent s.markers s.comments content)
    rw [← Settings.hindrance?_of_text text] at performed
    rw [treatFile_of_text text found, Settings.realReport, Settings.reportOn_of_text text]
    simp only [treatContent, Decision.apply, real, Bool.false_eq_true, if_false, performed]
    cases hindered : s.hindrance? (t.refusals (name :: dir)) (.file bytes) with
    | none =>
      rw [FileTree.updateAt_congr here
        ((Settings.realFate_of_free hindered).trans (Settings.fate_of_text text))]
    | some cause =>
      rw [FileTree.updateAt_eq_self here (Settings.realFate_of_hindered hindered)]
      rfl

end Expunge
