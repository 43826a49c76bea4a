import Expunge.Command.Program

/-!
# The program

Loads the part of the file system that the arguments can reach, runs the command on it, and carries
the changes of the tree out. The contents of source files are loaded when it is known which of them
are scanned. What the file system does not allow is noted in the tree, so that the command tells of
it with the file.
-/

namespace Expunge.Program
set_option autoImplicit false

/-- The location of an absolute path. -/
def locationOf (path : String) : Location := ((Path.segments path).filter (· ≠ "")).reverse

/-- The absolute path of a location. -/
def pathOf (loc : Location) : String := "/" ++ "/".intercalate loc.reverse

/-- What has been loaded. -/
structure Loading where
  tree : FileTree
  /-- The directories whose entries have been loaded. -/
  listed : List Location := []

/-- Loading from the file system. -/
abbrev Load := StateT Loading IO

/-- An error with a number. Some operations tell the number below zero and the text in small
letters. -/
def systemError (text : String) (code : UInt32) : IoError :=
  .system text.capitalize (min code (0 - code)).toNat

/-- An error of the file system as a tree tells it. -/
def causeOf : IO.Error → IoError
  | .permissionDenied _ code text | .resourceExhausted _ code text | .inappropriateType _ code text
  | .alreadyExists _ code text | .invalidArgument _ code text | .noSuchThing _ code text
  | .interrupted _ code text | .resourceBusy code text | .resourceVanished code text
  | .unsupportedOperation code text | .hardwareFault code text | .unsatisfiedConstraints code text
  | .illegalOperation code text | .protocolError code text | .timeExpired code text
  | .otherError code text => systemError text code
  | .noFileOrDirectory .. => .notFound
  | .unexpectedEof => .system "Unexpected end of file" 5
  | .userError text => .system text 5

/-- The result of an operation, if it succeeds. -/
def attempt {α : Type} (x : IO α) : IO (Option α) :=
  try some <$> x catch _ => pure none

/-- Notes what stands at a location. -/
def place (loc : Location) (e : Entry) : Load Unit :=
  modify fun l => { l with tree := l.tree.put loc e }

/-- Notes that an access is refused. -/
def refuse (access : Access) (loc : Location) (cause : IoError) : Load Unit :=
  modify fun l => { l with tree := l.tree.refuse access loc cause }

/-- Reads the file at a location, or notes that it cannot be read, and then it has only a size. -/
def placeFile (path : String) (loc : Location) (size : Nat) : Load Unit := do
  try
    place loc (.file (← IO.FS.readBinFile path))
  catch e =>
    place loc (.file ⟨Array.replicate size 0⟩)
    refuse .read loc (causeOf e)

/-- Notes the directories around a location. -/
def placeAround : Location → Load Unit
  | [] => pure ()
  | _ :: dir => do
    placeAround dir
    if !dir.isEmpty then place dir .directory

/-- The files whose contents decide what is scanned. -/
def settingNames : List FileName := [".gitignore", "ossify.toml", ".ossify.toml"]

mutual

/-- Loads the entry of a directory, and with `deep` all below it. -/
partial def loadEntry (deep : Bool) (directory : String) (name : FileName) : Load Unit := do
  let entry : IO.FS.DirEntry := ⟨directory, name⟩
  let loc := name :: locationOf directory
  match ← attempt entry.path.symlinkMetadata with
  | none => pure ()
  | some m =>
    match m.type with
    | .file =>
      if deep && !settingNames.contains name then place loc (.file ByteArray.empty)
      else placeFile entry.path.toString loc m.byteSize.toNat
    | .dir =>
      place loc .directory
      if deep then loadDirectory (pathOf loc)
    | .symlink =>
      match ← attempt (IO.FS.realPath entry.path) with
      | none => place loc (.link (pathOf loc))
      | some target =>
        place loc (.link target.toString)
        loadReal deep target.toString
    | .other => pure ()

/-- Loads what stands at an absolute path without links. -/
partial def loadReal (deep : Bool) (path : String) : Load Unit := do
  match locationOf path with
  | [] => if deep then loadDirectory "/"
  | name :: dir =>
    placeAround (name :: dir)
    loadEntry deep (pathOf dir) name

/-- Loads the entries of a directory, once. -/
partial def loadDirectory (path : String) : Load Unit := do
  let loc := locationOf path
  if !(← get).listed.contains loc then
    modify fun l => { l with listed := loc :: l.listed }
    let entries ← attempt do (← IO.FS.realPath path).readDir
    for e in entries.getD #[] do
      loadEntry true path e.fileName

end

/-- Loads what is met along the names of a path, and where it leads. -/
def loadAlong (directory : String) : List FileName → Load (Option String)
  | [] => pure (some directory)
  | name :: rest => do
    if name = "" ∨ name = "." then loadAlong directory rest
    else
      if name ≠ ".." then loadEntry false directory name
      match ← attempt (IO.FS.realPath (directory ++ "/" ++ name)) with
      | none => pure none
      | some next => loadAlong next.toString rest

/-- Loads what a path leads to, with everything below it. -/
def loadPath (workingDirectory path : String) : Load Unit := do
  let start := if Path.isAbsolute path then "/" else workingDirectory
  match ← loadAlong start (Path.segments path) with
  | none => pure ()
  | some real => loadReal true real

/-- Loads the contents of the files that are scanned. -/
def loadSources (a : Command.Arguments) : Load Unit := do
  let t := (← get).tree
  if let .ok settings := Command.settingsFor t a then
    if let .ok found := discover t a.directory settings.scan then
      for rel in found.files do
        if let .ok (.file (name :: dir) _) := t.find (Path.below a.directory rel) then
          let entry : IO.FS.DirEntry := ⟨pathOf dir, name⟩
          if let some m ← attempt entry.path.metadata then
            placeFile entry.path.toString (name :: dir) m.byteSize.toNat

/-- Loads what arguments can reach. -/
def loadFor (workingDirectory : String) (a : Command.Arguments) : Load Unit := do
  loadPath workingDirectory a.directory
  if let some path := a.config? then
    let start := if Path.isAbsolute path then "/" else workingDirectory
    discard (loadAlong start (Path.segments path))
  loadSources a

/-- The files that are other in a second tree, with what they are to hold there. -/
def changes (now wanted : FileTree) : List (Location × Option ByteArray) :=
  now.entries.filterMap fun (loc, e) =>
    match wanted.get? loc with
    | none => some (loc, none)
    | some (.file bytes) => if e = .file bytes then none else some (loc, some bytes)
    | some _ => none

/-- Runs a command line on the tree `before`, and carries out what is left to do from `now` on. A
change that fails is one that the file system refuses; with that noted the command is run again. -/
partial def carryOut (e : Command.Surroundings) (arguments : List String)
    (before now : FileTree) : IO Command.Result := do
  let result := Command.execute e before arguments
  let mut known := before
  let mut current := now
  let mut failed := false
  for (loc, left) in changes now result.tree do
    try
      match left with
      | none =>
        IO.FS.removeFile (pathOf loc)
        current := current.erase loc
      | some bytes =>
        IO.FS.writeBinFile (pathOf loc) bytes
        current := current.put loc (.file bytes)
    catch e =>
      known := known.refuse (if left.isSome then .write else .remove) loc (causeOf e)
      failed := true
  if failed then carryOut e arguments known current else return result

/-- Runs a command line. -/
def runMain (arguments : List String) : IO UInt32 := do
  let workingDirectory := (← IO.FS.realPath ".").toString
  let home := locationOf workingDirectory
  let start : Loading := { tree := .empty }
  let (_, around) ← (placeAround ("" :: home)).run start
  let inside : Loading := { around with tree := around.tree.atHome home }
  let before ← match Command.read arguments with
    | .ok (.process a) => do pure (← (loadFor workingDirectory a).run inside).2.tree
    | _ => pure inside.tree
  let output ← IO.getStdout
  let surroundings : Command.Surroundings :=
    { showsColor := (← IO.getEnv "FORCE_COLOR").isSome || (← output.isTty)
      noColor := (← IO.getEnv "NO_COLOR").isSome }
  let result ← carryOut surroundings arguments before before
  output.putStr result.output
  if let some failure := result.failure? then (← IO.getStderr).putStr failure.text
  return UInt32.ofNat result.exitCode

end Expunge.Program

/-- Runs the command line of the program. -/
def main (arguments : List String) : IO UInt32 := Expunge.Program.runMain arguments
