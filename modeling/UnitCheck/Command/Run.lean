import UnitCheck.Analysis.Run
import UnitCheck.Command.Disk
import UnitCheck.Command.Options
import UnitCheck.Reading.Config
import UnitCheck.Reading.Unit
import UnitCheck.Scoping.Dump
import UnitCheck.Tree.Dump

/-!
# Commands

`check` reports what is wrong with a unit, `dump` shows its tree and scopes. A unit is a file, or
all unit files of a directory in the order of their names.
-/

namespace UnitCheck

/-- What a command prints, and its exit code. -/
structure Outcome where
  code : Nat
  stdout : String := ""
  stderr : String := ""
  deriving Repr, DecidableEq, Inhabited

/-- A unit with the faults in its files. -/
structure LoadedUnit where
  items : List Item := []
  faults : List UnitFault := []
  deriving Inhabited

namespace Command

def usage : String :=
  "tern semantic checker

Usage:
  tern check [flags] <unit.yaml|dir>
  tern dump [flags] <unit.yaml|dir>

Commands:
  check    Resolve names, check types and borrows, print diagnostics.
           Items that cannot be decoded are reported and skipped.
  dump     Print the decoded tree and the scope tree after analysis
  version  Print the tern version

Flags (check, dump):
  -config      YAML config file (warn_unused, advisory_borrows, max_errors, warnings_as_errors)
  -max-errors  Stop recording errors after this many (0 = no limit)
  -werror      Treat warnings as errors
  -v           Verbose logging to stderr

Exit status is 0 when the unit is clean, 1 when it has errors (decoding
errors included) and 2 on usage errors or an unreadable unit.
"

def version : String := "tern 0.1.0\n"

def usageError (message : String) : Outcome := { code := 2, stderr := s!"error: {message}\n" }

section

variable {m : Type → Type} [Monad m] (disk : Disk m)

/-! ## Units -/

def isUnitFile (name : String) : Bool :=
  let extension := (Path.extension name).toLower
  extension == ".yaml" || extension == ".yml"

/-- Reads the unit files among paths, one after the other. -/
def loadFiles : List String → m LoadedUnit
  | [] => return {}
  | path :: rest => do
    let (items, faults) := match ← disk.look path with
      | some (.file text) => readUnit path text
      | _ => ([], [])
    let others ← loadFiles rest
    return { items := items ++ others.items, faults := faults ++ others.faults }

/-- Reads the unit under a path, or says why there is none. -/
def loadUnit (path : String) : m (Except String LoadedUnit) := do
  match ← disk.look path with
  | none => return .error s!"stat {path}: no such file or directory"
  | some (.file text) =>
    let (items, faults) := readUnit path text
    return .ok { items, faults }
  | some (.directory names) =>
    let files := names.filter fun (name, isDirectory) => !isDirectory && isUnitFile name
    let paths :=
      (files.map fun (name, _) => Path.join path name).mergeSort fun a b => decide (a ≤ b)
    if paths.isEmpty then return .error s!"no unit files in {path}"
    return .ok (← loadFiles disk paths)

/-! ## Settings -/

def loadConfig (path : String) : m (Except String Config) := do
  match ← disk.look path with
  | none => return .error s!"open {path}: no such file or directory"
  | some (.directory _) => return .error s!"{path}: {ConfigFault.malformed.message}"
  | some (.file text) => return (readConfig text).mapError fun f => s!"{path}: {f.message}"

/-- The configuration that options ask for; options win over the file. -/
def configOf (o : Options) : m (Except String Config) := do
  let config ← if o.configPath = "" then pure (.ok {}) else loadConfig disk o.configPath
  return do
    let c ← config
    if o.maxErrors.any (· < 0) then .error "-max-errors must not be negative"
    else .ok { c with
      maxErrors := o.maxErrors.getD c.maxErrors
      warningsAsErrors := o.werror.getD c.warningsAsErrors }

/-! ## Commands -/

/-- The lines for diagnostics, with their notes. -/
def diagnosticLines (ds : List Diagnostic) : String :=
  String.join (ds.map fun d =>
    s!"{d.pos.text}: {d.severity.name}[{d.code.name}]: {d.message}\n" ++ (if d.notes.isEmpty then ""
      else Text.indented ("\n".intercalate d.notes ++ "\n") "    note: "))

def checkReport (c : Config) (u : LoadedUnit) : Nat × String :=
  let r := analyze c u.items
  let lines := diagnosticLines r.sorted
  if !r.failure.isEmpty || !u.faults.isEmpty then
    let more := if r.truncated = 0 then "" else s!"... and {r.truncated} more errors\n"
    (1, lines ++ more ++
      s!"{r.errors.length + u.faults.length} errors, {r.warnings.length} warnings\n")
  else if r.warnings.isEmpty then (0, lines ++ "ok\n")
  else (0, lines ++ s!"ok, {r.warnings.length} warnings\n")

def dumpReport (c : Config) (u : LoadedUnit) : Nat × String :=
  let r := analyze c u.items
  let trees := "== tree\n" ++ dumpUnit u.items ++ "== scopes\n" ++ r.store.table.dump
  if !r.failure.isEmpty || !u.faults.isEmpty then
    (1, trees ++ "== diagnostics\n" ++ diagnosticLines r.sorted)
  else (0, trees)

/-- Runs a command on the unit that its arguments name. -/
def onUnit (name : String) (args : List String) (report : Config → LoadedUnit → Nat × String) :
    m Outcome := do
  match Options.parse {} args with
  | .error .help =>
    return { code := 2, stderr := Options.usage name ++ s!"error: {OptionFault.help.message}\n" }
  | .error fault =>
    return { code := 2
             stderr := s!"{fault.message}\n" ++ Options.usage name ++ s!"error: {fault.message}\n" }
  | .ok (o, [path]) =>
    match ← configOf disk o with
    | .error message => return usageError message
    | .ok c =>
      match ← loadUnit disk path with
      | .error message => return { code := 2, stderr := message ++ "\n" }
      | .ok u =>
        let (code, stdout) := report c u
        return { code, stdout, stderr := String.join (u.faults.map fun f => f.text ++ "\n") }
  | .ok _ => return usageError s!"{name}: expected one unit file or directory"

def run (args : List String) : m Outcome := do
  match args with
  | [] => return { code := 2, stderr := usage }
  | command :: rest =>
    match command with
    | "check" => onUnit disk "check" rest checkReport
    | "dump" => onUnit disk "dump" rest dumpReport
    | "help" | "-h" | "--help" => return { code := 0, stdout := usage }
    | "version" | "--version" => return { code := 0, stdout := version }
    | command => return { code := 2, stderr := s!"unknown command: {command}\n" ++ usage }

end

end Command

end UnitCheck
