import TagFormula.App
import TagFormula.Journal.Line

/-!
The program from its start on: where it logs, what it loads, and how it ends. The console gets
the lines that the environment asks for, the log file all but the most detailed ones.
-/
namespace TagFormula

inductive LogFault where
  | noFolder
  | refused (cause : FileFault)
  deriving DecidableEq, Repr

def LogFault.message : LogFault → String
  | noFolder => "pas de dossier de configuration"
  | refused cause => cause.message

namespace Program

structure Report where
  console : List Journal.Line
  file : Option (List Journal.Line)
  /-- What is said at once when there is no log file. -/
  attention : Option String
  deriving DecidableEq, Repr

def openLog (env : Environment) (d : Disk) : Except LogFault (String × Disk) :=
  match Config.folder? env with
  | none => .error .noFolder
  | some folder =>
    match Config.createLogFolder d folder with
    | .ok d => .ok (Config.logFolder folder, d)
    | .error cause => .error (.refused cause)

def fileFilter : Journal.Filter := [⟨"", Journal.Level.debug.detail⟩]

def passing (f : Journal.Filter) (lines : List Journal.Line) : List Journal.Line :=
  lines.filter fun l => f.passes l.part.origin l.level

def report (filter : Option String) (log : Except LogFault Unit) (notices : List Notice) :
    Report :=
  let lines := notices.map Notice.line
  let console := passing (Journal.Filter.ofVariable filter) lines
  match log with
  | .ok () => ⟨console, some (passing fileFilter lines), none⟩
  | .error fault =>
    ⟨console, none, some ("Attention : journal fichier indisponible: " ++ fault.message)⟩

def startLog (env : Environment) (d : Disk) : Except LogFault Unit × Disk :=
  match openLog env d with
  | .ok (_, d) => (.ok (), d)
  | .error fault => (.error fault, d)

def run (env : Environment) (filter : Option String) (d : Disk) (ids : IdSupply)
    (session : App FormulaFile → App FormulaFile) : Report :=
  let (log, d) := startLog env d
  let (config, notice) := Config.load env d
  let app := session (App.start config env d ids [notice])
  report filter log app.editor.notices.reverse

def noWindow : UInt8 := 1

/-- A start without a display: it gets as far as the window. -/
def launch (env : Environment) (filter : Option String) (d : Disk) : Report × UInt8 :=
  let (log, d) := startLog env d
  let (config, notice) := Config.load env d
  (report filter log [notice, .starting config.catalogue.length], noWindow)

end Program

end TagFormula
