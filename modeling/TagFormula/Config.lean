import TagFormula.Notice
import TagFormula.Storage.Disk
import TagFormula.Suggestion
import TagFormula.Yaml.Reader
import TagFormula.Yaml.Typed

/-!
The user's settings and where they are kept. Every setting has a default; a file that is
missing, incomplete or unreadable never keeps the program from starting.
-/
namespace TagFormula

structure Config where
  /-- How long suggestions are waited for, in milliseconds. -/
  delay : Nat
  maxSuggestions : Nat
  persists : Bool
  /-- The file of the formula, in place of the one in the configuration folder. -/
  formulaFile : Option String
  catalogue : List Suggestion
  deriving DecidableEq

structure Environment where
  configHome : Option String
  home : Option String
  deriving DecidableEq, Repr

namespace Config

def defaultCatalogue : List Suggestion :=
  [⟨"revenue", "Revenue", "finance", 0⟩, ⟨"cost", "Cost", "finance", 0⟩,
    ⟨"tax_rate", "Tax rate", "finance", 0⟩, ⟨"headcount", "Headcount", "people", 0⟩]

def default : Config := ⟨800, 7, true, none, defaultCatalogue⟩

def alike (a b : Config) : Bool :=
  a.delay == b.delay && a.maxSuggestions == b.maxSuggestions && a.persists == b.persists &&
    a.formulaFile == b.formulaFile && a.catalogue.length == b.catalogue.length &&
    (a.catalogue.zip b.catalogue).all fun (s, t) => s.alike t

/-! ## Reading -/

/-- Settings that count things have to fit a 64-bit word. -/
def word? (n : Yaml.Node) : Option Nat := n.natural?.filter (· < 0x10000000000000000)

def fieldOr {α : Type} (fields : List (String × Yaml.Node)) (name : String) (default : α)
    (read : Yaml.Node → Option α) : Option α := do
  match ← Yaml.Node.field? name fields with
  | some n => read n
  | none => some default

def entry? (n : Yaml.Node) : Option Suggestion := do
  let fields ← n.fields?
  let id ← Yaml.Node.field? "id" fields
  let name ← Yaml.Node.field? "name" fields
  some ⟨← (← id).text?, ← (← name).text?, ← fieldOr fields "category" "" Yaml.Node.text?,
    ← fieldOr fields "value" 0 Yaml.Node.double?⟩

def file? (n : Yaml.Node) : Option (Option String) :=
  if n.isNull then some none else n.text?.map some

def ofNode? (n : Yaml.Node) : Option Config := do
  let fields ← n.fields?
  some ⟨← fieldOr fields "delai_suggestions_ms" default.delay word?,
    ← fieldOr fields "max_suggestions" default.maxSuggestions word?,
    ← fieldOr fields "persistance" default.persists Yaml.Node.bool?,
    ← fieldOr fields "fichier_formule" default.formulaFile file?,
    ← fieldOr fields "variables" default.catalogue fun v => do (← v.items?).mapM entry?⟩

/-- The settings a text gives. A text without a document gives the default ones. -/
def ofText? (text : String) : Option Config := do
  ofNode? ((← Yaml.read? text).getD .empty)

/-! ## Places -/

def folderName : String := "formule-etiquettes"

/-- The folder of this program's configuration. An empty home counts as none. -/
def folder? (env : Environment) : Option String :=
  let base? := match env.configHome with
    | some base => some base
    | none => (env.home.filter fun (h : String) => !h.isEmpty).map (Path.join · ".config")
  base?.map (Path.join · folderName)

def file (folder : String) : String := Path.join folder "config.yaml"

def logFolder (folder : String) : String := Path.join folder "logs"

def formulaPath? (c : Config) (env : Environment) : Option String :=
  match c.formulaFile with
  | some path => some path
  | none => (folder? env).map (Path.join · "formule.json")

/-! ## Loading -/

def read (d : Disk) (path : String) : Except ConfigFault Config :=
  match d.readText path with
  | .error cause => .error (.unreadable path cause)
  | .ok text =>
    match ofText? text with
    | some c => .ok c
    | none => .error (.invalid path)

def load (env : Environment) (d : Disk) : Config × Notice :=
  match folder? env with
  | none => (default, .noConfigFolder)
  | some folder =>
    let path := file folder
    if !d.exists path then (default, .configMissing path)
    else
      match read d path with
      | .ok c => (c, .configRead path)
      | .error fault => (default, .configRefused fault)

def createLogFolder (d : Disk) (folder : String) : Except FileFault Disk :=
  d.createFolders (logFolder folder)

end Config

end TagFormula
