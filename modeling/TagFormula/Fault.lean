import TagFormula.Storage.FileFault
import TagFormula.Text.Quoted

/-!
What can go wrong, and how it is said. A fault in the structure of a formula names the item
at fault. An index out of range is always reported to the caller; faults of the suggestion
source and of the store never stop the edition.
-/
namespace TagFormula

inductive StructureFault.Kind where
  | unclosedParen
  | unopenedParen
  | missingOperand
  | unexpectedOperand
  deriving DecidableEq, Repr

structure StructureFault where
  index : Nat
  kind : StructureFault.Kind
  deriving DecidableEq, Repr

namespace StructureFault

def Kind.message : Kind → String
  | unclosedParen => "parenthèse non fermée"
  | unopenedParen => "parenthèse fermante sans ouvrante"
  | missingOperand => "opérande manquant"
  | unexpectedOperand => "opérande inattendu"

def message (f : StructureFault) : String :=
  f.kind.message ++ " (jeton " ++ f.index.repr ++ ")"

end StructureFault

inductive StorageFault where
  /-- The stored text is not a list of records. -/
  | malformed
  | unknownOperator (symbol : String)
  | createFolder (path : String) (cause : FileFault)
  | write (path : String) (cause : FileFault)
  | read (path : String) (cause : FileFault)
  /-- The store's own words. -/
  | reported (detail : String)
  deriving DecidableEq, Repr

namespace StorageFault

def detail : StorageFault → String
  | malformed => "format invalide"
  | unknownOperator symbol => "opérateur inconnu: " ++ Text.quoted symbol
  | createFolder path cause => "création du dossier " ++ path ++ ": " ++ cause.message
  | write path cause => "écriture de " ++ path ++ ": " ++ cause.message
  | read path cause => "lecture de " ++ path ++ ": " ++ cause.message
  | reported detail => detail

end StorageFault

inductive LookupFault where
  /-- No answer within this many milliseconds. -/
  | noAnswer (delay : Nat)
  /-- The source's own words. -/
  | reported (detail : String)
  deriving DecidableEq, Repr

namespace LookupFault

def detail : LookupFault → String
  | noAnswer delay => "pas de réponse après " ++ delay.repr ++ " ms"
  | reported detail => detail

end LookupFault

inductive Fault where
  | index (index length : Nat)
  | lookup (fault : LookupFault)
  | storage (fault : StorageFault)
  deriving DecidableEq, Repr

namespace Fault

def message : Fault → String
  | index i n => "index " ++ i.repr ++ " hors séquence (longueur " ++ n.repr ++ ")"
  | lookup f => "suggestions indisponibles: " ++ f.detail
  | storage f => "persistance: " ++ f.detail

/-- Any fault of a source means that there are no suggestions. -/
def asLookup : Fault → LookupFault
  | lookup f => f
  | other => .reported other.message

end Fault

inductive ConfigFault where
  | unreadable (path : String) (cause : FileFault)
  | invalid (path : String)
  deriving DecidableEq, Repr

def ConfigFault.message : ConfigFault → String
  | unreadable path cause => "Lecture de la configuration " ++ path ++ ": " ++ cause.message
  | invalid _ => "Configuration invalide"

end TagFormula
