import TagFormula.Editor.Action

/-!
What the program notes in its log, before it is put into words.
-/
namespace TagFormula

inductive Notice where
  -- configuration
  | noConfigFolder
  | configMissing (path : String)
  | configRead (path : String)
  | configRefused (fault : ConfigFault)
  -- application
  | storedAt (path : String)
  | notStored
  | storedUnreadable (fault : StorageFault)
  | noSuggestions (fault : LookupFault)
  -- editor
  | action (a : Action)
  | reloaded (count : Nat)
  | notReloaded (fault : StorageFault)
  | notSaved (fault : StorageFault)
  | appended (t : Token)
  | removed (index : Nat) (t : Token)
  | replaced (index : Nat) (old : Token)
  | unresolved (text : String) (fault : Fault)
  | evaluated (value : Float)
  | notEvaluated (fault : StructureFault)
  | renameRefused (index : Nat)
  -- evaluation
  | computed (trace : Trace) (value : Float)
  -- storage
  | saved (path : String) (count : Nat)
  | nothingStored (path : String)
  | restored (path : String) (count : Nat)
  -- program
  | starting (entries : Nat)
  deriving DecidableEq

end TagFormula
