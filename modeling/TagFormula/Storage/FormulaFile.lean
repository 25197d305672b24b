import TagFormula.Storage.Disk
import TagFormula.Storage.Record
import TagFormula.Storage.Store

/-!
A formula stored in a file. The folder of the file is made when the formula is saved.
-/
namespace TagFormula

structure FormulaFile where
  path : String
  disk : Disk

namespace FormulaFile

def withParent (s : FormulaFile) : Except StorageFault Disk :=
  match Path.parent? s.path with
  | none => .ok s.disk
  | some parent =>
    match s.disk.createFolders parent with
    | .ok disk => .ok disk
    | .error cause => .error (.createFolder parent cause)

def save (s : FormulaFile) (f : Formula) : Except StorageFault Unit × FormulaFile :=
  match s.withParent with
  | .error fault => (.error fault, s)
  | .ok disk =>
    match disk.write s.path f.toStored.toUTF8 with
    | .ok disk => (.ok (), { s with disk := disk })
    | .error cause => (.error (.write s.path cause), { s with disk := disk })

def load (s : FormulaFile) : Except StorageFault (Option Formula) :=
  if !s.disk.exists s.path then .ok none
  else
    match s.disk.readText s.path with
    | .ok text => (Formula.ofStored text).map some
    | .error cause => .error (.read s.path cause)

end FormulaFile

instance : Store FormulaFile where
  save := FormulaFile.save
  load := FormulaFile.load
  path? s := some s.path

end TagFormula
