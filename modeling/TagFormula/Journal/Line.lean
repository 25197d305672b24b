import TagFormula.Journal.Filter
import TagFormula.Notice

/-!
Notices in words: the level, the part of the program they come from, and the text. The values
that belong to a text follow it by name.
-/
namespace TagFormula

namespace Journal

inductive Part where
  | program
  | config
  | app
  | editor
  | evaluation
  | storage
  deriving DecidableEq, Repr

def Part.name : Part → String
  | program => ""
  | config => "config"
  | app => "app::etat"
  | editor => "noyau::editeur"
  | evaluation => "noyau::eval"
  | storage => "noyau::persistance"

def Part.origin (p : Part) : String :=
  if p.name.isEmpty then "formule_etiquettes" else "formule_etiquettes::" ++ p.name

structure Line where
  level : Level
  part : Part
  text : String
  deriving DecidableEq, Repr

def named (name value : String) : String := " " ++ name ++ "=" ++ value

def quotedChar (c : Char) : String :=
  if c = '\'' then "'\\''"
  else if c = '"' then "'\"'"
  else String.ofList ('\'' :: Text.quotedChar c ++ ['\''])

def suggestionText (s : Suggestion) : String :=
  "Suggestion \x7b id: " ++ Text.quoted s.id ++ ", nom: " ++ Text.quoted s.name ++
    ", categorie: " ++ Text.quoted s.category ++ ", valeur: " ++
    Number.Style.log.write s.value ++ " \x7d"

def withArgument (name argument : String) : String := name ++ "(" ++ argument ++ ")"

def actionText : Action → String
  | .type text => withArgument "Saisir" (Text.quoted text)
  | .erase => "Effacer"
  | .operator c => withArgument "Operateur" (quotedChar c)
  | .commit => "Valider"
  | .acceptFirst => "AccepterSuggestion"
  | .choose s => withArgument "ChoisirSuggestion" (suggestionText s)
  | .evaluate => "Evaluer"
  | .select index => withArgument "SelectionnerJeton" index.repr
  | .replaceWith index s =>
    "RemplacerParSuggestion \x7b index: " ++ index.repr ++ ", suggestion: " ++
      suggestionText s ++ " \x7d"
  | .remove index => withArgument "RetirerJeton" index.repr
  | .startRename index => withArgument "CommencerRenommage" index.repr
  | .typeRename text => withArgument "SaisirRenommage" (Text.quoted text)
  | .finishRename => "TerminerRenommage"
  | .cancelRename => "AnnulerRenommage"
  | .clickOutside => "ClicExterieur"
  | .clear => "Vider"

end Journal

namespace Notice

open Journal

def line : Notice → Line
  | noConfigFolder => ⟨.debug, .config, "Pas de dossier de configuration, valeurs par défaut"⟩
  | configMissing path =>
    ⟨.debug, .config, "Configuration absente (" ++ path ++ "), valeurs par défaut"⟩
  | configRead path => ⟨.info, .config, "Configuration chargée depuis " ++ path⟩
  | configRefused fault => ⟨.warn, .config, fault.message⟩
  | storedAt path => ⟨.info, .app, "formule enregistrée dans " ++ path⟩
  | notStored => ⟨.warn, .app, "pas de dossier de configuration, formule non enregistrée"⟩
  | storedUnreadable fault =>
    ⟨.warn, .app, "formule enregistrée illisible: " ++ (Fault.storage fault).message⟩
  | noSuggestions fault =>
    ⟨.debug, .app, "suggestions indisponibles: " ++ (Fault.lookup fault).message⟩
  | action a => ⟨.trace, .editor, "action" ++ named "action" (actionText a)⟩
  | reloaded count => ⟨.info, .editor, "séquence rechargée" ++ named "n" count.repr⟩
  | notReloaded fault =>
    ⟨.warn, .editor, "rechargement impossible, séquence en mémoire conservée" ++
      named "erreur" (Fault.storage fault).message⟩
  | notSaved fault =>
    ⟨.warn, .editor, "enregistrement impossible" ++
      named "erreur" (Fault.storage fault).message⟩
  | appended t => ⟨.debug, .editor, "ajout" ++ named "jeton" t.label⟩
  | removed index t =>
    ⟨.debug, .editor, "retrait" ++ named "index" index.repr ++ named "jeton" t.label⟩
  | replaced index old =>
    ⟨.debug, .editor, "remplacement" ++ named "index" index.repr ++ named "ancien" old.label⟩
  | unresolved text fault =>
    ⟨.warn, .editor, "résolution sans suggestions" ++ named "texte" (Text.quoted text) ++
      named "erreur" fault.message⟩
  | evaluated v =>
    ⟨.info, .editor, "formule évaluée" ++ named "valeur" (Number.Style.log.write v)⟩
  | notEvaluated fault =>
    ⟨.info, .editor, "formule invalide" ++ named "erreur" fault.message⟩
  | renameRefused index =>
    ⟨.debug, .editor, "renommage refusé pour un opérateur" ++ named "index" index.repr⟩
  | computed trace v =>
    ⟨.debug, .evaluation, "évaluation" ++ named "jetons" trace.tokens ++
      named "rpn" trace.steps ++ named "resultat" (Number.Style.log.write v)⟩
  | saved path count =>
    ⟨.debug, .storage, "formule enregistrée" ++ named "chemin" path ++ named "n" count.repr⟩
  | nothingStored path =>
    ⟨.debug, .storage, "aucune formule enregistrée" ++ named "chemin" path⟩
  | restored path count =>
    ⟨.info, .storage, "formule rechargée" ++ named "chemin" path ++ named "n" count.repr⟩
  | starting entries =>
    ⟨.info, .program, "Démarrage (" ++ entries.repr ++ " variables au catalogue)"⟩

end Notice

end TagFormula
