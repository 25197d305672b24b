import TagFormula.Editor.Run
import TagFormula.Grammar
import TagFormula.Lookup.Run
import TagFormula.Lookup.View
import TagFormula.Number.Style
import TagFormula.Program
import TagFormula.Proofs.Batching
import TagFormula.Proofs.FormulaValue
import TagFormula.Proofs.Identity
import TagFormula.Proofs.LiteralEntry
import TagFormula.Proofs.Refusal
import TagFormula.Proofs.StoredFormula
import TagFormula.Proofs.ViablePrefix
import TagFormula.Screen
import TagFormula.Storage.Memory
import TagFormula.Proofs.Saving
import TagFormula.Proofs.StoreLog
import TagFormula.App.Run
import TagFormula.Proofs.FileWrites
import TagFormula.Proofs.Asking
import TagFormula.Proofs.NameMatch
import TagFormula.Proofs.Restart
import TagFormula.Proofs.UntouchedRename
import TagFormula.Proofs.CommitTiming
import TagFormula.Proofs.RenamedOperator
import TagFormula.Proofs.NameField
import TagFormula.Proofs.EntryInStep
import TagFormula.Proofs.StoreIndependence
import TagFormula.Proofs.Lockstep
import TagFormula.Proofs.WithoutSource
import TagFormula.Proofs.BlankEntry
import TagFormula.Proofs.TypedText
import TagFormula.Proofs.LiteralText
import TagFormula.Proofs.TypedNumber
import TagFormula.Proofs.Delivery
import TagFormula.Proofs.Display
import TagFormula.Proofs.Substitution
import TagFormula.Proofs.Identifiers
import TagFormula.Proofs.Postfix
import TagFormula.Proofs.Skeleton
import TagFormula.Proofs.LiteralNumber
import TagFormula.Proofs.DisplayedNumber
import TagFormula.Proofs.ReadableTrace
import TagFormula.Proofs.FreeText
import TagFormula.Proofs.FinishedRename
import TagFormula.Proofs.Loading
