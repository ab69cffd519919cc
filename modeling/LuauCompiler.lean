import LuauCompiler.Main
import LuauCompiler.Proofs.ScopeHistory
import LuauCompiler.Proofs.Settings
import LuauCompiler.Proofs.Visibility
import LuauCompiler.Proofs.FunctionScope
import LuauCompiler.Proofs.Grouping
import LuauCompiler.Proofs.SessionSteps
import LuauCompiler.Proofs.TreeAccounts
import LuauCompiler.Proofs.CallCounts
import LuauCompiler.Proofs.Comments
import LuauCompiler.Proofs.UnhandledHelpers
import LuauCompiler.Proofs.ListEffects
import LuauCompiler.Proofs.OperatorTexts
import LuauCompiler.Proofs.AssignedNames
import LuauCompiler.Proofs.CaseChains
import LuauCompiler.Proofs.WithItems
import LuauCompiler.Proofs.CallArguments
import LuauCompiler.Proofs.ConditionalChains
import LuauCompiler.Proofs.HandlerRuns
import LuauCompiler.Proofs.Outline
import LuauCompiler.Proofs.ArgumentOrder
import LuauCompiler.Proofs.NotebookCells
import LuauCompiler.Proofs.Nesting
