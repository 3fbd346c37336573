import Dispatch.Main
import Dispatch.Proofs.Declarations.DeclarationHistory
import Dispatch.Proofs.Declarations.DomainCoherence
import Dispatch.Proofs.Effects.AssignedCell
import Dispatch.Proofs.Effects.FilteredRemoval
import Dispatch.Proofs.Effects.ItemFields
import Dispatch.Proofs.Evaluation.NamedSlots
import Dispatch.Proofs.Evaluation.SetAlgebra
import Dispatch.Proofs.Execution.ActionParameters
import Dispatch.Proofs.Execution.IndependentActions
import Dispatch.Proofs.Execution.NameFaults
import Dispatch.Proofs.Execution.ReachableStates
import Dispatch.Proofs.Grounding.ConditionOrder
import Dispatch.Proofs.Grounding.InheritedActions
import Dispatch.Proofs.Layout.PlacedValues
import Dispatch.Proofs.Layout.StartingPositions
import Dispatch.Proofs.Positions.LoadErrors
import Dispatch.Proofs.Printing.RereadEffects
import Dispatch.Proofs.Reading.BlockGrammar
import Dispatch.Proofs.Reading.CommandDispatch
import Dispatch.Proofs.Simulation.AscendingStates
import Dispatch.Proofs.Simulation.ItemIdentity
import Dispatch.Proofs.Simulation.JointSteps
import Dispatch.Proofs.Simulation.LegalMoves
import Dispatch.Proofs.Simulation.RunAccounts
