import StackIR.CommandLine
import StackIR.Effects
import StackIR.Main
import StackIR.Proofs.Meaning
import StackIR.Proofs.ControlFlow
import StackIR.Proofs.Balance
import StackIR.Proofs.ExactLinking
import StackIR.Proofs.JumpsByName
import StackIR.Proofs.Traversals
import StackIR.Proofs.SharedValues
import StackIR.Proofs.BorrowedNodes
import StackIR.Proofs.CallThenRelease
import StackIR.Proofs.Dumping
import StackIR.Proofs.SlotAccess
import StackIR.Proofs.CellWrites
import StackIR.Proofs.UseOrder
import StackIR.Proofs.Faults
import StackIR.Proofs.Relocation
import StackIR.Proofs.Increments
import StackIR.Proofs.ScopeExit
import StackIR.Proofs.DeclaredCells
import StackIR.Proofs.RenamedScripts
import StackIR.Proofs.Annotations
import StackIR.Proofs.LinkFaults
import StackIR.Proofs.Quoting
import StackIR.Proofs.AcyclicOutlines
import StackIR.Proofs.DumpLines
import StackIR.Proofs.Sketches
import StackIR.Proofs.Arities
import StackIR.Proofs.EntryPoint
import StackIR.Proofs.Sharing
import StackIR.Proofs.KeyOrder
