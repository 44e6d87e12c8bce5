import FlatHeap.Host.Listing
import FlatHeap.Bytecode.Assembler
import FlatHeap.Host.Machine
import FlatHeap.Compiler
import FlatHeap.Proofs.Construction.Fields
import FlatHeap.Proofs.Conversion.Boxing
import FlatHeap.Proofs.Conversion.RunTime
import FlatHeap.Proofs.Bytecode.Assembly
import FlatHeap.Proofs.Host.Code
import FlatHeap.Proofs.Lowering.CallCycles
import FlatHeap.Proofs.Lowering.Pool
import FlatHeap.Proofs.Metadata.Derived
import FlatHeap.Proofs.Metadata.Subtyping
import FlatHeap.Proofs.Naming.Dispatch
import FlatHeap.Proofs.Padding.Nops
import FlatHeap.Proofs.Rules.Constants
import FlatHeap.Proofs.Rules.Folding
import FlatHeap.Proofs.Rules.Fusion
import FlatHeap.Proofs.Rules.Precedence
import FlatHeap.Proofs.Rules.Sources
import FlatHeap.Proofs.Rules.Tables
import FlatHeap.Proofs.Rules.Uses
import FlatHeap.Proofs.Sessions
