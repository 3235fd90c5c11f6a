import Ketscript.Binary64.Reading
import Ketscript.Entropy
import Ketscript.Linear.Validation
import Ketscript.Main
import Ketscript.Proofs.Fields
import Ketscript.Proofs.NameMap
import Ketscript.Proofs.Linear.Exact
import Ketscript.Proofs.Linear.Unitary
import Ketscript.Proofs.BuiltinGates
import Ketscript.Proofs.Operations
import Ketscript.Proofs.Registers
import Ketscript.Proofs.Runs
import Ketscript.Proofs.Spelling
import Ketscript.Proofs.StoreInvariant
import Ketscript.Proofs.Atomicity
import Ketscript.Proofs.UnitaryRuns
import Ketscript.Proofs.Concatenation
import Ketscript.Proofs.Literals
import Ketscript.Proofs.Refusals
import Ketscript.Proofs.Lines
import Ketscript.Proofs.Independence
import Ketscript.Proofs.Names
import Ketscript.Proofs.Noninterference
import Ketscript.Proofs.TextLines
import Ketscript.Proofs.Scripts
import Ketscript.Proofs.Dialogues
import Ketscript.Proofs.Prompts
import Ketscript.Proofs.Sampling
import Ketscript.Proofs.Tensors
import Ketscript.Proofs.ZeroSkipping
import Ketscript.Proofs.Inverses
import Ketscript.Proofs.Definitions
import Ketscript.Proofs.InitialBits
import Ketscript.Proofs.DecimalLiterals
import Ketscript.Proofs.LargeRegisters
import Ketscript.Proofs.ZeroNorms
import Ketscript.Proofs.BuiltinUnitarity
import Ketscript.Proofs.Eigenpairs
import Ketscript.Proofs.Spectra
import Ketscript.Proofs.Validators
import Ketscript.Proofs.DensityOperators
import Ketscript.Proofs.Variances
import Ketscript.Proofs.Transitions
import Ketscript.Proofs.Linear.Storage
import Ketscript.Proofs.TokenShapes
import Ketscript.Proofs.Linear.Terms
