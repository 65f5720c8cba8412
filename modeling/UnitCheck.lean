import UnitCheck.Main
import UnitCheck.Proofs.Typing.Unbounded
import UnitCheck.Proofs.Typing.Spoiled
import UnitCheck.Proofs.Checking.Compatibility
import UnitCheck.Proofs.Typing.Canonical
import UnitCheck.Proofs.Typing.Printed
import UnitCheck.Proofs.Checking.Retention
import UnitCheck.Proofs.Checking.Literals
import UnitCheck.Proofs.Scoping.Lexical
import UnitCheck.Proofs.Scoping.Outline
import UnitCheck.Proofs.Scoping.Privacy
import UnitCheck.Proofs.Analysis.UseOrder
import UnitCheck.Proofs.Analysis.Nominal
import UnitCheck.Proofs.Analysis.Assignments
import UnitCheck.Proofs.Analysis.Cleanup
import UnitCheck.Proofs.Analysis.Jumps
import UnitCheck.Proofs.Analysis.Implementations
