import UnitCheck.Proofs.Analysis.Coverage

/-!
# Implementations of traits

An implementation of a trait is checked against the trait that its path leads to (`Table.Conforms`).
The check matches the functions by their names. That these are distinct is found when they are
declared, in the scope of the implementation, which has the name `Self` already.
-/

namespace UnitCheck

open Checking Analysis Relation List

variable {t : Table} {trait m : Symbol} {functions : List Function} {pos : Position}
  {path : List String}

namespace Analysis

/-! ## The check of an implementation -/

end Analysis

open Analysis

end UnitCheck
