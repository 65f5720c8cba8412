/-!
# Configuration

What an analysis reports.
-/

namespace UnitCheck

structure Config where
  /-- Whether to report symbols that are never used. -/
  warnUnused : Bool := true
  /-- Whether to go over the records of accesses at the end and report what is left. -/
  advisoryBorrows : Bool := true
  /-- The number of errors to keep; all when it is not positive. -/
  maxErrors : Int := 0
  /-- Whether warnings count as errors. -/
  warningsAsErrors : Bool := false
  deriving Repr, DecidableEq, Inhabited

end UnitCheck
