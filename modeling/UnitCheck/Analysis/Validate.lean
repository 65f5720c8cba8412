import UnitCheck.Analysis.Config
import UnitCheck.Checking.Store

/-!
# The last look

Symbols that are never used are reported, apart from those that are reached in other ways: public
ones, fields, variants and methods among them.
-/

namespace UnitCheck.Analysis

/-- The symbols whose types are not held by the registry. -/
def unregistered (s : Store) : Option Diagnostic :=
  s.table.symbols.toList.findSome? fun symbol =>
    symbol.type.bind fun t =>
      if s.registry.contains t then none
      else some (.mk' .internal symbol.pos
        (s!"type {t.text} of " ++ Text.quoted symbol.name ++ " is not registered"))

/-- Whether it is worth a warning that a symbol is not used. -/
def expectsUse (t : Table) (s : Symbol) : Bool :=
  if ["main", "self", "Self"].contains s.name || s.name.toList.head? == some '_' || s.isPublic then
    false
  else
    match s.kind with
    | .field | .variant | .generic | .implementation | .moduleBlock => false
    | .function =>
      match (t.scope s.scope).kind with
      | .traitBody | .implBody | .typeBody => false
      | _ => true
    | _ => true

def unusedWarnings (t : Table) : List Diagnostic :=
  (t.symbols.toList.filter fun s => !s.used && expectsUse t s).map fun s =>
    .warn .unusedSymbol s.pos (s!"unused {s.kind.name} " ++ Text.quoted s.name)

def ledgerWarnings (l : Ledger) : List Diagnostic := l.validate.map fun d =>
  { d with severity := .warning }

end UnitCheck.Analysis
