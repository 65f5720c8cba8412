import UnitCheck.Number.Integer
import UnitCheck.Text.Quoted

/-!
# Options of the commands

Options start with one or two dashes and may have their value behind an equals sign; those that are
not switches may also have it as the next argument. The first argument that is no option, or `--`,
ends them.
-/

namespace UnitCheck

structure Options where
  configPath : String := ""
  /-- The limit on errors, when it is given. -/
  maxErrors : Option Int := none
  /-- Whether warnings count as errors, when it is given. -/
  werror : Option Bool := none
  deriving Repr, DecidableEq, Inhabited

/-- Why options cannot be read. -/
inductive OptionFault where
  | badSyntax (argument : String)
  | unknown (name : String)
  | help
  | missingValue (name : String)
  | badValue (name value reason : String)
  | badSwitch (name value : String)
  deriving Repr, DecidableEq, Inhabited

namespace OptionFault

def message : OptionFault → String
  | badSyntax argument => s!"bad flag syntax: {argument}"
  | unknown name => s!"flag provided but not defined: -{name}"
  | help => "flag: help requested"
  | missingValue name => s!"flag needs an argument: -{name}"
  | badValue name value reason =>
    "invalid value " ++ Text.quoted value ++ s!" for flag -{name}: {reason}"
  | badSwitch name value =>
    "invalid boolean value " ++ Text.quoted value ++ s!" for -{name}: parse error"

end OptionFault

namespace Options

def usage (command : String) : String :=
  s!"Usage of {command}:\n" ++
  "  -config string\n    \tYAML config file\n" ++
  "  -max-errors int\n    \tmaximum number of errors to record (0 = no limit)\n" ++
  "  -v\tverbose logging\n" ++
  "  -werror\n    \ttreat warnings as errors\n"

/-- What an argument is. -/
inductive Argument where
  | plain
  | stop
  | bad
  | option (name : String) (value : Option String)

/-- Splits the name of an option from its value. -/
def splitValue (text : List Char) : String × Option String :=
  match text.dropWhile (· ≠ '=') with
  | [] => (String.ofList text, none)
  | _ :: value => (String.ofList (text.takeWhile (· ≠ '=')), some (String.ofList value))

def optionText : List Char → Argument
  | [] => .bad
  | c :: rest =>
    if c = '-' ∨ c = '=' then .bad
    else
      let (name, value) := splitValue (c :: rest)
      .option name value

def argument (text : String) : Argument :=
  match text.toList with
  | ['-', '-'] => .stop
  | '-' :: '-' :: rest => optionText rest
  | '-' :: c :: rest => optionText (c :: rest)
  | _ => .plain

def readSwitch? (text : String) : Option Bool :=
  if ["1", "t", "T", "true", "TRUE", "True"].contains text then some true
  else if ["0", "f", "F", "false", "FALSE", "False"].contains text then some false
  else none

def setSwitch (o : Options) (name : String) (value : Option String) : Except OptionFault Options :=
  match readSwitch? (value.getD "true") with
  | none => .error (.badSwitch name (value.getD ""))
  | some b => .ok (if name = "werror" then { o with werror := some b } else o)

def setValue (o : Options) (name value : String) : Except OptionFault Options :=
  if name = "config" then .ok { o with configPath := value }
  else
    match Number.readSigned value.toList with
    | .ok n => .ok { o with maxErrors := some n }
    | .error .malformed => .error (.badValue name value "parse error")
    | .error .outOfRange => .error (.badValue name value "value out of range")

/-- Reads options; returns them with the arguments that are left. -/
def parse (o : Options) : List String → Except OptionFault (Options × List String)
  | [] => .ok (o, [])
  | text :: rest =>
    match argument text with
    | .plain => .ok (o, text :: rest)
    | .stop => .ok (o, rest)
    | .bad => .error (.badSyntax text)
    | .option name value =>
      if name = "v" ∨ name = "werror" then do
        parse (← o.setSwitch name value) rest
      else if name = "config" ∨ name = "max-errors" then
        match value, rest with
        | some value, rest => do parse (← o.setValue name value) rest
        | none, value :: rest => do parse (← o.setValue name value) rest
        | none, [] => .error (.missingValue name)
      else if name = "help" ∨ name = "h" then .error .help
      else .error (.unknown name)

end Options

end UnitCheck
