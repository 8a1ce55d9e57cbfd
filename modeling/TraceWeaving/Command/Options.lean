import TraceWeaving.Settings
import TraceWeaving.Text.Numeral

/-!
# Command line

The arguments are first split into positional ones, switches and options with a
value; `--` makes everything behind it positional.  Then each switch and option may
occur once, except for the arguments of a call, which may be repeated.
-/

namespace TraceWeaving
namespace Command

inductive Emit where
  | source
  | json
  deriving DecidableEq

inductive Request where
  | version
  | instrument (path : String) (emit : Emit) (restriction : Settings.Restriction)
  | run (path cls method : String) (args : List Int64) (restriction : Settings.Restriction)
  deriving DecidableEq

/-! ## Splitting arguments -/

inductive Item where
  | positional (value : String)
  | switch (name : String)
  | option (name value : String)
  deriving DecidableEq

/-- The names that a command knows. -/
structure Grammar where
  switches : List String
  options : List String
  /-- Options whose value may start with a minus sign. -/
  numeric : List String

def splitLong? (arg : String) : Option (String × Option String) :=
  match arg.toList with
  | '-' :: '-' :: rest =>
      let name := String.ofList (rest.takeWhile (· ≠ '='))
      match rest.dropWhile (· ≠ '=') with
      | _ :: value => some (name, some (String.ofList value))
      | [] => some (name, none)
  | _ => none

/-- Whether an argument has the form of an option; a minus sign alone has not. -/
def looksLikeOption (arg : String) : Bool :=
  match arg.toList with
  | ['-'] => false
  | '-' :: _ => true
  | _ => false

def acceptsValue (grammar : Grammar) (name value : String) : Bool :=
  !looksLikeOption value
    || (grammar.numeric.contains name && (Text.readInt64? value).isSome)

def items? (grammar : Grammar) : List String → Option (List Item)
  | [] => some []
  | "--" :: rest => some (rest.map .positional)
  | arg :: rest =>
      match splitLong? arg with
      | some (name, some value) =>
          if grammar.options.contains name then
            (items? grammar rest).map (.option name value :: ·)
          else none
      | some (name, none) =>
          if grammar.switches.contains name then
            (items? grammar rest).map (.switch name :: ·)
          else if grammar.options.contains name then
            match rest with
            | value :: rest =>
                if acceptsValue grammar name value then
                  (items? grammar rest).map (.option name value :: ·)
                else none
            | [] => none
          else none
      | none =>
          if looksLikeOption arg then none
          else (items? grammar rest).map (.positional arg :: ·)

/-! ## Reading items -/

def positionals (items : List Item) : List String :=
  items.filterMap fun
    | .positional value => some value
    | _ => none

def valuesOf (name : String) (items : List Item) : List String :=
  items.filterMap fun
    | .option n value => if n = name then some value else none
    | _ => none

/-- The one path of a command, which is not empty. -/
def path? (items : List Item) : Option String :=
  match positionals items with
  | [path] => if path.isEmpty then none else some path
  | _ => none

/-- Whether a switch is given; it must not be repeated. -/
def switch? (name : String) (items : List Item) : Option Bool :=
  match items.countP fun item => item = .switch name with
  | 0 => some false
  | 1 => some true
  | _ => none

def requiredValue? (name : String) (items : List Item) : Option String :=
  match valuesOf name items with
  | [value] => some value
  | _ => none

def readEmit? (value : String) : Option Emit :=
  if value = "source" then some .source
  else if value = "json" then some .json
  else none

def emit? (items : List Item) : Option Emit :=
  match valuesOf "emit" items with
  | [] => some .source
  | [value] => readEmit? value
  | _ => none

def restrictionSwitches : List String :=
  ["annotated-only", "no-value-changes", "no-errors", "no-returning"]

def restriction? (items : List Item) : Option Settings.Restriction := do
  return {
    markedOnly := ← switch? "annotated-only" items
    noChanges := ← switch? "no-value-changes" items
    noErrors := ← switch? "no-errors" items
    noReturns := ← switch? "no-returning" items }

def instrumentGrammar : Grammar :=
  ⟨restrictionSwitches, ["emit"], []⟩

def runGrammar : Grammar :=
  ⟨restrictionSwitches, ["class", "method", "arg"], ["arg"]⟩

def instrumentRequest? (args : List String) : Option Request := do
  let items ← items? instrumentGrammar args
  return .instrument (← path? items) (← emit? items) (← restriction? items)

def runRequest? (args : List String) : Option Request := do
  let items ← items? runGrammar args
  let callArgs ← (valuesOf "arg" items).mapM Text.readInt64?
  return .run (← path? items) (← requiredValue? "class" items)
    (← requiredValue? "method" items) callArgs (← restriction? items)

/-- What a command line asks for; anything else is a usage error. -/
def request? : List String → Option Request
  | "instrument" :: args => instrumentRequest? args
  | "run" :: args => runRequest? args
  | "--version" :: _ => some .version
  | arg :: _ => if arg.startsWith "-V" then some .version else none
  | [] => none

end Command
end TraceWeaving
