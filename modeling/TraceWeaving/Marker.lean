import TraceWeaving.Log
import TraceWeaving.Settings
import TraceWeaving.Text.Blank
import TraceWeaving.Code.Basic

/-!
# Markers

Annotations that steer tracing: one excludes a declaration, one includes it, one sets
the longest time that a method may take.  They are recognised by their simple names.
The last duration marker counts; when it has no usable duration there is none.
-/

namespace TraceWeaving

open Code

/-- The markers of one declaration. -/
structure MarkerSet where
  excluded : Bool
  included : Bool
  /-- The longest duration in milliseconds. -/
  timeout : Option UInt64
  deriving DecidableEq

namespace MarkerSet

def none : MarkerSet :=
  ⟨false, false, .none⟩

def exclusion : MarkerSet :=
  { none with excluded := true }

def inclusion : MarkerSet :=
  { none with included := true }

end MarkerSet

structure MarkerNames where
  exclusion : String
  inclusion : String
  timeout : String
  deriving DecidableEq

namespace MarkerNames

def standard : MarkerNames :=
  ⟨"Exclude", "Include", "Timeout"⟩

end MarkerNames

inductive TimeoutDefect where
  | notANumber (raw : String)
  | noDuration (value : Option Literal)
  deriving DecidableEq

/-- The duration that an annotation declares: a number that is not negative, or a text
that reads as one. -/
def timeoutOf (a : Annot) : Except TimeoutDefect UInt64 :=
  match a.arg? "value" with
  | some (.int ms) =>
      if 0 ≤ ms then .ok ms.toUInt64 else .error (.noDuration (some (.int ms)))
  | some (.long ms) =>
      if 0 ≤ ms then .ok ms.toUInt64 else .error (.noDuration (some (.long ms)))
  | some (.str raw) =>
      match Text.readUInt64? (Text.trim raw) with
      | some ms => .ok ms
      | none => .error (.notANumber raw)
  | other => .error (.noDuration other)

namespace MarkerSet

def mark (names : MarkerNames) (markers : MarkerSet) (a : Annot) : MarkerSet :=
  if a.simpleName = names.exclusion then { markers with excluded := true }
  else if a.simpleName = names.inclusion then { markers with included := true }
  else if a.simpleName = names.timeout then { markers with timeout := (timeoutOf a).toOption }
  else markers

def ofAnnots (names : MarkerNames) (annotations : List Annot) : MarkerSet :=
  annotations.foldl (mark names) none

end MarkerSet

/-! ## Warnings -/

namespace Code.Literal

/-- The literal with the name of its variant, as warnings show it. -/
def described : Literal → String
  | int n => "Int(" ++ Text.intText n.toInt ++ ")"
  | long n => "Long(" ++ Text.intText n.toInt ++ ")"
  | bool b => "Bool(" ++ Settings.boolText b ++ ")"
  | str s => "Str(" ++ Text.displayed s ++ ")"
  | null => "Null"

end Code.Literal

namespace TimeoutDefect

def warning (owner : String) : TimeoutDefect → LogEvent
  | notANumber raw =>
      ⟨.warn, .markers, "ignoring unparsable timeout marker",
        [("owner", owner), ("value", raw)]⟩
  | noDuration value =>
      ⟨.warn, .markers, "ignoring timeout marker without a duration",
        [("owner", owner),
         ("value", match value with
            | some l => "Some(" ++ l.described ++ ")"
            | none => "None")]⟩

end TimeoutDefect

namespace MarkerNames

def isTimeout (names : MarkerNames) (a : Annot) : Bool :=
  a.simpleName ≠ names.exclusion && a.simpleName ≠ names.inclusion
    && a.simpleName = names.timeout

def warnings (names : MarkerNames) (owner : String) (annotations : List Annot) :
    List LogEvent :=
  (annotations.filter names.isTimeout).filterMap fun a =>
    match timeoutOf a with
    | .ok _ => none
    | .error defect => some (defect.warning owner)

end MarkerNames

end TraceWeaving
