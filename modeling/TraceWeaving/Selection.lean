import TraceWeaving.Marker

/-!
# Selection

Which methods take part in tracing.  A method without body cannot; exclusion, by the
method or by its class, wins over inclusion.
-/

namespace TraceWeaving

inductive SkipReason where
  | excluded
  | notMarked
  | noBody
  deriving DecidableEq

namespace SkipReason

def message : SkipReason → String
  | excluded => "excluded by marker"
  | notMarked => "not annotated for tracing"
  | noBody => "no body"

end SkipReason

inductive Decision where
  | weave
  | skip (reason : SkipReason)
  deriving DecidableEq

/-- Decides about a method from its own markers and those of its class. -/
def decideSelection (settings : Settings) (ofClass own : MarkerSet) (hasBody : Bool) :
    Decision :=
  if !hasBody then .skip .noBody
  else if ofClass.excluded || own.excluded then .skip .excluded
  else if settings.markedOnly && !(ofClass.included || own.included) then .skip .notMarked
  else .weave

end TraceWeaving
