import TraceWeaving.Hook
import TraceWeaving.Weave.Defect

/-!
# The wrapper of a method

A woven body starts with the report of its entry and continues with one `try`
statement around the former body, whose cleanup reports the exit on every way out.
The deadline of a method is set at the start of that statement, errors are reported
by its last catch clause, and a call of another constructor is moved in front of
everything.
-/

namespace TraceWeaving
namespace Weave

open Code

/-- Reports entry, and exit on every way out. -/
def wrap (hooks : Hooks) (id : String) (params : List Param) (body : List Stmt) : List Stmt :=
  [hooks.entering id params, .tryCatch body [] (some [hooks.exiting id])]

def endsWithExit (hooks : Hooks) (cleanup : Option (List Stmt)) : Bool :=
  match cleanup.bind List.getLast? with
  | some last => hooks.isExiting last
  | none => false

/-- The body and the catch clauses of a wrapper. -/
structure Guarded where
  body : List Stmt
  catches : List CatchClause

/-- Changes the first wrapper of a list; there is no result when the list has none. -/
def updateWrapper? (hooks : Hooks) (update : Guarded → Guarded) :
    List Stmt → Option (List Stmt)
  | [] => none
  | .tryCatch body catches cleanup :: rest =>
      if endsWithExit hooks cleanup then
        let inner := update ⟨body, catches⟩
        some (.tryCatch inner.body inner.catches cleanup :: rest)
      else (updateWrapper? hooks update rest).map (.tryCatch body catches cleanup :: ·)
  | s :: rest => (updateWrapper? hooks update rest).map (s :: ·)

def wrapperBody? (hooks : Hooks) : List Stmt → Option (List Stmt)
  | [] => none
  | .tryCatch body _ cleanup :: rest =>
      if endsWithExit hooks cleanup then some body else wrapperBody? hooks rest
  | _ :: rest => wrapperBody? hooks rest

def changeWrapper (hooks : Hooks) (update : Guarded → Guarded) (body : List Stmt) :
    Except Defect (List Stmt) :=
  match updateWrapper? hooks update body with
  | some body => .ok body
  | none => .error .noWrapper

def setDeadline (hooks : Hooks) (id : String) (millis : UInt64) (body : List Stmt) :
    Except Defect (List Stmt) :=
  changeWrapper hooks (fun g => { g with body := hooks.timeout id millis :: g.body }) body

/-- Reports errors that no other clause of the wrapper catches. -/
def reportErrors (hooks : Hooks) (id : String) (body : List Stmt) :
    Except Defect (List Stmt) :=
  changeWrapper hooks (fun g => { g with catches := g.catches ++ [hooks.onErrorClause id] }) body

/-- Moves the first call of another constructor to the front, from the body itself or
else from its wrapper. -/
def delegateFirst (hooks : Hooks) (body : List Stmt) : List Stmt :=
  match body.find? Stmt.isDelegation with
  | some call => call :: body.eraseP Stmt.isDelegation
  | none =>
      match (wrapperBody? hooks body).bind (List.find? Stmt.isDelegation) with
      | some call =>
          let rest := updateWrapper? hooks
            (fun g => { g with body := g.body.eraseP Stmt.isDelegation }) body
          call :: rest.getD body
      | none => body

end Weave
end TraceWeaving
