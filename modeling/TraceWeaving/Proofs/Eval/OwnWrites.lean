import TraceWeaving.Proofs.Eval.Limit

/-!
# The writes of an expression's own nodes

Evaluation beside a list of the writes that the assignments and increments of the evaluated
expression make, in the order in which they take effect.  What a callee or the first use of a
class does is done by the evaluator and not listed.  Without the list, it is the evaluation
that the program is given.
-/

namespace TraceWeaving
namespace Eval

open Code

/-- A write that has taken effect. -/
structure OwnWrite where
  target : Expr
  place : Place
  value : Value
  /-- Whether the write lies in an operand or a branch that need not be evaluated. -/
  guarded : Bool

/-- Work that lists the writes it makes. -/
def Tracked (α : Type) : Type :=
  Action (α × List OwnWrite)

namespace Tracked

variable {α β : Type}

def pure (a : α) : Tracked α :=
  fun s => .done (a, []) s

def bind (x : Tracked α) (f : α → Tracked β) : Tracked β :=
  Action.bind x fun found => Action.bind (f found.1) fun next =>
    Action.pure (next.1, found.2 ++ next.2)

instance : Monad Tracked where
  pure := Tracked.pure
  bind := Tracked.bind

def plain (x : Action α) : Tracked α :=
  Action.bind x fun a => Action.pure (a, [])

def write (target : Expr) (place : Place) (value : Value) : Tracked Unit :=
  Action.bind (place.write value) fun _ => Action.pure ((), [⟨target, place, value, false⟩])

def guarded (x : Tracked α) : Tracked α :=
  Action.bind x fun found =>
    Action.pure (found.1, found.2.map fun w => { w with guarded := true })

def erase (x : Tracked α) : Action α :=
  Action.bind x fun found => Action.pure found.1

end Tracked

def asBool (operation : String) : Value → Action Bool
  | .bool b => return b
  | other => .fail (.typeMismatch operation "boolean" other.typeName)

def asInt (operation : String) : Value → Action Int64
  | .int n => return n
  | other => .fail (.typeMismatch operation "int" other.typeName)

def asAddress : Value → Action Nat
  | .array address => return address
  | .null => .raise "NullPointerException" "array is null"
  | other => .fail (.typeMismatch "indexing" "array" other.typeName)

def asClass (name : String) : Value → Action String
  | .object cls => return cls
  | value => .fail (.invalidTarget ("field '" ++ name ++ "' of " ++ value.typeName))

/-! ## Rules -/

section

variable (p : Program) (r : Evaluator)

open Tracked (plain write guarded)

def trackMember (target : Expr) (owner : Tracked Value) (name : String) : Tracked Value := do
  match ← plain (ownerOf p target) with
  | .ownClass => plain (Action.look (fun v => v.cls) >>= fun cls => readField p r cls name)
  | .namedClass cls => plain (readField p r cls name)
  | .value _ =>
      let value ← owner
      plain (memberOf p r name value)

def trackOwnerClass (target : Expr) (owner : Tracked Value) (name : String) : Tracked String := do
  match ← plain (ownerOf p target) with
  | .ownClass => plain (Action.look fun v => v.cls)
  | .namedClass cls => plain (p.findClass cls >>= fun c => return c.name)
  | .value _ =>
      let value ← owner
      plain (asClass name value)

def trackElement (target position : Tracked Value) : Tracked (Nat × Nat) := do
  let address ← plain (asAddress (← target))
  let index ← plain (asInt "array index" (← position))
  let size ← plain (Action.look fun v => (v.heap.items address).size)
  let position ← plain (checkIndex index size)
  return (address, position)

def trackAssign (op : AssignOp) (target : Expr) (place : Tracked Place) (value : Tracked Value) :
    Tracked Value := do
  let place ← place
  let result ←
    match op.arithmetic? with
    | none => value
    | some arithmetic => do
        let current ← plain place.read
        let operand ← value
        plain (applyBinary arithmetic current operand)
  write target place result
  return result

def trackStepping (op : UnaryOp) (target : Expr) (place : Tracked Place) : Tracked Value := do
  let place ← place
  match ← plain place.read with
  | .int n =>
      write target place (.int (stepped op n))
      return .int (stepResult op n (stepped op n))
  | other => plain (.fail (.typeMismatch "increment" "int" other.typeName))

def trackUnary (op : UnaryOp) (operand : Expr) (place : Tracked Place) (value : Tracked Value) :
    Tracked Value :=
  match op with
  | .neg => do
      let n ← plain (asInt "-" (← value))
      return .int (-n)
  | .not => do
      let b ← plain (asBool "!" (← value))
      return .bool (!b)
  | op => trackStepping op operand place

def trackBinary (op : BinaryOp) (left right : Tracked Value) : Tracked Value :=
  match op with
  | .and => do
      let a ← plain (asBool "&&" (← left))
      if a then guarded (right >>= fun v => plain (asBool "&&" v >>= fun b => return .bool b))
      else return .bool false
  | .or => do
      let a ← plain (asBool "||" (← left))
      if a then return .bool true
      else guarded (right >>= fun v => plain (asBool "||" v >>= fun b => return .bool b))
  | op => do
      let a ← left
      let b ← right
      plain (applyBinary op a b)

def trackConditional (cond ifTrue ifFalse : Tracked Value) : Tracked Value := do
  let b ← plain (asBool "?:" (← cond))
  if b then guarded ifTrue else guarded ifFalse

def trackCall (receiver : Option Expr) (method : String) (hook : Tracked Value)
    (object : Tracked Value) (args : Tracked (List Value)) : Tracked Value := do
  match ← plain (receiverOf p receiver method) with
  | .runtime => hook
  | .ownClass =>
      let args ← args
      let cls ← plain (Action.look fun v => v.cls)
      plain (p.findClass cls >>= fun c => invoke r c method args)
  | .namedClass cls =>
      let c ← plain (p.findClass cls)
      let args ← args
      plain (invoke r c method args)
  | .clock =>
      let args ← args
      plain (sleep args)
  | .value _ =>
      let receiver ← object
      let args ← args
      plain (callOnValue p r receiver method args)

def trackEntry (id : Tracked Value) (names values : Tracked (List Value)) : Tracked Value := do
  let id ← id
  let names ← names
  let values ← values
  plain do
    let method ← id.text
    let names ← texts names
    let values ← snapshots values
    Action.modify fun s => { s with recorder := s.recorder.receive method (.entering names values) }
    return .null

def trackHook (hook : String) (args : List Expr) (entry : Tracked Value)
    (values : Tracked (List Value)) : Tracked Value :=
  match hook, args with
  | "entering", [_, .newArray _ _, .newArray _ _] => entry
  | hook, _ => do
      let args ← values
      plain (callHook hook args)

mutual

/-- Evaluates an expression and lists the writes of its own nodes. -/
def track : Expr → Tracked Value
  | .lit value => plain (return .ofLiteral value)
  | .name ident => plain (readName ident)
  | .self => plain (Action.look fun v => .object v.cls)
  | .field target member => trackMember p r target (track target) member
  | .index target position => do
      let place ← trackElement (track target) (track position)
      plain (Action.look fun v => (v.heap.items place.1).getD place.2 .null)
  | .assign op target value => trackAssign op target (trackPlace target) (track value)
  | .unary op operand => trackUnary op operand (trackPlace operand) (track operand)
  | .binary op left right => trackBinary op (track left) (track right)
  | .conditional cond ifTrue ifFalse =>
      trackConditional (track cond) (track ifTrue) (track ifFalse)
  | .call receiver method args =>
      trackCall p r receiver method (trackHook method args (trackEntryOf args) (trackAll args))
        (trackReceiver receiver) (trackAll args)
  | .new cls args => do
      let args ← trackAll args
      plain (instantiate p r cls args)
  | .newArray _ elements => do
      let items ← trackAll elements
      plain (Action.allocate items.toArray)
  | .superCall args => do
      let _ ← trackAll args
      return .null
  | .selfCall args => do
      let args ← trackAll args
      let cls ← plain (Action.look fun v => v.cls)
      plain (p.findClass cls >>= fun c => construct r c args >>= fun _ => return .null)

def trackPlace : Expr → Tracked Place
  | .name ident => plain (resolveName ident)
  | .field owner member => do
      let cls ← trackOwnerClass p owner (track owner) member
      plain (p.findClass cls >>= fun c => useClass r c >>= fun _ => return .field cls member)
  | .index target position => do
      let place ← trackElement (track target) (track position)
      return .element place.1 place.2
  | other => plain (.fail (.invalidTarget other.source))

def trackReceiver : Option Expr → Tracked Value
  | some receiver => track receiver
  | none => plain .exhausted

def trackAll : List Expr → Tracked (List Value)
  | [] => return []
  | e :: rest => do
      let value ← track e
      let values ← trackAll rest
      return value :: values

def trackEntryOf : List Expr → Tracked Value
  | [id, .newArray _ names, .newArray _ values] =>
      trackEntry (track id) (trackAll names) (trackAll values)
  | _ => plain .exhausted

end

end

/-! ## Without the list -/

namespace Tracked

variable {α β : Type}

@[simp]
theorem erase_pure (a : α) : erase (Pure.pure a : Tracked α) = Pure.pure a :=
  rfl

@[simp]
theorem erase_bind (x : Tracked α) (f : α → Tracked β) :
    erase (x >>= f) = erase x >>= fun a => erase (f a) := by
  funext s
  show erase (Tracked.bind x f) s = Action.bind (erase x) (fun a => erase (f a)) s
  unfold erase Tracked.bind Action.bind
  cases x s with
  | done found s₁ =>
      dsimp only [Action.pure]
      cases f found.1 s₁ <;> rfl
  | thrown _ _ | fault _ _ | exhausted => rfl

@[simp]
theorem erase_plain (x : Action α) : erase (plain x) = x := by
  funext s
  unfold erase plain Action.bind
  cases x s <;> rfl

@[simp]
theorem erase_write (target : Expr) (place : Place) (value : Value) :
    erase (write target place value) = place.write value := by
  funext s
  unfold erase write Action.bind
  cases place.write value s <;> rfl

@[simp]
theorem erase_guarded (x : Tracked α) : erase (guarded x) = erase x := by
  funext s
  unfold erase guarded Action.bind
  cases x s <;> rfl

theorem plain_look_bind (g : View → α) (f : α → Tracked β) (s : State) :
    (plain (Action.look g) >>= f) s = f (g s.view) s := by
  show Action.bind (f (g s.view)) (fun next => Action.pure (next.1, [] ++ next.2)) s = _
  unfold Action.bind
  cases f (g s.view) s <;> rfl

@[simp]
theorem erase_ite (b : Bool) (x y : Tracked α) :
    erase (if b then x else y) = if b then erase x else erase y :=
  apply_ite erase _ x y

end Tracked

section

variable (p : Program) {r : Evaluator}

theorem evalBool_eq_bind (e : Expr) (operation : String) :
    r.evalBool e operation = r.eval e >>= asBool operation :=
  rfl

theorem evalInt_eq_bind (e : Expr) (operation : String) :
    r.evalInt e operation = r.eval e >>= asInt operation :=
  rfl

theorem evalArray_eq_bind (e : Expr) : r.evalArray e = r.eval e >>= asAddress :=
  rfl

open Tracked (erase)

theorem erase_ownerOf {α : Type} {target : Expr} {f : Owner → Tracked α} {g : Owner → Action α}
    (hown : (f .ownClass).erase = g .ownClass)
    (hnamed : ∀ cls, (f (.namedClass cls)).erase = g (.namedClass cls))
    (hvalue : (f (.value target)).erase = g (.value target)) :
    (Tracked.plain (ownerOf p target) >>= f).erase = ownerOf p target >>= g := by
  rw [Tracked.erase_bind, Tracked.erase_plain, ownerOf_eq]
  funext s
  show (f (s.view.owner p target)).erase s = g (s.view.owner p target) s
  rcases owner_cases p s.view target with h | ⟨cls, h⟩ | h
  · rw [h, hown]
  · rw [h, hnamed]
  · rw [h, hvalue]

section

variable {target : Expr} {owner : Tracked Value} (howner : owner.erase = r.eval target)

include howner

theorem erase_trackMember (name : String) :
    (trackMember p r target owner name).erase = readMember p r target name := by
  refine erase_ownerOf p ?_ ?_ ?_
  · exact Tracked.erase_plain _
  · exact fun cls => Tracked.erase_plain _
  · simp only [Tracked.erase_bind, Tracked.erase_plain, howner]

theorem erase_trackOwnerClass (name : String) :
    (trackOwnerClass p target owner name).erase = ownerClass p r target name := by
  refine erase_ownerOf p ?_ ?_ ?_
  · exact Tracked.erase_plain _
  · exact fun cls => Tracked.erase_plain _
  · simp only [Tracked.erase_bind, Tracked.erase_plain, howner]
    rfl

end

theorem erase_trackElement {target position : Expr} {t q : Tracked Value}
    (ht : t.erase = r.eval target) (hq : q.erase = r.eval position) :
    (trackElement t q).erase = locateElement r target position := by
  rw [locateElement_eq, evalArray_eq_bind, evalInt_eq_bind, trackElement]
  simp only [Tracked.erase_bind, Tracked.erase_plain, Tracked.erase_pure, ht, hq, bind_assoc]

theorem erase_trackAssign (op : AssignOp) {target value : Expr} {place : Tracked Place}
    {v : Tracked Value} (hplace : place.erase = resolvePlace p r target)
    (hv : v.erase = r.eval value) :
    (trackAssign op target place v).erase = evalAssign p r op target value := by
  rw [trackAssign, evalAssign, Tracked.erase_bind, hplace]
  congr 1
  funext place
  cases op.arithmetic? <;>
    simp only [Tracked.erase_bind, Tracked.erase_plain, Tracked.erase_write, Tracked.erase_pure, hv]

theorem erase_trackStepping (op : UnaryOp) {target : Expr} {place : Tracked Place}
    (hplace : place.erase = resolvePlace p r target) :
    (trackStepping op target place).erase = evalStepping p r op target := by
  rw [trackStepping, evalStepping, Tracked.erase_bind, hplace]
  congr 1
  funext place
  rw [Tracked.erase_bind, Tracked.erase_plain]
  congr 1
  funext value
  cases value with
  | int n => simp only [Tracked.erase_bind, Tracked.erase_write, Tracked.erase_pure]
  | null | bool _ | str _ | array _ | object _ | throwable _ => exact Tracked.erase_plain _

theorem erase_trackUnary (op : UnaryOp) {operand : Expr} {place : Tracked Place}
    {v : Tracked Value} (hplace : place.erase = resolvePlace p r operand)
    (hv : v.erase = r.eval operand) :
    (trackUnary op operand place v).erase = evalUnary p r op operand := by
  cases op with
  | neg =>
      simp only [trackUnary, evalUnary, Tracked.erase_bind, Tracked.erase_plain,
        Tracked.erase_pure, hv, evalInt_eq_bind, bind_assoc]
  | not =>
      simp only [trackUnary, evalUnary, Tracked.erase_bind, Tracked.erase_plain,
        Tracked.erase_pure, hv, evalBool_eq_bind, bind_assoc]
  | preInc | preDec | postInc | postDec => exact erase_trackStepping p _ hplace

theorem erase_trackBinary (op : BinaryOp) {left right : Expr} {a b : Tracked Value}
    (ha : a.erase = r.eval left) (hb : b.erase = r.eval right) :
    (trackBinary op a b).erase = evalBinary r op left right := by
  cases op with
  | and | or =>
      simp only [trackBinary, evalBinary, Tracked.erase_bind, Tracked.erase_plain,
        Tracked.erase_guarded, Tracked.erase_ite, Tracked.erase_pure, ha, hb, evalBool_eq_bind,
        bind_assoc]
  | add | sub | mul | div | rem | lt | le | gt | ge | eq | ne =>
      simp only [trackBinary, evalBinary, Tracked.erase_bind, Tracked.erase_plain, ha, hb]

theorem erase_trackConditional {cond ifTrue ifFalse : Expr} {c t f : Tracked Value}
    (hc : c.erase = r.eval cond) (ht : t.erase = r.eval ifTrue) (hf : f.erase = r.eval ifFalse) :
    (trackConditional c t f).erase = evalStep p r (.conditional cond ifTrue ifFalse) := by
  simp only [trackConditional, evalStep, Tracked.erase_bind, Tracked.erase_plain,
    Tracked.erase_guarded, Tracked.erase_ite, hc, ht, hf, evalBool_eq_bind, bind_assoc]

theorem erase_receiverOf {α : Type} {receiver : Option Expr} {method : String}
    {f : Receiver → Tracked α} {g : Receiver → Action α}
    (hfixed : ∀ dest, (∀ e, dest ≠ .value e) → (f dest).erase = g dest)
    (hvalue : ∀ e, receiver = some e → (f (.value e)).erase = g (.value e)) :
    (Tracked.plain (receiverOf p receiver method) >>= f).erase =
      receiverOf p receiver method >>= g := by
  rw [Tracked.erase_bind, Tracked.erase_plain, receiverOf_eq]
  funext s
  show (f (s.view.receiver p receiver method)).erase s = g (s.view.receiver p receiver method) s
  rcases receiver_cases p s.view receiver method with h | ⟨-, h⟩ | ⟨cls, h⟩ | h | ⟨e, he, h⟩
  · rw [h, hfixed _ (by simp)]
  · rw [h, hfixed _ (by simp)]
  · rw [h, hfixed _ (by simp)]
  · rw [h, hfixed _ (by simp)]
  · rw [h, hvalue e he]

theorem erase_trackCall (receiver : Option Expr) (method : String) {args : List Expr}
    {hook object : Tracked Value} {values : Tracked (List Value)}
    (hhook : hook.erase = evalHook r method args)
    (hobject : ∀ e, receiver = some e → object.erase = r.eval e)
    (hvalues : values.erase = r.evalAll args) :
    (trackCall p r receiver method hook object values).erase =
      evalCall p r receiver method args := by
  refine erase_receiverOf p ?_ ?_
  · intro dest hdest
    cases dest with
    | runtime => exact hhook
    | ownClass =>
        simp only [Tracked.erase_bind, Tracked.erase_plain, hvalues]
        rfl
    | namedClass cls => simp only [Tracked.erase_bind, Tracked.erase_plain, hvalues]
    | clock => simp only [Tracked.erase_bind, Tracked.erase_plain, hvalues]
    | value e => exact absurd rfl (hdest e)
  · intro e he
    simp only [Tracked.erase_bind, Tracked.erase_plain, hobject e he, hvalues]

theorem erase_trackEntry {id : Expr} {names values : List Expr} {i : Tracked Value}
    {ns vs : Tracked (List Value)} (hid : i.erase = r.eval id)
    (hnames : ns.erase = r.evalAll names) (hvalues : vs.erase = r.evalAll values) :
    (trackEntry i ns vs).erase = reportEntry r id names values := by
  simp only [trackEntry, Tracked.erase_bind, Tracked.erase_plain, hid, hnames, hvalues]
  rfl

def entryOf (r : Evaluator) : List Expr → Action Value
  | [id, .newArray _ names, .newArray _ values] => reportEntry r id names values
  | _ => .exhausted

theorem erase_trackHook (hook : String) {args : List Expr} {entry : Tracked Value}
    {vs : Tracked (List Value)}
    (hentry : entry.erase = entryOf r args) (hvs : vs.erase = r.evalAll args) :
    (trackHook hook args entry vs).erase = evalHook r hook args := by
  unfold evalHook trackHook
  split
  · exact hentry
  · simp only [Tracked.erase_bind, Tracked.erase_plain, hvs]

mutual

/-- Listing the writes does not change the evaluation. -/
theorem erase_track (hr : ∀ e, r.eval e = evalStep p r e) (e : Expr) :
    (track p r e).erase = r.eval e := by
  rw [hr e]
  cases e with
  | lit value => exact Tracked.erase_plain _
  | name ident => exact Tracked.erase_plain _
  | self => exact Tracked.erase_plain _
  | field target member =>
      rw [track]
      exact erase_trackMember p (erase_track hr target) member
  | index target position =>
      rw [track, Tracked.erase_bind,
        erase_trackElement (erase_track hr target) (erase_track hr position)]
      simp only [Tracked.erase_plain]
      rfl
  | assign op target value =>
      rw [track]
      exact erase_trackAssign p op (erase_trackPlace hr target) (erase_track hr value)
  | unary op operand =>
      rw [track]
      exact erase_trackUnary p op (erase_trackPlace hr operand) (erase_track hr operand)
  | binary op left right =>
      rw [track]
      exact erase_trackBinary op (erase_track hr left) (erase_track hr right)
  | conditional cond ifTrue ifFalse =>
      rw [track]
      exact erase_trackConditional p (erase_track hr cond) (erase_track hr ifTrue)
        (erase_track hr ifFalse)
  | call receiver method args =>
      rw [track]
      exact erase_trackCall p receiver method
        (erase_trackHook method (erase_trackEntryOf hr args) (erase_trackAll hr args))
        (erase_trackReceiver hr receiver) (erase_trackAll hr args)
  | new cls args =>
      rw [track]
      simp only [Tracked.erase_bind, Tracked.erase_plain, erase_trackAll hr args]
      rfl
  | newArray elemType elements =>
      rw [track]
      simp only [Tracked.erase_bind, Tracked.erase_plain, erase_trackAll hr elements]
      rfl
  | superCall args =>
      rw [track]
      simp only [Tracked.erase_bind, Tracked.erase_pure, erase_trackAll hr args]
      rfl
  | selfCall args =>
      rw [track]
      simp only [Tracked.erase_bind, Tracked.erase_plain, erase_trackAll hr args]
      rfl

theorem erase_trackPlace (hr : ∀ e, r.eval e = evalStep p r e) (target : Expr) :
    (trackPlace p r target).erase = resolvePlace p r target := by
  cases target with
  | name ident => exact Tracked.erase_plain _
  | field owner member =>
      rw [trackPlace]
      simp only [Tracked.erase_bind, Tracked.erase_plain,
        erase_trackOwnerClass p (erase_track hr owner) member]
      rfl
  | index target position =>
      rw [trackPlace, Tracked.erase_bind,
        erase_trackElement (erase_track hr target) (erase_track hr position)]
      simp only [Tracked.erase_pure]
      rfl
  | lit _ | self | assign _ _ _ | unary _ _ | binary _ _ _ | conditional _ _ _ | call _ _ _
  | new _ _ | newArray _ _ | superCall _ | selfCall _ =>
      rw [trackPlace]
      · exact Tracked.erase_plain _
      all_goals simp

theorem erase_trackReceiver (hr : ∀ e, r.eval e = evalStep p r e) (receiver : Option Expr) :
    ∀ e, receiver = some e → (trackReceiver p r receiver).erase = r.eval e := by
  match receiver with
  | none => exact fun e he => absurd he (by simp)
  | some receiver =>
      intro e he
      rw [trackReceiver, ← Option.some.inj he]
      exact erase_track hr receiver

theorem erase_trackAll (hr : ∀ e, r.eval e = evalStep p r e) (es : List Expr) :
    (trackAll p r es).erase = r.evalAll es := by
  cases es with
  | nil => rfl
  | cons e rest =>
      rw [trackAll, r.evalAll_cons]
      simp only [Tracked.erase_bind, Tracked.erase_pure, erase_track hr e, erase_trackAll hr rest]

theorem erase_trackEntryOf (hr : ∀ e, r.eval e = evalStep p r e) (args : List Expr) :
    (trackEntryOf p r args).erase = entryOf r args := by
  unfold entryOf
  split
  · rename_i id _ names _ values
    rw [trackEntryOf]
    exact erase_trackEntry (erase_track hr id) (erase_trackAll hr names) (erase_trackAll hr values)
  · rename_i hother
    rw [trackEntryOf]
    · exact Tracked.erase_plain _
    · exact hother

end

end

end Eval
end TraceWeaving
