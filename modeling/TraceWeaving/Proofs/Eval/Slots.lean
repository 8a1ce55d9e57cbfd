import Mathlib.Data.List.Nodup
import TraceWeaving.Proofs.Eval.Frames
import TraceWeaving.Proofs.Eval.Limit

/-!
# The slot of a field

A field of a class can be named by itself or through `this` in a method of the class, through
a name of the class, and through an object.  All of these read the same slot, and all of them
write it except an object that carries the qualified name of its class: what is written through
such an object is kept apart, where no expression reads it.

What is read is what was written last: evaluation that stops where it would write a slot shows
that nothing changes the slot before.
-/

namespace TraceWeaving

/-! ## Names of classes -/

namespace Code

/-- The classes of a unit have different names, which hold no dot. -/
structure PlainlyNamed (u : CompilationUnit) : Prop where
  distinct : (u.classes.map ClassDecl.name).Nodup
  undotted : ∀ c ∈ u.classes, '.' ∉ c.name.toList

def CompilationUnit.namesOf (u : CompilationUnit) (c : ClassDecl) : List String :=
  [c.name, u.qualifiedName c]

/-- The qualified names of all classes begin alike, with nothing or with a dotted prefix. -/
theorem qualifiedName_eq_append (u : CompilationUnit) :
    ∃ front : String, (front = "" ∨ '.' ∈ front.toList) ∧
      ∀ c, u.qualifiedName c = front ++ c.name := by
  unfold CompilationUnit.qualifiedName
  cases u.package with
  | none => exact ⟨"", .inl rfl, fun c => String.empty_append.symm⟩
  | some package =>
      cases hempty : package.isEmpty with
      | true => exact ⟨"", .inl rfl, fun c => by simp [hempty]⟩
      | false =>
          refine ⟨package ++ ".", .inr ?_, fun c => by simp [hempty]⟩
          rw [String.toList_append]
          exact List.mem_append_right _ (by simp)

namespace PlainlyNamed

variable {u : CompilationUnit} (h : PlainlyNamed u)

include h

theorem eq_of_name_eq {c d : ClassDecl} (hc : c ∈ u.classes) (hd : d ∈ u.classes)
    (hname : d.name = c.name) : d = c :=
  List.inj_on_of_nodup_map h.distinct hd hc hname

/-- A simple name is not the qualified name of another class. -/
theorem eq_of_name_eq_qualifiedName {c d : ClassDecl} (hc : c ∈ u.classes) (hd : d ∈ u.classes)
    (hname : d.name = u.qualifiedName c) : d = c := by
  rcases qualifiedName_eq_append u with ⟨front, hfront, hqualified⟩
  rw [hqualified c] at hname
  rcases hfront with rfl | hdot
  · exact h.eq_of_name_eq hc hd (by simpa using hname)
  · refine absurd ?_ (h.undotted d hd)
    rw [hname, String.toList_append]
    exact List.mem_append_left _ hdot

theorem eq_of_qualifiedName_eq {c d : ClassDecl} (hc : c ∈ u.classes) (hd : d ∈ u.classes)
    (hname : u.qualifiedName d = u.qualifiedName c) : d = c := by
  rcases qualifiedName_eq_append u with ⟨front, -, hqualified⟩
  rw [hqualified, hqualified] at hname
  exact h.eq_of_name_eq hc hd (String.append_right_inj front |>.mp hname)

theorem class?_eq {c : ClassDecl} (hc : c ∈ u.classes) {name : String}
    (hname : name ∈ u.namesOf c) : u.class? name = some c := by
  have hnames : name = c.name ∨ name = u.qualifiedName c := by
    simpa [CompilationUnit.namesOf] using hname
  have honly : ∀ d ∈ u.classes, d.name = name ∨ u.qualifiedName d = name → d = c := by
    intro d hd hdname
    rcases hnames with rfl | rfl
    · rcases hdname with hdname | hdname
      · exact h.eq_of_name_eq hc hd hdname
      · exact (h.eq_of_name_eq_qualifiedName hd hc hdname.symm).symm
    · rcases hdname with hdname | hdname
      · exact h.eq_of_name_eq_qualifiedName hc hd hdname
      · exact h.eq_of_qualifiedName_eq hc hd hdname
  cases hfound : u.class? name with
  | none =>
      have hnot := List.find?_eq_none.mp hfound c hc
      rcases hnames with rfl | rfl <;> simp at hnot
  | some d =>
      have hd : d.name = name ∨ u.qualifiedName d = name := by
        simpa using List.find?_some hfound
      rw [honly d (List.mem_of_find?_eq_some hfound) hd]

end PlainlyNamed
end Code

namespace Eval

open Code
open Trace (Throwable)

/-! ## Changes that leave a slot alone -/

namespace State

/-- A state is reached from another one without a write to a field of a class.  Variables,
frames, the heap and the recorder may change, classes may be put to use, and other fields may
be written. -/
inductive Onward (cls name : String) (s : State) : State → Prop
  | refl : Onward cls name s s
  | aside {s₁ s₂ : State} : Onward cls name s s₁ → s₂.fields = s₁.fields → Onward cls name s s₂
  | openClass {s₁ : State} {key : String} :
      Onward cls name s s₁ → s₁.hasClass key = false → Onward cls name s (s₁.openClass key)
  | setField {s₁ : State} {key member : String} (value : Value) :
      Onward cls name s s₁ → ¬(key = cls ∧ member = name) →
      Onward cls name s (s₁.setField key member value)

namespace Onward

variable {cls name : String} {s s' s'' : State}

theorem of_fields (h : s'.fields = s.fields) : s.Onward cls name s' :=
  .aside .refl h

theorem trans (h : s.Onward cls name s') (h' : s'.Onward cls name s'') :
    s.Onward cls name s'' := by
  induction h' with
  | refl => exact h
  | aside _ hfields ih => exact .aside ih hfields
  | openClass _ hnew ih => exact .openClass ih hnew
  | setField value _ hother ih => exact .setField value ih hother

theorem hasClass (h : s.Onward cls name s') {key : String} (hs : s.hasClass key = true) :
    s'.hasClass key = true := by
  induction h with
  | refl => exact hs
  | aside _ hfields ih =>
      unfold State.hasClass at ih ⊢
      rw [hfields]
      exact ih
  | openClass _ _ ih => rw [hasClass_openClass, ih, Bool.or_true]
  | setField _ _ _ ih => rw [hasClass_setField, ih, Bool.or_true]

theorem field? (h : s.Onward cls name s') : s'.field? cls name = s.field? cls name := by
  induction h with
  | refl => rfl
  | aside _ hfields ih =>
      rw [← ih]
      unfold State.field?
      rw [hfields]
  | @openClass s₁ key _ hnew ih =>
      rw [← ih]
      unfold State.field? State.openClass
      rw [Bindings.get?_insert]
      by_cases hkey : cls = key
      · subst hkey
        have hnone : s₁.fields.get? cls = none := by
          simpa [State.hasClass, Bindings.contains] using hnew
        rw [if_pos rfl, hnone]
        rfl
      · rw [if_neg hkey]
  | setField value _ hother ih =>
      rw [← ih, field?_setField, if_neg fun heq => hother ⟨heq.1.symm, heq.2.symm⟩]

end Onward

theorem fields_popFrame (s : State) : s.popFrame.fields = s.fields := by
  unfold State.popFrame
  split <;> rfl

end State

/-- Once its class is in use, nothing writes the slot. -/
def Spared (cls name : String) (s s' : State) : Prop :=
  s.hasClass cls = true → s.Onward cls name s'

section

variable {α : Type} {cls name : String}

theorem Spared.of_fields {s s' : State} (h : s'.fields = s.fields) : Spared cls name s s' :=
  fun _ => .of_fields h

theorem framing_spared (cls name : String) : Framing (Spared cls name) where
  refl _ _ := .refl
  trans h h' hs := (h hs).trans (h' ((h hs).hasClass hs))
  popScope {s s'} h hs := by
    have hpush : s.Onward cls name s.pushScope := .of_fields rfl
    exact (hpush.trans (h hs)).trans (.of_fields rfl)
  recorder _ _ := .of_fields rfl

theorem Keeps.spared_inFrame {x : Action α} (hx : Keeps (Spared cls name) x) (frame : Frame) :
    Keeps (Spared cls name) (Action.inFrame frame x) :=
  fun s => (hx (s.pushFrame frame)).mapState fun s' h hs => by
    have hpush : s.Onward cls name (s.pushFrame frame) := .of_fields rfl
    exact (hpush.trans (h hs)).trans (.of_fields s'.fields_popFrame)

theorem keeps_setField_spared {key member : String} (value : Value)
    (hother : ¬(key = cls ∧ member = name)) :
    Keeps (Spared cls name) (Action.modify fun s => s.setField key member value) :=
  fun _ _ => .setField value .refl hother

theorem keeps_openNew_spared (key : String) : Keeps (Spared cls name) (Action.openNew key) := by
  intro s
  unfold Action.openNew
  cases hnew : s.hasClass key with
  | true => exact fun _ => .refl
  | false => exact fun _ => .openClass .refl hnew

end

/-! ## Evaluation that stops at a write to a slot -/

section

variable (write : Place → Value → Action Unit) (p : Program) (r : Evaluator)

def assignBy (op : AssignOp) (target value : Expr) : Action Value := do
  let place ← resolvePlace p r target
  let result ←
    match op.arithmetic? with
    | none => r.eval value
    | some arithmetic => do
        let current ← place.read
        let operand ← r.eval value
        applyBinary arithmetic current operand
  write place result
  return result

def stepBy (op : UnaryOp) (target : Expr) : Action Value := do
  let place ← resolvePlace p r target
  match ← place.read with
  | .int n =>
      write place (.int (stepped op n))
      return .int (stepResult op n (stepped op n))
  | other => .fail (.typeMismatch "increment" "int" other.typeName)

theorem evalAssign_eq_assignBy : evalAssign p r = assignBy Place.write p r :=
  rfl

theorem evalStepping_eq_stepBy : evalStepping p r = stepBy Place.write p r :=
  rfl

end

/-- Work that does what other work does, unless it stops with a fault. -/
def StopsShort (fault : Fault) {α : Type} (x y : Action α) : Prop :=
  ∀ s, x s = y s ∨ ∃ s', x s = .fault fault s'

namespace StopsShort

variable {α β : Type} {fault : Fault}

theorem refl (x : Action α) : StopsShort fault x x :=
  fun _ => .inl rfl

theorem trans {x y z : Action α} (hxy : StopsShort fault x y) (hyz : StopsShort fault y z) :
    StopsShort fault x z := by
  intro s
  rcases hxy s with h | h
  · rw [h]
    exact hyz s
  · exact .inr h

theorem andThen {x y : Action α} {f f' : α → Action β} {g g' : Throwable → Action β}
    (hx : StopsShort fault x y) (hf : ∀ a, StopsShort fault (f a) (f' a))
    (hg : ∀ t, StopsShort fault (g t) (g' t)) :
    StopsShort fault (x.andThen f g) (y.andThen f' g') := by
  intro s
  show (x s).andThen f g = (y s).andThen f' g' ∨ ∃ s', (x s).andThen f g = .fault fault s'
  rcases hx s with h | ⟨s', h⟩
  · rw [h]
    cases y s with
    | done a t => exact hf a t
    | thrown t t' => exact hg t t'
    | fault _ _ | exhausted => exact .inl rfl
  · rw [h]
    exact .inr ⟨s', rfl⟩

theorem bind {x y : Action α} {f f' : α → Action β} (hx : StopsShort fault x y)
    (hf : ∀ a, StopsShort fault (f a) (f' a)) : StopsShort fault (x >>= f) (y >>= f') := by
  rw [Action.bind_eq_andThen, Action.bind_eq_andThen]
  exact hx.andThen hf fun t => .refl _

theorem mapState {o o' : Outcome α} (f : State → State)
    (ho : o = o' ∨ ∃ s, o = .fault fault s) :
    o.mapState f = o'.mapState f ∨ ∃ s, o.mapState f = .fault fault s := by
  rcases ho with rfl | ⟨s, rfl⟩
  · exact .inl rfl
  · exact .inr ⟨f s, rfl⟩

theorem closed (fault : Fault) :
    ClosedStmt (ι := Bool) fun x => StopsShort fault (x false) (x true) where
  look _ := .refl _
  raise _ := .refl _
  fail _ := .refl _
  exhausted := .refl _
  andThen := .andThen
  inScope hx := fun s => mapState _ (hx s.pushScope)
  inFrame frame hx := fun s => mapState _ (hx (s.pushFrame frame))
  declare _ _ := .refl _
  assign _ _ := .refl _
  setField _ _ _ := .refl _
  openNew _ := .refl _
  invoking _ _ := .refl _
  advance _ := .refl _

end StopsShort

section

variable {write write' : Place → Value → Action Unit} {fault : Fault} (p : Program)
variable (r : Evaluator) (h : ∀ place value, StopsShort fault (write place value) (write' place value))

include h

theorem assignBy_stopsShort (op : AssignOp) (target value : Expr) :
    StopsShort fault (assignBy write p r op target value)
      (assignBy write' p r op target value) := by
  have hwrite : ∀ place result, StopsShort fault (write place result >>= fun _ => pure result)
      (write' place result >>= fun _ => pure result) :=
    fun place result => (h place result).bind fun _ => .refl _
  unfold assignBy
  refine (StopsShort.refl _).bind fun place => ?_
  cases op.arithmetic? with
  | none => exact (StopsShort.refl _).bind (hwrite place)
  | some arithmetic =>
      exact (StopsShort.refl _).bind fun current => (StopsShort.refl _).bind fun operand =>
        (StopsShort.refl _).bind (hwrite place)

theorem stepBy_stopsShort (op : UnaryOp) (target : Expr) :
    StopsShort fault (stepBy write p r op target) (stepBy write' p r op target) := by
  refine (StopsShort.refl _).bind fun place => (StopsShort.refl _).bind fun current => ?_
  cases current with
  | int n => exact (h place _).bind fun _ => .refl _
  | null | bool _ | str _ | array _ | object _ | throwable _ => exact .refl _

end

def slotFault (cls name : String) : Fault :=
  .invalidTarget (cls ++ "." ++ name)

def Place.writeBeside (cls name : String) (place : Place) (value : Value) : Action Unit :=
  if place = .field cls name then .fail (slotFault cls name) else place.write value

theorem writeBeside_stopsShort (cls name : String) (place : Place) (value : Value) :
    StopsShort (slotFault cls name) (place.writeBeside cls name value) (place.write value) := by
  unfold Place.writeBeside
  split
  · exact fun s => .inr ⟨s, rfl⟩
  · exact .refl _

theorem keeps_writeBeside (cls name : String) (place : Place) (value : Value) :
    Keeps (Spared cls name) (place.writeBeside cls name value) := by
  unfold Place.writeBeside
  split
  · exact (framing_spared cls name).core.fail _
  · rename_i hplace
    cases place with
    | named variableName => exact (framing_spared cls name).assign fun _ _ _ => .of_fields rfl
    | field key member =>
        exact keeps_setField_spared value fun heq => hplace (by rw [heq.1, heq.2])
    | element address index => exact fun _ => .of_fields rfl

namespace Program

/-- The rules of a program, but for assignments and increments of a field of a class, which stop
where they would write it. -/
def sparing (p : Program) (cls name : String) : Rules where
  eval r e :=
    match e with
    | .assign op target value => assignBy (Place.writeBeside cls name) p r op target value
    | .unary op operand =>
        if op.isMutating then stepBy (Place.writeBeside cls name) p r op operand
        else evalStep p r e
    | e => evalStep p r e
  exec := execStep
  round := loopRound

variable (p : Program) (cls name : String)

theorem sparing_eval_of_still (r : Evaluator) {e : Expr} (hstill : e.changesHeap = false) :
    (p.sparing cls name).eval r e = evalStep p r e := by
  cases e with
  | assign op target value => exact absurd hstill (by simp [Expr.changesHeap])
  | unary op operand =>
      have hop : op.isMutating = false := hstill
      show (if op.isMutating then _ else _) = _
      rw [hop]
      rfl
  | lit _ | name _ | self | field _ _ | index _ _ | binary _ _ _ | conditional _ _ _
  | call _ _ _ | new _ _ | newArray _ _ | superCall _ | selfCall _ => rfl

theorem sparing_eval_stopsShort (r : Evaluator) (e : Expr) :
    StopsShort (slotFault cls name) ((p.sparing cls name).eval r e) (evalStep p r e) := by
  by_cases hstill : e.changesHeap = false
  · rw [p.sparing_eval_of_still cls name r hstill]
    exact .refl _
  cases e with
  | assign op target value =>
      show StopsShort _ _ (evalAssign p r op target value)
      rw [evalAssign_eq_assignBy]
      exact assignBy_stopsShort p r (writeBeside_stopsShort cls name) op target value
  | unary op operand =>
      cases op with
      | neg | not => exact absurd rfl hstill
      | preInc | preDec | postInc | postDec =>
          show StopsShort _ _ (evalStepping p r _ operand)
          rw [evalStepping_eq_stepBy]
          exact stepBy_stopsShort p r (writeBeside_stopsShort cls name) _ operand
  | newArray _ _ => exact .refl _
  | lit _ | name _ | self | field _ _ | index _ _ | binary _ _ _ | conditional _ _ _
  | call _ _ _ | new _ _ | superCall _ | selfCall _ => exact absurd rfl hstill

/-- Evaluation that stops at a write to the slot is evaluation up to that write. -/
theorem sparing_stopsShort (n : Nat) :
    Evaluator.Has (ι := Bool) (fun x => StopsShort (slotFault cls name) (x false) (x true))
      fun whole => if whole then p.evaluator n else (p.sparing cls name).within n :=
  p.has_of_eval (StopsShort.closed _) .refl .trans rfl rfl (p.sparing_eval_stopsShort cls name) n

end Program

abbrev Evaluator.Sparing (cls name : String) (r : Evaluator) : Prop :=
  Evaluator.Has (ι := Unit) (fun x => Keeps (Spared cls name) (x ())) fun _ => r

namespace Evaluator.Sparing

variable {cls name : String} {r : Evaluator} (h : r.Sparing cls name)

include h

theorem initializeFields {key : String} (hkey : key ≠ cls) (fields : List FieldDecl) :
    Keeps (Spared cls name) (Eval.initializeFields r key fields) := by
  have hframing := framing_spared cls name
  induction fields with
  | nil => exact hframing.pure ()
  | cons f fields ih =>
      have hinit : Keeps (Spared cls name) (r.evalInit f.type f.init) :=
        hframing.core.evalInit (r := fun _ => r) (fun e _ => h.eval e) f.type
      have hwrite : ∀ value, Keeps (Spared cls name)
          (Action.modify fun s => s.setField key f.name value) :=
        fun value => keeps_setField_spared value fun heq => hkey heq.1
      exact hframing.bind hinit fun value => hframing.bind (hwrite value) fun _ => ih

theorem useClass (c : ClassDecl) : Keeps (Spared cls name) (Eval.useClass r c) := by
  have hframing := framing_spared cls name
  by_cases hc : c.name = cls
  · intro s
    by_cases hs : s.hasClass cls = true
    · rw [useClass_of_hasClass r (by rw [hc]; exact hs)]
      exact hframing.refl s
    · exact .of_forall (fun _ hin => absurd hin hs) _
  · rw [useClass_eq]
    refine hframing.bind (keeps_openNew_spared c.name) fun isNew => ?_
    cases isNew with
    | false => exact hframing.pure ()
    | true => exact (h.initializeFields hc c.fields).spared_inFrame _

theorem callees (p : Program) :
    Callees (ι := Unit) (fun x => Keeps (Spared cls name) (x ())) p (fun _ => .own)
      fun _ => r := by
  have hframing := framing_spared cls name
  refine hframing.callees p h.useClass fun frame body => ?_
  have hbody : Keeps (Spared cls name) (r.execAll body) :=
    hframing.core.execAll (r := fun _ => r) fun s _ => h.exec s
  exact hbody.spared_inFrame frame

theorem resolvePlace (p : Program) (target : Expr) :
    Keeps (Spared cls name) (Eval.resolvePlace p r target) := by
  have hplace := (framing_spared cls name).core.resolvePlace (h.callees p)
    fun e (_ : e ∈ target.placeOperands) => h.eval e
  simpa only [Program.withBodies_own] using hplace

theorem assignBeside (p : Program) (op : AssignOp) (target value : Expr) :
    Keeps (Spared cls name) (assignBy (Place.writeBeside cls name) p r op target value) := by
  have hframing := framing_spared cls name
  have hwrite : ∀ place result, Keeps (Spared cls name)
      (Place.writeBeside cls name place result >>= fun _ => pure result) :=
    fun place result => hframing.bind (keeps_writeBeside cls name place result)
      fun _ => hframing.pure result
  unfold assignBy
  refine hframing.bind (h.resolvePlace p target) fun place => ?_
  cases op.arithmetic? with
  | none => exact hframing.bind (h.eval value) (hwrite place)
  | some arithmetic =>
      exact hframing.bind (hframing.core.readPlace place) fun current =>
        hframing.bind (h.eval value) fun operand =>
          hframing.bind (hframing.core.applyBinary arithmetic current operand) (hwrite place)

theorem stepBeside (p : Program) (op : UnaryOp) (target : Expr) :
    Keeps (Spared cls name) (stepBy (Place.writeBeside cls name) p r op target) := by
  have hframing := framing_spared cls name
  unfold stepBy
  refine hframing.bind (h.resolvePlace p target) fun place =>
    hframing.bind (hframing.core.readPlace place) fun current => ?_
  cases current with
  | int n =>
      exact hframing.bind (keeps_writeBeside cls name place _) fun _ => hframing.pure _
  | null | bool _ | str _ | array _ | object _ | throwable _ => exact hframing.core.fail _

theorem makeArray (elements : List Expr) : Keeps (Spared cls name) (Eval.makeArray r elements) := by
  have hframing := framing_spared cls name
  rw [makeArray_eq]
  exact hframing.bind (hframing.core.evalAll (r := fun _ => r) fun e _ => h.eval e)
    fun items s => .of_fields rfl

theorem evalStill (p : Program) {e : Expr} (hstill : e.changesHeap = false) :
    Keeps (Spared cls name) ((p.sparing cls name).eval r e) := by
  have hframing := framing_spared cls name
  rw [p.sparing_eval_of_still cls name r hstill]
  have hstep := hframing.core.evalStep_of_still (h.callees p) hstill (fun e' _ => h.eval e')
    fun hook args _ => hframing.evalHook h.eval hook args
  simpa only [Program.withBodies_own] using hstep

theorem evalStep (p : Program) (e : Expr) :
    Keeps (Spared cls name) ((p.sparing cls name).eval r e) := by
  by_cases hstill : e.changesHeap = false
  · exact h.evalStill p hstill
  cases e with
  | assign op target value => exact h.assignBeside p op target value
  | unary op operand =>
      cases op with
      | neg | not => exact absurd rfl hstill
      | preInc | preDec | postInc | postDec => exact h.stepBeside p _ operand
  | newArray _ elements => exact h.makeArray elements
  | lit _ | name _ | self | field _ _ | index _ _ | binary _ _ _ | conditional _ _ _
  | call _ _ _ | new _ _ | superCall _ | selfCall _ => exact absurd rfl hstill

end Evaluator.Sparing

theorem closedStmt_spared (cls name : String) :
    ClosedStmtCore (ι := Unit) fun x => Keeps (Spared cls name) (x ()) where
  toClosedCore := (framing_spared cls name).core
  declare _ _ _ := .of_fields rfl

namespace Program

variable (p : Program) (cls name : String)

theorem sparing_within (n : Nat) : ((p.sparing cls name).within n).Sparing cls name := by
  have hstmt := closedStmt_spared cls name
  induction n with
  | zero => exact ⟨fun _ _ => trivial, fun _ _ => trivial, fun _ _ _ => trivial⟩
  | succ n ih =>
      refine ⟨fun e => ih.evalStep p e, fun s => ?_, fun label loop => ?_⟩
      · exact hstmt.execStep (r := fun _ => (p.sparing cls name).within n) (fun e _ => ih.eval e)
          (fun t _ => ih.exec t) fun loop _ label => ih.iterate label loop
      · exact hstmt.loopRound (r := fun _ => (p.sparing cls name).within n)
          (g := fun _ => ((p.sparing cls name).within n).iterate label loop)
          (fun e _ => ih.eval e) (ih.exec loop.body) (ih.iterate label loop)

def callSparing (steps : Nat) (key method : String) (args : List Value) : Action Value := do
  let c ← p.findClass key
  invoke ((p.sparing cls name).within steps) c method args

theorem callSparing_stopsShort (steps : Nat) (key method : String) (args : List Value) :
    StopsShort (slotFault cls name) (p.callSparing cls name steps key method args)
      (p.call steps key method args) := by
  have hclosed := StopsShort.closed (slotFault cls name)
  have h := hclosed.call (hclosed.callees (p.sparing_stopsShort cls name steps) p) key method args
  simp only [withBodies_own] at h
  exact h

theorem callSparing_keeps (steps : Nat) (key method : String) (args : List Value) :
    Keeps (Spared cls name) (p.callSparing cls name steps key method args) :=
  (framing_spared cls name).call ((p.sparing_within cls name steps).callees p) key method args

end Program

/-! ## Forms -/

section

variable (p : Program) (r : Evaluator) (c : ClassDecl) (name : String) (texts : List String)

/-- A target is a way to name a field of a class: the name itself or a field of `this` in a
method of the class, a field of a name of the class that no variable hides, or a field of what
evaluates to an object with one of the given class texts.  The second state is the one in which
the slot is looked up. -/
inductive Addresses : Expr → State → State → Prop
  | bare {s : State} : s.frame.cls = c.name → s.frame.lookup? name = none →
      Addresses (.name name) s s
  | own {s : State} : s.frame.cls = c.name → Addresses (.field .self name) s s
  | className {s : State} {ident : String} : ident ∈ p.unit.namesOf c →
      s.frame.lookup? ident = none → Addresses (.field (.name ident) name) s s
  | object {s s' : State} {owner : Expr} {text : String} :
      s.view.owner p owner = .value owner → r.eval owner s = .done (.object text) s' →
      text ∈ texts → Addresses (.field owner name) s s'

end

inductive WritesTo (target : Expr) : Expr → Prop
  | assign (op : AssignOp) (value : Expr) : WritesTo target (.assign op target value)
  | step (op : UnaryOp) : op.isMutating = true → WritesTo target (.unary op target)

/-- The value that an assignment or increment has written, given its result. -/
def writtenValue (e : Expr) (result : Value) : Value :=
  match e, result with
  | .unary op _, .int n => if op.isPostfix then .int (stepped op n) else .int n
  | _, result => result

section

variable {p : Program} {r : Evaluator} {c : ClassDecl} {name : String} {target : Expr}
variable {s s' s₁ : State}

theorem owner_className (h : (p.unit.class? name).isSome = true)
    (hvisible : s.frame.lookup? name = none) :
    s.view.owner p (.name name) = .namedClass name := by
  have hlookup : s.view.lookup name = none := hvisible
  show (if (s.view.lookup name).isNone && (p.unit.class? name).isSome then _ else _) = _
  rw [hlookup, h]
  rfl

/-! ### Writing -/

theorem ownerClass_apply (owner : Expr) :
    ownerClass p r owner name s =
      (match s.view.owner p owner with
      | .ownClass => Action.look fun v => v.cls
      | .namedClass key => p.findClass key >>= fun c => pure c.name
      | .value e => r.eval e >>= fun value =>
          match value with
          | .object key => pure key
          | value => .fail (.invalidTarget ("field '" ++ name ++ "' of " ++ value.typeName)) :
        Action String) s := by
  rw [ownerClass_eq, ownerOf_eq]
  rfl

theorem Addresses.place_eq (hu : PlainlyNamed p.unit) (hc : c ∈ p.unit.classes)
    (h : Addresses p r c name [c.name] target s s') {place : Place}
    (hplace : resolvePlace p r target s = .done place s₁) : place = .field c.name name := by
  have hfield : ∀ owner, resolvePlace p r (.field owner name) s = .done place s₁ →
      ∃ key s₂, ownerClass p r owner name s = .done key s₂ ∧ place = .field key name := by
    intro owner hplace
    rcases Action.of_bind_eq_done hplace with ⟨key, s₂, howner, hplace⟩
    rcases Action.of_bind_eq_done hplace with ⟨_, _, _, hplace⟩
    rcases Action.of_bind_eq_done hplace with ⟨_, _, _, hplace⟩
    cases hplace
    exact ⟨key, s₂, howner, rfl⟩
  cases h with
  | bare hcls hvisible =>
      change resolveName name s = _ at hplace
      rw [resolveName_eq] at hplace
      change Action.orFail _ (s.view.namedPlace? name) s = _ at hplace
      have hlookup : s.view.lookup name = none := hvisible
      unfold View.namedPlace? at hplace
      rw [hlookup, if_neg (by simp)] at hplace
      split at hplace
      · cases hplace
        rw [← hcls]
        rfl
      · cases hplace
  | own hcls =>
      rcases hfield _ hplace with ⟨key, s₂, howner, rfl⟩
      rw [ownerClass_apply] at howner
      cases howner
      rw [← hcls]
      rfl
  | @className _ ident hident hvisible =>
      have hfound := hu.class?_eq hc hident
      rcases hfield _ hplace with ⟨key, s₂, howner, rfl⟩
      rw [ownerClass_apply, owner_className (by rw [hfound]; rfl) hvisible] at howner
      change (p.findClass ident >>= fun c => pure c.name) s = _ at howner
      rw [Action.bind_of_eq_done (findClass_of_class? p hfound s)] at howner
      cases howner
      rfl
  | @object _ _ owner text howner heval htext =>
      rcases hfield _ hplace with ⟨key, s₂, hkey, rfl⟩
      rw [ownerClass_apply, howner] at hkey
      change (r.eval owner >>= _) s = _ at hkey
      rw [Action.bind_of_eq_done heval] at hkey
      cases hkey
      rw [List.mem_singleton.mp htext]

theorem evalAssign_done {op : AssignOp} {value : Expr} {v : Value}
    (h : evalAssign p r op target value s = .done v s₁) :
    ∃ place s₂ s₃, resolvePlace p r target s = .done place s₂ ∧
      place.write v s₃ = .done () s₁ := by
  unfold evalAssign at h
  rcases Action.of_bind_eq_done h with ⟨place, s₂, hplace, h⟩
  have hwrite : ∀ {result : Value} {s₃ : State},
      (place.write result >>= fun _ => (pure result : Action Value)) s₃ = .done v s₁ →
        place.write v s₃ = .done () s₁ := by
    intro result s₃ h
    rcases Action.of_bind_eq_done h with ⟨⟨⟩, _, hwritten, h⟩
    cases h
    exact hwritten
  cases hop : op.arithmetic? with
  | none =>
      simp only [hop] at h
      rcases Action.of_bind_eq_done h with ⟨_, s₃, _, h⟩
      exact ⟨place, s₂, s₃, hplace, hwrite h⟩
  | some arithmetic =>
      simp only [hop] at h
      rcases Action.of_bind_eq_done h with ⟨_, _, _, h⟩
      rcases Action.of_bind_eq_done h with ⟨_, _, _, h⟩
      rcases Action.of_bind_eq_done h with ⟨_, s₃, _, h⟩
      exact ⟨place, s₂, s₃, hplace, hwrite h⟩

theorem evalStepping_done {op : UnaryOp} {v : Value}
    (h : evalStepping p r op target s = .done v s₁) :
    ∃ place s₂ s₃, resolvePlace p r target s = .done place s₂ ∧
      place.write (writtenValue (.unary op target) v) s₃ = .done () s₁ := by
  unfold evalStepping at h
  rcases Action.of_bind_eq_done h with ⟨place, s₂, hplace, h⟩
  rcases Action.of_bind_eq_done h with ⟨current, s₃, _, h⟩
  cases current with
  | int n =>
      rcases Action.of_bind_eq_done h with ⟨⟨⟩, _, hwritten, h⟩
      cases h
      have hvalue : writtenValue (.unary op target) (.int (stepResult op n (stepped op n))) =
          .int (stepped op n) := by
        cases hop : op.isPostfix <;> simp [writtenValue, stepResult, hop]
      exact ⟨place, s₂, s₃, hplace, by rw [hvalue]; exact hwritten⟩
  | null | bool _ | str _ | array _ | object _ | throwable _ => exact absurd h (by simp [Action.fail])

theorem Addresses.written (hu : PlainlyNamed p.unit) (hc : c ∈ p.unit.classes)
    (h : Addresses p r c name [c.name] target s s') {e : Expr} (he : WritesTo target e) {v : Value}
    (hdone : evalStep p r e s = .done v s₁) :
    s₁.field? c.name name = some (writtenValue e v) := by
  have hwritten : ∃ place s₂ s₃, resolvePlace p r target s = .done place s₂ ∧
      place.write (writtenValue e v) s₃ = .done () s₁ := by
    cases he with
    | assign op value => exact evalAssign_done hdone
    | step op hop =>
        cases op with
        | neg | not => exact absurd hop (by simp [UnaryOp.isMutating])
        | preInc | preDec | postInc | postDec => exact evalStepping_done hdone
  rcases hwritten with ⟨place, s₂, s₃, hplace, hwrite⟩
  rw [h.place_eq hu hc hplace] at hwrite
  cases hwrite
  simp [State.field?_setField]

/-! ### Reading -/

theorem readMember_apply (owner : Expr) :
    readMember p r owner name s =
      (match s.view.owner p owner with
      | .ownClass => Action.look (fun v => v.cls) >>= fun key => readField p r key name
      | .namedClass key => readField p r key name
      | .value e => r.eval e >>= memberOf p r name) s := by
  rw [readMember_eq, ownerOf_eq]
  rfl

theorem Addresses.read (hu : PlainlyNamed p.unit) (hc : c ∈ p.unit.classes)
    (h : Addresses p r c name (p.unit.namesOf c) target s s') {v : Value}
    (hv : s'.field? c.name name = some v) :
    evalStep p r target s = .done v s' := by
  have hown : p.unit.class? c.name = some c := hu.class?_eq hc List.mem_cons_self
  cases h with
  | bare hcls hvisible =>
      have hread : (s.view.lookup name).or (s.view.field? s.view.cls name) = some v := by
        show (s.frame.lookup? name).or (s.field? s.frame.cls name) = some v
        rw [hvisible, hcls, hv]
        rfl
      show readName name s = _
      rw [readName_eq]
      show Action.orFail _ ((s.view.lookup name).or (s.view.field? s.view.cls name)) s = _
      rw [hread]
      rfl
  | own hcls =>
      show readField p r s.frame.cls name s = _
      rw [hcls]
      exact readField_of_field? p r hown hv
  | @className _ ident hident hvisible =>
      have hfound := hu.class?_eq hc hident
      show readMember p r (.name ident) name s = _
      rw [readMember_apply, owner_className (by rw [hfound]; rfl) hvisible]
      exact readField_of_field? p r hfound hv
  | @object _ _ owner text howner heval htext =>
      show readMember p r owner name s = _
      rw [readMember_apply, howner]
      show (r.eval owner >>= memberOf p r name) s = _
      rw [Action.bind_of_eq_done heval]
      exact readField_of_field? p r (hu.class?_eq hc htext) hv

end

/-! ## The last write -/

/-- Work that does what other work does up to the next write of the slot: either it comes to
the same end, or it stops where the slot would be written.  Nothing writes the slot before. -/
def RunsToWrite {α : Type} (cls name : String) (x y : Action α) : Prop :=
  ∀ s, s.hasClass cls = true →
    x s = y s ∧ (y s).Leaves (s.Onward cls name) ∨
      ∃ s', x s = .fault (slotFault cls name) s' ∧ s.Onward cls name s'

theorem RunsToWrite.of_keeps {α : Type} {cls name : String} {x y : Action α}
    (h : StopsShort (slotFault cls name) x y) (hx : Keeps (Spared cls name) x) :
    RunsToWrite cls name x y := by
  intro s hs
  have hleaves : (x s).Leaves (s.Onward cls name) := (hx s).mono fun _ hspared => hspared hs
  rcases h s with hsame | ⟨s', hstop⟩
  · rw [hsame] at hleaves
    exact .inl ⟨hsame, hleaves⟩
  · rw [hstop] at hleaves
    exact .inr ⟨s', hstop, hleaves⟩

/-- What is written to a field of a class through one form is read through every form until the
next write to it; an object that carries the qualified name of its class is a form for reading
only.  Expressions, statements and calls leave the field as it is up to the point where they
write it. -/
theorem field_forms_share_slot {p : Program} (hu : PlainlyNamed p.unit) {c : ClassDecl}
    (hc : c ∈ p.unit.classes) (name : String) (steps : Nat) :
    (∀ {target e s s₀ v s₁}, Addresses p (p.evaluator steps) c name [c.name] target s s₀ →
      WritesTo target e → (p.evaluator (steps + 1)).eval e s = .done v s₁ →
      s₁.hasClass c.name = true ∧
      ∀ {steps' target' s₂ s₃},
        Addresses p (p.evaluator steps') c name (p.unit.namesOf c) target' s₂ s₃ →
        s₁.Onward c.name name s₃ →
        (p.evaluator (steps' + 1)).eval target' s₂ = .done (writtenValue e v) s₃) ∧
    (∀ e, RunsToWrite c.name name (((p.sparing c.name name).within steps).eval e)
      ((p.evaluator steps).eval e)) ∧
    (∀ stmt, RunsToWrite c.name name (((p.sparing c.name name).within steps).exec stmt)
      ((p.evaluator steps).exec stmt)) ∧
    ∀ cls method args, RunsToWrite c.name name (p.callSparing c.name name steps cls method args)
      (p.call steps cls method args) := by
  have hstops := p.sparing_stopsShort c.name name steps
  have hkeeps := p.sparing_within c.name name steps
  refine ⟨fun hwrite he hdone => ?_, fun e => .of_keeps (hstops.eval e) (hkeeps.eval e),
    fun stmt => .of_keeps (hstops.exec stmt) (hkeeps.exec stmt),
    fun cls method args => .of_keeps (p.callSparing_stopsShort c.name name steps cls method args)
      (p.callSparing_keeps c.name name steps cls method args)⟩
  have hvalue := hwrite.written hu hc he hdone
  exact ⟨State.hasClass_of_field? hvalue, fun hread honward =>
    hread.read hu hc (honward.field?.trans hvalue)⟩

def accountClass : ClassDecl where
  name := "Account"
  annotations := []
  fields := [{ name := "balance", type := "int", isStatic := true, init := some (.lit (.int 5)) }]
  methods :=
    [{ name := "settle", kind := .method, annotations := [], isStatic := true
       params := [⟨"account", "Account"⟩], returnType := some "int"
       body := some
        [.expr (.assign .plain (.field (.name "account") "balance") (.lit (.int 1))),
         .ret (some (.field (.name "Account") "balance"))] }]

def tellerClass : ClassDecl where
  name := "Teller"
  annotations := []
  fields :=
    [{ name := "opening", type := "int", isStatic := true
       init := some (.field (.name "Account") "balance") },
     { name := "served", type := "int", isStatic := true, init := some (.lit (.int 0)) }]
  methods := []

def bankProgram : Program where
  unit := { package := some "bank", classes := [accountClass, tellerClass] }
  runtimeClass := "Runtime"

/-- A method was given an object under the qualified name of its class. -/
def bankState : State where
  frame := ⟨"Teller", [[("account", .object "bank.Account")]]⟩
  callers := []
  fields := []
  heap := #[]
  recorder := .empty

/-- A deposit is followed by a change of another field, by a class that reads the balance when
it is put to use, and is seen through the object. -/
theorem field_forms_share_slot_bank :
    PlainlyNamed bankProgram.unit ∧ accountClass ∈ bankProgram.unit.classes ∧
    ∃ s₁ s₂, (bankProgram.evaluator 9).eval
        (.assign .add (.field (.name "bank.Account") "balance") (.lit (.int 2))) bankState =
          .done (.int 7) s₁ ∧
      (bankProgram.evaluator 8).exec
        (.expr (.unary .preInc (.field (.name "Teller") "served"))) s₁ = .done .normal s₂ ∧
      s₂.field? "Teller" "opening" = some (.int 7) ∧
      (bankProgram.evaluator 9).eval (.field (.name "account") "balance") s₂ =
        .done (.int 7) s₂ := by
  have hu : PlainlyNamed bankProgram.unit := ⟨by decide, by decide⟩
  have hc : accountClass ∈ bankProgram.unit.classes := List.mem_cons_self
  have hshare := field_forms_share_slot hu hc "balance" 8
  have hdone : (bankProgram.evaluator 9).eval
      (.assign .add (.field (.name "bank.Account") "balance") (.lit (.int 2))) bankState =
        .done (.int 7) _ := rfl
  have hwrite := hshare.1 (.className (by decide) rfl) (.assign .add (.lit (.int 2))) hdone
  -- the statement in between writes another field, so it is not stopped
  rcases hshare.2.2.1 (.expr (.unary .preInc (.field (.name "Teller") "served"))) _ hwrite.1 with
    ⟨-, honward⟩ | ⟨_, hstop, -⟩
  · exact ⟨hu, hc, _, _, hdone, rfl, rfl, hwrite.2 (.object rfl rfl (by decide)) honward⟩
  · exact absurd hstop (by intro hstop; cases hstop)

/-- A write through an object that carries the qualified name of its class is lost: it comes to
an end, and the field is read as if it had not been written. -/
theorem qualified_object_write_lost :
    PlainlyNamed bankProgram.unit ∧ accountClass ∈ bankProgram.unit.classes ∧
    (∃ s₁, Addresses bankProgram (bankProgram.evaluator 8) accountClass "balance"
        (bankProgram.unit.namesOf accountClass) (.field (.name "account") "balance")
        bankState bankState ∧
      (bankProgram.evaluator 9).eval
        (.assign .plain (.field (.name "account") "balance") (.lit (.int 1))) bankState =
          .done (.int 1) s₁ ∧
      (bankProgram.evaluator 9).eval (.field (.name "Account") "balance") s₁ =
        .done (.int 5) s₁ ∧
      (bankProgram.evaluator 9).eval (.field (.name "account") "balance") s₁ =
        .done (.int 5) s₁) ∧
    ∃ s₁, bankProgram.runCall 12 "bank.Account" "settle" [.object "bank.Account"] .initial =
      .done (.int 5) s₁ :=
  ⟨⟨by decide, by decide⟩, List.mem_cons_self,
    ⟨_, .object rfl rfl (by decide), rfl, rfl, rfl⟩, ⟨_, rfl⟩⟩

end Eval
end TraceWeaving
