import TraceWeaving.Proofs.Eval.Growth
import TraceWeaving.Proofs.Weave.Effect

/-!
# Reading written places again

A report of a write reads the written place once more.  Where the place is a variable or a
field of the own class, this succeeds and changes nothing: what an expression has written
can be read after the expression.
-/

namespace TraceWeaving

namespace Code.Expr

/-- Names, and fields of the own object. -/
def isOwnPath : Expr → Bool
  | name _ => true
  | field self _ => true
  | _ => false

end Code.Expr

namespace Code.Stmt

/-- The expressions of a statement whose writes are reported.  No report follows a `throw`,
and a returned expression is moved to where it has one if the method returns a value. -/
def reportedExprs (valued : Bool) : Stmt → List Expr
  | raise _ => []
  | ret value => if valued then value.toList else []
  | s => s.ownExprs

theorem reportedExprs_head (valued : Bool) (s : Stmt) :
    s.head.reportedExprs valued = s.reportedExprs valued := by
  cases s <;> rfl

theorem reportedExprs_of_head {valued : Bool} {s t : Stmt} (h : t.head = s.head) :
    t.reportedExprs valued = s.reportedExprs valued := by
  rw [← t.reportedExprs_head, h, s.reportedExprs_head]

theorem reportedExprs_of_loop? {valued : Bool} {s : Stmt} {loop : Eval.Loop}
    (hl : loop ∈ s.loop?) : s.reportedExprs valued = s.ownExprs := by
  cases s <;> first | rfl | exact nomatch hl

end Code.Stmt

namespace Eval

open Code
open Weave (Write writesIn writesInPlace writesInReceiver writesInAll writeTo? isStablePath)

variable {α β : Type}

def OwnNamed (p : Program) (cls : String) : Prop :=
  ∃ c, p.unit.class? cls = some c ∧ c.name = cls

/-- The value of an own path.  A variable hides a field of the same name. -/
def State.valueAt? (s : State) : Expr → Option Value
  | .name ident => (s.frame.lookup? ident).or (s.field? s.frame.cls ident)
  | .field .self member => s.field? s.frame.cls member
  | _ => none

def Readable (s : State) (target : Expr) : Prop :=
  (s.valueAt? target).isSome = true

theorem readable_name {s : State} {ident : String} :
    Readable s (.name ident) ↔ s.frame.Sees 0 ident ∨
      (s.field? s.frame.cls ident).isSome = true := by
  rw [Frame.sees_iff, ← Bool.or_eq_true, ← Option.isSome_or]
  rfl

theorem Readable.grown {s s' : State} {target : Expr} (h : Readable s target)
    (hs : s.Grown s') : Readable s' target := by
  cases target with
  | name ident =>
      rw [readable_name] at h ⊢
      rw [hs.cls]
      rcases h with h | h
      · exact .inl (hs.sees 0 ident h)
      · exact .inr (hs.fields _ ident h)
  | field owner member =>
      cases owner with
      | self =>
          show (s'.field? s'.frame.cls member).isSome = true
          rw [hs.cls]
          exact hs.fields _ member h
      | lit _ | name _ | field _ _ | index _ _ | assign _ _ _ | unary _ _ | binary _ _ _
      | conditional _ _ _ | call _ _ _ | new _ _ | newArray _ _ | superCall _ | selfCall _ =>
          exact absurd h Bool.false_ne_true
  | lit _ | self | index _ _ | assign _ _ _ | unary _ _ | binary _ _ _ | conditional _ _ _
  | call _ _ _ | new _ _ | newArray _ _ | superCall _ | selfCall _ => exact absurd h Bool.false_ne_true

theorem Hosts.eval_of_valueAt? {p : Program} {E : Evaluator} (hE : Hosts p E) {s : State}
    (hown : OwnNamed p s.frame.cls) {target : Expr} {v : Value}
    (h : s.valueAt? target = some v) : E.eval target s = .done v s := by
  cases target with
  | name ident =>
      rw [hE.eval_name]
      show Action.orFail _ (s.valueAt? (.name ident)) s = _
      rw [h]
      rfl
  | field owner member =>
      cases owner with
      | self =>
          rcases hown with ⟨c, hc, hname⟩
          rw [hE.eval _ rfl]
          exact readField_of_field? p E hc (by rw [hname]; exact h)
      | lit _ | name _ | field _ _ | index _ _ | assign _ _ _ | unary _ _ | binary _ _ _
      | conditional _ _ _ | call _ _ _ | new _ _ | newArray _ _ | superCall _ | selfCall _ =>
          exact nomatch h
  | lit _ | self | index _ _ | assign _ _ _ | unary _ _ | binary _ _ _ | conditional _ _ _
  | call _ _ _ | new _ _ | newArray _ _ | superCall _ | selfCall _ => exact nomatch h

theorem Hosts.eval_readable {p : Program} {E : Evaluator} (hE : Hosts p E) {s : State}
    (hown : OwnNamed p s.frame.cls) {target : Expr} (h : Readable s target) :
    ∃ v, E.eval target s = .done v s := by
  rcases Option.isSome_iff_exists.mp h with ⟨v, hv⟩
  exact ⟨v, hE.eval_of_valueAt? hown hv⟩

/-! ## What work leaves readable -/

/-- Work after whose normal end the given places can be read. -/
structure Leaves (p : Program) (writes : List Write) (x : Action α) : Prop where
  grows : Grows x
  readable : ∀ {s s' : State} {a : α}, OwnNamed p s.frame.cls → x s = .done a s' →
    ∀ w ∈ writes, Readable s' w.target

namespace Leaves

variable {p : Program} {ws ws' : List Write} {x : Action α}

theorem of_grows (h : Grows x) : Leaves p [] x where
  grows := h
  readable _ _ _ hw := absurd hw List.not_mem_nil

theorem of_within {y : Action α} (hgrows : Grows x) (h : Leaves p ws y) (hx : Within x y) :
    Leaves p ws x where
  grows := hgrows
  readable {s s' a} hown ho := by
    rcases hx s with hs | hs
    · rw [hs] at ho
      exact absurd ho (by simp)
    · exact h.readable hown (hs.symm.trans ho)

theorem bind {f : α → Action β} (hx : Leaves p ws x) (hf : ∀ a, Leaves p ws' (f a)) :
    Leaves p (ws ++ ws') (x >>= f) where
  grows := hx.grows.bind fun a => (hf a).grows
  readable {s s'' b} hown ho w hw := by
    rcases Action.of_bind_eq_done ho with ⟨a, s', hs', hs''⟩
    have hgrown : s.Grown s' := by
      have h := hx.grows s
      rw [hs'] at h
      exact h
    rcases List.mem_append.mp hw with hw | hw
    · have h := (hf a).grows s'
      rw [hs''] at h
      exact (hx.readable hown hs' w hw).grown h
    · exact (hf a).readable (by rw [hgrown.cls]; exact hown) hs'' w hw

theorem andThen {f : α → Action β} (hx : Leaves p ws x) (hf : ∀ a, Grows (f a)) :
    Leaves p ws (x >>= f) := by
  have h := hx.bind fun a => of_grows (hf a)
  rw [List.append_nil] at h
  exact h

theorem lookThen {g : View → β} {f : β → Action α} (h : ∀ v, Leaves p ws (f (g v))) :
    Leaves p ws (Action.look g >>= f) where
  grows s := (h s.view).grows s
  readable {s _ _} hown ho := (h s.view).readable hown ho

theorem behind {y : Action β} {f : β → Action α} (hy : Grows y) (hf : ∀ b, Leaves p ws (f b)) :
    Leaves p ws (y >>= f) :=
  (of_grows hy).bind hf

theorem evalAll {E : Evaluator} {es : List Expr}
    (h : ∀ e ∈ es, Leaves p (writesIn e) (E.eval e)) :
    Leaves p (writesInAll es) (E.evalAll es) := by
  induction es with
  | nil => exact of_grows (Grows.pure _)
  | cons e es ih =>
      have hrest := ih fun e' he' => h e' (List.mem_cons_of_mem e he')
      exact (h e List.mem_cons_self).bind fun _ => hrest.andThen fun _ => Grows.pure _

theorem evalEach {E : Evaluator} {es : List Expr}
    (h : ∀ e ∈ es, Leaves p (writesIn e) (E.eval e)) :
    Leaves p (es.flatMap writesIn) (E.evalEach es) := by
  induction es with
  | nil => exact of_grows (Grows.pure _)
  | cons e es ih =>
      rw [List.flatMap_cons]
      exact (h e List.mem_cons_self).bind fun _ =>
        ih fun e' he' => h e' (List.mem_cons_of_mem e he')

theorem evalBool {E : Evaluator} {e : Expr} (h : Leaves p ws (E.eval e)) (operation : String) :
    Leaves p ws (E.evalBool e operation) :=
  h.andThen fun v => by
    cases v with
    | bool _ => exact Grows.pure _
    | null | int _ | str _ | array _ | object _ | throwable _ => exact Grows.fail _

theorem evalInt {E : Evaluator} {e : Expr} (h : Leaves p ws (E.eval e)) (operation : String) :
    Leaves p ws (E.evalInt e operation) :=
  h.andThen fun v => by
    cases v with
    | int _ => exact Grows.pure _
    | null | bool _ | str _ | array _ | object _ | throwable _ => exact Grows.fail _

theorem evalArray {E : Evaluator} {e : Expr} (h : Leaves p ws (E.eval e)) :
    Leaves p ws (E.evalArray e) :=
  h.andThen fun v => by
    cases v with
    | array _ => exact Grows.pure _
    | null => exact closed_grows.raiseNew _ _
    | int _ | bool _ | str _ | object _ | throwable _ => exact Grows.fail _

theorem locateElement {E : Evaluator} {target position : Expr}
    (ht : Leaves p ws (E.eval target)) (hp : Leaves p ws' (E.eval position)) :
    Leaves p (ws ++ ws') (Eval.locateElement E target position) := by
  rw [locateElement_eq]
  refine ht.evalArray.bind fun address => (hp.evalInt _).andThen fun index => ?_
  have hlook : Grows (Action.look fun v => (v.heap.items address).size) := closed_grows.look _
  have hcheck : ∀ size, Grows (checkIndex index size) := closed_grows.checkIndex index
  exact hlook.bind fun size => (hcheck size).bind fun _ => .pure _

theorem readElement {E : Evaluator} {target position : Expr}
    (ht : Leaves p ws (E.eval target)) (hp : Leaves p ws' (E.eval position)) :
    Leaves p (ws ++ ws') (Eval.readElement E target position) := by
  rw [readElement_eq]
  exact (ht.locateElement hp).andThen fun _ => .look _

end Leaves

/-! ## Expressions -/

section

variable {p : Program} {E : Evaluator} (hE : Hosts p E) (hgrow : E.Growing)

include hgrow

theorem Evaluator.Growing.callees : Callees (ι := Unit) (fun x => Grows (x ())) p (fun _ => .own)
    fun _ => E :=
  closed_grows.callees hgrow p

theorem grows_resolvePlace (target : Expr) : Grows (resolvePlace p E target) := by
  have hplace : ∀ e ∈ target.placeOperands, Grows (E.eval e) := fun e _ => hgrow.eval e
  have h := closed_grows.resolvePlace (hgrow.callees (p := p)) hplace
  rw [Program.withBodies_own] at h
  exact h

omit hgrow in
theorem target_cases {target : Expr} {w : Write} (hw : writeTo? target = some w)
    (hown : w.target.isOwnPath = true) :
    (∃ ident, target = .name ident ∧ w.target = .name ident) ∨
    (∃ member, target = .field .self member ∧ w.target = .field .self member) ∨
    ∃ inner position, target = .index inner position ∧ writeTo? inner = some w := by
  cases target with
  | index inner position => exact .inr (.inr ⟨inner, position, rfl, hw⟩)
  | name ident =>
      obtain rfl : Write.ofPath (.name ident) = w := Option.some.inj hw
      exact .inl ⟨ident, rfl, rfl⟩
  | field owner member =>
      have hpath : w = Write.ofPath (.field owner member) := by
        change (if isStablePath (.field owner member) = true then _ else _) = some w at hw
        split at hw
        · exact (Option.some.inj hw).symm
        · exact absurd hw (by simp)
      subst hpath
      cases owner with
      | self => exact .inr (.inl ⟨member, rfl, rfl⟩)
      | lit _ | name _ | field _ _ | index _ _ | assign _ _ _ | unary _ _ | binary _ _ _
      | conditional _ _ _ | call _ _ _ | new _ _ | newArray _ _ | superCall _ | selfCall _ =>
          exact absurd hown (by simp [Write.ofPath, Expr.isOwnPath])
  | lit _ | self | assign _ _ _ | unary _ _ | binary _ _ _ | conditional _ _ _ | call _ _ _
  | new _ _ | newArray _ _ | superCall _ | selfCall _ =>
      exact absurd hw (by simp [writeTo?, isStablePath])

include hE

omit hgrow hE in
theorem field?_of_readField {s s' : State} {member : String} {v : Value}
    (hown : OwnNamed p s.frame.cls) (h : readField p E s.frame.cls member s = .done v s') :
    (s'.field? s.frame.cls member).isSome = true := by
  rcases hown with ⟨c, hc, hname⟩
  unfold readField Program.findClass at h
  rw [hc] at h
  rcases Action.of_bind_eq_done h with ⟨c', s₀, hc', h⟩
  obtain ⟨rfl, rfl⟩ : c = c' ∧ s = s₀ := by
    have hdone : Outcome.done c s = .done c' s₀ := hc'
    exact ⟨(Outcome.done.inj hdone).1, (Outcome.done.inj hdone).2⟩
  rcases Action.of_bind_eq_done h with ⟨_, s₁, _, h⟩
  change Action.orFail _ (s₁.field? c.name member) s₁ = _ at h
  cases hfield : s₁.field? c.name member with
  | none =>
      rw [hfield] at h
      exact absurd h (by simp [Action.orFail, Action.fail])
  | some value =>
      rw [hfield] at h
      have hdone : Outcome.done value s₁ = .done v s' := h
      obtain ⟨-, rfl⟩ := Outcome.done.inj hdone
      rw [← hname, hfield]
      rfl

theorem readable_base {target : Expr} {w : Write} (hw : writeTo? target = some w)
    (hpath : w.target.isOwnPath = true) : Leaves p [w] (E.eval target) := by
  induction target using Expr.childInduction with
  | step target ih =>
      refine ⟨hgrow.eval target, fun {s s' v} hown h w' hw' => ?_⟩
      obtain rfl := List.mem_singleton.mp hw'
      rcases target_cases hw hpath with ⟨ident, rfl, htarget⟩ | ⟨member, rfl, htarget⟩ |
        ⟨inner, position, rfl, hinner⟩
      · rw [hE.eval_name] at h
        rw [htarget]
        change Action.orFail _ (s.valueAt? (.name ident)) s = _ at h
        cases hvalue : s.valueAt? (.name ident) with
        | none =>
            rw [hvalue] at h
            exact absurd h (by simp [Action.orFail, Action.fail])
        | some value =>
            rw [hvalue] at h
            have hdone : Outcome.done value s = .done v s' := h
            obtain ⟨-, rfl⟩ := Outcome.done.inj hdone
            show Option.isSome _ = true
            rw [hvalue]
            rfl
      · have hgrown : Outcome.Grown s (E.eval (.field .self member) s) :=
          hgrow.eval (.field .self member) s
        rw [h] at hgrown
        rw [hE.eval _ rfl] at h
        rw [htarget]
        show (s'.field? s'.frame.cls member).isSome = true
        rw [hgrown.cls]
        exact field?_of_readField hown h
      · have hbase : Leaves p [w'] (readElement E inner position) := by
          have hread := (ih inner (by simp [Expr.children]) hinner).readElement
            (.of_grows (p := p) (hgrow.eval position))
          rw [List.append_nil] at hread
          exact hread
        rw [hE.eval _ rfl] at h
        exact hbase.readable hown h w' (List.mem_singleton_self w')

/-- The place of a target can be read, or is a field of the own class. -/
theorem resolvePlace_aims {target : Expr} {w : Write} (hw : writeTo? target = some w)
    (hpath : w.target.isOwnPath = true) {s s' : State} {place : Place}
    (hown : OwnNamed p s.frame.cls) (h : resolvePlace p E target s = .done place s') :
    Readable s' w.target ∨
      ∃ member, w.target = .field .self member ∧ place = .field s'.frame.cls member := by
  have hgrown := grows_resolvePlace (p := p) hgrow target s
  rw [h] at hgrown
  rcases target_cases hw hpath with ⟨ident, rfl, htarget⟩ | ⟨member, rfl, htarget⟩ |
    ⟨inner, position, rfl, hinner⟩
  · left
    rw [htarget]
    change resolveName ident s = _ at h
    rw [resolveName_eq] at h
    change Action.orFail _ (s.view.namedPlace? ident) s = _ at h
    cases hplace : s.view.namedPlace? ident with
    | none =>
        rw [hplace] at h
        exact absurd h (by simp [Action.orFail, Action.fail])
    | some found =>
        rw [hplace] at h
        have hdone : Outcome.done found s = .done place s' := h
        obtain ⟨-, rfl⟩ := Outcome.done.inj hdone
        unfold View.namedPlace? at hplace
        rw [readable_name, Frame.sees_iff]
        split at hplace
        · rename_i hvariable
          exact .inl hvariable
        · split at hplace
          · rename_i hfield
            exact .inr hfield
          · exact absurd hplace (by simp)
  · right
    refine ⟨member, htarget, ?_⟩
    rcases Action.of_bind_eq_done h with ⟨cls, s₁, hcls, h⟩
    have hdone : Outcome.done s.frame.cls s = .done cls s₁ := hcls
    obtain ⟨rfl, rfl⟩ := Outcome.done.inj hdone
    rcases Action.of_bind_eq_done h with ⟨c, s₂, _, h⟩
    rcases Action.of_bind_eq_done h with ⟨_, s₃, _, h⟩
    have hplace : Outcome.done (Place.field s.frame.cls member) s₃ = .done place s' := h
    obtain ⟨rfl, rfl⟩ := Outcome.done.inj hplace
    rw [hgrown.cls]
  · left
    have hlocate := (readable_base hE hgrow hinner hpath).locateElement
      (.of_grows (p := p) (hgrow.eval position))
    rw [List.append_nil] at hlocate
    exact (hlocate.andThen fun _ => .pure _).readable hown h w (List.mem_singleton_self w)

/-- Writing to the place of a target makes the target readable. -/
theorem leaves_write {target : Expr} (hpath : ∀ w ∈ writeTo? target, w.target.isOwnPath = true)
    {s s' s'' : State} {place : Place} {value : Value} (hown : OwnNamed p s.frame.cls)
    (hplace : resolvePlace p E target s = .done place s') (hgrown : s'.Grown s'') {s₃ : State}
    (hwrite : place.write value s'' = .done () s₃) :
    ∀ w ∈ writeTo? target, Readable s₃ w.target := by
  intro w hw
  have hgrown' := Grows.write place value s''
  rw [hwrite] at hgrown'
  rcases resolvePlace_aims hE hgrow hw (hpath w hw) hown hplace with h | ⟨member, htarget, rfl⟩
  · exact h.grown (hgrown.trans hgrown')
  · have hdone : Outcome.done () (s''.setField s'.frame.cls member value) = .done () s₃ := hwrite
    obtain ⟨-, rfl⟩ := Outcome.done.inj hdone
    rw [htarget]
    show (State.field? _ _ member).isSome = true
    rw [show (s''.setField s'.frame.cls member value).frame.cls = s'.frame.cls from hgrown.cls]
    unfold State.field? State.setField
    rw [Bindings.get?_insert_self]
    show (Bindings.get? (Bindings.insert member value _) member).isSome = true
    rw [Bindings.get?_insert_self]
    rfl

omit hE in
theorem leaves_resolvePlace {target : Expr}
    (h : ∀ e ∈ target.placeOperands, Leaves p (writesIn e) (E.eval e)) :
    Leaves p (writesInPlace target) (resolvePlace p E target) := by
  have hgrows : Grows (resolvePlace p E target) := grows_resolvePlace hgrow target
  have hclass : ∀ member cls, Grows ((do
      let c ← p.findClass cls
      useClass E c
      return Place.field cls member : Action Place)) := by
    intro member cls
    have huse : ∀ c, Grows (useClass E c) := fun c =>
      closed_grows.useClass (r := fun _ => E) fun _ _ e _ => hgrow.eval e
    have hfind : Grows (p.findClass cls) := closed_grows.orFail _ (p.unit.class? cls)
    exact hfind.bind fun c => (huse c).bind fun _ => .pure _
  cases target with
  | field owner member =>
      have howner := h owner (by simp [Expr.placeOperands])
      cases owner with
      | self | name _ => exact .of_grows hgrows
      | lit _ | field _ _ | index _ _ | assign _ _ _ | unary _ _ | binary _ _ _
      | conditional _ _ _ | call _ _ _ | new _ _ | newArray _ _ | superCall _ | selfCall _ =>
          apply Leaves.andThen _ (hclass member)
          apply howner.andThen
          intro v
          cases v with
          | object _ => exact .pure _
          | null | int _ | bool _ | str _ | array _ | throwable _ => exact .fail _
  | index inner position =>
      exact ((h inner (by simp [Expr.placeOperands])).locateElement
        (h position (by simp [Expr.placeOperands]))).andThen fun _ => .pure _
  | lit _ | name _ | self | assign _ _ _ | unary _ _ | binary _ _ _ | conditional _ _ _
  | call _ _ _ | new _ _ | newArray _ _ | superCall _ | selfCall _ => exact .of_grows hgrows

theorem leaves_assign {op : AssignOp} {target value : Expr}
    (hplace : ∀ e ∈ target.placeOperands, Leaves p (writesIn e) (E.eval e))
    (hvalue : Leaves p (writesIn value) (E.eval value))
    (hpath : ∀ w ∈ writeTo? target, w.target.isOwnPath = true) :
    Leaves p (writesIn (.assign op target value)) (E.eval (.assign op target value)) := by
  have hresolve := leaves_resolvePlace (p := p) hgrow hplace
  have hresult : ∀ place, Leaves p (writesIn value) (assignedValue E op value place) := by
    intro place
    unfold assignedValue
    cases op.arithmetic? with
    | none => exact hvalue
    | some arithmetic =>
        have hread : Grows place.read := closed_grows.readPlace place
        exact .behind hread fun current => hvalue.andThen fun operand =>
          closed_grows.applyBinary arithmetic current operand
  refine ⟨hgrow.eval _, fun {s s' v} hown h w hw => ?_⟩
  have hstep : evalAssign p E op target value s = .done v s' := by
    rcases hE.below (.assign op target value) s with hs | hs
    · rw [hs] at h
      exact absurd h (by simp)
    · exact hs.symm.trans h
  rw [evalAssign_eq] at hstep
  rcases Action.of_bind_eq_done hstep with ⟨place, s₁, h₁, hstep⟩
  rcases Action.of_bind_eq_done hstep with ⟨assigned, s₂, h₂, hstep⟩
  rcases Action.of_bind_eq_done hstep with ⟨_, s₃, h₃, hstep⟩
  have hlast : Outcome.done assigned s₃ = .done v s' := hstep
  obtain ⟨rfl, rfl⟩ := Outcome.done.inj hlast
  have hgrown₁ := hresolve.grows s
  rw [h₁] at hgrown₁
  have hgrown₂ := (hresult place).grows s₁
  rw [h₂] at hgrown₂
  have hown₁ : OwnNamed p s₁.frame.cls := by
    rw [hgrown₁.cls]
    exact hown
  have hgrown₃ := Grows.write place assigned s₂
  rw [h₃] at hgrown₃
  simp only [writesIn, List.mem_append] at hw
  rcases hw with (hw | hw) | hw
  · exact (hresolve.readable hown h₁ w hw).grown (hgrown₂.trans hgrown₃)
  · exact ((hresult place).readable hown₁ h₂ w hw).grown hgrown₃
  · exact leaves_write hE hgrow hpath hown h₁ hgrown₂ h₃ w (Option.mem_toList.mp hw)

theorem leaves_stepping {op : UnaryOp} (hop : op.isMutating = true) {target : Expr}
    (hplace : ∀ e ∈ target.placeOperands, Leaves p (writesIn e) (E.eval e))
    (hpath : ∀ w ∈ writeTo? target, w.target.isOwnPath = true) :
    Leaves p (writesIn (.unary op target)) (E.eval (.unary op target)) := by
  have hresolve := leaves_resolvePlace (p := p) hgrow hplace
  refine ⟨hgrow.eval _, fun {s s' v} hown h w hw => ?_⟩
  have hstep : evalStepping p E op target s = .done v s' := by
    have hevaluated : evalStep p E (.unary op target) = evalStepping p E op target := by
      cases op with
      | neg | not => exact absurd hop (by decide)
      | preInc | preDec | postInc | postDec => rfl
    rcases hE.below (.unary op target) s with hs | hs
    · rw [hs] at h
      exact absurd h (by simp)
    · rw [hevaluated] at hs
      exact hs.symm.trans h
  rcases Action.of_bind_eq_done hstep with ⟨place, s₁, h₁, hstep⟩
  rcases Action.of_bind_eq_done hstep with ⟨current, s₂, h₂, hstep⟩
  have hread : Grows place.read := closed_grows.readPlace place
  have hgrown₂ := hread s₁
  rw [h₂] at hgrown₂
  cases current with
  | int n =>
      rcases Action.of_bind_eq_done hstep with ⟨_, s₃, h₃, hstep⟩
      have hlast : Outcome.done (Value.int (stepResult op n (stepped op n))) s₃ = .done v s' := hstep
      obtain ⟨-, rfl⟩ := Outcome.done.inj hlast
      have hgrown₃ := Grows.write place (.int (stepped op n)) s₂
      rw [h₃] at hgrown₃
      simp only [writesIn, hop, if_true, List.mem_append] at hw
      rcases hw with hw | hw
      · exact (hresolve.readable hown h₁ w hw).grown (hgrown₂.trans hgrown₃)
      · exact leaves_write hE hgrow hpath hown h₁ hgrown₂ h₃ w (Option.mem_toList.mp hw)
  | null | bool _ | str _ | array _ | object _ | throwable _ =>
      exact absurd hstep (by simp [Action.fail])

def ReportsOwn (e : Expr) : Prop :=
  ∀ w ∈ writesIn e, w.target.isOwnPath = true

omit hE in
instance : DecidablePred ReportsOwn :=
  fun e => inferInstanceAs (Decidable (∀ w ∈ writesIn e, w.target.isOwnPath = true))

omit hE in
theorem leaves_received {args : List Expr}
    (hargs : ∀ e ∈ args, Leaves p (writesIn e) (E.eval e))
    (helements : ∀ type elements, .newArray type elements ∈ args → ∀ e ∈ elements,
      Leaves p (writesIn e) (E.eval e))
    (method : String) (receiver : Receiver)
    (hreceiver : ∀ e, receiver = .value e → Leaves p (writesIn e) (E.eval e)) :
    Leaves p ((match receiver with | .value e => writesIn e | _ => []) ++ writesInAll args)
      (match receiver with
      | .runtime => evalHook E method args
      | .ownClass => do
          let args ← E.evalAll args
          let s ← Action.state
          let c ← p.findClass s.frame.cls
          invoke E c method args
      | .namedClass cls => do
          let c ← p.findClass cls
          let args ← E.evalAll args
          invoke E c method args
      | .clock => do
          let args ← E.evalAll args
          sleep args
      | .value e => do
          let receiver ← E.eval e
          let args ← E.evalAll args
          callOnValue p E receiver method args : Action Value) := by
  have hall := Leaves.evalAll hargs
  have hcall : Callees (ι := Unit) (fun x => Grows (x ())) p (fun _ => .own) fun _ => E :=
    hgrow.callees
  have hfind : ∀ cls, Grows (p.findClass cls) := fun cls => closed_grows.orFail _ (p.unit.class? cls)
  have hinvoke : ∀ c values, Grows (invoke E c method values) := by
    intro c values
    have huse : Grows (useClass E c) :=
      closed_grows.useClass (r := fun _ => E) fun _ _ e _ => hgrow.eval e
    unfold invoke
    split
    · exact closed_grows.runMethod (r := fun _ => E) huse (fun body _ frame =>
        closed_grows.inFrame (x := fun _ => E.execAll body) frame
          (closed_grows.execAll (r := fun _ => E) fun s _ => hgrow.exec s)) values
    · exact .fail _
  have hstate : Grows Action.state := fun s => .refl s
  cases receiver with
  | runtime =>
      show Leaves p (writesInAll args) (evalHook E method args)
      have hhook : ∀ values, Grows (callHook method values) :=
        closed_grows.callHook (fun id report => .receive id report) method
      unfold evalHook
      split
      · rename_i id type names type' values
        have hnames := Leaves.evalAll (helements type names (by simp))
        have hvalues := Leaves.evalAll (helements type' values (by simp))
        have hid := hargs id List.mem_cons_self
        have hrest : ∀ (id : Value) (names values : List Value), Grows (do
            let method ← id.text
            let names ← texts names
            let values ← snapshots values
            Action.modify fun s =>
              { s with recorder := s.recorder.receive method (.entering names values) }
            return Value.null) := by
          intro id names values
          have htext : Grows id.text := closed_grows.text id
          have htexts : Grows (texts names) := closed_grows.texts names
          have hcopies : Grows (snapshots values) := closed_grows.snapshots values
          exact htext.bind fun method => htexts.bind fun names => hcopies.bind fun values =>
            (Grows.receive method _).bind fun _ => .pure _
        have hentry := hid.bind fun id => hnames.bind fun names =>
          hvalues.andThen fun values => hrest id names values
        simp only [writesInAll, writesIn, List.append_nil]
        exact hentry
      · exact hall.andThen hhook
  | ownClass =>
      exact hall.andThen fun values => hstate.bind fun s => (hfind _).bind fun c => hinvoke c values
  | namedClass cls =>
      exact .behind (hfind cls) fun c => hall.andThen fun values => hinvoke c values
  | clock =>
      have hsleep : ∀ values, Grows (sleep values) := closed_grows.sleep
      exact hall.andThen hsleep
  | value e =>
      have hon : ∀ receiver values, Grows (callOnValue p E receiver method values) := by
        intro receiver values
        have h := closed_grows.callOnValue hcall receiver method values
        rw [Program.withBodies_own] at h
        exact h
      exact (hreceiver e rfl).bind fun receiver => hall.andThen fun values => hon receiver values

theorem leaves_call {receiver : Option Expr} {method : String} {args : List Expr}
    (hreceiver : ∀ e ∈ receiver, Leaves p (writesIn e) (E.eval e))
    (hargs : ∀ e ∈ args, Leaves p (writesIn e) (E.eval e))
    (helements : ∀ type elements, .newArray type elements ∈ args → ∀ e ∈ elements,
      Leaves p (writesIn e) (E.eval e)) :
    Leaves p (writesInReceiver receiver ++ writesInAll args)
      (E.eval (.call receiver method args)) := by
  have hreceived := leaves_received (p := p) hgrow hargs helements method
  have hname : ∀ ident, Leaves p [] (E.eval (.name ident)) := fun ident =>
    .of_grows (hgrow.eval (.name ident))
  rw [hE.eval _ rfl]
  show Leaves p _ (evalCall p E receiver method args)
  unfold evalCall
  rw [receiverOf_eq]
  cases receiver with
  | none => exact hreceived .ownClass fun _ h => nomatch h
  | some e =>
      cases e with
      | self => exact hreceived .ownClass fun _ h => nomatch h
      | name ident =>
          apply Leaves.lookThen
          intro v
          have hv := hreceived (v.receiver p (some (.name ident)) method)
          rcases receiver_cases p v (some (.name ident)) method with ho | ⟨-, ho⟩ | ⟨cls, ho⟩ |
            ho | ⟨e, he, ho⟩
          · rw [ho] at hv ⊢
            exact hv fun _ h => nomatch h
          · rw [ho] at hv ⊢
            exact hv fun _ h => nomatch h
          · rw [ho] at hv ⊢
            exact hv fun _ h => nomatch h
          · rw [ho] at hv ⊢
            exact hv fun _ h => nomatch h
          · obtain rfl := Option.some.inj he
            rw [ho] at hv ⊢
            apply hv
            intro e h
            obtain rfl := Receiver.value.inj h
            exact hname ident
      | lit _ | field _ _ | index _ _ | assign _ _ _ | unary _ _ | binary _ _ _
      | conditional _ _ _ | call _ _ _ | new _ _ | newArray _ _ | superCall _ | selfCall _ =>
          apply hreceived (.value _)
          intro e h
          obtain rfl := Receiver.value.inj h
          exact hreceiver _ rfl

omit hE hgrow in
theorem mem_writesInAll {es : List Expr} {e : Expr} (he : e ∈ es) {w : Write}
    (hw : w ∈ writesIn e) : w ∈ writesInAll es := by
  induction es with
  | nil => exact absurd he List.not_mem_nil
  | cons e' es ih =>
      unfold writesInAll
      rcases List.mem_cons.mp he with rfl | he
      · exact List.mem_append_left _ hw
      · exact List.mem_append_right _ (ih he)

omit hE hgrow in
theorem mem_writesInPlace {target e : Expr} (he : e ∈ target.placeOperands) {w : Write}
    (hw : w ∈ writesIn e) : w ∈ writesInPlace target := by
  cases target with
  | field owner member =>
      obtain rfl := List.mem_singleton.mp he
      exact hw
  | index inner position =>
      rcases List.mem_cons.mp he with rfl | he
      · exact List.mem_append_left _ hw
      · obtain rfl := List.mem_singleton.mp he
        exact List.mem_append_right _ hw
  | lit _ | name _ | self | assign _ _ _ | unary _ _ | binary _ _ _ | conditional _ _ _
  | call _ _ _ | new _ _ | newArray _ _ | superCall _ | selfCall _ =>
      exact absurd he List.not_mem_nil

omit hE hgrow in
theorem placeOperands_children {target e : Expr} (he : e ∈ target.placeOperands) :
    e ∈ target.children := by
  cases target with
  | field owner member => exact he
  | index inner position => exact he
  | lit _ | name _ | self | assign _ _ _ | unary _ _ | binary _ _ _ | conditional _ _ _
  | call _ _ _ | new _ _ | newArray _ _ | superCall _ | selfCall _ =>
      exact absurd he List.not_mem_nil

theorem leaves_field {target : Expr} {member : String}
    (htarget : Leaves p (writesIn target) (E.eval target)) :
    Leaves p (writesIn target) (E.eval (.field target member)) := by
  have hmember : ∀ v, Grows (memberOf p E member v) := by
    intro v
    have h := closed_grows.memberOf (hgrow.callees (p := p)) member v
    rw [Program.withBodies_own] at h
    exact h
  cases target with
  | self | name _ => exact .of_grows (hgrow.eval _)
  | lit _ | field _ _ | index _ _ | assign _ _ _ | unary _ _ | binary _ _ _
  | conditional _ _ _ | call _ _ _ | new _ _ | newArray _ _ | superCall _ | selfCall _ =>
      rw [hE.eval _ rfl]
      exact htarget.andThen hmember

omit hgrow in
theorem leaves_unary {op : UnaryOp} {operand : Expr} (hop : ¬op.isMutating = true)
    (hoperand : Leaves p (writesIn operand) (E.eval operand)) :
    Leaves p (writesIn operand) (E.eval (.unary op operand)) := by
  cases op with
  | neg =>
      rw [hE.eval _ rfl]
      exact (hoperand.evalInt _).andThen fun _ => .pure _
  | not =>
      rw [hE.eval _ rfl]
      exact (hoperand.evalBool _).andThen fun _ => .pure _
  | preInc | preDec | postInc | postDec => exact absurd rfl hop

/-- Of operands that need not be reached, only the first one counts. -/
theorem leaves_binary {op : BinaryOp} {left right : Expr}
    (hleft : Leaves p (writesIn left) (E.eval left))
    (hright : ¬op.isShortCircuit = true → Leaves p (writesIn right) (E.eval right)) :
    Leaves p (writesIn (.binary op left right)) (E.eval (.binary op left right)) := by
  have hresult : ∀ op a b, Grows (applyBinary op a b) := closed_grows.applyBinary
  have hbool : ∀ operation, Grows (E.evalBool right operation) :=
    fun operation => closed_grows.evalBool (r := fun _ => E) (hgrow.eval right) operation
  rw [hE.eval _ rfl]
  by_cases hop : op.isShortCircuit = true
  · simp only [writesIn, hop, if_true, List.append_nil]
    cases op with
    | and =>
        refine (hleft.evalBool "&&").andThen fun b => ?_
        cases b with
        | true => exact (hbool "&&").bind fun _ => .pure _
        | false => exact .pure _
    | or =>
        refine (hleft.evalBool "||").andThen fun b => ?_
        cases b with
        | true => exact .pure _
        | false => exact (hbool "||").bind fun _ => .pure _
    | add | sub | mul | div | rem | eq | ne | lt | le | gt | ge => exact absurd hop (by decide)
  · have hboth := hleft.bind fun a => (hright hop).andThen fun b => hresult op a b
    simp only [writesIn, hop]
    cases op with
    | and | or => exact absurd rfl hop
    | add | sub | mul | div | rem | eq | ne | lt | le | gt | ge => exact hboth

theorem leaves_selfCall {args : List Expr}
    (hargs : ∀ e ∈ args, Leaves p (writesIn e) (E.eval e)) :
    Leaves p (writesInAll args) (E.eval (.selfCall args)) := by
  have hcall := hgrow.callees (p := p)
  have hstate : Grows Action.state := fun s => .refl s
  rw [hE.eval _ rfl]
  refine (Leaves.evalAll hargs).andThen fun values => hstate.bind fun s => ?_
  unfold Program.findClass
  cases hc : p.unit.class? s.frame.cls with
  | none => exact .fail _
  | some c =>
      have hmade := closed_grows.construct hcall (mem_of_class? hc) values
      rw [ClassDecl.withBodies_own] at hmade
      have hnull : Grows (construct E c values >>= fun _ => Pure.pure Value.null) :=
        Grows.bind hmade fun _ => .pure _
      exact hnull

/-- What an expression has written can be read after it, given that this holds of its
children and their children. -/
theorem leaves_eval_of_children {e : Expr} (hpaths : ReportsOwn e)
    (hchild : ∀ e' ∈ e.children, ReportsOwn e' → Leaves p (writesIn e') (E.eval e'))
    (hgrand : ∀ e' ∈ e.children, ∀ e'' ∈ e'.children, ReportsOwn e'' →
      Leaves p (writesIn e'') (E.eval e'')) : Leaves p (writesIn e) (E.eval e) := by
  have hargs : ∀ {es : List Expr}, (∀ e' ∈ es, e' ∈ e.children) →
      (∀ w ∈ writesInAll es, w.target.isOwnPath = true) → ∀ e' ∈ es,
        Leaves p (writesIn e') (E.eval e') :=
    fun hes hown e' he' => hchild e' (hes e' he') fun w hw => hown w (mem_writesInAll he' hw)
  cases e with
  | lit _ | name _ | self => exact .of_grows (hgrow.eval _)
  | field target member =>
      exact leaves_field hE hgrow (hchild target (by simp [Expr.children]) hpaths)
  | index target position =>
      have htarget := hchild target (by simp [Expr.children])
        fun w hw => hpaths w (List.mem_append_left _ hw)
      have hposition := hchild position (by simp [Expr.children])
        fun w hw => hpaths w (List.mem_append_right _ hw)
      rw [hE.eval _ rfl]
      exact htarget.readElement hposition
  | assign op target value =>
      apply leaves_assign hE hgrow
      · intro e' he'
        refine hgrand target (by simp [Expr.children]) e' (placeOperands_children he') fun w hw => ?_
        exact hpaths w (by simp [writesIn, mem_writesInPlace he' hw])
      · exact hchild value (by simp [Expr.children]) fun w hw => hpaths w (by simp [writesIn, hw])
      · exact fun w hw => hpaths w (by simp [writesIn, Option.mem_toList.mpr hw])
  | unary op operand =>
      by_cases hop : op.isMutating = true
      · apply leaves_stepping hE hgrow hop
        · intro e' he'
          refine hgrand operand (by simp [Expr.children]) e' (placeOperands_children he')
            fun w hw => ?_
          exact hpaths w (by simp [writesIn, hop, mem_writesInPlace he' hw])
        · exact fun w hw => hpaths w (by simp [writesIn, hop, Option.mem_toList.mpr hw])
      · have hwrites : writesIn (.unary op operand) = writesIn operand := by simp [writesIn, hop]
        have hoperand := hchild operand (by simp [Expr.children])
          fun w hw => hpaths w (by rw [hwrites]; exact hw)
        rw [hwrites]
        exact leaves_unary hE hop hoperand
  | binary op left right =>
      apply leaves_binary hE hgrow
      · exact hchild left (by simp [Expr.children])
          fun w hw => hpaths w (List.mem_append_left _ hw)
      · exact fun hop => hchild right (by simp [Expr.children])
          fun w hw => hpaths w (by simp [writesIn, hop, hw])
  | conditional cond ifTrue ifFalse =>
      have hcond := hchild cond (by simp [Expr.children]) hpaths
      rw [hE.eval _ rfl]
      refine (hcond.evalBool _).andThen fun b => ?_
      cases b with
      | true => exact hgrow.eval ifTrue
      | false => exact hgrow.eval ifFalse
  | call receiver method args =>
      have hown : ∀ w ∈ writesInAll args, w.target.isOwnPath = true :=
        fun w hw => hpaths w (List.mem_append_right _ hw)
      have hmem : ∀ e' ∈ args, e' ∈ (Expr.call receiver method args).children :=
        fun _ he' => List.mem_append_right _ he'
      refine leaves_call hE hgrow (fun e he => ?_) (hargs hmem hown) fun type elements ha e he => ?_
      · obtain rfl : receiver = some e := he
        exact hchild e (by simp [Expr.children]) fun w hw => hpaths w (List.mem_append_left _ hw)
      · exact hgrand _ (hmem _ ha) e he
          fun w hw => hown w (mem_writesInAll ha (mem_writesInAll he hw))
  | new cls args =>
      have hinstantiate : ∀ values, Grows (instantiate p E cls values) := by
        intro values
        have h := closed_grows.instantiate (hgrow.callees (p := p)) cls values
        rw [Program.withBodies_own] at h
        exact h
      rw [hE.eval _ rfl]
      exact (Leaves.evalAll (hargs (fun _ h => h) hpaths)).andThen hinstantiate
  | newArray type elements =>
      have hmake : Leaves p (writesInAll elements) (makeArray E elements) := by
        rw [makeArray_eq]
        exact (Leaves.evalAll (hargs (fun _ h => h) hpaths)).andThen fun _ => .allocate _
      exact hmake.of_within (hgrow.eval _) (hE.below (.newArray type elements))
  | superCall args =>
      rw [hE.eval _ rfl]
      exact (Leaves.evalAll (hargs (fun _ h => h) hpaths)).andThen fun _ => .pure _
  | selfCall args => exact leaves_selfCall hE hgrow (hargs (fun _ h => h) hpaths)

/-- What an expression has written can be read after it. -/
theorem leaves_eval (e : Expr) (hpaths : ReportsOwn e) : Leaves p (writesIn e) (E.eval e) := by
  have hboth : (ReportsOwn e → Leaves p (writesIn e) (E.eval e)) ∧
      ∀ e' ∈ e.children, ReportsOwn e' → Leaves p (writesIn e') (E.eval e') := by
    clear hpaths
    induction e using Expr.childInduction with
    | step e ih =>
        refine ⟨fun hpaths => ?_, fun e' he' => (ih e' he').1⟩
        exact leaves_eval_of_children hE hgrow hpaths (fun e' he' => (ih e' he').1)
          fun e' he' => (ih e' he').2
  exact hboth.1 hpaths

end

/-! ## Statements -/

def ReportsHere (valued : Bool) (s : Stmt) : Prop :=
  ∀ e ∈ s.reportedExprs valued, ReportsOwn e

instance (valued : Bool) : DecidablePred (ReportsHere valued) :=
  fun s => inferInstanceAs (Decidable (∀ e ∈ s.reportedExprs valued, ReportsOwn e))

theorem reportsHere_of_head {valued : Bool} {s t : Stmt} (hhead : t.head = s.head)
    (h : ReportsHere valued s) : ReportsHere valued t := by
  unfold ReportsHere
  rw [Stmt.reportedExprs_of_head hhead]
  exact h

theorem reportsHere_ofLoop {valued : Bool} {s : Stmt} (h : s.Every (ReportsHere valued))
    {loop : Loop} (hl : loop ∈ s.loop?) :
    (∀ e ∈ loop.exprs, ReportsOwn e) ∧ loop.body.Every (ReportsHere valued) := by
  have hparts := Stmt.loop?_subset hl
  refine ⟨fun e he => h.here e ?_, h.child hparts.2⟩
  rw [Stmt.reportedExprs_of_loop? hl]
  exact hparts.1 he

end Eval
end TraceWeaving
