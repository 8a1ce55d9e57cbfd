import TraceWeaving.Weave.Write
import TraceWeaving.Proofs.Eval.OwnWrites

/-!
# Collected writes

The writes collected from an expression are those that its evaluation makes, in the order in
which they take effect.  Of the writes of the expression's own nodes, those that may be skipped
and those without a path that can be read again are left out on both sides.
-/

namespace TraceWeaving
namespace Weave

open Code Eval
open Eval.Tracked (plain)

/-- The listed writes that happen whenever the expression is evaluated, as they are reported. -/
def reported (log : List OwnWrite) : List Write :=
  (log.filter fun w => !w.guarded).filterMap fun w => writeTo? w.target

theorem reported_append (front rest : List OwnWrite) :
    reported (front ++ rest) = reported front ++ reported rest := by
  simp [reported]

/-- Whenever the work comes to its end, it has listed just these writes. -/
def Lists {α : Type} (x : Tracked α) (writes : List Write) : Prop :=
  ∀ s a log s', x s = .done (a, log) s' → reported log = writes

namespace Lists

variable {α β : Type} {x : Tracked α} {writes : List Write}

theorem pure (a : α) : Lists (Pure.pure a : Tracked α) [] := by
  rintro s a log s' ⟨⟩
  rfl

theorem bind {f : α → Tracked β} {more : List Write} (hx : Lists x writes)
    (hf : ∀ a, Lists (f a) more) : Lists (x >>= f) (writes ++ more) := by
  intro s b log s' h
  rcases Action.of_bind_eq_done (x := x) h with ⟨⟨a, front⟩, s₁, hfront, h⟩
  rcases Action.of_bind_eq_done (x := f a) h with ⟨⟨b, rest⟩, s₂, hrest, h⟩
  cases h
  rw [reported_append, hx _ _ _ _ hfront, hf a _ _ _ _ hrest]

theorem plain (y : Action α) : Lists (plain y) [] := by
  intro s a log s' h
  rcases Action.of_bind_eq_done (x := y) h with ⟨a, s₁, -, h⟩
  cases h
  rfl

theorem write (target : Expr) (place : Place) (value : Value) :
    Lists (Tracked.write target place value) (writeTo? target).toList := by
  intro s a log s' h
  rcases Action.of_bind_eq_done (x := place.write value) h with ⟨a, s₁, -, h⟩
  cases h
  show [(⟨target, place, value, false⟩ : OwnWrite)].filterMap _ = _
  cases htarget : writeTo? target <;> simp [htarget]

theorem guarded (y : Tracked α) : Lists (Tracked.guarded y) [] := by
  intro s a log s' h
  rcases Action.of_bind_eq_done (x := y) h with ⟨a, s₁, -, h⟩
  cases h
  simp [reported]

theorem before {f : α → Tracked β} (hx : Lists x writes) (hf : ∀ a, Lists (f a) []) :
    Lists (x >>= f) writes := by
  simpa using hx.bind hf

theorem after {y : Action α} {f : α → Tracked β} (hf : ∀ a, Lists (f a) writes) :
    Lists (Tracked.plain y >>= f) writes := by
  simpa using (Lists.plain y).bind hf

/-- Work that does not come to its end can be said to list anything. -/
theorem fail (fault : Fault) (writes : List Write) :
    Lists (Tracked.plain (.fail fault : Action α)) writes := by
  rintro s a log s' ⟨⟩

theorem exhausted (writes : List Write) :
    Lists (Tracked.plain (.exhausted : Action α)) writes := by
  rintro s a log s' ⟨⟩

end Lists

/-! ## Rules -/

section

variable (p : Program) (r : Evaluator)

/-- What stands in front of a dot makes its writes if it is evaluated, and else has none. -/
theorem lists_ownerOf {α : Type} {target : Expr} {f : Owner → Tracked α}
    (hfixed : ∀ owner, (∀ e, owner ≠ .value e) → Lists (f owner) [])
    (hvalue : Lists (f (.value target)) (writesIn target)) :
    Lists (plain (ownerOf p target) >>= f) (writesIn target) := by
  intro s a log s' h
  rw [ownerOf_eq, Tracked.plain_look_bind] at h
  cases target with
  | name ident =>
      rcases owner_cases p s.view (.name ident) with howner | ⟨cls, howner⟩ | howner
      · rw [howner] at h
        exact hfixed _ (by simp) _ _ _ _ h
      · rw [howner] at h
        exact hfixed _ (by simp) _ _ _ _ h
      · rw [howner] at h
        exact hvalue _ _ _ _ h
  | self => exact hfixed .ownClass (by simp) _ _ _ _ h
  | lit _ | field _ _ | index _ _ | assign _ _ _ | unary _ _ | binary _ _ _ | conditional _ _ _
  | call _ _ _ | new _ _ | newArray _ _ | superCall _ | selfCall _ => exact hvalue _ _ _ _ h

section

variable {target : Expr} {owner : Tracked Value} (howner : Lists owner (writesIn target))

include howner

theorem lists_trackMember (name : String) :
    Lists (trackMember p r target owner name) (writesIn target) := by
  refine lists_ownerOf p ?_ (howner.before fun _ => Lists.plain _)
  intro dest hdest
  cases dest with
  | ownClass | namedClass cls => exact Lists.plain _
  | value e => exact absurd rfl (hdest e)

theorem lists_trackOwnerClass (name : String) :
    Lists (trackOwnerClass p target owner name) (writesIn target) := by
  refine lists_ownerOf p ?_ (howner.before fun _ => Lists.plain _)
  intro dest hdest
  cases dest with
  | ownClass | namedClass cls => exact Lists.plain _
  | value e => exact absurd rfl (hdest e)

end

theorem lists_trackElement {t q : Tracked Value} {ws vs : List Write} (ht : Lists t ws)
    (hq : Lists q vs) : Lists (trackElement t q) (ws ++ vs) := by
  refine ht.bind fun value => Lists.after fun address => hq.before fun value => ?_
  exact Lists.after fun index => Lists.after fun size => Lists.after fun position => Lists.pure _

theorem lists_trackAssign (op : AssignOp) (target : Expr) {place : Tracked Place}
    {v : Tracked Value} {ws vs : List Write} (hplace : Lists place ws) (hv : Lists v vs) :
    Lists (trackAssign op target place v) (ws ++ vs ++ (writeTo? target).toList) := by
  rw [List.append_assoc]
  refine hplace.bind fun place => ?_
  have hwrite : ∀ result, Lists (do
      Tracked.write target place result
      return result) (writeTo? target).toList :=
    fun result => (Lists.write target place result).before fun _ => Lists.pure result
  dsimp only
  cases op.arithmetic? with
  | none => exact hv.bind hwrite
  | some arithmetic =>
      refine Lists.after fun current => hv.bind fun operand => ?_
      exact Lists.after hwrite

theorem lists_trackStepping (op : UnaryOp) (target : Expr) {place : Tracked Place}
    {ws : List Write} (hplace : Lists place ws) :
    Lists (trackStepping op target place) (ws ++ (writeTo? target).toList) := by
  refine hplace.bind fun place => Lists.after fun value => ?_
  cases value with
  | int n => exact (Lists.write target place _).before fun _ => Lists.pure _
  | null | bool _ | str _ | array _ | object _ | throwable _ => exact Lists.fail _ _

theorem lists_trackUnary (op : UnaryOp) (operand : Expr) {place : Tracked Place}
    {v : Tracked Value} (hplace : Lists place (writesInPlace operand))
    (hv : Lists v (writesIn operand)) :
    Lists (trackUnary op operand place v) (writesIn (.unary op operand)) := by
  cases op with
  | neg | not => exact hv.before fun _ => Lists.after fun _ => Lists.pure _
  | preInc | preDec | postInc | postDec => exact lists_trackStepping _ operand hplace

theorem lists_trackBinary (op : BinaryOp) {left right : Expr} {a b : Tracked Value}
    (ha : Lists a (writesIn left)) (hb : Lists b (writesIn right)) :
    Lists (trackBinary op a b) (writesIn (.binary op left right)) := by
  cases op with
  | and =>
      refine ha.bind fun _ => Lists.after fun holds => ?_
      cases holds with
      | true => exact Lists.guarded _
      | false => exact Lists.pure _
  | or =>
      refine ha.bind fun _ => Lists.after fun holds => ?_
      cases holds with
      | true => exact Lists.pure _
      | false => exact Lists.guarded _
  | add | sub | mul | div | rem | lt | le | gt | ge | eq | ne =>
      exact ha.bind fun _ => hb.before fun _ => Lists.plain _

theorem lists_trackConditional {cond : Expr} {c t f : Tracked Value}
    (hc : Lists c (writesIn cond)) : Lists (trackConditional c t f) (writesIn cond) := by
  refine hc.before fun _ => Lists.after fun holds => ?_
  cases holds with
  | true | false => exact Lists.guarded _

theorem lists_trackEntry {id : Tracked Value} {names values : Tracked (List Value)}
    {is ns vs : List Write} (hid : Lists id is) (hnames : Lists names ns)
    (hvalues : Lists values vs) : Lists (trackEntry id names values) (is ++ (ns ++ vs)) :=
  hid.bind fun _ => hnames.bind fun _ => hvalues.before fun _ => Lists.plain _

theorem lists_receiverOf {α : Type} {receiver : Option Expr} {method : String}
    {f : Receiver → Tracked α} {more : List Write}
    (hfixed : ∀ dest, (∀ e, dest ≠ .value e) → Lists (f dest) more)
    (hvalue : ∀ e, receiver = some e → Lists (f (.value e)) (writesIn e ++ more)) :
    Lists (plain (receiverOf p receiver method) >>= f) (writesInReceiver receiver ++ more) := by
  intro s a log s' h
  rw [receiverOf_eq, Tracked.plain_look_bind] at h
  match receiver with
  | none => exact hfixed .ownClass (by simp) _ _ _ _ h
  | some e =>
      cases e with
      | name ident =>
          rcases receiver_cases p s.view (some (.name ident)) method with
            hdest | ⟨-, hdest⟩ | ⟨cls, hdest⟩ | hdest | ⟨e, he, hdest⟩
          · rw [hdest] at h
            exact hfixed _ (by simp) _ _ _ _ h
          · rw [hdest] at h
            exact hfixed _ (by simp) _ _ _ _ h
          · rw [hdest] at h
            exact hfixed _ (by simp) _ _ _ _ h
          · rw [hdest] at h
            exact hfixed _ (by simp) _ _ _ _ h
          · rw [hdest] at h
            rw [writesInReceiver, Option.some.inj he]
            exact hvalue e he _ _ _ _ h
      | self => exact hfixed .ownClass (by simp) _ _ _ _ h
      | lit _ | field _ _ | index _ _ | assign _ _ _ | unary _ _ | binary _ _ _
      | conditional _ _ _ | call _ _ _ | new _ _ | newArray _ _ | superCall _ | selfCall _ =>
          exact hvalue _ rfl _ _ _ _ h

theorem lists_trackCall {receiver : Option Expr} {method : String} {hook object : Tracked Value}
    {values : Tracked (List Value)} {ws : List Write} (hhook : Lists hook ws)
    (hobject : ∀ e, receiver = some e → Lists object (writesIn e)) (hvalues : Lists values ws) :
    Lists (trackCall p r receiver method hook object values) (writesInReceiver receiver ++ ws) := by
  refine lists_receiverOf p ?_ ?_
  · intro dest hdest
    cases dest with
    | runtime => exact hhook
    | ownClass => exact hvalues.before fun _ => Lists.after fun _ => Lists.plain _
    | namedClass cls => exact Lists.after fun _ => hvalues.before fun _ => Lists.plain _
    | clock => exact hvalues.before fun _ => Lists.plain _
    | value e => exact absurd rfl (hdest e)
  · intro e he
    exact (hobject e he).bind fun _ => hvalues.before fun _ => Lists.plain _

theorem lists_trackHook (hook : String) (args : List Expr) {entry : Tracked Value}
    {values : Tracked (List Value)} {ws : List Write} (hentry : Lists entry ws)
    (hvalues : Lists values ws) : Lists (trackHook hook args entry values) ws := by
  unfold trackHook
  split
  · exact hentry
  · exact hvalues.before fun _ => Lists.plain _

mutual

theorem lists_track (e : Expr) : Lists (track p r e) (writesIn e) := by
  cases e with
  | lit _ | name _ | self => exact Lists.plain _
  | field target member => exact lists_trackMember p r (lists_track target) member
  | index target position =>
      exact (lists_trackElement (lists_track target) (lists_track position)).before
        fun _ => Lists.plain _
  | assign op target value =>
      exact lists_trackAssign op target (lists_trackPlace target) (lists_track value)
  | unary op operand =>
      exact lists_trackUnary op operand (lists_trackPlace operand) (lists_track operand)
  | binary op left right => exact lists_trackBinary op (lists_track left) (lists_track right)
  | conditional cond _ _ => exact lists_trackConditional (lists_track cond)
  | call receiver method args =>
      exact lists_trackCall p r
        (lists_trackHook method args (lists_trackEntryOf args) (lists_trackAll args))
        (lists_trackReceiver receiver) (lists_trackAll args)
  | new cls args => exact (lists_trackAll args).before fun _ => Lists.plain _
  | newArray elemType elements => exact (lists_trackAll elements).before fun _ => Lists.plain _
  | superCall args => exact (lists_trackAll args).before fun _ => Lists.pure _
  | selfCall args =>
      exact (lists_trackAll args).before fun _ => Lists.after fun _ => Lists.plain _

theorem lists_trackPlace (target : Expr) : Lists (trackPlace p r target) (writesInPlace target) := by
  cases target with
  | name ident => exact Lists.plain _
  | field owner member =>
      exact (lists_trackOwnerClass p (lists_track owner) member).before fun _ => Lists.plain _
  | index target position =>
      exact (lists_trackElement (lists_track target) (lists_track position)).before
        fun _ => Lists.pure _
  | lit _ | self | assign _ _ _ | unary _ _ | binary _ _ _ | conditional _ _ _ | call _ _ _
  | new _ _ | newArray _ _ | superCall _ | selfCall _ => exact Lists.plain _

theorem lists_trackReceiver (receiver : Option Expr) :
    ∀ e, receiver = some e → Lists (trackReceiver p r receiver) (writesIn e) := by
  match receiver with
  | none => exact fun e he => absurd he (by simp)
  | some receiver =>
      intro e he
      rw [← Option.some.inj he]
      exact lists_track receiver

theorem lists_trackAll (es : List Expr) : Lists (trackAll p r es) (writesInAll es) := by
  cases es with
  | nil => exact Lists.pure _
  | cons e rest =>
      exact (lists_track e).bind fun _ => (lists_trackAll rest).before fun _ => Lists.pure _

theorem lists_trackEntryOf (args : List Expr) :
    Lists (trackEntryOf p r args) (writesInAll args) := by
  unfold trackEntryOf
  split
  · rename_i id _ names _ values
    simpa [writesInAll, writesIn] using
      lists_trackEntry (lists_track id) (lists_trackAll names) (lists_trackAll values)
  · exact Lists.exhausted _

end

end

/-- An expression that evaluates normally has made the collected writes, each once and in this
order, among those writes of its own nodes that happen in any case and can be reported. -/
theorem writesIn_eq_reported (p : Program) (steps : Nat) (e : Expr) (s : State) {value : Value}
    {s' : State} (h : evalWithin p steps e s = .done value s') :
    ∃ log, track p p.meaning e s = .done (value, log) s' ∧ writesIn e = reported log := by
  have hmeaning : p.meaning.eval e s = .done value s' := by
    rcases (p.evaluator_below steps).eval e s with hexhausted | hsame
    · exact absurd (h.symm.trans hexhausted) (by simp)
    · exact hsame.symm.trans h
  rw [← erase_track p p.eval_eq e] at hmeaning
  rcases Action.of_bind_eq_done (x := track p p.meaning e) hmeaning with ⟨⟨_, log⟩, _, htrack, hend⟩
  cases hend
  exact ⟨log, htrack, (lists_track p p.meaning e _ _ _ _ htrack).symm⟩

/-- In `x = y = 1` the inner assignment comes first. -/
theorem writesIn_eq_reported_chained :
    ∃ log s', track ⟨⟨none, []⟩, ""⟩ (Program.meaning ⟨⟨none, []⟩, ""⟩)
        (.assign .plain (.name "x") (.assign .plain (.name "y") (.lit (.int 1))))
        { State.initial with frame := .start "A" [("x", .null), ("y", .null)] } =
      .done (.int 1, log) s' ∧ [Write.ofVariable "y", Write.ofVariable "x"] = reported log := by
  rcases writesIn_eq_reported ⟨⟨none, []⟩, ""⟩ 3
    (.assign .plain (.name "x") (.assign .plain (.name "y") (.lit (.int 1))))
    { State.initial with frame := .start "A" [("x", .null), ("y", .null)] } rfl with
    ⟨log, htrack, hlog⟩
  exact ⟨log, _, htrack, hlog⟩

end Weave
end TraceWeaving
