import TraceWeaving.Proofs.Weave.Traced

/-!
# Returned values

A `return` hands over its value, and its method may report the value on the way.  Moving
the value into a variable first, and putting a report in front of the `return`, comes to
the same as a `return` that reports the value itself: the variable stands in the scope
that the `return` ends.
-/

namespace TraceWeaving

namespace Code.Stmt

def withLoopBody (s body : Stmt) : Stmt :=
  match s with
  | whileLoop cond _ => whileLoop cond body
  | doWhile _ cond => doWhile body cond
  | forLoop init cond update _ => forLoop init cond update body
  | forEach type ident items _ => forEach type ident items body
  | s => s

theorem exists_body_of_isLoop {s : Stmt} (hs : s.isLoop = true) : ∃ body, s.bodies = [body] := by
  cases s with
  | whileLoop _ body | doWhile body _ | forLoop _ _ _ body | forEach _ _ _ body =>
      exact ⟨body, rfl⟩
  | block _ | decl _ _ _ | expr _ | ifElse _ _ _ | labeled _ _ | switch _ _ | breakTo _
  | continueTo _ | ret _ | raise _ | tryCatch _ _ _ | sync _ _ | unmodelled _ =>
      exact absurd hs (by simp [isLoop])

end Code.Stmt

namespace Eval

open Code
open Weave

/-! ## Exchanging statements of lists -/

/-- The statements of a list with everything nested in them exchanged.  A `return` with a
value stands as it was, any other statement does the same under its own rule. -/
def Stands (E : Evaluator) (ρ ρ' : Expr → Action Value) (ok : Expr → Prop) (s' s : Stmt) :
    Prop :=
  match s with
  | .ret (some value) => s' = .ret (some value) ∧ ok value
  | s => isValueReturn s' = false ∧ (plain E ρ).exec s' = (plain E ρ').exec s

/-- Exchanging the statements of a list makes up for another rule for `return`. -/
def Exchanges (E : Evaluator) (ρ ρ' : Expr → Action Value) (ok : Expr → Prop)
    (f : List Stmt → Naming (List Stmt)) : Prop :=
  ∀ {stmts stmts' : List Stmt} (n : Nat), List.Forall₂ (Stands E ρ ρ' ok) stmts' stmts →
    SameEnd ((plain E ρ).execAll (f stmts' n).1) ((plain E ρ').execAll stmts)

/-- Every returned value satisfies a condition, and every `return` stands in a list. -/
def ReturnsIn (ok : Expr → Prop) (s : Stmt) : Prop :=
  returnsBare s = false ∧ ∀ value, s = .ret (some value) → ok value

section

variable {E : Evaluator} {ρ ρ' : Expr → Action Value} {ok : Expr → Prop}
variable {f : List Stmt → Naming (List Stmt)}

theorem Stands.cases {s' s : Stmt} (h : Stands E ρ ρ' ok s' s) :
    (∃ value, s = .ret (some value) ∧ s' = .ret (some value) ∧ ok value) ∨
      isValueReturn s' = false ∧ (plain E ρ).exec s' = (plain E ρ').exec s := by
  cases s with
  | ret value =>
      cases value with
      | none => exact .inr h
      | some value => exact .inl ⟨value, rfl, h.1, h.2⟩
  | block _ | decl _ _ _ | expr _ | ifElse _ _ _ | whileLoop _ _ | doWhile _ _
  | forLoop _ _ _ _ | forEach _ _ _ _ | labeled _ _ | switch _ _ | breakTo _ | continueTo _
  | raise _ | tryCatch _ _ _ | sync _ _ | unmodelled _ => exact .inr h

theorem Stands.exec_eq {s' s : Stmt} (h : Stands E ρ ρ' ok s' s) (hs : isValueReturn s = false) :
    (plain E ρ).exec s' = (plain E ρ').exec s := by
  rcases h.cases with ⟨value, rfl, _⟩ | h
  · exact absurd hs (by simp [isValueReturn])
  · exact h.2

/-- A statement with the same head and other parts stands in place of one that hands no
value over. -/
theorem Stands.of_exec {s' s : Stmt} (hhead : s'.head = s.head) (hs : isValueReturn s = false)
    (h : (plain E ρ).exec s' = (plain E ρ').exec s) : Stands E ρ ρ' ok s' s := by
  have hs' : isValueReturn s' = false := (isValueReturn_of_head hhead).trans hs
  cases s with
  | ret value =>
      cases value with
      | none => exact ⟨hs', h⟩
      | some value => exact nomatch hs
  | block _ | decl _ _ _ | expr _ | ifElse _ _ _ | whileLoop _ _ | doWhile _ _
  | forLoop _ _ _ _ | forEach _ _ _ _ | labeled _ _ | switch _ _ | breakTo _ | continueTo _
  | raise _ | tryCatch _ _ _ | sync _ _ | unmodelled _ => exact ⟨hs', h⟩

theorem eval_plain_same : (plain E ρ).eval = (plain E ρ').eval :=
  (eval_plain E ρ).trans (eval_plain E ρ').symm

/-! ## Parts that do the same -/

theorem exec_plain_alone {s : Stmt} (hbodies : s.bodies = []) (hlists : s.lists = [])
    (hret : isValueReturn s = false) : (plain E ρ).exec s = (plain E ρ').exec s := by
  have heval : (plain E ρ).eval = (plain E ρ').eval := eval_plain_same
  rw [exec_plain, exec_plain]
  cases s with
  | decl type ident init =>
      show execDecl (plain E ρ) type ident init = execDecl (plain E ρ') type ident init
      unfold execDecl Evaluator.evalInit
      rw [heval]
  | expr e =>
      show (plain E ρ).eval e >>= _ = (plain E ρ').eval e >>= _
      rw [heval]
  | raise value =>
      show (plain E ρ).eval value >>= _ = (plain E ρ').eval value >>= _
      rw [heval]
  | ret value =>
      cases value with
      | none =>
          show (Pure.pure (.returned .null) : Action Flow) = Pure.pure (.returned .null)
          rfl
      | some value => exact nomatch hret
  | breakTo label =>
      show (Pure.pure (.broke label) : Action Flow) = Pure.pure (.broke label)
      rfl
  | continueTo label =>
      show (Pure.pure (.continued label) : Action Flow) = Pure.pure (.continued label)
      rfl
  | unmodelled text =>
      show (Action.fail (.unsupported text) : Action Flow) = Action.fail (.unsupported text)
      rfl
  | switch selector cases =>
      obtain rfl : cases = [] := List.map_eq_nil_iff.mp hlists
      exact execSwitch_congr heval selector .nil
  | ifElse _ _ _ | whileLoop _ _ | doWhile _ _ | forLoop _ _ _ _ | forEach _ _ _ _
  | labeled _ _ => exact nomatch hbodies
  | block _ | tryCatch _ _ _ | sync _ _ => exact nomatch hlists

theorem exec_plain_ifElse_congr (cond : Expr) {ifTrue ifTrue' : Stmt}
    {ifFalse ifFalse' : Option Stmt} (htrue : (plain E ρ).exec ifTrue' = (plain E ρ').exec ifTrue)
    (hfalse : execElse (plain E ρ) ifFalse' = execElse (plain E ρ') ifFalse) :
    (plain E ρ).exec (.ifElse cond ifTrue' ifFalse') =
      (plain E ρ').exec (.ifElse cond ifTrue ifFalse) := by
  rw [exec_plain_ifElse, exec_plain_ifElse, htrue, hfalse]

theorem exec_plain_labeled_congr (label : String) {body body' : Stmt}
    (hloop : body'.isLoop = body.isLoop)
    (hrounds : body.isLoop = true →
      execLoop (plain E ρ) (some label) body' = execLoop (plain E ρ') (some label) body)
    (hbody : (plain E ρ).exec body' = (plain E ρ').exec body) :
    (plain E ρ).exec (.labeled label body') = (plain E ρ').exec (.labeled label body) := by
  rw [exec_plain, exec_plain]
  show execLabeled _ label body' = execLabeled _ label body
  cases hb : body.isLoop with
  | true =>
      unfold execLabeled
      rw [if_pos (hloop.trans hb), if_pos hb]
      exact hrounds hb
  | false => rw [execLabeled_eq _ _ (hloop.trans hb), execLabeled_eq _ _ hb, hbody]

theorem exec_plain_tryCatch_congr {body body' : List Stmt} {catches catches' : List CatchClause}
    {cleanup cleanup' : Option (List Stmt)}
    (hbody : SameEnd ((plain E ρ).execAll body') ((plain E ρ').execAll body))
    (hcatches : List.Forall₂ (CatchesAgree (plain E ρ) (plain E ρ')) catches' catches)
    (hcleanup : cleanup'.map (plain E ρ).execBlock = cleanup.map (plain E ρ').execBlock) :
    (plain E ρ).exec (.tryCatch body' catches' cleanup') =
      (plain E ρ').exec (.tryCatch body catches cleanup) := by
  rw [exec_plain, exec_plain]
  show execTry (plain E ρ) body' catches' cleanup' = execTry (plain E ρ') body catches cleanup
  exact execTry_congr (execBlock_congr hbody) hcatches hcleanup

theorem exec_plain_sync_congr (lock : Expr) {body body' : List Stmt}
    (h : SameEnd ((plain E ρ).execAll body') ((plain E ρ').execAll body)) :
    (plain E ρ).exec (.sync lock body') = (plain E ρ').exec (.sync lock body) := by
  have heval : (plain E ρ).eval = (plain E ρ').eval := eval_plain_same
  have hblock : (plain E ρ).execBlock body' = (plain E ρ').execBlock body := execBlock_congr h
  rw [exec_plain, exec_plain]
  show (plain E ρ).eval lock >>= (fun _ => (plain E ρ).execBlock body') =
    (plain E ρ').eval lock >>= fun _ => (plain E ρ').execBlock body
  rw [heval, hblock]

/-! ## Loops -/

theorem iterate_plain_congr {label : Option String} {loop loop' : Loop}
    (h : ∀ goOn, loopRound (plain E ρ) label loop goOn = loopRound (plain E ρ') label loop' goOn) :
    (plain E ρ).iterate label loop = (plain E ρ').iterate label loop' :=
  (regular_plainRules E ρ).iterate_congr (regular_plainRules E ρ') h

theorem execLoop_withLoopBody {s body' : Stmt} (hs : s.isLoop = true)
    (hbody : ∀ t ∈ s.bodies, (plain E ρ).exec body' = (plain E ρ').exec t)
    (label : Option String) :
    execLoop (plain E ρ) label (s.withLoopBody body') = execLoop (plain E ρ') label s := by
  have heval : (plain E ρ).eval = (plain E ρ').eval := eval_plain_same
  cases s with
  | whileLoop cond body =>
      have h := hbody body (List.mem_singleton_self body)
      refine iterate_plain_congr fun goOn => ?_
      show (plain E ρ).evalBool cond "while" >>= _ = (plain E ρ').evalBool cond "while" >>= _
      rw [evalBool_congr heval]
      simp only [afterBody_congr h]
  | doWhile body cond =>
      have h := hbody body (List.mem_singleton_self body)
      refine iterate_plain_congr fun goOn => ?_
      show afterBody (plain E ρ) label _ ((plain E ρ).evalBool cond "do-while" >>= _) =
        afterBody (plain E ρ') label body ((plain E ρ').evalBool cond "do-while" >>= _)
      rw [evalBool_congr heval, afterBody_congr h]
  | forLoop init cond update body =>
      have h := hbody body (List.mem_singleton_self body)
      have hloop : (plain E ρ).iterate label (.forLoop cond update body') =
          (plain E ρ').iterate label (.forLoop cond update body) := by
        refine iterate_plain_congr fun goOn => ?_
        have htest : evalForTest (plain E ρ) cond = evalForTest (plain E ρ') cond := by
          cases cond with
          | none => rfl
          | some test => exact evalBool_congr heval test "for"
        show (evalForTest (plain E ρ) cond >>= fun holds => if holds then
            afterBody (plain E ρ) label _ ((plain E ρ).evalEach update >>= fun _ => goOn)
          else Pure.pure .normal) = (evalForTest (plain E ρ') cond >>= _)
        rw [htest, evalEach_congr heval]
        simp only [afterBody_congr h]
      show Action.inScope (execForInit (plain E ρ) init >>= fun _ =>
        (plain E ρ).iterate label _) = Action.inScope _
      rw [hloop, execForInit_congr heval]
  | forEach type ident items body =>
      exact execForEach_congr heval label ident items (hbody body (List.mem_singleton_self body))
  | block _ | decl _ _ _ | expr _ | ifElse _ _ _ | labeled _ _ | switch _ _ | breakTo _
  | continueTo _ | ret _ | raise _ | tryCatch _ _ _ | sync _ _ | unmodelled _ =>
      exact absurd hs (by simp [Stmt.isLoop])

theorem execLoop_transformNested {s : Stmt} (hs : s.isLoop = true)
    (hbody : ∀ t ∈ s.bodies, ∀ n,
      (plain E ρ).exec (Stmt.transformNested f t n).1 = (plain E ρ').exec t)
    (label : Option String) (n : Nat) :
    execLoop (plain E ρ) label (Stmt.transformNested f s n).1 =
      execLoop (plain E ρ') label s := by
  have hloop : ∀ body ∈ s.bodies,
      (Stmt.transformNested f s n).1 = s.withLoopBody (Stmt.transformNested f body n).1 := by
    intro body hbody
    cases s with
    | whileLoop _ _ | doWhile _ _ | forLoop _ _ _ _ | forEach _ _ _ _ =>
        obtain rfl := List.mem_singleton.mp hbody
        rfl
    | block _ | decl _ _ _ | expr _ | ifElse _ _ _ | labeled _ _ | switch _ _ | breakTo _
    | continueTo _ | ret _ | raise _ | tryCatch _ _ _ | sync _ _ | unmodelled _ =>
        exact absurd hs (by simp [Stmt.isLoop])
  rcases Stmt.exists_body_of_isLoop hs with ⟨body, hs'⟩
  have hmem : body ∈ s.bodies := by rw [hs']; exact List.mem_singleton_self body
  rw [hloop body hmem]
  apply execLoop_withLoopBody hs
  intro t ht
  rw [hs'] at ht
  obtain rfl := List.mem_singleton.mp ht
  exact hbody t hmem n

/-! ## Statements -/

variable (hf : Exchanges E ρ ρ' ok f)

include hf

theorem sameEnd_transformLists {stmts : List Stmt}
    (h : ∀ s ∈ stmts, ∀ n, Stands E ρ ρ' ok (Stmt.transformNested f s n).1 s) (n : Nat) :
    SameEnd ((plain E ρ).execAll (transformLists f stmts n).1) ((plain E ρ').execAll stmts) := by
  have hstands : ∀ (stmts : List Stmt),
      (∀ s ∈ stmts, ∀ n, Stands E ρ ρ' ok (Stmt.transformNested f s n).1 s) → ∀ n,
        List.Forall₂ (Stands E ρ ρ' ok) (Stmt.transformNestedInAll f stmts n).1 stmts := by
    intro stmts
    induction stmts with
    | nil => exact fun _ _ => .nil
    | cons s rest ih =>
        intro h n
        apply List.Forall₂.cons (h s List.mem_cons_self n)
        exact ih (fun t ht => h t (List.mem_cons_of_mem s ht)) _
  exact hf _ (hstands stmts h n)

theorem casesAgree_transformCases {cases : List SwitchCase}
    (h : ∀ c ∈ cases, ∀ s ∈ c.body, ∀ n, Stands E ρ ρ' ok (Stmt.transformNested f s n).1 s)
    (n : Nat) :
    List.Forall₂ (CasesAgree (plain E ρ) (plain E ρ')) (Stmt.transformCases f cases n).1 cases := by
  induction cases generalizing n with
  | nil => exact .nil
  | cons c rest ih =>
      cases c with
      | mk labels body =>
          apply List.Forall₂.cons
          · exact ⟨rfl, sameEnd_transformLists hf (h _ List.mem_cons_self) n⟩
          · exact ih (fun c hc => h c (List.mem_cons_of_mem _ hc)) _

theorem catchesAgree_transformCatches {catches : List CatchClause}
    (h : ∀ c ∈ catches, ∀ s ∈ c.body, ∀ n, Stands E ρ ρ' ok (Stmt.transformNested f s n).1 s)
    (n : Nat) :
    List.Forall₂ (CatchesAgree (plain E ρ) (plain E ρ'))
      (Stmt.transformCatches f catches n).1 catches := by
  induction catches generalizing n with
  | nil => exact .nil
  | cons c rest ih =>
      cases c with
      | mk type ident body =>
          apply List.Forall₂.cons
          · exact ⟨rfl, rfl, sameEnd_transformLists hf (h _ List.mem_cons_self) n⟩
          · exact ih (fun c hc => h c (List.mem_cons_of_mem _ hc)) _

theorem cleanup_transformCleanup {cleanup : Option (List Stmt)}
    (h : ∀ stmts ∈ cleanup, ∀ s ∈ stmts, ∀ n,
      Stands E ρ ρ' ok (Stmt.transformNested f s n).1 s) (n : Nat) :
    (Stmt.transformCleanup f cleanup n).1.map (plain E ρ).execBlock =
      cleanup.map (plain E ρ').execBlock := by
  cases cleanup with
  | none =>
      show (none : Option (Action Flow)) = none
      rfl
  | some stmts => exact congrArg some (execBlock_congr (sameEnd_transformLists hf (h stmts rfl) n))

theorem stands_transformNested (s : Stmt) (h : s.Every (ReturnsIn ok)) :
    (∀ n, Stands E ρ ρ' ok (Stmt.transformNested f s n).1 s) ∧
      ∀ t ∈ s.bodies, ∀ n,
        (plain E ρ).exec (Stmt.transformNested f t n).1 = (plain E ρ').exec t := by
  induction s using Stmt.childInduction with
  | step s ih =>
      have hchild : ∀ t ∈ s.children, ∀ n, Stands E ρ ρ' ok (Stmt.transformNested f t n).1 t :=
        fun t ht => (ih t ht (h.child ht)).1
      have hbody : ∀ t ∈ s.bodies, ∀ n,
          (plain E ρ).exec (Stmt.transformNested f t n).1 = (plain E ρ').exec t := by
        intro t ht n
        apply (hchild t (Stmt.bodies_subset s ht) n).exec_eq
        have hbare : s.bodies.any isValueReturn = false := h.here.1
        simpa using List.any_eq_false.mp hbare t ht
      have heval : (plain E ρ).eval = (plain E ρ').eval := eval_plain_same
      refine ⟨fun n => ?_, hbody⟩
      by_cases hvalue : isValueReturn s = true
      · rcases eq_ret_of_isValueReturn hvalue with ⟨value, rfl⟩
        exact ⟨rfl, h.here.2 value rfl⟩
      have hret : isValueReturn s = false := Bool.eq_false_iff.mpr hvalue
      apply Stands.of_exec (head_transformNested s n) hret
      cases s with
      | decl _ _ _ | expr _ | breakTo _ | continueTo _ | ret _ | raise _ | unmodelled _ =>
          exact exec_plain_alone rfl rfl hret
      | block stmts =>
          show (plain E ρ).exec (.block (transformLists f stmts n).1) = _
          rw [exec_plain_block, exec_plain_block]
          exact execBlock_congr (sameEnd_transformLists hf hchild n)
      | ifElse cond ifTrue ifFalse =>
          apply exec_plain_ifElse_congr cond (hbody ifTrue List.mem_cons_self n)
          cases ifFalse with
          | none => rfl
          | some s => exact hbody s (List.mem_cons_of_mem _ (List.mem_singleton_self s)) _
      | whileLoop _ _ | doWhile _ _ | forLoop _ _ _ _ | forEach _ _ _ _ =>
          rw [exec_plain_loop rfl, exec_plain_loop rfl]
          exact execLoop_transformNested rfl hbody none n
      | labeled label body =>
          have hmem := List.mem_singleton_self body
          exact exec_plain_labeled_congr label (isLoop_transformNested f body n)
            (fun hb => execLoop_transformNested hb (ih body hmem (h.child hmem)).2 (some label) n)
            (hbody body hmem n)
      | switch selector cases =>
          rw [exec_plain, exec_plain]
          apply execSwitch_congr heval
          apply casesAgree_transformCases hf
          intro c hc s hs
          exact hchild s (List.mem_flatMap.mpr ⟨c, hc, hs⟩)
      | tryCatch body catches cleanup =>
          apply exec_plain_tryCatch_congr
          · apply sameEnd_transformLists hf
            intro s hs
            exact hchild s (List.mem_append_left _ (List.mem_append_left _ hs))
          · apply catchesAgree_transformCatches hf
            intro c hc s hs
            exact hchild s (List.mem_append_left _ (List.mem_append_right _
              (List.mem_flatMap.mpr ⟨c, hc, hs⟩)))
          · apply cleanup_transformCleanup hf
            intro stmts hstmts s hs
            obtain rfl : cleanup = some stmts := hstmts
            exact hchild s (List.mem_append_right _ hs)
      | sync lock body => exact exec_plain_sync_congr lock (sameEnd_transformLists hf hchild n)

theorem sameEnd_exchanged {stmts : List Stmt} (h : Stmt.EveryIn (ReturnsIn ok) stmts) (n : Nat) :
    SameEnd ((plain E ρ).execAll (transformLists f stmts n).1) ((plain E ρ').execAll stmts) :=
  sameEnd_transformLists hf (fun s hs => (stands_transformNested hf s (h s hs)).1) n

omit hf in
theorem exchanges_mapM {g : Stmt → Naming (List Stmt)}
    (hother : ∀ s n, isValueReturn s = false → g s n = ([s], n))
    (hreturn : ∀ value n, ok value → SameEnd ((plain E ρ).execAll (g (.ret (some value)) n).1)
      ((plain E ρ').exec (.ret (some value)))) :
    Exchanges E ρ ρ' ok fun stmts => do return (← stmts.mapM g).flatten := by
  intro stmts stmts' n h
  induction h generalizing n with
  | nil => exact .refl _
  | cons hs hrest ih =>
      rename_i s' s rest' rest
      have hlist : ((do return (← (s' :: rest').mapM g).flatten : Naming (List Stmt)) n).1 =
          (g s' n).1 ++ ((do return (← rest'.mapM g).flatten : Naming (List Stmt)) (g s' n).2).1 := by
        rw [List.mapM_cons]
        rfl
      have hhead : SameEnd ((plain E ρ).execAll (g s' n).1) ((plain E ρ').exec s) := by
        cases hs.cases with
        | inl hv =>
            rcases hv with ⟨value, rfl, rfl, hok⟩
            exact hreturn value n hok
        | inr hv =>
            rw [hother s' n hv.1, Evaluator.execAll_singleton]
            exact .of_eq hv.2
      rw [hlist, Evaluator.execAll_append, Evaluator.execAll_cons]
      exact hhead.ifNormal (ih _)

end

/-! ## Handing over a value -/

def handOver (id : String) (reported : Bool) (value : Value) : Action Value :=
  if reported then do
    let copy ← value.snapshot
    Action.record id (.returning copy)
    return value
  else return value

def returnRule (E : Evaluator) (id : String) (reported : Bool) (value : Expr) : Action Value :=
  E.eval value >>= handOver id reported

theorem returnRule_false (E : Evaluator) (id : String) : returnRule E id false = E.eval := by
  funext value
  exact bind_pure (E.eval value)

def Reads (x : Action Value) : Prop :=
  ∃ (g : View → Option Value) (f : Fault), x = Action.look g >>= Action.orFail f

/-- An evaluator with reports of returned values, for which names, literals and the own
object only read. -/
structure Handing (hooks : Hooks) (id : String) (E : Evaluator) : Prop where
  name : ∀ ident, E.eval (.name ident) = readName ident
  reads : ∀ value, value.isTrivial = true → Reads (E.eval value)
  returning : ∀ value, E.eval (hooks.call "returning" [.text id, value]) = (do
    let value ← E.eval value
    let copy ← value.snapshot
    Action.record id (.returning copy)
    return .null)

theorem Hosts.handing {p : Program} {E : Evaluator} (hE : Hosts p E) {hooks : Hooks}
    (hp : p.runtimeClass = hooks.runtimeClass) (id : String) : Handing hooks id E where
  name := hE.eval_name
  reads value hvalue := by
    cases value with
    | lit value =>
        exact ⟨fun _ => some (.ofLiteral value), .classNotFound "", hE.eval (.lit value) rfl⟩
    | self => exact ⟨fun v => some (.object v.cls), .classNotFound "", hE.eval .self rfl⟩
    | name ident => exact ⟨_, _, (hE.eval_name ident).trans (readName_eq ident)⟩
    | field _ _ | index _ _ | assign _ _ _ | unary _ _ | binary _ _ _ | conditional _ _ _
    | call _ _ _ | new _ _ | newArray _ _ | superCall _ | selfCall _ =>
        exact absurd hvalue (by simp [Expr.isTrivial])
  returning value := by
    rw [hE.eval_hook hp, evalHook_of_ne E (by decide)]
    simp only [Evaluator.evalAll_cons, Evaluator.evalAll_nil, hE.eval_text, bind_assoc, pure_bind]
    congr 1
    funext value
    rw [callHook_str]
    show (value.snapshot >>= fun copy => Pure.pure (Trace.Report.returning copy)) >>= _ = _
    simp only [bind_assoc, pure_bind]
    rfl

section

theorem popScope_declare (s : State) (name : String) (value : Value) :
    (s.declare name value).popScope = s.popScope := by
  have hscopes : (s.frame.declare name value).popScope = s.frame.popScope := by
    unfold Frame.declare Frame.popScope
    cases s.frame.scopes <;> rfl
  exact congrArg (fun frame => { s with frame := frame }) hscopes

theorem handOver_of_some {id : String} {value : Value} {s : State} {copy : Trace.Snapshot}
    (h : s.heap.snapshot? value = some copy) :
    handOver id true value s =
      .done value { s with recorder := s.recorder.receive id (.returning copy) } := by
  show (Action.orDiverge (s.heap.snapshot? value) >>= _) s = _
  rw [h]
  rfl

theorem handOver_of_none {id : String} {value : Value} {s : State}
    (h : s.heap.snapshot? value = none) : handOver id true value s = .exhausted := by
  show (Action.orDiverge (s.heap.snapshot? value) >>= _) s = _
  rw [h]
  rfl

theorem sameEnd_handOver (id : String) (reported : Bool) (name : String) (value : Value) :
    SameEnd
      (Action.modify (fun s => s.declare name value) >>= fun _ =>
        readName name >>= fun value => handOver id reported value >>= fun value =>
          Pure.pure (.returned value))
      (handOver id reported value >>= fun value => Pure.pure (.returned value)) := by
  intro s
  show Outcome.SameEnd ((readName name >>= _) (s.declare name value)) _
  rw [Action.bind_of_eq_done (readName_declare s name value)]
  cases reported with
  | false => exact .returned (popScope_declare s name value)
  | true =>
      show Outcome.SameEnd (Action.bind _ _ _) (Action.bind _ _ _)
      unfold Action.bind
      cases hcopy : s.heap.snapshot? value with
      | none =>
          have hdeclared : (s.declare name value).heap.snapshot? value = none := hcopy
          rw [handOver_of_none hcopy, handOver_of_none hdeclared]
          exact .same
      | some copy =>
          have hdeclared : (s.declare name value).heap.snapshot? value = some copy := hcopy
          rw [handOver_of_some hcopy, handOver_of_some hdeclared]
          exact .returned (popScope_declare
            { s with recorder := s.recorder.receive id (.returning copy) } name value)

variable {hooks : Hooks} {id : String} {E : Evaluator} (hE : Handing hooks id E)

include hE

/-- Moving a returned value into a variable first makes no difference. -/
theorem exchanges_extractReturns (reported : Bool) (keep : Expr → Bool) (type : TypeName) :
    Exchanges E (returnRule E id reported) (returnRule E id reported) (fun _ => True)
      (extractReturnsInList keep type) := by
  apply exchanges_mapM
  · intro s n hs
    unfold extractReturn
    split
    · exact absurd hs (by simp [isValueReturn])
    · rfl
  · intro value n _
    unfold extractReturn
    by_cases hkeep : keep value = true
    · simp only [hkeep, if_true]
      exact .of_eq (Evaluator.execAll_singleton _ _)
    · simp only [hkeep]
      show SameEnd ((plain E (returnRule E id reported)).execAll
        [.declare type (reservedName "return" n) value,
          .retValue (.name (reservedName "return" n))]) _
      rw [Evaluator.execAll_cons, Evaluator.execAll_singleton, exec_plain, exec_plain, exec_plain]
      show SameEnd (((plain E (returnRule E id reported)).eval value >>= fun v =>
          Action.modify (fun s => s.declare (reservedName "return" n) v) >>= fun _ =>
            Pure.pure Flow.normal) >>= ifNormal
          (returnRule E id reported (.name (reservedName "return" n)) >>= fun v =>
            Pure.pure (.returned v)))
        (returnRule E id reported value >>= fun v => Pure.pure (.returned v))
      unfold returnRule
      rw [eval_plain, hE.name]
      simp only [bind_assoc, pure_bind]
      exact SameEnd.after _ fun v => sameEnd_handOver id reported _ v

omit hE in
theorem Reads.again {x : Action Value} (hx : Reads x) (id : String) (k : Value → Action Flow) :
    (x >>= fun value => value.snapshot >>= fun copy =>
        Action.record id (.returning copy) >>= fun _ => x >>= k) =
      x >>= handOver id true >>= k := by
  rcases hx with ⟨g, f, rfl⟩
  funext s
  show (Action.orFail f (g s.view) >>= _ : Action Flow) s =
    (Action.bind (Action.orFail f (g s.view)) _ >>= k : Action Flow) s
  cases hg : g s.view with
  | none => rfl
  | some value =>
      show (Action.orDiverge (s.heap.snapshot? value) >>= _ : Action Flow) s =
        (handOver id true value >>= k : Action Flow) s
      cases hcopy : s.heap.snapshot? value with
      | none =>
          show _ = Action.bind (handOver id true value) k s
          unfold Action.bind
          rw [handOver_of_none hcopy]
          rfl
      | some copy =>
          rw [Action.bind_of_eq_done (handOver_of_some hcopy)]
          show (Action.orFail f (g s.view) >>= k : Action Flow) _ = _
          rw [hg]
          rfl

/-- A report in front of a `return` is a `return` that reports. -/
theorem exchanges_reportReturns :
    Exchanges E (returnRule E id false) (returnRule E id true) (fun value => value.isTrivial = true)
      (fun stmts => Pure.pure (stmts.flatMap (reportReturn hooks id))) := by
  have hlist : (fun stmts => Pure.pure (stmts.flatMap (reportReturn hooks id)) :
      List Stmt → Naming (List Stmt)) =
        fun stmts => do return (← stmts.mapM fun s => Pure.pure (reportReturn hooks id s)).flatten := by
    funext stmts
    rw [List.mapM_pure, pure_bind, List.flatMap]
  rw [hlist]
  apply exchanges_mapM
  · intro s n hs
    unfold reportReturn
    split
    · exact absurd hs (by simp [isValueReturn])
    · rfl
  · intro value n hvalue
    show SameEnd ((plain E (returnRule E id false)).execAll
      [hooks.returning id value, .retValue value]) _
    rw [Evaluator.execAll_cons, Evaluator.execAll_singleton, exec_plain, exec_plain, exec_plain]
    apply SameEnd.of_eq
    show ((plain E (returnRule E id false)).eval (hooks.call "returning" [.text id, value]) >>=
        fun _ => Pure.pure Flow.normal) >>= ifNormal (returnRule E id false value >>= fun v =>
          Pure.pure (.returned v)) =
      returnRule E id true value >>= fun v => Pure.pure (.returned v)
    rw [eval_plain, returnRule_false, hE.returning]
    unfold returnRule
    rw [← (hE.reads value hvalue).again]
    simp only [bind_assoc, pure_bind]
    rfl

end

end Eval
end TraceWeaving
