import Trampoline.Proofs.Correspondence
import Trampoline.Proofs.Flow

/-!
The free run of the machine follows the direct evaluator. A value is handed to the continuation, a
failure ends the run where it happens, and an evaluation that the bound cuts off stands for a run of at
least as many calls.
-/

set_option autoImplicit false

namespace Trampoline

def Call.kont : Call → Kont
  | .evaluate _ _ _ k => k
  | .items _ _ _ _ k => k
  | .arguments _ _ _ _ _ k => k
  | .bindings _ _ _ _ k => k
  | .enter _ _ _ k => k
  | .apply _ _ _ _ k => k
  | .resume k _ => k

def unwind : Kont → World → World
  | [], w => w
  | .timed start env :: k, w => unwind k (w.reportElapsed env start)
  | _ :: k, w => unwind k w

theorem unwind_append (k k' : Kont) (w : World) : unwind (k ++ k') w = unwind k' (unwind k w) := by
  induction k generalizing w with
  | nil => rfl
  | cons frame k ih => cases frame <;> exact ih _

def Failure.ending : Failure → Ending
  | .halted => .halted
  | cause => .failed cause.inCps

-- Both sides come to the call that fails. The frames above `k` are those that the evaluation put
-- there; on its way out the direct evaluator passes through them.
def Fails (s s' : World) (start : Call × World) (k : Kont) (cause : Failure) (w : World) : Prop :=
  ∃ c u w' frames, Call.Leads start (c, w') ∧ c.kont = frames ++ k ∧
    c.perform w' = .ended cause.ending w' ∧ Paired s s' u w' ∧ w = unwind frames u

-- Where the direct evaluator refuses what only the machine has, the machine may do as it likes.
def Simulates (s s' : World) (bound : Nat) (start : Call × World) (k : Kont) :
    Direct.Outcome Value → Prop
  | .done v w => v.IsDirect ∧ ∃ w', Paired s s' w w' ∧ Call.Leads start (.resume k v.inCps, w')
  | .failed cause w => cause.kind = .unsupported ∨ Fails s s' start k cause w
  | .unfinished => start.1.flow bound start.2 = none

section

variable {s s' : World} {bound : Nat} {k : Kont}

theorem simulates_leads {start next : Call × World} {outcome : Direct.Outcome Value}
    (leads : Call.Leads start next) (simulates : Simulates s s' bound next k outcome) :
    Simulates s s' bound start k outcome := by
  cases outcome with
  | done v w =>
      obtain ⟨direct, w', pair, rest⟩ := simulates
      exact ⟨direct, w', pair, leads.trans rest⟩
  | failed cause w =>
      rcases simulates with unsupported | ⟨c, u, w', frames, rest, failed⟩
      · exact .inl unsupported
      · exact .inr ⟨c, u, w', frames, leads.trans rest, failed⟩
  | unfinished => exact Call.leads_unfinished bound leads simulates

theorem simulates_call {c c' : Call} {w w' : World} {outcome : Direct.Outcome Value}
    (made : c.perform w = .call c' w') (simulates : Simulates s s' bound (c', w') k outcome) :
    Simulates s s' bound (c, w) k outcome :=
  simulates_leads (.single made) simulates

theorem simulates_deeper {c c' : Call} {w w' : World} {outcome : Direct.Outcome Value}
    (made : c.perform w = .call c' w') (simulates : Simulates s s' bound (c', w') k outcome) :
    Simulates s s' (bound + 1) (c, w) k outcome := by
  cases outcome with
  | done v u => exact simulates_call made simulates
  | failed cause u => exact simulates_call made simulates
  | unfinished => exact (Call.flow_call made bound).trans simulates

theorem simulates_fails {c : Call} {w w' : World} {cause : Failure} (frames : Kont)
    (pair : Paired s s' w w') (kont : c.kont = frames ++ k) (untimed : unwind frames w = w)
    (failed : c.perform w' = .ended cause.ending w') :
    Simulates s s' bound (c, w') k (.failed cause w) :=
  .inr ⟨c, w, w', frames, .refl, kont, failed, pair, untimed.symm⟩

theorem simulates_bind {start : Call × World} {x : Direct.Eval Value}
    {f : Value → Direct.Eval Value} {w : World} (frame : Frame)
    (untimed : ∀ u, unwind [frame] u = u)
    (first : Simulates s s' bound start (frame :: k) (x w))
    (rest : ∀ v u u', v.IsDirect → Paired s s' u u' →
      Simulates s s' bound (.resume (frame :: k) v.inCps, u') k (f v u)) :
    Simulates s s' bound start k (Direct.Eval.bind x f w) := by
  unfold Direct.Eval.bind
  cases outcome : x w with
  | done v u =>
      rw [outcome] at first
      obtain ⟨direct, u', pair, leads⟩ := first
      exact simulates_leads leads (rest v u u' direct pair)
  | failed cause u =>
      rw [outcome] at first
      rcases first with unsupported | ⟨c, v, v', frames, leads, kont, failed, pair, unwound⟩
      · exact .inl unsupported
      · refine .inr ⟨c, v, v', frames ++ [frame], leads, by simp [kont], failed, pair, ?_⟩
        rw [unwind_append, untimed, unwound]
  | unfinished =>
      rw [outcome] at first
      exact first

theorem simulates_timed {start : Call × World} {x : Direct.Eval Value} {env : Env} {began : Nat}
    {w : World} (thunk : Simulates s s' bound start (.timed began env :: k) (x w)) :
    Simulates s s' bound start k
      (match x w with
      | .done v u => .done v (u.reportElapsed env began)
      | .failed cause u => .failed cause (u.reportElapsed env began)
      | .unfinished => .unfinished) := by
  cases outcome : x w with
  | done v u =>
      rw [outcome] at thunk
      obtain ⟨direct, u', pair, leads⟩ := thunk
      exact ⟨direct, _, pair.reportElapsed env began, leads.tail rfl⟩
  | failed cause u =>
      rw [outcome] at thunk
      rcases thunk with unsupported | ⟨c, v, v', frames, leads, kont, failed, pair, unwound⟩
      · exact .inl unsupported
      · refine .inr ⟨c, v, v', frames ++ [.timed began env], leads, by simp [kont], failed, pair, ?_⟩
        rw [unwind_append, ← unwound]
        rfl
  | unfinished =>
      rw [outcome] at thunk
      exact thunk

end

theorem Direct.Eval.bind_assoc {α β γ : Type} (x : Direct.Eval α) (f : α → Direct.Eval β)
    (g : β → Direct.Eval γ) : bind (bind x f) g = bind x fun a => bind (f a) g := by
  funext w
  simp only [bind]
  cases x w <;> rfl

section

variable (m : MachineId) (s s' : World) (bound : Nat)

def EvalSimulated : Prop :=
  ∀ e env k w w', Paired s s' w w' →
    Simulates s s' bound (.evaluate m e env k, w') k (Direct.eval bound e env w)

def CallSimulated : Prop :=
  ∀ func args env k w w', Paired s s' w w' → func.IsDirect → (∀ v ∈ args, v.IsDirect) →
    Simulates s s' bound (.apply m func.inCps (args.map Value.inCps) env k, w') k
      (Direct.call bound func args env w)

variable {m s s' bound} {k : Kont} {w w' : World}

theorem evalLast_simulated (eval : EvalSimulated m s s' bound) (env : Env) (es : List Expr)
    (last : Value) (direct : last.IsDirect) (pair : Paired s s' w w') :
    Simulates s s' bound (.items m last.inCps es env k, w') k
      (Direct.evalLast (Direct.eval bound) env last es w) := by
  induction es generalizing last w w' with
  | nil => exact ⟨direct, w', pair, .single rfl⟩
  | cons e es ih =>
      refine simulates_call rfl (simulates_bind (.item m es env) (fun _ => rfl)
        (eval e env _ w w' pair) ?_)
      intro v u u' directV pairU
      exact simulates_call rfl (ih v directV pairU)

theorem arguments_simulated (eval : EvalSimulated m s s' bound) (call : CallSimulated m s s' bound)
    (func : Value) (env : Env) (es : List Expr) (done : List Value) (directF : func.IsDirect)
    (directD : ∀ v ∈ done, v.IsDirect) (pair : Paired s s' w w') :
    Simulates s s' bound (.arguments m func.inCps (done.map Value.inCps) es env k, w') k
      (Direct.Eval.bind (Direct.evalEach (Direct.eval bound) env es)
        (fun vs => Direct.call bound func (done ++ vs) env) w) := by
  induction es generalizing done w w' with
  | nil =>
      refine simulates_call rfl ?_
      have called := call func done env k w w' pair directF directD
      simpa only [Direct.evalEach, Direct.Eval.bind, Direct.Eval.pure, List.append_nil] using called
  | cons e es ih =>
      have split : Direct.Eval.bind (Direct.evalEach (Direct.eval bound) env (e :: es))
            (fun vs => Direct.call bound func (done ++ vs) env) =
          Direct.Eval.bind (Direct.eval bound e env) fun v =>
            Direct.Eval.bind (Direct.evalEach (Direct.eval bound) env es)
              fun vs => Direct.call bound func (done ++ [v] ++ vs) env := by
        simp only [Direct.evalEach, List.append_assoc, List.cons_append, List.nil_append]
        exact (Direct.Eval.bind_assoc _ _ _).trans
          (congrArg _ (funext fun v => Direct.Eval.bind_assoc _ _ _))
      rw [split]
      refine simulates_call rfl (simulates_bind (.argument m func.inCps (done.map Value.inCps) es env)
        (fun _ => rfl) (eval e env _ w w' pair) ?_)
      intro v u u' directV pairU
      have directDone : ∀ x ∈ done ++ [v], x.IsDirect :=
        List.forall_mem_append.mpr ⟨directD, List.forall_mem_singleton.mpr directV⟩
      refine simulates_call rfl ?_
      have rest := ih (done ++ [v]) directDone pairU
      rwa [List.map_append] at rest

theorem bindings_simulated (eval : EvalSimulated m s s' bound) (body : Expr) (bs : List Binding)
    (env : Env) (pair : Paired s s' w w') :
    Simulates s s' bound (.bindings m bs body env k, w') k
      (Direct.Eval.bind (Direct.evalBindings (Direct.eval bound) env bs)
        (fun inner => Direct.eval bound body inner) w) := by
  induction bs generalizing env w w' with
  | nil => exact simulates_call rfl (eval body env k w w' pair)
  | cons b bs ih =>
      obtain ⟨name, init⟩ := b
      have split : Direct.Eval.bind (Direct.evalBindings (Direct.eval bound) env (.mk name init :: bs))
            (fun inner => Direct.eval bound body inner) =
          Direct.Eval.bind (Direct.evalInit (Direct.eval bound) env init) fun v w =>
            Direct.Eval.bind (Direct.evalBindings (Direct.eval bound) (w.bind env name v).1 bs)
              (fun inner => Direct.eval bound body inner) (w.bind env name v).2 := by
        simp only [Direct.evalBindings]
        exact (Direct.Eval.bind_assoc _ _ _).trans
          (congrArg _ (funext fun v => Direct.Eval.bind_assoc _ _ _))
      rw [split]
      have first : Simulates s s' bound (.bindings m (.mk name init :: bs) body env k, w')
          (.init m name bs body env :: k) (Direct.evalInit (Direct.eval bound) env init w) := by
        by_cases absent : init.isHole
        · simp only [Direct.evalInit, if_pos absent]
          refine ⟨trivial, w', pair, .single ?_⟩
          simp only [Call.perform, Call.nextBinding, if_pos absent]
          rfl
        · simp only [Direct.evalInit, if_neg absent]
          refine simulates_call ?_ (eval init env _ w w' pair)
          simp only [Call.perform, Call.nextBinding, if_neg absent]
      refine simulates_bind (.init m name bs body env) (fun _ => rfl) first ?_
      intro v u u' directV pairU
      obtain ⟨sameEnv, pairInner⟩ := pairU.bind env name v directV
      have made : (Call.resume (.init m name bs body env :: k) v.inCps).perform u' =
          .call (.bindings m bs body (u'.bind env name v.inCps).1 k)
            (u'.bind env name v.inCps).2 := rfl
      rw [sameEnv] at made
      exact simulates_call made (ih _ pairInner)

theorem read_simulated (env : Env) (name : String) (pair : Paired s s' w w') :
    Simulates s s' bound (.evaluate m (.var name) env k, w') k (Direct.read env name w) := by
  have found := Store.get?_mapValues Value.inCps w.store env name
  rw [← pair.corresponding.store] at found
  unfold Direct.read
  cases here : w.store.get? env name with
  | none =>
      rw [here] at found
      refine simulates_fails [] pair rfl rfl ?_
      simp only [Call.perform, Call.evaluateExpr, found]
      rfl
  | some v =>
      rw [here] at found
      refine ⟨Store.holds_get? pair.corresponding.direct env name v here, w', pair, .single ?_⟩
      simp only [Call.perform, Call.evaluateExpr, found]
      rfl

theorem write_simulated (env : Env) (name : String) (v : Value) (direct : v.IsDirect)
    (pair : Paired s s' w w') :
    Simulates s s' bound (.resume (.assign m name env :: k) v.inCps, w') k
      (Direct.write env name v w) := by
  have found := Store.target?_mapValues Value.inCps w.store env name
  rw [← pair.corresponding.store] at found
  unfold Direct.write
  cases here : w.store.target? env name with
  | none =>
      rw [here] at found
      refine simulates_fails [.assign m name env] pair rfl rfl ?_
      simp only [Call.perform, Call.resumeFrame, found]
      rfl
  | some i =>
      rw [here] at found
      refine ⟨direct, w'.setVar i name v.inCps, pair.setVar i name v direct, .single ?_⟩
      simp only [Call.perform, Call.resumeFrame, found]

theorem operator_simulated (op : String) (a b : Value) (directA : a.IsDirect) (directB : b.IsDirect)
    (pair : Paired s s' w w') :
    Simulates s s' bound (.resume (.right m op a.inCps :: k) b.inCps, w') k
      (Direct.Eval.ofExcept (applyOperator op a b) w) := by
  have applied := applyOperator_inCps op a b directA directB
  cases result : applyOperator op a b with
  | ok v =>
      rw [result] at applied
      refine ⟨?_, w', pair, .single ?_⟩
      · exact applyOperator_holds (fun _ => trivial) (fun _ => trivial) op a b v directA directB result
      · simp only [Call.perform, Call.resumeFrame, applied]
        rfl
  | error cause =>
      rw [result] at applied
      refine simulates_fails [.right m op a.inCps] pair rfl rfl ?_
      simp only [Call.perform, Call.resumeFrame, applied]
      cases applyOperator_error op a b cause result <;> rfl

theorem branch_simulated (eval : EvalSimulated m s s' bound) (v : Value) (yes no : Expr) (env : Env)
    (pair : Paired s s' w w') :
    Simulates s s' bound (.resume (.branch m yes no env :: k) v.inCps, w') k
      ((if v.truthy then Direct.eval bound yes env
        else if no.isHole then Direct.Eval.pure .no
        else Direct.eval bound no env : Direct.Eval Value) w) := by
  have chosen : (Call.resume (.branch m yes no env :: k) v.inCps).perform w' =
      if v.truthy then .call (.evaluate m yes env k) w'
      else if no.isHole then .call (.resume k .no) w'
      else .call (.evaluate m no env k) w' := by
    rw [← Value.truthy_inCps v]
    rfl
  by_cases truth : v.truthy = true
  · rw [if_pos truth] at chosen ⊢
    exact simulates_call chosen (eval yes env k w w' pair)
  · rw [if_neg truth] at chosen ⊢
    by_cases absent : no.isHole = true
    · rw [if_pos absent] at chosen ⊢
      exact ⟨trivial, w', pair, .single chosen⟩
    · rw [if_neg absent] at chosen ⊢
      exact simulates_call chosen (eval no env k w w' pair)

theorem eval_simulated_succ (eval : EvalSimulated m s s' bound) (call : CallSimulated m s s' bound) :
    EvalSimulated m s s' (bound + 1) := by
  intro e env k w w' pair
  cases e with
  | num x => exact ⟨trivial, w', pair, .single rfl⟩
  | str x => exact ⟨trivial, w', pair, .single rfl⟩
  | bool x => exact ⟨trivial, w', pair, .single rfl⟩
  | var name => exact read_simulated env name pair
  | assign target value =>
      cases target with
      | var name =>
          refine simulates_deeper rfl (simulates_bind (.assign m name env) (fun _ => rfl)
            (eval value env _ w w' pair) ?_)
          intro v u u' direct pairU
          exact write_simulated env name v direct pairU
      | _ => exact simulates_fails [] pair rfl rfl rfl
  | binary op left right =>
      refine simulates_deeper rfl (simulates_bind (.left m op right env) (fun _ => rfl)
        (eval left env _ w w' pair) ?_)
      intro a u u' directA pairU
      refine simulates_call rfl (simulates_bind (.right m op a.inCps) (fun _ => rfl)
        (eval right env _ u u' pairU) ?_)
      intro b v v' directB pairV
      exact operator_simulated op a b directA directB pairV
  | lambda params body name =>
      obtain ⟨c, made, made', next⟩ := pair.makeClosure params body name env
      have evaluated : Direct.eval (bound + 1) (.lambda params body name) env w =
          .done (w.makeClosure params body name env).1 (w.makeClosure params body name env).2 := rfl
      have performed : (Call.evaluate m (.lambda params body name) env k).perform w' =
          .call (.resume k (w'.makeClosure params body name env).1)
            (w'.makeClosure params body name env).2 := rfl
      rw [made] at evaluated
      rw [made'] at performed
      rw [evaluated]
      exact ⟨trivial, _, next, .single performed⟩
  | cond test yes no =>
      refine simulates_deeper rfl (simulates_bind (.branch m yes no env) (fun _ => rfl)
        (eval test env _ w w' pair) ?_)
      intro v u u' _ pairU
      exact branch_simulated eval v yes no env pairU
  | prog body => exact simulates_deeper rfl (evalLast_simulated eval env body .no trivial pair)
  | call func args =>
      refine simulates_deeper rfl (simulates_bind (.callee m args env) (fun _ => rfl)
        (eval func env _ w w' pair) ?_)
      intro f u u' direct pairU
      exact simulates_call rfl (arguments_simulated eval call f env args [] direct (by simp) pairU)
  | letIn bs body => exact simulates_deeper rfl (bindings_simulated eval body bs env pair)
  | hole => exact simulates_fails [] pair rfl rfl rfl
  | binding b => exact simulates_fails [] pair rfl rfl rfl

theorem builtin_simulated (call : CallSimulated m s s' bound) (b : Builtin) (args : List Value)
    (env : Env) (pair : Paired s s' w w') (sync : b.mode = .sync)
    (direct : ∀ v ∈ args, v.IsDirect) :
    Simulates s s' (bound + 1)
      (.apply m (.builtin b.inCps) (args.map Value.inCps) env k, w') k
      (Direct.callBuiltin (fun f => Direct.call bound f [] env) b args env w) := by
  obtain ⟨name, mode, action, stamp⟩ := b
  cases sync
  cases action with
  | print =>
      refine ⟨trivial, w'.writeLine env (printText args), pair.writeLine env _, .single ?_⟩
      simp only [Call.perform, Call.applyValue, Builtin.inCps, Call.applyBuiltin, printText_inCps]
      rfl
  | time =>
      obtain ⟨sameTime, read⟩ := pair.readClock
      have thunk := call (firstArg args) [] env (.timed w.readClock.1 env :: k) _ _ read
        (firstArg_holds trivial args direct) (by simp)
      have made : (Call.apply m (.builtin ⟨name, .cps, .time, stamp⟩) (args.map Value.inCps) env k).perform
            w' =
          .call (.apply m (firstArg (args.map Value.inCps)) [] env (.timed w'.readClock.1 env :: k))
            w'.readClock.2 := rfl
      rw [sameTime, firstArg_map Value.inCps rfl] at made
      exact simulates_deeper made (simulates_timed thunk)
  | halt => exact simulates_fails [] pair rfl rfl rfl
  | sleep => exact .inl rfl
  | callcc => exact .inl rfl

theorem call_simulated_succ (eval : EvalSimulated m s s' bound) (call : CallSimulated m s s' bound) :
    CallSimulated m s s' (bound + 1) := by
  intro func args env k w w' pair directF directA
  cases func with
  | closure c =>
      obtain ⟨sameEnv, inner⟩ := pair.bindParams c args directA
      have made : (Call.enter m c (args.map Value.inCps) k).perform w' =
          .call (.evaluate m c.body (w'.bindParams c (args.map Value.inCps)).1 k)
            (w'.bindParams c (args.map Value.inCps)).2 := rfl
      rw [sameEnv] at made
      exact simulates_deeper rfl (simulates_call made (eval c.body _ k _ _ inner))
  | builtin b => exact builtin_simulated call b args env pair directF directA
  | continuation stamp frames => exact directF.elim
  | _ => exact simulates_fails [] pair rfl rfl rfl

theorem simulated (m : MachineId) (s s' : World) (bound : Nat) :
    EvalSimulated m s s' bound ∧ CallSimulated m s s' bound := by
  induction bound with
  | zero => exact ⟨fun _ _ _ _ _ _ => rfl, fun _ _ _ _ _ _ _ _ _ => rfl⟩
  | succ bound ih => exact ⟨eval_simulated_succ ih.1 ih.2, call_simulated_succ ih.1 ih.2⟩

end

end Trampoline
