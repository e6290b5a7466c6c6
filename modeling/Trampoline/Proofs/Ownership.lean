import Trampoline.Machine.Timers
import Trampoline.Proofs.Operators
import Trampoline.Proofs.Stores

set_option autoImplicit false

namespace Trampoline

mutual

def Value.OwnedBy (m : MachineId) : Value → Prop
  | .continuation _ frames => framesOwnedBy m frames
  | _ => True

def Frame.OwnedBy (m : MachineId) : Frame → Prop
  | .final owner => owner = m
  | .assign owner _ _ => owner = m
  | .left owner _ _ _ => owner = m
  | .right owner _ left => owner = m ∧ left.OwnedBy m
  | .branch owner _ _ _ => owner = m
  | .item owner _ _ => owner = m
  | .callee owner _ _ => owner = m
  | .argument owner func done _ _ => owner = m ∧ func.OwnedBy m ∧ valuesOwnedBy m done
  | .init owner _ _ _ _ => owner = m
  | .timed _ _ => True

def framesOwnedBy (m : MachineId) : List Frame → Prop
  | [] => True
  | frame :: k => frame.OwnedBy m ∧ framesOwnedBy m k

def valuesOwnedBy (m : MachineId) : List Value → Prop
  | [] => True
  | v :: vs => v.OwnedBy m ∧ valuesOwnedBy m vs

end

theorem valuesOwnedBy_iff (m : MachineId) (vs : List Value) :
    valuesOwnedBy m vs ↔ ∀ v ∈ vs, v.OwnedBy m := by
  induction vs with
  | nil => simp [valuesOwnedBy]
  | cons v vs ih => simp [valuesOwnedBy, ih]

theorem firstArg_owned (m : MachineId) (args : List Value) (owned : valuesOwnedBy m args) :
    (firstArg args).OwnedBy m :=
  firstArg_holds trivial args ((valuesOwnedBy_iff m args).mp owned)

def Timer.OwnedBy (m : MachineId) (t : Timer) : Prop :=
  t.machine = m ∧ framesOwnedBy m t.kont ∧ t.value.OwnedBy m

abbrev Store.OwnedBy (m : MachineId) (s : Store) : Prop := s.Holds (Value.OwnedBy m)

def Call.OwnedBy (m : MachineId) : Call → Prop
  | .evaluate owner _ _ k => owner = m ∧ framesOwnedBy m k
  | .items owner last _ _ k => owner = m ∧ last.OwnedBy m ∧ framesOwnedBy m k
  | .arguments owner func done _ _ k =>
      owner = m ∧ func.OwnedBy m ∧ valuesOwnedBy m done ∧ framesOwnedBy m k
  | .bindings owner _ _ _ k => owner = m ∧ framesOwnedBy m k
  | .enter owner _ args k => owner = m ∧ valuesOwnedBy m args ∧ framesOwnedBy m k
  | .apply owner func args _ k =>
      owner = m ∧ func.OwnedBy m ∧ valuesOwnedBy m args ∧ framesOwnedBy m k
  | .resume k v => framesOwnedBy m k ∧ v.OwnedBy m

def Next.OwnedBy (m : MachineId) : Next → Prop
  | .call c w => c.OwnedBy m ∧ w.store.OwnedBy m
  | .ended _ w => w.store.OwnedBy m

theorem checkpoint_owner (m owner : MachineId) (point : Checkpoint) (c : Call) (owned : c.OwnedBy m)
    (check : c.checkpoint? = some (owner, point)) : owner = m := by
  cases c with
  | apply => simp [Call.checkpoint?] at check
  | resume k v =>
      cases k with
      | nil => simp [Call.checkpoint?] at check
      | cons frame k =>
          have mine : frame.OwnedBy m := owned.1.1
          cases frame <;> simp [Call.checkpoint?, Frame.checkpoint?] at check <;>
            simp [Frame.OwnedBy] at mine <;> simp_all
  | _ =>
      simp [Call.checkpoint?] at check
      exact check.1 ▸ owned.1

namespace World

variable {m : MachineId} {w : World}

theorem owned_makeClosure (owned : w.store.OwnedBy m) (params : List String) (body : Expr)
    (name : Option String) (env : Env) :
    (w.makeClosure params body name env).1.OwnedBy m ∧
      (w.makeClosure params body name env).2.store.OwnedBy m := by
  by_cases anonymous : (name.getD "").isEmpty
  · simp only [makeClosure, if_pos anonymous]
    exact ⟨trivial, owned⟩
  · simp only [makeClosure, if_neg anonymous]
    exact ⟨trivial, Store.holds_push owned _ none (List.forall_mem_singleton.mpr trivial)⟩

theorem owned_bindParams (owned : w.store.OwnedBy m) (c : Closure) (args : List Value)
    (mine : valuesOwnedBy m args) : (w.bindParams c args).2.store.OwnedBy m :=
  Store.holds_push owned _ none
    (bindArgs_holds trivial c.params args ((valuesOwnedBy_iff m args).mp mine))

theorem owned_bind (owned : w.store.OwnedBy m) (env : Env) (name : String) (v : Value)
    (mine : v.OwnedBy m) : (w.bind env name v).2.store.OwnedBy m :=
  Store.holds_push owned _ none (List.forall_mem_singleton.mpr mine)

theorem arm_ended (w : World) (m : MachineId) (milliseconds : Float) (k : Kont) (v : Value) :
    ∃ e after, w.arm m milliseconds k v = .ended e after ∧ after.store = w.store ∧
      (after.timers = w.timers ∨ ∃ due, after.timers = w.timers ++ [⟨m, due, k, v⟩]) := by
  unfold arm
  split
  · exact ⟨_, _, rfl, rfl, .inl rfl⟩
  · exact ⟨_, _, rfl, rfl, .inl rfl⟩
  · dsimp only
    split
    · exact ⟨_, _, rfl, rfl, .inl rfl⟩
    · exact ⟨_, _, rfl, rfl, .inr ⟨_, rfl⟩⟩

end World

namespace Call

variable {m : MachineId}

theorem evaluateExpr_owned (e : Expr) (env : Env) (k : Kont) (w : World) (mine : framesOwnedBy m k)
    (owned : w.store.OwnedBy m) : (evaluateExpr m e env k w).OwnedBy m := by
  cases e with
  | num | str | bool => exact ⟨⟨mine, trivial⟩, owned⟩
  | var name =>
      simp only [evaluateExpr]
      split
      · rename_i v found
        exact ⟨⟨mine, Store.holds_get? owned env name v found⟩, owned⟩
      · exact owned
  | assign target value =>
      cases target with
      | var name => exact ⟨⟨rfl, rfl, mine⟩, owned⟩
      | _ => exact owned
  | binary | cond | call => exact ⟨⟨rfl, rfl, mine⟩, owned⟩
  | lambda params body name =>
      have made := World.owned_makeClosure owned params body name env
      exact ⟨⟨mine, made.1⟩, made.2⟩
  | prog body => exact ⟨⟨rfl, trivial, mine⟩, owned⟩
  | letIn bindings body => exact ⟨⟨rfl, mine⟩, owned⟩
  | hole | binding => exact owned

theorem nextBinding_owned (rest : List Binding) (body : Expr) (env : Env) (k : Kont) (w : World)
    (mine : framesOwnedBy m k) (owned : w.store.OwnedBy m) :
    (nextBinding m rest body env k w).OwnedBy m := by
  cases rest with
  | nil => exact ⟨⟨rfl, mine⟩, owned⟩
  | cons b rest =>
      obtain ⟨name, init⟩ := b
      simp only [nextBinding]
      split
      · exact ⟨⟨⟨rfl, mine⟩, trivial⟩, owned⟩
      · exact ⟨⟨rfl, rfl, mine⟩, owned⟩

theorem resumeFrame_owned (frame : Frame) (k : Kont) (v : Value) (w : World)
    (top : frame.OwnedBy m) (mine : framesOwnedBy m k) (value : v.OwnedBy m) (owned : w.store.OwnedBy m) :
    (resumeFrame frame k v w).OwnedBy m := by
  cases frame with
  | final => exact owned
  | assign owner name env =>
      simp only [resumeFrame]
      split
      · exact ⟨⟨mine, value⟩, Store.holds_setIn owned _ name v value⟩
      · exact owned
  | left owner op right env =>
      cases top
      exact ⟨⟨rfl, ⟨rfl, value⟩, mine⟩, owned⟩
  | right owner op left =>
      simp only [resumeFrame]
      split
      · rename_i result applied
        exact ⟨⟨mine, applyOperator_holds (fun _ => trivial) (fun _ => trivial) op left v result
          top.2 value applied⟩, owned⟩
      · exact owned
  | branch owner yes no env =>
      cases top
      simp only [resumeFrame]
      split
      · exact ⟨⟨rfl, mine⟩, owned⟩
      · split
        · exact ⟨⟨mine, trivial⟩, owned⟩
        · exact ⟨⟨rfl, mine⟩, owned⟩
  | item owner rest env =>
      cases top
      exact ⟨⟨rfl, value, mine⟩, owned⟩
  | callee owner args env =>
      cases top
      exact ⟨⟨rfl, value, trivial, mine⟩, owned⟩
  | argument owner func done rest env =>
      obtain ⟨rfl, function, earlier⟩ := top
      refine ⟨⟨rfl, function, ?_, mine⟩, owned⟩
      rw [valuesOwnedBy_iff] at earlier ⊢
      exact List.forall_mem_append.mpr ⟨earlier, List.forall_mem_singleton.mpr value⟩
  | init owner name rest body env =>
      cases top
      exact ⟨⟨rfl, mine⟩, World.owned_bind owned env name v value⟩
  | timed start env => exact ⟨⟨mine, value⟩, owned⟩

theorem applyBuiltin_owned (b : Builtin) (args : List Value) (env : Env) (k : Kont) (w : World)
    (arguments : valuesOwnedBy m args) (mine : framesOwnedBy m k) (owned : w.store.OwnedBy m) :
    (applyBuiltin m b args env k w).OwnedBy m := by
  have first := firstArg_owned m args arguments
  obtain ⟨name, mode, action, stamp⟩ := b
  cases mode with
  | sync => exact owned
  | cps =>
      cases action with
      | print => exact ⟨⟨mine, trivial⟩, owned⟩
      | time => exact ⟨⟨rfl, first, trivial, trivial, mine⟩, owned⟩
      | halt => exact owned
      | sleep =>
          simp only [applyBuiltin]
          split
          · obtain ⟨e, after, armed, store, _⟩ := World.arm_ended w m _ k .no
            rw [armed]
            change after.store.OwnedBy m
            rwa [store]
          · exact owned
      | callcc => exact ⟨⟨rfl, first, ⟨mine, trivial⟩, mine⟩, owned⟩

theorem perform_owned (c : Call) (w : World) (mine : c.OwnedBy m) (owned : w.store.OwnedBy m) :
    (c.perform w).OwnedBy m := by
  cases c with
  | evaluate owner e env k =>
      obtain ⟨rfl, frames⟩ := mine
      exact evaluateExpr_owned e env k w frames owned
  | items owner last rest env k =>
      obtain ⟨rfl, value, frames⟩ := mine
      cases rest with
      | nil => exact ⟨⟨frames, value⟩, owned⟩
      | cons e rest => exact ⟨⟨rfl, rfl, frames⟩, owned⟩
  | arguments owner func done rest env k =>
      obtain ⟨rfl, function, values, frames⟩ := mine
      cases rest with
      | nil => exact ⟨⟨rfl, function, values, frames⟩, owned⟩
      | cons e rest => exact ⟨⟨rfl, ⟨rfl, function, values⟩, frames⟩, owned⟩
  | bindings owner rest body env k =>
      obtain ⟨rfl, frames⟩ := mine
      exact nextBinding_owned rest body env k w frames owned
  | enter owner closure args k =>
      obtain ⟨rfl, values, frames⟩ := mine
      exact ⟨⟨rfl, frames⟩, World.owned_bindParams owned closure args values⟩
  | apply owner func args env k =>
      obtain ⟨rfl, function, values, frames⟩ := mine
      cases func with
      | closure c => exact ⟨⟨rfl, values, frames⟩, owned⟩
      | builtin b => exact applyBuiltin_owned b args env k w values frames owned
      | continuation stamp inner =>
          exact ⟨⟨function, firstArg_owned _ args values⟩, owned⟩
      | _ => exact owned
  | resume k v =>
      cases k with
      | nil => exact owned
      | cons frame k => exact resumeFrame_owned frame k v w mine.1.1 mine.1.2 mine.2 owned

end Call

end Trampoline
