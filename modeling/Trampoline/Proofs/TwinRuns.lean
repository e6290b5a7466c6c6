import Trampoline.Proofs.Progress
import Trampoline.Proofs.Twins

set_option autoImplicit false

namespace Trampoline

theorem modify_swap {α : Type} (as : Array α) (i j : Nat) (f g : α → α) (swap : i = j → ∀ a, g (f a) = f (g a)) :
    (as.modify i f).modify j g = (as.modify j g).modify i f := by
  apply Array.ext
  · simp
  · intro n bound bound'
    by_cases here : i = n
    · by_cases there : j = n
      · simp [Array.getElem_modify, here, there, swap (here.trans there.symm)]
      · simp [Array.getElem_modify, here, there]
    · by_cases there : j = n <;> simp [Array.getElem_modify, here, there]

section Machines

variable {m : MachineId} {pairs : Pairing} {w u : World}

namespace World.Twin

theorem updateMachine (twin : w.Twin m pairs u) (owner : MachineId) (f : Machine → Machine)
    (kept : owner = m → ∀ machine, (f machine).aside = f machine.aside) :
    (w.updateMachine owner f).Twin m pairs (u.updateMachine owner f) := by
  have commutes (v : World) : ((v.updateMachine owner f).aside m).machines = (v.aside m).machines.modify owner f :=
    modify_swap v.machines owner m f Machine.aside kept
  refine ⟨twin.stamps, twin.store, twin.clock, twin.readings, ?_, twin.timers, twin.now, twin.events⟩
  rw [commutes, commutes, twin.machines]

theorem machine?_map (twin : w.Twin m pairs u) {α : Type} (f : Machine → α)
    (unseen : ∀ machine, f machine.aside = f machine) (owner : MachineId) :
    (u.machine? owner).map f = (w.machine? owner).map f := by
  have seen (v : World) : ((v.aside m).machines[owner]?).map f = (v.machine? owner).map f := by
    simp only [World.aside, World.machine?, Array.getElem?_modify]
    split
    · rw [Option.map_map]
      congr 1
      funext machine
      exact unseen machine
    · rfl
  rw [← seen, ← seen, twin.machines]

theorem machine?_other (twin : w.Twin m pairs u) {owner : MachineId} (other : owner ≠ m) :
    u.machine? owner = w.machine? owner := by
  have seen (v : World) : (v.aside m).machines[owner]? = v.machine? owner := by
    simp only [World.aside, World.machine?, Array.getElem?_modify, if_neg (Ne.symm other)]
  rw [← seen, ← seen, twin.machines]

theorem canSpend_other (twin : w.Twin m pairs u) {owner : MachineId} (other : owner ≠ m) :
    u.canSpend owner = w.canSpend owner := by
  simp only [World.canSpend, twin.machine?_other other]

theorem pending_eq (twin : w.Twin m pairs u) (owner : MachineId) : u.pending owner = w.pending owner := by
  simp only [World.pending, twin.machine?_map Machine.pending (fun _ => rfl)]

end World.Twin

end Machines

inductive Ending.Twin (m : MachineId) (pairs : Pairing) : Ending → Ending → Prop where
  | returned (owner : MachineId) {v u : Value} : v.Twin m pairs u →
      Ending.Twin m pairs (.returned owner v) (.returned owner u)
  | suspended : Ending.Twin m pairs .suspended .suspended
  | halted : Ending.Twin m pairs .halted .halted
  | failed {cause cause' : Failure} : cause.Twin m pairs cause' → Ending.Twin m pairs (.failed cause) (.failed cause')

inductive Call.Twin (m : MachineId) (pairs : Pairing) : Call → Call → Prop where
  | evaluate (owner : MachineId) (e : Expr) (env : Env) {k l : Kont} : FramesTwin m pairs k l →
      Call.Twin m pairs (.evaluate owner e env k) (.evaluate owner e env l)
  | items (owner : MachineId) {v u : Value} (rest : List Expr) (env : Env) {k l : Kont} : v.Twin m pairs u →
      FramesTwin m pairs k l → Call.Twin m pairs (.items owner v rest env k) (.items owner u rest env l)
  | arguments (owner : MachineId) {f g : Value} {vs us : List Value} (rest : List Expr) (env : Env) {k l : Kont} :
      f.Twin m pairs g → ValuesTwin m pairs vs us → FramesTwin m pairs k l →
      Call.Twin m pairs (.arguments owner f vs rest env k) (.arguments owner g us rest env l)
  | bindings (owner : MachineId) (rest : List Binding) (body : Expr) (env : Env) {k l : Kont} : FramesTwin m pairs k l →
      Call.Twin m pairs (.bindings owner rest body env k) (.bindings owner rest body env l)
  | enter (owner : MachineId) {a b : Nat} {params : List String} {body : Expr} {name : Option String} {env : Env}
      {vs us : List Value} {k l : Kont} : ValuesTwin m pairs vs us → FramesTwin m pairs k l →
      Call.Twin m pairs (.enter owner ⟨a, params, body, name, env⟩ vs k) (.enter owner ⟨b, params, body, name, env⟩ us l)
  | apply (owner : MachineId) {f g : Value} {vs us : List Value} (env : Env) {k l : Kont} : f.Twin m pairs g →
      ValuesTwin m pairs vs us → FramesTwin m pairs k l →
      Call.Twin m pairs (.apply owner f vs env k) (.apply owner g us env l)
  | resume {k l : Kont} {v u : Value} : FramesTwin m pairs k l → v.Twin m pairs u →
      Call.Twin m pairs (.resume k v) (.resume l u)

-- The points at which one run has only bindings left to make where the other makes and applies functions.
inductive Call.Parting (m : MachineId) (pairs : Pairing) : Call → Call → Prop where
  | letting {rest : List Binding} {body : Expr} {env : Env} {k l : Kont} : FramesTwin m pairs k l →
      Call.Parting m pairs (.bindings m rest body env k) (.evaluate m (body.applied rest) env l)
  | binding {name : String} {rest : List Binding} {body : Expr} {env : Env} {stamp : Nat} {k l : Kont} {v u : Value} :
      FramesTwin m pairs k l → v.Twin m pairs u →
      Call.Parting m pairs (.resume (.init m name rest body env :: k) v)
        (.resume (.argument m (.closure ⟨stamp, [name], body.applied rest, none, env⟩) [] [] env :: l) u)

inductive Next.Twin (m : MachineId) (pairs : Pairing) : Next → Next → Prop where
  | call {pairs' : Pairing} {c d : Call} {w u : World} : pairs.ExtendedBy pairs' → c.Twin m pairs' d → w.Twin m pairs' u →
      Next.Twin m pairs (.call c w) (.call d u)
  | ended {pairs' : Pairing} {e e' : Ending} {w u : World} : pairs.ExtendedBy pairs' → e.Twin m pairs' e' →
      w.Twin m pairs' u → Next.Twin m pairs (.ended e w) (.ended e' u)

section Perform

variable {m : MachineId} {pairs : Pairing} {w u : World}

theorem Next.Twin.fails {cause cause' : Failure} (same : cause.Twin m pairs cause') (twin : w.Twin m pairs u) :
    Next.Twin m pairs (Call.fail cause w) (Call.fail cause' u) :=
  .ended (fun _ _ => id) (.failed same) twin

theorem World.Twin.waiting {t t' : Timer} (twin : w.Twin m pairs u) (timer : t.Twin m pairs t') :
    World.Twin m pairs { w with timers := w.timers ++ [t] } { u with timers := u.timers ++ [t'] } :=
  ⟨twin.stamps, twin.store, twin.clock, twin.readings, twin.machines, List.rel_append twin.timers (.cons timer .nil),
    twin.now, twin.events⟩

theorem World.Twin.arm (twin : w.Twin m pairs u) (owner : MachineId) (milliseconds : Float) {k l : Kont} {v v' : Value}
    (frames : FramesTwin m pairs k l) (value : v.Twin m pairs v') :
    Next.Twin m pairs (w.arm owner milliseconds k v) (u.arm owner milliseconds l v') := by
  have missing : Failure.Twin m pairs .noEventLoop .noEventLoop := .same fun _ => ⟨by simp, by simp⟩
  have counted := twin.updateMachine owner (fun machine => { machine with pending := machine.pending + 1 })
    fun _ _ => rfl
  have pending := counted.machine?_map Machine.pending (fun _ => rfl) owner
  unfold World.arm
  rw [twin.machine?_map Machine.loop fun _ => rfl]
  cases (w.machine? owner).map Machine.loop with
  | none => exact .fails missing twin
  | some loop =>
      cases loop with
      | missing => exact .fails missing twin
      | running =>
          dsimp only
          rw [pending]
          have due : u.now + World.delaySeconds milliseconds = w.now + World.delaySeconds milliseconds := by
            rw [twin.now]
          exact .ended (fun _ _ => id) .suspended
            ((counted.noted rfl rfl (.armed milliseconds _)).waiting ⟨rfl, due, frames, value⟩)
      | closed =>
          dsimp only
          rw [pending]
          exact .fails (.same fun _ => ⟨by simp, by simp⟩) (counted.noted rfl rfl (.armed milliseconds _))

namespace Call

theorem evaluateExpr_twin (twin : w.Twin m pairs u) (owner : MachineId) (e : Expr) (env : Env) {k l : Kont}
    (frames : FramesTwin m pairs k l) :
    Next.Twin m pairs (evaluateExpr owner e env k w) (evaluateExpr owner e env l u) := by
  have goes {c d : Call} (call : c.Twin m pairs d) : Next.Twin m pairs (.call c w) (.call d u) :=
    .call (fun _ _ => id) call twin
  have bare {frame : Frame} (plain : frame.isBare = true) : FramesTwin m pairs (frame :: k) (frame :: l) :=
    .cons (.bare plain) frames
  cases e with
  | num x => exact goes (.resume frames (.atom rfl))
  | str s => exact goes (.resume frames (.atom rfl))
  | bool b => exact goes (.resume frames (.atom rfl))
  | var name =>
      have found := twin.store.get? env name
      simp only [evaluateExpr]
      generalize w.store.get? env name = v at found
      generalize u.store.get? env name = v' at found
      cases found with
      | none => exact .fails (.same fun _ => ⟨by simp, by simp⟩) twin
      | some value => exact goes (.resume frames value)
  | assign target value =>
      cases target with
      | var name => exact goes (.evaluate owner value env (bare rfl))
      | _ => exact .fails (.same fun _ => ⟨by simp, by simp⟩) twin
  | binary op left right => exact goes (.evaluate owner left env (bare rfl))
  | lambda params body name =>
      obtain ⟨value, world⟩ := twin.makeClosure params body name env
      have grows := pairs.grows_add w.stamps u.stamps
      exact .call grows (.resume (frames.mono grows) value) world
  | cond test yes no => exact goes (.evaluate owner test env (bare rfl))
  | prog body => exact goes (.items owner body env .no frames)
  | call func args => exact goes (.evaluate owner func env (bare rfl))
  | letIn bs body => exact goes (.bindings owner bs body env frames)
  | hole => exact .fails (.same fun _ => ⟨by simp, by simp⟩) twin
  | binding b => exact .fails (.same fun _ => ⟨by simp, by simp⟩) twin

theorem resumeFrame_twin (twin : w.Twin m pairs u) {f g : Frame} (frame : f.Twin m pairs g) {k l : Kont}
    (frames : FramesTwin m pairs k l) {v v' : Value} (value : v.Twin m pairs v') :
    Next.Twin m pairs (resumeFrame f k v w) (resumeFrame g l v' u) ∨
      Parting m pairs (.resume (f :: k) v) (.resume (g :: l) v') := by
  have goes {c d : Call} (call : c.Twin m pairs d) : Next.Twin m pairs (.call c w) (.call d u) :=
    .call (fun _ _ => id) call twin
  cases frame with
  | init => exact .inr (.binding frames value)
  | @right owner op a a' left =>
      have result := left.operator twin.stamps value op
      left
      simp only [resumeFrame]
      generalize applyOperator op a v = here at result
      generalize applyOperator op a' v' = there at result
      cases result with
      | ok value => exact goes (.resume frames value)
      | error cause => exact .fails cause twin
  | @argument owner _ _ _ _ rest env func values =>
      exact .inl (goes (.arguments owner rest env func (values.append (.cons value .nil)) frames))
  | bare plain =>
      left
      cases f with
      | final owner => exact .ended (fun _ _ => id) (.returned owner value) twin
      | assign owner name env =>
          simp only [resumeFrame, twin.store.target?_eq env name]
          cases w.store.target? env name with
          | none => exact .fails (.same fun _ => ⟨by simp, by simp⟩) twin
          | some i => exact .call (fun _ _ => id) (.resume frames value) (twin.setVar i name value)
      | left owner op right env => exact goes (.evaluate owner right env (.cons (.right value) frames))
      | right owner op left => cases plain
      | branch owner yes no env =>
          simp only [resumeFrame, value.truthy_eq]
          split
          · exact goes (.evaluate owner yes env frames)
          · split
            · exact goes (.resume frames .no)
            · exact goes (.evaluate owner no env frames)
      | item owner rest env => exact goes (.items owner rest env value frames)
      | callee owner args env => exact goes (.arguments owner args env value .nil frames)
      | argument owner func done rest env => cases plain
      | init owner name rest body env =>
          obtain ⟨inner, world⟩ := twin.bind env name value
          simp only [resumeFrame, inner]
          exact .call (fun _ _ => id) (.bindings owner rest body _ frames) world
      | timed start env => exact .call (fun _ _ => id) (.resume frames value) (twin.reportElapsed env start)

theorem applyBuiltin_twin (twin : w.Twin m pairs u) (owner : MachineId) (b : Builtin) {vs us : List Value}
    (values : ValuesTwin m pairs vs us) (env : Env) {k l : Kont} (frames : FramesTwin m pairs k l) :
    Next.Twin m pairs (applyBuiltin owner b vs env k w) (applyBuiltin owner b us env l u) := by
  obtain ⟨name, mode, action, stamp⟩ := b
  cases mode with
  | sync => exact .fails (.same fun _ => ⟨by simp, by simp⟩) twin
  | cps =>
      cases action with
      | print =>
          simp only [applyBuiltin, values.printText_eq]
          exact .call (fun _ _ => id) (.resume frames .no) (twin.writeLine env _)
      | time =>
          obtain ⟨start, read⟩ := twin.readClock
          simp only [applyBuiltin, start]
          exact .call (fun _ _ => id) (.apply owner env values.firstArg .nil (.cons (.bare rfl) frames)) read
      | halt => exact .ended (fun _ _ => id) .halted twin
      | sleep =>
          have result := values.firstArg.toNumber
          simp only [applyBuiltin]
          generalize (firstArg vs).toNumber = here at result
          generalize (firstArg us).toNumber = there at result
          cases result with
          | ok same =>
              cases same
              exact twin.arm owner _ frames .no
          | error cause => exact .fails cause twin
      | callcc =>
          have grows := pairs.grows_add w.stamps u.stamps
          have kept := frames.mono grows
          refine .call grows (.apply owner env (values.firstArg.mono grows) (.cons ?_ .nil) kept) twin.fresh
          exact .continuation (.inr ⟨rfl, rfl⟩) kept

theorem Twin.perform {c d : Call} (call : c.Twin m pairs d) (twin : w.Twin m pairs u) :
    Next.Twin m pairs (c.perform w) (d.perform u) ∨ Parting m pairs c d := by
  have goes {c d : Call} (call : c.Twin m pairs d) : Next.Twin m pairs (.call c w) (.call d u) :=
    .call (fun _ _ => id) call twin
  cases call with
  | evaluate owner e env frames => exact .inl (evaluateExpr_twin twin owner e env frames)
  | items owner rest env value frames =>
      left
      cases rest with
      | nil => exact goes (.resume frames value)
      | cons e rest => exact goes (.evaluate owner e env (.cons (.bare rfl) frames))
  | arguments owner rest env func values frames =>
      left
      cases rest with
      | nil => exact goes (.apply owner env func values frames)
      | cons e rest => exact goes (.evaluate owner e env (.cons (.argument func values) frames))
  | bindings owner rest body env frames =>
      left
      cases rest with
      | nil => exact goes (.evaluate owner body env frames)
      | cons b rest =>
          obtain ⟨name, init⟩ := b
          simp only [Call.perform, nextBinding]
          split
          · exact goes (.resume (.cons (.bare rfl) frames) .no)
          · exact goes (.evaluate owner init env (.cons (.bare rfl) frames))
  | @enter owner a b params body name env vs us k l values frames =>
      left
      have same : Closure.params ⟨b, params, body, name, env⟩ = Closure.params ⟨a, params, body, name, env⟩ := rfl
      obtain ⟨inner, world⟩ := twin.bindParams same rfl values
      simp only [Call.perform, inner]
      exact .call (fun _ _ => id) (.evaluate owner body _ frames) world
  | @apply owner f _ _ _ env _ _ func values frames =>
      left
      cases func with
      | closure pair => exact goes (.enter owner values frames)
      | continuation pair kept => exact goes (.resume kept values.firstArg)
      | atom plain =>
          cases f with
          | builtin b => exact applyBuiltin_twin twin owner b values env frames
          | closure c => cases plain
          | continuation stamp frames => cases plain
          | _ => exact .fails (.notFunction (.atom rfl)) twin
  | resume frames value =>
      cases frames with
      | nil => exact .inl (.ended (fun _ _ => id) .halted twin)
      | cons frame frames => exact resumeFrame_twin twin frame frames value

end Call

end Perform

end Trampoline
