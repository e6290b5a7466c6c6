import Trampoline.Operator
import Trampoline.World

/-!
The calls of a continuation machine. Every call makes at most one further call, as its last act, so
the whole state of a run is the next call and the world.
-/

set_option autoImplicit false

namespace Trampoline

/-- The next call: evaluate an expression, go on with a sequence, enter a function, apply a value,
or hand a value to a continuation. -/
inductive Call where
  | evaluate (machine : MachineId) (e : Expr) (env : Env) (k : Kont)
  | items (machine : MachineId) (last : Value) (rest : List Expr) (env : Env) (k : Kont)
  | arguments (machine : MachineId) (func : Value) (done : List Value) (rest : List Expr)
      (env : Env) (k : Kont)
  | bindings (machine : MachineId) (rest : List Binding) (body : Expr) (env : Env) (k : Kont)
  | enter (machine : MachineId) (c : Closure) (args : List Value) (k : Kont)
  | apply (machine : MachineId) (func : Value) (args : List Value) (env : Env) (k : Kont)
  | resume (k : Kont) (v : Value)

inductive Ending where
  | returned (machine : MachineId) (v : Value)
  | suspended
  | halted
  | failed (cause : Failure)

inductive Next where
  | call (c : Call) (w : World)
  | ended (e : Ending) (w : World)

namespace Frame

/-- The machine whose budget a frame spends, with the name of the point. A final frame and the
frame of a timed call spend none. -/
def checkpoint? : Frame → Option (MachineId × Checkpoint)
  | .final _ => none
  | .assign m _ _ => some (m, .assign)
  | .left m _ _ _ => some (m, .left)
  | .right m _ _ => some (m, .right)
  | .branch m _ _ _ => some (m, .branch)
  | .item m _ _ => some (m, .item)
  | .callee m _ _ => some (m, .callee)
  | .argument m _ _ _ _ => some (m, .argument)
  | .init m _ _ _ _ => some (m, .init)
  | .timed _ _ => none

end Frame

namespace Call

def checkpoint? : Call → Option (MachineId × Checkpoint)
  | .evaluate m _ _ _ => some (m, .evaluate)
  | .items m _ _ _ _ => some (m, .loop)
  | .arguments m _ _ _ _ _ => some (m, .loop)
  | .bindings m _ _ _ _ => some (m, .loop)
  | .enter m _ _ _ => some (m, .enter)
  | .apply .. => none
  | .resume k _ => k.head?.bind Frame.checkpoint?

end Call

namespace World

def machine? (w : World) (m : MachineId) : Option Machine := w.machines[m]?

def updateMachine (w : World) (m : MachineId) (f : Machine → Machine) : World :=
  { w with machines := w.machines.modify m f }

/-- A timer takes a delay in milliseconds; a negative one is zero. -/
def delaySeconds (milliseconds : Float) : Float :=
  (if milliseconds < 0 then 0 else milliseconds) / 1000

/-- Leaves the rest of the run to a timer. A closed loop refuses it after it was counted. -/
def arm (w : World) (m : MachineId) (milliseconds : Float) (k : Kont) (v : Value) : Next :=
  match (w.machine? m).map Machine.loop with
  | none => .ended (.failed .noEventLoop) w
  | some .missing => .ended (.failed .noEventLoop) w
  | some loop =>
      let w := w.updateMachine m fun machine => { machine with pending := machine.pending + 1 }
      let w := w.note (.armed milliseconds (((w.machine? m).map Machine.pending).getD 0))
      match loop with
      | .closed => .ended (.failed .loopClosed) w
      | _ =>
          let timer : Timer := ⟨m, w.now + delaySeconds milliseconds, k, v⟩
          .ended .suspended { w with timers := w.timers ++ [timer] }

end World

namespace Call

def fail (cause : Failure) (w : World) : Next := .ended (.failed cause) w

def evaluateExpr (m : MachineId) (e : Expr) (env : Env) (k : Kont) (w : World) : Next :=
  match e with
  | .num x => .call (.resume k (.num x)) w
  | .str s => .call (.resume k (.str s)) w
  | .bool b => .call (.resume k (.bool b)) w
  | .var name =>
      match w.store.get? env name with
      | some v => .call (.resume k v) w
      | none => fail (.undefinedVariable name) w
  | .assign (.var name) value => .call (.evaluate m value env (.assign m name env :: k)) w
  | .assign target _ => fail (.invalidTarget target) w
  | .binary op left right => .call (.evaluate m left env (.left m op right env :: k)) w
  | .lambda params body name =>
      let (v, w) := w.makeClosure params body name env
      .call (.resume k v) w
  | .cond test yes no => .call (.evaluate m test env (.branch m yes no env :: k)) w
  | .prog body => .call (.items m .no body env k) w
  | .call func args => .call (.evaluate m func env (.callee m args env :: k)) w
  | .letIn bs body => .call (.bindings m bs body env k) w
  | .hole => fail (.notEvaluable .hole) w
  | .binding b => fail (.notEvaluable (.binding b)) w

def nextBinding (m : MachineId) (rest : List Binding) (body : Expr) (env : Env) (k : Kont)
    (w : World) : Next :=
  match rest with
  | [] => .call (.evaluate m body env k) w
  | .mk name init :: rest =>
      let k := .init m name rest body env :: k
      if init.isHole then .call (.resume k .no) w else .call (.evaluate m init env k) w

/-- A value reaches the innermost frame. -/
def resumeFrame (frame : Frame) (k : Kont) (v : Value) (w : World) : Next :=
  match frame with
  | .final m => .ended (.returned m v) w
  | .assign _ name env =>
      match w.store.target? env name with
      | some i => .call (.resume k v) (w.setVar i name v)
      | none => fail (.undefinedVariable name) w
  | .left m op right env => .call (.evaluate m right env (.right m op v :: k)) w
  | .right _ op left =>
      match applyOperator op left v with
      | .ok result => .call (.resume k result) w
      | .error cause => fail cause w
  | .branch m yes no env =>
      if v.truthy then .call (.evaluate m yes env k) w
      else if no.isHole then .call (.resume k .no) w
      else .call (.evaluate m no env k) w
  | .item m rest env => .call (.items m v rest env k) w
  | .callee m args env => .call (.arguments m v [] args env k) w
  | .argument m func done rest env => .call (.arguments m func (done ++ [v]) rest env k) w
  | .init m name rest body env =>
      let (inner, w) := w.bind env name v
      .call (.bindings m rest body inner k) w
  | .timed start env => .call (.resume k v) (w.reportElapsed env start)

/-- A builtin runs in the scope of its caller. The continuation that `call/cc` hands out is the one
of the call itself. -/
def applyBuiltin (m : MachineId) (b : Builtin) (args : List Value) (env : Env) (k : Kont)
    (w : World) : Next :=
  match b.mode, b.action with
  | .sync, _ => fail (.wrongMode b.name .cps) w
  | .cps, .print => .call (.resume k .no) (w.writeLine env (printText args))
  | .cps, .time =>
      let (start, w) := w.readClock
      .call (.apply m (firstArg args) [] env (.timed start env :: k)) w
  | .cps, .halt => .ended .halted w
  | .cps, .sleep =>
      match (firstArg args).toNumber with
      | .ok milliseconds => w.arm m milliseconds k .no
      | .error cause => fail cause w
  | .cps, .callcc =>
      let (stamp, w) := w.fresh
      .call (.apply m (firstArg args) [.continuation stamp k] env k) w

/-- A continuation that is applied replaces the one at hand. -/
def applyValue (m : MachineId) (func : Value) (args : List Value) (env : Env) (k : Kont)
    (w : World) : Next :=
  match func with
  | .closure c => .call (.enter m c args k) w
  | .builtin b => applyBuiltin m b args env k w
  | .continuation _ frames => .call (.resume frames (firstArg args)) w
  | other => fail (.notFunction other) w

/-- What a call does once its budget check has passed. A value that reaches a continuation without
frames is dropped. -/
def perform (c : Call) (w : World) : Next :=
  match c with
  | .evaluate m e env k => evaluateExpr m e env k w
  | .items _ last [] _ k => .call (.resume k last) w
  | .items m _ (e :: rest) env k => .call (.evaluate m e env (.item m rest env :: k)) w
  | .arguments m func done [] env k => .call (.apply m func done env k) w
  | .arguments m func done (e :: rest) env k =>
      .call (.evaluate m e env (.argument m func done rest env :: k)) w
  | .bindings m rest body env k => nextBinding m rest body env k w
  | .enter m closure args k =>
      let (env, w) := w.bindParams closure args
      .call (.evaluate m closure.body env k) w
  | .apply m func args env k => applyValue m func args env k w
  | .resume [] _ => .ended .halted w
  | .resume (frame :: k) v => resumeFrame frame k v w

end Call

end Trampoline
