import Trampoline.Descent
import Trampoline.Machine.Timers

/-!
Batches: sources run in turn on one machine and in one root, then all timers fire.
-/

set_option autoImplicit false

namespace Trampoline

/-- A source that cannot be parsed ends the batch at once. -/
def runBatch (bound : Nat) (hooks : Hooks) (m : MachineId) (env : Env) :
    List String → World → Option (Option Failure × World)
  | [], w => drainNoted bound hooks bound w
  | source :: sources, w =>
      match Descent.parse source with
      | .error e => some (some (.parse e), w)
      | .ok e =>
          match runNoted bound hooks m e env w with
          | none => none
          | some w => runBatch bound hooks m env sources w

end Trampoline
