import Trampoline.Text.WholeNumber

/-!
Settings that come from the surroundings of the program.
-/

set_option autoImplicit false

namespace Trampoline

structure Settings where
  budget : Nat
  traceback : Bool
deriving DecidableEq, Repr

namespace Settings

def budgetVariable : String := "LAMBDALANG_STACK_BUDGET"

def tracebackVariable : String := "LAMBDALANG_DEBUG_PY_TRACE"

def defaultBudget : Nat := 200

/-- A budget that is missing, unreadable or not positive is the default one. -/
def readBudget (raw : Option String) : Nat :=
  match raw.bind Text.wholeNumber? with
  | some n => if 0 < n then n.toNat else defaultBudget
  | none => defaultBudget

def readTraceback (raw : Option String) : Bool :=
  match raw with
  | some s => s != "" && s != "0"
  | none => false

def read (budget traceback : Option String) : Settings :=
  ⟨readBudget budget, readTraceback traceback⟩

end Settings

end Trampoline
