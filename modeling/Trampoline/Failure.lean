import Trampoline.Expr.Dump
import Trampoline.Source.ParseError
import Trampoline.Value.Text

/-!
Why a program fails, and what is reported about it.
-/

set_option autoImplicit false

namespace Trampoline

inductive Failure where
  | parse (e : ParseError)
  | undefinedVariable (name : String)
  | invalidTarget (target : Expr)
  | notNumber (got : Value)
  | notFunction (got : Value)
  | divideByZero
  | halted
  | cpsOnly (feature : String)
  | wrongMode (name : String) (mode : Mode)
  | noEventLoop
  | notEvaluable (e : Expr)
  | unknownOperator (symbol : String)
  | remainderDomain
  | unknownMode (name : String)
  | unknownFrontEnd (name : String)
  | budgetNotPositive
  | loopClosed
  | isDirectory (path : String)
  | noSuchLine

namespace Failure

def modeWord : Mode → String
  | .sync => "sync"
  | .cps => "CPS"

def message : Failure → String
  | .parse e => e.message
  | .undefinedVariable name => "Undefined variable " ++ name
  | .invalidTarget target => "Cannot assign to " ++ target.dump none
  | .notNumber got => "Expected number but got " ++ got.shown
  | .notFunction got => "Expected function but got " ++ got.shown
  | .divideByZero => "Divide by zero"
  | .halted => "Program halted"
  | .cpsOnly feature => feature ++ " is only available in CPS mode"
  | .wrongMode name mode => name ++ " is not callable in " ++ modeWord mode ++ " mode"
  | .noEventLoop => "sleep needs a running asyncio event loop"
  | .notEvaluable e => "I don't know how to evaluate " ++ e.label
  | .unknownOperator symbol => "Can't apply operator " ++ symbol
  | .remainderDomain => "math domain error"
  | .unknownMode name => "Unknown mode " ++ Text.quoted name
  | .unknownFrontEnd name => "Unknown parser " ++ Text.quoted name
  | .budgetNotPositive => "stack budget must be positive"
  | .loopClosed => "Event loop is closed"
  | .isDirectory path => "[Errno 21] Is a directory: " ++ Text.quoted path
  | .noSuchLine => "list index out of range"

/-- Failures of the user's program, which the command line and the prompt report and survive. -/
def isReported : Failure → Bool
  | .remainderDomain => false
  | .unknownMode _ => false
  | .unknownFrontEnd _ => false
  | .budgetNotPositive => false
  | .loopClosed => false
  | .isDirectory _ => false
  | .noSuchLine => false
  | _ => true

end Failure

end Trampoline
