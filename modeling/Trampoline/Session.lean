import Trampoline.Program

/-!
Sessions: several roots that live on while sources are run in them one after the other.
-/

set_option autoImplicit false

namespace Trampoline

structure Session where
  world : World := {}
  roots : List (String × Env) := []
  streams : Nat := 0

namespace Session

def addRoot (s : Session) (name : String) (mode : Mode) : Session :=
  let (env, world) := s.world.root mode none
  { s with world := world, roots := s.roots ++ [(name, env)] }

def env? (s : Session) (name : String) : Option Env := s.roots.lookup name

structure Reply where
  result : Settled
  out : String
  vars : List (String × Value)

/-- The root prints to a stream of this run from now on. -/
def redirect (s : Session) (env : Env) : Stream × Session :=
  let stream := Stream.handle s.streams
  let world := { s.world with store := s.world.store.setOut env (some stream), trace := #[] }
  (stream, { s with world := world, streams := s.streams + 1 })

def reply (s : Session) (env : Env) (stream : Stream) (result : Settled) (w : World) :
    Reply × Session :=
  (⟨result, World.printed w.trace stream, w.store.userVars env⟩, { s with world := w })

def runSource (bound : Nat) (settings : Settings) (budget : Option Int) (mode : Mode)
    (frontEndName source : String) (env : Env) (s : Session) : Option (Reply × Session) :=
  let (stream, s) := s.redirect env
  match FrontEnd.parseNamed frontEndName source with
  | .error cause => some (s.reply env stream (.error cause) s.world)
  | .ok e =>
      (runIn bound settings budget mode e env s.world).map
        fun (result, w) => s.reply env stream result w

def copy (s : Session) (name : String) (source target : Env) : Except Failure Value × Session :=
  match s.world.store.get? source name with
  | none => (.error (.undefinedVariable name), s)
  | some v =>
      let world := { s.world with store := s.world.store.define target name v }
      (.ok v, { s with world := world })

end Session

end Trampoline
