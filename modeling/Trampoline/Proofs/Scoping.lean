import Trampoline.Proofs.Schedule
import Trampoline.Proofs.Trails

set_option autoImplicit false

namespace Trampoline

inductive Request where
  | direct (e : Expr)
  | run (m : MachineId) (e : Expr)
  | fire (i : Nat)

inductive Result where
  | direct (outcome : Direct.Outcome Value)
  | driven (outcome : Option (Ending × World))
  | idle (w : World)

namespace Result

def world? : Result → Option World
  | .direct (.done _ w) => some w
  | .direct (.failed _ w) => some w
  | .direct .unfinished => none
  | .driven outcome => outcome.map Prod.snd
  | .idle w => some w

def failure? : Result → Option Failure
  | .direct (.failed cause _) => some cause
  | .driven (some (.failed cause, _)) => some cause
  | _ => none

end Result

namespace Visiting

def Run.sight : Run → Sight
  | .ended _ s => s
  | .unfinished s => s

def record (root : ScopeId) (bound : Nat) (c : Config) (t : Trail) : Result × Sight :=
  let run := drive root bound c t []
  (.driven run.forget, run.sight)

end Visiting

namespace Request

def serve (root : ScopeId) (bound : Nat) (w : World) : Request → Result
  | .direct e => .direct (Direct.eval bound e ⟨root, []⟩ w)
  | .run m e => .driven (Trampoline.run bound m e ⟨root, []⟩ w)
  | .fire i =>
      match w.takeTimer? i with
      | none => .idle w
      | some (t, w) => .driven (Trampoline.fire bound t w)

def watch (root : ScopeId) (bound : Nat) (s : Sight) : Request → Result × Sight
  | .direct e =>
      let outcome := Visiting.eval root bound e (.program e) ⟨root, []⟩ { s with visits := [] }
      (.direct outcome.forget, outcome.sight)
  | .run m e =>
      Visiting.record root bound (.ofProgram m e ⟨root, []⟩ s.world)
        ⟨s.origins, ⟨.program e, 0⟩, [⟨.program e, 0⟩]⟩
  | .fire i =>
      match s.world.takeTimer? i with
      | none => (.idle s.world, { s with visits := [] })
      | some (t, w) =>
          Visiting.record root bound (.ofTimer t w)
            ⟨{ s.origins with timers := s.origins.timers.eraseIdx i }, ⟨.program .hole, 0⟩,
              (s.origins.timers[i]?).getD []⟩

end Request

def Value.isPlain : Value → Bool
  | .closure _ => false
  | .continuation _ _ => false
  | _ => true

structure World.Bare (root : ScopeId) (w : World) : Prop where
  inside : root < w.store.scopes.size
  store : w.store.Holds fun v => v.isPlain = true
  timers : w.timers = []

def Origins.none : Origins := ⟨fun _ => .program .hole, fun _ => [], fun _ => Option.none, []⟩

-- The worlds over one root between requests, with the origins of all that is in them. In between, all but
-- the store, the stamps and the timers may change.
inductive Watched (root : ScopeId) : Sight → Prop where
  | start {w : World} (bare : w.Bare root) : Watched root ⟨w, .none, []⟩
  | served {s : Sight} {after : World} (before : Watched root s) (bound : Nat) (request : Request)
      (ended : (request.serve root bound s.world).world? = some after) :
      Watched root ⟨after, (request.watch root bound s).2.origins, []⟩
  | aside {s : Sight} {after : World} (before : Watched root s) (store : after.store = s.world.store)
      (stamps : after.stamps = s.world.stamps) (timers : after.timers = s.world.timers) :
      Watched root ⟨after, s.origins, []⟩

-- What a record of a request has to be: of the request itself, lexical, and with a name that is not found
-- as its latest visit.
structure Request.Recorded (root : ScopeId) (result : Result) (record : Result × Sight) : Prop where
  same : record.1 = result
  world : ∀ after, result.world? = some after → record.2.world = after
  sound : record.2.Lexical root
  undefined : ∀ x, result.failure? = some (.undefinedVariable x) →
    ∃ v, record.2.visits.head? = some v ∧ v.Undefined x

namespace World

variable {root : ScopeId} {o : Origins} {w : World}

theorem Bare.placed (bare : w.Bare root) : w.Placed root .none := by
  refine ⟨bare.inside, ?_, ?_⟩
  · intro name i v found
    have plain := bare.store name i v found
    cases v with
    | closure | continuation => cases plain
    | _ => trivial
  · rw [bare.timers]
    exact .nil

theorem bare_rooted (mode : Mode) (machines : Array Machine) : (rooted mode machines).Bare 0 := by
  refine ⟨by simp [rooted, root, Store.root], root_holds ?_ mode Option.none (fun _ _ => rfl), rfl⟩
  intro name i v found
  simp [Store.valueIn?] at found

theorem timer_of_placed {R : Timer → List Mark → Prop} {ts : List Timer} {marks : List (List Mark)}
    (related : List.Forall₂ R ts marks) (i : Nat) (t : Timer) (found : ts[i]? = some t) :
    R t (marks[i]?.getD []) ∧ List.Forall₂ R (ts.eraseIdx i) (marks.eraseIdx i) := by
  induction related generalizing i with
  | nil => simp at found
  | @cons _ _ _ _ first others ih =>
      cases i with
      | zero =>
          cases found
          exact ⟨first, others⟩
      | succ i =>
          obtain ⟨here, rest⟩ := ih i found
          exact ⟨here, .cons first rest⟩

theorem Placed.takeTimer (placed : w.Placed root o) {i : Nat} {t : Timer} {w' : World}
    (taken : w.takeTimer? i = some (t, w')) :
    w'.Placed root { o with timers := o.timers.eraseIdx i } ∧
      (Call.resume t.kont t.value).At (w'.scene root { o with timers := o.timers.eraseIdx i })
        ⟨{ o with timers := o.timers.eraseIdx i }, ⟨.program .hole, 0⟩, (o.timers[i]?).getD []⟩ := by
  obtain ⟨t', found, same⟩ := Option.map_eq_some_iff.mp taken
  cases same
  have grows : (w.scene root o).Grows
      (World.scene { w with timers := w.timers.eraseIdx i, now := t.due } root
        { o with timers := o.timers.eraseIdx i }) :=
    grows_timers root o (o.timers.eraseIdx i) rfl rfl
  obtain ⟨here, others⟩ := timer_of_placed (placed.timers_grow grows) i t found
  exact ⟨⟨placed.inside, placed.store_grows grows, others⟩, here⟩

end World

namespace Request

variable {root : ScopeId}

theorem recorded_run (bound : Nat) (c : Config) (t : Trail) (placed : c.world.Placed root t.origins)
    (here : c.call.At (c.world.scene root t.origins) t) :
    Recorded root (.driven (drive bound c)) (Visiting.record root bound c t) := by
  have same := Visiting.drive_forget root bound c t []
  have sound := Visiting.drive_lexical root bound c t [] placed here (by simp)
  rw [← same]
  unfold Visiting.record
  cases run : Visiting.drive root bound c t [] with
  | unfinished s =>
      rw [run] at sound
      exact ⟨rfl, by simp [Visiting.Run.forget, Result.world?], sound,
        by simp [Visiting.Run.forget, Result.failure?]⟩
  | ended e s =>
      rw [run] at sound
      refine ⟨rfl, ?_, sound.1, ?_⟩
      · intro after ended
        exact Option.some.inj ended
      · intro x failed
        apply sound.2 x
        cases e <;> cases failed
        rfl

theorem recorded_direct (bound : Nat) (e : Expr) (s : Sight) (placed : s.world.Placed root s.origins) :
    Recorded root ((Request.direct e).serve root bound s.world) ((Request.direct e).watch root bound s) := by
  have same := (Visiting.forgets_direct root bound).1 e (.program e) ⟨root, []⟩ { s with visits := [] }
  have sound := (Visiting.keeps root bound).1 (s.scene root) e (.program e) ⟨root, []⟩
    ⟨rfl, Env.fits_root _⟩ { s with visits := [] } ⟨placed, by simp⟩ rfl
  simp only [serve, watch]
  rw [← same]
  cases outcome : Visiting.eval root bound e (.program e) ⟨root, []⟩ { s with visits := [] } with
  | unfinished s' =>
      rw [outcome] at sound
      exact ⟨rfl, by simp [Visiting.Outcome.forget, Result.world?], sound,
        by simp [Visiting.Outcome.forget, Result.failure?]⟩
  | failed cause s' =>
      rw [outcome] at sound
      refine ⟨rfl, fun after ended => Option.some.inj ended, sound.1, ?_⟩
      intro x failed
      exact sound.2.2 x (Option.some.inj failed)
  | done v s' =>
      rw [outcome] at sound
      exact ⟨rfl, fun after ended => Option.some.inj ended, sound.1,
        by simp [Visiting.Outcome.forget, Result.failure?]⟩

theorem recorded (request : Request) (bound : Nat) (s : Sight) (placed : s.world.Placed root s.origins) :
    Recorded root (request.serve root bound s.world) (request.watch root bound s) := by
  cases request with
  | direct e => exact recorded_direct bound e s placed
  | run m e =>
      exact recorded_run bound _ _ (placed.congr rfl rfl rfl)
        ⟨⟨rfl, Env.fits_root _⟩, framesAt_cons trivial rfl⟩
  | fire i =>
      simp only [serve, watch]
      cases taken : s.world.takeTimer? i with
      | none => exact ⟨rfl, fun after ended => Option.some.inj ended, ⟨placed, by simp⟩, by simp [Result.failure?]⟩
      | some timer =>
          obtain ⟨placed', here⟩ := placed.takeTimer taken
          exact recorded_run bound _ _ (placed'.congr rfl rfl rfl) here

end Request

theorem Watched.placed {root : ScopeId} {s : Sight} (watched : Watched root s) :
    s.world.Placed root s.origins := by
  induction watched with
  | start bare => exact bare.placed
  | @served s after _ bound request ended ih =>
      have recorded := request.recorded bound s ih
      have world := recorded.world after ended
      exact world ▸ recorded.sound.placed
  | aside _ store stamps timers ih => exact ih.congr store stamps timers

theorem scoping_is_lexical {root : ScopeId} {s : Sight} (watched : Watched root s) (bound : Nat)
    (request : Request) :
    (request.watch root bound s).1 = request.serve root bound s.world ∧
      (∀ v ∈ (request.watch root bound s).2.visits, v.Lexical root) ∧
      ∀ x, (request.serve root bound s.world).failure? = some (.undefinedVariable x) →
        ∃ v, (request.watch root bound s).2.visits.head? = some v ∧ v.Undefined x := by
  have recorded := request.recorded bound s watched.placed
  exact ⟨recorded.same, recorded.sound.visits, recorded.undefined⟩

def strayFunction : Expr :=
  .assign (.var "f") (.lambda ["x"] (.letIn [.mk "y" (.var "x")] (.var "z")) (some "self"))

def strayCall : Expr := .call (.var "f") [.num 1]

theorem stray_name_undefined :
    ∃ s v, Watched 0 s ∧
      ((Request.run 0 strayCall).serve 0 40 s.world).failure? = some (.undefinedVariable "z") ∧
      ((Request.run 0 strayCall).watch 0 40 s).2.visits.head? = some v ∧ v.Lexical 0 ∧ v.Undefined "z" ∧
      v.site.binders.map Binder.names = [["y"], ["x"], ["self"]] := by
  have runs : ∃ after v,
      ((Request.direct strayFunction).serve 0 5 (.rooted .cps #[⟨2, 2, 0, 0, .missing⟩])).world? =
        some after ∧
      ((Request.run 0 strayCall).serve 0 40 after).failure? = some (.undefinedVariable "z") ∧
      ((Request.run 0 strayCall).watch 0 40 ⟨after, ((Request.direct strayFunction).watch 0 5
        ⟨.rooted .cps #[⟨2, 2, 0, 0, .missing⟩], .none, []⟩).2.origins, []⟩).2.visits.head? = some v ∧
      v.site.binders.map Binder.names = [["y"], ["x"], ["self"]] := ⟨_, _, rfl, rfl, rfl, rfl⟩
  obtain ⟨after, v, ended, failed, latest, binders⟩ := runs
  have watched := Watched.served (.start (World.bare_rooted .cps #[⟨2, 2, 0, 0, .missing⟩])) 5
    (.direct strayFunction) ended
  obtain ⟨_, lexical, undefined⟩ := scoping_is_lexical watched 40 (.run 0 strayCall)
  obtain ⟨v', latest', lost⟩ := undefined "z" failed
  cases latest.symm.trans latest'
  exact ⟨_, v, watched, failed, latest, lexical v (List.mem_of_mem_head? latest), lost, binders⟩

end Trampoline
