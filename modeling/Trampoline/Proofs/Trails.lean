import Trampoline.Proofs.Flow
import Trampoline.Proofs.Visits

set_option autoImplicit false

namespace Trampoline

structure Trail where
  origins : Origins
  mark : Mark
  marks : List Mark

namespace Trail

def into (t : Trail) (p : Part) : Trail := { t with mark := ⟨.part t.mark.site p, 0⟩ }

def within (t : Trail) (p : Part) : Trail :=
  { t with mark := ⟨.part t.mark.site p, 0⟩, marks := t.mark :: t.marks }

def first (t : Trail) : Trail := { t with mark := ⟨t.mark.site, 0⟩ }

def next (t : Trail) : Trail := { t with mark := ⟨t.mark.site, t.mark.index + 1⟩ }

def back (t : Trail) : Trail :=
  match t.marks with
  | [] => t
  | mark :: marks => { t with mark := mark, marks := marks }

def left (t : Trail) (w after : World) : Origins :=
  if after.timers.length = w.timers.length then t.origins
  else { t.origins with timers := t.origins.timers ++ [t.marks] }

theorem left_same (t : Trail) {w after : World} (timers : after.timers = w.timers) :
    t.left w after = t.origins :=
  if_pos (congrArg List.length timers)

theorem left_timer (t : Trail) {w after : World} {timer : Timer} (timers : after.timers = w.timers ++ [timer]) :
    t.left w after = { t.origins with timers := t.origins.timers ++ [t.marks] } := by
  rw [left, if_neg]
  simp [timers]

end Trail

namespace Call

def followExpr (e : Expr) (w : World) (t : Trail) : Trail :=
  match e with
  | .assign (.var _) _ => t.within .value
  | .binary .. => t.within .left
  | .lambda _ _ name => { t with origins := w.making t.origins t.mark.site name }
  | .cond .. => t.within .test
  | .prog _ => t.first
  | .call .. => t.within .func
  | .letIn .. => t.first
  | _ => t

def followFrame (frame : Frame) (v : Value) (w : World) (t : Trail) : Trail :=
  match frame with
  | .left .. => t.within .right
  | .branch .. => t.into (if v.truthy then .yes else .no)
  | .item .. => t.next
  | .callee .. => t.first
  | .argument .. => t.next
  | .init _ name _ _ _ => { t.next with origins := w.binding t.origins t.mark name }
  | _ => t

-- A continuation that `call/cc` hands out waits with the marks of the call, one that is applied with
-- the marks it was captured with. The mark of the frame of a timed call says nothing.
def followValue (func : Value) (w : World) (t : Trail) : Trail :=
  match func with
  | .builtin b =>
      match b.action with
      | .time => { t with marks := t.mark :: t.marks }
      | .callcc => { t with origins := t.origins.captured w.stamps t.marks }
      | _ => t
  | .continuation stamp _ => { t with marks := t.origins.konts stamp }
  | _ => t

def follow (c : Call) (w : World) (t : Trail) : Trail :=
  match c with
  | .evaluate _ e _ _ => followExpr e w t
  | .items _ _ [] _ _ => t
  | .items _ _ (_ :: _) _ _ => t.within (.item t.mark.index)
  | .arguments _ _ _ [] _ _ => t
  | .arguments _ _ _ (_ :: _) _ _ => t.within (.arg t.mark.index)
  | .bindings _ [] _ _ _ => t.into .body
  | .bindings _ (_ :: _) _ _ _ => t.within (.init t.mark.index)
  | .enter _ closure _ _ =>
      { t with
        origins := w.entering t.origins closure
        mark := ⟨.part (t.origins.lambdas closure.stamp) .body, 0⟩ }
  | .apply _ func _ _ _ => followValue func w t
  | .resume [] _ => t
  | .resume (frame :: _) v => followFrame frame v w t.back

def visit? (root : ScopeId) (c : Call) (w : World) (t : Trail) : Option Visit :=
  match c with
  | .evaluate _ e env _ => some ((w.scene root t.origins).visit (.evaluates e) t.mark.site env)
  | .resume (.assign _ name env :: _) _ =>
      some ((w.scene root t.origins).visit (.writes name) t.back.mark.site env)
  | _ => none

-- A call stands where its trail says, and so do the frames that wait for it.
def At (sc : Scene) (t : Trail) : Call → Prop
  | .evaluate _ e env k => sc.Shows t.mark.site e env ∧ framesAt sc k t.marks
  | .items _ last rest env k =>
      (∃ body, sc.Shows t.mark.site (.prog body) env ∧ body.drop t.mark.index = rest) ∧
        last.Placed sc ∧ framesAt sc k t.marks
  | .arguments _ func done rest env k =>
      (∃ callee args, sc.Shows t.mark.site (.call callee args) env ∧ args.drop t.mark.index = rest) ∧
        func.Placed sc ∧ valuesPlaced sc done ∧ framesAt sc k t.marks
  | .bindings _ rest body env k =>
      (∃ bindings, t.mark.site.node? = some (.letIn bindings body) ∧
        bindings.drop t.mark.index = rest ∧ sc.Sees (.part t.mark.site (.init t.mark.index)) env) ∧
        framesAt sc k t.marks
  | .enter _ c args k => c.Placed sc ∧ valuesPlaced sc args ∧ framesAt sc k t.marks
  | .apply _ func args _ k => func.Placed sc ∧ valuesPlaced sc args ∧ framesAt sc k t.marks
  | .resume k v => framesAt sc k t.marks ∧ v.Placed sc

end Call

-- What becomes of a call in a world: the next one stands where the trail leads, and a name that is not
-- found was visited.
def Next.OnTrail (root : ScopeId) (w : World) (t : Trail) (visit : Option Visit) (t' : Trail) :
    Next → Prop
  | .call c w' => w.Evolves root t.origins t'.origins w' ∧ c.At (w'.scene root t'.origins) t'
  | .ended e w' => w.Evolves root t.origins (t.left w w') w' ∧
      ∀ x, e = .failed (.undefinedVariable x) → ∃ v, visit = some v ∧ v.Undefined x

namespace Call

variable {root : ScopeId} {m : MachineId} {w : World} {t : Trail} {visit : Option Visit} {t' : Trail}

theorem onTrail_ended {w' : World} (placed : w.Placed root t.origins) {e : Ending}
    (store : w'.store = w.store) (stamps : w'.stamps = w.stamps) (timers : w'.timers = w.timers)
    (undefined : ∀ x, e = .failed (.undefinedVariable x) → ∃ v, visit = some v ∧ v.Undefined x) :
    (Next.ended e w').OnTrail root w t visit t' := by
  refine ⟨?_, undefined⟩
  rw [Trail.left_same t timers]
  exact placed.evolves_congr store stamps timers

theorem onTrail_stopped (placed : w.Placed root t.origins) {e : Ending}
    (other : ∀ x, e ≠ .failed (.undefinedVariable x)) : (Next.ended e w).OnTrail root w t visit t' :=
  onTrail_ended placed rfl rfl rfl fun x same => absurd same (other x)

theorem evaluateExpr_onTrail {e : Expr} {env : Env} {k : Kont} (placed : w.Placed root t.origins)
    (stands : (w.scene root t.origins).Shows t.mark.site e env)
    (frames : framesAt (w.scene root t.origins) k t.marks) :
    (evaluateExpr m e env k w).OnTrail root w t
      (some ((w.scene root t.origins).visit (.evaluates e) t.mark.site env)) (followExpr e w t) := by
  cases e with
  | num | str | bool => exact ⟨placed.evolves, frames, trivial⟩
  | var name =>
      simp only [evaluateExpr]
      split
      · rename_i v found
        exact ⟨placed.evolves, frames, Store.holds_get? placed.store env name v found⟩
      · rename_i missing
        refine onTrail_ended placed rfl rfl rfl fun x same => ?_
        cases same
        exact ⟨_, rfl, Scene.read_undefined stands.sees missing⟩
  | assign target value =>
      cases target with
      | var name =>
          exact ⟨placed.evolves, stands.part .value rfl rfl, framesAt_cons ⟨value, stands⟩ frames⟩
      | _ => exact onTrail_stopped placed (by simp)
  | binary op left right =>
      exact ⟨placed.evolves, stands.part .left rfl rfl, framesAt_cons ⟨left, stands⟩ frames⟩
  | lambda params body name =>
      obtain ⟨evolves, closure⟩ := World.evolves_makeClosure placed stands
      exact ⟨evolves, framesAt.grows evolves.grows k _ frames, closure⟩
  | cond test yes no =>
      exact ⟨placed.evolves, stands.part .test rfl rfl, framesAt_cons ⟨test, stands⟩ frames⟩
  | prog body => exact ⟨placed.evolves, ⟨body, stands, rfl⟩, trivial, frames⟩
  | call func args =>
      exact ⟨placed.evolves, stands.part .func rfl rfl, framesAt_cons ⟨func, stands⟩ frames⟩
  | letIn bindings body =>
      exact ⟨placed.evolves, ⟨bindings, stands.node, rfl, stands.init⟩, frames⟩
  | hole | binding => exact onTrail_stopped placed (by simp)

theorem nextBinding_onTrail {rest : List Binding} {body : Expr} {env : Env} {k : Kont}
    (placed : w.Placed root t.origins)
    (here : (Call.bindings m rest body env k).At (w.scene root t.origins) t) :
    (nextBinding m rest body env k w).OnTrail root w t none
      ((Call.bindings m rest body env k).follow w t) := by
  obtain ⟨⟨bindings, node, left, sees⟩, frames⟩ := here
  cases rest with
  | nil =>
      exact ⟨placed.evolves, ⟨Site.node?_part node .body, Scene.Sees.body node left sees⟩, frames⟩
  | cons b rest =>
      obtain ⟨name, init⟩ := b
      have waits : framesAt (w.scene root t.origins) (.init m name rest body env :: k) (t.mark :: t.marks) :=
        framesAt_cons ⟨bindings, init, node, left, sees⟩ frames
      simp only [nextBinding]
      split
      · exact ⟨placed.evolves, waits, trivial⟩
      · refine ⟨placed.evolves, ⟨?_, sees⟩, waits⟩
        change (Site.part t.mark.site (.init t.mark.index)).node? = some init
        rw [Site.node?_part node, Expr.part?, (next_of_drop left).1]
        rfl

theorem resumeFrame_onTrail {o : Origins} {earlier mark : Mark} {marks : List Mark} {frame : Frame}
    {k : Kont} {v : Value} (placed : w.Placed root o) (top : frame.At (w.scene root o) mark)
    (frames : framesAt (w.scene root o) k marks) (value : v.Placed (w.scene root o)) :
    (resumeFrame frame k v w).OnTrail root w ⟨o, earlier, mark :: marks⟩
      ((Call.resume (frame :: k) v).visit? root w ⟨o, earlier, mark :: marks⟩)
      (followFrame frame v w ⟨o, mark, marks⟩) := by
  cases frame with
  | final m => exact onTrail_stopped placed (by simp)
  | assign m name env =>
      obtain ⟨written, stands⟩ := top
      simp only [resumeFrame]
      split
      · rename_i i target
        have evolves := World.evolves_setVar placed stands.sees target value
        exact ⟨evolves, framesAt.grows evolves.grows k _ frames, Value.Placed.grows evolves.grows v value⟩
      · rename_i missing
        refine onTrail_ended placed rfl rfl rfl fun x same => ?_
        cases same
        exact ⟨_, rfl, Scene.write_undefined stands.sees missing⟩
  | left m op right env =>
      obtain ⟨left, stands⟩ := top
      exact ⟨placed.evolves, stands.part .right rfl rfl, framesAt_cons value frames⟩
  | right m op left =>
      simp only [resumeFrame]
      split
      · rename_i result applied
        exact ⟨placed.evolves, frames, applyOperator_holds (fun _ => trivial) (fun _ => trivial) op left v
          result top value applied⟩
      · rename_i cause applied
        have failure := applyOperator_error op left v cause applied
        refine onTrail_stopped placed ?_
        rintro x ⟨⟩
        cases failure
  | branch m yes no env =>
      obtain ⟨test, stands⟩ := top
      simp only [resumeFrame, followFrame]
      split
      · exact ⟨placed.evolves, stands.part .yes rfl rfl, frames⟩
      · split
        · exact ⟨placed.evolves, frames, trivial⟩
        · exact ⟨placed.evolves, stands.part .no rfl rfl, frames⟩
  | item m rest env =>
      obtain ⟨body, stands, left⟩ := top
      exact ⟨placed.evolves, ⟨body, stands, left⟩, value, frames⟩
  | callee m args env =>
      obtain ⟨func, stands⟩ := top
      exact ⟨placed.evolves, ⟨func, args, stands, rfl⟩, value, trivial, frames⟩
  | argument m func done rest env =>
      obtain ⟨place, function, earlier⟩ := top
      refine ⟨placed.evolves, place, function, ?_, frames⟩
      rw [valuesPlaced_iff] at earlier ⊢
      exact List.forall_mem_append.mpr ⟨earlier, List.forall_mem_singleton.mpr value⟩
  | init m name rest body env =>
      obtain ⟨bindings, init, node, left, sees⟩ := top
      obtain ⟨evolves, inside⟩ := World.evolves_bind placed mark node left sees value
      exact ⟨evolves, ⟨bindings, node, (next_of_drop left).2, inside⟩,
        framesAt.grows evolves.grows k _ frames⟩
  | timed start env =>
      exact ⟨placed.evolves_congr rfl rfl rfl, frames, value⟩

theorem arm_onTrail {k : Kont} {v : Value} (milliseconds : Float) (placed : w.Placed root t.origins)
    (frames : framesAt (w.scene root t.origins) k t.marks) (value : v.Placed (w.scene root t.origins)) :
    (w.arm m milliseconds k v).OnTrail root w t visit t' := by
  unfold World.arm
  split
  · exact onTrail_stopped placed (by simp)
  · exact onTrail_stopped placed (by simp)
  · dsimp only
    split
    · exact onTrail_ended placed rfl rfl rfl (by simp)
    · refine ⟨?_, by simp⟩
      rw [Trail.left_timer t rfl]
      exact World.evolves_timer placed frames value rfl rfl rfl

theorem applyValue_onTrail {func : Value} {args : List Value} {env : Env} {k : Kont}
    (placed : w.Placed root t.origins) (function : func.Placed (w.scene root t.origins))
    (values : valuesPlaced (w.scene root t.origins) args)
    (frames : framesAt (w.scene root t.origins) k t.marks) :
    (applyValue m func args env k w).OnTrail root w t visit (followValue func w t) := by
  have first := firstArg_placed values
  cases func with
  | closure c => exact ⟨placed.evolves, function, values, frames⟩
  | continuation stamp inner => exact ⟨placed.evolves, function.2, first⟩
  | builtin b =>
      obtain ⟨name, mode, action, stamp⟩ := b
      cases mode with
      | sync => exact onTrail_stopped placed (by simp)
      | cps =>
          cases action with
          | print => exact ⟨placed.evolves_congr rfl rfl rfl, frames, trivial⟩
          | time =>
              exact ⟨placed.evolves_congr rfl rfl rfl, first, trivial, framesAt_cons trivial frames⟩
          | halt => exact onTrail_stopped placed (by simp)
          | sleep =>
              simp only [applyValue, applyBuiltin]
              split
              · exact arm_onTrail _ placed frames trivial
              · rename_i cause failure
                have number : OperatorFailure "" cause := toNumber_error failure
                refine onTrail_stopped placed ?_
                rintro x ⟨⟩
                cases number
          | callcc =>
              obtain ⟨evolves, continuation⟩ := World.evolves_captured placed frames
              exact ⟨evolves, Value.Placed.grows evolves.grows _ first, ⟨continuation, trivial⟩,
                framesAt.grows evolves.grows k _ frames⟩
  | _ => exact onTrail_stopped placed (by simp)

theorem perform_onTrail (c : Call) (placed : w.Placed root t.origins)
    (here : c.At (w.scene root t.origins) t) :
    (c.perform w).OnTrail root w t (c.visit? root w t) (c.follow w t) := by
  cases c with
  | evaluate m e env k => exact evaluateExpr_onTrail placed here.1 here.2
  | items m last rest env k =>
      obtain ⟨⟨body, stands, left⟩, value, frames⟩ := here
      cases rest with
      | nil => exact ⟨placed.evolves, frames, value⟩
      | cons e rest =>
          obtain ⟨next, others⟩ := next_of_drop left
          exact ⟨placed.evolves, stands.part (.item t.mark.index) next rfl,
            framesAt_cons ⟨body, stands, others⟩ frames⟩
  | arguments m func done rest env k =>
      obtain ⟨⟨callee, args, stands, left⟩, function, values, frames⟩ := here
      cases rest with
      | nil => exact ⟨placed.evolves, function, values, frames⟩
      | cons e rest =>
          obtain ⟨next, others⟩ := next_of_drop left
          exact ⟨placed.evolves, stands.part (.arg t.mark.index) next rfl,
            framesAt_cons ⟨⟨callee, args, stands, others⟩, function, values⟩ frames⟩
  | bindings m rest body env k => exact nextBinding_onTrail placed here
  | enter m closure args k =>
      obtain ⟨function, values, frames⟩ := here
      obtain ⟨evolves, stands⟩ := World.evolves_bindParams placed function values
      exact ⟨evolves, stands, framesAt.grows evolves.grows k _ frames⟩
  | apply m func args env k => exact applyValue_onTrail placed here.1 here.2.1 here.2.2
  | resume k v =>
      cases k with
      | nil => exact onTrail_stopped placed (by simp)
      | cons frame k =>
          obtain ⟨o, earlier, marks⟩ := t
          obtain ⟨⟨mark, marks, rfl, top, frames⟩, value⟩ := here
          exact resumeFrame_onTrail placed top frames value

theorem visit_lexical (c : Call) (here : c.At (w.scene root t.origins) t) (v : Visit)
    (visited : c.visit? root w t = some v) : v.Lexical root := by
  cases c with
  | evaluate m e env k =>
      cases visited
      exact Scene.visit_lexical here.1 rfl
  | resume k value =>
      cases k with
      | nil => cases visited
      | cons frame k =>
          cases frame with
          | assign m name env =>
              obtain ⟨o, earlier, marks⟩ := t
              obtain ⟨⟨mark, marks, rfl, ⟨written, stands⟩, frames⟩, _⟩ := here
              cases visited
              exact Scene.visit_lexical stands ⟨written, rfl⟩
          | _ => cases visited
  | _ => cases visited

end Call

namespace Config

def bounces (c : Config) : Bool :=
  match c.call.checkpoint? with
  | none => false
  | some (m, _) => !c.world.canSpend m

def paid (c : Config) : World :=
  match c.call.checkpoint? with
  | none => c.world
  | some (m, _) => c.world.spend m

theorem step_eq (c : Config) :
    c.step =
      if c.bounces then .next ⟨c.driver, c.legs + 1, c.call, c.world.refill c.driver⟩
      else advance c.driver c.legs (c.call.perform c.paid) := by
  obtain ⟨driver, legs, call, w⟩ := c
  cases check : call.checkpoint? with
  | none => simp [step, bounces, paid, check]
  | some spending =>
      cases affordable : w.canSpend spending.1 <;> simp [step, bounces, paid, check, affordable]

theorem paid_same (c : Config) :
    c.paid.store = c.world.store ∧ c.paid.stamps = c.world.stamps ∧ c.paid.timers = c.world.timers := by
  unfold paid
  split <;> exact ⟨rfl, rfl, rfl⟩

def trail (c : Config) (t : Trail) : Trail := if c.bounces then t else c.call.follow c.paid t

def visit? (root : ScopeId) (c : Config) (t : Trail) : Option Visit :=
  if c.bounces then none else c.call.visit? root c.paid t

theorem paid_scene (c : Config) (root : ScopeId) (o : Origins) :
    c.paid.scene root o = c.world.scene root o := by
  obtain ⟨store, stamps, _⟩ := c.paid_same
  rw [World.scene, World.scene, store, stamps]

theorem visits_lexical {root : ScopeId} {c : Config} {t : Trail} {visits : List Visit}
    (here : c.call.At (c.world.scene root t.origins) t) (lexical : ∀ v ∈ visits, v.Lexical root) :
    ∀ v ∈ (c.visit? root t).toList ++ visits, v.Lexical root := by
  intro v member
  rcases List.mem_append.mp member with now | before
  · unfold visit? at now
    split at now
    · cases now
    · rw [← c.paid_scene] at here
      exact c.call.visit_lexical here v (Option.mem_toList.mp now)
  · exact lexical v before

end Config

namespace Visiting

inductive Run where
  | ended (e : Ending) (s : Sight)
  | unfinished (s : Sight)

def Run.forget : Run → Option (Ending × World)
  | .ended e s => some (e, s.world)
  | .unfinished _ => none

def drive (root : ScopeId) : Nat → Config → Trail → List Visit → Run
  | 0, c, t, visits => .unfinished ⟨c.world, t.origins, visits⟩
  | bound + 1, c, t, visits =>
      let visits := (c.visit? root t).toList ++ visits
      match c.step with
      | .next d => drive root bound d (c.trail t) visits
      | .ended e w => .ended e ⟨w, t.left c.world w, visits⟩

theorem drive_forget (root : ScopeId) (bound : Nat) (c : Config) (t : Trail) (visits : List Visit) :
    (drive root bound c t visits).forget = Trampoline.drive bound c := by
  induction bound generalizing c t visits with
  | zero => rfl
  | succ bound ih =>
      rw [drive, Trampoline.drive]
      cases c.step with
      | next d => exact ih d _ _
      | ended e w => rfl

def Run.Lexical (root : ScopeId) : Run → Prop
  | .ended e s => s.Lexical root ∧
      ∀ x, e = .failed (.undefinedVariable x) → ∃ v, s.visits.head? = some v ∧ v.Undefined x
  | .unfinished s => s.Lexical root

theorem same_of_quiet {w w' : World} (quiet : w.quiet = w'.quiet) :
    w.store = w'.store ∧ w.stamps = w'.stamps ∧ w.timers = w'.timers := by
  have store : w.quiet.store = w'.quiet.store := congrArg World.store quiet
  have stamps : w.quiet.stamps = w'.quiet.stamps := congrArg World.stamps quiet
  have timers : w.quiet.timers = w'.quiet.timers := congrArg World.timers quiet
  exact ⟨store, stamps, timers⟩

theorem drive_lexical (root : ScopeId) (bound : Nat) (c : Config) (t : Trail) (visits : List Visit)
    (placed : c.world.Placed root t.origins) (here : c.call.At (c.world.scene root t.origins) t)
    (lexical : ∀ v ∈ visits, v.Lexical root) : (drive root bound c t visits).Lexical root := by
  induction bound generalizing c t visits with
  | zero => exact ⟨placed, lexical⟩
  | succ bound ih =>
      have visited := Config.visits_lexical here lexical
      rw [drive, c.step_eq]
      by_cases bounced : c.bounces
      · have same : c.trail t = t := if_pos bounced
        rw [if_pos bounced, same]
        exact ih _ t _ (placed.congr rfl rfl rfl) here visited
      · have on : c.trail t = c.call.follow c.paid t := if_neg bounced
        have now : c.visit? root t = c.call.visit? root c.paid t := if_neg bounced
        obtain ⟨store, stamps, timers⟩ := c.paid_same
        rw [← c.paid_scene] at here
        have followed := c.call.perform_onTrail (placed.congr store stamps timers) here
        rw [if_neg bounced, on]
        cases result : c.call.perform c.paid with
        | call d w' =>
            rw [result] at followed
            exact ih ⟨c.driver, c.legs, d, w'⟩ _ _ followed.1.placed followed.2 visited
        | ended e w' =>
            obtain ⟨after, finished, quiet⟩ := Config.finish_ended c.driver c.legs e w'
            rw [result] at followed
            simp only [Config.advance, finished]
            obtain ⟨store', stamps', timers'⟩ := same_of_quiet quiet
            have kept : t.left c.world after = t.left c.paid w' := by
              rw [Trail.left, Trail.left, timers, timers']
            refine ⟨⟨?_, visited⟩, ?_⟩
            · rw [kept]
              exact followed.1.placed.congr store' stamps' timers'
            · intro x failed
              obtain ⟨v, seen, undefined⟩ := followed.2 x failed
              exact ⟨v, by simp [now, seen], undefined⟩

end Visiting

end Trampoline
