import Trampoline.Proofs.Twins

set_option autoImplicit false

namespace Trampoline

mutual

def Value.Dated (given : Nat) : Value → Prop
  | .closure c => c.stamp < given
  | .continuation stamp frames => stamp < given ∧ framesDated given frames
  | _ => True

def Frame.Dated (given : Nat) : Frame → Prop
  | .right _ _ left => left.Dated given
  | .argument _ func done _ _ => func.Dated given ∧ valuesDated given done
  | _ => True

def framesDated (given : Nat) : List Frame → Prop
  | [] => True
  | frame :: k => frame.Dated given ∧ framesDated given k

def valuesDated (given : Nat) : List Value → Prop
  | [] => True
  | v :: vs => v.Dated given ∧ valuesDated given vs

end

def Failure.Dated (given : Nat) : Failure → Prop
  | .notNumber v => v.Dated given
  | .notFunction v => v.Dated given
  | _ => True

def Event.Dated (given : Nat) : Event → Prop
  | .result v => v.Dated given
  | .failed cause => cause.Dated given
  | .raised cause => cause.Dated given
  | _ => True

structure World.Dated (w : World) : Prop where
  store : w.store.Every (Value.Dated w.stamps)
  timers : ∀ t ∈ w.timers, framesDated w.stamps t.kont ∧ t.value.Dated w.stamps
  events : ∀ event ∈ w.events, event.Dated w.stamps

theorem World.dated_rooted (mode : Mode) (machines : Array Machine) : (rooted mode machines).Dated := by
  refine ⟨?_, by simp [rooted, root], by simp [rooted, root, events]⟩
  refine Store.every_push ?_ _ none ?_
  · simp [Store.Every]
  · intro entry listed
    obtain ⟨b, _, rfl⟩ := List.mem_map.mp listed
    trivial

section Same

variable {m : MachineId} {given : Nat}

mutual

theorem Value.Dated.twin (v : Value) (dated : v.Dated given) : v.Twin m (.same given) v := by
  cases v with
  | closure c => exact .closure ⟨rfl, dated⟩
  | continuation stamp frames => exact .continuation ⟨rfl, dated.1⟩ (framesDated.twin frames dated.2)
  | _ => exact .atom rfl

theorem Frame.Dated.twin (frame : Frame) (dated : frame.Dated given) : frame.Twin m (.same given) frame := by
  cases frame with
  | right owner op left => exact .right (Value.Dated.twin left dated)
  | argument owner func done rest env =>
      exact .argument (Value.Dated.twin func dated.1) (valuesDated.twin done dated.2)
  | _ => exact .bare rfl

theorem framesDated.twin (k : List Frame) (dated : framesDated given k) : FramesTwin m (.same given) k k := by
  cases k with
  | nil => exact .nil
  | cons frame k => exact .cons (Frame.Dated.twin frame dated.1) (framesDated.twin k dated.2)

theorem valuesDated.twin (vs : List Value) (dated : valuesDated given vs) : ValuesTwin m (.same given) vs vs := by
  cases vs with
  | nil => exact .nil
  | cons v vs => exact .cons (Value.Dated.twin v dated.1) (valuesDated.twin vs dated.2)

end

theorem Failure.Dated.twin (cause : Failure) (dated : cause.Dated given) : cause.Twin m (.same given) cause := by
  cases cause with
  | notNumber v => exact .notNumber (Value.Dated.twin v dated)
  | notFunction v => exact .notFunction (Value.Dated.twin v dated)
  | _ => exact .same fun _ => ⟨by simp, by simp⟩

theorem Event.Dated.twin (event : Event) (visible : event.isVisible = true) (dated : event.Dated given) :
    event.Twin m (.same given) event := by
  cases event with
  | line stream text => exact .line stream text
  | armed milliseconds pending => exact .armed milliseconds pending
  | idle => exact .idle
  | result v => exact .result (Value.Dated.twin v dated)
  | failed cause => exact .failed (Failure.Dated.twin cause dated)
  | raised cause => exact .raised (Failure.Dated.twin cause dated)
  | _ => cases visible

theorem World.Dated.twin {w : World} (dated : w.Dated) (m : MachineId) : w.Twin m (.same w.stamps) w := by
  refine ⟨Pairing.fair_same _, ⟨rfl, fun i => ?_⟩, rfl, rfl, rfl, ?_, rfl, ?_⟩
  · cases found : w.store.scopes[i]? with
    | none => exact .none
    | some scope =>
        refine .some ⟨List.forall₂_same.mpr fun entry listed => ⟨rfl, ?_⟩, rfl⟩
        exact Value.Dated.twin _ (dated.store scope (Array.mem_of_getElem? found) entry listed)
  · refine List.forall₂_same.mpr fun t waiting => ⟨rfl, rfl, ?_, ?_⟩
    · exact framesDated.twin _ (dated.timers t waiting).1
    · exact Value.Dated.twin _ (dated.timers t waiting).2
  · refine List.forall₂_same.mpr fun event noted => ?_
    have seen := Array.mem_toList_iff.mp noted
    exact Event.Dated.twin event (Array.mem_filter.mp seen).2 (dated.events event seen)

end Same

section Paired

variable {m : MachineId} {pairs : Pairing} {given given' : Nat}

mutual

theorem Value.Twin.dated (fair : pairs.Fair given given') {v u : Value} (twin : v.Twin m pairs u) : v.Dated given := by
  cases twin with
  | atom plain => cases v <;> trivial
  | closure pair => exact (fair.below pair).1
  | continuation pair frames => exact ⟨(fair.below pair).1, frames.dated fair⟩

theorem Frame.Twin.dated (fair : pairs.Fair given given') {f g : Frame} (twin : f.Twin m pairs g) : f.Dated given := by
  cases twin with
  | bare plain => cases f <;> trivial
  | right value => exact value.dated fair
  | argument func values => exact ⟨func.dated fair, values.dated fair⟩
  | init => trivial

theorem FramesTwin.dated (fair : pairs.Fair given given') {k l : Kont} (twins : FramesTwin m pairs k l) :
    framesDated given k := by
  cases twins with
  | nil => trivial
  | cons frame rest => exact ⟨frame.dated fair, rest.dated fair⟩

theorem ValuesTwin.dated (fair : pairs.Fair given given') {vs us : List Value} (twins : ValuesTwin m pairs vs us) :
    valuesDated given vs := by
  cases twins with
  | nil => trivial
  | cons value rest => exact ⟨value.dated fair, rest.dated fair⟩

end

theorem Failure.Twin.dated (fair : pairs.Fair given given') {cause cause' : Failure} (twin : cause.Twin m pairs cause') :
    cause.Dated given := by
  cases twin with
  | notNumber value => exact value.dated fair
  | notFunction value => exact value.dated fair
  | same plain =>
      cases cause with
      | notNumber v => exact absurd rfl (plain v).1
      | notFunction v => exact absurd rfl (plain v).2
      | _ => trivial

theorem Event.Twin.dated (fair : pairs.Fair given given') {event event' : Event} (twin : event.Twin m pairs event') :
    event.Dated given := by
  cases twin with
  | result value => exact value.dated fair
  | failed cause => exact cause.dated fair
  | raised cause => exact cause.dated fair
  | _ => trivial

theorem forall_of_related {α β : Type} {R : α → β → Prop} {P : α → Prop} {as : List α} {bs : List β}
    (related : List.Forall₂ R as bs) (property : ∀ a b, R a b → P a) : ∀ a ∈ as, P a :=
  ((List.forall₂_and_left as bs).mp (related.imp fun a b pair => ⟨property a b pair, pair⟩)).1

theorem World.Twin.dated {w u : World} (twin : w.Twin m pairs u) : w.Dated := by
  refine ⟨fun scope member => ?_, ?_, fun event noted => ?_⟩
  · obtain ⟨i, found⟩ := Array.getElem?_of_mem member
    have here := twin.store.scopes i
    rw [found] at here
    generalize u.store.scopes[i]? = scope' at here
    cases here with
    | some scope => exact forall_of_related scope.vars fun _ _ entry => entry.2.dated twin.stamps
  · exact forall_of_related twin.timers fun _ _ t => ⟨t.kont.dated twin.stamps, t.value.dated twin.stamps⟩
  · exact forall_of_related twin.events (fun _ _ same => same.dated twin.stamps) event (Array.mem_toList_iff.mpr noted)

end Paired

end Trampoline
