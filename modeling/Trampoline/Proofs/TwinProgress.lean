import Trampoline.Proofs.TwinRuns

set_option autoImplicit false

namespace Trampoline

def EndsMatch {α β : Type} (P : α → Prop) (Q : β → Prop) (R : α → β → Prop) : Prop :=
  (∀ a, P a → ∃ b, Q b ∧ R a b) ∧ ∀ b, Q b → ∃ a, P a ∧ R a b

def Call.payer? (c : Call) : Option MachineId := c.checkpoint?.map Prod.fst

def World.charged (m : MachineId) (payer : Option MachineId) (w : World) : World :=
  match payer with
  | none => w
  | some owner => if owner = m then w else w.spend owner

theorem World.aside_charged_refill (m : MachineId) (payer : Option MachineId) (w : World) :
    ((w.refill m).charged m payer).aside m = (w.charged m payer).aside m := by
  cases payer with
  | none => exact w.aside_refill m
  | some owner =>
      simp only [charged]
      split
      · exact w.aside_refill m
      · rename_i other
        have commutes : (w.refill m).spend owner = (w.spend owner).refill m := by
          simp only [refill, spend, updateMachine]
          rw [modify_swap _ _ _ _ _ fun same => absurd same.symm other]
        rw [commutes]
        exact aside_refill m _

namespace Config

abbrev Leaps : Config → Config → Prop := Relation.TransGen fun c d => c.step = .next d

def Ends (c : Config) (r : Ending × World) : Prop := ∃ bound, drive bound c = some r

theorem stalled_iff (c : Config) :
    c.Stalled ↔ ∃ owner, owner ≠ c.driver ∧ c.call.payer? = some owner ∧ c.world.canSpend owner = false := by
  constructor
  · rintro ⟨owner, point, other, check, spent⟩
    exact ⟨owner, other, by rw [Call.payer?, check]; rfl, spent⟩
  · rintro ⟨owner, other, payer, spent⟩
    obtain ⟨⟨_, point⟩, check, rfl⟩ := Option.map_eq_some_iff.mp payer
    exact ⟨_, point, other, check, spent⟩

theorem step_charged {c : Config} (clear : ¬ c.Blocked) :
    ∃ v, v.aside c.driver = (c.world.charged c.driver c.call.payer?).aside c.driver ∧
      c.step = advance c.driver c.legs (c.call.perform v) := by
  obtain ⟨driver, legs, call, w⟩ := c
  cases check : call.checkpoint? with
  | none => exact ⟨w, by simp only [World.charged, Call.payer?, check, Option.map_none], by simp only [step, check]⟩
  | some spending =>
      obtain ⟨owner, point⟩ := spending
      by_cases affordable : w.canSpend owner = true
      · refine ⟨w.spend owner, ?_, by simp only [step, check, if_pos affordable]⟩
        simp only [World.charged, Call.payer?, check, Option.map_some]
        split
        · rename_i own
          rw [own]
          exact w.aside_spend driver
        · rfl
      · exact absurd ⟨owner, point, check, by simpa using affordable⟩ clear

theorem makes {c : Config} (positive : c.world.CanRefill c.driver) (free : ¬ c.Stalled) :
    ∃ d v, c.Reaches d ∧ v.aside c.driver = (c.world.charged c.driver c.call.payer?).aside c.driver ∧
      d.step = advance c.driver d.legs (c.call.perform v) := by
  by_cases blocked : c.Blocked
  · obtain ⟨v, same, stepped⟩ := step_charged (clear_bounced positive free)
    exact ⟨c.bounced, v, .single (step_blocked blocked), same.trans (World.aside_charged_refill _ _ _), stepped⟩
  · obtain ⟨v, same, stepped⟩ := step_charged blocked
    exact ⟨c, v, .refl, same, stepped⟩

theorem finish_aside (m : MachineId) (legs : Nat) (e : Ending) (w : World) :
    ∃ after, finish m legs e w = .ended e after ∧ after.aside m = w.aside m := by
  cases e with
  | failed cause => exact ⟨w, rfl, rfl⟩
  | _ => exact ⟨w.countLegs m legs, rfl, w.aside_countLegs m legs⟩

theorem drive_leaps {bound : Nat} {c d : Config} {r : Ending × World} (leaps : c.Leaps d)
    (driven : drive bound c = some r) : ∃ fewer, fewer < bound ∧ drive fewer d = some r := by
  have once {c d : Config} {bound : Nat} (next : c.step = .next d) (driven : drive bound c = some r) :
      ∃ fewer, fewer < bound ∧ drive fewer d = some r := by
    cases bound with
    | zero => cases driven
    | succ bound =>
        rw [drive, next] at driven
        exact ⟨bound, Nat.lt_succ_self bound, driven⟩
  induction leaps with
  | single next => exact once next driven
  | tail _ next ih =>
      obtain ⟨fewer, less, driven'⟩ := ih
      obtain ⟨fewer', less', driven''⟩ := once next driven'
      exact ⟨fewer', Nat.lt_trans less' less, driven''⟩

theorem ends_of_reaches {c d : Config} {r : Ending × World} (reaches : c.Reaches d) (ends : d.Ends r) : c.Ends r := by
  obtain ⟨bound, driven⟩ := ends
  obtain ⟨last, onward, ended⟩ := reaches_of_drive bound d r.1 r.2 driven
  exact drive_of_reaches (reaches.trans onward) ended

-- Where each of two runs always gets on, as long as the first is not stalled, the second ends if the first does. The
-- induction is on the steps of the first run.
theorem ends_of_onward {R : Config → Config → Prop} {S : Ending × World → Ending × World → Prop}
    (onward : ∀ c d, R c d → ¬ c.Stalled →
      (∃ c' d', c.Leaps c' ∧ d.Leaps d' ∧ R c' d') ∨ ∃ r r', c.Ends r ∧ d.Ends r' ∧ S r r')
    (bound : Nat) (c d : Config) (related : R c d) (r : Ending × World) (driven : drive bound c = some r) :
    ∃ r', d.Ends r' ∧ S r r' := by
  induction bound using Nat.strongRecOn generalizing c d with
  | ind bound ih =>
      have free : ¬ c.Stalled := by
        intro stalled
        cases (drive_stalled bound c stalled).symm.trans driven
      rcases onward c d related free with ⟨c', d', leaps, leaps', related'⟩ | ⟨last, r', ⟨bound', driven'⟩, ends, same⟩
      · obtain ⟨fewer, less, driven'⟩ := drive_leaps leaps driven
        obtain ⟨r', ends, same⟩ := ih fewer less c' d' related' driven'
        exact ⟨r', ends_of_reaches leaps'.to_reflTransGen ends, same⟩
      · cases drive_unique bound' bound c last r driven' driven
        exact ⟨r', ends, same⟩

end Config

section Leap

variable {m : MachineId}

def Leap (m : MachineId) (call : Call) (w : World) (call' : Call) (w' : World) : Prop :=
  ∀ legs v, v.CanRefill m → v.aside m = w.aside m →
    ∃ legs' v', Config.Leaps ⟨m, legs, call, v⟩ ⟨m, legs', call', v'⟩ ∧ v'.aside m = w'.aside m

theorem Leap.trans {call call' call'' : Call} {w w' w'' : World} (first : Leap m call w call' w')
    (second : Leap m call' w' call'' w'') : Leap m call w call'' w'' := by
  intro legs v positive same
  obtain ⟨legs', v', leaps, same'⟩ := first legs v positive same
  obtain ⟨legs'', v'', leaps', same''⟩ :=
    second legs' v' (Config.positive_reaches positive leaps.to_reflTransGen) same'
  exact ⟨legs'', v'', leaps.trans leaps', same''⟩

theorem Leap.once {call call' : Call} {w w' : World} (own : call.payer?.getD m = m)
    (performs : ∀ v, v.aside m = w.aside m → ∃ v', call.perform v = .call call' v' ∧ v'.aside m = w'.aside m) :
    Leap m call w call' w' := by
  intro legs v positive same
  have free : ¬ Config.Stalled ⟨m, legs, call, v⟩ := by
    rw [Config.stalled_iff]
    rintro ⟨owner, other, payer, _⟩
    rw [payer] at own
    exact other own
  have charged : v.charged m call.payer? = v := by
    cases payer : call.payer? with
    | none => rfl
    | some owner =>
        rw [payer] at own
        exact if_pos own
  obtain ⟨d, u, reaches, same', stepped⟩ := Config.makes positive free
  simp only [charged] at same'
  obtain ⟨v', performed, same''⟩ := performs u (same'.trans same)
  simp only [performed] at stepped
  exact ⟨d.legs, v', .tail' reaches stepped, same''⟩

theorem Leap.goes {call call' : Call} {w : World} (own : call.payer?.getD m = m)
    (performs : ∀ v, call.perform v = .call call' v) : Leap m call w call' w :=
  .once own fun v same => ⟨v, performs v, same⟩

theorem World.bind_aside {v w : World} (same : v.aside m = w.aside m) (env : Env) (name : String) (x : Value) :
    (v.bind env name x).1 = (w.bind env name x).1 ∧ (v.bind env name x).2.aside m = (w.bind env name x).2.aside m := by
  have stores := congrArg World.store same
  have store : v.store = w.store := stores
  simp only [World.bind, store]
  exact ⟨trivial, congrArg (fun u : World => { u with store := (w.store.extend env [(name, x)]).2 }) same⟩

namespace Leap

variable (w : World) (env : Env) (name : String) (k : Kont)

theorem binds (rest : List Binding) (body : Expr) (x : Value) :
    Leap m (.resume (.init m name rest body env :: k) x) w (.bindings m rest body (w.bind env name x).1 k)
      (w.bind env name x).2 := by
  refine .once rfl fun v same => ?_
  obtain ⟨inner, world⟩ := World.bind_aside same env name x
  exact ⟨(v.bind env name x).2, by rw [← inner]; rfl, world⟩

theorem enters (stamp : Nat) (body : Expr) (args : List Value) (scope : Env) :
    Leap m (.arguments m (.closure ⟨stamp, [name], body, none, env⟩) args [] scope k) w
      (.evaluate m body (w.bind env name (firstArg args)).1 k) (w.bind env name (firstArg args)).2 := by
  have arguments : Leap m (.arguments m (.closure ⟨stamp, [name], body, none, env⟩) args [] scope k) w
      (.apply m (.closure ⟨stamp, [name], body, none, env⟩) args scope k) w :=
    .goes rfl fun _ => rfl
  have applied : Leap m (.apply m (.closure ⟨stamp, [name], body, none, env⟩) args scope k) w
      (.enter m ⟨stamp, [name], body, none, env⟩ args k) w :=
    .goes rfl fun _ => rfl
  refine arguments.trans (applied.trans (.once rfl fun v same => ?_))
  obtain ⟨inner, world⟩ := World.bind_aside same env name (firstArg args)
  exact ⟨(v.bind env name (firstArg args)).2, by rw [← inner]; rfl, world⟩

theorem makes (body : Expr) (args : List Expr) :
    Leap m (.evaluate m (.call (.lambda [name] body none) args) env k) w
      (.arguments m (.closure ⟨w.stamps, [name], body, none, env⟩) [] args env k) { w with stamps := w.stamps + 1 } := by
  have callee : Leap m (.evaluate m (.call (.lambda [name] body none) args) env k) w
      (.evaluate m (.lambda [name] body none) env (.callee m args env :: k)) w :=
    .goes rfl fun _ => rfl
  have made : Leap m (.evaluate m (.lambda [name] body none) env (.callee m args env :: k)) w
      (.resume (.callee m args env :: k) (.closure ⟨w.stamps, [name], body, none, env⟩))
      { w with stamps := w.stamps + 1 } := by
    refine .once rfl fun v same => ?_
    have counts := congrArg World.stamps same
    have stamps : v.stamps = w.stamps := counts
    refine ⟨{ v with stamps := v.stamps + 1 }, by rw [← stamps]; rfl, ?_⟩
    rw [stamps]
    exact congrArg (fun u : World => { u with stamps := w.stamps + 1 }) same
  exact callee.trans (made.trans (.goes rfl fun _ => rfl))

end Leap

end Leap

-- Two runs on one machine, at a point that both pass or where they part.
inductive Config.Twin (m : MachineId) (pairs : Pairing) : Config → Config → Prop where
  | mk {legs legs' : Nat} {c d : Call} {w u : World} : c.Twin m pairs d ∨ c.Parting m pairs d → w.Twin m pairs u →
      w.CanRefill m → u.CanRefill m → Config.Twin m pairs ⟨m, legs, c, w⟩ ⟨m, legs', d, u⟩

def EndsTwin (m : MachineId) (pairs : Pairing) (r r' : Ending × World) : Prop :=
  ∃ pairs', pairs.ExtendedBy pairs' ∧ r.1.Twin m pairs' r'.1 ∧ r.2.Twin m pairs' r'.2

def Config.Onward (m : MachineId) (pairs : Pairing) (c d : Config) : Prop :=
  (∃ pairs' c' d', pairs.ExtendedBy pairs' ∧ c.Leaps c' ∧ d.Leaps d' ∧ Config.Twin m pairs' c' d') ∨
    ∃ r r', c.Ends r ∧ d.Ends r' ∧ EndsTwin m pairs r r'

section Onward

variable {m : MachineId} {pairs : Pairing} {c d : Call} {w u : World} {legs legs' : Nat}

theorem Call.Twin.payer?_eq (call : c.Twin m pairs d) : d.payer? = c.payer? := by
  cases call with
  | resume frames _ =>
      cases frames with
      | nil => rfl
      | cons frame _ => cases frame <;> rfl
  | _ => rfl

theorem Call.Parting.own (parting : c.Parting m pairs d) : c.payer? = some m ∧ d.payer? = some m := by
  cases parting <;> exact ⟨rfl, rfl⟩

theorem World.Twin.charged (twin : w.Twin m pairs u) (payer : Option MachineId) :
    (w.charged m payer).Twin m pairs (u.charged m payer) := by
  cases payer with
  | none => exact twin
  | some owner =>
      simp only [World.charged]
      split
      · exact twin
      · exact twin.updateMachine owner _ fun own => absurd own (by assumption)

theorem EndsTwin.mono {pairs' : Pairing} {r r' : Ending × World} (grows : pairs.ExtendedBy pairs')
    (twin : EndsTwin m pairs' r r') : EndsTwin m pairs r r' := by
  obtain ⟨pairs'', grows', ending, world⟩ := twin
  exact ⟨pairs'', grows.trans grows', ending, world⟩

namespace Config

theorem Twin.stalled_iff {c d : Config} (twin : Config.Twin m pairs c d) : c.Stalled ↔ d.Stalled := by
  obtain ⟨call, world, _, _⟩ := twin
  rw [Config.stalled_iff, Config.stalled_iff]
  rcases call with same | parting
  · simp only [same.payer?_eq]
    constructor
    · rintro ⟨owner, other, payer, spent⟩
      exact ⟨owner, other, payer, (world.canSpend_other other).trans spent⟩
    · rintro ⟨owner, other, payer, spent⟩
      exact ⟨owner, other, payer, (world.canSpend_other other).symm.trans spent⟩
  · obtain ⟨own, own'⟩ := parting.own
    constructor
    · rintro ⟨owner, other, payer, _⟩
      exact absurd (Option.some.inj (payer.symm.trans own)) other
    · rintro ⟨owner, other, payer, _⟩
      exact absurd (Option.some.inj (payer.symm.trans own')) other

theorem Onward.after {c c' d : Config} (leaps : c.Leaps c') (onward : Onward m pairs c' d) : Onward m pairs c d := by
  rcases onward with ⟨pairs', c'', d', grows, leaps', leaps'', twin⟩ | ⟨r, r', ends, ends', twin⟩
  · exact .inl ⟨pairs', c'', d', grows, leaps.trans leaps', leaps'', twin⟩
  · exact .inr ⟨r, r', ends_of_reaches leaps.to_reflTransGen ends, ends', twin⟩

theorem onward_of_leaps {c' d' : Call} {w' u' : World} (positive : w.CanRefill m) (positive' : u.CanRefill m)
    (leap : Leap m c w c' w') (leap' : Leap m d u d' u') (call : c'.Twin m pairs d' ∨ c'.Parting m pairs d')
    (world : w'.Twin m pairs u') : Onward m pairs ⟨m, legs, c, w⟩ ⟨m, legs', d, u⟩ := by
  obtain ⟨_, v, leaps, same⟩ := leap legs w positive rfl
  obtain ⟨_, v', leaps', same'⟩ := leap' legs' u positive' rfl
  refine .inl ⟨pairs, _, _, fun _ _ => id, leaps, leaps', call, world.congr same same', ?_, ?_⟩
  · exact positive_reaches positive leaps.to_reflTransGen
  · exact positive_reaches positive' leaps'.to_reflTransGen

theorem onward_same (positive : w.CanRefill m) (positive' : u.CanRefill m) (call : c.Twin m pairs d)
    (twin : w.Twin m pairs u) (free : ¬ Stalled ⟨m, legs, c, w⟩) :
    Onward m pairs ⟨m, legs, c, w⟩ ⟨m, legs', d, u⟩ ∨ c.Parting m pairs d := by
  have both : Config.Twin m pairs ⟨m, legs, c, w⟩ ⟨m, legs', d, u⟩ := ⟨.inl call, twin, positive, positive'⟩
  have free' : ¬ Stalled ⟨m, legs', d, u⟩ := fun stalled => free (both.stalled_iff.mpr stalled)
  obtain ⟨last, v, reaches, same, stepped⟩ := makes positive free
  obtain ⟨last', v', reaches', same', stepped'⟩ := makes positive' free'
  have charged := twin.charged c.payer?
  simp only [call.payer?_eq] at same'
  rcases call.perform (charged.congr same same') with next | parting
  · left
    simp only at stepped stepped'
    generalize c.perform v = made at next stepped
    generalize d.perform v' = made' at next stepped'
    cases next with
    | @call pairs' _ _ _ _ grows call world =>
        refine .inl ⟨pairs', _, _, grows, .tail' reaches stepped, .tail' reaches' stepped', .inl call, world, ?_, ?_⟩
        · exact positive_next (positive_reaches positive reaches) stepped
        · exact positive_next (positive_reaches positive' reaches') stepped'
    | @ended pairs' e e' after after' grows ending world =>
        obtain ⟨left, finished, same⟩ := finish_aside m last.legs e after
        obtain ⟨left', finished', same'⟩ := finish_aside m last'.legs e' after'
        simp only [advance, finished] at stepped
        simp only [advance, finished'] at stepped'
        exact .inr ⟨(e, left), (e', left'), drive_of_reaches reaches stepped, drive_of_reaches reaches' stepped', pairs',
          grows, ending, world.congr same same'⟩
  · exact .inr parting

theorem onward_parting (positive : w.CanRefill m) (positive' : u.CanRefill m) (parting : c.Parting m pairs d)
    (twin : w.Twin m pairs u) : Onward m pairs ⟨m, legs, c, w⟩ ⟨m, legs', d, u⟩ := by
  cases parting with
  | @letting rest body env k l frames =>
      cases rest with
      | nil =>
          have leap : Leap m (.bindings m [] body env k) w (.evaluate m body env k) w :=
            .goes rfl fun _ => rfl
          obtain ⟨later, v, leaps, same⟩ := leap legs w positive rfl
          have free : ¬ Stalled ⟨m, later, .evaluate m body env k, v⟩ := by
            rintro ⟨_, _, other, ⟨⟩, _⟩
            exact other rfl
          rcases onward_same (positive_reaches positive leaps.to_reflTransGen) positive' (.evaluate m body env frames)
            (twin.congr same rfl) free with onward | parting
          · exact onward.after leaps
          · cases parting
      | cons b rest =>
          obtain ⟨name, init⟩ := b
          by_cases hole : init.isHole = true
          · have first : Leap m (.bindings m (.mk name init :: rest) body env k) w
                (.resume (.init m name rest body env :: k) .no) w :=
              .goes rfl fun _ => by simp only [Call.perform, Call.nextBinding, if_pos hole]
            obtain ⟨inner, world⟩ := twin.skip.bind env name .no
            have leap' := (Leap.makes (m := m) u env name l (body.applied rest) []).trans
              (.enters _ env name l _ _ [] env)
            have leap := first.trans (.binds w env name k rest body .no)
            rw [Expr.applied, if_pos hole]
            refine onward_of_leaps positive positive' leap leap' (.inr ?_) world
            rw [show firstArg [] = Value.no from rfl, inner]
            exact .letting frames
          · have leap : Leap m (.bindings m (.mk name init :: rest) body env k) w
                (.evaluate m init env (.init m name rest body env :: k)) w :=
              .goes rfl fun _ => by simp only [Call.perform, Call.nextBinding, if_neg hole]
            have leap' := (Leap.makes (m := m) u env name l (body.applied rest) [init]).trans (.goes rfl fun _ => rfl)
            rw [Expr.applied, if_neg hole]
            -- Both evaluate the initialiser, with a binding in wait on one side and an argument on the other.
            exact onward_of_leaps positive positive' leap leap' (.inl (.evaluate m init env (.cons .init frames)))
              twin.skip
  | @binding name rest body env stamp k l v v' frames value =>
      have first : Leap m
          (.resume (.argument m (.closure ⟨stamp, [name], body.applied rest, none, env⟩) [] [] env :: l) v') u
          (.arguments m (.closure ⟨stamp, [name], body.applied rest, none, env⟩) [v'] [] env l) u :=
        .goes rfl fun _ => rfl
      obtain ⟨inner, world⟩ := twin.bind env name value
      refine onward_of_leaps positive positive' (.binds w env name k rest body v)
        (first.trans (.enters u env name l stamp (body.applied rest) [v'] env)) (.inr ?_) world
      rw [show firstArg [v'] = v' from rfl, inner]
      exact .letting frames

theorem Twin.onward {c d : Config} (twin : Config.Twin m pairs c d) (free : ¬ c.Stalled) : Onward m pairs c d := by
  obtain ⟨call, world, positive, positive'⟩ := twin
  rcases call with same | parting
  · rcases onward_same positive positive' same world free with onward | parting
    · exact onward
    · exact onward_parting positive positive' parting world
  · exact onward_parting positive positive' parting world

theorem Twin.agree {c d : Config} (twin : Config.Twin m pairs c d) : EndsMatch c.Ends d.Ends (EndsTwin m pairs) := by
  have start : ∃ pairs', pairs.ExtendedBy pairs' ∧ Config.Twin m pairs' c d := ⟨pairs, fun _ _ => id, twin⟩
  constructor
  · rintro r ⟨bound, driven⟩
    refine ends_of_onward (R := fun c d => ∃ pairs', pairs.ExtendedBy pairs' ∧ Config.Twin m pairs' c d)
      (S := EndsTwin m pairs) ?_ bound c d start r driven
    rintro c d ⟨pairs', grows, twin⟩ free
    rcases twin.onward free with ⟨pairs'', c', d', grows', leaps, leaps', twin'⟩ | ⟨r, r', ends, ends', twin'⟩
    · exact .inl ⟨c', d', leaps, leaps', pairs'', grows.trans grows', twin'⟩
    · exact .inr ⟨r, r', ends, ends', twin'.mono grows⟩
  · rintro r' ⟨bound, driven⟩
    refine ends_of_onward (R := fun d c => ∃ pairs', pairs.ExtendedBy pairs' ∧ Config.Twin m pairs' c d)
      (S := fun r' r => EndsTwin m pairs r r') ?_ bound d c start r' driven
    rintro d c ⟨pairs', grows, twin⟩ free
    rcases twin.onward (fun stalled => free (twin.stalled_iff.mp stalled)) with
      ⟨pairs'', c', d', grows', leaps, leaps', twin'⟩ | ⟨r, r', ends, ends', twin'⟩
    · exact .inl ⟨d', c', leaps', leaps, pairs'', grows.trans grows', twin'⟩
    · exact .inr ⟨r', r, ends', ends, twin'.mono grows⟩

end Config

end Onward

end Trampoline
