import Trampoline.Prompt.State
import Trampoline.Proofs.Depth
import Trampoline.Proofs.Flow
import Trampoline.Proofs.LinkedRuns

set_option autoImplicit false

namespace Trampoline

namespace World

def cleared (w : World) : World := { w with trace := #[] }

variable {mode other : Mode} {l k : Link} {w u w' v : World}

theorem Linked.cleared {base : World} (linked : w.Linked mode l u base) :
    w.cleared.Linked mode l u.cleared w.cleared := by
  refine ⟨linked.store, .refl l w.store, linked.stamps, Nat.le_refl _, ?_, .nil⟩
  cases mode with
  | sync => exact ⟨rfl, rfl, rfl⟩
  | cps => exact linked.gear

theorem Linked.survives (different : other ≠ mode) (linked : w.Linked mode l u w) (ran : w'.Linked other k v w)
    (apart : ∀ {i j : ScopeId}, l.scopes i j → ∀ j', ¬ k.scopes i j') :
    w'.cleared.Linked mode l u.cleared w'.cleared := by
  have store : w'.store.Linked l u.store := by
    refine ⟨⟨fun pair => ?_, linked.store.fair.left, linked.store.fair.right⟩, fun pair => ?_⟩
    · obtain ⟨before, there⟩ := linked.store.fair.below pair
      exact ⟨Nat.lt_of_lt_of_le before ran.confined.size_le, there⟩
    · rw [ran.confined.elsewhere _ (linked.store.fair.below pair).1 (apart pair)]
      exact linked.store.scopes pair
  have stamps : l.stamps.Fair w'.stamps u.stamps := by
    refine ⟨fun pair => ?_, linked.stamps.left, linked.stamps.right⟩
    obtain ⟨before, there⟩ := linked.stamps.below pair
    exact ⟨Nat.lt_of_lt_of_le before ran.given, there⟩
  refine ⟨store, .refl l w'.store, stamps, Nat.le_refl _, ?_, .nil⟩
  cases mode with
  | sync => exact ⟨rfl, rfl, rfl⟩
  | cps =>
      cases other with
      | cps => exact absurd rfl different
      | sync =>
          obtain ⟨machines, timers, now⟩ := linked.gear
          obtain ⟨machines', timers', now'⟩ := ran.gear
          exact ⟨machines.trans machines'.symm, timers' ▸ timers, now.trans now'.symm⟩

end World

section Bounds

variable {bound bound' : Nat} (enough : bound ≤ bound')

include enough

theorem await_mono {m : MachineId} {more more' : Nat} (longer : more ≤ more') {p : Promise} {w : World}
    {r : Settled × World} (awaited : await bound m more p w = some r) : await bound' m more' p w = some r := by
  induction more generalizing more' p w with
  | zero =>
      cases p with
      | none => cases awaited
      | some s => cases more' <;> exact awaited
  | succ more ih =>
      obtain ⟨more', rfl⟩ : ∃ k, more' = k + 1 := ⟨more' - 1, by omega⟩
      cases p with
      | some s => exact awaited
      | none =>
          simp only [await] at awaited ⊢
          cases taken : w.nextTimer? with
          | none =>
              rw [taken] at awaited
              cases awaited
          | some found =>
              obtain ⟨t, u⟩ := found
              rw [taken] at awaited
              simp only at awaited ⊢
              cases fired : fire bound t u with
              | none =>
                  rw [fired] at awaited
                  cases awaited
              | some report =>
                  obtain ⟨ending, v⟩ := report
                  rw [fired] at awaited
                  rw [show fire bound' t u = some (ending, v) from drive_mono bound _ _ fired bound' enough]
                  cases ending with
                  | failed cause => exact ih (by omega) awaited
                  | returned owner v => exact ih (by omega) awaited
                  | suspended => exact ih (by omega) awaited
                  | halted => exact ih (by omega) awaited

theorem runToEnd_mono {m : MachineId} {e : Expr} {env : Env} {w : World} {r : Settled × World}
    (ended : runToEnd bound m e env w = some r) : runToEnd bound' m e env w = some r := by
  unfold runToEnd at ended ⊢
  cases ran : run bound m e env w with
  | none =>
      rw [ran] at ended
      cases ended
  | some report =>
      obtain ⟨ending, u⟩ := report
      rw [ran] at ended
      rw [show run bound' m e env w = some (ending, u) from drive_mono bound _ _ ran bound' enough]
      have awaits : ∀ {p : Promise},
          (await bound m bound p u).map (fun report => (report.1, report.2.closeLoop m)) = some r →
            (await bound' m bound' p u).map (fun report => (report.1, report.2.closeLoop m)) = some r := by
        intro p awaited
        obtain ⟨settled, awaited, made⟩ := Option.map_eq_some_iff.mp awaited
        exact Option.map_eq_some_iff.mpr ⟨settled, await_mono enough enough awaited, made⟩
      cases ending with
      | failed cause => exact ended
      | returned owner v => exact awaits ended
      | suspended => exact awaits ended
      | halted => exact awaits ended

theorem runIn_mono {settings : Settings} {budget : Option Int} {mode : Mode} {e : Expr} {env : Env} {w : World}
    {r : Report} (ended : runIn bound settings budget mode e env w = some r) :
    runIn bound' settings budget mode e env w = some r := by
  cases mode with
  | sync =>
      have finished : Direct.eval bound e env w ≠ .unfinished := by
        intro cut
        simp only [runIn, runDirect, cut] at ended
        cases ended
      simp only [runIn, runDirect] at ended ⊢
      rw [Direct.eval_deeper bound bound' e env w enough finished]
      exact ended
  | cps =>
      simp only [runIn, runAsync] at ended ⊢
      generalize checkBudget settings budget = checked at ended ⊢
      cases checked with
      | error cause => exact ended
      | ok budget =>
          obtain ⟨report, ran, made⟩ := Option.map_eq_some_iff.mp ended
          exact Option.map_eq_some_iff.mpr ⟨report, runToEnd_mono enough ran, made⟩

end Bounds

namespace Prompt

inductive Move where
  | evaluate (text : String)
  | switch (mode : Mode)
  | reset
deriving DecidableEq, Repr

structure Made where
  mode : String
  reply : State.Reply

inductive Dialogue : State → List Move → List Made → Prop where
  | none {s : State} : Dialogue s [] []
  | evaluate {s : State} {text : String} {moves : List Move} {reply : State.Reply} {made : List Made} (bound : Nat) :
      s.evaluate bound text = some reply → Dialogue reply.state moves made →
        Dialogue s (.evaluate text :: moves) (⟨s.mode, reply⟩ :: made)
  | switch {s : State} {mode : Mode} {moves : List Move} {made : List Made} :
      Dialogue { s with mode := mode.name } moves made → Dialogue s (.switch mode :: moves) made
  | reset {s : State} {moves : List Move} {made : List Made} :
      Dialogue s.reset moves made → Dialogue s (.reset :: moves) made

def without (left : Mode) : String → List Move → List Move
  | _, [] => []
  | mode, .evaluate text :: moves =>
      if Mode.ofName? mode = some left then without left mode moves
      else .evaluate text :: without left mode moves
  | _, .switch mode :: moves => .switch mode :: without left mode.name moves
  | mode, .reset :: moves => .reset :: without left mode moves

def repliesIn (mode : Mode) (made : List Made) : List State.Reply :=
  (made.filter fun one => Mode.ofName? one.mode = some mode).map Made.reply

namespace State

def told : Settled → Except String (Option String)
  | .ok v => .ok (v.map Value.shown)
  | .error cause => .error cause.message

structure Reply.SameUpToTime (l : Link) (reply reply' : Reply) : Prop where
  result : Settled.Linked l reply.result reply'.result
  told : told reply.result = told reply'.result
  trace : List.Forall₂ Event.SameUpToTime reply.trace.toList reply'.trace.toList

theorem Reply.SameUpToTime.mono {l l' : Link} (within : l.Within l') {reply reply' : Reply}
    (same : reply.SameUpToTime l reply') : reply.SameUpToTime l' reply' :=
  ⟨same.result.mono within, same.told, same.trace⟩

structure LinkedIn (mode : Mode) (l : Link) (s t : State) : Prop where
  settings : t.settings = s.settings
  world : s.world.cleared.Linked mode l t.world.cleared s.world.cleared
  root : Option.Rel (Env.Linked l) (s.env? mode) (t.env? mode)

-- What the other mode can reach is linked with some state, too, and has no scope in common with it.
structure Beside (mode other : Mode) (l : Link) (s t : State) : Prop extends LinkedIn mode l s t where
  name : t.mode = s.mode
  frontEnd : t.frontEnd = s.frontEnd
  apart : ∃ k r, LinkedIn other k s r ∧ ∀ {i j : ScopeId}, l.scopes i j → ∀ j', ¬ k.scopes i j'

theorem told_linked {l : Link} {result result' : Settled} (linked : result.Linked l result') :
    told result = told result' := by
  cases linked with
  | error cause => exact congrArg Except.error (Failure.Related.message_eq Value.Linked.shown_eq cause).symm
  | ok value =>
      cases value with
      | none => rfl
      | some value => exact congrArg (fun shown => Except.ok (some shown)) value.shown_eq.symm

theorem evaluate_cases {bound : Nat} {text : String} {s : State} {reply : Reply}
    (made : s.evaluate bound text = some reply) :
    reply.state = s ∨ ∃ mode e, Mode.ofName? s.mode = some mode ∧ s.evaluateIn bound mode e = some reply := by
  unfold evaluate at made
  cases read : FrontEnd.parseNamed s.frontEnd text with
  | error cause =>
      rw [read] at made
      cases made
      exact .inl rfl
  | ok e =>
      rw [read] at made
      cases named : Mode.ofName? s.mode with
      | none =>
          rw [named] at made
          cases made
          exact .inl rfl
      | some mode =>
          rw [named] at made
          exact .inr ⟨mode, e, rfl, made⟩

theorem evaluateIn_keeps {bound : Nat} {mode : Mode} {e : Expr} {s : State} {reply : Reply}
    (made : s.evaluateIn bound mode e = some reply) :
    reply.state.mode = s.mode ∧ reply.state.frontEnd = s.frontEnd ∧ reply.state.settings = s.settings ∧
      ∀ other, other ≠ mode → reply.state.env? other = s.env? other := by
  obtain ⟨report, _, rfl⟩ := Option.map_eq_some_iff.mp made
  cases mode with
  | sync =>
      refine ⟨rfl, rfl, rfl, fun other different => ?_⟩
      cases other with
      | sync => exact absurd rfl different
      | cps => rfl
  | cps =>
      refine ⟨rfl, rfl, rfl, fun other different => ?_⟩
      cases other with
      | sync => rfl
      | cps => exact absurd rfl different

theorem evaluate_mode {bound : Nat} {text : String} {s : State} {reply : Reply}
    (made : s.evaluate bound text = some reply) : reply.state.mode = s.mode := by
  rcases evaluate_cases made with same | ⟨mode, e, _, made⟩
  · rw [same]
  · exact (evaluateIn_keeps made).1

theorem evaluate_unknown (bound : Nat) (text : String) {s : State} (unknown : Mode.ofName? s.mode = none) :
    ∃ cause, s.evaluate bound text = some ⟨.error cause, #[], s⟩ := by
  unfold evaluate
  rw [unknown]
  cases FrontEnd.parseNamed s.frontEnd text with
  | error cause => exact ⟨cause, rfl⟩
  | ok e => exact ⟨_, rfl⟩

theorem evaluate_mono {bound bound' : Nat} (enough : bound ≤ bound') {text : String} {s : State} {reply : Reply}
    (made : s.evaluate bound text = some reply) : s.evaluate bound' text = some reply := by
  unfold evaluate at made ⊢
  generalize FrontEnd.parseNamed s.frontEnd text = read at made ⊢
  generalize Mode.ofName? s.mode = named at made ⊢
  cases read with
  | error cause => exact made
  | ok e =>
      cases named with
      | none => exact made
      | some mode =>
          obtain ⟨report, ran, made⟩ := Option.map_eq_some_iff.mp made
          exact Option.map_eq_some_iff.mpr ⟨report, runIn_mono enough ran, made⟩

theorem evaluate_unique {bound bound' : Nat} {text : String} {s : State} {reply reply' : Reply}
    (made : s.evaluate bound text = some reply) (made' : s.evaluate bound' text = some reply') :
    reply = reply' := by
  have first := evaluate_mono (Nat.le_max_left bound bound') made
  have second := evaluate_mono (Nat.le_max_right bound bound') made'
  exact Option.some.inj (first.symm.trans second)

section Evaluations

variable {mode other : Mode} {l : Link} {s t : State}

theorem LinkedIn.entered (linked : LinkedIn mode l s t) :
    ∃ l', l.Extends s.world.cleared l' ∧ (s.enter mode).1.Linked l' (t.enter mode).1 ∧
      (s.enter mode).2.cleared.Linked mode l' (t.enter mode).2.cleared s.world.cleared := by
  have root := linked.root
  unfold enter
  generalize s.env? mode = here at root
  generalize t.env? mode = there at root
  cases root with
  | some envs => exact ⟨l, .refl _ l, envs, linked.world⟩
  | none => exact linked.world.root mode

theorem LinkedIn.evaluated (linked : LinkedIn mode l s t) (bound : Nat) (e : Expr) :
    Option.Rel (fun reply reply' => ∃ l', l.Extends s.world.cleared l' ∧ reply.SameUpToTime l' reply' ∧
        LinkedIn mode l' reply.state reply'.state ∧
        reply.state.world.Linked mode l' reply'.state.world s.world.cleared)
      (s.evaluateIn bound mode e) (t.evaluateIn bound mode e) := by
  obtain ⟨l', grown, envs, world⟩ := linked.entered
  have ran := runIn_linked world bound s.settings none e envs
  simp only [evaluateIn, linked.settings]
  refine rel_map ran ?_
  rintro ⟨result, w⟩ ⟨result', u⟩ ⟨l'', further, results, after⟩
  have envs := envs.mono further.toWithin
  refine ⟨l'', grown.trans further, ⟨results, told_linked results, after.trace⟩, ?_, after⟩
  cases mode with
  | sync => exact ⟨linked.settings, after.cleared, .some envs⟩
  | cps => exact ⟨linked.settings, after.cleared, .some envs⟩

theorem LinkedIn.survives (different : other ≠ mode) {k k' : Link} (linked : LinkedIn mode l s t)
    (apart : ∀ {i j : ScopeId}, l.scopes i j → ∀ j', ¬ k.scopes i j')
    {bound : Nat} {e : Expr} {reply : Reply} (made : s.evaluateIn bound other e = some reply) {v : World}
    (grown : k.Extends s.world.cleared k') (ran : reply.state.world.Linked other k' v s.world.cleared) :
    LinkedIn mode l reply.state t ∧ ∀ {i j : ScopeId}, l.scopes i j → ∀ j', ¬ k'.scopes i j' := by
  obtain ⟨_, _, settings, roots⟩ := evaluateIn_keeps made
  have stillApart : ∀ {i j : ScopeId}, l.scopes i j → ∀ j', ¬ k'.scopes i j' := by
    intro i j pair j' pair'
    rcases grown.new pair' with before | new
    · exact apart pair j' before
    · exact absurd (linked.world.store.fair.below pair).1 (Nat.not_lt.mpr new)
  have world := linked.world.survives different ran stillApart
  refine ⟨⟨settings ▸ linked.settings, world, ?_⟩, stillApart⟩
  rw [roots mode different.symm]
  exact linked.root

theorem plain_of_parseNamed {name text : String} {cause : Failure}
    (failed : FrontEnd.parseNamed name text = .error cause) (v : Value) :
    cause ≠ .notNumber v ∧ cause ≠ .notFunction v := by
  unfold FrontEnd.parseNamed at failed
  cases named : FrontEnd.ofName? name with
  | none =>
      simp only [named] at failed
      cases failed
      constructor <;> (intro same; cases same)
  | some frontEnd =>
      simp only [named] at failed
      cases parsed : frontEnd.parse text with
      | error issue =>
          rw [parsed] at failed
          cases failed
          constructor <;> (intro same; cases same)
      | ok e =>
          rw [parsed] at failed
          cases failed

theorem Beside.evaluated (different : other ≠ mode) (beside : Beside mode other l s t) (bound : Nat) (text : String)
    (here : Mode.ofName? s.mode = some mode) :
    Option.Rel (fun reply reply' => ∃ l', l.Within l' ∧ reply.SameUpToTime l' reply' ∧
        Beside mode other l' reply.state reply'.state)
      (s.evaluate bound text) (t.evaluate bound text) := by
  have same : l.Within l := (Link.Extends.refl s.world l).toWithin
  simp only [evaluate, beside.name, beside.frontEnd, here]
  cases read : FrontEnd.parseNamed s.frontEnd text with
  | error cause => exact .some ⟨l, same, ⟨.error (.same (plain_of_parseNamed read)), rfl, .nil⟩, beside⟩
  | ok e =>
      have both := beside.toLinkedIn.evaluated bound e
      obtain ⟨k, r, others, apart⟩ := beside.apart
      simp only
      generalize made : s.evaluateIn bound mode e = first at both
      generalize made' : t.evaluateIn bound mode e = second at both
      cases both with
      | none => exact .none
      | @some reply reply' both =>
          obtain ⟨l', grown, same, linked, ran⟩ := both
          obtain ⟨others, apart⟩ := others.survives different.symm
            (fun pair j' pair' => apart pair' _ pair) made grown ran
          obtain ⟨name, frontEnd, _⟩ := evaluateIn_keeps made
          obtain ⟨name', frontEnd', _⟩ := evaluateIn_keeps made'
          refine .some ⟨l', grown.toWithin, same, linked, ?_, ?_, k, r, others, ?_⟩
          · rw [name, name', beside.name]
          · rw [frontEnd, frontEnd', beside.frontEnd]
          · exact fun pair j' pair' => apart pair' _ pair

theorem Beside.elsewhere (different : other ≠ mode) (beside : Beside mode other l s t) {bound : Nat} {text : String}
    {reply : Reply} (elsewhere : Mode.ofName? s.mode ≠ some mode) (made : s.evaluate bound text = some reply) :
    Beside mode other l reply.state t := by
  rcases evaluate_cases made with same | ⟨named, e, called, made⟩
  · rw [same]
    exact beside
  · obtain rfl : named = other := by
      rw [called] at elsewhere
      cases named <;> cases mode <;> cases other <;> simp_all
    obtain ⟨k, r, others, apart⟩ := beside.apart
    have both := others.evaluated bound e
    rw [made] at both
    generalize r.evaluateIn bound named e = second at both
    cases both with
    | @some _ reply' both =>
        obtain ⟨k', grown, _, others', ran⟩ := both
        obtain ⟨linked, apart⟩ := beside.toLinkedIn.survives different apart made grown ran
        obtain ⟨name, frontEnd, _⟩ := evaluateIn_keeps made
        exact ⟨linked, beside.name.trans name.symm, beside.frontEnd.trans frontEnd.symm, k', _, others', apart⟩

theorem LinkedIn.switched (linked : LinkedIn mode l s t) (name name' : String) :
    LinkedIn mode l { s with mode := name } { t with mode := name' } := by
  refine ⟨linked.settings, linked.world, ?_⟩
  cases mode with
  | sync => exact linked.root
  | cps => exact linked.root

theorem LinkedIn.emptied (linked : LinkedIn mode l s t) : LinkedIn mode l s.reset t.reset := by
  refine ⟨linked.settings, linked.world, ?_⟩
  cases mode with
  | sync => exact .none
  | cps => exact .none

theorem Beside.switched (beside : Beside mode other l s t) (name : String) :
    Beside mode other l { s with mode := name } { t with mode := name } := by
  obtain ⟨k, r, others, apart⟩ := beside.apart
  exact ⟨beside.toLinkedIn.switched name name, rfl, beside.frontEnd, k, _, others.switched name name, apart⟩

theorem Beside.emptied (beside : Beside mode other l s t) : Beside mode other l s.reset t.reset := by
  obtain ⟨k, r, others, apart⟩ := beside.apart
  exact ⟨beside.toLinkedIn.emptied, beside.name, beside.frontEnd, k, _, others.emptied, apart⟩

end Evaluations

structure Fresh (s : State) : Prop where
  sync : s.sync = none
  cps : s.cps = none
  idle : s.world.timers = []

theorem Fresh.linkedIn {s : State} (fresh : s.Fresh) (mode : Mode) : LinkedIn mode .nothing s s := by
  refine ⟨rfl, World.linked_nothing ?_ rfl rfl, ?_⟩
  · cases mode with
    | sync => exact ⟨rfl, rfl, rfl⟩
    | cps =>
        have idle : s.world.cleared.timers = [] := fresh.idle
        exact ⟨rfl, by rw [idle]; exact .nil, rfl⟩
  · cases mode with
    | sync =>
        rw [env?, fresh.sync]
        exact .none
    | cps =>
        rw [env?, fresh.cps]
        exact .none

theorem Fresh.beside {s : State} (fresh : s.Fresh) (mode other : Mode) : Beside mode other .nothing s s :=
  ⟨fresh.linkedIn mode, rfl, rfl, .nothing, s, fresh.linkedIn other, False.elim⟩

end State

theorem eq_none_of_neither {left mode : Mode} (different : left ≠ mode) {found : Option Mode}
    (notLeft : found ≠ some left) (notMode : found ≠ some mode) : found = none := by
  cases found with
  | none => rfl
  | some other => cases other <;> cases left <;> cases mode <;> simp_all

theorem repliesIn_here {mode : Mode} {name : String} {reply : State.Reply} {made : List Made}
    (here : Mode.ofName? name = some mode) :
    repliesIn mode (⟨name, reply⟩ :: made) = reply :: repliesIn mode made := by
  simp [repliesIn, here]

theorem repliesIn_elsewhere {mode : Mode} {name : String} {reply : State.Reply} {made : List Made}
    (elsewhere : Mode.ofName? name ≠ some mode) :
    repliesIn mode (⟨name, reply⟩ :: made) = repliesIn mode made := by
  simp [repliesIn, elsewhere]

structure Link.OneToOne (l : Link) : Prop where
  scopeLeft : ∀ {i j j' : ScopeId}, l.scopes i j → l.scopes i j' → j = j'
  scopeRight : ∀ {i i' j : ScopeId}, l.scopes i j → l.scopes i' j → i = i'
  stampLeft : ∀ {a b b' : Nat}, l.stamps a b → l.stamps a b' → b = b'
  stampRight : ∀ {a a' b : Nat}, l.stamps a b → l.stamps a' b → a = a'

-- Both dialogues go on in step; a state stays beside the other one while an evaluation is left out there.
theorem Dialogue.kept {mode left : Mode} (different : left ≠ mode) {l : Link} {s t : State} {moves : List Move}
    {made : List Made} (dialogue : Dialogue s moves made) (beside : State.Beside mode left l s t) :
    ∃ made' l', l.Within l' ∧ Link.OneToOne l' ∧ Dialogue t (without left s.mode moves) made' ∧
      List.Forall₂ (State.Reply.SameUpToTime l') (repliesIn mode made) (repliesIn mode made') := by
  induction dialogue generalizing l t with
  | none =>
      have world := beside.world
      exact ⟨[], l, (Link.Extends.refl {} l).toWithin,
        ⟨world.store.fair.left, world.store.fair.right, world.stamps.left, world.stamps.right⟩, .none, .nil⟩
  | @evaluate s text moves reply made bound evaluated _ ih =>
      have sameMode := State.evaluate_mode evaluated
      by_cases gone : Mode.ofName? s.mode = some left
      · have elsewhere : Mode.ofName? s.mode ≠ some mode := by
          rw [gone]
          exact fun same => different (Option.some.inj same)
        obtain ⟨made', l', within, one, dialogue', replies⟩ := ih (beside.elsewhere different elsewhere evaluated)
        rw [without, if_pos gone, repliesIn_elsewhere elsewhere]
        exact ⟨made', l', within, one, sameMode ▸ dialogue', replies⟩
      · rw [without, if_neg gone]
        by_cases here : Mode.ofName? s.mode = some mode
        · have both := beside.evaluated different bound text here
          rw [evaluated] at both
          generalize evaluated' : t.evaluate bound text = there at both
          cases both with
          | @some _ reply' both =>
              obtain ⟨l₁, grown, same, beside'⟩ := both
              obtain ⟨made', l', within, one, dialogue', replies⟩ := ih beside'
              refine ⟨⟨t.mode, reply'⟩ :: made', l', grown.trans within, one,
                .evaluate bound evaluated' (sameMode ▸ dialogue'), ?_⟩
              rw [repliesIn_here here, repliesIn_here (beside.name ▸ here)]
              exact .cons (same.mono within) replies
        · -- The name is of no mode at all, so neither state is changed.
          have unknown := eq_none_of_neither different gone here
          rw [← beside.name] at unknown
          obtain ⟨cause, evaluated'⟩ := State.evaluate_unknown bound text unknown
          obtain ⟨made', l', within, one, dialogue', replies⟩ := ih (beside.elsewhere different here evaluated)
          refine ⟨_ :: made', l', within, one, .evaluate bound evaluated' (sameMode ▸ dialogue'), ?_⟩
          rw [repliesIn_elsewhere here, repliesIn_elsewhere (beside.name ▸ here)]
          exact replies
  | switch _ ih =>
      obtain ⟨made', l', within, one, dialogue', replies⟩ := ih (beside.switched _)
      exact ⟨made', l', within, one, .switch dialogue', replies⟩
  | reset _ ih =>
      obtain ⟨made', l', within, one, dialogue', replies⟩ := ih beside.emptied
      exact ⟨made', l', within, one, .reset dialogue', replies⟩

theorem Dialogue.unique {s : State} {moves : List Move} {made made' : List Made} (dialogue : Dialogue s moves made)
    (dialogue' : Dialogue s moves made') : made = made' := by
  induction dialogue generalizing made' with
  | none =>
      cases dialogue'
      rfl
  | evaluate _ evaluated _ ih =>
      cases dialogue' with
      | evaluate _ evaluated' rest =>
          cases State.evaluate_unique evaluated evaluated'
          rw [ih rest]
  | switch _ ih =>
      cases dialogue' with
      | switch rest => exact ih rest
  | reset _ ih =>
      cases dialogue' with
      | reset rest => exact ih rest

def perform? (bound : Nat) : List Move → State → Option (List Made)
  | [], _ => some []
  | .evaluate text :: moves, s =>
      (s.evaluate bound text).bind fun reply => (perform? bound moves reply.state).map (⟨s.mode, reply⟩ :: ·)
  | .switch mode :: moves, s => perform? bound moves { s with mode := mode.name }
  | .reset :: moves, s => perform? bound moves s.reset

theorem dialogue_of_perform? {bound : Nat} {moves : List Move} {s : State} {made : List Made}
    (performed : perform? bound moves s = some made) : Dialogue s moves made := by
  induction moves generalizing s made with
  | nil =>
      cases performed
      exact .none
  | cons move moves ih =>
      cases move with
      | evaluate text =>
          obtain ⟨reply, evaluated, rest⟩ := Option.bind_eq_some_iff.mp performed
          obtain ⟨others, later, rfl⟩ := Option.map_eq_some_iff.mp rest
          exact .evaluate bound evaluated (ih later)
      | switch mode => exact .switch (ih performed)
      | reset => exact .reset (ih performed)

-- The replies of one mode, with and without the evaluations of the other mode between them. The functions and
-- continuations in them are the same but for where they are kept, by one and the same link for all replies.
theorem modes_do_not_interfere {s : State} (fresh : s.Fresh) {moves : List Move} {made : List Made}
    (dialogue : Dialogue s moves made) {mode left : Mode} (different : left ≠ mode) :
    ∃ made' l, Dialogue s (without left s.mode moves) made' ∧
      (∀ made'', Dialogue s (without left s.mode moves) made'' → made'' = made') ∧ Link.OneToOne l ∧
      List.Forall₂ (State.Reply.SameUpToTime l) (repliesIn mode made) (repliesIn mode made') := by
  obtain ⟨made', l, _, one, kept, replies⟩ := dialogue.kept different (fresh.beside mode left)
  exact ⟨made', l, kept, fun made'' again => again.unique kept, one, replies⟩

def resumingMoves : List Move :=
  [.switch .cps, .evaluate "k = false; time(λ() call/cc(λ(c) \x7b k = c; 1 \x7d))", .switch .sync,
    .evaluate "k = 2; time(λ() time(λ() k))", .switch .cps, .evaluate "k(k)"]

def printedIn (mode : Mode) (made : List Made) : List String :=
  (repliesIn mode made).map fun reply => World.printed reply.trace .standard

theorem resumed_call_shows_time_only :
    ∃ made made', Dialogue { settings := ⟨200, false⟩ } resumingMoves made ∧
      Dialogue { settings := ⟨200, false⟩ } (without .sync "sync" resumingMoves) made' ∧
      (∃ l, List.Forall₂ (State.Reply.SameUpToTime l) (repliesIn .cps made) (repliesIn .cps made')) ∧
      printedIn .cps made = ["Time: 125.000ms\n", "Time: 750.000ms\n"] ∧
      printedIn .cps made' = ["Time: 125.000ms\n", "Time: 250.000ms\n"] := by
  have all : (perform? 60 resumingMoves { settings := ⟨200, false⟩ }).map (printedIn .cps) =
      some ["Time: 125.000ms\n", "Time: 750.000ms\n"] := by
    decide +kernel
  have kept : (perform? 60 (without .sync "sync" resumingMoves) { settings := ⟨200, false⟩ }).map (printedIn .cps) =
      some ["Time: 125.000ms\n", "Time: 250.000ms\n"] := by
    decide +kernel
  obtain ⟨made, performed, printed⟩ := Option.map_eq_some_iff.mp all
  obtain ⟨made', performed', printed'⟩ := Option.map_eq_some_iff.mp kept
  have dialogue := dialogue_of_perform? performed
  have dialogue' := dialogue_of_perform? performed'
  obtain ⟨_, l, _, only, _, replies⟩ :=
    modes_do_not_interfere ⟨rfl, rfl, rfl⟩ dialogue (by decide : Mode.sync ≠ .cps)
  rw [← only made' dialogue'] at replies
  exact ⟨made, made', dialogue, dialogue', ⟨l, replies⟩, printed, printed'⟩

end Prompt

end Trampoline
