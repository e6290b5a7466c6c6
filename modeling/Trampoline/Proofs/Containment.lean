import Trampoline.CommandLine
import Trampoline.Proofs.Awaiting
import Trampoline.Proofs.Framing
import Trampoline.Proofs.InternalFailures
import Trampoline.Proofs.LinkedRuns

set_option autoImplicit false

namespace Trampoline

theorem Binary64.remainder?_eq_none_iff (x y : Float) :
    remainder? x y = none ↔ (∃ negative, decode x = .infinite negative) ∧ decode y ≠ .nan := by
  unfold remainder?
  cases decode x <;> cases decode y <;> simp

theorem Value.remainder_domain_iff (a b : Value) :
    a.remainder b = .error .remainderDomain ↔
      ∃ x y, a = .num x ∧ b = .num y ∧ (y == 0) = false ∧ Binary64.remainder? x y = none := by
  constructor
  · intro failure
    rcases bind_eq_error.mp failure with number | ⟨x, left, rest⟩
    · cases a <;> cases number
    · rcases bind_eq_error.mp rest with divisor | ⟨y, right, taken⟩
      · rcases bind_eq_error.mp divisor with number | ⟨z, _, zero⟩
        · cases b <;> cases number
        · split at zero <;> cases zero
      · obtain ⟨z, number, nonzero⟩ := bind_eq_ok.mp right
        split at nonzero
        · cases nonzero
        · rename_i nonzero'
          cases nonzero
          cases a <;> cases left
          cases b <;> cases number
          refine ⟨_, _, rfl, rfl, by simpa using nonzero', ?_⟩
          split at taken
          · cases taken
          · assumption
  · rintro ⟨x, y, rfl, rfl, nonzero, none⟩
    simp [remainder, toNumber, toDivisor, nonzero, none, bind, Except.bind]

theorem applyOperator_domain_iff (symbol : String) (a b : Value) :
    applyOperator symbol a b = .error .remainderDomain ↔
      symbol = "%" ∧ ∃ x y, a = .num x ∧ b = .num y ∧ (∃ negative, Binary64.decode x = .infinite negative) ∧
        (y == 0) = false ∧ Binary64.decode y ≠ .nan := by
  have same : (∃ x y, a = .num x ∧ b = .num y ∧ (y == 0) = false ∧ Binary64.remainder? x y = none) ↔
      ∃ x y, a = .num x ∧ b = .num y ∧ (∃ negative, Binary64.decode x = .infinite negative) ∧
        (y == 0) = false ∧ Binary64.decode y ≠ .nan := by
    simp only [Binary64.remainder?_eq_none_iff]
    constructor
    · rintro ⟨x, y, left, right, nonzero, infinite, number⟩
      exact ⟨x, y, left, right, infinite, nonzero, number⟩
    · rintro ⟨x, y, left, right, infinite, nonzero, number⟩
      exact ⟨x, y, left, right, nonzero, infinite, number⟩
  rw [← same, ← Value.remainder_domain_iff]
  constructor
  · intro failure
    have failed := applyOperator_error symbol a b _ failure
    cases failed with
    | remainderDomain remainder =>
        rw [applyOperator, remainder] at failure
        exact ⟨Operator.ofSymbol?_rem remainder, failure⟩
  · rintro ⟨rfl, failure⟩
    exact failure

theorem Settings.read_positive (budget traceback : Option String) : 0 < (read budget traceback).budget := by
  unfold read readBudget
  dsimp only
  split
  · split
    · omega
    · decide
  · decide

theorem Failure.Arises.reported {known : String → Prop} {mode : Mode} {cause : Failure}
    (arises : cause.Arises known mode) :
    cause.isReported = true ∨ (cause = .remainderDomain ∧ known "%") ∨
      (cause = .loopClosed ∧ mode = .cps) := by
  cases cause with
  | remainderDomain => exact .inr (.inl ⟨rfl, arises⟩)
  | loopClosed => exact .inr (.inr ⟨rfl, arises⟩)
  | unknownMode | unknownFrontEnd | budgetNotPositive | isDirectory | noSuchLine => exact arises.elim
  | _ => exact .inl rfl

section Fresh

variable {m : MachineId} {c : Config} {endings : List Ending} {w after : World} {cause : Failure}

theorem Config.Alone.unclosed {ending : Ending} {bound : Nat} (alone : c.Alone m)
    (driven : drive bound c = some (ending, w)) : ending ≠ .failed .loopClosed := by
  rintro rfl
  have left := left_drive bound c _ w alone.ready driven
  have closed := left.closed (by simp [Ending.refused])
  rw [alone.driver, alone.running] at closed
  cases closed

theorem Course.unclosed (course : Course c endings w) (alone : c.Alone m) :
    ∀ ending ∈ endings, ending ≠ .failed .loopClosed := by
  induction course with
  | first bound driven => exact List.forall_mem_singleton.mpr (alone.unclosed driven)
  | resumed bound driven taken _ ih =>
      have next := ((alone.rests driven).resumed taken).2
      exact List.forall_mem_cons.mpr ⟨alone.unclosed driven, ih next⟩

theorem runAsync_unclosed {bound : Nat} {settings : Settings} {e : Expr} {env : Env}
    (positive : 0 < settings.budget) (owned : w.store.OwnedBy w.machines.size) (untimed : w.timers = [])
    (failed : runAsync bound settings none e env w = some (.error cause, after)) : cause ≠ .loopClosed := by
  rintro rfl
  have alone := Config.alone_awaited positive owned untimed e env
  obtain ⟨endings, ending, last, course, settled⟩ := (reported_iff rfl alone _).mp ⟨bound, after, failed⟩
  have unclosed := course.unclosed alone ending (by simp)
  cases ending with
  | failed cause =>
      cases settled
      exact unclosed rfl
  | _ => cases settled

theorem runIn_reported {known : String → Prop} {bound : Nat} {settings : Settings} {mode : Mode} {e : Expr}
    {env : Env} (positive : 0 < settings.budget) (code : e.Evaluable known) (kept : w.Evaluable known)
    (owned : w.store.OwnedBy w.machines.size) (untimed : w.timers = [])
    (failed : runIn bound settings none mode e env w = some (.error cause, after)) :
    cause.isReported = true ∨ (cause = .remainderDomain ∧ known "%") := by
  rcases (runIn_evaluable bound settings none mode e env code kept _ failed).1 with arises | ⟨b, none, _⟩
  · rcases Failure.Arises.reported arises with reported | domain | ⟨closed, rfl⟩
    · exact .inl reported
    · exact .inr domain
    · exact absurd closed (runAsync_unclosed positive owned untimed failed)
  · cases none

theorem World.Evaluable.root {known : String → Prop} (kept : w.Evaluable known) (mode : Mode) (out : Option Stream) :
    (w.root mode out).2.Evaluable known :=
  ⟨root_holds kept.store mode out fun _ _ => trivial, kept.timers⟩

structure World.Vacant (w : World) : Prop where
  store : w.store = {}
  timers : w.timers = []

theorem World.Vacant.evaluable {known : String → Prop} (vacant : w.Vacant) : w.Evaluable known := by
  refine ⟨vacant.store ▸ Store.empty_holds, fun t waiting => ?_⟩
  rw [vacant.timers] at waiting
  cases waiting

theorem World.Vacant.root_owned (vacant : w.Vacant) (mode : Mode) (out : Option Stream) (m : MachineId) :
    (w.root mode out).2.store.OwnedBy m :=
  root_holds (vacant.store ▸ Store.empty_holds) mode out fun _ _ => trivial

theorem Direct.framing_timers (timers : List Timer) :
    Direct.Framing (fun w u => u = w ∧ w.timers = timers) Eq where
  store := by
    rintro w u ⟨rfl, _⟩
    rfl
  stamps := by
    rintro w u ⟨rfl, _⟩
    rfl
  stored := by
    rintro w u store ⟨rfl, same⟩
    exact ⟨rfl, same⟩
  stamped := by
    rintro w u stamps ⟨rfl, same⟩
    exact ⟨rfl, same⟩
  noted := by
    rintro w u event ⟨rfl, same⟩
    exact ⟨rfl, same⟩
  read := by
    rintro w u ⟨rfl, same⟩
    exact ⟨rfl, rfl, same⟩
  reported := by
    rintro w u start _ env ⟨rfl, same⟩ rfl
    exact ⟨rfl, same⟩

theorem runToEnd_idle {bound : Nat} {m : MachineId} {e : Expr} {env : Env} {result : Settled}
    (ended : runToEnd bound m e env w = some (result, after)) : after.timers = [] := by
  unfold runToEnd at ended
  cases first : run bound m e env w with
  | none =>
      rw [first] at ended
      cases ended
  | some report =>
      obtain ⟨ending, u⟩ := report
      rw [first] at ended
      cases ending with
      | failed cause =>
          cases ended
          rfl
      | _ =>
          obtain ⟨report, _, ended⟩ := Option.map_eq_some_iff.mp ended
          cases ended
          rfl

theorem runIn_idle {bound : Nat} {settings : Settings} {mode : Mode} {e : Expr} {env : Env} {result : Settled}
    (idle : w.timers = []) (ran : runIn bound settings none mode e env w = some (result, after)) :
    after.timers = [] := by
  cases mode with
  | sync =>
      have framed := (Direct.eval_framed (Direct.framing_timers []) bound).1 e env w w ⟨rfl, idle⟩
      simp only [runIn, runDirect] at ran
      generalize Direct.eval bound e env w = outcome at framed ran
      cases framed with
      | done pair =>
          cases ran
          exact pair.2
      | failed pair =>
          cases ran
          exact pair.2
      | unfinished => cases ran
  | cps =>
      simp only [runIn, runAsync, checkBudget] at ran
      obtain ⟨⟨settled, u⟩, ended, ran⟩ := Option.map_eq_some_iff.mp ran
      have closed := runToEnd_idle ended
      cases ran
      cases settled with
      | ok v => exact closed
      | error cause => exact closed

end Fresh

def Expr.Avoids (symbol : String) (e : Expr) : Prop := e.Evaluable (· ≠ symbol)

def FrontEnd.Uses (frontEnd : FrontEnd) (source symbol : String) : Prop :=
  ∃ e, frontEnd.parse source = .ok e ∧ ¬ e.Avoids symbol

theorem FrontEnd.ofName?_name (frontEnd : FrontEnd) : ofName? frontEnd.name = some frontEnd := by
  cases frontEnd <;> rfl

theorem Mode.ofName?_name (mode : Mode) : ofName? mode.name = some mode := by cases mode <;> rfl

theorem runSource_reported {bound : Nat} {settings : Settings} (positive : 0 < settings.budget)
    {frontEnd : FrontEnd} {mode : Mode} {source : String} {out : Option Stream} {cause : Failure}
    {after : World}
    (failed : runSource bound settings source mode.name frontEnd.name out {} = some (.error cause, after)) :
    cause.isReported = true ∨ (cause = .remainderDomain ∧ frontEnd.Uses source "%") := by
  simp only [runSource, FrontEnd.parseNamed, frontEnd.ofName?_name, mode.ofName?_name] at failed
  cases parsed : frontEnd.parse source with
  | error fault =>
      rw [parsed] at failed
      cases failed
      exact .inl rfl
  | ok e =>
      rw [parsed] at failed
      have vacant : ({} : World).Vacant := ⟨rfl, rfl⟩
      have owned := vacant.root_owned mode out 0
      rcases runIn_reported positive (FrontEnd.parse_meant parsed) (vacant.evaluable.root mode out) owned rfl
        failed with reported | ⟨rfl, _⟩
      · exact .inl reported
      · refine .inr ⟨rfl, e, parsed, ?_⟩
        intro avoids
        rcases runIn_reported positive avoids (vacant.evaluable.root mode out) owned rfl failed with
          reported | ⟨_, other⟩
        · cases reported
        · exact other rfl

def Console.Reports (c : Console) (cause : Failure) : Prop :=
  ∃ before after, c.stderr = before ++ ("Error: " ++ cause.message ++ "\n") ++ after

theorem Console.complain_reports (c : Console) (cause : Failure) :
    (c.complain ("Error: " ++ cause.message)).Reports cause :=
  ⟨c.stderr, "", by simp [complain, String.append_assoc]⟩

theorem Console.Reports.complain {c : Console} {cause : Failure} (reports : c.Reports cause) (line : String) :
    (c.complain line).Reports cause := by
  obtain ⟨before, after, shown⟩ := reports
  exact ⟨before, after ++ line ++ "\n", by simp [Console.complain, shown, String.append_assoc]⟩

namespace CommandLine

variable {bound : Nat} {settings : Settings} {inv : Invocation} {source : String} {cause : Failure}

theorem conclude_reports (c : Console) (reported : cause.isReported = true) :
    ∃ c', conclude settings c cause = (.ok .failure, c') ∧ c'.Reports cause := by
  refine ⟨complainOf settings cause c, by simp [conclude, reported], ?_⟩
  unfold complainOf
  split <;> exact Console.complain_reports _ cause

theorem runText_failed {after : World} (run : inv.dump = false)
    (failed : runSource bound settings source inv.mode.name inv.frontEnd.name none {} = some (.error cause, after)) :
    ∃ c, runText bound settings inv source = some (conclude settings c cause) := by
  simp only [runText, run, failed]
  exact ⟨_, rfl⟩

end CommandLine

namespace Prompt

-- What a prompt keeps true: the names it looks up are known ones, and its world keeps evaluable code only.
structure State.Contained (s : State) : Prop where
  mode : (Mode.ofName? s.mode).isSome = true
  frontEnd : (FrontEnd.ofName? s.frontEnd).isSome = true
  positive : 0 < s.settings.budget
  kept : s.world.Evaluable Operator.IsSymbol
  idle : s.world.timers = []

namespace State

variable {s : State} {bound : Nat}

theorem contained_setEnv (contained : s.Contained) (mode : Mode) (env : Env) {w : World}
    (kept : w.Evaluable Operator.IsSymbol) (idle : w.timers = []) :
    ({ s.setEnv mode env with world := w } : State).Contained := by
  cases mode <;> exact ⟨contained.mode, contained.frontEnd, contained.positive, kept, idle⟩

theorem enter_kept (contained : s.Contained) (mode : Mode) :
    (s.enter mode).2.Evaluable Operator.IsSymbol ∧ (s.enter mode).2.timers = [] := by
  unfold enter
  cases s.env? mode with
  | some env => exact ⟨contained.kept, contained.idle⟩
  | none => exact ⟨contained.kept.root mode none, contained.idle⟩

theorem fresh_reported (contained : s.Contained) (mode : Mode) {e : Expr} (code : e.Meant) {cause : Failure}
    {after : World}
    (failed : runIn bound s.settings none mode e (s.world.root mode none).1
      { (s.world.root mode none).2 with trace := #[] } = some (.error cause, after)) :
    cause.isReported = true ∨ cause = .remainderDomain := by
  have vacant : World.Vacant { s.world with store := {}, trace := #[] } := ⟨rfl, contained.idle⟩
  have start : World.Linked mode .nothing { s.world with trace := #[] } { s.world with store := {}, trace := #[] }
      { s.world with trace := #[] } := by
    refine World.linked_nothing ?_ rfl rfl
    cases mode with
    | sync => exact ⟨rfl, rfl, rfl⟩
    | cps =>
        refine ⟨rfl, ?_, rfl⟩
        rw [contained.idle]
        exact .nil
  obtain ⟨l, _, envs, linked⟩ := start.root mode
  have both := runIn_linked linked bound s.settings none e envs
  have owned := vacant.root_owned mode none s.world.machines.size
  have kept : World.Evaluable Operator.IsSymbol _ := vacant.evaluable.root mode none
  change Option.Rel _ (runIn bound s.settings none mode e (s.world.root mode none).1
    { (s.world.root mode none).2 with trace := #[] }) _ at both
  rw [failed] at both
  generalize ran : runIn bound s.settings none mode e _ _ = there at both
  cases both with
  | @some _ report linked =>
      obtain ⟨result, u⟩ := report
      obtain ⟨_, _, results, _⟩ := linked
      cases results with
      | @error _ cause' causes =>
          have reported := runIn_reported contained.positive code kept owned contained.idle ran
          cases causes with
          | notNumber _ => exact .inl rfl
          | notFunction _ => exact .inl rfl
          | same _ => exact reported.imp_right And.left

theorem evaluateIn_contained (contained : s.Contained) (mode : Mode) (e : Expr) (code : e.Meant)
    (reply : Reply) (evaluated : s.evaluateIn bound mode e = some reply) :
    reply.state.Contained ∧ ∀ cause, reply.result = .error cause →
      cause.isReported = true ∨ cause = .remainderDomain ∨ (cause = .loopClosed ∧ s.cps.isSome = true) := by
  simp only [evaluateIn] at evaluated
  obtain ⟨⟨result, after⟩, ran, rfl⟩ := Option.map_eq_some_iff.mp evaluated
  obtain ⟨kept, idle⟩ := enter_kept contained mode
  have kept := kept.congr (u := { (s.enter mode).2 with trace := #[] }) rfl rfl
  obtain ⟨settled, left⟩ := runIn_evaluable bound s.settings none mode e _ code kept result ran
  have idle := runIn_idle (w := { (s.enter mode).2 with trace := #[] }) idle ran
  refine ⟨contained_setEnv contained mode _ left idle, ?_⟩
  rintro cause rfl
  rcases settled with arises | ⟨b, none, _⟩
  · rcases Failure.Arises.reported arises with reported | ⟨domain, _⟩ | ⟨closed, rfl⟩
    · exact .inl reported
    · exact .inr (.inl domain)
    · cases present : s.cps with
      | some env => exact .inr (.inr ⟨closed, rfl⟩)
      | none =>
          have entered : s.enter .cps = s.world.root .cps none := by simp only [enter, env?, present]
          rw [entered] at ran
          rcases fresh_reported contained .cps code ran with reported | domain
          · exact .inl reported
          · exact .inr (.inl domain)
  · cases none

theorem evaluate_contained (contained : s.Contained) (text : String) (reply : Reply)
    (evaluated : s.evaluate bound text = some reply) :
    reply.state.Contained ∧ ∀ cause, reply.result = .error cause →
      cause.isReported = true ∨ cause = .remainderDomain ∨ (cause = .loopClosed ∧ s.cps.isSome = true) := by
  obtain ⟨frontEnd, named⟩ := Option.isSome_iff_exists.mp contained.frontEnd
  obtain ⟨mode, called⟩ := Option.isSome_iff_exists.mp contained.mode
  simp only [evaluate, FrontEnd.parseNamed, named, called] at evaluated
  cases parsed : frontEnd.parse text with
  | error fault =>
      rw [parsed] at evaluated
      cases evaluated
      refine ⟨contained, ?_⟩
      rintro _ ⟨⟩
      exact .inl rfl
  | ok e =>
      rw [parsed] at evaluated
      exact evaluateIn_contained contained mode e (FrontEnd.parse_meant parsed) reply evaluated

theorem command_contained (contained : s.Contained) (c : Console) (command : Command) :
    (s.command c command).1.Contained := by
  have traced (on : Bool) : (s.setTraceback on).Contained :=
    ⟨contained.mode, contained.frontEnd, contained.positive, contained.kept, contained.idle⟩
  cases command with
  | mode arg =>
      simp only [State.command]
      split
      · exact contained
      · split
        · rename_i known
          exact ⟨known, contained.frontEnd, contained.positive, contained.kept, contained.idle⟩
        · exact contained
  | traceback switch =>
      cases switch with
      | none => exact contained
      | some switch => cases switch <;> exact traced _
  | reset => exact ⟨contained.mode, contained.frontEnd, contained.positive, contained.kept, contained.idle⟩
  | _ => exact contained

end State

def IsProgram (raw : String) : Prop :=
  (Text.trim (normalize raw).toList).isEmpty = false ∧ Command.ofLine? (normalize raw) = none

section Lines

variable {bound : Nat} {verbose : Bool} {s : State} {raw : String} {reply : State.Reply} {cause : Failure}

theorem report_reports (c : Console) (cause : Failure) : (report s c cause).Reports cause := by
  have first := c.complain_reports cause
  unfold report
  dsimp only
  split
  · exact (first.complain _).complain _
  · exact first

theorem onLine_failed (program : IsProgram raw) (evaluated : s.evaluate bound (normalize raw) = some reply)
    (failed : reply.result = .error cause) :
    ∃ c, (cause.isReported = true ∧ onLine bound verbose raw s = some (.goOn reply.state, c) ∧
        c.Reports cause) ∨
      (cause.isReported = false ∧ onLine bound verbose raw s = some (.escape cause, c)) := by
  simp only [onLine, program.1, program.2, evaluated, Option.map_some, failed]
  by_cases reported : cause.isReported = true
  · exact ⟨_, .inl ⟨reported, by simp [reported]; rfl, report_reports _ cause⟩⟩
  · exact ⟨_, .inr ⟨by simpa using reported, by simp [reported]; rfl⟩⟩

end Lines

theorem onInput_contained {bound : Nat} {verbose : Bool} {s next : State} {c : Console} {input : Input}
    (contained : s.Contained) (went : onInput bound verbose s input = some (.goOn next, c)) :
    next.Contained := by
  cases input with
  | line text =>
      simp only [onInput, onLine] at went
      split at went
      · cases went
        exact contained
      · split at went
        · cases went
          exact State.command_contained contained _ _
        · obtain ⟨reply, evaluated, went⟩ := Option.map_eq_some_iff.mp went
          have kept := (State.evaluate_contained contained _ reply evaluated).1
          split at went
          · cases went
            exact kept
          · cases went
            exact kept
          · split at went
            · cases went
              exact kept
            · cases went
  | endOfInput => cases went
  | interrupt | key =>
      cases went
      exact contained

inductive Reached (settings : Settings) : State → Prop where
  | start (inv : CommandLine.Invocation) : Reached settings (CommandLine.startState settings inv)
  | input {s next : State} {c : Console} (before : Reached settings s) (bound : Nat) (verbose : Bool)
      (input : Input) (went : onInput bound verbose s input = some (.goOn next, c)) : Reached settings next

theorem Reached.contained {settings : Settings} {s : State} (positive : 0 < settings.budget)
    (reached : Reached settings s) : s.Contained := by
  induction reached with
  | start inv =>
      refine ⟨by simp [CommandLine.startState, Mode.ofName?_name],
        by simp [CommandLine.startState, FrontEnd.ofName?_name], positive, ?_, rfl⟩
      exact World.Vacant.evaluable ⟨rfl, rfl⟩
  | input _ bound verbose input went ih => exact onInput_contained ih went

end Prompt

-- A source that fails on a fresh root is reported by the command line, and a text that fails at any point of
-- a dialogue is reported by the prompt, which goes on. Two failures are let through instead: the remainder of
-- an infinite number, and at the prompt a sleep on the closed loop of an earlier run.
theorem failures_are_reported_but_two (budget traceback : Option String) (bound : Nat) (verbose : Bool) :
    (∀ (frontEnd : FrontEnd) (mode : Mode) (source : String) (out : Option Stream) cause after,
      runSource bound (.read budget traceback) source mode.name frontEnd.name out {} =
        some (.error cause, after) →
          cause.isReported = true ∨ (cause = .remainderDomain ∧ frontEnd.Uses source "%")) ∧
    (∀ (inv : CommandLine.Invocation) (source : String) cause after, inv.dump = false →
      runSource bound (.read budget traceback) source inv.mode.name inv.frontEnd.name none {} =
        some (.error cause, after) →
          ∃ exit c, CommandLine.runText bound (.read budget traceback) inv source = some (exit, c) ∧
            ((exit = .ok .failure ∧ c.Reports cause) ∨ (exit = .error cause ∧ cause = .remainderDomain))) ∧
    (∀ s, Prompt.Reached (.read budget traceback) s → ∀ raw reply cause, Prompt.IsProgram raw →
      s.evaluate bound (Prompt.normalize raw) = some reply → reply.result = .error cause →
        ∃ c, (Prompt.onLine bound verbose raw s = some (.goOn reply.state, c) ∧ c.Reports cause) ∨
          (Prompt.onLine bound verbose raw s = some (.escape cause, c) ∧
            (cause = .remainderDomain ∨ (cause = .loopClosed ∧ s.cps.isSome = true)))) ∧
    ∀ symbol a b, applyOperator symbol a b = .error .remainderDomain ↔
      symbol = "%" ∧ ∃ x y, a = .num x ∧ b = .num y ∧ (∃ negative, Binary64.decode x = .infinite negative) ∧
        (y == 0) = false ∧ Binary64.decode y ≠ .nan := by
  have positive := Settings.read_positive budget traceback
  refine ⟨?_, ?_, ?_, applyOperator_domain_iff⟩
  · intro frontEnd mode source out cause after failed
    exact runSource_reported positive failed
  · intro inv source cause after run failed
    obtain ⟨c, ran⟩ := CommandLine.runText_failed run failed
    rcases runSource_reported positive failed with reported | ⟨rfl, _⟩
    · obtain ⟨c', concluded, reports⟩ := CommandLine.conclude_reports c reported
      exact ⟨_, c', ran.trans (congrArg some concluded), .inl ⟨rfl, reports⟩⟩
    · exact ⟨_, c, ran, .inr ⟨rfl, rfl⟩⟩
  · intro s reached raw reply cause program evaluated failed
    have causes := (Prompt.State.evaluate_contained (reached.contained positive) _ reply evaluated).2 cause failed
    obtain ⟨c, ⟨_, went, reports⟩ | ⟨unreported, escaped⟩⟩ :=
      Prompt.onLine_failed program evaluated failed
    · exact ⟨c, .inl ⟨went, reports⟩⟩
    · refine ⟨c, .inr ⟨escaped, ?_⟩⟩
      rcases causes with reported | others
      · rw [unreported] at reported
        cases reported
      · exact others

theorem undefined_name_reported :
    ∃ cause after c, runSource 9 (.read none none) "missing" "sync" "rd" none {} = some (.error cause, after) ∧
      cause.message = "Undefined variable missing" ∧ cause.isReported = true ∧
      CommandLine.runText 9 (.read none none) {} "missing" = some (.ok .failure, c) ∧ c.Reports cause := by
  have ran : (runSource 9 (.read none none) "missing" "sync" "rd" none {}).map
      (fun report => (report.1.mapError Failure.message).map fun _ => ()) =
        some (.error "Undefined variable missing") := by
    decide +kernel
  obtain ⟨⟨result, after⟩, ran, failed⟩ := Option.map_eq_some_iff.mp ran
  cases result with
  | ok value => cases failed
  | error cause =>
      injection failed with message
      obtain ⟨fresh, main, _, _⟩ := failures_are_reported_but_two none none 9 false
      have other : cause ≠ .remainderDomain := by
        rintro rfl
        revert message
        decide
      obtain ⟨exit, c, shown, ⟨rfl, reports⟩ | ⟨_, domain⟩⟩ := main {} "missing" cause after rfl ran
      · rcases fresh .descent .sync "missing" none cause after ran with reported | ⟨domain, _⟩
        · exact ⟨cause, after, c, ran, message, reported, shown, reports⟩
        · exact absurd domain other
      · exact absurd domain other

def overflowingSource : String := "let (a = 99999999999, b = a*a*a*a, c = b*b*b*b) c*c%2"

theorem infinite_remainder_escapes :
    ∃ cause after c,
      runSource 9 (.read none none) overflowingSource "sync" "rd" none {} = some (.error cause, after) ∧
      cause.isReported = false ∧
      CommandLine.runText 9 (.read none none) {} overflowingSource = some (.error cause, c) := by
  have ran : (runSource 9 (.read none none) overflowingSource "sync" "rd" none {}).map
      (fun report => (report.1.mapError Failure.isReported).map fun _ => ()) = some (.error false) := by
    decide +kernel
  obtain ⟨⟨result, after⟩, ran, failed⟩ := Option.map_eq_some_iff.mp ran
  cases result with
  | ok value => cases failed
  | error cause =>
      injection failed with unreported
      have runs : ({} : CommandLine.Invocation).dump = false := rfl
      obtain ⟨c, shown⟩ := CommandLine.runText_failed runs ran
      exact ⟨cause, after, c, ran, unreported, by rw [shown]; simp [CommandLine.conclude, unreported]⟩

end Trampoline
