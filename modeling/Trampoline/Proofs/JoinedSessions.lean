import Trampoline.Prompt.State
import Trampoline.Proofs.Framing
import Trampoline.Proofs.JoinedReaders

set_option autoImplicit false

namespace Trampoline

namespace World

def behind (before : Array Event) (w : World) : World := { w with trace := before ++ w.trace }

theorem framing_behind (before : Array Event) :
    Direct.Framing (fun w u => u = w.behind before) (fun start start' => start' = start) where
  store := by
    rintro w _ rfl
    rfl
  stamps := by
    rintro w _ rfl
    rfl
  stored := by
    rintro w _ store rfl
    rfl
  stamped := by
    rintro w _ stamps rfl
    rfl
  noted := by
    rintro w _ event rfl
    simp only [note, behind, Array.push_append]
  read := by
    rintro w _ rfl
    exact ⟨rfl, rfl⟩
  reported := by
    rintro w _ start _ env rfl rfl
    simp only [reportElapsed, readClock, writeLine, note, behind, Array.push_append]

end World

namespace Direct

variable {eval : Expr → Env → Eval Value} {env : Env}

theorem evalLast_append (last : Value) (es fs : List Expr) :
    evalLast eval env last (es ++ fs) =
      Eval.bind (evalLast eval env last es) fun v => evalLast eval env v fs := by
  induction es generalizing last with
  | nil => rfl
  | cons e es ih =>
      funext w
      simp only [List.cons_append, evalLast, bind, Eval.bind, ih]
      cases eval e env w <;> rfl

theorem evalLast_written {es : List Expr} (written : es ≠ []) (last last' : Value) :
    evalLast eval env last es = evalLast eval env last' es := by
  cases es with
  | nil => exact absurd rfl written
  | cons e es => rfl

end Direct

-- What comes of a program and then another one: the second one is left out after a failure, and otherwise
-- starts in what the first one leaves, with a trace of its own.
def Report.followedBy (next : World → Option Report) : Report → Option Report
  | (.error cause, w) => some (.error cause, w)
  | (.ok _, w) => (next { w with trace := #[] }).map fun report => (report.1, report.2.behind w.trace)

theorem runDirect_append (bound : Nat) (es : List Expr) {fs : List Expr} (written : fs ≠ []) (env : Env)
    (w : World) :
    runDirect bound (.prog (es ++ fs)) env w =
      (runDirect bound (.prog es) env w).bind (Report.followedBy (runDirect bound (.prog fs) env)) := by
  cases bound with
  | zero => rfl
  | succ bound =>
      simp only [runDirect, Direct.eval, Direct.evalLast_append, Direct.Eval.bind]
      cases Direct.evalLast (Direct.eval bound) env .no es w with
      | unfinished => rfl
      | failed cause u => rfl
      | done v u =>
          have framed := Direct.Eval.Framed.evalLast
            (Direct.eval_framed (World.framing_behind u.trace) bound).1 env Value.no fs
          have resumed : u = World.behind u.trace { u with trace := #[] } := by simp [World.behind]
          have alike := framed _ _ resumed
          simp only [Option.bind_some, Report.followedBy, runDirect, Direct.eval]
          rw [Direct.evalLast_written written v .no]
          generalize Direct.evalLast (Direct.eval bound) env .no fs u = here at alike
          generalize Direct.evalLast (Direct.eval bound) env .no fs { u with trace := #[] } = there at alike
          cases alike with
          | done same =>
              rw [same]
              rfl
          | failed same =>
              rw [same]
              rfl
          | unfinished => rfl

def Descent.body (source : String) : List Expr :=
  match Descent.parse source with
  | .ok (.prog es) => es
  | _ => []

-- A source that another one can follow after a semicolon: it is accepted and has an expression, its text
-- literals are closed, and it does not end in a semicolon itself.
structure Joinable (source : String) : Prop where
  accepted : ∃ e, Descent.parse source = .ok e
  written : Descent.body source ≠ []
  closed : TextsClosed source
  last : (Tokens.ofSource source).lexemes.getLast? ≠ some (.punctuation ';')

theorem Joinable.parse {source : String} (joinable : Joinable source) :
    Descent.parse source = .ok (.prog (Descent.body source)) := by
  obtain ⟨e, accepted⟩ := joinable.accepted
  obtain ⟨es, rfl⟩ : ∃ es, e = .prog es := by
    unfold Descent.parse Descent.program at accepted
    cases read : Descent.sequence (Descent.boundFor (.ofSource source)) (.ofSource source) with
    | error cause =>
        rw [read] at accepted
        cases accepted
    | ok es =>
        rw [read] at accepted
        cases accepted
        exact ⟨es, rfl⟩
  rw [Descent.body, accepted]

def joined (first : String) (rest : List String) : String := "\n;\n".intercalate (first :: rest)

theorem joined_parse {first : String} {rest : List String} (joinable : ∀ source ∈ first :: rest, Joinable source) :
    Descent.parse (joined first rest) = .ok (.prog ((first :: rest).flatMap Descent.body)) := by
  induction rest generalizing first with
  | nil =>
      have only := (joinable first (by simp)).parse
      simpa [joined] using only
  | cons next rest ih =>
      have head := joinable first (by simp)
      have others := ih fun source member => joinable source (List.mem_cons_of_mem _ member)
      rw [joined, String.intercalate_cons_cons, List.flatMap_cons]
      exact Descent.parse_joined head.parse head.written head.closed head.last others

theorem FrontEnd.parseNamed_descent {source : String} {e : Expr} (accepted : Descent.parse source = .ok e) :
    FrontEnd.parseNamed "rd" source = .ok e := by
  show ((Descent.parse source).mapError Failure.parse : Except Failure Expr) = .ok e
  rw [accepted]
  rfl

namespace Prompt.State

def evaluateAll (bound : Nat) : String → List String → State → Option Reply
  | text, [], s => s.evaluate bound text
  | text, next :: rest, s =>
      (s.evaluate bound text).bind fun reply =>
        match reply.result with
        | .error _ => some reply
        | .ok _ => (evaluateAll bound next rest reply.state).map
            fun later => { later with trace := reply.trace ++ later.trace }

def Reply.seen (reply : Reply) : Settled × Array Event × Option Store :=
  (reply.result, reply.trace, (reply.state.root? .sync).map fun root => root.world.store)

def seenOf (report : Report) : Settled × Array Event × Option Store :=
  (report.1, report.2.trace, some report.2.store)

structure EvaluatesIn (s : State) (env : Env) (w : World) : Prop where
  mode : s.mode = "sync"
  frontEnd : s.frontEnd = "rd"
  env : (s.enter .sync).1 = env
  world : { (s.enter .sync).2 with trace := #[] } = w

section Sessions

variable {bound : Nat} {s : State} {env : Env} {w : World}

theorem EvaluatesIn.evaluate (here : s.EvaluatesIn env w) {text : String} {e : Expr}
    (accepted : Descent.parse text = .ok e) :
    s.evaluate bound text = (runDirect bound e env w).map fun report =>
      ⟨report.1, report.2.trace, { s.setEnv .sync env with world := report.2 }⟩ := by
  have read : FrontEnd.parseNamed s.frontEnd text = .ok e := by
    rw [here.frontEnd]
    exact FrontEnd.parseNamed_descent accepted
  have known : Mode.ofName? s.mode = some .sync := by
    rw [here.mode]
    rfl
  simp only [State.evaluate, read, known, evaluateIn, runIn, here.env, here.world]

theorem EvaluatesIn.next (here : s.EvaluatesIn env w) (u : World) :
    State.EvaluatesIn { s.setEnv .sync env with world := u } env { u with trace := #[] } :=
  ⟨here.mode, here.frontEnd, rfl, rfl⟩

theorem evaluateAll_seen {first : String} {rest : List String}
    (joinable : ∀ source ∈ first :: rest, Joinable source) (here : s.EvaluatesIn env w) :
    (s.evaluateAll bound first rest).map Reply.seen =
      (runDirect bound (.prog ((first :: rest).flatMap Descent.body)) env w).map seenOf := by
  induction rest generalizing first s w with
  | nil =>
      rw [evaluateAll, here.evaluate (joinable first (by simp)).parse, List.flatMap_singleton, Option.map_map]
      rfl
  | cons next rest ih =>
      have others : ∀ source ∈ next :: rest, Joinable source :=
        fun source member => joinable source (List.mem_cons_of_mem _ member)
      have written : (next :: rest).flatMap Descent.body ≠ [] := by
        simp [(others next (by simp)).written]
      rw [evaluateAll, here.evaluate (joinable first (by simp)).parse, List.flatMap_cons,
        runDirect_append bound _ written]
      cases runDirect bound (.prog (Descent.body first)) env w with
      | none => rfl
      | some report =>
          obtain ⟨result, u⟩ := report
          cases result with
          | error cause => rfl
          | ok v =>
              -- The rest of the session is what the induction is about; the trace of this text goes before it.
              have later := congrArg (Option.map fun seen => (seen.1, u.trace ++ seen.2.1, seen.2.2))
                (ih others (here.next u))
              simp only [Option.map_map] at later
              simp only [Option.map_some, Option.bind_some, Report.followedBy, Option.map_map]
              exact later

end Sessions

theorem session_equals_joined_program (bound : Nat) (settings : Settings) {first : String} {rest : List String}
    (joinable : ∀ source ∈ first :: rest, Joinable source) :
    FrontEnd.descent.parse (joined first rest) = .ok (.prog ((first :: rest).flatMap Descent.body)) ∧
      (State.evaluateAll bound first rest { settings := settings }).map Reply.seen =
        (runSource bound settings (joined first rest) "sync" "rd" none {}).map seenOf := by
  have accepted := joined_parse joinable
  refine ⟨accepted, ?_⟩
  have start : State.EvaluatesIn { settings := settings } (({} : World).root .sync none).1
      (({} : World).root .sync none).2 :=
    ⟨rfl, rfl, rfl, rfl⟩
  have read : FrontEnd.parseNamed "rd" (joined first rest) =
      .ok (.prog ((first :: rest).flatMap Descent.body)) := FrontEnd.parseNamed_descent accepted
  rw [evaluateAll_seen joinable start, runSource, read]
  rfl

def firstSource : String := "n = 2 # \"two"

def laterSources : List String := ["print(\"n; is\", n); f = λ(x) x + n", "print(f(n)); g(n)", "print(n)"]

theorem laterSources_joinable : ∀ source ∈ firstSource :: laterSources, Joinable source := by
  have checked : ∀ source ∈ firstSource :: laterSources, (Descent.parse source).toOption.isSome = true ∧
      (Descent.body source).isEmpty = false ∧ TextsClosed source ∧
      Tokens.isMark ';' (Tokens.ofSource source).lexemes.getLast? = false := by
    decide +kernel
  intro source member
  obtain ⟨accepted, written, closed, last⟩ := checked source member
  obtain ⟨e, read⟩ := Option.isSome_iff_exists.mp accepted
  refine ⟨⟨e, ok_of_toOption read⟩, by simpa using written, closed, ?_⟩
  intro same
  rw [Tokens.isMark_iff.mpr same] at last
  cases last

def told? : Report → Option (String × String)
  | (.error cause, w) => some (cause.message, World.printed w.trace .standard)
  | (.ok _, _) => none

theorem failing_session_equals_joined :
    (∀ source ∈ firstSource :: laterSources, Joinable source) ∧
      ∃ report reply,
        runSource 20 ⟨200, false⟩ (joined firstSource laterSources) "sync" "rd" none {} = some report ∧
          State.evaluateAll 20 firstSource laterSources { settings := ⟨200, false⟩ } = some reply ∧
          reply.seen = seenOf report ∧ told? report = some ("Undefined variable g", "n; is 2\n4\n") := by
  have same := (session_equals_joined_program 20 ⟨200, false⟩ laterSources_joinable).2
  have ran : (runSource 20 ⟨200, false⟩ (joined firstSource laterSources) "sync" "rd" none {}).bind told? =
      some ("Undefined variable g", "n; is 2\n4\n") := by
    decide +kernel
  obtain ⟨report, ended, told⟩ := Option.bind_eq_some_iff.mp ran
  rw [ended] at same
  obtain ⟨reply, replied, seen⟩ := Option.map_eq_some_iff.mp same
  exact ⟨laterSources_joinable, report, reply, ended, replied, seen, told⟩

end Prompt.State

end Trampoline
