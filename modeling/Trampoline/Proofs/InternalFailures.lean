import Trampoline.Proofs.Correspondence
import Trampoline.Proofs.ParsedPrograms
import Trampoline.Proofs.Scoping

set_option autoImplicit false

namespace Trampoline

section Runs

variable {known : String → Prop} {w u : World}

theorem World.earliestIn_mem (best : Timer × Nat) (cs : List (Timer × Nat)) :
    earliestIn best cs = best ∨ earliestIn best cs ∈ cs := by
  induction cs generalizing best with
  | nil => exact .inl rfl
  | cons c cs ih =>
      rw [earliestIn]
      split
      · rcases ih c with same | later
        · exact .inr (by simp [same])
        · exact .inr (List.mem_cons_of_mem c later)
      · rcases ih best with same | later
        · exact .inl same
        · exact .inr (List.mem_cons_of_mem c later)

theorem World.earliest?_mem {ts others : List Timer} {t : Timer}
    (first : earliest? ts = some (t, others)) : t ∈ ts ∧ ∀ x ∈ others, x ∈ ts := by
  cases ts with
  | nil => cases first
  | cons head ts =>
      cases first
      refine ⟨?_, fun x left => List.mem_of_mem_eraseIdx left⟩
      rcases earliestIn_mem (head, 0) (ts.zipIdx 1) with same | later
      · simp [same]
      · exact List.mem_cons_of_mem head (List.fst_mem_of_mem_zipIdx later)

theorem World.Evaluable.nextTimer {t : Timer} (kept : w.Evaluable known)
    (next : w.nextTimer? = some (t, u)) : t.Evaluable known ∧ u.Evaluable known := by
  obtain ⟨⟨t', others⟩, first, same⟩ := Option.map_eq_some_iff.mp next
  cases same
  obtain ⟨listed, left⟩ := earliest?_mem first
  exact ⟨kept.timers t listed, kept.store, fun x member => kept.timers x (left x member)⟩

theorem World.Evaluable.takeTimer {t : Timer} {i : Nat} (kept : w.Evaluable known)
    (taken : w.takeTimer? i = some (t, u)) : t.Evaluable known ∧ u.Evaluable known := by
  obtain ⟨t', found, same⟩ := Option.map_eq_some_iff.mp taken
  cases same
  exact ⟨kept.timers t (List.mem_of_getElem? found), kept.store,
    fun x member => kept.timers x (List.mem_of_mem_eraseIdx member)⟩

def Settled.Evaluable (known : String → Prop) (mode : Mode) : Settled → Prop
  | .ok (some v) => v.Evaluable known
  | .ok none => True
  | .error cause => cause.Arises known mode

def Promise.Evaluable (known : String → Prop) (p : Promise) : Prop :=
  ∀ s, p = some s → Settled.Evaluable known .cps s

theorem Promise.evaluable_settled (m : MachineId) {ending : Ending} (returned : ending.Evaluable known)
    (w : World) : ((Promise.onEnding none m ending).onIdle m w).Evaluable known := by
  have settled : (Promise.onEnding none m ending).Evaluable known := by
    cases ending with
    | returned owner v =>
        intro s same
        simp only [onEnding] at same
        split at same
        · cases same
          exact returned
        · cases same
    | _ => exact nofun
  intro s same
  unfold onIdle at same
  split at same
  · cases first : Promise.onEnding none m ending with
    | none =>
        rw [first] at same
        cases same
        trivial
    | some s' =>
        rw [first] at same
        cases same
        exact settled _ first
  · exact settled s same

theorem await_evaluable (bound : Nat) (m : MachineId) (more : Nat) (p : Promise) (w : World)
    (promised : p.Evaluable known) (kept : w.Evaluable known) (s : Settled)
    (reported : await bound m more p w = some (s, u)) :
    Settled.Evaluable known .cps s ∧ u.Evaluable known := by
  induction more generalizing p w with
  | zero =>
      cases p with
      | none => cases reported
      | some s' =>
          cases reported
          exact ⟨promised s rfl, kept⟩
  | succ more ih =>
      cases p with
      | some s' =>
          cases reported
          exact ⟨promised s rfl, kept⟩
      | none =>
          rw [await] at reported
          cases next : w.nextTimer? with
          | none =>
              rw [next] at reported
              cases reported
          | some found =>
              obtain ⟨t, v⟩ := found
              obtain ⟨code, kept'⟩ := kept.nextTimer next
              rw [next] at reported
              dsimp only at reported
              cases fired : fire bound t v with
              | none =>
                  rw [fired] at reported
                  cases reported
              | some result =>
                  obtain ⟨ending, after⟩ := result
                  obtain ⟨ends, last⟩ := drive_evaluable bound _ (Config.evaluable_ofTimer kept' t code) _ _ fired
                  rw [fired] at reported
                  cases ending with
                  | failed cause =>
                      refine ih _ after ?_ last reported
                      rintro _ ⟨⟩
                      exact ends
                  | _ => exact ih _ after (Promise.evaluable_settled m ends after) last reported

theorem runToEnd_evaluable (bound : Nat) (m : MachineId) (e : Expr) (env : Env) (code : e.Evaluable known)
    (kept : w.Evaluable known) (s : Settled) (reported : runToEnd bound m e env w = some (s, u)) :
    Settled.Evaluable known .cps s ∧ u.Evaluable known := by
  have closed : ∀ {v : World}, v.Evaluable known → (v.closeLoop m).Evaluable known :=
    fun kept => ⟨kept.store, by simp [World.closeLoop]⟩
  unfold runToEnd at reported
  cases ran : run bound m e env w with
  | none =>
      rw [ran] at reported
      cases reported
  | some result =>
      obtain ⟨ending, after⟩ := result
      obtain ⟨ends, last⟩ := drive_evaluable bound _ (Config.evaluable_ofProgram kept m e env code) _ _ ran
      rw [ran] at reported
      cases ending with
      | failed cause =>
          cases reported
          exact ⟨ends, closed last⟩
      | _ =>
          obtain ⟨⟨s', v⟩, awaited, same⟩ := Option.map_eq_some_iff.mp reported
          cases same
          obtain ⟨settled, kept'⟩ := await_evaluable bound m bound _ after
            (Promise.evaluable_settled m ends after) last _ awaited
          exact ⟨settled, closed kept'⟩

theorem runIn_evaluable (bound : Nat) (settings : Settings) (budget : Option Int) (mode : Mode) (e : Expr)
    (env : Env) (code : e.Evaluable known) (kept : w.Evaluable known) (s : Settled)
    (reported : runIn bound settings budget mode e env w = some (s, u)) :
    (Settled.Evaluable known mode s ∨ ∃ b, budget = some b ∧ ¬ 0 < b ∧ s = .error .budgetNotPositive) ∧
      u.Evaluable known := by
  cases mode with
  | sync =>
      have outcome := (Direct.evaluable bound).1 e env code w kept
      simp only [runIn, runDirect] at reported
      cases result : Direct.eval bound e env w with
      | done v after =>
          rw [result] at reported outcome
          cases reported
          exact ⟨.inl outcome.1, outcome.2⟩
      | failed cause after =>
          rw [result] at reported outcome
          cases reported
          exact ⟨.inl outcome.1, outcome.2⟩
      | unfinished =>
          rw [result] at reported
          cases reported
  | cps =>
      simp only [runIn, runAsync] at reported
      cases checked : checkBudget settings budget with
      | error cause =>
          rw [checked] at reported
          cases reported
          refine ⟨.inr ?_, kept⟩
          cases budget with
          | none => cases checked
          | some b =>
              simp only [checkBudget] at checked
              split at checked
              · cases checked
              · rename_i positive
                cases checked
                exact ⟨b, rfl, positive, rfl⟩
      | ok B =>
          rw [checked] at reported
          obtain ⟨⟨s', v⟩, ran, same⟩ := Option.map_eq_some_iff.mp reported
          cases same
          have added : (w.addMachine B .running).2.Evaluable known := kept.congr rfl rfl
          obtain ⟨settled, kept'⟩ := runToEnd_evaluable bound _ e env code added s' ran
          refine ⟨.inl settled, ?_⟩
          cases s' with
          | ok value => exact kept'.congr rfl rfl
          | error cause => exact kept'

end Runs

def Expr.Accepted (e : Expr) : Prop := ∃ (frontEnd : FrontEnd) (source : String), frontEnd.parse source = .ok e

def Request.Accepted : Request → Prop
  | .direct e => e.Accepted
  | .run _ e => e.Accepted
  | .fire _ => True

-- The worlds over one root after accepted programs were run in any way, one after the other, and timers
-- were fired. In between, machines may come and go, and timers may be dropped.
inductive Served (root : ScopeId) : World → Prop where
  | start {w : World} (bare : w.Bare root) : Served root w
  | request {w after : World} (before : Served root w) (bound : Nat) (request : Request)
      (accepted : request.Accepted) (ended : (request.serve root bound w).world? = some after) :
      Served root after
  | awaited {w after : World} {s : Settled} (before : Served root w) (bound : Nat) (settings : Settings)
      (budget : Option Int) (mode : Mode) (e : Expr) (accepted : e.Accepted)
      (ended : runIn bound settings budget mode e ⟨root, []⟩ w = some (s, after)) : Served root after
  | aside {w after : World} (before : Served root w) (store : after.store = w.store)
      (timers : ∀ t ∈ after.timers, t ∈ w.timers) : Served root after

theorem Expr.Accepted.meant {e : Expr} (accepted : e.Accepted) : e.Meant := by
  obtain ⟨frontEnd, source, parsed⟩ := accepted
  exact FrontEnd.parse_meant parsed

theorem World.Bare.evaluable {known : String → Prop} {root : ScopeId} {w : World} (bare : w.Bare root) :
    w.Evaluable known := by
  refine ⟨?_, by simp [bare.timers]⟩
  intro name i v found
  have plain := bare.store name i v found
  cases v with
  | closure | continuation => cases plain
  | _ => trivial

def Result.Evaluable (known : String → Prop) (result : Result) : Prop :=
  (∀ after, result.world? = some after → after.Evaluable known) ∧
    ∀ cause, result.failure? = some cause → ∃ mode, cause.Arises known mode

theorem Result.evaluable_driven {known : String → Prop} {bound : Nat} {c : Config}
    (code : c.Evaluable known) : (Result.driven (drive bound c)).Evaluable known := by
  cases driven : drive bound c with
  | none => exact ⟨by simp [world?], by simp [failure?]⟩
  | some ended =>
      obtain ⟨ending, after⟩ := ended
      obtain ⟨ends, kept⟩ := drive_evaluable bound c code ending after driven
      refine ⟨by simpa [world?] using kept, ?_⟩
      intro cause failed
      cases ending <;> cases failed
      exact ⟨.cps, ends⟩

theorem Result.evaluable_direct {known : String → Prop} {outcome : Direct.Outcome Value}
    (evaluable : outcome.Evaluable known (Value.Evaluable known)) :
    (Result.direct outcome).Evaluable known := by
  cases outcome with
  | unfinished => exact ⟨by simp [world?], by simp [failure?]⟩
  | done v after => exact ⟨by simpa [world?] using evaluable.2, by simp [failure?]⟩
  | failed cause after =>
      refine ⟨by simpa [world?] using evaluable.2, ?_⟩
      intro other failed
      cases failed
      exact ⟨.sync, evaluable.1⟩

theorem Request.serve_evaluable (root : ScopeId) (bound : Nat) (request : Request)
    (accepted : request.Accepted) {w : World} (kept : w.Evaluable Operator.IsSymbol) :
    (request.serve root bound w).Evaluable Operator.IsSymbol := by
  cases request with
  | direct e => exact Result.evaluable_direct ((Direct.evaluable bound).1 e _ accepted.meant w kept)
  | run m e => exact Result.evaluable_driven (Config.evaluable_ofProgram kept m e _ accepted.meant)
  | fire i =>
      simp only [serve]
      cases taken : w.takeTimer? i with
      | none => exact ⟨by simpa [Result.world?] using kept, by simp [Result.failure?]⟩
      | some found =>
          obtain ⟨code, kept'⟩ := kept.takeTimer taken
          exact Result.evaluable_driven (Config.evaluable_ofTimer kept' _ code)

theorem Served.evaluable {root : ScopeId} {w : World} (served : Served root w) :
    w.Evaluable Operator.IsSymbol := by
  induction served with
  | start bare => exact bare.evaluable
  | request _ bound request accepted ended ih =>
      exact (request.serve_evaluable root bound accepted ih).1 _ ended
  | awaited _ bound settings budget mode e accepted ended ih =>
      exact (runIn_evaluable bound settings budget mode e _ accepted.meant ih _ ended).2
  | aside _ store timers ih => exact ⟨store ▸ ih.store, fun t member => ih.timers t (timers t member)⟩

theorem Failure.Arises.kind {mode : Mode} {cause : Failure} (arises : cause.Arises Operator.IsSymbol mode) :
    cause.kind ≠ .internal := by
  cases cause with
  | notEvaluable => exact arises.elim
  | unknownOperator symbol =>
      obtain ⟨meaning, none⟩ := arises
      rw [Operator.IsSymbol, none] at meaning
      cases meaning
  | _ => simp [Failure.kind]

-- Whatever accepted programs have left behind, no accepted program and no timer fails internally, in
-- either mode and with any machines, budgets and bounds.
theorem accepted_programs_never_fail_internally {root : ScopeId} {w : World} (served : Served root w)
    (bound : Nat) :
    (∀ request : Request, request.Accepted → ∀ cause,
      (request.serve root bound w).failure? = some cause → cause.kind ≠ .internal) ∧
    ∀ e : Expr, e.Accepted → ∀ (settings : Settings) (budget : Option Int) (mode : Mode) cause after,
      runIn bound settings budget mode e ⟨root, []⟩ w = some (.error cause, after) →
        cause.kind ≠ .internal := by
  have kept := served.evaluable
  refine ⟨?_, ?_⟩
  · intro request accepted cause failed
    obtain ⟨mode, arises⟩ := (request.serve_evaluable root bound accepted kept).2 cause failed
    exact Failure.Arises.kind arises
  · intro e accepted settings budget mode cause after failed
    rcases (runIn_evaluable bound settings budget mode e _ accepted.meant kept _ failed).1 with
      arises | ⟨b, _, _, refused⟩
    · exact Failure.Arises.kind arises
    · cases refused
      simp [Failure.kind]

def keepingSource : String := "g = λ() if true then missing"

def callingSource : String := "g()"

theorem kept_branch_fails_as_undefined :
    ∃ w e cause, Served 0 w ∧ FrontEnd.descent.parse callingSource = .ok e ∧
      ((Request.run 0 e).serve 0 40 w).failure? = some cause ∧
      cause.message = "Undefined variable missing" ∧ cause.kind ≠ .internal := by
  have bare := World.bare_rooted .cps #[⟨2, 2, 0, 0, .missing⟩]
  have runs : ((FrontEnd.grammar.parse keepingSource).toOption.bind fun first =>
      (FrontEnd.descent.parse callingSource).toOption.bind fun second =>
        ((Request.direct first).serve 0 9 (.rooted .cps #[⟨2, 2, 0, 0, .missing⟩])).world?.bind fun after =>
          ((Request.run 0 second).serve 0 40 after).failure?.map Failure.message) =
        some "Undefined variable missing" := by
    decide +kernel
  obtain ⟨first, kept, runs⟩ := Option.bind_eq_some_iff.mp runs
  obtain ⟨second, called, runs⟩ := Option.bind_eq_some_iff.mp runs
  obtain ⟨after, ended, runs⟩ := Option.bind_eq_some_iff.mp runs
  obtain ⟨cause, failed, message⟩ := Option.map_eq_some_iff.mp runs
  have read := ok_of_toOption called
  have served := Served.request (.start bare) 9 (.direct first)
    ⟨.grammar, keepingSource, ok_of_toOption kept⟩ ended
  have internal := (accepted_programs_never_fail_internally served 40).1 (.run 0 second)
    ⟨.descent, callingSource, read⟩ cause failed
  exact ⟨after, second, cause, served, read, failed, message, internal⟩

end Trampoline
