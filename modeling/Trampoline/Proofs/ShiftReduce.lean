import Mathlib.Logic.Relation
import Trampoline.Proofs.DerivationReaders

/-!
The machine that reads a grammar by shifting and reducing, and shifts wherever it can. It accepts exactly what has
a derivation that prefers shifting, so the second front end returns what this machine builds.
-/

set_option autoImplicit false

namespace Trampoline.Grammar

abbrev StackEntry := (x : Symbol) × x.Value

def push : (body : List Symbol) → Values body → List StackEntry → List StackEntry
  | [], _, stack => stack
  | x :: body, vs, stack => push body vs.2 (⟨x, vs.1⟩ :: stack)

abbrev symbolsOf (stack : List StackEntry) : List Symbol := stack.map Sigma.fst

-- Where a phrase may begin: at the bottom of the stack a program, and behind the front of a production the
-- nonterminal that comes next in it.
inductive Expects : List Symbol → Nonterminal → Prop where
  | start : Expects [] (.series .items)
  | part {σ : List Symbol} {n m : Nonterminal} {rule : Rule n} {front back : List Symbol} : Expects σ n →
      rule ∈ n.rules → rule.body = front ++ .nonterminal m :: back → Expects (front.reverse ++ σ) m

def Shiftable (σ : List Symbol) (t : Terminal) (after : Context) : Prop :=
  ∃ (below : List Symbol) (n : Nonterminal) (rule : Rule n) (front back : List Symbol), Expects below n ∧
    rule ∈ n.rules ∧ rule.body = front ++ .terminal t after :: back ∧ σ = front.reverse ++ below

-- The stack and the terminals still to come. Nothing is reduced before a terminal that can be shifted. Sets of
-- lookaheads would refuse a source earlier, but they exclude no reduction that leads to acceptance.
inductive Step : List StackEntry × List Shifted → List StackEntry × List Shifted → Prop where
  | shift {stack : List StackEntry} {found : Located} {after : Context} {u : List Shifted} :
      Shiftable (symbolsOf stack) found.terminal after →
        Step (stack, (found, after) :: u) (⟨.terminal found.terminal after, found⟩ :: stack, u)
  | reduce {stack : List StackEntry} {n : Nonterminal} {rule : Rule n} {inner : Values rule.body} {u : List Shifted} :
      Expects (symbolsOf stack) n → rule ∈ n.rules →
        (∀ t after, firstOf u none = some t → ¬ Shiftable (symbolsOf (push rule.body inner stack)) t after) →
          Step (push rule.body inner stack, u) (⟨.nonterminal n, rule.build inner⟩ :: stack, u)

abbrev Steps := Relation.ReflTransGen Step

def AcceptedByShifting (source : String) (terminals : List Located) (program : Expr) : Prop :=
  ∃ (u : List Shifted) (es : List Expr), Scanned .operand (.ofSource source) u ∧ u.map Prod.fst = terminals ∧
    Steps ([], u) ([⟨.nonterminal (.series .items), es⟩], []) ∧ program = .prog es

theorem symbolsOf_push (body : List Symbol) (vs : Values body) (stack : List StackEntry) :
    symbolsOf (push body vs stack) = body.reverse ++ symbolsOf stack := by
  induction body generalizing stack with
  | nil => rfl
  | cons x body ih =>
      rw [push, ih]
      simp

theorem firstOf_append (u v : List Shifted) (next : Option Terminal) :
    firstOf (u ++ v) next = firstOf u (firstOf v next) := by
  cases u <;> rfl

theorem of_terminalBehind {front body : List Symbol} {t : Terminal} (behind : terminalBehind? front body = some t) :
    ∃ after back, body = front ++ .terminal t after :: back := by
  induction front generalizing body with
  | nil =>
      cases body with
      | nil => cases behind
      | cons x body =>
          cases x with
          | nonterminal _ => cases behind
          | terminal t' after =>
              cases behind
              exact ⟨after, body, rfl⟩
  | cons x front ih =>
      cases body with
      | nil => cases behind
      | cons y body =>
          rw [terminalBehind?] at behind
          by_cases same : x = y
          · rw [if_pos same] at behind
            obtain ⟨after, back, rfl⟩ := ih behind
            exact ⟨after, back, by rw [same, List.cons_append]⟩
          · rw [if_neg same] at behind
            cases behind

section AcceptedByShifting

variable {body : List Symbol} {stack : List StackEntry} {u v w : List Shifted} {next : Option Terminal}

theorem Derives.cons {x : Symbol} {value : x.Value} {vs : Values body}
    (first : Derives [x] u (firstOf v next) (value, ())) (rest : Derives body v next vs) :
    Derives (x :: body) (u ++ v) next (value, vs) := by
  cases first with
  | shift same last =>
      cases last
      exact .shift same rest
  | reduce member inner ends last =>
      cases last
      rw [List.append_nil]
      exact .reduce member inner ends rest

inductive Stacked : List StackEntry → List Shifted → Option Terminal → Prop where
  | nil {next : Option Terminal} : Stacked [] [] next
  | cons {stack : List StackEntry} {x : Symbol} {value : x.Value} {u v : List Shifted} {next : Option Terminal} :
      Stacked stack u (firstOf v next) → Derives [x] v next (value, ()) →
        Stacked (⟨x, value⟩ :: stack) (u ++ v) next

theorem Stacked.split {vs : Values body} (stacked : Stacked (push body vs stack) w next) :
    ∃ u v, w = u ++ v ∧ Stacked stack u (firstOf v next) ∧ Derives body v next vs := by
  induction body generalizing stack w with
  | nil => exact ⟨w, [], (List.append_nil w).symm, stacked, .nil⟩
  | cons x body ih =>
      obtain ⟨_, v, rfl, first, rest⟩ := ih stacked
      cases first with
      | @cons _ _ _ u u' _ below derives =>
          exact ⟨u, u' ++ v, List.append_assoc u u' v, (firstOf_append u' v next).symm ▸ below, derives.cons rest⟩

theorem Expects.shiftable {σ : List Symbol} {n : Nonterminal} {rule : Rule n} {t : Terminal} (expects : Expects σ n)
    (member : rule ∈ n.rules) (extends' : t ∈ n.extensions rule.body) :
    ∃ after, Shiftable (rule.body.reverse ++ σ) t after := by
  rcases List.mem_append.mp extends' with longer | recursive
  · obtain ⟨longer, member', behind⟩ := List.mem_filterMap.mp longer
    obtain ⟨after, back, same⟩ := of_terminalBehind behind
    exact ⟨after, σ, n, longer, rule.body, back, expects, member', same, rfl⟩
  · cases ending : rule.body.getLast? with
    | none =>
        rw [ending] at recursive
        cases recursive
    | some last =>
        obtain ⟨front, split⟩ := List.getLast?_eq_some_iff.mp ending
        rw [ending] at recursive
        cases last with
        | terminal _ _ => cases recursive
        | nonterminal m =>
            obtain ⟨longer, member', behind⟩ := List.mem_filterMap.mp recursive
            obtain ⟨after, back, same⟩ := of_terminalBehind behind
            have inner : Expects (front.reverse ++ σ) m := .part expects member split
            exact ⟨after, _, m, longer, _, back, inner, member', same, by simp [split]⟩

def Accounts (whole : List Shifted) (c : List StackEntry × List Shifted) : Prop :=
  ∃ u, Stacked c.1 u (firstOf c.2 none) ∧ u ++ c.2 = whole

theorem Step.accounts {whole : List Shifted} {c c' : List StackEntry × List Shifted} (step : Step c c')
    (accounts : Accounts whole c) : Accounts whole c' := by
  obtain ⟨w, stacked, rfl⟩ := accounts
  cases step with
  | @shift stack found after u _ =>
      have one : Derives [.terminal found.terminal after] [(found, after)] (firstOf u none) (found, ()) :=
        .shift rfl .nil
      exact ⟨w ++ [(found, after)], .cons stacked one, by simp⟩
  | @reduce stack n rule inner u expects member settled =>
      obtain ⟨w, v, rfl, below, derives⟩ := stacked.split
      have ends : ∀ t, firstOf u none = some t → t ∉ n.extensions rule.body := by
        intro t next extends'
        obtain ⟨after, shiftable⟩ := expects.shiftable member extends'
        exact settled t after next (symbolsOf_push rule.body inner stack ▸ shiftable)
      have phrase : Derives [.nonterminal n] (v ++ []) (firstOf u none) (rule.build inner, ()) :=
        .reduce member derives ends .nil
      rw [List.append_nil] at phrase
      exact ⟨w ++ v, .cons below phrase, rfl⟩

theorem steps_account {c : List StackEntry × List Shifted} (steps : Steps ([], u) c) : Accounts u c := by
  induction steps with
  | refl => exact ⟨[], .nil, rfl⟩
  | tail _ step ih => exact step.accounts ih

theorem derives_of_steps {es : List Expr} (steps : Steps ([], u) ([⟨.nonterminal (.series .items), es⟩], [])) :
    Derives [.nonterminal (.series .items)] u none (es, ()) := by
  obtain ⟨w, stacked, rfl⟩ := steps_account steps
  cases stacked with
  | cons below derives =>
      cases below
      rw [List.append_nil]
      exact derives

end AcceptedByShifting

section Conflicts

def Series.all : List Series := [.items, .arguments, .parameters, .definitions]

def Nonterminal.all : List Nonterminal :=
  Series.all.map .series ++ Series.all.map .more ++
    [.expression, .level .assignment, .level .disjunction, .level .conjunction, .level .comparison, .level .sum,
      .level .product, .level .call, .atom, .block, .conditional, .function, .letForm, .namedLet, .definition]

theorem Nonterminal.mem_all (n : Nonterminal) : n ∈ Nonterminal.all := by
  cases n with
  | series k => cases k <;> decide
  | more k => cases k <;> decide
  | level l => cases l <;> decide
  | _ => decide

def Nonterminal.bodies (n : Nonterminal) : List (List Symbol) := n.rules.map Rule.body

theorem Rule.body_mem {n : Nonterminal} {rule : Rule n} (member : rule ∈ n.rules) : rule.body ∈ n.bodies :=
  List.mem_map_of_mem member

def cuts : List Symbol → List (List Symbol × Symbol × List Symbol)
  | [] => []
  | x :: xs => ([], x, xs) :: (cuts xs).map fun cut => (x :: cut.1, cut.2)

theorem mem_cuts (front : List Symbol) (x : Symbol) (back : List Symbol) :
    (front, x, back) ∈ cuts (front ++ x :: back) := by
  induction front with
  | nil => exact .head _
  | cons y front ih => exact .tail _ (List.mem_map.mpr ⟨_, ih, rfl⟩)

-- What is known of the rest of a stack: that it is empty, that it is empty or has a terminal on top that an operand
-- comes behind, or nothing.
inductive Remainder where
  | empty
  | operand
  | anything
deriving DecidableEq

def Remainder.admits : Remainder → Symbol → Bool
  | .empty, _ => false
  | .operand, .terminal _ .operand => true
  | .operand, .terminal _ _ => false
  | .operand, .nonterminal _ => false
  | .anything, _ => true

abbrev Look := List Symbol × Remainder

def Seen (look : Look) (σ : List Symbol) : Prop :=
  ∃ rest, σ = look.1 ++ rest ∧ ∀ x ∈ rest.head?, look.2.admits x = true

def Nonterminal.looks : Nonterminal → List Look
  | .series .items => [([], .empty)]
  | .series .arguments => [([.terminal .leftParen .operand, Rule.level .call], .anything)]
  | .series _ => [([Rule.opening], .anything)]
  | .more .items => [([Rule.expression], .empty), ([Rule.expression, Rule.leftBrace], .anything)]
  | .more .arguments => [([Rule.expression, .terminal .leftParen .operand], .anything)]
  | .more k => [([k.element, Rule.opening], .anything)]
  | .definition => [([Rule.opening], .anything), ([Series.definitions.mark], .anything)]
  | .block => [([], .operand), ([Rule.expression, Rule.word .if_], .anything)]
  | _ => [([], .operand)]

def meets (rest rest' : Remainder) : List Symbol → List Symbol → Bool
  | x :: xs, y :: ys => x = y && meets rest rest' xs ys
  | [], y :: _ => rest.admits y
  | x :: _, [] => rest'.admits x
  | [], [] => true

def covers (rest rest' : Remainder) : List Symbol → List Symbol → Bool
  | x :: xs, y :: ys => x = y && covers rest rest' xs ys
  | [], _ :: _ => false
  | x :: _, [] => rest'.admits x
  | [], [] => rest = rest' || rest = .empty || rest' = .anything

theorem meets_of_seen {rest rest' : Remainder} {p q σ : List Symbol} (seen : Seen (p, rest) σ)
    (seen' : Seen (q, rest') σ) : meets rest rest' p q = true := by
  obtain ⟨below, split, admitted⟩ := seen
  obtain ⟨below', split', admitted'⟩ := seen'
  induction p generalizing q σ with
  | nil =>
      cases q with
      | nil => rfl
      | cons y ys =>
          obtain rfl : σ = below := split
          exact admitted y (by rw [split']; rfl)
  | cons x xs ih =>
      cases q with
      | nil =>
          obtain rfl : σ = below' := split'
          exact admitted' x (by rw [split]; rfl)
      | cons y ys =>
          obtain ⟨rfl, same⟩ := List.cons.inj (split.symm.trans split')
          simp [meets, ih rfl admitted same admitted']

theorem seen_of_covers {rest rest' : Remainder} {p q σ : List Symbol} (covered : covers rest rest' p q = true)
    (seen : Seen (p, rest) σ) : Seen (q, rest') σ := by
  obtain ⟨below, rfl, admitted⟩ := seen
  induction p generalizing q with
  | nil =>
      cases q with
      | cons y ys => cases covered
      | nil =>
          refine ⟨below, rfl, fun x top => ?_⟩
          have known := admitted x top
          simp only [covers, Bool.or_eq_true, decide_eq_true_eq] at covered
          rcases covered with (rfl | rfl) | rfl
          · exact known
          · cases known
          · rfl
  | cons x xs ih =>
      cases q with
      | nil =>
          refine ⟨_, rfl, fun y top => ?_⟩
          cases top
          exact covered
      | cons y ys =>
          obtain ⟨same, covered⟩ := Bool.and_eq_true_iff.mp covered
          obtain ⟨below', split, known⟩ := ih covered admitted
          exact ⟨below', by rw [← of_decide_eq_true same, List.cons_append, split, List.cons_append], known⟩

def Symbol.terminal? : Symbol → Option Terminal
  | .terminal t _ => some t
  | .nonterminal _ => none

def Symbol.nonterminal? : Symbol → Option Nonterminal
  | .terminal _ _ => none
  | .nonterminal n => some n

theorem looks_covered : ∀ n ∈ Nonterminal.all, ∀ body ∈ n.bodies, ∀ cut ∈ cuts body, ∀ m ∈ cut.2.1.nonterminal?,
    ∀ look ∈ n.looks, ∃ look' ∈ m.looks, covers look.2 look'.2 (cut.1.reverse ++ look.1) look'.1 = true := by
  decide +kernel

theorem Expects.seen {σ : List Symbol} {n : Nonterminal} (expects : Expects σ n) : ∃ look ∈ n.looks, Seen look σ := by
  induction expects with
  | start => exact ⟨([], .empty), .head _, [], rfl, by rintro _ ⟨⟩⟩
  | @part σ n m rule front back _ member split ih =>
      obtain ⟨look, listed, below, rfl, admitted⟩ := ih
      have cut := split ▸ mem_cuts front (.nonterminal m) back
      obtain ⟨look', listed', covered⟩ :=
        looks_covered n n.mem_all rule.body (Rule.body_mem member) _ cut m rfl look listed
      exact ⟨look', listed', seen_of_covers covered ⟨below, (List.append_assoc _ _ _).symm, admitted⟩⟩

def beforeTerminals : List (Look × Terminal) :=
  Nonterminal.all.flatMap fun n => n.bodies.flatMap fun body => (cuts body).flatMap fun cut =>
    cut.2.1.terminal?.toList.flatMap fun t => n.looks.map fun look => ((cut.1.reverse ++ look.1, look.2), t)

theorem Shiftable.seen {σ : List Symbol} {t : Terminal} {after : Context} (shiftable : Shiftable σ t after) :
    ∃ look, (look, t) ∈ beforeTerminals ∧ Seen look σ := by
  obtain ⟨below, n, rule, front, back, expects, member, split, rfl⟩ := shiftable
  obtain ⟨look, listed, rest, rfl, admitted⟩ := expects.seen
  have cut := split ▸ mem_cuts front (.terminal t after) back
  refine ⟨(front.reverse ++ look.1, look.2), ?_, rest, (List.append_assoc _ _ _).symm, admitted⟩
  refine List.mem_flatMap.mpr ⟨n, n.mem_all, List.mem_flatMap.mpr ⟨rule.body, Rule.body_mem member, ?_⟩⟩
  exact List.mem_flatMap.mpr ⟨_, cut, List.mem_flatMap.mpr ⟨t, .head _, List.mem_map_of_mem listed⟩⟩

-- The conflicts of the grammar: where a phrase may end before a terminal that can be shifted, the phrase could go on
-- with it. A series always ends before a parenthesis, so other terminals do not count behind it.
theorem conflicts_extend : ∀ m ∈ Nonterminal.all, ∀ body ∈ m.bodies, ∀ look ∈ m.looks, ∀ shift ∈ beforeTerminals,
    meets look.2 shift.1.2 (body.reverse ++ look.1) shift.1.1 = true →
      shift.2 ∈ m.extensions body ∨ m ∈ Series.all.map .series ∧ shift.2 ≠ .rightParen := by
  decide +kernel

theorem Expects.extends {σ : List Symbol} {n : Nonterminal} {rule : Rule n} {t : Terminal} {after : Context}
    (expects : Expects σ n) (member : rule ∈ n.rules) (shiftable : Shiftable (rule.body.reverse ++ σ) t after) :
    t ∈ n.extensions rule.body ∨ (∃ k, n = .series k) ∧ t ≠ .rightParen := by
  obtain ⟨look, listed, rest, rfl, admitted⟩ := expects.seen
  obtain ⟨look', listed', seen⟩ := shiftable.seen
  have own : Seen (rule.body.reverse ++ look.1, look.2) (rule.body.reverse ++ (look.1 ++ rest)) :=
    ⟨rest, (List.append_assoc _ _ _).symm, admitted⟩
  rcases conflicts_extend n n.mem_all _ (Rule.body_mem member) look listed _ listed' (meets_of_seen own seen) with
    extended | ⟨series, other⟩
  · exact .inl extended
  · obtain ⟨k, _, same⟩ := List.mem_map.mp series
    exact .inr ⟨⟨k, same.symm⟩, other⟩

theorem series_closed : ∀ n ∈ Nonterminal.all, ∀ body ∈ n.bodies, ∀ cut ∈ cuts body, ∀ m ∈ cut.2.1.nonterminal?,
    m ∈ Series.all.map .series → cut.2.2.head?.bind Symbol.terminal? = some .rightParen := by
  decide +kernel

theorem closed_behind_series {n : Nonterminal} {rule : Rule n} {front back : List Symbol} {k : Series}
    (member : rule ∈ n.rules) (split : rule.body = front ++ .nonterminal (.series k) :: back) :
    ∃ after back', back = .terminal .rightParen after :: back' := by
  have cut := split ▸ mem_cuts front (.nonterminal (.series k)) back
  have series : Nonterminal.series k ∈ Series.all.map .series := by cases k <;> decide
  have closed := series_closed n n.mem_all _ (Rule.body_mem member) _ cut _ rfl series
  cases back with
  | nil => cases closed
  | cons x back =>
      cases x with
      | nonterminal _ => cases closed
      | terminal t after =>
          cases closed
          exact ⟨after, back, rfl⟩

theorem Derives.firstOf_terminal {t : Terminal} {after : Context} {body : List Symbol} {v : List Shifted}
    {next : Option Terminal} {vs : Values (.terminal t after :: body)}
    (derives : Derives (.terminal t after :: body) v next vs) : firstOf v next = some t := by
  cases derives with
  | shift same _ => exact congrArg some same

theorem Derives.steps {body : List Symbol} {v : List Shifted} {next : Option Terminal} {vs : Values body}
    (derives : Derives body v next vs) {σ front : List Symbol} {n : Nonterminal} {rule : Rule n} {stack : List StackEntry}
    {w : List Shifted} (expects : Expects σ n) (member : rule ∈ n.rules) (split : rule.body = front ++ body)
    (top : symbolsOf stack = front.reverse ++ σ) (behind : firstOf w none = next) :
    Steps (stack, v ++ w) (push body vs stack, w) := by
  induction derives generalizing σ front n stack w with
  | nil => exact .refl
  | @shift t after body found u next vs same _ ih =>
      have shiftable : Shiftable (symbolsOf stack) found.terminal after :=
        ⟨σ, n, rule, front, body, expects, member, same ▸ split, top⟩
      subst same
      have split' := split.trans (List.append_cons front _ body)
      exact .head (.shift shiftable) (ih expects member split' (by simp [top]) behind)
  | @reduce m rule' body u v next inner vs member' _ ends rest ih ih' =>
      have expects' : Expects (symbolsOf stack) m := top ▸ .part expects member split
      have behind' : firstOf (v ++ w) none = firstOf v next := by rw [firstOf_append, behind]
      have settled : ∀ t after, firstOf (v ++ w) none = some t →
          ¬ Shiftable (symbolsOf (push rule'.body inner stack)) t after := by
        intro t after first shiftable
        rw [symbolsOf_push] at shiftable
        rcases expects'.extends member' shiftable with extended | ⟨⟨k, rfl⟩, other⟩
        · exact ends t (behind' ▸ first) extended
        · obtain ⟨_, _, rfl⟩ := closed_behind_series member split
          exact other (Option.some.inj (first.symm.trans (behind'.trans rest.firstOf_terminal)))
      have phrase := ih expects' member' (List.nil_append _).symm rfl behind'
      have split' := split.trans (List.append_cons front _ body)
      rw [List.append_assoc]
      exact phrase.trans (.head (.reduce expects' member' settled) (ih' expects member split' (by simp [top]) behind))

theorem steps_of_derives {u : List Shifted} {es : List Expr}
    (derives : Derives [.nonterminal (.series .items)] u none (es, ())) :
    Steps ([], u) ([⟨.nonterminal (.series .items), es⟩], []) := by
  cases derives with
  | @reduce _ rule _ u _ _ inner _ member derives _ last =>
      cases last
      have phrase : Steps ([], u ++ []) (push rule.body inner [], []) :=
        derives.steps .start member (List.nil_append _).symm rfl rfl
      exact phrase.trans (.single (.reduce .start member (by rintro _ _ ⟨⟩)))

theorem steps_iff_derives {u : List Shifted} {es : List Expr} :
    Steps ([], u) ([⟨.nonterminal (.series .items), es⟩], []) ↔
      Derives [.nonterminal (.series .items)] u none (es, ()) :=
  ⟨derives_of_steps, steps_of_derives⟩

end Conflicts

theorem accepted_iff_derivable {source : String} {terminals : List Located} {program : Expr} :
    AcceptedByShifting source terminals program ↔ Derivable source terminals program := by
  simp only [AcceptedByShifting, Derivable, steps_iff_derives]

theorem read_iff_accepted {source : String} {terminals : List Located} {program : Expr} :
    read source = .ok (program, terminals) ↔ AcceptedByShifting source terminals program :=
  read_iff_derivable.trans accepted_iff_derivable.symm

end Trampoline.Grammar
