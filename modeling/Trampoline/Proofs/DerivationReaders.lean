import Trampoline.Proofs.GrammarDerivations

set_option autoImplicit false

namespace Trampoline.Grammar

open Phrase (Level)

def Series.reader (bound : Nat) : (k : Series) → Reader k.Element
  | .items => expression bound
  | .arguments => expression bound
  | .parameters => param
  | .definitions => binding (expression bound)

inductive Sequel (k : Series) : State → List k.Element → State → Nat → Prop where
  | nil {s : State} : Sequel k s [] s 0
  | cons {s again behind s' : State} {x : k.Element} {xs : List k.Element} {i j : Nat} :
      s.take k.separator k.context = .ok again →
        (∀ bound, 4 * i ≤ bound → k.reader bound again = .ok (x, behind)) →
          Sequel k behind xs s' j → Sequel k s (x :: xs) s' (i + j + 1)

theorem Sequel.snoc {k : Series} {s mid again s' : State} {xs : List k.Element} {x : k.Element} {i j : Nat}
    (sequel : Sequel k s xs mid j) (taken : mid.take k.separator k.context = .ok again)
    (read : ∀ bound, 4 * i ≤ bound → k.reader bound again = .ok (x, s')) :
    Sequel k s (List.append xs [x]) s' (j + i + 1) := by
  induction sequel with
  | nil =>
      have only : Sequel k _ [x] s' (i + 0 + 1) := .cons taken read .nil
      simpa using only
  | @cons _ _ _ _ _ _ i' j' taken' read' _ ih =>
      have more := Sequel.cons taken' read' (ih taken)
      rwa [show i' + (j' + i + 1) + 1 = i' + j' + 1 + i + 1 by omega] at more

-- An operand and the operators behind it, up to where an expression of some level ends. A reader of operators
-- whose floor is low enough comes to the same end; four units of its bound for each terminal are enough.
def Climbs (rank floor : Nat) (s : State) (e : Expr) (s' : State) (j : Nat) : Prop :=
  ∃ first mid m, m < j ∧ (∀ bound, 4 * j ≤ bound + 2 → operand bound s = .ok (first, mid)) ∧
    (∀ low bound r, low < rank → 4 * j ≤ bound + 3 → operators (bound - m) e low s' = .ok r →
      operators bound first low mid = .ok r) ∧
    Clear floor s'

def Calls (s : State) (e : Expr) (s' : State) (j : Nat) : Prop :=
  ∃ first mid m, m < j ∧ (∀ bound, 4 * j ≤ bound + 3 → atom bound s = .ok (first, mid)) ∧
    ∀ bound r, 4 * j ≤ bound + 3 → calls (bound - m) e s' = .ok r → calls bound first mid = .ok r

def IsAtom (s : State) (e : Expr) (s' : State) (j : Nat) : Prop :=
  0 < j ∧ ∀ bound, 4 * j ≤ bound + 3 → atom bound s = .ok (e, s')

-- What the readers do with a phrase of some terminals.
def ReadAs : (n : Nonterminal) → State → n.Value → State → Nat → Prop
  | .series .items, s, es, s', j =>
      s'.terminal? = none → ∀ bound, 4 * j + 1 ≤ bound → sequence bound s = .ok (es, s')
  | .series k, s, xs, s', j => s'.terminal? = some .rightParen → ∀ bound, 4 * j + 2 ≤ bound →
      itemsFrom .rightParen k.separator k.context (k.reader bound) bound s = .ok (xs, s')
  | .more k, s, xs, s', j => Sequel k s xs s' j
  | .expression, s, e, s', j => ∀ bound, 4 * j ≤ bound → expression bound s = .ok (e, s')
  | .level .call, s, e, s', j => Calls s e s' j
  | .level l, s, e, s', j => Climbs l.rank l.rank s e s' j
  | .atom, s, e, s', j => IsAtom s e s' j
  | .block, s, e, s', j =>
      s.terminal? = some .leftBrace ∧ 0 < j ∧
        ∀ bound, 4 * j ≤ bound + 4 → block (expression bound) bound s = .ok (e, s')
  | .conditional, s, e, s', j => IsAtom s e s' j
  | .function, s, e, s', j => IsAtom s e s' j
  | .letForm, s, e, s', j => IsAtom s e s' j
  | .namedLet, s, e, s', j => IsAtom s e s' j
  | .definition, s, b, s', j => ∀ bound, 4 * j ≤ bound → binding (expression bound) s = .ok (b, s')

def ReadAll : (body : List Symbol) → State → Values body → State → Nat → Prop
  | [], s, _, s', j => s' = s ∧ j = 0
  | .terminal t after :: body, s, vs, s', j =>
      ∃ mid i, s.ahead = .terminal vs.1 ∧ s.take t after = .ok mid ∧ ReadAll body mid vs.2 s' i ∧ j = i + 1
  | .nonterminal n :: body, s, vs, s', j =>
      ∃ mid i i', ReadAs n s vs.1 mid i ∧ ReadAll body mid vs.2 s' i' ∧ j = i + i'

section Levels

variable {s mid s' : State} {e : Expr} {j : Nat} {l next : Level}

theorem loose_of_clear {floor : Nat} (clear : Clear floor s) : levelAbove? floor s.ahead = none := by
  have low := clear.2
  unfold State.terminal? at low
  cases ahead : s.ahead with
  | ended last => rfl
  | terminal found =>
      rw [ahead] at low
      cases known : precedence? found.terminal with
      | none => simp [levelAbove?, known]
      | some n =>
          have le := low _ n rfl known
          simp [levelAbove?, known, Option.filter, Nat.not_lt.mpr le]

theorem readAs_level (step : l.tighter? = some next) :
    ReadAs (.level l) s e s' j ↔ Climbs l.rank l.rank s e s' j := by
  cases l <;> cases step <;> rfl

theorem Calls.climbs (calls : Calls s e s' j) (closed : s'.terminal? ≠ some .leftParen) :
    Climbs Level.call.rank Level.product.rank s e s' j := by
  obtain ⟨first, mid, m, fewer, atoms, rest⟩ := calls
  refine ⟨e, s', 0, by omega, ?_, fun low bound r _ _ read => read, closed, ?_⟩
  · intro bound enough
    obtain ⟨bound, rfl⟩ : ∃ k, bound = k + 1 := ⟨bound - 1, by omega⟩
    obtain ⟨left, more⟩ : ∃ k, bound - m = k + 1 := ⟨bound - m - 1, by omega⟩
    have stop : Grammar.calls (bound - m) e s' = .ok (e, s') := by
      rw [more]
      exact calls_ok.mpr (.inl ⟨closed, rfl, rfl⟩)
    exact operand_ok.mpr ⟨first, mid, atoms bound (by omega), rest bound _ (by omega) stop⟩
  · intro t n _ known
    obtain ⟨l, operator, rfl⟩ := (precedence?_iff_operator t n).mp known
    cases l <;> first
      | decide
      | cases operator

theorem climbs_of_read (step : l.tighter? = some next) (read : ReadAs (.level next) s e s' j)
    (ends : ∀ t, s'.terminal? = some t → t ∉ (Nonterminal.level next).continuations [Rule.level next]) :
    Climbs next.rank l.rank s e s' j := by
  simp only [continuations_level] at ends
  cases tighter : next.tighter? with
  | none =>
      cases l <;> cases step <;> first
        | exact Calls.climbs read fun here => ends _ here (.inr ⟨rfl, rfl⟩)
        | cases tighter
  | some tight =>
      obtain ⟨first, mid, m, fewer, operands, rest, clear⟩ := (readAs_level tighter).mp read
      refine ⟨first, mid, m, fewer, operands, rest, clear.1, ?_⟩
      intro t n here known
      have le := clear.2 t n here known
      obtain ⟨middle, operator, rfl⟩ := (precedence?_iff_operator t n).mp known
      refine Nat.le_of_not_lt fun above => ?_
      cases Level.rank_injective (Nat.le_antisymm le (Level.rank_tighter step above))
      exact ends t here (.inl operator)

theorem Climbs.operation {left right : Expr} {next' : State} {i i' : Nat} {found : Located} {t : Terminal}
    (step : l.tighter? = some next) (operator : l.operator? = some t) (first : Climbs l.rank l.rank s left mid i)
    (ahead : mid.ahead = .terminal found) (taken : mid.take t .operand = .ok next')
    (second : Climbs next.rank l.rank next' right s' i') :
    Climbs l.rank l.rank s (combine found.terminal found.text left right) s' (i + (i' + 1)) := by
  obtain ⟨a, behind, m, fewer, operands, rest, _⟩ := first
  obtain ⟨a', behind', m', fewer', operands', rest', clear⟩ := second
  obtain ⟨here, shifted⟩ := State.take_ok.mp taken
  have same : found.terminal = t := by simpa [State.terminal?, ahead] using here
  refine ⟨a, behind, m + 1, by omega, fun bound enough => operands bound (by omega), ?_, clear⟩
  intro low bound r below enough last
  refine rest low bound r below (by omega) ?_
  obtain ⟨left', more⟩ : ∃ k, bound - m = k + 1 := ⟨bound - m - 1, by omega⟩
  have known : precedence? found.terminal = some l.rank :=
    (precedence?_iff_operator _ _).mpr ⟨l, same ▸ operator, rfl⟩
  have stop : operators (left' - m') right l.rank s' = .ok (right, s') := by
    obtain ⟨k, more'⟩ : ∃ k, left' - m' = k + 1 := ⟨left' - m' - 1, by omega⟩
    rw [more']
    exact operators_stop (loose_of_clear clear)
  rw [more]
  refine (operators_go ahead known below).mpr ⟨next', a', behind', right, s', shifted, operands' left' (by omega),
    rest' l.rank left' _ (Level.rank_lt_tighter step) (by omega) stop, ?_⟩
  rwa [show bound - (m + 1) = left' by omega] at last

theorem read_operation (step : l.tighter? = some next) {t : Terminal} (operator : l.operator? = some t)
    {rule : Rule (.level l)} {vs : Values rule.body} (member : rule ∈ (Nonterminal.level l).rules)
    (parts : ReadAll rule.body s vs s' j)
    (ends : ∀ t, s'.terminal? = some t → t ∉ (Nonterminal.level l).extensions rule.body) :
    ReadAs (.level l) s (rule.build vs) s' j := by
  refine (readAs_level step).mpr ?_
  rw [rules_operator step operator] at member
  have last := extensions_level step operator
  rcases List.mem_cons.mp member with rfl | member
  · obtain ⟨mid, i, _, first, ⟨next', _, ahead, taken, ⟨_, i', _, second, ⟨rfl, rfl⟩, rfl⟩, rfl⟩, rfl⟩ := parts
    have build : (Rule.operation l t next).build vs = combine vs.2.1.terminal vs.2.1.text vs.1 vs.2.2.1 := by
      have same : vs.2.1.terminal = t := by
        simpa [State.terminal?, ahead] using (State.take_ok.mp taken).1
      rw [same, ← apply_eq_combine operator]
      rfl
    rw [build]
    exact ((readAs_level step).mp first).operation step operator ahead taken
      (climbs_of_read step second (last.2 ▸ ends))
  · obtain rfl := List.mem_singleton.mp member
    obtain ⟨_, i, _, only, ⟨rfl, rfl⟩, rfl⟩ := parts
    obtain ⟨first, mid, m, fewer, operands, rest, clear⟩ := climbs_of_read step only (last.1 ▸ ends)
    exact ⟨first, mid, m, fewer, operands,
      fun low bound r below => rest low bound r (Nat.lt_trans below (Level.rank_lt_tighter step)), clear⟩

end Levels

section Lists

variable {k : Series} {s mid s' : State} {j : Nat}

theorem word_of_ahead {found : Located} (ahead : s.ahead = .terminal found) : word s = String.ofList found.text := by
  simp [word, State.text, ahead]

theorem read_element {body : List Symbol} {vs : Values (k.element :: body)}
    (parts : ReadAll (k.element :: body) s vs s' j) :
    ∃ mid i i', (∀ bound, 4 * i ≤ bound → k.reader bound s = .ok (k.value vs.1, mid)) ∧
      ReadAll body mid vs.2 s' i' ∧ j = i + i' := by
  cases k with
  | items => exact parts
  | arguments => exact parts
  | parameters =>
      obtain ⟨mid, i, ahead, taken, rest, rfl⟩ := parts
      exact ⟨mid, 1, i, fun _ _ => param_ok.mpr ⟨taken, (word_of_ahead ahead).symm⟩, rest, Nat.add_comm i 1⟩
  | definitions => exact parts

theorem read_more {rule : Rule (.more k)} {vs : Values rule.body} (member : rule ∈ (Nonterminal.more k).rules)
    (parts : ReadAll rule.body s vs s' j) : ReadAs (.more k) s (rule.build vs) s' j := by
  rcases List.mem_cons.mp member with rfl | member
  · obtain ⟨mid, _, _, taken, parts, rfl⟩ := parts
    obtain ⟨_, i, _, read, ⟨rfl, rfl⟩, rfl⟩ := read_element parts
    exact Sequel.cons taken read .nil
  · obtain rfl := List.mem_singleton.mp member
    obtain ⟨mid, i, _, first, ⟨_, _, _, taken, parts, rfl⟩, rfl⟩ := parts
    obtain ⟨_, i', _, read, ⟨rfl, rfl⟩, rfl⟩ := read_element parts
    exact Sequel.snoc first taken read

inductive Spread (k : Series) : State → List k.Element → State → Nat → Prop where
  | last {s s' : State} {x : k.Element} {i : Nat} :
      (∀ bound, 4 * i ≤ bound → k.reader bound s = .ok (x, s')) → Spread k s [x] s' i
  | marked {s mid s' : State} {x : k.Element} {i : Nat} :
      (∀ bound, 4 * i ≤ bound → k.reader bound s = .ok (x, mid)) → mid.take k.separator k.context = .ok s' →
        Spread k s [x] s' (i + 1)
  | more {s mid again s' : State} {x : k.Element} {xs : List k.Element} {i j : Nat} :
      (∀ bound, 4 * i ≤ bound → k.reader bound s = .ok (x, mid)) → mid.take k.separator k.context = .ok again →
        Spread k again xs s' j → Spread k s (x :: xs) s' (i + (j + 1))

theorem Sequel.spread {x : k.Element} {xs : List k.Element} {i : Nat} (sequel : Sequel k mid xs s' j)
    (read : ∀ bound, 4 * i ≤ bound → k.reader bound s = .ok (x, mid)) :
    Spread k s (x :: xs) s' (i + j) ∧
      ∀ last, s'.take k.separator k.context = .ok last → Spread k s (x :: xs) last (i + (j + 1)) := by
  induction sequel generalizing s x i with
  | nil => exact ⟨.last read, fun last taken => .marked read taken⟩
  | cons taken read' _ ih =>
      obtain ⟨plain, marked⟩ := ih read'
      exact ⟨.more read taken plain, fun last taken' => .more read taken (marked last taken')⟩

theorem spread_of_form {rule : Rule (.series k)} {vs : Values rule.body} (member : rule ∈ Rule.series k)
    (parts : ReadAll rule.body s vs s' j) : Spread k s (rule.build vs) s' j := by
  simp only [Rule.series, List.mem_cons, List.not_mem_nil, or_false] at member
  rcases member with rfl | rfl | rfl | rfl
  · obtain ⟨_, _, _, read, ⟨rfl, rfl⟩, rfl⟩ := read_element parts
    exact .last read
  · obtain ⟨mid, i, _, read, ⟨_, _, _, taken, ⟨rfl, rfl⟩, rfl⟩, rfl⟩ := read_element parts
    exact .marked read taken
  · obtain ⟨mid, i, _, read, ⟨_, _, _, sequel, ⟨rfl, rfl⟩, rfl⟩, rfl⟩ := read_element parts
    exact (Sequel.spread sequel read).1
  · obtain ⟨mid, i, _, read, ⟨_, _, _, sequel, ⟨_, _, _, taken, ⟨rfl, rfl⟩, rfl⟩, rfl⟩, rfl⟩ := read_element parts
    exact (Sequel.spread sequel read).2 _ taken

theorem Spread.length_le {xs : List k.Element} (spread : Spread k s xs s' j) : xs.length ≤ j + 1 := by
  induction spread with
  | last _ => simp
  | marked _ _ => simp
  | more _ _ _ ih =>
      rw [List.length_cons]
      omega

end Lists

section Enumerations

variable {k : Series} {s mid s' : State} {bound i j : Nat}

theorem atom_opens {e : Expr} (read : atom bound s = .ok (e, s')) :
    s.terminal? ≠ none ∧ s.terminal? ≠ some .rightParen ∧ s.terminal? ≠ some .rightBrace := by
  cases bound with
  | zero => cases read
  | succ bound =>
      refine ⟨fun here => ?_, fun here => ?_, fun here => ?_⟩
      · rw [atom, atomForm, here] at read
        exact unexpected_ne _ _ read
      · rw [atom, atomForm, here] at read
        exact unexpected_ne _ _ read
      · rw [atom, atomForm, here] at read
        exact unexpected_ne _ _ read

theorem expression_opens {e : Expr} (read : expression bound s = .ok (e, s')) :
    s.terminal? ≠ none ∧ s.terminal? ≠ some .rightParen ∧ s.terminal? ≠ some .rightBrace := by
  cases bound with
  | zero => cases read
  | succ bound =>
      obtain ⟨_, _, first, _⟩ := expression_ok.mp read
      cases bound with
      | zero => cases first
      | succ bound =>
          obtain ⟨_, _, first, _⟩ := operand_ok.mp first
          exact atom_opens first

theorem element_opens {x : k.Element} (read : k.reader bound s = .ok (x, s')) :
    s.terminal? ≠ some .rightParen ∧ s.terminal? ≠ some .rightBrace := by
  cases k with
  | items => exact (expression_opens read).2
  | arguments => exact (expression_opens read).2
  | parameters =>
      have here := (State.take_ok.mp (param_ok.mp read).1).1
      rw [here]
      decide
  | definitions =>
      obtain ⟨_, _, _, taken, _⟩ := binding_ok.mp read
      rw [(State.take_ok.mp taken).1]
      decide

theorem closing_not_first {stop : Terminal} {x : k.Element} (closing : stop = .rightParen ∨ stop = .rightBrace)
    (read : k.reader bound s = .ok (x, s')) : s.terminal? ≠ some stop := by
  have starts := element_opens read
  rcases closing with rfl | rfl
  · exact starts.1
  · exact starts.2

theorem Spread.listed {stop : Terminal} {xs : List k.Element} (closing : stop = .rightParen ∨ stop = .rightBrace)
    (spread : Spread k s xs s' j) (stops : s'.terminal? = some stop) (enough : 4 * j ≤ bound) :
    Listed stop k.separator k.context (k.reader bound) s xs s' := by
  induction spread with
  | last read =>
      have first := read bound enough
      exact .last (closing_not_first closing first) first stops
  | marked read taken =>
      have first := read bound (by omega)
      obtain ⟨separated, shifted⟩ := State.take_ok.mp taken
      exact .more (closing_not_first closing first) first separated shifted (.none stops)
  | more read taken _ ih =>
      have first := read bound (by omega)
      obtain ⟨separated, shifted⟩ := State.take_ok.mp taken
      exact .more (closing_not_first closing first) first separated shifted (ih stops (by omega))

theorem Spread.items {stop : Terminal} {xs : List k.Element} (closing : stop = .rightParen ∨ stop = .rightBrace)
    (spread : Spread k s xs s' j) (stops : s'.terminal? = some stop) (enough : 4 * j + 2 ≤ bound) :
    itemsFrom stop k.separator k.context (k.reader bound) bound s = .ok (xs, s') := by
  have apart : k.separator ≠ stop := by cases k <;> rcases closing with rfl | rfl <;> decide
  have short := spread.length_le
  exact itemsFrom_of_listed apart (spread.listed closing stops (by omega)) (by omega)

theorem Spread.sequence {es : List Series.items.Element} (spread : Spread .items s es s' j) (ended : s'.terminal? = none)
    (enough : 4 * j + 1 ≤ bound) : sequence bound s = .ok (es, s') := by
  induction spread generalizing bound with
  | last read =>
      obtain ⟨bound, rfl⟩ : ∃ b, bound = b + 1 := ⟨bound - 1, by omega⟩
      have first := read bound (by omega)
      exact sequence_ok.mpr (.inr ⟨_, _, (expression_opens first).1, first, .inl ⟨ended, rfl, rfl⟩⟩)
  | @marked _ _ s' _ _ read taken =>
      obtain ⟨bound, rfl⟩ : ∃ b, bound = b + 2 := ⟨bound - 2, by omega⟩
      have first := read (bound + 1) (by omega)
      have rest : Grammar.sequence (bound + 1) s' = .ok ([], s') := sequence_ok.mpr (.inl ⟨ended, rfl, rfl⟩)
      exact sequence_ok.mpr (.inr ⟨_, _, (expression_opens first).1, first, .inr ⟨_, _, taken, rest, rfl⟩⟩)
  | more read taken _ ih =>
      obtain ⟨bound, rfl⟩ : ∃ b, bound = b + 1 := ⟨bound - 1, by omega⟩
      have first := read bound (by omega)
      have rest := ih ended (by omega : _ ≤ bound)
      exact sequence_ok.mpr (.inr ⟨_, _, (expression_opens first).1, first, .inr ⟨_, _, taken, rest, rfl⟩⟩)

theorem read_series {rule : Rule (.series k)} {vs : Values rule.body} (member : rule ∈ (Nonterminal.series k).rules)
    (parts : ReadAll rule.body s vs s' j) : ReadAs (.series k) s (rule.build vs) s' j := by
  cases k with
  | items =>
      intro ended bound enough
      rcases List.mem_cons.mp member with rfl | member
      · obtain ⟨rfl, rfl⟩ := parts
        obtain ⟨bound, rfl⟩ : ∃ b, bound = b + 1 := ⟨bound - 1, by omega⟩
        exact sequence_ok.mpr (.inl ⟨ended, rfl, rfl⟩)
      · exact (spread_of_form member parts).sequence ended enough
  | _ => exact fun stops bound enough => (spread_of_form member parts).items (.inl rfl) stops enough

end Enumerations

section Forms

variable {s mid s' : State} {i j : Nat}

theorem read_expression {rule : Rule .expression} {vs : Values rule.body}
    (member : rule ∈ Nonterminal.expression.rules) (parts : ReadAll rule.body s vs s' j)
    (ends : ∀ t, s'.terminal? = some t → t ∉ Nonterminal.expression.extensions rule.body) :
    ReadAs .expression s (rule.build vs) s' j := by
  obtain rfl := List.mem_singleton.mp member
  obtain ⟨_, _, _, only, ⟨rfl, rfl⟩, rfl⟩ := parts
  obtain ⟨first, mid, m, fewer, operands, rest, clear⟩ := only
  have clear' : Clear 0 s' := by
    refine ⟨clear.1, fun t n here known => ?_⟩
    have le := clear.2 t n here known
    obtain ⟨l, operator, rfl⟩ := (precedence?_iff_operator t n).mp known
    cases Level.rank_injective (Nat.le_antisymm le l.rank_pos)
    exact absurd ((continuations_level .assignment t).mpr (.inl operator)) (ends t here)
  intro bound enough
  obtain ⟨bound, rfl⟩ : ∃ b, bound = b + 1 := ⟨bound - 1, by omega⟩
  refine expression_ok.mpr ⟨first, mid, operands bound (by omega), rest 0 bound _ (by decide) (by omega) ?_⟩
  obtain ⟨k, more⟩ : ∃ k, bound - m = k + 1 := ⟨bound - m - 1, by omega⟩
  rw [more]
  exact operators_stop (loose_of_clear clear')

theorem Calls.call {func : Expr} {args : List Expr} (callee : Calls s func mid i) (some : 2 ≤ j)
    (read : ∀ bound, 4 * j ≤ bound → arguments (expression bound) bound mid = .ok (args, s')) :
    Calls s (.call func args) s' (i + j) := by
  obtain ⟨first, behind, m, fewer, atoms, rest⟩ := callee
  refine ⟨first, behind, m + 1, by omega, fun bound enough => atoms bound (by omega), ?_⟩
  intro bound r enough last
  refine rest bound r (by omega) ?_
  obtain ⟨k, more⟩ : ∃ k, bound - m = k + 1 := ⟨bound - m - 1, by omega⟩
  rw [show bound - (m + 1) = k by omega] at last
  rw [more]
  exact calls_ok.mpr (.inr ⟨args, s', read k (by omega), last⟩)

theorem read_calls {rule : Rule (.level .call)} {vs : Values rule.body}
    (member : rule ∈ (Nonterminal.level .call).rules) (parts : ReadAll rule.body s vs s' j) :
    ReadAs (.level .call) s (rule.build vs) s' j := by
  simp only [Nonterminal.rules, Rule.calls, List.mem_cons, List.not_mem_nil, or_false] at member
  rcases member with rfl | rfl | rfl
  · obtain ⟨mid, i, _, callee, ⟨opened, _, _, taken, ⟨_, _, _, taken', ⟨rfl, rfl⟩, rfl⟩, rfl⟩, rfl⟩ := parts
    refine Calls.call callee (by omega) fun bound enough => arguments_ok.mpr ⟨opened, opened, taken, ?_, taken'⟩
    have stop := (State.take_ok.mp taken').1
    exact itemsFrom_of_listed (by decide) (.none stop) (by simp; omega)
  · obtain ⟨mid, i, _, callee, ⟨opened, _, _, taken, ⟨inner, i', _, args, ⟨_, _, _, taken', ⟨rfl, rfl⟩, rfl⟩, rfl⟩, rfl⟩,
      rfl⟩ := parts
    refine Calls.call callee (by omega) fun bound enough => arguments_ok.mpr ⟨opened, inner, taken, ?_, taken'⟩
    exact args (State.take_ok.mp taken').1 bound (by omega)
  · obtain ⟨_, _, _, ⟨positive, read⟩, ⟨rfl, rfl⟩, rfl⟩ := parts
    exact ⟨_, _, 0, positive, read, fun bound r _ last => last⟩

theorem block_of_spread {opened inner : State} {es : List Series.items.Element}
    (taken : s.take .leftBrace .operand = .ok opened) (spread : Spread .items opened es inner i)
    (taken' : inner.take .rightBrace .afterOperand = .ok s') : ReadAs .block s (.block es) s' (i + 1 + 1) := by
  refine ⟨(State.take_ok.mp taken).1, by omega, fun bound enough => ?_⟩
  have items := spread.items (.inr rfl) (State.take_ok.mp taken').1 (by omega : 4 * i + 2 ≤ bound)
  exact block_ok.mpr ⟨es, opened, inner, taken, items, taken', rfl⟩

theorem read_blocks {rule : Rule .block} {vs : Values rule.body} (member : rule ∈ Nonterminal.block.rules)
    (parts : ReadAll rule.body s vs s' j) : ReadAs .block s (rule.build vs) s' j := by
  simp only [Nonterminal.rules, Rule.blocks, List.mem_cons, List.not_mem_nil, or_false] at member
  rcases member with rfl | rfl | rfl | rfl | rfl
  · obtain ⟨opened, _, _, taken, ⟨_, _, _, taken', ⟨rfl, rfl⟩, rfl⟩, rfl⟩ := parts
    refine ⟨(State.take_ok.mp taken).1, by omega, fun bound enough => ?_⟩
    have items : itemsFrom .rightBrace .semicolon .operand (expression bound) bound opened = .ok ([], opened) :=
      itemsFrom_of_listed (by decide) (.none (State.take_ok.mp taken').1) (by simp; omega)
    exact block_ok.mpr ⟨[], opened, opened, taken, items, taken', rfl⟩
  · obtain ⟨opened, _, _, taken, ⟨inner, i, _, read, ⟨_, _, _, taken', ⟨rfl, rfl⟩, rfl⟩, rfl⟩, rfl⟩ := parts
    exact block_of_spread taken (.last read) taken'
  · obtain ⟨opened, _, _, taken, ⟨mid, i, _, read, ⟨inner, _, _, mark, ⟨_, _, _, taken', ⟨rfl, rfl⟩, rfl⟩, rfl⟩, rfl⟩,
      rfl⟩ := parts
    exact block_of_spread taken (.marked read mark) taken'
  · obtain ⟨opened, _, _, taken, ⟨mid, i, _, read, ⟨inner, i', _, sequel, ⟨_, _, _, taken', ⟨rfl, rfl⟩, rfl⟩, rfl⟩, rfl⟩,
      rfl⟩ := parts
    exact block_of_spread taken (Sequel.spread sequel read).1 taken'
  · obtain ⟨opened, _, _, taken, ⟨mid, i, _, read, ⟨last, i', _, sequel, ⟨inner, _, _, mark,
      ⟨_, _, _, taken', ⟨rfl, rfl⟩, rfl⟩, rfl⟩, rfl⟩, rfl⟩, rfl⟩ := parts
    exact block_of_spread taken ((Sequel.spread sequel read).2 _ mark) taken'

theorem read_definition {rule : Rule .definition} {vs : Values rule.body}
    (member : rule ∈ Nonterminal.definition.rules) (parts : ReadAll rule.body s vs s' j) :
    ReadAs .definition s (rule.build vs) s' j := by
  obtain rfl := List.mem_singleton.mp member
  obtain ⟨named, _, ahead, taken, ⟨equals, _, _, taken', ⟨_, _, _, read, ⟨rfl, rfl⟩, rfl⟩, rfl⟩, rfl⟩ := parts
  intro bound enough
  refine binding_ok.mpr ⟨named, equals, _, taken, taken', read bound (by omega), ?_⟩
  rw [word_of_ahead ahead]
  rfl

end Forms

section Atoms

variable {s s' : State} {j : Nat}

theorem isAtom_of_form {e : Expr} (positive : 0 < j)
    (read : ∀ bound, 4 * j ≤ bound + 4 → atomForm (expression bound) bound s = .ok (e, s')) : IsAtom s e s' j := by
  refine ⟨positive, fun bound enough => ?_⟩
  obtain ⟨bound, rfl⟩ : ∃ b, bound = b + 1 := ⟨bound - 1, by omega⟩
  exact read bound (by omega)

theorem read_conditionals {rule : Rule .conditional} {vs : Values rule.body}
    (member : rule ∈ Nonterminal.conditional.rules) (parts : ReadAll rule.body s vs s' j)
    (ends : ∀ t, s'.terminal? = some t → t ∉ Nonterminal.conditional.extensions rule.body) :
    ReadAs .conditional s (rule.build vs) s' j := by
  have made {first after behind : State} {test yes no : Expr} (positive : 0 < j)
      (taken : s.take .if_ .operand = .ok first)
      (read : ∀ bound, 4 * j ≤ bound + 4 → expression bound first = .ok (test, after) ∧
        Branch (expression bound) bound after yes behind ∧ Otherwise (expression bound) behind no s') :
      IsAtom s (.cond test yes no) s' j := by
    refine isAtom_of_form positive fun bound enough => ?_
    obtain ⟨tested, branch, otherwise⟩ := read bound enough
    rw [atomForm, (State.take_ok.mp taken).1]
    exact conditional_ok.mpr ⟨test, yes, no, first, after, behind, taken, tested, branch, otherwise, rfl⟩
  simp only [Nonterminal.rules, Rule.conditionals, List.mem_cons, List.not_mem_nil, or_false] at member
  rcases member with rfl | rfl | rfl | rfl
  · obtain ⟨first, _, _, taken, ⟨after, i, _, tested, ⟨next, _, _, keyword, ⟨_, _, _, read, ⟨rfl, rfl⟩, rfl⟩, rfl⟩, rfl⟩,
      rfl⟩ := parts
    have none : s'.terminal? ≠ some .else_ := fun here => ends _ here (.head _)
    exact made (by omega) taken fun bound enough => ⟨tested bound (by omega),
      .inr ⟨next, keyword, read bound (by omega)⟩, .inr ⟨none, rfl, rfl⟩⟩
  · obtain ⟨first, _, _, taken, ⟨after, i, _, tested, ⟨next, _, _, keyword, ⟨behind, _, _, read,
      ⟨other, _, _, keyword', ⟨_, _, _, last, ⟨rfl, rfl⟩, rfl⟩, rfl⟩, rfl⟩, rfl⟩, rfl⟩, rfl⟩ := parts
    exact made (by omega) taken fun bound enough => ⟨tested bound (by omega),
      .inr ⟨next, keyword, read bound (by omega)⟩, .inl ⟨other, keyword', last bound (by omega)⟩⟩
  · obtain ⟨first, _, _, taken, ⟨after, i, _, tested, ⟨_, _, _, ⟨brace, _, read⟩, ⟨rfl, rfl⟩, rfl⟩, rfl⟩, rfl⟩ := parts
    have none : s'.terminal? ≠ some .else_ := fun here => ends _ here (.head _)
    exact made (by omega) taken fun bound enough => ⟨tested bound (by omega),
      .inl ⟨brace, read bound (by omega)⟩, .inr ⟨none, rfl, rfl⟩⟩
  · obtain ⟨first, _, _, taken, ⟨after, i, _, tested, ⟨behind, _, _, ⟨brace, _, read⟩,
      ⟨other, _, _, keyword', ⟨_, _, _, last, ⟨rfl, rfl⟩, rfl⟩, rfl⟩, rfl⟩, rfl⟩, rfl⟩ := parts
    exact made (by omega) taken fun bound enough => ⟨tested bound (by omega),
      .inl ⟨brace, read bound (by omega)⟩, .inl ⟨other, keyword', last bound (by omega)⟩⟩

theorem selfName_of_opening {opened : State} (start : s.take .leftParen .listItem = .ok opened) :
    selfName s = .ok (none, s) :=
  selfName_ok.mpr (.inr ⟨by rw [(State.take_ok.mp start).1]; decide, rfl, rfl⟩)

theorem selfName_of_ahead {head : State} {found : Located} (ahead : s.ahead = .terminal found)
    (taken : s.take .name .binderOpen = .ok head) : selfName s = .ok (some (String.ofList found.text), head) :=
  selfName_ok.mpr (.inl ⟨taken, by rw [word_of_ahead ahead]⟩)

theorem itemsFrom_closing {α : Type} {item : Reader α} {last : State} {bound : Nat}
    (stop : s.take .rightParen .operand = .ok last) (positive : 0 < bound) :
    itemsFrom .rightParen .comma .listItem item bound s = .ok ([], s) :=
  itemsFrom_of_listed (by decide) (.none (State.take_ok.mp stop).1) positive

theorem read_functions {rule : Rule .function} {vs : Values rule.body} (member : rule ∈ Nonterminal.function.rules)
    (parts : ReadAll rule.body s vs s' j) : ReadAs .function s (rule.build vs) s' j := by
  obtain ⟨t, spelled, member⟩ : ∃ t, (t = .lambda ∨ t = .lambdaSign) ∧ rule ∈ Rule.functions t := by
    rcases List.mem_append.mp member with member | member
    · exact ⟨_, .inl rfl, member⟩
    · exact ⟨_, .inr rfl, member⟩
  have made {first : State} {self : Option String} {params : List String} {body : Expr} (positive : 0 < j)
      (taken : s.take t .binderHead = .ok first)
      (read : ∀ bound, 4 * j ≤ bound + 4 → Bound (expression bound) param bound s self params body s') :
      IsAtom s (.lambda params body self) s' j := by
    refine isAtom_of_form positive fun bound enough => ?_
    have function := function_ok.mpr ⟨self, params, body, read bound enough, rfl⟩
    rw [atomForm, (State.take_ok.mp taken).1]
    rcases spelled with rfl | rfl
    · exact function
    · exact function
  simp only [Rule.functions, List.mem_cons, List.not_mem_nil, or_false] at member
  rcases member with rfl | rfl | rfl | rfl
  · obtain ⟨first, _, _, taken, ⟨opened, _, _, start, ⟨last, _, _, stop, ⟨_, _, _, read, ⟨rfl, rfl⟩, rfl⟩, rfl⟩, rfl⟩,
      rfl⟩ := parts
    exact made (by omega) taken fun bound enough =>
      ⟨first, first, opened, opened, last, (State.take_ok.mp taken).2, selfName_of_opening start, start,
        itemsFrom_closing stop (by omega), stop, read bound (by omega)⟩
  · obtain ⟨first, _, _, taken, ⟨opened, _, _, start, ⟨inner, _, _, params, ⟨last, _, _, stop,
      ⟨_, _, _, read, ⟨rfl, rfl⟩, rfl⟩, rfl⟩, rfl⟩, rfl⟩, rfl⟩ := parts
    exact made (by omega) taken fun bound enough =>
      ⟨first, first, opened, inner, last, (State.take_ok.mp taken).2, selfName_of_opening start, start,
        params (State.take_ok.mp stop).1 bound (by omega), stop, read bound (by omega)⟩
  · obtain ⟨first, _, _, taken, ⟨head, _, ahead, named, ⟨opened, _, _, start, ⟨last, _, _, stop,
      ⟨_, _, _, read, ⟨rfl, rfl⟩, rfl⟩, rfl⟩, rfl⟩, rfl⟩, rfl⟩ := parts
    exact made (by omega) taken fun bound enough =>
      ⟨first, head, opened, opened, last, (State.take_ok.mp taken).2, selfName_of_ahead ahead named, start,
        itemsFrom_closing stop (by omega), stop, read bound (by omega)⟩
  · obtain ⟨first, _, _, taken, ⟨head, _, ahead, named, ⟨opened, _, _, start, ⟨inner, _, _, params, ⟨last, _, _, stop,
      ⟨_, _, _, read, ⟨rfl, rfl⟩, rfl⟩, rfl⟩, rfl⟩, rfl⟩, rfl⟩, rfl⟩ := parts
    exact made (by omega) taken fun bound enough =>
      ⟨first, head, opened, inner, last, (State.take_ok.mp taken).2, selfName_of_ahead ahead named, start,
        params (State.take_ok.mp stop).1 bound (by omega), stop, read bound (by omega)⟩

theorem isAtom_of_let {first : State} {self : Option String} {bindings : List Binding} {body : Expr} (positive : 0 < j)
    (taken : s.take .let_ .binderHead = .ok first)
    (read : ∀ bound, 4 * j ≤ bound + 4 →
      Bound (expression bound) (binding (expression bound)) bound s self bindings body s') :
    IsAtom s (Descent.letExpr self bindings body) s' j := by
  refine isAtom_of_form positive fun bound enough => ?_
  rw [atomForm, (State.take_ok.mp taken).1]
  exact letForm_ok.mpr ⟨self, bindings, body, read bound enough, rfl⟩

theorem read_lets {rule : Rule .letForm} {vs : Values rule.body} (member : rule ∈ Nonterminal.letForm.rules)
    (parts : ReadAll rule.body s vs s' j) : ReadAs .letForm s (rule.build vs) s' j := by
  simp only [Nonterminal.rules, Rule.lets, List.mem_cons, List.not_mem_nil, or_false] at member
  rcases member with rfl | rfl
  · obtain ⟨first, _, _, taken, ⟨opened, _, _, start, ⟨last, _, _, stop, ⟨_, _, _, read, ⟨rfl, rfl⟩, rfl⟩, rfl⟩, rfl⟩,
      rfl⟩ := parts
    exact isAtom_of_let (by omega) taken fun bound enough =>
      ⟨first, first, opened, opened, last, (State.take_ok.mp taken).2, selfName_of_opening start, start,
        itemsFrom_closing stop (by omega), stop, read bound (by omega)⟩
  · obtain ⟨first, _, _, taken, ⟨opened, _, _, start, ⟨inner, _, _, bindings, ⟨last, _, _, stop,
      ⟨_, _, _, read, ⟨rfl, rfl⟩, rfl⟩, rfl⟩, rfl⟩, rfl⟩, rfl⟩ := parts
    exact isAtom_of_let (by omega) taken fun bound enough =>
      ⟨first, first, opened, inner, last, (State.take_ok.mp taken).2, selfName_of_opening start, start,
        bindings (State.take_ok.mp stop).1 bound (by omega), stop, read bound (by omega)⟩

theorem read_namedLets {rule : Rule .namedLet} {vs : Values rule.body} (member : rule ∈ Nonterminal.namedLet.rules)
    (parts : ReadAll rule.body s vs s' j) : ReadAs .namedLet s (rule.build vs) s' j := by
  simp only [Nonterminal.rules, Rule.namedLets, List.mem_cons, List.not_mem_nil, or_false] at member
  rcases member with rfl | rfl
  · obtain ⟨first, _, _, taken, ⟨head, _, ahead, named, ⟨opened, _, _, start, ⟨last, _, _, stop,
      ⟨_, _, _, read, ⟨rfl, rfl⟩, rfl⟩, rfl⟩, rfl⟩, rfl⟩, rfl⟩ := parts
    exact isAtom_of_let (by omega) taken fun bound enough =>
      ⟨first, head, opened, opened, last, (State.take_ok.mp taken).2, selfName_of_ahead ahead named, start,
        itemsFrom_closing stop (by omega), stop, read bound (by omega)⟩
  · obtain ⟨first, _, _, taken, ⟨head, _, ahead, named, ⟨opened, _, _, start, ⟨inner, _, _, bindings,
      ⟨last, _, _, stop, ⟨_, _, _, read, ⟨rfl, rfl⟩, rfl⟩, rfl⟩, rfl⟩, rfl⟩, rfl⟩, rfl⟩ := parts
    exact isAtom_of_let (by omega) taken fun bound enough =>
      ⟨first, head, opened, inner, last, (State.take_ok.mp taken).2, selfName_of_ahead ahead named, start,
        bindings (State.take_ok.mp stop).1 bound (by omega), stop, read bound (by omega)⟩

theorem text_of_ahead {found : Located} (ahead : s.ahead = .terminal found) : s.text = found.text := by
  rw [State.text, ahead]

theorem read_leaf {t : Terminal} {e : Expr} (taken : s.take t .afterOperand = .ok s')
    (form : ∀ bound, atomForm (expression bound) bound s = leaf e s) : IsAtom s e s' 1 :=
  isAtom_of_form (by omega) fun bound _ =>
    (form bound).trans (leaf_ok.mpr ⟨(State.take_ok.mp taken).2, rfl⟩)

theorem read_atoms {rule : Rule .atom} {vs : Values rule.body} (member : rule ∈ Nonterminal.atom.rules)
    (parts : ReadAll rule.body s vs s' j) : ReadAs .atom s (rule.build vs) s' j := by
  simp only [Nonterminal.rules, Rule.atoms, List.mem_cons, List.not_mem_nil, or_false] at member
  rcases member with rfl | rfl | rfl | rfl | rfl | rfl | rfl | rfl | rfl | rfl | rfl
  case inl =>
    obtain ⟨opened, _, _, taken, ⟨inner, _, _, read, ⟨_, _, _, taken', ⟨rfl, rfl⟩, rfl⟩, rfl⟩, rfl⟩ := parts
    refine isAtom_of_form (by omega) fun bound enough => ?_
    rw [atomForm, (State.take_ok.mp taken).1]
    exact group_ok.mpr ⟨opened, inner, taken, read bound (by omega), taken'⟩
  case inr.inl =>
    obtain ⟨_, _, _, ⟨brace, positive, read⟩, ⟨rfl, rfl⟩, rfl⟩ := parts
    refine isAtom_of_form positive fun bound enough => ?_
    rw [atomForm, brace]
    exact read bound (by omega)
  case inr.inr.inl => obtain ⟨_, _, _, only, ⟨rfl, rfl⟩, rfl⟩ := parts; exact only
  case inr.inr.inr.inl => obtain ⟨_, _, _, only, ⟨rfl, rfl⟩, rfl⟩ := parts; exact only
  case inr.inr.inr.inr.inl => obtain ⟨_, _, _, only, ⟨rfl, rfl⟩, rfl⟩ := parts; exact only
  case inr.inr.inr.inr.inr.inl => obtain ⟨_, _, _, only, ⟨rfl, rfl⟩, rfl⟩ := parts; exact only
  all_goals
    obtain ⟨_, _, ahead, taken, ⟨rfl, rfl⟩, rfl⟩ := parts
    refine read_leaf taken fun bound => ?_
    rw [atomForm, (State.take_ok.mp taken).1]
  case inr.inr.inr.inr.inr.inr.inl => simp only [text_of_ahead ahead]
  case inr.inr.inr.inr.inr.inr.inr.inl => simp only [text_of_ahead ahead]
  case inr.inr.inr.inr.inr.inr.inr.inr.inr.inr => simp only [word_of_ahead ahead]

end Atoms

theorem read_of_rule {n : Nonterminal} {rule : Rule n} {s s' : State} {vs : Values rule.body} {j : Nat}
    (member : rule ∈ n.rules) (parts : ReadAll rule.body s vs s' j)
    (ends : ∀ t, s'.terminal? = some t → t ∉ n.extensions rule.body) : ReadAs n s (rule.build vs) s' j := by
  cases n with
  | series k => exact read_series member parts
  | more k => exact read_more member parts
  | expression => exact read_expression member parts ends
  | level l =>
      cases l with
      | assignment => exact read_operation rfl rfl member parts ends
      | disjunction => exact read_operation rfl rfl member parts ends
      | conjunction => exact read_operation rfl rfl member parts ends
      | comparison => exact read_operation rfl rfl member parts ends
      | sum => exact read_operation rfl rfl member parts ends
      | product => exact read_operation rfl rfl member parts ends
      | call => exact read_calls member parts
  | atom => exact read_atoms member parts
  | block => exact read_blocks member parts
  | conditional => exact read_conditionals member parts ends
  | function => exact read_functions member parts
  | letForm => exact read_lets member parts
  | namedLet => exact read_namedLets member parts
  | definition => exact read_definition member parts

theorem DerivesFrom.readAll {body : List Symbol} {s s' : State} {vs : Values body} {j : Nat}
    (reads : DerivesFrom s body vs s' j) : ReadAll body s vs s' j := by
  induction reads with
  | nil => exact ⟨rfl, rfl⟩
  | @shift s _ _ _ t _ _ _ _ ahead same shifted _ ih =>
      have here : s.terminal? = some t := by simp [State.terminal?, ahead, same]
      exact ⟨_, _, ahead, State.take_ok.mpr ⟨here, shifted⟩, ih, rfl⟩
  | reduce member _ ends _ first rest => exact ⟨_, _, _, read_of_rule member first ends, rest, rfl⟩

section Source

variable {s s' : State} {u : List Shifted}

theorem Shifts.taken (shifts : Shifts s u s') : s'.taken = (u.map Prod.fst).reverse ++ s.taken := by
  induction shifts with
  | nil => rfl
  | cons ahead shifted _ ih =>
      obtain ⟨_, _, _, rfl⟩ := State.shift_ok.mp shifted
      simp [ih, State.passed, ahead]

theorem Shifts.scanned (shifts : Shifts s u s') (ended : s'.terminal? = none) {context : Context} {cursor : Cursor}
    {last : Position} (looked : look context cursor last = .ok (s.ahead, s.cursor)) : Scanned context cursor u := by
  induction shifts generalizing context cursor last with
  | @nil s =>
      rcases look_ok.mp looked with ⟨nothing, _, _⟩ | ⟨_, _, _, ahead, _⟩
      · exact .ended nothing
      · rw [State.terminal?, ahead] at ended
        cases ended
  | @cons s _ _ found _ _ ahead shifted _ ih =>
      obtain ⟨_, _, looked', rfl⟩ := State.shift_ok.mp shifted
      rcases look_ok.mp looked with ⟨_, nothing, _⟩ | ⟨_, _, recognised, found, skipped⟩
      · cases ahead.symm.trans nothing
      · cases ahead.symm.trans found
        rw [skipped] at looked'
        exact .found recognised (ih ended looked')

theorem Scanned.shifts {context : Context} {cursor : Cursor} (scanned : Scanned context cursor u) (last : Position)
    (taken : List Located) : ∃ s s', look context cursor last = .ok (s.ahead, s.cursor) ∧ s.taken = taken ∧
      Shifts s u s' ∧ s'.terminal? = none := by
  induction scanned generalizing last taken with
  | ended nothing => exact ⟨⟨.ended last, _, taken⟩, _, look_ok.mpr (.inl ⟨nothing, rfl, rfl⟩), rfl, .nil, rfl⟩
  | @found _ _ cursor terminal slice _ recognised _ ih =>
      let s : State := ⟨.terminal ⟨terminal, slice, cursor.skipBlanks.pos⟩, cursor.skipBlanks.skip slice, taken⟩
      obtain ⟨mid, s', looked, same, shifts, ended⟩ := ih s.place s.passed
      have shifted : s.shift _ = .ok mid := State.shift_ok.mpr ⟨_, _, looked, by rw [← same]⟩
      exact ⟨s, s', look_ok.mpr (.inr ⟨_, _, recognised, rfl, rfl⟩), rfl, .cons rfl shifted shifts, ended⟩

theorem Scanned.length_le {context : Context} {cursor : Cursor} (scanned : Scanned context cursor u) :
    u.length ≤ cursor.rest.length := by
  induction scanned with
  | ended => exact Nat.zero_le _
  | @found _ _ cursor _ slice u found _ ih =>
      have blanks : cursor.skipBlanks.rest.length ≤ cursor.rest.length :=
        Position.length_skipBlanks_le false cursor.rest cursor.pos
      have some := List.length_pos_iff.mpr (recognised found).ne_nil
      have front := (recognised found).isPrefix.length_le
      simp only [Cursor.skip, List.length_drop] at ih
      simp only [List.length_cons]
      omega

theorem ofSource_ok {source : String} :
    State.ofSource source = .ok s ↔ look .operand (.ofSource source) {} = .ok (s.ahead, s.cursor) ∧ s.taken = [] := by
  simp only [State.ofSource, bind_eq_ok, Prod.exists]
  constructor
  · rintro ⟨ahead, cursor, looked, made⟩
    cases made
    exact ⟨looked, rfl⟩
  · rintro ⟨looked, nothing⟩
    exact ⟨s.ahead, s.cursor, looked, by cases s; cases nothing; rfl⟩

theorem read_ok {source : String} {program : Expr} {terminals : List Located} :
    read source = .ok (program, terminals) ↔ ∃ s es s', State.ofSource source = .ok s ∧
      sequence (boundFor source) s = .ok (es, s') ∧ program = .prog es ∧ terminals = s'.taken.reverse := by
  simp only [read, bind_eq_ok, Prod.exists]
  constructor
  · rintro ⟨s, started, es, s', read, made⟩
    cases made
    exact ⟨s, es, s', started, read, rfl, rfl⟩
  · rintro ⟨s, es, s', started, read, rfl, rfl⟩
    exact ⟨s, started, es, s', read, rfl⟩

-- The second front end accepts what has a derivation that prefers shifting, and returns what it builds.
theorem read_iff_derivable {source : String} {program : Expr} {terminals : List Located} :
    read source = .ok (program, terminals) ↔ Derivable source terminals program := by
  rw [read_ok]
  constructor
  · rintro ⟨s, es, s', started, read, rfl, rfl⟩
    obtain ⟨looked, nothing⟩ := ofSource_ok.mp started
    obtain ⟨⟨_, reads⟩, ended⟩ := sequence_finds read
    obtain ⟨u, _, shifts, derives⟩ := reads.derives
    refine ⟨u, es, shifts.scanned ended looked, ?_, ended ▸ derives, rfl⟩
    rw [shifts.taken, nothing, List.append_nil, List.reverse_reverse]
  · rintro ⟨u, es, scanned, rfl, derives, rfl⟩
    obtain ⟨s, s', looked, nothing, shifts, ended⟩ := scanned.shifts {} []
    obtain ⟨_, _, _, whole, ⟨rfl, rfl⟩, same⟩ := (derives.reads shifts ended).readAll
    have short : u.length ≤ source.length := String.length_toList ▸ scanned.length_le
    have enough : 4 * u.length + 1 ≤ boundFor source := by unfold boundFor; omega
    refine ⟨s, es, s', ofSource_ok.mpr ⟨looked, nothing⟩, whole ended _ (by omega), rfl, ?_⟩
    rw [shifts.taken, nothing, List.append_nil, List.reverse_reverse]

end Source

end Trampoline.Grammar
