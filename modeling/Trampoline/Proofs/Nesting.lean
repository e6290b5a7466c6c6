import Trampoline.Proofs.Brackets
import Trampoline.Proofs.FrontEnds
import Trampoline.Proofs.Phrases

set_option autoImplicit false

namespace Trampoline

-- Every bracket is closed by one of its kind, and what stands between is nested as well.
inductive Nested : List Char → Prop where
  | nil : Nested []
  | round {u v : List Char} : Nested u → Nested v → Nested ('(' :: (u ++ ')' :: v))
  | curly {u v : List Char} : Nested u → Nested v → Nested ('\x7b' :: (u ++ '\x7d' :: v))

namespace Nested

variable {u v : List Char}

theorem append (first : Nested u) (second : Nested v) : Nested (u ++ v) := by
  induction first with
  | nil => exact second
  | round inside _ _ more => simpa using round inside more
  | curly inside _ _ more => simpa using curly inside more

theorem inRound (inside : Nested u) : Nested ('(' :: (u ++ [')'])) := round inside nil

theorem inCurly (inside : Nested u) : Nested ('\x7b' :: (u ++ ['\x7d'])) := curly inside nil

end Nested

namespace Prompt

theorem foldl_countBracket {u : List Char} (nested : Nested u) (depth : Nat) : u.foldl countBracket depth = depth := by
  induction nested generalizing depth with
  | nil => rfl
  | round _ _ inside more | curly _ _ inside more =>
      rw [List.foldl_cons, List.foldl_append, inside, List.foldl_cons, more]
      rfl

theorem bracketDepth_eq_zero {text : String}
    (nested : ∀ ts, tokenize text = .ok ts → Nested (brackets (ts.map Token.lexeme))) : bracketDepth text = 0 := by
  rw [bracketDepth]
  cases split : tokenize text with
  | error e => rfl
  | ok ts => exact (foldl_depthAfter ts 0).trans (foldl_countBracket (nested ts split) 0)

end Prompt

namespace Phrase

theorem SelfName.nested {u : List Lexeme} {self : Option String} (named : SelfName u self) :
    Nested (brackets u) := by
  cases named with
  | none => exact .nil
  | name x => exact .nil

theorem nested_separated {α : Type} {separator : Lexeme} {u : List Lexeme} {xs : List α}
    (items : Separated (fun u _ => Nested (brackets u)) u xs separator) (plain : separator.bracket? = none) :
    Nested (brackets u) := by
  induction items with
  | none => exact .nil
  | last first => exact first
  | more first _ ih =>
      rw [brackets_append, brackets_cons, plain]
      exact first.append (ih plain)

theorem nested_names {separator : Lexeme} {u : List Lexeme} {xs : List String} (names : Separated Name u xs separator) :
    Separated (fun u _ => Nested (brackets u)) u xs separator := by
  induction names with
  | none => exact .none
  | last name => exact .last (by cases name; exact .nil)
  | more name _ ih => exact .more (by cases name; exact .nil) ih

mutual

theorem Operation.nested {level : Level} {u : List Lexeme} {e : Expr} : Operation level u e → Nested (brackets u)
  | .operand operand => operand.nested
  | .tighter _ operation => operation.nested
  | .assignment target value => by
      rw [brackets_append]
      exact target.nested.append value.nested
  | .binary _ _ _ left right => by
      rw [brackets_append]
      exact left.nested.append right.nested

theorem Operand.nested {u : List Lexeme} {e : Expr} : Operand u e → Nested (brackets u)
  | .atom atom => atom.nested
  | .call func args => by
      rw [brackets_append, brackets_cons, brackets_append]
      exact func.nested.append (nested_separated (nested_items args) rfl).inRound

theorem Atom.nested {u : List Lexeme} {e : Expr} : Atom u e → Nested (brackets u)
  | .number _ => .nil
  | .text _ => .nil
  | .name _ => .nil
  | .yes => .nil
  | .no => .nil
  | .group inner => by
      rw [brackets_cons, brackets_append]
      exact inner.nested.inRound
  | .nothing => Nested.nil.inCurly
  | .single item => by
      rw [brackets_cons, brackets_append]
      exact (nested_separated (nested_items item) rfl).inCurly
  | .block items => by
      rw [brackets_cons, brackets_append]
      exact (nested_separated (nested_items items) rfl).inCurly
  | .conditional test branch other => by
      rw [brackets_cons, brackets_append, brackets_append]
      exact test.nested.append (branch.nested.append other.nested)
  | .function _ self params body => by
      rw [brackets_cons, brackets_append, brackets_cons, brackets_append]
      exact self.nested.append (.round (nested_separated (nested_names params) rfl) body.nested)
  | .letIn bindings body => by
      rw [brackets_cons, brackets_cons, brackets_append]
      exact .round (nested_separated (nested_bindings bindings) rfl) body.nested
  | .namedLet bindings body => by
      rw [brackets_cons, brackets_cons, brackets_cons, brackets_append]
      exact .round (nested_separated (nested_bindings bindings) rfl) body.nested

theorem Branch.nested {u : List Lexeme} {e : Expr} : Branch u e → Nested (brackets u)
  | .led operation => operation.nested
  | .braced operation => operation.nested

theorem Otherwise.nested {u : List Lexeme} {e : Expr} : Otherwise u e → Nested (brackets u)
  | .none => .nil
  | .led operation => operation.nested

theorem Bound.nested {u : List Lexeme} {b : Binding} : Bound u b → Nested (brackets u)
  | .bound operation => operation.nested

theorem nested_items {separator : Lexeme} {u : List Lexeme} {es : List Expr} :
    Separated (Operation .assignment) u es separator → Separated (fun u _ => Nested (brackets u)) u es separator
  | .none => .none
  | .last operation => .last operation.nested
  | .more operation rest => .more operation.nested (nested_items rest)

theorem nested_bindings {separator : Lexeme} {u : List Lexeme} {bs : List Binding} :
    Separated Bound u bs separator → Separated (fun u _ => Nested (brackets u)) u bs separator
  | .none => .none
  | .last bound => .last bound.nested
  | .more bound rest => .more bound.nested (nested_bindings rest)

end

end Phrase

theorem Descent.nested_of_parse {source : String} {program : Expr} (accepted : parse source = .ok program) :
    Nested (bracketsIn .code source.toList) := by
  obtain ⟨es, _, parsed⟩ := sequence_of_parse accepted
  obtain ⟨⟨p, ended⟩, phrases⟩ := sound_sequence parsed
  have code := Tokens.brackets_ofCursor (.ofSource source) ended
  exact code ▸ Phrase.nested_separated (Phrase.nested_items phrases) rfl

namespace Grammar

namespace State

def toCome (s : State) : List Char :=
  match s.ahead with
  | .terminal found => found.terminal.bracket?.toList ++ bracketsIn .code s.cursor.rest
  | .ended _ => []

theorem toCome_look {context : Context} {cursor cursor' : Cursor} {last : Position} {ahead : Lookahead}
    (looked : look context cursor last = .ok (ahead, cursor')) (taken : List Located) :
    bracketsIn .code cursor.rest = toCome ⟨ahead, cursor', taken⟩ := by
  rw [← bracketsIn_ahead cursor]
  rcases look_ok.mp looked with ⟨nothing, rfl, rfl⟩ | ⟨terminal, slice, found, rfl, rfl⟩
  · rw [nothing]
    rfl
  · exact (recognised found).bracketsIn

variable {s mid s' : State} {context : Context} {terminal : Terminal}

theorem toCome_shift (here : s.terminal? = some terminal) (shifted : s.shift context = .ok s') :
    s.toCome = terminal.bracket?.toList ++ s'.toCome := by
  obtain ⟨ahead, cursor, looked, rfl⟩ := shift_ok.mp shifted
  rw [← toCome_look looked]
  cases first : s.ahead with
  | terminal found =>
      rw [terminal?, first] at here
      cases here
      rw [toCome, first]
  | ended last =>
      rw [terminal?, first] at here
      cases here

def Nests (s s' : State) : Prop := ∃ u, Nested u ∧ s.toCome = u ++ s'.toCome

namespace Nests

theorem refl (s : State) : s.Nests s := ⟨[], .nil, rfl⟩

theorem trans (first : s.Nests mid) (second : mid.Nests s') : s.Nests s' := by
  obtain ⟨u, nested, here⟩ := first
  obtain ⟨v, nested', there⟩ := second
  exact ⟨u ++ v, nested.append nested', by rw [here, there, List.append_assoc]⟩

theorem shift (here : s.terminal? = some terminal) (plain : terminal.bracket? = none)
    (shifted : s.shift context = .ok s') : s.Nests s' :=
  ⟨[], .nil, by rw [toCome_shift here shifted, plain]; rfl⟩

theorem take (plain : terminal.bracket? = none) (taken : s.take terminal context = .ok s') : s.Nests s' := by
  obtain ⟨here, shifted⟩ := take_ok.mp taken
  exact shift here plain shifted

variable {opened inner : State} {context' : Context}

theorem round (first : s.take .leftParen context = .ok opened) (inside : opened.Nests inner)
    (last : inner.take .rightParen context' = .ok s') : s.Nests s' := by
  obtain ⟨u, nested, within⟩ := inside
  obtain ⟨here, shifted⟩ := take_ok.mp first
  obtain ⟨there, closed⟩ := take_ok.mp last
  refine ⟨_, nested.inRound, ?_⟩
  rw [toCome_shift here shifted, within, toCome_shift there closed]
  simp [Terminal.bracket?]

theorem curly (first : s.take .leftBrace context = .ok opened) (inside : opened.Nests inner)
    (last : inner.take .rightBrace context' = .ok s') : s.Nests s' := by
  obtain ⟨u, nested, within⟩ := inside
  obtain ⟨here, shifted⟩ := take_ok.mp first
  obtain ⟨there, closed⟩ := take_ok.mp last
  refine ⟨_, nested.inCurly, ?_⟩
  rw [toCome_shift here shifted, within, toCome_shift there closed]
  simp [Terminal.bracket?]

end Nests

end State

def Nesting {α : Type} (g : Reader α) : Prop := ∀ {s s' : State} {a : α}, g s = .ok (a, s') → s.Nests s'

section Forms

variable {s s' : State} {f : Reader Expr} {bound : Nat}

theorem Listed.nests {α : Type} {stop separator : Terminal} {next : Context} {item : Reader α} {xs : List α}
    (plain : separator.bracket? = Option.none) (nesting : Nesting item)
    (listed : Listed stop separator next item s xs s') : s.Nests s' := by
  induction listed with
  | none => exact .refl _
  | last _ first _ => exact nesting first
  | more _ first separated shifted _ ih => exact ((nesting first).trans (.shift separated plain shifted)).trans ih

theorem nesting_items {α : Type} {stop separator : Terminal} {next : Context} {item : Reader α}
    (plain : separator.bracket? = none) (nesting : Nesting item) :
    Nesting (itemsFrom stop separator next item bound) :=
  fun read => (listed_of_itemsFrom read).nests plain nesting

theorem nesting_selfName : Nesting selfName := by
  intro s s' self read
  rcases selfName_ok.mp read with ⟨taken, _⟩ | ⟨_, _, rfl⟩
  · exact .take rfl taken
  · exact .refl _

theorem nesting_param : Nesting param := fun read => .take rfl (param_ok.mp read).1

section Inner

variable (nesting : Nesting f)
include nesting

theorem nesting_arguments : Nesting (arguments f bound) := by
  intro s s' args read
  obtain ⟨opened, inner, first, items, last⟩ := arguments_ok.mp read
  exact .round first (nesting_items rfl nesting items) last

theorem nesting_block : Nesting (block f bound) := by
  intro s s' e read
  obtain ⟨items, opened, inner, first, listed, last, _⟩ := block_ok.mp read
  exact .curly first (nesting_items rfl nesting listed) last

theorem nesting_group : Nesting (group f) := by
  intro s s' e read
  obtain ⟨opened, inner, first, within, last⟩ := group_ok.mp read
  exact .round first (nesting within) last

theorem Branch.nests {yes : Expr} (branch : Branch f bound s yes s') : s.Nests s' := by
  rcases branch with ⟨_, read⟩ | ⟨next, taken, read⟩
  · exact nesting_block nesting read
  · exact .trans (.take rfl taken) (nesting read)

theorem Otherwise.nests {no : Expr} (otherwise : Otherwise f s no s') : s.Nests s' := by
  rcases otherwise with ⟨next, taken, read⟩ | ⟨_, _, rfl⟩
  · exact .trans (.take rfl taken) (nesting read)
  · exact .refl _

theorem nesting_conditional : Nesting (conditional f bound) := by
  intro s s' e read
  obtain ⟨test, yes, no, first, after, behind, taken, tested, branch, otherwise, _⟩ := conditional_ok.mp read
  have tests : s.Nests after := .trans (.take rfl taken) (nesting tested)
  exact (tests.trans (branch.nests nesting)).trans (otherwise.nests nesting)

theorem nesting_binding : Nesting (binding f) := by
  intro s s' b read
  obtain ⟨named, equals, init, first, second, given, _⟩ := binding_ok.mp read
  have head : s.Nests equals := .trans (.take rfl first) (.take rfl second)
  exact head.trans (nesting given)

theorem Bound.nests {α : Type} {item : Reader α} {self : Option String} {xs : List α} {body : Expr} {word : Terminal}
    (here : s.terminal? = some word) (plain : word.bracket? = none) (items : Nesting item)
    (bounded : Bound f item bound s self xs body s') : s.Nests s' := by
  obtain ⟨first, head, opened, inner, last, shifted, named, start, listed, stop, read⟩ := bounded
  have heads : s.Nests head := .trans (.shift here plain shifted) (nesting_selfName named)
  have listing : head.Nests last := .round start (nesting_items rfl items listed) stop
  exact (heads.trans listing).trans (nesting read)

theorem atomForm_nests {e : Expr} (read : atomForm f bound s = .ok (e, s')) : s.Nests s' := by
  have leaf {word : Terminal} {e' : Expr} (here : s.terminal? = some word) (plain : word.bracket? = none)
      (read : leaf e' s = .ok (e, s')) : s.Nests s' := .shift here plain (leaf_ok.mp read).1
  have function {word : Terminal} (here : s.terminal? = some word) (plain : word.bracket? = none)
      (read : function f bound s = .ok (e, s')) : s.Nests s' := by
    obtain ⟨self, params, body, bounded, _⟩ := function_ok.mp read
    exact bounded.nests nesting here plain nesting_param
  unfold atomForm at read
  split at read
  · exact nesting_group nesting read
  · exact nesting_block nesting read
  · exact nesting_conditional nesting read
  · exact function ‹_› rfl read
  · exact function ‹_› rfl read
  · obtain ⟨self, bindings, body, bounded, _⟩ := letForm_ok.mp read
    exact bounded.nests nesting ‹_› rfl (nesting_binding nesting)
  · exact leaf ‹_› rfl read
  · exact leaf ‹_› rfl read
  · exact leaf ‹_› rfl read
  · exact leaf ‹_› rfl read
  · exact leaf ‹_› rfl read
  · exact absurd read (unexpected_ne _ _)

end Inner

end Forms

structure AllNesting (bound : Nat) : Prop where
  expression : Nesting (expression bound)
  operand : Nesting (operand bound)
  atom : Nesting (atom bound)
  operators : ∀ left floor, Nesting (operators bound left floor)
  calls : ∀ func, Nesting (calls bound func)

theorem unbracketed_of_precedence {terminal : Terminal} {level : Nat} (known : precedence? terminal = some level) :
    terminal.bracket? = none := by
  cases terminal <;> first | rfl | cases known

theorem all_nesting (bound : Nat) : AllNesting bound := by
  induction bound with
  | zero =>
      refine ⟨?_, ?_, ?_, ?_, ?_⟩
      · intro s s' e read
        cases read
      · intro s s' e read
        cases read
      · intro s s' e read
        cases read
      · intro left floor s s' e read
        cases read
      · intro func s s' e read
        cases read
  | succ bound ih =>
      refine ⟨?_, ?_, ?_, ?_, ?_⟩
      · intro s s' e read
        obtain ⟨left, next, first, rest⟩ := expression_ok.mp read
        exact (ih.operand first).trans (ih.operators left 0 rest)
      · intro s s' e read
        obtain ⟨func, next, first, rest⟩ := operand_ok.mp read
        exact (ih.atom first).trans (ih.calls func rest)
      · exact atomForm_nests ih.expression
      · intro left floor s s' e read
        rcases operators_cases read with ⟨_, _, rfl⟩ | ⟨found, level, ahead, known, above⟩
        · exact .refl _
        · obtain ⟨next, right, behind, right', behind', shifted, first, others, rest⟩ :=
            (operators_go ahead known above).mp read
          have here : s.terminal? = some found.terminal := by rw [State.terminal?, ahead]
          have tight := (ih.operand first).trans (ih.operators right level others)
          exact ((State.Nests.shift here (unbracketed_of_precedence known) shifted).trans tight).trans
            (ih.operators _ floor rest)
      · intro func s s' e read
        rcases calls_ok.mp read with ⟨_, _, rfl⟩ | ⟨args, next, first, rest⟩
        · exact .refl _
        · exact (nesting_arguments ih.expression first).trans (ih.calls _ rest)

theorem nesting_sequence {bound : Nat} : Nesting (sequence bound) := by
  induction bound with
  | zero =>
      intro s s' es read
      cases read
  | succ bound ih =>
      intro s s' es read
      rcases sequence_ok.mp read with ⟨_, _, rfl⟩ | ⟨e, behind, _, first, rest⟩
      · exact .refl _
      · have begin := (all_nesting bound).expression first
        rcases rest with ⟨_, _, rfl⟩ | ⟨again, others, taken, more, _⟩
        · exact begin
        · exact (begin.trans (.take rfl taken)).trans (ih more)

theorem nested_of_read {source : String} {program : Expr} {terminals : List Located}
    (accepted : read source = .ok (program, terminals)) : Nested (bracketsIn .code source.toList) := by
  obtain ⟨s, start, rest⟩ := bind_eq_ok.mp accepted
  obtain ⟨⟨es, s'⟩, made, _⟩ := bind_eq_ok.mp rest
  obtain ⟨⟨ahead, cursor⟩, looked, begun⟩ := bind_eq_ok.mp start
  cases begun
  obtain ⟨u, nested, whole⟩ := nesting_sequence made
  have nothing : s'.toCome = [] := by
    have ended := sequence_ended made
    cases last : s'.ahead with
    | terminal found =>
        rw [State.terminal?, last] at ended
        cases ended
    | ended place => rw [State.toCome, last]
  rw [nothing, List.append_nil, ← State.toCome_look looked] at whole
  exact whole ▸ nested

end Grammar

namespace Prompt

-- The prompt does not wait for more of a program that is complete, and what it waits for is refused as it stands.
theorem complete_programs_leave_no_bracket_open (frontEnd : FrontEnd) (text : String) :
    (∀ program, frontEnd.parse text = .ok program → bracketDepth text = 0) ∧
      (0 < bracketDepth text → ∃ e, frontEnd.parse text = .error e) := by
  have closed (program : Expr) (accepted : frontEnd.parse text = .ok program) : bracketDepth text = 0 := by
    refine bracketDepth_eq_zero fun ts split => ?_
    rw [brackets_tokenize split]
    cases frontEnd with
    | descent => exact Descent.nested_of_parse accepted
    | grammar =>
        obtain ⟨terminals, read⟩ := FrontEnd.grammar_parse_ok.mp accepted
        exact Grammar.nested_of_read read
  refine ⟨closed, fun waits => ?_⟩
  cases result : frontEnd.parse text with
  | error e => exact ⟨e, rfl⟩
  | ok program => exact absurd (closed program result) (by omega)

def gluedKeywords : String := "f((if a thenb elsec), \"(\") # [("

theorem gluedKeywords_closed :
    (∃ program, FrontEnd.grammar.parse gluedKeywords = .ok program) ∧ bracketDepth gluedKeywords = 0 ∧
      0 < bracketDepth "f(g" ∧ ∀ frontEnd : FrontEnd, ∃ e, frontEnd.parse "f(g" = .error e := by
  have accepted : ∃ program, FrontEnd.grammar.parse gluedKeywords = .ok program := by
    have read : (FrontEnd.grammar.parse gluedKeywords).isOk = true := by decide +kernel
    generalize FrontEnd.grammar.parse gluedKeywords = result at read ⊢
    cases result with
    | error e => cases read
    | ok program => exact ⟨program, rfl⟩
  have waits : 0 < bracketDepth "f(g" := by decide +kernel
  obtain ⟨program, read⟩ := accepted
  exact ⟨⟨program, read⟩, (complete_programs_leave_no_bracket_open .grammar gluedKeywords).1 program read, waits,
    fun frontEnd => (complete_programs_leave_no_bracket_open frontEnd "f(g").2 waits⟩

end Prompt

end Trampoline
