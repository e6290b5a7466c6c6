import Trampoline.Proofs.Readers

/-!
The grammar of the language over lists of lexemes, with a level for each precedence of its operators. It is
ambiguous: a body or a branch may end at any place where an expression can end. What the descent front end
reads is a phrase of this grammar, made of exactly the tokens that it takes.
-/

set_option autoImplicit false

namespace Trampoline

inductive Separated {α : Type} (item : List Lexeme → α → Prop) :
    List Lexeme → List α → Lexeme → Prop where
  | none {separator : Lexeme} : Separated item [] [] separator
  | last {separator : Lexeme} {u : List Lexeme} {x : α} : item u x → Separated item u [x] separator
  | more {separator : Lexeme} {u v : List Lexeme} {x : α} {xs : List α} :
      item u x → Separated item v xs separator → Separated item (u ++ separator :: v) (x :: xs) separator

namespace Phrase

inductive Level where
  | assignment
  | disjunction
  | conjunction
  | comparison
  | sum
  | product
  | call
deriving DecidableEq, Repr

namespace Level

def symbols : Level → List String
  | .assignment => ["="]
  | .disjunction => ["||"]
  | .conjunction => ["&&"]
  | .comparison => ["<", ">", "<=", ">=", "==", "!="]
  | .sum => ["+", "-"]
  | .product => ["*", "/", "%"]
  | .call => []

def tighter? : Level → Option Level
  | .assignment => some .disjunction
  | .disjunction => some .conjunction
  | .conjunction => some .comparison
  | .comparison => some .sum
  | .sum => some .product
  | .product => some .call
  | .call => none

end Level

inductive Name : List Lexeme → String → Prop where
  | name (x : String) : Name [.name x] x

inductive SelfName : List Lexeme → Option String → Prop where
  | none : SelfName [] none
  | name (x : String) : SelfName [.name x] (some x)

mutual

-- Every level is left-recursive: the left operand may have operators of the level itself, the right one
-- only tighter ones.
inductive Operation : Level → List Lexeme → Expr → Prop where
  | operand {u : List Lexeme} {e : Expr} : Operand u e → Operation .call u e
  | tighter {level next : Level} {u : List Lexeme} {e : Expr} :
      level.tighter? = some next → Operation next u e → Operation level u e
  | assignment {u v : List Lexeme} {target value : Expr} :
      Operation .assignment u target → Operation .disjunction v value →
        Operation .assignment (u ++ .operator "=" :: v) (.assign target value)
  | binary {level next : Level} {symbol : String} {u v : List Lexeme} {left right : Expr} :
      level ≠ .assignment → symbol ∈ level.symbols → level.tighter? = some next →
        Operation level u left → Operation next v right →
          Operation level (u ++ .operator symbol :: v) (.binary symbol left right)

inductive Operand : List Lexeme → Expr → Prop where
  | atom {u : List Lexeme} {e : Expr} : Atom u e → Operand u e
  | call {u v : List Lexeme} {func : Expr} {args : List Expr} :
      Operand u func → Separated (Operation .assignment) v args (.punctuation ',') →
        Operand (u ++ .punctuation '(' :: (v ++ [.punctuation ')'])) (.call func args)

inductive Atom : List Lexeme → Expr → Prop where
  | number (x : Float) : Atom [.number x] (.num x)
  | text (s : String) : Atom [.text s] (.str s)
  | name (x : String) : Atom [.name x] (.var x)
  | yes : Atom [.keyword .true_] (.bool true)
  | no : Atom [.keyword .false_] (.bool false)
  | group {u : List Lexeme} {e : Expr} :
      Operation .assignment u e → Atom (.punctuation '(' :: (u ++ [.punctuation ')'])) e
  | nothing : Atom [.punctuation '\x7b', .punctuation '\x7d'] (.bool false)
  | single {u : List Lexeme} {e : Expr} :
      Separated (Operation .assignment) u [e] (.punctuation ';') →
        Atom (.punctuation '\x7b' :: (u ++ [.punctuation '\x7d'])) e
  | block {u : List Lexeme} {e e' : Expr} {es : List Expr} :
      Separated (Operation .assignment) u (e :: e' :: es) (.punctuation ';') →
        Atom (.punctuation '\x7b' :: (u ++ [.punctuation '\x7d'])) (.prog (e :: e' :: es))
  | conditional {u v w : List Lexeme} {test yes no : Expr} :
      Operation .assignment u test → Branch v yes → Otherwise w no →
        Atom (.keyword .if_ :: (u ++ (v ++ w))) (.cond test yes no)
  | function {word : Keyword} {s u v : List Lexeme} {self : Option String} {params : List String}
      {body : Expr} :
      word = .lambda ∨ word = .lambdaSign → SelfName s self → Separated Name u params (.punctuation ',') →
        Operation .assignment v body →
          Atom (.keyword word :: (s ++ .punctuation '(' :: (u ++ .punctuation ')' :: v)))
            (.lambda params body self)
  | letIn {u v : List Lexeme} {bindings : List Binding} {body : Expr} :
      Separated Bound u bindings (.punctuation ',') → Operation .assignment v body →
        Atom (.keyword .let_ :: .punctuation '(' :: (u ++ .punctuation ')' :: v)) (.letIn bindings body)
  | namedLet {x : String} {u v : List Lexeme} {bindings : List Binding} {body : Expr} :
      Separated Bound u bindings (.punctuation ',') → Operation .assignment v body →
        Atom (.keyword .let_ :: .name x :: .punctuation '(' :: (u ++ .punctuation ')' :: v))
          (.call (.lambda (bindings.map Binding.name) body (some x)) (bindings.map Binding.init))

-- The keyword may be left out before an expression that starts with a brace.
inductive Branch : List Lexeme → Expr → Prop where
  | led {u : List Lexeme} {e : Expr} : Operation .assignment u e → Branch (.keyword .then_ :: u) e
  | braced {u : List Lexeme} {e : Expr} :
      Operation .assignment (.punctuation '\x7b' :: u) e → Branch (.punctuation '\x7b' :: u) e

inductive Otherwise : List Lexeme → Expr → Prop where
  | none : Otherwise [] .hole
  | led {u : List Lexeme} {e : Expr} : Operation .assignment u e → Otherwise (.keyword .else_ :: u) e

inductive Bound : List Lexeme → Binding → Prop where
  | bound {x : String} {u : List Lexeme} {e : Expr} :
      Operation .assignment u e → Bound (.name x :: .operator "=" :: u) (.mk x e)

end

def Program (u : List Lexeme) (es : List Expr) : Prop :=
  Separated (Operation .assignment) u es (.punctuation ';')

namespace Level

def rank : Level → Nat
  | .assignment => 1
  | .disjunction => 2
  | .conjunction => 3
  | .comparison => 7
  | .sum => 10
  | .product => 20
  | .call => 21

theorem rank_pos (level : Level) : 0 < level.rank := by cases level <;> decide

theorem rank_le_call (level : Level) : level.rank ≤ Level.call.rank := by cases level <;> decide

theorem rank_tighter {level next other : Level} (step : level.tighter? = some next)
    (above : level.rank < other.rank) : next.rank ≤ other.rank := by
  cases level <;> cases step <;> cases other <;> simp [rank] at above ⊢

theorem tighter_of_symbol {level : Level} {symbol : String} (member : symbol ∈ level.symbols) :
    ∃ next, level.tighter? = some next ∧ level.rank < next.rank := by
  cases level with
  | call => cases member
  | _ => exact ⟨_, rfl, by decide⟩

end Level

theorem precedence?_iff (symbol : String) (n : Nat) :
    Descent.precedence? symbol = some n ↔ ∃ level : Level, symbol ∈ level.symbols ∧ level.rank = n := by
  constructor
  · intro found
    unfold Descent.precedence? at found
    split at found
    · exact ⟨.assignment, by decide, Option.some.inj found⟩
    · exact ⟨.disjunction, by decide, Option.some.inj found⟩
    · exact ⟨.conjunction, by decide, Option.some.inj found⟩
    · exact ⟨.comparison, by decide, Option.some.inj found⟩
    · exact ⟨.comparison, by decide, Option.some.inj found⟩
    · exact ⟨.comparison, by decide, Option.some.inj found⟩
    · exact ⟨.comparison, by decide, Option.some.inj found⟩
    · exact ⟨.comparison, by decide, Option.some.inj found⟩
    · exact ⟨.comparison, by decide, Option.some.inj found⟩
    · exact ⟨.sum, by decide, Option.some.inj found⟩
    · exact ⟨.sum, by decide, Option.some.inj found⟩
    · exact ⟨.product, by decide, Option.some.inj found⟩
    · exact ⟨.product, by decide, Option.some.inj found⟩
    · exact ⟨.product, by decide, Option.some.inj found⟩
    · cases found
  · rintro ⟨level, member, rfl⟩
    have listed : ∀ level : Level, ∀ s ∈ level.symbols, Descent.precedence? s = some level.rank := by
      intro level
      cases level <;> decide
    exact listed level symbol member

mutual

theorem Operation.ne_nil {level : Level} {u : List Lexeme} {e : Expr} : Operation level u e → u ≠ []
  | .operand operand => operand.ne_nil
  | .tighter _ operation => operation.ne_nil
  | .assignment _ _ => by simp
  | .binary _ _ _ _ _ => by simp

theorem Operand.ne_nil {u : List Lexeme} {e : Expr} : Operand u e → u ≠ []
  | .atom atom => by cases atom <;> simp
  | .call _ _ => by simp

end

theorem Operation.loosen {level other : Level} {u : List Lexeme} {e : Expr}
    (operation : Operation other u e) (looser : level.rank ≤ other.rank) : Operation level u e := by
  have step {a b : Level} (next : a.tighter? = some b) : Operation b u e → Operation a u e := .tighter next
  have product : Operation .call u e → Operation .product u e := step rfl
  have sum : Operation .product u e → Operation .sum u e := step rfl
  have comparison : Operation .sum u e → Operation .comparison u e := step rfl
  have conjunction : Operation .comparison u e → Operation .conjunction u e := step rfl
  have disjunction : Operation .conjunction u e → Operation .disjunction u e := step rfl
  have assignment : Operation .disjunction u e → Operation .assignment u e := step rfl
  cases level <;> cases other <;> first
    | exact operation
    | exact absurd looser (by decide)
    | (simp_all only [forall_const])

theorem Operation.combine {level next : Level} {symbol : String} {u v : List Lexeme} {left right : Expr}
    (member : symbol ∈ level.symbols) (step : level.tighter? = some next) (first : Operation level u left)
    (second : Operation next v right) :
    Operation level (u ++ .operator symbol :: v) (Descent.combine symbol left right) := by
  by_cases assigns : level = .assignment
  · subst assigns
    cases step
    obtain rfl : symbol = "=" := by simpa [Level.symbols] using member
    exact .assignment first second
  · have other : symbol ≠ "=" := by
      rintro rfl
      cases level <;> first
        | exact assigns rfl
        | exact absurd member (by decide)
    rw [Descent.combine, if_neg other]
    exact .binary assigns member step first second

end Phrase

namespace Tokens

variable {ts mid ts' : Tokens}

def lexemes (ts : Tokens) : List Lexeme := ts.list.map Token.lexeme

def Yields (ts : Tokens) (u : List Lexeme) (ts' : Tokens) : Prop :=
  ∃ taken, taken.map Token.lexeme = u ∧ ts.list = taken ++ ts'.list ∧ ts'.ending = ts.ending

theorem yields_nil : ts.Yields [] ts' ↔ ts' = ts := by
  constructor
  · rintro ⟨taken, none, list, ending⟩
    obtain rfl := List.map_eq_nil_iff.mp none
    obtain ⟨list', ending'⟩ := ts'
    cases ending
    cases list
    rfl
  · rintro rfl
    exact ⟨[], rfl, rfl, rfl⟩

theorem yields_cons {l : Lexeme} {u : List Lexeme} :
    ts.Yields (l :: u) ts' ↔ ts.Ahead l ∧ ts.tail.Yields u ts' := by
  constructor
  · rintro ⟨taken, made, list, ending⟩
    obtain ⟨t, rest, rfl, same, rest_eq⟩ := List.map_eq_cons_iff.mp made
    exact ⟨ahead_iff.mpr ⟨t, _, list, same⟩, rest, rest_eq, by simp [tail, list], ending⟩
  · rintro ⟨ahead, rest, rest_eq, list, ending⟩
    obtain ⟨t, others, start, rfl⟩ := ahead_iff.mp ahead
    refine ⟨t :: rest, by simp [rest_eq], ?_, ending⟩
    rw [tail, start] at list
    rw [start, List.cons_append]
    exact congrArg (t :: ·) list

theorem yields_append {u v : List Lexeme} :
    ts.Yields (u ++ v) ts' ↔ ∃ mid, ts.Yields u mid ∧ mid.Yields v ts' := by
  induction u generalizing ts with
  | nil => simp [yields_nil]
  | cons l u ih =>
      simp only [List.cons_append, yields_cons, ih]
      constructor
      · rintro ⟨ahead, mid, first, second⟩
        exact ⟨mid, ⟨ahead, first⟩, second⟩
      · rintro ⟨mid, ⟨ahead, first⟩, second⟩
        exact ⟨ahead, mid, first, second⟩

theorem yields_enclosed {l l' : Lexeme} {u : List Lexeme} (taken : ts.Yields (l :: (u ++ [l'])) ts') :
    ts.Ahead l ∧ ∃ inner, ts.tail.Yields u inner ∧ inner.Ahead l' ∧ ts' = inner.tail := by
  obtain ⟨opened, behind⟩ := yields_cons.mp taken
  obtain ⟨inner, inside, behind⟩ := yields_append.mp behind
  obtain ⟨closed, behind⟩ := yields_cons.mp behind
  exact ⟨opened, inner, inside, closed, yields_nil.mp behind⟩

theorem Yields.append {u v : List Lexeme} (first : ts.Yields u mid) (second : mid.Yields v ts') :
    ts.Yields (u ++ v) ts' :=
  yields_append.mpr ⟨mid, first, second⟩

theorem Ahead.yields {l : Lexeme} (ahead : ts.Ahead l) : ts.Yields [l] ts.tail :=
  yields_cons.mpr ⟨ahead, yields_nil.mpr rfl⟩

theorem Ahead.cons {l : Lexeme} {u : List Lexeme} (ahead : ts.Ahead l) (rest : ts.tail.Yields u ts') :
    ts.Yields (l :: u) ts' :=
  yields_cons.mpr ⟨ahead, rest⟩

theorem Yields.lexemes {u : List Lexeme} (taken : ts.Yields u ts') : ts.lexemes = u ++ ts'.lexemes := by
  obtain ⟨tokens, rfl, list, _⟩ := taken
  simp [Tokens.lexemes, list]

theorem Yields.ending {u : List Lexeme} (taken : ts.Yields u ts') : ts'.ending = ts.ending := by
  obtain ⟨_, _, _, ending⟩ := taken
  exact ending

theorem peek_none : ts.peek = .ok none ↔ ts.list = [] ∧ ∃ p, ts.ending = .ended p := by
  obtain ⟨list, ending⟩ := ts
  cases list <;> cases ending <;> simp [peek, fault]

end Tokens

namespace Descent

open Phrase

variable {f : Reader Expr} {bound : Nat} {ts ts' : Tokens} {e : Expr}

def Sound {α : Type} (phrase : List Lexeme → α → Prop) (read : Reader α) : Prop :=
  ∀ ts x ts', read ts = .ok (x, ts') → ∃ u, ts.Yields u ts' ∧ phrase u x

theorem sound_name : Sound Name name := by
  intro ts x ts' read
  obtain ⟨ahead, rfl⟩ := name_ok.mp read
  exact ⟨_, ahead.yields, .name x⟩

theorem sound_name? : Sound SelfName name? := by
  intro ts x ts' read
  rcases name?_ok.mp read with ⟨x, ahead, rfl, rfl⟩ | ⟨_, _, _, rfl, rfl⟩
  · exact ⟨_, ahead.yields, .name x⟩
  · exact ⟨_, Tokens.yields_nil.mpr rfl, .none⟩

theorem sound_binding (sound : Sound (Operation .assignment) f) : Sound Bound (binding f) := by
  intro ts b ts' read
  obtain ⟨x, init, named, equals, last, rfl⟩ := binding_ok.mp read
  obtain ⟨u, taken, operation⟩ := sound _ _ _ last
  exact ⟨_, named.cons (equals.cons taken), .bound operation⟩

theorem sound_listed {α : Type} {phrase : List Lexeme → α → Prop} {item : Reader α} {stop separator : Char}
    {xs : List α} (sound : Sound phrase item) (listed : Listed stop separator item ts xs ts') :
    ∃ u, ts.Yields u ts' ∧ Separated phrase u xs (.punctuation separator) := by
  induction listed with
  | none _ => exact ⟨[], Tokens.yields_nil.mpr rfl, .none⟩
  | last _ _ read _ =>
      obtain ⟨u, taken, phrase⟩ := sound _ _ _ read
      exact ⟨u, taken, .last phrase⟩
  | more _ _ read separated _ ih =>
      obtain ⟨u, taken, phrase⟩ := sound _ _ _ read
      obtain ⟨v, taken', others⟩ := ih
      exact ⟨_, taken.append (separated.cons taken'), .more phrase others⟩

section Forms

variable (sound : Sound (Operation .assignment) f)
include sound

theorem sound_group : Sound Atom (group f) := by
  intro ts e ts' read
  obtain ⟨opened, inner, inside, closed, rfl⟩ := group_ok.mp read
  obtain ⟨u, taken, operation⟩ := sound _ _ _ inside
  exact ⟨_, opened.cons (taken.append closed.yields), .group operation⟩

theorem sound_block (visible : ∀ ts r, f ts = .ok r → ∃ l, ts.Ahead l) : Sound Atom (block f bound) := by
  intro ts e ts' read
  obtain ⟨opened, items, inner, _, listed, rfl, rfl⟩ := (block_ok visible).mp read
  obtain ⟨u, taken, phrases⟩ := sound_listed sound listed
  refine ⟨_, opened.cons (taken.append listed.closed.yields), ?_⟩
  match items, phrases with
  | [], .none => exact .nothing
  | [_], phrases => exact .single phrases
  | _ :: _ :: _, phrases => exact .block phrases

theorem sound_branch {start behind : Tokens} {yes : Expr} (begun : BranchAt ts start)
    (read : f start = .ok (yes, behind)) : ∃ u, ts.Yields u behind ∧ Branch u yes := by
  obtain ⟨u, taken, operation⟩ := sound _ _ _ read
  rcases begun with ⟨brace, rfl⟩ | ⟨keyword, rfl⟩
  · obtain ⟨l, rest, rfl⟩ := List.exists_cons_of_ne_nil operation.ne_nil
    have ahead := (Tokens.yields_cons.mp taken).1
    obtain rfl : l = .punctuation '\x7b' := Option.some.inj (Except.ok.inj (ahead.symm.trans brace))
    exact ⟨_, taken, .braced operation⟩
  · exact ⟨_, keyword.cons taken, .led operation⟩

theorem sound_otherwise {no : Expr} (read : Otherwise f ts no ts') :
    ∃ u, ts.Yields u ts' ∧ Phrase.Otherwise u no := by
  rcases read with ⟨keyword, read⟩ | ⟨_, _, _, rfl, rfl⟩
  · obtain ⟨u, taken, operation⟩ := sound _ _ _ read
    exact ⟨_, keyword.cons taken, .led operation⟩
  · exact ⟨[], Tokens.yields_nil.mpr rfl, .none⟩

theorem sound_conditional : Sound Atom (conditional f) := by
  intro ts e ts' read
  obtain ⟨keyword, test, yes, no, after, start, behind, first, begun, second, third, rfl⟩ :=
    conditional_ok.mp read
  obtain ⟨u, taken, operation⟩ := sound _ _ _ first
  obtain ⟨v, taken', branch⟩ := sound_branch sound begun second
  obtain ⟨w, taken'', otherwise⟩ := sound_otherwise sound third
  exact ⟨_, keyword.cons (taken.append (taken'.append taken'')), .conditional operation branch otherwise⟩

theorem sound_function {word : Keyword} (spelled : word = .lambda ∨ word = .lambdaSign)
    (ahead : ts.Ahead (.keyword word)) (read : function f bound ts = .ok (e, ts')) :
    ∃ u, ts.Yields u ts' ∧ Atom u e := by
  obtain ⟨self, params, body, head, inner, first, opened, _, listed, last, rfl⟩ := function_ok.mp read
  obtain ⟨s, named, selfName⟩ := sound_name? _ _ _ first
  obtain ⟨u, taken, names⟩ := sound_listed sound_name listed
  obtain ⟨v, taken', operation⟩ := sound _ _ _ last
  exact ⟨_, ahead.cons (named.append (opened.cons (taken.append (listed.closed.cons taken')))),
    .function spelled selfName names operation⟩

theorem sound_letForm (ahead : ts.Ahead (.keyword .let_)) (read : letForm f bound ts = .ok (e, ts')) :
    ∃ u, ts.Yields u ts' ∧ Atom u e := by
  obtain ⟨self, bindings, body, head, inner, first, opened, _, listed, last, rfl⟩ := letForm_ok.mp read
  obtain ⟨s, named, selfName⟩ := sound_name? _ _ _ first
  obtain ⟨u, taken, bounds⟩ := sound_listed (sound_binding sound) listed
  obtain ⟨v, taken', operation⟩ := sound _ _ _ last
  refine ⟨_, ahead.cons (named.append (opened.cons (taken.append (listed.closed.cons taken')))), ?_⟩
  cases selfName with
  | none => exact .letIn bounds operation
  | name x => exact .namedLet bounds operation

theorem sound_atomForm (visible : ∀ ts r, f ts = .ok r → ∃ l, ts.Ahead l) :
    Sound Atom (atomForm f bound) := by
  intro ts e ts' read
  rw [atomForm, bind_eq_ok] at read
  obtain ⟨ahead, peeked, read⟩ := read
  split at read
  · cases read
  · exact sound_group sound _ _ _ read
  · exact sound_block sound visible _ _ _ read
  · exact sound_conditional sound _ _ _ read
  · cases read
    exact ⟨_, Tokens.Ahead.yields peeked, .yes⟩
  · cases read
    exact ⟨_, Tokens.Ahead.yields peeked, .no⟩
  · exact sound_function sound (.inl rfl) peeked read
  · exact sound_function sound (.inr rfl) peeked read
  · exact sound_letForm sound peeked read
  · cases read
    exact ⟨_, Tokens.Ahead.yields peeked, .name _⟩
  · cases read
    exact ⟨_, Tokens.Ahead.yields peeked, .number _⟩
  · cases read
    exact ⟨_, Tokens.Ahead.yields peeked, .text _⟩
  · cases read

end Forms

def Settled (floor : Nat) (ts : Tokens) : Prop :=
  ∀ symbol n, ts.Ahead (.operator symbol) → precedence? symbol = some n → n ≤ floor

theorem settled_of_loose {floor : Nat} {ahead : Option Lexeme} (peeked : ts.peek = .ok ahead)
    (loose : ∀ l, ahead = some l → levelAbove? floor l = none) : Settled floor ts := by
  intro symbol n next found
  have low := loose _ (Except.ok.inj (peeked.symm.trans next))
  simpa [levelAbove?, found, Option.filter] using low

structure AllSound (bound : Nat) : Prop where
  expression : Sound (Operation .assignment) (expression bound)
  operand : Sound Operand (operand bound)
  atom : Sound Atom (atom bound)
  calls : ∀ {start ts ts' : Tokens} {u : List Lexeme} {func e : Expr}, start.Yields u ts → Operand u func →
    calls bound func ts = .ok (e, ts') → ∃ v, start.Yields v ts' ∧ Operand v e
  operators : ∀ {start ts ts' : Tokens} {u : List Lexeme} {level : Level} {floor : Nat} {left e : Expr},
    start.Yields u ts → Operation level u left → floor < level.rank → Settled level.rank ts →
    operators bound left floor ts = .ok (e, ts') →
      ∃ v level', start.Yields v ts' ∧ Operation level' v e ∧ floor < level'.rank ∧ Settled floor ts'

section Bounds

variable {start : Tokens} {u : List Lexeme} (before : AllSound bound)
include before

theorem sound_operators_of_operand {next : Tokens} {right e : Expr} {floor : Nat}
    (low : floor < Level.call.rank) (first : Descent.operand bound ts = .ok (right, next))
    (rest : Descent.operators bound right floor next = .ok (e, ts')) :
    ∃ v level, ts.Yields v ts' ∧ Operation level v e ∧ floor < level.rank ∧ Settled floor ts' := by
  obtain ⟨u, taken, operand⟩ := before.operand _ _ _ first
  have settled : Settled Level.call.rank next := by
    intro symbol n _ found
    obtain ⟨level, _, rfl⟩ := (precedence?_iff symbol n).mp found
    exact level.rank_le_call
  exact before.operators taken (.operand operand) low settled rest

theorem sound_expression : Sound (Operation .assignment) (Descent.expression (bound + 1)) := by
  intro ts e ts' read
  obtain ⟨left, next, first, rest⟩ := expression_ok.mp read
  obtain ⟨v, level, taken, operation, _, _⟩ := sound_operators_of_operand before (by decide) first rest
  exact ⟨v, taken, operation.loosen level.rank_pos⟩

theorem sound_operators {level : Level} {floor : Nat} {left : Expr} (taken : start.Yields u ts)
    (operation : Operation level u left) (low : floor < level.rank) (settled : Settled level.rank ts)
    (read : Descent.operators (bound + 1) left floor ts = .ok (e, ts')) :
    ∃ v level', start.Yields v ts' ∧ Operation level' v e ∧ floor < level'.rank ∧ Settled floor ts' := by
  rcases operators_cases read with ⟨ahead, peeked, loose, rfl, rfl⟩ | ⟨symbol, n, ahead, found, above⟩
  · exact ⟨u, level, taken, operation, low, settled_of_loose peeked loose⟩
  · obtain ⟨right, next, right', next', first, second, rest⟩ := (operators_go ahead found above).mp read
    obtain ⟨middle, member, rfl⟩ := (precedence?_iff symbol n).mp found
    have looser : middle.rank ≤ level.rank := settled _ _ ahead found
    obtain ⟨tight, step, tighter⟩ := Level.tighter_of_symbol member
    have low' : middle.rank < Level.call.rank := Nat.lt_of_lt_of_le tighter tight.rank_le_call
    obtain ⟨v, other, taken', operation', above', settled'⟩ :=
      sound_operators_of_operand before low' first second
    have combined := Operation.combine member step (operation.loosen looser)
      (operation'.loosen (Level.rank_tighter step above'))
    exact before.operators (taken.append (ahead.cons taken')) combined above settled' rest

theorem sound_operand : Sound Operand (Descent.operand (bound + 1)) := by
  intro ts e ts' read
  obtain ⟨func, next, first, rest⟩ := operand_ok.mp read
  obtain ⟨u, taken, atom⟩ := before.atom _ _ _ first
  exact before.calls taken (.atom atom) rest

theorem sound_calls {func : Expr} (taken : start.Yields u ts) (operand : Operand u func)
    (read : Descent.calls (bound + 1) func ts = .ok (e, ts')) : ∃ v, start.Yields v ts' ∧ Operand v e := by
  rcases calls_cases read with ⟨_, _, _, rfl, rfl⟩ | ahead
  · exact ⟨u, taken, operand⟩
  · obtain ⟨args, inner, _, listed, rest⟩ := (calls_go ahead).mp read
    obtain ⟨v, taken', items⟩ := sound_listed before.expression listed
    have called := taken.append (ahead.cons (taken'.append listed.closed.yields))
    exact before.calls called (.call operand items) rest

theorem sound_atom : Sound Atom (Descent.atom (bound + 1)) :=
  sound_atomForm before.expression (expression_visible bound)

end Bounds

theorem allSound (bound : Nat) : AllSound bound := by
  induction bound with
  | zero =>
      refine ⟨?_, ?_, ?_, ?_, ?_⟩
      · intro ts e ts' read
        cases read
      · intro ts e ts' read
        cases read
      · intro ts e ts' read
        cases read
      · intro _ _ _ _ _ _ _ _ read
        cases read
      · intro _ _ _ _ _ _ _ _ _ _ _ _ read
        cases read
  | succ bound before =>
      exact {
        expression := sound_expression before
        operand := sound_operand before
        atom := sound_atom before
        calls := sound_calls before
        operators := sound_operators before }

theorem sound_sequence {es : List Expr} (read : sequence bound ts = .ok es) :
    (∃ p, ts.ending = .ended p) ∧ Program ts.lexemes es := by
  induction bound generalizing ts es with
  | zero => cases read
  | succ bound ih =>
      rcases sequence_ok.mp read with ⟨ended, rfl⟩ | ⟨e, behind, first, rest⟩
      · obtain ⟨empty, ending⟩ := Tokens.peek_none.mp ended
        rw [Tokens.lexemes, empty]
        exact ⟨ending, .none⟩
      · obtain ⟨u, taken, operation⟩ := (allSound bound).expression _ _ _ first
        rw [← taken.ending, taken.lexemes]
        rcases rest with ⟨ended, rfl⟩ | ⟨separated, others, more, rfl⟩
        · obtain ⟨empty, ending⟩ := Tokens.peek_none.mp ended
          rw [Tokens.lexemes, empty, List.map_nil, List.append_nil]
          exact ⟨ending, .last operation⟩
        · obtain ⟨ending, program⟩ := ih more
          rw [separated.yields.lexemes]
          exact ⟨ending, .more operation program⟩

end Descent

end Trampoline
