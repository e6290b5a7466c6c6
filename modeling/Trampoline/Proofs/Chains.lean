import Trampoline.Proofs.Phrases

/-!
Every phrase has a greedy form: each body, branch and argument list reaches as far to the right as it can. The
descent front end reads the greedy forms without going back, and so it accepts exactly the phrases.
-/

set_option autoImplicit false

namespace Trampoline

namespace Phrase

inductive Lead : List Lexeme → List Lexeme → Prop where
  | keyword (u : List Lexeme) : Lead (.keyword .then_ :: u) u
  | brace (u : List Lexeme) : Lead (.punctuation '\x7b' :: u) (.punctuation '\x7b' :: u)

mutual

-- The flag says that a conditional at the end lacks its second branch, so that one could follow.
inductive Chain : List Lexeme → Bool → Prop where
  | core {u v : List Lexeme} : Core u → Arguments v → Chain (u ++ v) false
  | operator {level : Level} {symbol : String} {u v w : List Lexeme} {short : Bool} :
      symbol ∈ level.symbols → Core u → Arguments v → Chain w short →
        Chain (u ++ (v ++ .operator symbol :: w)) short
  | bodied {u v : List Lexeme} {short : Bool} : Header u → Chain v short → Chain (u ++ v) short
  | short {u v w : List Lexeme} {a b : Bool} :
      Chain u a → Lead v w → Chain w b → Chain (.keyword .if_ :: (u ++ v)) true
  | full {u v w x : List Lexeme} {a b : Bool} :
      Chain u a → Lead v w → Chain w false → Chain x b →
        Chain (.keyword .if_ :: (u ++ (v ++ .keyword .else_ :: x))) b

inductive Core : List Lexeme → Prop where
  | number (x : Float) : Core [.number x]
  | text (s : String) : Core [.text s]
  | name (x : String) : Core [.name x]
  | yes : Core [.keyword .true_]
  | no : Core [.keyword .false_]
  | group {u : List Lexeme} {short : Bool} :
      Chain u short → Core (.punctuation '(' :: (u ++ [.punctuation ')']))
  | block {u : List Lexeme} {shorts : List Bool} :
      Separated Chain u shorts (.punctuation ';') → Core (.punctuation '\x7b' :: (u ++ [.punctuation '\x7d']))

inductive Arguments : List Lexeme → Prop where
  | none : Arguments []
  | more {u v : List Lexeme} {shorts : List Bool} :
      Separated Chain u shorts (.punctuation ',') → Arguments v →
        Arguments (.punctuation '(' :: (u ++ .punctuation ')' :: v))

inductive Header : List Lexeme → Prop where
  | function {word : Keyword} {s u : List Lexeme} {self : Option String} {params : List String} :
      word = .lambda ∨ word = .lambdaSign → SelfName s self → Separated Name u params (.punctuation ',') →
        Header (.keyword word :: (s ++ .punctuation '(' :: (u ++ [.punctuation ')'])))
  | bindings {s u : List Lexeme} {self : Option String} {shorts : List Bool} :
      SelfName s self → Separated Init u shorts (.punctuation ',') →
        Header (.keyword .let_ :: (s ++ .punctuation '(' :: (u ++ [.punctuation ')'])))

inductive Init : List Lexeme → Bool → Prop where
  | init {x : String} {u : List Lexeme} {short : Bool} :
      Chain u short → Init (.name x :: .operator "=" :: u) short

end

theorem Lead.append {u v : List Lexeme} (lead : Lead u v) (x : List Lexeme) : Lead (u ++ x) (v ++ x) := by
  cases lead with
  | keyword _ => exact .keyword _
  | brace _ => exact .brace _

theorem Core.chain {u : List Lexeme} (core : Core u) : ∃ short, Chain u short :=
  ⟨false, List.append_nil u ▸ .core core .none⟩

section Extension

variable {x : List Lexeme}

theorem Chain.extend (cores : ∀ u v, Core u → Arguments v → ∃ short, Chain (u ++ (v ++ x)) short) :
    ∀ {u : List Lexeme} {short : Bool}, Chain u short → ∃ short', Chain (u ++ x) short'
  | _, _, .core head arguments => by
      rw [List.append_assoc]
      exact cores _ _ head arguments
  | _, _, .operator member head arguments rest => by
      obtain ⟨short, extended⟩ := Chain.extend cores rest
      simp only [List.append_assoc, List.cons_append]
      exact ⟨short, .operator member head arguments extended⟩
  | _, _, .bodied header body => by
      obtain ⟨short, extended⟩ := Chain.extend cores body
      rw [List.append_assoc]
      exact ⟨short, .bodied header extended⟩
  | _, _, .short test lead branch => by
      obtain ⟨short, extended⟩ := Chain.extend cores branch
      rw [List.cons_append, List.append_assoc]
      exact ⟨true, .short test (lead.append x) extended⟩
  | _, _, .full test lead branch other => by
      obtain ⟨short, extended⟩ := Chain.extend cores other
      simp only [List.append_assoc, List.cons_append]
      exact ⟨short, .full test lead branch extended⟩

theorem Arguments.append {u v : List Lexeme} (first : Arguments u) (second : Arguments v) :
    Arguments (u ++ v) :=
  match first with
  | .none => second
  | .more items rest => by
      simp only [List.cons_append, List.append_assoc]
      exact .more items (rest.append second)

theorem Chain.operate {level : Level} {symbol : String} {u v : List Lexeme} {a b : Bool}
    (member : symbol ∈ level.symbols) (left : Chain u a) (right : Chain v b) :
    ∃ short, Chain (u ++ .operator symbol :: v) short :=
  left.extend fun _ _ head arguments => ⟨b, .operator member head arguments right⟩

theorem Chain.call {u v : List Lexeme} {short : Bool} {shorts : List Bool} (func : Chain u short)
    (args : Separated Chain v shorts (.punctuation ',')) :
    ∃ short', Chain (u ++ .punctuation '(' :: (v ++ [.punctuation ')'])) short' :=
  func.extend fun _ _ head arguments => ⟨false, .core head (arguments.append (.more args .none))⟩

theorem Chain.otherwise {w : List Lexeme} {b : Bool} (other : Chain w b) :
    ∀ {u : List Lexeme} {short : Bool}, Chain u short → short = true →
      ∃ short', Chain (u ++ .keyword .else_ :: w) short'
  | _, _, .core _ _, lacking => by cases lacking
  | _, _, .operator member head arguments rest, lacking => by
      obtain ⟨short, extended⟩ := Chain.otherwise other rest lacking
      simp only [List.append_assoc, List.cons_append]
      exact ⟨short, .operator member head arguments extended⟩
  | _, _, .bodied header body, lacking => by
      obtain ⟨short, extended⟩ := Chain.otherwise other body lacking
      rw [List.append_assoc]
      exact ⟨short, .bodied header extended⟩
  | _, _, .short (b := inner) test lead branch, _ => by
      rw [List.cons_append, List.append_assoc]
      by_cases deeper : inner = true
      · obtain ⟨short, extended⟩ := Chain.otherwise other branch deeper
        exact ⟨true, .short test (lead.append _) extended⟩
      · obtain rfl := Bool.eq_false_iff.mpr deeper
        exact ⟨b, .full test lead branch other⟩
  | _, _, .full test lead branch last, lacking => by
      obtain ⟨short, extended⟩ := Chain.otherwise other last lacking
      simp only [List.append_assoc, List.cons_append]
      exact ⟨short, .full test lead branch extended⟩

theorem Chain.conditional {u v w x : List Lexeme} {a b c : Bool} (test : Chain u a) (lead : Lead v w)
    (branch : Chain w b) (other : Chain x c) :
    ∃ short, Chain (.keyword .if_ :: (u ++ (v ++ .keyword .else_ :: x))) short := by
  by_cases lacking : b = true
  · obtain ⟨_, extended⟩ := Chain.otherwise other branch lacking
    exact ⟨true, .short test (lead.append _) extended⟩
  · obtain rfl := Bool.eq_false_iff.mpr lacking
    exact ⟨c, .full test lead branch other⟩

end Extension

mutual

theorem Operation.chain {level : Level} {u : List Lexeme} {e : Expr} :
    Operation level u e → ∃ short, Chain u short
  | .operand operand => operand.chain
  | .tighter _ operation => operation.chain
  | .assignment target value => by
      obtain ⟨_, left⟩ := target.chain
      obtain ⟨_, right⟩ := value.chain
      exact left.operate (by decide : "=" ∈ Level.assignment.symbols) right
  | .binary _ member _ first second => by
      obtain ⟨_, left⟩ := first.chain
      obtain ⟨_, right⟩ := second.chain
      exact left.operate member right

theorem Operand.chain {u : List Lexeme} {e : Expr} : Operand u e → ∃ short, Chain u short
  | .atom atom => atom.chain
  | .call func args => by
      obtain ⟨_, func'⟩ := func.chain
      obtain ⟨_, args'⟩ := chains args
      exact func'.call args'

theorem Atom.chain {u : List Lexeme} {e : Expr} : Atom u e → ∃ short, Chain u short
  | .number x => (Core.number x).chain
  | .text s => (Core.text s).chain
  | .name x => (Core.name x).chain
  | .yes => Core.yes.chain
  | .no => Core.no.chain
  | .group inner => by
      obtain ⟨_, inner'⟩ := inner.chain
      exact (Core.group inner').chain
  | .nothing => (Core.block .none).chain
  | .single item => by
      obtain ⟨_, item'⟩ := chains item
      exact (Core.block item').chain
  | .block items => by
      obtain ⟨_, items'⟩ := chains items
      exact (Core.block items').chain
  | .conditional test branch other => by
      obtain ⟨_, test'⟩ := test.chain
      obtain ⟨_, _, lead, branch'⟩ := branch.chain
      rcases other.chain with rfl | ⟨_, _, rfl, other'⟩
      · rw [List.append_nil]
        exact ⟨true, .short test' lead branch'⟩
      · exact test'.conditional lead branch' other'
  | .function word self params body => by
      obtain ⟨_, body'⟩ := body.chain
      have bodied := Chain.bodied (.function word self params) body'
      simp only [List.append_assoc, List.cons_append, List.nil_append] at bodied
      exact ⟨_, bodied⟩
  | .letIn bindings body => by
      obtain ⟨_, bindings'⟩ := inits bindings
      obtain ⟨_, body'⟩ := body.chain
      have bodied := Chain.bodied (.bindings .none bindings') body'
      simp only [List.append_assoc, List.cons_append, List.nil_append] at bodied
      exact ⟨_, bodied⟩
  | .namedLet (x := x) bindings body => by
      obtain ⟨_, bindings'⟩ := inits bindings
      obtain ⟨_, body'⟩ := body.chain
      have bodied := Chain.bodied (.bindings (.name x) bindings') body'
      simp only [List.append_assoc, List.cons_append, List.nil_append] at bodied
      exact ⟨_, bodied⟩

theorem Branch.chain {u : List Lexeme} {e : Expr} : Branch u e → ∃ v short, Lead u v ∧ Chain v short
  | .led operation => by
      obtain ⟨short, chain⟩ := operation.chain
      exact ⟨_, short, .keyword _, chain⟩
  | .braced operation => by
      obtain ⟨short, chain⟩ := operation.chain
      exact ⟨_, short, .brace _, chain⟩

theorem Otherwise.chain {u : List Lexeme} {e : Expr} :
    Otherwise u e → u = [] ∨ ∃ v short, u = .keyword .else_ :: v ∧ Chain v short
  | .none => .inl rfl
  | .led operation => by
      obtain ⟨short, chain⟩ := operation.chain
      exact .inr ⟨_, short, rfl, chain⟩

theorem Bound.chain {u : List Lexeme} {b : Binding} : Bound u b → ∃ short, Init u short
  | .bound operation => by
      obtain ⟨short, chain⟩ := operation.chain
      exact ⟨short, .init chain⟩

theorem chains {separator : Lexeme} {u : List Lexeme} {es : List Expr} :
    Separated (Operation .assignment) u es separator → ∃ shorts, Separated Chain u shorts separator
  | .none => ⟨[], .none⟩
  | .last operation => by
      obtain ⟨short, chain⟩ := operation.chain
      exact ⟨[short], .last chain⟩
  | .more operation rest => by
      obtain ⟨short, chain⟩ := operation.chain
      obtain ⟨shorts, others⟩ := chains rest
      exact ⟨short :: shorts, .more chain others⟩

theorem inits {separator : Lexeme} {u : List Lexeme} {bs : List Binding} :
    Separated Bound u bs separator → ∃ shorts, Separated Init u shorts separator
  | .none => ⟨[], .none⟩
  | .last bound => by
      obtain ⟨short, init⟩ := bound.chain
      exact ⟨[short], .last init⟩
  | .more bound rest => by
      obtain ⟨short, init⟩ := bound.chain
      obtain ⟨shorts, others⟩ := inits rest
      exact ⟨short :: shorts, .more init others⟩

end

end Phrase

namespace Descent

open Phrase

variable {ts mid ts' : Tokens} {bound : Nat}

-- Nothing that comes next could extend an expression; a second branch could not if one is lacking.
def Stops (short : Bool) (ts : Tokens) : Prop :=
  ∃ ahead, ts.peek = .ok ahead ∧ ahead ≠ some (.punctuation '(') ∧
    (∀ l, ahead = some l → levelAbove? 0 l = none) ∧ (short = true → ahead ≠ some (.keyword .else_))

theorem stops_at_mark {mark : Char} {short : Bool} (ahead : ts.Ahead (.punctuation mark)) (other : mark ≠ '(') :
    Stops short ts := by
  refine ⟨_, ahead, by simp [other], ?_, by simp⟩
  rintro _ ⟨⟩
  rfl

theorem stops_at_keyword {word : Keyword} {short : Bool} (ahead : ts.Ahead (.keyword word))
    (other : short = true → word ≠ .else_) : Stops short ts := by
  refine ⟨_, ahead, by simp, ?_, by simpa using other⟩
  rintro _ ⟨⟩
  rfl

theorem stops_weaken {short : Bool} (stops : Stops true ts) : Stops short ts := by
  obtain ⟨ahead, peeked, open', loose, other⟩ := stops
  exact ⟨ahead, peeked, open', loose, fun _ => other rfl⟩

theorem levelAbove?_none {floor : Nat} {l : Lexeme} (loose : levelAbove? 0 l = none) :
    levelAbove? floor l = none := by
  cases l with
  | operator symbol =>
      cases found : precedence? symbol with
      | none => simp [levelAbove?, found]
      | some n =>
          have zero : n = 0 := by simpa [levelAbove?, found, Option.filter] using loose
          simp [levelAbove?, found, Option.filter, zero]
  | _ => rfl

inductive Tail : Nat → Tokens → Tokens → Prop where
  | done {bound : Nat} {short : Bool} {ts : Tokens} : Stops short ts → Tail (bound + 1) ts ts
  | more {bound n : Nat} {symbol : String} {ts next ts' : Tokens} :
      ts.Ahead (.operator symbol) → precedence? symbol = some n →
        (∀ b, bound ≤ b → ∃ e, operand b ts.tail = .ok (e, next)) → Tail bound next ts' →
          Tail (bound + 1) ts ts'

theorem Tail.mono {a b : Nat} (tail : Tail a ts ts') (le : a ≤ b) : Tail b ts ts' := by
  induction tail generalizing b with
  | done stops =>
      obtain ⟨b, rfl⟩ : ∃ k, b = k + 1 := ⟨b - 1, by omega⟩
      exact .done stops
  | more ahead found operands _ ih =>
      obtain ⟨b, rfl⟩ : ∃ k, b = k + 1 := ⟨b - 1, by omega⟩
      exact .more ahead found (fun c enough => operands c (by omega)) (ih (by omega))

theorem operators_of_tail (need : Nat) :
    ∀ (left : Expr) (floor : Nat) {ts : Tokens} {bound : Nat}, Tail need ts ts' → need ≤ bound →
      ∃ e mid rest, operators bound left floor ts = .ok (e, mid) ∧ rest ≤ need ∧ Tail rest mid ts' ∧
        (floor = 0 → mid = ts') := by
  induction need using Nat.strongRecOn with
  | ind need ih =>
      intro left floor ts bound tail enough
      obtain ⟨bound, rfl⟩ : ∃ k, bound = k + 1 := ⟨bound - 1, by cases tail <;> omega⟩
      cases tail with
      | done stops =>
          have stops' := stops
          obtain ⟨ahead, peeked, _, loose, _⟩ := stops
          have stop : operators (bound + 1) left floor ts' = .ok (left, ts') :=
            operators_stop peeked fun l found => levelAbove?_none (loose l found)
          exact ⟨left, _, _, stop, Nat.le_refl _, .done stops', fun _ => rfl⟩
      | @more need n symbol _ next _ ahead found operands rest =>
          have enough' : need ≤ bound := by omega
          by_cases above : floor < n
          · obtain ⟨right, first⟩ := operands bound enough'
            obtain ⟨right', next', need', second, le, rest', _⟩ := ih need (by omega) right n rest enough'
            obtain ⟨e, mid, need'', third, le', rest'', all⟩ :=
              ih need' (by omega) (combine symbol left right') floor rest' (Nat.le_trans le enough')
            exact ⟨e, mid, need'', (operators_go ahead found above).mpr
              ⟨right, next, right', next', first, second, third⟩, by omega, rest'', all⟩
          · have loose : ∀ l, some (.operator symbol) = some l → levelAbove? floor l = none := by
              rintro _ ⟨⟩
              simpa [levelAbove?, found, Option.filter] using above
            refine ⟨left, ts, _, operators_stop ahead loose, Nat.le_refl _,
              .more ahead found operands rest, ?_⟩
            rintro rfl
            obtain ⟨level, _, rfl⟩ := (precedence?_iff symbol n).mp found
            exact absurd level.rank_pos above

-- An operand and a tail; four units of the bound for each token are enough.
def Unfolds (n : Nat) (ts ts' : Tokens) : Prop :=
  ∃ k m next, n = k + m ∧ 0 < k ∧ (∀ b, 4 * k - 2 ≤ b → ∃ e, operand b ts = .ok (e, next)) ∧
    Tail (4 * m + 1) next ts'

theorem expression_of_unfolds {n : Nat} (unfolds : Unfolds n ts ts') (enough : 4 * n ≤ bound) :
    ∃ e, expression bound ts = .ok (e, ts') := by
  obtain ⟨k, m, next, rfl, positive, operands, tail⟩ := unfolds
  obtain ⟨bound, rfl⟩ : ∃ b, bound = b + 1 := ⟨bound - 1, by omega⟩
  obtain ⟨left, first⟩ := operands bound (by omega)
  obtain ⟨e, mid, _, rest, _, _, all⟩ := operators_of_tail _ left 0 tail (by omega : 4 * m + 1 ≤ bound)
  obtain rfl := all rfl
  exact ⟨e, expression_ok.mpr ⟨left, next, first, rest⟩⟩

def Itemized {α β : Type} (stop : Char) (phrase : List Lexeme → β → Prop) (item : Reader α) (longest : Nat) :
    Prop :=
  ∀ u x ts ts' mark, phrase u x → u.length ≤ longest → ts.Yields u ts' → ts'.Ahead (.punctuation mark) →
    mark ≠ '(' → ∃ y l rest, item ts = .ok (y, ts') ∧ u = l :: rest ∧ l ≠ .punctuation stop

theorem listed_of_separated {α β : Type} {phrase : List Lexeme → β → Prop} {item : Reader α} {u : List Lexeme}
    {xs : List β} {stop separator : Char} {longest : Nat} (items : Itemized stop phrase item longest)
    (separated : Separated phrase u xs (.punctuation separator)) (short : u.length ≤ longest)
    (plain : separator ≠ '(' ∧ stop ≠ '(') (taken : ts.Yields u ts') (closed : ts'.Ahead (.punctuation stop)) :
    ∃ ys, Listed stop separator item ts ys ts' ∧ ys.length ≤ u.length := by
  generalize mark : Lexeme.punctuation separator = between at separated
  induction separated generalizing ts with
  | none =>
      obtain rfl := Tokens.yields_nil.mp taken
      exact ⟨[], .none closed, Nat.le_refl _⟩
  | last phrase =>
      obtain ⟨y, l, rest, read, rfl, other⟩ := items _ _ _ _ _ phrase short taken closed plain.2
      have ahead := (Tokens.yields_cons.mp taken).1
      exact ⟨[y], .last ahead other read closed, by simp⟩
  | @more between u v _ _ phrase _ ih =>
      subst mark
      obtain ⟨next, taken, behind⟩ := Tokens.yields_append.mp taken
      obtain ⟨separator, behind⟩ := Tokens.yields_cons.mp behind
      simp only [List.length_append, List.length_cons] at short ⊢
      obtain ⟨y, l, rest, read, rfl, other⟩ := items _ _ _ _ _ phrase (by omega) taken separator plain.1
      have ahead := (Tokens.yields_cons.mp taken).1
      obtain ⟨ys, listed, fewer⟩ := ih (by omega) behind rfl
      exact ⟨y :: ys, .more ahead other read separator listed, by simp; omega⟩

def ReadAsIs (u : List Lexeme) (short : Bool) : Prop :=
  ∀ ts ts', ts.Yields u ts' → Stops short ts' → Unfolds u.length ts ts'

theorem ReadAsIs.expression {u : List Lexeme} {short : Bool} (reads : ReadAsIs u short) (taken : ts.Yields u ts')
    (stops : Stops short ts') (enough : 4 * u.length ≤ bound) : ∃ e, expression bound ts = .ok (e, ts') :=
  expression_of_unfolds (reads ts ts' taken stops) enough

theorem atom_start {r : Expr × Tokens} {mark : Char} (read : atom bound ts = .ok r)
    (ahead : ts.Ahead (.punctuation mark)) : mark = '(' ∨ mark = '\x7b' := by
  cases bound with
  | zero => cases read
  | succ bound =>
      rw [atom, atomForm, bind_eq_ok] at read
      obtain ⟨_, peeked, read⟩ := read
      cases peeked.symm.trans ahead
      split at read <;> simp_all [Tokens.fault]

theorem expression_start {r : Expr × Tokens} {mark : Char} (read : expression bound ts = .ok r)
    (ahead : ts.Ahead (.punctuation mark)) : mark = '(' ∨ mark = '\x7b' := by
  cases bound with
  | zero => cases read
  | succ bound =>
      obtain ⟨_, _, first, _⟩ := expression_ok.mp read
      cases bound with
      | zero => cases first
      | succ bound =>
          obtain ⟨_, _, first, _⟩ := operand_ok.mp first
          exact atom_start first ahead

theorem itemized_expression {stop : Char} {longest : Nat} (closing : stop ≠ '(' ∧ stop ≠ '\x7b')
    (enough : 4 * longest ≤ bound) : Itemized stop ReadAsIs (expression bound) longest := by
  intro u short ts ts' mark reads fits taken behind plain
  obtain ⟨e, read⟩ := reads.expression taken (stops_at_mark behind plain) (by omega : 4 * u.length ≤ bound)
  obtain ⟨k, m, _, length, positive, _⟩ := reads ts ts' taken (stops_at_mark behind plain)
  cases u with
  | nil =>
      rw [List.length_nil] at length
      omega
  | cons l rest =>
      refine ⟨e, l, rest, read, rfl, ?_⟩
      rintro rfl
      rcases expression_start read (Tokens.yields_cons.mp taken).1 with same | same
      · exact closing.1 same
      · exact closing.2 same

theorem itemized_name {longest : Nat} : Itemized ')' Name name longest := by
  intro u x ts ts' mark named _ taken _ _
  cases named with
  | name x =>
      obtain ⟨ahead, behind⟩ := Tokens.yields_cons.mp taken
      exact ⟨x, _, [], name_ok.mpr ⟨ahead, Tokens.yields_nil.mp behind⟩, rfl, by simp⟩

def ReadsInit (u : List Lexeme) (short : Bool) : Prop :=
  ∃ x v, u = .name x :: .operator "=" :: v ∧ ReadAsIs v short

theorem itemized_binding {longest : Nat} (enough : 4 * longest ≤ bound) :
    Itemized ')' ReadsInit (binding (expression bound)) longest := by
  intro u short ts ts' mark init fits taken behind plain
  obtain ⟨x, v, rfl, reads⟩ := init
  obtain ⟨named, taken⟩ := Tokens.yields_cons.mp taken
  obtain ⟨equals, taken⟩ := Tokens.yields_cons.mp taken
  simp only [List.length_cons] at fits
  obtain ⟨e, read⟩ := reads.expression taken (stops_at_mark behind plain) (by omega : 4 * v.length ≤ bound)
  exact ⟨.mk x e, _, _, binding_ok.mpr ⟨x, e, named, equals, read, rfl⟩, rfl, by simp⟩

def ReadsCore (u : List Lexeme) : Prop :=
  0 < u.length ∧
    ∀ ts ts', ts.Yields u ts' → ∀ b, 4 * u.length - 3 ≤ b → ∃ e, atom b ts = .ok (e, ts')

def ReadsArguments (u : List Lexeme) : Prop :=
  ∀ ts ts' ahead, ts.Yields u ts' → ts'.peek = .ok ahead → ahead ≠ some (.punctuation '(') →
    ∀ b func, 4 * u.length + 1 ≤ b → ∃ e, calls b func ts = .ok (e, ts')

def ReadsHeader (u : List Lexeme) : Prop :=
  0 < u.length ∧ ∀ ts mid ts' n, ts.Yields u mid → (∀ b, 4 * n ≤ b → ∃ e, expression b mid = .ok (e, ts')) →
    ∀ b, 4 * (u.length + n) - 3 ≤ b → ∃ e, atom b ts = .ok (e, ts')

section Cores

theorem readsCore_leaf {l : Lexeme} (leaf : ∀ bound ts, ts.Ahead l → ∃ e, atom (bound + 1) ts = .ok (e, ts.tail)) :
    ReadsCore [l] := by
  refine ⟨Nat.succ_pos _, ?_⟩
  intro ts ts' taken b enough
  simp only [List.length_cons, List.length_nil] at enough
  obtain ⟨b, rfl⟩ : ∃ k, b = k + 1 := ⟨b - 1, by omega⟩
  obtain ⟨ahead, behind⟩ := Tokens.yields_cons.mp taken
  obtain rfl := Tokens.yields_nil.mp behind
  exact leaf b ts ahead

theorem readsCore_group {u : List Lexeme} {short : Bool} (reads : ReadAsIs u short) :
    ReadsCore (.punctuation '(' :: (u ++ [.punctuation ')'])) := by
  refine ⟨Nat.succ_pos _, ?_⟩
  intro ts ts' taken b enough
  simp only [List.length_cons, List.length_append, List.length_nil] at enough
  obtain ⟨b, rfl⟩ : ∃ k, b = k + 1 := ⟨b - 1, by omega⟩
  obtain ⟨opened, inner, inside, closed, rfl⟩ := Tokens.yields_enclosed taken
  have stops : Stops short inner := stops_at_mark closed (by decide)
  obtain ⟨e, read⟩ := reads.expression inside stops (by omega : 4 * u.length ≤ b)
  refine ⟨e, ?_⟩
  rw [atom, atomForm, opened]
  exact group_ok.mpr ⟨opened, inner, read, closed, rfl⟩

theorem readsCore_block {u : List Lexeme} {shorts : List Bool}
    (items : Separated ReadAsIs u shorts (.punctuation ';')) :
    ReadsCore (.punctuation '\x7b' :: (u ++ [.punctuation '\x7d'])) := by
  refine ⟨Nat.succ_pos _, ?_⟩
  intro ts ts' taken b enough
  simp only [List.length_cons, List.length_append, List.length_nil] at enough
  obtain ⟨b, rfl⟩ : ∃ k, b = k + 1 := ⟨b - 1, by omega⟩
  obtain ⟨opened, inner, inside, closed, rfl⟩ := Tokens.yields_enclosed taken
  have itemized : Itemized '\x7d' ReadAsIs (expression b) u.length := itemized_expression (by decide) (by omega)
  obtain ⟨es, listed, fewer⟩ :=
    listed_of_separated itemized items (Nat.le_refl _) (by decide) inside closed
  refine ⟨.block es, ?_⟩
  rw [atom, atomForm, opened]
  exact (block_ok (expression_visible b)).mpr ⟨opened, es, inner, by omega, listed, rfl, rfl⟩

theorem readsArguments_none : ReadsArguments [] := by
  intro ts ts' ahead taken peeked other b func enough
  obtain ⟨b, rfl⟩ : ∃ k, b = k + 1 := ⟨b - 1, by omega⟩
  obtain rfl := Tokens.yields_nil.mp taken
  exact ⟨func, calls_stop peeked other⟩

theorem readsArguments_more {u v : List Lexeme} {shorts : List Bool}
    (items : Separated ReadAsIs u shorts (.punctuation ',')) (rest : ReadsArguments v) :
    ReadsArguments (.punctuation '(' :: (u ++ .punctuation ')' :: v)) := by
  intro ts ts' ahead taken peeked other b func enough
  simp only [List.length_cons, List.length_append] at enough
  obtain ⟨b, rfl⟩ : ∃ k, b = k + 1 := ⟨b - 1, by omega⟩
  obtain ⟨opened, behind⟩ := Tokens.yields_cons.mp taken
  obtain ⟨inner, inside, behind⟩ := Tokens.yields_append.mp behind
  obtain ⟨closed, behind⟩ := Tokens.yields_cons.mp behind
  have itemized : Itemized ')' ReadAsIs (expression b) u.length := itemized_expression (by decide) (by omega)
  obtain ⟨args, listed, fewer⟩ :=
    listed_of_separated itemized items (Nat.le_refl _) (by decide) inside closed
  obtain ⟨e, read⟩ := rest _ _ _ behind peeked other b (.call func args) (by omega)
  exact ⟨e, (calls_go opened).mpr ⟨args, inner, by omega, listed, read⟩⟩

end Cores

section Headers

variable {s u : List Lexeme} {self : Option String}

theorem name?_of_selfName (named : SelfName s self) (taken : ts.Yields s mid)
    (opened : mid.Ahead (.punctuation '(')) : name? ts = .ok (self, mid) := by
  cases named with
  | none =>
      obtain rfl := Tokens.yields_nil.mp taken
      exact name?_ok.mpr (.inr ⟨_, opened, by simp, rfl, rfl⟩)
  | name x =>
      obtain ⟨ahead, behind⟩ := Tokens.yields_cons.mp taken
      obtain rfl := Tokens.yields_nil.mp behind
      exact name?_ok.mpr (.inl ⟨x, ahead, rfl, rfl⟩)

theorem readsHeader_function {word : Keyword} {params : List String}
    (spelled : word = .lambda ∨ word = .lambdaSign) (named : SelfName s self)
    (names : Separated Name u params (.punctuation ',')) :
    ReadsHeader (.keyword word :: (s ++ .punctuation '(' :: (u ++ [.punctuation ')']))) := by
  refine ⟨Nat.succ_pos _, ?_⟩
  intro ts mid ts' n taken body b enough
  simp only [List.length_cons, List.length_append, List.length_nil] at enough
  obtain ⟨b, rfl⟩ : ∃ k, b = k + 1 := ⟨b - 1, by omega⟩
  obtain ⟨ahead, behind⟩ := Tokens.yields_cons.mp taken
  obtain ⟨head, start, behind⟩ := Tokens.yields_append.mp behind
  obtain ⟨opened, inner, inside, closed, rfl⟩ := Tokens.yields_enclosed behind
  obtain ⟨params', listed, fewer⟩ :=
    listed_of_separated itemized_name names (Nat.le_refl _) (by decide) inside closed
  obtain ⟨e, read⟩ := body b (by omega)
  have named' := name?_of_selfName named start opened
  have function : function (expression b) b ts = .ok (.lambda params' e self, ts') :=
    function_ok.mpr ⟨self, params', e, head, inner, named', opened, by omega, listed, read, rfl⟩
  refine ⟨.lambda params' e self, ?_⟩
  rw [atom, atomForm, ahead]
  rcases spelled with rfl | rfl
  · exact function
  · exact function

theorem readsHeader_bindings {shorts : List Bool} (named : SelfName s self)
    (inits : Separated ReadsInit u shorts (.punctuation ',')) :
    ReadsHeader (.keyword .let_ :: (s ++ .punctuation '(' :: (u ++ [.punctuation ')']))) := by
  refine ⟨Nat.succ_pos _, ?_⟩
  intro ts mid ts' n taken body b enough
  simp only [List.length_cons, List.length_append, List.length_nil] at enough
  obtain ⟨b, rfl⟩ : ∃ k, b = k + 1 := ⟨b - 1, by omega⟩
  obtain ⟨ahead, behind⟩ := Tokens.yields_cons.mp taken
  obtain ⟨head, start, behind⟩ := Tokens.yields_append.mp behind
  obtain ⟨opened, inner, inside, closed, rfl⟩ := Tokens.yields_enclosed behind
  have itemized : Itemized ')' ReadsInit (binding (expression b)) u.length := itemized_binding (by omega)
  obtain ⟨bindings, listed, fewer⟩ :=
    listed_of_separated itemized inits (Nat.le_refl _) (by decide) inside closed
  obtain ⟨e, read⟩ := body b (by omega)
  have named' := name?_of_selfName named start opened
  refine ⟨letExpr self bindings e, ?_⟩
  rw [atom, atomForm, ahead]
  exact letForm_ok.mpr ⟨self, bindings, e, head, inner, named', opened, by omega, listed, read, rfl⟩

end Headers

section Chains

variable {u v w x : List Lexeme} {a b short : Bool}

theorem unfolds_of_atom {n : Nat} (positive : 0 < n) (stops : Stops short ts')
    (atoms : ∀ b, 4 * n - 3 ≤ b → ∃ e, atom b ts = .ok (e, ts')) : Unfolds n ts ts' := by
  refine ⟨n, 0, ts', rfl, positive, ?_, .done stops⟩
  intro b enough
  obtain ⟨b, rfl⟩ : ∃ k, b = k + 2 := ⟨b - 2, by omega⟩
  obtain ⟨e, read⟩ := atoms (b + 1) (by omega)
  obtain ⟨ahead, peeked, other, _⟩ := stops
  exact ⟨e, operand_ok.mpr ⟨e, ts', read, calls_stop peeked other⟩⟩

theorem operand_of_core {ahead : Option Lexeme} (core : ReadsCore u) (arguments : ReadsArguments v)
    (taken : ts.Yields (u ++ v) ts') (peeked : ts'.peek = .ok ahead)
    (other : ahead ≠ some (.punctuation '(')) :
    ∀ b, 4 * (u.length + v.length) - 2 ≤ b → ∃ e, operand b ts = .ok (e, ts') := by
  intro b enough
  have positive := core.1
  obtain ⟨b, rfl⟩ : ∃ k, b = k + 1 := ⟨b - 1, by omega⟩
  obtain ⟨mid, first, second⟩ := Tokens.yields_append.mp taken
  obtain ⟨func, read⟩ := core.2 _ _ first b (by omega)
  obtain ⟨e, read'⟩ := arguments _ _ _ second peeked other b func (by omega)
  exact ⟨e, operand_ok.mpr ⟨func, mid, read, read'⟩⟩

theorem reads_core (core : ReadsCore u) (arguments : ReadsArguments v) : ReadAsIs (u ++ v) false := by
  intro ts ts' taken stops
  have positive := core.1
  have stops' := stops
  obtain ⟨ahead, peeked, other, _⟩ := stops
  rw [List.length_append]
  exact ⟨u.length + v.length, 0, ts', rfl, by omega, operand_of_core core arguments taken peeked other, .done stops'⟩

theorem reads_operator {level : Level} {symbol : String} (member : symbol ∈ level.symbols)
    (core : ReadsCore u) (arguments : ReadsArguments v) (rest : ReadAsIs w short) :
    ReadAsIs (u ++ (v ++ .operator symbol :: w)) short := by
  intro ts ts' taken stops
  have positive := core.1
  rw [← List.append_assoc] at taken
  obtain ⟨mid, taken, behind⟩ := Tokens.yields_append.mp taken
  obtain ⟨ahead, behind⟩ := Tokens.yields_cons.mp behind
  obtain ⟨k, m, next, length, _, operands, tail⟩ := rest _ _ behind stops
  have found : precedence? symbol = some level.rank := (precedence?_iff _ _).mpr ⟨level, member, rfl⟩
  have tail' : Tail (4 * (w.length + 1) + 1) mid ts' :=
    .more ahead found (fun b enough => operands b (by omega)) (tail.mono (by omega))
  exact ⟨u.length + v.length, w.length + 1, mid, by simp [Nat.add_assoc], by omega,
    operand_of_core core arguments taken ahead (by simp), tail'⟩

theorem reads_bodied (header : ReadsHeader u) (body : ReadAsIs v short) : ReadAsIs (u ++ v) short := by
  intro ts ts' taken stops
  have positive := header.1
  obtain ⟨mid, taken, behind⟩ := Tokens.yields_append.mp taken
  rw [List.length_append]
  refine unfolds_of_atom (by omega) stops (header.2 _ _ _ _ taken ?_)
  intro b enough
  exact body.expression behind stops enough

theorem branchAt_of_lead (lead : Lead v w) (taken : ts.Yields v mid) :
    w.length ≤ v.length ∧ ∃ start, BranchAt ts start ∧ start.Yields w mid := by
  cases lead with
  | keyword u =>
      obtain ⟨ahead, behind⟩ := Tokens.yields_cons.mp taken
      exact ⟨Nat.le_succ _, ts.tail, .inr ⟨ahead, rfl⟩, behind⟩
  | brace u => exact ⟨Nat.le_refl _, ts, .inl ⟨(Tokens.yields_cons.mp taken).1, rfl⟩, taken⟩

theorem stops_at_branch {start : Tokens} (begun : BranchAt ts start) : Stops short ts := by
  rcases begun with ⟨ahead, _⟩ | ⟨ahead, _⟩
  · exact stops_at_mark ahead (by decide)
  · exact stops_at_keyword ahead (by simp)

theorem atom_of_branches (test : ReadAsIs u a) (lead : Lead v w) (branch : ReadAsIs w b)
    (ahead : ts.Ahead (.keyword .if_)) (taken : ts.tail.Yields (u ++ v) mid) (stops : Stops b mid)
    (other : ∃ no, Otherwise (expression bound) mid no ts') (enough : 4 * (u.length + v.length) ≤ bound) :
    ∃ e, atom (bound + 1) ts = .ok (e, ts') := by
  obtain ⟨after, taken, behind⟩ := Tokens.yields_append.mp taken
  obtain ⟨shorter, start, begun, inside⟩ := branchAt_of_lead lead behind
  obtain ⟨test', read⟩ := test.expression taken (stops_at_branch begun) (by omega : 4 * u.length ≤ bound)
  obtain ⟨yes, read'⟩ := branch.expression inside stops (by omega : 4 * w.length ≤ bound)
  obtain ⟨no, otherwise⟩ := other
  refine ⟨.cond test' yes no, ?_⟩
  rw [atom, atomForm, ahead]
  exact conditional_ok.mpr ⟨ahead, test', yes, no, after, start, mid, read, begun, read', otherwise, rfl⟩

theorem reads_short (test : ReadAsIs u a) (lead : Lead v w) (branch : ReadAsIs w b) :
    ReadAsIs (.keyword .if_ :: (u ++ v)) true := by
  intro ts ts' taken stops
  obtain ⟨ahead, taken⟩ := Tokens.yields_cons.mp taken
  have stops' := stops
  obtain ⟨next, peeked, _, _, none⟩ := stops
  refine unfolds_of_atom (Nat.succ_pos _) stops' ?_
  intro bound enough
  simp only [List.length_cons, List.length_append] at enough
  obtain ⟨bound, rfl⟩ : ∃ k, bound = k + 1 := ⟨bound - 1, by omega⟩
  exact atom_of_branches test lead branch ahead taken (stops_weaken stops')
    ⟨_, .inr ⟨next, peeked, none rfl, rfl, rfl⟩⟩ (by omega)

theorem reads_full (test : ReadAsIs u a) (lead : Lead v w) (branch : ReadAsIs w false) (other : ReadAsIs x b) :
    ReadAsIs (.keyword .if_ :: (u ++ (v ++ .keyword .else_ :: x))) b := by
  intro ts ts' taken stops
  obtain ⟨ahead, taken⟩ := Tokens.yields_cons.mp taken
  rw [← List.append_assoc] at taken
  obtain ⟨mid, taken, behind⟩ := Tokens.yields_append.mp taken
  obtain ⟨keyword, behind⟩ := Tokens.yields_cons.mp behind
  refine unfolds_of_atom (Nat.succ_pos _) stops ?_
  intro bound enough
  simp only [List.length_cons, List.length_append] at enough
  obtain ⟨bound, rfl⟩ : ∃ k, bound = k + 1 := ⟨bound - 1, by omega⟩
  obtain ⟨no, read⟩ := other.expression behind stops (by omega : 4 * x.length ≤ bound)
  exact atom_of_branches test lead branch ahead taken (stops_at_keyword keyword (by simp))
    ⟨no, .inl ⟨keyword, read⟩⟩ (by omega)

end Chains

mutual

theorem reads_of_chain {u : List Lexeme} {short : Bool} : Chain u short → ReadAsIs u short
  | .core core arguments => reads_core (reads_of_core core) (reads_of_arguments arguments)
  | .operator member core arguments rest =>
      reads_operator member (reads_of_core core) (reads_of_arguments arguments) (reads_of_chain rest)
  | .bodied header body => reads_bodied (reads_of_header header) (reads_of_chain body)
  | .short test lead branch => reads_short (reads_of_chain test) lead (reads_of_chain branch)
  | .full test lead branch other =>
      reads_full (reads_of_chain test) lead (reads_of_chain branch) (reads_of_chain other)

theorem reads_of_core {u : List Lexeme} : Core u → ReadsCore u
  | .number x => readsCore_leaf fun _ _ ahead => ⟨.num x, by rw [atom, atomForm, ahead]; rfl⟩
  | .text s => readsCore_leaf fun _ _ ahead => ⟨.str s, by rw [atom, atomForm, ahead]; rfl⟩
  | .name x => readsCore_leaf fun _ _ ahead => ⟨.var x, by rw [atom, atomForm, ahead]; rfl⟩
  | .yes => readsCore_leaf fun _ _ ahead => ⟨.bool true, by rw [atom, atomForm, ahead]; rfl⟩
  | .no => readsCore_leaf fun _ _ ahead => ⟨.bool false, by rw [atom, atomForm, ahead]; rfl⟩
  | .group inner => readsCore_group (reads_of_chain inner)
  | .block items => readsCore_block (reads_of_chains items)

theorem reads_of_arguments {u : List Lexeme} : Arguments u → ReadsArguments u
  | .none => readsArguments_none
  | .more items rest => readsArguments_more (reads_of_chains items) (reads_of_arguments rest)

theorem reads_of_header {u : List Lexeme} : Header u → ReadsHeader u
  | .function word self params => readsHeader_function word self params
  | .bindings self inits => readsHeader_bindings self (reads_of_inits inits)

theorem reads_of_init {u : List Lexeme} {short : Bool} : Init u short → ReadsInit u short
  | .init (x := x) (u := v) chain => ⟨x, v, rfl, reads_of_chain chain⟩

theorem reads_of_chains {separator : Lexeme} {u : List Lexeme} {shorts : List Bool} :
    Separated Chain u shorts separator → Separated ReadAsIs u shorts separator
  | .none => .none
  | .last chain => .last (reads_of_chain chain)
  | .more chain rest => .more (reads_of_chain chain) (reads_of_chains rest)

theorem reads_of_inits {separator : Lexeme} {u : List Lexeme} {shorts : List Bool} :
    Separated Init u shorts separator → Separated ReadsInit u shorts separator
  | .none => .none
  | .last init => .last (reads_of_init init)
  | .more init rest => .more (reads_of_init init) (reads_of_inits rest)

end

theorem sequence_of_chains {shorts : List Bool} {u : List Lexeme}
    (reads : Separated ReadAsIs u shorts (.punctuation ';')) (taken : ts.Yields u ts')
    (ended : ts'.peek = .ok none) (enough : 4 * u.length + 1 ≤ bound) : ∃ es, sequence bound ts = .ok es := by
  generalize mark : Lexeme.punctuation ';' = between at reads
  induction reads generalizing ts bound with
  | none =>
      obtain ⟨bound, rfl⟩ : ∃ k, bound = k + 1 := ⟨bound - 1, by omega⟩
      obtain rfl := Tokens.yields_nil.mp taken
      exact ⟨[], sequence_ok.mpr (.inl ⟨ended, rfl⟩)⟩
  | @last _ u short read =>
      obtain ⟨bound, rfl⟩ : ∃ k, bound = k + 1 := ⟨bound - 1, by omega⟩
      have stops : Stops short ts' := ⟨none, ended, by simp, by simp, by simp⟩
      obtain ⟨e, read'⟩ := ReadAsIs.expression read taken stops (by omega : 4 * u.length ≤ bound)
      exact ⟨[e], sequence_ok.mpr (.inr ⟨e, ts', read', .inl ⟨ended, rfl⟩⟩)⟩
  | @more between u v short _ read _ ih =>
      subst mark
      simp only [List.length_cons, List.length_append] at enough
      obtain ⟨bound, rfl⟩ : ∃ k, bound = k + 1 := ⟨bound - 1, by omega⟩
      obtain ⟨next, taken, behind⟩ := Tokens.yields_append.mp taken
      obtain ⟨separator, behind⟩ := Tokens.yields_cons.mp behind
      have stops : Stops short next := stops_at_mark separator (by decide)
      obtain ⟨e, read'⟩ := ReadAsIs.expression read taken stops (by omega : 4 * u.length ≤ bound)
      obtain ⟨es, rest⟩ := ih behind (by omega : 4 * v.length + 1 ≤ bound) rfl
      exact ⟨e :: es, sequence_ok.mpr (.inr ⟨e, next, read', .inr ⟨separator, es, rest, rfl⟩⟩)⟩

-- The front end accepts the token lists that are programs, and what it returns has a derivation from all
-- of the tokens.
theorem program_accepts_exactly_the_phrases (ts : Tokens) :
    ((∃ e, program ts = .ok e) ↔ (∃ p, ts.ending = .ended p) ∧ ∃ es, Program ts.lexemes es) ∧
      ∀ e, program ts = .ok e → ∃ es, e = .prog es ∧ Program ts.lexemes es := by
  have sound : ∀ e, program ts = .ok e →
      ∃ es, e = .prog es ∧ (∃ p, ts.ending = .ended p) ∧ Program ts.lexemes es := by
    intro e read
    rw [program] at read
    cases parsed : sequence (boundFor ts) ts with
    | error failure =>
        rw [parsed] at read
        cases read
    | ok es =>
        rw [parsed] at read
        cases read
        exact ⟨es, rfl, sound_sequence parsed⟩
  refine ⟨⟨?_, ?_⟩, ?_⟩
  · rintro ⟨e, read⟩
    obtain ⟨es, _, ending, phrases⟩ := sound e read
    exact ⟨ending, es, phrases⟩
  · rintro ⟨⟨p, ending⟩, es, phrases⟩
    obtain ⟨shorts, chains⟩ := chains phrases
    let last : Tokens := ⟨[], .ended p⟩
    have taken : ts.Yields ts.lexemes last := ⟨ts.list, rfl, by simp [last], by simp [last, ending]⟩
    have enough : 4 * ts.lexemes.length + 1 ≤ boundFor ts := by simp [Tokens.lexemes, boundFor]
    obtain ⟨es', read⟩ := sequence_of_chains (reads_of_chains chains) taken rfl enough
    exact ⟨.prog es', by rw [program, read]; rfl⟩
  · intro e read
    obtain ⟨es, same, _, phrases⟩ := sound e read
    exact ⟨es, same, phrases⟩

def danglingBranch : Tokens where
  list := ([.keyword .if_, .name "a", .keyword .then_, .keyword .if_, .name "b", .keyword .then_, .name "c",
    .keyword .else_, .name "d"] : List Lexeme).map fun l => ⟨l, {}, {}⟩
  ending := .ended {}

theorem danglingBranch_accepted :
    program danglingBranch =
        .ok (.prog [.cond (.var "a") (.cond (.var "b") (.var "c") (.var "d")) .hole]) ∧
      Program danglingBranch.lexemes [.cond (.var "a") (.cond (.var "b") (.var "c") (.var "d")) .hole] := by
  have read : program danglingBranch =
      .ok (.prog [.cond (.var "a") (.cond (.var "b") (.var "c") (.var "d")) .hole]) := rfl
  obtain ⟨es, same, phrases⟩ := (program_accepts_exactly_the_phrases danglingBranch).2 _ read
  cases same
  exact ⟨read, phrases⟩

end Descent

end Trampoline
