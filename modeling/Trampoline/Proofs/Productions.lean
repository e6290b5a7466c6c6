import Trampoline.Proofs.GrammarReaders
import Trampoline.Proofs.Phrases

set_option autoImplicit false

namespace Trampoline.Grammar

open Phrase (Level)

inductive Series where
  | items
  | arguments
  | parameters
  | definitions
deriving DecidableEq, Repr

-- A program is the series of its items. There is a nonterminal for all elements of a series but the first.
inductive Nonterminal where
  | series (k : Series)
  | more (k : Series)
  | expression
  | level (l : Level)
  | atom
  | block
  | conditional
  | function
  | letForm
  | namedLet
  | definition
deriving DecidableEq, Repr

-- A terminal stands in a production with the context that the next one is looked for in.
inductive Symbol where
  | terminal (t : Terminal) (after : Context)
  | nonterminal (n : Nonterminal)
deriving DecidableEq, Repr

namespace Series

def element : Series → Symbol
  | .items => .nonterminal .expression
  | .arguments => .nonterminal .expression
  | .parameters => .terminal .name .afterParam
  | .definitions => .nonterminal .definition

def separator : Series → Terminal
  | .items => .semicolon
  | _ => .comma

def context : Series → Context
  | .items => .operand
  | .arguments => .operand
  | .parameters => .listItem
  | .definitions => .listItem

def mark (k : Series) : Symbol := .terminal k.separator k.context

def Element : Series → Type
  | .items => Expr
  | .arguments => Expr
  | .parameters => String
  | .definitions => Binding

end Series

def Nonterminal.Value : Nonterminal → Type
  | .series k => List k.Element
  | .more k => List k.Element
  | .definition => Binding
  | _ => Expr

def Symbol.Value : Symbol → Type
  | .terminal _ _ => Located
  | .nonterminal n => n.Value

def Values : List Symbol → Type
  | [] => Unit
  | x :: xs => x.Value × Values xs

def Series.value : (k : Series) → k.element.Value → k.Element
  | .items, e => e
  | .arguments, e => e
  | .parameters, found => String.ofList found.text
  | .definitions, b => b

structure Rule (n : Nonterminal) where
  body : List Symbol
  build : Values body → n.Value

namespace Rule

def expression : Symbol := .nonterminal .expression

def level (l : Level) : Symbol := .nonterminal (.level l)

def rest (k : Series) : Symbol := .nonterminal (.more k)

def series (k : Series) : List (Rule (.series k)) := [
  ⟨[k.element], fun v => [k.value v.1]⟩,
  ⟨[k.element, k.mark], fun v => [k.value v.1]⟩,
  ⟨[k.element, rest k], fun v => k.value v.1 :: v.2.1⟩,
  ⟨[k.element, rest k, k.mark], fun v => k.value v.1 :: v.2.1⟩]

def more (k : Series) : List (Rule (.more k)) := [
  ⟨[k.mark, k.element], fun v => [k.value v.2.1]⟩,
  ⟨[rest k, k.mark, k.element], fun v => List.append v.1 [k.value v.2.2.1]⟩]

def apply : Level → List Char → Expr → Expr → Expr
  | .assignment, _ => .assign
  | _, symbol => .binary (String.ofList symbol)

def operation (l : Level) (operator : Terminal) (next : Level) : Rule (.level l) :=
  ⟨[level l, .terminal operator .operand, level next], fun v => apply l v.2.1.text v.1 v.2.2.1⟩

def operand (l next : Level) : Rule (.level l) := ⟨[level next], fun v => v.1⟩

def operators (l : Level) (operator : Terminal) (next : Level) : List (Rule (.level l)) :=
  [operation l operator next, operand l next]

def calls : List (Rule (.level .call)) := [
  ⟨[level .call, .terminal .leftParen .operand, .terminal .rightParen .afterOperand], fun v => .call v.1 []⟩,
  ⟨[level .call, .terminal .leftParen .operand, .nonterminal (.series .arguments),
    .terminal .rightParen .afterOperand], fun v => .call v.1 v.2.2.1⟩,
  ⟨[.nonterminal .atom], fun v => v.1⟩]

def atoms : List (Rule .atom) := [
  ⟨[.terminal .leftParen .operand, expression, .terminal .rightParen .afterOperand], fun v => v.2.1⟩,
  ⟨[.nonterminal .block], fun v => v.1⟩,
  ⟨[.nonterminal .conditional], fun v => v.1⟩,
  ⟨[.nonterminal .function], fun v => v.1⟩,
  ⟨[.nonterminal .letForm], fun v => v.1⟩,
  ⟨[.nonterminal .namedLet], fun v => v.1⟩,
  ⟨[.terminal .number .afterOperand], fun v => .num (Decimal.ofLiteral v.1.text)⟩,
  ⟨[.terminal .text .afterOperand], fun v => .str (literalText v.1.text)⟩,
  ⟨[.terminal .true_ .afterOperand], fun _ => .bool true⟩,
  ⟨[.terminal .false_ .afterOperand], fun _ => .bool false⟩,
  ⟨[.terminal .name .afterOperand], fun v => .var (String.ofList v.1.text)⟩]

def leftBrace : Symbol := .terminal .leftBrace .operand

def rightBrace : Symbol := .terminal .rightBrace .afterOperand

def blocks : List (Rule .block) := [
  ⟨[leftBrace, rightBrace], fun _ => .block []⟩,
  ⟨[leftBrace, expression, rightBrace], fun v => .block [v.2.1]⟩,
  ⟨[leftBrace, expression, Series.items.mark, rightBrace], fun v => .block [v.2.1]⟩,
  ⟨[leftBrace, expression, rest .items, rightBrace], fun v => .block (v.2.1 :: v.2.2.1)⟩,
  ⟨[leftBrace, expression, rest .items, Series.items.mark, rightBrace], fun v => .block (v.2.1 :: v.2.2.1)⟩]

def word (t : Terminal) : Symbol := .terminal t .operand

def conditionals : List (Rule .conditional) := [
  ⟨[word .if_, expression, word .then_, expression], fun v => .cond v.2.1 v.2.2.2.1 .hole⟩,
  ⟨[word .if_, expression, word .then_, expression, word .else_, expression],
    fun v => .cond v.2.1 v.2.2.2.1 v.2.2.2.2.2.1⟩,
  ⟨[word .if_, expression, .nonterminal .block], fun v => .cond v.2.1 v.2.2.1 .hole⟩,
  ⟨[word .if_, expression, .nonterminal .block, word .else_, expression], fun v => .cond v.2.1 v.2.2.1 v.2.2.2.2.1⟩]

def head (t : Terminal) : Symbol := .terminal t .binderHead

def self : Symbol := .terminal .name .binderOpen

def opening : Symbol := .terminal .leftParen .listItem

def closing : Symbol := .terminal .rightParen .operand

def functions (t : Terminal) : List (Rule .function) := [
  ⟨[head t, opening, closing, expression], fun v => .lambda [] v.2.2.2.1 none⟩,
  ⟨[head t, opening, .nonterminal (.series .parameters), closing, expression],
    fun v => .lambda v.2.2.1 v.2.2.2.2.1 none⟩,
  ⟨[head t, self, opening, closing, expression],
    fun v => .lambda [] v.2.2.2.2.1 (some (String.ofList v.2.1.text))⟩,
  ⟨[head t, self, opening, .nonterminal (.series .parameters), closing, expression],
    fun v => .lambda v.2.2.2.1 v.2.2.2.2.2.1 (some (String.ofList v.2.1.text))⟩]

def lets : List (Rule .letForm) := [
  ⟨[head .let_, opening, closing, expression], fun v => .letIn [] v.2.2.2.1⟩,
  ⟨[head .let_, opening, .nonterminal (.series .definitions), closing, expression],
    fun v => .letIn v.2.2.1 v.2.2.2.2.1⟩]

def namedLets : List (Rule .namedLet) := [
  ⟨[head .let_, self, opening, closing, expression],
    fun v => .namedLet (String.ofList v.2.1.text) [] v.2.2.2.2.1⟩,
  ⟨[head .let_, self, opening, .nonterminal (.series .definitions), closing, expression],
    fun v => .namedLet (String.ofList v.2.1.text) v.2.2.2.1 v.2.2.2.2.2.1⟩]

def definition : Rule .definition :=
  ⟨[.terminal .name .afterVariable, .terminal .equal .operand, expression],
    fun v => .mk (String.ofList v.1.text) v.2.2.1⟩

end Rule

def Nonterminal.rules : (n : Nonterminal) → List (Rule n)
  | .series .items => ⟨[], fun _ => []⟩ :: Rule.series .items
  | .series k => Rule.series k
  | .more k => Rule.more k
  | .expression => [⟨[Rule.level .assignment], fun v => v.1⟩]
  | .level .assignment => Rule.operators .assignment .equal .disjunction
  | .level .disjunction => Rule.operators .disjunction .orOp .conjunction
  | .level .conjunction => Rule.operators .conjunction .andOp .comparison
  | .level .comparison => Rule.operators .comparison .compareOp .sum
  | .level .sum => Rule.operators .sum .addOp .product
  | .level .product => Rule.operators .product .mulOp .call
  | .level .call => Rule.calls
  | .atom => Rule.atoms
  | .block => Rule.blocks
  | .conditional => Rule.conditionals
  | .function => Rule.functions .lambda ++ Rule.functions .lambdaSign
  | .letForm => Rule.lets
  | .namedLet => Rule.namedLets
  | .definition => [Rule.definition]

def terminalBehind? : List Symbol → List Symbol → Option Terminal
  | [], .terminal t _ :: _ => some t
  | x :: xs, y :: ys => if x = y then terminalBehind? xs ys else none
  | _, _ => none

namespace Nonterminal

def continuations (n : Nonterminal) (front : List Symbol) : List Terminal :=
  n.rules.filterMap fun rule => terminalBehind? front rule.body

-- The terminals that a phrase could go on with: those behind it in a longer production of the same nonterminal, and
-- those behind its last part in a production that this part begins itself.
def extensions (n : Nonterminal) (body : List Symbol) : List Terminal :=
  n.continuations body ++
    match body.getLast? with
    | some (.nonterminal last) => last.continuations [.nonterminal last]
    | _ => []

end Nonterminal

abbrev Shifted := Located × Context

def firstOf (u : List Shifted) (next : Option Terminal) : Option Terminal :=
  match u with
  | [] => next
  | one :: _ => some one.1.terminal

-- The symbols of a production and the terminals derived from them, given the terminal behind these. To prefer
-- shifting is to end no phrase before a terminal that it could go on with.
inductive Derives : (body : List Symbol) → List Shifted → Option Terminal → Values body → Prop where
  | nil {next : Option Terminal} : Derives [] [] next ()
  | shift {t : Terminal} {after : Context} {body : List Symbol} {found : Located} {u : List Shifted}
      {next : Option Terminal} {vs : Values body} : found.terminal = t → Derives body u next vs →
        Derives (.terminal t after :: body) ((found, after) :: u) next (found, vs)
  | reduce {n : Nonterminal} {rule : Rule n} {body : List Symbol} {u v : List Shifted} {next : Option Terminal}
      {inner : Values rule.body} {vs : Values body} : rule ∈ n.rules → Derives rule.body u (firstOf v next) inner →
        (∀ t, firstOf v next = some t → t ∉ n.extensions rule.body) → Derives body v next vs →
          Derives (.nonterminal n :: body) (u ++ v) next (rule.build inner, vs)

-- Each terminal is looked for in the context that the one before it has left.
inductive Scanned : Context → Cursor → List Shifted → Prop where
  | ended {context : Context} {cursor : Cursor} : cursor.skipBlanks.rest = [] → Scanned context cursor []
  | found {context after : Context} {cursor : Cursor} {terminal : Terminal} {slice : List Char} {u : List Shifted} :
      context.recognise? cursor.skipBlanks.rest = some (terminal, slice) →
        Scanned after (cursor.skipBlanks.skip slice) u →
          Scanned context cursor ((⟨terminal, slice, cursor.skipBlanks.pos⟩, after) :: u)

def Derivable (source : String) (terminals : List Located) (program : Expr) : Prop :=
  ∃ (u : List Shifted) (es : List Expr), Scanned .operand (.ofSource source) u ∧ u.map Prod.fst = terminals ∧
    Derives [.nonterminal (.series .items)] u none (es, ()) ∧ program = .prog es

end Trampoline.Grammar
