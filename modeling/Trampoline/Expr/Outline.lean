import Trampoline.Expr.Basic
import Trampoline.Number.Decimal
import Trampoline.Text.Quoted

/-!
Expressions as an indented outline: one line for each part, children one level deeper. A part that
is no expression is written as a record of its fields.
-/

set_option autoImplicit false

namespace Trampoline

def boolText (b : Bool) : String := if b then "True" else "False"

/-- Items in parentheses, where a single item keeps a comma. -/
def tupleText : List String → String
  | [] => "()"
  | [item] => "(" ++ item ++ ",)"
  | items => "(" ++ ", ".intercalate items ++ ")"

mutual

def Expr.recordText : Expr → String
  | .hole => "None"
  | .num value => "Num(value=" ++ Decimal.text value ++ ")"
  | .str value => "Str(value=" ++ Text.quoted value ++ ")"
  | .bool value => "Bool(value=" ++ boolText value ++ ")"
  | .var name => "Var(name=" ++ Text.quoted name ++ ")"
  | .lambda params body name =>
      "Lambda(params=" ++ tupleText (params.map Text.quoted) ++ ", body=" ++ body.recordText
        ++ ", name=" ++ (name.map Text.quoted).getD "None" ++ ")"
  | .call func args =>
      "Call(func=" ++ func.recordText ++ ", args=" ++ tupleText (Expr.recordTexts args) ++ ")"
  | .cond test yes no =>
      "If(cond=" ++ test.recordText ++ ", then=" ++ yes.recordText ++ ", else_=" ++ no.recordText
        ++ ")"
  | .assign target value =>
      "Assign(target=" ++ target.recordText ++ ", value=" ++ value.recordText ++ ")"
  | .binary op left right =>
      "Binary(op=" ++ Text.quoted op ++ ", left=" ++ left.recordText ++ ", right="
        ++ right.recordText ++ ")"
  | .prog body => "Prog(body=" ++ tupleText (Expr.recordTexts body) ++ ")"
  | .letIn bindings body =>
      "Let(bindings=" ++ tupleText (Binding.recordTexts bindings) ++ ", body=" ++ body.recordText
        ++ ")"
  | .binding b => b.recordText

def Binding.recordText : Binding → String
  | .mk name init =>
      "LetBinding(name=" ++ Text.quoted name ++ ", init=" ++ init.recordText ++ ")"

def Expr.recordTexts : List Expr → List String
  | [] => []
  | e :: es => e.recordText :: Expr.recordTexts es

def Binding.recordTexts : List Binding → List String
  | [] => []
  | b :: bs => b.recordText :: Binding.recordTexts bs

end

structure Line where
  level : Nat
  text : String
deriving DecidableEq, Repr

def Line.render (pad : String) (line : Line) : String :=
  String.join (List.replicate line.level pad) ++ line.text ++ "\n"

mutual

def Expr.outline (level : Nat) : Expr → List Line
  | .num value => [⟨level, "num\t" ++ Decimal.text value⟩]
  | .str value => [⟨level, "str\t" ++ Text.quoted value⟩]
  | .bool value => [⟨level, "bool\t" ++ boolText value⟩]
  | .var name => [⟨level, "var\t" ++ name⟩]
  | .lambda params body name =>
      ⟨level, "lambda " ++ name.getD "" ++ "(" ++ ", ".intercalate params ++ ")"⟩
        :: body.outline (level + 1)
  | .call func args =>
      ⟨level, "call"⟩ :: (func.outline (level + 1) ++ Expr.outlines (level + 1) args)
  | .cond test yes no =>
      ⟨level, "if"⟩ :: (test.outline (level + 1) ++ yes.outline (level + 1)
        ++ (if no.isHole then [] else no.outline (level + 1)))
  | .assign target value =>
      ⟨level, "assign"⟩ :: (target.outline (level + 1) ++ value.outline (level + 1))
  | .binary op left right =>
      ⟨level, "binary\t" ++ op⟩ :: (left.outline (level + 1) ++ right.outline (level + 1))
  | .prog body => ⟨level, "prog"⟩ :: Expr.outlines (level + 1) body
  | .letIn bindings body =>
      ⟨level, "let"⟩ :: (Binding.outlines (level + 1) bindings ++ body.outline (level + 1))
  | .hole => [⟨level, "None"⟩]
  | .binding b => [⟨level, b.recordText⟩]

def Binding.outline (level : Nat) : Binding → List Line
  | .mk name init =>
      ⟨level, name ++ " ="⟩ :: (if init.isHole then [] else init.outline (level + 1))

def Expr.outlines (level : Nat) : List Expr → List Line
  | [] => []
  | e :: es => e.outline level ++ Expr.outlines level es

def Binding.outlines (level : Nat) : List Binding → List Line
  | [] => []
  | b :: bs => b.outline level ++ Binding.outlines level bs

end

def Expr.pretty (e : Expr) (pad : String) : String :=
  String.join ((e.outline 0).map (Line.render pad))

end Trampoline
