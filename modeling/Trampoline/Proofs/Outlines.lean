import Trampoline.Expr.Outline
import Trampoline.Proofs.Brackets
import Trampoline.Proofs.Dumps
import Trampoline.Proofs.QuotedTexts
import Trampoline.Proofs.Renderings

set_option autoImplicit false

namespace Trampoline

theorem run_unique {p : Char → Bool} {u v after behind : List Char} (first : ∀ c ∈ u, p c = true)
    (second : ∀ c ∈ v, p c = true) (stops : after.head?.any p = false) (stops' : behind.head?.any p = false)
    (same : u ++ after = v ++ behind) : u = v ∧ after = behind := by
  obtain ⟨front, rest⟩ := Lexeme.takeWhile_run first stops
  obtain ⟨front', rest'⟩ := Lexeme.takeWhile_run second stops'
  rw [same] at front rest
  exact ⟨front.symm.trans front', rest.symm.trans rest'⟩

section Lines

structure Line.Plain (line : Line) : Prop where
  single : '\n' ∉ line.text.toList
  flush : line.text.toList.head?.any (· == ' ') = false

theorem toList_indent (level : Nat) :
    (String.join (List.replicate level "  ")).toList = List.replicate (2 * level) ' ' := by
  induction level with
  | zero => rfl
  | succ level ih =>
      rw [List.replicate_succ, String.join_cons, String.toList_append, ih, Nat.mul_succ, Nat.add_comm,
        ← List.replicate_append_replicate]
      rfl

theorem toList_render (line : Line) : (line.render "  ").toList =
    (List.replicate (2 * line.level) ' ' ++ line.text.toList) ++ ['\n'] := by
  rw [Line.render, String.toList_append, String.toList_append, toList_indent]
  rfl

theorem Line.Plain.eq_of_indented {a b : Line} (plain : a.Plain) (plain' : b.Plain)
    (same : List.replicate (2 * a.level) ' ' ++ a.text.toList = List.replicate (2 * b.level) ' ' ++ b.text.toList) :
    a = b := by
  have blank (n : Nat) : ∀ c ∈ List.replicate n ' ', (c == ' ') = true := by
    intro c member
    rw [List.eq_of_mem_replicate member]
    rfl
  obtain ⟨indent, text⟩ := run_unique (blank _) (blank _) plain.flush plain'.flush same
  have level := congrArg List.length indent
  rw [List.length_replicate, List.length_replicate] at level
  obtain ⟨level₁, text₁⟩ := a
  obtain ⟨level₂, text₂⟩ := b
  have sameLevel : level₁ = level₂ := by
    simp only at level
    omega
  have sameText : text₁ = text₂ := String.toList_inj.mp text
  rw [sameLevel, sameText]

theorem Line.Plain.front {a : Line} (plain : a.Plain) :
    ∀ c ∈ List.replicate (2 * a.level) ' ' ++ a.text.toList, (c != '\n') = true := by
  intro c member
  refine bne_iff_ne.mpr ?_
  rintro rfl
  rcases List.mem_append.mp member with blank | inside
  · exact absurd (List.eq_of_mem_replicate blank) (by decide)
  · exact plain.single inside

theorem rendered_injective {as bs : List Line} (plain : ∀ a ∈ as, a.Plain) (plain' : ∀ b ∈ bs, b.Plain)
    (same : as.flatMap (fun line => (line.render "  ").toList) = bs.flatMap (fun line => (line.render "  ").toList)) :
    as = bs := by
  induction as generalizing bs with
  | nil =>
      cases bs with
      | nil => rfl
      | cons b bs => simp [toList_render] at same
  | cons a as ih =>
      cases bs with
      | nil => simp [toList_render] at same
      | cons b bs =>
          obtain ⟨first, others⟩ := List.forall_mem_cons.mp plain
          obtain ⟨first', others'⟩ := List.forall_mem_cons.mp plain'
          simp only [List.flatMap_cons, toList_render a, toList_render b] at same
          rw [List.append_assoc _ ['\n'], List.append_assoc _ ['\n']] at same
          obtain ⟨line, rest⟩ := run_unique first.front first'.front rfl rfl same
          rw [first.eq_of_indented first' line, ih others others' (List.cons.inj rest).2]

end Lines

inductive Outline where
  | mk (text : String) (parts : List Outline)

mutual

def Outline.lines (level : Nat) : Outline → List Line
  | .mk text parts => ⟨level, text⟩ :: Outline.linesOf (level + 1) parts

def Outline.linesOf (level : Nat) : List Outline → List Line
  | [] => []
  | o :: os => o.lines level ++ Outline.linesOf level os

end

def LeavesLevel (level : Nat) (lines : List Line) : Prop := ∀ line, lines.head? = some line → line.level < level

namespace Outline

theorem ends_linesOf {level : Nat} {os : List Outline} {rest : List Line} (ends : LeavesLevel level rest) :
    LeavesLevel (level + 1) (linesOf level os ++ rest) := by
  intro line next
  cases os with
  | nil => exact Nat.lt_succ_of_lt (ends line next)
  | cons o os =>
      obtain ⟨text, parts⟩ := o
      cases next
      exact Nat.lt_succ_self level

mutual

-- The indentation says where the parts of an outline end.
theorem lines_unique : (o o' : Outline) → (level : Nat) → {rest rest' : List Line} → LeavesLevel (level + 1) rest →
    LeavesLevel (level + 1) rest' → o.lines level ++ rest = o'.lines level ++ rest' → o = o' ∧ rest = rest'
  | .mk _ parts, .mk _ parts', level, _, _, ends, ends', same => by
      obtain ⟨head, below⟩ := List.cons.inj same
      obtain ⟨rfl, after⟩ := linesOf_unique parts parts' (level + 1) ends ends' below
      cases head
      exact ⟨rfl, after⟩

theorem linesOf_unique : (os os' : List Outline) → (level : Nat) → {rest rest' : List Line} → LeavesLevel level rest →
    LeavesLevel level rest' → linesOf level os ++ rest = linesOf level os' ++ rest' → os = os' ∧ rest = rest'
  | [], [], _, _, _, _, _, same => ⟨rfl, same⟩
  | [], .mk _ _ :: _, level, rest, _, ends, _, same => by
      have next : rest = _ := same
      exact absurd (ends ⟨level, _⟩ (by rw [next]; rfl)) (Nat.lt_irrefl level)
  | .mk _ _ :: _, [], level, _, rest', _, ends', same => by
      have next : rest' = _ := same.symm
      exact absurd (ends' ⟨level, _⟩ (by rw [next]; rfl)) (Nat.lt_irrefl level)
  | o :: os, o' :: os', level, _, _, ends, ends', same => by
      simp only [linesOf, List.append_assoc] at same
      obtain ⟨rfl, others⟩ := lines_unique o o' level (ends_linesOf ends) (ends_linesOf ends') same
      obtain ⟨rfl, after⟩ := linesOf_unique os os' level ends ends' others
      exact ⟨rfl, after⟩

end

theorem linesOf_injective {os os' : List Outline} {level : Nat} (same : linesOf level os = linesOf level os') :
    os = os' := by
  have none : LeavesLevel level [] := by
    intro line next
    cases next
  refine (linesOf_unique os os' level none none ?_).1
  rw [same]

end Outline

namespace Expr

def besides : Expr → String
  | .num value => "\t" ++ Decimal.text value
  | .str value => "\t" ++ Text.quoted value
  | .bool value => "\t" ++ boolText value
  | .var name => "\t" ++ name
  | .lambda params _ name => " " ++ name.getD "" ++ "(" ++ ", ".intercalate params ++ ")"
  | .binary op _ _ => "\t" ++ op
  | _ => ""

def title (e : Expr) : String := e.label ++ e.besides

end Expr

mutual

def Expr.parts : Expr → List Outline
  | .lambda _ body _ => [.mk body.title body.parts]
  | .call func args => .mk func.title func.parts :: Expr.entries args
  | .cond test yes no =>
      .mk test.title test.parts :: .mk yes.title yes.parts :: if no.isHole then [] else [.mk no.title no.parts]
  | .assign target value => [.mk target.title target.parts, .mk value.title value.parts]
  | .binary _ left right => [.mk left.title left.parts, .mk right.title right.parts]
  | .prog body => Expr.entries body
  | .letIn bindings body => Binding.entries bindings ++ [.mk body.title body.parts]
  | _ => []

def Expr.entries : List Expr → List Outline
  | [] => []
  | e :: es => .mk e.title e.parts :: Expr.entries es

def Binding.entries : List Binding → List Outline
  | [] => []
  | .mk name init :: bs => .mk (name ++ " =") [.mk init.title init.parts] :: Binding.entries bs

end

def Expr.entry (e : Expr) : Outline := .mk e.title e.parts

theorem Expr.WellFormed.isHole {e : Expr} (code : e.WellFormed) : e.isHole = false := by
  cases e with
  | hole => cases code
  | _ => rfl

theorem Outline.linesOf_append (level : Nat) (os os' : List Outline) :
    linesOf level (os ++ os') = linesOf level os ++ linesOf level os' := by
  induction os with
  | nil => rfl
  | cons o os ih => rw [List.cons_append, linesOf, linesOf, ih, List.append_assoc]

theorem title_tabbed (kind text : String) : kind ++ ("\t" ++ text) = kind ++ "\t" ++ text :=
  String.append_assoc.symm

theorem title_lambda (params : List String) (body : Expr) (self : Option String) :
    (Expr.lambda params body self).title = "lambda " ++ self.getD "" ++ "(" ++ ", ".intercalate params ++ ")" := by
  simp only [Expr.title, Expr.label, Expr.besides, ← String.append_assoc]
  rfl

mutual

theorem Expr.outline_eq : (e : Expr) → e.WellFormed → (level : Nat) → e.outline level = e.entry.lines level
  | .num _, _, level => congrArg (fun text => [Line.mk level text]) (title_tabbed "num" _).symm
  | .str _, _, level => congrArg (fun text => [Line.mk level text]) (title_tabbed "str" _).symm
  | .bool _, _, level => congrArg (fun text => [Line.mk level text]) (title_tabbed "bool" _).symm
  | .var _, _, level => congrArg (fun text => [Line.mk level text]) (title_tabbed "var" _).symm
  | .lambda params body name, code, level => by
      rw [Expr.outline, Expr.outline_eq body code.2.2, ← title_lambda params body]
      simp only [Expr.entry, Expr.parts, Outline.lines, Outline.linesOf, List.append_nil]
  | .call func args, code, level => by
      rw [Expr.outline, Expr.outline_eq func code.1, Expr.outlines_eq args code.2]
      rfl
  | .cond test yes no, code, level => by
      rw [Expr.outline, Expr.outline_eq test code.1, Expr.outline_eq yes code.2.1]
      rcases code.2.2 with hole | other
      · simp only [hole, if_true, Expr.entry, Expr.parts, Outline.lines, Outline.linesOf, List.append_nil]
        rfl
      · rw [Expr.outline_eq no other]
        simp only [other.isHole, Bool.false_eq_true, if_false, Expr.entry, Expr.parts, Outline.lines, Outline.linesOf,
          List.append_nil, List.append_assoc]
        rfl
  | .assign target value, code, level => by
      rw [Expr.outline, Expr.outline_eq target code.1, Expr.outline_eq value code.2]
      simp only [Expr.entry, Expr.parts, Outline.lines, Outline.linesOf, List.append_nil]
      rfl
  | .binary op left right, code, level => by
      rw [Expr.outline, Expr.outline_eq left code.2.1, Expr.outline_eq right code.2.2]
      simp only [Expr.entry, Expr.parts, Outline.lines, Outline.linesOf, List.append_nil, Expr.title, Expr.label,
        Expr.besides, title_tabbed]
      rfl
  | .prog body, code, level => by
      rw [Expr.outline, Expr.outlines_eq body code.2]
      rfl
  | .letIn bindings body, code, level => by
      rw [Expr.outline, Expr.outline_eq body code.2, Binding.outlines_eq bindings code.1]
      simp only [Expr.entry, Expr.parts, Outline.lines, Outline.linesOf, Outline.linesOf_append, List.append_nil]
      rfl

theorem Expr.outlines_eq : (es : List Expr) → exprsWellFormed es → (level : Nat) →
    Expr.outlines level es = Outline.linesOf level (Expr.entries es)
  | [], _, _ => rfl
  | e :: es, code, level => by
      rw [Expr.outlines, Expr.outline_eq e code.1, Expr.outlines_eq es code.2]
      rfl

theorem Binding.outlines_eq : (bs : List Binding) → bindingsWellFormed bs → (level : Nat) →
    Binding.outlines level bs = Outline.linesOf level (Binding.entries bs)
  | [], _, _ => rfl
  | .mk name init :: bs, code, level => by
      rw [Binding.outlines, Binding.outline, init.outline_eq code.1.2, Binding.outlines_eq bs code.2, code.1.2.isHole]
      simp only [Expr.entry, Binding.entries, Outline.lines, Outline.linesOf, List.append_nil]
      rfl

end

namespace Expr

def isVisible (c : Char) : Bool := !Lexeme.isBlank c

theorem label_visible (e : Expr) : ∀ c ∈ e.label.toList, isVisible c = true := by
  refine List.all_eq_true.mp ?_
  cases e <;> simp only [label] <;> decide

theorem title_unique {e e' : Expr} (same : e.title = e'.title) : e.label = e'.label ∧ e.besides = e'.besides := by
  have blank (e : Expr) : e.besides.toList.head?.any isVisible = false := by
    cases e <;> simp [besides, isVisible, Lexeme.isBlank]
  have chars := congrArg String.toList same
  simp only [title, String.toList_append] at chars
  obtain ⟨label, besides⟩ := run_unique e.label_visible e'.label_visible (blank e) (blank e') chars
  exact ⟨String.toList_inj.mp label, String.toList_inj.mp besides⟩

theorem IsName.chars {x : String} (named : IsName x) :
    x.toList ≠ [] ∧ ∀ c ∈ x.toList, Lexeme.isWordChar c = true := by
  obtain ⟨u, spelled⟩ := named
  have text : x = String.ofList u := by
    rcases spelled.value with same | ⟨_, other⟩ | ⟨_, other⟩
    · exact same
    · cases other
    · cases other
  rw [text, String.toList_ofList]
  generalize same : Lexeme.name x = l at spelled
  cases spelled with
  | word start chars =>
      refine ⟨List.cons_ne_nil _ _, List.forall_mem_cons.mpr ⟨?_, ?_⟩⟩
      · simp [Lexeme.isWordChar, Lexeme.isNameChar, start]
      · intro c member
        simp [Lexeme.isWordChar, chars c member]
  | slashed => exact ⟨by decide, List.all_eq_true.mp (by decide)⟩
  | _ => cases same

section Params

def behindFirst (xs : List String) : List Char := xs.flatMap fun x => ',' :: ' ' :: x.toList

theorem toList_intercalate_cons (x : String) (xs : List String) :
    (", ".intercalate (x :: xs)).toList = x.toList ++ behindFirst xs := by
  induction xs generalizing x with
  | nil => simp [behindFirst]
  | cons y ys ih =>
      rw [String.intercalate_cons_cons, String.toList_append, ih, String.toList_append, List.append_assoc]
      rfl

theorem behindFirst_cons (x : String) (xs : List String) :
    behindFirst (x :: xs) = ',' :: ' ' :: (", ".intercalate (x :: xs)).toList := by
  rw [toList_intercalate_cons]
  rfl

theorem behindFirst_stops (xs : List String) : (behindFirst xs).head?.any Lexeme.isWordChar = false := by
  cases xs <;> rfl

theorem behindFirst_injective {xs ys : List String} (named : ∀ x ∈ xs, IsName x) (named' : ∀ y ∈ ys, IsName y)
    (same : behindFirst xs = behindFirst ys) : xs = ys := by
  induction xs generalizing ys with
  | nil =>
      cases ys with
      | nil => rfl
      | cons y ys => cases same
  | cons x xs ih =>
      cases ys with
      | nil => cases same
      | cons y ys =>
          obtain ⟨first, others⟩ := List.forall_mem_cons.mp named
          obtain ⟨first', others'⟩ := List.forall_mem_cons.mp named'
          simp only [behindFirst, List.flatMap_cons, List.cons_append] at same
          obtain ⟨name, rest⟩ := run_unique first.chars.2 first'.chars.2 (behindFirst_stops xs) (behindFirst_stops ys)
            (List.cons.inj (List.cons.inj same).2).2
          rw [String.toList_inj.mp name, ih others others' rest]

theorem params_injective {xs ys : List String} (named : ∀ x ∈ xs, IsName x) (named' : ∀ y ∈ ys, IsName y)
    (same : (", ".intercalate xs).toList = (", ".intercalate ys).toList) : xs = ys := by
  have some {x : String} {xs : List String} (named : IsName x) : (", ".intercalate (x :: xs)).toList ≠ [] := by
    rw [toList_intercalate_cons]
    exact List.append_ne_nil_of_left_ne_nil named.chars.1 _
  cases xs with
  | nil =>
      cases ys with
      | nil => rfl
      | cons y ys => exact absurd same.symm (some (named' y List.mem_cons_self))
  | cons x xs =>
      cases ys with
      | nil => exact absurd same (some (named x List.mem_cons_self))
      | cons y ys =>
          refine behindFirst_injective named named' ?_
          rw [behindFirst_cons, behindFirst_cons, same]

end Params

theorem toList_besides_lambda (params : List String) (body : Expr) (self : Option String) :
    (lambda params body self).besides.toList =
      ' ' :: ((self.getD "").toList ++ '(' :: ((", ".intercalate params).toList ++ [')'])) := by
  simp [besides]

theorem besides_lambda_injective {params params' : List String} {body body' : Expr} {self self' : Option String}
    (code : (lambda params body self).WellFormed) (code' : (lambda params' body' self').WellFormed)
    (same : (lambda params body self).besides = (lambda params' body' self').besides) :
    params = params' ∧ self = self' := by
  have chars {self : Option String} (named : ∀ x, self = some x → IsName x) :
      ∀ c ∈ (self.getD "").toList, Lexeme.isWordChar c = true := by
    cases self with
    | none => simp
    | some x => exact (named x rfl).chars.2
  have text := congrArg String.toList same
  rw [toList_besides_lambda, toList_besides_lambda] at text
  obtain ⟨name, rest⟩ := run_unique (chars code.2.1) (chars code'.2.1) rfl rfl (List.cons.inj text).2
  refine ⟨params_injective code.1 code'.1 (List.append_cancel_right (List.cons.inj rest).2), ?_⟩
  cases self with
  | none =>
      cases self' with
      | none => rfl
      | some y => exact absurd name.symm (code'.2.1 y rfl).chars.1
  | some x =>
      cases self' with
      | none => exact absurd name (code.2.1 x rfl).chars.1
      | some y => exact congrArg some (String.toList_inj.mp name)

theorem IsName.visible {x : String} (named : IsName x) : ∀ c ∈ x.toList, isVisible c = true := by
  intro c member
  have word := named.chars.2 c member
  cases blank : Lexeme.isBlank c with
  | false => rw [isVisible, blank]; rfl
  | true => rcases Lexeme.isBlank_iff.mp blank with rfl | rfl | rfl <;> exact absurd word (by decide)

theorem newline_notMem_of_visible {cs : List Char} (visible : ∀ c ∈ cs, isVisible c = true) : '\n' ∉ cs :=
  fun member => absurd (visible _ member) (by decide)

theorem newline_notMem_params {xs : List String} (named : ∀ x ∈ xs, IsName x) :
    '\n' ∉ (", ".intercalate xs).toList := by
  cases xs with
  | nil => simp
  | cons x xs =>
      obtain ⟨first, others⟩ := List.forall_mem_cons.mp named
      rw [toList_intercalate_cons]
      intro member
      rcases List.mem_append.mp member with inside | behind
      · exact newline_notMem_of_visible first.visible inside
      · obtain ⟨y, listed, inside⟩ := List.mem_flatMap.mp behind
        have absent := newline_notMem_of_visible (others y listed).visible
        simp [absent] at inside

theorem newline_notMem_number (x : Float) : '\n' ∉ (Decimal.text x).toList := by
  cases shape : Binary64.decode x with
  | nan => simp [Decimal.text, shape]
  | infinite negative => cases negative <;> simp [Decimal.text, shape]
  | finite negative mantissa exponent =>
      exact fun member => absurd ((Decimal.text_numeric shape).1 _ member) (by decide)

theorem newline_notMem_besides {e : Expr} (code : e.WellFormed) : '\n' ∉ e.besides.toList := by
  have tabbed {text : String} (single : '\n' ∉ text.toList) : '\n' ∉ ("\t" ++ text).toList := by
    simpa using single
  cases e with
  | num x => exact tabbed (newline_notMem_number x)
  | str s => exact tabbed (Text.newline_notMem_quoted s)
  | bool b => cases b <;> exact tabbed (by decide)
  | var x => exact tabbed (newline_notMem_of_visible (IsName.visible code))
  | lambda params body self =>
      have name : '\n' ∉ (self.getD "").toList := by
        cases self with
        | none => simp
        | some x => exact newline_notMem_of_visible (code.2.1 x rfl).visible
      rw [toList_besides_lambda]
      simpa [name] using newline_notMem_params code.1
  | binary op left right =>
      have listed : ∀ op ∈ binarySymbols, '\n' ∉ op.toList := by decide
      exact tabbed (listed op code.1)
  | _ => simp [besides]

end Expr

theorem Line.plain_of_word (level : Nat) {word rest : String} (some : word.toList ≠ [])
    (visible : ∀ c ∈ word.toList, Expr.isVisible c = true) (single : '\n' ∉ rest.toList) :
    Line.Plain ⟨level, word ++ rest⟩ := by
  refine ⟨?_, ?_⟩
  · rw [String.toList_append]
    intro member
    exact (List.mem_append.mp member).elim (Expr.newline_notMem_of_visible visible) single
  · obtain ⟨c, cs, shape⟩ := List.exists_cons_of_ne_nil some
    have first : c ≠ ' ' := by
      rintro rfl
      exact absurd (visible ' ' (by rw [shape]; exact List.mem_cons_self)) (by decide)
    simpa [shape] using first

theorem Expr.plain_title {e : Expr} (code : e.WellFormed) (level : Nat) : Line.Plain ⟨level, e.title⟩ := by
  have some : e.label.toList ≠ [] := by cases e <;> simp [label]
  exact Line.plain_of_word level some e.label_visible (newline_notMem_besides code)

section PlainLines

variable {level : Nat} {o : Outline} {os : List Outline}

theorem plain_none : ∀ line ∈ Outline.linesOf level [], line.Plain := by simp [Outline.linesOf]

theorem plain_cons (first : ∀ line ∈ o.lines level, line.Plain)
    (others : ∀ line ∈ Outline.linesOf level os, line.Plain) :
    ∀ line ∈ Outline.linesOf level (o :: os), line.Plain :=
  List.forall_mem_append.mpr ⟨first, others⟩

end PlainLines

mutual

theorem Expr.plain_lines : (e : Expr) → e.WellFormed → (level : Nat) → ∀ line ∈ e.entry.lines level, line.Plain := by
  intro e code level
  refine List.forall_mem_cons.mpr ⟨e.plain_title code level, ?_⟩
  cases e with
  | lambda params body self => exact plain_cons (body.plain_lines code.2.2 _) plain_none
  | call func args => exact plain_cons (func.plain_lines code.1 _) (Expr.plain_linesOf args code.2 _)
  | cond test yes no =>
      refine plain_cons (test.plain_lines code.1 _) (plain_cons (yes.plain_lines code.2.1 _) ?_)
      rcases code.2.2 with hole | other
      · rw [if_pos hole]
        exact plain_none
      · rw [if_neg (by rw [other.isHole]; decide)]
        exact plain_cons (no.plain_lines other _) plain_none
  | assign target value =>
      exact plain_cons (target.plain_lines code.1 _) (plain_cons (value.plain_lines code.2 _) plain_none)
  | binary op left right =>
      exact plain_cons (left.plain_lines code.2.1 _) (plain_cons (right.plain_lines code.2.2 _) plain_none)
  | prog body => exact Expr.plain_linesOf body code.2 _
  | letIn bindings body =>
      rw [Expr.parts, Outline.linesOf_append]
      exact List.forall_mem_append.mpr
        ⟨Binding.plain_linesOf bindings code.1 _, plain_cons (body.plain_lines code.2 _) plain_none⟩
  | _ => exact plain_none

theorem Expr.plain_linesOf : (es : List Expr) → exprsWellFormed es → (level : Nat) →
    ∀ line ∈ Outline.linesOf level (Expr.entries es), line.Plain
  | [], _, _ => plain_none
  | e :: es, code, level => plain_cons (e.plain_lines code.1 level) (Expr.plain_linesOf es code.2 level)

theorem Binding.plain_linesOf : (bs : List Binding) → bindingsWellFormed bs → (level : Nat) →
    ∀ line ∈ Outline.linesOf level (Binding.entries bs), line.Plain
  | [], _, _ => plain_none
  | .mk _ init :: bs, code, level => by
      obtain ⟨⟨named, value⟩, others⟩ := code
      have sign : '\n' ∉ " =".toList := by decide
      have first := Line.plain_of_word level named.chars.1 named.visible sign
      exact plain_cons (List.forall_mem_cons.mpr ⟨first, plain_cons (init.plain_lines value _) plain_none⟩)
        (Binding.plain_linesOf bs others level)

end

theorem Expr.entry_unique {e e' : Expr} (same : e.entry = e'.entry) :
    e.label = e'.label ∧ e.besides = e'.besides ∧ e.parts = e'.parts := by
  obtain ⟨title, parts⟩ := Outline.mk.inj same
  obtain ⟨label, besides⟩ := title_unique title
  exact ⟨label, besides, parts⟩

theorem tabbed_injective {s t : String} (same : "\t" ++ s = "\t" ++ t) : s = t :=
  (String.append_right_inj "\t").mp same

theorem boolText_injective {a b : Bool} (same : boolText a = boolText b) : a = b := by
  cases a <;> cases b <;> simp [boolText] at same ⊢

theorem Expr.eq_hole {e : Expr} (hole : e.isHole = true) : e = .hole := by
  cases e with
  | hole => rfl
  | _ => cases hole

def Decimal.TellsApart (floats : Float → Prop) : Prop :=
  ∀ x y, floats x → floats y → text x = text y → x = y

section Injective

variable {floats : Float → Prop}

mutual

theorem Expr.entry_injective (apart : Decimal.TellsApart floats) : (e e' : Expr) → e.WellFormed → e'.WellFormed →
    e.Numbers floats → e'.Numbers floats → e.entry = e'.entry → e = e' := by
  intro e e' code code' known known' same
  obtain ⟨label, besides, parts⟩ := Expr.entry_unique same
  cases e with
  | hole => cases code
  | binding _ => cases code
  | num x =>
      cases e' with
      | num y => rw [apart x y known known' (tabbed_injective besides)]
      | _ => simp [Expr.label] at label
  | str s =>
      cases e' with
      | str t => rw [Text.quoted_injective (tabbed_injective besides)]
      | _ => simp [Expr.label] at label
  | bool a =>
      cases e' with
      | bool b => rw [boolText_injective (tabbed_injective besides)]
      | _ => simp [Expr.label] at label
  | var x =>
      cases e' with
      | var y => rw [tabbed_injective besides]
      | _ => simp [Expr.label] at label
  | lambda params body self =>
      cases e' with
      | lambda params' body' self' =>
          obtain ⟨rfl, rfl⟩ := Expr.besides_lambda_injective code code' besides
          rw [body.entry_injective apart body' code.2.2 code'.2.2 known known' (List.cons.inj parts).1]
      | _ => simp [Expr.label] at label
  | call func args =>
      cases e' with
      | call func' args' =>
          obtain ⟨first, others⟩ := List.cons.inj parts
          rw [func.entry_injective apart func' code.1 code'.1 known.1 known'.1 first,
            Expr.entries_injective apart args args' code.2 code'.2 known.2 known'.2 others]
      | _ => simp [Expr.label] at label
  | cond test yes no =>
      cases e' with
      | cond test' yes' no' =>
          obtain ⟨first, others⟩ := List.cons.inj parts
          obtain ⟨second, last⟩ := List.cons.inj others
          rw [test.entry_injective apart test' code.1 code'.1 known.1 known'.1 first,
            yes.entry_injective apart yes' code.2.1 code'.2.1 known.2.1 known'.2.1 second]
          -- a branch is left out on both sides or on none
          rcases code.2.2 with hole | other <;> rcases code'.2.2 with hole' | other'
          · rw [Expr.eq_hole hole, Expr.eq_hole hole']
          · rw [hole, other'.isHole] at last
            cases last
          · rw [other.isHole, hole'] at last
            cases last
          · rw [other.isHole, other'.isHole] at last
            rw [no.entry_injective apart no' other other' known.2.2 known'.2.2 (List.cons.inj last).1]
      | _ => simp [Expr.label] at label
  | assign target value =>
      cases e' with
      | assign target' value' =>
          obtain ⟨first, others⟩ := List.cons.inj parts
          rw [target.entry_injective apart target' code.1 code'.1 known.1 known'.1 first,
            value.entry_injective apart value' code.2 code'.2 known.2 known'.2 (List.cons.inj others).1]
      | _ => simp [Expr.label] at label
  | binary op left right =>
      cases e' with
      | binary op' left' right' =>
          obtain ⟨first, others⟩ := List.cons.inj parts
          rw [tabbed_injective besides, left.entry_injective apart left' code.2.1 code'.2.1 known.1 known'.1 first,
            right.entry_injective apart right' code.2.2 code'.2.2 known.2 known'.2 (List.cons.inj others).1]
      | _ => simp [Expr.label] at label
  | prog body =>
      cases e' with
      | prog body' => rw [Expr.entries_injective apart body body' code.2 code'.2 known known' parts]
      | _ => simp [Expr.label] at label
  | letIn bindings body =>
      cases e' with
      | letIn bindings' body' =>
          -- the last part is the body, so the bindings need no mark of their own
          obtain ⟨bound, last⟩ := List.append_inj' parts rfl
          rw [Binding.entries_injective apart bindings bindings' code.1 code'.1 known.1 known'.1 bound,
            body.entry_injective apart body' code.2 code'.2 known.2 known'.2 (List.cons.inj last).1]
      | _ => simp [Expr.label] at label

theorem Expr.entries_injective (apart : Decimal.TellsApart floats) : (es es' : List Expr) → exprsWellFormed es →
    exprsWellFormed es' → Expr.NumbersIn floats es → Expr.NumbersIn floats es' →
    Expr.entries es = Expr.entries es' → es = es'
  | [], [], _, _, _, _, _ => rfl
  | e :: es, e' :: es', code, code', known, known', same => by
      obtain ⟨first, others⟩ := List.cons.inj same
      rw [e.entry_injective apart e' code.1 code'.1 known.1 known'.1 first,
        Expr.entries_injective apart es es' code.2 code'.2 known.2 known'.2 others]

theorem Binding.entries_injective (apart : Decimal.TellsApart floats) : (bs bs' : List Binding) →
    bindingsWellFormed bs → bindingsWellFormed bs' → Binding.NumbersIn floats bs → Binding.NumbersIn floats bs' →
    Binding.entries bs = Binding.entries bs' → bs = bs'
  | [], [], _, _, _, _, _ => rfl
  | [], .mk _ _ :: _, _, _, _, _, same => by cases same
  | .mk _ _ :: _, [], _, _, _, _, same => by cases same
  | .mk x init :: bs, .mk x' init' :: bs', code, code', known, known', same => by
      obtain ⟨first, others⟩ := List.cons.inj same
      obtain ⟨name, value⟩ := Outline.mk.inj first
      rw [(String.append_left_inj " =").mp name,
        init.entry_injective apart init' code.1.2 code'.1.2 known.1 known'.1 (List.cons.inj value).1,
        Binding.entries_injective apart bs bs' code.2 code'.2 known.2 known'.2 others]

end

end Injective

theorem Descent.items_of_parse {source : String} {program : Expr} (read : parse source = .ok program) :
    ∃ es, program = .prog es ∧ exprsWellFormed es := by
  obtain ⟨es, shape, parsed⟩ := sequence_of_parse read
  have items := Phrase.wellFormed_items (sound_sequence parsed).2 (Tokens.proper_ofCursor _)
  exact ⟨es, shape, (exprsWellFormed_iff es).mpr items⟩

-- Two programs with the same outline are the same, as far as the texts of their numbers tell these apart.
theorem outline_tells_programs_apart {floats : Float → Prop}
    (apart : ∀ x y, floats x → floats y → Decimal.text x = Decimal.text y → x = y)
    {source source' : String} {program program' : Expr} (read : Descent.parse source = .ok program)
    (read' : Descent.parse source' = .ok program') (known : program.Numbers floats)
    (known' : program'.Numbers floats) (same : program.pretty "  " = program'.pretty "  ") : program = program' := by
  obtain ⟨es, rfl, code⟩ := Descent.items_of_parse read
  obtain ⟨es', rfl, code'⟩ := Descent.items_of_parse read'
  have plain {es : List Expr} (code : exprsWellFormed es) : ∀ line ∈ (Expr.prog es).outline 0, line.Plain := by
    have first : Line.Plain ⟨0, "prog"⟩ := ⟨by decide, rfl⟩
    rw [Expr.outline, Expr.outlines_eq es code]
    exact List.forall_mem_cons.mpr ⟨first, Expr.plain_linesOf es code 1⟩
  have chars := congrArg String.toList same
  simp only [Expr.pretty, String.toList_join, List.flatMap_map] at chars
  have lines := rendered_injective (plain code) (plain code') chars
  rw [Expr.outline, Expr.outline, Expr.outlines_eq es code, Expr.outlines_eq es' code'] at lines
  have entries := Outline.linesOf_injective (List.cons.inj lines).2
  rw [Expr.entries_injective apart es es' code code' known known' entries]

def branchWithin : Expr :=
  .prog [.cond (.var "a") (.cond (.var "b") (.num (Decimal.ofLiteral ['1'])) (.str "=")) .hole]

def branchBehind : Expr :=
  .prog [.cond (.var "a") (.cond (.var "b") (.num (Decimal.ofLiteral ['1'])) .hole) (.str "=")]

theorem branchWithin_apart :
    Descent.parse "if a then (if b then 1 else \"=\")" = .ok branchWithin ∧
    Descent.parse "if a then (if b then 1) else \"=\"" = .ok branchBehind ∧
    branchWithin.pretty "  " ≠ branchBehind.pretty "  " := by
  have read : Descent.parse "if a then (if b then 1 else \"=\")" = .ok branchWithin := by with_unfolding_all rfl
  have read' : Descent.parse "if a then (if b then 1) else \"=\"" = .ok branchBehind := by with_unfolding_all rfl
  have known : branchWithin.Numbers (· = Decimal.ofLiteral ['1']) :=
    ⟨⟨trivial, ⟨trivial, rfl, trivial⟩, trivial⟩, trivial⟩
  have known' : branchBehind.Numbers (· = Decimal.ofLiteral ['1']) :=
    ⟨⟨trivial, ⟨trivial, rfl, trivial⟩, trivial⟩, trivial⟩
  refine ⟨read, read', fun same => ?_⟩
  have whole := outline_tells_programs_apart (fun _ _ first second _ => first.trans second.symm) read read' known
    known' same
  simp [branchWithin, branchBehind] at whole

end Trampoline
