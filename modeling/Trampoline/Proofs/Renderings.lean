import Trampoline.Proofs.ParserImage

set_option autoImplicit false

namespace Trampoline

def separatedBy (separator : Lexeme) : List (List Lexeme) → List Lexeme
  | [] => []
  | [u] => u
  | u :: v :: us => u ++ separator :: separatedBy separator (v :: us)

theorem length_le_separatedBy (separator : Lexeme) {us : List (List Lexeme)} {u : List Lexeme} (member : u ∈ us) :
    u.length ≤ (separatedBy separator us).length := by
  fun_induction separatedBy separator us with
  | case1 => cases member
  | case2 v =>
      cases List.mem_singleton.mp member
      exact Nat.le_refl _
  | case3 v w us ih =>
      rw [List.length_append, List.length_cons]
      rcases List.mem_cons.mp member with rfl | later
      · omega
      · have le := ih later
        omega

theorem length_le_items (separator : Lexeme) {us : List (List Lexeme)} (visible : ∀ u ∈ us, u ≠ []) :
    us.length ≤ (separatedBy separator us).length := by
  fun_induction separatedBy separator us with
  | case1 => exact Nat.le_refl _
  | case2 v => exact List.length_pos_iff.mpr (visible v List.mem_cons_self)
  | case3 v w us ih =>
      have le := ih fun u later => visible u (List.mem_cons_of_mem _ later)
      simp only [List.length_append, List.length_cons] at le ⊢
      omega

def enclosed (u : List Lexeme) : List Lexeme := .punctuation '(' :: (u ++ [.punctuation ')'])

def Expr.selfText (self : Option String) : List Lexeme := (self.map Lexeme.name).toList

mutual

-- Everything but leaves and blocks is enclosed.
def Expr.rendered : Expr → List Lexeme
  | .hole => []
  | .num x => [.number x]
  | .str s => [.text s]
  | .bool true => [.keyword .true_]
  | .bool false => [.keyword .false_]
  | .var x => [.name x]
  | .lambda params body self =>
      enclosed (.keyword .lambda :: (Expr.selfText self ++
        (enclosed (separatedBy (.punctuation ',') (params.map fun x => [.name x])) ++ body.rendered)))
  | .call func args => enclosed (func.rendered ++ enclosed (separatedBy (.punctuation ',') (renderedEach args)))
  | .cond test yes no =>
      enclosed (.keyword .if_ :: (test.rendered ++ .keyword .then_ :: (yes.rendered ++
        if no.isHole then [] else .keyword .else_ :: no.rendered)))
  | .assign target value => enclosed (target.rendered ++ .operator "=" :: value.rendered)
  | .binary op left right => enclosed (left.rendered ++ .operator op :: right.rendered)
  | .prog body =>
      .punctuation '\x7b' :: (separatedBy (.punctuation ';') (renderedEach body) ++ [.punctuation '\x7d'])
  | .letIn bindings body =>
      enclosed (.keyword .let_ :: (enclosed (separatedBy (.punctuation ',') (renderedBindings bindings)) ++
        body.rendered))
  | .binding _ => []

def renderedEach : List Expr → List (List Lexeme)
  | [] => []
  | e :: es => e.rendered :: renderedEach es

def renderedBindings : List Binding → List (List Lexeme)
  | [] => []
  | .mk x init :: bindings => (.name x :: .operator "=" :: init.rendered) :: renderedBindings bindings

end

def Binding.rendered (b : Binding) : List Lexeme := .name b.name :: .operator "=" :: b.init.rendered

theorem renderedEach_eq (es : List Expr) : renderedEach es = es.map Expr.rendered := by
  induction es with
  | nil => rfl
  | cons e es ih => rw [renderedEach, ih, List.map_cons]

theorem renderedBindings_eq (bs : List Binding) : renderedBindings bs = bs.map Binding.rendered := by
  induction bs with
  | nil => rfl
  | cons b bs ih =>
      obtain ⟨x, init⟩ := b
      rw [renderedBindings, ih]
      rfl

def Expr.renderedProgram (es : List Expr) : List Lexeme :=
  separatedBy (.punctuation ';') (es.map Expr.rendered)

namespace Descent

open Phrase

variable {ts ts' : Tokens} {bound : Nat} {u v w : List Lexeme} {e : Expr}

def ReadsAs (u : List Lexeme) (e : Expr) : Prop :=
  ∀ ts ts' bound, ts.Yields u ts' → 4 * u.length ≤ bound + 3 → atom bound ts = .ok (e, ts')

def ReadsWithin (u : List Lexeme) (e : Expr) : Prop :=
  ∀ ts ts' bound, ts.Yields u ts' → ts'.Ahead (.punctuation ')') → 4 * u.length ≤ bound →
    expression bound ts = .ok (e, ts')

def unplaced (u : List Lexeme) : Tokens := ⟨u.map fun l => ⟨l, {}, {}⟩, .ended {}⟩

theorem yields_unplaced (u : List Lexeme) : (unplaced u).Yields u (unplaced []) :=
  ⟨(unplaced u).list, List.map_map.trans (List.map_id u), by simp [unplaced], rfl⟩

theorem ReadsAs.ne_nil (reads : ReadsAs u e) : u ≠ [] := by
  rintro rfl
  cases reads _ _ 0 (yields_unplaced []) (by simp)

theorem ReadsAs.start {mark : Char} (reads : ReadsAs (.punctuation mark :: u) e) : mark = '(' ∨ mark = '\x7b' :=
  atom_start (reads _ _ _ (yields_unplaced _) (Nat.le_add_right _ 3)) rfl

theorem ReadsAs.operand (reads : ReadsAs u e) (taken : ts.Yields u ts') {ahead : Option Lexeme}
    (peeked : ts'.peek = .ok ahead) (other : ahead ≠ some (.punctuation '(')) (enough : 4 * u.length ≤ bound + 2) :
    operand bound ts = .ok (e, ts') := by
  have visible := List.length_pos_iff.mpr reads.ne_nil
  obtain ⟨bound, rfl⟩ : ∃ k, bound = k + 2 := ⟨bound - 2, by omega⟩
  exact operand_ok.mpr ⟨e, ts', reads ts ts' _ taken (by omega), calls_stop peeked other⟩

theorem ReadsAs.expression (reads : ReadsAs u e) (taken : ts.Yields u ts') (stops : Stops false ts')
    (enough : 4 * u.length ≤ bound) : expression bound ts = .ok (e, ts') := by
  have visible := List.length_pos_iff.mpr reads.ne_nil
  obtain ⟨ahead, peeked, other, loose, _⟩ := stops
  obtain ⟨bound, rfl⟩ : ∃ k, bound = k + 2 := ⟨bound - 2, by omega⟩
  exact expression_ok.mpr ⟨e, ts', reads.operand taken peeked other (by omega), operators_stop peeked loose⟩

theorem readsAs_enclosed (within : ReadsWithin u e) : ReadsAs (enclosed u) e := by
  intro ts ts' bound taken enough
  simp only [enclosed, List.length_cons, List.length_append, List.length_nil] at enough
  obtain ⟨bound, rfl⟩ : ∃ k, bound = k + 1 := ⟨bound - 1, by omega⟩
  obtain ⟨opened, inner, inside, closed, rfl⟩ := Tokens.yields_enclosed taken
  rw [atom, atomForm, opened]
  exact group_ok.mpr ⟨opened, inner, within _ _ bound inside closed (by omega), closed, rfl⟩

theorem operators_closed {mark : Char} {floor : Nat} (closed : ts.Ahead (.punctuation mark)) :
    operators (bound + 1) e floor ts = .ok (e, ts) := by
  refine operators_stop closed ?_
  intro l same
  cases same
  rfl

theorem readsWithin_of_atom (visible : u ≠ [])
    (read : ∀ ts ts' bound, ts.Yields u ts' → ts'.Ahead (.punctuation ')') → 4 * u.length ≤ bound + 3 →
      atom bound ts = .ok (e, ts')) : ReadsWithin u e := by
  intro ts ts' bound taken closed enough
  have visible := List.length_pos_iff.mpr visible
  obtain ⟨bound, rfl⟩ : ∃ k, bound = k + 3 := ⟨bound - 3, by omega⟩
  have first := read ts ts' (bound + 1) taken closed (by omega)
  have operand' := operand_ok.mpr ⟨e, ts', first, calls_stop closed (by simp)⟩
  exact expression_ok.mpr ⟨e, ts', operand', operators_closed closed⟩

theorem listed_of_texts {α : Type} {item : Reader α} {text : α → List Lexeme} {xs : List α} {stop separator : Char}
    (plain : separator ≠ '(' ∧ stop ≠ '(')
    (starts : ∀ x ∈ xs, ∃ l rest, text x = l :: rest ∧ l ≠ .punctuation stop)
    (items : ∀ x ∈ xs, ∀ ts ts' mark, ts.Yields (text x) ts' → ts'.Ahead (.punctuation mark) → mark ≠ '(' →
      item ts = .ok (x, ts'))
    (taken : ts.Yields (separatedBy (.punctuation separator) (xs.map text)) ts')
    (closed : ts'.Ahead (.punctuation stop)) : Listed stop separator item ts xs ts' := by
  induction xs generalizing ts with
  | nil =>
      obtain rfl := Tokens.yields_nil.mp taken
      exact .none closed
  | cons x xs ih =>
      obtain ⟨l, rest, shape, other⟩ := starts x List.mem_cons_self
      have first := items x List.mem_cons_self
      cases xs with
      | nil =>
          have taken : ts.Yields (text x) ts' := taken
          have read := first ts ts' stop taken closed plain.2
          rw [shape] at taken
          exact .last (Tokens.yields_cons.mp taken).1 other read closed
      | cons y xs =>
          obtain ⟨mid, taken, behind⟩ := Tokens.yields_append.mp taken
          obtain ⟨between, behind⟩ := Tokens.yields_cons.mp behind
          have read := first ts mid separator taken between plain.1
          rw [shape] at taken
          refine .more (Tokens.yields_cons.mp taken).1 other read between (ih ?_ ?_ behind)
          · exact fun y member => starts y (List.mem_cons_of_mem _ member)
          · exact fun y member => items y (List.mem_cons_of_mem _ member)

theorem listed_of_rendered {es : List Expr} {stop separator : Char} (plain : separator ≠ '(' ∧ stop ≠ '(')
    (closing : stop ≠ '\x7b') (reads : ∀ e ∈ es, ReadsAs e.rendered e)
    (taken : ts.Yields (separatedBy (.punctuation separator) (es.map Expr.rendered)) ts')
    (closed : ts'.Ahead (.punctuation stop))
    (enough : 4 * (separatedBy (.punctuation separator) (es.map Expr.rendered)).length ≤ bound) :
    Listed stop separator (expression bound) ts es ts' ∧
      es.length ≤ (separatedBy (.punctuation separator) (es.map Expr.rendered)).length := by
  refine ⟨listed_of_texts plain ?_ ?_ taken closed, ?_⟩
  · intro e member
    obtain ⟨l, rest, shape⟩ := List.exists_cons_of_ne_nil (reads e member).ne_nil
    refine ⟨l, rest, shape, ?_⟩
    rintro rfl
    rcases (shape ▸ reads e member : ReadsAs _ e).start with same | same
    · exact plain.2 same
    · exact closing same
  · intro e member ts ts' mark inside ahead other
    have short := length_le_separatedBy (.punctuation separator) (List.mem_map_of_mem (f := Expr.rendered) member)
    exact (reads e member).expression inside (stops_at_mark ahead other) (by omega)
  · rw [← List.length_map (f := Expr.rendered)]
    refine length_le_items (.punctuation separator) ?_
    intro u member
    obtain ⟨e, listed, rfl⟩ := List.mem_map.mp member
    exact (reads e listed).ne_nil

theorem readsAs_leaf {l : Lexeme} (leaf : ∀ bound ts, ts.Ahead l → atom (bound + 1) ts = .ok (e, ts.tail)) :
    ReadsAs [l] e := by
  intro ts ts' bound taken enough
  obtain ⟨bound, rfl⟩ : ∃ k, bound = k + 1 := ⟨bound - 1, by simp at enough; omega⟩
  obtain ⟨ahead, behind⟩ := Tokens.yields_cons.mp taken
  obtain rfl := Tokens.yields_nil.mp behind
  exact leaf bound ts ahead

theorem readsWithin_operator {left right : Expr} {symbol : String} {level : Level} (member : symbol ∈ level.symbols)
    (first : ReadsAs u left) (second : ReadsAs v right) :
    ReadsWithin (u ++ .operator symbol :: v) (combine symbol left right) := by
  intro ts ts' bound taken closed enough
  have visible := List.length_pos_iff.mpr second.ne_nil
  rw [List.length_append, List.length_cons] at enough
  obtain ⟨bound, rfl⟩ : ∃ k, bound = k + 3 := ⟨bound - 3, by omega⟩
  obtain ⟨mid, taken, behind⟩ := Tokens.yields_append.mp taken
  obtain ⟨ahead, behind⟩ := Tokens.yields_cons.mp behind
  have found : precedence? symbol = some level.rank := (precedence?_iff _ _).mpr ⟨level, member, rfl⟩
  have stop (e : Expr) (floor : Nat) : operators (bound + 1) e floor ts' = .ok (e, ts') := operators_closed closed
  have left' : operand (bound + 2) ts = .ok (left, mid) := first.operand taken ahead (by simp) (by omega)
  have right' : operand (bound + 1) mid.tail = .ok (right, ts') :=
    second.operand behind closed (by simp) (by omega)
  refine expression_ok.mpr ⟨left, mid, left', (operators_go ahead found level.rank_pos).mpr ?_⟩
  exact ⟨right, ts', right, ts', right', stop right level.rank, stop _ 0⟩

theorem readsWithin_call {func : Expr} {args : List Expr} (first : ReadsAs u func)
    (reads : ∀ e ∈ args, ReadsAs e.rendered e) :
    ReadsWithin (u ++ enclosed (separatedBy (.punctuation ',') (args.map Expr.rendered))) (.call func args) := by
  intro ts ts' bound taken closed enough
  simp only [enclosed, List.length_append, List.length_cons, List.length_nil] at enough
  obtain ⟨bound, rfl⟩ : ∃ k, bound = k + 4 := ⟨bound - 4, by omega⟩
  obtain ⟨mid, before, behind⟩ := Tokens.yields_append.mp taken
  obtain ⟨opened, inner, inside, ended, rfl⟩ := Tokens.yields_enclosed behind
  have func' := first ts mid (bound + 2) before (by omega)
  obtain ⟨listed, few⟩ : Listed ')' ',' (expression (bound + 1)) mid.tail args inner ∧ _ :=
    listed_of_rendered (by decide) (by decide) reads inside ended (by omega)
  have call : calls (bound + 2) func mid = .ok (.call func args, inner.tail) :=
    (calls_go opened).mpr ⟨args, inner, by omega, listed, calls_stop closed (by simp)⟩
  exact expression_ok.mpr ⟨_, _, operand_ok.mpr ⟨func, mid, func', call⟩, operators_closed closed⟩

theorem readsWithin_conditional {test yes no : Expr} (first : ReadsAs u test) (second : ReadsAs v yes)
    (third : (w = [] ∧ no = .hole) ∨ ∃ x, w = .keyword .else_ :: x ∧ ReadsAs x no) :
    ReadsWithin (.keyword .if_ :: (u ++ .keyword .then_ :: (v ++ w))) (.cond test yes no) := by
  refine readsWithin_of_atom (by simp) ?_
  intro ts ts' bound taken closed enough
  simp only [List.length_append, List.length_cons] at enough
  obtain ⟨bound, rfl⟩ : ∃ k, bound = k + 1 := ⟨bound - 1, by omega⟩
  obtain ⟨ahead, behind⟩ := Tokens.yields_cons.mp taken
  obtain ⟨after, tested, behind⟩ := Tokens.yields_append.mp behind
  obtain ⟨then_, behind⟩ := Tokens.yields_cons.mp behind
  obtain ⟨last, branch, behind⟩ := Tokens.yields_append.mp behind
  have test' := first.expression tested (stops_at_keyword then_ (by simp)) (by omega : 4 * u.length ≤ bound)
  rw [atom, atomForm, ahead]
  refine conditional_ok.mpr ⟨ahead, test, yes, no, after, after.tail, last, test', .inr ⟨then_, rfl⟩, ?_⟩
  rcases third with ⟨rfl, rfl⟩ | ⟨x, rfl, third⟩
  · obtain rfl := Tokens.yields_nil.mp behind
    have yes' := second.expression branch (stops_at_mark closed (by decide)) (by omega : 4 * v.length ≤ bound)
    exact ⟨yes', .inr ⟨_, closed, by simp, rfl, rfl⟩, rfl⟩
  · obtain ⟨else_, behind⟩ := Tokens.yields_cons.mp behind
    simp only [List.length_cons] at enough
    have yes' := second.expression branch (stops_at_keyword else_ (by simp)) (by omega : 4 * v.length ≤ bound)
    have no' := third.expression behind (stops_at_mark closed (by decide)) (by omega : 4 * x.length ≤ bound)
    exact ⟨yes', .inl ⟨else_, no'⟩, rfl⟩

theorem readsWithin_function {params : List String} {body : Expr} {self : Option String} (last : ReadsAs v body) :
    ReadsWithin (.keyword .lambda :: (Expr.selfText self ++
      (enclosed (separatedBy (.punctuation ',') (params.map fun x => [.name x])) ++ v)))
      (.lambda params body self) := by
  refine readsWithin_of_atom (by simp) ?_
  intro ts ts' bound taken closed enough
  have few : (params.map fun x => [Lexeme.name x]).length ≤ _ := length_le_items (.punctuation ',') (by simp)
  simp only [enclosed, List.length_append, List.length_cons, List.length_nil, List.length_map] at enough few
  obtain ⟨bound, rfl⟩ : ∃ k, bound = k + 1 := ⟨bound - 1, by omega⟩
  obtain ⟨ahead, behind⟩ := Tokens.yields_cons.mp taken
  obtain ⟨head, named, behind⟩ := Tokens.yields_append.mp behind
  obtain ⟨mid, header, behind⟩ := Tokens.yields_append.mp behind
  obtain ⟨opened, inner, inside, ended, rfl⟩ := Tokens.yields_enclosed header
  have listed : Listed ')' ',' name head.tail params inner := by
    refine listed_of_texts (by decide) (fun x _ => ⟨_, _, rfl, by simp⟩) ?_ inside ended
    intro x _ ts ts' _ taken _ _
    obtain ⟨ahead, behind⟩ := Tokens.yields_cons.mp taken
    exact name_ok.mpr ⟨ahead, Tokens.yields_nil.mp behind⟩
  have self' : name? ts.tail = .ok (self, head) := by
    refine name?_of_selfName ?_ named opened
    cases self with
    | none => exact .none
    | some x => exact .name x
  have body' := last.expression behind (stops_at_mark closed (by decide)) (by omega : 4 * v.length ≤ bound)
  rw [atom, atomForm, ahead]
  exact function_ok.mpr ⟨self, params, body, head, inner, self', opened, by omega, listed, body', rfl⟩

theorem readsWithin_let {bindings : List Binding} {body : Expr}
    (inits : ∀ b ∈ bindings, ReadsAs b.init.rendered b.init) (last : ReadsAs v body) :
    ReadsWithin (.keyword .let_ :: (enclosed (separatedBy (.punctuation ',') (bindings.map Binding.rendered)) ++ v))
      (.letIn bindings body) := by
  refine readsWithin_of_atom (by simp) ?_
  intro ts ts' bound taken closed enough
  have few : (bindings.map Binding.rendered).length ≤ _ :=
    length_le_items (.punctuation ',') (by simp [Binding.rendered])
  simp only [enclosed, List.length_append, List.length_cons, List.length_nil, List.length_map] at enough few
  obtain ⟨bound, rfl⟩ : ∃ k, bound = k + 1 := ⟨bound - 1, by omega⟩
  obtain ⟨ahead, behind⟩ := Tokens.yields_cons.mp taken
  obtain ⟨mid, header, behind⟩ := Tokens.yields_append.mp behind
  obtain ⟨opened, inner, inside, ended, rfl⟩ := Tokens.yields_enclosed header
  have listed : Listed ')' ',' (binding (expression bound)) ts.tail.tail bindings inner := by
    refine listed_of_texts (by decide) (fun b _ => ⟨_, _, rfl, by simp⟩) ?_ inside ended
    intro b member ts ts' mark taken ahead other
    have short := length_le_separatedBy (.punctuation ',') (List.mem_map_of_mem (f := Binding.rendered) member)
    simp only [Binding.rendered, List.length_cons] at short
    obtain ⟨named, behind⟩ := Tokens.yields_cons.mp taken
    obtain ⟨equals, behind⟩ := Tokens.yields_cons.mp behind
    have init : expression bound ts.tail.tail = .ok (b.init, ts') :=
      (inits b member).expression behind (stops_at_mark ahead other) (by omega)
    exact binding_ok.mpr ⟨b.name, b.init, named, equals, init, by cases b; rfl⟩
  have self' : name? ts.tail = .ok (none, ts.tail) := name?_of_selfName .none (Tokens.yields_nil.mpr rfl) opened
  have body' := last.expression behind (stops_at_mark closed (by decide)) (by omega : 4 * v.length ≤ bound)
  rw [atom, atomForm, ahead]
  exact letForm_ok.mpr ⟨none, bindings, body, _, inner, self', opened, by omega, listed, body', rfl⟩

theorem readsAs_block {es : List Expr} (several : 2 ≤ es.length) (reads : ∀ e ∈ es, ReadsAs e.rendered e) :
    ReadsAs (.punctuation '\x7b' :: (separatedBy (.punctuation ';') (es.map Expr.rendered) ++ [.punctuation '\x7d']))
      (.prog es) := by
  intro ts ts' bound taken enough
  simp only [List.length_append, List.length_cons, List.length_nil] at enough
  obtain ⟨bound, rfl⟩ : ∃ k, bound = k + 1 := ⟨bound - 1, by omega⟩
  obtain ⟨opened, inner, inside, closed, rfl⟩ := Tokens.yields_enclosed taken
  obtain ⟨listed, few⟩ : Listed '\x7d' ';' (expression bound) ts.tail es inner ∧ _ :=
    listed_of_rendered (by decide) (by decide) reads inside closed (by omega)
  have block : Expr.prog es = .block es := by
    cases es with
    | nil => simp at several
    | cons e es =>
        cases es with
        | nil => simp at several
        | cons e' es => rfl
  rw [atom, atomForm, opened]
  exact (block_ok (expression_visible bound)).mpr ⟨opened, es, inner, by omega, listed, block, rfl⟩

theorem symbols_of_binary {symbol : String} (member : symbol ∈ Expr.binarySymbols) :
    symbol ≠ "=" ∧ ∃ level : Level, symbol ∈ level.symbols := by
  have listed : ∀ s ∈ Expr.binarySymbols, s ≠ "=" ∧ (precedence? s).isSome = true := by decide
  obtain ⟨other, known⟩ := listed symbol member
  obtain ⟨n, found⟩ := Option.isSome_iff_exists.mp known
  obtain ⟨level, here, _⟩ := (precedence?_iff symbol n).mp found
  exact ⟨other, level, here⟩

mutual

theorem readsAs_rendered : (e : Expr) → e.WellFormed → ReadsAs e.rendered e
  | .hole, formed => formed.elim
  | .num _, _ => readsAs_leaf fun _ _ ahead => by rw [atom, atomForm, ahead]; rfl
  | .str _, _ => readsAs_leaf fun _ _ ahead => by rw [atom, atomForm, ahead]; rfl
  | .bool true, _ => readsAs_leaf fun _ _ ahead => by rw [atom, atomForm, ahead]; rfl
  | .bool false, _ => readsAs_leaf fun _ _ ahead => by rw [atom, atomForm, ahead]; rfl
  | .var _, _ => readsAs_leaf fun _ _ ahead => by rw [atom, atomForm, ahead]; rfl
  | .lambda params body self, formed => by
      rw [Expr.rendered]
      exact readsAs_enclosed (readsWithin_function (readsAs_rendered body formed.2.2))
  | .call func args, formed => by
      rw [Expr.rendered, renderedEach_eq]
      exact readsAs_enclosed
        (readsWithin_call (readsAs_rendered func formed.1) (readsAs_each args formed.2))
  | .cond test yes no, formed => by
      rw [Expr.rendered]
      refine readsAs_enclosed
        (readsWithin_conditional (readsAs_rendered test formed.1) (readsAs_rendered yes formed.2.1) ?_)
      cases missing : no.isHole with
      | true => exact .inl ⟨rfl, by cases no <;> first | rfl | cases missing⟩
      | false =>
          have third := formed.2.2.resolve_left (by simp [missing])
          exact .inr ⟨_, rfl, readsAs_rendered no third⟩
  | .assign target value, formed => by
      have equals : "=" ∈ Level.assignment.symbols := by decide
      have first := readsAs_rendered target formed.1
      have second := readsAs_rendered value formed.2
      rw [Expr.rendered]
      exact readsAs_enclosed (readsWithin_operator equals first second)
  | .binary op left right, formed => by
      obtain ⟨other, level, member⟩ := symbols_of_binary formed.1
      have first := readsAs_rendered left formed.2.1
      have second := readsAs_rendered right formed.2.2
      have within := readsWithin_operator member first second
      rw [combine, if_neg other] at within
      rw [Expr.rendered]
      exact readsAs_enclosed within
  | .prog body, formed => by
      rw [Expr.rendered, renderedEach_eq]
      exact readsAs_block formed.1 (readsAs_each body formed.2)
  | .letIn bindings body, formed => by
      rw [Expr.rendered, renderedBindings_eq]
      exact readsAs_enclosed
        (readsWithin_let (readsAs_bindings bindings formed.1) (readsAs_rendered body formed.2))
  | .binding _, formed => formed.elim

theorem readsAs_each : (es : List Expr) → exprsWellFormed es → ∀ e ∈ es, ReadsAs e.rendered e
  | [], _ => by simp
  | e :: es, formed => List.forall_mem_cons.mpr ⟨readsAs_rendered e formed.1, readsAs_each es formed.2⟩

theorem readsAs_bindings :
    (bs : List Binding) → bindingsWellFormed bs → ∀ b ∈ bs, ReadsAs b.init.rendered b.init
  | [], _ => by simp
  | .mk _ init :: bs, formed =>
      List.forall_mem_cons.mpr ⟨readsAs_rendered init formed.1.2, readsAs_bindings bs formed.2⟩

end

theorem sequence_of_rendered {es : List Expr} (reads : ∀ e ∈ es, ReadsAs e.rendered e)
    (taken : ts.Yields (Expr.renderedProgram es) ts') (ended : ts'.peek = .ok none)
    (enough : 4 * (Expr.renderedProgram es).length + 1 ≤ bound) : sequence bound ts = .ok es := by
  induction es generalizing ts bound with
  | nil =>
      obtain ⟨bound, rfl⟩ : ∃ k, bound = k + 1 := ⟨bound - 1, by omega⟩
      obtain rfl := Tokens.yields_nil.mp taken
      exact sequence_ok.mpr (.inl ⟨ended, rfl⟩)
  | cons e es ih =>
      obtain ⟨bound, rfl⟩ : ∃ k, bound = k + 1 := ⟨bound - 1, by omega⟩
      obtain ⟨first, others⟩ := List.forall_mem_cons.mp reads
      cases es with
      | nil =>
          have stops : Stops false ts' := ⟨none, ended, by simp, by simp, by simp⟩
          have only : 4 * e.rendered.length + 1 ≤ bound + 1 := enough
          have read := first.expression taken stops (by omega : 4 * e.rendered.length ≤ bound)
          exact sequence_ok.mpr (.inr ⟨e, ts', read, .inl ⟨ended, rfl⟩⟩)
      | cons e' es =>
          obtain ⟨mid, before, behind⟩ := Tokens.yields_append.mp taken
          obtain ⟨separator, behind⟩ := Tokens.yields_cons.mp behind
          have parts : (Expr.renderedProgram (e :: e' :: es)).length =
              e.rendered.length + ((Expr.renderedProgram (e' :: es)).length + 1) := by
            simp [Expr.renderedProgram, separatedBy]
          have read := first.expression before (stops_at_mark separator (by decide))
            (by omega : 4 * e.rendered.length ≤ bound)
          have rest := ih others behind (by omega : _ ≤ bound)
          exact sequence_ok.mpr (.inr ⟨e, mid, read, .inr ⟨separator, _, rest, rfl⟩⟩)

end Descent

namespace Lexeme

theorem proper_of_munch? {cs slice : List Char} {l : Lexeme} (found : munch? cs = some (l, slice)) : l.Proper :=
  ⟨slice, (munched found).spelled⟩

theorem proper_mark {mark : Char} (known : isMark mark = true) : (punctuation mark).Proper := ⟨_, .mark known⟩

theorem proper_keyword (word : Keyword) : (keyword word).Proper := by
  have found : munch? word.text.toList = some (.keyword word, word.text.toList) := by
    cases word <;> rfl
  exact proper_of_munch? found

theorem proper_operator {symbol : String} (member : symbol ∈ "=" :: Expr.binarySymbols) :
    (operator symbol).Proper := by
  have listed : ("=" :: Expr.binarySymbols).all (fun s =>
      !s.toList.isEmpty && s.toList.all isOperatorChar) = true := by decide
  obtain ⟨visible, signs⟩ : symbol.toList ≠ [] ∧ ∀ c ∈ symbol.toList, isOperatorChar c = true := by
    simpa using List.all_eq_true.mp listed symbol member
  obtain ⟨c, cs, shape⟩ := List.exists_cons_of_ne_nil visible
  rw [← String.ofList_toList (s := symbol), shape]
  exact ⟨_, .operator (shape ▸ signs)⟩

theorem proper_text (s : String) : (text s).Proper := by
  have escaped : ∀ cs : List Char, Escaped (cs.flatMap fun c => ['\\', c]) cs := by
    intro cs
    induction cs with
    | nil => exact .nil
    | cons c cs ih => exact .escape ih
  rw [← String.ofList_toList (s := s)]
  exact ⟨_, .closed (escaped s.toList)⟩

end Lexeme

open Phrase

theorem Tokens.proper_ofCursor (c : Cursor) : Proper (ofCursor c).lexemes := by
  fun_induction ofCursor c with
  | case1 c t after found more ih =>
      obtain ⟨slice, munched, _⟩ := Cursor.scan_token found
      exact proper_cons.mpr ⟨Lexeme.proper_of_munch? munched, ih⟩
  | case2 => exact fun l member => absurd member List.not_mem_nil
  | case3 => exact fun l member => absurd member List.not_mem_nil

section Proper

theorem proper_nil : Proper [] := fun _ member => absurd member List.not_mem_nil

theorem proper_one {l : Lexeme} (proper : l.Proper) : Proper [l] := proper_cons.mpr ⟨proper, proper_nil⟩

theorem proper_enclosed {u : List Lexeme} (proper : Proper u) : Proper (enclosed u) :=
  proper_cons.mpr ⟨Lexeme.proper_mark rfl, proper_append.mpr ⟨proper, proper_one (Lexeme.proper_mark rfl)⟩⟩

theorem proper_separatedBy {separator : Lexeme} {us : List (List Lexeme)} (between : separator.Proper)
    (each : ∀ u ∈ us, Proper u) : Proper (separatedBy separator us) := by
  fun_induction separatedBy separator us with
  | case1 => exact proper_nil
  | case2 u => exact each u List.mem_cons_self
  | case3 u v us ih =>
      obtain ⟨first, others⟩ := List.forall_mem_cons.mp each
      exact proper_append.mpr ⟨first, proper_cons.mpr ⟨between, ih others⟩⟩

theorem proper_operation {symbol : String} {u v : List Lexeme} (member : symbol ∈ "=" :: Expr.binarySymbols)
    (first : Proper u) (second : Proper v) : Proper (enclosed (u ++ .operator symbol :: v)) :=
  proper_enclosed (proper_append.mpr ⟨first, proper_cons.mpr ⟨Lexeme.proper_operator member, second⟩⟩)

end Proper

mutual

theorem Expr.proper_rendered : (e : Expr) → e.WellFormed → Proper e.rendered
  | .hole, formed => formed.elim
  | .num _, formed => proper_one formed
  | .str s, _ => proper_one (Lexeme.proper_text s)
  | .bool true, _ => proper_one (Lexeme.proper_keyword .true_)
  | .bool false, _ => proper_one (Lexeme.proper_keyword .false_)
  | .var _, formed => proper_one formed
  | .lambda params body self, formed => by
      obtain ⟨names, named, code⟩ := formed
      rw [Expr.rendered]
      have self' : Proper (Expr.selfText self) := by
        cases self with
        | none => exact proper_nil
        | some x => exact proper_one (named x rfl)
      have params' : ∀ u ∈ params.map fun x => [Lexeme.name x], Proper u := by
        intro u member
        obtain ⟨x, listed, rfl⟩ := List.mem_map.mp member
        exact proper_one (names x listed)
      have header : Proper (separatedBy (.punctuation ',') (params.map fun x => [.name x])) :=
        proper_separatedBy (Lexeme.proper_mark rfl) params'
      exact proper_enclosed (proper_cons.mpr ⟨Lexeme.proper_keyword .lambda,
        proper_append.mpr ⟨self', proper_append.mpr ⟨proper_enclosed header, body.proper_rendered code⟩⟩⟩)
  | .call func args, formed => by
      rw [Expr.rendered]
      have args' : Proper (separatedBy (.punctuation ',') (renderedEach args)) :=
        proper_separatedBy (Lexeme.proper_mark rfl) (proper_each args formed.2)
      exact proper_enclosed (proper_append.mpr ⟨func.proper_rendered formed.1, proper_enclosed args'⟩)
  | .cond test yes no, formed => by
      rw [Expr.rendered]
      have no' : Proper (if no.isHole then [] else .keyword .else_ :: no.rendered) := by
        split
        · exact proper_nil
        · rename_i written
          exact proper_cons.mpr ⟨Lexeme.proper_keyword .else_,
            no.proper_rendered (formed.2.2.resolve_left written)⟩
      have branches := proper_append.mpr ⟨yes.proper_rendered formed.2.1, no'⟩
      exact proper_enclosed (proper_cons.mpr ⟨Lexeme.proper_keyword .if_, proper_append.mpr
        ⟨test.proper_rendered formed.1, proper_cons.mpr ⟨Lexeme.proper_keyword .then_, branches⟩⟩⟩)
  | .assign target value, formed => by
      rw [Expr.rendered]
      exact proper_operation List.mem_cons_self (target.proper_rendered formed.1) (value.proper_rendered formed.2)
  | .binary _ left right, formed => by
      rw [Expr.rendered]
      exact proper_operation (List.mem_cons_of_mem _ formed.1) (left.proper_rendered formed.2.1)
        (right.proper_rendered formed.2.2)
  | .prog body, formed => by
      rw [Expr.rendered]
      have items : Proper (separatedBy (.punctuation ';') (renderedEach body)) :=
        proper_separatedBy (Lexeme.proper_mark rfl) (proper_each body formed.2)
      exact proper_cons.mpr ⟨Lexeme.proper_mark rfl,
        proper_append.mpr ⟨items, proper_one (Lexeme.proper_mark rfl)⟩⟩
  | .letIn bindings body, formed => by
      rw [Expr.rendered]
      have header : Proper (separatedBy (.punctuation ',') (renderedBindings bindings)) :=
        proper_separatedBy (Lexeme.proper_mark rfl) (proper_bindings bindings formed.1)
      exact proper_enclosed (proper_cons.mpr ⟨Lexeme.proper_keyword .let_,
        proper_append.mpr ⟨proper_enclosed header, body.proper_rendered formed.2⟩⟩)
  | .binding _, formed => formed.elim

theorem proper_each : (es : List Expr) → exprsWellFormed es → ∀ u ∈ renderedEach es, Proper u
  | [], _ => fun _ member => absurd member List.not_mem_nil
  | e :: es, formed => List.forall_mem_cons.mpr ⟨e.proper_rendered formed.1, proper_each es formed.2⟩

theorem proper_bindings : (bs : List Binding) → bindingsWellFormed bs → ∀ u ∈ renderedBindings bs, Proper u
  | [], _ => fun _ member => absurd member List.not_mem_nil
  | .mk _ init :: bs, formed =>
      List.forall_mem_cons.mpr ⟨proper_cons.mpr ⟨formed.1.1, proper_cons.mpr
        ⟨Lexeme.proper_operator List.mem_cons_self, init.proper_rendered formed.1.2⟩⟩,
        proper_bindings bs formed.2⟩

end

namespace Descent

-- What the front end makes of the lexemes of a language is a program of well-formed expressions, and all such
-- programs come about: the fully parenthesised text of each is made of lexemes of the language and is read
-- back as the program that it was made from.
theorem image_is_the_well_formed_programs :
    (∀ source, Proper (Tokens.ofSource source).lexemes) ∧
    (∀ ts e, Proper ts.lexemes → program ts = .ok e → ∃ es, e = .prog es ∧ ∀ e ∈ es, e.WellFormed) ∧
    ∀ es, (∀ e ∈ es, e.WellFormed) → Proper (Expr.renderedProgram es) ∧
      ∀ ts p, ts.lexemes = Expr.renderedProgram es → ts.ending = .ended p → program ts = .ok (.prog es) := by
  refine ⟨fun source => Tokens.proper_ofCursor _, ?_, ?_⟩
  · intro ts e proper read
    rw [program] at read
    cases parsed : sequence (boundFor ts) ts with
    | error failure =>
        rw [parsed] at read
        cases read
    | ok es =>
        rw [parsed] at read
        cases read
        exact ⟨es, rfl, wellFormed_items (sound_sequence parsed).2 proper⟩
  · intro es formed
    refine ⟨?_, ?_⟩
    · rw [Expr.renderedProgram, ← renderedEach_eq]
      exact proper_separatedBy (Lexeme.proper_mark rfl) (proper_each es ((exprsWellFormed_iff es).mpr formed))
    · intro ts p text ended
      have taken : ts.Yields (Expr.renderedProgram es) ⟨[], .ended p⟩ := ⟨ts.list, text, by simp, ended.symm⟩
      have enough : 4 * (Expr.renderedProgram es).length + 1 ≤ boundFor ts := by
        rw [← text]
        simp [Tokens.lexemes, boundFor]
      rw [program, sequence_of_rendered (fun e member => readsAs_rendered e (formed e member)) taken rfl enough]
      rfl

def branchAndBlock : List Expr :=
  [.cond (.binary "<=" (.var "a") (.var "b")) (.letIn [.mk "x" (.str "\"")] (.var "x")) .hole,
    .prog [.call (.lambda ["n"] (.assign (.var "n") (.bool true)) (some "f")) [.var "a"], .var "call/cc"]]

theorem branchAndBlock_read_back :
    (∀ e ∈ branchAndBlock, e.WellFormed) ∧ Proper (Expr.renderedProgram branchAndBlock) ∧
      program (unplaced (Expr.renderedProgram branchAndBlock)) = .ok (.prog branchAndBlock) := by
  have named {x : String} (found : Lexeme.munch? x.toList = some (.name x, x.toList)) : Expr.IsName x :=
    Lexeme.proper_of_munch? found
  have a : Expr.IsName "a" := named rfl
  have x : Expr.IsName "x" := named rfl
  have n : Expr.IsName "n" := named rfl
  have conditional : branchAndBlock[0].WellFormed :=
    ⟨⟨by decide, a, named rfl⟩, ⟨⟨⟨x, trivial⟩, trivial⟩, x⟩, .inl rfl⟩
  have function : (Expr.lambda ["n"] (.assign (.var "n") (.bool true)) (some "f")).WellFormed := by
    refine ⟨List.forall_mem_singleton.mpr n, ?_, n, trivial⟩
    intro f same
    cases same
    exact named rfl
  have block : branchAndBlock[1].WellFormed := ⟨by decide, ⟨function, a, trivial⟩, ⟨_, .slashed⟩, trivial⟩
  have formed : ∀ e ∈ branchAndBlock, e.WellFormed :=
    List.forall_mem_cons.mpr ⟨conditional, List.forall_mem_singleton.mpr block⟩
  obtain ⟨_, _, back⟩ := image_is_the_well_formed_programs
  obtain ⟨proper, read⟩ := back branchAndBlock formed
  exact ⟨formed, proper, read (unplaced _) {} (List.map_map.trans (List.map_id _)) rfl⟩

end Descent

end Trampoline
