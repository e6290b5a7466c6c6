import Trampoline.Proofs.JoinedLexemes

set_option autoImplicit false

namespace Trampoline

structure Tokens.Extends (more : List Lexeme) (ts ts' : Tokens) : Prop where
  lexemes : ts'.lexemes = ts.lexemes ++ more
  ended : ts.Ended
  ended' : ts'.Ended

def Closing (more : List Lexeme) : Prop := ∀ l, more.head? = some l → l = .punctuation ';'

namespace Tokens.Extends

variable {more : List Lexeme} {ts ts' : Tokens} {l : Lexeme}

theorem ahead (longer : Extends more ts ts') (here : ts.Ahead l) :
    ts'.Ahead l ∧ Extends more ts.tail ts'.tail := by
  obtain ⟨t, rest, list, rfl⟩ := ahead_iff.mp here
  have lexemes := longer.lexemes
  simp only [Tokens.lexemes, list, List.map_cons, List.cons_append] at lexemes
  obtain ⟨t', rest', list', same, others⟩ := List.map_eq_cons_iff.mp lexemes
  refine ⟨ahead_iff.mpr ⟨t', rest', list', same⟩, ?_, longer.ended, longer.ended'⟩
  simp [Tokens.lexemes, tail, list, list', others]

theorem peek (longer : Extends more ts ts') (closing : Closing more) {ahead : Option Lexeme}
    (peeked : ts.peek = .ok ahead) :
    ∃ ahead', ts'.peek = .ok ahead' ∧ (ahead' = ahead ∨ ahead' = some (.punctuation ';')) := by
  cases ahead with
  | some l => exact ⟨some l, (longer.ahead peeked).1, .inl rfl⟩
  | none =>
      obtain ⟨empty, _⟩ := peek_none.mp peeked
      have lexemes := longer.lexemes
      simp only [Tokens.lexemes, empty, List.map_nil, List.nil_append] at lexemes
      cases behind : ts'.list with
      | nil => exact ⟨none, peek_none.mpr ⟨behind, longer.ended'⟩, .inl rfl⟩
      | cons t rest =>
          have mark := closing t.lexeme (by rw [← lexemes, behind]; rfl)
          exact ⟨_, ahead_iff.mpr ⟨t, rest, behind, mark⟩, .inr rfl⟩

end Tokens.Extends

namespace Descent

-- Whatever the first reader reads, the second one reads where more follows.
def Carries {α : Type} (more : List Lexeme) (g g' : Reader α) : Prop :=
  ∀ {ts ts' behind : Tokens} {a : α}, ts.Extends more ts' → g ts = .ok (a, behind) →
    ∃ behind', g' ts' = .ok (a, behind') ∧ behind.Extends more behind'

section Forms

variable {more : List Lexeme} {ts ts' behind : Tokens} {f f' : Reader Expr} {bound bound' : Nat}

theorem name_carries : Carries more name name := by
  intro ts ts' behind x longer read
  obtain ⟨here, rfl⟩ := name_ok.mp read
  obtain ⟨here', rest⟩ := longer.ahead here
  exact ⟨_, name_ok.mpr ⟨here', rfl⟩, rest⟩

theorem name?_carries (closing : Closing more) : Carries more name? name? := by
  intro ts ts' behind self longer read
  rcases name?_ok.mp read with ⟨x, here, rfl, rfl⟩ | ⟨ahead, peeked, other, rfl, rfl⟩
  · obtain ⟨here', rest⟩ := longer.ahead here
    exact ⟨_, name?_ok.mpr (.inl ⟨x, here', rfl, rfl⟩), rest⟩
  · obtain ⟨ahead', peeked', same⟩ := longer.peek closing peeked
    refine ⟨ts', name?_ok.mpr (.inr ⟨ahead', peeked', ?_, rfl, rfl⟩), longer⟩
    rcases same with rfl | rfl
    · exact other
    · simp

theorem binding_carries (carries : Carries more f f') : Carries more (binding f) (binding f') := by
  intro ts ts' behind b longer read
  obtain ⟨x, init, named, equals, got, rfl⟩ := binding_ok.mp read
  obtain ⟨named', rest⟩ := longer.ahead named
  obtain ⟨equals', rest⟩ := rest.ahead equals
  obtain ⟨behind', read', rest⟩ := carries rest got
  exact ⟨behind', binding_ok.mpr ⟨x, init, named', equals', read', rfl⟩, rest⟩

theorem group_carries (carries : Carries more f f') : Carries more (group f) (group f') := by
  intro ts ts' behind e longer read
  obtain ⟨opened, inner, got, closed, rfl⟩ := group_ok.mp read
  obtain ⟨opened', rest⟩ := longer.ahead opened
  obtain ⟨inner', read', rest⟩ := carries rest got
  obtain ⟨closed', rest⟩ := rest.ahead closed
  exact ⟨_, group_ok.mpr ⟨opened', inner', read', closed', rfl⟩, rest⟩

theorem Listed.carried {α : Type} {stop separator : Char} {item item' : Reader α} {xs : List α}
    {inner : Tokens} (carries : Carries more item item') (listed : Listed stop separator item ts xs inner)
    (longer : ts.Extends more ts') :
    ∃ inner', Listed stop separator item' ts' xs inner' ∧ inner.Extends more inner' := by
  induction listed generalizing ts' with
  | none here => exact ⟨ts', .none (longer.ahead here).1, longer⟩
  | last here other read closed =>
      obtain ⟨behind', read', rest⟩ := carries longer read
      exact ⟨behind', .last (longer.ahead here).1 other read' (rest.ahead closed).1, rest⟩
  | more here other read separated _ ih =>
      obtain ⟨behind', read', rest⟩ := carries longer read
      obtain ⟨separated', rest⟩ := rest.ahead separated
      obtain ⟨inner', listed', rest⟩ := ih rest
      exact ⟨inner', .more (longer.ahead here).1 other read' separated' listed', rest⟩

theorem block_carries (visible : ∀ ts r, f ts = .ok r → ∃ l, ts.Ahead l)
    (visible' : ∀ ts r, f' ts = .ok r → ∃ l, ts.Ahead l) (carries : Carries more f f')
    (enough : bound ≤ bound') : Carries more (block f bound) (block f' bound') := by
  intro ts ts' behind e longer read
  obtain ⟨opened, items, inner, short, listed, rfl, rfl⟩ := (block_ok visible).mp read
  obtain ⟨opened', rest⟩ := longer.ahead opened
  obtain ⟨inner', listed', rest⟩ := listed.carried carries rest
  have last := rest.ahead listed.closed
  exact ⟨_, (block_ok visible').mpr ⟨opened', items, inner', by omega, listed', rfl, rfl⟩, last.2⟩

theorem Otherwise.carried (closing : Closing more) (carries : Carries more f f') {no : Expr}
    (otherwise : Otherwise f ts no behind) (longer : ts.Extends more ts') :
    ∃ behind', Otherwise f' ts' no behind' ∧ behind.Extends more behind' := by
  rcases otherwise with ⟨here, read⟩ | ⟨ahead, peeked, other, rfl, rfl⟩
  · obtain ⟨here', rest⟩ := longer.ahead here
    obtain ⟨behind', read', rest⟩ := carries rest read
    exact ⟨behind', .inl ⟨here', read'⟩, rest⟩
  · obtain ⟨ahead', peeked', same⟩ := longer.peek closing peeked
    refine ⟨ts', .inr ⟨ahead', peeked', ?_, rfl, rfl⟩, longer⟩
    rcases same with rfl | rfl
    · exact other
    · simp

theorem BranchAt.carried {at_ : Tokens} (start : BranchAt ts at_) (longer : ts.Extends more ts') :
    ∃ at_', BranchAt ts' at_' ∧ at_.Extends more at_' := by
  rcases start with ⟨here, rfl⟩ | ⟨here, rfl⟩
  · exact ⟨ts', .inl ⟨(longer.ahead here).1, rfl⟩, longer⟩
  · obtain ⟨here', rest⟩ := longer.ahead here
    exact ⟨_, .inr ⟨here', rfl⟩, rest⟩

theorem conditional_carries (closing : Closing more) (carries : Carries more f f') :
    Carries more (conditional f) (conditional f') := by
  intro ts ts' behind e longer read
  obtain ⟨first, test, yes, no, after, start, branch, tested, begins, got, otherwise, rfl⟩ :=
    conditional_ok.mp read
  obtain ⟨first', rest⟩ := longer.ahead first
  obtain ⟨after', tested', rest⟩ := carries rest tested
  obtain ⟨start', begins', rest⟩ := begins.carried rest
  obtain ⟨branch', read', rest⟩ := carries rest got
  obtain ⟨behind', otherwise', rest⟩ := otherwise.carried closing carries rest
  exact ⟨behind', conditional_ok.mpr ⟨first', test, yes, no, after', start', branch', tested', begins', read',
    otherwise', rfl⟩, rest⟩

theorem function_carries (closing : Closing more) (carries : Carries more f f')
    (enough : bound ≤ bound') {first : Lexeme} (here : ts.Ahead first) {e : Expr}
    (longer : ts.Extends more ts') (read : function f bound ts = .ok (e, behind)) :
    ∃ behind', function f' bound' ts' = .ok (e, behind') ∧ behind.Extends more behind' := by
  obtain ⟨self, params, body, head, inner, named, opened, short, listed, got, rfl⟩ := function_ok.mp read
  obtain ⟨_, rest⟩ := longer.ahead here
  obtain ⟨head', named', rest⟩ := name?_carries closing rest named
  obtain ⟨opened', rest⟩ := rest.ahead opened
  obtain ⟨inner', listed', rest⟩ := listed.carried name_carries rest
  obtain ⟨_, rest⟩ := rest.ahead listed.closed
  obtain ⟨behind', read', rest⟩ := carries rest got
  exact ⟨behind', function_ok.mpr ⟨self, params, body, head', inner', named', opened', by omega, listed',
    read', rfl⟩, rest⟩

theorem letForm_carries (closing : Closing more) (carries : Carries more f f')
    (enough : bound ≤ bound') {first : Lexeme} (here : ts.Ahead first) {e : Expr}
    (longer : ts.Extends more ts') (read : letForm f bound ts = .ok (e, behind)) :
    ∃ behind', letForm f' bound' ts' = .ok (e, behind') ∧ behind.Extends more behind' := by
  obtain ⟨self, bindings, body, head, inner, named, opened, short, listed, got, rfl⟩ := letForm_ok.mp read
  obtain ⟨_, rest⟩ := longer.ahead here
  obtain ⟨head', named', rest⟩ := name?_carries closing rest named
  obtain ⟨opened', rest⟩ := rest.ahead opened
  obtain ⟨inner', listed', rest⟩ := listed.carried (binding_carries carries) rest
  obtain ⟨_, rest⟩ := rest.ahead listed.closed
  obtain ⟨behind', read', rest⟩ := carries rest got
  exact ⟨behind', letForm_ok.mpr ⟨self, bindings, body, head', inner', named', opened', by omega, listed',
    read', rfl⟩, rest⟩

theorem atomForm_carries (closing : Closing more) (visible : ∀ ts r, f ts = .ok r → ∃ l, ts.Ahead l)
    (visible' : ∀ ts r, f' ts = .ok r → ∃ l, ts.Ahead l) (carries : Carries more f f')
    (enough : bound ≤ bound') : Carries more (atomForm f bound) (atomForm f' bound') := by
  intro ts ts' behind e longer read
  unfold atomForm at read
  obtain ⟨ahead, peeked, read⟩ := bind_eq_ok.mp read
  cases ahead with
  | none => cases read
  | some l =>
      obtain ⟨here, rest⟩ := longer.ahead peeked
      have peeked' : ts'.peek = .ok (some l) := here
      simp only [atomForm, peeked', ok_bind]
      -- A form that takes one lexeme leaves what follows it.
      have leaf : ∀ {e' : Expr}, (.ok (e', ts.tail) : Except ParseError (Expr × Tokens)) = .ok (e, behind) →
          ∃ behind', (.ok (e', ts'.tail) : Except ParseError (Expr × Tokens)) = .ok (e, behind') ∧
            behind.Extends more behind' := by
        intro e' made
        cases made
        exact ⟨_, rfl, rest⟩
      split at read
      · cases read
      · rename_i same
        cases same
        exact group_carries carries longer read
      · rename_i same
        cases same
        exact block_carries visible visible' carries enough longer read
      · rename_i same
        cases same
        exact conditional_carries closing carries longer read
      · rename_i same
        cases same
        exact leaf read
      · rename_i same
        cases same
        exact leaf read
      · rename_i same
        cases same
        exact function_carries closing carries enough peeked longer read
      · rename_i same
        cases same
        exact function_carries closing carries enough peeked longer read
      · rename_i same
        cases same
        exact letForm_carries closing carries enough peeked longer read
      · rename_i same
        cases same
        exact leaf read
      · rename_i same
        cases same
        exact leaf read
      · rename_i same
        cases same
        exact leaf read
      · cases read

end Forms

structure AllCarry (more : List Lexeme) (bound : Nat) : Prop where
  expression : ∀ bound', bound ≤ bound' → Carries more (expression bound) (expression bound')
  operand : ∀ bound', bound ≤ bound' → Carries more (operand bound) (operand bound')
  atom : ∀ bound', bound ≤ bound' → Carries more (atom bound) (atom bound')
  operators : ∀ bound', bound ≤ bound' → ∀ left floor,
    Carries more (operators bound left floor) (operators bound' left floor)
  calls : ∀ bound', bound ≤ bound' → ∀ func, Carries more (calls bound func) (calls bound' func)

theorem all_carry {more : List Lexeme} (closing : Closing more) (bound : Nat) : AllCarry more bound := by
  induction bound with
  | zero =>
      exact ⟨fun _ _ _ _ _ _ _ => nofun, fun _ _ _ _ _ _ _ => nofun, fun _ _ _ _ _ _ _ => nofun,
        fun _ _ _ _ _ _ _ _ _ => nofun, fun _ _ _ _ _ _ _ _ => nofun⟩
  | succ bound ih =>
      refine ⟨?_, ?_, ?_, ?_, ?_⟩
      · intro bound' enough ts ts' behind e longer read
        obtain ⟨bound', rfl⟩ : ∃ k, bound' = k + 1 := ⟨bound' - 1, by omega⟩
        obtain ⟨left, next, first, rest⟩ := expression_ok.mp read
        obtain ⟨next', first', longer⟩ := ih.operand bound' (by omega) longer first
        obtain ⟨behind', rest', longer⟩ := ih.operators bound' (by omega) left 0 longer rest
        exact ⟨behind', expression_ok.mpr ⟨left, next', first', rest'⟩, longer⟩
      · intro bound' enough ts ts' behind e longer read
        obtain ⟨bound', rfl⟩ : ∃ k, bound' = k + 1 := ⟨bound' - 1, by omega⟩
        obtain ⟨func, next, first, rest⟩ := operand_ok.mp read
        obtain ⟨next', first', longer⟩ := ih.atom bound' (by omega) longer first
        obtain ⟨behind', rest', longer⟩ := ih.calls bound' (by omega) func longer rest
        exact ⟨behind', operand_ok.mpr ⟨func, next', first', rest'⟩, longer⟩
      · intro bound' enough ts ts' behind e longer read
        obtain ⟨bound', rfl⟩ : ∃ k, bound' = k + 1 := ⟨bound' - 1, by omega⟩
        exact atomForm_carries closing (expression_visible bound) (expression_visible bound')
          (ih.expression bound' (by omega)) (by omega) longer read
      · intro bound' enough left floor ts ts' behind e longer read
        obtain ⟨bound', rfl⟩ : ∃ k, bound' = k + 1 := ⟨bound' - 1, by omega⟩
        rcases operators_cases read with ⟨ahead, peeked, loose, rfl, rfl⟩ | ⟨symbol, level, here, found, above⟩
        · obtain ⟨ahead', peeked', same⟩ := longer.peek closing peeked
          refine ⟨ts', operators_stop peeked' ?_, longer⟩
          rcases same with rfl | rfl
          · exact loose
          · rintro _ ⟨⟩
            rfl
        · obtain ⟨here', longer⟩ := longer.ahead here
          obtain ⟨right, next, right', next', first, others, rest⟩ := (operators_go here found above).mp read
          obtain ⟨mid, first', longer⟩ := ih.operand bound' (by omega) longer first
          obtain ⟨mid', others', longer⟩ := ih.operators bound' (by omega) right level longer others
          obtain ⟨behind', rest', longer⟩ := ih.operators bound' (by omega) _ floor longer rest
          exact ⟨behind', (operators_go here' found above).mpr
            ⟨right, mid, right', mid', first', others', rest'⟩, longer⟩
      · intro bound' enough func ts ts' behind e longer read
        obtain ⟨bound', rfl⟩ : ∃ k, bound' = k + 1 := ⟨bound' - 1, by omega⟩
        rcases calls_cases read with ⟨ahead, peeked, other, rfl, rfl⟩ | here
        · obtain ⟨ahead', peeked', same⟩ := longer.peek closing peeked
          refine ⟨ts', calls_stop peeked' ?_, longer⟩
          rcases same with rfl | rfl
          · exact other
          · simp
        · obtain ⟨here', longer⟩ := longer.ahead here
          obtain ⟨args, inner, short, listed, rest⟩ := (calls_go here).mp read
          obtain ⟨inner', listed', longer⟩ := listed.carried (ih.expression bound' (by omega)) longer
          obtain ⟨_, longer⟩ := longer.ahead listed.closed
          obtain ⟨behind', rest', longer⟩ := ih.calls bound' (by omega) _ longer rest
          exact ⟨behind', (calls_go here').mpr ⟨args, inner', by omega, listed', rest'⟩, longer⟩

theorem sequence_elsewhere {bound bound' : Nat} (enough : bound ≤ bound') {ts ts' : Tokens} {es : List Expr}
    (same : ts.Extends [] ts') (read : sequence bound ts = .ok es) : sequence bound' ts' = .ok es := by
  have closing : Closing [] := by simp [Closing]
  induction bound generalizing bound' ts ts' es with
  | zero => cases read
  | succ bound ih =>
      obtain ⟨bound', rfl⟩ : ∃ k, bound' = k + 1 := ⟨bound' - 1, by omega⟩
      have last : ∀ {us us' : Tokens}, us.Extends [] us' → us.peek = .ok none → us'.peek = .ok none := by
        intro us us' same ended
        obtain ⟨empty, _⟩ := Tokens.peek_none.mp ended
        have lexemes := same.lexemes
        simp only [Tokens.lexemes, empty, List.map_nil, List.append_nil, List.map_eq_nil_iff] at lexemes
        exact Tokens.peek_none.mpr ⟨lexemes, same.ended'⟩
      rcases sequence_ok.mp read with ⟨ended, rfl⟩ | ⟨e, behind, first, rest⟩
      · exact sequence_ok.mpr (.inl ⟨last same ended, rfl⟩)
      · obtain ⟨behind', first', same⟩ := (all_carry closing bound).expression bound' (by omega) same first
        refine sequence_ok.mpr (.inr ⟨e, behind', first', ?_⟩)
        rcases rest with ⟨ended, rfl⟩ | ⟨separated, es, others, rfl⟩
        · exact .inl ⟨last same ended, rfl⟩
        · obtain ⟨separated', same⟩ := same.ahead separated
          exact .inr ⟨separated', es, ih (by omega) same others, rfl⟩

theorem program_nil {u : List Lexeme} (phrases : Phrase.Program u []) : u = [] := by
  cases phrases
  rfl

theorem sequence_joined {bound bound' bound'' : Nat} (enough : bound + bound' ≤ bound'')
    {first second both : Tokens} {es fs : List Expr} (read : sequence bound first = .ok es) (written : es ≠ [])
    (last : first.lexemes.getLast? ≠ some (.punctuation ';')) (read' : sequence bound' second = .ok fs)
    (ended' : second.Ended) (longer : first.Extends (.punctuation ';' :: second.lexemes) both) :
    sequence bound'' both = .ok (es ++ fs) := by
  have closing : Closing (.punctuation ';' :: second.lexemes) := by
    intro l head
    cases head
    rfl
  induction bound generalizing bound'' first both es with
  | zero => cases read
  | succ bound ih =>
      obtain ⟨bound'', rfl⟩ : ∃ k, bound'' = k + 1 := ⟨bound'' - 1, by omega⟩
      rcases sequence_ok.mp read with ⟨_, rfl⟩ | ⟨e, behind, head, rest⟩
      · exact absurd rfl written
      · obtain ⟨behind', head', longer⟩ := (all_carry closing bound).expression bound'' (by omega) longer head
        refine sequence_ok.mpr (.inr ⟨e, behind', head', .inr ?_⟩)
        rcases rest with ⟨none, rfl⟩ | ⟨separated, es, others, rfl⟩
        · -- The semicolon between the two comes next.
          obtain ⟨empty, _⟩ := Tokens.peek_none.mp none
          have lexemes := longer.lexemes
          simp only [Tokens.lexemes, empty, List.map_nil, List.nil_append] at lexemes
          obtain ⟨t, rest, list, mark, others⟩ := List.map_eq_cons_iff.mp lexemes
          refine ⟨Tokens.ahead_iff.mpr ⟨t, rest, list, mark⟩, fs, ?_, rfl⟩
          refine sequence_elsewhere (by omega) ⟨?_, ended', longer.ended'⟩ read'
          simp [Tokens.lexemes, Tokens.tail, list, others]
        · obtain ⟨separated', longer⟩ := longer.ahead separated
          obtain ⟨u, taken, _⟩ := (allSound bound).expression _ _ _ head
          rw [taken.lexemes, separated.yields.lexemes] at last
          have written' : es ≠ [] := by
            rintro rfl
            have none := program_nil (sound_sequence others).2
            rw [none] at last
            exact last (by simp)
          refine ⟨separated', es ++ fs, ih (by omega) others written' ?_ longer, rfl⟩
          intro same
          exact last (by simp [List.getLast?_cons, same])

theorem parse_ok {source : String} {es : List Expr} :
    parse source = .ok (.prog es) ↔
      sequence (boundFor (.ofSource source)) (.ofSource source) = .ok es := by
  unfold parse program
  cases sequence (boundFor (.ofSource source)) (.ofSource source) <;> simp [Except.map]

theorem parse_joined {first second : String} {es fs : List Expr} (read : parse first = .ok (.prog es))
    (written : es ≠ []) (closed : TextsClosed first)
    (last : (Tokens.ofSource first).lexemes.getLast? ≠ some (.punctuation ';'))
    (read' : parse second = .ok (.prog fs)) :
    parse (first ++ "\n;\n" ++ second) = .ok (.prog (es ++ fs)) := by
  rw [parse_ok] at read read' ⊢
  have ended := (sound_sequence read).1
  have ended' := (sound_sequence read').1
  obtain ⟨whole, lexemes⟩ := lexemes_joined ended closed ended'
  have enough : boundFor (.ofSource first) + boundFor (.ofSource second) ≤
      boundFor (.ofSource (first ++ "\n;\n" ++ second)) := by
    have count := congrArg List.length lexemes
    simp only [Tokens.lexemes, List.length_map, List.length_append, List.length_cons] at count
    simp only [boundFor, count]
    omega
  exact sequence_joined enough read written last read' ended' ⟨lexemes, ended, whole⟩

end Descent

end Trampoline
