import Trampoline.Proofs.Productions

set_option autoImplicit false

namespace Trampoline

namespace Phrase.Level

def operator? : Level → Option Grammar.Terminal
  | .assignment => some .equal
  | .disjunction => some .orOp
  | .conjunction => some .andOp
  | .comparison => some .compareOp
  | .sum => some .addOp
  | .product => some .mulOp
  | .call => none

theorem rank_lt_tighter {level next : Level} (step : level.tighter? = some next) : level.rank < next.rank := by
  cases level <;> cases step <;> decide

theorem rank_injective {level other : Level} (same : level.rank = other.rank) : level = other := by
  cases level <;> cases other <;> first
    | rfl
    | exact absurd same (by decide)

theorem exists_looser {level other : Level} (below : level.rank < other.rank) :
    ∃ (between : Level) (t : Grammar.Terminal), between.tighter? = some other ∧ between.operator? = some t ∧
      level.rank ≤ between.rank := by
  cases other with
  | assignment => exact absurd below (Nat.not_lt.mpr level.rank_pos)
  | disjunction => exact ⟨.assignment, _, rfl, rfl, by cases level <;> revert below <;> decide⟩
  | conjunction => exact ⟨.disjunction, _, rfl, rfl, by cases level <;> revert below <;> decide⟩
  | comparison => exact ⟨.conjunction, _, rfl, rfl, by cases level <;> revert below <;> decide⟩
  | sum => exact ⟨.comparison, _, rfl, rfl, by cases level <;> revert below <;> decide⟩
  | product => exact ⟨.sum, _, rfl, rfl, by cases level <;> revert below <;> decide⟩
  | call => exact ⟨.product, _, rfl, rfl, by cases level <;> revert below <;> decide⟩

end Phrase.Level

namespace Grammar

open Phrase (Level)

theorem precedence?_iff_operator (t : Terminal) (n : Nat) :
    precedence? t = some n ↔ ∃ l : Level, l.operator? = some t ∧ l.rank = n := by
  constructor
  · intro found
    cases t <;> cases found
    · exact ⟨.disjunction, rfl, rfl⟩
    · exact ⟨.conjunction, rfl, rfl⟩
    · exact ⟨.comparison, rfl, rfl⟩
    · exact ⟨.sum, rfl, rfl⟩
    · exact ⟨.product, rfl, rfl⟩
    · exact ⟨.assignment, rfl, rfl⟩
  · rintro ⟨l, found, rfl⟩
    cases l <;> cases found <;> rfl

theorem tighter_of_operator {l : Level} {t : Terminal} (operator : l.operator? = some t) :
    ∃ next, l.tighter? = some next := by
  cases l <;> first
    | exact ⟨_, rfl⟩
    | cases operator

theorem rules_operator {l next : Level} {t : Terminal} (step : l.tighter? = some next)
    (operator : l.operator? = some t) : (Nonterminal.level l).rules = Rule.operators l t next := by
  cases l <;> cases step <;> cases operator <;> rfl

theorem operation_mem {l next : Level} {t : Terminal} (step : l.tighter? = some next)
    (operator : l.operator? = some t) : Rule.operation l t next ∈ (Nonterminal.level l).rules := by
  rw [rules_operator step operator]
  exact .head _

theorem operand_mem {l next : Level} {t : Terminal} (step : l.tighter? = some next)
    (operator : l.operator? = some t) : Rule.operand l next ∈ (Nonterminal.level l).rules := by
  rw [rules_operator step operator]
  exact .tail _ (.head _)

theorem apply_eq_combine {l : Level} {t : Terminal} (operator : l.operator? = some t) (symbol : List Char) :
    Rule.apply l symbol = combine t symbol := by
  cases l <;> cases operator <;> rfl

theorem continuations_level (l : Level) (t : Terminal) :
    t ∈ (Nonterminal.level l).continuations [Rule.level l] ↔
      l.operator? = some t ∨ (l = .call ∧ t = .leftParen) := by
  cases l <;> cases t <;> decide

theorem extensions_level {l next : Level} {t : Terminal} (step : l.tighter? = some next)
    (operator : l.operator? = some t) :
    (Nonterminal.level l).extensions [Rule.level next] =
        (Nonterminal.level next).continuations [Rule.level next] ∧
      (Nonterminal.level l).extensions [Rule.level l, .terminal t .operand, Rule.level next] =
        (Nonterminal.level next).continuations [Rule.level next] := by
  cases l <;> cases step <;> cases operator <;> exact ⟨rfl, rfl⟩

section DerivesFrom

-- The terminals of a derivation are taken one after the other. The number of them is kept.
inductive DerivesFrom : State → (body : List Symbol) → Values body → State → Nat → Prop where
  | nil {s : State} : DerivesFrom s [] () s 0
  | shift {s mid s' : State} {found : Located} {t : Terminal} {after : Context} {body : List Symbol}
      {vs : Values body} {k : Nat} : s.ahead = .terminal found → found.terminal = t → s.shift after = .ok mid →
        DerivesFrom mid body vs s' k → DerivesFrom s (.terminal t after :: body) (found, vs) s' (k + 1)
  | reduce {s mid s' : State} {n : Nonterminal} {rule : Rule n} {body : List Symbol} {inner : Values rule.body}
      {vs : Values body} {j k : Nat} : rule ∈ n.rules → DerivesFrom s rule.body inner mid j →
        (∀ t, mid.terminal? = some t → t ∉ n.extensions rule.body) → DerivesFrom mid body vs s' k →
          DerivesFrom s (.nonterminal n :: body) (rule.build inner, vs) s' (j + k)

inductive Shifts : State → List Shifted → State → Prop where
  | nil {s : State} : Shifts s [] s
  | cons {s mid s' : State} {found : Located} {after : Context} {u : List Shifted} :
      s.ahead = .terminal found → s.shift after = .ok mid → Shifts mid u s' → Shifts s ((found, after) :: u) s'

variable {s mid s' : State} {u v : List Shifted} {body : List Symbol} {k : Nat}

theorem Shifts.terminal? (shifts : Shifts s u s') : firstOf u s'.terminal? = s.terminal? := by
  cases shifts with
  | nil => rfl
  | cons ahead _ _ => simp [firstOf, State.terminal?, ahead]

theorem shifts_append : Shifts s (u ++ v) s' ↔ ∃ mid, Shifts s u mid ∧ Shifts mid v s' := by
  induction u generalizing s with
  | nil =>
      constructor
      · exact fun shifts => ⟨s, .nil, shifts⟩
      · rintro ⟨_, ⟨⟩, shifts⟩
        exact shifts
  | cons one u ih =>
      constructor
      · intro shifts
        cases shifts with
        | cons ahead shifted shifts =>
            obtain ⟨mid, first, second⟩ := ih.mp shifts
            exact ⟨mid, .cons ahead shifted first, second⟩
      · rintro ⟨mid, first, second⟩
        cases first with
        | cons ahead shifted first => exact .cons ahead shifted (ih.mpr ⟨mid, first, second⟩)

theorem DerivesFrom.derives {vs : Values body} (reads : DerivesFrom s body vs s' k) :
    ∃ u, u.length = k ∧ Shifts s u s' ∧ Derives body u s'.terminal? vs := by
  induction reads with
  | nil => exact ⟨[], rfl, .nil, .nil⟩
  | shift ahead same shifted _ ih =>
      obtain ⟨u, length, shifts, derives⟩ := ih
      exact ⟨_ :: u, by simp [length], .cons ahead shifted shifts, .shift same derives⟩
  | reduce member _ ends _ ih ih' =>
      obtain ⟨u, length, shifts, derives⟩ := ih
      obtain ⟨v, length', shifts', derives'⟩ := ih'
      rw [← shifts'.terminal?] at ends derives
      exact ⟨u ++ v, by simp [length, length'], shifts_append.mpr ⟨_, shifts, shifts'⟩,
        .reduce member derives ends derives'⟩

theorem Derives.reads {vs : Values body} {next : Option Terminal} (derives : Derives body u next vs)
    (shifts : Shifts s u s') (last : s'.terminal? = next) : DerivesFrom s body vs s' u.length := by
  induction derives generalizing s s' with
  | nil =>
      cases shifts
      exact .nil
  | shift same _ ih =>
      cases shifts with
      | cons ahead shifted shifts => exact .shift ahead same shifted (ih shifts last)
  | reduce member _ ends _ ih ih' =>
      obtain ⟨mid, first, second⟩ := shifts_append.mp shifts
      have behind := second.terminal?
      rw [last] at behind
      rw [behind] at ends
      rw [List.length_append]
      exact .reduce member (ih first behind.symm) ends (ih' second last)

def ReadsTo (s : State) (body : List Symbol) (vs : Values body) (s' : State) : Prop := ∃ k, DerivesFrom s body vs s' k

abbrev Parses (s : State) (n : Nonterminal) (x : n.Value) (s' : State) : Prop :=
  ReadsTo s [.nonterminal n] (x, ()) s'

theorem readsTo_nil : ReadsTo s [] () s := ⟨0, .nil⟩

theorem Parses.of_rule {n : Nonterminal} {rule : Rule n} {vs : Values rule.body} (member : rule ∈ n.rules)
    (reads : ReadsTo s rule.body vs s') (ends : ∀ t, s'.terminal? = some t → t ∉ n.extensions rule.body) :
    Parses s n (rule.build vs) s' := by
  obtain ⟨k, reads⟩ := reads
  exact ⟨k + 0, .reduce member reads ends .nil⟩

theorem Parses.of_closed_rule {n : Nonterminal} {rule : Rule n} {vs : Values rule.body} (member : rule ∈ n.rules)
    (reads : ReadsTo s rule.body vs s') (closed : n.extensions rule.body = []) :
    Parses s n (rule.build vs) s' :=
  .of_rule member reads fun _ _ => closed ▸ List.not_mem_nil

theorem ReadsTo.shift {t : Terminal} {after : Context} {found : Located} {vs : Values body}
    (ahead : s.ahead = .terminal found) (taken : s.take t after = .ok mid) (rest : ReadsTo mid body vs s') :
    ReadsTo s (.terminal t after :: body) (found, vs) s' := by
  obtain ⟨here, shifted⟩ := State.take_ok.mp taken
  obtain ⟨k, rest⟩ := rest
  have same : found.terminal = t := by simpa [State.terminal?, ahead] using here
  exact ⟨k + 1, .shift ahead same shifted rest⟩

theorem ReadsTo.cons {x : Symbol} {v : x.Value} {vs : Values body} (first : ReadsTo s [x] (v, ()) mid)
    (rest : ReadsTo mid body vs s') : ReadsTo s (x :: body) (v, vs) s' := by
  obtain ⟨j, first⟩ := first
  obtain ⟨k, rest⟩ := rest
  cases first with
  | shift ahead same shifted last =>
      cases last
      exact ⟨_, .shift ahead same shifted rest⟩
  | reduce member reads ends last =>
      cases last
      exact ⟨_, .reduce member reads ends rest⟩

def Values.append : {xs : List Symbol} → {ys : List Symbol} → Values xs → Values ys → Values (xs ++ ys)
  | [], _, _, ws => ws
  | _ :: _, _, vs, ws => (vs.1, Values.append vs.2 ws)

theorem ReadsTo.append {xs ys : List Symbol} {vs : Values xs} {ws : Values ys} (first : ReadsTo s xs vs mid)
    (rest : ReadsTo mid ys ws s') : ReadsTo s (xs ++ ys) (vs.append ws) s' := by
  obtain ⟨j, first⟩ := first
  obtain ⟨k, rest⟩ := rest
  induction first generalizing k with
  | nil => exact ⟨k, rest⟩
  | shift ahead same shifted _ ih =>
      obtain ⟨k, reads⟩ := ih k rest
      exact ⟨_, .shift ahead same shifted reads⟩
  | reduce member reads ends _ _ ih =>
      obtain ⟨k, reads'⟩ := ih k rest
      exact ⟨_, .reduce member reads ends reads'⟩

theorem State.take_found {t : Terminal} {after : Context} (taken : s.take t after = .ok s') :
    ∃ found, s.ahead = .terminal found ∧ found.text = s.text := by
  have here := (State.take_ok.mp taken).1
  unfold State.terminal? at here
  unfold State.text
  cases ahead : s.ahead with
  | terminal found => exact ⟨found, rfl, rfl⟩
  | ended last =>
      rw [ahead] at here
      cases here

end DerivesFrom

section Lists

variable {k : Series} {s s' : State}

inductive Enumerates (k : Series) (stop : Option Terminal) : State → List k.Element → State → Prop where
  | none {s : State} : s.terminal? = stop → Enumerates k stop s [] s
  | last {s s' : State} {v : k.element.Value} : ReadsTo s [k.element] (v, ()) s' → s'.terminal? = stop →
      Enumerates k stop s [k.value v] s'
  | more {s behind again s' : State} {v : k.element.Value} {xs : List k.Element} :
      ReadsTo s [k.element] (v, ()) behind → behind.take k.separator k.context = .ok again →
        Enumerates k stop again xs s' → Enumerates k stop s (k.value v :: xs) s'

theorem Enumerates.stops {stop : Option Terminal} {xs : List k.Element} (enumerates : Enumerates k stop s xs s') :
    s'.terminal? = stop := by
  induction enumerates with
  | none ended => exact ended
  | last _ ended => exact ended
  | more _ _ _ ih => exact ih

theorem extensions_more (k : Series) :
    (Nonterminal.more k).extensions [k.mark, k.element] = [] ∧
      (Nonterminal.more k).extensions [Rule.rest k, k.mark, k.element] = [] := by
  cases k <;> exact ⟨rfl, rfl⟩

theorem more_first {v : k.element.Value} {behind again : State}
    (taken : behind.take k.separator k.context = .ok again) (element : ReadsTo again [k.element] (v, ()) s') :
    Parses behind (.more k) [k.value v] s' := by
  obtain ⟨found, ahead, _⟩ := State.take_found taken
  have reads : ReadsTo behind [k.mark, k.element] (found, (v, ())) s' := .shift ahead taken element
  exact Parses.of_closed_rule (n := .more k) (.head _) reads (extensions_more k).1

theorem more_next {v : k.element.Value} {first behind again : State} {ys : List k.Element}
    (others : Parses first (.more k) ys behind) (taken : behind.take k.separator k.context = .ok again)
    (element : ReadsTo again [k.element] (v, ()) s') : Parses first (.more k) (List.append ys [k.value v]) s' := by
  obtain ⟨found, ahead, _⟩ := State.take_found taken
  have reads : ReadsTo first [Rule.rest k, k.mark, k.element] (ys, (found, (v, ()))) s' :=
    others.cons (.shift ahead taken element)
  exact Parses.of_closed_rule (n := .more k) (.tail _ (.head _)) reads (extensions_more k).2

theorem Enumerates.extends {stop : Option Terminal} {first behind again : State} {ys xs : List k.Element}
    (others : Parses first (.more k) ys behind) (taken : behind.take k.separator k.context = .ok again)
    (enumerates : Enumerates k stop again xs s') :
    Parses first (.more k) (List.append ys xs) s' ∨
      ∃ found, ReadsTo first [Rule.rest k, k.mark] (List.append ys xs, (found, ())) s' := by
  induction enumerates generalizing behind ys with
  | none _ =>
      obtain ⟨found, ahead, _⟩ := State.take_found taken
      rw [show List.append ys [] = ys from List.append_nil ys]
      exact .inr ⟨found, others.cons (.shift ahead taken readsTo_nil)⟩
  | last element _ => exact .inl (more_next others taken element)
  | @more _ _ _ _ v xs element taken' _ ih =>
      rw [show List.append ys (k.value v :: xs) = List.append (List.append ys [k.value v]) xs by simp]
      exact ih (more_next others taken element) taken'

theorem Enumerates.form {stop : Option Terminal} {xs : List k.Element} (enumerates : Enumerates k stop s xs s') :
    (xs = [] ∧ s' = s) ∨
      ∃ rule ∈ Rule.series k, ∃ vs : Values rule.body, ReadsTo s rule.body vs s' ∧ xs = rule.build vs := by
  cases enumerates with
  | none _ => exact .inl ⟨rfl, rfl⟩
  | last element _ => exact .inr ⟨_, .head _, _, element, rfl⟩
  | @more _ behind again _ v xs element taken rest =>
      right
      cases rest with
      | none _ =>
          obtain ⟨found, ahead, _⟩ := State.take_found taken
          exact ⟨_, .tail _ (.head _), (v, (found, ())), element.cons (.shift ahead taken readsTo_nil), rfl⟩
      | last element' _ =>
          exact ⟨_, .tail _ (.tail _ (.head _)), (v, (_, ())), element.cons (more_first taken element'), rfl⟩
      | more element' taken' rest =>
          rcases rest.extends (more_first taken element') taken' with others | ⟨found, others⟩
          · exact ⟨_, .tail _ (.tail _ (.head _)), (v, (_, ())), element.cons others, rfl⟩
          · exact ⟨_, .tail _ (.tail _ (.tail _ (.head _))), (v, (_, (found, ()))), element.cons others, rfl⟩

theorem extensions_series (k : Series) :
    ∀ rule ∈ Rule.series k, ∀ t ∈ (Nonterminal.series k).extensions rule.body, t = k.separator := by
  cases k <;> decide

theorem series_mem_rules (k : Series) {rule : Rule (.series k)} (member : rule ∈ Rule.series k) :
    rule ∈ (Nonterminal.series k).rules := by
  cases k with
  | items => exact List.mem_cons_of_mem _ member
  | _ => exact member

theorem Enumerates.series {stop : Option Terminal} {xs : List k.Element} (apart : stop ≠ some k.separator)
    (enumerates : Enumerates k stop s xs s') : (xs = [] ∧ s' = s) ∨ Parses s (.series k) xs s' := by
  refine enumerates.form.imp_right ?_
  rintro ⟨rule, member, vs, reads, rfl⟩
  refine .of_rule (series_mem_rules k member) reads ?_
  intro t here extends'
  obtain rfl := extensions_series k rule member t extends'
  exact apart (enumerates.stops.symm.trans here)

theorem Listed.enumerates {stop : Terminal} {item : Reader k.Element} {xs : List k.Element}
    (elements : ∀ {s s' x}, item s = .ok (x, s') → ∃ v, ReadsTo s [k.element] (v, ()) s' ∧ k.value v = x)
    (listed : Listed stop k.separator k.context item s xs s') : Enumerates k (some stop) s xs s' := by
  induction listed with
  | none ended => exact .none ended
  | last _ read ended =>
      obtain ⟨v, reads, rfl⟩ := elements read
      exact .last reads ended
  | more _ read separated shifted _ ih =>
      obtain ⟨v, reads, rfl⟩ := elements read
      exact .more reads (State.take_ok.mpr ⟨separated, shifted⟩) ih

end Lists

section Forms

variable {f : Reader Expr} {bound : Nat} {s s' : State} {e : Expr}

def Finds (n : Nonterminal) (read : Reader n.Value) : Prop :=
  ∀ {s s' : State} {x : n.Value}, read s = .ok (x, s') → Parses s n x s'

theorem param_reads {x : String} (read : param s = .ok (x, s')) :
    ∃ v, ReadsTo s [Series.parameters.element] (v, ()) s' ∧ Series.parameters.value v = x := by
  obtain ⟨taken, rfl⟩ := param_ok.mp read
  obtain ⟨found, ahead, text⟩ := State.take_found taken
  exact ⟨found, .shift ahead taken readsTo_nil, congrArg String.ofList text⟩

variable (finds : Finds .expression f)

include finds

theorem binding_finds : Finds .definition (binding f) := by
  intro s s' b read
  obtain ⟨named, equals, init, first, second, given, rfl⟩ := binding_ok.mp read
  obtain ⟨found, ahead, text⟩ := State.take_found first
  obtain ⟨_, ahead', _⟩ := State.take_found second
  rw [word, ← text]
  exact Parses.of_closed_rule (n := .definition) (.head _) (.shift ahead first (.shift ahead' second (finds given))) rfl

theorem group_finds : Finds .atom (group f) := by
  intro s s' e read
  obtain ⟨opened, inner, first, within, last⟩ := group_ok.mp read
  obtain ⟨_, ahead, _⟩ := State.take_found first
  obtain ⟨_, ahead', _⟩ := State.take_found last
  exact Parses.of_closed_rule (n := .atom) (.head _)
    (.shift ahead first ((finds within).cons (.shift ahead' last readsTo_nil))) rfl

theorem block_finds : Finds .block (block f bound) := by
  intro s s' e read
  obtain ⟨items, opened, inner, first, listed, last, rfl⟩ := block_ok.mp read
  obtain ⟨_, ahead, _⟩ := State.take_found first
  obtain ⟨_, ahead', _⟩ := State.take_found last
  have enumerates := Listed.enumerates (k := .items) (fun read => ⟨_, finds read, rfl⟩)
    (listed_of_itemsFrom listed)
  have closes := ReadsTo.shift ahead' last readsTo_nil
  rcases enumerates.form with ⟨rfl, rfl⟩ | ⟨rule, member, vs, reads, rfl⟩
  · exact Parses.of_closed_rule (n := .block) (.head _) (.shift ahead first closes) rfl
  · have within := ReadsTo.shift ahead first (reads.append closes)
    simp only [Rule.series, List.mem_cons, List.not_mem_nil, or_false] at member
    rcases member with rfl | rfl | rfl | rfl
    · exact Parses.of_closed_rule (n := .block) (List.mem_of_getElem? (i := 1) rfl) within rfl
    · exact Parses.of_closed_rule (n := .block) (List.mem_of_getElem? (i := 2) rfl) within rfl
    · exact Parses.of_closed_rule (n := .block) (List.mem_of_getElem? (i := 3) rfl) within rfl
    · exact Parses.of_closed_rule (n := .block) (List.mem_of_getElem? (i := 4) rfl) within rfl

theorem conditional_finds : Finds .conditional (conditional f bound) := by
  intro s s' e read
  obtain ⟨test, yes, no, first, after, behind, taken, tested, branch, otherwise, rfl⟩ := conditional_ok.mp read
  obtain ⟨_, ahead, _⟩ := State.take_found taken
  rcases branch with ⟨_, branch⟩ | ⟨next, keyword, branch⟩
  · have branch := block_finds finds branch
    rcases otherwise with ⟨other, keyword, last⟩ | ⟨none, rfl, rfl⟩
    · obtain ⟨_, ahead', _⟩ := State.take_found keyword
      exact Parses.of_closed_rule (n := .conditional) (List.mem_of_getElem? (i := 3) rfl)
        (.shift ahead taken ((finds tested).cons (branch.cons (.shift ahead' keyword (finds last))))) rfl
    · refine Parses.of_rule (n := .conditional) (List.mem_of_getElem? (i := 2) rfl)
        (.shift ahead taken ((finds tested).cons branch)) ?_
      intro t here extends'
      obtain rfl : t = .else_ := List.mem_singleton.mp extends'
      exact none here
  · obtain ⟨_, ahead', _⟩ := State.take_found keyword
    rcases otherwise with ⟨other, keyword', last⟩ | ⟨none, rfl, rfl⟩
    · obtain ⟨_, ahead'', _⟩ := State.take_found keyword'
      exact Parses.of_closed_rule (n := .conditional) (List.mem_of_getElem? (i := 1) rfl)
        (.shift ahead taken ((finds tested).cons (.shift ahead' keyword
          ((finds branch).cons (.shift ahead'' keyword' (finds last)))))) rfl
    · refine Parses.of_rule (n := .conditional) (List.mem_of_getElem? (i := 0) rfl)
        (.shift ahead taken ((finds tested).cons (.shift ahead' keyword (finds branch)))) ?_
      intro t here extends'
      obtain rfl : t = .else_ := List.mem_singleton.mp extends'
      exact none here

theorem body_reads {k : Series} {xs : List k.Element} {body : Expr} {item : Reader k.Element}
    {head opened inner last : State} (commas : k.separator = .comma ∧ k.context = .listItem)
    (elements : ∀ {s s' x}, item s = .ok (x, s') → ∃ v, ReadsTo s [k.element] (v, ()) s' ∧ k.value v = x)
    (start : head.take .leftParen .listItem = .ok opened)
    (listed : itemsFrom .rightParen .comma .listItem item bound opened = .ok (xs, inner))
    (stop : inner.take .rightParen .operand = .ok last) (read : f last = .ok (body, s')) :
    (xs = [] ∧ ∃ v w, ReadsTo head [Rule.opening, Rule.closing, Rule.expression] (v, w, body, ()) s') ∨
      ∃ v w, ReadsTo head [Rule.opening, .nonterminal (.series k), Rule.closing, Rule.expression]
        (v, xs, w, body, ()) s' := by
  obtain ⟨v, ahead, _⟩ := State.take_found start
  obtain ⟨w, ahead', _⟩ := State.take_found stop
  have listed := listed_of_itemsFrom listed
  rw [← commas.1, ← commas.2] at listed
  have enumerates := (listed.enumerates elements).series (by rw [commas.1]; decide)
  have closes : ReadsTo inner [Rule.closing, Rule.expression] (w, body, ()) s' := .shift ahead' stop (finds read)
  rcases enumerates with ⟨rfl, rfl⟩ | series
  · exact .inl ⟨rfl, v, w, .shift ahead start closes⟩
  · exact .inr ⟨v, w, .shift ahead start (series.cons closes)⟩

theorem function_finds {t : Terminal} (spelled : t = .lambda ∨ t = .lambdaSign) (here : s.terminal? = some t)
    (read : function f bound s = .ok (e, s')) : Parses s .function e s' := by
  obtain ⟨self, params, body, ⟨first, head, opened, inner, last, shifted, named, start, listed, stop, inside⟩, rfl⟩ :=
    function_ok.mp read
  have taken : s.take t .binderHead = .ok first := State.take_ok.mpr ⟨here, shifted⟩
  obtain ⟨_, ahead, _⟩ := State.take_found taken
  have rest := body_reads (k := .parameters) finds ⟨rfl, rfl⟩ param_reads start listed stop inside
  have member : ∀ rule ∈ Rule.functions t, rule ∈ Nonterminal.function.rules := by
    intro rule listed
    rcases spelled with rfl | rfl
    · exact List.mem_append_left _ listed
    · exact List.mem_append_right _ listed
  have closed : ∀ rule ∈ Rule.functions t, Nonterminal.function.extensions rule.body = [] := by
    rcases spelled with rfl | rfl <;> decide
  have parses (rule : Rule .function) (listed : rule ∈ Rule.functions t) {vs : Values rule.body}
      (reads : ReadsTo s rule.body vs s') : Parses s .function (rule.build vs) s' :=
    .of_closed_rule (member rule listed) reads (closed rule listed)
  rcases selfName_ok.mp named with ⟨taken', rfl⟩ | ⟨_, rfl, rfl⟩
  · obtain ⟨name, ahead', text⟩ := State.take_found taken'
    rw [word, ← text]
    rcases rest with ⟨rfl, v, w, rest⟩ | ⟨v, w, rest⟩
    · exact parses _ (List.mem_of_getElem? (i := 2) rfl) (.shift ahead taken (.shift ahead' taken' rest))
    · exact parses _ (List.mem_of_getElem? (i := 3) rfl) (.shift ahead taken (.shift ahead' taken' rest))
  · rcases rest with ⟨rfl, v, w, rest⟩ | ⟨v, w, rest⟩
    · exact parses _ (List.mem_of_getElem? (i := 0) rfl) (.shift ahead taken rest)
    · exact parses _ (List.mem_of_getElem? (i := 1) rfl) (.shift ahead taken rest)

theorem letForm_finds (here : s.terminal? = some .let_) (read : letForm f bound s = .ok (e, s')) :
    Parses s .letForm e s' ∨ Parses s .namedLet e s' := by
  obtain ⟨self, params, body, ⟨first, head, opened, inner, last, shifted, named, start, listed, stop, inside⟩, rfl⟩ :=
    letForm_ok.mp read
  have taken : s.take .let_ .binderHead = .ok first := State.take_ok.mpr ⟨here, shifted⟩
  obtain ⟨_, ahead, _⟩ := State.take_found taken
  have rest := body_reads (k := .definitions) finds ⟨rfl, rfl⟩
    (fun read => ⟨_, binding_finds finds read, rfl⟩) start listed stop inside
  rcases selfName_ok.mp named with ⟨taken', rfl⟩ | ⟨_, rfl, rfl⟩
  · obtain ⟨name, ahead', text⟩ := State.take_found taken'
    rw [word, ← text]
    right
    rcases rest with ⟨rfl, v, w, rest⟩ | ⟨v, w, rest⟩
    · exact Parses.of_closed_rule (n := .namedLet) (.head _) (.shift ahead taken (.shift ahead' taken' rest)) rfl
    · exact Parses.of_closed_rule (n := .namedLet) (.tail _ (.head _))
        (.shift ahead taken (.shift ahead' taken' rest)) rfl
  · left
    rcases rest with ⟨rfl, v, w, rest⟩ | ⟨v, w, rest⟩
    · exact Parses.of_closed_rule (n := .letForm) (.head _) (.shift ahead taken rest) rfl
    · exact Parses.of_closed_rule (n := .letForm) (.tail _ (.head _)) (.shift ahead taken rest) rfl

omit finds in
theorem leaf_reads {t : Terminal} {e' : Expr} (here : s.terminal? = some t) (read : leaf e s = .ok (e', s')) :
    e' = e ∧ ∃ found, found.text = s.text ∧ ReadsTo s [.terminal t .afterOperand] (found, ()) s' := by
  obtain ⟨shifted, same⟩ := leaf_ok.mp read
  have taken : s.take t .afterOperand = .ok s' := State.take_ok.mpr ⟨here, shifted⟩
  obtain ⟨found, ahead, text⟩ := State.take_found taken
  exact ⟨same, found, text, .shift ahead taken readsTo_nil⟩

theorem atomForm_finds : Finds .atom (atomForm f bound) := by
  intro s s' e read
  unfold atomForm at read
  split at read
  · exact group_finds finds read
  · exact Parses.of_closed_rule (n := .atom) (List.mem_of_getElem? (i := 1) rfl) (block_finds finds read) rfl
  · exact Parses.of_closed_rule (n := .atom) (List.mem_of_getElem? (i := 2) rfl) (conditional_finds finds read) rfl
  · rename_i here
    exact Parses.of_closed_rule (n := .atom) (List.mem_of_getElem? (i := 3) rfl)
      (function_finds finds (.inl rfl) here read) rfl
  · rename_i here
    exact Parses.of_closed_rule (n := .atom) (List.mem_of_getElem? (i := 3) rfl)
      (function_finds finds (.inr rfl) here read) rfl
  · rename_i here
    rcases letForm_finds finds here read with parses | parses
    · exact Parses.of_closed_rule (n := .atom) (List.mem_of_getElem? (i := 4) rfl) parses rfl
    · exact Parses.of_closed_rule (n := .atom) (List.mem_of_getElem? (i := 5) rfl) parses rfl
  · rename_i here
    obtain ⟨rfl, found, text, reads⟩ := leaf_reads here read
    rw [← text]
    exact Parses.of_closed_rule (n := .atom) (List.mem_of_getElem? (i := 6) rfl) reads rfl
  · rename_i here
    obtain ⟨rfl, found, text, reads⟩ := leaf_reads here read
    rw [← text]
    exact Parses.of_closed_rule (n := .atom) (List.mem_of_getElem? (i := 7) rfl) reads rfl
  · rename_i here
    obtain ⟨rfl, found, _, reads⟩ := leaf_reads here read
    exact Parses.of_closed_rule (n := .atom) (List.mem_of_getElem? (i := 8) rfl) reads rfl
  · rename_i here
    obtain ⟨rfl, found, _, reads⟩ := leaf_reads here read
    exact Parses.of_closed_rule (n := .atom) (List.mem_of_getElem? (i := 9) rfl) reads rfl
  · rename_i here
    obtain ⟨rfl, found, text, reads⟩ := leaf_reads here read
    rw [word, ← text]
    exact Parses.of_closed_rule (n := .atom) (List.mem_of_getElem? (i := 10) rfl) reads rfl
  · exact absurd read (unexpected_ne _ _)

theorem call_finds {start : State} {func : Expr} {args : List Expr} (callee : Parses start (.level .call) func s)
    (read : arguments f bound s = .ok (args, s')) : Parses start (.level .call) (.call func args) s' := by
  obtain ⟨opened, inner, first, listed, last⟩ := arguments_ok.mp read
  obtain ⟨_, ahead, _⟩ := State.take_found first
  obtain ⟨_, ahead', _⟩ := State.take_found last
  have closes := ReadsTo.shift ahead' last readsTo_nil
  have enumerates := (Listed.enumerates (k := .arguments) (fun read => ⟨_, finds read, rfl⟩)
    (listed_of_itemsFrom listed)).series (by decide)
  rcases enumerates with ⟨rfl, rfl⟩ | series
  · exact Parses.of_closed_rule (n := .level .call) (.head _) (callee.cons (.shift ahead first closes)) rfl
  · exact Parses.of_closed_rule (n := .level .call) (.tail _ (.head _))
      (callee.cons (.shift ahead first (series.cons closes))) rfl

end Forms

section Expressions

variable {bound : Nat} {start s s' : State} {e : Expr}

-- Neither an argument list nor an operator that binds tighter than the floor comes next.
def Clear (floor : Nat) (s : State) : Prop :=
  s.terminal? ≠ some .leftParen ∧ ∀ t n, s.terminal? = some t → precedence? t = some n → n ≤ floor

theorem Clear.mono {floor floor' : Nat} (clear : Clear floor s) (le : floor ≤ floor') : Clear floor' s :=
  ⟨clear.1, fun t n here found => Nat.le_trans (clear.2 t n here found) le⟩

theorem Clear.not_continued {floor : Nat} {l : Level} {t : Terminal} (clear : Clear floor s) (above : floor < l.rank)
    (here : s.terminal? = some t) : t ∉ (Nonterminal.level l).continuations [Rule.level l] := by
  rw [continuations_level]
  rintro (operator | ⟨_, rfl⟩)
  · have le := clear.2 t _ here ((precedence?_iff_operator t _).mpr ⟨l, operator, rfl⟩)
    omega
  · exact clear.1 here

theorem le_of_loose {floor n : Nat} {t : Terminal} (loose : levelAbove? floor s.ahead = none)
    (here : s.terminal? = some t) (found : precedence? t = some n) : n ≤ floor := by
  unfold State.terminal? at here
  cases ahead : s.ahead with
  | terminal located =>
      rw [ahead] at here loose
      cases here
      simpa [levelAbove?, found, Option.filter] using loose
  | ended last =>
      rw [ahead] at here
      cases here

theorem Parses.loosen {l other : Level} {x : Expr} (parses : Parses s (.level other) x s')
    (looser : l.rank ≤ other.rank) (clear : Clear l.rank s') : Parses s (.level l) x s' := by
  induction rank : other.rank using Nat.strongRecOn generalizing other with
  | ind r ih =>
      by_cases same : l.rank = other.rank
      · cases Level.rank_injective same
        exact parses
      · have below : l.rank < other.rank := by omega
        obtain ⟨between, t, step, operator, above⟩ := Level.exists_looser below
        have unit : Parses s (.level between) x s' := by
          refine Parses.of_rule (operand_mem step operator) parses ?_
          intro t here
          rw [Rule.operand, (extensions_level step operator).1]
          exact clear.not_continued below here
        exact ih between.rank (rank ▸ Level.rank_lt_tighter step) unit above rfl

structure AllFind (bound : Nat) : Prop where
  expression : Finds .expression (expression bound)
  operand : ∀ {s s' e}, operand bound s = .ok (e, s') →
    Parses s (.level .call) e s' ∧ s'.terminal? ≠ some .leftParen
  atom : Finds .atom (atom bound)
  calls : ∀ {start s s' func e}, Parses start (.level .call) func s → calls bound func s = .ok (e, s') →
    Parses start (.level .call) e s' ∧ s'.terminal? ≠ some .leftParen
  operators : ∀ {start s s' : State} {l : Level} {left e : Expr} {floor : Nat}, Parses start (.level l) left s →
    floor < l.rank → Clear l.rank s → operators bound left floor s = .ok (e, s') →
      ∃ l' : Level, Parses start (.level l') e s' ∧ floor < l'.rank ∧ Clear floor s'

section Bounds

variable (before : AllFind bound)

include before

theorem operators_find {floor : Nat} {next : State} {right : Expr} (low : floor < Level.call.rank)
    (first : operand bound s = .ok (right, next)) (rest : operators bound right floor next = .ok (e, s')) :
    ∃ l : Level, Parses s (.level l) e s' ∧ floor < l.rank ∧ Clear floor s' := by
  obtain ⟨parses, closed⟩ := before.operand first
  refine before.operators parses low ⟨closed, ?_⟩ rest
  intro t n _ found
  obtain ⟨l, _, rfl⟩ := (precedence?_iff_operator t n).mp found
  exact l.rank_le_call

theorem expression_finds : Finds .expression (expression (bound + 1)) := by
  intro s s' e read
  obtain ⟨left, next, first, rest⟩ := expression_ok.mp read
  obtain ⟨l, parses, above, clear⟩ := operators_find before (by decide) first rest
  have parses : Parses s (.level .assignment) e s' := parses.loosen above (clear.mono (Nat.zero_le _))
  refine Parses.of_rule (n := .expression) (.head _) parses ?_
  intro t here
  exact clear.not_continued (by decide : 0 < Level.assignment.rank) here

theorem operators_step {l : Level} {left : Expr} {floor : Nat} (parses : Parses start (.level l) left s)
    (low : floor < l.rank) (clear : Clear l.rank s) (read : operators (bound + 1) left floor s = .ok (e, s')) :
    ∃ l' : Level, Parses start (.level l') e s' ∧ floor < l'.rank ∧ Clear floor s' := by
  rcases operators_cases read with ⟨loose, rfl, rfl⟩ | ⟨found, level, ahead, known, above⟩
  · exact ⟨l, parses, low, clear.1, fun t n here found => le_of_loose loose here found⟩
  · obtain ⟨next, right, behind, right', behind', shifted, first, others, rest⟩ :=
      (operators_go ahead known above).mp read
    obtain ⟨middle, operator, rfl⟩ := (precedence?_iff_operator _ _).mp known
    have here : s.terminal? = some found.terminal := by simp [State.terminal?, ahead]
    have clear' : Clear middle.rank s := by
      refine ⟨clear.1, fun t n here' known' => ?_⟩
      cases here.symm.trans here'
      exact Nat.le_of_eq (Option.some.inj (known'.symm.trans known))
    obtain ⟨tight, step⟩ := tighter_of_operator operator
    have tighter := Level.rank_lt_tighter step
    obtain ⟨other, parses', above', clear''⟩ :=
      operators_find before (Nat.lt_of_lt_of_le tighter tight.rank_le_call) first others
    have first' : Parses start (.level middle) left s := parses.loosen (clear.2 _ _ here known) clear'
    have second : Parses next (.level tight) right' behind' :=
      parses'.loosen (Level.rank_tighter step above') (clear''.mono (Nat.le_of_lt tighter))
    have combined : Parses start (.level middle) (combine found.terminal found.text left right') behind' := by
      rw [← apply_eq_combine operator]
      refine Parses.of_rule (operation_mem step operator)
        (first'.cons (.shift ahead (State.take_ok.mpr ⟨here, shifted⟩) second)) ?_
      intro t here
      rw [Rule.operation, (extensions_level step operator).2]
      exact clear''.not_continued tighter here
    exact before.operators combined above clear'' rest

theorem operand_finds (read : operand (bound + 1) s = .ok (e, s')) :
    Parses s (.level .call) e s' ∧ s'.terminal? ≠ some .leftParen := by
  obtain ⟨func, next, first, rest⟩ := operand_ok.mp read
  have parses := Parses.of_closed_rule (n := .level .call) (List.mem_of_getElem? (i := 2) rfl) (before.atom first) rfl
  exact before.calls parses rest

theorem calls_find {func : Expr} (parses : Parses start (.level .call) func s)
    (read : calls (bound + 1) func s = .ok (e, s')) :
    Parses start (.level .call) e s' ∧ s'.terminal? ≠ some .leftParen := by
  rcases calls_ok.mp read with ⟨closed, rfl, rfl⟩ | ⟨args, next, first, rest⟩
  · exact ⟨parses, closed⟩
  · exact before.calls (call_finds before.expression parses first) rest

end Bounds

theorem all_find (bound : Nat) : AllFind bound := by
  induction bound with
  | zero =>
      refine ⟨?_, ?_, ?_, ?_, ?_⟩
      · intro s s' e read
        cases read
      · intro s s' e read
        cases read
      · intro s s' e read
        cases read
      · intro start s s' func e parses read
        cases read
      · intro start s s' l left e floor parses low clear read
        cases read
  | succ bound before =>
      exact {
        expression := expression_finds before
        operand := operand_finds before
        atom := atomForm_finds before.expression
        calls := calls_find before
        operators := operators_step before }

theorem sequence_enumerates {es : List Expr} (read : sequence bound s = .ok (es, s')) :
    Enumerates .items none s es s' := by
  induction bound generalizing s es with
  | zero => cases read
  | succ bound ih =>
      rcases sequence_ok.mp read with ⟨ended, rfl, rfl⟩ | ⟨e, behind, _, first, rest⟩
      · exact .none ended
      · have element : ReadsTo s [Series.items.element] (e, ()) behind := (all_find bound).expression first
        rcases rest with ⟨ended, rfl, rfl⟩ | ⟨again, others, taken, more, rfl⟩
        · exact Enumerates.last (k := .items) element ended
        · exact Enumerates.more (k := .items) element taken (ih more)

theorem sequence_finds {es : List Expr} (read : sequence bound s = .ok (es, s')) :
    Parses s (.series .items) es s' ∧ s'.terminal? = none := by
  have enumerates := sequence_enumerates read
  refine ⟨?_, enumerates.stops⟩
  rcases enumerates.series (by decide) with ⟨rfl, rfl⟩ | parses
  · exact Parses.of_closed_rule (n := .series .items) (.head _) readsTo_nil rfl
  · exact parses

end Expressions

end Grammar

end Trampoline
