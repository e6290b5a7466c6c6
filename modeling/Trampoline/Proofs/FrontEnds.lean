import Trampoline.Program
import Trampoline.Proofs.DescentFollows
import Trampoline.Proofs.GrammarFollows
import Trampoline.Proofs.ShiftReduce

/-!
Both front ends read the same program from a source. The grammar front end reads what the machine accepts that
shifts wherever it can; this machine accepts what the descent reads from plain tokens, and the descent reads what
the machine accepts with the same tokens. Branches without `then` are the one form on which they part, so no such
branch is followed by an operator or an argument list.
-/

set_option autoImplicit false

namespace Trampoline.FrontEnd

-- No block that is the branch of a conditional without `then` is directly followed by an operator or `(`.
def BranchesEnd (source : String) : Prop :=
  (Reading.before []).branchesEnd ((Tokens.ofSource source).list.map Token.lexeme) = true

-- The names have characters that both front ends know, the text literals are closed, and no name character
-- follows `call/cc`.
def PlainSource (source : String) : Prop := Grammar.PlainTokens source (.ofSource source)

-- The terminals that were shifted are the tokens: the same spans, and names for names.
def SameTokens (source : String) : Prop :=
  ∃ program terminals, Grammar.AcceptedByShifting source terminals program ∧
    List.Forall₂ Grammar.Coincide (Tokens.ofSource source).list terminals

theorem grammar_parse_ok {source : String} {program : Expr} :
    FrontEnd.grammar.parse source = .ok program ↔ ∃ terminals, Grammar.read source = .ok (program, terminals) := by
  simp only [parse, Grammar.parse]
  cases made : Grammar.read source with
  | error e => simp [Except.map]
  | ok result =>
      obtain ⟨program', terminals⟩ := result
      constructor
      · intro same
        cases same
        exact ⟨terminals, rfl⟩
      · rintro ⟨_, same⟩
        cases same
        rfl

theorem front_ends_agree {source : String} (ends : BranchesEnd source) (program : Expr) :
    (FrontEnd.grammar.parse source = .ok program ↔ ∃ terminals, Grammar.AcceptedByShifting source terminals program) ∧
    (∀ terminals, Grammar.AcceptedByShifting source terminals program ↔ Grammar.Derivable source terminals program) ∧
    (FrontEnd.descent.parse source = .ok program → PlainSource source →
      FrontEnd.grammar.parse source = .ok program) ∧
    (FrontEnd.grammar.parse source = .ok program → SameTokens source →
      FrontEnd.descent.parse source = .ok program) := by
  refine ⟨?_, fun _ => Grammar.accepted_iff_derivable, ?_, ?_⟩
  · simp only [grammar_parse_ok, Grammar.read_iff_accepted]
  · intro accepted plain
    exact Grammar.parse_follows accepted plain ends
  · rintro parsed ⟨program', terminals, accepted, coincide⟩
    obtain ⟨terminals', read⟩ := grammar_parse_ok.mp parsed
    cases (Grammar.read_iff_accepted.mpr accepted).symm.trans read
    exact Grammar.parse_answered read coincide ends

def branchingSource : String := "let(z = a)if z\x7bf(z);\x7delse b+λ(y)y"

theorem branchingSource_sameTokens : SameTokens branchingSource := by
  have coincide : (match Grammar.read branchingSource with
      | .ok (_, terminals) =>
          decide (List.Forall₂ Grammar.Coincide (Tokens.ofSource branchingSource).list terminals)
      | .error _ => false) = true := by decide +kernel
  simp only [SameTokens, ← Grammar.read_iff_accepted]
  -- The source is read once, by the kernel; only the result is taken apart.
  generalize Grammar.read branchingSource = result at coincide ⊢
  cases result with
  | error e => cases coincide
  | ok read => exact ⟨read.1, read.2, rfl, of_decide_eq_true coincide⟩

theorem branchingSource_agrees :
    ∃ program terminals, Grammar.AcceptedByShifting branchingSource terminals program ∧
      FrontEnd.grammar.parse branchingSource = .ok program ∧
        FrontEnd.descent.parse branchingSource = .ok program := by
  have ends : BranchesEnd branchingSource := by
    unfold BranchesEnd
    decide +kernel
  have plain : PlainSource branchingSource := by
    unfold PlainSource
    decide +kernel
  have accepted : ∃ program, FrontEnd.descent.parse branchingSource = .ok program := by
    have read : (FrontEnd.descent.parse branchingSource).isOk = true := by decide +kernel
    generalize FrontEnd.descent.parse branchingSource = result at read ⊢
    cases result with
    | error e => cases read
    | ok program => exact ⟨program, rfl⟩
  obtain ⟨program, accepted⟩ := accepted
  obtain ⟨machine, _, follows, answered⟩ := front_ends_agree ends program
  have parsed := follows accepted plain
  obtain ⟨terminals, run⟩ := machine.mp parsed
  exact ⟨program, terminals, run, parsed, answered parsed branchingSource_sameTokens⟩

end Trampoline.FrontEnd
