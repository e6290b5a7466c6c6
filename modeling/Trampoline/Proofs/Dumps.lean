import Trampoline.Proofs.DumpReader

set_option autoImplicit false

namespace Trampoline

namespace Dump

def texts? : List Dump → Option (List String)
  | [] => some []
  | .text s :: items => (texts? items).map (s :: ·)
  | _ :: _ => none

def optional? : Dump → Option (Option String)
  | .null => some none
  | .text s => some (some s)
  | _ => none

theorem texts?_names (xs : List String) : texts? (xs.map .text) = some xs := by
  induction xs with
  | nil => rfl
  | cons x xs ih => rw [List.map_cons, texts?, ih]; rfl

theorem optional?_optional (x : Option String) : optional? (optional x) = some x := by cases x <;> rfl

end Dump

mutual

def Expr.ofDump? : Dump → Option Expr
  | .null => some .hole
  | .record [(key, .text kind), (_, part)] =>
      if key = "name" then (Expr.ofDump? part).map fun init => .binding (.mk kind init)
      else
        match part with
        | .number value => some (.num value)
        | .bool value => some (.bool value)
        | .text value => some (if kind = "str" then .str value else .var value)
        | .list body => (Expr.ofDumps? body).map .prog
        | _ => none
  | .record [(_, .text kind), (_, first), (_, second)] =>
      if kind = "assign" then (Expr.ofDump? first).bind fun target => (Expr.ofDump? second).map (.assign target)
      else if kind = "call" then
        match second with
        | .list args => (Expr.ofDump? first).bind fun func => (Expr.ofDumps? args).map (.call func)
        | _ => none
      else
        match first with
        | .list bindings => (Binding.ofDumps? bindings).bind fun bs => (Expr.ofDump? second).map (.letIn bs)
        | _ => none
  | .record [(_, .text kind), (_, first), (_, second), (_, third)] =>
      if kind = "if" then
        (Expr.ofDump? first).bind fun test => (Expr.ofDump? second).bind fun yes =>
          (Expr.ofDump? third).map (.cond test yes)
      else
        match first with
        | .list params =>
            (Dump.texts? params).bind fun params => (Expr.ofDump? second).bind fun body =>
              (Dump.optional? third).map (.lambda params body)
        | .text op => (Expr.ofDump? second).bind fun left => (Expr.ofDump? third).map (.binary op left)
        | _ => none
  | _ => none

def Expr.ofDumps? : List Dump → Option (List Expr)
  | [] => some []
  | d :: ds => (Expr.ofDump? d).bind fun e => (Expr.ofDumps? ds).map (e :: ·)

def Binding.ofDumps? : List Dump → Option (List Binding)
  | [] => some []
  | .record [(_, .text name), (_, part)] :: ds =>
      (Expr.ofDump? part).bind fun init => (Binding.ofDumps? ds).map (.mk name init :: ·)
  | _ :: _ => none

end

mutual

theorem Expr.ofDump?_toDump (e : Expr) : Expr.ofDump? e.toDump = some e := by
  cases e with
  | hole => rfl
  | num value => rfl
  | str value => rfl
  | bool value => rfl
  | var name => rfl
  | lambda params body name =>
      simp [Expr.toDump, Expr.ofDump?, Dump.names, Dump.texts?_names, Dump.optional?_optional, body.ofDump?_toDump]
  | call func args => simp [Expr.toDump, Expr.ofDump?, func.ofDump?_toDump, Expr.ofDumps?_toDumps args]
  | cond test yes no =>
      simp [Expr.toDump, Expr.ofDump?, test.ofDump?_toDump, yes.ofDump?_toDump, no.ofDump?_toDump]
  | assign target value => simp [Expr.toDump, Expr.ofDump?, target.ofDump?_toDump, value.ofDump?_toDump]
  | binary op left right => simp [Expr.toDump, Expr.ofDump?, left.ofDump?_toDump, right.ofDump?_toDump]
  | prog body => simp [Expr.toDump, Expr.ofDump?, Expr.ofDumps?_toDumps body]
  | letIn bindings body =>
      simp [Expr.toDump, Expr.ofDump?, Binding.ofDumps?_toDumps bindings, body.ofDump?_toDump]
  | binding b =>
      obtain ⟨name, init⟩ := b
      simp [Expr.toDump, Binding.toDump, Expr.ofDump?, init.ofDump?_toDump]

theorem Expr.ofDumps?_toDumps (es : List Expr) : Expr.ofDumps? (Expr.toDumps es) = some es := by
  cases es with
  | nil => rfl
  | cons e es => simp [Expr.toDumps, Expr.ofDumps?, e.ofDump?_toDump, Expr.ofDumps?_toDumps es]

theorem Binding.ofDumps?_toDumps (bs : List Binding) : Binding.ofDumps? (Binding.toDumps bs) = some bs := by
  cases bs with
  | nil => rfl
  | cons b bs =>
      obtain ⟨name, init⟩ := b
      simp [Binding.toDumps, Binding.toDump, Binding.ofDumps?, init.ofDump?_toDump, Binding.ofDumps?_toDumps bs]

end

mutual

def Expr.mapNumbers (f : Float → Float) : Expr → Expr
  | .num value => .num (f value)
  | .lambda params body name => .lambda params (body.mapNumbers f) name
  | .call func args => .call (func.mapNumbers f) (Expr.mapAll f args)
  | .cond test yes no => .cond (test.mapNumbers f) (yes.mapNumbers f) (no.mapNumbers f)
  | .assign target value => .assign (target.mapNumbers f) (value.mapNumbers f)
  | .binary op left right => .binary op (left.mapNumbers f) (right.mapNumbers f)
  | .prog body => .prog (Expr.mapAll f body)
  | .letIn bindings body => .letIn (Binding.mapAll f bindings) (body.mapNumbers f)
  | .binding (.mk name init) => .binding (.mk name (init.mapNumbers f))
  | e => e

def Expr.mapAll (f : Float → Float) : List Expr → List Expr
  | [] => []
  | e :: es => e.mapNumbers f :: Expr.mapAll f es

def Binding.mapAll (f : Float → Float) : List Binding → List Binding
  | [] => []
  | .mk name init :: bs => .mk name (init.mapNumbers f) :: Binding.mapAll f bs

end

mutual

def Expr.Numbers (p : Float → Prop) : Expr → Prop
  | .num value => p value
  | .lambda _ body _ => body.Numbers p
  | .call func args => func.Numbers p ∧ Expr.NumbersIn p args
  | .cond test yes no => test.Numbers p ∧ yes.Numbers p ∧ no.Numbers p
  | .assign target value => target.Numbers p ∧ value.Numbers p
  | .binary _ left right => left.Numbers p ∧ right.Numbers p
  | .prog body => Expr.NumbersIn p body
  | .letIn bindings body => Binding.NumbersIn p bindings ∧ body.Numbers p
  | .binding (.mk _ init) => init.Numbers p
  | _ => True

def Expr.NumbersIn (p : Float → Prop) : List Expr → Prop
  | [] => True
  | e :: es => e.Numbers p ∧ Expr.NumbersIn p es

def Binding.NumbersIn (p : Float → Prop) : List Binding → Prop
  | [] => True
  | .mk _ init :: bs => init.Numbers p ∧ Binding.NumbersIn p bs

end

section Dumped

variable (f : Float → Float)

theorem Dump.mapItems_texts (xs : List String) : Dump.mapItems f (xs.map .text) = xs.map .text := by
  induction xs with
  | nil => rfl
  | cons x xs ih => rw [List.map_cons, mapItems, ih]; rfl

theorem Dump.mapNumbers_optional (x : Option String) : (Dump.optional x).mapNumbers f = .optional x := by
  cases x <;> rfl

mutual

theorem Expr.toDump_mapNumbers (e : Expr) : (e.mapNumbers f).toDump = e.toDump.mapNumbers f := by
  cases e with
  | lambda params body name =>
      simp [Expr.mapNumbers, Expr.toDump, Dump.mapNumbers, Dump.mapFields, Dump.names, Dump.mapItems_texts,
        Dump.mapNumbers_optional, body.toDump_mapNumbers]
  | call func args =>
      simp [Expr.mapNumbers, Expr.toDump, Dump.mapNumbers, Dump.mapFields, func.toDump_mapNumbers,
        Expr.toDumps_mapAll args]
  | cond test yes no =>
      simp [Expr.mapNumbers, Expr.toDump, Dump.mapNumbers, Dump.mapFields, test.toDump_mapNumbers,
        yes.toDump_mapNumbers, no.toDump_mapNumbers]
  | assign target value =>
      simp [Expr.mapNumbers, Expr.toDump, Dump.mapNumbers, Dump.mapFields, target.toDump_mapNumbers,
        value.toDump_mapNumbers]
  | binary op left right =>
      simp [Expr.mapNumbers, Expr.toDump, Dump.mapNumbers, Dump.mapFields, left.toDump_mapNumbers,
        right.toDump_mapNumbers]
  | prog body =>
      simp [Expr.mapNumbers, Expr.toDump, Dump.mapNumbers, Dump.mapFields, Expr.toDumps_mapAll body]
  | letIn bindings body =>
      simp [Expr.mapNumbers, Expr.toDump, Dump.mapNumbers, Dump.mapFields, Binding.toDumps_mapAll bindings,
        body.toDump_mapNumbers]
  | binding b =>
      obtain ⟨name, init⟩ := b
      simp [Expr.mapNumbers, Expr.toDump, Binding.toDump, Dump.mapNumbers, Dump.mapFields, init.toDump_mapNumbers]
  | _ => rfl

theorem Expr.toDumps_mapAll (es : List Expr) : Expr.toDumps (Expr.mapAll f es) = Dump.mapItems f (Expr.toDumps es) := by
  cases es with
  | nil => rfl
  | cons e es => simp [Expr.mapAll, Expr.toDumps, Dump.mapItems, e.toDump_mapNumbers, Expr.toDumps_mapAll es]

theorem Binding.toDumps_mapAll (bs : List Binding) :
    Binding.toDumps (Binding.mapAll f bs) = Dump.mapItems f (Binding.toDumps bs) := by
  cases bs with
  | nil => rfl
  | cons b bs =>
      obtain ⟨name, init⟩ := b
      simp [Binding.mapAll, Binding.toDumps, Binding.toDump, Dump.mapItems, Dump.mapNumbers, Dump.mapFields,
        init.toDump_mapNumbers, Binding.toDumps_mapAll bs]

end

end Dumped

section Dumped

variable {p q : Float → Prop}

theorem Dump.numbersIn_texts (xs : List String) : Dump.NumbersIn q (xs.map .text) := by
  induction xs with
  | nil => trivial
  | cons x xs ih => exact ⟨trivial, ih⟩

theorem Dump.numbers_optional (x : Option String) : (Dump.optional x).Numbers q := by cases x <;> trivial

mutual

theorem Expr.numbers_toDump (weaker : ∀ x, p x → q x) (e : Expr) (known : e.Numbers p) : e.toDump.Numbers q := by
  cases e with
  | hole => trivial
  | num value => exact ⟨trivial, weaker value known, trivial⟩
  | lambda params body name =>
      exact ⟨trivial, Dump.numbersIn_texts params, Expr.numbers_toDump weaker body known, Dump.numbers_optional name,
        trivial⟩
  | call func args =>
      obtain ⟨first, rest⟩ := known
      exact ⟨trivial, Expr.numbers_toDump weaker func first, Expr.numbersIn_toDumps weaker args rest, trivial⟩
  | cond test yes no =>
      obtain ⟨first, second, third⟩ := known
      exact ⟨trivial, Expr.numbers_toDump weaker test first, Expr.numbers_toDump weaker yes second,
        Expr.numbers_toDump weaker no third, trivial⟩
  | assign target value =>
      obtain ⟨first, second⟩ := known
      exact ⟨trivial, Expr.numbers_toDump weaker target first, Expr.numbers_toDump weaker value second, trivial⟩
  | binary op left right =>
      obtain ⟨first, second⟩ := known
      exact ⟨trivial, trivial, Expr.numbers_toDump weaker left first, Expr.numbers_toDump weaker right second, trivial⟩
  | prog body => exact ⟨trivial, Expr.numbersIn_toDumps weaker body known, trivial⟩
  | letIn bindings body =>
      obtain ⟨first, second⟩ := known
      exact ⟨trivial, Binding.numbersIn_toDumps weaker bindings first, Expr.numbers_toDump weaker body second, trivial⟩
  | binding b =>
      obtain ⟨name, init⟩ := b
      exact ⟨trivial, Expr.numbers_toDump weaker init known, trivial⟩
  | _ => exact ⟨trivial, trivial, trivial⟩

theorem Expr.numbersIn_toDumps (weaker : ∀ x, p x → q x) (es : List Expr) (known : Expr.NumbersIn p es) :
    Dump.NumbersIn q (Expr.toDumps es) := by
  cases es with
  | nil => trivial
  | cons e es =>
      obtain ⟨first, rest⟩ := known
      exact ⟨Expr.numbers_toDump weaker e first, Expr.numbersIn_toDumps weaker es rest⟩

theorem Binding.numbersIn_toDumps (weaker : ∀ x, p x → q x) (bs : List Binding) (known : Binding.NumbersIn p bs) :
    Dump.NumbersIn q (Binding.toDumps bs) := by
  cases bs with
  | nil => trivial
  | cons b bs =>
      obtain ⟨name, init⟩ := b
      obtain ⟨first, rest⟩ := known
      exact ⟨⟨trivial, Expr.numbers_toDump weaker init first, trivial⟩, Binding.numbersIn_toDumps weaker bs rest⟩

end

end Dumped

def Expr.undump? (number : String → Float) (s : String) : Option Expr := (Dump.read? number s).bind Expr.ofDump?

theorem Expr.undump?_dump {number : String → Float} {f : Float → Float} {p : Float → Prop}
    (reads : ∀ x, p x → number (Dump.numberText x) = f x) {e : Expr} (known : e.Numbers p) (indent : Option Nat) :
    Expr.undump? number (e.dump indent) = some (e.mapNumbers f) := by
  rw [undump?, dump, Dump.read?_render (Expr.numbers_toDump reads e known) indent, ← Expr.toDump_mapNumbers]
  exact Expr.ofDump?_toDump _

namespace Dump

open Binary64 (decode)

theorem numberText_finite {x : Float} {negative : Bool} {mantissa : Nat} {exponent : Int}
    (finite : decode x = .finite negative mantissa exponent) (letter : Char)
    (foreign : Decimal.isNumeric letter = false) : numberText x = Decimal.text x ∧ letter ∉ (numberText x).toList := by
  have shown : numberText x = Decimal.text x := by rw [numberText, finite]
  refine ⟨shown, fun member => ?_⟩
  rw [shown] at member
  exact Bool.false_ne_true (foreign.symm.trans ((Decimal.text_numeric finite).1 letter member))

theorem numberText_eq_nan_iff {x : Float} : numberText x = "NaN" ↔ decode x = .nan := by
  cases shape : decode x with
  | nan => simp [numberText, shape]
  | infinite negative => cases negative <;> simp [numberText, shape]
  | finite negative mantissa exponent =>
      have absent := (numberText_finite shape 'N' rfl).2
      constructor
      · intro same
        rw [same] at absent
        exact absurd (by decide) absent
      · intro same
        cases same

def shortened (s : String) : String :=
  if s = "Infinity" then "inf" else if s = "-Infinity" then "-inf" else s

theorem shortened_numberText {x : Float} (number : decode x ≠ .nan) :
    shortened (numberText x) = Decimal.text x := by
  cases shape : decode x with
  | nan => exact absurd shape number
  | infinite negative => cases negative <;> simp [numberText, Decimal.text, shape, shortened]
  | finite negative mantissa exponent =>
      obtain ⟨shown, absent⟩ := numberText_finite shape 'I' rfl
      have other {s : String} (member : 'I' ∈ s.toList) : numberText x ≠ s := by
        rintro rfl
        exact absent member
      rw [shortened, if_neg (other (by decide)), if_neg (other (by decide)), shown]

theorem numberText_same {x y : Float} (same : numberText x = numberText y)
    (injective : decode x ≠ .nan → decode y ≠ .nan → Decimal.text x = Decimal.text y → x = y) :
    x = y ∨ (decode y = .nan ∧ decode x = .nan) := by
  by_cases left : decode x = .nan
  · exact .inr ⟨numberText_eq_nan_iff.mp (same ▸ numberText_eq_nan_iff.mpr left), left⟩
  · have right : decode y ≠ .nan := fun nan => left (numberText_eq_nan_iff.mp (same ▸ numberText_eq_nan_iff.mpr nan))
    refine .inl (injective left right ?_)
    rw [← shortened_numberText left, ← shortened_numberText right, same]

theorem exists_number_reader (floats : Float → Prop) :
    ∃ number : String → Float, ∀ x, floats x →
      floats (number (numberText x)) ∧ numberText (number (numberText x)) = numberText x := by
  have total (s : String) : ∃ y, ∀ x, floats x → numberText x = s → floats y ∧ numberText y = s := by
    by_cases written : ∃ x, floats x ∧ numberText x = s
    · obtain ⟨y, known, text⟩ := written
      exact ⟨y, fun _ _ _ => ⟨known, text⟩⟩
    · exact ⟨0, fun x known text => absurd ⟨x, known, text⟩ written⟩
  obtain ⟨number, picks⟩ := Classical.axiomOfChoice total
  exact ⟨number, fun x known => picks _ x known rfl⟩

end Dump

-- An expression is recovered from its dump, at whatever indent, and so the dumps of two expressions differ; numbers that
-- are not a number count as one, and all others are taken to have texts of their own.
theorem dump_is_decodable (floats : Float → Prop)
    (injective : ∀ x y, floats x → floats y → Binary64.decode x ≠ .nan → Binary64.decode y ≠ .nan →
      Decimal.text x = Decimal.text y → x = y) :
    ∃ (number : String → Float) (f : Float → Float),
      (∀ x, floats x → f x = x ∨ (Binary64.decode x = .nan ∧ Binary64.decode (f x) = .nan)) ∧
      (∀ e : Expr, e.Numbers floats →
        ∀ indent, Expr.undump? number (e.dump indent) = some (e.mapNumbers f)) ∧
      ∀ e e' : Expr, e.Numbers floats → e'.Numbers floats →
        ∀ indent, e.dump indent = e'.dump indent → e.mapNumbers f = e'.mapNumbers f := by
  obtain ⟨number, picks⟩ := Dump.exists_number_reader floats
  have recovered (e : Expr) (known : e.Numbers floats) (indent : Option Nat) :
      Expr.undump? number (e.dump indent) = some (e.mapNumbers (number ∘ Dump.numberText)) :=
    Expr.undump?_dump (fun _ _ => rfl) known indent
  refine ⟨number, number ∘ Dump.numberText, fun x known => ?_, recovered, fun e e' known known' indent same => ?_⟩
  · obtain ⟨picked, text⟩ := picks x known
    exact Dump.numberText_same text (injective _ x picked known)
  · have left := recovered e known indent
    rw [same, recovered e' known' indent] at left
    exact (Option.some.inj left).symm

def crowded : Expr :=
  .letIn [.mk "a\"\n" .hole, .mk "b\\" (.num 1.5)]
    (.cond (.lambda [] (.binding (.mk "" (.str "\x7f\x1f,]"))) none) (.call (.prog []) [.hole]) .hole)

theorem crowded_decoded :
    (∀ x y : Float, x = 1.5 → y = 1.5 → Binary64.decode x ≠ .nan → Binary64.decode y ≠ .nan →
        Decimal.text x = Decimal.text y → x = y) ∧
      crowded.Numbers (· = 1.5) ∧
      ∃ number, ∀ indent, Expr.undump? number (crowded.dump indent) = some crowded := by
  have injective (x y : Float) (left : x = 1.5) (right : y = 1.5) (_ : Binary64.decode x ≠ .nan)
      (_ : Binary64.decode y ≠ .nan) (_ : Decimal.text x = Decimal.text y) : x = y := left.trans right.symm
  have literals : crowded.Numbers (· = 1.5) := by simp [crowded, Expr.Numbers, Expr.NumbersIn, Binding.NumbersIn]
  obtain ⟨number, f, unchanged, recovered, _⟩ := dump_is_decodable (· = 1.5) injective
  have kept : f 1.5 = 1.5 := (unchanged 1.5 rfl).resolve_right fun nan => absurd nan.1 (by decide)
  refine ⟨injective, literals, number, fun indent => ?_⟩
  rw [recovered crowded literals indent]
  simp [crowded, Expr.mapNumbers, Expr.mapAll, Binding.mapAll, kept]

end Trampoline
