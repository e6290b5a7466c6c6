import Trampoline.Expr.Dump

set_option autoImplicit false

namespace Trampoline

namespace Decimal

def isNumeric (c : Char) : Bool := c.isDigit || c == '.' || c == 'e' || c == '+' || c == '-'

def Numeric (cs : List Char) : Prop := ∀ c ∈ cs, isNumeric c = true

namespace Numeric

theorem append {cs ds : List Char} (left : Numeric cs) (right : Numeric ds) : Numeric (cs ++ ds) :=
  fun c member => (List.mem_append.mp member).elim (left c) (right c)

theorem cons {c : Char} {cs : List Char} (first : isNumeric c = true) (more : Numeric cs) : Numeric (c :: cs) :=
  append (fun _ member => List.mem_singleton.mp member ▸ first) more

theorem nil : Numeric [] := fun _ member => nomatch member

theorem zeros (n : Nat) : Numeric (List.replicate n '0') :=
  fun _ member => List.eq_of_mem_replicate member ▸ rfl

theorem digits (n : Nat) : Numeric (digitsOf n) := by
  intro c member
  have digit : c.isDigit = true := Nat.isDigit_of_mem_toDigits (by decide) (by decide) member
  rw [isNumeric, digit]
  rfl

theorem part {cs ds : List Char} (whole : Numeric cs) (within : ds ⊆ cs) : Numeric ds :=
  fun c member => whole c (within member)

theorem exponent (n : Int) : Numeric (exponentText n) := by
  have padded : Numeric (if (digitsOf n.natAbs).length < 2 then '0' :: digitsOf n.natAbs else digitsOf n.natAbs) := by
    split
    · exact cons rfl (digits _)
    · exact digits _
  refine cons rfl (cons ?_ padded)
  split <;> rfl

theorem layout (s : Scientific) : Numeric (layout s) := by
  have all := digits s.digits
  rw [Decimal.layout]
  split
  · split
    · exact append (append (cons rfl (cons rfl nil)) (zeros _)) all
    · split
      · exact append (append all (zeros _)) (cons rfl (cons rfl nil))
      · exact append (all.part (List.take_subset ..)) (cons rfl (all.part (List.drop_subset ..)))
  · split
    · exact nil
    · rename_i digit shape
      exact cons (all digit (shape ▸ List.mem_cons_self)) (exponent _)
    · rename_i digit more _ shape
      have front := all digit (shape ▸ List.mem_cons_self)
      exact append (cons front (cons rfl (all.part (shape ▸ List.subset_cons_self ..)))) (exponent _)

end Numeric

theorem layout_ne_nil (s : Scientific) : layout s ≠ [] := by
  have some : digitsOf s.digits ≠ [] := Nat.toDigits_ne_nil
  rw [layout]
  split
  · split
    · simp
    · split <;> simp
  · split
    · exact absurd ‹_› some
    · exact List.cons_ne_nil _ _
    · exact List.cons_ne_nil _ _

theorem unsigned_numeric (mantissa : Nat) (exponent : Int) :
    Numeric (unsigned mantissa exponent) ∧ unsigned mantissa exponent ≠ [] := by
  rw [unsigned]
  split
  · exact ⟨.cons rfl (.cons rfl (.cons rfl .nil)), List.cons_ne_nil _ _⟩
  · exact ⟨.layout _, layout_ne_nil _⟩

theorem text_numeric {x : Float} {negative : Bool} {mantissa : Nat} {exponent : Int}
    (finite : Binary64.decode x = .finite negative mantissa exponent) :
    Numeric (text x).toList ∧ (text x).toList ≠ [] := by
  obtain ⟨numeric, some⟩ := unsigned_numeric mantissa exponent
  rw [text, finite]
  cases negative with
  | true => simpa using numeric.cons rfl
  | false => simpa using ⟨numeric, some⟩

end Decimal

namespace Dump

inductive Unclosed where
  | list (items : List Dump)
  | record (fields : List (String × Dump)) (key : Option String)

def Unclosed.put (d : Dump) : Unclosed → Unclosed
  | .list items => .list (items ++ [d])
  | .record fields (some key) => .record (fields ++ [(key, d)]) none
  | .record fields none =>
      match d with
      | .text key => .record fields (some key)
      | _ => .record fields none

def Unclosed.closed : Unclosed → Dump
  | .list items => .list items
  | .record fields _ => .record fields

def put (d : Dump) : List Unclosed → List Unclosed
  | [] => []
  | inner :: outer => inner.put d :: outer

def close : List Unclosed → List Unclosed
  | [] => []
  | inner :: outer => put inner.closed outer

def isDelimiter (c : Char) : Bool :=
  ['"', '[', ']', '\x7b', '\x7d', ',', ':', ' ', '\n'].contains c

def hexDigit (c : Char) : Nat := if Decimal.isDigit c then Decimal.digitValue c else c.toNat - 'a'.toNat + 10

def hexValue (cs : List Char) : Nat := cs.foldl (fun n c => 16 * n + hexDigit c) 0

def unescaped (c : Char) : Char :=
  if c = 'n' then '\n'
  else if c = 'r' then '\r'
  else if c = 't' then '\t'
  else if c = 'f' then '\x0c'
  else if c = 'b' then '\x08'
  else c

def ofWord (number : String → Float) (cs : List Char) : Dump :=
  if cs = "null".toList then .null
  else if cs = "true".toList then .bool true
  else if cs = "false".toList then .bool false
  else .number (number (String.ofList cs))

inductive Stage where
  | between
  | word (seen : List Char)
  | text (seen : List Char)
  | escape (seen : List Char)
  | code (seen digits : List Char)

structure Reader where
  stage : Stage
  unclosed : List Unclosed

namespace Reader

variable (number : String → Float)

def settle : Reader → Reader
  | ⟨.word seen, unclosed⟩ => ⟨.between, put (ofWord number seen) unclosed⟩
  | r => r

def outside (r : Reader) (c : Char) : Reader :=
  if isDelimiter c then
    let unclosed := (r.settle number).unclosed
    if c = '"' then ⟨.text [], unclosed⟩
    else if c = '[' then ⟨.between, .list [] :: unclosed⟩
    else if c = '\x7b' then ⟨.between, .record [] none :: unclosed⟩
    else if c = ']' ∨ c = '\x7d' then ⟨.between, close unclosed⟩
    else ⟨.between, unclosed⟩
  else
    match r.stage with
    | .word seen => ⟨.word (seen ++ [c]), r.unclosed⟩
    | _ => ⟨.word [c], r.unclosed⟩

def step (r : Reader) (c : Char) : Reader :=
  match r.stage with
  | .text seen =>
      if c = '"' then ⟨.between, put (.text (String.ofList seen)) r.unclosed⟩
      else if c = '\\' then ⟨.escape seen, r.unclosed⟩
      else ⟨.text (seen ++ [c]), r.unclosed⟩
  | .escape seen =>
      if c = 'u' then ⟨.code seen [], r.unclosed⟩ else ⟨.text (seen ++ [unescaped c]), r.unclosed⟩
  | .code seen digits =>
      if digits.length = 3 then ⟨.text (seen ++ [Char.ofNat (hexValue (digits ++ [c]))]), r.unclosed⟩
      else ⟨.code seen (digits ++ [c]), r.unclosed⟩
  | .between => r.outside number c
  | .word _ => r.outside number c

def feed (r : Reader) (cs : List Char) : Reader := cs.foldl (step number) r

end Reader

def read? (number : String → Float) (s : String) : Option Dump :=
  match (Reader.feed number ⟨.between, [.list []]⟩ s.toList).settle number with
  | ⟨.between, [.list [d]]⟩ => some d
  | _ => none

namespace Reader

variable {number : String → Float}

theorem feed_append (r : Reader) (cs ds : List Char) :
    r.feed number (cs ++ ds) = (r.feed number cs).feed number ds := List.foldl_append

-- Up to the end of a word, the reader is between two parts with these lists and records open.
def Between (number : String → Float) (r : Reader) (unclosed : List Unclosed) : Prop :=
  r.settle number = ⟨.between, unclosed⟩

theorem between_settled (unclosed : List Unclosed) : Between number ⟨.between, unclosed⟩ unclosed := rfl

theorem Between.step_eq {r : Reader} {unclosed : List Unclosed} (between : r.Between number unclosed) {c : Char}
    (delimiter : isDelimiter c = true) :
    r.step number c = step number ⟨.between, unclosed⟩ c := by
  have settled : (r.settle number).unclosed = unclosed := congrArg Reader.unclosed between
  obtain ⟨stage, earlier⟩ := r
  cases stage with
  | between => cases between; rfl
  | word seen =>
      subst settled
      simp [step, outside, delimiter, settle]
  | text seen => cases between
  | escape seen => cases between
  | code seen digits => cases between

def Filling (cs : List Char) : Prop := ∀ c ∈ cs, c = ',' ∨ c = ':' ∨ c = ' ' ∨ c = '\n'

theorem Between.filling {r : Reader} {unclosed : List Unclosed} (between : r.Between number unclosed)
    {cs : List Char} (filling : Filling cs) :
    (r.feed number cs).Between number unclosed ∧ (cs ≠ [] → r.feed number cs = ⟨.between, unclosed⟩) := by
  induction cs generalizing r with
  | nil => exact ⟨between, fun some => absurd rfl some⟩
  | cons c cs ih =>
      have passed : r.step number c = ⟨.between, unclosed⟩ := by
        rcases filling c List.mem_cons_self with rfl | rfl | rfl | rfl
        · exact between.step_eq rfl
        · exact between.step_eq rfl
        · exact between.step_eq rfl
        · exact between.step_eq rfl
      obtain ⟨still, clear⟩ := ih (r := r.step number c) (passed ▸ rfl)
        fun d member => filling d (List.mem_cons_of_mem _ member)
      refine ⟨still, fun _ => ?_⟩
      cases cs with
      | nil => exact passed
      | cons d ds => exact clear (List.cons_ne_nil _ _)

theorem feed_filling {cs : List Char} (filling : Filling cs) (unclosed : List Unclosed) :
    feed number ⟨.between, unclosed⟩ cs = ⟨.between, unclosed⟩ := by
  cases cs with
  | nil => rfl
  | cons c cs => exact ((between_settled unclosed).filling filling).2 (List.cons_ne_nil _ _)

theorem feed_word {cs : List Char} (plain : ∀ c ∈ cs, isDelimiter c = false) (seen : List Char)
    (unclosed : List Unclosed) :
    feed number ⟨.word seen, unclosed⟩ cs = ⟨.word (seen ++ cs), unclosed⟩ := by
  induction cs generalizing seen with
  | nil => rw [List.append_nil]; rfl
  | cons c cs ih =>
      have first : step number ⟨.word seen, unclosed⟩ c = ⟨.word (seen ++ [c]), unclosed⟩ := by
        simp [step, outside, plain c List.mem_cons_self]
      have rest := ih (fun d member => plain d (List.mem_cons_of_mem _ member)) (seen ++ [c])
      rw [List.append_assoc] at rest
      exact (congrArg (feed number · cs) first).trans rest

theorem word_read {cs : List Char} (plain : ∀ c ∈ cs, isDelimiter c = false) (some : cs ≠ [])
    (unclosed : List Unclosed) :
    (feed number ⟨.between, unclosed⟩ cs).Between number (put (ofWord number cs) unclosed) := by
  cases cs with
  | nil => exact absurd rfl some
  | cons c cs =>
      have first : step number ⟨.between, unclosed⟩ c = ⟨.word [c], unclosed⟩ := by
        simp [step, outside, plain c List.mem_cons_self]
      have rest : feed number ⟨.word [c], unclosed⟩ cs = ⟨.word (c :: cs), unclosed⟩ :=
        feed_word (fun d member => plain d (List.mem_cons_of_mem _ member)) [c] unclosed
      have all : feed number ⟨.between, unclosed⟩ (c :: cs) = ⟨.word (c :: cs), unclosed⟩ :=
        (congrArg (feed number · cs) first).trans rest
      rw [all]
      rfl

end Reader

theorem hexDigit_digitChar : ∀ d : Fin 16, hexDigit (Nat.digitChar d) = d := by decide

theorem hexValue_push (cs : List Char) (c : Char) : hexValue (cs ++ [c]) = 16 * hexValue cs + hexDigit c := by
  rw [hexValue, List.foldl_append]
  rfl

theorem hexValue_toDigits (n : Nat) : hexValue (Nat.toDigits 16 n) = n := by
  induction n using Nat.strongRecOn with
  | ind n ih =>
      by_cases small : n < 16
      · rw [Nat.toDigits_of_lt_base small]
        exact (Nat.zero_add _).trans (hexDigit_digitChar ⟨n, small⟩)
      · have last := hexDigit_digitChar ⟨n % 16, Nat.mod_lt n (by decide)⟩
        rw [Nat.toDigits_of_base_le (by decide) (Nat.le_of_not_lt small), hexValue_push, ih _ (by omega), last]
        exact Nat.div_add_mod n 16

theorem hexValue_hex (width n : Nat) : hexValue (Text.hex width n) = n := by
  have zeros (k : Nat) : hexValue (List.replicate k '0') = 0 := by
    induction k with
    | zero => rfl
    | succ k ih => rw [List.replicate_succ', hexValue_push, ih]; rfl
  rw [Text.hex, hexValue, List.foldl_append]
  have front := zeros (width - (Nat.toDigits 16 n).length)
  rw [hexValue] at front
  rw [front]
  exact hexValue_toDigits n

theorem length_hex {width n : Nat} (fits : (Nat.toDigits 16 n).length ≤ width) : (Text.hex width n).length = width := by
  rw [Text.hex, List.length_append, List.length_replicate]
  omega

namespace Reader

variable {number : String → Float}

theorem feed_code {digits more : List Char} (some : more ≠ []) (four : digits.length + more.length = 4)
    (seen : List Char) (unclosed : List Unclosed) :
    feed number ⟨.code seen digits, unclosed⟩ more
      = ⟨.text (seen ++ [Char.ofNat (hexValue (digits ++ more))]), unclosed⟩ := by
  induction more generalizing digits with
  | nil => exact absurd rfl some
  | cons c more ih =>
      cases more with
      | nil =>
          have three : digits.length = 3 := Nat.add_right_cancel four
          simp [feed, step, three]
      | cons d more =>
          have fewer : digits.length ≠ 3 := by
            simp only [List.length_cons] at four
            omega
          have first : step number ⟨.code seen digits, unclosed⟩ c = ⟨.code seen (digits ++ [c]), unclosed⟩ := by
            simp [step, fewer]
          have counted : (digits ++ [c]).length + (d :: more).length = 4 := by
            simp only [List.length_append, List.length_cons, List.length_nil] at four ⊢
            omega
          have rest := ih (List.cons_ne_nil _ _) counted
          rw [List.append_assoc] at rest
          exact (congrArg (feed number · (d :: more)) first).trans rest

theorem feed_escape (c : Char) (seen : List Char) (unclosed : List Unclosed) :
    feed number ⟨.text seen, unclosed⟩ (escape c) = ⟨.text (seen ++ [c]), unclosed⟩ := by
  rw [escape]
  split
  · subst c; rfl
  split
  · subst c; rfl
  split
  · subst c; rfl
  split
  · subst c; rfl
  split
  · subst c; rfl
  split
  · subst c; rfl
  split
  · subst c; rfl
  split
  · rename_i control
    have short : (Nat.toDigits 16 c.toNat).length ≤ 4 :=
      (Nat.length_toDigits_le_iff (by decide) (by decide)).mpr (Nat.lt_trans control (by decide))
    have four := length_hex short
    have some : Text.hex 4 c.toNat ≠ [] := List.ne_nil_of_length_eq_add_one four
    have coded : feed number ⟨.code seen [], unclosed⟩ (Text.hex 4 c.toNat) = _ :=
      feed_code some (by rw [four]; rfl) seen unclosed
    rw [List.nil_append, hexValue_hex, Char.ofNat_toNat] at coded
    exact coded
  · rename_i unquoted unescaped _ _ _ _ _ _
    simp [feed, step, unquoted, unescaped]

theorem feed_escapes (cs seen : List Char) (unclosed : List Unclosed) :
    feed number ⟨.text seen, unclosed⟩ (cs.flatMap escape) = ⟨.text (seen ++ cs), unclosed⟩ := by
  induction cs generalizing seen with
  | nil => rw [List.append_nil]; rfl
  | cons c cs ih => rw [List.flatMap_cons, feed_append, feed_escape, ih, List.append_assoc, List.singleton_append]

theorem feed_quote (s : String) (unclosed : List Unclosed) :
    feed number ⟨.between, unclosed⟩ (quote s).toList = ⟨.between, put (.text s) unclosed⟩ := by
  have opened : step number ⟨.between, unclosed⟩ '"' = ⟨.text [], unclosed⟩ := rfl
  have inside : feed number ⟨.text [], unclosed⟩ (s.toList.flatMap escape) = ⟨.text s.toList, unclosed⟩ :=
    feed_escapes s.toList [] unclosed
  have closing : step number ⟨.text s.toList, unclosed⟩ '"' = ⟨.between, put (.text s) unclosed⟩ := by
    simp [step]
  calc feed number ⟨.between, unclosed⟩ (quote s).toList
      = feed number (step number ⟨.between, unclosed⟩ '"') (s.toList.flatMap escape ++ ['"']) := by
        rw [quote, String.toList_ofList]; rfl
    _ = step number ⟨.text s.toList, unclosed⟩ '"' := by rw [opened, feed_append, inside]; rfl
    _ = ⟨.between, put (.text s) unclosed⟩ := closing

end Reader

mutual

def mapNumbers (f : Float → Float) : Dump → Dump
  | .null => .null
  | .bool value => .bool value
  | .number value => .number (f value)
  | .text value => .text value
  | .list items => .list (mapItems f items)
  | .record fields => .record (mapFields f fields)

def mapItems (f : Float → Float) : List Dump → List Dump
  | [] => []
  | item :: items => item.mapNumbers f :: mapItems f items

def mapFields (f : Float → Float) : List (String × Dump) → List (String × Dump)
  | [] => []
  | (key, value) :: fields => (key, value.mapNumbers f) :: mapFields f fields

end

mutual

def Numbers (p : Float → Prop) : Dump → Prop
  | .number value => p value
  | .list items => NumbersIn p items
  | .record fields => NumbersOf p fields
  | _ => True

def NumbersIn (p : Float → Prop) : List Dump → Prop
  | [] => True
  | item :: items => item.Numbers p ∧ NumbersIn p items

def NumbersOf (p : Float → Prop) : List (String × Dump) → Prop
  | [] => True
  | (_, value) :: fields => value.Numbers p ∧ NumbersOf p fields

end

-- Reading these pieces turns what was open before into what is open after.
def Reads (number : String → Float) (pieces : List String) (before after : List Unclosed) : Prop :=
  (Reader.feed number ⟨.between, before⟩ (pieces.flatMap String.toList)).Between number after

inductive ReadsAll (number : String → Float) : List (List String) → List Unclosed → List Unclosed → Prop where
  | nil {unclosed : List Unclosed} : ReadsAll number [] unclosed unclosed
  | cons {part : List String} {parts : List (List String)} {before between after : List Unclosed} :
      Reads number part before between → ReadsAll number parts between after →
      ReadsAll number (part :: parts) before after

variable {number : String → Float}

theorem lineBreak_filling (indent : Option Nat) (level : Nat) : Reader.Filling (lineBreak indent level).toList := by
  intro c member
  cases indent with
  | none => cases member
  | some width =>
      simp only [lineBreak, String.toList_append, String.toList_ofList] at member
      rcases List.mem_append.mp member with first | blank
      · exact .inr (.inr (.inr (List.mem_singleton.mp first)))
      · exact .inr (.inr (.inl (List.eq_of_mem_replicate blank)))

theorem separator_filling (indent : Option Nat) (level : Nat) :
    Reader.Filling (separator indent level).toList ∧ (separator indent level).toList ≠ [] := by
  cases indent with
  | none =>
      have shown : (separator none level).toList = [',', ' '] := by simp [separator]
      simp [shown, Reader.Filling]
  | some width =>
      have shown : (separator (some width) level).toList = ',' :: (lineBreak (some width) level).toList := by
        rw [separator, String.toList_append]
        rfl
      rw [shown]
      refine ⟨fun c member => ?_, List.cons_ne_nil _ _⟩
      rcases List.mem_cons.mp member with rfl | member
      · exact .inl rfl
      · exact lineBreak_filling (some width) level c member

namespace Reads

theorem join {ps qs : List String} {sep : String} {before between after : List Unclosed}
    (first : Reads number ps before between) (filling : Reader.Filling sep.toList) (some : sep.toList ≠ [])
    (second : Reads number qs between after) : Reads number (ps ++ [sep] ++ qs) before after := by
  have apart := (Reader.Between.filling first filling).2 some
  rw [Reads, List.flatMap_append, List.flatMap_append, Reader.feed_append, Reader.feed_append,
    List.flatMap_singleton, apart]
  exact second

end Reads

namespace ReadsAll

theorem joined {parts : List (List String)} {before after : List Unclosed}
    (all : ReadsAll number parts before after) (some : parts ≠ []) (indent : Option Nat) (level : Nat) :
    Reads number ([separator indent level].intercalate parts) before after := by
  induction all with
  | nil => exact absurd rfl some
  | @cons part parts before between after first rest ih =>
      obtain ⟨filling, shown⟩ := separator_filling indent level
      cases parts with
      | nil =>
          cases rest
          rw [List.intercalate_singleton]
          exact first
      | cons next parts =>
          rw [List.intercalate_cons_cons]
          exact first.join filling shown (ih (List.cons_ne_nil _ _))

theorem enclosed {parts : List (List String)} {opening closing : String} {opened filled : Unclosed}
    {unclosed : List Unclosed} (all : ReadsAll number parts (opened :: unclosed) (filled :: unclosed))
    (opens : Reader.feed number ⟨.between, unclosed⟩ opening.toList = ⟨.between, opened :: unclosed⟩)
    (closes : ∀ (r : Reader) (inner : List Unclosed), r.Between number inner →
      r.feed number closing.toList = ⟨.between, close inner⟩)
    (indent : Option Nat) (level : Nat) :
    Reads number (enclose indent level opening closing parts) unclosed (put filled.closed unclosed) := by
  rw [enclose]
  cases parts with
  | nil =>
      cases all
      have closed := closes ⟨.between, opened :: unclosed⟩ _ (Reader.between_settled _)
      simp only [List.isEmpty_nil, if_true, Reads, List.flatMap_cons, List.flatMap_nil, List.append_nil,
        Reader.feed_append, opens, closed]
      rfl
  | cons part parts =>
      have inside := all.joined (List.cons_ne_nil _ _) indent (level + 1)
      have apart : Reader.feed number ⟨.between, opened :: unclosed⟩ (lineBreak indent (level + 1)).toList = _ :=
        Reader.feed_filling (lineBreak_filling indent (level + 1)) (opened :: unclosed)
      have last := (Reader.Between.filling inside (lineBreak_filling indent level)).1
      simp only [List.isEmpty_cons, Bool.false_eq_true, if_false, Reads, List.flatMap_cons, List.flatMap_append,
        List.flatMap_nil, List.append_nil, Reader.feed_append, opens, apart, closes _ _ last]
      rfl

end ReadsAll

def isPlain (c : Char) : Bool := !isDelimiter c && c != 'l' && c != 'u'

theorem isPlain_of_numeric {c : Char} (numeric : Decimal.isNumeric c = true) : isPlain c = true := by
  have foreign : ['"', '[', ']', '\x7b', '\x7d', ',', ':', ' ', '\n', 'l', 'u'].all (fun d => !Decimal.isNumeric d) := by
    decide
  have absent {d : Char} (member : d ∈ ['"', '[', ']', '\x7b', '\x7d', ',', ':', ' ', '\n', 'l', 'u']) : c ≠ d := by
    rintro rfl
    have other := List.all_eq_true.mp foreign c member
    rw [numeric] at other
    cases other
  simp [isPlain, isDelimiter, absent]

theorem numberText_plain (x : Float) : (numberText x).toList.all isPlain = true ∧ (numberText x).toList ≠ [] := by
  rw [numberText]
  cases shape : Binary64.decode x with
  | nan => exact (by decide : "NaN".toList.all isPlain = true ∧ "NaN".toList ≠ [])
  | infinite negative =>
      cases negative with
      | true => exact (by decide : "-Infinity".toList.all isPlain = true ∧ "-Infinity".toList ≠ [])
      | false => exact (by decide : "Infinity".toList.all isPlain = true ∧ "Infinity".toList ≠ [])
  | finite negative mantissa exponent =>
      obtain ⟨numeric, some⟩ := Decimal.text_numeric shape
      exact ⟨List.all_eq_true.mpr fun c member => isPlain_of_numeric (numeric c member), some⟩

theorem ofWord_plain {s : String} (plain : s.toList.all isPlain = true) :
    ofWord number s.toList = .number (number s) := by
  have other (word : List Char) (letter : Char) (member : letter ∈ word) (foreign : isPlain letter = false) :
      s.toList ≠ word := by
    rintro rfl
    exact Bool.false_ne_true (foreign.symm.trans (List.all_eq_true.mp plain letter member))
  rw [ofWord, if_neg (other _ 'l' (by decide) (by decide)), if_neg (other _ 'u' (by decide) (by decide)),
    if_neg (other _ 'l' (by decide) (by decide)), String.ofList_toList]

theorem reads_word {word : String} (plain : word.toList.all (fun c => !isDelimiter c) = true)
    (some : word.toList ≠ []) (unclosed : List Unclosed) :
    Reads number [word] unclosed (put (ofWord number word.toList) unclosed) := by
  rw [Reads, List.flatMap_singleton]
  exact Reader.word_read (fun c member => by simpa using List.all_eq_true.mp plain c member) some unclosed

theorem reads_number (x : Float) (unclosed : List Unclosed) :
    Reads number [numberText x] unclosed (put (.number (number (numberText x))) unclosed) := by
  obtain ⟨plain, some⟩ := numberText_plain x
  have read : Reads number [numberText x] unclosed _ := reads_word (List.all_eq_true.mpr fun c member => by
    have whole := List.all_eq_true.mp plain c member
    rw [isPlain, Bool.and_assoc, Bool.and_eq_true] at whole
    exact whole.1) some unclosed
  rwa [ofWord_plain plain] at read

variable {f : Float → Float} {indent : Option Nat}

mutual

theorem reads_pieces (d : Dump) (known : d.Numbers fun x => number (numberText x) = f x) (level : Nat)
    (unclosed : List Unclosed) : Reads number (d.pieces indent level) unclosed (put (d.mapNumbers f) unclosed) := by
  cases d with
  | null => exact reads_word (by decide) (by decide) unclosed
  | bool value => cases value <;> exact reads_word (by decide) (by decide) unclosed
  | number value =>
      have read : Reads number [numberText value] unclosed _ := reads_number value unclosed
      rw [known] at read
      exact read
  | text value =>
      rw [pieces, Reads, List.flatMap_singleton, Reader.feed_quote]
      rfl
  | list items =>
      rw [pieces]
      refine (reads_items items known (level + 1) [] unclosed).enclosed rfl (fun r inner between => ?_) indent level
      exact between.step_eq rfl
  | record fields =>
      rw [pieces]
      refine (reads_fields fields known (level + 1) [] unclosed).enclosed rfl (fun r inner between => ?_) indent level
      exact between.step_eq rfl

theorem reads_items (items : List Dump) (known : NumbersIn (fun x => number (numberText x) = f x) items) (level : Nat)
    (earlier : List Dump) (unclosed : List Unclosed) :
    ReadsAll number (itemPieces indent level items) (.list earlier :: unclosed)
      (.list (earlier ++ mapItems f items) :: unclosed) := by
  cases items with
  | nil =>
      rw [mapItems, List.append_nil]
      exact .nil
  | cons item items =>
      obtain ⟨first, rest⟩ := known
      have more := reads_items items rest level (earlier ++ [item.mapNumbers f]) unclosed
      rw [List.append_assoc, List.singleton_append] at more
      exact .cons (reads_pieces item first level _) more

theorem reads_fields (fields : List (String × Dump))
    (known : NumbersOf (fun x => number (numberText x) = f x) fields) (level : Nat)
    (earlier : List (String × Dump)) (unclosed : List Unclosed) :
    ReadsAll number (fieldPieces indent level fields) (.record earlier none :: unclosed)
      (.record (earlier ++ mapFields f fields) none :: unclosed) := by
  cases fields with
  | nil =>
      rw [mapFields, List.append_nil]
      exact .nil
  | cons field fields =>
      obtain ⟨key, value⟩ := field
      obtain ⟨first, rest⟩ := known
      have more := reads_fields fields rest level (earlier ++ [(key, value.mapNumbers f)]) unclosed
      rw [List.append_assoc, List.singleton_append] at more
      have named : Reads number [quote key] (.record earlier none :: unclosed)
          (.record earlier (some key) :: unclosed) := by
        rw [Reads, List.flatMap_singleton, Reader.feed_quote]
        rfl
      have valued := reads_pieces value first level (.record earlier (some key) :: unclosed)
      refine .cons (named.join ?_ ?_ valued) more
      · simp [Reader.Filling]
      · simp

end

theorem read?_render {d : Dump} (known : d.Numbers fun x => number (numberText x) = f x) (indent : Option Nat) :
    read? number (d.render indent) = some (d.mapNumbers f) := by
  have read : Reads number (d.pieces indent 0) [.list []] [.list [d.mapNumbers f]] := reads_pieces d known 0 [.list []]
  rw [read?, render, String.toList_join, read]

end Dump

end Trampoline
