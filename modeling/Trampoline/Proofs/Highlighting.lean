import Trampoline.Prompt.Highlight
import Trampoline.Proofs.Splitting
import Trampoline.Value.Basic

set_option autoImplicit false

namespace Trampoline.Prompt

def styles (fs : List Fragment) : List String := fs.flatMap fun f => List.replicate f.text.length f.style

def textOf (fs : List Fragment) : List Char := fs.flatMap Fragment.text

section Fragments

variable (f : Fragment) (fs gs : List Fragment)

theorem styles_append : styles (fs ++ gs) = styles fs ++ styles gs := List.flatMap_append

theorem styles_cons : styles (f :: fs) = List.replicate f.text.length f.style ++ styles fs := List.flatMap_cons

theorem length_styles : (styles fs).length = (textOf fs).length := by
  simp [styles, textOf, List.length_flatMap]

end Fragments

section Gaps

variable (cs : List Char)

theorem textOf_gap : textOf (gap cs) = cs := by
  unfold gap
  split
  · simp [textOf, List.takeWhile_append_dropWhile]
  · simp [textOf]

theorem textOf_gapIfAny : textOf (gapIfAny cs) = cs := by
  unfold gapIfAny
  split
  · rename_i empty
    exact (List.isEmpty_iff.mp empty).symm
  · exact textOf_gap cs

theorem styles_gap {k : Nat} (inside : k < cs.length) :
    (styles (gap cs))[k]? = some (if '#' ∈ cs.take (k + 1) then Group.comment.style else "") := by
  by_cases sign : '#' ∈ cs
  · obtain ⟨lead, body, rfl, unsigned⟩ := List.eq_append_cons_of_mem sign
    have before : ∀ c ∈ lead, (c != '#') = true := by
      intro c member
      exact bne_iff_ne.mpr fun same => unsigned (same ▸ member)
    have stops : ('#' :: body).head?.any (· != '#') = false := rfl
    obtain ⟨front, behind⟩ := Lexeme.takeWhile_run before stops
    have shape : styles (gap (lead ++ '#' :: body)) =
        List.replicate lead.length "" ++ List.replicate ('#' :: body).length Group.comment.style := by
      simp only [gap, List.contains_iff_mem.mpr sign, if_true, front, behind, styles, List.flatMap_cons,
        List.flatMap_nil, List.append_nil]
    rw [shape]
    by_cases early : k < lead.length
    · have unseen : '#' ∉ (lead ++ '#' :: body).take (k + 1) := by
        rw [List.take_append_of_le_length early]
        exact fun member => unsigned (List.mem_of_mem_take member)
      rw [if_neg unseen, List.getElem?_append_left (by simpa using early), List.getElem?_replicate, if_pos early]
    · have seen : '#' ∈ (lead ++ '#' :: body).take (k + 1) := by
        obtain ⟨m, rfl⟩ := Nat.exists_eq_add_of_le (Nat.le_of_not_lt early)
        rw [Nat.add_assoc, List.take_length_add_append]
        exact List.mem_append_right lead List.mem_cons_self
      rw [List.length_append] at inside
      rw [if_pos seen, List.getElem?_append_right (by simpa using early), List.length_replicate,
        List.getElem?_replicate, if_pos (by omega)]
  · have unseen : '#' ∉ cs.take (k + 1) := fun member => sign (List.mem_of_mem_take member)
    have plain : styles (gap cs) = List.replicate cs.length "" := by
      have none : cs.contains '#' = false := by simpa using sign
      simp only [gap, none, Bool.false_eq_true, if_false, styles, List.flatMap_cons, List.flatMap_nil,
        List.append_nil]
    rw [if_neg unseen, plain, List.getElem?_replicate, if_pos inside]

theorem styles_gapIfAny {k : Nat} (inside : k < cs.length) :
    (styles (gapIfAny cs))[k]? = some (if '#' ∈ cs.take (k + 1) then Group.comment.style else "") := by
  have some : cs.isEmpty = false := by
    cases cs with
    | nil => cases inside
    | cons _ _ => rfl
  simp only [gapIfAny, some, Bool.false_eq_true, if_false]
  exact styles_gap cs inside

end Gaps

theorem groupOf_name_iff (mode : Mode) (x : String) :
    groupOf (.name x) = .function ↔ x ∈ (Builtin.library mode).map Builtin.name := by
  have listed : (Builtin.library mode).map Builtin.name = builtinNames := rfl
  rw [listed, groupOf]
  by_cases known : x ∈ builtinNames
  · simp [known]
  · simp [known]

theorem groupOf_style_ne_comment (l : Lexeme) : (groupOf l).style ≠ Group.comment.style := by
  cases l with
  | keyword w => cases w <;> decide
  | name x =>
      simp only [groupOf]
      split <;> decide
  | _ => simp only [groupOf]; decide

structure Laid (cs : List Char) (offset : Nat) (ts : List Token) : Prop where
  spans : ∀ t ∈ ts, offset ≤ t.start.offset ∧ t.start.offset < t.stop.offset ∧ t.stop.offset ≤ cs.length
  ordered : ts.Pairwise fun s t => s.stop.offset ≤ t.start.offset

namespace Laid

variable {cs : List Char} {offset : Nat} {t : Token} {ts : List Token}

theorem tail (laid : Laid cs offset (t :: ts)) : Laid cs t.stop.offset ts := by
  obtain ⟨after, ordered⟩ := List.pairwise_cons.mp laid.ordered
  exact ⟨fun s member => ⟨after s member, (laid.spans s (.tail _ member)).2⟩, ordered⟩

theorem fragmentsFrom_cons (laid : Laid cs offset (t :: ts)) :
    fragmentsFrom offset (cs.drop offset) (t :: ts) =
      gapIfAny ((cs.drop offset).take (t.start.offset - offset)) ++
        ⟨(groupOf t.lexeme).style, t.slice cs⟩ :: fragmentsFrom t.stop.offset (cs.drop t.stop.offset) ts := by
  obtain ⟨past, long, _⟩ := laid.spans t List.mem_cons_self
  simp only [fragmentsFrom, List.drop_drop, Token.slice, Nat.add_sub_cancel' past,
    Nat.add_sub_cancel' (Nat.le_of_lt long)]

theorem length_lead (laid : Laid cs offset (t :: ts)) :
    ((cs.drop offset).take (t.start.offset - offset)).length = t.start.offset - offset := by
  obtain ⟨past, long, fits⟩ := laid.spans t List.mem_cons_self
  rw [List.length_take, List.length_drop]
  omega

theorem length_slice (laid : Laid cs offset (t :: ts)) :
    (t.slice cs).length = t.stop.offset - t.start.offset := by
  obtain ⟨past, long, fits⟩ := laid.spans t List.mem_cons_self
  rw [Token.slice, List.length_take, List.length_drop]
  omega

end Laid

def SignBehind (cs : List Char) (ts : List Token) (offset i : Nat) : Prop :=
  ∃ j, offset ≤ j ∧ j ≤ i ∧ cs[j]? = some '#' ∧ ∀ k, j ≤ k → k ≤ i → ∀ t ∈ ts, ¬ t.Covers k

section Signs

variable {cs : List Char} {offset i : Nat} {t : Token} {ts : List Token}

theorem mem_take_drop (past : offset ≤ i) :
    '#' ∈ (cs.drop offset).take (i - offset + 1) ↔ ∃ j, offset ≤ j ∧ j ≤ i ∧ cs[j]? = some '#' := by
  rw [List.mem_iff_getElem?]
  constructor
  · rintro ⟨k, found⟩
    rw [List.getElem?_take] at found
    split at found
    · rw [List.getElem?_drop] at found
      exact ⟨offset + k, by omega, by omega, found⟩
    · cases found
  · rintro ⟨j, low, high, sign⟩
    refine ⟨j - offset, ?_⟩
    rw [List.getElem?_take, if_pos (by omega), List.getElem?_drop, Nat.add_sub_cancel' low]
    exact sign

theorem signBehind_free (past : offset ≤ i) (free : ∀ k ≤ i, ∀ t ∈ ts, ¬ t.Covers k) :
    SignBehind cs ts offset i ↔ '#' ∈ (cs.drop offset).take (i - offset + 1) := by
  rw [mem_take_drop past]
  constructor
  · rintro ⟨j, low, high, sign, _⟩
    exact ⟨j, low, high, sign⟩
  · rintro ⟨j, low, high, sign⟩
    exact ⟨j, low, high, sign, fun k _ last => free k last⟩

theorem signBehind_cons (laid : Laid cs offset (t :: ts)) (past : t.stop.offset ≤ i) :
    SignBehind cs (t :: ts) offset i ↔ SignBehind cs ts t.stop.offset i := by
  obtain ⟨begins, long, _⟩ := laid.spans t List.mem_cons_self
  constructor
  · rintro ⟨j, low, high, sign, free⟩
    refine ⟨j, ?_, high, sign, fun k first last s member => free k first last s (.tail _ member)⟩
    refine Nat.le_of_not_lt fun early => ?_
    -- the last character of the token would be behind the sign
    by_cases inside : t.start.offset ≤ j
    · exact free j (Nat.le_refl j) high t List.mem_cons_self ⟨inside, early⟩
    · exact free t.start.offset (by omega) (by omega) t List.mem_cons_self ⟨Nat.le_refl _, long⟩
  · rintro ⟨j, low, high, sign, free⟩
    refine ⟨j, by omega, high, sign, fun k first last => List.forall_mem_cons.mpr ⟨?_, free k first last⟩⟩
    intro covers
    have early := covers.2
    omega

end Signs

-- What the style of a character says about it.
structure Marks (cs : List Char) (ts : List Token) (offset i : Nat) (style : String) : Prop where
  comment : style = Group.comment.style ↔ SignBehind cs ts offset i
  plain : (∀ t ∈ ts, ¬ t.Covers i) → ¬ SignBehind cs ts offset i → style = ""

theorem marks_gap {cs : List Char} {offset i : Nat} {ts : List Token} (past : offset ≤ i)
    (free : ∀ k ≤ i, ∀ t ∈ ts, ¬ t.Covers k) :
    Marks cs ts offset i (if '#' ∈ (cs.drop offset).take (i - offset + 1) then Group.comment.style else "") := by
  have behind : SignBehind cs ts offset i ↔ _ := signBehind_free past free
  split
  · rename_i sign
    exact ⟨⟨fun _ => behind.mpr sign, fun _ => rfl⟩, fun _ unsigned => absurd (behind.mpr sign) unsigned⟩
  · rename_i unsigned
    exact ⟨⟨fun same => absurd same (by decide), fun sign => absurd (behind.mp sign) unsigned⟩, fun _ _ => rfl⟩

theorem Laid.marks {cs : List Char} {offset i : Nat} {ts : List Token} (laid : Laid cs offset ts)
    (past : offset ≤ i) (inside : i < cs.length) : ∃ style,
    (styles (fragmentsFrom offset (cs.drop offset) ts))[i - offset]? = some style ∧ Marks cs ts offset i style := by
  induction ts generalizing offset with
  | nil =>
      have short : i - offset < (cs.drop offset).length := by
        rw [List.length_drop]
        omega
      exact ⟨_, styles_gapIfAny _ short, marks_gap past (by simp)⟩
  | cons t ts ih =>
      obtain ⟨begins, long, fits⟩ := laid.spans t List.mem_cons_self
      have lead : (styles (gapIfAny ((cs.drop offset).take (t.start.offset - offset)))).length =
          t.start.offset - offset := by
        rw [length_styles, textOf_gapIfAny, laid.length_lead]
      rw [laid.fragmentsFrom_cons, styles_append, styles_cons]
      by_cases before : i < t.start.offset
      · -- in front of the first token
        have free : ∀ k ≤ i, ∀ s ∈ t :: ts, ¬ s.Covers k := by
          intro k early s member covers
          have reached := covers.1
          rcases List.mem_cons.mp member with rfl | later
          · omega
          · have behind := (laid.tail.spans s later).1
            omega
        have short : i - offset < ((cs.drop offset).take (t.start.offset - offset)).length := by
          rw [laid.length_lead]
          omega
        refine ⟨_, (List.getElem?_append_left (by omega)).trans (styles_gapIfAny _ short), ?_⟩
        rw [List.take_take, Nat.min_eq_left (by omega)]
        exact marks_gap past free
      · rw [List.getElem?_append_right (by omega), lead]
        by_cases within : i < t.stop.offset
        · have covers : t.Covers i := ⟨by omega, within⟩
          refine ⟨(groupOf t.lexeme).style, ?_, ⟨fun same => absurd same (groupOf_style_ne_comment _), ?_⟩, ?_⟩
          · rw [List.getElem?_append_left (by rw [List.length_replicate, laid.length_slice]; omega),
              List.getElem?_replicate, if_pos (by rw [laid.length_slice]; omega)]
          · rintro ⟨j, _, high, _, free⟩
            exact absurd covers (free i high (Nat.le_refl i) t List.mem_cons_self)
          · intro free
            exact absurd covers (free t List.mem_cons_self)
        · have past' : t.stop.offset ≤ i := by omega
          obtain ⟨style, found, comment, plain⟩ := ih laid.tail past'
          refine ⟨style, ?_, ⟨comment.trans (signBehind_cons laid past').symm, ?_⟩⟩
          · rw [List.getElem?_append_right (by rw [List.length_replicate, laid.length_slice]; omega),
              List.length_replicate, laid.length_slice, ← found]
            congr 1
            omega
          · intro free unsigned
            rw [signBehind_cons laid past'] at unsigned
            exact plain (fun s member => free s (.tail _ member)) unsigned

end Trampoline.Prompt
