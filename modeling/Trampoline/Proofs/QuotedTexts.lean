import Trampoline.Text.Quoted
import Trampoline.Proofs.DumpReader

set_option autoImplicit false

namespace Trampoline.Text

open Dump (hexValue hexValue_hex length_hex)

def digitsBehind (mark : Char) : Option Nat :=
  if mark = 'x' then some 2 else if mark = 'u' then some 4 else if mark = 'U' then some 8 else none

def shorthand (mark : Char) : Char :=
  if mark = 'n' then '\n' else if mark = 'r' then '\r' else if mark = 't' then '\t' else mark

def unescape : List Char → Option (Char × List Char)
  | [] => none
  | c :: cs =>
      if c = '\\' then
        match cs with
        | [] => none
        | mark :: rest =>
            match digitsBehind mark with
            | some width => some (Char.ofNat (hexValue (rest.take width)), rest.drop width)
            | none => some (shorthand mark, rest)
      else some (c, cs)

theorem unescape_numericEscape (c : Char) (rest : List Char) :
    unescape (numericEscape c ++ rest) = some (c, rest) := by
  have coded {mark : Char} {width : Nat} (behind : digitsBehind mark = some width)
      (fits : (Nat.toDigits 16 c.toNat).length ≤ width) :
      unescape ('\\' :: mark :: hex width c.toNat ++ rest) = some (c, rest) := by
    have wide := length_hex fits
    have front : (hex width c.toNat ++ rest).take width = hex width c.toNat := List.take_left' wide
    have back : (hex width c.toNat ++ rest).drop width = rest := List.drop_left' wide
    simp only [List.cons_append, unescape, if_true, behind, front, back, hexValue_hex, Char.ofNat_toNat]
  have short (k : Nat) (some : 0 < k) := Nat.length_toDigits_le_iff (n := c.toNat) (show 1 < 16 by decide) some
  have bound : c.toNat < 4294967296 := c.val.toNat_lt
  simp only [numericEscape]
  split
  · exact coded rfl ((short 2 (by decide)).mpr (by omega))
  · split
    · exact coded rfl ((short 4 (by decide)).mpr (by omega))
    · exact coded rfl ((short 8 (by decide)).mpr (by omega))

theorem newline_notMem_toDigits (n : Nat) : '\n' ∉ Nat.toDigits 16 n := by
  induction n using Nat.strongRecOn with
  | ind n ih =>
      have apart (d : Nat) : '\n' ∉ [d.digitChar] := fun member =>
        Nat.digitChar_ne '\n' rfl (List.mem_singleton.mp member).symm
      by_cases small : n < 16
      · rw [Nat.toDigits_of_lt_base small]
        exact apart n
      · rw [Nat.toDigits_of_base_le (by decide) (Nat.le_of_not_lt small)]
        intro member
        exact (List.mem_append.mp member).elim (ih _ (by omega)) (apart _)

theorem newline_notMem_numericEscape (c : Char) : '\n' ∉ numericEscape c := by
  have coded {mark : Char} {width : Nat} (other : '\n' ≠ mark) : '\n' ∉ '\\' :: mark :: hex width c.toNat := by
    refine List.not_mem_cons_of_ne_of_not_mem (by decide) (List.not_mem_cons_of_ne_of_not_mem other ?_)
    intro member
    rcases List.mem_append.mp member with zero | digit
    · exact absurd (List.eq_of_mem_replicate zero) (by decide)
    · exact newline_notMem_toDigits c.toNat digit
  simp only [numericEscape]
  split
  · exact coded (by decide)
  · split <;> exact coded (by decide)

section Quotes

variable {quote : Char} (mark : quote = '\'' ∨ quote = '"')

include mark

theorem unescape_escape (c : Char) (rest : List Char) : unescape (escape quote c ++ rest) = some (c, rest) := by
  unfold escape
  split
  · rename_i special
    have plain : c = '\'' ∨ c = '"' ∨ c = '\\' := by
      rcases Bool.or_eq_true_iff.mp special with same | same
      · rw [beq_iff_eq.mp same]
        exact mark.imp_right .inl
      · exact .inr (.inr (beq_iff_eq.mp same))
    rcases plain with rfl | rfl | rfl <;> rfl
  split
  · rename_i line
    rw [beq_iff_eq.mp line]
    rfl
  split
  · rename_i line
    rw [beq_iff_eq.mp line]
    rfl
  split
  · rename_i tab
    rw [beq_iff_eq.mp tab]
    rfl
  split
  · rename_i ordinary _ _ _ _
    have other : c ≠ '\\' := fun same => ordinary (by rw [same, beq_self_eq_true, Bool.or_true])
    simp only [List.singleton_append, unescape, if_neg other]
  · exact unescape_numericEscape c rest

theorem escapes_injective {cs ds : List Char} (same : cs.flatMap (escape quote) = ds.flatMap (escape quote)) :
    cs = ds := by
  induction cs generalizing ds with
  | nil =>
      cases ds with
      | nil => rfl
      | cons d ds =>
          have first := unescape_escape mark d (ds.flatMap (escape quote))
          rw [← List.flatMap_cons, ← same] at first
          cases first
  | cons c cs ih =>
      have first := unescape_escape mark c (cs.flatMap (escape quote))
      rw [← List.flatMap_cons, same] at first
      cases ds with
      | nil => cases first
      | cons d ds =>
          rw [List.flatMap_cons, unescape_escape mark] at first
          obtain ⟨char, others⟩ := Prod.mk.inj (Option.some.inj first)
          rw [char, ih others.symm]

theorem newline_notMem_escape (c : Char) : '\n' ∉ escape quote c := by
  unfold escape
  split
  · rename_i special
    rcases Bool.or_eq_true_iff.mp special with same | same
    · rw [beq_iff_eq.mp same]
      rcases mark with rfl | rfl <;> decide
    · rw [beq_iff_eq.mp same]
      decide
  split
  · decide
  split
  · decide
  split
  · decide
  split
  · rename_i shown
    intro member
    rw [← List.mem_singleton.mp member] at shown
    exact absurd shown (by decide)
  · exact newline_notMem_numericEscape c

end Quotes

theorem quoteFor_eq (cs : List Char) : quoteFor cs = '\'' ∨ quoteFor cs = '"' := by
  unfold quoteFor
  split
  · exact .inr rfl
  · exact .inl rfl

theorem quoted_injective {s t : String} (same : quoted s = quoted t) : s = t := by
  obtain ⟨quote, body⟩ := List.cons.inj (String.ofList_injective same)
  rw [quote] at body
  exact String.toList_inj.mp (escapes_injective (quoteFor_eq t.toList) (List.append_cancel_right body))

theorem newline_notMem_quoted (s : String) : '\n' ∉ (quoted s).toList := by
  have mark := quoteFor_eq s.toList
  rw [quoted, String.toList_ofList]
  intro member
  rcases List.mem_cons.mp member with same | member
  · rw [← same] at mark
    exact absurd mark (by decide)
  rcases List.mem_append.mp member with inside | last
  · obtain ⟨c, _, escaped⟩ := List.mem_flatMap.mp inside
    exact newline_notMem_escape mark c escaped
  · rw [← List.mem_singleton.mp last] at mark
    exact absurd mark (by decide)

end Trampoline.Text
