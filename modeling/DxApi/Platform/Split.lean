import DxApi.Lib.CString
import Mathlib.Order.Basic

/-!
# Splitting a string

`split` copies the parts of a string between its separators into an array, as many as the array has
room for; the last one is what is left of the string.
-/

namespace DxApi.Platform

open CString

/-- The loop of `split`, for the strings from the current one on: the strings as they are left, and how
many were written. Behind the end of a string nothing is read if the separator is not zero. -/
def splitFrom (separator : UInt8) : List (List UInt8) → ℕ → List UInt8 → List (List UInt8) × ℕ
  | [], i, _ => ([], i)
  | [_], i, src => ([src], i)
  | _ :: next :: strings, i, src =>
    match strchr src separator with
    | none => (src :: next :: strings, i)
    | some p =>
      let (later, n) := splitFrom separator (next :: strings) (i + 1) (src.drop (p + 1))
      (src.take p :: later, n)

/-- `split`; the array is `NULL` where it has no strings. -/
def split (strings : List (List UInt8)) (src : Option CString) (separator : UInt8) : List (List UInt8) × ℕ :=
  match src with
  | none => (strings, 0)
  | some src => if strings = [] then (strings, 0) else splitFrom separator strings 1 src.bytes

/-- The pieces make the text when they are joined, and only the last one may have a separator in it. -/
structure Pieces (separator : UInt8) (src : List UInt8) (pieces : List (List UInt8)) : Prop where
  joined : [separator].intercalate pieces = src
  cut : ∀ piece ∈ pieces.dropLast, separator ∉ piece

section

variable {separator : UInt8} {src before after : List UInt8} {pieces strings : List (List UInt8)}

theorem pieces_one (separator : UInt8) (src : List UInt8) : Pieces separator src [src] := by
  constructor
  · rw [List.intercalate_singleton]
  · exact fun piece hpiece ↦ absurd hpiece List.not_mem_nil

theorem Pieces.cons (h : Pieces separator after pieces) (hne : pieces ≠ []) (hbefore : separator ∉ before) :
    Pieces separator (before ++ separator :: after) (before :: pieces) := by
  constructor
  · rw [List.intercalate_cons_of_ne_nil hne, h.joined, List.append_assoc, List.singleton_append]
  · intro piece hpiece
    rw [List.dropLast_cons_of_ne_nil hne] at hpiece
    rcases List.mem_cons.mp hpiece with rfl | hpiece
    · exact hbefore
    · exact h.cut piece hpiece

/-- Induction on the strings that are left: each of them takes one piece. -/
theorem splitFrom_spec (hseparator : separator ≠ 0) (hstrings : strings ≠ []) (i : ℕ) (src : List UInt8) :
    ∃ pieces, splitFrom separator strings i src = (pieces ++ strings.drop pieces.length, i + pieces.length - 1) ∧
      pieces.length = min strings.length (1 + src.count separator) ∧ Pieces separator src pieces := by
  fun_induction splitFrom separator strings i src with
  | case1 => exact absurd rfl hstrings
  | case2 string i src =>
    refine ⟨[src], rfl, ?_, pieces_one separator src⟩
    rw [List.length_singleton, List.length_singleton]
    omega
  | case3 string next strings i src hnone =>
    refine ⟨[src], rfl, ?_, pieces_one separator src⟩
    rw [List.count_eq_zero.mpr (strchr_eq_none hnone)]
    simp only [List.length_cons, List.length_nil]
    omega
  | case4 string next strings i src p hsome later n hlater ih =>
    obtain ⟨before, after, rfl, hbefore, rfl⟩ := strchr_eq_some hseparator hsome
    obtain ⟨pieces, hpieces, hlength, hcut⟩ := ih (List.cons_ne_nil _ _)
    have hdrop : (before ++ separator :: after).drop (before.length + 1) = after := by
      rw [← List.drop_drop, List.drop_left, List.drop_one, List.tail_cons]
    rw [hdrop] at hpieces hlength hcut hlater
    have hne : pieces ≠ [] := by
      rintro rfl
      simp only [List.length_nil, List.length_cons] at hlength
      omega
    obtain ⟨rfl, rfl⟩ := Prod.mk.inj (hlater.symm.trans hpieces)
    refine ⟨before :: pieces, ?_, ?_, hcut.cons hne hbefore⟩
    · rw [List.take_left, List.length_cons]
      simp only [List.drop_succ_cons, List.cons_append]
      congr 1
      omega
    · rw [List.count_append, List.count_eq_zero.mpr hbefore, List.count_cons_self, List.length_cons, hlength]
      simp only [List.length_cons]
      omega

/-- The pieces are the first strings of the array then, and the other ones are as before. -/
theorem split_pieces (hseparator : separator ≠ 0) (hstrings : strings ≠ []) (src : CString) :
    ∃ pieces, split strings (some src) separator = (pieces ++ strings.drop pieces.length, pieces.length) ∧
      pieces.length = min strings.length (1 + src.bytes.count separator) ∧ Pieces separator src.bytes pieces := by
  obtain ⟨pieces, hpieces, hlength, hcut⟩ := splitFrom_spec hseparator hstrings 1 src.bytes
  refine ⟨pieces, ?_, hlength, hcut⟩
  rw [split, if_neg hstrings, hpieces, Nat.add_sub_cancel_left]

/-- A comma before the first character and one behind the last, and room for two pieces. -/
theorem split_pieces_two :
    ∃ pieces, split [[], []] (some ⟨[0x2C, 0x61, 0x2C], by decide⟩) 0x2C =
        (pieces ++ List.drop pieces.length [[], []], pieces.length) ∧
      pieces.length = min 2 (1 + [0x2C, 0x61, 0x2C].count 0x2C) ∧ Pieces 0x2C [0x2C, 0x61, 0x2C] pieces :=
  split_pieces (by decide) (List.cons_ne_nil _ _) ⟨[0x2C, 0x61, 0x2C], by decide⟩

end

end DxApi.Platform
