import DxApi.Lib.Search
import Mathlib.Data.Nat.Notation
import Mathlib.Tactic.ByContra

/-!
# Zero-terminated strings

A string in memory ends before the first zero byte. A `CString` is what stands before it.
-/

namespace DxApi

/-- The bytes of a string, without the zero behind them. -/
structure CString where
  bytes : List UInt8
  nonzero : 0 ∉ bytes
  deriving DecidableEq, Repr

namespace CString

/-- The string at the beginning of some memory. -/
def untilZero (memory : List UInt8) : List UInt8 := memory.takeWhile (· ≠ 0)

@[simp]
theorem untilZero_nil : untilZero [] = [] := rfl

theorem untilZero_cons (c : UInt8) (memory : List UInt8) :
    untilZero (c :: memory) = if c = 0 then [] else c :: untilZero memory := by
  rw [untilZero, List.takeWhile_cons]
  by_cases hc : c = 0 <;> simp [hc, untilZero]

theorem untilZero_append {text : List UInt8} (htext : 0 ∉ text) (rest : List UInt8) :
    untilZero (text ++ rest) = text ++ untilZero rest := by
  rw [untilZero, List.takeWhile_append_of_pos]
  · rfl
  · intro c hc
    have hne : c ≠ 0 := fun hzero ↦ htext (hzero ▸ hc)
    simpa using hne

theorem zero_not_mem_untilZero (memory : List UInt8) : 0 ∉ untilZero memory := by
  intro hzero
  have hall : (untilZero memory).all (· ≠ 0) := List.all_takeWhile
  have hne := List.all_eq_true.mp hall 0 hzero
  simp at hne

@[simp]
theorem untilZero_bytes (s : CString) : untilZero s.bytes = s.bytes := by
  have h := untilZero_append s.nonzero []
  simpa [untilZero] using h

/-- Behind a string stands its zero, or the memory ends. -/
theorem untilZero_drop (memory : List UInt8) : untilZero (memory.drop (untilZero memory).length) = [] := by
  induction memory with
  | nil => rfl
  | cons c memory ih =>
    by_cases hc : c = 0
    · subst hc
      rfl
    · have hcons : untilZero (c :: memory) = c :: untilZero memory := List.takeWhile_cons_of_pos (by simpa using hc)
      rw [hcons, List.length_cons, List.drop_succ_cons]
      exact ih

theorem untilZero_append_drop (memory : List UInt8) :
    untilZero memory ++ memory.drop (untilZero memory).length = memory := by
  have hprefix : untilZero memory <+: memory := List.takeWhile_prefix _
  calc
    untilZero memory ++ memory.drop (untilZero memory).length =
        memory.take (untilZero memory).length ++ memory.drop (untilZero memory).length := by
      rw [← List.prefix_iff_eq_take.mp hprefix]
    _ = memory := List.take_append_drop _ _

/-! ## Memory -/

/-- `memcpy` to a place. -/
def memcpy (memory : List UInt8) (place : ℕ) (bytes : List UInt8) : List UInt8 :=
  memory.take place ++ bytes ++ memory.drop (place + bytes.length)

theorem memcpy_nil (memory : List UInt8) (place : ℕ) : memcpy memory place [] = memory := by
  rw [memcpy, List.append_nil, List.length_nil, Nat.add_zero, List.take_append_drop]

/-- As many bytes are overwritten as are copied. -/
theorem memcpy_append {before old bytes after : List UInt8} (hlength : bytes.length = old.length) :
    memcpy (before ++ (old ++ after)) before.length bytes = before ++ (bytes ++ after) := by
  rw [memcpy, List.take_left, ← List.drop_drop, List.drop_left, hlength, List.drop_left, List.append_assoc]

/-- `strstr`: the first place of a text in the string at the beginning of some memory. -/
def strstr (memory needle : List UInt8) : Option ℕ := Search.find needle (untilZero memory)

/-! ## Characters -/

/-- `strchr`: the first place of a character, which may be the zero behind the string. -/
def strchr (s : List UInt8) (c : UInt8) : Option ℕ := (s ++ [0]).findIdx? (· == c)

variable {s : List UInt8} {c : UInt8} {place : ℕ}

theorem strchr_eq_none (h : strchr s c = none) : c ∉ s := by
  rw [strchr, List.findIdx?_eq_none_iff] at h
  intro hmem
  have hne := h c (List.mem_append_left _ hmem)
  simp at hne

theorem strchr_eq_some (hc : c ≠ 0) (h : strchr s c = some place) :
    ∃ before after, s = before ++ c :: after ∧ c ∉ before ∧ place = before.length := by
  rw [strchr, List.findIdx?_eq_some_iff_getElem] at h
  obtain ⟨hlt, hhere, hbefore⟩ := h
  have hplace : place < s.length := by
    by_contra hge
    rw [List.length_append, List.length_singleton] at hlt
    have heq : place = s.length := by omega
    subst heq
    rw [List.getElem_concat_length rfl] at hhere
    exact hc (eq_of_beq hhere).symm
  rw [List.getElem_append_left hplace] at hhere
  refine ⟨s.take place, s.drop (place + 1), ?_, ?_, ?_⟩
  · have hdrop := List.drop_eq_getElem_cons hplace
    rw [eq_of_beq hhere] at hdrop
    rw [← hdrop, List.take_append_drop]
  · intro hmem
    obtain ⟨i, hi, hget⟩ := List.mem_iff_getElem.mp hmem
    rw [List.length_take] at hi
    have hne := hbefore i (by omega)
    rw [List.getElem_take] at hget
    rw [List.getElem_append_left (by omega), hget] at hne
    simp at hne
  · rw [List.length_take]
    omega

end CString

end DxApi
