import DxApi.Lib.CString

/-!
# Replacing a text

Two functions replace a text wherever it occurs: one in place, with a text of the same length, and one
into another string. Both go on behind an occurrence by the length of the text that is replaced.
-/

namespace DxApi.Platform

open CString Search

/-! ## The source -/

inductive ReplaceError
  | notTerminated
  | lengthsDiffer
  | nullArgument
  deriving DecidableEq, Repr

/-- The loop of `replace_all` in place; nothing if it has not ended after so many steps. -/
def replaceInPlaceFrom (pattern replacement : List UInt8) : ℕ → List UInt8 → ℕ → Option (List UInt8)
  | 0, _, _ => none
  | steps + 1, memory, s =>
    match strstr (memory.drop s) pattern with
    | none => some memory
    | some ofs =>
      replaceInPlaceFrom pattern replacement steps (memcpy memory (s + ofs) replacement) (s + ofs + pattern.length)

/-- `replace_all` in place, on the memory at `s`. -/
def replaceAllInPlace (steps : ℕ) (memory : List UInt8) (n : ℕ) (pattern replacement : CString) :
    Option (Except ReplaceError (List UInt8)) :=
  if memory[n]? ≠ some 0 then some (.error .notTerminated)
  else if replacement.bytes.length ≠ pattern.bytes.length then some (.error .lengthsDiffer)
  else (replaceInPlaceFrom pattern.bytes replacement.bytes steps memory 0).map .ok

/-- The loop of `replace_all` into `dest`; nothing if it has not ended after so many steps. -/
def replaceFrom (pattern replacement : List UInt8) : ℕ → List UInt8 → List UInt8 → Option (List UInt8)
  | 0, _, _ => none
  | _ + 1, dest, [] => some dest
  | steps + 1, dest, c :: src =>
    if pattern <+: c :: src then
      replaceFrom pattern replacement steps (dest ++ replacement) ((c :: src).drop pattern.length)
    else replaceFrom pattern replacement steps (dest ++ [c]) src

/-- `replace_all` into `dest`, which is cleared. -/
def replaceAll (steps : ℕ) (dest : Option (List UInt8)) (src pattern replacement : Option CString) :
    Option (Except ReplaceError (List UInt8)) :=
  match dest, src, pattern, replacement with
  | some _, some src, some pattern, some replacement =>
    (replaceFrom pattern.bytes replacement.bytes steps [] src.bytes).map .ok
  | _, _, _, _ => some (.error .nullArgument)

/-! ## Texts that are not empty -/

variable {pattern replacement text done rest : List UInt8} {steps : ℕ}

/-- Each step passes an occurrence or a character. -/
theorem replaceFrom_spec (hpattern : pattern ≠ []) (hsteps : text.length < steps) (dest : List UInt8) :
    ∃ replaced, replaceFrom pattern replacement steps dest text = some (dest ++ replaced) ∧
      Replaced pattern replacement text replaced := by
  induction steps generalizing dest text with
  | zero => exact absurd hsteps (Nat.not_lt_zero _)
  | succ steps ih =>
    cases text with
    | nil => exact ⟨[], by rw [replaceFrom, List.append_nil], replaced_nil hpattern⟩
    | cons c src =>
      rw [replaceFrom]
      split_ifs with hprefix
      · obtain ⟨behind, hbehind⟩ := hprefix
        have hpositive := List.length_pos_iff.mpr hpattern
        have hlength : behind.length < steps := by
          have hsum := congrArg List.length hbehind
          rw [List.length_append] at hsum
          omega
        obtain ⟨replaced, hrun, hreplaced⟩ := ih hlength (dest ++ replacement)
        rw [← hbehind, List.drop_left]
        exact ⟨replacement ++ replaced, by rw [hrun, List.append_assoc], hreplaced.here hpattern⟩
      · obtain ⟨replaced, hrun, hreplaced⟩ := ih (Nat.lt_of_succ_lt_succ hsteps) (dest ++ [c])
        exact ⟨c :: replaced, by rw [hrun, List.append_assoc, List.singleton_append], hreplaced.later hprefix⟩

/-- What is in front of `s` was replaced before; each step passes what is up to the next occurrence. -/
theorem replaceInPlaceFrom_spec (hpattern : pattern ≠ []) (hlength : replacement.length = pattern.length)
    (htext : 0 ∉ text) (hrest : untilZero rest = []) (hsteps : text.length < steps) (done : List UInt8) :
    ∃ replaced,
      replaceInPlaceFrom pattern replacement steps (done ++ (text ++ rest)) done.length =
        some (done ++ (replaced ++ rest)) ∧
      Replaced pattern replacement text replaced := by
  induction steps generalizing done text with
  | zero => exact absurd hsteps (Nat.not_lt_zero _)
  | succ steps ih =>
    have hsearch : strstr ((done ++ (text ++ rest)).drop done.length) pattern = find pattern text := by
      rw [List.drop_left, strstr, untilZero_append htext, hrest, List.append_nil]
    rw [replaceInPlaceFrom, hsearch]
    cases hfind : find pattern text with
    | none => exact ⟨text, rfl, replaced_of_not_infix hpattern (find_eq_none_iff.mp hfind)⟩
    | some ofs =>
      obtain ⟨hofs, hfirst⟩ := find_eq_some_iff.mp hfind
      obtain ⟨behind, hbehind⟩ := hfirst.isPrefix
      obtain ⟨gap, hgap, rfl⟩ : ∃ gap, text = gap ++ pattern ++ behind ∧ ofs = gap.length := by
        refine ⟨text.take ofs, ?_, by rw [List.length_take, Nat.min_eq_left hofs]⟩
        rw [List.append_assoc, hbehind, List.take_append_drop]
      subst hgap
      have hcopied : memcpy (done ++ (gap ++ pattern ++ behind ++ rest)) (done.length + gap.length) replacement =
          done ++ gap ++ replacement ++ (behind ++ rest) := by
        calc
          memcpy (done ++ (gap ++ pattern ++ behind ++ rest)) (done.length + gap.length) replacement =
              memcpy ((done ++ gap) ++ (pattern ++ (behind ++ rest))) (done ++ gap).length replacement := by
            rw [List.length_append]
            simp only [List.append_assoc]
          _ = done ++ gap ++ replacement ++ (behind ++ rest) := by
            rw [memcpy_append hlength]
            simp only [List.append_assoc]
      have hplace : done.length + gap.length + pattern.length = (done ++ gap ++ replacement).length := by
        rw [List.length_append, List.length_append, hlength]
      have hbehind : 0 ∉ behind := fun hzero ↦ htext (List.mem_append_right _ hzero)
      have hpositive := List.length_pos_iff.mpr hpattern
      have hless : behind.length < steps := by
        rw [List.length_append, List.length_append] at hsteps
        omega
      obtain ⟨replaced, hrun, hreplaced⟩ := ih hbehind hless (done ++ gap ++ replacement)
      refine ⟨gap ++ replacement ++ replaced, ?_, hreplaced.first hpattern hfirst⟩
      calc
        replaceInPlaceFrom pattern replacement steps
            (memcpy (done ++ (gap ++ pattern ++ behind ++ rest)) (done.length + gap.length) replacement)
            (done.length + gap.length + pattern.length) =
            some (done ++ gap ++ replacement ++ (replaced ++ rest)) := by rw [hcopied, hplace, hrun]
        _ = some (done ++ (gap ++ replacement ++ replaced ++ rest)) := by simp only [List.append_assoc]

/-! ## The empty text -/

theorem strstr_nil (memory : List UInt8) : strstr memory [] = some 0 := by
  have hfirst : FirstAt [] (untilZero memory) 0 := ⟨List.nil_prefix, fun i hi ↦ absurd hi (Nat.not_lt_zero i)⟩
  exact find_eq_some_iff.mpr ⟨Nat.zero_le _, hfirst⟩

/-- The empty text is found at once, and the loop does not move. -/
theorem replaceInPlaceFrom_nil (steps : ℕ) (memory : List UInt8) (s : ℕ) :
    replaceInPlaceFrom [] [] steps memory s = none := by
  induction steps with
  | zero => rfl
  | succ steps ih =>
    calc
      replaceInPlaceFrom [] [] (steps + 1) memory s =
          replaceInPlaceFrom [] [] steps (memcpy memory (s + 0) []) (s + 0 + 0) := by
        rw [replaceInPlaceFrom, strstr_nil]
        rfl
      _ = none := by rw [memcpy_nil, Nat.add_zero, ih]

theorem replaceFrom_nil (htext : text ≠ []) (steps : ℕ) (dest : List UInt8) :
    replaceFrom [] replacement steps dest text = none := by
  induction steps generalizing dest with
  | zero => rfl
  | succ steps ih =>
    obtain ⟨c, src, rfl⟩ := List.exists_cons_of_ne_nil htext
    rw [replaceFrom, if_pos List.nil_prefix]
    exact ih _

/-! ## What the functions do -/

/-- The arguments of `replace_all` in place: the memory has a zero at `n`, and the texts have one length. -/
structure InPlaceArguments where
  memory : List UInt8
  n : ℕ
  pattern : CString
  replacement : CString
  terminated : memory[n]? = some 0
  sameLength : replacement.bytes.length = pattern.bytes.length

/-- The call ends, and the string in the memory has every occurrence replaced; what is behind it stays. -/
def InPlaceArguments.ReplacesAll (a : InPlaceArguments) : Prop :=
  ∃ steps replaced,
    replaceAllInPlace steps a.memory a.n a.pattern a.replacement =
      some (.ok (replaced ++ a.memory.drop (untilZero a.memory).length)) ∧
    Replaced a.pattern.bytes a.replacement.bytes (untilZero a.memory) replaced

/-- The call ends, and every occurrence is replaced. -/
def ReplacesAll (dest : List UInt8) (src pattern replacement : CString) : Prop :=
  ∃ steps result, replaceAll steps (some dest) (some src) (some pattern) (some replacement) = some (.ok result) ∧
    Replaced pattern.bytes replacement.bytes src.bytes result

theorem InPlaceArguments.run_eq (a : InPlaceArguments) (steps : ℕ) :
    replaceAllInPlace steps a.memory a.n a.pattern a.replacement =
      (replaceInPlaceFrom a.pattern.bytes a.replacement.bytes steps a.memory 0).map .ok := by
  rw [replaceAllInPlace, if_neg (not_not.mpr a.terminated), if_neg (not_not.mpr a.sameLength)]

theorem InPlaceArguments.replacesAll_iff (a : InPlaceArguments) : a.ReplacesAll ↔ a.pattern.bytes ≠ [] := by
  constructor
  · intro h hpattern
    obtain ⟨steps, replaced, hrun, -⟩ := h
    have hreplacement : a.replacement.bytes = [] := by
      rw [← List.length_eq_zero_iff, a.sameLength, hpattern, List.length_nil]
    rw [a.run_eq, hpattern, hreplacement, replaceInPlaceFrom_nil] at hrun
    cases hrun
  · intro hpattern
    obtain ⟨replaced, hrun, hreplaced⟩ := replaceInPlaceFrom_spec hpattern a.sameLength
      (zero_not_mem_untilZero a.memory) (untilZero_drop a.memory) (Nat.lt_succ_self _) []
    rw [List.nil_append, List.nil_append, List.length_nil, untilZero_append_drop] at hrun
    exact ⟨_, replaced, by rw [a.run_eq, hrun]; rfl, hreplaced⟩

theorem replacesAll_iff (dest : List UInt8) (src pattern replacement : CString) :
    ReplacesAll dest src pattern replacement ↔ pattern.bytes ≠ [] ∨ src.bytes = [] := by
  constructor
  · intro h
    obtain ⟨steps, result, hrun, -⟩ := h
    by_contra hnot
    obtain ⟨hpattern, hsrc⟩ := not_or.mp hnot
    rw [replaceAll, not_not.mp hpattern, replaceFrom_nil hsrc] at hrun
    cases hrun
  · intro h
    by_cases hpattern : pattern.bytes = []
    · have hsrc := h.resolve_left (not_not.mpr hpattern)
      refine ⟨1, [], ?_, ?_⟩
      · rw [replaceAll, hsrc]
        rfl
      · rw [Replaced, if_pos hpattern, hsrc]
    · obtain ⟨replaced, hrun, hreplaced⟩ := replaceFrom_spec hpattern (Nat.lt_succ_self src.bytes.length) []
      exact ⟨_, replaced, by rw [replaceAll, hrun]; rfl, hreplaced⟩

/-- Both functions do their work exactly if they are not asked to replace the empty text; only in an empty
text it can be replaced, in another string. -/
theorem replace_all_iff (a : InPlaceArguments) (dest : List UInt8) (src pattern replacement : CString) :
    (a.ReplacesAll ↔ a.pattern.bytes ≠ []) ∧
      (ReplacesAll dest src pattern replacement ↔ pattern.bytes ≠ [] ∨ src.bytes = []) :=
  ⟨a.replacesAll_iff, replacesAll_iff dest src pattern replacement⟩

/-- Replacing nothing in `a` does not end, in place or not. -/
theorem replace_all_hangs :
    (¬ ReplacesAll [] ⟨[0x61], by decide⟩ ⟨[], by decide⟩ ⟨[0x62], by decide⟩) ∧
    ¬ InPlaceArguments.ReplacesAll ⟨[0x61, 0], 1, ⟨[], by decide⟩, ⟨[], by decide⟩, by decide, by decide⟩ := by
  constructor
  · rintro ⟨steps, result, hrun, -⟩
    rw [replaceAll, replaceFrom_nil (List.cons_ne_nil _ _)] at hrun
    cases hrun
  · rintro ⟨steps, replaced, hrun, -⟩
    rw [InPlaceArguments.run_eq, replaceInPlaceFrom_nil] at hrun
    cases hrun

end DxApi.Platform
