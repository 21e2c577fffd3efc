import DxApi.Lib.CString
import DxApi.Net.Request

/-!
# The message of an error page

A server that is run by Tomcat answers a request that fails with a page. The message is looked for behind
the words that announce it: it is what stands between `<u>` and `</u>`. Of one that has no or one character
the search goes on with the next pair.
-/

namespace DxApi.Net

open CString Request Search

/-! ## The source -/

def messageText : List UInt8 := text "Status report</p><p><b>message</b>"

def underlineStart : List UInt8 := text "<u>"

def underlineEnd : List UInt8 := text "</u>"

/-- The loop of `tryExtractTomcatResponseMessage`, from `start`. -/
def extractFrom (start : List UInt8) : Option (List UInt8) :=
  match _hend : find underlineEnd start with
  | none => none
  | some stop =>
    match (find underlineStart start).filter fun first ↦ first < stop && 4 < stop - first with
    | some first => some ((start.take stop).drop (first + 3))
    | none => extractFrom (start.drop (stop + 3))
termination_by start.length
decreasing_by
  have hle := find_add_length_le _hend (by decide)
  have hlength : underlineEnd.length = 4 := by decide
  rw [List.length_drop]
  omega

/-- `tryExtractTomcatResponseMessage`: the message, if there is one. -/
def tryExtractTomcatResponseMessage (responseBody : List UInt8) : Option (List UInt8) :=
  (strstr responseBody messageText).bind fun start ↦ extractFrom ((untilZero responseBody).drop start)

/-! ## The parts of a page -/

/-- What a part in front of some `</u>` underlines, if it is more than one character. -/
def underlined (part : List UInt8) : Option (List UInt8) :=
  ((find underlineStart part).filter fun first ↦ first + 4 < part.length).map fun first ↦ part.drop (first + 3)

variable {start part rest : List UInt8} {parts : List (List UInt8)}

theorem extractFrom_of_none (h : find underlineEnd start = none) : extractFrom start = none := by
  rw [extractFrom]
  split
  · rfl
  · next stop hsome => exact absurd (h.symm.trans hsome) (Option.some_ne_none stop).symm

theorem extractFrom_of_some {stop : ℕ} (h : find underlineEnd start = some stop) :
    extractFrom start =
      (((find underlineStart start).filter fun first ↦ first < stop && 4 < stop - first).map fun first ↦
        (start.take stop).drop (first + 3)).or (extractFrom (start.drop (stop + 3))) := by
  rw [extractFrom]
  split
  · next hnone => exact absurd (hnone.symm.trans h) (Option.some_ne_none stop).symm
  · next found hsome =>
    obtain rfl : found = stop := Option.some.inj (hsome.symm.trans h)
    split
    · next first hfirst => rw [hfirst, Option.map_some, Option.some_or]
    · next hnone => rw [hnone, Option.map_none, Option.none_or]

/-- A character that does not begin a tag makes no difference. -/
theorem extractFrom_cons {c : UInt8} (hc : c ≠ 0x3C) : extractFrom (c :: start) = extractFrom start := by
  have hstart : ¬underlineStart <+: c :: start := fun h ↦ hc (List.cons_prefix_cons.mp h).1.symm
  have hstop : ¬underlineEnd <+: c :: start := fun h ↦ hc (List.cons_prefix_cons.mp h).1.symm
  have hfind := find_cons_of_not_prefix hstop
  cases hend : find underlineEnd start with
  | none =>
    rw [hend] at hfind
    rw [extractFrom_of_none hfind, extractFrom_of_none hend]
  | some stop =>
    rw [hend] at hfind
    rw [extractFrom_of_some hfind, extractFrom_of_some hend, find_cons_of_not_prefix hstart]
    cases find underlineStart start with
    | none => rfl
    | some first =>
      simp only [Option.map_some, Option.filter_some, Nat.add_lt_add_iff_right, Nat.add_sub_add_right]
      split <;> rfl

/-- In front of the first `</u>` only the part counts. -/
theorem find_underlined (part rest : List UInt8) :
    ((find underlineStart (part ++ underlineEnd ++ rest)).filter fun first ↦
        first < part.length && 4 < part.length - first) =
      (find underlineStart part).filter fun first ↦ first + 4 < part.length := by
  have hlength : underlineStart.length = 3 := by decide
  ext first
  simp only [Option.filter_eq_some_iff, find_eq_some_iff, Bool.and_eq_true, decide_eq_true_eq, List.append_assoc]
  constructor
  · rintro ⟨⟨-, hat⟩, hlt, hmore⟩
    rw [firstAt_append_iff (by omega)] at hat
    exact ⟨⟨by omega, hat⟩, by omega⟩
  · rintro ⟨⟨hle, hat⟩, hlt⟩
    rw [List.length_append, firstAt_append_iff (by omega)]
    exact ⟨⟨by omega, hat⟩, by omega, by omega⟩

/-- The parts are looked through in their order, but for the one that no `</u>` ends. -/
theorem extractFrom_eq (h : Gaps underlineEnd start parts) : extractFrom start = parts.dropLast.findSome? underlined := by
  induction h with
  | last hnone => exact extractFrom_of_none (find_eq_none_iff.mpr hnone)
  | @more part rest parts hfirst hrest ih =>
    have hfind : find underlineEnd (part ++ underlineEnd ++ rest) = some part.length := by
      rw [find_eq_some_iff]
      exact ⟨by simp, hfirst⟩
    have hdrop : (part ++ underlineEnd ++ rest).drop (part.length + 3) = 0x3E :: rest := by
      rw [← List.drop_drop, List.append_assoc, List.drop_left]
      rfl
    have htake : (part ++ underlineEnd ++ rest).take part.length = part := by
      rw [List.append_assoc, List.take_left]
    calc
      extractFrom (part ++ underlineEnd ++ rest) = (underlined part).or (extractFrom rest) := by
        rw [extractFrom_of_some hfind, find_underlined, hdrop, htake, extractFrom_cons (by decide)]
        rfl
      _ = (part :: parts.dropLast).findSome? underlined := by
        rw [ih, List.findSome?_cons]
        cases underlined part <;> rfl
      _ = (part :: parts).dropLast.findSome? underlined := by rw [List.dropLast_cons_of_ne_nil hrest.ne_nil]

/-- What is found in a page. -/
theorem tryExtractTomcatResponseMessage_eq {page : List UInt8} {ofs : ℕ} (hofs : strstr page messageText = some ofs)
    (hparts : Gaps underlineEnd ((untilZero page).drop ofs) parts) :
    tryExtractTomcatResponseMessage page = parts.dropLast.findSome? underlined := by
  rw [tryExtractTomcatResponseMessage, hofs]
  exact extractFrom_eq hparts

end DxApi.Net
