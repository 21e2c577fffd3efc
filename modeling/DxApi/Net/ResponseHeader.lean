import DxApi.Net.Request
import DxApi.Reader.Loads
import Mathlib.Data.List.DropRight

/-!
# The header of a response

A response is read byte after byte up to its first empty line, which a small automaton looks for: it
counts how much of two line breaks was seen, and starts over at a byte that does not go on. The byte at
which it starts over is not looked at again.
-/

namespace DxApi.Net

open Exec Reader

/-! ## Reading up to the empty line -/

/-- `CRLFCRLF`. -/
def crlfcrlf : List UInt8 := [0x0D, 0x0A, 0x0D, 0x0A]

/-- How much of the empty line has been seen after the byte `c`. -/
def matchNext (matched : ℕ) (c : UInt8) : ℕ := if crlfcrlf[matched]? = some c then matched + 1 else 0

/-- The loop of `readResponseHeader`. -/
def readHeaderBytes (cls : ReaderClass) : ℕ → ℕ → List UInt8 → ReaderM (List UInt8)
  | 0, _, _ => throw .diverged
  | fuel + 1, matched, responseHeader =>
    if matched < 4 then do
      let c := UInt8.ofNat (← getByte cls)
      readHeaderBytes cls fuel (matchNext matched c) (responseHeader ++ [c])
    else
      return responseHeader

/-- `readResponseHeader`, up to the check of the response code: the header that was collected. -/
def readResponseHeader (cls : ReaderClass) : ReaderM (List UInt8) := do
  let r ← get
  readHeaderBytes cls (unread r r.dataPtr + 1) 0 []

/-- `header` is the data up to the first empty line, and with it. -/
structure UpToEmptyLine (header data : List UInt8) : Prop where
  isPrefix : header <+: data
  isSuffix : crlfcrlf <:+ header
  first : ∀ p, p <+: header → crlfcrlf <:+ p → p = header

/-- What has been seen after `data`. -/
def matchAll (matched : ℕ) (data : List UInt8) : ℕ := data.foldl matchNext matched

variable {data header : List UInt8} {matched : ℕ}

theorem matchAll_concat (c : UInt8) : matchAll matched (data ++ [c]) = matchNext (matchAll matched data) c := by
  rw [matchAll, List.foldl_append]
  rfl

theorem matchNext_le (h : matched < 4) (c : UInt8) : matchNext matched c ≤ 4 := by
  rw [matchNext]
  split <;> omega

/-- No empty line is seen where there is none. -/
theorem take_matchAll_suffix (h : ∀ p, p <+: data → p ≠ data → matchAll 0 p < 4) :
    matchAll 0 data ≤ 4 ∧ crlfcrlf.take (matchAll 0 data) <:+ data := by
  induction data using List.reverseRecOn with
  | nil => exact ⟨Nat.zero_le 4, List.suffix_rfl⟩
  | append_singleton data c ih =>
    have hlt := h data (List.prefix_append _ _) (by simp)
    obtain ⟨-, hseen⟩ := ih fun p hp hne ↦ h p (hp.trans (List.prefix_append _ _)) fun hsame ↦ by
      have hlength := hp.length_le
      rw [hsame, List.length_append, List.length_singleton] at hlength
      omega
    rw [matchAll_concat]
    refine ⟨matchNext_le hlt c, ?_⟩
    rw [matchNext]
    split
    · next hgoes =>
      rw [List.take_add_one, hgoes]
      obtain ⟨before, hbefore⟩ := hseen
      exact ⟨before, by rw [← List.append_assoc, hbefore]; rfl⟩
    · exact List.nil_suffix

/-- The line breaks in a row at the end of the data that are a mere `CR`. -/
def carriageReturns (data : List UInt8) : ℕ := (data.rtakeWhile (· = 0x0D)).length

theorem carriageReturns_concat (c : UInt8) :
    carriageReturns (data ++ [c]) = if c = 0x0D then carriageReturns data + 1 else 0 := by
  by_cases hcr : c = 0x0D
  · rw [if_pos hcr, carriageReturns, List.rtakeWhile_concat_pos _ _ _ (by simpa using hcr),
      List.length_append, List.length_singleton, carriageReturns]
  · rw [if_neg hcr, carriageReturns, List.rtakeWhile_concat_neg _ _ _ (by simpa using hcr), List.length_nil]

theorem matchNext_mod_two (h : matched < 4) (c : UInt8) :
    matchNext matched c % 2 = if c = 0x0D then (matched + 1) % 2 else 0 := by
  have hcases : matched = 0 ∨ matched = 1 ∨ matched = 2 ∨ matched = 3 := by omega
  rw [matchNext]
  rcases hcases with rfl | rfl | rfl | rfl
  · by_cases hcr : c = 0x0D <;> simp [crlfcrlf, hcr, eq_comm]
  · by_cases hcr : c = 0x0D
    · simp [crlfcrlf, hcr]
    · by_cases hlf : c = 0x0A <;> simp [crlfcrlf, hcr, hlf, eq_comm]
  · by_cases hcr : c = 0x0D <;> simp [crlfcrlf, hcr, eq_comm]
  · by_cases hcr : c = 0x0D
    · simp [crlfcrlf, hcr]
    · by_cases hlf : c = 0x0A <;> simp [crlfcrlf, hcr, hlf, eq_comm]

/-- Of some `CR` in a row the automaton takes the first, starts over at the second, and so on. -/
theorem matchAll_mod_two (h : ∀ p, p <+: data → matchAll 0 p < 4) :
    matchAll 0 data % 2 = carriageReturns data % 2 := by
  induction data using List.reverseRecOn with
  | nil => rfl
  | append_singleton data c ih =>
    have hbefore := ih fun p hp ↦ h p (hp.trans (List.prefix_append _ _))
    rw [matchAll_concat, carriageReturns_concat, matchNext_mod_two (h data (List.prefix_append _ _))]
    split <;> omega

/-- Up to the empty line, none has been seen. -/
theorem UpToEmptyLine.matchAll_lt (h : UpToEmptyLine header data) {p : List UInt8} (hp : p <+: header)
    (hne : p ≠ header) : matchAll 0 p < 4 := by
  induction hlength : p.length using Nat.strong_induction_on generalizing p with
  | _ n ih =>
    have hbefore : ∀ q, q <+: p → q ≠ p → matchAll 0 q < 4 := by
      intro q hq hqp
      have hless : q.length < n := by
        rw [← hlength]
        exact lt_of_le_of_ne hq.length_le fun hsame ↦ hqp (hq.eq_of_length hsame)
      refine ih q.length hless (hq.trans hp) ?_ rfl
      rintro rfl
      exact hqp (hq.eq_of_length_le hp.length_le)
    obtain ⟨hle, hseen⟩ := take_matchAll_suffix hbefore
    by_contra hfour
    have hall : matchAll 0 p = 4 := by omega
    rw [hall] at hseen
    exact hne (h.first p hp hseen)

/-- The automaton has seen the empty line at its end exactly when it did not start over right before. -/
theorem UpToEmptyLine.matchAll_eq (h : UpToEmptyLine header data) :
    matchAll 0 header = 4 ↔ carriageReturns (header.rdrop 4) % 2 = 0 := by
  obtain ⟨before, hbefore⟩ := h.isSuffix
  have hlength : header.rdrop 4 = before := by
    rw [← hbefore, List.rdrop_eq_reverse_drop_reverse]
    simp [crlfcrlf]
  have hseen : ∀ p, p <+: before ++ [0x0D, 0x0A] → matchAll 0 p < 4 := by
    intro p hp
    have hle := hp.length_le
    refine h.matchAll_lt (hp.trans ⟨[0x0D, 0x0A], ?_⟩) ?_
    · rw [List.append_assoc]
      exact hbefore
    · rintro rfl
      rw [← hbefore] at hle
      simp [crlfcrlf] at hle
  have hparity := matchAll_mod_two fun p hp ↦ hseen p (hp.trans (List.prefix_append _ _))
  have hstart := hseen before (List.prefix_append _ _)
  have hmiddle := hseen _ List.prefix_rfl
  have hend : matchAll 0 header = matchAll (matchAll 0 before) crlfcrlf := by
    rw [← hbefore, matchAll, List.foldl_append]
    rfl
  have hhalf : matchAll 0 (before ++ [0x0D, 0x0A]) = matchAll (matchAll 0 before) [0x0D, 0x0A] := by
    rw [matchAll, List.foldl_append]
    rfl
  rw [hlength, ← hparity, hend]
  rw [hhalf] at hmiddle
  generalize matchAll 0 before = seen at *
  have hcases : seen = 0 ∨ seen = 1 ∨ seen = 2 ∨ seen = 3 := by omega
  rcases hcases with rfl | rfl | rfl | rfl
  · decide
  · decide
  · exact absurd hmiddle (by decide)
  · decide

/-! ## The run -/

/-- The loop stops where the automaton has seen an empty line, or reads to the end. -/
theorem readHeaderBytes_spec {cls : ReaderClass} {r : DataReader} {fuel : ℕ} {responseHeader : List UInt8}
    (h : Ahead cls r data) (hfuel : data.length < fuel) (hmatched : matched ≤ 4) :
    wp (readHeaderBytes cls fuel matched responseHeader)
      (fun found r' ↦ ∃ more body, data = more ++ body ∧ found = responseHeader ++ more ∧ Ahead cls r' body ∧
        matchAll matched more = 4 ∧ ∀ p, p <+: more → p ≠ more → matchAll matched p < 4)
      (fun _ _ ↦ ∀ p, p <+: data → matchAll matched p < 4) r := by
  induction fuel generalizing r data matched responseHeader with
  | zero => omega
  | succ fuel ih =>
    rw [readHeaderBytes, wp_ite]
    constructor
    · intro hless
      cases data with
      | nil =>
        apply wp_call (h.load_nil (by decide) one_pos)
        · exact fun _ _ ↦ False.elim
        · intro _ _ _ p hp
          rwa [List.prefix_nil.mp hp]
      | cons c data =>
        rw [List.length_cons] at hfuel
        apply wp_call (@Ahead.decode cls r data [c] _ _ _ h (decodes_getByte c))
        · rintro _ r₁ ⟨rfl, hahead⟩
          rw [UInt8.ofNat_toNat]
          apply wp_mono (ih hahead (by omega) (matchNext_le hless c))
          · rintro found r' ⟨more, body, rfl, rfl, hbody, hall, hfirst⟩
            refine ⟨c :: more, body, rfl, by simp, hbody, hall, ?_⟩
            intro p hp hne
            rcases p with _ | ⟨d, p⟩
            · exact hless
            · obtain ⟨rfl, htail⟩ := List.cons_prefix_cons.mp hp
              exact hfirst p htail fun hsame ↦ hne (by rw [hsame])
          · intro _ _ hnone p hp
            rcases p with _ | ⟨d, p⟩
            · exact hless
            · obtain ⟨rfl, htail⟩ := List.cons_prefix_cons.mp hp
              exact hnone p htail
        · exact fun _ _ ↦ False.elim
    · intro hdone
      refine ⟨[], data, rfl, (List.append_nil _).symm, h, ?_, ?_⟩
      · change matched = 4
        omega
      · exact fun p hp hne ↦ absurd (List.prefix_nil.mp hp) hne

/-- There is a first empty line where there is one. -/
theorem exists_upToEmptyLine {p : List UInt8} (hp : p <+: data) (hend : crlfcrlf <:+ p) :
    ∃ header, UpToEmptyLine header data ∧ header <+: p := by
  induction hlength : p.length using Nat.strong_induction_on generalizing p with
  | _ n ih =>
    by_cases hfirst : ∀ q, q <+: p → crlfcrlf <:+ q → q = p
    · exact ⟨p, ⟨hp, hend, hfirst⟩, List.prefix_rfl⟩
    · push Not at hfirst
      obtain ⟨q, hq, hqend, hne⟩ := hfirst
      have hless : q.length < n := by
        rw [← hlength]
        exact lt_of_le_of_ne hq.length_le fun hsame ↦ hne (hq.eq_of_length hsame)
      obtain ⟨header, hheader, hbefore⟩ := ih q.length hless (hq.trans hp) hqend rfl
      exact ⟨header, hheader, hbefore.trans hq⟩

theorem UpToEmptyLine.unique {header' : List UInt8} (h : UpToEmptyLine header data)
    (h' : UpToEmptyLine header' data) : header = header' := by
  rcases List.prefix_or_prefix_of_prefix h.isPrefix h'.isPrefix with hbefore | hbefore
  · exact h'.first header hbefore h.isSuffix
  · exact (h.first header' hbefore h'.isSuffix).symm

/-- What is seen first by the automaton ends in an empty line. -/
theorem suffix_of_matchAll {found : List UInt8} (hall : matchAll 0 found = 4)
    (hfirst : ∀ p, p <+: found → p ≠ found → matchAll 0 p < 4) : crlfcrlf <:+ found := by
  have hseen := (take_matchAll_suffix hfirst).2
  rwa [hall] at hseen

/-- The header is read up to its empty line, and what comes after it is left, or there is no empty line. -/
def ReadsHeader (cls : ReaderClass) (r : DataReader) (data : List UInt8) : Prop :=
  wp (readResponseHeader cls)
    (fun header r' ↦ UpToEmptyLine header data ∧ Ahead cls r' (data.drop header.length))
    (fun _ _ ↦ ∀ header, ¬ UpToEmptyLine header data) r

variable {cls : ReaderClass} {r : DataReader}

theorem readResponseHeader_spec (h : Ahead cls r data) :
    wp (readResponseHeader cls)
      (fun found r' ↦ ∃ body, data = found ++ body ∧ Ahead cls r' body ∧ matchAll 0 found = 4 ∧
        ∀ p, p <+: found → p ≠ found → matchAll 0 p < 4)
      (fun _ _ ↦ ∀ p, p <+: data → matchAll 0 p < 4) r := by
  have hfuel := h.length_le
  rw [readResponseHeader, wp_bind, wp_get]
  apply wp_mono (readHeaderBytes_spec h (by omega) (Nat.zero_le 4))
  · intro found r' hfound
    obtain ⟨more, body, hdata, hmore, hbody, hall, hfirst⟩ := hfound
    rw [List.nil_append] at hmore
    subst hmore
    exact ⟨body, hdata, hbody, hall, hfirst⟩
  · exact fun _ _ ↦ id

theorem readsHeader_of_even (h : Ahead cls r data)
    (heven : ∀ header, UpToEmptyLine header data → carriageReturns (header.rdrop 4) % 2 = 0) :
    ReadsHeader cls r data := by
  apply wp_mono (readResponseHeader_spec h)
  · intro found r' hfound
    obtain ⟨body, rfl, hbody, hall, hfirst⟩ := hfound
    obtain ⟨header, hheader, hbefore⟩ :=
      exists_upToEmptyLine (List.prefix_append found body) (suffix_of_matchAll hall hfirst)
    have hseen := hheader.matchAll_eq.mpr (heven header hheader)
    have hsame : header = found := by
      by_contra hne
      exact absurd hseen (hfirst header hbefore hne).ne
    subst hsame
    rw [List.drop_left]
    exact ⟨hheader, hbody⟩
  · intro _ _ hnone header hheader
    have hseen := hheader.matchAll_eq.mpr (heven header hheader)
    exact absurd hseen (hnone header hheader.isPrefix).ne

theorem even_of_readsHeader (h : Ahead cls r data) (hreads : ReadsHeader cls r data)
    (hheader : UpToEmptyLine header data) : carriageReturns (header.rdrop 4) % 2 = 0 := by
  have hboth := wp_and (readResponseHeader_spec h) hreads
  cases hrun : readResponseHeader cls r with
  | ok found r' =>
    rw [wp_ok hrun] at hboth
    obtain ⟨⟨body, -, -, hall, -⟩, hfound, -⟩ := hboth
    rw [hheader.unique hfound, ← hfound.matchAll_eq]
    exact hall
  | error e r' =>
    rw [wp_error hrun] at hboth
    exact absurd hheader (hboth.2 header)

/-- The empty line is found exactly if the automaton does not start over at its first byte: as many `CR`
are right before it as are taken in pairs. -/
theorem readResponseHeader_iff (h : Ahead cls r data) :
    ReadsHeader cls r data ↔
      ∀ header, UpToEmptyLine header data → carriageReturns (header.rdrop 4) % 2 = 0 :=
  ⟨fun hreads _ ↦ even_of_readsHeader h hreads, readsHeader_of_even h⟩

/-- Where the empty line is first can be looked up. -/
theorem upToEmptyLine_append {before : List UInt8}
    (hnone : ∀ p ∈ (before ++ [0x0D, 0x0A, 0x0D]).inits, ¬ crlfcrlf <:+ p) (body : List UInt8) :
    UpToEmptyLine (before ++ crlfcrlf) (before ++ crlfcrlf ++ body) := by
  refine ⟨List.prefix_append _ _, List.suffix_append _ _, fun p hp hend ↦ ?_⟩
  have hsplit : before ++ crlfcrlf = (before ++ [0x0D, 0x0A, 0x0D]) ++ [0x0A] := by simp [crlfcrlf]
  rw [hsplit] at hp ⊢
  rcases List.prefix_concat_iff.mp hp with hall | hshort
  · exact hall
  · exact absurd hend (hnone p ((List.mem_inits p _).mpr hshort))

/-- A response whose status line is followed by the empty line. -/
theorem readResponseHeader_reads :
    ∃ r data, data = Request.text "HTTP/1.1 200 OK" ++ crlfcrlf ++ Request.text "body" ∧
      Ahead .msg r data ∧ ReadsHeader .msg r data := by
  have hfirst := @upToEmptyLine_append (Request.text "HTTP/1.1 200 OK") (by decide +kernel) (Request.text "body")
  have hshort : (Request.text "HTTP/1.1 200 OK" ++ crlfcrlf ++ Request.text "body").length < 2 ^ 32 := by
    decide +kernel
  have heven : carriageReturns ((Request.text "HTTP/1.1 200 OK" ++ crlfcrlf).rdrop 4) % 2 = 0 := by decide +kernel
  generalize Request.text "HTTP/1.1 200 OK" ++ crlfcrlf = header at *
  generalize header ++ Request.text "body" = data at *
  have hahead := messageReader_ahead hshort
  refine ⟨_, data, rfl, hahead, (readResponseHeader_iff hahead).mpr fun header' hheader' ↦ ?_⟩
  rwa [hheader'.unique hfirst]

/-- After a `CR` that is not part of a line break the empty line is not found. -/
theorem readResponseHeader_misses :
    ∃ r data, data = Request.text "HTTP/1.1 200 OK" ++ [0x0D] ++ crlfcrlf ++ Request.text "body" ∧
      Ahead .msg r data ∧ ¬ ReadsHeader .msg r data := by
  have hfirst := @upToEmptyLine_append (Request.text "HTTP/1.1 200 OK" ++ [0x0D]) (by decide +kernel) (Request.text "body")
  have hshort : (Request.text "HTTP/1.1 200 OK" ++ [0x0D] ++ crlfcrlf ++ Request.text "body").length < 2 ^ 32 := by
    decide +kernel
  have hodd : ¬ carriageReturns ((Request.text "HTTP/1.1 200 OK" ++ [0x0D] ++ crlfcrlf).rdrop 4) % 2 = 0 := by
    decide +kernel
  generalize Request.text "HTTP/1.1 200 OK" ++ [0x0D] ++ crlfcrlf = header at *
  generalize header ++ Request.text "body" = data at *
  have hahead := messageReader_ahead hshort
  exact ⟨_, data, rfl, hahead, fun hreads ↦ hodd (even_of_readsHeader hahead hreads hfirst)⟩

end DxApi.Net
