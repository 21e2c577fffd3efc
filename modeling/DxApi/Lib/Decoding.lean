import DxApi.Lib.Exec
import Mathlib.Data.Set.Basic

/-!
# Reading encodings off an input

A program reads an encoding when it takes exactly its bytes off any input that begins with them, and throws
one exception, with nothing left, on any input that ends before them. Encodings that follow one another are
read one after the other.

A set of encodings is exhaustive when every input begins with one of them or ends before one of them.
-/

namespace DxApi.Decoding

open Exec

variable {ε α β γ : Type}

/-- An input ends before an encoding. -/
def EndsBefore (input bytes : List β) : Prop := input <+: bytes ∧ input ≠ bytes

/-- `program` reads `bytes`, with the result `value`. -/
structure Decodes (short : ε) (program : EStateM ε (List β) α) (bytes : List β) (value : α) : Prop where
  whole : ∀ rest, program (bytes ++ rest) = .ok value rest
  part : ∀ input, EndsBefore input bytes → program input = .error short []

/-- A number of bytes. -/
def take (short : ε) (count : ℕ) : EStateM ε (List β) (List β) := fun input ↦
  if count ≤ input.length then .ok (input.take count) (input.drop count) else .error short []

/-! ## Inputs that end before an encoding -/

section

variable {input bytes more : List β}

theorem EndsBefore.length_lt (h : EndsBefore input bytes) : input.length < bytes.length := by
  have hle := h.1.length_le
  have hne : input.length ≠ bytes.length := fun heq ↦ h.2 (h.1.eq_of_length heq)
  omega

theorem endsBefore_of_length_lt (h : input <+: bytes) (hlt : input.length < bytes.length) : EndsBefore input bytes :=
  ⟨h, fun heq ↦ absurd (congrArg List.length heq) hlt.ne⟩

theorem not_endsBefore_nil : ¬EndsBefore input ([] : List β) := fun h ↦ Nat.not_lt_zero _ h.length_lt

/-- An input ends before the first of two encodings, or it has the first one and ends before the second. -/
theorem endsBefore_append (h : EndsBefore input (bytes ++ more)) :
    EndsBefore input bytes ∨ ∃ rest, input = bytes ++ rest ∧ EndsBefore rest more := by
  by_cases hlt : input.length < bytes.length
  · left
    exact endsBefore_of_length_lt (List.prefix_of_prefix_length_le h.1 (List.prefix_append ..) hlt.le) hlt
  · right
    obtain ⟨rest, rfl⟩ := List.prefix_of_prefix_length_le (List.prefix_append bytes more) h.1 (Nat.le_of_not_lt hlt)
    refine ⟨rest, rfl, (List.prefix_append_right_inj bytes).mp h.1, ?_⟩
    intro heq
    exact h.2 (congrArg (bytes ++ ·) heq)

theorem EndsBefore.append_left (h : EndsBefore input more) (bytes : List β) : EndsBefore (bytes ++ input) (bytes ++ more) :=
  ⟨(List.prefix_append_right_inj bytes).mpr h.1, fun heq ↦ h.2 (List.append_cancel_left heq)⟩

theorem EndsBefore.append_right (h : EndsBefore input bytes) (more : List β) : EndsBefore input (bytes ++ more) := by
  apply endsBefore_of_length_lt (h.1.trans (List.prefix_append ..))
  have hlt := h.length_lt
  rw [List.length_append]
  omega

end

/-! ## Programs -/

section

variable {short : ε} {program : EStateM ε (List β) α} {next : α → EStateM ε (List β) γ} {bytes more : List β}
  {value : α} {result : γ}

theorem decodes_pure (value : α) : Decodes short (pure value : EStateM ε (List β) α) [] value where
  whole _ := rfl
  part _ h := absurd h not_endsBefore_nil

theorem Decodes.bind (h : Decodes short program bytes value) (hnext : Decodes short (next value) more result) :
    Decodes short (program >>= next) (bytes ++ more) result where
  whole rest := by
    rw [List.append_assoc, run_bind_of_ok (h.whole _)]
    exact hnext.whole rest
  part input hends := by
    rcases endsBefore_append hends with hfirst | ⟨rest, rfl, hrest⟩
    · exact run_bind_of_error (h.part input hfirst)
    · rw [run_bind_of_ok (h.whole rest)]
      exact hnext.part rest hrest

/-- A last step that reads nothing. -/
theorem Decodes.bind_pure (h : Decodes short program bytes value) (f : α → γ) :
    Decodes short (do return f (← program)) bytes (f value) := by
  have hpure : Decodes short (program >>= fun found ↦ pure (f found)) (bytes ++ []) (f value) := h.bind (decodes_pure _)
  rwa [List.append_nil] at hpure

theorem decodes_take (bytes : List β) : Decodes short (take short bytes.length) bytes bytes where
  whole rest := by
    rw [take, if_pos (by rw [List.length_append]; omega), List.take_left, List.drop_left]
  part input h := by
    rw [take, if_neg (Nat.not_le_of_lt h.length_lt)]

end

/-! ## Programs whose state stands for an input -/

/-- `program` reads `bytes` in every state that stands for an input, as long as it takes fewer bytes than it has
fuel for. -/
structure DecodesFrom {σ : Type} (StandsFor : σ → List β → Prop) (short : ε) (fuel : ℕ) (program : EStateM ε σ α)
    (bytes : List β) (value : α) : Prop where
  whole : ∀ s rest, StandsFor s (bytes ++ rest) → bytes.length < fuel →
    wp program (fun found s' ↦ found = value ∧ StandsFor s' rest) (fun _ _ ↦ False) s
  part : ∀ s input, StandsFor s input → EndsBefore input bytes → input.length < fuel →
    wp program (fun _ _ ↦ False) (fun error _ ↦ error = short) s

section

variable {σ : Type} {StandsFor : σ → List β → Prop} {short : ε} {fuel : ℕ} {program : EStateM ε σ α}
  {next : α → EStateM ε σ γ} {bytes more : List β} {value : α} {result : γ}

theorem decodesFrom_pure (value : α) : DecodesFrom StandsFor short fuel (pure value : EStateM ε σ α) [] value where
  whole _ _ h _ := wp_pure.mpr ⟨rfl, h⟩
  part _ _ _ hends := absurd hends not_endsBefore_nil

theorem decodesFrom_zero : DecodesFrom StandsFor short 0 program bytes value where
  whole _ _ _ hfuel := absurd hfuel (Nat.not_lt_zero _)
  part _ _ _ _ hfuel := absurd hfuel (Nat.not_lt_zero _)

theorem DecodesFrom.mono {less : ℕ} (h : DecodesFrom StandsFor short fuel program bytes value) (hle : less ≤ fuel) :
    DecodesFrom StandsFor short less program bytes value where
  whole s rest hs hless := h.whole s rest hs (hless.trans_le hle)
  part s input hs hends hless := h.part s input hs hends (hless.trans_le hle)

/-- The second program needs fuel for what the first one leaves. -/
theorem DecodesFrom.bind (h : DecodesFrom StandsFor short fuel program bytes value)
    (hnext : DecodesFrom StandsFor short (fuel - bytes.length) (next value) more result) :
    DecodesFrom StandsFor short fuel (program >>= next) (bytes ++ more) result where
  whole s rest hs hfuel := by
    rw [List.append_assoc] at hs
    rw [List.length_append] at hfuel
    apply wp_call (h.whole s _ hs (by omega))
    · rintro _ s' ⟨rfl, hs'⟩
      exact hnext.whole s' rest hs' (by omega)
    · exact fun _ _ ↦ False.elim
  part s input hs hends hfuel := by
    rcases endsBefore_append hends with hfirst | ⟨rest, rfl, hrest⟩
    · apply wp_call (h.part s input hs hfirst hfuel)
      · exact fun _ _ ↦ False.elim
      · exact fun _ _ ↦ id
    · rw [List.length_append] at hfuel
      apply wp_call (h.whole s rest hs (by omega))
      · rintro _ s' ⟨rfl, hs'⟩
        exact hnext.part s' rest hs' hrest (by omega)
      · exact fun _ _ ↦ False.elim

/-- A last step that reads nothing. -/
theorem DecodesFrom.bind_pure (h : DecodesFrom StandsFor short fuel program bytes value) (f : α → γ) :
    DecodesFrom StandsFor short fuel (do return f (← program)) bytes (f value) := by
  have hpure : DecodesFrom StandsFor short fuel (program >>= fun found ↦ pure (f found)) (bytes ++ []) (f value) :=
    h.bind (decodesFrom_pure _)
  rwa [List.append_nil] at hpure

/-- A loop whose fuel is counted in the state has enough of it. -/
theorem decodesFrom_get {loop : σ → EStateM ε σ α} {enough : σ → ℕ}
    (henough : ∀ s input, StandsFor s input → input.length < enough s)
    (h : ∀ s, DecodesFrom StandsFor short (enough s) (loop s) bytes value) :
    DecodesFrom StandsFor short fuel (get >>= loop) bytes value where
  whole s rest hs _ := by
    have hfuel := henough s _ hs
    rw [List.length_append] at hfuel
    rw [wp_bind, wp_get]
    exact (h s).whole s rest hs (by omega)
  part s input hs hends _ := by
    rw [wp_bind, wp_get]
    exact (h s).part s input hs hends (henough s input hs)

end

/-! ## Exhaustive sets -/

/-- Every input begins with an encoding or ends before one. -/
def Exhaustive (encodings : Set (List β)) : Prop :=
  ∀ input, (∃ bytes ∈ encodings, bytes <+: input) ∨ ∃ bytes ∈ encodings, EndsBefore input bytes

/-- An encoding, and behind it one of those that may follow it. -/
def followed (encodings : Set (List β)) (next : List β → Set (List β)) : Set (List β) :=
  { bytes | ∃ first ∈ encodings, ∃ second ∈ next first, bytes = first ++ second }

section

variable {encodings : Set (List β)} {next : List β → Set (List β)}

theorem Exhaustive.nonempty (h : Exhaustive encodings) : encodings.Nonempty := by
  rcases h [] with ⟨bytes, hmem, -⟩ | ⟨bytes, hmem, -⟩
  · exact ⟨bytes, hmem⟩
  · exact ⟨bytes, hmem⟩

theorem exhaustive_singleton_nil : Exhaustive {([] : List β)} := fun _ ↦ .inl ⟨[], rfl, List.nil_prefix⟩

theorem exhaustive_length [Inhabited β] (count : ℕ) : Exhaustive { bytes : List β | bytes.length = count } := by
  intro input
  rcases Nat.lt_or_ge input.length count with hlt | hge
  · right
    have hlength : (input ++ List.replicate (count - input.length) default).length = count := by
      rw [List.length_append, List.length_replicate]
      omega
    exact ⟨_, hlength, endsBefore_of_length_lt (List.prefix_append ..) (by rw [hlength]; exact hlt)⟩
  · left
    exact ⟨input.take count, List.length_take_of_le hge, List.take_prefix ..⟩

theorem Exhaustive.followed (h : Exhaustive encodings) (hnext : ∀ bytes ∈ encodings, Exhaustive (next bytes)) :
    Exhaustive (followed encodings next) := by
  intro input
  rcases h input with ⟨first, hfirst, rest, rfl⟩ | ⟨first, hfirst, hends⟩
  · rcases hnext first hfirst rest with ⟨second, hsecond, hprefix⟩ | ⟨second, hsecond, hends⟩
    · left
      exact ⟨first ++ second, ⟨first, hfirst, second, hsecond, rfl⟩, (List.prefix_append_right_inj first).mpr hprefix⟩
    · right
      exact ⟨first ++ second, ⟨first, hfirst, second, hsecond, rfl⟩, hends.append_left first⟩
  · right
    obtain ⟨second, hsecond⟩ := (hnext first hfirst).nonempty
    exact ⟨first ++ second, ⟨first, hfirst, second, hsecond, rfl⟩, hends.append_right second⟩

theorem Exhaustive.mono {more : Set (List β)} (h : Exhaustive encodings) (hsub : encodings ⊆ more) : Exhaustive more := by
  intro input
  rcases h input with ⟨bytes, hmem, hprefix⟩ | ⟨bytes, hmem, hends⟩
  · exact .inl ⟨bytes, hsub hmem, hprefix⟩
  · exact .inr ⟨bytes, hsub hmem, hends⟩

end

end DxApi.Decoding
