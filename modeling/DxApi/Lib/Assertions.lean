import DxApi.Lib.Exec

/-!
# Programs with assertions

An assertion does nothing while its condition holds and ends the run when it does not. A build may
leave assertions out: `Erases` relates a program to what is left of it then. Every run that no
assertion ends is a run of the erased program, so that a specification of the one holds of the other.
-/

namespace DxApi.Exec

variable {κ ε σ α β : Type}

/-- How a program with assertions fails. -/
inductive Failure (κ ε : Type)
  | assertion (place : κ)
  | thrown (error : ε)

/-- `condition` is asserted at `place`. -/
def check (place : κ) (condition : Prop) [Decidable condition] : EStateM (Failure κ ε) σ Unit :=
  if condition then pure () else throw (.assertion place)

/-- A program without assertions. -/
def unchecked (program : EStateM ε σ α) : EStateM (Failure κ ε) σ α :=
  zoom id (fun s _ ↦ s) .thrown program

/-- A run of `checked` is ended by an assertion or it is the run of `plain`. -/
def Erases (checked : EStateM (Failure κ ε) σ α) (plain : EStateM ε σ α) : Prop :=
  ∀ s, (∃ place s', checked s = .error (.assertion place) s') ∨ checked s = unchecked plain s

variable {checked : EStateM (Failure κ ε) σ α} {plain : EStateM ε σ α}
  {next : α → EStateM (Failure κ ε) σ β} {plainNext : α → EStateM ε σ β} {s : σ} {place : κ}
  {condition : Prop} [Decidable condition]

/-! ## Weakest preconditions -/

section

variable {post : α → σ → Prop} {fail : Failure κ ε → σ → Prop}

@[simp]
theorem wp_check {post : Unit → σ → Prop} :
    wp (check place condition) post fail s ↔
      (condition → post () s) ∧ (¬ condition → fail (.assertion place) s) := by
  rw [check, wp_ite, wp_pure, wp_throw]

/-- An assertion that holds. -/
theorem wp_check_of {post : Unit → σ → Prop} (h : condition) :
    wp (check place condition) post fail s ↔ post () s := by
  rw [check, if_pos h, wp_pure]

@[simp]
theorem wp_unchecked :
    wp (unchecked plain) post fail s ↔ wp plain post (fun error s' ↦ fail (.thrown error) s') s :=
  wp_zoom

end

/-- The rest of a program after an assertion that holds. -/
theorem check_bind {next : Unit → EStateM (Failure κ ε) σ β} (h : condition) :
    check place condition >>= next = next () := by
  rw [check, if_pos h, pure_bind]

/-! ## Erasure -/

theorem erases_unchecked (plain : EStateM ε σ α) : Erases (unchecked plain : EStateM (Failure κ ε) σ α) plain :=
  fun _ ↦ .inr rfl

theorem erases_pure (value : α) :
    Erases (pure value : EStateM (Failure κ ε) σ α) (pure value : EStateM ε σ α) := fun _ ↦ .inr rfl

theorem erases_throw (error : ε) :
    Erases (throw (.thrown error) : EStateM (Failure κ ε) σ α) (throw error : EStateM ε σ α) :=
  fun _ ↦ .inr rfl

theorem erases_set (s : σ) :
    Erases (set s : EStateM (Failure κ ε) σ PUnit) (set s : EStateM ε σ PUnit) := fun _ ↦ .inr rfl

theorem erases_modify (f : σ → σ) :
    Erases (modify f : EStateM (Failure κ ε) σ PUnit) (modify f : EStateM ε σ PUnit) := fun _ ↦ .inr rfl

theorem erases_get_bind {next : σ → EStateM (Failure κ ε) σ α} {plainNext : σ → EStateM ε σ α}
    (h : ∀ found, Erases (next found) (plainNext found)) : Erases (get >>= next) (get >>= plainNext) :=
  fun s ↦ h s s

theorem Erases.bind (h : Erases checked plain) (hnext : ∀ value, Erases (next value) (plainNext value)) :
    Erases (checked >>= next) (plain >>= plainNext) := by
  intro s
  rcases h s with ⟨place, s', hrun⟩ | hrun
  · exact .inl ⟨place, s', run_bind_of_error hrun⟩
  · cases hplain : plain s with
    | ok value s' =>
      have hchecked : checked s = .ok value s' := by
        simp only [hrun, unchecked, zoom, id, hplain]
      have hbind := @run_bind_of_ok ε σ α β plain plainNext s s' value hplain
      rw [run_bind_of_ok hchecked, unchecked, zoom, id, hbind]
      exact hnext value s'
    | error error s' =>
      have hchecked : checked s = .error (.thrown error) s' := by
        simp only [hrun, unchecked, zoom, id, hplain]
      have hbind := @run_bind_of_error ε σ α β plain plainNext s s' error hplain
      right
      rw [run_bind_of_error hchecked, unchecked, zoom, id, hbind]

theorem Erases.ite {other : EStateM (Failure κ ε) σ α} {plainOther : EStateM ε σ α}
    (h : Erases checked plain) (hother : Erases other plainOther) :
    Erases (if condition then checked else other) (if condition then plain else plainOther) := by
  split
  · exact h
  · exact hother

/-- An assertion in front of a program. -/
theorem Erases.check_bind (h : Erases checked plain) :
    Erases (check place condition >>= fun _ ↦ checked) plain := by
  intro s
  by_cases hcondition : condition
  · have hcheck : check place condition s = (.ok () s : EStateM.Result (Failure κ ε) σ Unit) := by
      rw [check, if_pos hcondition, run_pure]
    rw [run_bind_of_ok hcheck]
    exact h s
  · have hcheck : check place condition s =
        (.error (.assertion place) s : EStateM.Result (Failure κ ε) σ Unit) := by
      rw [check, if_neg hcondition, run_throw]
    exact .inl ⟨place, s, run_bind_of_error hcheck⟩

/-- A state that is looked at for assertions only. -/
theorem Erases.get_bind {next : σ → EStateM (Failure κ ε) σ α} (h : ∀ found, Erases (next found) plain) :
    Erases (get >>= next) plain :=
  fun s ↦ h s s

/-- Assertions on what a program returns. -/
theorem Erases.bind_check {after : α → EStateM (Failure κ ε) σ α} (h : Erases checked plain)
    (hafter : ∀ value, Erases (after value) (pure value : EStateM ε σ α)) :
    Erases (checked >>= after) plain := by
  have hbind := h.bind hafter
  rwa [bind_pure] at hbind

/-- Where no assertion ends the run, it meets the specification of the erased program. -/
theorem Erases.wp_and (h : Erases checked plain) {post stronger : α → σ → Prop} {fail : ε → σ → Prop}
    {worse : Failure κ ε → σ → Prop} (hplain : wp plain post fail s) (hchecked : wp checked stronger worse s)
    (hworse : ∀ place s', ¬ worse (.assertion place) s') :
    wp checked (fun value s' ↦ post value s' ∧ stronger value s')
      (fun failure s' ↦ (∃ error, failure = .thrown error ∧ fail error s') ∧ worse failure s') s := by
  rcases h s with ⟨place, s', hrun⟩ | hrun
  · rw [wp_error hrun] at hchecked
    exact absurd hchecked (hworse place s')
  · have hboth : wp checked post (fun failure s' ↦ ∃ error, failure = .thrown error ∧ fail error s') s := by
      rw [wp_congr hrun, wp_unchecked]
      exact wp_mono hplain (fun _ _ ↦ id) (fun error _ hfail ↦ ⟨error, rfl, hfail⟩)
    exact Exec.wp_and hboth hchecked

/-! ## Which runs an assertion ends -/

/-- A run from `s` fails one of the assertions `places`. -/
def FailsOne (places : κ → Prop) (checked : EStateM (Failure κ ε) σ α) (s : σ) : Prop :=
  wp checked (fun _ _ ↦ False) (fun failure _ ↦ ∃ place, places place ∧ failure = .assertion place) s

/-- From `s` one of the assertions `places` ends the run exactly if `clear` does not hold; if it holds, the
program returns in `post` or fails in `stop`. -/
def Decides (places : κ → Prop) (clear : Prop) (checked : EStateM (Failure κ ε) σ α) (post : α → σ → Prop)
    (stop : Failure κ ε → σ → Prop) (s : σ) : Prop :=
  (clear → wp checked post stop s) ∧ (¬ clear → FailsOne places checked s)

section

variable {places : κ → Prop} {clear : Prop} {post stronger : α → σ → Prop} {after : β → σ → Prop}
  {stop : Failure κ ε → σ → Prop}

theorem FailsOne.bind (h : FailsOne places checked s) : FailsOne places (checked >>= next) s := by
  rw [FailsOne, wp_bind]
  exact wp_mono h (fun _ _ ↦ False.elim) fun _ _ ↦ id

theorem failsOne_bind_of_ok {value : α} {s' : σ} (hrun : checked s = .ok value s')
    (h : FailsOne places (next value) s') : FailsOne places (checked >>= next) s := by
  rw [FailsOne, wp_bind, wp_ok hrun]
  exact h

theorem FailsOne.exists_error (h : FailsOne places checked s) :
    ∃ place s', places place ∧ checked s = .error (.assertion place) s' := by
  rw [FailsOne] at h
  cases hrun : checked s with
  | ok value s' =>
    rw [wp_ok hrun] at h
    exact h.elim
  | error failure s' =>
    rw [wp_error hrun] at h
    obtain ⟨place, hplace, rfl⟩ := h
    exact ⟨place, s', hplace, rfl⟩

theorem decides_of_wp (h : wp checked post stop s) (hclear : clear) : Decides places clear checked post stop s :=
  ⟨fun _ ↦ h, fun hnot ↦ absurd hclear hnot⟩

theorem decides_get_bind {next : σ → EStateM (Failure κ ε) σ α} :
    Decides places clear (get >>= next) post stop s ↔ Decides places clear (next s) post stop s := Iff.rfl

theorem decides_set_bind {s' : σ} {next : PUnit → EStateM (Failure κ ε) σ α} :
    Decides places clear (set s' >>= next) post stop s ↔ Decides places clear (next ⟨⟩) post stop s' := Iff.rfl

theorem Decides.congr {clear' : Prop} (h : Decides places clear checked post stop s) (hiff : clear' ↔ clear) :
    Decides places clear' checked post stop s := by
  rwa [Decides, hiff]

theorem Decides.mono (h : Decides places clear checked stronger stop s)
    (hpost : ∀ value s', stronger value s' → post value s') : Decides places clear checked post stop s :=
  ⟨fun hclear ↦ wp_mono (h.1 hclear) hpost fun _ _ ↦ id, h.2⟩

/-- The assertions of a program and those of what follows it. -/
theorem Decides.bind {clearNext : α → σ → Prop} (h : Decides places clear checked post stop s)
    (hnext : ∀ value s', checked s = .ok value s' → post value s' →
      Decides places (clearNext value s') (next value) after stop s') :
    Decides places (clear ∧ ∀ value s', checked s = .ok value s' → clearNext value s') (checked >>= next) after
      stop s := by
  constructor
  · rintro ⟨hclear, hrest⟩
    have hfirst := h.1 hclear
    rw [wp_bind]
    cases hrun : checked s with
    | ok value s' =>
      rw [wp_ok hrun] at hfirst ⊢
      exact (hnext value s' hrun hfirst).1 (hrest value s' hrun)
    | error failure s' =>
      rw [wp_error hrun] at hfirst ⊢
      exact hfirst
  · intro hnot
    by_cases hclear : clear
    · cases hrun : checked s with
      | ok value s' =>
        have hfirst := h.1 hclear
        rw [wp_ok hrun] at hfirst
        have hclearNext : ¬ clearNext value s' := by
          refine fun hnext ↦ hnot ⟨hclear, fun value' s'' hrun' ↦ ?_⟩
          cases hrun.symm.trans hrun'
          exact hnext
        exact failsOne_bind_of_ok hrun ((hnext value s' hrun hfirst).2 hclearNext)
      | error failure s' =>
        refine absurd ⟨hclear, fun value s'' hrun' ↦ ?_⟩ hnot
        cases hrun.symm.trans hrun'
    · exact (h.2 hclear).bind

/-- What follows fails no assertion. -/
theorem Decides.bind_wp (h : Decides places clear checked post stop s)
    (hnext : ∀ value s', post value s' → wp (next value) after stop s') :
    Decides places clear (checked >>= next) after stop s := by
  have hbind : Decides places (clear ∧ ∀ value s', checked s = .ok value s' → True) (checked >>= next) after stop s :=
    h.bind fun value s' _ hpost ↦ decides_of_wp (hnext value s' hpost) trivial
  exact hbind.congr ⟨fun hclear ↦ ⟨hclear, fun _ _ _ ↦ trivial⟩, And.left⟩

/-- What is collected after a program, if it returns. -/
def collect {γ : Type} (program : EStateM ε σ α) (next : α → σ → List γ) (s : σ) : List γ :=
  match program s with
  | .ok value s' => next value s'
  | .error _ _ => []

theorem forall_mem_collect {γ : Type} {program : EStateM ε σ α} {next : α → σ → List γ} {p : γ → Prop} :
    (∀ item ∈ collect program next s, p item) ↔
      ∀ value s', program s = .ok value s' → ∀ item ∈ next value s', p item := by
  unfold collect
  cases hrun : program s with
  | ok value s' =>
    constructor
    · intro hall value' s'' hsame
      cases hsame
      exact hall
    · exact fun hall ↦ hall value s' rfl
  | error error s' =>
    constructor
    · intro _ value s'' hsame
      cases hsame
    · intro _ item hitem
      cases hitem

end

end DxApi.Exec
