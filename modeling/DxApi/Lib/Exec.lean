import Mathlib.Data.Nat.Notation
import Mathlib.Tactic.Basic

/-!
# Weakest preconditions of stateful programs that may throw

Programs are terms of `EStateM ε σ α`: the state reached is kept when an exception is thrown, as in
a language where a caught exception does not undo assignments. `wp` names what has to hold of the
start for a run to return in `post` or to throw in `fail`. One rule for each program former turns a
statement about a compound program into statements about its parts, so that a specification is
proved without unfolding the monad, and `wp_mono` cites the specification of a called function.
-/

namespace DxApi.Exec

variable {ε σ α β : Type}

/-- Run from `s`, the program returns in `post` or throws in `fail`. -/
def wp (program : EStateM ε σ α) (post : α → σ → Prop) (fail : ε → σ → Prop) (s : σ) : Prop :=
  match program s with
  | .ok value s' => post value s'
  | .error error s' => fail error s'

/-- The state a run leaves, whichever way it ends. -/
def finalState (program : EStateM ε σ α) (s : σ) : σ :=
  match program s with
  | .ok _ s' => s'
  | .error _ s' => s'

/-- The run ends without an exception. -/
def returns (program : EStateM ε σ α) (s : σ) : Bool :=
  match program s with
  | .ok _ _ => true
  | .error _ _ => false

/-- The value that a run returns, when it ends without an exception. -/
def valueOf (program : EStateM ε σ α) (s : σ) : Option α :=
  match program s with
  | .ok value _ => some value
  | .error _ _ => none

/-- Run a program on a part of the state; its exceptions are wrapped. -/
def zoom {τ ε' : Type} (view : σ → τ) (update : τ → σ → σ) (wrap : ε' → ε) (program : EStateM ε' τ α) :
    EStateM ε σ α := fun s ↦
  match program (view s) with
  | .ok value part => .ok value (update part s)
  | .error error part => .error (wrap error) (update part s)

/-- Run a handler when the program throws, and throw what the handler says. -/
def onException (program : EStateM ε σ α) (handler : ε → EStateM ε σ ε) : EStateM ε σ α := fun s ↦
  match program s with
  | .ok value s' => .ok value s'
  | .error error s' =>
    match handler error s' with
    | .ok error' s'' => .error error' s''
    | .error error' s'' => .error error' s''

/-- Run a program and catch what it throws. -/
def attempt (program : EStateM ε σ α) : EStateM ε σ (Except ε α) := fun s ↦
  match program s with
  | .ok value s' => .ok (.ok value) s'
  | .error error s' => .ok (.error error) s'

/-- How many programs return, run one after the other until one throws. -/
def returned : List (EStateM ε σ Unit) → σ → ℕ
  | [], _ => 0
  | program :: programs, s =>
    match program s with
    | .ok _ s' => returned programs s' + 1
    | .error _ _ => 0

/-- The state that programs leave, run one after the other until one throws. -/
def runEach : List (EStateM ε σ Unit) → σ → σ
  | [], s => s
  | program :: programs, s =>
    match program s with
    | .ok _ s' => runEach programs s'
    | .error _ s' => s'

variable {program : EStateM ε σ α} {next : α → EStateM ε σ β} {s s' : σ} {value : α} {error : ε}
  {post stronger : α → σ → Prop} {after : β → σ → Prop} {fail worse : ε → σ → Prop}

theorem returned_of_ok {program : EStateM ε σ Unit} {rest : List (EStateM ε σ Unit)}
    (h : program s = .ok () s') : returned (program :: rest) s = returned rest s' + 1 := by
  rw [returned, h]

theorem returned_of_error {program : EStateM ε σ Unit} {rest : List (EStateM ε σ Unit)}
    (h : program s = .error error s') : returned (program :: rest) s = 0 := by
  rw [returned, h]

theorem runEach_of_ok {program : EStateM ε σ Unit} {rest : List (EStateM ε σ Unit)}
    (h : program s = .ok () s') : runEach (program :: rest) s = runEach rest s' := by
  rw [runEach, h]

/-! ## A program in one state -/

theorem run_pure (value : α) (s : σ) : (pure value : EStateM ε σ α) s = .ok value s := rfl

theorem run_throw (error : ε) (s : σ) : (throw error : EStateM ε σ α) s = .error error s := rfl

theorem run_get_bind (next : σ → EStateM ε σ β) (s : σ) : (get >>= next) s = next s s := rfl

theorem run_set_bind (s' : σ) (next : PUnit → EStateM ε σ β) (s : σ) : (set s' >>= next) s = next ⟨⟩ s' := rfl

theorem run_bind_of_ok (hrun : program s = .ok value s') : (program >>= next) s = next value s' := by
  simp only [bind, EStateM.bind, hrun]

theorem run_bind_of_error (hrun : program s = .error error s') : (program >>= next) s = .error error s' := by
  simp only [bind, EStateM.bind, hrun]

/-! ## One rule for each program former -/

@[simp]
theorem wp_pure : wp (pure value) post fail s ↔ post value s := Iff.rfl

@[simp]
theorem wp_bind :
    wp (program >>= next) after fail s ↔
      wp program (fun value middle ↦ wp (next value) after fail middle) fail s := by
  simp only [wp, bind, EStateM.bind]
  cases program s <;> rfl

@[simp]
theorem wp_map {f : α → β} :
    wp (f <$> program) after fail s ↔ wp program (fun value middle ↦ after (f value) middle) fail s := by
  simp only [wp, Functor.map, EStateM.map]
  cases program s <;> rfl

@[simp]
theorem wp_get {post : σ → σ → Prop} : wp (get : EStateM ε σ σ) post fail s ↔ post s s := Iff.rfl

@[simp]
theorem wp_set {post : PUnit → σ → Prop} :
    wp (set s' : EStateM ε σ PUnit) post fail s ↔ post ⟨⟩ s' := Iff.rfl

@[simp]
theorem wp_modify {post : PUnit → σ → Prop} {f : σ → σ} :
    wp (modify f : EStateM ε σ PUnit) post fail s ↔ post ⟨⟩ (f s) := Iff.rfl

@[simp]
theorem wp_throw : wp (throw error : EStateM ε σ α) post fail s ↔ fail error s := Iff.rfl

@[simp]
theorem wp_ite {condition : Prop} [Decidable condition] {other : EStateM ε σ α} :
    wp (if condition then program else other) post fail s ↔
      (condition → wp program post fail s) ∧ (¬ condition → wp other post fail s) := by
  split <;> simp_all

@[simp]
theorem wp_zoom {τ ε' : Type} {view : σ → τ} {update : τ → σ → σ} {wrap : ε' → ε}
    {program : EStateM ε' τ α} :
    wp (zoom view update wrap program) post fail s ↔
      wp program (fun value part ↦ post value (update part s))
        (fun error part ↦ fail (wrap error) (update part s)) (view s) := by
  simp only [wp, zoom]
  cases program (view s) <;> rfl

@[simp]
theorem wp_onException {handler : ε → EStateM ε σ ε} :
    wp (onException program handler) post fail s ↔
      wp program post (fun error s' ↦ wp (handler error) fail fail s') s := by
  simp only [wp, onException]
  cases program s with
  | ok value s' => rfl
  | error error s' =>
    dsimp only
    cases handler error s' <;> rfl

@[simp]
theorem wp_attempt {post : Except ε α → σ → Prop} :
    wp (attempt program) post fail s ↔
      wp program (fun value s' ↦ post (.ok value) s') (fun error s' ↦ post (.error error) s') s := by
  simp only [wp, attempt]
  cases program s <;> rfl

/-! ## Citing a specification -/

/-- A run that is the same as another one. -/
theorem wp_congr {other : EStateM ε σ α} (h : program s = other s') :
    wp program post fail s ↔ wp other post fail s' := by
  unfold wp
  rw [h]

theorem wp_mono (h : wp program stronger worse s) (hpost : ∀ value s', stronger value s' → post value s')
    (hfail : ∀ error s', worse error s' → fail error s') : wp program post fail s := by
  unfold wp at h ⊢
  cases hrun : program s with
  | ok value s' =>
    rw [hrun] at h
    exact hpost value s' h
  | error error s' =>
    rw [hrun] at h
    exact hfail error s' h

/-- The rule for a call: the specification of the callee, then the continuation from its outcomes. -/
theorem wp_call (h : wp program stronger worse s)
    (hnext : ∀ value s', stronger value s' → wp (next value) after fail s')
    (hfail : ∀ error s', worse error s' → fail error s') : wp (program >>= next) after fail s :=
  wp_bind.mpr (wp_mono h hnext hfail)

theorem wp_and (h : wp program post fail s) (h' : wp program stronger worse s) :
    wp program (fun value s' ↦ post value s' ∧ stronger value s')
      (fun error s' ↦ fail error s' ∧ worse error s') s := by
  unfold wp at h h' ⊢
  cases hrun : program s with
  | ok value s' =>
    rw [hrun] at h h'
    exact ⟨h, h'⟩
  | error error s' =>
    rw [hrun] at h h'
    exact ⟨h, h'⟩

theorem wp_ok (hrun : program s = .ok value s') : wp program post fail s ↔ post value s' := by
  rw [wp, hrun]

theorem wp_error (hrun : program s = .error error s') : wp program post fail s ↔ fail error s' := by
  rw [wp, hrun]

/-- The state a run ends in is its final state. -/
theorem wp_finalState : wp program (fun _ s' ↦ s' = finalState program s)
    (fun _ s' ↦ s' = finalState program s) s := by
  unfold wp finalState
  cases program s <;> rfl

theorem wp_trivial : wp program (fun _ _ ↦ True) (fun _ _ ↦ True) s := by
  unfold wp
  cases program s <;> trivial

theorem eq_ok_of_valueOf (h : valueOf program s = some value) : program s = .ok value (finalState program s) := by
  rw [valueOf] at h
  rw [finalState]
  cases hrun : program s with
  | ok found s' =>
    rw [hrun] at h
    cases h
    rfl
  | error error s' =>
    rw [hrun] at h
    cases h

theorem eq_ok_of_returns {program : EStateM ε σ Unit} (h : returns program s = true) :
    program s = .ok () (finalState program s) := by
  unfold returns at h
  unfold finalState
  cases hrun : program s with
  | ok value s' => rfl
  | error error s' =>
    rw [hrun] at h
    cases h

/-- What holds of a run that returned. -/
theorem of_returns {post : σ → Prop} (h : wp program (fun _ ↦ post) fail s)
    (hreturns : returns program s = true) : post (finalState program s) := by
  unfold returns at hreturns
  unfold wp at h
  unfold finalState
  cases hrun : program s with
  | ok value s' => rwa [hrun] at h
  | error error s' =>
    rw [hrun] at hreturns
    cases hreturns

/-- What holds of a run that threw. -/
theorem of_throws {fail : σ → Prop} (h : wp program post (fun _ ↦ fail) s)
    (hthrows : ¬ returns program s = true) : fail (finalState program s) := by
  unfold returns at hthrows
  unfold wp at h
  unfold finalState
  cases hrun : program s with
  | ok value s' =>
    rw [hrun] at hthrows
    exact absurd rfl hthrows
  | error error s' => rwa [hrun] at h

/-- A program whose value is not used. -/
theorem finalState_discard : finalState (do let _ ← program) s = finalState program s := by
  simp only [finalState, bind, EStateM.bind]
  cases program s <;> rfl

/-- A program that cannot throw from `s` returns. -/
theorem exists_ok_of_wp (h : wp program post (fun _ _ ↦ False) s) :
    ∃ value s', program s = .ok value s' ∧ post value s' := by
  unfold wp at h
  cases hrun : program s with
  | ok value s' =>
    rw [hrun] at h
    exact ⟨value, s', rfl, h⟩
  | error error s' =>
    rw [hrun] at h
    exact h.elim

/-! ## Invariants -/

/-- Whatever way a run from a state of `inv` ends, it ends in a state of `inv`. -/
def Preserves (inv : σ → Prop) (program : EStateM ε σ α) : Prop :=
  ∀ s, inv s → wp program (fun _ ↦ inv) (fun _ ↦ inv) s

section

variable {inv : σ → Prop}

theorem preserves_pure (value : α) : Preserves inv (pure value : EStateM ε σ α) := fun _ hs ↦ hs

theorem preserves_throw (error : ε) : Preserves inv (throw error : EStateM ε σ α) := fun _ hs ↦ hs

theorem preserves_get : Preserves inv (get : EStateM ε σ σ) := fun _ hs ↦ hs

theorem preserves_modify {f : σ → σ} (h : ∀ s, inv s → inv (f s)) :
    Preserves inv (modify f : EStateM ε σ PUnit) := h

theorem Preserves.bind (h : Preserves inv program) (hnext : ∀ value, Preserves inv (next value)) :
    Preserves inv (program >>= next) := by
  intro s hs
  rw [wp_bind]
  apply wp_mono (h s hs)
  · exact fun value s' hs' ↦ hnext value s' hs'
  · exact fun _ _ hs' ↦ hs'

/-- What is done after a `get`, for any state of `inv` that is found. -/
theorem preserves_get_bind {next : σ → EStateM ε σ β} (h : ∀ found, inv found → Preserves inv (next found)) :
    Preserves inv (get >>= next) := by
  intro s hs
  rw [wp_bind, wp_get]
  exact h s hs s hs

theorem preserves_set {s' : σ} (h : inv s') : Preserves inv (set s' : EStateM ε σ PUnit) := fun _ _ ↦ h

theorem Preserves.ite {condition : Prop} [Decidable condition] {other : EStateM ε σ α}
    (h : Preserves inv program) (hother : Preserves inv other) :
    Preserves inv (if condition then program else other) := by
  by_cases hcondition : condition
  · rwa [if_pos hcondition]
  · rwa [if_neg hcondition]

theorem Preserves.forM {l : List α} {body : α → EStateM ε σ PUnit}
    (h : ∀ a, Preserves inv (body a)) : Preserves inv (l.forM body) := by
  induction l with
  | nil => exact preserves_pure _
  | cons a l ih =>
    rw [List.forM_eq_forM, List.forM_cons]
    exact (h a).bind fun _ ↦ ih

/-- A program on a part of the state that the invariant does not look at. -/
theorem preserves_zoom {τ ε' : Type} {view : σ → τ} {update : τ → σ → σ} {wrap : ε' → ε}
    (program : EStateM ε' τ α) (h : ∀ part s, inv s → inv (update part s)) :
    Preserves inv (zoom view update wrap program) := by
  intro s hs
  rw [wp_zoom]
  have hboth : wp program (fun _ _ ↦ True) (fun _ _ ↦ True) (view s) := wp_trivial
  apply wp_mono hboth
  · exact fun _ part _ ↦ h part s hs
  · exact fun _ part _ ↦ h part s hs

/-- A program on a part of the state of which the invariant speaks. -/
theorem Preserves.zoom {τ ε' : Type} {part : τ → Prop} {view : σ → τ} {update : τ → σ → σ}
    {wrap : ε' → ε} {program : EStateM ε' τ α} (h : Preserves part program)
    (hview : ∀ s, inv s → part (view s)) (hupdate : ∀ t s, inv s → part t → inv (update t s)) :
    Preserves inv (Exec.zoom view update wrap program) := by
  intro s hs
  rw [wp_zoom]
  apply wp_mono (h (view s) (hview s hs))
  · exact fun _ t ht ↦ hupdate t s hs ht
  · exact fun _ t ht ↦ hupdate t s hs ht

theorem Preserves.onException {handler : ε → EStateM ε σ ε} (h : Preserves inv program)
    (hhandler : ∀ error, Preserves inv (handler error)) :
    Preserves inv (Exec.onException program handler) := by
  intro s hs
  rw [wp_onException]
  apply wp_mono (h s hs)
  · exact fun _ _ hs' ↦ hs'
  · exact fun error s' hs' ↦ hhandler error s' hs'

end

/-! ## Partial correctness -/

/-- When a run from `pre` returns, it does so in `post`. -/
def Leads (pre : σ → Prop) (program : EStateM ε σ α) (post : α → σ → Prop) : Prop :=
  ∀ s, pre s → wp program post (fun _ _ ↦ True) s

section

variable {pre : σ → Prop}

theorem leads_pure (h : ∀ s, pre s → post value s) : Leads pre (pure value : EStateM ε σ α) post := h

theorem leads_throw (error : ε) : Leads pre (throw error : EStateM ε σ α) post := fun _ _ ↦ trivial

theorem leads_get_bind {next : σ → EStateM ε σ β}
    (h : ∀ found, pre found → Leads (fun s ↦ s = found) (next found) after) :
    Leads pre (get >>= next) after := by
  intro s hs
  rw [wp_bind, wp_get]
  exact h s hs s rfl

theorem leads_modify {f : σ → σ} {post : PUnit → σ → Prop} (h : ∀ s, pre s → post ⟨⟩ (f s)) :
    Leads pre (modify f : EStateM ε σ PUnit) post := h

theorem Leads.bind (h : Leads pre program post) (hnext : ∀ value, Leads (post value) (next value) after) :
    Leads pre (program >>= next) after := by
  intro s hs
  apply wp_call (h s hs)
  · exact fun value s' hs' ↦ hnext value s' hs'
  · exact fun _ _ _ ↦ trivial

theorem Leads.ite {condition : Prop} [Decidable condition] {other : EStateM ε σ α}
    (h : condition → Leads pre program post) (hother : ¬ condition → Leads pre other post) :
    Leads pre (if condition then program else other) post := by
  by_cases hcondition : condition
  · rw [if_pos hcondition]
    exact h hcondition
  · rw [if_neg hcondition]
    exact hother hcondition

theorem Leads.mono {pre' : σ → Prop} (h : Leads pre program post) (hpre : ∀ s, pre' s → pre s)
    (hpost : ∀ value s, post value s → stronger value s) : Leads pre' program stronger := by
  intro s hs
  apply wp_mono (h s (hpre s hs))
  · exact fun value s' ↦ hpost value s'
  · exact fun _ _ _ ↦ trivial

theorem Preserves.leads {inv : σ → Prop} (h : Preserves inv program) : Leads inv program (fun _ ↦ inv) := by
  intro s hs
  apply wp_mono (h s hs)
  · exact fun _ _ hs' ↦ hs'
  · exact fun _ _ _ ↦ trivial

theorem Leads.of_ok (h : Leads pre program post) (hs : pre s) (hrun : program s = .ok value s') :
    post value s' := by
  have hspec := h s hs
  rwa [wp_ok hrun] at hspec

end

theorem finalState_of_wp {inv : σ → Prop} (h : wp program (fun _ ↦ inv) (fun _ ↦ inv) s) :
    inv (finalState program s) := by
  unfold wp at h
  unfold finalState
  cases hrun : program s with
  | ok value s' => rwa [hrun] at h
  | error error s' => rwa [hrun] at h

theorem Preserves.finalState {inv : σ → Prop} (h : Preserves inv program) (hs : inv s) :
    inv (Exec.finalState program s) :=
  finalState_of_wp (h s hs)

/-! ## Two runs -/

/-- Both runs return the same value or throw the same exception, in states that are related. -/
def Agree {τ : Type} (rel : σ → τ → Prop) (left : EStateM ε σ α) (s : σ) (right : EStateM ε τ α)
    (t : τ) : Prop :=
  match left s, right t with
  | .ok value s', .ok value' t' => value = value' ∧ rel s' t'
  | .error error s', .error error' t' => error = error' ∧ rel s' t'
  | _, _ => False

section

variable {τ : Type} {rel : σ → τ → Prop} {t : τ}

theorem agree_pure (value : α) (h : rel s t) :
    Agree rel (pure value : EStateM ε σ α) s (pure value : EStateM ε τ α) t := ⟨rfl, h⟩

theorem agree_throw (error : ε) (h : rel s t) :
    Agree rel (throw error : EStateM ε σ α) s (throw error : EStateM ε τ α) t := ⟨rfl, h⟩

theorem agree_get {next : σ → EStateM ε σ α} {nextRight : τ → EStateM ε τ α} :
    Agree rel (get >>= next) s (get >>= nextRight) t ↔ Agree rel (next s) s (nextRight t) t := Iff.rfl

theorem agree_set {s' : σ} {t' : τ} (h : rel s' t') :
    Agree rel (set s' : EStateM ε σ PUnit) s (set t' : EStateM ε τ PUnit) t := ⟨rfl, h⟩

theorem agree_modify {f : σ → σ} {g : τ → τ} (h : rel (f s) (g t)) :
    Agree rel (modify f : EStateM ε σ PUnit) s (modify g : EStateM ε τ PUnit) t := ⟨rfl, h⟩

theorem Agree.bind {left : EStateM ε σ α} {right : EStateM ε τ α} {nextRight : α → EStateM ε τ β}
    (h : Agree rel left s right t)
    (hnext : ∀ value s' t', rel s' t' → Agree rel (next value) s' (nextRight value) t') :
    Agree rel (left >>= next) s (right >>= nextRight) t := by
  unfold Agree at h
  simp only [Agree, Bind.bind, EStateM.bind]
  cases hleft : left s with
  | ok value s' =>
    cases hright : right t with
    | ok value' t' =>
      rw [hleft, hright] at h
      rw [← h.1]
      exact hnext value s' t' h.2
    | error error' t' =>
      rw [hleft, hright] at h
      exact h.elim
  | error error s' =>
    cases hright : right t with
    | ok value' t' =>
      rw [hleft, hright] at h
      exact h.elim
    | error error' t' =>
      rw [hleft, hright] at h
      exact h

theorem Agree.of_ok {left : EStateM ε σ α} {right : EStateM ε τ α} (h : Agree rel left s right t)
    (hrun : left s = .ok value s') : ∃ t', right t = .ok value t' ∧ rel s' t' := by
  rw [Agree, hrun] at h
  cases hright : right t with
  | ok value' t' =>
    rw [hright] at h
    exact ⟨t', h.1 ▸ rfl, h.2⟩
  | error error t' =>
    rw [hright] at h
    exact h.elim

theorem Agree.of_error {left : EStateM ε σ α} {right : EStateM ε τ α} {error : ε} (h : Agree rel left s right t)
    (hrun : left s = .error error s') : ∃ t', right t = .error error t' ∧ rel s' t' := by
  rw [Agree, hrun] at h
  cases hright : right t with
  | ok value' t' =>
    rw [hright] at h
    exact h.elim
  | error error' t' =>
    rw [hright] at h
    exact ⟨t', h.1 ▸ rfl, h.2⟩

/-- The first parts succeed. -/
theorem Agree.bind_ok {left : EStateM ε σ α} {right : EStateM ε τ α} {nextRight : α → EStateM ε τ β}
    {s' : σ} {t' : τ} (hleft : left s = .ok value s') (hright : right t = .ok value t')
    (h : Agree rel (next value) s' (nextRight value) t') :
    Agree rel (left >>= next) s (right >>= nextRight) t := by
  simp only [Agree, Bind.bind, EStateM.bind, hleft, hright]
  exact h

theorem Agree.ite {condition condition' : Prop} [Decidable condition] [Decidable condition']
    {left other : EStateM ε σ α} {right otherRight : EStateM ε τ α} (hiff : condition ↔ condition')
    (h : condition → Agree rel left s right t) (hother : ¬ condition → Agree rel other s otherRight t) :
    Agree rel (if condition then left else other) s (if condition' then right else otherRight) t := by
  by_cases hcondition : condition
  · rw [if_pos hcondition, if_pos (hiff.mp hcondition)]
    exact h hcondition
  · rw [if_neg hcondition, if_neg fun h' ↦ hcondition (hiff.mpr h')]
    exact hother hcondition

/-- Programs that agree on a part of the state. -/
theorem Agree.zoom {ρ ρ' ε' : Type} {part : ρ → ρ' → Prop} {view : σ → ρ} {update : ρ → σ → σ}
    {view' : τ → ρ'} {update' : ρ' → τ → τ} {wrap : ε' → ε} {left : EStateM ε' ρ α}
    {right : EStateM ε' ρ' α} (h : Agree part left (view s) right (view' t))
    (hupdate : ∀ r r', part r r' → rel (update r s) (update' r' t)) :
    Agree rel (Exec.zoom view update wrap left) s (Exec.zoom view' update' wrap right) t := by
  unfold Agree at h
  simp only [Agree, Exec.zoom]
  cases hleft : left (view s) with
  | ok value r =>
    cases hright : right (view' t) with
    | ok value' r' =>
      rw [hleft, hright] at h
      exact ⟨h.1, hupdate r r' h.2⟩
    | error error' r' =>
      rw [hleft, hright] at h
      exact h.elim
  | error error r =>
    cases hright : right (view' t) with
    | ok value' r' =>
      rw [hleft, hright] at h
      exact h.elim
    | error error' r' =>
      rw [hleft, hright] at h
      exact ⟨congrArg wrap h.1, hupdate r r' h.2⟩

end

end DxApi.Exec
