import DxApi.Cursor.TickCursor

/-!
# The table of streams

`findStreamId` looks a stream up in `streamIndex`, and `registerNewStream` writes the key to
`streamKeys` alone. So no stream is ever found: a key is accepted again under the next number, and
`modifyStreams` notes a registered stream as one that has not come up yet.
-/

namespace DxApi.Cursor

open Exec

/-- What happens to the stream part of a subscription state; the id of a stream is a byte. -/
inductive StreamStep
  | register (newId : UInt8) (streamKey : Name)
  | clear
  | filter (streams : Option (List TickStream)) (action : SubscrChangeAction)

def StreamStep.program : StreamStep → SubscriptionM Unit
  | .register newId streamKey => registerNewStream newId.toNat streamKey
  | .clear => modify fun s ↦ { s with tables := SymbolTranslator.empty }
  | .filter streams action => filterStreams streams action

def runStreamSteps (steps : List StreamStep) (s : SubscriptionState) : SubscriptionState :=
  steps.foldl (fun s step ↦ finalState step.program s) s

/-- The keys by number that were registered since the last `clear`. -/
def StreamStep.keys (keys : List Name) : StreamStep → List Name
  | .register newId streamKey => if newId.toNat = keys.length then keys ++ [streamKey] else keys
  | .clear => []
  | .filter _ _ => keys

def registeredStreams (steps : List StreamStep) (keys : List Name) : List Name :=
  steps.foldl StreamStep.keys keys

/-- The table answers for what is registered. -/
structure StreamTableAnswers (s : SubscriptionState) (keys : List Name) : Prop where
  found : ∀ id key, keys[id]? = some key → s.tables.findStreamId key = some id
  unknown : ∀ key ∉ keys, s.tables.findStreamId key = none
  rejects : ∀ key ∈ keys, ∀ newId, returns (registerNewStream newId key) s = false
  /-- A change that names a registered stream sets its entry, and none else. -/
  filtered : ∀ id stream, keys[id]? = some stream.key → ∀ isRemoving, ∃ lut s',
    s.changeStream isRemoving stream = some s' ∧ s.streams.isSkipped.set id isRemoving = some lut ∧
      s'.streams = { s.streams with isSkipped := lut }

/-- What holds of the stream tables after any steps. -/
structure StreamTables (keys : List Name) (s : SubscriptionState) : Prop where
  index_eq : ∀ key, s.tables.streamIndex key = none
  keys_eq : s.tables.streamKeys = keys

section

variable {keys : List Name} {s : SubscriptionState}

theorem orOutOfRange_tables {f : SubscriptionState → Option SubscriptionState}
    (hf : ∀ s s', f s = some s' → s'.tables = s.tables) : Preserves (StreamTables keys) (orOutOfRange f) := by
  apply preserves_get_bind
  intro found hfound
  cases hnext : f found with
  | none => exact preserves_throw _
  | some next =>
    apply preserves_set
    have htables := hf found next hnext
    constructor
    · rw [htables]
      exact hfound.index_eq
    · rw [htables]
      exact hfound.keys_eq

theorem filterStreams_tables (streams : Option (List TickStream)) (action : SubscrChangeAction) :
    Preserves (StreamTables keys) (filterStreams streams action) := by
  have hlist : Preserves (StreamTables keys)
      ((streams.getD []).forM fun stream ↦ orOutOfRange (·.changeStream (action = .remove) stream)) := by
    apply Preserves.forM
    intro stream
    apply orOutOfRange_tables
    intro s s' hchange
    obtain ⟨filter, -, rfl⟩ := Option.map_eq_some_iff.mp hchange
    rfl
  have hrest : Preserves (StreamTables keys) (do
      (streams.getD []).forM fun stream ↦ orOutOfRange (·.changeStream (action = .remove) stream)
      modify fun s ↦ { s with tickdbStreams := none :: s.tickdbStreams.filter Option.isSome }) := by
    apply hlist.bind
    exact fun _ ↦ preserves_modify fun _ hs ↦ ⟨hs.index_eq, hs.keys_eq⟩
  rw [filterStreams]
  apply Preserves.ite
  · apply Preserves.bind
    · exact preserves_modify fun _ hs ↦ ⟨hs.index_eq, hs.keys_eq⟩
    · exact fun _ ↦ hrest
  · exact hrest

/-- `registerNewStream` writes the key alone. -/
theorem registerNewStream_tables (newId : UInt8) (streamKey : Name) (h : StreamTables keys s) :
    StreamTables (StreamStep.keys keys (.register newId streamKey))
      (finalState (registerNewStream newId.toNat streamKey) s) := by
  have hunknown : (s.tables.findStreamId streamKey).isSome = false := by
    rw [SymbolTranslator.findStreamId, h.index_eq]
    rfl
  apply finalState_of_wp
  rw [registerNewStream, wp_bind, wp_get, StreamStep.keys, hunknown, h.keys_eq, wp_ite]
  constructor
  · intro hrefused
    have hid : ¬ newId.toNat = keys.length := by
      rcases hrefused with hne | hnot
      · exact Ne.symm hne
      · exact absurd hnot Bool.false_ne_true
    rw [if_neg hid]
    exact h
  · intro haccepted
    have hid : newId.toNat = keys.length := (not_not.mp fun hne ↦ haccepted (.inl hne)).symm
    rw [if_pos hid, wp_bind, wp_set]
    apply orOutOfRange_tables
    · intro s s' hsettle
      obtain ⟨filter, -, rfl⟩ := Option.map_eq_some_iff.mp hsettle
      rfl
    · exact ⟨h.index_eq, rfl⟩

theorem StreamTables.run (h : StreamTables keys s) (steps : List StreamStep) :
    StreamTables (registeredStreams steps keys) (runStreamSteps steps s) := by
  induction steps generalizing s keys with
  | nil => exact h
  | cons step steps ih =>
    apply ih
    cases step with
    | register newId streamKey => exact registerNewStream_tables newId streamKey h
    | clear => exact ⟨fun _ ↦ rfl, rfl⟩
    | filter streams action => exact (filterStreams_tables streams action).finalState h

/-- After any steps the table answers if and only if there is nothing to answer for. -/
theorem streamTableAnswers_iff (steps : List StreamStep) :
    StreamTableAnswers (runStreamSteps steps .empty) (registeredStreams steps []) ↔
      registeredStreams steps [] = [] := by
  have hempty : StreamTables [] SubscriptionState.empty := ⟨fun _ ↦ rfl, rfl⟩
  have hindex := (hempty.run steps).index_eq
  constructor
  · intro hanswers
    cases hkeys : registeredStreams steps [] with
    | nil => rfl
    | cons key keys =>
      have hfound := hanswers.found 0 key (by rw [hkeys]; rfl)
      rw [SymbolTranslator.findStreamId, hindex] at hfound
      cases hfound
  · intro hnone
    rw [hnone]
    constructor
    · exact fun _ _ hget ↦ absurd hget (by simp)
    · exact fun key _ ↦ hindex key
    · exact fun _ hmem ↦ absurd hmem List.not_mem_nil
    · exact fun _ _ hget ↦ absurd hget (by simp)

end

/-- One stream was registered and is not found. -/
theorem registered_stream_not_found :
    ¬ ∀ steps : List StreamStep,
      StreamTableAnswers (runStreamSteps steps .empty) (registeredStreams steps []) := by
  intro hall
  have hfound := (hall [.register 0 [65]]).found 0 [65] rfl
  revert hfound
  decide +kernel

end DxApi.Cursor
