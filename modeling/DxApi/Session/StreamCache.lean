import DxApi.Lib.Exec
import Mathlib.Data.Set.Insert
import Mathlib.Tactic.Ring

/-!
# The cache of streams

The session thread keeps the cache of streams up to date with what the server announces. A
definition of a stream that is cached goes through `StreamOptions::operator==`, which does not
compare the periodicity, so a definition that differs in the periodicity alone is dropped.
-/

namespace DxApi.Session

open Exec

structure BufferOptions where
  initialBufferSize : ℕ
  maxBufferSize : ℕ
  maxBufferTimeDepth : ℕ
  lossless : Bool
  deriving DecidableEq, Repr

def BufferOptions.default : BufferOptions := ⟨0x2000, 0x10000, 2 ^ 63 - 1, false⟩

/-- `unknown` is what a text that names no scope is read as. -/
inductive StreamScope
  | durable
  | externalFile
  | transient
  | runtime
  | unknown
  deriving DecidableEq, Repr

structure StreamOptions where
  name : Option String
  description : Option String
  owner : Option String
  location : Option String
  bufferOptions : BufferOptions
  scope : StreamScope
  distributionFactor : ℤ
  distributionRuleName : Option String
  duplicatesAllowed : Bool
  highAvailability : Bool
  unique : Bool
  polymorphic : Bool
  periodicity : String
  metadata : Option String
  deriving DecidableEq, Repr

def StreamOptions.default : StreamOptions :=
  ⟨none, none, none, none, .default, .durable, 0, none, true, false, false, false, "IRREGULAR", none⟩

/-- `operator==`. -/
def StreamOptions.equals (options other : StreamOptions) : Bool :=
  options.name = other.name
    && options.description = other.description
    && options.owner = other.owner
    && options.scope = other.scope
    && options.distributionFactor = other.distributionFactor
    && options.distributionRuleName = other.distributionRuleName
    && options.location = other.location
    && options.duplicatesAllowed = other.duplicatesAllowed
    && options.highAvailability = other.highAvailability
    && options.unique = other.unique
    && options.polymorphic = other.polymorphic
    && options.metadata = other.metadata
    && options.bufferOptions = other.bufferOptions

/-- Equal in every field that `fromXML` reads. -/
def StreamOptions.EqualAsRead (options other : StreamOptions) : Prop :=
  { options with distributionRuleName := none } = { other with distributionRuleName := none }

structure StreamInfo where
  key : String
  options : StreamOptions

/-- A `TickStreamImpl`. -/
structure CachedStream where
  key : String
  options : StreamOptions
  updateCount : ℕ

/-- The members of the session handler and of the database that the events touch. -/
structure SessionCache where
  streams : String → Option CachedStream
  neededStreamDefs : List String
  knownStreamDefs : List String
  nStreamDefRequestsReceived : ℕ

def SessionCache.empty : SessionCache := ⟨fun _ ↦ none, [], [], 0⟩

inductive CacheError
  | alreadyPresent (key : String)
  deriving DecidableEq, Repr

abbrev CacheM (α : Type) := EStateM CacheError SessionCache α

/-- `add` of a set. -/
def addKey (keys : List String) (key : String) : List String :=
  if key ∈ keys then keys else keys ++ [key]

/-! ## The cache -/

def putStream (key : String) (stream : Option CachedStream) (s : SessionCache) : SessionCache :=
  { s with streams := fun other ↦ if other = key then stream else s.streams other }

/-- `get`. -/
def getStream (key : String) : CacheM (Option CachedStream) := do
  return (← get).streams key

def tryRemove (key : String) : CacheM (Option CachedStream) := do
  let found ← getStream key
  if found.isSome then
    modify (putStream key none)
    return found
  else
    return found

/-- `add`. -/
def addStream (stream : CachedStream) : CacheM Unit := do
  let found ← getStream stream.key
  if found.isSome then
    throw (.alreadyPresent stream.key)
  else
    modify (putStream stream.key (some stream))

def allocateStream (key : String) (options : StreamOptions) : CachedStream := ⟨key, options, 1⟩

def CachedStream.updateOptions (stream : CachedStream) (options : StreamOptions) : CachedStream :=
  if stream.options.equals options then
    stream
  else
    { stream with options := options, updateCount := stream.updateCount + 1 }

/-! ## The events -/

def onStreamDeleted (key : String) : CacheM Unit := do
  let _ ← tryRemove key

def neededStream (key : String) : CacheM Unit :=
  modify fun s ↦ { s with neededStreamDefs := addKey s.neededStreamDefs key }

def receive_STREAM_DELETED (key : String) : CacheM Unit := onStreamDeleted key

def receive_STREAM_CREATED (key : String) : CacheM Unit := neededStream key

def receive_STREAM_RENAMED (oldKey newKey : String) : CacheM Unit := do
  onStreamDeleted oldKey
  neededStream newKey

/-- The body of the loop over the definitions, for what `cache().get` found. -/
def defineStream (info : StreamInfo) : Option CachedStream → CacheM Unit
  | none => addStream (allocateStream info.key info.options)
  | some stream => modify (putStream info.key (some (stream.updateOptions info.options)))

def defineStreams : List StreamInfo → CacheM Unit
  | [] => return
  | info :: rest => do
    defineStream info (← getStream info.key)
    defineStreams rest

def countReceived (s : SessionCache) : SessionCache :=
  { s with nStreamDefRequestsReceived := s.nStreamDefRequestsReceived + 1 }

/-- The definitions are those of a response that was parsed; an empty response has none. -/
def receive_STREAMS_DEFINITION (newStreams : List StreamInfo) : CacheM Unit := do
  onException (do
    defineStreams newStreams
    modify fun s ↦ { s with knownStreamDefs := (newStreams.map StreamInfo.key).foldl addKey s.knownStreamDefs })
    fun error ↦ do
      modify countReceived
      return error
  modify countReceived

inductive SessionEvent
  | streamDeleted (key : String)
  | streamCreated (key : String)
  | streamRenamed (oldKey newKey : String)
  | streamsDefinition (newStreams : List StreamInfo)

def SessionEvent.receive : SessionEvent → CacheM Unit
  | .streamDeleted key => receive_STREAM_DELETED key
  | .streamCreated key => receive_STREAM_CREATED key
  | .streamRenamed oldKey newKey => receive_STREAM_RENAMED oldKey newKey
  | .streamsDefinition newStreams => receive_STREAMS_DEFINITION newStreams

def runEvents (events : List SessionEvent) : SessionCache :=
  events.foldl (fun s event ↦ finalState event.receive s) .empty

/-! ## What the server announced -/

inductive Announcement
  | removed (key : String)
  | defined (info : StreamInfo)

/-- A stream that is renamed leaves under its old key; it enters under the new one with its
definition. -/
def SessionEvent.announcements : SessionEvent → List Announcement
  | .streamDeleted key => [.removed key]
  | .streamCreated _ => []
  | .streamRenamed oldKey _ => [.removed oldKey]
  | .streamsDefinition newStreams => newStreams.map .defined

def announced (events : List SessionEvent) : List Announcement := events.flatMap SessionEvent.announcements

def Announcement.replayKeys (keys : Set String) : Announcement → Set String
  | .removed key => keys \ {key}
  | .defined info => insert info.key keys

def replayedKeys (announcements : List Announcement) : Set String :=
  announcements.foldl Announcement.replayKeys ∅

/-- The last definition received for a key. -/
def lastDefinition (key : String) (announcements : List Announcement) : Option StreamOptions :=
  announcements.foldl (fun
    | last, .removed _ => last
    | last, .defined info => if info.key = key then some info.options else last) none

/-- The definitions received for a key since it was last removed, the last one first. -/
def definitions (key : String) (announcements : List Announcement) : List StreamOptions :=
  announcements.foldl (fun
    | received, .removed removed => if removed = key then [] else received
    | received, .defined info => if info.key = key then info.options :: received else received) []

/-- The first of the definitions that compare equal to the last one without a break. -/
def seriesStart : List StreamOptions → Option StreamOptions
  | [] => none
  | last :: earlier => (last :: earlier.takeWhile fun options ↦ options.equals last).getLast?

/-- The cache is what the server announced. -/
structure MirrorsAnnouncements (s : SessionCache) (announcements : List Announcement) : Prop where
  keys_eq : { key | (s.streams key).isSome } = replayedKeys announcements
  options_eq : ∀ key stream, s.streams key = some stream →
    ∃ last, lastDefinition key announcements = some last ∧ stream.options.EqualAsRead last

/-- Each key of the set: the definition that began the last series has the periodicity of the last
definition. -/
def PeriodicityKept (announcements : List Announcement) : Prop :=
  ∀ key ∈ replayedKeys announcements, ∀ start last, seriesStart (definitions key announcements) = some start →
    (definitions key announcements).head? = some last → start.periodicity = last.periodicity

/-! ## Comparing options -/

section

variable {a b c : StreamOptions}

theorem StreamOptions.equals_iff : a.equals b = true ↔ { a with periodicity := b.periodicity } = b := by
  cases a
  cases b
  simp only [equals, Bool.and_eq_true, decide_eq_true_eq, mk.injEq]
  constructor
  · rintro ⟨⟨⟨⟨⟨⟨⟨⟨⟨⟨⟨⟨hname, hdescription⟩, howner⟩, hscope⟩, hfactor⟩, hrule⟩, hlocation⟩, hduplicates⟩,
      havailability⟩, hunique⟩, hpolymorphic⟩, hmetadata⟩, hbuffer⟩
    exact ⟨hname, hdescription, howner, hlocation, hbuffer, hscope, hfactor, hrule, hduplicates, havailability,
      hunique, hpolymorphic, trivial, hmetadata⟩
  · rintro ⟨hname, hdescription, howner, hlocation, hbuffer, hscope, hfactor, hrule, hduplicates, havailability,
      hunique, hpolymorphic, -, hmetadata⟩
    exact ⟨⟨⟨⟨⟨⟨⟨⟨⟨⟨⟨⟨hname, hdescription⟩, howner⟩, hscope⟩, hfactor⟩, hrule⟩, hlocation⟩, hduplicates⟩,
      havailability⟩, hunique⟩, hpolymorphic⟩, hmetadata⟩, hbuffer⟩

theorem StreamOptions.equals_refl (a : StreamOptions) : a.equals a = true := equals_iff.mpr rfl

theorem StreamOptions.equals_symm (h : a.equals b = true) : b.equals a = true := by
  rw [equals_iff] at h ⊢
  rw [← h]

theorem StreamOptions.equals_trans (h : a.equals b = true) (h' : b.equals c = true) : a.equals c = true := by
  rw [equals_iff] at h h' ⊢
  rw [← h', ← h]

/-- Options that compare equal compare alike with any others. -/
theorem StreamOptions.equals_congr (h : a.equals b = true) : a.equals c = b.equals c := by
  rw [Bool.eq_iff_iff]
  constructor
  · exact equals_trans (equals_symm h)
  · exact equals_trans h

/-- The periodicity is the only field that is read and not compared. -/
theorem StreamOptions.equalAsRead_iff (h : a.equals b = true) : a.EqualAsRead b ↔ a.periodicity = b.periodicity := by
  rw [equals_iff] at h
  rw [EqualAsRead, ← h]
  simp only [mk.injEq, true_and, and_true]

end

/-! ## The series of equal definitions -/

section

variable {options last start : StreamOptions} {earlier : List StreamOptions}

theorem seriesStart_equals (h : seriesStart (last :: earlier) = some start) : start.equals last = true := by
  rw [seriesStart] at h
  rcases List.mem_cons.mp (List.mem_of_getLast? h) with hlast | hmem
  · rw [hlast]
    exact StreamOptions.equals_refl last
  · exact (List.all_eq_true.mp List.all_takeWhile) start hmem

/-- A definition that compares equal continues the series. -/
theorem seriesStart_continued (h : last.equals options = true) :
    seriesStart (options :: last :: earlier) = seriesStart (last :: earlier) := by
  have hcongr : (fun other : StreamOptions ↦ other.equals options) = fun other ↦ other.equals last := by
    funext other
    rw [Bool.eq_iff_iff]
    constructor
    · exact fun hother ↦ StreamOptions.equals_trans hother (StreamOptions.equals_symm h)
    · exact fun hother ↦ StreamOptions.equals_trans hother h
  rw [seriesStart, seriesStart, List.takeWhile_cons, if_pos h, hcongr, List.getLast?_cons_cons]

/-- Any other definition begins a series. -/
theorem seriesStart_broken (h : last.equals options = false) :
    seriesStart (options :: last :: earlier) = some options := by
  rw [seriesStart, List.takeWhile_cons, h]
  rfl

/-- The options kept for a stream that is cached: the definition is dropped or applied. -/
theorem seriesStart_cons (h : seriesStart (last :: earlier) = some start) :
    seriesStart (options :: last :: earlier) = some (if start.equals options then start else options) := by
  rw [StreamOptions.equals_congr (seriesStart_equals h)]
  cases hequals : last.equals options with
  | true => rw [seriesStart_continued hequals, if_pos rfl, h]
  | false => rw [seriesStart_broken hequals, if_neg Bool.false_ne_true]

end

/-! ## One announcement after the other -/

section

variable {key : String} {done : List Announcement}

@[simp]
theorem replayedKeys_removed (removed : String) :
    replayedKeys (done ++ [.removed removed]) = replayedKeys done \ {removed} := by
  rw [replayedKeys, List.foldl_append]
  rfl

@[simp]
theorem replayedKeys_defined (info : StreamInfo) :
    replayedKeys (done ++ [.defined info]) = insert info.key (replayedKeys done) := by
  rw [replayedKeys, List.foldl_append]
  rfl

@[simp]
theorem lastDefinition_removed (removed : String) :
    lastDefinition key (done ++ [.removed removed]) = lastDefinition key done := by
  rw [lastDefinition, List.foldl_append]
  rfl

@[simp]
theorem lastDefinition_defined (info : StreamInfo) :
    lastDefinition key (done ++ [.defined info]) =
      if info.key = key then some info.options else lastDefinition key done := by
  rw [lastDefinition, List.foldl_append]
  rfl

@[simp]
theorem definitions_removed (removed : String) :
    definitions key (done ++ [.removed removed]) = if removed = key then [] else definitions key done := by
  rw [definitions, List.foldl_append]
  rfl

@[simp]
theorem definitions_defined (info : StreamInfo) :
    definitions key (done ++ [.defined info]) =
      if info.key = key then info.options :: definitions key done else definitions key done := by
  rw [definitions, List.foldl_append]
  rfl

end

/-- What a definition makes of what the cache holds for its key. -/
def defineIn (options : StreamOptions) (key : String) : Option CachedStream → CachedStream
  | none => allocateStream key options
  | some stream => stream.updateOptions options

/-- What an announcement does to the streams of the cache. -/
def Announcement.apply (streams : String → Option CachedStream) : Announcement → String → Option CachedStream
  | .removed oldKey, key => if key = oldKey then none else streams key
  | .defined info, key =>
    if key = info.key then some (defineIn info.options key (streams key)) else streams key

/-- What the cache holds for a key, once the announcements were processed. -/
structure KeyTracked (stream : Option CachedStream) (key : String) (done : List Announcement) : Prop where
  options_eq : stream.map CachedStream.options = seriesStart (definitions key done)
  mem_iff : key ∈ replayedKeys done ↔ definitions key done ≠ []
  last_eq : key ∈ replayedKeys done → lastDefinition key done = (definitions key done).head?

section

variable {key : String} {done : List Announcement} {streams : String → Option CachedStream}

/-- A definition keeps the options at the start of the series. -/
theorem defineIn_options {stream : Option CachedStream} {options : StreamOptions}
    {received : List StreamOptions} (h : stream.map CachedStream.options = seriesStart received) :
    (some (defineIn options key stream)).map CachedStream.options = seriesStart (options :: received) := by
  cases received with
  | nil =>
    rw [Option.map_eq_none_iff.mp h]
    rfl
  | cons last earlier =>
    cases stream with
    | none =>
      rw [seriesStart, Option.map_none, eq_comm, List.getLast?_eq_none_iff] at h
      cases h
    | some stream =>
      rw [seriesStart_cons h.symm, defineIn, CachedStream.updateOptions, Option.map_some]
      split <;> rfl

theorem KeyTracked.removed (removed : String) (h : KeyTracked (streams key) key done) :
    KeyTracked (Announcement.apply streams (.removed removed) key) key (done ++ [.removed removed]) := by
  by_cases hkey : key = removed
  · constructor
    · rw [Announcement.apply, if_pos hkey, definitions_removed, if_pos hkey.symm]
      rfl
    · rw [replayedKeys_removed, definitions_removed, if_pos hkey.symm]
      exact iff_of_false (fun hmem ↦ hmem.2 hkey) (not_not_intro rfl)
    · intro hmem
      rw [replayedKeys_removed] at hmem
      exact absurd hkey hmem.2
  · constructor
    · rw [Announcement.apply, if_neg hkey, definitions_removed, if_neg (Ne.symm hkey)]
      exact h.options_eq
    · rw [replayedKeys_removed, definitions_removed, if_neg (Ne.symm hkey), ← h.mem_iff]
      exact and_iff_left hkey
    · intro hmem
      rw [replayedKeys_removed] at hmem
      rw [lastDefinition_removed, definitions_removed, if_neg (Ne.symm hkey)]
      exact h.last_eq hmem.1

theorem KeyTracked.defined (info : StreamInfo) (h : KeyTracked (streams key) key done) :
    KeyTracked (Announcement.apply streams (.defined info) key) key (done ++ [.defined info]) := by
  by_cases hkey : key = info.key
  · constructor
    · rw [Announcement.apply, if_pos hkey, definitions_defined, if_pos hkey.symm]
      exact defineIn_options h.options_eq
    · rw [replayedKeys_defined, definitions_defined, if_pos hkey.symm]
      exact iff_of_true (.inl hkey) (List.cons_ne_nil _ _)
    · intro _
      rw [lastDefinition_defined, definitions_defined, if_pos hkey.symm, if_pos hkey.symm]
      rfl
  · constructor
    · rw [Announcement.apply, if_neg hkey, definitions_defined, if_neg (Ne.symm hkey)]
      exact h.options_eq
    · rw [replayedKeys_defined, definitions_defined, if_neg (Ne.symm hkey), ← h.mem_iff]
      exact or_iff_right hkey
    · intro hmem
      rw [replayedKeys_defined] at hmem
      rw [lastDefinition_defined, definitions_defined, if_neg (Ne.symm hkey), if_neg (Ne.symm hkey)]
      exact h.last_eq (hmem.resolve_left hkey)

theorem KeyTracked.apply (announcement : Announcement) (h : KeyTracked (streams key) key done) :
    KeyTracked (announcement.apply streams key) key (done ++ [announcement]) := by
  cases announcement with
  | removed removed => exact h.removed removed
  | defined info => exact h.defined info

/-- The same for a run of announcements. -/
theorem KeyTracked.applyAll (announcements : List Announcement) (h : KeyTracked (streams key) key done) :
    KeyTracked (announcements.foldl Announcement.apply streams key) key (done ++ announcements) := by
  induction announcements generalizing streams done with
  | nil => rwa [List.append_nil]
  | cons announcement rest ih =>
    rw [List.foldl_cons, List.append_cons]
    exact ih (h.apply announcement)

end

/-! ## The events -/

section

variable {s : SessionCache}

theorem onStreamDeleted_spec (key : String) :
    wp (onStreamDeleted key) (fun _ s' ↦ s'.streams = (Announcement.removed key).apply s.streams)
      (fun _ _ ↦ False) s := by
  rw [onStreamDeleted, tryRemove, getStream, wp_bind, wp_bind, wp_bind, wp_get, wp_pure, wp_ite]
  constructor
  · intro _
    rw [wp_bind, wp_modify, wp_pure, wp_pure]
    rfl
  · intro hnone
    rw [wp_pure, wp_pure]
    funext other
    rw [Announcement.apply]
    by_cases hother : other = key
    · rw [if_pos hother, hother]
      exact Option.not_isSome_iff_eq_none.mp hnone
    · rw [if_neg hother]

theorem putStream_defined {info : StreamInfo} {stream : CachedStream}
    (h : stream = defineIn info.options info.key (s.streams info.key)) :
    (putStream info.key (some stream) s).streams = (Announcement.defined info).apply s.streams := by
  funext other
  rw [Announcement.apply]
  by_cases hother : other = info.key
  · rw [if_pos hother, hother, ← h]
    exact if_pos rfl
  · rw [if_neg hother]
    exact if_neg hother

/-- A stream that is not cached is added without an exception. -/
theorem defineStream_spec (info : StreamInfo) :
    wp (do defineStream info (← getStream info.key))
      (fun _ s' ↦ s'.streams = (Announcement.defined info).apply s.streams) (fun _ _ ↦ False) s := by
  rw [getStream, wp_bind, wp_bind, wp_get, wp_pure]
  cases hstream : s.streams info.key with
  | none =>
    rw [defineStream, addStream, getStream, wp_bind, wp_bind, wp_get, wp_pure, wp_ite, allocateStream, hstream]
    constructor
    · intro hsome
      cases hsome
    · intro _
      rw [wp_modify]
      apply putStream_defined
      rw [hstream]
      rfl
  | some stream =>
    rw [defineStream, wp_modify]
    apply putStream_defined
    rw [hstream]
    rfl

theorem defineStreams_spec (newStreams : List StreamInfo) :
    wp (defineStreams newStreams)
      (fun _ s' ↦ s'.streams = (newStreams.map Announcement.defined).foldl Announcement.apply s.streams)
      (fun _ _ ↦ False) s := by
  induction newStreams generalizing s with
  | nil => exact wp_pure.mpr rfl
  | cons info rest ih =>
    have hbody : defineStreams (info :: rest) =
        (do defineStream info (← getStream info.key)) >>= fun _ ↦ defineStreams rest := by
      rw [defineStreams, bind_assoc]
    rw [hbody]
    apply wp_call (defineStream_spec info)
    · intro _ s' hs'
      rw [List.map_cons, List.foldl_cons, ← hs']
      exact ih
    · exact fun _ _ ↦ id

theorem receive_STREAMS_DEFINITION_spec (newStreams : List StreamInfo) :
    wp (receive_STREAMS_DEFINITION newStreams)
      (fun _ s' ↦ s'.streams = (newStreams.map Announcement.defined).foldl Announcement.apply s.streams)
      (fun _ _ ↦ False) s := by
  rw [receive_STREAMS_DEFINITION, wp_bind, wp_onException]
  apply wp_call (defineStreams_spec newStreams)
  · intro _ s' hs'
    rw [wp_modify, wp_modify]
    exact hs'
  · exact fun _ _ ↦ False.elim

/-- No event throws, and it does to the streams what it announces. -/
theorem receive_spec (event : SessionEvent) :
    wp event.receive (fun _ s' ↦ s'.streams = event.announcements.foldl Announcement.apply s.streams)
      (fun _ _ ↦ False) s := by
  cases event with
  | streamDeleted key => exact onStreamDeleted_spec key
  | streamCreated key => exact wp_modify.mpr rfl
  | streamRenamed oldKey newKey =>
    apply wp_call (onStreamDeleted_spec oldKey)
    · intro _ s' hs'
      exact wp_modify.mpr hs'
    · exact fun _ _ ↦ id
  | streamsDefinition newStreams => exact receive_STREAMS_DEFINITION_spec newStreams

theorem receive_streams (event : SessionEvent) :
    (finalState event.receive s).streams = event.announcements.foldl Announcement.apply s.streams := by
  obtain ⟨value, s', hrun, hs'⟩ := exists_ok_of_wp (receive_spec event)
  rw [finalState, hrun]
  exact hs'

/-- A run of events applies what they announce, one announcement after the other. -/
theorem runEvents_streams (events : List SessionEvent) :
    (runEvents events).streams = (announced events).foldl Announcement.apply SessionCache.empty.streams := by
  rw [runEvents]
  generalize SessionCache.empty = s
  induction events generalizing s with
  | nil => rfl
  | cons event rest ih =>
    rw [List.foldl_cons, ih, receive_streams, announced, announced, List.flatMap_cons, List.foldl_append]

end

theorem runEvents_tracked (events : List SessionEvent) (key : String) :
    KeyTracked ((runEvents events).streams key) key (announced events) := by
  have hempty : KeyTracked (SessionCache.empty.streams key) key [] := by
    constructor
    · rfl
    · exact iff_of_false (Set.notMem_empty key) (not_not_intro rfl)
    · exact fun _ ↦ rfl
  rw [runEvents_streams]
  exact hempty.applyAll (announced events)

theorem seriesStart_isSome (received : List StreamOptions) :
    (seriesStart received).isSome ↔ received ≠ [] := by
  cases received with
  | nil => exact iff_of_false Bool.false_ne_true (not_not_intro rfl)
  | cons last earlier =>
    rw [seriesStart, List.getLast?_isSome]
    exact iff_of_true (List.cons_ne_nil _ _) (List.cons_ne_nil _ _)

/-- The keys are always those of the set. -/
theorem runEvents_keys (events : List SessionEvent) :
    { key | ((runEvents events).streams key).isSome } = replayedKeys (announced events) := by
  ext key
  have htracked := runEvents_tracked events key
  rw [htracked.mem_iff, ← seriesStart_isSome, ← htracked.options_eq, Option.isSome_map]
  rfl

/-- After any events the cache mirrors what was announced, as long as the periodicity of a stream
does not change alone. -/
theorem cache_mirrors_iff (events : List SessionEvent) :
    MirrorsAnnouncements (runEvents events) (announced events) ↔ PeriodicityKept (announced events) := by
  have hread : ∀ {key start last}, key ∈ replayedKeys (announced events) →
      seriesStart (definitions key (announced events)) = some start →
      (definitions key (announced events)).head? = some last →
      (start.EqualAsRead last ↔ start.periodicity = last.periodicity) := by
    intro key start last _ hstart hlast
    obtain ⟨earlier, hcons⟩ := List.head?_eq_some_iff.mp hlast
    rw [hcons] at hstart
    exact StreamOptions.equalAsRead_iff (seriesStart_equals hstart)
  constructor
  · intro h key hkey start last hstart hlast
    have htracked := runEvents_tracked events key
    obtain ⟨stream, hstream, hoptions⟩ := Option.map_eq_some_iff.mp (htracked.options_eq.trans hstart)
    obtain ⟨defined, hdefined, hequal⟩ := h.options_eq key stream hstream
    rw [htracked.last_eq hkey, hlast, Option.some.injEq] at hdefined
    rw [hoptions, ← hdefined] at hequal
    exact (hread hkey hstart hlast).mp hequal
  · intro h
    constructor
    · exact runEvents_keys events
    · intro key stream hstream
      have htracked := runEvents_tracked events key
      have hstart : seriesStart (definitions key (announced events)) = some stream.options := by
        rw [← htracked.options_eq, hstream, Option.map_some]
      have hne := (seriesStart_isSome _).mp (Option.isSome_of_eq_some hstart)
      have hkey := htracked.mem_iff.mpr hne
      have hlast := List.head?_eq_some_head hne
      refine ⟨(definitions key (announced events)).head hne, ?_, ?_⟩
      · rw [htracked.last_eq hkey, hlast]
      · exact (hread hkey hstart hlast).mpr (h key hkey _ _ hstart hlast)

/-- A stream is defined with a periodicity and then with another one. -/
def redefined : List SessionEvent :=
  [.streamsDefinition [⟨"bars", .default⟩],
    .streamsDefinition [⟨"bars", { StreamOptions.default with periodicity := "STATIC" }⟩]]

theorem cache_keeps_periodicity : ¬ MirrorsAnnouncements (runEvents redefined) (announced redefined) := by
  intro h
  obtain ⟨last, hlast, hequal⟩ := h.options_eq "bars" ⟨"bars", .default, 1⟩ rfl
  cases hlast
  exact absurd (congrArg StreamOptions.periodicity hequal) (by decide)

end DxApi.Session
