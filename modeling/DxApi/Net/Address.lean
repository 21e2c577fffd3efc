import DxApi.Net.Uri

/-!
# The address of the server

The address is configured by `setUri`, which parses a text and replaces a port of 0 by the default one.
`createConnection` has the host and the text of the port resolved, and that text is not replaced.
-/

namespace DxApi.Net

open Request

/-! ## The source -/

/-- `TDB::DEFAULT_PORT`. -/
def defaultPort : ℕ := 8011

/-- What it returns, and the member `uri`. -/
def setUri (uri_ : List UInt8) (uri : Uri) : Bool × Uri :=
  let (parsed, uri) := Uri.parse uri_ uri
  if parsed = false then (false, uri)
  else if (uri.protocol ≠ text "dxtick" ∧ uri.protocol ≠ []) ∨ uri.queryString.length ≠ 0 ∨ uri.path.length ≠ 0 then
    (false, uri)
  else (true, if uri.port = 0 then { uri with port := defaultPort } else uri)

/-- The host that `createConnection` has resolved, `uri.host.c_str()`. -/
def resolvedHost (uri : Uri) : List UInt8 := CString.untilZero uri.host

/-- The port, `uri.portString.c_str()`. -/
def resolvedPort (uri : Uri) : List UInt8 := CString.untilZero uri.portString

/-! ## What is configured -/

/-- A service that is one or more digits is the port of that number: the form of a port that the resolver documents,
and the one that `parse` reads. -/
def DenotesPort (service : List UInt8) (port : ℕ) : Prop :=
  service ≠ [] ∧ (∀ c ∈ service, isdigit c) ∧ decimal service = port

/-- The address that is resolved is the one that was recorded. -/
structure AddressKept (uri : Uri) : Prop where
  port : DenotesPort (resolvedPort uri) uri.port
  host : resolvedHost uri = uri.host

/-- A text with an explicit port, of digits and not 0, and a host without a zero byte. -/
structure NamesPort (protocolText host port : List UInt8) : Prop where
  protocolText_eq : protocolText = [] ∨ protocolText = text "://" ∨ protocolText = text "dxtick://"
  host_free : colon ∉ host ∧ slash ∉ host ∧ questionMark ∉ host
  host_nonzero : 0 ∉ host
  port_isPort : IsPort port
  port_ne : decimal port ≠ 0

section

variable {uri_ protocolText host port : List UInt8} {members uri : Uri}

theorem setUri_eq_true (h : setUri uri_ members = (true, uri)) :
    ∃ parsed : Uri, Uri.parse uri_ members = (true, parsed) ∧
      (parsed.protocol = text "dxtick" ∨ parsed.protocol = []) ∧ parsed.queryString = [] ∧ parsed.path = [] ∧
      uri = if parsed.port = 0 then { parsed with port := defaultPort } else parsed := by
  unfold setUri at h
  split at h
  next parsed found hparse =>
  split at h
  · cases h
  next hparsed =>
  split at h
  · cases h
  next hother =>
  simp only [not_or, not_and_or, not_not, List.length_eq_zero_iff, ne_eq] at hother
  have htrue : parsed = true := by simpa using hparsed
  exact ⟨found, by rw [hparse, htrue], hother.1, hother.2.1, hother.2.2, (Prod.mk.inj h).2.symm⟩

/-- The address as components. -/
def NamesPort.components (h : NamesPort protocolText host port) : UriComponents where
  protocol := if protocolText = [] then none else if protocolText = text "://" then some [] else some (text "dxtick")
  host := host
  port := some port
  path := []
  query := []
  protocol_free := by
    split_ifs
    · exact nofun
    · decide
    · decide
  host_free := h.host_free
  port_free := by
    rintro p ⟨⟩
    constructor
    · exact fun hslash ↦ absurd (h.port_isPort.2.1 _ hslash) (by decide)
    · exact fun hmark ↦ absurd (h.port_isPort.2.1 _ hmark) (by decide)
  path_free := List.not_mem_nil
  path_start := fun hne ↦ absurd rfl hne
  query_start := fun hne ↦ absurd rfl hne

theorem NamesPort.composed (h : NamesPort protocolText host port) :
    h.components.composed = protocolText ++ (host ++ colon :: port) := by
  have hprotocolText : h.components.protocolText = protocolText := by
    rcases h.protocolText_eq with rfl | rfl | rfl
    · rfl
    · rfl
    · rfl
  rw [UriComponents.composed, UriComponents.before, hprotocolText]
  simp [UriComponents.authority, UriComponents.portText, components]

theorem NamesPort.readsBack (h : NamesPort protocolText host port) : h.components.ReadsBack := by
  refine ⟨?_, ?_, ?_⟩
  · rw [h.composed]
    simp
  · intro p hp
    refine ⟨?_, ?_⟩
    · have hcases : p = [] ∨ p = text "dxtick" := by
        simp only [components] at hp
        split_ifs at hp
        · cases hp
        · exact .inl (Option.some.inj hp).symm
        · exact .inr (Option.some.inj hp).symm
      rcases hcases with rfl | rfl <;> decide
    · have hauthority : h.components.authority ++ h.components.query = host ++ colon :: port := by
        simp [UriComponents.authority, UriComponents.portText, components]
      rw [hauthority]
      cases hhost : host with
      | nil => exact ⟨colon, rfl, by decide⟩
      | cons d rest =>
        refine ⟨d, rfl, ?_⟩
        rintro rfl
        exact h.host_nonzero (by rw [hhost]; exact List.mem_cons_self)
  · intro _ hport
    cases hport

/-- A text with an explicit port is kept. -/
theorem addressKept_of_namesPort (h : NamesPort protocolText host port)
    (hset : setUri (protocolText ++ (host ++ colon :: port)) members = (true, uri)) : AddressKept uri := by
  obtain ⟨parsed, hparse, -, -, -, rfl⟩ := setUri_eq_true hset
  have hread : Uri.parse h.components.composed members = (true, h.components.uri) :=
    UriComponents.parse_of_readsBack (by rintro p ⟨⟩; exact h.port_isPort) h.readsBack
  rw [h.composed, hparse] at hread
  cases hread
  have hne : h.components.uri.port ≠ 0 := h.port_ne
  rw [if_neg hne]
  have hport : resolvedPort h.components.uri = port := h.port_isPort.isReadAsPort.untilZero
  have hhost : resolvedHost h.components.uri = host := CString.untilZero_bytes ⟨host, h.host_nonzero⟩
  exact ⟨by rw [hport]; exact ⟨h.port_isPort.1, h.port_isPort.2.1, rfl⟩, hhost⟩

/-- What an accepted text consists of, and what is recorded of it. -/
structure Accepted (uri : Uri) (s : SplitText uri_) : Prop where
  query_eq : s.query = []
  path_eq : s.path = []
  protocol_eq : s.protocol = text "dxtick" ∨ s.protocol = []
  port_read : IsReadAsPort (s.port.getD [])
  host_eq : uri.host = s.host
  portString_eq : uri.portString = s.port.getD []
  port_default : IsPort (s.port.getD []) → decimal (s.port.getD []) = 0 → uri.port = defaultPort

theorem exists_accepted (hset : setUri uri_ members = (true, uri)) : ∃ s : SplitText uri_, Accepted uri s := by
  obtain ⟨parsed, hparse, hprotocol, hquery, hpath, huri⟩ := setUri_eq_true hset
  have hne : uri_ ≠ [] := by
    rintro rfl
    cases hparse
  obtain ⟨s⟩ := SplitText.exists_splitText uri_
  rw [parse_eq s hne] at hparse
  have hread : IsReadAsPort (s.port.getD []) := Uri.parsePort_iff.mp (by rw [hparse])
  obtain ⟨port, hparsed⟩ := Uri.parsePort_snd s.uri
  rw [hparse] at hparsed
  cases hparsed
  refine ⟨s, hquery, hpath, hprotocol, hread, ?_, ?_, ?_⟩
  · rw [huri]
    split_ifs <;> rfl
  · rw [huri]
    split_ifs <;> rfl
  · intro hisPort hzero
    have hport : Uri.parsePort s.uri = (true, { s.uri with port := decimal (s.port.getD []) }) :=
      Uri.parsePort_of_isPort hisPort
    rw [hparse] at hport
    have hread : port = 0 := (congrArg (fun result ↦ result.2.port) hport).trans hzero
    rw [huri, hread, if_pos rfl]

/-- The parts of an accepted text with a port. -/
theorem Accepted.namesPort {s : SplitText uri_} (h : Accepted uri s) (hport : s.port = some port)
    (hisPort : IsPort port) (hpositive : decimal port ≠ 0) (hhost : 0 ∉ s.host) :
    uri_ = s.front ++ (s.host ++ colon :: port) ∧ NamesPort s.front s.host port := by
  have hbefore : s.before = s.front ++ (s.host ++ colon :: port) := by
    have hparts := s.before_eq
    rwa [SplitText.portText, hport, Option.elim_some, h.path_eq, List.append_nil] at hparts
  have hmark := s.before_free
  rw [hbefore, List.mem_append, List.mem_append, not_or, not_or] at hmark
  refine ⟨?_, ?_, ⟨s.host_free.1, s.host_free.2, hmark.2.1⟩, hhost, hisPort, hpositive⟩
  · calc
      uri_ = s.before ++ s.query := s.text_eq
      _ = s.front ++ (s.host ++ colon :: port) := by rw [h.query_eq, hbefore, List.append_nil]
  · rcases s.isFront.front_eq with hfront | hfront
    · exact .inl hfront
    · rcases h.protocol_eq with hdxtick | hnone
      · exact .inr (.inr (by rw [hfront, hdxtick]; decide))
      · exact .inr (.inl (by rw [hfront, hnone]; rfl))

/-- The texts whose port is the one that is resolved. -/
theorem namesPort_of_addressKept (hset : setUri uri_ members = (true, uri)) (hkept : AddressKept uri) :
    ∃ protocolText host port, uri_ = protocolText ++ (host ++ colon :: port) ∧ NamesPort protocolText host port := by
  obtain ⟨s, h⟩ := exists_accepted hset
  obtain ⟨⟨hnonempty, hdigits, hvalue⟩, hsame⟩ := hkept
  rw [resolvedPort, h.portString_eq, h.port_read.untilZero] at hnonempty hdigits hvalue
  have hisPort := h.port_read.isPort hnonempty hdigits
  cases hport : s.port with
  | none =>
    rw [hport] at hnonempty
    exact absurd rfl hnonempty
  | some port =>
    have hpositive : decimal port ≠ 0 := by
      -- a port of 0 was replaced in the number only
      intro hzero
      have hdefault := h.port_default hisPort (by rw [hport]; exact hzero)
      rw [hport, Option.getD_some, hzero, hdefault] at hvalue
      exact absurd hvalue (by decide)
    have hhost : 0 ∉ s.host := by
      rw [← h.host_eq, ← hsame]
      exact CString.zero_not_mem_untilZero _
    rw [hport, Option.getD_some] at hisPort
    exact ⟨s.front, s.host, port, h.namesPort hport hisPort hpositive hhost⟩

/-- The address that is resolved is the one that was configured exactly for a text with an explicit port. -/
theorem addressKept_iff (hset : setUri uri_ members = (true, uri)) :
    AddressKept uri ↔
      ∃ protocolText host port, uri_ = protocolText ++ (host ++ colon :: port) ∧ NamesPort protocolText host port := by
  constructor
  · exact namesPort_of_addressKept hset
  · rintro ⟨protocolText, host, port, rfl, hnames⟩
    exact addressKept_of_namesPort hnames hset

end

/-- The members for `dxtick://localhost:8011`. -/
def localUri : Uri := ⟨text "dxtick://localhost:8011", [], [], text "dxtick", text "localhost", text "8011", 8011⟩

theorem addressKept_iff_local :
    AddressKept localUri ↔ ∃ protocolText host port,
      text "dxtick://localhost:8011" = protocolText ++ (host ++ colon :: port) ∧ NamesPort protocolText host port :=
  addressKept_iff (show setUri (text "dxtick://localhost:8011") .blank = (true, localUri) by decide +kernel)

/-- For `localhost` the default port is recorded, and no port is resolved. -/
theorem defaultPort_not_resolved :
    ∃ uri, setUri (text "localhost") .blank = (true, uri) ∧ uri.port = defaultPort ∧ resolvedPort uri = [] ∧
      ¬ AddressKept uri :=
  ⟨⟨text "localhost", [], [], [], text "localhost", [], 8011⟩, by decide +kernel, rfl, rfl, fun h ↦ h.port.1 rfl⟩

end DxApi.Net
