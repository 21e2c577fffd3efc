import DxApi.Net.Execution
import DxApi.Net.ResponseStream

/-!
# What a request is answered

A response that is valid, and spells out how its body is sent, is the answer of the request: its code, and the
body, the message of the page that came instead or the reason in the first line. It does not matter in which
portions the connection delivers it. One that is cut off is not taken for an answer, except that nothing says
where a body without a length ends.
-/

namespace DxApi.Net

open Exec Reader Request CString Search
open Decoding (DecodesFrom EndsBefore)

/-! ## Responses -/

/-- A body in one of the three forms in which it may be sent. -/
inductive SentBody
  | sized (data : List UInt8) (data_ne : data ≠ [])
  | unsized (data : List UInt8)
  | chunked (chunks : List BodyChunk) (last : BodyChunk) (data_ne : ∀ chunk ∈ chunks, chunk.data ≠ [])
    (last_eq : last.data = [])

namespace SentBody

def wire : SentBody → List UInt8
  | sized data _ => data
  | unsized data => data
  | chunked chunks last _ _ => bodyWire chunks last

def content : SentBody → List UInt8
  | sized data _ => data
  | unsized data => data
  | chunked chunks _ _ _ => bodyOf chunks

/-- What a header says of the body. -/
def transferForm : SentBody → ℤ
  | sized data _ => data.length
  | unsized _ => 0
  | chunked _ _ _ _ => -1

end SentBody

structure Response where
  header : ValidHeader
  body : SentBody
  spelledOut : header.SpelledOut
  transferForm_eq : header.transferForm = body.transferForm
  code_ge : 100 ≤ decimal header.code
  code_lt : decimal header.code < 600

namespace Response

def code (response : Response) : ℕ := decimal response.header.code

def statusText (response : Response) : List UInt8 := response.header.code ++ text " " ++ response.header.reason

def bytes (response : Response) : List UInt8 := response.header.bytes ++ response.body.wire

/-- The code and the text of the response. -/
def answer (response : Response) : ℕ × List UInt8 :=
  if HttpSuccess response.code then (response.code, response.body.content)
  else if response.body.content = [] then (response.code, response.statusText)
  else (response.code, (tryExtractTomcatResponseMessage response.body.content).getD response.body.content)

/-- The connection delivers the response; one without a length ends with the connection. -/
def Arrives (response : Response) (input : List UInt8) : Prop :=
  match response.body with
  | .unsized _ => input = response.bytes
  | _ => response.bytes <+: input

/-- The connection ends within the response, as far as that can be told. -/
def IsCutOff (response : Response) (input : List UInt8) : Prop :=
  match response.body with
  | .unsized _ => EndsBefore input response.header.bytes
  | _ => EndsBefore input response.bytes

end Response

/-! ## The first line -/

theorem ValidHeader.bytes_eq (h : ValidHeader) :
    ∃ more, h.bytes = text "HTTP/1.1 " ++ (h.code ++ (text " " ++ (h.reason ++ (crlf ++ more)))) := by
  refine ⟨(h.fields.map HeaderField.line).flatMap (· ++ crlf) ++ crlf, ?_⟩
  simp [ValidHeader.bytes, ValidHeader.lines, ValidHeader.statusLine]

theorem find_crlf {line more : List UInt8} (hline : ∀ c ∈ line, c ≠ 0x0D ∧ c ≠ 0x0A) :
    find crlf (line ++ (crlf ++ more)) = some line.length := by
  rw [find_eq_some_iff]
  refine ⟨by simp, ?_, ?_⟩
  · rw [List.drop_left]
    exact List.prefix_append _ _
  · intro i hi hbegins
    rw [List.drop_append_of_le_length hi.le, List.drop_eq_getElem_cons hi, List.cons_append] at hbegins
    have hcr := (List.cons_prefix_cons.mp hbegins).1
    exact (hline _ (List.getElem_mem hi)).1 hcr.symm

theorem zero_not_mem_reason (h : ValidHeader) : 0 ∉ h.reason :=
  fun hzero ↦ absurd (h.reason_text 0 hzero) (by decide)

/-- The first line of a valid header gives its code. -/
theorem parse_validHeader (h : ValidHeader) (hge : 100 ≤ decimal h.code) (hlt : decimal h.code < 600) :
    ResponseHeader.parse ⟨h.bytes, 0, 0⟩ =
      .ok (decimal h.code, ⟨h.bytes, decimal h.code, responseStringStartOffset + h.reason.length⟩) := by
  obtain ⟨more, hbytes⟩ := h.bytes_eq
  have hprotocol : (text "HTTP/1.1 ").length = 9 := by decide
  have hblank : (text " ").length = 1 := by decide
  have hcode := h.code_length
  have hlength : ¬h.bytes.length < responseStringStartOffset := by
    rw [hbytes, responseStringStartOffset]
    simp only [List.length_append]
    omega
  have hbegins : text "HTTP/1.1 " <+: h.bytes := by
    rw [hbytes]
    exact List.prefix_append _ _
  have hnine : h.bytes.drop 9 = h.code ++ (text " " ++ (h.reason ++ (crlf ++ more))) := by
    rw [hbytes, ← hprotocol, List.drop_left]
  have hthirteen : h.bytes.drop responseStringStartOffset = h.reason ++ (crlf ++ more) := by
    have hsum : responseStringStartOffset = 9 + (h.code.length + (text " ").length) := by
      rw [hcode, hblank]
      rfl
    rw [hsum, ← List.drop_drop, hnine, ← List.drop_drop, List.drop_left, List.drop_left]
  have heol : strstr (h.bytes.drop responseStringStartOffset) crlf = some h.reason.length := by
    have hzero : untilZero (crlf ++ more) = crlf ++ untilZero more := untilZero_append (by decide) more
    rw [strstr, hthirteen, untilZero_append (zero_not_mem_reason h), hzero]
    exact find_crlf fun c hc ↦ of_isText (h.reason_text c hc)
  have hnumber : strtoull (h.bytes.drop 9) = decimal h.code := by
    have hne : h.code ≠ [] := List.ne_nil_of_length_pos (by omega)
    have hahead := @numberAhead_digits [] h.code (text " " ++ (h.reason ++ (crlf ++ more)))
      (fun _ hc ↦ absurd hc List.not_mem_nil) h.code_digits hne (by simp [text]; decide)
    rw [List.nil_append] at hahead
    rw [hnine, strtoull, hahead, if_neg (by omega)]
    omega
  have hsmall : decimal h.code % 2 ^ 32 = decimal h.code := Nat.mod_eq_of_lt (by omega)
  rw [ResponseHeader.parse, if_neg hlength, heol, Option.elim_some, ResponseHeader.parseCode]
  simp only [hbegins, hlength, hnumber, hsmall, not_true, or_self, if_false]
  rw [if_neg (by omega)]

theorem responseText_validHeader (h : ValidHeader) (code : ℕ) :
    ResponseHeader.responseText ⟨h.bytes, code, responseStringStartOffset + h.reason.length⟩ =
      h.code ++ text " " ++ h.reason := by
  obtain ⟨more, hbytes⟩ := h.bytes_eq
  have hprotocol : (text "HTTP/1.1 ").length = responseStartOffset := by decide
  have hblank : (text " ").length = 1 := by decide
  have hcode := h.code_length
  have hline : h.bytes = text "HTTP/1.1 " ++ (h.code ++ text " " ++ h.reason) ++ (crlf ++ more) := by
    rw [hbytes]
    simp
  have hend : max (responseStringStartOffset + h.reason.length) responseStartOffset =
      (text "HTTP/1.1 " ++ (h.code ++ text " " ++ h.reason)).length := by
    simp only [List.length_append, hprotocol, hblank, hcode, responseStringStartOffset, responseStartOffset]
    omega
  rw [ResponseHeader.responseText, hend, hline, List.take_left, ← hprotocol, List.drop_left]

/-! ## The answer -/

namespace Response

variable {response : Response} {r : DataReader} {rest input : List UInt8} {fuel : ℕ}

theorem parseContentLength_eq (response : Response) :
    parseContentLength response.header.bytes = response.body.transferForm :=
  ((parseContentLength_iff response.header).mpr response.spelledOut).trans response.transferForm_eq

/-- A body whose end is told is read whole. -/
theorem decodesFrom_body (response : Response) (hbody : ∀ data, response.body ≠ .unsized data) :
    DecodesFrom AtStream .disconnected fuel (readResponseBody .msg response.body.transferForm) response.body.wire
      (some (true, response.body.content)) := by
  generalize response.body = body at hbody ⊢
  cases body with
  | sized data data_ne =>
    have hpositive := List.length_pos_of_ne_nil data_ne
    rw [SentBody.transferForm, readResponseBody, if_pos (by omega), Int.toNat_natCast]
    exact (decodesFrom_readBytes data).bind_pure fun found ↦ some (true, found)
  | unsized data => exact absurd rfl (hbody data)
  | chunked chunks last data_ne last_eq =>
    rw [SentBody.transferForm, readResponseBody, if_neg (by decide), if_neg (by decide)]
    apply Decoding.decodesFrom_get
    · exact fun r input hr ↦ Nat.lt_succ_of_le hr.length_le
    · exact fun r ↦ decodesFrom_readChunks data_ne last_eq

theorem resultOf_eq (response : Response) :
    resultOf response.code ⟨response.header.bytes, response.code, responseStringStartOffset + response.header.reason.length⟩
      true response.body.content = response.answer := by
  rw [resultOf, answer, responseText_validHeader]
  by_cases hsuccess : HttpSuccess response.code
  · rw [if_pos hsuccess, if_pos hsuccess, if_pos rfl]
  · rw [if_neg hsuccess, if_neg hsuccess]
    by_cases hempty : response.body.content = []
    · rw [if_pos hempty, if_neg fun h ↦ h.2 hempty]
      rfl
    · rw [if_neg hempty, if_pos ⟨rfl, hempty⟩]

/-- What is done with the body once the header is read. -/
theorem wp_readBody {post : ℕ × List UInt8 → Connection → Prop} {fail : ExecuteError → Connection → Prop} {c : Connection}
    {buffer : ℤ} (hheader : wp (readResponseHeader .msg)
      (fun header r ↦ header = response.header.bytes ∧
        wp (readResponseBody .msg response.body.transferForm)
          (fun found r' ↦ found = some (true, response.body.content) ∧ post response.answer { c with reader := r' })
          (fun error r' ↦ fail (.reader error) { c with reader := r' }) r)
      (fun error r ↦ fail (.reader error) { c with reader := r })
      (constructBase c.reader (buffer + 0x100) 0x2000 0 c.reader.s)) :
    wp (readResponse buffer) post fail c := by
  have hparse := parse_validHeader response.header response.code_ge response.code_lt
  simp only [readResponse, onReader, wp_bind, wp_modify, wp_zoom]
  apply wp_mono hheader
  · rintro _ r ⟨rfl, hbody⟩
    rw [hparse]
    simp only [wp_bind, wp_zoom, parseContentLength_eq]
    apply wp_mono hbody
    · rintro _ r' ⟨rfl, hpost⟩
      rw [wp_pure]
      have hresult := response.resultOf_eq
      rw [code] at hresult
      rwa [hresult]
    · exact fun _ _ ↦ id
  · exact fun _ _ ↦ id

section

variable {c : Connection} {buffer : ℤ}

/-- A response whose end is told. -/
theorem readResponse_delimited (hbody : ∀ data, response.body ≠ .unsized data) (hbytes : response.bytes <+: input)
    (hr : AtStream (constructBase c.reader (buffer + 0x100) 0x2000 0 c.reader.s) input) :
    wp (readResponse buffer) (fun result _ ↦ result = response.answer) (fun _ _ ↦ False) c := by
  obtain ⟨rest, rfl⟩ := hbytes
  rw [bytes, List.append_assoc] at hr
  apply @wp_readBody response
  apply wp_mono ((decodesFrom_readResponseHeader response.header.seenAtEnd).whole _ _ hr (Nat.lt_succ_self _))
  · rintro _ r ⟨rfl, hr'⟩
    refine ⟨rfl, ?_⟩
    apply wp_mono ((response.decodesFrom_body hbody).whole r rest hr' (Nat.lt_succ_self _))
    · exact fun _ _ hfound ↦ ⟨hfound.1, rfl⟩
    · exact fun _ _ ↦ id
  · exact fun _ _ ↦ id

/-- A response that ends with the connection. -/
theorem readResponse_unsized {data : List UInt8} (hbody : response.body = .unsized data)
    (hr : AtStream (constructBase c.reader (buffer + 0x100) 0x2000 0 c.reader.s) response.bytes) :
    wp (readResponse buffer) (fun result _ ↦ result = response.answer) (fun _ _ ↦ False) c := by
  rw [bytes] at hr
  apply @wp_readBody response
  apply wp_mono ((decodesFrom_readResponseHeader response.header.seenAtEnd).whole _ _ hr (Nat.lt_succ_self _))
  · rintro _ r ⟨rfl, hr'⟩
    refine ⟨rfl, ?_⟩
    rw [hbody] at hr' ⊢
    rw [SentBody.transferForm, readResponseBody, if_neg (by decide), if_pos rfl, wp_bind, wp_get, wp_bind]
    apply wp_mono (readToEnd_spec hr' (Nat.lt_succ_of_le hr'.length_le))
    · rintro _ _ rfl
      exact wp_pure.mpr ⟨rfl, rfl⟩
    · exact fun _ _ ↦ False.elim
  · exact fun _ _ ↦ False.elim

theorem readResponse_cut_header (hends : EndsBefore input response.header.bytes)
    (hr : AtStream (constructBase c.reader (buffer + 0x100) 0x2000 0 c.reader.s) input) :
    wp (readResponse buffer) (fun _ _ ↦ False) (fun error _ ↦ error = .reader .disconnected) c := by
  apply @wp_readBody response
  apply wp_mono ((decodesFrom_readResponseHeader response.header.seenAtEnd).part _ _ hr hends (Nat.lt_succ_self _))
  · exact fun _ _ ↦ False.elim
  · rintro _ _ rfl
    rfl

theorem readResponse_cut_body (hbody : ∀ data, response.body ≠ .unsized data) (hends : EndsBefore rest response.body.wire)
    (hr : AtStream (constructBase c.reader (buffer + 0x100) 0x2000 0 c.reader.s) (response.header.bytes ++ rest)) :
    wp (readResponse buffer) (fun _ _ ↦ False) (fun error _ ↦ error = .reader .disconnected) c := by
  apply @wp_readBody response
  apply wp_mono ((decodesFrom_readResponseHeader response.header.seenAtEnd).whole _ _ hr (Nat.lt_succ_self _))
  · rintro _ r ⟨rfl, hr'⟩
    refine ⟨rfl, ?_⟩
    apply wp_mono ((response.decodesFrom_body hbody).part r rest hr' hends (Nat.lt_succ_self _))
    · exact fun _ _ ↦ False.elim
    · rintro _ _ rfl
      rfl
  · exact fun _ _ ↦ False.elim

theorem readResponse_arrives (harrives : response.Arrives input)
    (hr : AtStream (constructBase c.reader (buffer + 0x100) 0x2000 0 c.reader.s) input) :
    wp (readResponse buffer) (fun result _ ↦ result = response.answer) (fun _ _ ↦ False) c := by
  cases hbody : response.body with
  | unsized data =>
    rw [Arrives, hbody] at harrives
    obtain rfl : input = response.bytes := harrives
    exact readResponse_unsized hbody hr
  | sized data data_ne =>
    rw [Arrives, hbody] at harrives
    exact readResponse_delimited (by simp [hbody]) harrives hr
  | chunked chunks last data_ne last_eq =>
    rw [Arrives, hbody] at harrives
    exact readResponse_delimited (by simp [hbody]) harrives hr

theorem readResponse_isCutOff (hcut : response.IsCutOff input)
    (hr : AtStream (constructBase c.reader (buffer + 0x100) 0x2000 0 c.reader.s) input) :
    wp (readResponse buffer) (fun _ _ ↦ False) (fun error _ ↦ error = .reader .disconnected) c := by
  have hdelimited (hbody : ∀ data, response.body ≠ .unsized data) (hends : EndsBefore input response.bytes) :
      wp (readResponse buffer) (fun _ _ ↦ False) (fun error _ ↦ error = .reader .disconnected) c := by
    rcases Decoding.endsBefore_append hends with hheader | ⟨rest, rfl, hrest⟩
    · exact readResponse_cut_header hheader hr
    · exact readResponse_cut_body hbody hrest hr
  cases hbody : response.body with
  | unsized data =>
    rw [IsCutOff, hbody] at hcut
    exact readResponse_cut_header hcut hr
  | sized data data_ne =>
    rw [IsCutOff, hbody] at hcut
    exact hdelimited (by simp [hbody]) hcut
  | chunked chunks last data_ne last_eq =>
    rw [IsCutOff, hbody] at hcut
    exact hdelimited (by simp [hbody]) hcut

end

end Response

/-! ## The exchange -/

/-- The bytes of a request. -/
def Request.sent (request : Request) : List UInt8 := request.header ++ request.requestBody.getD []

/-- A request whose writes return is handed to the connection whole. -/
theorem sendRequest_handed (request : Request) (s : IOStreamTCP) :
    wp (sendRequest request) (fun _ s' ↦ s'.handed = s.handed ++ request.sent) (fun _ _ ↦ True) s := by
  have hwrite (data : List UInt8) (s : IOStreamTCP) : wp (onConnection (IOStreamTCP.write data))
      (fun _ s' ↦ s'.handed = s.handed ++ data) (fun _ _ ↦ True) s := by
    rw [onConnection, wp_zoom]
    apply wp_mono (IOStreamTCP.write_spec data s)
    · exact fun _ _ hwritten ↦ IOStreamTCP.handed_of_written hwritten
    · exact fun _ _ _ ↦ trivial
  unfold sendRequest
  -- the bound is a number that must not be counted down from
  generalize Request.bufferSize - 0x200 = limit
  rw [wp_ite, wp_throw]
  refine ⟨fun _ ↦ True.intro, fun _ ↦ ?_⟩
  apply wp_call (hwrite request.header s)
  · intro _ s₁ hheader
    cases hbody : request.requestBody with
    | none =>
      rw [wp_pure, hheader, Request.sent, hbody, Option.getD_none, List.append_nil]
    | some requestBody =>
      apply wp_call (hwrite requestBody s₁)
      · intro _ s₂ hrequest
        rw [wp_pure, hrequest, hheader, Request.sent, hbody, Option.getD_some, List.append_assoc]
      · exact fun _ _ _ ↦ trivial
  · exact fun _ _ _ ↦ trivial

/-- What is read leaves the output as it is. -/
theorem onReader_output {α : Type} (program : ReaderM α) (c : Connection) :
    wp (onReader program) (fun _ c' ↦ c'.output = c.output) (fun _ c' ↦ c'.output = c.output) c := by
  rw [onReader, wp_zoom]
  exact wp_mono wp_trivial (fun _ _ _ ↦ rfl) fun _ _ _ ↦ rfl

theorem readResponse_output (buffer : ℤ) (c : Connection) :
    wp (readResponse buffer) (fun _ c' ↦ c'.output = c.output) (fun _ c' ↦ c'.output = c.output) c := by
  rw [readResponse, wp_bind, wp_modify]
  apply wp_call (onReader_output _ _)
  · intro header c₁ hheader
    cases ResponseHeader.parse ⟨header, 0, 0⟩ with
    | error error => exact hheader
    | ok found =>
      apply wp_call (onReader_output _ c₁)
      · intro found c₂ hbody
        cases found with
        | none => exact hbody.trans hheader
        | some found => exact hbody.trans hheader
      · exact fun _ c₂ hbody ↦ hbody.trans hheader
  · exact fun _ _ ↦ id

/-- A request that is sent is answered with what a valid response says, in whatever portions it arrives, or it
throws if the connection ends within the response. -/
theorem executeRequest_answer (response : Response) (db : Database) (buffer : ℤ) (responseBody request path : List UInt8)
    (requestBody : Option (List UInt8)) (allowUnopenedDb : Bool) (c : Connection)
    (hopen : allowUnopenedDb = true ∨ db.isOpen = true)
    (hsent : returns (sendRequest (db.request request path requestBody)) c.output = true)
    (hlimit : buffer + 0x300 + c.reader.s.wire.length ≤ noContentLimit) :
    (response.Arrives c.reader.s.wire →
      wp (executeRequest db buffer responseBody request path requestBody allowUnopenedDb)
        (fun result c' ↦ result = response.answer ∧
          c'.output.handed = c.output.handed ++ (db.request request path requestBody).sent)
        (fun _ _ ↦ False) c) ∧
      (response.IsCutOff c.reader.s.wire →
        wp (executeRequest db buffer responseBody request path requestBody allowUnopenedDb) (fun _ _ ↦ False)
          (fun error c' ↦ error = .reader .disconnected ∧
            c'.output.handed = c.output.handed ++ (db.request request path requestBody).sent) c) := by
  have hnot : ¬(¬allowUnopenedDb ∧ ¬db.isOpen) := fun h ↦ hopen.elim h.1 h.2
  have hhanded := of_returns (sendRequest_handed _ c.output) hsent
  have hrun := eq_ok_of_returns hsent
  -- what is left to do, once the request is sent
  have hexecute {post : ℕ × List UInt8 → Connection → Prop} {fail : ExecuteError → Connection → Prop}
      (h : ∀ c₁ : Connection, c₁.reader = c.reader →
        c₁.output.handed = c.output.handed ++ (db.request request path requestBody).sent →
        wp (readResponse buffer) post fail c₁) :
      wp (executeRequest db buffer responseBody request path requestBody allowUnopenedDb) post fail c := by
    rw [executeRequest, if_neg hnot, wp_bind, onOutput, wp_zoom, wp_ok hrun]
    exact h _ rfl hhanded
  have hstream (c₁ : Connection) (hreader : c₁.reader = c.reader) :
      AtStream (constructBase c₁.reader (buffer + 0x100) 0x2000 0 c₁.reader.s) c.reader.s.wire := by
    rw [hreader]
    exact constructBase_atStream c.reader c.reader.s.wire c.reader.s.schedule (by decide) (by omega)
  constructor
  · intro harrives
    apply hexecute
    intro c₁ hreader hc₁
    apply wp_mono (wp_and (response.readResponse_arrives harrives (hstream c₁ hreader)) (readResponse_output buffer c₁))
    · exact fun _ _ h ↦ ⟨h.1, by rw [h.2, hc₁]⟩
    · exact fun _ _ h ↦ h.1
  · intro hcut
    apply hexecute
    intro c₁ hreader hc₁
    apply wp_mono (wp_and (response.readResponse_isCutOff hcut (hstream c₁ hreader)) (readResponse_output buffer c₁))
    · exact fun _ _ h ↦ h.1
    · exact fun _ _ h ↦ ⟨h.1, by rw [h.2, hc₁]⟩

/-- A body of five bytes behind a header that gives its length. -/
theorem exists_sizedResponse :
    ∃ response : Response, response.answer = (200, text "hello") ∧ response.bytes.length < 2 ^ 32 ∧
      response.Arrives response.bytes := by
  let field : HeaderField := ⟨text "Content-Length", text " ", text "5", [], by decide +kernel, by decide +kernel,
    by decide +kernel, by decide +kernel, by decide +kernel, by decide +kernel, by decide +kernel⟩
  let header : ValidHeader := ⟨text "200", text "OK", [field], rfl, by decide +kernel, by decide +kernel,
    by decide +kernel, by decide +kernel⟩
  let response : Response := ⟨header, .sized (text "hello") (by decide +kernel),
    (parseContentLength_iff header).mp (by decide +kernel), by decide +kernel, by decide +kernel, by decide +kernel⟩
  exact ⟨response, by decide +kernel, by decide +kernel, List.prefix_rfl⟩

/-- It is the answer when it arrives in portions. -/
theorem executeRequest_answer_sized :
    ∃ (response : Response) (db : Database) (c : Connection), response.answer = (200, text "hello") ∧
      wp (executeRequest db 0 [] (text "POST") (text "/tb/xml") (some (text "<getServerTime/>")) false)
        (fun result _ ↦ result = response.answer) (fun _ _ ↦ False) c := by
  obtain ⟨response, hanswer, hlength, harrives⟩ := exists_sizedResponse
  obtain ⟨db, output, hopen, hsent⟩ : ∃ (db : Database) (output : IOStreamTCP), db.isOpen = true ∧
      returns (sendRequest (db.request (text "POST") (text "/tb/xml") (some (text "<getServerTime/>")))) output = true :=
    ⟨⟨true, text "localhost", []⟩, ⟨fun _ ↦ .accepts 100, 0, false, 0, []⟩, rfl, by decide +kernel⟩
  let reader : DataReader := ⟨fun _ ↦ 0, 0, 0, 0, 0, 0, 0, ⟨response.bytes, [3, 0, 7]⟩, 0, 0, fun _ ↦ 0, fun _ ↦ false, 0⟩
  have hlimit : (0 : ℤ) + 0x300 + response.bytes.length ≤ noContentLimit := by
    have hroom : (0x300 : ℤ) + 2 ^ 32 ≤ noContentLimit := by decide
    omega
  have hrun := executeRequest_answer response db 0 [] (text "POST") (text "/tb/xml") (some (text "<getServerTime/>")) false
    ⟨output, reader⟩ (.inr hopen) hsent hlimit
  refine ⟨response, db, ⟨output, reader⟩, hanswer, ?_⟩
  apply wp_mono (hrun.1 harrives)
  · exact fun _ _ h ↦ h.1
  · exact fun _ _ ↦ id

end DxApi.Net
