import Jengine.Gateway.PacketLength
import Jengine.Lib.Decimal
import Jengine.Lib.Lines

/-!
# The request that `HttpClient` sends

`HttpClient::WriteHttpRequest` and `Flush` (`base/http/httpclient.cpp`).  The request is put
together by `WriteRaw` from texts whose lengths are counted by hand and from the path, the host
and the query, whose lengths are a `size_t`; `WriteRaw` takes a `uint16_t`.  What is cut off
there is missing in the request, while `Content-Length` still counts the whole query.

A request is read as its receiver does: a line ends at the first CR LF, and the body begins
behind the first empty line.
-/

namespace Jengine.Http

open Jengine.Lib Jengine.Memory Jengine.Gateway

/-- `HttpMethod`. -/
inductive HttpMethod where
  | get
  | post
deriving DecidableEq, Repr

/-- `PacketHttpRequest(approx_size, mempool)`. -/
def PacketHttpRequest.make (approxSize : Nat) (mempool : MemoryPool) :
    Except Fault PacketOut.Out := do
  let (_, req) ← PacketOut.skipTo 0 (PacketOut.aquireMemory ⟨mempool, Packet.empty⟩ approxSize)
  return req

/-- `WriteRaw` of a literal: the first `size` characters, of which the last is a NUL. -/
def writeLiteral (text : String) (size : Nat) : PacketOut.Op Unit :=
  PacketOut.writeRaw ((ascii text ++ [0]).take size)

/-- `WriteHttpRequest`. -/
def writeHttpRequest (method : HttpMethod) (host path query : List UInt8) :
    PacketOut.Op Unit :=
  match method with
  | .get => do
      writeLiteral "GET " 4
      PacketOut.writeRaw path
      writeLiteral "?" 1
      PacketOut.writeRaw query
      writeLiteral " HTTP/1.1\r\n" 11
      writeLiteral "HOST: " 6
      PacketOut.writeRaw host
      writeLiteral "\r\n" 2
      writeLiteral "\r\n" 2
  | .post => do
      writeLiteral "POST " 5
      PacketOut.writeRaw path
      writeLiteral " HTTP/1.1\r\n" 11
      writeLiteral "HOST: " 6
      PacketOut.writeRaw host
      writeLiteral "\r\n" 2
      writeLiteral "Content-Type: application/x-www-form-urlencoded\r\n" 49
      writeLiteral "Content-Length: " 16
      PacketOut.writeRaw (decimal query.length)
      writeLiteral "\r\n\r\n" 4
      PacketOut.writeRaw query

/-- A client that was constructed and told to send: `req_` with the request in it. -/
def request (mempool : MemoryPool) (method : HttpMethod) (host path query : List UInt8) :
    Except Fault PacketOut.Out := do
  let req ← PacketHttpRequest.make 120 mempool
  let (_, req) ← writeHttpRequest method host path query req
  return req

/-- `Flush`, as the bytes it pushes. -/
def flush (req : PacketOut.Out) : List UInt8 :=
  RefMemoryChunk.bytesOf req.pool.mem (PacketOut.fetchData req.packet)

/-! ### What a receiver reads -/

/-- The first line, the fields, and what comes behind the empty line. -/
structure Request where
  requestLine : List UInt8
  fields : List (List UInt8)
  body : List UInt8
deriving DecidableEq, Repr

namespace Request

def parse (bytes : List UInt8) : Option Request :=
  match splitHead [] bytes with
  | some (line :: fields, body) => some ⟨line, fields, body⟩
  | _ => none

/-- The decimal number of the first `Content-Length`. -/
def contentLength (r : Request) : Option Nat := do
  let field ← r.fields.find? (ascii "Content-Length: ").isPrefixOf
  let digits := field.drop (ascii "Content-Length: ").length
  if digits ≠ [] ∧ digits.all isDigit then some (digitsValue digits) else none

end Request

/-- The request line that names the whole path, and the whole query of a GET. -/
def requestLine (method : HttpMethod) (path query : List UInt8) : List UInt8 :=
  match method with
  | .get => ascii "GET " ++ path ++ ascii "?" ++ query ++ ascii " HTTP/1.1"
  | .post => ascii "POST " ++ path ++ ascii " HTTP/1.1"

/-- `Flush` sends the request that was asked for. -/
def SendsRequest (mempool : MemoryPool) (method : HttpMethod) (host path query : List UInt8) :
    Prop :=
  ∃ req r, request mempool method host path query = .ok req ∧
    Request.parse (flush req) = some r ∧
    r.requestLine = requestLine method path query ∧
    (method = .post → r.contentLength = some r.body.length ∧ r.body = query)

/-- Nothing is cut off, and the request line has no line end inside. -/
def Fits (method : HttpMethod) (path query : List UInt8) : Prop :=
  path.length < 2 ^ 16 ∧ query.length < 2 ^ 16 ∧ ¬ crlf <:+: path ∧
    (method = .get → ¬ crlf <:+: query)

/-! ### The bytes -/

/-- What a `uint16_t` of a length leaves of the bytes. -/
def cut (bytes : List UInt8) : List UInt8 := bytes.take (UInt16.ofNat bytes.length).toNat

theorem length_cut (bytes : List UInt8) : (cut bytes).length = bytes.length % 2 ^ 16 := by
  rw [cut, List.length_take, UInt16.toNat_ofNat']
  exact Nat.min_eq_left (Nat.mod_le _ _)

theorem cut_of_lt {bytes : List UInt8} (h : bytes.length < 2 ^ 16) : cut bytes = bytes := by
  rw [cut, UInt16.toNat_ofNat_of_lt' h, List.take_length]

theorem cut_of_length {bytes : List UInt8} (h : bytes.length = 2 ^ 16) : cut bytes = [] := by
  rw [← List.length_eq_zero_iff, length_cut, h, Nat.mod_self]

theorem lt_of_le_length_cut {bytes : List UInt8} (h : bytes.length ≤ (cut bytes).length) :
    bytes.length < 2 ^ 16 := by
  rw [length_cut] at h
  exact Nat.lt_of_le_of_lt h (Nat.mod_lt _ (Nat.two_pow_pos 16))

/-- The bytes behind the host. -/
def behindHost (method : HttpMethod) (query : List UInt8) : List UInt8 :=
  match method with
  | .get => crlf
  | .post => ascii "Content-Type: application/x-www-form-urlencoded" ++ crlf ++
      (ascii "Content-Length: " ++ cut (decimal query.length) ++ crlf ++ (crlf ++ cut query))

/-- The bytes of a request. -/
def sent (method : HttpMethod) (host path query : List UInt8) : List UInt8 :=
  requestLine method (cut path) (cut query) ++ crlf ++
    (ascii "HOST: " ++ cut host ++ crlf ++ behindHost method query)

theorem appends_writeRaw (data : List UInt8) :
    PacketOut.Appends (PacketOut.writeRaw data) (cut data) := by
  refine PacketOut.appends_putByte ?_
  have hlen := length_cut data
  rw [cut] at hlen
  omega

/-- A literal of fewer than `2 ^ 16` characters whose length is counted right. -/
theorem appends_writeLiteral (text : String) (size : Nat) (hlt : size < 2 ^ 16)
    (h : (ascii text).length = size) : PacketOut.Appends (writeLiteral text size) (ascii text) := by
  have htake : (ascii text ++ [0]).take size = ascii text := by rw [← h, List.take_left]
  have happ := appends_writeRaw (ascii text)
  rw [cut_of_lt (h ▸ hlt)] at happ
  rwa [writeLiteral, htake]

theorem ascii_line : ascii " HTTP/1.1\r\n" = ascii " HTTP/1.1" ++ crlf := rfl

theorem ascii_end : ascii "\r\n" = crlf := rfl

theorem appends_writeHttpRequest (method : HttpMethod) (host path query : List UInt8) :
    PacketOut.Appends (writeHttpRequest method host path query) (sent method host path query) := by
  cases method with
  | get =>
      have hall := (appends_writeLiteral "GET " 4 (by decide) rfl).seq
        ((appends_writeRaw path).seq
        ((appends_writeLiteral "?" 1 (by decide) rfl).seq
        ((appends_writeRaw query).seq
        ((appends_writeLiteral " HTTP/1.1\r\n" 11 (by decide) rfl).seq
        ((appends_writeLiteral "HOST: " 6 (by decide) rfl).seq
        ((appends_writeRaw host).seq
        ((appends_writeLiteral "\r\n" 2 (by decide) rfl).seq
        (appends_writeLiteral "\r\n" 2 (by decide) rfl))))))))
      refine (congrArg (PacketOut.Appends _) ?_).mp hall
      rw [ascii_line, ascii_end]
      simp only [sent, requestLine, behindHost, List.append_assoc]
  | post =>
      have hall := (appends_writeLiteral "POST " 5 (by decide) rfl).seq
        ((appends_writeRaw path).seq
        ((appends_writeLiteral " HTTP/1.1\r\n" 11 (by decide) rfl).seq
        ((appends_writeLiteral "HOST: " 6 (by decide) rfl).seq
        ((appends_writeRaw host).seq
        ((appends_writeLiteral "\r\n" 2 (by decide) rfl).seq
        ((appends_writeLiteral "Content-Type: application/x-www-form-urlencoded\r\n" 49
          (by decide) rfl).seq
        ((appends_writeLiteral "Content-Length: " 16 (by decide) rfl).seq
        ((appends_writeRaw (decimal query.length)).seq
        ((appends_writeLiteral "\r\n\r\n" 4 (by decide) rfl).seq
        (appends_writeRaw query))))))))))
      have htype : ascii "Content-Type: application/x-www-form-urlencoded\r\n" =
          ascii "Content-Type: application/x-www-form-urlencoded" ++ crlf := rfl
      have hblank : ascii "\r\n\r\n" = crlf ++ crlf := rfl
      refine (congrArg (PacketOut.Appends _) ?_).mp hall
      rw [ascii_line, ascii_end, htype, hblank]
      simp only [sent, requestLine, behindHost, List.append_assoc]

theorem length_sent_lt (method : HttpMethod) (host path query : List UInt8) :
    (sent method host path query).length < 2 ^ 20 := by
  have hlt : ∀ bytes, (cut bytes).length < 2 ^ 16 := fun bytes => by
    rw [length_cut]
    exact Nat.mod_lt _ (Nat.two_pow_pos 16)
  have hhost := hlt host
  have hpath := hlt path
  have hquery := hlt query
  have hdigits := hlt (decimal query.length)
  have hfixed : (ascii "GET ").length = 4 ∧ (ascii "?").length = 1 ∧
      (ascii " HTTP/1.1").length = 9 ∧ (ascii "HOST: ").length = 6 ∧
      (ascii "POST ").length = 5 ∧
      (ascii "Content-Type: application/x-www-form-urlencoded").length = 47 ∧
      (ascii "Content-Length: ").length = 16 ∧ crlf.length = 2 := by decide
  cases method with
  | get =>
      simp only [sent, requestLine, behindHost, List.length_append]
      omega
  | post =>
      simp only [sent, requestLine, behindHost, List.length_append]
      omega

/-- As many chunks as a few bytes need have less than `2 ^ 32` bytes. -/
theorem chunkCount_mul_lt {mempool : MemoryPool} {n : Nat} (hcs : 0 < mempool.chunksize)
    (hlt : mempool.chunksize < 2 ^ 32) (hn : n < 2 ^ 31) :
    mempool.calculateChunkCount n * mempool.chunksize < 2 ^ 32 := by
  by_cases hle : mempool.chunksize ≤ n
  · have hupper := mempool.calculateChunkCount_mul_lt n hcs
    omega
  · have hdiv : n / mempool.chunksize = 0 := Nat.div_eq_of_lt (by omega)
    rw [MemoryPool.calculateChunkCount, hdiv]
    split
    · rwa [Nat.zero_add, Nat.one_mul]
    · rw [Nat.zero_mul]
      exact Nat.two_pow_pos 32

/-- A client that was told to send has the request's bytes in its packet. -/
theorem flush_request {mempool : MemoryPool} (method : HttpMethod) (host path query : List UInt8)
    (hinv : mempool.Inv []) (hcs : 0 < mempool.chunksize) (hlt : mempool.chunksize < 2 ^ 32) :
    ∃ req, request mempool method host path query = .ok req ∧
      flush req = sent method host path query := by
  obtain ⟨hrep, -, hsize, hchunk, hcap⟩ := PacketOut.aquireMemory_empty 120 hinv hcs (by decide)
    (chunkCount_mul_lt hcs hlt (by decide))
  obtain ⟨o1, hskip, hrep1, -, hsize1, hcap1, hpool1⟩ :=
    PacketOut.skipTo_spec hrep (Nat.zero_le _)
  rw [List.take_zero] at hrep1
  -- a large chunk holds any request, and with smaller ones there is room to grow
  have hroom : ([] : List UInt8).length + (sent method host path query).length ≤
      o1.packet.capacity ∨ ([] : List UInt8).length + (sent method host path query).length +
        65545 + o1.pool.chunksize ≤ 2 ^ 32 := by
    have hlen := length_sent_lt method host path query
    rw [List.length_nil, hcap1, hpool1, hchunk]
    omega
  obtain ⟨o2, hwrite, hrep2, -, hsize2, -⟩ :=
    appends_writeHttpRequest method host path query o1 [] hrep1 (by rw [hpool1, hchunk]; exact hcs)
      hroom
  refine ⟨o2, ?_, ?_⟩
  · simp only [request, PacketHttpRequest.make, hskip, hwrite, bind, Except.bind, pure,
      Except.pure]
  · have hfull : o2.packet.size = (sent method host path query).length := by
      rw [hsize2, hsize1, hsize, List.length_nil, Nat.zero_add, Nat.max_self, Nat.zero_max]
    rw [flush, PacketOut.fetchData, PacketOut.bytesOf_fetchChunks, hrep2.bytesOf_data, hfull,
      List.nil_append, List.take_left]

/-! ### The lines -/

theorem no_crlf_requestLine {method : HttpMethod} {path query : List UInt8}
    (hpath : ¬ crlf <:+: path) (hquery : method = .get → ¬ crlf <:+: query) :
    ¬ crlf <:+: requestLine method path query := by
  intro h
  cases method with
  | get =>
      simp only [requestLine, List.append_assoc] at h
      have hget : crlf <:+: ascii "GET" ++ 32 :: (path ++ 63 ::
          (query ++ 32 :: ascii "HTTP/1.1")) := h
      rcases crlf_infix_append (by decide) (by decide) hget with h | h
      · exact absurd h (by decide)
      rcases crlf_infix_append (by decide) (by decide) h with h | h
      · exact hpath h
      rcases crlf_infix_append (by decide) (by decide) h with h | h
      · exact hquery rfl h
      · exact absurd h (by decide)
  | post =>
      simp only [requestLine, List.append_assoc] at h
      have hpost : crlf <:+: ascii "POST" ++ 32 :: (path ++ 32 :: ascii "HTTP/1.1") := h
      rcases crlf_infix_append (by decide) (by decide) hpost with h | h
      · exact absurd h (by decide)
      rcases crlf_infix_append (by decide) (by decide) h with h | h
      · exact hpath h
      · exact absurd h (by decide)

/-- A request line is read no further than to the first line end. -/
theorem length_requestLine_le {a rest : List UInt8} {r : Request}
    (h : Request.parse (a ++ crlf ++ rest) = some r) : r.requestLine.length ≤ a.length := by
  rw [Request.parse] at h
  split at h
  · rename_i l fields body hsplit
    cases h
    exact length_first_le hsplit (List.nil_append _) (Nat.zero_le _)
  · cases h

theorem no_crlf_of_parse {line rest : List UInt8} {r : Request}
    (h : Request.parse (line ++ crlf ++ rest) = some r)
    (hle : line.length ≤ r.requestLine.length) : ¬ crlf <:+: line := by
  rintro ⟨a, b, rfl⟩
  rw [List.append_assoc (a ++ crlf), List.append_assoc (a ++ crlf)] at h
  have hfirst := length_requestLine_le h
  have htwo : crlf.length = 2 := rfl
  simp only [List.length_append] at hle
  omega

theorem no_crlf_field (name : List UInt8) {value : List UInt8} (hname : 13 ∉ name)
    (hvalue : 13 ∉ value) : ¬ crlf <:+: name ++ value :=
  no_crlf_of_not_mem (List.not_mem_append hname hvalue)

theorem not_mem_cut {bytes : List UInt8} (h : 13 ∉ bytes) : 13 ∉ cut bytes :=
  fun hmem => h (List.mem_of_mem_take hmem)

theorem length_cut_le (bytes : List UInt8) : (cut bytes).length ≤ bytes.length :=
  List.length_take_le' _ _

/-- A request line that is no shorter for the cuts names all of the path, and of the query of a
    GET. -/
theorem lt_of_length_requestLine_le {method : HttpMethod} {path query : List UInt8}
    (h : (requestLine method path query).length ≤
      (requestLine method (cut path) (cut query)).length) :
    path.length < 2 ^ 16 ∧ (method = .get → query.length < 2 ^ 16) := by
  have hpath := length_cut_le path
  have hquery := length_cut_le query
  cases method with
  | get =>
      simp only [requestLine, List.length_append] at h
      exact ⟨lt_of_le_length_cut (by omega), fun _ => lt_of_le_length_cut (by omega)⟩
  | post =>
      simp only [requestLine, List.length_append] at h
      exact ⟨lt_of_le_length_cut (by omega), fun h => nomatch h⟩

theorem path_infix_requestLine (method : HttpMethod) (path query : List UInt8) :
    path <:+: requestLine method path query := by
  cases method with
  | get => exact ⟨ascii "GET ", ascii "?" ++ query ++ ascii " HTTP/1.1", by
      simp only [requestLine, List.append_assoc]⟩
  | post => exact ⟨ascii "POST ", ascii " HTTP/1.1", rfl⟩

theorem query_infix_requestLine (path query : List UInt8) :
    query <:+: requestLine .get path query :=
  ⟨ascii "GET " ++ path ++ ascii "?", ascii " HTTP/1.1", rfl⟩

theorem requestLine_ne_nil (method : HttpMethod) (path query : List UInt8) :
    requestLine method path query ≠ [] := by
  cases method with
  | get => exact List.cons_ne_nil _ _
  | post => exact List.cons_ne_nil _ _

/-- The digits of a number have no line end. -/
theorem not_mem_decimal (n : Nat) : 13 ∉ decimal n :=
  fun h => absurd (isDigit_of_mem_decimal h) (by decide)

/-- The fields that are sent. -/
def fields (method : HttpMethod) (host query : List UInt8) : List (List UInt8) :=
  match method with
  | .get => [ascii "HOST: " ++ cut host]
  | .post => [ascii "HOST: " ++ cut host,
      ascii "Content-Type: application/x-www-form-urlencoded",
      ascii "Content-Length: " ++ cut (decimal query.length)]

/-- The body that is sent. -/
def body (method : HttpMethod) (query : List UInt8) : List UInt8 :=
  match method with
  | .get => []
  | .post => cut query

/-- A request is read as it was written. -/
theorem parse_sent {method : HttpMethod} {host path query : List UInt8} (hhost : 13 ∉ host)
    (hline : ¬ crlf <:+: requestLine method (cut path) (cut query)) :
    Request.parse (sent method host path query) =
      some ⟨requestLine method (cut path) (cut query), fields method host query,
        body method query⟩ := by
  have hfield := no_crlf_field (ascii "HOST: ") (by decide) (not_mem_cut hhost)
  have hbehind : splitHead [] (behindHost method query) =
      some ((fields method host query).tail, body method query) := by
    cases method with
    | get => exact splitHead_blank []
    | post =>
        have hlength := no_crlf_field (ascii "Content-Length: ") (by decide)
          (not_mem_cut (not_mem_decimal query.length))
        have htype : ¬ crlf <:+: ascii "Content-Type: application/x-www-form-urlencoded" :=
          no_crlf_of_not_mem (by decide)
        rw [behindHost, splitHead_line htype (by decide),
          splitHead_line hlength (List.cons_ne_nil _ _), splitHead_blank]
        rfl
  rw [Request.parse, sent, splitHead_line hline (requestLine_ne_nil _ _ _),
    splitHead_line hfield (List.cons_ne_nil _ _), hbehind]
  cases method with
  | get => rfl
  | post => rfl

theorem contentLength_post {host query line body : List UInt8}
    (h : (decimal query.length).length < 2 ^ 16) :
    Request.contentLength ⟨line, fields .post host query, body⟩ = some query.length := by
  have hfind : (fields .post host query).find? (ascii "Content-Length: ").isPrefixOf =
      some (ascii "Content-Length: " ++ decimal query.length) := by
    rw [fields, cut_of_lt h]
    rfl
  have hdigits : (decimal query.length).all isDigit :=
    List.all_eq_true.mpr fun _ hc => isDigit_of_mem_decimal hc
  simp only [Request.contentLength, hfind, Option.bind_eq_bind, Option.bind_some,
    List.drop_left, if_pos (And.intro (decimal_ne_nil query.length) hdigits),
    digitsValue_decimal]

theorem length_decimal_lt {n : Nat} (h : n < 2 ^ 16) : (decimal n).length < 2 ^ 16 := by
  rw [decimal, List.length_map]
  have hle := (Nat.length_toDigits_le_iff (b := 10) (k := 5) (n := n) (by decide) (by decide)).mpr
    (by omega)
  omega

theorem fits_of_sendsRequest {mempool : MemoryPool} {method : HttpMethod}
    {host path query : List UInt8} (hinv : mempool.Inv []) (hcs : 0 < mempool.chunksize)
    (hlt : mempool.chunksize < 2 ^ 32) (hhost : 13 ∉ host)
    (h : SendsRequest mempool method host path query) : Fits method path query := by
  obtain ⟨req, hreq, hflush⟩ := flush_request method host path query hinv hcs hlt
  obtain ⟨req', r, hreq', hparse, hline, hpost⟩ := h
  obtain rfl : req = req' := Except.ok.inj (hreq.symm.trans hreq')
  rw [hflush] at hparse
  have hfirst := length_requestLine_le hparse
  rw [hline] at hfirst
  obtain ⟨hpath, hquery⟩ := lt_of_length_requestLine_le hfirst
  -- the line that is sent is as long as the one that is read
  have hsame : requestLine method (cut path) (cut query) = requestLine method path query := by
    cases method with
    | get => rw [cut_of_lt hpath, cut_of_lt (hquery rfl)]
    | post =>
        rw [cut_of_lt hpath]
        rfl
  have hno := no_crlf_of_parse hparse (by rw [hsame, hline])
  rw [parse_sent hhost hno] at hparse
  obtain rfl := Option.some.inj hparse
  rw [hsame] at hno
  refine ⟨hpath, ?_, fun h => hno (h.trans (path_infix_requestLine _ _ _)), ?_⟩
  · cases method with
    | get => exact hquery rfl
    | post => exact lt_of_le_length_cut (Nat.le_of_eq (congrArg List.length (hpost rfl).2.symm))
  · rintro rfl h
    exact hno (h.trans (query_infix_requestLine _ _))

theorem sendsRequest_of_fits {mempool : MemoryPool} {method : HttpMethod}
    {host path query : List UInt8} (hinv : mempool.Inv []) (hcs : 0 < mempool.chunksize)
    (hlt : mempool.chunksize < 2 ^ 32) (hhost : 13 ∉ host) (h : Fits method path query) :
    SendsRequest mempool method host path query := by
  obtain ⟨req, hreq, hflush⟩ := flush_request method host path query hinv hcs hlt
  obtain ⟨hpath, hquery, hnopath, hnoquery⟩ := h
  have hcutpath := cut_of_lt hpath
  have hcutquery := cut_of_lt hquery
  have hno := no_crlf_requestLine hnopath hnoquery
  refine ⟨req, ⟨requestLine method path query, fields method host query, body method query⟩,
    hreq, ?_, rfl, ?_⟩
  · rw [hflush, parse_sent hhost (by rwa [hcutpath, hcutquery]), hcutpath, hcutquery]
  · rintro rfl
    have hbody : body .post query = query := hcutquery
    rw [contentLength_post (length_decimal_lt hquery), hbody]
    exact ⟨rfl, rfl⟩

/-- **The request that is sent is the one asked for exactly when path and query have fewer than
    `2 ^ 16` bytes and no line end is inside the request line.**  The host is part of a URL;
    `http_parser_parse_url` accepts none with a CR. -/
theorem sendsRequest_iff_fits (mempool : MemoryPool) (method : HttpMethod)
    (host path query : List UInt8) (hinv : mempool.Inv []) (hcs : 0 < mempool.chunksize)
    (hlt : mempool.chunksize < 2 ^ 32) (hhost : 13 ∉ host) :
    SendsRequest mempool method host path query ↔ Fits method path query :=
  ⟨fits_of_sendsRequest hinv hcs hlt hhost, sendsRequest_of_fits hinv hcs hlt hhost⟩

/-- A short POST. -/
theorem sendsRequest_iff_fits_login :
    SendsRequest (MemoryPool.emptyPool 1024) .post (ascii "localhost") (ascii "/login")
        (ascii "user=1") ↔ Fits .post (ascii "/login") (ascii "user=1") :=
  sendsRequest_iff_fits _ _ _ _ _ (MemoryPool.emptyPool_inv 1024) (by decide) (by decide)
    (by decide)

/-- A query of `2 ^ 16` bytes is announced and not sent. -/
theorem announced_not_sent {mempool : MemoryPool} {host path query : List UInt8}
    (hinv : mempool.Inv []) (hcs : 0 < mempool.chunksize) (hlt : mempool.chunksize < 2 ^ 32)
    (hhost : 13 ∉ host) (hpath : 13 ∉ path) (hlen : query.length = 65536) :
    ∃ req r, request mempool .post host path query = .ok req ∧
      Request.parse (flush req) = some r ∧ r.contentLength = some 65536 ∧ r.body = [] := by
  obtain ⟨req, hreq, hflush⟩ := flush_request .post host path query hinv hcs hlt
  have hno : ¬ crlf <:+: requestLine .post (cut path) (cut query) :=
    no_crlf_requestLine (no_crlf_of_not_mem (not_mem_cut hpath)) fun h => nomatch h
  have hdecimal : (decimal query.length).length < 2 ^ 16 := by
    rw [hlen]
    decide
  refine ⟨req, _, hreq, hflush ▸ parse_sent hhost hno, ?_, cut_of_length hlen⟩
  rw [contentLength_post hdecimal, hlen]

theorem not_sendsRequest_longQuery :
    (MemoryPool.emptyPool 1024).Inv [] ∧ 13 ∉ ascii "localhost" ∧
      (∃ req r, request (MemoryPool.emptyPool 1024) .post (ascii "localhost") (ascii "/login")
          (List.replicate 65536 97) = .ok req ∧
        Request.parse (flush req) = some r ∧ r.contentLength = some 65536 ∧ r.body = []) ∧
      ¬ SendsRequest (MemoryPool.emptyPool 1024) .post (ascii "localhost") (ascii "/login")
          (List.replicate 65536 97) ∧
      ¬ SendsRequest (MemoryPool.emptyPool 1024) .get (ascii "localhost") (ascii "/login")
          (List.replicate 65536 97) := by
  have hinv := MemoryPool.emptyPool_inv 1024
  have hhost : 13 ∉ ascii "localhost" := by decide
  have hlen : (List.replicate 65536 (97 : UInt8)).length = 65536 := List.length_replicate
  have hunfit : ∀ method, ¬ Fits method (ascii "/login") (List.replicate 65536 97) := by
    rintro method ⟨-, hquery, -⟩
    rw [hlen] at hquery
    exact absurd hquery (by decide)
  exact ⟨hinv, hhost,
    announced_not_sent hinv (by decide) (by decide) hhost (by decide) hlen,
    fun h => hunfit _ (fits_of_sendsRequest hinv (by decide) (by decide) hhost h),
    fun h => hunfit _ (fits_of_sendsRequest hinv (by decide) (by decide) hhost h)⟩

end Jengine.Http
