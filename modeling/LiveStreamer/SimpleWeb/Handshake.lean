import LiveStreamer.SimpleWeb.Frames

/-! # The handshake (`parse_handshake`, `generate_handshake`, `handshake`)

A client is given a host, a port and a path in one string, asks the server for the path, and sends
a key; the server answers with the digest of the key. Each end reads the lines of the other up to
the empty one. SHA-1 and Base64 are OpenSSL's; what is used of them is that Base64 text has no line
breaks and is decoded to what was encoded.

The two ends understand each other, and what follows a handshake in the stream is still there for
the first `read_message` (`handshake_opens`). The string is taken apart as it was put together,
unless it has no port and a path with a colon (`hostPortPath_iff`). -/

namespace LiveStreamer.SimpleWeb.Handshake

open LiveStreamer.Lib.CString

/-! ### Lines -/

abbrev newline : UInt8 := 10
abbrev space : UInt8 := 32
abbrev colon : UInt8 := 58
abbrev slash : UInt8 := 47

/-- `getline`: the first line, and what is left of the stream. -/
def getline (stream : Bytes) : Bytes × Bytes :=
  (stream.takeWhile (· ≠ newline), (stream.dropWhile (· ≠ newline)).drop 1)

/-- `line.find(c, pos)` -/
def find (c : UInt8) (line : Bytes) (pos : ℕ) : Option ℕ :=
  ((line.drop pos).findIdx? (· = c)).map (pos + ·)

def substr (line : Bytes) (pos count : ℕ) : Bytes := (line.drop pos).take count

/-- A line with its end. -/
def crlf (line : Bytes) : Bytes := line ++ [13, newline]

abbrev Header := List (Bytes × Bytes)

/-- `header.insert`; a value that is there stays. -/
def insert (header : Header) (name value : Bytes) : Header :=
  if header.any (·.1 = name) then header else header ++ [(name, value)]

/-- `header[name]`, which is empty if it is not there. -/
def Header.get (header : Header) (name : Bytes) : Bytes := (header.lookup name).getD []

/-- A line with a colon at `paramEnd`. -/
def parseParam (header : Header) (text : Bytes) (paramEnd : ℕ) : Header :=
  let valueStart := paramEnd + 1
  if valueStart < text.length then
    let valueStart := if text[valueStart]? = some space then valueStart + 1 else valueStart
    if valueStart < text.length then
      insert header (substr text 0 paramEnd)
        (substr text valueStart (text.length - valueStart - 1))
    else header
  else header

/-- The lines up to the first one without a colon. `async_read_until` has found an empty line, so
the stream does not end before; every turn takes a line from it. -/
def parseParams : ℕ → Header → Bytes → Header × Bytes
  | 0, header, stream => (header, stream)
  | n + 1, header, stream =>
    match find colon (getline stream).1 0 with
    | some paramEnd =>
      parseParams n (parseParam header (getline stream).1 paramEnd) (getline stream).2
    | none => (header, (getline stream).2)

/-! ### The two ends -/

structure Request where
  method : Bytes
  path : Bytes
  httpVersion : Bytes
  header : Header

/-- `parse_handshake` of the server; it reads no more than a first line without two spaces. -/
def Server.parseHandshake (stream : Bytes) : Request × Bytes :=
  let (line, rest) := getline stream
  match find space line 0 with
  | some methodEnd =>
    match find space line (methodEnd + 1) with
    | some pathEnd =>
      let (header, rest) := parseParams rest.length [] rest
      ({ method := substr line 0 methodEnd
         path := substr line (methodEnd + 1) (pathEnd - methodEnd - 1)
         httpVersion :=
          if pathEnd + 6 < line.length then
            substr line (pathEnd + 6) (line.length - (pathEnd + 6) - 1)
          else lit "1.1"
         header }, rest)
    | none => (⟨[], [], [], []⟩, rest)
  | none => (⟨[], [], [], []⟩, rest)

/-- `parse_handshake` of the client; the first line is not looked at. -/
def Client.parseHandshake (stream : Bytes) : Header × Bytes :=
  parseParams (getline stream).2.length [] (getline stream).2

def magic : Bytes := lit "258EAFA5-E914-47DA-95CA-C5AB0DC85B11"

/-- The request of `handshake`, with the nonce in Base64. -/
def Client.request (host path key : Bytes) : Bytes :=
  crlf (lit "GET " ++ path ++ lit " HTTP/1.1") ++ crlf (lit "Host: " ++ host) ++
    crlf (lit "Upgrade: websocket") ++ crlf (lit "Connection: Upgrade") ++
    crlf (lit "Sec-WebSocket-Key: " ++ key) ++ crlf (lit "Sec-WebSocket-Version: 13") ++ crlf []

/-- The response of `generate_handshake`, with the digest in Base64. -/
def Server.response (accept : Bytes) : Bytes :=
  crlf (lit "HTTP/1.1 101 Web Socket Protocol Handshake") ++ crlf (lit "Upgrade: websocket") ++
    crlf (lit "Connection: Upgrade") ++ crlf (lit "Sec-WebSocket-Accept: " ++ accept) ++ crlf []

section Crypto
variable (sha1 encode decode : Bytes → Bytes)

/-- `generate_handshake` -/
def Server.generateHandshake (header : Header) : Option Bytes :=
  if header.any (·.1 = lit "Sec-WebSocket-Key") then
    some (Server.response (encode (sha1 (header.get (lit "Sec-WebSocket-Key") ++ magic))))
  else none

/-- `read_handshake` and `write_handshake`: the endpoint, the response, and what is left in the
buffer. `endpoints` are the expressions that the path is matched with. -/
def Server.handshake (endpoints : List (Bytes → Bool)) (stream : Bytes) :
    Option (ℕ × Bytes × Bytes) :=
  let (request, rest) := Server.parseHandshake stream
  match endpoints.findIdx? (· request.path) with
  | some k => (Server.generateHandshake sha1 encode request.header).map fun response =>
      (k, response, rest)
  | none => none

/-- The client opens the connection, with what is left in the buffer. -/
def Client.handshake (key stream : Bytes) : Option Bytes :=
  if decode ((Client.parseHandshake stream).1.get (lit "Sec-WebSocket-Accept")) =
      sha1 (key ++ magic) then
    some (Client.parseHandshake stream).2
  else none

end Crypto

/-! ### Reading lines -/

theorem getline_crlf {line : Bytes} (h : newline ∉ line) (rest : Bytes) :
    getline (crlf line ++ rest) = (line ++ [13], rest) := by
  have hline : ∀ c ∈ line ++ [13], decide (c ≠ newline) = true := by
    intro c hc
    refine decide_eq_true fun he => ?_
    rcases List.mem_append.mp hc with hc | hc
    · exact h (he ▸ hc)
    · rw [List.mem_singleton.mp hc] at he
      exact absurd he (by decide)
  have hsplit : crlf line ++ rest = (line ++ [13]) ++ newline :: rest := by
    simp [crlf]
  rw [getline, hsplit, List.takeWhile_append_of_pos hline, List.dropWhile_append_of_pos hline]
  simp

theorem find_append {c : UInt8} {mid : Bytes} (h : c ∉ mid) (front back : Bytes) :
    find c (front ++ (mid ++ c :: back)) front.length = some (front.length + mid.length) := by
  have hnone : mid.findIdx? (fun x => decide (x = c)) = none :=
    List.findIdx?_eq_none_iff.mpr fun x hx => decide_eq_false fun he => h (he ▸ hx)
  rw [find, List.drop_left, List.findIdx?_append, hnone, List.findIdx?_cons]
  simp

theorem find_first {c : UInt8} {mid : Bytes} (h : c ∉ mid) (back : Bytes) :
    find c (mid ++ c :: back) 0 = some mid.length := by
  have hfind := find_append h [] back
  rwa [List.nil_append, List.length_nil, Nat.zero_add] at hfind

theorem find_none {c : UInt8} {line : Bytes} (h : c ∉ line) (pos : ℕ) : find c line pos = none := by
  have hnone : (line.drop pos).findIdx? (fun x => decide (x = c)) = none :=
    List.findIdx?_eq_none_iff.mpr fun x hx => decide_eq_false fun he =>
      h (he ▸ List.mem_of_mem_drop hx)
  rw [find, hnone]
  rfl

/-- A line as the two ends write it: a name, a colon and a space, and a value. -/
theorem parseParam_line (header : Header) (name value : Bytes) :
    parseParam header (name ++ colon :: space :: value ++ [13]) name.length =
      insert header name value := by
  have hlen : (name ++ colon :: space :: value ++ [13]).length = name.length + value.length + 3 := by
    simp
    omega
  have hspace : (name ++ colon :: space :: value ++ [13])[name.length + 1]? = some space := by
    simp
  have hname : substr (name ++ colon :: space :: value ++ [13]) 0 name.length = name := by
    simp [substr]
  have hvalue : substr (name ++ colon :: space :: value ++ [13]) (name.length + 2) value.length =
      value := by
    simp [substr]
  simp only [parseParam, hlen, hspace, if_true]
  rw [if_pos (by omega), if_pos (by omega), hname,
    show name.length + value.length + 3 - (name.length + 1 + 1) - 1 = value.length by omega,
    show name.length + 1 + 1 = name.length + 2 from rfl, hvalue]

/-- The lines of some parameters. -/
def paramLines (params : Header) : Bytes :=
  params.flatMap fun p => crlf (p.1 ++ colon :: space :: p.2)

/-- Parameters that can be written into lines. -/
def Lines (params : Header) : Prop :=
  ∀ p ∈ params, colon ∉ p.1 ∧ newline ∉ p.1 ∧ newline ∉ p.2

/-- **The parameters are read as they were written**, and what follows the empty line is left. -/
theorem parseParams_lines {params : Header} (h : Lines params) (header : Header) (rest : Bytes)
    {n : ℕ} (hn : params.length < n) :
    parseParams n header (paramLines params ++ (crlf [] ++ rest)) =
      (params.foldl (fun header p => insert header p.1 p.2) header, rest) := by
  induction params generalizing header n with
  | nil =>
    obtain ⟨n, rfl⟩ : ∃ k, n = k + 1 := ⟨n - 1, by omega⟩
    have hline := getline_crlf List.not_mem_nil rest
    have hno : find colon (getline (crlf [] ++ rest)).1 0 = none := by
      rw [hline]
      exact find_none (show colon ∉ [13] by decide) 0
    show parseParams (n + 1) header (crlf [] ++ rest) = _
    rw [parseParams, hno, hline]
    rfl
  | cons p params ih =>
    obtain ⟨n, rfl⟩ : ∃ k, n = k + 1 := ⟨n - 1, by omega⟩
    obtain ⟨hcolon, hname, hvalue⟩ := h p (List.mem_cons_self ..)
    have hplain : newline ∉ p.1 ++ colon :: space :: p.2 := by
      simp only [List.mem_append, List.mem_cons, not_or]
      exact ⟨hname, by decide, by decide, hvalue⟩
    have hline := getline_crlf hplain (paramLines params ++ (crlf [] ++ rest))
    have hsplit : paramLines (p :: params) ++ (crlf [] ++ rest) =
        crlf (p.1 ++ colon :: space :: p.2) ++ (paramLines params ++ (crlf [] ++ rest)) := by
      rw [paramLines, List.flatMap_cons, List.append_assoc]
      rfl
    have hfind : find colon (p.1 ++ colon :: space :: p.2 ++ [13]) 0 = some p.1.length := by
      rw [← find_first hcolon (space :: p.2 ++ [13])]
      simp
    rw [hsplit, parseParams, hline, hfind]
    simp only [parseParam_line]
    exact ih (fun q hq => h q (.tail _ hq)) _ (by simp at hn; omega)

/-- Every line has bytes. -/
theorem length_paramLines (params : Header) : params.length ≤ (paramLines params).length := by
  induction params with
  | nil => exact Nat.zero_le _
  | cons p params ih =>
    have hcons : paramLines (p :: params) =
        crlf (p.1 ++ colon :: space :: p.2) ++ paramLines params := rfl
    rw [hcons, List.length_append, List.length_cons, crlf]
    simp only [List.length_append, List.length_cons]
    omega

/-! ### The two handshakes -/

def requestParams (host key : Bytes) : Header :=
  [(lit "Host", host), (lit "Upgrade", lit "websocket"), (lit "Connection", lit "Upgrade"),
    (lit "Sec-WebSocket-Key", key), (lit "Sec-WebSocket-Version", lit "13")]

theorem request_eq (host path key : Bytes) : Client.request host path key =
    crlf (lit "GET " ++ path ++ lit " HTTP/1.1") ++
      (paramLines (requestParams host key) ++ crlf []) := by
  have hhost : lit "Host: " = lit "Host" ++ [colon, space] := by decide
  have hkey : lit "Sec-WebSocket-Key: " = lit "Sec-WebSocket-Key" ++ [colon, space] := by decide
  have hupgrade : lit "Upgrade: websocket" = lit "Upgrade" ++ colon :: space :: lit "websocket" := by
    decide
  have hconnection : lit "Connection: Upgrade" =
      lit "Connection" ++ colon :: space :: lit "Upgrade" := by decide
  have hversion : lit "Sec-WebSocket-Version: 13" =
      lit "Sec-WebSocket-Version" ++ colon :: space :: lit "13" := by decide
  rw [Client.request, hhost, hkey, hupgrade, hconnection, hversion]
  simp only [paramLines, requestParams, List.flatMap_cons, List.flatMap_nil, List.append_assoc,
    List.cons_append, List.nil_append, List.append_nil]

/-- Parameters with names of their own are all kept. -/
theorem foldl_insert {header params : Header} (h : ((header ++ params).map Prod.fst).Nodup) :
    params.foldl (fun header p => insert header p.1 p.2) header = header ++ params := by
  induction params generalizing header with
  | nil => rw [List.foldl_nil, List.append_nil]
  | cons p params ih =>
    have hnew : header.any (·.1 = p.1) = false := by
      refine List.any_eq_false.mpr fun q hq he => ?_
      rw [List.map_append, List.nodup_append] at h
      exact h.2.2 q.1 (List.mem_map_of_mem hq) p.1 (List.mem_cons_self ..) (of_decide_eq_true he)
    have hinsert : insert header p.1 p.2 = header ++ [p] := by
      rw [insert, hnew]
      rfl
    rw [List.foldl_cons, hinsert, ih (by rwa [List.append_assoc]), List.append_assoc]
    rfl

/-- Parameters with names of their own are read back. -/
theorem parseParams_text {params : Header} (h : Lines params)
    (hnodup : (params.map Prod.fst).Nodup) (rest : Bytes) :
    parseParams (paramLines params ++ (crlf [] ++ rest)).length []
      (paramLines params ++ (crlf [] ++ rest)) = (params, rest) := by
  have hlen : params.length < (paramLines params ++ (crlf [] ++ rest)).length := by
    have hlines := length_paramLines params
    have hend : (crlf []).length = 2 := rfl
    rw [List.length_append, List.length_append]
    omega
  have hall : params.foldl (fun header p => insert header p.1 p.2) [] = params := by
    rw [foldl_insert (show (([] ++ params).map Prod.fst).Nodup from hnodup), List.nil_append]
  rw [parseParams_lines h [] rest hlen, hall]

theorem nodup_requestParams (host key : Bytes) :
    ((requestParams host key).map Prod.fst).Nodup := by
  show ([lit "Host", lit "Upgrade", lit "Connection", lit "Sec-WebSocket-Key",
    lit "Sec-WebSocket-Version"] : List Bytes).Nodup
  decide

theorem lines_requestParams {host key : Bytes} (hhost : newline ∉ host) (hkey : newline ∉ key) :
    Lines (requestParams host key) := by
  intro p hp
  simp only [requestParams, List.mem_cons, List.not_mem_nil, or_false] at hp
  rcases hp with rfl | rfl | rfl | rfl | rfl
  · exact ⟨(by decide : colon ∉ lit "Host"), (by decide : newline ∉ lit "Host"), hhost⟩
  · decide
  · decide
  · exact ⟨(by decide : colon ∉ lit "Sec-WebSocket-Key"),
      (by decide : newline ∉ lit "Sec-WebSocket-Key"), hkey⟩
  · decide

/-- The first line of a request, as it is read. -/
def requestLine (path : Bytes) : Bytes := lit "GET " ++ (path ++ space :: (lit "HTTP/1.1" ++ [13]))

theorem length_requestLine (path : Bytes) : (requestLine path).length = path.length + 14 := by
  simp [requestLine, lit]

theorem find_requestLine {path : Bytes} (h : space ∉ path) :
    find space (requestLine path) 0 = some 3 ∧
      find space (requestLine path) (3 + 1) = some (4 + path.length) :=
  ⟨find_first (by decide : space ∉ lit "GET") _, find_append h (lit "GET ") _⟩

/-- The method, the path and the version of the first line. -/
theorem substr_requestLine (path : Bytes) : substr (requestLine path) 0 3 = lit "GET" ∧
    substr (requestLine path) 4 path.length = path ∧
    substr (requestLine path) (path.length + 10) 3 = lit "1.1" := by
  refine ⟨?_, ?_, ?_⟩
  · rw [requestLine, substr, List.drop_zero, List.take_append_of_le_length (by decide)]
    decide
  · rw [requestLine, substr, List.drop_left' (by decide), List.take_left]
  · have hspace : space :: (lit "HTTP/1.1" ++ [13]) = lit " HTTP/" ++ (lit "1.1" ++ [13]) := by
      decide
    have hsplit : requestLine path = lit "GET " ++ path ++ lit " HTTP/" ++ (lit "1.1" ++ [13]) := by
      rw [requestLine, hspace]
      simp only [List.append_assoc]
    have hfront : (lit "GET " ++ path ++ lit " HTTP/").length = path.length + 10 := by
      simp [lit]
    rw [hsplit, substr, List.drop_left' hfront]
    decide

/-- **The server reads the request.** -/
theorem parse_request {host path key : Bytes} (hhost : newline ∉ host)
    (hpath : space ∉ path ∧ newline ∉ path) (hkey : newline ∉ key) (rest : Bytes) :
    Server.parseHandshake (Client.request host path key ++ rest) =
      (⟨lit "GET", path, lit "1.1", requestParams host key⟩, rest) := by
  have hplain : newline ∉ lit "GET " ++ path ++ lit " HTTP/1.1" := by
    simp only [List.mem_append, not_or]
    exact ⟨⟨by decide, hpath.2⟩, by decide⟩
  have hline := getline_crlf hplain (paramLines (requestParams host key) ++ (crlf [] ++ rest))
  have htext : Client.request host path key ++ rest =
      crlf (lit "GET " ++ path ++ lit " HTTP/1.1") ++
        (paramLines (requestParams host key) ++ (crlf [] ++ rest)) := by
    rw [request_eq]
    simp only [List.append_assoc]
  have hfirst : lit "GET " ++ path ++ lit " HTTP/1.1" ++ [13] = requestLine path := by
    have hspace : lit " HTTP/1.1" = space :: lit "HTTP/1.1" := by decide
    rw [hspace, requestLine]
    simp
  have hparams := parseParams_text (lines_requestParams hhost hkey)
    (nodup_requestParams host key) rest
  obtain ⟨hmethod, hend⟩ := find_requestLine hpath.1
  obtain ⟨hget, hurl, hversion⟩ := substr_requestLine path
  rw [htext, Server.parseHandshake, hline, hfirst]
  simp only [hmethod, hend, hparams, length_requestLine]
  rw [if_pos (by omega), hget, show 3 + 1 = 4 from rfl,
    show 4 + path.length - 3 - 1 = path.length by omega, hurl,
    show 4 + path.length + 6 = path.length + 10 by omega,
    show path.length + 14 - (path.length + 10) - 1 = 3 by omega, hversion]

def responseParams (accept : Bytes) : Header :=
  [(lit "Upgrade", lit "websocket"), (lit "Connection", lit "Upgrade"),
    (lit "Sec-WebSocket-Accept", accept)]

/-- **The client reads the response.** -/
theorem parse_response {accept : Bytes} (h : newline ∉ accept) (rest : Bytes) :
    Client.parseHandshake (Server.response accept ++ rest) = (responseParams accept, rest) := by
  have hupgrade : lit "Upgrade: websocket" = lit "Upgrade" ++ colon :: space :: lit "websocket" := by
    decide
  have hconnection : lit "Connection: Upgrade" =
      lit "Connection" ++ colon :: space :: lit "Upgrade" := by decide
  have haccept : lit "Sec-WebSocket-Accept: " ++ accept =
      lit "Sec-WebSocket-Accept" ++ colon :: space :: accept := by
    have hname : lit "Sec-WebSocket-Accept: " = lit "Sec-WebSocket-Accept" ++ [colon, space] := by
      decide
    rw [hname]
    simp
  have htext : Server.response accept ++ rest =
      crlf (lit "HTTP/1.1 101 Web Socket Protocol Handshake") ++
        (paramLines (responseParams accept) ++ (crlf [] ++ rest)) := by
    rw [Server.response, hupgrade, hconnection, haccept]
    simp only [paramLines, responseParams, List.flatMap_cons, List.flatMap_nil, List.append_assoc,
      List.append_nil]
  have hline := getline_crlf
    (by decide : newline ∉ lit "HTTP/1.1 101 Web Socket Protocol Handshake")
    (paramLines (responseParams accept) ++ (crlf [] ++ rest))
  have hlines : Lines (responseParams accept) := by
    intro p hp
    simp only [responseParams, List.mem_cons, List.not_mem_nil, or_false] at hp
    rcases hp with rfl | rfl | rfl
    · decide
    · decide
    · exact ⟨(by decide : colon ∉ lit "Sec-WebSocket-Accept"),
        (by decide : newline ∉ lit "Sec-WebSocket-Accept"), h⟩
  have hnodup : ((responseParams accept).map Prod.fst).Nodup := by
    show ([lit "Upgrade", lit "Connection", lit "Sec-WebSocket-Accept"] : List Bytes).Nodup
    decide
  rw [htext, Client.parseHandshake, hline, parseParams_text hlines hnodup]

/-- **Both ends open the connection**: the server finds the endpoint for the path of the client, the
client accepts the digest, and what has come after the handshake is left to each of them. -/
theorem handshake_opens {sha1 encode decode : Bytes → Bytes} {host path key : Bytes}
    (hhost : newline ∉ host) (hpath : space ∉ path ∧ newline ∉ path) (hkey : newline ∉ key)
    (hplain : newline ∉ encode (sha1 (key ++ magic)))
    (hdecode : decode (encode (sha1 (key ++ magic))) = sha1 (key ++ magic))
    {endpoints : List (Bytes → Bool)} {k : ℕ} (hk : endpoints.findIdx? (· path) = some k)
    (early late : Bytes) : ∃ response,
      Server.handshake sha1 encode endpoints (Client.request host path key ++ early) =
          some (k, response, early) ∧
        Client.handshake sha1 decode key (response ++ late) = some late := by
  have hget : (requestParams host key).get (lit "Sec-WebSocket-Key") = key := rfl
  have hhas : (requestParams host key).any (·.1 = lit "Sec-WebSocket-Key") = true := rfl
  have haccept : (responseParams (encode (sha1 (key ++ magic)))).get (lit "Sec-WebSocket-Accept") =
      encode (sha1 (key ++ magic)) := rfl
  refine ⟨Server.response (encode (sha1 (key ++ magic))), ?_, ?_⟩
  · rw [Server.handshake, parse_request hhost hpath hkey early]
    simp only [hk]
    rw [Server.generateHandshake, if_pos hhas, hget]
    rfl
  · rw [Client.handshake, parse_response hplain late, haccept, if_pos hdecode]

/-- The digest of the key `dGhlIHNhbXBsZSBub25jZQ==` and `magic`, and its Base64 text. -/
def sampleDigest : Bytes :=
  [179, 122, 79, 44, 192, 98, 79, 22, 144, 246, 70, 6, 207, 56, 89, 69, 178, 190, 196, 234]

def sampleAccept : Bytes := lit "s3pPLMBiTxaQ9kYGzzhZRbK+xOo="

theorem handshake_opens_sample : ∃ response,
    Server.handshake (fun _ => sampleDigest) (fun _ => sampleAccept)
          [fun p => p = lit "/echo" || p = lit "/echo/"]
          (Client.request (lit "localhost") (lit "/echo") (lit "dGhlIHNhbXBsZSBub25jZQ==") ++
            [129]) = some (0, response, [129]) ∧
      Client.handshake (fun _ => sampleDigest) (fun _ => sampleDigest)
        (lit "dGhlIHNhbXBsZSBub25jZQ==") (response ++ [136]) = some [136] :=
  handshake_opens (by decide) (by decide) (by decide) (by decide) rfl (by decide) [129] [136]

/-! ### Host, port and path -/

def isSpace (c : UInt8) : Bool := c = 32 || 9 ≤ c && c ≤ 13

def isDigit (c : UInt8) : Bool := 48 ≤ c && c ≤ 57

def number (digits : Bytes) : ℕ := digits.foldl (fun n c => 10 * n + (c.toNat - 48)) 0

/-- `stoul`, and nothing where it throws. -/
def stoul (s : Bytes) : Option ℕ :=
  let s := s.dropWhile isSpace
  let negative := s.head? = some 45
  let s := if s.head? = some 43 ∨ negative then s.drop 1 else s
  let digits := s.takeWhile isDigit
  if digits = [] ∨ 2 ^ 64 ≤ number digits then none
  else some (if negative then (2 ^ 64 - number digits) % 2 ^ 64 else number digits)

structure Target where
  host : Bytes
  port : ℕ
  path : Bytes
  deriving DecidableEq

/-- The constructor of `SocketClientBase`, and nothing where it throws. -/
def hostPortPath (s : Bytes) (defaultPort : ℕ) : Option Target :=
  let hostPortEnd := find slash s 0
  let path := match hostPortEnd with
    | some p => s.drop p
    | none => [slash]
  match find colon s 0 with
  | some hostEnd =>
    -- with the slash before the colon the difference wraps round, and the rest is taken
    let port := match hostPortEnd with
      | some p =>
        substr s (hostEnd + 1) (if hostEnd + 1 ≤ p then p - (hostEnd + 1) else s.length)
      | none => s.drop (hostEnd + 1)
    (stoul port).map fun n => ⟨substr s 0 hostEnd, n % 65536, path⟩
  | none => some ⟨match hostPortEnd with
    | some p => substr s 0 p
    | none => s, defaultPort, path⟩

/-- The digits of a port. -/
def IsPort (digits : Bytes) : Prop :=
  digits ≠ [] ∧ (∀ c ∈ digits, isDigit c = true) ∧ number digits < 65536

theorem isDigit_ne {c : UInt8} (h : isDigit c = true) :
    isSpace c = false ∧ c ≠ 43 ∧ c ≠ 45 ∧ c ≠ slash := by
  have hall : ∀ n : Fin 256, isDigit (UInt8.ofNat n) = true → isSpace (UInt8.ofNat n) = false ∧
      UInt8.ofNat n ≠ 43 ∧ UInt8.ofNat n ≠ 45 ∧ UInt8.ofNat n ≠ slash := by decide +kernel
  have hc : UInt8.ofNat c.toNat = c := UInt8.ofNat_toNat
  have hn := hall ⟨c.toNat, UInt8.toNat_lt c⟩
  rw [hc] at hn
  exact hn h

theorem stoul_port {digits : Bytes} (h : IsPort digits) : stoul digits = some (number digits) := by
  obtain ⟨hne, hdigits, hlt⟩ := h
  obtain ⟨c, ds, rfl⟩ := List.exists_cons_of_ne_nil hne
  obtain ⟨hspace, hplus, hminus, -⟩ := isDigit_ne (hdigits c (List.mem_cons_self ..))
  have hdrop : (c :: ds).dropWhile isSpace = c :: ds := List.dropWhile_cons_of_neg (by simp [hspace])
  have htake : (c :: ds).takeWhile isDigit = c :: ds := List.takeWhile_eq_self_iff.mpr hdigits
  have hneg : (c :: ds).head? ≠ some 45 := fun he => hminus (Option.some.inj he)
  have hpos : (c :: ds).head? ≠ some 43 := fun he => hplus (Option.some.inj he)
  simp only [stoul, hdrop, hneg, hpos, or_self, if_false, htake]
  rw [if_neg]
  simp only [List.cons_ne_nil, false_or, not_le]
  omega

/-- What a client is made with. -/
def authority (host : Bytes) (port : Option Bytes) (path : Bytes) : Bytes :=
  host ++ (match port with
    | some digits => colon :: digits
    | none => []) ++ path

/-- What it should be connected to. -/
def target (host : Bytes) (port : Option Bytes) (defaultPort : ℕ) (path : Bytes) : Target :=
  ⟨host, match port with
    | some digits => number digits
    | none => defaultPort, if path = [] then [slash] else path⟩

section Authority
variable {host path : Bytes} {defaultPort : ℕ}

theorem hostPortPath_port (hhost : colon ∉ host ∧ slash ∉ host)
    (hpath : path = [] ∨ ∃ t, path = slash :: t) {digits : Bytes} (hd : IsPort digits) :
    hostPortPath (authority host (some digits) path) defaultPort =
      some (target host (some digits) defaultPort path) := by
  have hfront : slash ∉ host ++ colon :: digits := by
    simp only [List.mem_append, List.mem_cons, not_or]
    exact ⟨hhost.2, by decide, fun hm => (isDigit_ne (hd.2.1 slash hm)).2.2.2 rfl⟩
  have hmod : number digits % 65536 = number digits := Nat.mod_eq_of_lt hd.2.2
  rcases hpath with rfl | ⟨t, rfl⟩
  · have hcolon : find colon (host ++ colon :: digits) 0 = some host.length :=
      find_first hhost.1 digits
    have hdrop : (host ++ colon :: digits).drop (host.length + 1) = digits := by simp
    have hname : substr (host ++ colon :: digits) 0 host.length = host := by simp [substr]
    simp only [authority, List.append_nil, hostPortPath, find_none hfront 0, hcolon, hdrop,
      stoul_port hd, Option.map_some, hname, hmod, target, if_true]
  · have hcolon : find colon (host ++ colon :: digits ++ slash :: t) 0 = some host.length := by
      rw [List.append_assoc]
      exact find_first hhost.1 _
    have hslash := find_first hfront t
    have hlen : (host ++ colon :: digits).length = host.length + 1 + digits.length := by
      simp
      omega
    have hsub : substr (host ++ colon :: digits ++ slash :: t) (host.length + 1) digits.length =
        digits := by simp [substr]
    have hdrop : (host ++ colon :: digits ++ slash :: t).drop (host.length + 1 + digits.length) =
        slash :: t := List.drop_left' hlen
    have hname : substr (host ++ colon :: digits ++ slash :: t) 0 host.length = host := by
      simp [substr]
    simp only [authority, hostPortPath, hslash, hcolon, hlen, if_pos (Nat.le_add_right _ _),
      Nat.add_sub_cancel_left, hsub, hdrop, stoul_port hd, Option.map_some, hname, hmod, target,
      List.cons_ne_nil, if_false]

theorem hostPortPath_plain (hhost : colon ∉ host ∧ slash ∉ host)
    (hpath : path = [] ∨ ∃ t, path = slash :: t) (hc : colon ∉ path) :
    hostPortPath (authority host none path) defaultPort =
      some (target host none defaultPort path) := by
  have hall : colon ∉ host ++ path := by
    simp only [List.mem_append, not_or]
    exact ⟨hhost.1, hc⟩
  rcases hpath with rfl | ⟨t, rfl⟩
  · simp only [authority, List.append_nil, hostPortPath, find_none hhost.2 0, find_none hhost.1 0,
      target, if_true]
  · have hslash := find_first hhost.2 t
    have hname : substr (host ++ slash :: t) 0 host.length = host := by simp [substr]
    have hdrop : (host ++ slash :: t).drop host.length = slash :: t := List.drop_left
    simp only [authority, List.append_nil, hostPortPath, find_none hall 0, hslash, hname, hdrop,
      target, List.cons_ne_nil, if_false]

/-- A colon in the path is taken for the one before the port. -/
theorem hostPortPath_colon (hhost : colon ∉ host ∧ slash ∉ host) {t : Bytes}
    (hc : colon ∈ slash :: t) : hostPortPath (authority host none (slash :: t)) defaultPort ≠
      some (target host none defaultPort (slash :: t)) := by
  have hmem : colon ∈ t := (List.mem_cons.mp hc).resolve_left (by decide)
  obtain ⟨t₁, t₂, rfl, hfirst⟩ := List.eq_append_cons_of_mem hmem
  have hfront : colon ∉ host ++ slash :: t₁ := by
    simp only [List.mem_append, List.mem_cons, not_or]
    exact ⟨hhost.1, by decide, hfirst⟩
  have htext : authority host none (slash :: (t₁ ++ colon :: t₂)) =
      host ++ slash :: t₁ ++ colon :: t₂ := by
    simp [authority]
  have hcolon := find_first hfront t₂
  have hname : substr (host ++ slash :: t₁ ++ colon :: t₂) 0 (host ++ slash :: t₁).length =
      host ++ slash :: t₁ := by
    rw [substr, List.drop_zero, List.take_left]
  intro he
  rw [htext] at he
  simp only [hostPortPath, hcolon] at he
  obtain ⟨n, -, hn⟩ := Option.map_eq_some_iff.mp he
  have hhost' : host ++ slash :: t₁ = host := hname.symm.trans (congrArg Target.host hn)
  have hlen := congrArg List.length hhost'
  simp at hlen

/-- **The string is taken apart as it was put together** if and only if it has a port or no colon in
its path. -/
theorem hostPortPath_iff (hhost : colon ∉ host ∧ slash ∉ host) {port : Option Bytes}
    (hport : ∀ digits ∈ port, IsPort digits) (hpath : path = [] ∨ ∃ t, path = slash :: t)
    (defaultPort : ℕ) : hostPortPath (authority host port path) defaultPort =
        some (target host port defaultPort path) ↔ port ≠ none ∨ colon ∉ path := by
  rcases port with _ | digits
  · by_cases hc : colon ∈ path
    · rcases hpath with rfl | ⟨t, rfl⟩
      · exact absurd hc List.not_mem_nil
      · refine iff_of_false (hostPortPath_colon hhost hc) ?_
        simp only [ne_eq, not_true_eq_false, false_or, not_not]
        exact hc
    · exact iff_of_true (hostPortPath_plain hhost hpath hc) (Or.inr hc)
  · exact iff_of_true (hostPortPath_port hhost hpath (hport digits rfl))
      (Or.inl (Option.some_ne_none digits))

/-- The echo service, and a path whose colon is taken for that of a port. -/
theorem hostPortPath_echo :
    hostPortPath (lit "localhost:8080/echo") 80 = some ⟨lit "localhost", 8080, lit "/echo"⟩ ∧
      hostPortPath (lit "localhost/a:b") 80 ≠ some ⟨lit "localhost", 80, lit "/a:b"⟩ := by
  constructor
  · have h : hostPortPath (authority (lit "localhost") (some (lit "8080")) (lit "/echo")) 80 =
        some (target (lit "localhost") (some (lit "8080")) 80 (lit "/echo")) :=
      (hostPortPath_iff (by decide)
        (fun _ hd => (Option.some.inj hd) ▸ ⟨by decide, by decide +kernel, by decide +kernel⟩)
        (Or.inr ⟨lit "echo", by decide⟩) 80).mpr (Or.inl (Option.some_ne_none _))
    rw [show authority (lit "localhost") (some (lit "8080")) (lit "/echo") =
      lit "localhost:8080/echo" from by decide +kernel] at h
    exact h.trans (congrArg some (by decide +kernel))
  · have hiff : hostPortPath (authority (lit "localhost") none (lit "/a:b")) 80 =
        some (target (lit "localhost") none 80 (lit "/a:b")) ↔
          (none : Option Bytes) ≠ none ∨ colon ∉ lit "/a:b" :=
      hostPortPath_iff (by decide) (fun _ hd => absurd hd (by simp))
        (Or.inr ⟨lit "a:b", by decide⟩) 80
    rw [show authority (lit "localhost") none (lit "/a:b") = lit "localhost/a:b" from
      by decide +kernel, show target (lit "localhost") none 80 (lit "/a:b") =
        ⟨lit "localhost", 80, lit "/a:b"⟩ from by decide +kernel] at hiff
    exact fun h => absurd (hiff.mp h) (by decide)

end Authority

end LiveStreamer.SimpleWeb.Handshake
