import DolphinXR.Common.StringUtil
import DolphinXR.Lib.Search
import DolphinXR.Lib.StreamParser

/- The HTTP parser of the agent server (Core/AgentServer/HttpServer.cpp), and what the server does
   with the bytes of a client: they are appended to its buffer, and requests are parsed off its
   front. A status carries what `out` and `consumed` hold where the server reads them. -/
namespace DolphinXR.AgentServer.Http
open Common Lib Search StreamParser

def maxHttpHeaderBytes : Nat := 16 * 1024
def maxHttpBodyBytes : Nat := 4 * 1024 * 1024

structure HttpRequest where
  method : Text := []
  /-- Without the query string. -/
  path : Text := []
  version : Text := []
  headers : List (Text × Text) := []
  body : Text := []
  keepAlive : Bool := true
  expectContinue : Bool := false
  deriving DecidableEq

def HttpRequest.getHeader (request : HttpRequest) (name : String) : Option Text :=
  (request.headers.find? fun header => caseInsensitiveEquals header.1 name.toList).map (·.2)

inductive Refusal where
  | badRequest
  | tooLarge
  deriving DecidableEq

inductive HttpParseStatus where
  | needHeaders
  | needBody (out : HttpRequest)
  | ok (out : HttpRequest) (consumed : Nat)
  | refused (refusal : Refusal)
  deriving DecidableEq

/-! The head of a request. -/

/-- The pieces between the line ends: the request line, and the header lines. -/
def splitLines : Text → Text × List Text
  | '\r' :: '\n' :: head => ([], (splitLines head).1 :: (splitLines head).2)
  | c :: head => (c :: (splitLines head).1, (splitLines head).2)
  | [] => ([], [])

def parseRequestLine (line : Text) : Option HttpRequest :=
  match splitAtFirst ' ' line with
  | none => none
  | some (method, rest) =>
    -- Where nothing is found, the last space is the first one.
    match splitAtLast ' ' rest with
    | none => none
    | some (target, version) =>
      if method = [] ∨ target = [] ∨ ¬"HTTP/1.".toList <+: version then none
      else
        let path := target.takeWhile fun c => c != '?' && c != '#'
        some { method := method, path := path, version := version }

def parseHeaders : List Text → Option (List (Text × Text))
  | [] => some []
  | line :: lines =>
    if line = [] then parseHeaders lines
    -- Obsolete line folding is not supported.
    else if line.head? = some ' ' ∨ line.head? = some '\t' then none
    else
      match splitAtFirst ':' line with
      | none => none
      | some (name, value) =>
        if name = [] then none
        else
          (parseHeaders lines).map
            (((stripWhitespace name).map toLower, stripWhitespace value) :: ·)

def contentLength (out : HttpRequest) : Except Refusal Nat :=
  match out.getHeader "content-length" with
  | none => .ok 0
  | some lengthHeader =>
    match tryParseU64 lengthHeader with
    | none => .error .badRequest
    | some parsed => if parsed > maxHttpBodyBytes then .error .tooLarge else .ok parsed

/-- `connection` and `expect`. -/
def HttpRequest.withPersistence (out : HttpRequest) : HttpRequest :=
  let connection := ((out.getHeader "connection").getD []).map toLower
  { out with
    keepAlive :=
      if out.version = "HTTP/1.0".toList then (find "keep-alive".toList connection).isSome
      else (find "close".toList connection).isNone
    expectContinue :=
      caseInsensitiveEquals ((out.getHeader "expect").getD []) "100-continue".toList }

/-- What `ParseHttpRequest` reads before the end of the headers: the request without its body, and how
    long that is. -/
def parseHead (head : Text) : Except Refusal (HttpRequest × Nat) :=
  match parseRequestLine (splitLines head).1 with
  | none => .error .badRequest
  | some out =>
    match parseHeaders (splitLines head).2 with
    | none => .error .badRequest
    | some headers =>
      let out := { out with headers := headers }
      if (out.getHeader "transfer-encoding").isSome then .error .badRequest
      else
        match contentLength out with
        | .error refusal => .error refusal
        | .ok length => .ok (out.withPersistence, length)

/-! A request in a buffer. -/

def terminator : Text := ['\r', '\n', '\r', '\n']

def parseHttpRequest (buffer : Text) : HttpParseStatus :=
  match find terminator buffer with
  | none => if buffer.length > maxHttpHeaderBytes then .refused .tooLarge else .needHeaders
  | some headerEnd =>
    if headerEnd > maxHttpHeaderBytes then .refused .tooLarge
    else
      match parseHead (buffer.take headerEnd) with
      | .error refusal => .refused refusal
      | .ok (out, length) =>
        let bodyStart := headerEnd + 4
        if buffer.length - bodyStart < length then .needBody out
        else
          .ok { out with body := (buffer.drop bodyStart).take length } (bodyStart + length)

def HttpParseStatus.consumed : HttpParseStatus → Option Nat
  | .ok _ consumed => some consumed
  | _ => none

def HttpParseStatus.stops : HttpParseStatus → Bool
  | .refused _ => true
  | _ => false

section
variable {buffer : Text} {headerEnd : Nat}

theorem parseHttpRequest_append (h : find terminator buffer = some headerEnd)
    (hbody : ∀ out, parseHttpRequest buffer ≠ .needBody out) (more : Text) :
    parseHttpRequest (buffer ++ more) = parseHttpRequest buffer := by
  have hle := add_length_le_of_find h
  change headerEnd + 4 ≤ buffer.length at hle
  have htake : (buffer ++ more).take headerEnd = buffer.take headerEnd :=
    List.take_append_of_le_length (by omega)
  simp only [parseHttpRequest, find_append h, h, htake] at hbody ⊢
  split
  · rfl
  rename_i hlimit
  rw [if_neg hlimit] at hbody
  cases hhead : parseHead (buffer.take headerEnd) with
  | error refusal => rfl
  | ok x =>
    obtain ⟨out, length⟩ := x
    simp only [hhead] at hbody ⊢
    have hlength : ¬buffer.length - (headerEnd + 4) < length :=
      fun hlt => hbody out (if_pos hlt)
    have hmore : ¬(buffer ++ more).length - (headerEnd + 4) < length := by
      rw [List.length_append]
      omega
    rw [if_neg hlength, if_neg hmore, List.drop_append_of_le_length hle,
      List.take_append_of_le_length (by rw [List.length_drop]; omega)]

theorem exists_of_ok {out : HttpRequest} {consumed : Nat}
    (h : parseHttpRequest buffer = .ok out consumed) :
    ∃ headerEnd out' length, find terminator buffer = some headerEnd ∧
      headerEnd ≤ maxHttpHeaderBytes ∧
      parseHead (buffer.take headerEnd) = .ok (out', length) ∧
      consumed = headerEnd + 4 + length ∧ consumed ≤ buffer.length := by
  unfold parseHttpRequest at h
  split at h
  · split at h <;> cases h
  rename_i headerEnd hfind
  have hle := add_length_le_of_find hfind
  change headerEnd + 4 ≤ buffer.length at hle
  split at h
  · cases h
  rename_i hlimit
  split at h
  · cases h
  rename_i out' length hhead
  dsimp only at h
  split at h
  · cases h
  rename_i hlength
  cases h
  refine ⟨headerEnd, out', length, hfind, Nat.le_of_not_lt hlimit, hhead, rfl, ?_⟩
  omega

theorem consumed_le {out : HttpRequest} {consumed : Nat}
    (h : parseHttpRequest buffer = .ok out consumed) : consumed ≤ buffer.length := by
  obtain ⟨_, _, _, _, _, _, _, hle⟩ := exists_of_ok h
  exact hle

end

theorem HttpParseStatus.eq_ok {status : HttpParseStatus} {n : Nat} (h : status.consumed = some n) :
    ∃ out, status = .ok out n := by
  cases status with
  | ok out consumed => exact ⟨out, congrArg _ (Option.some.inj h)⟩
  | _ => cases h

/-- The parser and the buffer of a client (`serve`). -/
def httpParser : Parser Char HttpParseStatus where
  parse := parseHttpRequest
  consumed := HttpParseStatus.consumed
  stops := HttpParseStatus.stops
  pos_of_consumed := by
    intro buffer n h
    obtain ⟨out, hok⟩ := HttpParseStatus.eq_ok h
    obtain ⟨_, _, _, -, -, -, hconsumed, -⟩ := exists_of_ok hok
    omega
  le_of_consumed := by
    intro buffer n h
    obtain ⟨out, hok⟩ := HttpParseStatus.eq_ok h
    exact consumed_le hok
  not_stops := by
    intro status n h
    obtain ⟨out, rfl⟩ := HttpParseStatus.eq_ok h
    rfl
  parse_append := by
    intro buffer n h more
    obtain ⟨out, hok⟩ := HttpParseStatus.eq_ok h
    obtain ⟨headerEnd, _, _, hfind, -⟩ := exists_of_ok hok
    refine parseHttpRequest_append hfind ?_ more
    intro out' hbody
    rw [hok] at hbody
    cases hbody

end DolphinXR.AgentServer.Http
