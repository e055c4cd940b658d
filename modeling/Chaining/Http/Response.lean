import Chaining.Outcome

/-! # Responses

A response is a status line, a map of header fields and a body, which three setters fill in. The
reason phrase of a status code is looked up in a table; the code is assigned before the lookup, which
throws for a code that the table lacks. `Serialization` writes a response to a buffer, the fields in
whatever order the map is iterated in.

The buffer is a parameter: all that is asked of it is that `append` adds its bytes at the end
(`Sink`). -/

namespace Chaining.Http.Response

open Chaining.Outcome

abbrev Bytes := List UInt8

/-- The bytes of a text of the source. -/
def bytes (s : String) : Bytes := s.toList.map fun c => UInt8.ofNat c.toNat

/-- `std::to_string`. -/
def toText (n : ℕ) : Bytes := (Nat.toDigits 10 n).map fun c => UInt8.ofNat c.toNat

/-! ### Status codes -/

/-- `enum class StatusCode : uint16_t`: any 16 bits are a legal value. -/
abbrev StatusCode := UInt16

namespace StatusCode

def c100 : StatusCode := 100
def c101 : StatusCode := 101
def c200 : StatusCode := 200
def c201 : StatusCode := 201
def c202 : StatusCode := 202
def c203 : StatusCode := 203
def c204 : StatusCode := 204
def c205 : StatusCode := 205
def c206 : StatusCode := 206
def c300 : StatusCode := 300
def c301 : StatusCode := 301
def c302 : StatusCode := 302
def c303 : StatusCode := 303
def c304 : StatusCode := 304
def c305 : StatusCode := 305
def c307 : StatusCode := 307
def c400 : StatusCode := 400
def c401 : StatusCode := 401
def c402 : StatusCode := 402
def c403 : StatusCode := 403
def c404 : StatusCode := 404
def c405 : StatusCode := 405
def c406 : StatusCode := 406
def c407 : StatusCode := 407
def c408 : StatusCode := 408
def c409 : StatusCode := 409
def c410 : StatusCode := 410
def c411 : StatusCode := 411
def c412 : StatusCode := 412
def c413 : StatusCode := 413
def c414 : StatusCode := 414
def c415 : StatusCode := 415
def c416 : StatusCode := 416
def c417 : StatusCode := 417
def c500 : StatusCode := 500
def c501 : StatusCode := 501
def c502 : StatusCode := 502
def c503 : StatusCode := 503
def c504 : StatusCode := 504
def c505 : StatusCode := 505

/-- The enumeration. -/
def enumerators : List StatusCode :=
  [c100, c101, c200, c201, c202, c203, c204, c205, c206, c300, c301, c302, c303, c304, c305,
    c307, c400, c401, c402, c403, c404, c405, c406, c407, c408, c409, c410, c411, c412,
    c413, c414, c415, c416, c417, c500, c501, c502, c503, c504, c505]

end StatusCode

def code2Message : List (StatusCode × String) :=
  [(StatusCode.c100, "Continue"),
    (StatusCode.c101, "Switching Protocols"),
    (StatusCode.c200, "OK"),
    (StatusCode.c201, "Created"),
    (StatusCode.c202, "Accepted"),
    (StatusCode.c203, "Non-Authoritative Information"),
    (StatusCode.c204, "No Content"),
    (StatusCode.c205, "Reset Content"),
    (StatusCode.c206, "Parital Content"),
    (StatusCode.c300, "Multiple Choices"),
    (StatusCode.c301, "Moved Permanently"),
    (StatusCode.c302, "Found"),
    (StatusCode.c303, "See Other"),
    (StatusCode.c304, "Not Modified"),
    (StatusCode.c305, "Use Proxy"),
    (StatusCode.c307, "Temporary Redirect"),
    (StatusCode.c400, "Bad Request"),
    (StatusCode.c401, "Unauthorized"),
    (StatusCode.c402, "Payment Required"),
    (StatusCode.c403, "Forbidden"),
    (StatusCode.c404, "Not Found"),
    (StatusCode.c405, "Method Not Allowed"),
    (StatusCode.c406, "Not Acceptable"),
    (StatusCode.c407, "Proxy Authentication Required"),
    (StatusCode.c408, "Request Time-out"),
    (StatusCode.c409, "Conflict"),
    (StatusCode.c410, "Gone"),
    (StatusCode.c411, "Length Required"),
    (StatusCode.c412, "Precondition Failed"),
    (StatusCode.c413, "Request Entity Too Large"),
    (StatusCode.c414, "Request-URI Too Large"),
    (StatusCode.c415, "Unsupported Media Type"),
    (StatusCode.c416, "Requested range not satisfiable"),
    (StatusCode.c417, "Expectation Failed"),
    (StatusCode.c500, "Internal Server Error"),
    (StatusCode.c501, "Not Implemented"),
    (StatusCode.c502, "Bad Gateway"),
    (StatusCode.c503, "Service Unavailable"),
    (StatusCode.c504, "Gateway Time-out"),
    (StatusCode.c505, "HTTP Version not supported")]

/-- `StatusCode2Message`; `none` is an exception. -/
def StatusCode2Message (code : StatusCode) : Option Bytes := (code2Message.lookup code).map bytes

inductive Version where
  | v09
  | v10
  | v11
  deriving DecidableEq

def Version.text : Version → Bytes
  | v09 => bytes "HTTP/0.9"
  | v10 => bytes "HTTP/1.0"
  | v11 => bytes "HTTP/1.1"

structure StatusLine where
  version : Version
  code : StatusCode
  statusMessage : Bytes

/-- How a call ends that may throw. -/
inductive Ended where
  | returned
  | threw

def StatusLine.setCode (l : StatusLine) (c : StatusCode) : StatusLine × Ended :=
  let l := { l with code := c }
  match StatusCode2Message l.code with
  | some message => ({ l with statusMessage := message }, .returned)
  | none => (l, .threw)

/-! ### Header fields -/

/-- The entries of a map from names to values, in some order. -/
structure HeaderField where
  entries : List (Bytes × Bytes)
  nodup : (entries.map Prod.fst).Nodup

namespace HeaderField

def empty : HeaderField := ⟨[], List.nodup_nil⟩

/-- `map[name] = value`. -/
def assign (h : HeaderField) (name value : Bytes) : HeaderField where
  entries := (name, value) :: h.entries.filter fun e => e.1 ≠ name
  nodup := by
    rw [List.map_cons, List.nodup_cons]
    refine ⟨fun hmem => ?_, h.nodup.sublist (List.filter_sublist.map _)⟩
    obtain ⟨e, he, hname⟩ := List.mem_map.mp hmem
    exact of_decide_eq_true (List.mem_filter.mp he).2 hname

end HeaderField

/-! ### The response -/

structure HttpResponse where
  statusLine : StatusLine
  requestHeader : HeaderField
  useBody : Bool
  body : Bytes

namespace HttpResponse

/-- The constructor; the table has the code it looks up (`StatusCode2Message_c200`). -/
def new : HttpResponse where
  statusLine := ⟨.v11, StatusCode.c200, (StatusCode2Message StatusCode.c200).getD []⟩
  requestHeader := .empty
  useBody := false
  body := []

variable (r : HttpResponse)

def addHeader (name value : Bytes) : HttpResponse :=
  { r with requestHeader := r.requestHeader.assign name value }

def setStatusCode (code : StatusCode) : HttpResponse × Ended :=
  let (line, ended) := r.statusLine.setCode code
  ({ r with statusLine := line }, ended)

def setBody (str : Bytes) : HttpResponse := { r with body := str, useBody := true }

end HttpResponse

theorem StatusCode2Message_c200 : StatusCode2Message StatusCode.c200 = some (bytes "OK") := by decide

inductive Call where
  | addHeader (name value : Bytes)
  | setStatusCode (code : StatusCode)
  | setBody (str : Bytes)

/-- One call; an exception is caught, and the response used on. -/
def HttpResponse.call (r : HttpResponse) : Call → HttpResponse
  | .addHeader name value => r.addHeader name value
  | .setStatusCode code => (r.setStatusCode code).1
  | .setBody str => r.setBody str

/-- The response that calls make of a fresh one. -/
def build (calls : List Call) : HttpResponse := calls.foldl HttpResponse.call .new

/-! ### Serialization -/

/-- What is appended to: `append` adds its bytes at the end of the content, if it returns. -/
structure Sink where
  Buff : Type
  content : Buff → Bytes
  append : Buff → Bytes → Except Fault Buff
  content_append : ∀ {b b' : Buff} {s : Bytes}, append b s = .ok b' → content b' = content b ++ s

section
variable (S : Sink)

/-- `StatusLine::Serilization`. -/
def StatusLine.Serilization (l : StatusLine) (buff : S.Buff) : Except Fault S.Buff := do
  let buff ← S.append buff l.version.text
  let buff ← S.append buff (bytes " ")
  let buff ← S.append buff (toText l.code.toNat)
  let buff ← S.append buff (bytes " ")
  let buff ← S.append buff l.statusMessage
  S.append buff [13, 10]

/-- The loop over the header fields. -/
def appendFields : List (Bytes × Bytes) → S.Buff → Except Fault S.Buff
  | [], buff => .ok buff
  | (first, second) :: rest, buff => do
    let buff ← S.append buff first
    let buff ← S.append buff (bytes ": ")
    let buff ← S.append buff second
    let buff ← S.append buff [13, 10]
    appendFields rest buff

/-- `HttpResponse::Serialization`, when the map is iterated in this order. -/
def HttpResponse.Serialization (r : HttpResponse) (order : List (Bytes × Bytes)) (buff : S.Buff) :
    Except Fault S.Buff := do
  let buff ← r.statusLine.Serilization S buff
  let buff ← appendFields S order buff
  let buff ← S.append buff [13, 10]
  if r.useBody then S.append buff r.body else return buff

end

end Chaining.Http.Response
