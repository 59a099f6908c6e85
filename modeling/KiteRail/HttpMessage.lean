import KiteRail.GoError
import KiteRail.HttpHeader

namespace KiteRail
open Bytes

/-- The parts of a URL that decide where a request goes. A request target without a
path is redirected by `ServeMux` and reaches no handler. -/
structure URL where
  scheme : Bytes
  host : Bytes
  path : Bytes
  rawPath : Bytes
  rawQuery : Bytes
  deriving DecidableEq

/-- A body as it arrives: bytes, then the end or an error. -/
structure BodyReader where
  bytes : Bytes
  err : Option GoError

inductive ReadError
  | tooLarge
  | failed (err : GoError)

/-- `io.ReadAll` of a body behind `MaxBytesReader`. -/
def BodyReader.readAll (limit : ℤ) (b : BodyReader) : Except ReadError Bytes :=
  if limit.toNat < b.bytes.length then .error .tooLarge
  else match b.err with
    | some err => .error (.failed err)
    | none => .ok b.bytes

structure OutRequest where
  method : Bytes
  url : URL
  header : Header
  body : Bytes

namespace Header

def del (h : Header) (name : Bytes) : Header := h.erase (canonicalKey name)

def tokens (value : Bytes) : List Bytes :=
  (value.splitOn 44).map fun t =>
    (t.dropWhile fun b => b == 32 || b == 9).rdropWhile fun b => b == 32 || b == 9

def containsToken (values : List Bytes) (token : Bytes) : Bool :=
  values.any fun v => (tokens v).any fun t => lowerAscii t == lowerAscii token

def hopHeaders : List Bytes :=
  [lit "Connection", lit "Proxy-Connection", lit "Keep-Alive", lit "Proxy-Authenticate",
    lit "Proxy-Authorization", lit "Te", lit "Trailer", lit "Transfer-Encoding", lit "Upgrade"]

def forwardedHeaders : List Bytes :=
  [lit "Forwarded", lit "X-Forwarded-For", lit "X-Forwarded-Host", lit "X-Forwarded-Proto"]

/-- The headers a reverse proxy hands to its rewrite hook: hop-by-hop fields and
those named by `Connection` are dropped, `Te: trailers` and an upgrade are kept, and
forwarding fields are dropped. -/
def proxied (h : Header) : Header :=
  let connection := (h.lookup (lit "Connection")).getD []
  let named := (connection.flatMap tokens).filter fun t => !t.isEmpty
  let upgrade := if containsToken connection (lit "Upgrade") then h.get (lit "Upgrade") else []
  let trailers := containsToken ((h.lookup (lit "Te")).getD []) (lit "trailers")
  let dropped := (named ++ hopHeaders).foldl del h
  let dropped := if trailers then dropped.set (lit "Te") (lit "trailers") else dropped
  let dropped := if upgrade.isEmpty then dropped
    else (dropped.set (lit "Connection") (lit "Upgrade")).set (lit "Upgrade") upgrade
  forwardedHeaders.foldl del dropped

end Header
end KiteRail
