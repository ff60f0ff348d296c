import EpollHttpServer.Lib.Crlf
import EpollHttpServer.Config

/-! http_parser.c. A char array is the list of its bytes, from the zeroed structure on;
a pointer into raw_data is the list of bytes from it. malloc is a parameter. -/
namespace EpollHttpServer.HttpParser
open CString Crlf

def maxMethodLength : Nat := 16
def maxUriLength : Nat := 2048
def maxVersionLength : Nat := 16
def maxHeaders : Nat := 32
def maxHeaderName : Nat := 64
def maxHeaderValue : Nat := 256

structure HttpHeader where
  name : Bytes
  value : Bytes
  deriving DecidableEq, Repr

structure HttpRequest where
  method : Bytes
  uri : Bytes
  version : Bytes
  headers : List HttpHeader
  headerCount : Nat
  body : Option Bytes
  bodyLength : Int
  host : Bytes
  keepAlive : Bool
  contentLength : Int
  deriving DecidableEq, Repr

def zeros (n : Nat) : Bytes := List.replicate n 0

def httpRequestInit : HttpRequest :=
  { method := zeros maxMethodLength
    uri := zeros maxUriLength
    version := zeros maxVersionLength
    headers := List.replicate maxHeaders ⟨zeros maxHeaderName,zeros maxHeaderValue⟩
    headerCount := 0
    body := none
    bodyLength := 0
    host := zeros maxHeaderValue
    keepAlive := true
    contentLength := 0 }

def skipSpaces (str : Bytes) : Bytes := str.dropWhile isspace

-- The filled array, and where the delimiter was found.
def copyUntil (dest : Bytes) (destSize : Nat) (src delimiter : Bytes) : Bytes × Option Bytes :=
  match strstr delimiter src with
  | none => ((strncpy dest src (destSize - 1)).set (destSize - 1) 0, none)
  | some end_ =>
    let len := min (src.length - end_.length) (destSize - 1)
    ((strncpy dest src len).set len 0, some end_)

/- A line without CRLF leaves the version to the fallback only when it is empty. -/
def copyVersion (dest p : Bytes) : Bytes :=
  let version := (copyUntil dest maxVersionLength p crlf).1
  if version.headD 0 = 0 then
    let again := strncpy version p (maxVersionLength - 1)
    match strstr [13] again with
    | some cr => again.set (again.length - cr.length) 0
    | none => again
  else version

def parseRequestLine (line : Bytes) (r : HttpRequest) : Option HttpRequest :=
  match copyUntil r.method maxMethodLength (skipSpaces line) [32] with
  | (_,none) => none
  | (method,some end_) =>
    match copyUntil r.uri maxUriLength (skipSpaces (end_.drop 1)) [32] with
    | (_,none) => none
    | (uri,some end_) =>
      let version := copyVersion r.version (skipSpaces (end_.drop 1))
      some {r with method := method, uri := uri, version := version}

def parseHeaderLine (line : Bytes) (header : HttpHeader) : Option HttpHeader :=
  match strchr 58 line with
  | none => none
  | some colon =>
    let nameLen := min (line.length - colon.length) (maxHeaderName - 1)
    let name := (strncpy header.name line nameLen).set nameLen 0
    let value := skipSpaces (colon.drop 1)
    let valueLen := match strstr crlf value with
      | some end_ => value.length - end_.length
      | none => (cstr value).length
    let valueLen := min valueLen (maxHeaderValue - 1)
    some ⟨name,(strncpy header.value value valueLen).set valueLen 0⟩

def cacheHeader (r : HttpRequest) (header : HttpHeader) : HttpRequest :=
  if strcasecmpEq header.name (ascii "Host") then
    {r with host := strncpy r.host header.value (maxHeaderValue - 1)}
  else if strcasecmpEq header.name (ascii "Connection") then
    if strcasecmpEq header.value (ascii "keep-alive") then {r with keepAlive := true}
    else if strcasecmpEq header.value (ascii "close") then {r with keepAlive := false}
    else r
  else if strcasecmpEq header.name (ascii "Content-Length") then
    {r with contentLength := atoi header.value}
  else r

def storeHeader (r : HttpRequest) (header : HttpHeader) : HttpRequest :=
  let r := cacheHeader {r with headers := r.headers.set r.headerCount header} header
  {r with headerCount := r.headerCount + 1}

def addHeader (r : HttpRequest) (line : Bytes) : HttpRequest :=
  if r.headerCount < maxHeaders then
    match parseHeaderLine line (r.headers.getD r.headerCount ⟨zeros maxHeaderName,zeros maxHeaderValue⟩) with
    | some header => storeHeader r header
    | none => r
  else r

/- Each turn moves p past a CRLF, so the length of the buffer is enough fuel. -/
def headerLoop : Nat → Bytes → HttpRequest → Bytes × HttpRequest
  | 0,p,r => (p,r)
  | fuel+1,p,r =>
    if p.headD 0 = 0 then (p,r)
    else if crlf <+: p then (p.drop 2,r)
    else match strstr crlf p with
      | none => (p,r)
      | some lineEnd =>
        let lineLen := min (p.length - lineEnd.length) 1023
        headerLoop fuel (lineEnd.drop 2) (addHeader r (p.take lineLen))

def parseBody (malloc : Nat → Bool) (raw : Bytes) (length : Int) (p : Bytes) (r : HttpRequest) :
    HttpRequest :=
  if r.contentLength > 0 ∧ p.headD 0 ≠ 0 ∧ malloc ((wrapInt (r.contentLength + 1)) % 2^64).toNat then
    let left := length - ((raw.length - p.length : Nat) : Int)
    let bodyLen := min left r.contentLength
    {r with body := some (p.take bodyLen.toNat ++ [0]), bodyLength := bodyLen}
  else r

def httpParseRequest (malloc : Nat → Bool) (raw : Bytes) (length : Int) : Option HttpRequest :=
  match strstr crlf raw with
  | none => none
  | some lineEnd =>
    let lineLen := min (raw.length - lineEnd.length) 1023
    match parseRequestLine (raw.take lineLen) httpRequestInit with
    | none => none
    | some r =>
      let (p,r) := headerLoop raw.length (lineEnd.drop 2) r
      some (parseBody malloc raw length p r)

end EpollHttpServer.HttpParser
