import EpollHttpServer.Lib.HttpMessage
import EpollHttpServer.Mime
import EpollHttpServer.Config

/-! http_response.c: header text and error pages as snprintf and memcpy leave them in
write_buf. Every response of the program is the text of a Reply. -/
namespace EpollHttpServer.HttpResponse
open CString Crlf HttpMessage

def getStatusDescription (statusCode : Nat) : Bytes :=
  match statusCode with
  | 200 => ascii "OK"
  | 400 => ascii "Bad Request"
  | 403 => ascii "Forbidden"
  | 404 => ascii "Not Found"
  | 405 => ascii "Method Not Allowed"
  | 413 => ascii "Payload Too Large"
  | 500 => ascii "Internal Server Error"
  | 501 => ascii "Not Implemented"
  | _ => ascii "Unknown"

def connectionValue (keepAlive : Bool) : Bytes :=
  if keepAlive then ascii "keep-alive" else ascii "close"

/- The one format of all header blocks. -/
def headerText (status contentType : Bytes) (contentLength : Int) (keepAlive : Bool) : Bytes :=
  ascii "HTTP/1.1 " ++ status ++ ascii "\r\nServer: SimpleHTTP/1.0\r\nContent-Type: " ++ contentType ++
  ascii "\r\nContent-Length: " ++ decimal contentLength ++
  ascii "\r\nConnection: " ++ connectionValue keepAlive ++ ascii "\r\n\r\n"

def statusText (statusCode : Nat) : Bytes :=
  decimal statusCode ++ ascii " " ++ getStatusDescription statusCode

-- snprintf into write_buf; the header length is the length of the untruncated text.
def putHeader (conn : ClientConnection) (text : Bytes) : ClientConnection :=
  {conn with writeBuf := snprintf conn.writeBuf (bufferSize*4) text}

def putBody (conn : ClientConnection) (headerLen : Nat) (body : Bytes) : ClientConnection :=
  {conn with writeBuf := blit conn.writeBuf headerLen body, writePos := 0, writeLen := headerLen + body.length}

def buildResponseHeader (conn : ClientConnection) (statusCode : Nat) (contentType : Bytes)
    (contentLength : Int) (keepAlive : Bool) : ClientConnection × Nat :=
  let text := headerText (statusText statusCode) contentType contentLength keepAlive
  (putHeader conn text,text.length)

def errorPage (statusCode : Nat) (message : Bytes) : Bytes :=
  ascii "<!DOCTYPE html>\n<html>\n<head><title>" ++ decimal statusCode ++ ascii " " ++ message ++
  ascii "</title></head>\n<body>\n<h1>" ++ decimal statusCode ++ ascii " " ++ message ++
  ascii "</h1>\n<hr>\n<p>SimpleHTTP/1.0</p>\n</body>\n</html>\n"

/- Only what snprintf wrote into body can be copied out of it. -/
def httpSendError (conn : ClientConnection) (statusCode : Nat) (message : Bytes) : ClientConnection :=
  let text := errorPage statusCode message
  let body := snprintf [] 1024 text
  let (conn,headerLen) := buildResponseHeader conn statusCode (ascii "text/html") text.length false
  putBody conn headerLen (body.take text.length)

def written (conn : ClientConnection) : Bytes := conn.writeBuf.take conn.writeLen

structure Reply where
  status : Bytes
  contentType : Bytes
  contentLength : Nat
  keepAlive : Bool
  body : Bytes
  deriving DecidableEq, Repr

def Reply.message (r : Reply) : Message :=
  { status := ascii "HTTP/1.1 " ++ r.status
    fields := [⟨ascii "Server",ascii "SimpleHTTP/1.0"⟩,
      ⟨ascii "Content-Type",r.contentType⟩,
      ⟨ascii "Content-Length",decimalNat r.contentLength⟩,
      ⟨ascii "Connection",connectionValue r.keepAlive⟩]
    body := r.body }

theorem namesApart : (ascii "Server" == ascii "Content-Type") = false ∧
    (ascii "Server" == ascii "Content-Length") = false ∧ (ascii "Server" == ascii "Connection") = false ∧
    (ascii "Content-Type" == ascii "Content-Length") = false ∧
    (ascii "Content-Length" == ascii "Content-Type") = false ∧
    (ascii "Content-Type" == ascii "Connection") = false ∧
    (ascii "Connection" == ascii "Content-Type") = false ∧
    (ascii "Content-Length" == ascii "Connection") = false ∧
    (ascii "Connection" == ascii "Content-Length") = false := by
  decide

theorem typeValues (r : Reply) : r.message.values (ascii "Content-Type") = [r.contentType] := by
  simp [Message.values, Reply.message, namesApart]

theorem lengthValues (r : Reply) : r.message.values (ascii "Content-Length") = [decimalNat r.contentLength] := by
  simp [Message.values, Reply.message, namesApart]

theorem connectionValues (r : Reply) : r.message.values (ascii "Connection") = [connectionValue r.keepAlive] := by
  simp [Message.values, Reply.message, namesApart]

def Reply.header (r : Reply) : Bytes := headerText r.status r.contentType r.contentLength r.keepAlive

theorem renderReply (r : Reply) : r.message.render = r.header ++ r.body := by
  have server : ascii "\r\nServer: SimpleHTTP/1.0\r\nContent-Type: " =
      crlf ++ (ascii "Server" ++ [58,32] ++ ascii "SimpleHTTP/1.0") ++ crlf ++ ascii "Content-Type" ++ [58,32] := by
    decide
  have length : ascii "\r\nContent-Length: " = crlf ++ ascii "Content-Length" ++ [58,32] := by decide
  have connection : ascii "\r\nConnection: " = crlf ++ ascii "Connection" ++ [58,32] := by decide
  have last : ascii "\r\n\r\n" = crlf ++ crlf := by decide
  simp only [Message.render, Message.head, Reply.message, Reply.header, headerText, Field.line, server,
    length, connection, last, decimalOfNat, List.map_cons, List.map_nil, unlinesCons, unlinesNil,
    List.append_assoc, List.append_nil]

/- write_buf[0..write_len) is the text of a reply, all of it in the buffer. -/
structure Holds (conn : ClientConnection) (r : Reply) : Prop where
  text : written conn = r.message.render
  length : conn.writeLen = r.message.render.length

theorem putReply (conn : ClientConnection) {r : Reply} (fits : r.header.length < bufferSize*4) :
    Holds (putBody (putHeader conn r.header) r.header.length r.body) r := by
  have kept : r.header.take (bufferSize*4 - 1) = r.header := List.take_of_length_le (by omega)
  constructor
  · rw [renderReply]
    simp only [written, putBody, putHeader, snprintf, kept, blitStart, List.append_assoc, blitAfter rfl]
    rw [← List.append_assoc, List.take_left' (by simp)]
  · rw [renderReply, List.length_append]
    rfl

theorem decimalNatLength {n : Nat} (long : n < 2^64) : (decimalNat n).length ≤ 20 := by
  unfold decimalNat
  split
  · simp
  · simp only [List.length_map, List.length_reverse]
    exact (Nat.digits_length_le_iff (by norm_num) n).mpr (by omega)

/- The errors that the program raises, with their messages. -/
def errors : List (Nat × Bytes) :=
  [(400,ascii "Bad Request"),(403,ascii "Forbidden"),(404,ascii "Not Found"),
   (405,ascii "Method Not Allowed"),(413,ascii "Payload Too Large"),
   (500,ascii "Internal Server Error"),(501,ascii "Not Implemented")]

def statuses : List Bytes := ascii "200 OK" :: errors.map (fun e => statusText e.1)
def contentTypes : List Bytes := ascii "text/html" :: ascii "application/json" :: Mime.mimeTypes

/- What every reply of the program keeps. -/
structure Plain (r : Reply) : Prop where
  status : r.status ∈ statuses
  contentType : r.contentType ∈ contentTypes
  long : r.contentLength < 2^63

theorem statusesPlain : ∀ s ∈ statuses, s.length ≤ 40 ∧ (13 : UInt8) ∉ s := by decide +kernel

theorem contentTypesPlain : ∀ t ∈ contentTypes, t.length ≤ 40 ∧ (13 : UInt8) ∉ t := by decide +kernel

theorem headerLength {r : Reply} (plain : Plain r) : r.header.length ≤ 256 := by
  have status := (statusesPlain _ plain.status).1
  have contentType := (contentTypesPlain _ plain.contentType).1
  have server : (ascii "\r\nServer: SimpleHTTP/1.0\r\nContent-Type: ").length = 40 := by decide
  have length : (ascii "\r\nContent-Length: ").length = 18 := by decide
  have connection : (ascii "\r\nConnection: ").length = 14 := by decide
  have start : (ascii "HTTP/1.1 ").length = 9 := by decide
  have last : (ascii "\r\n\r\n").length = 4 := by decide
  have value : (connectionValue r.keepAlive).length ≤ 10 := by cases r.keepAlive <;> decide
  have number : (decimal (r.contentLength : Int)).length ≤ 20 := by
    have long := plain.long
    rw [decimalOfNat]
    exact decimalNatLength (by omega)
  simp only [Reply.header, headerText, List.length_append]
  omega

theorem plainWellFormed {r : Reply} (plain : Plain r) : WellFormed r.message := by
  have server : CrlfFree (ascii "Server" ++ [58,32] ++ ascii "SimpleHTTP/1.0") := by decide
  have type : CrlfFree (ascii "Content-Type" ++ [58,32] ++ r.contentType) := by
    refine freeOfNoCr ?_
    rw [List.mem_append]
    exact not_or.mpr ⟨by decide,(contentTypesPlain _ plain.contentType).2⟩
  have length : CrlfFree (ascii "Content-Length" ++ [58,32] ++ decimalNat r.contentLength) := by
    refine freeOfNoCr ?_
    rw [List.mem_append]
    refine not_or.mpr ⟨by decide,fun h => ?_⟩
    exact absurd (decimalNatDigits _ _ h) (by decide)
  have connection : CrlfFree (ascii "Connection" ++ [58,32] ++ connectionValue r.keepAlive) := by
    cases r.keepAlive <;> decide
  constructor
  · refine freeOfNoCr ?_
    simp only [Reply.message, List.mem_append]
    exact not_or.mpr ⟨by decide,(statusesPlain _ plain.status).2⟩
  · intro f hf
    simp only [Reply.message, List.mem_cons, List.not_mem_nil, or_false] at hf
    rcases hf with rfl | rfl | rfl | rfl <;> dsimp only <;> decide
  · intro f hf
    simp only [Reply.message, List.mem_cons, List.not_mem_nil, or_false] at hf
    rcases hf with rfl | rfl | rfl | rfl
    · exact server
    · exact type
    · exact length
    · exact connection

def errorReply (statusCode : Nat) (message : Bytes) : Reply :=
  { status := statusText statusCode
    contentType := ascii "text/html"
    contentLength := (errorPage statusCode message).length
    keepAlive := false
    body := errorPage statusCode message }

theorem errorsSmall : ∀ e ∈ errors, (errorPage e.1 e.2).length < 512 := by decide +kernel

theorem errorPlain {code message} (known : (code,message) ∈ errors) : Plain (errorReply code message) := by
  have small := errorsSmall (code,message) known
  dsimp only at small
  refine ⟨List.mem_cons_of_mem _ (List.mem_map.mpr ⟨(code,message),known,rfl⟩),List.mem_cons_self,?_⟩
  simp only [errorReply]
  omega

theorem sendErrorReply {code message} (known : (code,message) ∈ errors) (conn : ClientConnection) :
    Holds (httpSendError conn code message) (errorReply code message) := by
  have small := errorsSmall (code,message) known
  dsimp only at small
  have short := headerLength (errorPlain known)
  have page : (snprintf [] 1024 (errorPage code message)).take (errorPage code message).length =
      (errorReply code message).body := by
    have kept : (errorPage code message).take 1023 = errorPage code message :=
      List.take_of_length_le (by omega)
    simp [snprintf, kept, errorReply]
  have text : headerText (statusText code) (ascii "text/html") (errorPage code message).length false =
      (errorReply code message).header := rfl
  simp only [httpSendError, buildResponseHeader, page, text]
  exact putReply conn (by simp only [bufferSize]; omega)

/- All that the builders of a response change. -/
def OnlyWrites (before after : ClientConnection) : Prop :=
  after = {before with writeBuf := after.writeBuf, writePos := after.writePos, writeLen := after.writeLen}

theorem sendErrorWrites (conn code message) : OnlyWrites conn (httpSendError conn code message) := rfl

end EpollHttpServer.HttpResponse
