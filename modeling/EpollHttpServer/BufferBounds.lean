import EpollHttpServer.Worker
import EpollHttpServer.Lib.Checked

/-! The builders of a response with every write checked: the functions of HttpResponse and HttpRequest once more, as
the source fills write_buf, body and json_body. None is a fault. -/
namespace EpollHttpServer.BufferBounds
open CString HttpParser HttpResponse HttpRequest FileSystem Mime

def buildResponseHeader (conn : ClientConnection) (statusCode : Nat) (contentType : Bytes) (contentLength : Int)
    (keepAlive : Bool) : Option (ClientConnection × Nat) := do
  let (buf,len) ← Checked.snprintf conn.writeBuf (bufferSize*4)
    (headerText (statusText statusCode) contentType contentLength keepAlive)
  some ({conn with writeBuf := buf},len)

-- The memcpy behind a header, and the length of both.
def copyBody (conn : ClientConnection) (headerLen : Nat) (body : Bytes) (bodyLen : Nat) : Option ClientConnection := do
  let buf ← Checked.memcpy conn.writeBuf headerLen body bodyLen
  some {conn with writeBuf := buf, writePos := 0, writeLen := headerLen + bodyLen}

def httpSendError (conn : ClientConnection) (statusCode : Nat) (message : Bytes) : Option ClientConnection := do
  let (body,bodyLen) ← Checked.snprintfFresh 1024 1024 (errorPage statusCode message)
  let (conn,headerLen) ← buildResponseHeader conn statusCode (ascii "text/html") bodyLen false
  copyBody conn headerLen body bodyLen

def sendError (conn : ClientConnection) (statusCode : Nat) (message : Bytes) (w : World) : Option Handled := do
  some ⟨-1,← httpSendError conn statusCode message,w⟩

def handleGet (uri : Bytes) (conn : ClientConnection) (config : ServerConfig) (w : World) : Option Handled :=
  match locate config uri w with
  | (.forbidden,w) => sendError conn 403 (ascii "Forbidden") w
  | (.missing,w) => sendError conn 404 (ascii "Not Found") w
  | (.found filePath size file,w) =>
    if size > maxFileSize then sendError conn 413 (ascii "Payload Too Large") w
    else do
      let (buf,headerLen) ← Checked.snprintf conn.writeBuf (bufferSize*4)
        (okHeader (mimeGetType filePath) size conn.keepAlive)
      match ← Checked.read buf headerLen size file.read with
      | none => sendError {conn with writeBuf := buf} 500 (ascii "Internal Server Error") w
      | some (buf,bytesRead) => some ⟨0,{conn with writeBuf := buf, writePos := 0, writeLen := headerLen + bytesRead},w⟩

def handleHead (uri : Bytes) (conn : ClientConnection) (config : ServerConfig) (w : World) : Option Handled :=
  match locate config uri w with
  | (.forbidden,w) => sendError conn 403 (ascii "Forbidden") w
  | (.missing,w) => sendError conn 404 (ascii "Not Found") w
  | (.found filePath size _,w) => do
    let (buf,headerLen) ← Checked.snprintf conn.writeBuf (bufferSize*4)
      (okHeader (mimeGetType filePath) size conn.keepAlive)
    some ⟨0,{conn with writeBuf := buf, writePos := 0, writeLen := headerLen},w⟩

def handleStatus (conn : ClientConnection) (config : ServerConfig) (w : World) : Option Handled := do
  let (body,bodyLen) ← Checked.snprintfFresh 256 256 (jsonBody config w)
  let (buf,headerLen) ← Checked.snprintf conn.writeBuf (bufferSize*4)
    (headerText (ascii "200 OK") (ascii "application/json") bodyLen conn.keepAlive)
  some ⟨0,← copyBody {conn with writeBuf := buf} headerLen body bodyLen,w⟩

def httpHandleRequest (request : HttpRequest) (conn : ClientConnection) (config : ServerConfig) (w : World) : Option Handled :=
  let w := countRequest w
  if strcmpEq request.method (ascii "GET") && strcmpEq request.uri (ascii "/status") then handleStatus conn config w
  else if strcmpEq request.method (ascii "GET") then handleGet request.uri conn config w
  else if strcmpEq request.method (ascii "HEAD") then handleHead request.uri conn config w
  else if strcmpEq request.method (ascii "POST") then sendError conn 501 (ascii "Not Implemented") w
  else sendError conn 405 (ascii "Method Not Allowed") w

/- write_buf is the array it was, and what is sent of it lies inside. -/
structure Bounded (conn : ClientConnection) : Prop where
  array : conn.writeBuf.length = bufferSize*4
  positive : 0 < conn.writeLen
  inside : conn.writeLen ≤ bufferSize*4

theorem headerShort {r : Reply} (plain : Plain r) : 0 < r.header.length ∧ r.header.length ≤ 256 := by
  refine ⟨?_,headerLength plain⟩
  have start : (ascii "HTTP/1.1 ").length = 9 := by decide
  simp only [Reply.header, headerText, List.length_append]
  omega

theorem headerKeeps {conn : ClientConnection} (array : conn.writeBuf.length = bufferSize*4) (text : Bytes) :
    (putHeader conn text).writeBuf.length = bufferSize*4 := by
  have room : bufferSize*4 ≤ conn.writeBuf.length := by omega
  have kept := Checked.snprintfLength (by decide) room text
  exact kept.trans array

theorem headerPut {conn : ClientConnection} {text : Bytes} (array : conn.writeBuf.length = bufferSize*4)
    (short : text.length ≤ 256) :
    Checked.snprintf conn.writeBuf (bufferSize*4) text = some ((putHeader conn text).writeBuf,text.length) :=
  Checked.snprintfOk (by omega) (by omega)

/- A header and its body in the buffer, whatever was in it before. -/
theorem replyPut {conn : ClientConnection} {r : Reply} (array : conn.writeBuf.length = bufferSize*4) (plain : Plain r)
    (small : r.body.length ≤ maxFileSize) : Bounded (putBody (putHeader conn r.header) r.header.length r.body) := by
  obtain ⟨positive,short⟩ := headerShort plain
  have spare : maxFileSize + 512 = bufferSize*4 := by decide
  have room : r.header.length + r.body.length ≤ bufferSize*4 := by omega
  have filled := headerKeeps array r.header
  refine ⟨?_,?_,room⟩
  · rw [← filled]
    exact Checked.blitLength (by omega)
  · simp only [putBody]
    omega

/- The two steps of a builder that copies its body out of a local array. -/
theorem copyPut {conn : ClientConnection} {r : Reply} {size : Nat} (array : conn.writeBuf.length = bufferSize*4)
    (plain : Plain r) (small : r.body.length ≤ maxFileSize) (fits : r.body.length < size) :
    Checked.snprintf conn.writeBuf (bufferSize*4) r.header = some ((putHeader conn r.header).writeBuf,r.header.length) ∧
    copyBody (putHeader conn r.header) r.header.length (snprintf [] size r.body) r.body.length =
      some (putBody (putHeader conn r.header) r.header.length r.body) := by
  obtain ⟨positive,short⟩ := headerShort plain
  have filled := headerKeeps array r.header
  have held : r.body.length ≤ (snprintf [] size r.body).length := by
    have whole := congrArg List.length (Checked.snprintfWhole fits [])
    rw [List.length_take] at whole
    omega
  refine ⟨headerPut array short,?_⟩
  have spare : maxFileSize + 512 = bufferSize*4 := by decide
  have copied := @Checked.memcpyOk (putHeader conn r.header).writeBuf (snprintf [] size r.body) r.header.length r.body.length
    (by omega) held
  rw [Checked.snprintfWhole fits] at copied
  simp only [copyBody, copied, bind, Option.bind]
  rfl

theorem errorFits {code message} (known : (code,message) ∈ errors) : (errorPage code message).length < 1024 :=
  (errorsSmall (code,message) known).trans (by decide)

theorem sendErrorSafe {conn : ClientConnection} {code : Nat} {message : Bytes} (known : (code,message) ∈ errors)
    (array : conn.writeBuf.length = bufferSize*4) :
    httpSendError conn code message = some (HttpResponse.httpSendError conn code message) ∧
      Bounded (HttpResponse.httpSendError conn code message) := by
  have fits := errorFits known
  have spare : 1024 ≤ maxFileSize := by decide
  have small : (errorReply code message).body.length ≤ maxFileSize := by
    dsimp only [errorReply]
    omega
  have model : HttpResponse.httpSendError conn code message = putBody (putHeader conn (errorReply code message).header)
      (errorReply code message).header.length (errorReply code message).body := by
    simp only [HttpResponse.httpSendError, HttpResponse.buildResponseHeader, Checked.snprintfWhole fits]
    rfl
  obtain ⟨header,body⟩ := @copyPut conn (errorReply code message) 1024 array (errorPlain known) small fits
  have page : Checked.snprintfFresh 1024 1024 (errorPage code message) =
      some (snprintf [] 1024 (errorPage code message),(errorPage code message).length) :=
    Checked.snprintfFreshOk (Nat.le_refl _) (by omega)
  have built : buildResponseHeader conn code (ascii "text/html") (errorPage code message).length false =
      some (putHeader conn (errorReply code message).header,(errorReply code message).header.length) := by
    dsimp only [Reply.header, errorReply] at header ⊢
    simp only [buildResponseHeader, header, bind, Option.bind]
    rfl
  rw [model]
  refine ⟨?_,replyPut array (errorPlain known) small⟩
  simp only [httpSendError, page, built, bind, Option.bind]
  exact body

theorem errorHandled {conn : ClientConnection} {code : Nat} {message : Bytes} (known : (code,message) ∈ errors)
    (array : conn.writeBuf.length = bufferSize*4) (w : World) :
    sendError conn code message w = some ⟨-1,HttpResponse.httpSendError conn code message,w⟩ ∧
      Bounded (HttpResponse.httpSendError conn code message) := by
  obtain ⟨safe,bounded⟩ := sendErrorSafe known array
  refine ⟨?_,bounded⟩
  simp only [sendError, safe, bind, Option.bind]

/- What a checked builder owes: no fault, the answer of the model, and a response inside its buffer. -/
def Safe (checked : Option Handled) (handled : Handled) : Prop := checked = some handled ∧ Bounded handled.conn

theorem getSafe {conn : ClientConnection} (array : conn.writeBuf.length = bufferSize*4) (uri : Bytes) (config : ServerConfig)
    (w : World) : Safe (handleGet uri conn config w) (HttpRequest.handleGet uri conn config w) := by
  have sized := locateSized config uri w
  unfold handleGet HttpRequest.handleGet
  generalize locate config uri w = found at sized
  obtain ⟨l,w⟩ := found
  cases l with
  | forbidden => exact errorHandled (by decide) array w
  | missing => exact errorHandled (by decide) array w
  | found filePath size file =>
    dsimp only
    split
    · exact errorHandled (by decide) array w
    · rename_i fits
      have plain (body : Bytes) : Plain (okReply (mimeGetType filePath) size conn.keepAlive body) :=
        okPlain conn.keepAlive body (mimeContentType filePath) sized.2
      have short := headerShort (plain [])
      rw [← okHeaderReply] at short
      have spare : maxFileSize + 512 = bufferSize*4 := by decide
      have filled := headerKeeps array (okHeader (mimeGetType filePath) size conn.keepAlive)
      have offered := @Checked.readOk (putHeader conn (okHeader (mimeGetType filePath) size conn.keepAlive)).writeBuf
        (okHeader (mimeGetType filePath) size conn.keepAlive).length size (by omega) file.read
      simp only [headerPut array short.2, offered, bind, Option.bind]
      cases got : file.read size with
      | none => exact errorHandled (by decide) filled w
      | some bytes =>
        have most := file.readAtMost size bytes got
        refine ⟨rfl,?_⟩
        rw [okHeaderReply _ _ _ bytes]
        exact replyPut array (plain bytes) (by dsimp only [okReply]; omega)

theorem headSafe {conn : ClientConnection} (array : conn.writeBuf.length = bufferSize*4) (uri : Bytes) (config : ServerConfig)
    (w : World) : Safe (handleHead uri conn config w) (HttpRequest.handleHead uri conn config w) := by
  have sized := locateSized config uri w
  unfold handleHead HttpRequest.handleHead
  generalize locate config uri w = found at sized
  obtain ⟨l,w⟩ := found
  cases l with
  | forbidden => exact errorHandled (by decide) array w
  | missing => exact errorHandled (by decide) array w
  | found filePath size file =>
    dsimp only
    have plain : Plain (okReply (mimeGetType filePath) size conn.keepAlive []) :=
      okPlain conn.keepAlive [] (mimeContentType filePath) sized.2
    have bounded := replyPut array plain (Nat.zero_le _)
    have short := headerShort plain
    rw [← okHeaderReply] at bounded short
    refine ⟨?_,bounded⟩
    simp only [headerPut array short.2, putBody, Checked.blitNothing, List.length_nil, Nat.add_zero, bind, Option.bind]
    rfl

theorem statusSafe {conn : ClientConnection} (array : conn.writeBuf.length = bufferSize*4) (config : ServerConfig) (w : World) :
    Safe (handleStatus conn config w) (HttpRequest.handleStatus conn config w) := by
  have fits := jsonLength config w
  have spare : 256 ≤ maxFileSize := by decide
  have plain := statusPlain conn.keepAlive config w
  have small : (statusReply conn.keepAlive config w).body.length ≤ maxFileSize := by
    dsimp only [statusReply, okReply]
    omega
  obtain ⟨header,body⟩ := @copyPut conn (statusReply conn.keepAlive config w) 256 array plain small fits
  have json : Checked.snprintfFresh 256 256 (jsonBody config w) =
      some (snprintf [] 256 (jsonBody config w),(jsonBody config w).length) :=
    Checked.snprintfFreshOk (Nat.le_refl _) (by omega)
  have model : HttpRequest.handleStatus conn config w =
      ⟨0,putBody (putHeader conn (statusReply conn.keepAlive config w).header) (statusReply conn.keepAlive config w).header.length (statusReply conn.keepAlive config w).body,w⟩ := by
    simp only [HttpRequest.handleStatus, Checked.snprintfWhole fits]
    rfl
  have written : copyBody { conn with writeBuf := (putHeader conn (statusReply conn.keepAlive config w).header).writeBuf }
      (statusReply conn.keepAlive config w).header.length (snprintf [] 256 (jsonBody config w)) (jsonBody config w).length =
      some (putBody (putHeader conn (statusReply conn.keepAlive config w).header)
        (statusReply conn.keepAlive config w).header.length (statusReply conn.keepAlive config w).body) := body
  rw [model]
  refine ⟨?_,replyPut array plain small⟩
  dsimp only [Reply.header, statusReply, okReply] at header written ⊢
  simp only [handleStatus, json, header, written, bind, Option.bind]

/- A response of the program never leaves its buffers: the texts of body and json_body end inside their arrays with
room for the NUL, no write or read is offered a byte outside, and write_len is a length of write_buf. -/
theorem responseSafe {conn : ClientConnection} (array : conn.writeBuf.length = bufferSize*4) (request : HttpRequest)
    (config : ServerConfig) (w : World) :
    Safe (httpHandleRequest request conn config w) (HttpRequest.httpHandleRequest request conn config w) ∧
    (jsonBody config w).length < 256 ∧ ∀ e ∈ errors, (errorPage e.1 e.2).length < 1024 ∧
      httpSendError conn e.1 e.2 = some (HttpResponse.httpSendError conn e.1 e.2) ∧
      Bounded (HttpResponse.httpSendError conn e.1 e.2) := by
  refine ⟨?_,jsonLength config w,fun e known => ⟨errorFits known,sendErrorSafe known array⟩⟩
  unfold httpHandleRequest HttpRequest.httpHandleRequest
  dsimp only
  split
  · exact statusSafe array config _
  split
  · exact getSafe array _ config _
  split
  · exact headSafe array _ config _
  split
  · exact errorHandled (by decide) array _
  · exact errorHandled (by decide) array _

/- Every file is as large as a response may be, and the buffer is full of what it held before. -/
def limitFile : File :=
  ⟨some maxFileSize,fun n => some (List.replicate n 97),fun n same => by cases Option.some.inj same; decide,
    fun n bytes same => by cases Option.some.inj same; exact Nat.le_of_eq List.length_replicate⟩

def limitWorld : World := {emptyWorld with disk := fun _ _ => some limitFile}

def usedConnection : ClientConnection := { acceptedConnection 5 0 with writeBuf := List.replicate (bufferSize*4) 255 }

def limitRequest : HttpRequest := {httpRequestInit with method := ascii "GET", uri := ascii "/a"}

theorem limitSafe : Safe (httpHandleRequest limitRequest usedConnection Main.defaults limitWorld)
      (HttpRequest.httpHandleRequest limitRequest usedConnection Main.defaults limitWorld) ∧
    (jsonBody Main.defaults limitWorld).length < 256 ∧ ∀ e ∈ errors, (errorPage e.1 e.2).length < 1024 ∧
      httpSendError usedConnection e.1 e.2 = some (HttpResponse.httpSendError usedConnection e.1 e.2) ∧
      Bounded (HttpResponse.httpSendError usedConnection e.1 e.2) :=
  responseSafe List.length_replicate limitRequest Main.defaults limitWorld

end EpollHttpServer.BufferBounds
