import EpollHttpServer.HttpParser
import EpollHttpServer.HttpResponse

/-! What open, lseek and read tell the request handlers. The disk may differ from one
open to the next; the paths passed to open are recorded in order. -/
namespace EpollHttpServer.FileSystem
open CString

/- An open file: its end by lseek, and what read returns for a size; none is -1. -/
structure File where
  size : Option Nat
  read : Nat → Option Bytes
  sizeLong : ∀ n, size = some n → n < 2^63
  readAtMost : ∀ n bs, read n = some bs → bs.length ≤ n

abbrev Disk := Bytes → Option File

structure World where
  disk : Nat → Disk
  opened : List Bytes
  -- the stack memory that file_path takes, and what lies above it
  frame : Bytes
  serverStartTime : Int64
  totalRequests : Int64
  -- requests that other workers count between the increment and the read
  others : Int64
  connections : Int32
  firstTime : Int64
  statusTime : Int64

def emptyWorld : World := ⟨fun _ _ => none,[],[],0,0,0,0,0,0⟩

def openFile (w : World) (path : Bytes) : Option File × World :=
  (w.disk w.opened.length path,{w with opened := w.opened ++ [path]})

def getFileSize (w : World) (path : Bytes) : Option (Nat × File) × World :=
  match openFile w path with
  | (none,w) => (none,w)
  | (some file,w) => match file.size with
    | none => (none,w)
    | some size => (some (size,file),w)

def probe (disk : Disk) (path : Bytes) : Option (Nat × File) := do
  let file ← disk path
  let size ← file.size
  some (size,file)

theorem getFileSizeSplit (w path) : getFileSize w path =
    (probe (w.disk w.opened.length) path,{w with opened := w.opened ++ [path]}) := by
  unfold getFileSize openFile probe
  cases h : w.disk w.opened.length path with
  | none => rfl
  | some file => cases hs : file.size <;> simp [hs]

theorem probeSize {disk path size file} (h : probe disk path = some (size,file)) :
    file.size = some size ∧ size < 2^63 := by
  simp only [probe, bind, Option.bind_eq_some_iff] at h
  obtain ⟨f,_,n,hn,last⟩ := h
  cases Option.some.inj last
  exact ⟨hn,file.sizeLong _ hn⟩

end EpollHttpServer.FileSystem

/-! http_request.c: from a parsed request to write_buf. The handlers call each other as
in the source; below them the same request is answered by a Reply, without buffers. -/
namespace EpollHttpServer.HttpRequest
open CString HttpParser HttpResponse FileSystem Mime

def relPath (uri : Bytes) : Bytes := if uri.headD 0 = 47 then uri.drop 1 else uri

def buildFilePath (webRoot uri frame : Bytes) (pathSize : Nat) : Option Bytes :=
  match strstr (ascii "..") uri with
  | some _ => none
  | none =>
    if (relPath uri).headD 0 = 0 ∨ strcmpEq (relPath uri) (ascii "/") then
      some (snprintf frame pathSize (cstr webRoot ++ ascii "/index.html"))
    else some (snprintf frame pathSize (cstr webRoot ++ ascii "/" ++ cstr (relPath uri)))

inductive Located where
  | forbidden
  | missing
  | found (filePath : Bytes) (size : Nat) (file : File)

/- handle_get and handle_head open the file alike. After the fallback file_path holds
index_path by a strncpy of 1023 bytes, so its last byte may be what was there before. -/
def locate (config : ServerConfig) (uri : Bytes) (w : World) : Located × World :=
  match buildFilePath config.webRoot uri w.frame 1024 with
  | none => (.forbidden,w)
  | some filePath =>
    match getFileSize w (cstr filePath) with
    | (some (size,file),w) => (.found filePath size file,w)
    | (none,w) =>
      let indexPath := snprintf [] 1024 (cstr filePath ++ ascii "/index.html")
      match getFileSize w (cstr indexPath) with
      | (some (size,file),w) => (.found (strncpy filePath indexPath 1023) size file,w)
      | (none,w) => (.missing,w)

structure Handled where
  ret : Int
  conn : ClientConnection
  world : World

def maxFileSize : Nat := bufferSize*4 - 512

def okHeader (contentType : Bytes) (size : Nat) (keepAlive : Bool) : Bytes :=
  headerText (ascii "200 OK") contentType size keepAlive

def handleGet (uri : Bytes) (conn : ClientConnection) (config : ServerConfig) (w : World) : Handled :=
  match locate config uri w with
  | (.forbidden,w) => ⟨-1,httpSendError conn 403 (ascii "Forbidden"),w⟩
  | (.missing,w) => ⟨-1,httpSendError conn 404 (ascii "Not Found"),w⟩
  | (.found filePath size file,w) =>
    if size > maxFileSize then ⟨-1,httpSendError conn 413 (ascii "Payload Too Large"),w⟩
    else
      let text := okHeader (mimeGetType filePath) size conn.keepAlive
      let conn := putHeader conn text
      match file.read size with
      | none => ⟨-1,httpSendError conn 500 (ascii "Internal Server Error"),w⟩
      | some bytes => ⟨0,putBody conn text.length bytes,w⟩

def handleHead (uri : Bytes) (conn : ClientConnection) (config : ServerConfig) (w : World) : Handled :=
  match locate config uri w with
  | (.forbidden,w) => ⟨-1,httpSendError conn 403 (ascii "Forbidden"),w⟩
  | (.missing,w) => ⟨-1,httpSendError conn 404 (ascii "Not Found"),w⟩
  | (.found filePath size _,w) =>
    let text := okHeader (mimeGetType filePath) size conn.keepAlive
    ⟨0,putBody (putHeader conn text) text.length [],w⟩

def countRequest (w : World) : World :=
  { w with
    serverStartTime := if w.serverStartTime = 0 then w.firstTime else w.serverStartTime
    totalRequests := w.totalRequests + 1 + w.others }

def jsonBody (config : ServerConfig) (w : World) : Bytes :=
  ascii "\x7b\"connections\":" ++ decimal w.connections.toInt ++
  ascii ",\"total_requests\":" ++ decimal w.totalRequests.toInt ++
  ascii ",\"thread_pool_size\":" ++ decimal config.threadCount ++
  ascii ",\"uptime\":" ++ decimal (w.statusTime - w.serverStartTime).toInt ++ ascii "\x7d"

def handleStatus (conn : ClientConnection) (config : ServerConfig) (w : World) : Handled :=
  let json := jsonBody config w
  let body := snprintf [] 256 json
  let text := headerText (ascii "200 OK") (ascii "application/json") json.length conn.keepAlive
  ⟨0,putBody (putHeader conn text) text.length (body.take json.length),w⟩

def httpHandleRequest (request : HttpRequest) (conn : ClientConnection) (config : ServerConfig) (w : World) :
    Handled :=
  let w := countRequest w
  if strcmpEq request.method (ascii "GET") && strcmpEq request.uri (ascii "/status") then
    handleStatus conn config w
  else if strcmpEq request.method (ascii "GET") then handleGet request.uri conn config w
  else if strcmpEq request.method (ascii "HEAD") then handleHead request.uri conn config w
  else if strcmpEq request.method (ascii "POST") then
    ⟨-1,httpSendError conn 501 (ascii "Not Implemented"),w⟩
  else ⟨-1,httpSendError conn 405 (ascii "Method Not Allowed"),w⟩

def okReply (contentType : Bytes) (size : Nat) (keepAlive : Bool) (body : Bytes) : Reply :=
  ⟨ascii "200 OK",contentType,size,keepAlive,body⟩

def getReply (keepAlive : Bool) : Located → Reply
  | .forbidden => errorReply 403 (ascii "Forbidden")
  | .missing => errorReply 404 (ascii "Not Found")
  | .found filePath size file =>
    if size > maxFileSize then errorReply 413 (ascii "Payload Too Large")
    else match file.read size with
      | none => errorReply 500 (ascii "Internal Server Error")
      | some bytes => okReply (mimeGetType filePath) size keepAlive bytes

def headReply (keepAlive : Bool) : Located → Reply
  | .forbidden => errorReply 403 (ascii "Forbidden")
  | .missing => errorReply 404 (ascii "Not Found")
  | .found filePath size _ => okReply (mimeGetType filePath) size keepAlive []

def statusReply (keepAlive : Bool) (config : ServerConfig) (w : World) : Reply :=
  let json := jsonBody config w
  okReply (ascii "application/json") json.length keepAlive json

inductive Route where
  | status | get | head | post | other
  deriving DecidableEq, Repr

def route (request : HttpRequest) : Route :=
  if strcmpEq request.method (ascii "GET") && strcmpEq request.uri (ascii "/status") then .status
  else if strcmpEq request.method (ascii "GET") then .get
  else if strcmpEq request.method (ascii "HEAD") then .head
  else if strcmpEq request.method (ascii "POST") then .post
  else .other

def reply (request : HttpRequest) (keepAlive : Bool) (config : ServerConfig) (w : World) : Reply :=
  match route request with
  | .status => statusReply keepAlive config (countRequest w)
  | .get => getReply keepAlive (locate config request.uri (countRequest w)).1
  | .head => headReply keepAlive (locate config request.uri (countRequest w)).1
  | .post => errorReply 501 (ascii "Not Implemented")
  | .other => errorReply 405 (ascii "Method Not Allowed")

-- The text that the first snprintf formats.
def pathText (webRoot uri : Bytes) : Bytes :=
  if (relPath uri).headD 0 = 0 ∨ strcmpEq (relPath uri) (ascii "/") then cstr webRoot ++ ascii "/index.html"
  else cstr webRoot ++ ascii "/" ++ cstr (relPath uri)

theorem pathTextFree (webRoot uri : Bytes) : (0 : UInt8) ∉ pathText webRoot uri := by
  have root := cstrFree webRoot
  simp only [pathText]
  split
  · rw [List.mem_append]
    exact not_or.mpr ⟨root,by decide⟩
  · rw [List.mem_append, List.mem_append]
    exact not_or.mpr ⟨not_or.mpr ⟨root,by decide⟩,cstrFree _⟩

theorem buildText (webRoot uri frame : Bytes) (pathSize : Nat) : buildFilePath webRoot uri frame pathSize =
    if strstr (ascii "..") uri = none then some (snprintf frame pathSize (pathText webRoot uri)) else none := by
  cases h : strstr (ascii "..") uri with
  | some found => simp [buildFilePath, h]
  | none =>
    simp only [buildFilePath, h, pathText, if_true]
    split <;> rfl

/- The two C strings that are tried, whatever the stack held before. -/
def directPath (config : ServerConfig) (uri : Bytes) : Bytes := (pathText config.webRoot uri).take 1023
def indexPath (config : ServerConfig) (uri : Bytes) : Bytes :=
  (directPath config uri ++ ascii "/index.html").take 1023

theorem directPathFree (config uri) : (0 : UInt8) ∉ directPath config uri :=
  fun h => pathTextFree _ _ (List.mem_of_mem_take h)

theorem indexTextFree (config uri) : (0 : UInt8) ∉ directPath config uri ++ ascii "/index.html" := by
  rw [List.mem_append]
  exact not_or.mpr ⟨directPathFree config uri,by decide⟩

/- file_path and index_path as arrays. -/
def directArray (config : ServerConfig) (uri frame : Bytes) : Bytes :=
  snprintf frame 1024 (pathText config.webRoot uri)
def indexArray (config : ServerConfig) (uri : Bytes) : Bytes :=
  snprintf [] 1024 (directPath config uri ++ ascii "/index.html")

theorem directArrayText (config uri frame) : cstr (directArray config uri frame) = directPath config uri :=
  cstrSnprintf (pathTextFree _ _) frame 1024

theorem indexArrayText (config uri) : cstr (indexArray config uri) = indexPath config uri :=
  cstrSnprintf (indexTextFree config uri) [] 1024

/- The outcome of locate and the opens it makes, from the two probes. -/
def lookup (config : ServerConfig) (uri : Bytes) (w : World) : Located × List Bytes :=
  match strstr (ascii "..") uri with
  | some _ => (.forbidden,[])
  | none => match probe (w.disk w.opened.length) (directPath config uri) with
    | some (size,file) => (.found (directArray config uri w.frame) size file,[directPath config uri])
    | none => match probe (w.disk (w.opened.length + 1)) (indexPath config uri) with
      | some (size,file) =>
        (.found (strncpy (directArray config uri w.frame) (indexArray config uri) 1023) size file,
          [directPath config uri,indexPath config uri])
      | none => (.missing,[directPath config uri,indexPath config uri])

theorem locateLookup (config uri w) : locate config uri w =
    ((lookup config uri w).1,{w with opened := w.opened ++ (lookup config uri w).2}) := by
  have direct := directArrayText config uri w.frame
  have index := indexArrayText config uri
  unfold directArray at direct
  unfold indexArray at index
  cases dots : strstr (ascii "..") uri with
  | some found => simp [locate, lookup, buildText, dots]
  | none =>
    simp only [locate, lookup, buildText, dots, if_true, direct, index, getFileSizeSplit]
    cases first : probe (w.disk w.opened.length) (directPath config uri) with
    | some found => rfl
    | none =>
      simp only [List.length_append, List.length_cons, List.length_nil, Nat.zero_add]
      cases second : probe (w.disk (w.opened.length + 1)) (indexPath config uri) with
      | some found =>
        simp only [List.append_assoc, List.singleton_append]
        rfl
      | none => simp only [List.append_assoc, List.singleton_append]

def Sized : Located → Prop
  | .found _ size file => file.size = some size ∧ size < 2^63
  | _ => True

theorem locateSized (config uri w) : Sized (locate config uri w).1 := by
  rw [locateLookup]
  unfold lookup
  split
  · trivial
  split
  · rename_i size file h
    exact probeSize h
  split
  · rename_i size file h
    exact probeSize h
  · trivial

theorem decimalLength {z : Int} {n : Nat} (small : z.natAbs < 10^n) (positive : 0 < n) :
    (decimal z).length ≤ n + 1 := by
  have digits : (decimalNat z.natAbs).length ≤ n := by
    unfold decimalNat
    split
    · exact positive
    · simp only [List.length_map, List.length_reverse]
      exact (Nat.digits_length_le_iff (by norm_num) _).mpr small
  unfold decimal
  split
  · simpa using digits
  · omega

theorem longLength (n : Int64) : (decimal n.toInt).length ≤ 20 := by
  have low := n.le_toInt
  have high := n.toInt_lt
  exact decimalLength (n := 19) (by omega) (by omega)

/- The JSON text of /status fits json_body with its terminator. -/
theorem jsonLength (config : ServerConfig) (w : World) : (jsonBody config w).length < 256 := by
  have connections : (decimal w.connections.toInt).length ≤ 11 := by
    have low := w.connections.le_toInt
    have high := w.connections.toInt_lt
    exact decimalLength (n := 10) (by omega) (by omega)
  have threads : (decimal config.threadCount).length ≤ 11 := by
    have range := config.threadRange
    unfold IntRange at range
    exact decimalLength (n := 10) (by omega) (by omega)
  have requests := longLength w.totalRequests
  have uptime := longLength (w.statusTime - w.serverStartTime)
  have a : (ascii "\x7b\"connections\":").length = 15 := by decide
  have b : (ascii ",\"total_requests\":").length = 18 := by decide
  have c : (ascii ",\"thread_pool_size\":").length = 20 := by decide
  have d : (ascii ",\"uptime\":").length = 10 := by decide
  have e : (ascii "\x7d").length = 1 := by decide
  simp only [jsonBody, List.length_append]
  omega

theorem okPlain {contentType : Bytes} {size : Nat} (keepAlive body) (known : contentType ∈ contentTypes)
    (long : size < 2^63) : Plain (okReply contentType size keepAlive body) :=
  ⟨List.mem_cons_self,known,long⟩

theorem mimeContentType (path : Bytes) : mimeGetType path ∈ contentTypes :=
  List.mem_cons_of_mem _ (List.mem_cons_of_mem _ (mimeKnown path))

theorem getPlain {l : Located} (sized : Sized l) (keepAlive) : Plain (getReply keepAlive l) := by
  cases l with
  | forbidden => exact errorPlain (by decide)
  | missing => exact errorPlain (by decide)
  | found path size file =>
    simp only [getReply]
    split
    · exact errorPlain (by decide)
    split
    · exact errorPlain (by decide)
    · exact okPlain _ _ (mimeContentType path) sized.2

theorem headPlain {l : Located} (sized : Sized l) (keepAlive) : Plain (headReply keepAlive l) := by
  cases l with
  | forbidden => exact errorPlain (by decide)
  | missing => exact errorPlain (by decide)
  | found path size file => exact okPlain _ _ (mimeContentType path) sized.2

theorem statusPlain (keepAlive config w) : Plain (statusReply keepAlive config w) := by
  have short := jsonLength config w
  exact okPlain _ _ (List.mem_cons_of_mem _ List.mem_cons_self) (by omega)

theorem replyPlain (request keepAlive config w) : Plain (reply request keepAlive config w) := by
  unfold reply
  split
  · exact statusPlain _ _ _
  · exact getPlain (locateSized _ _ _) _
  · exact headPlain (locateSized _ _ _) _
  · exact errorPlain (by decide)
  · exact errorPlain (by decide)

theorem okHeaderReply (contentType size keepAlive body) :
    okHeader contentType size keepAlive = (okReply contentType size keepAlive body).header := rfl

theorem putOk {contentType size keepAlive body} (conn : ClientConnection)
    (plain : Plain (okReply contentType size keepAlive body)) :
    Holds (putBody (putHeader conn (okHeader contentType size keepAlive))
      (okHeader contentType size keepAlive).length body) (okReply contentType size keepAlive body) := by
  have short := headerLength plain
  rw [okHeaderReply contentType size keepAlive body]
  exact putReply conn (by simp only [bufferSize]; omega)

theorem getHandled (uri conn config w) :
    Holds (handleGet uri conn config w).conn (getReply conn.keepAlive (locate config uri w).1) := by
  have plain := getPlain (locateSized config uri w) conn.keepAlive
  unfold handleGet
  generalize locate config uri w = found at plain
  obtain ⟨l,w⟩ := found
  cases l with
  | forbidden => exact @sendErrorReply 403 _ (by decide) conn
  | missing => exact @sendErrorReply 404 _ (by decide) conn
  | found path size file =>
    simp only [getReply] at plain ⊢
    split
    · exact @sendErrorReply 413 _ (by decide) conn
    · rename_i fits
      rw [if_neg fits] at plain
      cases h : file.read size with
      | none => exact @sendErrorReply 500 _ (by decide) _
      | some bytes =>
        simp only [h] at plain
        exact putOk conn plain

theorem headHandled (uri conn config w) :
    Holds (handleHead uri conn config w).conn (headReply conn.keepAlive (locate config uri w).1) := by
  have plain := headPlain (locateSized config uri w) conn.keepAlive
  unfold handleHead
  generalize locate config uri w = found at plain
  obtain ⟨l,w⟩ := found
  cases l with
  | forbidden => exact sendErrorReply (by decide) conn
  | missing => exact sendErrorReply (by decide) conn
  | found path size file => exact putOk conn plain

theorem statusHandled (conn config w) :
    Holds (handleStatus conn config w).conn (statusReply conn.keepAlive config w) := by
  have short := jsonLength config w
  have kept : (snprintf [] 256 (jsonBody config w)).take (jsonBody config w).length = jsonBody config w := by
    have whole : (jsonBody config w).take 255 = jsonBody config w := List.take_of_length_le (by omega)
    simp [snprintf, whole]
  simp only [handleStatus, kept]
  exact putOk conn (statusPlain conn.keepAlive config w)

/- On every path the buffer holds the reply. -/
theorem handledReply (request conn config w) :
    Holds (httpHandleRequest request conn config w).conn (reply request conn.keepAlive config w) := by
  unfold httpHandleRequest reply route
  split
  · exact statusHandled conn config _
  split
  · exact getHandled _ conn config _
  split
  · exact headHandled _ conn config _
  split
  · exact sendErrorReply (by decide) conn
  · exact sendErrorReply (by decide) conn

theorem getWrites (uri conn config w) : OnlyWrites conn (handleGet uri conn config w).conn := by
  unfold handleGet
  split
  · rfl
  · rfl
  split
  · rfl
  simp only
  split <;> rfl

theorem headWrites (uri conn config w) : OnlyWrites conn (handleHead uri conn config w).conn := by
  unfold handleHead
  split <;> rfl

theorem handledWrites (request conn config w) :
    OnlyWrites conn (httpHandleRequest request conn config w).conn := by
  unfold httpHandleRequest
  split
  · rfl
  split
  · exact getWrites _ conn config _
  split
  · exact headWrites _ conn config _
  split <;> rfl

/- What a handler leaves of the world does not depend on the connection. -/
theorem getWorld (uri config w) (a b : ClientConnection) :
    (handleGet uri a config w).world = (handleGet uri b config w).world := by
  unfold handleGet
  split
  · rfl
  · rfl
  · split
    · rfl
    · dsimp only
      split <;> rfl

theorem headWorld (uri config w) (a b : ClientConnection) :
    (handleHead uri a config w).world = (handleHead uri b config w).world := by
  unfold handleHead
  split <;> rfl

theorem handledWorld (request config w) (a b : ClientConnection) :
    (httpHandleRequest request a config w).world = (httpHandleRequest request b config w).world := by
  unfold httpHandleRequest
  dsimp only
  split
  · rfl
  · split
    · exact getWorld _ _ _ _ _
    · split
      · exact headWorld _ _ _ _ _
      · split <;> rfl

end EpollHttpServer.HttpRequest
