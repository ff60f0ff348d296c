import EpollHttpServer.Framing
import EpollHttpServer.HttpRequest

/-! worker_process_request on one connection, between the lookup and the final branch:
the read loop, the completeness check, parse and answer, the write loop. What the socket
calls return is given as lists; a list that has run out stands for EAGAIN on read and for
a write that takes everything. -/
namespace EpollHttpServer.Worker
open CString HttpParser HttpResponse HttpRequest FileSystem Framing

inductive ReadOutcome where
  | data (first : UInt8) (rest : Bytes)
  | eof
  | again
  | error
  deriving DecidableEq, Repr

inductive WriteOutcome where
  | taken (beyondFirst : Nat)
  | again
  | error
  deriving DecidableEq, Repr

def spaceLeft (conn : ClientConnection) : Int := bufferSize - conn.readPos - 1

def receive (conn : ClientConnection) (bytes : Bytes) : ClientConnection :=
  { conn with
    readBuf := (blit conn.readBuf conn.readPos bytes).set (conn.readPos + bytes.length) 0
    readPos := conn.readPos + bytes.length }

/- The answer is close_conn. Data beyond space_left stays in the kernel; the next turn
finds the buffer full. -/
def readLoop (conn : ClientConnection) : List ReadOutcome → Bool × ClientConnection
  | [] => (decide (spaceLeft conn ≤ 0),conn)
  | outcome::rest =>
    if spaceLeft conn ≤ 0 then (true,conn)
    else match outcome with
      | .again => (false,conn)
      | .error => (true,conn)
      | .eof => (true,conn)
      | .data first more => readLoop (receive conn ((first::more).take (spaceLeft conn).toNat)) rest

/- The answer is close_conn, and what the socket took. -/
def sendLoop : List WriteOutcome → Bytes → Nat → Bool × Bytes
  | _,[],_ => (false,[])
  | [],left,_ => (false,left)
  | .taken n::rest,left,_ =>
    let (closeConn,sent) := sendLoop rest (left.drop (n+1)) 0
    (closeConn,left.take (n+1) ++ sent)
  | .again::rest,left,retry => if retry + 1 > 1000 then (true,[]) else sendLoop rest left (retry+1)
  | .error::_,_,_ => (true,[])

def parseAndHandle (parsed : Option HttpRequest) (conn : ClientConnection) (config : ServerConfig)
    (w : World) : Handled :=
  match parsed with
  | none => ⟨0,httpSendError conn 400 (ascii "Bad Request"),w⟩
  | some request => httpHandleRequest request {conn with keepAlive := request.keepAlive} config w

inductive Ending where
  | waiting | closed | kept
  deriving DecidableEq, Repr

structure Exchange where
  conn : ClientConnection
  sent : Bytes
  ending : Ending
  world : World

/- malloc, the configuration and what the socket and the clock give to one call. -/
structure Environment where
  malloc : Nat → Bool
  now : Int
  reads : List ReadOutcome
  sends : List WriteOutcome

def processBuffer (env : Environment) (config : ServerConfig) (w : World) (conn : ClientConnection) : Exchange :=
  if (isRequestComplete conn.readBuf conn.readPos 0).1 then
    let handled := parseAndHandle (httpParseRequest env.malloc conn.readBuf conn.readPos) conn config w
    let (closeConn,sent) :=
      if handled.conn.writeLen > 0 then sendLoop env.sends (written handled.conn) 0 else (false,[])
    let conn := {handled.conn with
      writePos := 0, writeLen := 0, writeBuf := List.replicate (bufferSize*4) 0}
    if closeConn || !conn.keepAlive then ⟨conn,sent,.closed,handled.world⟩
    else ⟨{conn with readPos := 0, readBuf := List.replicate bufferSize 0, inUse := false},
      sent,.kept,handled.world⟩
  else ⟨{conn with inUse := false},[],.waiting,w⟩

-- From the first read on.
def serve (env : Environment) (config : ServerConfig) (w : World) (conn : ClientConnection) : Exchange :=
  match readLoop conn env.reads with
  | (true,conn) => ⟨conn,[],.closed,w⟩
  | (false,conn) => processBuffer env config w conn

def workerProcessRequest (env : Environment) (config : ServerConfig) (w : World) (conn : ClientConnection) :
    Exchange :=
  serve env config w {conn with inUse := true, lastActive := env.now}

/- What one read call finds when these bytes have arrived. -/
def arrival : Bytes → ReadOutcome
  | [] => .again
  | first::rest => .data first rest

/- No write fails, and the retries that any one write needs stay within the limit. -/
def Delivers : List WriteOutcome → Nat → Prop
  | [],_ => True
  | .taken _::rest,_ => Delivers rest 0
  | .again::rest,retry => retry < 1000 ∧ Delivers rest (retry+1)
  | .error::_,_ => False

theorem sendDelivered {sends retry} (ok : Delivers sends retry) (text : Bytes) :
    sendLoop sends text retry = (false,text) := by
  induction sends generalizing text retry with
  | nil => cases text <;> rfl
  | cons outcome rest ih =>
    cases text with
    | nil => cases outcome <;> rfl
    | cons b text =>
      cases outcome with
      | taken n =>
        simp only [sendLoop, ih ok, List.take_append_drop]
      | again =>
        obtain ⟨few,later⟩ := ok
        simp only [sendLoop]
        rw [if_neg (by omega)]
        exact ih later (b::text)
      | error => exact absurd ok id

def answer (parsed : Option HttpRequest) (config : ServerConfig) (w : World) : Reply :=
  match parsed with
  | none => errorReply 400 (ascii "Bad Request")
  | some request => reply request request.keepAlive config w

theorem answerPlain (parsed config w) : Plain (answer parsed config w) := by
  cases parsed with
  | none => exact errorPlain (by decide)
  | some request => exact replyPlain _ _ _ _

theorem answerHeld (parsed conn config w) :
    Holds (parseAndHandle parsed conn config w).conn (answer parsed config w) := by
  cases parsed with
  | none => exact sendErrorReply (by decide) conn
  | some request => exact handledReply request _ config w

-- What the last branch tests: a failed parse leaves the value as it was.
def keepAliveAfter (parsed : Option HttpRequest) (conn : ClientConnection) : Bool :=
  match parsed with
  | none => conn.keepAlive
  | some request => request.keepAlive

theorem handleWrites (parsed conn config w) :
    OnlyWrites {conn with keepAlive := keepAliveAfter parsed conn}
      (parseAndHandle parsed conn config w).conn := by
  cases parsed with
  | none => exact sendErrorWrites conn _ _
  | some request => exact handledWrites request _ config w

theorem answerNonempty (parsed config w) : 0 < (answer parsed config w).message.render.length := by
  simp only [renderReply, Reply.header, headerText, List.length_append]
  have start : (ascii "HTTP/1.1 ").length = 9 := by decide
  omega

theorem processWaits {env config w conn} (partly : (isRequestComplete conn.readBuf conn.readPos 0).1 = false) :
    processBuffer env config w conn = ⟨{conn with inUse := false},[],.waiting,w⟩ := by
  simp only [processBuffer, partly, Bool.false_eq_true, if_false]

/- The connection after an answer that does not let it live on. -/
def finished (parsed : Option HttpRequest) (conn : ClientConnection) : ClientConnection :=
  { conn with
    keepAlive := keepAliveAfter parsed conn
    writePos := 0, writeLen := 0, writeBuf := List.replicate (bufferSize*4) 0 }

/- What one answered task comes to: the answer goes out as far as the socket takes it, and a
connection that is kept looks as if it had just been accepted. -/
theorem processAnswers {env config w conn} (complete : (isRequestComplete conn.readBuf conn.readPos 0).1 = true)
    {parsed} (same : httpParseRequest env.malloc conn.readBuf conn.readPos = parsed) :
    processBuffer env config w conn =
      if (sendLoop env.sends (answer parsed config w).message.render 0).1 || !keepAliveAfter parsed conn then
        ⟨finished parsed conn,(sendLoop env.sends (answer parsed config w).message.render 0).2,.closed,
          (parseAndHandle parsed conn config w).world⟩
      else
        ⟨acceptedConnection conn.fd conn.lastActive,(sendLoop env.sends (answer parsed config w).message.render 0).2,
          .kept,(parseAndHandle parsed conn config w).world⟩ := by
  have held := answerHeld parsed conn config w
  have writes := handleWrites parsed conn config w
  have nonempty := answerNonempty parsed config w
  simp only [processBuffer, complete, if_true, same]
  generalize parseAndHandle parsed conn config w = handled at held writes
  obtain ⟨ret,after,w'⟩ := handled
  simp only at held writes
  have positive : after.writeLen > 0 := by rw [held.length]; exact nonempty
  simp only [positive, if_true, held.text]
  generalize sendLoop env.sends (answer parsed config w).message.render 0 = cut
  rw [writes]
  cases kept : keepAliveAfter parsed conn with
  | true =>
    simp only [finished, kept]
    split <;> rfl
  | false =>
    simp only [finished, kept, Bool.not_false, Bool.or_true, if_true]

theorem processDelivered {env config w conn} (complete : (isRequestComplete conn.readBuf conn.readPos 0).1 = true)
    (ok : Delivers env.sends 0) {parsed} (same : httpParseRequest env.malloc conn.readBuf conn.readPos = parsed) :
    (processBuffer env config w conn).sent = (answer parsed config w).message.render ∧
    (processBuffer env config w conn).ending = (if keepAliveAfter parsed conn then .kept else .closed) ∧
    (keepAliveAfter parsed conn = true →
      (processBuffer env config w conn).conn = acceptedConnection conn.fd conn.lastActive) := by
  rw [processAnswers complete same, sendDelivered ok]
  cases keepAliveAfter parsed conn with
  | true => exact ⟨rfl,rfl,fun _ => rfl⟩
  | false => exact ⟨rfl,rfl,fun h => absurd h (by decide)⟩

/- The text that one task hands to the write loop, if it gets that far. -/
def attempted (env : Environment) (config : ServerConfig) (w : World) (conn : ClientConnection) : Option Bytes :=
  match readLoop {conn with inUse := true, lastActive := env.now} env.reads with
  | (true,_) => none
  | (false,conn) =>
    if (isRequestComplete conn.readBuf conn.readPos 0).1 then
      let handled := parseAndHandle (httpParseRequest env.malloc conn.readBuf conn.readPos) conn config w
      if handled.conn.writeLen > 0 then some (written handled.conn) else none
    else none

theorem attemptedText {env config w conn after} (read : readLoop {conn with inUse := true, lastActive := env.now} env.reads =
      (false,after)) (complete : (isRequestComplete after.readBuf after.readPos 0).1 = true) :
    attempted env config w conn =
      some (answer (httpParseRequest env.malloc after.readBuf after.readPos) config w).message.render := by
  have held := answerHeld (httpParseRequest env.malloc after.readBuf after.readPos) after config w
  have positive := answerNonempty (httpParseRequest env.malloc after.readBuf after.readPos) config w
  rw [← held.length] at positive
  simp only [attempted, read, complete, if_true, positive, held.text]

theorem attemptedWaits {env config w conn after} (read : readLoop {conn with inUse := true, lastActive := env.now} env.reads =
      (false,after)) (partly : (isRequestComplete after.readBuf after.readPos 0).1 = false) :
    attempted env config w conn = none := by
  simp only [attempted, read, partly, Bool.false_eq_true, if_false]

/- The socket gets as much of that text as it takes, and nothing else. -/
theorem attemptedSent (env config w conn) : (workerProcessRequest env config w conn).sent =
    match attempted env config w conn with
    | none => []
    | some text => (sendLoop env.sends text 0).2 := by
  simp only [workerProcessRequest, serve]
  generalize read : readLoop {conn with inUse := true, lastActive := env.now} env.reads = seen
  obtain ⟨stops,after⟩ := seen
  cases stops with
  | true => simp only [attempted, read]
  | false =>
    cases complete : (isRequestComplete after.readBuf after.readPos 0).1 with
    | true =>
      rw [attemptedText read complete]
      dsimp only
      rw [processAnswers complete rfl]
      split <;> rfl
    | false => simp only [attempted, read, complete, processWaits complete, Bool.false_eq_true, if_false]

theorem closedEarly {env config w conn after} (read : readLoop {conn with inUse := true, lastActive := env.now} env.reads =
      (true,after)) :
    attempted env config w conn = none ∧ (workerProcessRequest env config w conn).ending = .closed :=
  ⟨by simp only [attempted, read],by simp only [workerProcessRequest, serve, read]⟩

/- Reading and answering leave the descriptor and the time of the pick-up as they are. -/
structure SameClient (a b : ClientConnection) : Prop where
  fd : a.fd = b.fd
  lastActive : a.lastActive = b.lastActive

theorem readClient (conn outcomes) : SameClient (readLoop conn outcomes).2 conn := by
  induction outcomes generalizing conn with
  | nil => exact ⟨rfl,rfl⟩
  | cons outcome rest ih =>
    simp only [readLoop]
    split
    · exact ⟨rfl,rfl⟩
    · cases outcome with
      | data first more =>
        have later := ih (receive conn ((first::more).take (spaceLeft conn).toNat))
        exact ⟨later.fd,later.lastActive⟩
      | eof => exact ⟨rfl,rfl⟩
      | again => exact ⟨rfl,rfl⟩
      | error => exact ⟨rfl,rfl⟩

theorem processClient (env config w conn) : SameClient (processBuffer env config w conn).conn conn := by
  cases complete : (isRequestComplete conn.readBuf conn.readPos 0).1 with
  | true =>
    rw [processAnswers complete rfl]
    split <;> exact ⟨rfl,rfl⟩
  | false =>
    rw [processWaits complete]
    exact ⟨rfl,rfl⟩

theorem serveClient (env config w conn) : SameClient (serve env config w conn).conn conn := by
  have read := readClient conn env.reads
  unfold serve
  split
  · rename_i after same
    rw [same] at read
    exact read
  · rename_i after same
    rw [same] at read
    have processed := processClient env config w after
    exact ⟨processed.fd.trans read.fd,processed.lastActive.trans read.lastActive⟩

theorem answeredWorld (parsed config w) (a b : ClientConnection) :
    (parseAndHandle parsed a config w).world = (parseAndHandle parsed b config w).world := by
  cases parsed with
  | none => rfl
  | some request => exact handledWorld request config w _ _

def relabelled (conn : ClientConnection) (fd : Nat) (time : Int) : ClientConnection :=
  {conn with fd := fd, lastActive := time}

theorem readRelabelled (conn fd time outcomes) : readLoop (relabelled conn fd time) outcomes =
    ((readLoop conn outcomes).1,relabelled (readLoop conn outcomes).2 fd time) := by
  induction outcomes generalizing conn with
  | nil => rfl
  | cons outcome rest ih =>
    simp only [readLoop]
    have space : spaceLeft (relabelled conn fd time) = spaceLeft conn := rfl
    rw [space]
    split
    · rfl
    · cases outcome with
      | data first more => exact ih (receive conn ((first::more).take (spaceLeft conn).toNat))
      | eof => rfl
      | again => rfl
      | error => rfl

theorem processRelabelled (env config w conn fd time) : processBuffer env config w (relabelled conn fd time) =
    {processBuffer env config w conn with conn := relabelled (processBuffer env config w conn).conn fd time} := by
  cases complete : (isRequestComplete conn.readBuf conn.readPos 0).1 with
  | true =>
    have same : (isRequestComplete (relabelled conn fd time).readBuf (relabelled conn fd time).readPos 0).1 = true :=
      complete
    have parsed : httpParseRequest env.malloc (relabelled conn fd time).readBuf (relabelled conn fd time).readPos =
        httpParseRequest env.malloc conn.readBuf conn.readPos := rfl
    rw [processAnswers complete rfl, processAnswers same parsed, answeredWorld _ _ _ (relabelled conn fd time) conn]
    generalize httpParseRequest env.malloc conn.readBuf conn.readPos = parsed
    have keep : keepAliveAfter parsed (relabelled conn fd time) = keepAliveAfter parsed conn := by cases parsed <;> rfl
    have closed : finished parsed (relabelled conn fd time) = relabelled (finished parsed conn) fd time := by
      cases parsed <;> rfl
    rw [keep, closed]
    split <;> rfl
  | false =>
    rw [processWaits complete]
    exact processWaits complete

/- The work on a connection does not look at its descriptor nor at the time of the pick-up. -/
theorem serveRelabelled (env config w conn fd time) : serve env config w (relabelled conn fd time) =
    {serve env config w conn with conn := relabelled (serve env config w conn).conn fd time} := by
  rw [serve, serve, readRelabelled]
  generalize readLoop conn env.reads = read
  obtain ⟨closes,after⟩ := read
  cases closes with
  | true => rfl
  | false => exact processRelabelled env config w after fd time

end EpollHttpServer.Worker
