import Mathlib.Logic.Function.Basic
import EpollHttpServer.Lib.Calls
import EpollHttpServer.HttpRequest

/-! The handlers call by call: open, lseek, read and close on descriptors that the kernel
picks, with the return paths of the source. A thread has only its own descriptors in view. -/
namespace EpollHttpServer.Descriptors
open CString FileSystem HttpResponse Calls

inductive Call where
  | openPath (path : Bytes)
  | seekEnd (fd : Nat)
  | seekStart (fd : Nat)
  | read (fd size : Nat)
  | close (fd : Nat)
  deriving DecidableEq, Repr

/- none is -1; the second lseek and close go unchecked. -/
abbrev Answer : Call → Type
  | .openPath _ => Option Nat
  | .seekEnd _ => Option Nat
  | .seekStart _ => Unit
  | .read _ _ => Option Bytes
  | .close _ => Unit

structure Handle where
  file : File
  offset : Nat

structure Files where
  world : World
  handle : Nat → Option Handle

def idle (w : World) : Files := ⟨w,fun _ => none⟩

def Files.put (s : Files) (fd : Nat) (h : Option Handle) : Files := {s with handle := Function.update s.handle fd h}

/- open is in order for a thread that holds nothing, the rest on a descriptor that it holds. -/
def Ready (s : Files) : Call → Prop
  | .openPath _ => ∀ fd, s.handle fd = none
  | .seekEnd fd | .seekStart fd | .read fd _ | .close fd => ∃ h, s.handle fd = some h

-- open picks any number that the thread does not hold; those of other threads are not in view.
def opens (s : Files) (path : Bytes) (answer : Option Nat) (t : Files) : Prop :=
  match (openFile s.world path).1,answer with
  | none,none => t = {s with world := (openFile s.world path).2}
  | some file,some fd => s.handle fd = none ∧ t = Files.put {s with world := (openFile s.world path).2} fd (some ⟨file,0⟩)
  | _,_ => False

/- What read gives away from the start of a file is left open. -/
def reads (h : Handle) (size : Nat) (answer : Option Bytes) : Prop :=
  if h.offset = 0 then answer = h.file.read size else ∀ bytes ∈ answer, bytes.length ≤ size

def Answers (s : Files) : (c : Call) → Answer c → Files → Prop
  | .openPath path,answer,t => opens s path answer t
  | .seekEnd fd,answer,t => ∃ h, s.handle fd = some h ∧ answer = h.file.size ∧
      t = s.put fd (some {h with offset := answer.getD h.offset})
  | .seekStart fd,_,t => ∃ h, s.handle fd = some h ∧
      t = s.put fd (some {h with offset := if h.file.size.isSome then 0 else h.offset})
  | .read fd size,answer,t => ∃ h, s.handle fd = some h ∧ reads h size answer ∧
      t = s.put fd (some {h with offset := h.offset + (answer.map List.length).getD 0})
  | .close fd,_,t => t = s.put fd none

def files : Kernel Call Answer Files := ⟨Ready,Answers⟩

abbrev Program := Calls.Program Call Answer

def openPath (path : Bytes) : Program (Option Nat) := .ask (Call.openPath path)
def seekEnd (fd : Nat) : Program (Option Nat) := .ask (Call.seekEnd fd)
def seekStart (fd : Nat) : Program Unit := .ask (Call.seekStart fd)
def read (fd size : Nat) : Program (Option Bytes) := .ask (Call.read fd size)
def close (fd : Nat) : Program Unit := .ask (Call.close fd)

def getFileSize (filePath : Bytes) : Program (Option (Nat × Nat)) := do
  match ← openPath filePath with
  | none => return none
  | some fd =>
    match ← seekEnd fd with
    | none =>
      close fd
      return none
    | some size =>
      seekStart fd
      return some (size,fd)

inductive Located where
  | forbidden
  | missing
  | found (filePath : Bytes) (size fd : Nat)

def locate (config : ServerConfig) (uri frame : Bytes) : Program Located := do
  match HttpRequest.buildFilePath config.webRoot uri frame 1024 with
  | none => return .forbidden
  | some filePath =>
    match ← getFileSize (cstr filePath) with
    | some (size,fd) => return .found filePath size fd
    | none =>
      let indexPath := snprintf [] 1024 (cstr filePath ++ ascii "/index.html")
      match ← getFileSize (cstr indexPath) with
      | some (size,fd) => return .found (strncpy filePath indexPath 1023) size fd
      | none => return .missing

abbrev Result := Int × ClientConnection

def handleGet (uri : Bytes) (conn : ClientConnection) (config : ServerConfig) (frame : Bytes) : Program Result := do
  match ← locate config uri frame with
  | .forbidden => return (-1,httpSendError conn 403 (ascii "Forbidden"))
  | .missing => return (-1,httpSendError conn 404 (ascii "Not Found"))
  | .found filePath size fd =>
    if size > HttpRequest.maxFileSize then
      close fd
      return (-1,httpSendError conn 413 (ascii "Payload Too Large"))
    let text := HttpRequest.okHeader (Mime.mimeGetType filePath) size conn.keepAlive
    let conn := putHeader conn text
    let answer ← read fd size
    close fd
    match answer with
    | none => return (-1,httpSendError conn 500 (ascii "Internal Server Error"))
    | some bytes => return (0,putBody conn text.length bytes)

def handleHead (uri : Bytes) (conn : ClientConnection) (config : ServerConfig) (frame : Bytes) : Program Result := do
  match ← locate config uri frame with
  | .forbidden => return (-1,httpSendError conn 403 (ascii "Forbidden"))
  | .missing => return (-1,httpSendError conn 404 (ascii "Not Found"))
  | .found filePath size fd =>
    close fd
    let text := HttpRequest.okHeader (Mime.mimeGetType filePath) size conn.keepAlive
    return (0,putBody (putHeader conn text) text.length [])

/- The counters are in the world, which the thread found as w. -/
def httpHandleRequest (request : HttpParser.HttpRequest) (conn : ClientConnection) (config : ServerConfig) (w : World) :
    Program Result :=
  if strcmpEq request.method (ascii "GET") && strcmpEq request.uri (ascii "/status") then
    let handled := HttpRequest.handleStatus conn config w
    return (handled.ret,handled.conn)
  else if strcmpEq request.method (ascii "GET") then handleGet request.uri conn config w.frame
  else if strcmpEq request.method (ascii "HEAD") then handleHead request.uri conn config w.frame
  else if strcmpEq request.method (ascii "POST") then
    return (-1,httpSendError conn 501 (ascii "Not Implemented"))
  else return (-1,httpSendError conn 405 (ascii "Method Not Allowed"))

/- The two of http_response.c that answer from a path. -/
def httpSendFile (conn : ClientConnection) (filePath contentType : Bytes) : Program Result := do
  match ← openPath ((cstr filePath)) with
  | none => return (-1,httpSendError conn 403 (ascii "Forbidden"))
  | some fd =>
    match ← seekEnd fd with
    | none =>
      close fd
      return (-1,httpSendError conn 500 (ascii "Internal Server Error"))
    | some size =>
      seekStart fd
      if size > HttpRequest.maxFileSize then
        close fd
        return (-1,httpSendError conn 413 (ascii "Payload Too Large"))
      let (conn,headerLen) := buildResponseHeader conn 200 contentType size conn.keepAlive
      let answer ← read fd size
      close fd
      match answer with
      | none => return (-1,httpSendError conn 500 (ascii "Internal Server Error"))
      | some bytes => return (0,putBody conn headerLen bytes)

def httpSendHead (conn : ClientConnection) (filePath contentType : Bytes) : Program Result := do
  match ← openPath ((cstr filePath)) with
  | none => return (-1,httpSendError conn 404 (ascii "Not Found"))
  | some fd =>
    let answer ← seekEnd fd
    close fd
    match answer with
    | none => return (-1,httpSendError conn 404 (ascii "Not Found"))
    | some size =>
      let (conn,headerLen) := buildResponseHeader conn 200 contentType size conn.keepAlive
      return (0,putBody conn headerLen [])

/- The thread between open and close. -/
def holding (w : World) (fd : Nat) (h : Handle) : Files := (idle w).put fd (some h)

theorem holdingHandle (w fd h) : (holding w fd h).handle fd = some h := Function.update_self ..

theorem holdingPut (w fd h g) : (holding w fd h).put fd (some g) = holding w fd g := by
  simp [holding, Files.put]

theorem holdingClosed (w fd h) : (holding w fd h).put fd none = idle w := by
  simp only [holding, Files.put, Function.update_idem]
  exact congrArg (Files.mk w) (Function.update_eq_self fd _)

section Rules
variable {w : World} {fd : Nat} {h : Handle}

theorem openMeets {path : Bytes} {post : Option Nat → Files → Prop}
    (fails : w.disk w.opened.length path = none → post none (idle (openFile w path).2))
    (opens : ∀ file fd, w.disk w.opened.length path = some file →
      post (some fd) (holding (openFile w path).2 fd ⟨file,0⟩)) :
    Meets files (openPath path) (idle w) post := by
  refine meetsAsk.mpr ⟨fun _ => rfl,?_⟩
  intro answer t made
  change Descriptors.opens (idle w) path answer t at made
  unfold Descriptors.opens at made
  split at made
  · rename_i missing
    subst made
    exact fails missing
  · rename_i file fd found
    obtain ⟨_,rfl⟩ := made
    exact opens file fd found
  · exact made.elim

theorem seekEndMeets {post : Option Nat → Files → Prop}
    (later : post h.file.size (holding w fd {h with offset := h.file.size.getD h.offset})) :
    Meets files (seekEnd fd) (holding w fd h) post := by
  refine meetsAsk.mpr ⟨⟨h,holdingHandle ..⟩,?_⟩
  rintro answer t ⟨g,held,rfl,rfl⟩
  cases Option.some.inj ((holdingHandle ..).symm.trans held)
  rw [holdingPut]
  exact later

theorem seekStartMeets {post : Unit → Files → Prop}
    (later : post () (holding w fd {h with offset := if h.file.size.isSome then 0 else h.offset})) :
    Meets files (seekStart fd) (holding w fd h) post := by
  refine meetsAsk.mpr ⟨⟨h,holdingHandle ..⟩,?_⟩
  rintro answer t ⟨g,held,rfl⟩
  cases Option.some.inj ((holdingHandle ..).symm.trans held)
  rw [holdingPut]
  exact later

/- Only from the start does read give what the file says. -/
theorem readMeets {file : File} {size : Nat} {post : Option Bytes → Files → Prop}
    (later : post (file.read size) (holding w fd ⟨file,((file.read size).map List.length).getD 0⟩)) :
    Meets files (read fd size) (holding w fd ⟨file,0⟩) post := by
  refine meetsAsk.mpr ⟨⟨_,holdingHandle ..⟩,?_⟩
  rintro answer t ⟨g,held,given,rfl⟩
  cases Option.some.inj ((holdingHandle ..).symm.trans held)
  simp only [reads, if_true] at given
  subst given
  rw [holdingPut, Nat.zero_add]
  exact later

theorem closeMeets {post : Unit → Files → Prop} (later : post () (idle w)) :
    Meets files (close fd) (holding w fd h) post := by
  refine meetsAsk.mpr ⟨⟨h,holdingHandle ..⟩,?_⟩
  rintro answer t rfl
  rw [holdingClosed]
  exact later

end Rules

/- get_file_size holds a descriptor at the start of the file, or nothing. -/
theorem fileSizeMeets {w path} {post : Option (Nat × Nat) → Files → Prop}
    (fails : probe (w.disk w.opened.length) path = none → post none (idle (openFile w path).2))
    (finds : ∀ size file fd, probe (w.disk w.opened.length) path = some (size,file) →
      post (some (size,fd)) (holding (openFile w path).2 fd ⟨file,0⟩)) :
    Meets files (getFileSize path) (idle w) post := by
  simp only [getFileSize, meetsBind]
  refine openMeets ?_ ?_
  · intro missing
    exact fails (by simp [probe, missing])
  · intro file fd found
    simp only [meetsBind]
    refine seekEndMeets ?_
    cases known : file.size with
    | none =>
      simp only [meetsBind]
      exact closeMeets (fails (by simp [probe, found, known]))
    | some size =>
      simp only [meetsBind]
      refine seekStartMeets ?_
      simp only [known, Option.isSome_some, if_true]
      exact finds size file fd (by simp [probe, found, known])

/- A file that was found stands open at its start. -/
inductive Stands : HttpRequest.Located × World → Located → Files → Prop
  | forbidden {w} : Stands (.forbidden,w) .forbidden (idle w)
  | missing {w} : Stands (.missing,w) .missing (idle w)
  | found {path size file w fd} : Stands (.found path size file,w) (.found path size fd) (holding w fd ⟨file,0⟩)

theorem locateMeets (config : ServerConfig) (uri : Bytes) (w : World) :
    Meets files (locate config uri w.frame) (idle w) (Stands (HttpRequest.locate config uri w)) := by
  unfold locate HttpRequest.locate
  cases HttpRequest.buildFilePath config.webRoot uri w.frame 1024 with
  | none => exact .forbidden
  | some filePath =>
    simp only [meetsBind, getFileSizeSplit]
    refine fileSizeMeets ?_ ?_
    · intro first
      simp only [first, meetsBind]
      refine fileSizeMeets ?_ ?_
      · intro second
        change probe (w.disk (w.opened ++ [cstr filePath]).length) _ = none at second
        simp only [second]
        exact .missing
      · intro size file fd second
        change probe (w.disk (w.opened ++ [cstr filePath]).length) _ = some _ at second
        simp only [second]
        exact .found
    · intro size file fd first
      simp only [first]
      exact .found

/- What the pure handler returns, and no descriptor held. -/
def Ended (h : HttpRequest.Handled) (r : Result) (t : Files) : Prop := r = (h.ret,h.conn) ∧ t = idle h.world

theorem getMeets (uri conn config w) : Meets files (handleGet uri conn config w.frame) (idle w)
    (Ended (HttpRequest.handleGet uri conn config w)) := by
  simp only [handleGet, HttpRequest.handleGet, meetsBind]
  refine meetsMono (locateMeets config uri w) ?_
  intro l t stands
  generalize HttpRequest.locate config uri w = pure at stands
  cases stands with
  | forbidden => exact ⟨rfl,rfl⟩
  | missing => exact ⟨rfl,rfl⟩
  | found =>
    rename_i path size file v fd
    dsimp only
    split
    · simp only [meetsBind]
      exact closeMeets ⟨rfl,rfl⟩
    · simp only [meetsBind]
      refine readMeets ?_
      refine closeMeets ?_
      cases file.read size <;> exact ⟨rfl,rfl⟩

theorem headMeets (uri conn config w) : Meets files (handleHead uri conn config w.frame) (idle w)
    (Ended (HttpRequest.handleHead uri conn config w)) := by
  simp only [handleHead, HttpRequest.handleHead, meetsBind]
  refine meetsMono (locateMeets config uri w) ?_
  intro l t stands
  generalize HttpRequest.locate config uri w = pure at stands
  cases stands with
  | forbidden => exact ⟨rfl,rfl⟩
  | missing => exact ⟨rfl,rfl⟩
  | found => exact meetsBind.mpr (closeMeets ⟨rfl,rfl⟩)

theorem handledMeets (request conn config w) :
    Meets files (httpHandleRequest request conn config (HttpRequest.countRequest w)) (idle (HttpRequest.countRequest w))
      (Ended (HttpRequest.httpHandleRequest request conn config w)) := by
  unfold httpHandleRequest HttpRequest.httpHandleRequest
  dsimp only
  split
  · exact ⟨rfl,rfl⟩
  split
  · exact getMeets _ _ _ _
  split
  · exact headMeets _ _ _ _
  split <;> exact ⟨rfl,rfl⟩

theorem filesAnswer (s : Files) (c : Call) (ready : Ready s c) : ∃ r t, Answers s c r t := by
  cases c with
  | openPath path =>
    cases found : (openFile s.world path).1 with
    | none =>
      refine ⟨none,{s with world := (openFile s.world path).2},?_⟩
      simp only [Answers, opens, found]
    | some file =>
      refine ⟨some 0,Files.put {s with world := (openFile s.world path).2} 0 (some ⟨file,0⟩),?_⟩
      simp only [Answers, opens, found]
      exact ⟨ready 0,trivial⟩
  | seekEnd fd =>
    obtain ⟨h,held⟩ := ready
    exact ⟨h.file.size,_,h,held,rfl,rfl⟩
  | seekStart fd =>
    obtain ⟨h,held⟩ := ready
    exact ⟨(),_,h,held,rfl⟩
  | read fd size =>
    obtain ⟨h,held⟩ := ready
    by_cases start : h.offset = 0
    · exact ⟨h.file.read size,_,h,held,by simp [reads, start],rfl⟩
    · exact ⟨none,_,h,held,by simp [reads, start],rfl⟩
  | close fd => exact ⟨(),_,rfl⟩

/- On every way through a request the thread reads, seeks and closes only what it has open,
has one file open at a time and none afterwards, and answers as the handlers without descriptors do. -/
theorem nothingLeftOpen (request : HttpParser.HttpRequest) (conn : ClientConnection) (config : ServerConfig)
    (w : World) :
    Sound files (httpHandleRequest request conn config (HttpRequest.countRequest w)) (idle (HttpRequest.countRequest w))
      (Ended (HttpRequest.httpHandleRequest request conn config w)) ∧
    ∀ q s, Steps files (httpHandleRequest request conn config (HttpRequest.countRequest w))
        (idle (HttpRequest.countRequest w)) q s →
      ∃ r t, Steps files q s (.ret r) t ∧ Ended (HttpRequest.httpHandleRequest request conn config w) r t := by
  have meets := handledMeets request conn config w
  refine ⟨meetsSound meets,fun q s steps => ?_⟩
  exact meetsEnds (I := fun _ => True) (fun _ _ _ _ _ _ _ => trivial) (fun s c _ ready => filesAnswer s c ready) meets
    trivial steps

section Senders
variable {w : World} {filePath : Bytes} {size : Nat} {file : File}

theorem okStatus : statusText 200 = ascii "200 OK" := by decide

theorem probed {disk : Disk} {path : Bytes} (there : probe disk path = some (size,file)) :
    disk path = some file ∧ file.size = some size := by
  simp only [probe, bind, Option.bind_eq_some_iff] at there
  obtain ⟨f,opened,n,known,last⟩ := there
  cases Option.some.inj last
  exact ⟨opened,known⟩

theorem locateFirst {config : ServerConfig} {uri : Bytes}
    (built : HttpRequest.buildFilePath config.webRoot uri w.frame 1024 = some filePath)
    (there : probe (w.disk w.opened.length) (cstr filePath) = some (size,file)) :
    HttpRequest.locate config uri w = (.found filePath size file,(openFile w (cstr filePath)).2) := by
  simp only [HttpRequest.locate, built, getFileSizeSplit, there]
  rfl

theorem sendFileMeets {config : ServerConfig} {uri : Bytes} (conn : ClientConnection)
    (built : HttpRequest.buildFilePath config.webRoot uri w.frame 1024 = some filePath)
    (there : probe (w.disk w.opened.length) (cstr filePath) = some (size,file)) :
    Meets files (httpSendFile conn filePath (Mime.mimeGetType filePath)) (idle w)
      (Ended (HttpRequest.handleGet uri conn config w)) := by
  simp only [httpSendFile, HttpRequest.handleGet, meetsBind, locateFirst built there]
  refine openMeets ?_ ?_
  · intro missing
    rw [(probed there).1] at missing
    contradiction
  · intro found fd opened
    cases Option.some.inj ((probed there).1.symm.trans opened)
    simp only [meetsBind]
    refine seekEndMeets ?_
    simp only [(probed there).2, meetsBind]
    refine seekStartMeets ?_
    simp only [(probed there).2, Option.isSome_some, if_true]
    split
    · exact meetsBind.mpr (closeMeets ⟨rfl,rfl⟩)
    · simp only [meetsBind]
      refine readMeets ?_
      refine closeMeets ?_
      simp only [buildResponseHeader, okStatus]
      cases file.read size <;> exact ⟨rfl,rfl⟩

theorem sendHeadMeets {config : ServerConfig} {uri : Bytes} (conn : ClientConnection)
    (built : HttpRequest.buildFilePath config.webRoot uri w.frame 1024 = some filePath)
    (there : probe (w.disk w.opened.length) (cstr filePath) = some (size,file)) :
    Meets files (httpSendHead conn filePath (Mime.mimeGetType filePath)) (idle w)
      (Ended (HttpRequest.handleHead uri conn config w)) := by
  simp only [httpSendHead, HttpRequest.handleHead, meetsBind, locateFirst built there]
  refine openMeets ?_ ?_
  · intro missing
    rw [(probed there).1] at missing
    contradiction
  · intro found fd opened
    cases Option.some.inj ((probed there).1.symm.trans opened)
    simp only [meetsBind]
    refine seekEndMeets ?_
    refine closeMeets ?_
    simp only [(probed there).2, buildResponseHeader, okStatus]
    exact ⟨rfl,rfl⟩

/- A file that opens at the first path is sent by http_send_file as by handle_get, and announced by
http_send_head as by handle_head, under the type of its name. -/
theorem sendersAgree {config : ServerConfig} {uri : Bytes} (conn : ClientConnection)
    (built : HttpRequest.buildFilePath config.webRoot uri w.frame 1024 = some filePath)
    (there : probe (w.disk w.opened.length) (cstr filePath) = some (size,file)) :
    Sound files (httpSendFile conn filePath (Mime.mimeGetType filePath)) (idle w)
      (Ended (HttpRequest.handleGet uri conn config w)) ∧
    Sound files (httpSendHead conn filePath (Mime.mimeGetType filePath)) (idle w)
      (Ended (HttpRequest.handleHead uri conn config w)) :=
  ⟨meetsSound (sendFileMeets conn built there),meetsSound (sendHeadMeets conn built there)⟩

end Senders

def blankFile : File := ⟨some 3,fun n => some (List.replicate (min n 3) 32),by simp,by simp⟩

def blankWorld : World := {emptyWorld with disk := fun _ _ => some blankFile}

theorem blankAgrees :
    Sound files (httpSendFile (acceptedConnection 5 0) (ascii "./www/a.css\x00") (Mime.mimeGetType (ascii "./www/a.css\x00")))
      (idle blankWorld) (Ended (HttpRequest.handleGet (ascii "/a.css") (acceptedConnection 5 0) Main.defaults blankWorld)) ∧
    Sound files (httpSendHead (acceptedConnection 5 0) (ascii "./www/a.css\x00") (Mime.mimeGetType (ascii "./www/a.css\x00")))
      (idle blankWorld) (Ended (HttpRequest.handleHead (ascii "/a.css") (acceptedConnection 5 0) Main.defaults blankWorld)) :=
  sendersAgree _ (by decide) rfl

end EpollHttpServer.Descriptors
