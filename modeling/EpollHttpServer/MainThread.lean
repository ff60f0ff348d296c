import EpollHttpServer.Lib.Calls
import EpollHttpServer.Server

/-! main.c and server.c call by call, from the arguments to the exit status. The kernel side keeps the
descriptors of the main thread and, from the first reading of the clock on, the server; a call of the
main loop takes the server along that part of its steps. -/
namespace EpollHttpServer.MainThread
open CString Server Runs Calls

structure Socket where
  reuse : Bool
  port : Option Nat
  listening : Bool
  flags : UInt32
  deriving DecidableEq, Repr

inductive Descriptor where
  | directory
  | socket (s : Socket)
  | epoll (watched : Option Nat)
  deriving DecidableEq, Repr

structure Serving where
  own : Nat → Bool
  state : State

structure Process where
  descriptor : Nat → Option Descriptor
  signals : Bool
  config : Option ServerConfig
  pool : Option Int
  handed : Bool
  serving : Option Serving

def boot : Process := ⟨fun _ => none,false,none,none,false,none⟩

def Process.put (p : Process) (fd : Nat) (d : Option Descriptor) : Process :=
  {p with descriptor := Function.update p.descriptor fd d}

def nonblock : UInt32 := 2048
def epollIn : UInt32 := 1
def epollEt : UInt32 := 0x80000000

/- -1 with EINTR, -1 with another errno, or the descriptors of the events. -/
inductive Waited where
  | interrupted
  | failed
  | events (fds : List Nat)
  deriving DecidableEq, Repr

inductive Call where
  | openRoot (path : Bytes)
  | close (fd : Nat)
  | socket
  | reuseAddress (fd : Nat)
  | bindPort (fd port : Nat)
  | listen (fd backlog : Nat)
  | getFlags (fd : Nat)
  | setFlags (fd : Nat) (flags : UInt32)
  | setupSignals
  | epollCreate
  | clearTable (config : ServerConfig)
  | poolCreate (count : Int)
  | setPool
  | epollAdd (epollFd fd : Nat) (events : UInt32)
  | startTime
  | running
  | epollWait (epollFd : Nat)
  | accept (epollFd listenFd : Nat)
  | dispatch (epollFd fd : Nat)
  | time
  | checkTimeout (epollFd : Nat)
  | poolDestroy
  | cleanup

/- none and false are -1 or NULL. -/
abbrev Answer : Call → Type
  | .openRoot _ | .socket | .epollCreate => Option Nat
  | .reuseAddress _ | .bindPort _ _ | .listen _ _ | .setFlags _ _ | .poolCreate _ | .epollAdd _ _ _ | .running => Bool
  | .getFlags _ => Option UInt32
  | .startTime | .time => Int
  | .epollWait _ => Waited
  | _ => Unit

def standing (p : Process) (main : MainPc → Prop) : Prop := ∃ v, p.serving = some v ∧ main v.state.main

/- The descriptors of the loop: epoll watches a listening socket that does not block. -/
def Watching (p : Process) (epollFd listenFd : Nat) : Prop :=
  p.descriptor epollFd = some (.epoll (some listenFd)) ∧
  ∃ s, p.descriptor listenFd = some (.socket s) ∧ s.listening = true ∧ s.flags &&& nonblock ≠ 0

def Ready (p : Process) : Call → Prop
  | .openRoot _ | .socket | .setupSignals | .epollCreate => p.serving = none
  -- a descriptor is closed once, and never under a server that runs
  | .close fd => p.descriptor fd ≠ none ∧ ∀ v, p.serving = some v → v.state.main = .stopped
  | .reuseAddress fd => ∃ s, p.descriptor fd = some (.socket s) ∧ s.port = none
  | .bindPort fd port => (∃ s, p.descriptor fd = some (.socket s) ∧ s.reuse = true ∧ s.port = none) ∧
      0 < port ∧ port ≤ 65535
  | .listen fd _ => ∃ s, p.descriptor fd = some (.socket s) ∧ s.port ≠ none ∧ s.listening = false
  | .getFlags fd | .setFlags fd _ => ∃ s, p.descriptor fd = some (.socket s)
  | .clearTable config => p.serving = none ∧ p.config = none ∧ Main.Accepted config
  | .poolCreate count => p.pool = none ∧ 0 < count
  | .setPool => p.pool ≠ none
  | .epollAdd epollFd fd _ => p.descriptor epollFd = some (.epoll none) ∧
      ∃ s, p.descriptor fd = some (.socket s) ∧ s.listening = true ∧ s.flags &&& nonblock ≠ 0
  -- events may come from here on
  | .startTime => p.serving = none ∧ p.signals = true ∧ p.handed = true ∧
      (∃ config count, p.config = some config ∧ p.pool = some count ∧ count.toNat = threadCount config) ∧
      ∃ epollFd listenFd, Watching p epollFd listenFd
  | .running => p.signals = true
  | .epollWait epollFd => (∃ listenFd, Watching p epollFd listenFd) ∧ standing p (· = .wait)
  | .accept epollFd listenFd => Watching p epollFd listenFd ∧ standing p (fun pc => ∃ rest, pc = .batch (.incoming::rest))
  | .dispatch epollFd fd => (∃ listenFd, Watching p epollFd listenFd) ∧ p.pool ≠ none ∧
      standing p (fun pc => ∃ n rest, pc = .batch (.ready n::rest) ∧ n.fd = fd)
  | .time => standing p (· = .batch [])
  | .checkTimeout epollFd => (∃ listenFd, Watching p epollFd listenFd) ∧ standing p (fun pc => ∃ since, pc = .checking since)
  | .poolDestroy => p.pool ≠ none ∧ standing p (· = .wait)
  -- without a lock, so after the workers
  | .cleanup => p.pool = none ∧ ∃ v, p.serving = some v ∧ v.state.main = .draining ∧ v.state.queue = [] ∧
      ∀ w ∈ v.state.workers, w = .idle

def background : Action → Bool
  | .tick _ | .worker _ _ => true
  | _ => false

/- The parts of server_run and epoll_handler.c that a call covers. -/
def waits : Action → Bool
  | .epollWait _ => true
  | _ => false

def accepts : Action → Bool
  | .acceptEvent | .accept _ | .reject | .prepare | .insert | .register | .registerFails | .acceptEnds => true
  | _ => false

def dispatches : Action → Bool
  | .dispatch | .dispatchFails => true
  | _ => false

def checks : Action → Bool
  | .readClock | .lock | .scan => true
  | _ => false

def stops : Action → Bool
  | .stop => true
  | _ => false

def cleans : Action → Bool
  | .cleanup => true
  | _ => false

def Goes (config : ServerConfig) (own : Nat → Bool) (mine : Action → Bool) (s t : State) : Prop :=
  ∃ as, (∀ a ∈ as, background a = true ∨ mine a = true) ∧ run (server config own) s as = some t

def moved (p : Process) (mine : Action → Bool) (ends : State → State → Prop) (q : Process) : Prop :=
  ∃ config v t, p.config = some config ∧ p.serving = some v ∧ Goes config v.own mine v.state t ∧ ends v.state t ∧
    q = {p with serving := some ⟨v.own,t⟩}

def eventFd (listenFd : Nat) : Event → Nat
  | .incoming => listenFd
  | .ready n => n.fd

def opensAs (p : Process) (d : Descriptor) (answer : Option Nat) (q : Process) : Prop :=
  match answer with
  | none => q = p
  | some fd => p.descriptor fd = none ∧ q = p.put fd (some d)

def changes (p : Process) (fd : Nat) (change : Socket → Socket) (answer : Bool) (q : Process) : Prop :=
  ∃ s, p.descriptor fd = some (.socket s) ∧ q = if answer then p.put fd (some (.socket (change s))) else p

/- Where a call of the main thread ends: after one event of the batch; at the head of the loop; behind
it with all workers at rest; behind epoll_handler_cleanup. -/
def anywhere (_ _ : State) : Prop := True
def handled (s t : State) : Prop := ∃ event rest, s.main = .batch (event::rest) ∧ t.main = .batch rest
def rejoined (_ t : State) : Prop := t.main = .wait
def drained (_ t : State) : Prop := t.main = .draining ∧ t.queue = [] ∧ ∀ w ∈ t.workers, w = .idle
def ceased (_ t : State) : Prop := t.main = .stopped

/- Where the server begins, with the workers of the pool. -/
def begins (config : ServerConfig) (count now : Int) : State :=
  {initial config now with workers := List.replicate count.toNat .idle}

def waited (p : Process) (epollFd : Nat) (answer : Waited) (q : Process) : Prop :=
  match answer with
  | .interrupted | .failed => moved p (fun _ => false) anywhere q
  | .events fds => ∃ listenFd, p.descriptor epollFd = some (.epoll (some listenFd)) ∧
      moved p waits (fun _ t => ∃ events, t.main = .batch events ∧ fds = events.map (eventFd listenFd)) q

def Answers (p : Process) : (c : Call) → Answer c → Process → Prop
  | .openRoot _,answer,q => opensAs p .directory answer q
  | .close fd,_,q => q = p.put fd none
  | .socket,answer,q => ∃ flags, opensAs p (.socket ⟨false,none,false,flags⟩) answer q
  | .reuseAddress fd,answer,q => changes p fd (fun s => {s with reuse := true}) answer q
  | .bindPort fd port,answer,q => changes p fd (fun s => {s with port := some port}) answer q
  | .listen fd _,answer,q => changes p fd (fun s => {s with listening := true}) answer q
  | .getFlags fd,answer,q => ∃ s, p.descriptor fd = some (.socket s) ∧ (answer = none ∨ answer = some s.flags) ∧ q = p
  | .setFlags fd flags,answer,q => changes p fd (fun s => {s with flags := flags}) answer q
  | .setupSignals,_,q => q = {p with signals := true}
  | .epollCreate,answer,q => opensAs p (.epoll none) answer q
  | .clearTable config,_,q => q = {p with config := some config}
  | .poolCreate count,answer,q => q = if answer then {p with pool := some count} else p
  | .setPool,_,q => q = {p with handed := true}
  | .epollAdd epollFd fd _,answer,q => q = if answer then p.put epollFd (some (.epoll (some fd))) else p
  | .startTime,now,q => ∃ config count, p.config = some config ∧ p.pool = some count ∧
      q = {p with serving := some ⟨fun fd => (p.descriptor fd).isSome,begins config count now⟩}
  | .running,_,q => q = p
  | .epollWait epollFd,answer,q => waited p epollFd answer q
  | .accept _ _,_,q => moved p accepts handled q
  | .dispatch _ _,_,q => moved p dispatches handled q
  | .time,now,q => ∃ config v u t, p.config = some config ∧ p.serving = some v ∧
      Goes config v.own (fun _ => false) v.state u ∧ now = u.clock ∧
      Server.step config v.own u .batchEnds = some t ∧ q = {p with serving := some ⟨v.own,t⟩}
  | .checkTimeout _,_,q => moved p checks rejoined q
  | .poolDestroy,_,q => moved {p with pool := none} stops drained q
  | .cleanup,_,q => moved p cleans ceased q

def process : Kernel Call Answer Process := ⟨Ready,Answers⟩

abbrev Program := Calls.Program Call Answer

def openRoot (path : Bytes) : Program (Option Nat) := .ask (Call.openRoot path)
def close (fd : Nat) : Program Unit := .ask (Call.close fd)
def socket : Program (Option Nat) := .ask Call.socket
def reuseAddress (fd : Nat) : Program Bool := .ask (Call.reuseAddress fd)
def bindPort (fd port : Nat) : Program Bool := .ask (Call.bindPort fd port)
def listen (fd backlog : Nat) : Program Bool := .ask (Call.listen fd backlog)
def getFlags (fd : Nat) : Program (Option UInt32) := .ask (Call.getFlags fd)
def setFlags (fd : Nat) (flags : UInt32) : Program Bool := .ask (Call.setFlags fd flags)
def setupSignals : Program Unit := .ask Call.setupSignals
def epollCreate : Program (Option Nat) := .ask Call.epollCreate
def clearTable (config : ServerConfig) : Program Unit := .ask (Call.clearTable config)
def threadPoolCreate (count : Int) : Program Bool := .ask (Call.poolCreate count)
def epollHandlerSetPool : Program Unit := .ask Call.setPool
def epollAddFd (epollFd fd : Nat) (events : UInt32) : Program Bool := .ask (Call.epollAdd epollFd fd events)
def startTime : Program Int := .ask Call.startTime
def running : Program Bool := .ask Call.running
def epollWait (epollFd : Nat) : Program Waited := .ask (Call.epollWait epollFd)
def epollHandlerAccept (epollFd listenFd : Nat) : Program Unit := .ask (Call.accept epollFd listenFd)
def epollHandlerDispatch (epollFd fd : Nat) : Program Unit := .ask (Call.dispatch epollFd fd)
def time : Program Int := .ask Call.time
def epollHandlerCheckTimeout (epollFd : Nat) : Program Unit := .ask (Call.checkTimeout epollFd)
def threadPoolDestroy : Program Unit := .ask Call.poolDestroy
def epollHandlerCleanup : Program Unit := .ask Call.cleanup

def setNonblocking (fd : Nat) : Program Bool := do
  match ← getFlags fd with
  | none => return false
  | some flags => setFlags fd (flags ||| nonblock)

def serverInit (config : ServerConfig) : Program (Option Nat) := do
  match ← socket with
  | none => return none
  | some listenFd =>
    if !(← reuseAddress listenFd) then
      close listenFd
      return none
    if !(← bindPort listenFd config.port) then
      close listenFd
      return none
    if !(← listen listenFd 128) then
      close listenFd
      return none
    return some listenFd

-- It has no failing path, but server_run asks.
def epollHandlerInit (config : ServerConfig) : Program Int := do
  clearTable config
  return 0

def serveEvents (epollFd listenFd : Nat) : List Nat → Program Unit
  | [] => return ()
  | fd::fds => do
    if fd = listenFd then epollHandlerAccept epollFd listenFd
    else epollHandlerDispatch epollFd fd
    serveEvents epollFd listenFd fds

/- The main loop for as many turns as are given; false where it goes on after them. -/
def serveLoop (epollFd listenFd : Nat) : Nat → Int → Program Bool
  | 0,_ => return false
  | turns+1,lastTimeoutCheck => do
    if !(← running) then return true
    match ← epollWait epollFd with
    | .interrupted => serveLoop epollFd listenFd turns lastTimeoutCheck
    | .failed => return true
    | .events fds =>
      serveEvents epollFd listenFd fds
      let now ← time
      if now - lastTimeoutCheck ≥ 1 then
        epollHandlerCheckTimeout epollFd
        serveLoop epollFd listenFd turns now
      else serveLoop epollFd listenFd turns lastTimeoutCheck

def serverRun (listenFd : Nat) (config : ServerConfig) (turns : Nat) : Program Bool := do
  if !(← setNonblocking listenFd) then
    close listenFd
    return true
  setupSignals
  match ← epollCreate with
  | none =>
    close listenFd
    return true
  | some epollFd =>
    if (← epollHandlerInit config) = -1 then
      close epollFd
      close listenFd
      return true
    let threadCount := if config.threadCount > 0 then config.threadCount else defaultThreadCount
    if !(← threadPoolCreate threadCount) then
      close epollFd
      close listenFd
      return true
    epollHandlerSetPool
    if !(← epollAddFd epollFd listenFd (epollIn ||| epollEt)) then
      close epollFd
      close listenFd
      return true
    let lastTimeoutCheck ← startTime
    if !(← serveLoop epollFd listenFd turns lastTimeoutCheck) then return false
    threadPoolDestroy
    epollHandlerCleanup
    close epollFd
    close listenFd
    return true

/- none where the main loop takes more turns. -/
def main (argv : List Bytes) (turns : Nat) : Program (Option Int) := do
  match Main.run argv with
  | .error status => return some status
  | .ok config =>
    match ← openRoot (cstr config.webRoot) with
    | none => return some 1
    | some dirFd =>
      close dirFd
      match ← serverInit config with
      | none => return some 1
      | some listenFd =>
        if !(← serverRun listenFd config turns) then return none
        return some 0

end EpollHttpServer.MainThread
