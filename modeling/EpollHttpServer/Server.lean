import EpollHttpServer.Worker
import EpollHttpServer.Lib.Runs
import Mathlib.Logic.Function.Basic

/-! server_run, epoll_handler.c and the thread pool as one system of interleaved steps. The
main thread, the workers, the kernel's descriptors and epoll set, and the clock take one step
at a time; a step under connections_mutex needs the mutex free. Connections are numbered in
the order of accept, and events and tasks carry, unseen by the code, the number of the
connection that was registered when the event arose. -/
namespace EpollHttpServer.Server
open CString FileSystem Worker Runs

abbrev ConnId := Nat

/- An event or a task: the code keeps the descriptor only. -/
structure Notice where
  fd : Nat
  origin : ConnId
  deriving DecidableEq, Repr

inductive Event where
  | incoming
  | ready (n : Notice)
  deriving DecidableEq, Repr

inductive MainPc where
  | wait
  | batch (events : List Event)
  | accepting (rest : List Event)
  | accepted (n : Notice) (rest : List Event)
  | prepared (n : Notice) (rest : List Event)
  | inserted (n : Notice) (rest : List Event)
  | checking (since : Int)
  | locking (since now : Int)
  | scanning (since now : Int) (slot : Nat)
  | draining
  | stopped
  deriving DecidableEq, Repr

/- Where worker_process_request stands after the lookup: in_use set; last_active set;
in_use cleared before epoll_modify_fd; before the lock of the last branch, to keep or to
close; descriptor closed and slot not yet cleared. -/
inductive Stage where
  | marked | running | rearming | keeping | closing | closed
  deriving DecidableEq, Repr

inductive WorkerPc where
  | idle
  | taken (n : Notice)
  | holding (stage : Stage) (n : Notice) (id : ConnId)
  deriving DecidableEq, Repr

/- When a connection was accepted, its last event delivered, its last response completed. -/
structure Moments where
  accepted : Int
  delivered : Int
  completed : Int
  deriving DecidableEq, Repr

structure State where
  clock : Int
  connections : Nat → Option ConnId
  heap : ConnId → ClientConnection
  opened : Nat → Option ConnId
  registered : Nat → Option ConnId
  armed : List Notice
  queue : List Notice
  workers : List WorkerPc
  main : MainPc
  lastTimeoutCheck : Int
  next : ConnId
  moments : ConnId → Moments

def threadCount (config : ServerConfig) : Nat :=
  if config.threadCount > 0 then config.threadCount.toNat else defaultThreadCount.toNat

def initial (config : ServerConfig) (start : Int) : State :=
  { clock := start
    connections := fun _ => none
    heap := fun _ => acceptedConnection 0 start
    opened := fun _ => none
    registered := fun _ => none
    armed := []
    queue := []
    workers := List.replicate (threadCount config) .idle
    main := .wait
    lastTimeoutCheck := start
    next := 0
    moments := fun _ => ⟨start,start,start⟩ }

def WorkerPc.closedFd : WorkerPc → Option Nat
  | .holding .closed n _ => some n.fd
  | _ => none

def MainPc.locked : MainPc → Bool
  | .scanning _ _ _ => true
  | _ => false

/- connections_mutex spans several steps in the scan and in the close of a worker only. -/
def MutexFree (s : State) : Prop := s.main.locked = false ∧ ∀ p ∈ s.workers, p.closedFd = none

instance (s) : Decidable (MutexFree s) := by unfold MutexFree; infer_instance

-- epoll_remove_fd and close.
def closeFd (s : State) (fd : Nat) : State :=
  { s with
    registered := Function.update s.registered fd none
    armed := s.armed.filter (fun n => n.fd ≠ fd)
    opened := Function.update s.opened fd none }

def vacate (s : State) (fd : Nat) : State := {s with connections := Function.update s.connections fd none}

-- epoll_handler_close by the main thread, which alone accepts.
def epollHandlerClose (s : State) (fd : Nat) : State :=
  match s.connections fd with
  | none => s
  | some _ => vacate (closeFd s fd) fd

-- MOD fails on a descriptor that is not registered.
def rearmed (registered : Nat → Option ConnId) (armed : List Notice) (fd : Nat) : List Notice :=
  match registered fd with
  | none => armed
  | some id => if armed.any (fun n => n.fd = fd) then armed else armed ++ [⟨fd,id⟩]

def epollModifyFd (s : State) (fd : Nat) : State := {s with armed := rearmed s.registered s.armed fd}

-- epoll_handler_cleanup closes the descriptor that each record names.
def recordNames (s : State) (fd : Nat) : Bool :=
  (List.range maxEvents).any (fun i => (s.connections i).any (fun id => (s.heap id).fd = fd))

def cleanedUp (s : State) (fd : Nat) : Option ConnId :=
  match recordNames s fd with
  | true => none
  | false => s.opened fd

def setWorker (s : State) (w : Nat) (p : WorkerPc) : State := {s with workers := s.workers.set w p}

def setConn (s : State) (id : ConnId) (c : ClientConnection) : State :=
  {s with heap := Function.update s.heap id c}

def readyNotices (events : List Event) : List Notice :=
  events.filterMap (fun e => match e with | .incoming => none | .ready n => some n)

def deliverMoments (s : State) (ns : List Notice) : ConnId → Moments :=
  fun id => if ns.any (fun n => n.origin = id) then {s.moments id with delivered := s.clock} else s.moments id

/- The steps of a worker thread. -/
inductive Turn where
  | dequeue
  | lookup
  | stamp
  | serve (env : Environment) (world : World)
  | rearm
  | keep
  | close
  | vacate

inductive Action where
  | tick (seconds : Nat)
  | epollWait (events : List Event)
  | dispatch
  | dispatchFails
  | acceptEvent
  | accept (fd : Nat)
  | reject
  | prepare
  | insert
  | register
  | registerFails
  | acceptEnds
  | batchEnds
  | readClock
  | lock
  | scan
  | stop
  | cleanup
  | worker (w : Nat) (turn : Turn)

section
variable (config : ServerConfig) (own : Nat → Bool)

def epollWait (s : State) (events : List Event) : Option State :=
  match s.main with
  | .wait =>
    if events.Nodup ∧ events.length ≤ maxEvents ∧ (∀ n ∈ readyNotices events, n ∈ s.armed) then
      some {s with
        main := .batch events
        armed := s.armed.diff (readyNotices events)
        moments := deliverMoments s (readyNotices events)}
    else none
  | _ => none

def dispatch (s : State) : Option State :=
  match s.main with
  | .batch (.ready n::rest) => some {s with main := .batch rest, queue := s.queue ++ [n]}
  | _ => none

def dispatchFails (s : State) : Option State :=
  match s.main with
  | .batch (.ready n::rest) =>
    if MutexFree s then some {epollHandlerClose s n.fd with main := .batch rest} else none
  | _ => none

def accept (s : State) (fd : Nat) : Option State :=
  match s.main with
  | .accepting rest =>
    if s.opened fd = none ∧ own fd = false then
      some {s with
        main := .accepted ⟨fd,s.next⟩ rest
        opened := Function.update s.opened fd (some s.next)
        moments := Function.update s.moments s.next ⟨s.clock,s.clock,s.clock⟩
        next := s.next + 1}
    else none
  | _ => none

-- set_nonblocking or malloc failed, or the descriptor has no slot.
def reject (s : State) : Option State :=
  match s.main with
  | .accepted n rest => some {s with main := .accepting rest, opened := Function.update s.opened n.fd none}
  | _ => none

def prepare (s : State) : Option State :=
  match s.main with
  | .accepted n rest =>
    if n.fd < maxEvents then
      some {setConn s n.origin (acceptedConnection n.fd s.clock) with main := .prepared n rest}
    else none
  | _ => none

def insert (s : State) : Option State :=
  match s.main with
  | .prepared n rest =>
    if MutexFree s then
      some {s with main := .inserted n rest, connections := Function.update s.connections n.fd (some n.origin)}
    else none
  | _ => none

-- ADD fails on a descriptor that a worker has closed in the meantime.
def register (s : State) : Option State :=
  match s.main with
  | .inserted n rest =>
    if s.opened n.fd ≠ none then
      some {s with
        main := .accepting rest
        registered := Function.update s.registered n.fd (some n.origin)
        armed := s.armed ++ [n]}
    else none
  | _ => none

def registerFails (s : State) : Option State :=
  match s.main with
  | .inserted n rest =>
    if MutexFree s then some {vacate (closeFd s n.fd) n.fd with main := .accepting rest} else none
  | _ => none

def scan (s : State) : Option State :=
  match s.main with
  | .scanning since now slot =>
    if slot < maxEvents then
      match s.connections slot with
      | none => some {s with main := .scanning since now (slot+1)}
      | some id =>
        if (s.heap id).inUse = false ∧ now - (s.heap id).lastActive > connectionTimeout then
          some {epollHandlerClose s slot with main := .scanning since now (slot+1)}
        else some {s with main := .scanning since now (slot+1)}
    else some {s with main := .wait, lastTimeoutCheck := since}
  | _ => none

/- The worker's part between last_active and the last branch. What the last branch writes under
the mutex is not yet seen: in_use stays set unless the request is incomplete. -/
def endingStage : Ending → Stage
  | .waiting => .rearming
  | .kept => .keeping
  | .closed => .closing

def serveConn (s : State) (w : Nat) (n : Notice) (id : ConnId) (e : Exchange) : State :=
  { s with
    heap := Function.update s.heap id {e.conn with inUse := e.ending ≠ .waiting}
    moments := Function.update s.moments id
      (if e.ending = .waiting then s.moments id else {s.moments id with completed := s.clock})
    workers := s.workers.set w (.holding (endingStage e.ending) n id) }

def workerMove (s : State) (w : Nat) : WorkerPc → Turn → Option State
  | .idle,.dequeue => match s.queue with
    | [] => none
    | n::queue => some {setWorker s w (.taken n) with queue := queue}
  | .taken n,.lookup =>
    if MutexFree s then match s.connections n.fd with
      | none => some (setWorker s w .idle)
      | some id => some (setWorker (setConn s id {s.heap id with inUse := true}) w (.holding .marked n id))
    else none
  | .holding .marked n id,.stamp =>
    some (setWorker (setConn s id {s.heap id with lastActive := s.clock}) w (.holding .running n id))
  | .holding .running n id,.serve env world =>
    some (serveConn s w n id (Worker.serve env config world (s.heap id)))
  | .holding .rearming n _,.rearm => some (setWorker (epollModifyFd s n.fd) w .idle)
  | .holding .keeping n id,.keep =>
    if MutexFree s then
      some (setWorker (epollModifyFd (setConn s id {s.heap id with inUse := false}) n.fd) w .idle)
    else none
  | .holding .closing n id,.close =>
    if MutexFree s then match s.connections n.fd with
      | none => some (setWorker s w .idle)
      | some _ => some (setWorker (closeFd s n.fd) w (.holding .closed n id))
    else none
  | .holding .closed n _,.vacate => some (setWorker (vacate s n.fd) w .idle)
  | _,_ => none

def workerStep (s : State) (w : Nat) (turn : Turn) : Option State :=
  match s.workers[w]? with
  | none => none
  | some p => workerMove config s w p turn

def step (s : State) : Action → Option State
  | .tick seconds => some {s with clock := s.clock + seconds}
  | .epollWait events => epollWait s events
  | .dispatch => dispatch s
  | .dispatchFails => dispatchFails s
  | .acceptEvent => match s.main with
    | .batch (.incoming::rest) => some {s with main := .accepting rest}
    | _ => none
  | .accept fd => accept own s fd
  | .reject => reject s
  | .prepare => prepare s
  | .insert => insert s
  | .register => register s
  | .registerFails => registerFails s
  | .acceptEnds => match s.main with
    | .accepting rest => some {s with main := .batch rest}
    | _ => none
  | .batchEnds => match s.main with
    | .batch [] =>
      if s.clock - s.lastTimeoutCheck ≥ 1 then some {s with main := .checking s.clock}
      else some {s with main := .wait}
    | _ => none
  | .readClock => match s.main with
    | .checking since => some {s with main := .locking since s.clock}
    | _ => none
  | .lock => match s.main with
    | .locking since now => if MutexFree s then some {s with main := .scanning since now 0} else none
    | _ => none
  | .scan => scan s
  | .stop => match s.main with
    | .wait => some {s with main := .draining}
    | _ => none
  | .cleanup => match s.main with
    | .draining =>
      if s.queue = [] ∧ (∀ p ∈ s.workers, p = .idle) then
        some {s with
          main := .stopped, armed := [], connections := fun _ => none, opened := cleanedUp s
          registered := fun _ => none}
      else none
    | _ => none
  | .worker w turn => workerStep config s w turn

def server : System State Action where
  start := fun s => ∃ now, s = initial config now
  step := step config own

theorem initialReach (allowed) (now : Int) : Reach (server config own) allowed (initial config now) := .start ⟨now,rfl⟩

end

/- Moves of the main thread that change nothing but where it stands. -/
inductive Quiet (s : State) : Action → MainPc → Prop where
  | acceptEvent {rest} (here : s.main = .batch (.incoming::rest)) : Quiet s .acceptEvent (.accepting rest)
  | acceptEnds {rest} (here : s.main = .accepting rest) : Quiet s .acceptEnds (.batch rest)
  | due (here : s.main = .batch []) : Quiet s .batchEnds (.checking s.clock)
  | early (here : s.main = .batch []) : Quiet s .batchEnds .wait
  | readClock {since} (here : s.main = .checking since) : Quiet s .readClock (.locking since s.clock)
  | lock {since now} (here : s.main = .locking since now) (free : MutexFree s) :
      Quiet s .lock (.scanning since now 0)
  | skip {since now slot} (here : s.main = .scanning since now slot) : Quiet s .scan (.scanning since now (slot+1))
  | stop (here : s.main = .wait) : Quiet s .stop .draining

/- What a step can do, guards included. -/
inductive Step (config : ServerConfig) (own : Nat → Bool) : State → Action → State → Prop where
  | tick {s} (seconds : Nat) : Step config own s (.tick seconds) {s with clock := s.clock + seconds}
  | quiet {s a pc} (move : Quiet s a pc) : Step config own s a {s with main := pc}
  | scanEnds {s since now slot} (here : s.main = .scanning since now slot) :
      Step config own s .scan {s with main := .wait, lastTimeoutCheck := since}
  | expire {s since now slot id} (here : s.main = .scanning since now slot) (small : slot < maxEvents)
      (listed : s.connections slot = some id)
      (unused : (s.heap id).inUse = false) (old : now - (s.heap id).lastActive > connectionTimeout) :
      Step config own s .scan {vacate (closeFd s slot) slot with main := .scanning since now (slot+1)}
  | epollWait {s events} (here : s.main = .wait) (distinct : events.Nodup)
      (ready : ∀ n ∈ readyNotices events, n ∈ s.armed) :
      Step config own s (.epollWait events) {s with
        main := .batch events
        armed := s.armed.diff (readyNotices events)
        moments := deliverMoments s (readyNotices events)}
  | dispatch {s n rest} (here : s.main = .batch (.ready n::rest)) :
      Step config own s .dispatch {s with main := .batch rest, queue := s.queue ++ [n]}
  | refused {s n rest} (here : s.main = .batch (.ready n::rest)) (free : MutexFree s)
      (unlisted : s.connections n.fd = none) :
      Step config own s .dispatchFails {s with main := .batch rest}
  | dispatchFails {s n rest id} (here : s.main = .batch (.ready n::rest)) (free : MutexFree s)
      (listed : s.connections n.fd = some id) :
      Step config own s .dispatchFails {vacate (closeFd s n.fd) n.fd with main := .batch rest}
  | accept {s rest fd} (here : s.main = .accepting rest) (closed : s.opened fd = none) (foreign : own fd = false) :
      Step config own s (.accept fd) {s with
        main := .accepted ⟨fd,s.next⟩ rest
        opened := Function.update s.opened fd (some s.next)
        moments := Function.update s.moments s.next ⟨s.clock,s.clock,s.clock⟩
        next := s.next + 1}
  | reject {s n rest} (here : s.main = .accepted n rest) :
      Step config own s .reject {s with main := .accepting rest, opened := Function.update s.opened n.fd none}
  | prepare {s n rest} (here : s.main = .accepted n rest) (small : n.fd < maxEvents) :
      Step config own s .prepare {setConn s n.origin (acceptedConnection n.fd s.clock) with main := .prepared n rest}
  | insert {s n rest} (here : s.main = .prepared n rest) (free : MutexFree s) :
      Step config own s .insert {s with
        main := .inserted n rest, connections := Function.update s.connections n.fd (some n.origin)}
  | register {s n rest} (here : s.main = .inserted n rest) (isOpen : s.opened n.fd ≠ none) :
      Step config own s .register {s with
        main := .accepting rest
        registered := Function.update s.registered n.fd (some n.origin)
        armed := s.armed ++ [n]}
  | registerFails {s n rest} (here : s.main = .inserted n rest) (free : MutexFree s) :
      Step config own s .registerFails {vacate (closeFd s n.fd) n.fd with main := .accepting rest}
  | cleanup {s} (here : s.main = .draining) (empty : s.queue = []) (idle : ∀ p ∈ s.workers, p = .idle) :
      Step config own s .cleanup {s with
        main := .stopped, armed := [], connections := fun _ => none, opened := cleanedUp s
        registered := fun _ => none}
  | dequeue {s w n queue} (here : s.workers[w]? = some .idle) (head : s.queue = n::queue) :
      Step config own s (.worker w .dequeue) {setWorker s w (.taken n) with queue := queue}
  | lookupNone {s w n} (here : s.workers[w]? = some (.taken n)) (free : MutexFree s)
      (unlisted : s.connections n.fd = none) :
      Step config own s (.worker w .lookup) (setWorker s w .idle)
  | lookup {s w n id} (here : s.workers[w]? = some (.taken n)) (free : MutexFree s)
      (listed : s.connections n.fd = some id) :
      Step config own s (.worker w .lookup) (setWorker (setConn s id {s.heap id with inUse := true}) w (.holding .marked n id))
  | stamp {s w n id} (here : s.workers[w]? = some (.holding .marked n id)) :
      Step config own s (.worker w .stamp)
        (setWorker (setConn s id {s.heap id with lastActive := s.clock}) w (.holding .running n id))
  | serve {s w n id env world} (here : s.workers[w]? = some (.holding .running n id)) :
      Step config own s (.worker w (.serve env world)) (serveConn s w n id (Worker.serve env config world (s.heap id)))
  | rearm {s w n id} (here : s.workers[w]? = some (.holding .rearming n id)) :
      Step config own s (.worker w .rearm) (setWorker (epollModifyFd s n.fd) w .idle)
  | keep {s w n id} (here : s.workers[w]? = some (.holding .keeping n id)) (free : MutexFree s) :
      Step config own s (.worker w .keep)
        (setWorker (epollModifyFd (setConn s id {s.heap id with inUse := false}) n.fd) w .idle)
  | closeNone {s w n id} (here : s.workers[w]? = some (.holding .closing n id)) (free : MutexFree s)
      (unlisted : s.connections n.fd = none) :
      Step config own s (.worker w .close) (setWorker s w .idle)
  | close {s w n id found} (here : s.workers[w]? = some (.holding .closing n id)) (free : MutexFree s)
      (listed : s.connections n.fd = some found) :
      Step config own s (.worker w .close) (setWorker (closeFd s n.fd) w (.holding .closed n id))
  | vacate {s w n id} (here : s.workers[w]? = some (.holding .closed n id)) :
      Step config own s (.worker w .vacate) (setWorker (vacate s n.fd) w .idle)

theorem workerSound {config s w p turn t} (own) (here : s.workers[w]? = some p)
    (made : workerMove config s w p turn = some t) : Step config own s (.worker w turn) t := by
  unfold workerMove at made
  split at made <;> try contradiction
  · split at made <;> try contradiction
    rename_i n queue head
    cases Option.some.inj made
    exact .dequeue here head
  · split at made <;> try contradiction
    rename_i free
    split at made
    · cases Option.some.inj made
      exact .lookupNone here free (by assumption)
    · cases Option.some.inj made
      exact .lookup here free (by assumption)
  · cases Option.some.inj made
    exact .stamp here
  · cases Option.some.inj made
    exact .serve here
  · cases Option.some.inj made
    exact .rearm here
  · split at made <;> try contradiction
    rename_i free
    cases Option.some.inj made
    exact .keep here free
  · split at made <;> try contradiction
    rename_i free
    split at made
    · cases Option.some.inj made
      exact .closeNone here free (by assumption)
    · cases Option.some.inj made
      exact .close here free (by assumption)
  · cases Option.some.inj made
    exact .vacate here

theorem stepSound {config own s a t} (made : step config own s a = some t) : Step config own s a t := by
  cases a with
  | tick seconds =>
    cases Option.some.inj made
    exact .tick seconds
  | epollWait events =>
    simp only [step, epollWait] at made
    split at made <;> try contradiction
    split at made <;> try contradiction
    rename_i here guards
    cases Option.some.inj made
    exact .epollWait here guards.1 guards.2.2
  | dispatch =>
    simp only [step, dispatch] at made
    split at made <;> try contradiction
    cases Option.some.inj made
    exact .dispatch (by assumption)
  | dispatchFails =>
    simp only [step, dispatchFails, epollHandlerClose] at made
    split at made <;> try contradiction
    split at made <;> try contradiction
    rename_i n rest here free
    cases Option.some.inj made
    cases listed : s.connections n.fd with
    | none => exact .refused here free listed
    | some id => exact .dispatchFails here free listed
  | acceptEvent =>
    simp only [step] at made
    split at made <;> try contradiction
    cases Option.some.inj made
    exact .quiet (.acceptEvent (by assumption))
  | accept fd =>
    simp only [step, accept] at made
    split at made <;> try contradiction
    split at made <;> try contradiction
    rename_i rest here guards
    cases Option.some.inj made
    exact .accept here guards.1 guards.2
  | reject =>
    simp only [step, reject] at made
    split at made <;> try contradiction
    cases Option.some.inj made
    exact .reject (by assumption)
  | prepare =>
    simp only [step, prepare] at made
    split at made <;> try contradiction
    split at made <;> try contradiction
    cases Option.some.inj made
    exact .prepare (by assumption) (by assumption)
  | insert =>
    simp only [step, insert] at made
    split at made <;> try contradiction
    split at made <;> try contradiction
    cases Option.some.inj made
    exact .insert (by assumption) (by assumption)
  | register =>
    simp only [step, register] at made
    split at made <;> try contradiction
    split at made <;> try contradiction
    cases Option.some.inj made
    exact .register (by assumption) (by assumption)
  | registerFails =>
    simp only [step, registerFails] at made
    split at made <;> try contradiction
    split at made <;> try contradiction
    cases Option.some.inj made
    exact .registerFails (by assumption) (by assumption)
  | acceptEnds =>
    simp only [step] at made
    split at made <;> try contradiction
    cases Option.some.inj made
    exact .quiet (.acceptEnds (by assumption))
  | batchEnds =>
    simp only [step] at made
    split at made <;> try contradiction
    split at made
    · cases Option.some.inj made
      exact .quiet (.due (by assumption))
    · cases Option.some.inj made
      exact .quiet (.early (by assumption))
  | readClock =>
    simp only [step] at made
    split at made <;> try contradiction
    cases Option.some.inj made
    exact .quiet (.readClock (by assumption))
  | lock =>
    simp only [step] at made
    split at made <;> try contradiction
    split at made <;> try contradiction
    cases Option.some.inj made
    exact .quiet (.lock (by assumption) (by assumption))
  | scan =>
    simp only [step, scan, epollHandlerClose] at made
    split at made <;> try contradiction
    rename_i since now slot here
    split at made
    · rename_i small
      split at made
      · cases Option.some.inj made
        exact .quiet (.skip here)
      · rename_i id listed
        split at made
        · rename_i guards
          cases Option.some.inj made
          exact .expire here small listed guards.1 guards.2
        · cases Option.some.inj made
          exact .quiet (.skip here)
    · cases Option.some.inj made
      exact .scanEnds here
  | stop =>
    simp only [step] at made
    split at made <;> try contradiction
    cases Option.some.inj made
    exact .quiet (.stop (by assumption))
  | cleanup =>
    simp only [step] at made
    split at made <;> try contradiction
    split at made <;> try contradiction
    rename_i here guards
    cases Option.some.inj made
    exact .cleanup here guards.1 guards.2
  | worker w turn =>
    simp only [step, workerStep] at made
    split at made <;> try contradiction
    exact workerSound own (by assumption) made

/- Where a step takes the main thread. -/
inductive Moves (own : Nat → Bool) (s : State) : MainPc → Prop where
  | quiet {a pc} (move : Quiet s a pc) : Moves own s pc
  | scanEnds {since now slot} (here : s.main = .scanning since now slot) : Moves own s .wait
  | expire {since now slot} (here : s.main = .scanning since now slot) : Moves own s (.scanning since now (slot+1))
  | epollWait {events} (here : s.main = .wait) : Moves own s (.batch events)
  | dispatched {n rest} (here : s.main = .batch (.ready n::rest)) : Moves own s (.batch rest)
  | accept {rest fd} (here : s.main = .accepting rest) (foreign : own fd = false) :
      Moves own s (.accepted ⟨fd,s.next⟩ rest)
  | reject {n rest} (here : s.main = .accepted n rest) : Moves own s (.accepting rest)
  | prepare {n rest} (here : s.main = .accepted n rest) (small : n.fd < maxEvents) : Moves own s (.prepared n rest)
  | insert {n rest} (here : s.main = .prepared n rest) : Moves own s (.inserted n rest)
  | registered {n rest} (here : s.main = .inserted n rest) : Moves own s (.accepting rest)
  | cleanup (here : s.main = .draining) : Moves own s .stopped

theorem stepMoves {config own s a t} (made : Step config own s a t) : t.main = s.main ∨ Moves own s t.main := by
  cases made with
  | quiet move => exact Or.inr (.quiet move)
  | scanEnds here => exact Or.inr (.scanEnds here)
  | expire here small listed unused old => exact Or.inr (.expire here)
  | epollWait here distinct ready => exact Or.inr (.epollWait here)
  | dispatch here => exact Or.inr (.dispatched here)
  | refused here free unlisted => exact Or.inr (.dispatched here)
  | dispatchFails here free listed => exact Or.inr (.dispatched here)
  | accept here closed foreign => exact Or.inr (.accept here foreign)
  | reject here => exact Or.inr (.reject here)
  | prepare here small => exact Or.inr (.prepare here small)
  | insert here free => exact Or.inr (.insert here)
  | register here isOpen => exact Or.inr (.registered here)
  | registerFails here free => exact Or.inr (.registered here)
  | cleanup here empty idle => exact Or.inr (.cleanup here)
  | serve here => exact Or.inl rfl
  | rearm here => exact Or.inl rfl
  | keep here free => exact Or.inl rfl
  | _ => exact Or.inl rfl

/- epoll_handler_get_connection_count. -/
def connectionCount (s : State) : Nat := (List.range maxEvents).countP (fun i => (s.connections i).isSome)

end EpollHttpServer.Server
