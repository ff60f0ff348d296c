import EpollHttpServer.ConnectionMemory
import EpollHttpServer.Draining
import EpollHttpServer.Lib.Runs

/-! The counters of http_request.c while all workers use them. A call to http_handle_request reads and
writes server_start_time and total_requests, the clock and the connection table step by step, between the
steps of the server; what else it does is its own. -/
namespace EpollHttpServer.Counters
open CString HttpParser HttpResponse HttpRequest FileSystem Framing Worker Server Ownership Sessions ConnectionMemory
open Runs Moments Simulation

/- Where a call stands: the test of server_start_time and what it leads to; the atomic add; for /status the
count of connections, the two operands of uptime in either order and the atomic load; then nothing shared. -/
inductive CallPc where
  | entering
  | timing
  | storing (now : Int64)
  | adding
  | counting
  | measuring (connections : Int32)
  | timed (connections : Int32) (now : Int64)
  | started (connections : Int32) (start : Int64)
  | loading (connections : Int32) (now start : Int64)
  | answering (connections : Int32) (now start total : Int64)
  | handling
  deriving DecidableEq, Repr

structure Call where
  env : Environment
  request : HttpRequest
  pc : CallPc

structure State where
  server : Server.State
  serverStartTime : Int64
  totalRequests : Int64
  calls : Nat → Option Call

inductive Turn where
  | check | readClock | store | add | count | readStart | load
  deriving DecidableEq, Repr

inductive Action where
  | server (a : Server.Action)
  | enter (w : Nat) (env : Environment)
  | call (w : Nat) (turn : Turn)
  | leave (w : Nat) (world : World)

/- The request that a wake-up hands to http_handle_request, if it gets that far. -/
def handed (env : Environment) (conn : ClientConnection) : Option HttpRequest :=
  match readLoop conn env.reads with
  | (true,_) => none
  | (false,conn) =>
    if (isRequestComplete conn.readBuf conn.readPos 0).1 then httpParseRequest env.malloc conn.readBuf conn.readPos
    else none

def handedTo (s : Server.State) (w : Nat) (env : Environment) : Option HttpRequest :=
  match s.workers[w]? with
  | some (.holding .running _ id) => handed env (s.heap id)
  | _ => none

def asksStatus (request : HttpRequest) : Bool :=
  strcmpEq request.method (ascii "GET") && strcmpEq request.uri (ascii "/status")

def epollHandlerGetConnectionCount (s : Server.State) : Option Int32 :=
  if MutexFree s then some (Int32.ofNat (connectionCount s)) else none

/- A step of a call. No lock and no atomic access guards server_start_time, which is read and written as
one word. -/
def callMove (s : State) (request : HttpRequest) (pc : CallPc) (turn : Turn) : Option (State × CallPc) :=
  match turn with
  | .check => match pc with
    | .entering => some (s,if s.serverStartTime = 0 then .timing else .adding)
    | _ => none
  | .readClock => match pc with
    | .timing => some (s,.storing (Int64.ofInt s.server.clock))
    | .measuring connections => some (s,.timed connections (Int64.ofInt s.server.clock))
    | .started connections start => some (s,.loading connections (Int64.ofInt s.server.clock) start)
    | _ => none
  | .store => match pc with
    | .storing now => some ({s with serverStartTime := now},.adding)
    | _ => none
  | .add => match pc with
    | .adding =>
      some ({s with totalRequests := s.totalRequests + 1},if asksStatus request then .counting else .handling)
    | _ => none
  | .count => match pc with
    | .counting => (epollHandlerGetConnectionCount s.server).map (fun connections => (s,.measuring connections))
    | _ => none
  | .readStart => match pc with
    | .measuring connections => some (s,.started connections s.serverStartTime)
    | .timed connections now => some (s,.loading connections now s.serverStartTime)
    | _ => none
  | .load => match pc with
    | .loading connections now start => some (s,.answering connections now start s.totalRequests)
    | _ => none

/- The world as the rest of the call has seen it. -/
def seen (world : World) : CallPc → Option World
  | .answering connections now start total => some {world with
      serverStartTime := start, firstTime := start, totalRequests := total - 1, others := 0
      connections := connections, statusTime := now}
  | .handling => some world
  | _ => none

/- A worker inside http_handle_request is not at its connection, and calls it where the request is parsed. -/
def uncalled (s : State) : Server.Action → Bool
  | .worker w (.serve env _) => (s.calls w).isNone && (handedTo s.server w env).isNone
  | .worker w _ => (s.calls w).isNone
  | _ => true

def setCall (s : State) (w : Nat) (call : Option Call) : State := {s with calls := Function.update s.calls w call}

section
variable (config : ServerConfig) (own : Nat → Bool)

/- What a call that is about to return does to the connection. -/
def leaves (s : State) (w : Nat) (world : World) : Option Server.Action := do
  let call ← s.calls w
  let world ← seen world call.pc
  some (.worker w (.serve call.env world))

def step (s : State) : Action → Option State
  | .server a =>
    if uncalled s a = true then (Server.step config own s.server a).map (fun t => {s with server := t}) else none
  | .enter w env =>
    if (s.calls w).isNone = true then
      (handedTo s.server w env).map (fun request => setCall s w (some ⟨env,request,.entering⟩))
    else none
  | .call w turn => do
    let call ← s.calls w
    let (t,pc) ← callMove s call.request call.pc turn
    some (setCall t w (some {call with pc := pc}))
  | .leave w world => do
    let a ← leaves s w world
    let t ← Server.step config own s.server a
    some (setCall {s with server := t} w none)

def initial (now : Int) : State := ⟨Server.initial config now,0,0,fun _ => none⟩

def counted : System State Action where
  start := fun s => ∃ now, s = initial config now
  step := step config own

end

/- As the server itself, without the counters. -/
def view (s : State) : Action → Option Server.Action
  | .server a => some a
  | .leave w world => leaves s w world
  | _ => none

def Fresh (s : State) : Action → Prop
  | .server a => FreshAccept s.server a
  | _ => True

instance (s : State) (a : Action) : Decidable (Fresh s a) := by
  unfold Fresh
  split <;> infer_instance

/- Until the call of worker w returns. -/
def During (w : Nat) (s : State) (a : Action) : Prop := Fresh s a ∧ ∀ world, a ≠ .leave w world

def Action.adds : Action → Bool
  | .call _ .add => true
  | _ => false

def Action.stores : Action → Bool
  | .call _ .store => true
  | _ => false

inductive Moved (s : State) (request : HttpRequest) : CallPc → Turn → State → CallPc → Prop where
  | race (unset : s.serverStartTime = 0) : Moved s request .entering .check s .timing
  | set (known : s.serverStartTime ≠ 0) : Moved s request .entering .check s .adding
  | time : Moved s request .timing .readClock s (.storing (Int64.ofInt s.server.clock))
  | store {now} : Moved s request (.storing now) .store {s with serverStartTime := now} .adding
  | addStatus (asks : asksStatus request = true) :
      Moved s request .adding .add {s with totalRequests := s.totalRequests + 1} .counting
  | addOther (asks : asksStatus request = false) :
      Moved s request .adding .add {s with totalRequests := s.totalRequests + 1} .handling
  | count {connections} (told : epollHandlerGetConnectionCount s.server = some connections) :
      Moved s request .counting .count s (.measuring connections)
  | now {connections} : Moved s request (.measuring connections) .readClock s
      (.timed connections (Int64.ofInt s.server.clock))
  | start {connections} : Moved s request (.measuring connections) .readStart s
      (.started connections s.serverStartTime)
  | startAfter {connections now} : Moved s request (.timed connections now) .readStart s
      (.loading connections now s.serverStartTime)
  | nowAfter {connections start} : Moved s request (.started connections start) .readClock s
      (.loading connections (Int64.ofInt s.server.clock) start)
  | load {connections now start} : Moved s request (.loading connections now start) .load s
      (.answering connections now start s.totalRequests)

inductive Step (config : ServerConfig) (own : Nat → Bool) (s : State) : Action → State → Prop where
  | server {a t} (outside : uncalled s a = true) (made : Server.step config own s.server a = some t) :
      Step config own s (.server a) {s with server := t}
  | enter {w env request} (free : s.calls w = none) (parsed : handedTo s.server w env = some request) :
      Step config own s (.enter w env) (setCall s w (some ⟨env,request,.entering⟩))
  | call {w turn call t pc} (here : s.calls w = some call) (moved : Moved s call.request call.pc turn t pc) :
      Step config own s (.call w turn) (setCall t w (some {call with pc := pc}))
  | leave {w world call known t} (here : s.calls w = some call) (told : seen world call.pc = some known)
      (made : Server.step config own s.server (.worker w (.serve call.env known)) = some t) :
      Step config own s (.leave w world) (setCall {s with server := t} w none)

section
variable {config : ServerConfig} {own : Nat → Bool} {s t u : State} {a : Action}

theorem callSound {request pc turn next} (made : callMove s request pc turn = some (t,next)) :
    Moved s request pc turn t next := by
  unfold callMove at made
  split at made <;> split at made <;> try contradiction
  · cases Option.some.inj made
    by_cases unset : s.serverStartTime = 0
    · rw [if_pos unset]
      exact .race unset
    · rw [if_neg unset]
      exact .set unset
  · cases Option.some.inj made
    exact .time
  · cases Option.some.inj made
    exact .now
  · cases Option.some.inj made
    exact .nowAfter
  · cases Option.some.inj made
    exact .store
  · cases Option.some.inj made
    cases asks : asksStatus request with
    | true => exact .addStatus asks
    | false => exact .addOther asks
  · obtain ⟨connections,told,same⟩ := Option.map_eq_some_iff.mp made
    cases same
    exact .count told
  · cases Option.some.inj made
    exact .start
  · cases Option.some.inj made
    exact .startAfter
  · cases Option.some.inj made
    exact .load

theorem countSource {s : Server.State} {connections} (told : epollHandlerGetConnectionCount s = some connections) :
    MutexFree s ∧ connections = Int32.ofNat (connectionCount s) := by
  unfold epollHandlerGetConnectionCount at told
  by_cases free : MutexFree s
  · rw [if_pos free] at told
    exact ⟨free,(Option.some.inj told).symm⟩
  · rw [if_neg free] at told
    contradiction

theorem leavesSource {w world b} (told : leaves s w world = some b) :
    ∃ call known, s.calls w = some call ∧ seen world call.pc = some known ∧ b = .worker w (.serve call.env known) := by
  obtain ⟨call,here,told⟩ := Option.bind_eq_some_iff.mp told
  obtain ⟨known,told,same⟩ := Option.bind_eq_some_iff.mp told
  exact ⟨call,known,here,told,(Option.some.inj same).symm⟩

theorem stepSound (made : step config own s a = some t) : Step config own s a t := by
  cases a with
  | server a =>
    simp only [step] at made
    split at made <;> try contradiction
    obtain ⟨v,moved,rfl⟩ := Option.map_eq_some_iff.mp made
    exact .server (by assumption) moved
  | enter w env =>
    simp only [step] at made
    split at made <;> try contradiction
    obtain ⟨request,parsed,rfl⟩ := Option.map_eq_some_iff.mp made
    exact .enter (Option.isNone_iff_eq_none.mp (by assumption)) parsed
  | call w turn =>
    obtain ⟨call,here,made⟩ := Option.bind_eq_some_iff.mp made
    obtain ⟨⟨v,pc⟩,moved,same⟩ := Option.bind_eq_some_iff.mp made
    cases Option.some.inj same
    exact .call here (callSound moved)
  | leave w world =>
    obtain ⟨b,told,made⟩ := Option.bind_eq_some_iff.mp made
    obtain ⟨v,moved,same⟩ := Option.bind_eq_some_iff.mp made
    cases Option.some.inj same
    obtain ⟨call,known,here,shown,rfl⟩ := leavesSource told
    exact .leave here shown moved

/- A step of a call is none of the server. -/
theorem movedServer {request pc turn next} (moved : Moved s request pc turn t next) :
    t.server = s.server ∧ t.calls = s.calls := by
  cases moved <;> exact ⟨rfl,rfl⟩

/- Every run with the counters is a run of the server in which the calls are done at once. -/
theorem countedRefines (config : ServerConfig) (own : Nat → Bool) :
    Refines (counted config own) Fresh (server config own) view (fun s u => u = s.server) := by
  constructor
  · rintro s ⟨now,rfl⟩
    exact ⟨_,⟨now,rfl⟩,rfl⟩
  · rintro s a t _ rfl _ made
    cases stepSound made with
    | server outside moved => exact ⟨_,moved,rfl⟩
    | enter free parsed => exact ⟨_,rfl,rfl⟩
    | call here moved => exact ⟨_,rfl,(movedServer moved).1.symm⟩
    | @leave w world call known v here told moved =>
      have shown : view s (.leave w world) = some (.worker w (.serve call.env known)) := by
        simp only [view, leaves, here, Option.bind_eq_bind, Option.bind_some, told]
      refine ⟨v,?_,rfl⟩
      rw [shown]
      exact moved

theorem viewFresh (fresh : Fresh s a) : ∀ b ∈ view s a, FreshAccept s.server b := by
  intro b shown
  cases a with
  | server a =>
    cases Option.some.inj shown
    exact fresh
  | enter w env => contradiction
  | call w turn => contradiction
  | leave w world =>
    obtain ⟨call,known,_,_,rfl⟩ := leavesSource shown
    exact fun fd wrong => Server.Action.noConfusion wrong

theorem reachServer (reached : Reach (counted config own) Fresh s) : Reach (server config own) FreshAccept s.server := by
  obtain ⟨u,before,rfl⟩ := reachAllowed (countedRefines config own)
    (fun _ _ _ same fresh b shown => by rw [same]; exact viewFresh fresh b shown) reached
  exact before

/- While a worker is at its connection, no one else writes the record and no one else moves the worker. -/
theorem runningStays {s t : Server.State} {a : Server.Action} (known : Known own s) {w : Nat} {n id}
    (here : s.workers[w]? = some (.holding .running n id)) (other : ∀ turn, a ≠ .worker w turn)
    (made : Server.Step config own s a t) : t.workers[w]? = some (.holding .running n id) ∧ t.heap id = s.heap id := by
  have inv := known.tracked
  obtain ⟨u,same⟩ := known.mirrored
  have mine : id ∈ workerHolders (.holding .running n id) := by
    rw [inv.pointers _ _ _ (List.mem_of_getElem? here)]
    exact List.mem_singleton_self _
  have apart : ∀ (v : Nat) p q, v ≠ w → s.workers[v]? = some p →
      (s.workers.set v q)[w]? = some (.holding .running n id) := by
    intro v p q differ there
    rw [List.getElem?_set_ne differ]
    exact here
  have writes : ∀ (v : Nat) stage m c x, v ≠ w → s.workers[v]? = some (.holding stage m c) →
      Function.update s.heap c x id = s.heap id := by
    intro v stage m c x differ there
    refine Function.update_of_ne ?_ _ _
    rintro rfl
    exact (trackedExclusive inv).apart v w _ _ id differ there here rfl rfl
  have differs : ∀ {v turn}, a = .worker v turn → v ≠ w := by
    rintro v turn same rfl
    exact other turn same
  cases made with
  | prepare main small =>
    refine ⟨here,Function.update_of_ne ?_ _ _⟩
    rintro rfl
    obtain ⟨x,there,_⟩ := same.held w _ n _ here
    rw [same.accepted _ _ main] at there
    contradiction
  | dequeue there head => exact ⟨apart _ _ _ (differs rfl) there,rfl⟩
  | lookupNone there free missing => exact ⟨apart _ _ _ (differs rfl) there,rfl⟩
  | lookup there free listed =>
    refine ⟨apart _ _ _ (differs rfl) there,Function.update_of_ne ?_ _ _⟩
    rintro rfl
    refine holdersApart inv (differs rfl) there here ?_ mine
    rw [lookupOrigin inv there free listed]
    exact List.mem_singleton_self _
  | stamp there => exact ⟨apart _ _ _ (differs rfl) there,writes _ _ _ _ _ (differs rfl) there⟩
  | serve there => exact ⟨apart _ _ _ (differs rfl) there,writes _ _ _ _ _ (differs rfl) there⟩
  | rearm there => exact ⟨apart _ _ _ (differs rfl) there,rfl⟩
  | keep there free => exact ⟨apart _ _ _ (differs rfl) there,writes _ _ _ _ _ (differs rfl) there⟩
  | closeNone there free missing => exact ⟨apart _ _ _ (differs rfl) there,rfl⟩
  | close there free listed => exact ⟨apart _ _ _ (differs rfl) there,rfl⟩
  | vacate there => exact ⟨apart _ _ _ (differs rfl) there,rfl⟩
  | _ => exact ⟨here,rfl⟩

theorem handedSource {s : Server.State} {w env request} (parsed : handedTo s w env = some request) :
    ∃ n id, s.workers[w]? = some (.holding .running n id) ∧ handed env (s.heap id) = some request := by
  unfold handedTo at parsed
  split at parsed <;> try contradiction
  exact ⟨_,_,by assumption,parsed⟩

theorem handedSame {s t : Server.State} {w : Nat} {n id} (before : s.workers[w]? = some (.holding .running n id))
    (after : t.workers[w]? = some (.holding .running n id)) (heap : t.heap id = s.heap id) (env) :
    handedTo t w env = handedTo s w env := by
  simp only [handedTo, before, after, heap]

theorem handedStays {s t : Server.State} {a : Server.Action} (known : Known own s) {w env request}
    (parsed : handedTo s w env = some request) (other : ∀ turn, a ≠ .worker w turn)
    (made : Server.Step config own s a t) : handedTo t w env = some request := by
  obtain ⟨n,id,here,_⟩ := handedSource parsed
  obtain ⟨there,heap⟩ := runningStays known here other made
  rw [handedSame here there heap]
  exact parsed

/- Only a call for /status goes past the add. -/
def Routed (request : HttpRequest) : CallPc → Prop
  | .counting => asksStatus request = true
  | .measuring _ => asksStatus request = true
  | .timed _ _ => asksStatus request = true
  | .started _ _ => asksStatus request = true
  | .loading _ _ _ => asksStatus request = true
  | .answering _ _ _ _ => asksStatus request = true
  | .handling => asksStatus request = false
  | _ => True

theorem movedRouted {request pc turn next} (moved : Moved s request pc turn t next) (routed : Routed request pc) :
    Routed request next := by
  cases moved with
  | addStatus asks => exact asks
  | addOther asks => exact asks
  | count told => exact routed
  | now => exact routed
  | start => exact routed
  | startAfter => exact routed
  | nowAfter => exact routed
  | load => exact routed
  | _ => trivial

/- Each call in progress is that of a worker at its connection, on the request that the record still gives. -/
structure Engaged (own : Nat → Bool) (s : State) : Prop where
  known : Known own s.server
  seats : Seated s.server
  inside : ∀ w call, s.calls w = some call → handedTo s.server w call.env = some call.request
  routed : ∀ w call, s.calls w = some call → Routed call.request call.pc

theorem setSource {w v : Nat} {new : Option Call} {call} (there : (setCall s w new).calls v = some call) :
    (v = w ∧ new = some call) ∨ (v ≠ w ∧ s.calls v = some call) := by
  dsimp only [setCall] at there
  by_cases same : v = w
  · subst same
    rw [Function.update_self] at there
    exact Or.inl ⟨rfl,there⟩
  · rw [Function.update_of_ne same] at there
    exact Or.inr ⟨same,there⟩

theorem outsideWorker {w turn} (outside : uncalled s (.worker w turn) = true) : s.calls w = none := by
  cases turn with
  | serve env world => exact Option.isNone_iff_eq_none.mp (Bool.and_eq_true_iff.mp outside).1
  | _ => exact Option.isNone_iff_eq_none.mp outside

theorem engagedStep (engaged : Engaged own s) (fresh : Fresh s a) (made : Step config own s a t) : Engaged own t := by
  cases made with
  | @server b v outside moved =>
    have done := Server.stepSound moved
    refine ⟨knownStep engaged.known done fresh,seatedStep engaged.known engaged.seats done,fun w call there => ?_,
      engaged.routed⟩
    refine handedStays engaged.known (engaged.inside w call there) ?_ done
    rintro turn rfl
    rw [outsideWorker outside] at there
    contradiction
  | enter free parsed =>
    refine ⟨engaged.known,engaged.seats,fun v call there => ?_,fun v call there => ?_⟩
    · rcases setSource there with ⟨rfl,new⟩ | ⟨_,old⟩
      · cases Option.some.inj new
        exact parsed
      · exact engaged.inside v call old
    · rcases setSource there with ⟨rfl,new⟩ | ⟨_,old⟩
      · cases Option.some.inj new
        trivial
      · exact engaged.routed v call old
  | @call w turn mine v pc here moved =>
    obtain ⟨server,calls⟩ := movedServer moved
    refine ⟨?_,?_,fun k call there => ?_,fun k call there => ?_⟩
    · exact server ▸ engaged.known
    · exact server ▸ engaged.seats
    · have old : handedTo s.server k call.env = some call.request := by
        rcases setSource there with ⟨rfl,new⟩ | ⟨_,old⟩
        · cases Option.some.inj new
          exact engaged.inside _ mine here
        · rw [calls] at old
          exact engaged.inside k call old
      exact server ▸ old
    · rcases setSource there with ⟨rfl,new⟩ | ⟨_,old⟩
      · cases Option.some.inj new
        exact movedRouted moved (engaged.routed _ mine here)
      · rw [calls] at old
        exact engaged.routed k call old
  | @leave w world call shown v here told moved =>
    have done := Server.stepSound moved
    have fresh : FreshAccept s.server (.worker w (.serve call.env shown)) :=
      fun fd wrong => Server.Action.noConfusion wrong
    refine ⟨knownStep engaged.known done fresh,seatedStep engaged.known engaged.seats done,fun k other there => ?_,
      fun k other there => ?_⟩
    · rcases setSource there with ⟨rfl,gone⟩ | ⟨differ,old⟩
      · contradiction
      · refine handedStays engaged.known (engaged.inside k other old) ?_ done
        rintro turn same
        cases same
        exact differ rfl
    · rcases setSource there with ⟨rfl,gone⟩ | ⟨_,old⟩
      · contradiction
      · exact engaged.routed k other old

theorem initialEngaged (config : ServerConfig) (own : Nat → Bool) (now : Int) : Engaged own (initial config now) := by
  have safe := initialSafe config own now
  exact ⟨safe.known,safe.seats,fun _ _ there => absurd there (by simp [initial]),
    fun _ _ there => absurd there (by simp [initial])⟩

def adds (as : List Action) : Nat := as.countP Action.adds

theorem addsSnoc (as : List Action) (a) : adds (as ++ [a]) = adds as + if Action.adds a then 1 else 0 := by
  simp only [adds, List.countP_append, List.countP_singleton]

/- The atomic add is the only write to total_requests. -/
theorem movedTotal {request pc turn next} (moved : Moved s request pc turn t next) (w : Nat) :
    t.totalRequests = s.totalRequests + Int64.ofNat (if Action.adds (.call w turn) then 1 else 0) := by
  cases moved <;> simp [Action.adds]

theorem totalStep (made : Step config own s a t) :
    t.totalRequests = s.totalRequests + Int64.ofNat (if Action.adds a then 1 else 0) := by
  cases made with
  | call here moved => exact movedTotal moved _
  | _ => simp [setCall, Action.adds]

theorem totalCounts {as : List Action} (ran : run (counted config own) s as = some t) :
    t.totalRequests = s.totalRequests + Int64.ofNat (adds as) := by
  refine runHistory (J := fun as t => t.totalRequests = s.totalRequests + Int64.ofNat (adds as)) ?_ ?_
    (followsAll (m := counted config own) s as) ran
  · simp [adds]
  · intro as a t u _ sofar _ made
    rw [totalStep (stepSound made), sofar, addsSnoc, Int64.ofNat_add, Int64.add_assoc]

/- The call has seen a start time only where there was one. -/
def Dated (start : Int64) : CallPc → Prop
  | .entering => True
  | .timing => True
  | .storing now => now ≠ 0
  | .started _ read => read ≠ 0
  | .loading _ _ read => read ≠ 0
  | .answering _ _ read _ => read ≠ 0
  | _ => start ≠ 0

def AllDated (s : State) : Prop := ∀ w call, s.calls w = some call → Dated s.serverStartTime call.pc

theorem datedLater {start later : Int64} {pc} (dated : Dated start pc) (stays : start ≠ 0 → later ≠ 0) :
    Dated later pc := by
  cases pc with
  | entering => trivial
  | timing => trivial
  | storing now => exact dated
  | started connections read => exact dated
  | loading connections now read => exact dated
  | answering connections now read total => exact dated
  | _ => exact stays dated

theorem timeRange {z : Int} (positive : 0 ≤ z) : -2^63 ≤ z := le_trans (by norm_num) positive

theorem clockDate {z : Int} (positive : 0 < z) (soon : z < 2^63) : Int64.ofInt z ≠ 0 := by
  intro wrong
  have same := congrArg Int64.toInt wrong
  rw [Int64.toInt_ofInt_of_le (timeRange (le_of_lt positive)) soon] at same
  exact absurd same (ne_of_gt positive)

theorem movedDated {request pc turn next} (moved : Moved s request pc turn t next) (dated : Dated s.serverStartTime pc)
    (positive : 0 < s.server.clock) (soon : s.server.clock < 2^63) :
    Dated t.serverStartTime next ∧ (s.serverStartTime ≠ 0 → t.serverStartTime ≠ 0) := by
  cases moved with
  | race unset => exact ⟨trivial,id⟩
  | set known => exact ⟨known,id⟩
  | time => exact ⟨clockDate positive soon,id⟩
  | store => exact ⟨dated,fun _ => dated⟩
  | _ => exact ⟨dated,id⟩

theorem datedStep (dated : AllDated s) (positive : 0 < s.server.clock) (soon : s.server.clock < 2^63)
    (made : Step config own s a t) : AllDated t := by
  cases made with
  | server outside moved => exact dated
  | enter free parsed =>
    intro v call there
    rcases setSource there with ⟨_,new⟩ | ⟨_,old⟩
    · cases Option.some.inj new
      trivial
    · exact dated v call old
  | @call w turn mine x pc here moved =>
    obtain ⟨done,stays⟩ := movedDated moved (dated w mine here) positive soon
    intro v call there
    rcases setSource there with ⟨_,new⟩ | ⟨_,old⟩
    · cases Option.some.inj new
      exact done
    · rw [(movedServer moved).2] at old
      exact datedLater (dated v call old) stays
  | leave here told moved =>
    intro v call there
    rcases setSource there with ⟨_,gone⟩ | ⟨_,old⟩
    · contradiction
    · exact dated v call old

theorem clockStep (made : Step config own s a t) : s.server.clock ≤ t.server.clock := by
  cases made with
  | server outside moved => exact IdleTimeout.clockGrows (Server.stepSound moved)
  | enter free parsed => exact le_refl _
  | call here moved => exact le_of_eq (congrArg Server.State.clock (movedServer moved).1).symm
  | leave here told moved => exact IdleTimeout.clockGrows (Server.stepSound moved)

theorem clockRun {as : List Action} (ran : run (counted config own) s as = some t) : s.server.clock ≤ t.server.clock :=
  runInvariant (I := fun x => s.server.clock ≤ x.server.clock)
    (fun _ _ _ holds _ made => le_trans holds (clockStep (stepSound made))) (le_refl _)
    (followsAll (m := counted config own) s as) ran

theorem crewStep (made : Step config own s a t) : t.server.workers.length = s.server.workers.length := by
  cases made with
  | server outside moved => exact Draining.crewStays (Server.stepSound moved)
  | enter free parsed => rfl
  | call here moved => exact congrArg (fun x => x.workers.length) (movedServer moved).1
  | leave here told moved => exact Draining.crewStays (Server.stepSound moved)

/- While the clock is positive and fits in a time_t. -/
def Timely (s : State) : Prop := 0 < s.server.clock ∧ (s.server.clock < 2^63 → AllDated s)

theorem timelyStep (timely : Timely s) (made : Step config own s a t) : Timely t := by
  have grows := clockStep made
  refine ⟨lt_of_lt_of_le timely.1 grows,fun soon => ?_⟩
  have earlier := lt_of_le_of_lt grows soon
  exact datedStep (timely.2 earlier) timely.1 earlier made

theorem timelyRun {as : List Action} (timely : Timely s) (ran : run (counted config own) s as = some t) : Timely t :=
  runInvariant (I := Timely) (fun _ _ _ holds _ made => timelyStep holds (stepSound made)) timely
    (followsAll (m := counted config own) s as) ran

theorem engagedRun {as : List Action} (engaged : Engaged own s) (follows : Follows (counted config own) Fresh s as)
    (ran : run (counted config own) s as = some t) : Engaged own t :=
  runInvariant (I := Engaged own) (fun _ _ _ holds fresh made => engagedStep holds fresh (stepSound made)) engaged follows
    ran

theorem initialTimely {now : Int} (positive : 0 < now) : Timely (initial config now) :=
  ⟨positive,fun _ _ _ there => absurd there (by simp [initial])⟩

end

end EpollHttpServer.Counters
