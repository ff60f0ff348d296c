import EpollHttpServer.TaskQueue
import EpollHttpServer.Draining
import EpollHttpServer.Lib.Simulation

/-! The server on its thread pool. What the server takes for one list and a crew of workers is a chain
of nodes under a lock and threads that sleep, wake and are joined; a task starts where a thread takes a
node and ends where the function it carries returns. -/
namespace EpollHttpServer.PooledServer
open LinkedQueue Runs Simulation

/- Every task is worker_process_request, so its argument says it all. -/
abbrev Pool := ThreadPool.State Unit Server.Notice

/- The server's own queue is in no memory here. -/
structure State where
  server : Server.State
  pool : Pool

inductive Action where
  | server (a : Server.Action)
  | pool (a : ThreadPool.Action Unit Server.Notice)
  | cleanup

def inTask (pool : Pool) (w : Nat) : Bool :=
  match pool.workers[w]? with
  | some (.running _) => true
  | _ => false

/- Time passes at any moment. A worker goes on with its request inside the function that its thread was
given; the main thread goes on where it is in no call to the pool. -/
def Turned (pool : Pool) : Server.Action → Prop
  | .tick _ => True
  | .worker _ .dequeue => False
  | .worker w _ => inTask pool w = true
  | .dispatch => False
  | .stop => False
  | .cleanup => False
  | _ => pool.control = .ready

instance (pool : Pool) (a : Server.Action) : Decidable (Turned pool a) := by
  unfold Turned
  split <;> infer_instance

def taken (s : Server.State) (w : Nat) (n : Server.Notice) : Server.State :=
  {Server.setWorker s w (.taken n) with queue := s.queue.tail}

/- thread_pool_add_task is called for the next event of the batch. -/
def handsOver (main : Server.MainPc) (n : Server.Notice) : Bool :=
  match main with
  | .batch (.ready m::_) => m = n
  | _ => false

/- The calls to the pool, and the returns from worker_process_request, as the server sees them. -/
def follow (s : State) : ThreadPool.Action Unit Server.Notice → Option Server.State
  | .add _ n _ => if handsOver s.server.main n = true then some s.server else none
  | .link => Server.dispatch s.server
  | .destroy => match s.server.main with
    | .wait => some {s.server with main := .draining}
    | _ => none
  | .worker w .leave =>
    if s.pool.shutdown = true ∧ s.pool.queue.head = none then some s.server
    else (s.pool.queue.head.bind s.pool.heap).map (fun node => taken s.server w node.value.arg)
  | .worker w .run => if s.server.workers[w]? = some .idle then some s.server else none
  | _ => some s.server

/- epoll_handler_cleanup, after thread_pool_destroy. -/
def cleanup (s : State) : Option State :=
  if s.server.main = .draining ∧ s.pool.control = .destroyed then
    some {s with server := {s.server with
      main := .stopped, armed := [], connections := fun _ => none, opened := Server.cleanedUp s.server
      registered := fun _ => none}}
  else none

section
variable (config : ServerConfig) (own : Nat → Bool)

def step (s : State) : Action → Option State
  | .server a =>
    if Turned s.pool a then (Server.step config own s.server a).map (fun t => {s with server := t}) else none
  | .pool a => match ThreadPool.step (Server.threadCount config) s.pool a with
    | none => none
    | some pool => (follow s a).map (fun t => ⟨t,pool⟩)
  | .cleanup => cleanup s

def pooled : System State Action where
  start := fun s => ∃ now, s = ⟨Server.initial config now,ThreadPool.initial⟩
  step := step config own

end

def poolView (_ : State) : Action → Option (ThreadPool.Action Unit Server.Notice)
  | .pool a => some a
  | _ => none

def serverView (s : State) : Action → Option Server.Action
  | .server a => some a
  | .pool .link => some .dispatch
  | .pool .destroy => some .stop
  | .pool (.worker w .leave) =>
    if s.pool.shutdown = true ∧ s.pool.queue.head = none then none else some (.worker w .dequeue)
  | .pool _ => none
  | .cleanup => some .cleanup

/- The node is a call with this notice. -/
def Carries (pool : Pool) (task : Nat) (n : Server.Notice) : Prop :=
  ∃ node, pool.heap task = some node ∧ node.value.arg = n

def waiting (pool : Pool) : List Server.Notice := (pool.added.drop pool.dequeued.length).map ThreadPool.Call.arg

/- A worker of the server that is not idle is a thread inside the function, with the notice of its node. -/
def Employed (s : State) : Prop := ∀ (w : Nat) p n, s.server.workers[w]? = some p →
  Ownership.WorkerPc.task p = some n → ∃ task, s.pool.workers[w]? = some (.running task) ∧ Carries s.pool task n

structure Coupled (config : ServerConfig) (s : State) : Prop where
  tasks : ∃ cells, TaskQueue.Queued s.pool cells
  crew : s.server.workers.length = Server.threadCount config
  bounded : s.pool.workers.length ≤ Server.threadCount config
  queue : s.server.queue = waiting s.pool
  employed : Employed s
  handing : ∀ task ∈ TaskQueue.ControlPc.task s.pool.control,
    ∃ n rest, s.server.main = .batch (.ready n::rest) ∧ Carries s.pool task n
  stopped : s.server.main = .stopped → s.pool.control = .destroyed

/- What a step of the pool is for the server, guards included. -/
inductive Followed (s : State) : ThreadPool.Action Unit Server.Notice → Server.State → Prop where
  | quiet {a} (unseen : serverView s (.pool a) = none) (follows : follow s a = some s.server) : Followed s a s.server
  | link {n rest} (main : s.server.main = .batch (.ready n::rest)) :
      Followed s .link {s.server with main := .batch rest, queue := s.server.queue ++ [n]}
  | destroy (main : s.server.main = .wait) : Followed s .destroy {s.server with main := .draining}
  | leave {w task node} (more : ¬ (s.pool.shutdown = true ∧ s.pool.queue.head = none))
      (head : s.pool.queue.head = some task) (there : s.pool.heap task = some node) :
      Followed s (.worker w .leave) (taken s.server w node.value.arg)

section
variable {config : ServerConfig} {own : Nat → Bool} {s t : State} {pool : Pool} {a : ThreadPool.Action Unit Server.Notice}
  {threadCounts : Int}

theorem followSound {u} (follows : follow s a = some u) : Followed s a u := by
  cases a with
  | add function n task =>
    simp only [follow] at follows
    split at follows <;> try contradiction
    rename_i guard
    cases Option.some.inj follows
    exact .quiet rfl (if_pos guard)
  | link =>
    simp only [follow, Server.dispatch] at follows
    split at follows <;> try contradiction
    cases Option.some.inj follows
    exact .link (by assumption)
  | destroy =>
    simp only [follow] at follows
    split at follows <;> try contradiction
    cases Option.some.inj follows
    exact .destroy (by assumption)
  | worker w turn =>
    cases turn with
    | leave =>
      simp only [follow] at follows
      split at follows
      · rename_i exits
        cases Option.some.inj follows
        exact .quiet (if_pos exits) (if_pos exits)
      · rename_i more
        obtain ⟨node,found,same⟩ := Option.map_eq_some_iff.mp follows
        obtain ⟨task,head,there⟩ := Option.bind_eq_some_iff.mp found
        cases same
        exact .leave more head there
    | run =>
      simp only [follow] at follows
      split at follows <;> try contradiction
      rename_i idle
      cases Option.some.inj follows
      exact .quiet rfl (if_pos idle)
    | _ =>
      cases Option.some.inj follows
      exact .quiet rfl rfl
  | _ =>
    cases Option.some.inj follows
    exact .quiet rfl rfl

/- A node says the same until it is freed. -/
theorem carriesKept (made : ThreadPool.Step threadCounts s.pool a pool) {task : Nat} {n}
    (carries : Carries s.pool task n) (still : pool.heap task ≠ none) : Carries pool task n := by
  obtain ⟨node,there,arg⟩ := carries
  cases made with
  | @add function n other here running fresh =>
    have apart : task ≠ other := by
      rintro rfl
      rw [fresh] at there
      contradiction
    exact ⟨node,(Function.update_of_ne apart _ _).trans there,arg⟩
  | @link other here =>
    have same := pushValue s.pool.heap s.pool.queue other task
    rw [there] at same
    obtain ⟨found,now,value⟩ := Option.map_eq_some_iff.mp same
    exact ⟨found,now,(congrArg ThreadPool.Call.arg value).trans arg⟩
  | @release other found here left =>
    have apart : task ≠ other := by
      rintro rfl
      exact still (Function.update_self _ _ _)
    exact ⟨node,(Function.update_of_ne apart _ _).trans there,arg⟩
  | @free w other here =>
    have apart : task ≠ other := by
      rintro rfl
      exact still (Function.update_self _ _ _)
    exact ⟨node,(Function.update_of_ne apart _ _).trans there,arg⟩
  | _ => exact ⟨node,there,arg⟩

theorem runningMoved {w v task : Nat} {p q} (here : s.pool.workers[w]? = some (.running task))
    (moves : s.pool.workers[v]? = some p) (other : p ≠ .running task) :
    (s.pool.workers.set v q)[w]? = some (.running task) := by
  have apart : v ≠ w := by
    rintro rfl
    rw [here] at moves
    exact other (Option.some.inj moves).symm
  rw [List.getElem?_set_ne apart]
  exact here

theorem runningAwakened {w task : Nat} (here : s.pool.workers[w]? = some (.running task)) :
    (s.pool.workers.map ThreadPool.awakened)[w]? = some (.running task) := by
  rw [List.getElem?_map, here]
  rfl

/- A thread is inside the function until it returns. -/
theorem runningKept (made : ThreadPool.Step threadCounts s.pool a pool) {w task : Nat}
    (here : s.pool.workers[w]? = some (.running task)) :
    pool.workers[w]? = some (.running task) ∨ a = .worker w .run := by
  cases made with
  | create ready more =>
    obtain ⟨bound,_⟩ := List.getElem?_eq_some_iff.mp here
    exact Or.inl ((List.getElem?_append_left bound).trans here)
  | signal ready waits => exact Or.inl (runningMoved here waits (by simp))
  | broadcastFailed ready => exact Or.inl (runningAwakened here)
  | broadcast ready => exact Or.inl (runningAwakened here)
  | enter there free => exact Or.inl (runningMoved here there (by simp))
  | reenter there free => exact Or.inl (runningMoved here there (by simp))
  | sleepy there empty running => exact Or.inl (runningMoved here there (by simp))
  | test there settled => exact Or.inl (runningMoved here there (by simp))
  | block there => exact Or.inl (runningMoved here there (by simp))
  | wake there => exact Or.inl (runningMoved here there (by simp))
  | exit there settled empty => exact Or.inl (runningMoved here there (by simp))
  | dequeue there popped => exact Or.inl (runningMoved here there (by simp))
  | @run v other node there found =>
    by_cases same : v = w
    · subst same
      exact Or.inr rfl
    · exact Or.inl ((List.getElem?_set_ne same).trans here)
  | free there => exact Or.inl (runningMoved here there (by simp))
  | _ => exact Or.inl here

/- A node on its way into the queue has just been filled, or was on its way before. -/
theorem handedBefore (made : ThreadPool.Step threadCounts s.pool a pool) {task : Nat}
    (member : task ∈ TaskQueue.ControlPc.task pool.control) : task ∈ TaskQueue.ControlPc.task s.pool.control ∨
      ∃ function n, a = .add (some function) n (some task) ∧ Carries pool task n := by
  cases made with
  | @add function n other here running fresh =>
    cases List.mem_singleton.mp member
    exact Or.inr ⟨function,n,rfl,_,Function.update_self _ _ _,rfl⟩
  | lock here free =>
    rw [here]
    exact Or.inl member
  | @joined failed i here all => cases failed <;> exact absurd member List.not_mem_nil
  | refused here => exact Or.inl member
  | create here more => exact Or.inl member
  | enter here free => exact Or.inl member
  | reenter here free => exact Or.inl member
  | sleepy here empty running => exact Or.inl member
  | test here settled => exact Or.inl member
  | block here => exact Or.inl member
  | wake here => exact Or.inl member
  | exit here settled empty => exact Or.inl member
  | dequeue here popped => exact Or.inl member
  | run here node => exact Or.inl member
  | free here => exact Or.inl member
  | _ => exact absurd member List.not_mem_nil

theorem destroyedStays (made : ThreadPool.Step threadCounts s.pool a pool) (gone : s.pool.control = .destroyed) :
    pool.control = .destroyed := by
  cases made with
  | refused here => exact gone
  | _ => first | exact gone | simp_all

theorem crewBounded (made : ThreadPool.Step threadCounts s.pool a pool) (bounded : s.pool.workers.length ≤ threadCounts) :
    pool.workers.length ≤ threadCounts := by
  cases made with
  | create here more =>
    rw [List.length_append, List.length_singleton]
    omega
  | _ => simpa [ThreadPool.setWorker] using bounded

/- The queue of the pool changes where the server sees a task come or go. -/
theorem waitingSame (made : ThreadPool.Step threadCounts s.pool a pool) (unseen : serverView s (.pool a) = none) :
    waiting pool = waiting s.pool := by
  cases made with
  | link here => contradiction
  | @dequeue w task queue here popped =>
    exfalso
    simp only [serverView] at unseen
    split at unseen <;> try contradiction
    rename_i empty
    rw [pop, empty.2] at popped
    contradiction
  | _ => rfl

theorem crewKept {cells} (queued : TaskQueue.Queued pool cells) {w task : Nat}
    (here : pool.workers[w]? = some (.running task)) : pool.heap task ≠ none :=
  queued.stored.kept task (TaskQueue.memUsed.mpr (Or.inr (Or.inl (List.mem_flatMap.mpr
    ⟨_,List.mem_of_getElem? here,List.mem_singleton_self task⟩))))

theorem handedKept {cells} (queued : TaskQueue.Queued pool cells) {task : Nat}
    (member : task ∈ TaskQueue.ControlPc.task pool.control) : pool.heap task ≠ none :=
  queued.stored.kept task (TaskQueue.memUsed.mpr (Or.inr (Or.inr member)))

theorem waitingValues {cells} (queued : TaskQueue.Queued pool cells) :
    waiting pool = (values cells).map ThreadPool.Call.arg := by
  rw [waiting, queued.stored.order, List.drop_left]

/- Whoever has work in the server then had it before, in a function that has not returned. -/
theorem employedKept {cells} (employed : Employed s) (queued : TaskQueue.Queued pool cells)
    (made : ThreadPool.Step threadCounts s.pool a pool) {w : Nat} {p n} (here : s.server.workers[w]? = some p)
    (has : Ownership.WorkerPc.task p = some n) (stays : a ≠ .worker w .run) :
    ∃ task, pool.workers[w]? = some (.running task) ∧ Carries pool task n := by
  obtain ⟨task,running,carries⟩ := employed w p n here has
  rcases runningKept made running with still | ends
  · exact ⟨task,still,carriesKept made carries (crewKept queued still)⟩
  · exact absurd ends stays

/- A step of the server that takes no task: nobody has work who had none. -/
theorem workBefore {u v : Server.State} {b} (made : Server.Step config own u b v) (other : ∀ w, b ≠ .worker w .dequeue)
    {w : Nat} {p n} (here : v.workers[w]? = some p) (has : Ownership.WorkerPc.task p = some n) :
    ∃ q, u.workers[w]? = some q ∧ Ownership.WorkerPc.task q = some n := by
  have moved : ∀ {i : Nat} {q r}, u.workers[i]? = some q → (u.workers.set i r)[w]? = some p →
      (Ownership.WorkerPc.task r = none ∨ Ownership.WorkerPc.task r = Ownership.WorkerPc.task q) →
      ∃ q, u.workers[w]? = some q ∧ Ownership.WorkerPc.task q = some n := by
    intro i q r old there same
    rcases Crew.setCases there with ⟨rfl,rfl⟩ | ⟨_,there⟩
    · rcases same with idle | same
      · rw [idle] at has
        contradiction
      · exact ⟨q,old,same.symm.trans has⟩
    · exact ⟨p,there,has⟩
  cases made with
  | dequeue old head => exact absurd rfl (other _)
  | lookupNone old free unlisted => exact moved old here (Or.inl rfl)
  | lookup old free listed => exact moved old here (Or.inr rfl)
  | stamp old => exact moved old here (Or.inr rfl)
  | serve old => exact moved old here (Or.inr rfl)
  | rearm old => exact moved old here (Or.inl rfl)
  | keep old free => exact moved old here (Or.inl rfl)
  | closeNone old free unlisted => exact moved old here (Or.inl rfl)
  | close old free listed => exact moved old here (Or.inr rfl)
  | vacate old => exact moved old here (Or.inl rfl)
  | _ => exact ⟨p,here,has⟩

theorem queueKept {u v : Server.State} {b} (made : Server.Step config own u b v) (other : ∀ w, b ≠ .worker w .dequeue)
    (different : b ≠ .dispatch) : v.queue = u.queue := by
  cases made with
  | dispatch here => exact absurd rfl different
  | dequeue here head => exact absurd rfl (other _)
  | _ => rfl

/- The main thread moves where it is in no call to the pool, and does not stop there. -/
theorem mainMoves {u v : Server.State} {b} (made : Server.Step config own u b v) (turned : Turned pool b) :
    v.main = u.main ∨ (pool.control = .ready ∧ v.main ≠ .stopped) := by
  cases made with
  | tick seconds => exact Or.inl rfl
  | @quiet b pc move => cases move <;> first | contradiction | exact Or.inr ⟨turned,by simp⟩
  | scanEnds here => exact Or.inr ⟨turned,by simp⟩
  | expire here small listed unused old => exact Or.inr ⟨turned,by simp⟩
  | epollWait here distinct ready => exact Or.inr ⟨turned,by simp⟩
  | dispatch here => contradiction
  | refused here free unlisted => exact Or.inr ⟨turned,by simp⟩
  | dispatchFails here free listed => exact Or.inr ⟨turned,by simp⟩
  | accept here closed foreign => exact Or.inr ⟨turned,by simp⟩
  | reject here => exact Or.inr ⟨turned,by simp⟩
  | prepare here small => exact Or.inr ⟨turned,by simp⟩
  | insert here free => exact Or.inr ⟨turned,by simp⟩
  | register here isOpen => exact Or.inr ⟨turned,by simp⟩
  | registerFails here free => exact Or.inr ⟨turned,by simp⟩
  | cleanup here empty idle => contradiction
  | serve here => exact Or.inl rfl
  | rearm here => exact Or.inl rfl
  | keep here free => exact Or.inl rfl
  | _ => exact Or.inl rfl

theorem turnedOther {b} (turned : Turned pool b) : (∀ w, b ≠ .worker w .dequeue) ∧ b ≠ .dispatch := by
  constructor
  · rintro w rfl
    exact turned
  · rintro rfl
    exact turned

theorem coupledServer {v : Server.State} {b} (coupled : Coupled config s) (turned : Turned s.pool b)
    (made : Server.Step config own s.server b v) : Coupled config {s with server := v} := by
  obtain ⟨other,different⟩ := turnedOther turned
  refine ⟨coupled.tasks,?_,coupled.bounded,?_,?_,?_,?_⟩
  · exact (Draining.crewStays made).trans coupled.crew
  · exact (queueKept made other different).trans coupled.queue
  · intro w p n here has
    obtain ⟨q,old,had⟩ := workBefore made other here has
    exact coupled.employed w q n old had
  · intro task member
    obtain ⟨n,rest,main,carries⟩ := coupled.handing task member
    rcases mainMoves made turned with same | ⟨ready,_⟩
    · exact ⟨n,rest,same.trans main,carries⟩
    · dsimp only at member
      rw [ready] at member
      exact absurd member List.not_mem_nil
  · intro main
    rcases mainMoves made turned with same | ⟨_,runs⟩
    · exact coupled.stopped (same.symm.trans main)
    · exact absurd main runs

theorem firstWaiting {cells} (queued : TaskQueue.Queued pool cells) {task : Nat} {node}
    (head : pool.queue.head = some task) (there : pool.heap task = some node) : ∃ rest, cells = (task,node.value)::rest := by
  cases cells with
  | nil =>
    have empty := (headEmpty queued.stored.queue).mpr rfl
    rw [empty] at head
    contradiction
  | cons first rest =>
    obtain ⟨other,call⟩ := first
    have chain := queued.stored.queue.chain
    rw [head] at chain
    cases chain with
    | cons found later =>
      rw [there] at found
      cases Option.some.inj found
      exact ⟨rest,rfl⟩

/- The thread that takes a node is idle in the server, and the notice of the node stands first in its queue. -/
theorem taskTaken (coupled : Coupled config s) {w task : Nat} {node} (leaves : s.pool.workers[w]? = some .leaving)
    (head : s.pool.queue.head = some task) (there : s.pool.heap task = some node) :
    s.server.workers[w]? = some .idle ∧ ∃ rest, s.server.queue = node.value.arg::rest := by
  constructor
  · obtain ⟨bound,_⟩ := List.getElem?_eq_some_iff.mp leaves
    have crewed : w < s.server.workers.length := by
      rw [coupled.crew]
      exact Nat.lt_of_lt_of_le bound coupled.bounded
    have here : s.server.workers[w]? = some s.server.workers[w] := List.getElem?_eq_getElem crewed
    cases has : Ownership.WorkerPc.task s.server.workers[w] with
    | none =>
      cases stands : s.server.workers[w] with
      | idle => rw [here, stands]
      | taken n =>
        rw [stands] at has
        contradiction
      | holding stage n id =>
        rw [stands] at has
        contradiction
    | some n =>
      obtain ⟨other,running,_⟩ := coupled.employed w _ n here has
      rw [leaves] at running
      cases Option.some.inj running
  · obtain ⟨cells,queued⟩ := coupled.tasks
    obtain ⟨rest,rfl⟩ := firstWaiting queued head there
    rw [coupled.queue, waitingValues queued]
    exact ⟨_,rfl⟩

theorem leavesAt {w : Nat} (made : ThreadPool.Step threadCounts s.pool (.worker w .leave) pool) :
    s.pool.workers[w]? = some .leaving := by
  cases made with
  | exit here settled empty => exact here
  | dequeue here popped => exact here

theorem poolMirrored (coupled : Coupled config s)
    (made : ThreadPool.Step (Server.threadCount config) s.pool a pool) {u} (followed : Followed s a u) :
    Mirrors (Server.server config own) s.server u (serverView s (.pool a)) := by
  cases followed with
  | quiet unseen follows =>
    rw [unseen]
    rfl
  | link main => simp only [serverView, Mirrors, Server.server, Server.step, Server.dispatch, main]
  | destroy main => simp only [serverView, Mirrors, Server.server, Server.step, main]
  | @leave w task node more head there =>
    obtain ⟨idle,rest,queue⟩ := taskTaken coupled (leavesAt made) head there
    simp only [serverView, if_neg more, Mirrors, Server.server, Server.step, Server.workerStep, idle, Server.workerMove,
      queue, taken, List.tail_cons]

/- Threads other than the one that returns or takes a node stay employed. -/
theorem employedPool (coupled : Coupled config s) (queued : ∃ cells, TaskQueue.Queued pool cells)
    (made : ThreadPool.Step (Server.threadCount config) s.pool a pool) {u} (followed : Followed s a u) :
    Employed ⟨u,pool⟩ := by
  obtain ⟨cells,queued⟩ := queued
  intro w p n here has
  cases followed with
  | quiet unseen follows =>
    refine employedKept coupled.employed queued made here has ?_
    rintro rfl
    simp only [follow, show s.server.workers[w]? = some p from here] at follows
    split at follows <;> try contradiction
    rename_i idle
    cases Option.some.inj idle
    contradiction
  | link main => exact employedKept coupled.employed queued made here has (by simp)
  | destroy main => exact employedKept coupled.employed queued made here has (by simp)
  | @leave v task node more head there =>
    rcases Crew.setCases here with ⟨rfl,rfl⟩ | ⟨_,old⟩
    · cases Option.some.inj has
      cases made with
      | exit leaves settled empty => exact absurd ⟨settled,empty⟩ more
      | @dequeue _ other queue leaves popped =>
        rw [pop, head] at popped
        obtain ⟨found,same,first⟩ := Option.map_eq_some_iff.mp popped
        split at first <;> cases first <;> exact ⟨task,Crew.setSelf leaves _,node,there,rfl⟩
    · exact employedKept coupled.employed queued made old has (by simp)

theorem waitingFollowed (coupled : Coupled config s)
    (made : ThreadPool.Step (Server.threadCount config) s.pool a pool) {u} (followed : Followed s a u) :
    u.queue = waiting pool := by
  obtain ⟨cells,queued⟩ := coupled.tasks
  have short : s.pool.dequeued.length ≤ s.pool.added.length := by
    rw [queued.stored.order, List.length_append]
    omega
  cases followed with
  | quiet unseen follows => exact coupled.queue.trans (waitingSame made unseen).symm
  | @link n rest main =>
    cases made with
    | @link task here =>
      have member : task ∈ TaskQueue.ControlPc.task s.pool.control := by
        rw [here]
        exact List.mem_singleton_self task
      obtain ⟨m,later,same,node,there,arg⟩ := coupled.handing task member
      rw [main] at same
      cases same
      simp only [coupled.queue, waiting, TaskQueue.callAtNode there, List.drop_append_of_le_length short, List.map_append,
        List.map_cons, List.map_nil, arg]
  | destroy main =>
    cases made with
    | destroy here => exact coupled.queue
  | @leave w task node more head there =>
    cases made with
    | exit leaves settled empty => exact absurd ⟨settled,empty⟩ more
    | @dequeue _ other queue leaves popped =>
      rw [pop, head] at popped
      obtain ⟨found,same,first⟩ := Option.map_eq_some_iff.mp popped
      have mine : other = task := by split at first <;> cases first <;> rfl
      rw [mine]
      simp only [taken, ThreadPool.setWorker, coupled.queue, waiting, TaskQueue.callAtNode there, List.length_append,
        List.length_singleton, ← List.tail_drop, List.map_tail]

theorem handingFollowed (coupled : Coupled config s) (queued : ∃ cells, TaskQueue.Queued pool cells)
    (made : ThreadPool.Step (Server.threadCount config) s.pool a pool) {u} (followed : Followed s a u) :
    ∀ task ∈ TaskQueue.ControlPc.task pool.control, ∃ n rest, u.main = .batch (.ready n::rest) ∧ Carries pool task n := by
  obtain ⟨cells,queued⟩ := queued
  intro task member
  have before : task ∈ TaskQueue.ControlPc.task s.pool.control →
      ∃ n rest, s.server.main = .batch (.ready n::rest) ∧ Carries pool task n := by
    intro old
    obtain ⟨n,rest,main,carries⟩ := coupled.handing task old
    exact ⟨n,rest,main,carriesKept made carries (handedKept queued member)⟩
  cases followed with
  | quiet unseen follows =>
    rcases handedBefore made member with old | ⟨function,n,rfl,carries⟩
    · exact before old
    · simp only [follow] at follows
      split at follows <;> try contradiction
      rename_i guard
      unfold handsOver at guard
      split at guard <;> try contradiction
      rename_i m rest main
      cases of_decide_eq_true guard
      exact ⟨_,rest,main,carries⟩
  | link main =>
    cases made with
    | link here => exact absurd member List.not_mem_nil
  | destroy main =>
    cases made with
    | destroy here => exact absurd member List.not_mem_nil
  | leave more head there =>
    rcases handedBefore made member with old | ⟨function,n,wrong,_⟩
    · exact before old
    · contradiction

theorem stoppedFollowed (coupled : Coupled config s)
    (made : ThreadPool.Step (Server.threadCount config) s.pool a pool) {u} (followed : Followed s a u)
    (stopped : u.main = .stopped) : pool.control = .destroyed := by
  cases followed with
  | quiet unseen follows => exact destroyedStays made (coupled.stopped stopped)
  | link main => contradiction
  | destroy main => contradiction
  | leave more head there => exact destroyedStays made (coupled.stopped stopped)

theorem coupledPool (coupled : Coupled config s)
    (made : ThreadPool.Step (Server.threadCount config) s.pool a pool) {u} (followed : Followed s a u) :
    Coupled config ⟨u,pool⟩ := by
  obtain ⟨cells,before⟩ := coupled.tasks
  have positive : (0 : Int) < Server.threadCount config := Int.natCast_pos.mpr (Draining.crewPositive config)
  have queued := TaskQueue.queuedStep positive before made
  refine ⟨queued,?_,?_,waitingFollowed coupled made followed,employedPool coupled queued made followed,
    handingFollowed coupled queued made followed,stoppedFollowed coupled made followed⟩
  · cases followed with
    | leave more head there => exact List.length_set.trans coupled.crew
    | _ => exact coupled.crew
  · exact Int.ofNat_le.mp (crewBounded made (Int.ofNat_le.mpr coupled.bounded))

/- All threads are joined: every task has been run, and nobody in the server has one. -/
theorem destroyedDone (coupled : Coupled config s) (gone : s.pool.control = .destroyed) :
    s.pool.executed.Perm s.pool.added ∧ s.server.queue = [] ∧ ∀ p ∈ s.server.workers, p = .idle := by
  obtain ⟨cells,queued⟩ := coupled.tasks
  have joined : TaskQueue.Joined s.pool := by
    rw [TaskQueue.Joined, gone]
    exact ⟨rfl,Nat.le_refl _⟩
  obtain ⟨_,taken,executed⟩ := TaskQueue.joinedDone queued joined
  refine ⟨executed,?_,fun p member => ?_⟩
  · rw [coupled.queue, waiting, taken, List.drop_length]
    rfl
  · obtain ⟨w,here⟩ := List.mem_iff_getElem?.mp member
    have free : Ownership.WorkerPc.task p = none := by
      by_contra busy
      obtain ⟨n,has⟩ := Option.ne_none_iff_exists'.mp busy
      obtain ⟨task,running,_⟩ := coupled.employed w p n here has
      obtain ⟨bound,_⟩ := List.getElem?_eq_some_iff.mp running
      have exited := queued.guarded.joined w (by rw [gone]; exact bound)
      rw [exited] at running
      cases Option.some.inj running
    cases p with
    | idle => rfl
    | taken n => contradiction
    | holding stage n id => contradiction

theorem cleanupMirrored (own : Nat → Bool) (coupled : Coupled config s) (made : cleanup s = some t) :
    Server.step config own s.server .cleanup = some t.server ∧ Coupled config t := by
  unfold cleanup at made
  split at made <;> try contradiction
  rename_i guards
  obtain ⟨_,empty,idle⟩ := destroyedDone coupled guards.2
  cases Option.some.inj made
  constructor
  · simp only [Server.step, guards.1]
    exact if_pos ⟨empty,idle⟩
  · refine ⟨coupled.tasks,coupled.crew,coupled.bounded,coupled.queue,coupled.employed,fun task member => ?_,fun _ => guards.2⟩
    rw [guards.2] at member
    exact absurd member List.not_mem_nil

theorem coupledStep (coupled : Coupled config s) {a} (made : step config own s a = some t) :
    Mirrors (Server.server config own) s.server t.server (serverView s a) ∧ Coupled config t := by
  cases a with
  | server b =>
    simp only [step] at made
    split at made <;> try contradiction
    rename_i turned
    obtain ⟨v,moved,rfl⟩ := Option.map_eq_some_iff.mp made
    exact ⟨moved,coupledServer coupled turned (Server.stepSound moved)⟩
  | pool b =>
    simp only [step] at made
    split at made <;> try contradiction
    rename_i pool moved
    obtain ⟨u,follows,rfl⟩ := Option.map_eq_some_iff.mp made
    have followed := followSound follows
    exact ⟨poolMirrored coupled (ThreadPool.stepSound moved) followed,
      coupledPool coupled (ThreadPool.stepSound moved) followed⟩
  | cleanup => exact cleanupMirrored own coupled made

theorem initialCoupled (config : ServerConfig) (now : Int) :
    Coupled config ⟨Server.initial config now,ThreadPool.initial⟩ := by
  refine ⟨⟨[],TaskQueue.initialQueued⟩,List.length_replicate,Nat.zero_le _,rfl,fun w p n here has => ?_,fun task member => ?_,
    fun main => ?_⟩
  · cases List.eq_of_mem_replicate (List.mem_of_getElem? here)
    contradiction
  · exact absurd member List.not_mem_nil
  · contradiction

theorem pooledServes (config : ServerConfig) (own : Nat → Bool) (allowed : State → Action → Prop) :
    Refines (pooled config own) allowed (Server.server config own) serverView
      (fun s u => u = s.server ∧ Coupled config s) := by
  constructor
  · rintro s ⟨now,rfl⟩
    exact ⟨_,⟨now,rfl⟩,rfl,initialCoupled config now⟩
  · rintro s a t u ⟨rfl,coupled⟩ may made
    obtain ⟨mirrors,later⟩ := coupledStep coupled made
    exact ⟨_,mirrors,rfl,later⟩

theorem pooledPools (config : ServerConfig) (own : Nat → Bool) (allowed : State → Action → Prop) :
    Refines (pooled config own) allowed (ThreadPool.pool (Server.threadCount config)) poolView
      (fun s u => u = s.pool) := by
  constructor
  · rintro s ⟨now,rfl⟩
    exact ⟨_,⟨Int.natCast_pos.mpr (Draining.crewPositive config),rfl⟩,rfl⟩
  · rintro s a t u rfl may made
    cases a with
    | server b =>
      simp only [pooled, step] at made
      split at made <;> try contradiction
      obtain ⟨v,_,rfl⟩ := Option.map_eq_some_iff.mp made
      exact ⟨_,rfl,rfl⟩
    | pool b =>
      simp only [pooled, step] at made
      split at made <;> try contradiction
      rename_i pool moved
      obtain ⟨v,_,rfl⟩ := Option.map_eq_some_iff.mp made
      exact ⟨_,moved,rfl⟩
    | cleanup =>
      simp only [pooled, step, cleanup] at made
      split at made <;> try contradiction
      cases Option.some.inj made
      exact ⟨_,rfl,rfl⟩

end

/- The runs of the whole are runs of the server with a list for a queue, and runs of the pool; the list is
what the pool has not handed out, a worker with a task is a thread in it, and the connections are cleaned up
only after every task has been run. -/
theorem pooledServer (config : ServerConfig) (own : Nat → Bool) (allowed : Server.State → Server.Action → Prop) (s : State)
    (reached : Reach (pooled config own) (fun s a => ∀ b ∈ serverView s a, allowed s.server b) s) :
    Reach (Server.server config own) allowed s.server ∧
    Reach (ThreadPool.pool (Server.threadCount config)) (fun _ _ => True) s.pool ∧
    s.server.queue = waiting s.pool ∧ Employed s ∧
    (s.server.main = .stopped → s.pool.control = .destroyed ∧ s.pool.executed.Perm s.pool.added ∧
      s.server.queue = [] ∧ ∀ p ∈ s.server.workers, p = .idle) := by
  obtain ⟨u,served,rfl,coupled⟩ := reachAllowed (pooledServes config own _)
    (fun s a u related may => by cases related.1; exact may) reached
  obtain ⟨pool,pools,rfl⟩ := reachRefined (pooledPools config own _) reached
  refine ⟨served,pools,coupled.queue,coupled.employed,fun main => ?_⟩
  have gone := coupled.stopped main
  exact ⟨gone,destroyedDone coupled gone⟩

theorem oneInRange : IntRange 1 := by decide

/- One thread; a task is queued when the signal comes. -/
def onePool : ServerConfig := {Main.defaults with threadCount := 1, threadRange := oneInRange}

def pooledEarly : List Action :=
  [.pool .create,.pool .created] ++ (Ownership.arrivalOn 5).map .server ++
    [.server (.epollWait [.ready ⟨5,0⟩]),.pool (.add (some ()) ⟨5,0⟩ (some 0)),.pool .lock,.pool .link,.pool (.signal none),
      .pool .unlock,.server .batchEnds,.pool .destroy,.pool .lock,.pool .mark,.pool .broadcast]

/- The client has sent a part of a request. -/
def pooledLast : List Action :=
  [.pool .unlock,.pool (.worker 0 .lock),.pool (.worker 0 .test),.pool (.worker 0 .leave),.server (.worker 0 .lookup),
    .server (.worker 0 .stamp),
    .server (.worker 0 (.serve ⟨fun _ => true,0,[Worker.arrival (CString.ascii "GET /")],[]⟩ FileSystem.emptyWorld)),
    .server (.worker 0 .rearm),.pool (.worker 0 .run),.pool (.worker 0 .free),.pool (.worker 0 .lock),
    .pool (.worker 0 .test),.pool (.worker 0 .leave),.pool .join,.pool .join,.pool .release]

theorem pooledStops : ∃ s, Reach (pooled onePool Ownership.firstFive)
      (fun s a => ∀ b ∈ serverView s a, Ownership.FreshAccept s.server b) s ∧ s.server.main = .stopped ∧
    s.pool.added = [⟨(),⟨5,0⟩,0⟩] ∧ Reach (Server.server onePool Ownership.firstFive) Ownership.FreshAccept s.server ∧
    s.pool.executed.Perm s.pool.added := by
  have start : Reach (pooled onePool Ownership.firstFive)
      (fun s a => ∀ b ∈ serverView s a, Ownership.FreshAccept s.server b)
      ⟨Server.initial onePool 0,ThreadPool.initial⟩ := .start ⟨0,rfl⟩
  have follows : Follows (pooled onePool Ownership.firstFive)
      (fun s a => ∀ b ∈ serverView s a, Ownership.FreshAccept s.server b)
      ⟨Server.initial onePool 0,ThreadPool.initial⟩ (pooledEarly ++ pooledLast ++ [.cleanup]) := by
    decide +kernel
  obtain ⟨s,reached,seen⟩ := reachSeen start (fun s => (s.server.main,s.pool.added)) follows
    (b := (.stopped,[⟨(),⟨5,0⟩,0⟩])) (by decide +kernel)
  obtain ⟨main,added⟩ := Prod.mk.inj seen
  obtain ⟨served,_,_,_,ends⟩ := pooledServer onePool Ownership.firstFive Ownership.FreshAccept s reached
  exact ⟨s,reached,main,added,served,(ends main).2.1⟩

/- Steps of the threads of the pool and of thread_pool_destroy; not the clock's. -/
def Action.goesOn : Action → Bool
  | .server (.worker _ _) => true
  | .pool _ => true
  | _ => false

def left (s : State) : Nat := TaskQueue.remaining s.pool + Draining.workLeft s.server

/- In the middle of thread_pool_destroy, past its broadcast. -/
structure Ending (config : ServerConfig) (own : Nat → Bool) (s : State) : Prop where
  coupled : Coupled config s
  served : Reach (Server.server config own) (fun _ _ => True) s.server
  main : s.server.main = .draining
  closes : Shutdown.ControlPc.closes s.pool.control = true

section
variable {config : ServerConfig} {own : Nat → Bool} {s t : State} {pool : Pool} {a : ThreadPool.Action Unit Server.Notice}

theorem followedLess (ending : Ending config own s) {u} (followed : Followed s a u)
    (made : ThreadPool.Step (Server.threadCount config) s.pool a pool) :
    left ⟨u,pool⟩ < left s ∧ u.main = .draining := by
  obtain ⟨cells,queued⟩ := ending.coupled.tasks
  have less := TaskQueue.remainingDrops queued ending.closes made
  have mirrors : Mirrors (Server.server config own) s.server u (serverView s (.pool a)) :=
    poolMirrored ending.coupled made followed
  cases view : serverView s (.pool a) with
  | none =>
    rw [view] at mirrors
    have same : u = s.server := mirrors
    simp only [left, same]
    exact ⟨by omega,ending.main⟩
  | some b =>
    rw [view] at mirrors
    have moved := Server.stepSound mirrors
    have works : Draining.Action.works b = true := by
      cases followed with
      | quiet unseen follows =>
        rw [view] at unseen
        contradiction
      | link main =>
        rw [ending.main] at main
        contradiction
      | destroy main =>
        rw [ending.main] at main
        contradiction
      | leave more head there =>
        simp only [serverView, if_neg more] at view
        cases Option.some.inj view
        rfl
    have falls := Draining.workFalls works moved
    simp only [left]
    exact ⟨by omega,(Draining.worksMain works moved).trans ending.main⟩

theorem endingStep (ending : Ending config own s) {a} (goes : Action.goesOn a = true) (made : step config own s a = some t) :
    Ending config own t ∧ left t < left s := by
  obtain ⟨mirrors,later⟩ := coupledStep ending.coupled made
  have served : Reach (Server.server config own) (fun _ _ => True) t.server :=
    mirrorsReach ending.served (fun _ _ => trivial) mirrors
  cases a with
  | cleanup => contradiction
  | server b =>
    cases b with
    | worker w turn =>
      simp only [step] at made
      split at made <;> try contradiction
      obtain ⟨v,moved,rfl⟩ := Option.map_eq_some_iff.mp made
      have moved := Server.stepSound moved
      have falls : Draining.workLeft v < Draining.workLeft s.server := Draining.workFalls rfl moved
      refine ⟨⟨later,served,(Draining.worksMain rfl moved).trans ending.main,ending.closes⟩,?_⟩
      simp only [left]
      omega
    | _ => contradiction
  | pool b =>
    simp only [step] at made
    split at made <;> try contradiction
    rename_i pool moved
    obtain ⟨u,follows,rfl⟩ := Option.map_eq_some_iff.mp made
    have moved := ThreadPool.stepSound moved
    have less := followedLess ending (followSound follows) moved
    exact ⟨⟨later,served,less.2,TaskQueue.closesStays ending.closes moved⟩,less.1⟩

/- A step of the pool waits for the server only where the function has not returned. -/
theorem followMoves (ending : Ending config own s)
    (made : ThreadPool.Step (Server.threadCount config) s.pool a pool) :
    (∃ u, follow s a = some u) ∨ ∃ w task : Nat, s.pool.workers[w]? = some (.running task) ∧
      s.server.workers[w]? ≠ some .idle := by
  have closes := ending.closes
  cases made with
  | @exit w here settled empty => exact Or.inl ⟨_,if_pos ⟨settled,empty⟩⟩
  | @dequeue w task queue here popped =>
    obtain ⟨node,there⟩ := popNode popped
    have head : s.pool.queue.head = some task := by
      unfold pop at popped
      split at popped <;> try contradiction
      rename_i first stands
      obtain ⟨found,_,same⟩ := Option.map_eq_some_iff.mp popped
      rw [stands]
      split at same <;> cases same <;> rfl
    have more : ¬ (s.pool.shutdown = true ∧ s.pool.queue.head = none) := by
      rintro ⟨_,empty⟩
      rw [head] at empty
      contradiction
    have found : s.pool.queue.head.bind s.pool.heap = some node := by rw [head, Option.bind_some, there]
    exact Or.inl ⟨taken s.server w node.value.arg,by simp only [follow, if_neg more, found, Option.map_some]⟩
  | @run w task node here there =>
    by_cases idle : s.server.workers[w]? = some .idle
    · exact Or.inl ⟨_,if_pos idle⟩
    · exact Or.inr ⟨w,task,here,idle⟩
  | refused here => rw [here] at closes; contradiction
  | add here running fresh => rw [here] at closes; contradiction
  | link here => rw [here] at closes; contradiction
  | destroy here => rw [here] at closes; contradiction
  | _ => exact Or.inl ⟨_,rfl⟩

/- Somebody can go on until the pool is destroyed. -/
theorem endingMoves (ending : Ending config own s) (more : s.pool.control ≠ .destroyed) :
    ∃ a t, Action.goesOn a = true ∧ step config own s a = some t := by
  obtain ⟨cells,queued⟩ := ending.coupled.tasks
  obtain ⟨a,pool,made⟩ : ∃ a pool, ThreadPool.step (Server.threadCount config) s.pool a = some pool :=
    TaskQueue.neverStuck queued ending.closes more
  rcases followMoves ending (ThreadPool.stepSound made) with ⟨u,follows⟩ | ⟨w,task,running,busy⟩
  · exact ⟨.pool a,⟨u,pool⟩,rfl,by simp only [step, made, follows, Option.map_some]⟩
  · obtain ⟨bound,_⟩ := List.getElem?_eq_some_iff.mp running
    have crewed : w < s.server.workers.length := by
      rw [ending.coupled.crew]
      exact Nat.lt_of_lt_of_le bound ending.coupled.bounded
    have here : s.server.workers[w]? = some s.server.workers[w] := List.getElem?_eq_getElem crewed
    rw [here] at busy
    obtain ⟨v,q,turn,u,there,works,other,moved⟩ :=
      Draining.busyMoves config own (by rw [ending.main]; rfl) here (fun idle => busy (congrArg some idle))
    have turned : Turned s.pool (.worker v turn) := by
      obtain ⟨n,has⟩ : ∃ n, Ownership.WorkerPc.task q = some n := by
        cases q with
        | idle => exact absurd rfl works
        | taken n => exact ⟨n,rfl⟩
        | holding stage n id => exact ⟨n,rfl⟩
      obtain ⟨task,inside,_⟩ := ending.coupled.employed v q n there has
      have inside : inTask s.pool v = true := by rw [inTask, inside]
      cases turn with
      | dequeue => exact absurd rfl other
      | _ => exact inside
    exact ⟨.server (.worker v turn),{s with server := u},rfl,by simp only [step, if_pos turned, moved, Option.map_some]⟩

end

/- Once thread_pool_destroy has woken the threads: however they go on, they are through after boundedly many
steps and never stuck before, and then every task has been run and the cleanup closes every connection. -/
theorem pooledDrained (config : ServerConfig) (own : Nat → Bool) (s : State)
    (reached : Reach (pooled config own) (fun _ _ => True) s) (main : s.server.main = .draining)
    (closes : Shutdown.ControlPc.closes s.pool.control = true) (as : List Action) (t : State)
    (follows : Follows (pooled config own) (fun _ a => Action.goesOn a = true) s as)
    (ran : run (pooled config own) s as = some t) :
    as.length + left t ≤ left s ∧
    (t.pool.control ≠ .destroyed → ∃ a u, Action.goesOn a = true ∧ step config own t a = some u) ∧
    (t.pool.control = .destroyed → t.pool.executed.Perm t.pool.added ∧
      ∃ u, step config own t .cleanup = some u ∧ Draining.Stopped u.server) := by
  have ending : Ending config own s := by
    obtain ⟨u,served,rfl,coupled⟩ := reachRefined (pooledServes config own _) reached
    exact ⟨coupled,served,main,closes⟩
  have ends : Ending config own t :=
    runInvariant (I := Ending config own) (fun _ _ _ holds goes made => (endingStep holds goes made).1) ending follows ran
  refine ⟨?_,endingMoves ends,fun gone => ?_⟩
  · exact runBounded (I := Ending config own) (fun _ _ _ holds goes made => (endingStep holds goes made).1)
      (fun _ _ _ holds goes made => (endingStep holds goes made).2) ending follows ran
  · obtain ⟨executed,empty,idle⟩ := destroyedDone ends.coupled gone
    obtain ⟨v,cleans,stopped⟩ := Draining.cleaned ends.served ends.main empty idle
    simp only [Server.step, ends.main] at cleans
    rw [if_pos ⟨empty,idle⟩] at cleans
    cases Option.some.inj cleans
    exact ⟨executed,_,if_pos ⟨ends.main,gone⟩,stopped⟩

theorem earlyPooled : ∃ s t u, run (pooled onePool Ownership.firstFive) ⟨Server.initial onePool 0,ThreadPool.initial⟩
      pooledEarly = some s ∧ s.server.queue = [⟨5,0⟩] ∧ run (pooled onePool Ownership.firstFive) s pooledLast = some t ∧
    pooledLast.length ≤ left s ∧ t.pool.executed.Perm t.pool.added ∧
    step onePool Ownership.firstFive t .cleanup = some u ∧ Draining.Stopped u.server := by
  have begins : (run (pooled onePool Ownership.firstFive) ⟨Server.initial onePool 0,ThreadPool.initial⟩ pooledEarly).map
      (fun s => ((s.server.main,s.pool.control,s.server.queue),
        ((run (pooled onePool Ownership.firstFive) s pooledLast).map (fun t => t.pool.control)))) =
      some ((.draining,.woke,[⟨5,0⟩]),some .destroyed) := by
    decide +kernel
  obtain ⟨s,ran,same⟩ := Option.map_eq_some_iff.mp begins
  obtain ⟨stands,later⟩ := Prod.mk.inj same
  obtain ⟨main,rest⟩ := Prod.mk.inj stands
  obtain ⟨woke,queued⟩ := Prod.mk.inj rest
  obtain ⟨t,went,gone⟩ := Option.map_eq_some_iff.mp later
  have reached : Reach (pooled onePool Ownership.firstFive) (fun _ _ => True) s :=
    reachRun (.start ⟨0,rfl⟩) (followsAll _ pooledEarly) ran
  have follows : Follows (pooled onePool Ownership.firstFive) (fun _ a => Action.goesOn a = true) s pooledLast :=
    followsEach (by decide) s
  obtain ⟨bounded,_,ends⟩ := pooledDrained onePool Ownership.firstFive s reached main (by rw [woke]; rfl) pooledLast t
    follows went
  obtain ⟨executed,u,cleans,stopped⟩ := ends gone
  exact ⟨s,t,u,ran,queued,went,by omega,executed,cleans,stopped⟩

end EpollHttpServer.PooledServer
