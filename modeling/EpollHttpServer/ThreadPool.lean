import EpollHttpServer.Lib.LinkedQueue
import EpollHttpServer.Lib.Runs

/-! thread_pool.c as one system of interleaved steps: the worker threads, and the one thread that
creates the pool, adds tasks and destroys it. Between lock and unlock the two queue pointers
change in one step, since nothing else reads them; shutdown is also read and written without
the lock, and a wait may end without a signal. -/
namespace EpollHttpServer.ThreadPool
open LinkedQueue Runs

/- What a node of the queue carries; the number, unseen by the code, tells one add from another. -/
structure Call (F A : Type) where
  function : F
  arg : A
  number : Nat
  deriving DecidableEq

inductive Party where
  | control
  | worker (w : Nat)
  deriving DecidableEq

/- Where worker_thread stands: before the lock; at the loop condition; before pthread_cond_wait;
in it; out of it, before the lock is taken again; past the loop; with a task of its own, which
is then to be freed. -/
inductive WorkerPc where
  | entering | testing | blocking | waiting | woken | leaving
  | running (task : Nat)
  | freeing (task : Nat)
  | exited
  deriving DecidableEq

/- The thread that calls thread_pool_create, thread_pool_add_task and thread_pool_destroy. -/
inductive ControlPc where
  | creating | flagged
  | ready
  | allocated (task : Nat)
  | linking (task : Nat)
  | linked | signalled
  | closing | marking | marked | woke
  | joining (failed : Bool) (i : Nat)
  | releasing (task : Option Nat)
  | destroyed | failed
  deriving DecidableEq

structure State (F A : Type) where
  heap : Heap Nat (Call F A)
  queue : Queue Nat
  shutdown : Bool
  lock : Option Party
  workers : List WorkerPc
  control : ControlPc
  added : List (Call F A)
  dequeued : List (Call F A)
  executed : List (Call F A)

inductive Turn where
  | lock | test | block | wake | leave | run | free

inductive Action (F A : Type) where
  | create
  | createFails
  | created
  | add (function : Option F) (arg : A) (task : Option Nat)
  | lock
  | link
  | signal (w : Option Nat)
  | unlock
  | destroy
  | mark
  | broadcast
  | join
  | release
  | worker (w : Nat) (turn : Turn)

section
variable {F A : Type}

def initial : State F A :=
  { heap := fun _ => none
    queue := ⟨none,none⟩
    shutdown := false
    lock := none
    workers := []
    control := .creating
    added := []
    dequeued := []
    executed := [] }

def setWorker (s : State F A) (w : Nat) (p : WorkerPc) : State F A := {s with workers := s.workers.set w p}

def callAt (heap : Heap Nat (Call F A)) (task : Nat) : List (Call F A) := ((heap task).map Node.value).toList

def awakened : WorkerPc → WorkerPc
  | .waiting => .woken
  | p => p

def workerMove (s : State F A) (w : Nat) : WorkerPc → Turn → Option (State F A)
  | .entering,.lock => if s.lock = none then some (setWorker {s with lock := some (.worker w)} w .testing) else none
  | .woken,.lock => if s.lock = none then some (setWorker {s with lock := some (.worker w)} w .testing) else none
  | .testing,.test =>
    if s.queue.head = none ∧ s.shutdown = false then some (setWorker s w .blocking) else some (setWorker s w .leaving)
  | .blocking,.block => some (setWorker {s with lock := none} w .waiting)
  | .waiting,.wake => some (setWorker s w .woken)
  | .leaving,.leave =>
    if s.shutdown = true ∧ s.queue.head = none then some (setWorker {s with lock := none} w .exited)
    else match pop s.heap s.queue with
      | none => none
      | some (task,queue) =>
        some (setWorker {s with queue := queue, lock := none, dequeued := s.dequeued ++ callAt s.heap task} w (.running task))
  | .running task,.run => match s.heap task with
    | none => none
    | some node => some (setWorker {s with executed := s.executed ++ [node.value]} w (.freeing task))
  | .freeing task,.free => some (setWorker {s with heap := Function.update s.heap task none} w .entering)
  | _,_ => none

/- thread_pool_add_task up to the lock; the answer −1 leaves the pool as it is. -/
def addTask (s : State F A) (function : Option F) (arg : A) (task : Option Nat) : Option (State F A) :=
  match function,task with
  | some function,some task =>
    if s.shutdown = true then some s
    else if (s.heap task).isSome then none
    else some {s with
      heap := Function.update s.heap task (some ⟨⟨function,arg,s.added.length⟩,none⟩)
      control := .allocated task}
  | _,_ => some s

/- pthread_cond_signal wakes a thread if one waits. -/
def signal (s : State F A) : Option Nat → Option (State F A)
  | none => if .waiting ∈ s.workers then none else some {s with control := .signalled}
  | some w =>
    if s.workers[w]? = some .waiting then some (setWorker {s with control := .signalled} w .woken) else none

def join (s : State F A) (failed : Bool) (i : Nat) : Option (State F A) :=
  match s.workers[i]? with
  | some .exited => some {s with control := .joining failed (i+1)}
  | some _ => none
  | none => some {s with control := if failed then .failed else .releasing s.queue.head}

def release (s : State F A) : Option Nat → Option (State F A)
  | none => some {s with control := .destroyed}
  | some task => match s.heap task with
    | none => none
    | some node => some {s with heap := Function.update s.heap task none, control := .releasing node.next}

def step (threadCounts : Int) (s : State F A) : Action F A → Option (State F A)
  | .create => match s.control with
    | .creating => if s.workers.length < threadCounts then some {s with workers := s.workers ++ [.entering]} else none
    | _ => none
  | .createFails => match s.control with
    | .creating =>
      if s.workers.length < threadCounts then some {s with shutdown := true, control := .flagged} else none
    | _ => none
  | .created => match s.control with
    | .creating => if s.workers.length < threadCounts then none else some {s with control := .ready}
    | _ => none
  | .add function arg task => match s.control with
    | .ready => addTask s function arg task
    | _ => none
  | .lock => match s.control with
    | .allocated task => if s.lock = none then some {s with lock := some .control, control := .linking task} else none
    | .closing => if s.lock = none then some {s with lock := some .control, control := .marking} else none
    | _ => none
  | .link => match s.control with
    | .linking task => some {s with
        heap := (push s.heap s.queue task).1, queue := (push s.heap s.queue task).2, control := .linked
        added := s.added ++ callAt s.heap task}
    | _ => none
  | .signal w => match s.control with
    | .linked => signal s w
    | _ => none
  | .unlock => match s.control with
    | .signalled => some {s with lock := none, control := .ready}
    | .woke => some {s with lock := none, control := .joining false 0}
    | _ => none
  | .destroy => match s.control with
    | .ready => some {s with control := .closing}
    | _ => none
  | .mark => match s.control with
    | .marking => some {s with shutdown := true, control := .marked}
    | _ => none
  | .broadcast => match s.control with
    | .flagged => some {s with workers := s.workers.map awakened, control := .joining true 0}
    | .marked => some {s with workers := s.workers.map awakened, control := .woke}
    | _ => none
  | .join => match s.control with
    | .joining failed i => join s failed i
    | _ => none
  | .release => match s.control with
    | .releasing task => release s task
    | _ => none
  | .worker w turn => match s.workers[w]? with
    | none => none
    | some p => workerMove s w p turn

/- thread_pool_create returns NULL at once unless it is asked for a thread. -/
def pool (threadCounts : Int) : System (State F A) (Action F A) where
  start := fun s => 0 < threadCounts ∧ s = initial
  step := step threadCounts

/- What a step can do, guards included. -/
inductive Step (threadCounts : Int) : State F A → Action F A → State F A → Prop where
  | create {s} (here : s.control = .creating) (more : s.workers.length < threadCounts) :
      Step threadCounts s .create {s with workers := s.workers ++ [.entering]}
  | createFails {s} (here : s.control = .creating) (more : s.workers.length < threadCounts) :
      Step threadCounts s .createFails {s with shutdown := true, control := .flagged}
  | created {s} (here : s.control = .creating) (all : ¬ (s.workers.length : Int) < threadCounts) :
      Step threadCounts s .created {s with control := .ready}
  | refused {s function arg task} (here : s.control = .ready) : Step threadCounts s (.add function arg task) s
  | add {s function arg task} (here : s.control = .ready) (running : s.shutdown = false) (fresh : s.heap task = none) :
      Step threadCounts s (.add (some function) arg (some task)) {s with
        heap := Function.update s.heap task (some ⟨⟨function,arg,s.added.length⟩,none⟩)
        control := .allocated task}
  | lock {s task} (here : s.control = .allocated task) (free : s.lock = none) :
      Step threadCounts s .lock {s with lock := some .control, control := .linking task}
  | lockLast {s} (here : s.control = .closing) (free : s.lock = none) :
      Step threadCounts s .lock {s with lock := some .control, control := .marking}
  | link {s task} (here : s.control = .linking task) :
      Step threadCounts s .link {s with
        heap := (push s.heap s.queue task).1, queue := (push s.heap s.queue task).2, control := .linked
        added := s.added ++ callAt s.heap task}
  | signalNone {s} (here : s.control = .linked) (nobody : .waiting ∉ s.workers) :
      Step threadCounts s (.signal none) {s with control := .signalled}
  | signal {s w} (here : s.control = .linked) (waits : s.workers[w]? = some .waiting) :
      Step threadCounts s (.signal (some w)) (setWorker {s with control := .signalled} w .woken)
  | unlock {s} (here : s.control = .signalled) : Step threadCounts s .unlock {s with lock := none, control := .ready}
  | unlockLast {s} (here : s.control = .woke) :
      Step threadCounts s .unlock {s with lock := none, control := .joining false 0}
  | destroy {s} (here : s.control = .ready) : Step threadCounts s .destroy {s with control := .closing}
  | mark {s} (here : s.control = .marking) : Step threadCounts s .mark {s with shutdown := true, control := .marked}
  | broadcastFailed {s} (here : s.control = .flagged) :
      Step threadCounts s .broadcast {s with workers := s.workers.map awakened, control := .joining true 0}
  | broadcast {s} (here : s.control = .marked) :
      Step threadCounts s .broadcast {s with workers := s.workers.map awakened, control := .woke}
  | join {s failed i} (here : s.control = .joining failed i) (exited : s.workers[i]? = some .exited) :
      Step threadCounts s .join {s with control := .joining failed (i+1)}
  | joined {s failed i} (here : s.control = .joining failed i) (all : s.workers[i]? = none) :
      Step threadCounts s .join {s with control := if failed then .failed else .releasing s.queue.head}
  | release {s task node} (here : s.control = .releasing (some task)) (left : s.heap task = some node) :
      Step threadCounts s .release {s with heap := Function.update s.heap task none, control := .releasing node.next}
  | released {s} (here : s.control = .releasing none) : Step threadCounts s .release {s with control := .destroyed}
  | enter {s w} (here : s.workers[w]? = some .entering) (free : s.lock = none) :
      Step threadCounts s (.worker w .lock) (setWorker {s with lock := some (.worker w)} w .testing)
  | reenter {s w} (here : s.workers[w]? = some .woken) (free : s.lock = none) :
      Step threadCounts s (.worker w .lock) (setWorker {s with lock := some (.worker w)} w .testing)
  | sleepy {s w} (here : s.workers[w]? = some .testing) (empty : s.queue.head = none) (running : s.shutdown = false) :
      Step threadCounts s (.worker w .test) (setWorker s w .blocking)
  | test {s w} (here : s.workers[w]? = some .testing) (settled : s.queue.head ≠ none ∨ s.shutdown = true) :
      Step threadCounts s (.worker w .test) (setWorker s w .leaving)
  | block {s w} (here : s.workers[w]? = some .blocking) :
      Step threadCounts s (.worker w .block) (setWorker {s with lock := none} w .waiting)
  | wake {s w} (here : s.workers[w]? = some .waiting) : Step threadCounts s (.worker w .wake) (setWorker s w .woken)
  | exit {s w} (here : s.workers[w]? = some .leaving) (settled : s.shutdown = true) (empty : s.queue.head = none) :
      Step threadCounts s (.worker w .leave) (setWorker {s with lock := none} w .exited)
  | dequeue {s w task queue} (here : s.workers[w]? = some .leaving) (popped : pop s.heap s.queue = some (task,queue)) :
      Step threadCounts s (.worker w .leave)
        (setWorker {s with queue := queue, lock := none, dequeued := s.dequeued ++ callAt s.heap task} w (.running task))
  | run {s w task node} (here : s.workers[w]? = some (.running task)) (there : s.heap task = some node) :
      Step threadCounts s (.worker w .run) (setWorker {s with executed := s.executed ++ [node.value]} w (.freeing task))
  | free {s w task} (here : s.workers[w]? = some (.freeing task)) :
      Step threadCounts s (.worker w .free) (setWorker {s with heap := Function.update s.heap task none} w .entering)

theorem workerSound {threadCounts : Int} {s t : State F A} {w p turn} (here : s.workers[w]? = some p)
    (made : workerMove s w p turn = some t) : Step threadCounts s (.worker w turn) t := by
  unfold workerMove at made
  split at made <;> try contradiction
  · split at made <;> try contradiction
    cases Option.some.inj made
    exact .enter here (by assumption)
  · split at made <;> try contradiction
    cases Option.some.inj made
    exact .reenter here (by assumption)
  · split at made
    · rename_i guards
      cases Option.some.inj made
      exact .sleepy here guards.1 guards.2
    · rename_i guards
      cases Option.some.inj made
      refine .test here ?_
      rcases not_and_or.mp guards with filled | settled
      · exact Or.inl filled
      · exact Or.inr (Bool.not_eq_false _ ▸ settled)
  · cases Option.some.inj made
    exact .block here
  · cases Option.some.inj made
    exact .wake here
  · split at made
    · rename_i guards
      cases Option.some.inj made
      exact .exit here guards.1 guards.2
    · split at made <;> try contradiction
      cases Option.some.inj made
      exact .dequeue here (by assumption)
  · split at made <;> try contradiction
    cases Option.some.inj made
    exact .run here (by assumption)
  · cases Option.some.inj made
    exact .free here

theorem addSound {threadCounts : Int} {s t : State F A} {function arg task} (here : s.control = .ready)
    (made : addTask s function arg task = some t) : Step threadCounts s (.add function arg task) t := by
  unfold addTask at made
  split at made
  · split at made
    · cases Option.some.inj made
      exact .refused here
    · rename_i running
      split at made <;> try contradiction
      rename_i fresh
      cases Option.some.inj made
      exact .add here (Bool.eq_false_iff.mpr running) (Option.not_isSome_iff_eq_none.mp fresh)
  · cases Option.some.inj made
    exact .refused here

theorem stepSound {threadCounts : Int} {s t : State F A} {a} (made : step threadCounts s a = some t) :
    Step threadCounts s a t := by
  cases a with
  | create =>
    simp only [step] at made
    split at made <;> try contradiction
    split at made <;> try contradiction
    cases Option.some.inj made
    exact .create (by assumption) (by assumption)
  | createFails =>
    simp only [step] at made
    split at made <;> try contradiction
    split at made <;> try contradiction
    cases Option.some.inj made
    exact .createFails (by assumption) (by assumption)
  | created =>
    simp only [step] at made
    split at made <;> try contradiction
    split at made <;> try contradiction
    cases Option.some.inj made
    exact .created (by assumption) (by assumption)
  | add function arg task =>
    simp only [step] at made
    split at made <;> try contradiction
    exact addSound (by assumption) made
  | lock =>
    simp only [step] at made
    split at made <;> try contradiction
    · split at made <;> try contradiction
      cases Option.some.inj made
      exact .lock (by assumption) (by assumption)
    · split at made <;> try contradiction
      cases Option.some.inj made
      exact .lockLast (by assumption) (by assumption)
  | link =>
    simp only [step] at made
    split at made <;> try contradiction
    cases Option.some.inj made
    exact .link (by assumption)
  | signal w =>
    simp only [step] at made
    split at made <;> try contradiction
    unfold signal at made
    split at made
    · split at made <;> try contradiction
      cases Option.some.inj made
      exact .signalNone (by assumption) (by assumption)
    · split at made <;> try contradiction
      cases Option.some.inj made
      exact .signal (by assumption) (by assumption)
  | unlock =>
    simp only [step] at made
    split at made <;> try contradiction
    · cases Option.some.inj made
      exact .unlock (by assumption)
    · cases Option.some.inj made
      exact .unlockLast (by assumption)
  | destroy =>
    simp only [step] at made
    split at made <;> try contradiction
    cases Option.some.inj made
    exact .destroy (by assumption)
  | mark =>
    simp only [step] at made
    split at made <;> try contradiction
    cases Option.some.inj made
    exact .mark (by assumption)
  | broadcast =>
    simp only [step] at made
    split at made <;> try contradiction
    · cases Option.some.inj made
      exact .broadcastFailed (by assumption)
    · cases Option.some.inj made
      exact .broadcast (by assumption)
  | join =>
    simp only [step] at made
    split at made <;> try contradiction
    unfold join at made
    split at made <;> try contradiction
    · cases Option.some.inj made
      exact .join (by assumption) (by assumption)
    · cases Option.some.inj made
      exact .joined (by assumption) (by assumption)
  | release =>
    simp only [step] at made
    split at made <;> try contradiction
    unfold release at made
    split at made
    · cases Option.some.inj made
      exact .released (by assumption)
    · split at made <;> try contradiction
      cases Option.some.inj made
      exact .release (by assumption) (by assumption)
  | worker w turn =>
    simp only [step] at made
    split at made <;> try contradiction
    exact workerSound (by assumption) made

end

end EpollHttpServer.ThreadPool
