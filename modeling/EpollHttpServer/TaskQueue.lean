import EpollHttpServer.Shutdown

/-! The tasks of the pool. The linked nodes stand for the tasks that were added and not yet taken,
in order; a node that left the queue belongs to one worker until it is freed. Workers leave the
loop on an empty queue only, so when all of them are joined each task has been run once. -/
namespace EpollHttpServer.TaskQueue
open ThreadPool Shutdown LinkedQueue Runs

def WorkerPc.task : WorkerPc → List Nat
  | .running task => [task]
  | .freeing task => [task]
  | _ => []

def ControlPc.task : ControlPc → List Nat
  | .allocated task => [task]
  | .linking task => [task]
  | _ => []

section
variable {F A : Type}

/- The call that a worker has taken and not yet made. -/
def pendingCall (heap : Heap Nat (Call F A)) : WorkerPc → List (Call F A)
  | .running task => callAt heap task
  | _ => []

/- The nodes in use, in the queue and out of it. -/
def used (s : State F A) (cells : List (Nat × Call F A)) : Multiset Nat :=
  (addresses cells : Multiset Nat) + ((s.workers.flatMap WorkerPc.task : List Nat) + (ControlPc.task s.control : List Nat))

/- The same nodes are held, by the same workers or by others. -/
def SameHeld (before after : List WorkerPc) : Prop := ∀ (B : Type) (f : WorkerPc → List B),
  (∀ p, WorkerPc.task p = [] → f p = []) → (after.flatMap f : Multiset B) = (before.flatMap f : List B)

structure Stored (s : State F A) (cells : List (Nat × Call F A)) : Prop where
  queue : Represents s.heap s.queue cells
  order : s.added = s.dequeued ++ values cells
  numbered : s.added.map Call.number = List.range s.added.length
  apart : (used s cells).Nodup
  kept : ∀ task ∈ used s cells, s.heap task ≠ none
  filled : ∀ task ∈ ControlPc.task s.control, ∃ function arg,
    s.heap task = some ⟨⟨function,arg,s.added.length⟩,none⟩
  account : (s.dequeued : Multiset (Call F A)) = s.executed + (s.workers.flatMap (pendingCall s.heap) : List (Call F A))

variable {threadCounts : Int} {s t : State F A} {a : Action F A} {cells : List (Nat × Call F A)}

theorem storedEmpty : Stored (initial : State F A) [] := by
  refine ⟨representsEmpty _,rfl,rfl,Multiset.nodup_zero,?_,?_,rfl⟩
  · exact fun task member => absurd member (Multiset.notMem_zero task)
  · exact fun task member => absurd member List.not_mem_nil

/- A step that touches neither the nodes nor who has them. -/
theorem storedSame (inv : Stored s cells) (heap : t.heap = s.heap) (queue : t.queue = s.queue) (added : t.added = s.added)
    (dequeued : t.dequeued = s.dequeued) (executed : t.executed = s.executed)
    (control : ControlPc.task t.control = ControlPc.task s.control)
    (held : SameHeld s.workers t.workers) : Stored t cells := by
  have same : used t cells = used s cells := by
    rw [used, used, control, held Nat WorkerPc.task (fun _ h => h)]
  have pending : (t.workers.flatMap (pendingCall s.heap) : Multiset (Call F A)) =
      (s.workers.flatMap (pendingCall s.heap) : List (Call F A)) := by
    refine held _ _ (fun p empty => ?_)
    cases p <;> first | rfl | contradiction
  constructor
  · rw [heap, queue]
    exact inv.queue
  · rw [added, dequeued]
    exact inv.order
  · rw [added]
    exact inv.numbered
  · rw [same]
    exact inv.apart
  · rw [same, heap]
    exact inv.kept
  · rw [control, heap, added]
    exact inv.filled
  · rw [dequeued, executed, heap, pending]
    exact inv.account

/- A worker without a task that still has none. -/
theorem heldMoved {w : Nat} {p} (here : s.workers[w]? = some p) (q : WorkerPc) (before : WorkerPc.task p = [])
    (after : WorkerPc.task q = []) : SameHeld s.workers (s.workers.set w q) := by
  intro B f nothing
  have moved := Crew.flatMapMoved f here q
  rw [nothing p before, nothing q after] at moved
  exact add_left_cancel moved

theorem heldAwakened (workers : List WorkerPc) : SameHeld workers (workers.map awakened) := by
  intro B f nothing
  rw [List.flatMap_map]
  refine congrArg _ (List.flatMap_congr (fun p _ => ?_))
  cases p with
  | waiting => exact (nothing .woken rfl).trans (nothing .waiting rfl).symm
  | _ => rfl

/- Another node is filled or freed, or another's next pointer is written. -/
theorem pendingSame {other : Heap Nat (Call F A)} {workers : List WorkerPc}
    (same : ∀ task ∈ workers.flatMap WorkerPc.task, callAt other task = callAt s.heap task) :
    workers.flatMap (pendingCall other) = workers.flatMap (pendingCall s.heap) := by
  refine List.flatMap_congr (fun p member => ?_)
  cases p with
  | running task => exact same task (List.mem_flatMap.mpr ⟨_,member,List.mem_singleton_self task⟩)
  | _ => rfl

theorem memUsed {task : Nat} : task ∈ used s cells ↔
    task ∈ addresses cells ∨ task ∈ s.workers.flatMap WorkerPc.task ∨ task ∈ ControlPc.task s.control := by
  simp only [used, Multiset.mem_add, Multiset.mem_coe]

theorem callAtUpdate {heap : Heap Nat (Call F A)} {task other : Nat} {node} (away : other ≠ task) :
    callAt (Function.update heap task node) other = callAt heap other := by
  rw [callAt, callAt, Function.update_of_ne away]

theorem storedAdd {function arg} {task : Nat} (inv : Stored s cells) (here : s.control = .ready) (fresh : s.heap task = none) :
    Stored {s with
      heap := Function.update s.heap task (some ⟨⟨function,arg,s.added.length⟩,none⟩)
      control := .allocated task} cells := by
  have away : ∀ other ∈ used s cells, other ≠ task := by
    rintro other member rfl
    exact inv.kept other member fresh
  have grown : used {s with
      heap := Function.update s.heap task (some ⟨⟨function,arg,s.added.length⟩,none⟩)
      control := .allocated task} cells = task ::ₘ used s cells := by
    simp only [used, here, ControlPc.task]
    rw [Multiset.coe_nil, Multiset.coe_singleton, ← Multiset.singleton_add]
    abel
  constructor
  · refine representsFrame inv.queue (fun other member => Function.update_of_ne (away other ?_) _ _)
    exact memUsed.mpr (Or.inl member)
  · exact inv.order
  · exact inv.numbered
  · rw [grown]
    exact Multiset.nodup_cons.mpr ⟨fun member => away task member rfl,inv.apart⟩
  · intro other member
    rw [grown] at member
    rcases Multiset.mem_cons.mp member with rfl | old
    · simp only [Function.update_self]
      exact Option.some_ne_none _
    · simp only [Function.update_of_ne (away other old)]
      exact inv.kept other old
  · intro other member
    cases List.mem_singleton.mp member
    exact ⟨function,arg,Function.update_self _ _ _⟩
  · rw [inv.account]
    refine congrArg _ (congrArg _ (pendingSame (fun other member => callAtUpdate (away other ?_))).symm)
    exact memUsed.mpr (Or.inr (Or.inl member))

theorem callAtNode {heap : Heap Nat (Call F A)} {task : Nat} {node} (there : heap task = some node) :
    callAt heap task = [node.value] := by
  rw [callAt, there]
  rfl

theorem callAtPush (heap : Heap Nat (Call F A)) (queue : Queue Nat) (task other : Nat) :
    callAt (push heap queue task).1 other = callAt heap other := by
  rw [callAt, callAt, pushValue]

theorem pushNone {heap : Heap Nat (Call F A)} {queue : Queue Nat} {task other : Nat} (there : heap other ≠ none) :
    (push heap queue task).1 other ≠ none := by
  have same := pushValue heap queue task other
  intro gone
  rw [gone] at same
  exact there (Option.map_eq_none_iff.mp same.symm)

theorem storedLink {task : Nat} (inv : Stored s cells) (here : s.control = .linking task) : ∃ call, Stored {s with
    heap := (push s.heap s.queue task).1, queue := (push s.heap s.queue task).2, control := .linked
    added := s.added ++ callAt s.heap task} (cells ++ [(task,call)]) := by
  obtain ⟨function,arg,node⟩ := inv.filled task (by rw [here]; exact List.mem_singleton_self task)
  have own : callAt s.heap task = [⟨function,arg,s.added.length⟩] := callAtNode node
  have parts : used s cells = task ::ₘ ((addresses cells : Multiset Nat) + (s.workers.flatMap WorkerPc.task : List Nat)) := by
    simp only [used, here, ControlPc.task]
    rw [Multiset.coe_singleton, ← Multiset.singleton_add]
    abel
  have fresh : task ∉ addresses cells := by
    have distinct := inv.apart
    rw [parts] at distinct
    exact fun member => (Multiset.nodup_cons.mp distinct).1 (Multiset.mem_add.mpr (Or.inl member))
  have same : ∀ heap queue added call, used {s with heap := heap, queue := queue, control := .linked, added := added}
      (cells ++ [(task,call)]) = used s cells := by
    intro heap queue added call
    rw [parts]
    simp only [used, ControlPc.task, addresses, List.map_append, List.map_cons, List.map_nil, ← Multiset.coe_add]
    rw [Multiset.coe_singleton, Multiset.coe_nil, ← Multiset.singleton_add]
    abel
  refine ⟨⟨function,arg,s.added.length⟩,pushRepresents inv.queue fresh node,?_,?_,?_,?_,?_,?_⟩
  · simp only [own, inv.order, values, List.map_append, List.map_cons, List.map_nil, List.append_assoc]
  · rw [own, List.map_append, inv.numbered, List.length_append, List.length_singleton, List.range_succ]
    rfl
  · rw [same]
    exact inv.apart
  · intro other member
    rw [same] at member
    exact pushNone (inv.kept other member)
  · exact fun other member => absurd member List.not_mem_nil
  · rw [inv.account]
    refine congrArg _ (congrArg _ (pendingSame (fun other _ => callAtPush _ _ _ _)).symm)

theorem storedDequeue {w task : Nat} {queue : Queue Nat} (inv : Stored s cells) (here : s.workers[w]? = some .leaving)
    (popped : pop s.heap s.queue = some (task,queue)) : ∃ rest, Stored (setWorker {s with
      queue := queue, lock := none, dequeued := s.dequeued ++ callAt s.heap task} w (.running task)) rest := by
  cases cells with
  | nil =>
    rw [pop, (headEmpty inv.queue).mpr rfl] at popped
    contradiction
  | cons first rest =>
    obtain ⟨first,call⟩ := first
    obtain ⟨queue,popped',remains⟩ := popRepresents inv.queue
    cases Option.some.inj (popped'.symm.trans popped)
    obtain ⟨next,node⟩ := chainNode inv.queue.chain List.mem_cons_self
    have own : callAt s.heap task = [call] := callAtNode node
    have tasks := Crew.flatMapMoved WorkerPc.task here (.running task)
    have pending := Crew.flatMapMoved (pendingCall s.heap) here (.running task)
    simp only [WorkerPc.task, pendingCall, Multiset.coe_nil, zero_add, own] at tasks pending
    have same : used (setWorker {s with
        queue := queue, lock := none, dequeued := s.dequeued ++ callAt s.heap task} w (.running task)) rest =
        used s ((task,call)::rest) := by
      simp only [used, setWorker, tasks, addresses, List.map_cons, ← Multiset.cons_coe, ← Multiset.singleton_add,
        Multiset.coe_nil]
      abel
    refine ⟨rest,remains,?_,inv.numbered,?_,?_,inv.filled,?_⟩
    · simp only [setWorker, own, inv.order, values, List.map_cons, List.append_assoc, List.singleton_append]
    · rw [same]
      exact inv.apart
    · rw [same]
      exact inv.kept
    · simp only [setWorker, own, pending, ← Multiset.coe_add, inv.account]
      abel

theorem storedRun {w task : Nat} {node} (inv : Stored s cells) (here : s.workers[w]? = some (.running task))
    (there : s.heap task = some node) :
    Stored (setWorker {s with executed := s.executed ++ [node.value]} w (.freeing task)) cells := by
  have tasks := Crew.flatMapMoved WorkerPc.task here (.freeing task)
  have pending := Crew.flatMapMoved (pendingCall s.heap) here (.freeing task)
  simp only [WorkerPc.task, pendingCall, Multiset.coe_nil, zero_add, callAtNode there] at tasks pending
  have same : used (setWorker {s with executed := s.executed ++ [node.value]} w (.freeing task)) cells = used s cells := by
    simp only [used, setWorker, add_left_cancel tasks]
  refine ⟨inv.queue,inv.order,inv.numbered,?_,?_,inv.filled,?_⟩
  · rw [same]
    exact inv.apart
  · rw [same]
    exact inv.kept
  · simp only [setWorker]
    rw [inv.account, ← pending, ← Multiset.coe_add, add_assoc]

theorem storedFree {w task : Nat} (inv : Stored s cells) (here : s.workers[w]? = some (.freeing task)) :
    Stored (setWorker {s with heap := Function.update s.heap task none} w .entering) cells := by
  have tasks := Crew.flatMapMoved WorkerPc.task here .entering
  have pending := Crew.flatMapMoved (pendingCall s.heap) here .entering
  simp only [WorkerPc.task, pendingCall, Multiset.coe_nil, zero_add] at tasks pending
  have whole : used s cells = task ::ₘ used (setWorker {s with heap := Function.update s.heap task none} w .entering) cells := by
    simp only [used, setWorker, ← tasks]
    rw [Multiset.coe_singleton, ← Multiset.singleton_add]
    abel
  have distinct := inv.apart
  have kept := inv.kept
  rw [whole] at distinct kept
  obtain ⟨alone,distinct⟩ := Multiset.nodup_cons.mp distinct
  have away : ∀ other ∈ used (setWorker {s with heap := Function.update s.heap task none} w .entering) cells,
      other ≠ task := by
    rintro other member rfl
    exact alone member
  refine ⟨?_,inv.order,inv.numbered,distinct,?_,?_,?_⟩
  · exact representsFrame inv.queue (fun other member =>
      Function.update_of_ne (away other (memUsed.mpr (Or.inl member))) _ _)
  · intro other member
    simp only [setWorker, Function.update_of_ne (away other member)]
    exact kept other (Multiset.mem_cons_of_mem member)
  · intro other member
    simp only [setWorker, Function.update_of_ne (away other (memUsed.mpr (Or.inr (Or.inr member))))]
    exact inv.filled other member
  · have unread : (s.workers.set w .entering).flatMap (pendingCall (Function.update s.heap task none)) =
        (s.workers.set w .entering).flatMap (pendingCall s.heap) :=
      pendingSame (fun other member => callAtUpdate (away other (memUsed.mpr (Or.inr (Or.inl member)))))
    simp only [setWorker, unread]
    rw [pending]
    exact inv.account

theorem heldCreated (workers : List WorkerPc) : SameHeld workers (workers ++ [.entering]) := by
  intro B f nothing
  rw [List.flatMap_append, List.flatMap_singleton, nothing .entering rfl, List.append_nil]

theorem heldStill (workers : List WorkerPc) : SameHeld workers workers := fun _ _ _ => rfl

end

/- Before thread_pool_create has returned, and after it has failed. -/
def ControlPc.early : ControlPc → Bool
  | .creating => true
  | .flagged => true
  | .joining failed _ => failed
  | .failed => true
  | _ => false

structure Queued {F A : Type} (s : State F A) (cells : List (Nat × Call F A)) : Prop where
  guarded : Guarded s
  stored : Stored s cells
  ready : ∀ w : Nat, s.workers[w]? = some .leaving → s.queue.head ≠ none ∨ s.shutdown = true
  quit : .exited ∈ s.workers → s.shutdown = true ∧ s.queue.head = none
  manned : ControlPc.early s.control = false → 0 < s.workers.length
  idle : ControlPc.early s.control = true → s.added = []
  released : ∀ task, s.control = .releasing task → task = none
  calm : ControlPc.closes s.control = true → Calm s

section
variable {F A : Type} {threadCounts : Int} {s t : State F A} {a : Action F A} {cells : List (Nat × Call F A)}

theorem storedStep (inv : Queued s cells) (made : Step threadCounts s a t) : ∃ rest, Stored t rest := by
  have stored := inv.stored
  have still := heldStill s.workers
  cases made with
  | create here more => exact ⟨cells,storedSame stored rfl rfl rfl rfl rfl rfl (heldCreated s.workers)⟩
  | createFails here more => exact ⟨cells,storedSame stored rfl rfl rfl rfl rfl (by rw [here]; rfl) still⟩
  | created here all => exact ⟨cells,storedSame stored rfl rfl rfl rfl rfl (by rw [here]; rfl) still⟩
  | refused here => exact ⟨cells,stored⟩
  | add here running fresh => exact ⟨cells,storedAdd stored here fresh⟩
  | lock here free => exact ⟨cells,storedSame stored rfl rfl rfl rfl rfl (by rw [here]; rfl) still⟩
  | lockLast here free => exact ⟨cells,storedSame stored rfl rfl rfl rfl rfl (by rw [here]; rfl) still⟩
  | link here =>
    obtain ⟨call,linked⟩ := storedLink stored here
    exact ⟨_,linked⟩
  | signalNone here nobody => exact ⟨cells,storedSame stored rfl rfl rfl rfl rfl (by rw [here]; rfl) still⟩
  | signal here waits =>
    exact ⟨cells,storedSame stored rfl rfl rfl rfl rfl (by rw [here]; rfl) (heldMoved waits .woken rfl rfl)⟩
  | unlock here => exact ⟨cells,storedSame stored rfl rfl rfl rfl rfl (by rw [here]; rfl) still⟩
  | unlockLast here => exact ⟨cells,storedSame stored rfl rfl rfl rfl rfl (by rw [here]; rfl) still⟩
  | destroy here => exact ⟨cells,storedSame stored rfl rfl rfl rfl rfl (by rw [here]; rfl) still⟩
  | mark here => exact ⟨cells,storedSame stored rfl rfl rfl rfl rfl (by rw [here]; rfl) still⟩
  | broadcastFailed here =>
    exact ⟨cells,storedSame stored rfl rfl rfl rfl rfl (by rw [here]; rfl) (heldAwakened s.workers)⟩
  | broadcast here =>
    exact ⟨cells,storedSame stored rfl rfl rfl rfl rfl (by rw [here]; rfl) (heldAwakened s.workers)⟩
  | join here exited => exact ⟨cells,storedSame stored rfl rfl rfl rfl rfl (by rw [here]; rfl) still⟩
  | @joined failed i here all =>
    refine ⟨cells,storedSame stored rfl rfl rfl rfl rfl ?_ still⟩
    rw [here]
    cases failed <;> rfl
  | release here left => exact nomatch inv.released _ here
  | released here => exact ⟨cells,storedSame stored rfl rfl rfl rfl rfl (by rw [here]; rfl) still⟩
  | enter here free => exact ⟨cells,storedSame stored rfl rfl rfl rfl rfl rfl (heldMoved here .testing rfl rfl)⟩
  | reenter here free => exact ⟨cells,storedSame stored rfl rfl rfl rfl rfl rfl (heldMoved here .testing rfl rfl)⟩
  | sleepy here empty running =>
    exact ⟨cells,storedSame stored rfl rfl rfl rfl rfl rfl (heldMoved here .blocking rfl rfl)⟩
  | test here settled => exact ⟨cells,storedSame stored rfl rfl rfl rfl rfl rfl (heldMoved here .leaving rfl rfl)⟩
  | block here => exact ⟨cells,storedSame stored rfl rfl rfl rfl rfl rfl (heldMoved here .waiting rfl rfl)⟩
  | wake here => exact ⟨cells,storedSame stored rfl rfl rfl rfl rfl rfl (heldMoved here .woken rfl rfl)⟩
  | exit here settled empty => exact ⟨cells,storedSame stored rfl rfl rfl rfl rfl rfl (heldMoved here .exited rfl rfl)⟩
  | dequeue here popped => exact storedDequeue stored here popped
  | run here there => exact ⟨cells,storedRun stored here there⟩
  | free here => exact ⟨cells,storedFree stored here⟩

theorem leavingBefore {w i : Nat} {q} (there : (s.workers.set w q)[i]? = some .leaving) (other : q ≠ .leaving) :
    s.workers[i]? = some .leaving := by
  rcases Crew.setCases there with ⟨_,same⟩ | ⟨_,old⟩
  · exact absurd same.symm other
  · exact old

/- A worker past the loop finds a task or the flag. -/
theorem readyStep (inv : Queued s cells) (made : Step threadCounts s a t) :
    ∀ i : Nat, t.workers[i]? = some .leaving → t.queue.head ≠ none ∨ t.shutdown = true := by
  intro i there
  cases made with
  | create here more =>
    rcases createdAt there with old | new
    · exact inv.ready i old
    · contradiction
  | createFails here more => exact Or.inr rfl
  | mark here => exact Or.inr rfl
  | link here =>
    have locked := inv.guarded.controlLock (by rw [here]; rfl)
    have nobody := nobodyHolds inv.guarded (Or.inr locked) there
    contradiction
  | signal here waits => exact inv.ready i (leavingBefore there (by simp))
  | broadcastFailed here =>
    obtain ⟨p,old,same⟩ := awakenedAt there
    cases p <;> first | contradiction | exact inv.ready i old
  | broadcast here =>
    obtain ⟨p,old,same⟩ := awakenedAt there
    cases p <;> first | contradiction | exact inv.ready i old
  | enter here free => exact inv.ready i (leavingBefore there (by simp))
  | reenter here free => exact inv.ready i (leavingBefore there (by simp))
  | sleepy here empty running => exact inv.ready i (leavingBefore there (by simp))
  | test here settled => exact settled
  | block here => exact inv.ready i (leavingBefore there (by simp))
  | wake here => exact inv.ready i (leavingBefore there (by simp))
  | exit here settled empty => exact Or.inr settled
  | dequeue here popped =>
    have nobody := released inv.guarded here rfl rfl there
    contradiction
  | run here node => exact inv.ready i (leavingBefore there (by simp))
  | free here => exact inv.ready i (leavingBefore there (by simp))
  | _ => exact inv.ready i there

/- Workers leave on an empty queue, and nothing is added after the flag. -/
theorem quitStep (inv : Queued s cells) (made : Step threadCounts s a t) :
    .exited ∈ t.workers → t.shutdown = true ∧ t.queue.head = none := by
  intro member
  cases made with
  | create here more =>
    rcases List.mem_append.mp member with old | new
    · exact inv.quit old
    · cases List.mem_singleton.mp new
  | createFails here more => exact ⟨rfl,(inv.quit member).2⟩
  | mark here => exact ⟨rfl,(inv.quit member).2⟩
  | link here =>
    have closed := inv.guarded.closing.mp (inv.quit member).1
    rw [here] at closed
    contradiction
  | signal here waits => exact inv.quit (Crew.setBefore member (by simp))
  | broadcastFailed here => exact inv.quit (awakenedBefore member (by simp))
  | broadcast here => exact inv.quit (awakenedBefore member (by simp))
  | enter here free => exact inv.quit (Crew.setBefore member (by simp))
  | reenter here free => exact inv.quit (Crew.setBefore member (by simp))
  | sleepy here empty running => exact inv.quit (Crew.setBefore member (by simp))
  | test here settled => exact inv.quit (Crew.setBefore member (by simp))
  | block here => exact inv.quit (Crew.setBefore member (by simp))
  | wake here => exact inv.quit (Crew.setBefore member (by simp))
  | exit here settled empty => exact ⟨settled,empty⟩
  | dequeue here popped =>
    have before := (inv.quit (Crew.setBefore member (by simp))).2
    rw [pop, before] at popped
    contradiction
  | run here node => exact inv.quit (Crew.setBefore member (by simp))
  | free here => exact inv.quit (Crew.setBefore member (by simp))
  | _ => exact inv.quit member

theorem crewGrows (made : Step threadCounts s a t) : s.workers.length ≤ t.workers.length := by
  cases made <;> simp [setWorker]

theorem mannedStep (inv : Queued s cells) (positive : 0 < threadCounts) (made : Step threadCounts s a t) :
    ControlPc.early t.control = false → 0 < t.workers.length := by
  intro late
  have grows := crewGrows made
  have before : ControlPc.early s.control = false → 0 < t.workers.length :=
    fun early => Nat.lt_of_lt_of_le (inv.manned early) grows
  cases made with
  | create here more =>
    rw [here] at late
    contradiction
  | created here all =>
    dsimp only
    omega
  | refused here => exact before late
  | add here running fresh => exact before (by rw [here]; rfl)
  | lock here free => exact before (by rw [here]; rfl)
  | lockLast here free => exact before (by rw [here]; rfl)
  | link here => exact before (by rw [here]; rfl)
  | signalNone here nobody => exact before (by rw [here]; rfl)
  | unlock here => exact before (by rw [here]; rfl)
  | unlockLast here => exact before (by rw [here]; rfl)
  | destroy here => exact before (by rw [here]; rfl)
  | mark here => exact before (by rw [here]; rfl)
  | signal here waits => exact before (by rw [here]; rfl)
  | broadcast here => exact before (by rw [here]; rfl)
  | join here exited =>
    rw [here] at before
    exact before late
  | @joined failed i here all =>
    rw [here] at before
    cases failed with
    | true => contradiction
    | false => exact before rfl
  | release here left => exact before (by rw [here]; rfl)
  | released here => exact before (by rw [here]; rfl)
  | enter here free => exact before late
  | reenter here free => exact before late
  | sleepy here empty running => exact before late
  | test here settled => exact before late
  | block here => exact before late
  | wake here => exact before late
  | exit here settled empty => exact before late
  | dequeue here popped => exact before late
  | run here node => exact before late
  | free here => exact before late
  | _ => contradiction

theorem idleStep (inv : Queued s cells) (made : Step threadCounts s a t) :
    ControlPc.early t.control = true → t.added = [] := by
  intro early
  have before := inv.idle
  cases made with
  | create here more => exact before early
  | createFails here more => exact before (by rw [here]; rfl)
  | refused here => exact before early
  | broadcastFailed here => exact before (by rw [here]; rfl)
  | join here exited =>
    rw [here] at before
    exact before early
  | @joined failed i here all =>
    rw [here] at before
    cases failed with
    | true => exact before rfl
    | false => contradiction
  | enter here free => exact before early
  | reenter here free => exact before early
  | sleepy here empty running => exact before early
  | test here settled => exact before early
  | block here => exact before early
  | wake here => exact before early
  | exit here settled empty => exact before early
  | dequeue here popped => exact before early
  | run here node => exact before early
  | free here => exact before early
  | _ => contradiction

/- All workers are joined: there was one, and it left on an empty queue. -/
theorem joinedEmpty (inv : Queued s cells) (late : ControlPc.early s.control = false)
    (all : s.workers.length ≤ ControlPc.joins s.workers.length s.control) : s.queue.head = none := by
  have one := inv.manned late
  have exited := inv.guarded.joined 0 (Nat.lt_of_lt_of_le one all)
  exact (inv.quit (List.mem_of_getElem? exited)).2

theorem releasedStep (inv : Queued s cells) (made : Step threadCounts s a t) :
    ∀ task, t.control = .releasing task → task = none := by
  intro task main
  have before := inv.released task
  cases made with
  | create here more => exact before main
  | refused here => exact before main
  | @joined failed i here all =>
    cases failed with
    | true => contradiction
    | false =>
      cases main
      refine joinedEmpty inv (by rw [here]; rfl) ?_
      rw [here]
      exact List.getElem?_eq_none_iff.mp all
  | release here left => exact nomatch inv.released _ here
  | enter here free => exact before main
  | reenter here free => exact before main
  | sleepy here empty running => exact before main
  | test here settled => exact before main
  | block here => exact before main
  | wake here => exact before main
  | exit here settled empty => exact before main
  | dequeue here popped => exact before main
  | run here node => exact before main
  | free here => exact before main
  | _ => contradiction

theorem calmedStep (inv : Queued s cells) (made : Step threadCounts s a t) :
    ControlPc.closes t.control = true → Calm t := by
  intro closes
  rcases closesStep made closes with before | ⟨workers,marked⟩
  · exact calmStep (inv.calm before) (inv.guarded.closing.mpr (issuedClosed (closesIssued before))) made
  · unfold Calm
    rw [workers]
    exact awakenedCalm (controlTested inv.guarded (by rw [marked]; rfl))

theorem queuedStep (positive : 0 < threadCounts) (inv : Queued s cells) (made : Step threadCounts s a t) :
    ∃ rest, Queued t rest := by
  obtain ⟨rest,stored⟩ := storedStep inv made
  exact ⟨rest,guardedStep inv.guarded made,stored,readyStep inv made,quitStep inv made,mannedStep inv positive made,
    idleStep inv made,releasedStep inv made,calmedStep inv made⟩

theorem initialQueued : Queued (initial : State F A) [] := by
  refine ⟨initialGuarded,storedEmpty,?_,?_,?_,?_,?_,?_⟩
  · exact fun w there => nomatch there
  · exact fun member => absurd member List.not_mem_nil
  · exact fun late => nomatch late
  · exact fun _ => rfl
  · exact fun task main => nomatch main
  · exact fun closes => nomatch closes

theorem reachQueued {allowed} (reached : Reach (pool threadCounts) allowed s) :
    0 < threadCounts ∧ ∃ cells, Queued s cells := by
  refine reachInvariant (I := fun s => 0 < threadCounts ∧ ∃ cells, Queued s cells) ?_ ?_ reached
  · rintro s ⟨positive,rfl⟩
    exact ⟨positive,[],initialQueued⟩
  · intro s a t ⟨positive,cells,inv⟩ _ made
    exact ⟨positive,queuedStep positive inv (stepSound made)⟩

/- Every worker has been joined. -/
def Joined (s : State F A) : Prop :=
  ControlPc.closed s.control = true ∧ s.workers.length ≤ ControlPc.joins s.workers.length s.control

theorem addedDistinct (inv : Stored s cells) : s.added.Nodup := by
  have distinct : (s.added.map Call.number).Nodup := by
    rw [inv.numbered]
    exact List.nodup_range
  exact List.Nodup.of_map _ distinct

/- What was run was taken before. -/
theorem executedTaken (inv : Stored s cells) : (s.executed : Multiset (Call F A)) ≤ s.dequeued := by
  rw [inv.account]
  exact Multiset.le_add_right _ _

theorem executedDistinct (inv : Stored s cells) : s.executed.Nodup := by
  have taken : s.dequeued.Nodup := by
    have distinct := addedDistinct inv
    rw [inv.order] at distinct
    exact (List.nodup_append.mp distinct).1
  exact Multiset.coe_nodup.mp (Multiset.nodup_of_le (executedTaken inv) (Multiset.coe_nodup.mpr taken))

theorem joinedNothing (inv : Queued s cells) (joined : Joined s) : cells = [] := by
  cases early : ControlPc.early s.control with
  | true =>
    have order := inv.stored.order
    rw [inv.idle early] at order
    exact List.map_eq_nil_iff.mp (List.append_eq_nil_iff.mp order.symm).2
  | false => exact (headEmpty inv.stored.queue).mp (joinedEmpty inv early joined.2)

theorem joinedDone (inv : Queued s cells) (joined : Joined s) :
    s.queue.head = none ∧ s.dequeued = s.added ∧ s.executed.Perm s.added := by
  have empty := joinedNothing inv joined
  have order := inv.stored.order
  rw [empty] at order
  have all : s.dequeued = s.added := by
    rw [order]
    exact (List.append_nil _).symm
  have idle : s.workers.flatMap (pendingCall s.heap) = [] := by
    refine List.flatMap_eq_nil_iff.mpr (fun p member => ?_)
    obtain ⟨i,bound,same⟩ := List.mem_iff_getElem.mp member
    have exited := inv.guarded.joined i (Nat.lt_of_lt_of_le bound joined.2)
    rw [List.getElem?_eq_getElem bound, same] at exited
    cases Option.some.inj exited
    rfl
  have account := inv.stored.account
  rw [idle, Multiset.coe_nil, add_zero, all] at account
  exact ⟨(headEmpty inv.stored.queue).mpr empty,all,(Multiset.coe_eq_coe.mp account).symm⟩

/- The steps that a worker takes at most until it exits, but for the tasks it still finds. -/
def WorkerPc.left : WorkerPc → Nat
  | .leaving => 1
  | .testing => 2
  | .entering => 3
  | .woken => 3
  | .freeing _ => 4
  | .running _ => 5
  | _ => 0

def ControlPc.left (count : Nat) : ControlPc → Nat
  | .woke => count + 3
  | .joining _ i => count - i + 2
  | .releasing _ => 1
  | _ => 0

def remaining (s : State F A) : Nat :=
  5 * (s.added.length - s.dequeued.length) + (s.workers.map WorkerPc.left).sum +
    ControlPc.left s.workers.length s.control

theorem movedRemaining {w : Nat} {p q} (here : s.workers[w]? = some p) (less : WorkerPc.left q < WorkerPc.left p) :
    ((s.workers.set w q).map WorkerPc.left).sum < (s.workers.map WorkerPc.left).sum := by
  have moved := Crew.sumMoved WorkerPc.left here q
  omega

/- Past the broadcast of thread_pool_destroy every step brings its end nearer. -/
theorem remainingDrops (inv : Queued s cells) (closes : ControlPc.closes s.control = true)
    (made : Step threadCounts s a t) : remaining t < remaining s := by
  have calm := inv.calm closes
  cases made with
  | unlockLast here =>
    simp only [remaining, here, ControlPc.left]
    omega
  | join here exited =>
    obtain ⟨bound,_⟩ := List.getElem?_eq_some_iff.mp exited
    simp only [remaining, here, ControlPc.left]
    omega
  | @joined failed i here all =>
    rw [here] at closes
    cases failed with
    | true => contradiction
    | false =>
      simp only [remaining, here, ControlPc.left, Bool.false_eq_true, if_false]
      omega
  | release here left => exact nomatch inv.released _ here
  | released here =>
    simp only [remaining, here, ControlPc.left]
    omega
  | enter here free =>
    have less := movedRemaining here (q := .testing) (by decide)
    simp only [remaining, setWorker, List.length_set]
    omega
  | reenter here free =>
    have less := movedRemaining here (q := .testing) (by decide)
    simp only [remaining, setWorker, List.length_set]
    omega
  | sleepy here empty running =>
    rw [inv.guarded.closing.mpr (issuedClosed (closesIssued closes))] at running
    contradiction
  | test here settled =>
    have less := movedRemaining here (q := .leaving) (by decide)
    simp only [remaining, setWorker, List.length_set]
    omega
  | block here => exact absurd rfl (calm _ (List.mem_of_getElem? here)).2
  | wake here => exact absurd rfl (calm _ (List.mem_of_getElem? here)).1
  | exit here settled empty =>
    have less := movedRemaining here (q := .exited) (by decide)
    simp only [remaining, setWorker, List.length_set]
    omega
  | @dequeue w task queue here popped =>
    obtain ⟨rest,after⟩ := storedDequeue inv.stored here popped
    obtain ⟨node,there⟩ := popNode popped
    have size := congrArg List.length after.order
    have moved := Crew.sumMoved WorkerPc.left here (.running task)
    simp only [setWorker, callAtNode there, List.length_append, List.length_singleton] at size
    simp only [remaining, setWorker, callAtNode there, List.length_set, List.length_append, List.length_singleton]
    simp only [WorkerPc.left] at moved
    omega
  | @run w task node here there =>
    have less := movedRemaining here (q := .freeing task) (Nat.lt_succ_self 4)
    simp only [remaining, setWorker, List.length_set]
    omega
  | free here =>
    have less := movedRemaining here (q := .entering) (Nat.lt_succ_self 3)
    simp only [remaining, setWorker, List.length_set]
    omega
  | create here more => rw [here] at closes; contradiction
  | createFails here more => rw [here] at closes; contradiction
  | created here all => rw [here] at closes; contradiction
  | refused here => rw [here] at closes; contradiction
  | add here running fresh => rw [here] at closes; contradiction
  | lock here free => rw [here] at closes; contradiction
  | lockLast here free => rw [here] at closes; contradiction
  | link here => rw [here] at closes; contradiction
  | signalNone here nobody => rw [here] at closes; contradiction
  | signal here waits => rw [here] at closes; contradiction
  | unlock here => rw [here] at closes; contradiction
  | destroy here => rw [here] at closes; contradiction
  | mark here => rw [here] at closes; contradiction
  | broadcastFailed here => rw [here] at closes; contradiction
  | broadcast here => rw [here] at closes; contradiction

theorem closesStays (closes : ControlPc.closes s.control = true) (made : Step threadCounts s a t) :
    ControlPc.closes t.control = true := by
  cases made with
  | unlockLast here => rfl
  | join here exited =>
    rw [here] at closes
    exact closes
  | @joined failed i here all =>
    rw [here] at closes
    cases failed with
    | true => contradiction
    | false => rfl
  | release here left => rfl
  | released here => rfl
  | enter here free => exact closes
  | reenter here free => exact closes
  | sleepy here empty running => exact closes
  | test here settled => exact closes
  | block here => exact closes
  | wake here => exact closes
  | exit here settled empty => exact closes
  | dequeue here popped => exact closes
  | run here node => exact closes
  | free here => exact closes
  | create here more => exact closes
  | refused here => exact closes
  | createFails here more => rw [here] at closes; contradiction
  | created here all => rw [here] at closes; contradiction
  | add here running fresh => rw [here] at closes; contradiction
  | lock here free => rw [here] at closes; contradiction
  | lockLast here free => rw [here] at closes; contradiction
  | link here => rw [here] at closes; contradiction
  | signalNone here nobody => rw [here] at closes; contradiction
  | signal here waits => rw [here] at closes; contradiction
  | unlock here => rw [here] at closes; contradiction
  | destroy here => rw [here] at closes; contradiction
  | mark here => rw [here] at closes; contradiction
  | broadcastFailed here => rw [here] at closes; contradiction
  | broadcast here => rw [here] at closes; contradiction

/- A worker that is not about to wait or to exit has a next step, given the lock where it needs it. -/
theorem workerMoves (inv : Queued s cells) (settled : s.shutdown = true) {w : Nat} {p} (here : s.workers[w]? = some p)
    (awake : p ≠ .waiting ∧ p ≠ .blocking) (busy : p ≠ .exited) (free : WorkerPc.holds p = true ∨ s.lock = none) :
    ∃ a t, step threadCounts s a = some t := by
  cases p with
  | entering =>
    rcases free with held | free
    · contradiction
    · exact ⟨.worker w .lock,_,by simp only [step, here, workerMove, if_pos free]; rfl⟩
  | woken =>
    rcases free with held | free
    · contradiction
    · exact ⟨.worker w .lock,_,by simp only [step, here, workerMove, if_pos free]; rfl⟩
  | testing =>
    have guard : ¬ (s.queue.head = none ∧ s.shutdown = false) := fun both => by
      rw [settled] at both
      cases both.2
    exact ⟨.worker w .test,_,by simp only [step, here, workerMove, if_neg guard]; rfl⟩
  | blocking => exact absurd rfl awake.2
  | waiting => exact absurd rfl awake.1
  | leaving =>
    cases cells with
    | nil =>
      have empty := (headEmpty inv.stored.queue).mpr rfl
      exact ⟨.worker w .leave,_,by simp only [step, here, workerMove, if_pos (And.intro settled empty)]; rfl⟩
    | cons first rest =>
      obtain ⟨first,call⟩ := first
      obtain ⟨queue,popped,_⟩ := popRepresents inv.stored.queue
      have guard : ¬ (s.shutdown = true ∧ s.queue.head = none) := fun both => by
        rw [pop, both.2] at popped
        contradiction
      exact ⟨.worker w .leave,_,by simp only [step, here, workerMove, if_neg guard, popped]; rfl⟩
  | running task =>
    have member : task ∈ used s cells := memUsed.mpr (Or.inr (Or.inl (List.mem_flatMap.mpr
      ⟨_,List.mem_of_getElem? here,List.mem_singleton_self task⟩)))
    obtain ⟨node,there⟩ := Option.ne_none_iff_exists'.mp (inv.stored.kept task member)
    exact ⟨.worker w .run,_,by simp only [step, here, workerMove, there]; rfl⟩
  | freeing task => exact ⟨.worker w .free,_,by simp only [step, here, workerMove]; rfl⟩
  | exited => exact absurd rfl busy

/- Past that broadcast some thread can take a step until the pool is destroyed. -/
theorem neverStuck (inv : Queued s cells) (closes : ControlPc.closes s.control = true)
    (more : s.control ≠ .destroyed) : ∃ a t, step threadCounts s a = some t := by
  have calm := inv.calm closes
  have settled := inv.guarded.closing.mpr (issuedClosed (closesIssued closes))
  cases main : s.control with
  | woke => exact ⟨.unlock,_,by simp only [step, main]; rfl⟩
  | releasing task =>
    cases inv.released task main
    exact ⟨.release,_,by simp only [step, main, release]; rfl⟩
  | destroyed => exact absurd main more
  | joining failed i =>
    cases there : s.workers[i]? with
    | none => exact ⟨.join,_,by simp only [step, main, join, there]; rfl⟩
    | some p =>
      by_cases exited : p = .exited
      · rw [exited] at there
        exact ⟨.join,_,by simp only [step, main, join, there]; rfl⟩
      · have awake := calm p (List.mem_of_getElem? there)
        cases locked : s.lock with
        | none => exact workerMoves inv settled there awake exited (Or.inr locked)
        | some owner =>
          cases owner with
          | control =>
            have holds := inv.guarded.controlOwns locked
            rw [main] at holds
            contradiction
          | worker v =>
            obtain ⟨q,stands,holds⟩ := inv.guarded.workerOwns v locked
            refine workerMoves inv settled stands (calm q (List.mem_of_getElem? stands)) ?_ (Or.inl holds)
            rintro rfl
            contradiction
  | _ =>
    rw [main] at closes
    contradiction

theorem runBounded (positive : 0 < threadCounts) {as : List (Action F A)} (inv : Queued s cells)
    (closes : ControlPc.closes s.control = true) (ran : run (pool threadCounts) s as = some t) :
    as.length ≤ remaining s := by
  induction as generalizing s cells with
  | nil => exact Nat.zero_le _
  | cons a as ih =>
    simp only [run] at ran
    split at ran <;> try contradiction
    rename_i u made
    have step := stepSound made
    obtain ⟨rest,later⟩ := queuedStep positive inv step
    have shorter := ih later (closesStays closes step) ran
    have drops := remainingDrops inv closes step
    simp only [List.length_cons]
    omega

/- The nodes are the tasks in order, each is run at most once, and once all workers are joined,
which no run can put off for ever, exactly once. -/
theorem poolDrains (threadCounts : Int) (s : State F A) (reached : Reach (pool threadCounts) (fun _ _ => True) s) :
    (s.queue.head = none ↔ s.queue.tail = none) ∧
    (∃ cells, Represents s.heap s.queue cells ∧ s.added = s.dequeued ++ values cells) ∧
    s.added.Nodup ∧ s.executed.Nodup ∧ s.executed ⊆ s.dequeued ∧
    (Joined s → s.queue.head = none ∧ s.dequeued = s.added ∧ s.executed.Perm s.added) ∧
    (ControlPc.closes s.control = true →
      (s.control = .destroyed ∨ ∃ a t, step threadCounts s a = some t) ∧
      ∀ as t, run (pool threadCounts) s as = some t → as.length ≤ remaining s) := by
  obtain ⟨positive,cells,inv⟩ := reachQueued reached
  have queue := inv.stored.queue
  refine ⟨(headEmpty queue).trans (tailEmpty queue).symm,⟨cells,queue,inv.stored.order⟩,addedDistinct inv.stored,
    executedDistinct inv.stored,?_,joinedDone inv,fun closes => ⟨?_,fun as t ran => runBounded positive inv closes ran⟩⟩
  · exact fun call member => Multiset.mem_of_le (executedTaken inv.stored) member
  · by_cases settled : s.control = .destroyed
    · exact Or.inl settled
    · exact Or.inr (neverStuck inv closes settled)

end

/- Two tasks through one worker, and the end of the pool. -/
def twoTasks : List (ThreadPool.Action Nat Nat) :=
  [.create,.created,.add (some 7) 1 (some 0),.lock,.link,.signal none,.unlock,.add (some 7) 2 (some 1),.lock,.link,
    .signal none,.unlock,.destroy,.worker 0 .lock,.worker 0 .test,.worker 0 .leave,.lock,.mark,.worker 0 .run,
    .broadcast,.unlock,.worker 0 .free,.worker 0 .lock,.worker 0 .test,.worker 0 .leave,.worker 0 .run,.worker 0 .free,
    .worker 0 .lock,.worker 0 .test,.worker 0 .leave,.join,.join,.release]

theorem twoDrained : ∃ s : State Nat Nat, Reach (pool 1) (fun _ _ => True) s ∧ s.control = .destroyed ∧
    s.added = [⟨7,1,0⟩,⟨7,2,1⟩] ∧ s.executed.Perm s.added := by
  have start : Reach (pool 1) (fun _ _ => True) (initial : State Nat Nat) := initialReach (by decide) _
  obtain ⟨s,reached,seen⟩ := reachSeen start (fun s => (s.control,s.workers,s.added)) (followsAll _ twoTasks)
    (b := (.destroyed,[.exited],[⟨7,1,0⟩,⟨7,2,1⟩])) (by decide)
  obtain ⟨control,rest⟩ := Prod.mk.inj seen
  obtain ⟨workers,added⟩ := Prod.mk.inj rest
  have joined : Joined s := by
    rw [Joined, control, workers]
    exact ⟨rfl,Nat.le_refl _⟩
  exact ⟨s,reached,control,added,((poolDrains 1 s reached).2.2.2.2.2.1 joined).2.2⟩

end EpollHttpServer.TaskQueue
