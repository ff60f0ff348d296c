import EpollHttpServer.TaskQueue

/-! No wake-up is lost. A signal is not counted: it wakes a worker that waits or it does nothing.
What makes up for it is the lock, under which a worker tests the queue and begins to wait, and
under which a task is linked and the signal is sent. -/
namespace EpollHttpServer.WakeUps
open ThreadPool Shutdown TaskQueue LinkedQueue Runs

/- Some worker will look at the queue without a signal. -/
def Attended {F A : Type} (s : State F A) : Prop := ∃ p ∈ s.workers, p ≠ .waiting ∧ p ≠ .exited

/- Both clauses rest on the lock: the queue that a worker has found empty stays so until it waits,
and a task with nobody awake is seen between link and signal only. -/
structure Watched {F A : Type} (s : State F A) : Prop where
  empty : .blocking ∈ s.workers → s.queue.head = none
  attended : s.shutdown = false → s.queue.head ≠ none → s.control ≠ .linked → Attended s

section
variable {F A : Type} {threadCounts : Int} {s t : State F A} {a : Action F A} {cells : List (Nat × Call F A)}

theorem runningBefore (made : Step threadCounts s a t) (running : t.shutdown = false) : s.shutdown = false := by
  cases made with
  | createFails here more => contradiction
  | mark here => contradiction
  | _ => exact running

/- The worker that has just moved. -/
theorem movedAttends {w : Nat} {p} (here : s.workers[w]? = some p) {q : WorkerPc} (awake : q ≠ .waiting ∧ q ≠ .exited) :
    ∃ r ∈ s.workers.set w q, r ≠ .waiting ∧ r ≠ .exited :=
  ⟨q,List.mem_of_getElem? (Crew.setSelf here q),awake⟩

/- A signal without effect: nobody waits, and before the shutdown nobody has left. -/
theorem nobodyWaits (inv : Queued s cells) (running : s.shutdown = false) (late : ControlPc.early s.control = false)
    (nobody : .waiting ∉ s.workers) : Attended s := by
  obtain ⟨p,member⟩ := List.exists_mem_of_length_pos (inv.manned late)
  refine ⟨p,member,?_,?_⟩
  · rintro rfl
    exact nobody member
  · rintro rfl
    rw [(inv.quit member).1] at running
    contradiction

theorem emptyStep (inv : Queued s cells) (watched : Watched s) (made : Step threadCounts s a t) :
    .blocking ∈ t.workers → t.queue.head = none := by
  intro member
  cases made with
  | create here more =>
    rcases List.mem_append.mp member with old | new
    · exact watched.empty old
    · cases List.mem_singleton.mp new
  | link here =>
    have tested : .blocking ∉ s.workers := controlTested inv.guarded (by rw [here]; rfl)
    exact absurd member tested
  | broadcastFailed here => exact watched.empty (awakenedBefore member (by simp))
  | broadcast here => exact watched.empty (awakenedBefore member (by simp))
  | sleepy here empty running => exact empty
  | @dequeue w task queue here popped =>
    -- Whoever takes a task has the lock, so that nobody else stands before its wait.
    obtain ⟨v,there⟩ := List.mem_iff_getElem?.mp member
    have holds := released inv.guarded here rfl (q := .running task) rfl there
    contradiction
  | signal here waits => exact watched.empty (Crew.setBefore member (by simp))
  | enter here free => exact watched.empty (Crew.setBefore member (by simp))
  | reenter here free => exact watched.empty (Crew.setBefore member (by simp))
  | test here settled => exact watched.empty (Crew.setBefore member (by simp))
  | block here => exact watched.empty (Crew.setBefore member (by simp))
  | wake here => exact watched.empty (Crew.setBefore member (by simp))
  | exit here settled empty => exact watched.empty (Crew.setBefore member (by simp))
  | run here node => exact watched.empty (Crew.setBefore member (by simp))
  | free here => exact watched.empty (Crew.setBefore member (by simp))
  | _ => exact watched.empty member

theorem attendedStep (inv : Queued s cells) (watched : Watched s) (made : Step threadCounts s a t) :
    t.shutdown = false → t.queue.head ≠ none → t.control ≠ .linked → Attended t := by
  intro running filled signalled
  have before := watched.attended (runningBefore made running)
  cases made with
  | create here more => exact ⟨.entering,List.mem_append_right _ (List.mem_singleton_self _),by simp⟩
  | refused here => exact before filled signalled
  | created here all => exact before filled (by rw [here]; simp)
  | add here running fresh => exact before filled (by rw [here]; simp)
  | lock here free => exact before filled (by rw [here]; simp)
  | lockLast here free => exact before filled (by rw [here]; simp)
  | unlock here => exact before filled (by rw [here]; simp)
  | unlockLast here => exact before filled (by rw [here]; simp)
  | destroy here => exact before filled (by rw [here]; simp)
  | join here exited => exact before filled (by rw [here]; simp)
  | joined here all => exact before filled (by rw [here]; simp)
  | release here left => exact before filled (by rw [here]; simp)
  | released here => exact before filled (by rw [here]; simp)
  | link here => exact absurd rfl signalled
  | signalNone here nobody =>
    have awake : Attended s := nobodyWaits inv running (by rw [here]; rfl) nobody
    exact awake
  | signal here waits => exact movedAttends waits (by simp)
  | createFails here more => contradiction
  | mark here => contradiction
  | broadcastFailed here =>
    rw [inv.guarded.closing.mpr (by rw [here]; rfl)] at running
    contradiction
  | broadcast here =>
    rw [inv.guarded.closing.mpr (by rw [here]; rfl)] at running
    contradiction
  | enter here free => exact movedAttends here (by simp)
  | reenter here free => exact movedAttends here (by simp)
  | sleepy here empty running => exact movedAttends here (by simp)
  | test here settled => exact movedAttends here (by simp)
  | block here => exact absurd (watched.empty (List.mem_of_getElem? here)) filled
  | wake here => exact movedAttends here (by simp)
  | exit here settled empty => exact absurd empty filled
  | dequeue here popped => exact movedAttends here (by simp)
  | run here node => exact movedAttends here (by simp)
  | free here => exact movedAttends here (by simp)

theorem initialWatched : Watched (initial : State F A) :=
  ⟨fun member => absurd member List.not_mem_nil,fun _ filled => absurd rfl filled⟩

theorem reachWatched {allowed} (reached : Reach (pool threadCounts) allowed s) :
    0 < threadCounts ∧ ∃ cells, Queued s cells ∧ Watched s := by
  refine reachInvariant (I := fun s => 0 < threadCounts ∧ ∃ cells, Queued s cells ∧ Watched s) ?_ ?_ reached
  · rintro s ⟨positive,rfl⟩
    exact ⟨positive,[],initialQueued,initialWatched⟩
  · intro s a t ⟨positive,cells,inv,watched⟩ _ made
    have step := stepSound made
    obtain ⟨rest,later⟩ := queuedStep positive inv step
    exact ⟨positive,rest,later,emptyStep inv watched step,attendedStep inv watched step⟩

/- With the lock free, a task in the queue never finds all workers asleep. -/
theorem queuedAttended (threadCounts : Int) (s : State F A) (reached : Reach (pool threadCounts) (fun _ _ => True) s)
    (running : s.shutdown = false) (free : s.lock = none) (queued : s.queue.head ≠ none) :
    ∃ p ∈ s.workers, p ≠ .waiting ∧ p ≠ .exited := by
  obtain ⟨_,cells,inv,watched⟩ := reachWatched reached
  refine watched.attended running queued (fun linked => ?_)
  have locked := inv.guarded.controlLock (by rw [linked]; rfl)
  rw [free] at locked
  contradiction

end

/- The worker that is woken for the first task finds it taken by the other one; the signal for the
second task finds nobody waiting. -/
def takenBefore : List (ThreadPool.Action Nat Nat) :=
  [.create,.create,.created,.worker 1 .lock,.worker 1 .test,.worker 1 .block,.add (some 7) 1 (some 0),.lock,.link,
    .signal (some 1),.unlock,.worker 0 .lock,.worker 0 .test,.worker 0 .leave,.add (some 7) 2 (some 1),.lock,.link,
    .signal none,.unlock]

theorem takenAttended : ∃ s : State Nat Nat, Reach (pool 2) (fun _ _ => True) s ∧ s.queue.head = some 1 ∧
    ∃ p ∈ s.workers, p ≠ .waiting ∧ p ≠ .exited := by
  have start : Reach (pool 2) (fun _ _ => True) (initial : State Nat Nat) := initialReach (by decide) _
  obtain ⟨s,reached,seen⟩ := reachSeen start (fun s => (s.shutdown,s.lock,s.queue.head)) (followsAll _ takenBefore)
    (b := (false,none,some 1)) (by decide)
  obtain ⟨running,rest⟩ := Prod.mk.inj seen
  obtain ⟨free,queued⟩ := Prod.mk.inj rest
  exact ⟨s,reached,queued,queuedAttended 2 s reached running free (by rw [queued]; exact Option.some_ne_none 1)⟩

end EpollHttpServer.WakeUps
