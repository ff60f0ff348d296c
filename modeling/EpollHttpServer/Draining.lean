import EpollHttpServer.ConnectionTable

/-! The end of server_run. Once the main loop has ended, the workers take what is in the queue and no more
comes; they are never stuck before all of it is done, and then the cleanup closes every connection that is
left. -/
namespace EpollHttpServer.Draining
open CString FileSystem Worker Server Ownership ConnectionTable Runs

def Action.works : Action → Bool
  | .worker _ _ => true
  | _ => false

/- How many turns a worker has before it, and with it a task in the queue. -/
def turnsLeft : WorkerPc → Nat
  | .idle => 0
  | .taken _ => 5
  | .holding .marked _ _ => 4
  | .holding .running _ _ => 3
  | .holding .closing _ _ => 2
  | .holding _ _ _ => 1

def workLeft (s : State) : Nat := 6 * s.queue.length + (s.workers.map turnsLeft).sum

section
variable {config : ServerConfig} {own : Nat → Bool} {s t : State} {a : Action}

theorem turnTaken {w : Nat} {p q} (here : s.workers[w]? = some p) (workers : t.workers = s.workers.set w q)
    (queue : t.queue = s.queue) (less : turnsLeft q < turnsLeft p) : workLeft t < workLeft s := by
  have moved := Crew.sumMoved turnsLeft here q
  rw [workLeft, workLeft, workers, queue]
  omega

theorem workFalls (works : Action.works a = true) (made : Step config own s a t) : workLeft t < workLeft s := by
  cases made with
  | @dequeue w n queue here head =>
    have moved := Crew.sumMoved turnsLeft here (.taken n)
    simp only [workLeft, setWorker, head, List.length_cons]
    simp only [turnsLeft] at moved
    omega
  | lookupNone here free unlisted => exact turnTaken here rfl rfl (by simp only [turnsLeft]; omega)
  | lookup here free listed => exact turnTaken here rfl rfl (by simp only [turnsLeft]; omega)
  | stamp here => exact turnTaken here rfl rfl (by simp only [turnsLeft]; omega)
  | @serve w n id env world here =>
    refine turnTaken here rfl rfl ?_
    cases (Worker.serve env config world (s.heap id)).ending <;> simp only [endingStage, turnsLeft] <;> omega
  | rearm here => exact turnTaken here rfl rfl (by simp only [turnsLeft]; omega)
  | keep here free => exact turnTaken here rfl rfl (by simp only [turnsLeft]; omega)
  | closeNone here free unlisted => exact turnTaken here rfl rfl (by simp only [turnsLeft]; omega)
  | close here free listed => exact turnTaken here rfl rfl (by simp only [turnsLeft]; omega)
  | vacate here => exact turnTaken here rfl rfl (by simp only [turnsLeft]; omega)
  | quiet move => cases move <;> contradiction
  | _ => contradiction

theorem worksMain (works : Action.works a = true) (made : Step config own s a t) : t.main = s.main := by
  cases made with
  | dequeue here head => rfl
  | lookupNone here free unlisted => rfl
  | lookup here free listed => rfl
  | stamp here => rfl
  | serve here => rfl
  | rearm here => rfl
  | keep here free => rfl
  | closeNone here free unlisted => rfl
  | close here free listed => rfl
  | vacate here => rfl
  | quiet move => cases move <;> contradiction
  | _ => contradiction

theorem crewStays (made : Step config own s a t) : t.workers.length = s.workers.length := by
  cases made with
  | dequeue here head => exact List.length_set
  | lookupNone here free unlisted => exact List.length_set
  | lookup here free listed => exact List.length_set
  | stamp here => exact List.length_set
  | serve here => exact List.length_set
  | rearm here => exact List.length_set
  | keep here free => exact List.length_set
  | closeNone here free unlisted => exact List.length_set
  | close here free listed => exact List.length_set
  | vacate here => exact List.length_set
  | _ => rfl

theorem crewCount {allowed} (reached : Reach (server config own) allowed s) : s.workers.length = threadCount config := by
  refine reachInvariant (I := fun s => s.workers.length = threadCount config) ?_ ?_ reached
  · rintro s ⟨now,rfl⟩
    exact List.length_replicate
  · intro s a t count _ made
    exact (crewStays (stepSound made)).trans count

theorem crewPositive (config : ServerConfig) : 0 < threadCount config := by
  unfold threadCount
  split
  · omega
  · decide

/- No worker can take a step. -/
def Rests (config : ServerConfig) (own : Nat → Bool) (s : State) : Prop :=
  ∀ w turn, step config own s (.worker w turn) = none

theorem workerTurns {w : Nat} {p turn} (here : s.workers[w]? = some p) (moved : workerMove config s w p turn = some t) :
    step config own s (.worker w turn) = some t := by
  simp only [step, workerStep, here]
  exact moved

/- A worker with a task can go on, or another one that is in the middle of a close can, for which it needs
no lock. -/
theorem busyMoves (config : ServerConfig) (own : Nat → Bool) (outside : s.main.locked = false) {w : Nat} {p}
    (here : s.workers[w]? = some p) (busy : p ≠ .idle) :
    ∃ v q turn t, s.workers[v]? = some q ∧ q ≠ .idle ∧ turn ≠ .dequeue ∧ step config own s (.worker v turn) = some t := by
  by_cases unlocked : ∀ q ∈ s.workers, q.closedFd = none
  · have free : MutexFree s := ⟨outside,unlocked⟩
    cases p with
    | idle => exact absurd rfl busy
    | taken n =>
      cases listed : s.connections n.fd with
      | none =>
        exact ⟨w,_,.lookup,_,here,busy,by simp,workerTurns here (by simp only [workerMove, if_pos free, listed]; rfl)⟩
      | some id =>
        exact ⟨w,_,.lookup,_,here,busy,by simp,workerTurns here (by simp only [workerMove, if_pos free, listed]; rfl)⟩
    | holding stage n id =>
      cases stage with
      | marked => exact ⟨w,_,.stamp,_,here,busy,by simp,workerTurns here rfl⟩
      | running =>
        exact ⟨w,_,.serve ⟨fun _ => true,0,[],[]⟩ emptyWorld,_,here,busy,by simp,workerTurns here rfl⟩
      | rearming => exact ⟨w,_,.rearm,_,here,busy,by simp,workerTurns here rfl⟩
      | keeping => exact ⟨w,_,.keep,_,here,busy,by simp,workerTurns here (if_pos free)⟩
      | closing =>
        cases listed : s.connections n.fd with
        | none =>
          exact ⟨w,_,.close,_,here,busy,by simp,workerTurns here (by simp only [workerMove, if_pos free, listed]; rfl)⟩
        | some found =>
          exact ⟨w,_,.close,_,here,busy,by simp,workerTurns here (by simp only [workerMove, if_pos free, listed]; rfl)⟩
      | closed => exact ⟨w,_,.vacate,_,here,busy,by simp,workerTurns here rfl⟩
  · obtain ⟨q,member,closes⟩ : ∃ q ∈ s.workers, q.closedFd ≠ none := by simpa using unlocked
    obtain ⟨v,there⟩ := List.mem_iff_getElem?.mp member
    unfold WorkerPc.closedFd at closes
    split at closes
    · exact ⟨v,_,.vacate,_,there,by simp,by simp,workerTurns there rfl⟩
    · contradiction

theorem restDone (rests : Rests config own s) (outside : s.main.locked = false) (manned : 0 < s.workers.length) :
    s.queue = [] ∧ ∀ p ∈ s.workers, p = .idle := by
  have idle : ∀ p ∈ s.workers, p = .idle := by
    intro p member
    obtain ⟨w,here⟩ := List.mem_iff_getElem?.mp member
    by_contra busy
    obtain ⟨v,q,turn,t,_,_,_,made⟩ := busyMoves config own outside here busy
    rw [rests v turn] at made
    contradiction
  refine ⟨?_,idle⟩
  cases queued : s.queue with
  | nil => rfl
  | cons n rest =>
    have here : s.workers[0]? = some .idle := by
      rw [List.getElem?_eq_getElem manned, idle _ (List.getElem_mem manned)]
    have made : step config own s (.worker 0 .dequeue) = some {setWorker s 0 (.taken n) with queue := rest} :=
      workerTurns here (by simp only [workerMove, queued])
    rw [rests 0 .dequeue] at made
    contradiction

end

/- Nothing is left of a server that has stopped. -/
structure Stopped (s : State) : Prop where
  main : s.main = .stopped
  connections : ∀ fd, s.connections fd = none
  opened : ∀ fd, s.opened fd = none
  registered : ∀ fd, s.registered fd = none
  armed : s.armed = []
  queue : s.queue = []

theorem cleaned {config : ServerConfig} {own : Nat → Bool} {s : State}
    (reached : Reach (server config own) (fun _ _ => True) s) (ended : s.main = .draining) (empty : s.queue = [])
    (idle : ∀ p ∈ s.workers, p = .idle) : ∃ t, step config own s .cleanup = some t ∧ Stopped t := by
  have cleans : step config own s .cleanup = some {s with
      main := .stopped, armed := [], connections := fun _ => none, opened := cleanedUp s, registered := fun _ => none} := by
    simp only [step, ended]
    exact if_pos ⟨empty,idle⟩
  have outside : unlisted s.main = none := by rw [ended]; rfl
  refine ⟨_,cleans,rfl,fun _ => rfl,fun fd => ?_,fun _ => rfl,rfl,empty⟩
  dsimp only
  exact cleanedNone (reachMatched reached) outside fd

/- From the end of the main loop on: however the workers go on, they come to rest after boundedly many turns,
not before every queued task is done, and what is still open then is closed. -/
theorem drained (config : ServerConfig) (own : Nat → Bool) (s : State)
    (reached : Reach (server config own) (fun _ _ => True) s) (ended : s.main = .draining) (as : List Action) (t : State)
    (follows : Follows (server config own) (fun _ a => Action.works a = true) s as)
    (ran : run (server config own) s as = some t) :
    as.length + workLeft t ≤ workLeft s ∧
    (Rests config own t → ∃ u, step config own t .cleanup = some u ∧ Stopped u) := by
  have bounded : as.length + workLeft t ≤ workLeft s :=
    runBounded (I := fun _ => True) (fun _ _ _ _ _ _ => trivial)
      (fun _ _ _ _ works made => workFalls works (stepSound made)) trivial follows ran
  refine ⟨bounded,fun rests => ?_⟩
  obtain ⟨main,reached⟩ : t.main = .draining ∧ Reach (server config own) (fun _ _ => True) t := by
    refine runInvariant (I := fun u => u.main = .draining ∧ Reach (server config own) (fun _ _ => True) u)
      (fun u a v holds works made => ?_) ⟨ended,reached⟩ follows ran
    exact ⟨(worksMain works (stepSound made)).trans holds.1,.next holds.2 trivial made⟩
  obtain ⟨empty,idle⟩ := restDone rests (by rw [main]; rfl) (by rw [crewCount reached]; exact crewPositive config)
  exact cleaned reached main empty idle

theorem idleRests {config : ServerConfig} {own : Nat → Bool} {s : State} (empty : s.queue = [])
    (idle : ∀ p ∈ s.workers, p = .idle) : Rests config own s := by
  intro w turn
  cases here : s.workers[w]? with
  | none => simp only [step, workerStep, here]
  | some p =>
    cases idle p (List.mem_of_getElem? here)
    cases turn <;> simp only [step, workerStep, here, workerMove, empty]

/- The signal comes while a task is in the queue; the client has sent a part of a request. -/
def stoppedEarly : List Action :=
  arrivalOn 5 ++ [.epollWait [.ready ⟨5,0⟩],.dispatch,.batchEnds,.stop]

def lastTask : List Action :=
  [.worker 0 .dequeue,.worker 0 .lookup,.worker 0 .stamp,
    .worker 0 (.serve ⟨fun _ => true,0,[arrival (ascii "GET /")],[]⟩ emptyWorld),.worker 0 .rearm]

theorem earlyDrained : ∃ s t u, run (server Main.defaults firstFive) (initial Main.defaults 0) stoppedEarly = some s ∧
    s.queue = [⟨5,0⟩] ∧ run (server Main.defaults firstFive) s lastTask = some t ∧ lastTask.length ≤ workLeft s ∧
    step Main.defaults firstFive t .cleanup = some u ∧ Stopped u := by
  have begins : (run (server Main.defaults firstFive) (initial Main.defaults 0) stoppedEarly).map
      (fun s => ((s.main,s.queue),(run (server Main.defaults firstFive) s lastTask).map (fun t => (t.queue,t.workers)))) =
      some ((.draining,[⟨5,0⟩]),some ([],List.replicate 4 .idle)) := by
    decide +kernel
  obtain ⟨s,ran,same⟩ := Option.map_eq_some_iff.mp begins
  obtain ⟨stands,later⟩ := Prod.mk.inj same
  obtain ⟨main,queued⟩ := Prod.mk.inj stands
  obtain ⟨t,went,same⟩ := Option.map_eq_some_iff.mp later
  obtain ⟨empty,workers⟩ := Prod.mk.inj same
  have reached : Reach (server Main.defaults firstFive) (fun _ _ => True) s :=
    reachRun (initialReach Main.defaults firstFive _ 0) (followsAll _ stoppedEarly) ran
  have follows : Follows (server Main.defaults firstFive) (fun _ a => Action.works a = true) s lastTask :=
    followsEach (by decide) s
  obtain ⟨bounded,ends⟩ := drained Main.defaults firstFive s reached main lastTask t follows went
  have idle : ∀ p ∈ t.workers, p = .idle := by
    rw [workers]
    exact fun p member => List.eq_of_mem_replicate member
  obtain ⟨u,cleans,stopped⟩ := ends (idleRests empty idle)
  exact ⟨s,t,u,ran,queued,went,by omega,cleans,stopped⟩

end EpollHttpServer.Draining
