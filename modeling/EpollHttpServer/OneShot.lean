import EpollHttpServer.IdleTimeout

/-! One-shot arming. Delivery disarms a descriptor, and from then on an event, a task or a worker
stands for it until it is armed again or closed. The argument goes by descriptor number, so it
holds in every run, whichever connection a late task comes to act on. -/
namespace EpollHttpServer.OneShot
open Server Worker Ownership IdleTimeout Runs

/- What will bring a descriptor back to epoll. -/
inductive Watched (s : State) (fd : Nat) : Prop where
  | armed {n} (ready : n ∈ s.armed) (same : n.fd = fd)
  | delivered {n} (batch : n ∈ batchNotices s.main) (same : n.fd = fd)
  | queued {n} (waits : n ∈ s.queue) (same : n.fd = fd)
  | running {p n} (worker : p ∈ s.workers) (task : WorkerPc.task p = some n) (same : n.fd = fd)
  | inserted {n rest} (main : s.main = .inserted n rest) (same : n.fd = fd)

/- Whether MOD will find the descriptor. -/
def Enrolled (s : State) (fd : Nat) : Prop :=
  s.registered fd ≠ none ∨ (∃ n rest, s.main = .inserted n rest ∧ n.fd = fd) ∨ ∃ p ∈ s.workers, p.closedFd = some fd

structure Attended (s : State) : Prop where
  watched : ∀ fd id, s.connections fd = some id → Watched s fd
  enrolled : ∀ fd id, s.connections fd = some id → Enrolled s fd

section
variable {config : ServerConfig} {own : Nat → Bool} {s t : State} {a : Action} {fd : Nat}

/- A step of the main thread hands on the token of a descriptor that it does not close. -/
theorem watchedMain (old : Watched s fd) (workers : t.workers = s.workers) (queue : ∀ n ∈ s.queue, n ∈ t.queue)
    (armed : ∀ n ∈ s.armed, n.fd = fd → n ∈ t.armed ∨ n ∈ batchNotices t.main)
    (batch : ∀ n ∈ batchNotices s.main, n.fd = fd → n ∈ batchNotices t.main ∨ n ∈ t.queue)
    (setup : ∀ n rest, s.main = .inserted n rest → n.fd = fd → Watched t fd) : Watched t fd := by
  cases old with
  | armed ready same =>
    rcases armed _ ready same with ready | delivered
    · exact .armed ready same
    · exact .delivered delivered same
  | delivered delivered same =>
    rcases batch _ delivered same with delivered | waits
    · exact .delivered delivered same
    · exact .queued waits same
  | queued waits same => exact .queued (queue _ waits) same
  | running worker task same => exact .running (by rw [workers]; exact worker) task same
  | inserted main same => exact setup _ _ main same

/- Of these the steps that take nothing from epoll and add nothing to the queue. -/
theorem watchedPass (idle : ∀ n rest, s.main ≠ .inserted n rest) (old : Watched s fd) (workers : t.workers = s.workers)
    (queue : t.queue = s.queue) (armed : ∀ n ∈ s.armed, n.fd = fd → n ∈ t.armed)
    (batch : batchNotices t.main = batchNotices s.main) : Watched t fd := by
  refine watchedMain old workers (fun n waits => ?_) (fun n ready same => Or.inl (armed n ready same)) (fun n found _ => ?_)
    (fun n rest main _ => absurd main (idle n rest))
  · rw [queue]
    exact waits
  · rw [batch]
    exact Or.inl found

theorem watchedWorker {w : Nat} {p q} (here : s.workers[w]? = some p) (old : Watched s fd)
    (workers : t.workers = s.workers.set w q) (main : t.main = s.main)
    (queue : ∀ n ∈ s.queue, n.fd = fd → Watched t fd) (armed : ∀ n ∈ s.armed, n.fd = fd → Watched t fd)
    (carried : ∀ n, WorkerPc.task p = some n → n.fd = fd → Watched t fd) : Watched t fd := by
  obtain ⟨before,after,whole,replaced⟩ := Crew.split here
  cases old with
  | armed ready same => exact armed _ ready same
  | delivered delivered same => exact .delivered (by rw [main]; exact delivered) same
  | queued waits same => exact queue _ waits same
  | running worker task same =>
    rw [whole] at worker
    rcases List.mem_append.mp worker with left | right
    · refine .running ?_ task same
      rw [workers, replaced]
      exact List.mem_append_left _ left
    · rcases List.mem_cons.mp right with rfl | right
      · exact carried _ task same
      · refine .running ?_ task same
        rw [workers, replaced]
        exact List.mem_append_right _ (List.mem_cons_of_mem _ right)
  | inserted setup same => exact .inserted (by rw [main]; exact setup) same

theorem setWatched {w : Nat} {p q n} (here : s.workers[w]? = some p) (workers : t.workers = s.workers.set w q)
    (task : WorkerPc.task q = some n) (same : n.fd = fd) : Watched t fd := by
  obtain ⟨before,after,_,replaced⟩ := Crew.split here
  refine .running ?_ task same
  rw [workers, replaced]
  exact List.mem_append_right _ List.mem_cons_self

/- A worker that goes on with its task. -/
theorem watchedOn {w : Nat} {p q} (here : s.workers[w]? = some p) (old : Watched s fd)
    (workers : t.workers = s.workers.set w q) (main : t.main = s.main) (queue : t.queue = s.queue)
    (armed : t.armed = s.armed) (task : WorkerPc.task q = WorkerPc.task p) : Watched t fd := by
  refine watchedWorker here old workers main (fun n waits same => .queued (by rw [queue]; exact waits) same)
    (fun n ready same => .armed (by rw [armed]; exact ready) same) (fun n carried same => ?_)
  rw [← task] at carried
  exact setWatched here workers carried same

/- A worker that is done with a descriptor, which is armed again or no longer listed. -/
theorem watchedIdle {w : Nat} {p n} (here : s.workers[w]? = some p) (old : Watched s fd)
    (workers : t.workers = s.workers.set w .idle) (main : t.main = s.main) (queue : t.queue = s.queue)
    (armed : ∀ m ∈ s.armed, m ∈ t.armed) (task : WorkerPc.task p = some n) (done : n.fd = fd → Watched t fd) :
    Watched t fd := by
  refine watchedWorker here old workers main (fun n waits same => .queued (by rw [queue]; exact waits) same)
    (fun n ready same => .armed (armed _ ready) same) (fun m carried same => ?_)
  rw [task] at carried
  cases Option.some.inj carried
  exact done same

theorem rearmedMore {registered : Nat → Option ConnId} {armed : List Notice} {fd : Nat} :
    ∀ m ∈ armed, m ∈ rearmed registered armed fd := by
  intro m member
  unfold rearmed
  split
  · exact member
  · split
    · exact member
    · exact List.mem_append_left _ member

theorem rearmedArms {registered : Nat → Option ConnId} {fd : Nat} (there : registered fd ≠ none) (armed : List Notice) :
    ∃ n ∈ rearmed registered armed fd, n.fd = fd := by
  unfold rearmed
  split
  · contradiction
  · rename_i id found
    split
    · rename_i present
      obtain ⟨n,member,same⟩ := List.any_eq_true.mp present
      exact ⟨n,member,of_decide_eq_true same⟩
    · exact ⟨⟨fd,id⟩,List.mem_append_right _ (List.mem_singleton_self _),rfl⟩

/- MOD arms a listed descriptor, unless main has yet to add it or a worker has just closed it. -/
theorem modifyWatched (inv : Attended s) {w : Nat} {stage n c} (here : s.workers[w]? = some (.holding stage n c))
    (busy : WorkerPc.closedFd (.holding stage n c) = none) {id} (listed : s.connections n.fd = some id)
    (workers : t.workers = s.workers.set w .idle) (main : t.main = s.main)
    (armed : t.armed = rearmed s.registered s.armed n.fd) : Watched t n.fd := by
  rcases inv.enrolled n.fd id listed with there | ⟨m,rest,setup,same⟩ | vacating
  · obtain ⟨m,ready,same⟩ := rearmedArms there s.armed
    exact .armed (by rw [armed]; exact ready) same
  · exact .inserted (by rw [main]; exact setup) same
  · obtain ⟨p,worker,closed⟩ := vacatingStays (q := .idle) here (by rw [busy]; simp) vacating
    have task : ∃ m, WorkerPc.task p = some m ∧ m.fd = n.fd := by
      unfold WorkerPc.closedFd at closed
      split at closed <;> try contradiction
      exact ⟨_,rfl,Option.some.inj closed⟩
    obtain ⟨m,task,same⟩ := task
    exact .running (by rw [workers]; exact worker) task same

/- A slot that a step vacates is none of those still listed. -/
theorem vacatedOther {k : Nat} {id} (listed : Function.update s.connections k none fd = some id) : k ≠ fd := by
  rintro rfl
  rw [Function.update_self] at listed
  contradiction

theorem closedKeeps {k : Nat} (other : k ≠ fd) : ∀ n ∈ s.armed, n.fd = fd → n ∈ s.armed.filter (fun n => n.fd ≠ k) := by
  intro n ready same
  refine List.mem_filter.mpr ⟨ready,decide_eq_true ?_⟩
  rw [same]
  exact other.symm

/- Every exit of dispatch and of worker_process_request arms again or closes. -/
theorem watchedStep (inv : Attended s) (made : Step config own s a t) :
    ∀ fd id, t.connections fd = some id → Watched t fd := by
  intro fd id listed
  cases made with
  | tick seconds =>
    exact watchedMain (inv.watched fd id listed) rfl (fun _ waits => waits) (fun _ ready _ => Or.inl ready)
      (fun _ batch _ => Or.inl batch) (fun _ _ main same => .inserted main same)
  | quiet move =>
    refine watchedMain (inv.watched fd id listed) rfl (fun _ waits => waits) (fun _ ready _ => Or.inl ready)
      (fun _ batch _ => Or.inl (by rw [quietBatch move]; exact batch)) (fun _ _ main _ => ?_)
    have outside := quietOutside move
    rw [main] at outside
    contradiction
  | scanEnds here =>
    exact watchedPass (by rw [here]; simp) (inv.watched fd id listed) rfl rfl (fun _ ready _ => ready) (by rw [here]; rfl)
  | expire here small found unused old =>
    have other := vacatedOther listed
    exact watchedPass (by rw [here]; simp) (inv.watched fd id (updateOpen listed)) rfl rfl (closedKeeps other)
      (by rw [here]; rfl)
  | @epollWait events here distinct ready =>
    refine watchedMain (inv.watched fd id listed) rfl (fun _ waits => waits) (fun n armed _ => ?_)
      (fun _ batch _ => Or.inl (by rw [here] at batch; exact absurd batch List.not_mem_nil))
      (fun _ _ main _ => nomatch here.symm.trans main)
    by_cases delivered : n ∈ readyNotices events
    · exact Or.inr delivered
    · exact Or.inl (List.mem_diff_of_mem armed delivered)
  | @dispatch n rest here =>
    refine watchedMain (inv.watched fd id listed) rfl (fun _ waits => List.mem_append_left _ waits)
      (fun _ ready _ => Or.inl ready) (fun m batch _ => ?_) (fun _ _ main _ => nomatch here.symm.trans main)
    rw [here] at batch
    rcases List.mem_cons.mp batch with rfl | later
    · exact Or.inr (List.mem_append_right _ (List.mem_singleton_self _))
    · exact Or.inl later
  | @refused n rest here free missing =>
    refine watchedMain (inv.watched fd id listed) rfl (fun _ waits => waits) (fun _ ready _ => Or.inl ready)
      (fun m batch same => ?_) (fun _ _ main _ => nomatch here.symm.trans main)
    rw [here] at batch
    rcases List.mem_cons.mp batch with rfl | later
    · rw [same] at missing
      rw [missing] at listed
      contradiction
    · exact Or.inl later
  | @dispatchFails n rest found here free there =>
    have other := vacatedOther listed
    refine watchedMain (inv.watched fd id (updateOpen listed)) rfl (fun _ waits => waits)
      (fun n ready same => Or.inl (closedKeeps other n ready same)) (fun m batch same => ?_)
      (fun _ _ main _ => nomatch here.symm.trans main)
    rw [here] at batch
    rcases List.mem_cons.mp batch with rfl | later
    · exact absurd same other
    · exact Or.inl later
  | accept here closed foreign =>
    exact watchedPass (by rw [here]; simp) (inv.watched fd id listed) rfl rfl (fun _ ready _ => ready) (by rw [here]; rfl)
  | reject here =>
    exact watchedPass (by rw [here]; simp) (inv.watched fd id listed) rfl rfl (fun _ ready _ => ready) (by rw [here]; rfl)
  | prepare here small =>
    exact watchedPass (by rw [here]; simp) (inv.watched fd id listed) rfl rfl (fun _ ready _ => ready) (by rw [here]; rfl)
  | @insert n rest here free =>
    by_cases same : n.fd = fd
    · exact .inserted rfl same
    · dsimp only at listed
      rw [Function.update_of_ne (Ne.symm same)] at listed
      exact watchedPass (by rw [here]; simp) (inv.watched fd id listed) rfl rfl (fun _ ready _ => ready) (by rw [here]; rfl)
  | @register n rest here isOpen =>
    refine watchedMain (inv.watched fd id listed) rfl (fun _ waits => waits)
      (fun _ ready _ => Or.inl (List.mem_append_left _ ready))
      (fun _ batch _ => Or.inl (by rw [here] at batch; exact batch)) (fun m _ main same => ?_)
    cases here.symm.trans main
    exact .armed (List.mem_append_right _ (List.mem_singleton_self n)) same
  | @registerFails n rest here free =>
    have other := vacatedOther listed
    refine watchedMain (inv.watched fd id (updateOpen listed)) rfl (fun _ waits => waits)
      (fun n ready same => Or.inl (closedKeeps other n ready same))
      (fun _ batch _ => Or.inl (by rw [here] at batch; exact batch)) (fun m _ main same => ?_)
    cases here.symm.trans main
    exact absurd same other
  | cleanup here empty idle => contradiction
  | @dequeue w n queue here head =>
    refine watchedWorker here (inv.watched fd id listed) rfl rfl (fun m waits same => ?_)
      (fun _ ready same => .armed ready same) (fun m carried _ => nomatch carried)
    rw [head] at waits
    rcases List.mem_cons.mp waits with rfl | later
    · exact setWatched here rfl rfl same
    · exact .queued later same
  | lookupNone here free missing =>
    refine watchedIdle here (inv.watched fd id listed) rfl rfl rfl (fun _ ready => ready) rfl (fun same => ?_)
    rw [same] at missing
    exact nomatch missing.symm.trans listed
  | lookup here free found => exact watchedOn here (inv.watched fd id listed) rfl rfl rfl rfl rfl
  | stamp here => exact watchedOn here (inv.watched fd id listed) rfl rfl rfl rfl rfl
  | serve here => exact watchedOn here (inv.watched fd id listed) rfl rfl rfl rfl rfl
  | rearm here =>
    refine watchedIdle here (inv.watched fd id listed) rfl rfl rfl rearmedMore rfl (fun same => ?_)
    cases same
    exact modifyWatched inv here rfl listed rfl rfl rfl
  | keep here free =>
    refine watchedIdle here (inv.watched fd id listed) rfl rfl rfl rearmedMore rfl (fun same => ?_)
    cases same
    exact modifyWatched inv here rfl listed rfl rfl rfl
  | closeNone here free missing =>
    refine watchedIdle here (inv.watched fd id listed) rfl rfl rfl (fun _ ready => ready) rfl (fun same => ?_)
    rw [same] at missing
    exact nomatch missing.symm.trans listed
  | @close w n c found here free there =>
    by_cases same : n.fd = fd
    · exact setWatched here rfl rfl same
    · exact watchedWorker here (inv.watched fd id listed) rfl rfl (fun _ waits same => .queued waits same)
        (fun m ready there => .armed (closedKeeps same m ready there) there)
        (fun m carried there => absurd (Option.some.inj carried ▸ there) same)
  | vacate here =>
    exact watchedIdle here (inv.watched fd id (updateOpen listed)) rfl rfl rfl (fun _ ready => ready) rfl
      (fun same => absurd same (vacatedOther listed))

theorem enrolledMain (old : Enrolled s fd) (workers : t.workers = s.workers) (same : t.registered fd = s.registered fd)
    (setup : ∀ n rest, s.main = .inserted n rest → n.fd = fd → Enrolled t fd) : Enrolled t fd := by
  rcases old with there | ⟨n,rest,main,mine⟩ | vacating
  · left
    rw [same]
    exact there
  · exact setup n rest main mine
  · right
    right
    rw [workers]
    exact vacating

theorem enrolledWorker {w : Nat} {p q} (here : s.workers[w]? = some p) (busy : p.closedFd ≠ some fd) (old : Enrolled s fd)
    (workers : t.workers = s.workers.set w q) (main : t.main = s.main) (same : t.registered fd = s.registered fd) :
    Enrolled t fd := by
  rcases old with there | setup | vacating
  · left
    rw [same]
    exact there
  · right
    left
    rw [main]
    exact setup
  · right
    right
    rw [workers]
    exact vacatingStays here busy vacating

theorem enrolledStep (inv : Attended s) (made : Step config own s a t) :
    ∀ fd id, t.connections fd = some id → Enrolled t fd := by
  intro fd id listed
  have before := inv.enrolled fd id
  cases made with
  | tick seconds => exact before listed
  | quiet move =>
    refine enrolledMain (before listed) rfl rfl (fun _ _ main _ => ?_)
    have outside := quietOutside move
    rw [main] at outside
    contradiction
  | scanEnds here => exact enrolledMain (before listed) rfl rfl (fun _ _ main _ => nomatch here.symm.trans main)
  | expire here small found unused old =>
    exact enrolledMain (before (updateOpen listed)) rfl (Function.update_of_ne (vacatedOther listed).symm _ _)
      (fun _ _ main _ => nomatch here.symm.trans main)
  | epollWait here distinct ready =>
    exact enrolledMain (before listed) rfl rfl (fun _ _ main _ => nomatch here.symm.trans main)
  | dispatch here => exact enrolledMain (before listed) rfl rfl (fun _ _ main _ => nomatch here.symm.trans main)
  | refused here free missing =>
    exact enrolledMain (before listed) rfl rfl (fun _ _ main _ => nomatch here.symm.trans main)
  | dispatchFails here free found =>
    exact enrolledMain (before (updateOpen listed)) rfl (Function.update_of_ne (vacatedOther listed).symm _ _)
      (fun _ _ main _ => nomatch here.symm.trans main)
  | accept here closed foreign =>
    exact enrolledMain (before listed) rfl rfl (fun _ _ main _ => nomatch here.symm.trans main)
  | reject here => exact enrolledMain (before listed) rfl rfl (fun _ _ main _ => nomatch here.symm.trans main)
  | prepare here small => exact enrolledMain (before listed) rfl rfl (fun _ _ main _ => nomatch here.symm.trans main)
  | @insert n rest here free =>
    by_cases same : n.fd = fd
    · exact Or.inr (Or.inl ⟨n,rest,rfl,same⟩)
    · dsimp only at listed
      rw [Function.update_of_ne (Ne.symm same)] at listed
      exact enrolledMain (before listed) rfl rfl (fun _ _ main _ => nomatch here.symm.trans main)
  | @register n rest here isOpen =>
    by_cases same : fd = n.fd
    · left
      simp only [same, Function.update_self]
      exact Option.some_ne_none _
    · refine enrolledMain (before listed) rfl (Function.update_of_ne same _ _) (fun m _ main mine => ?_)
      cases here.symm.trans main
      exact absurd mine.symm same
  | registerFails here free =>
    have other := vacatedOther listed
    refine enrolledMain (before (updateOpen listed)) rfl (Function.update_of_ne other.symm _ _) (fun m _ main mine => ?_)
    cases here.symm.trans main
    exact absurd mine other
  | cleanup here empty idle => contradiction
  | dequeue here head => exact enrolledWorker here (fun h => nomatch h) (before listed) rfl rfl rfl
  | lookupNone here free missing => exact enrolledWorker here (fun h => nomatch h) (before listed) rfl rfl rfl
  | lookup here free found => exact enrolledWorker here (fun h => nomatch h) (before listed) rfl rfl rfl
  | stamp here => exact enrolledWorker here (fun h => nomatch h) (before listed) rfl rfl rfl
  | serve here => exact enrolledWorker here (fun h => nomatch h) (before listed) rfl rfl rfl
  | rearm here => exact enrolledWorker here (fun h => nomatch h) (before listed) rfl rfl rfl
  | keep here free => exact enrolledWorker here (fun h => nomatch h) (before listed) rfl rfl rfl
  | closeNone here free missing => exact enrolledWorker here (fun h => nomatch h) (before listed) rfl rfl rfl
  | @close w n c found here free there =>
    by_cases same : fd = n.fd
    · obtain ⟨first,last,_,replaced⟩ := Crew.split here
      refine Or.inr (Or.inr ⟨.holding .closed n c,?_,by rw [same]; rfl⟩)
      simp only [setWorker, closeFd, replaced]
      exact List.mem_append_right _ List.mem_cons_self
    · exact enrolledWorker here (fun h => nomatch h) (before listed) rfl rfl (Function.update_of_ne same _ _)
  | @vacate w n c here =>
    have other := vacatedOther listed
    exact enrolledWorker here (fun h => other (Option.some.inj h)) (before (updateOpen listed)) rfl rfl rfl

theorem attendedStep (inv : Attended s) (made : Step config own s a t) : Attended t :=
  ⟨watchedStep inv made,enrolledStep inv made⟩

/- No listed connection is ever without something that will arm it again or close it. -/
theorem neverStranded (reached : Reach (server config own) (fun _ _ => True) s) :
    ∀ fd id, s.connections fd = some id → Watched s fd := by
  have inv : Attended s := by
    refine reachInvariant ?_ ?_ reached
    · rintro s ⟨now,rfl⟩
      exact ⟨(fun _ _ listed => nomatch listed),(fun _ _ listed => nomatch listed)⟩
    · intro s a t inv _ made
      exact attendedStep inv (stepSound made)
  exact inv.watched

end

/- The connection of a stale task is watched by the worker that took the task over. -/
theorem staleWatched : ∃ s, Reach (server Main.defaults firstFive) (fun _ _ => True) s ∧
    s.connections 5 = some 1 ∧ Watched s 5 := by
  obtain ⟨s,reached,listed⟩ := reachSeen (initialReach Main.defaults firstFive _ 0) (fun s => s.connections 5)
    (followsAll _ staleRun) (b := some 1) (by decide +kernel)
  exact ⟨s,reached,listed,neverStranded reached 5 1 listed⟩

end EpollHttpServer.OneShot
