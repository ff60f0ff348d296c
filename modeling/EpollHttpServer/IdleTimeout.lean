import EpollHttpServer.LiveNotices

/-! epoll_handler_check_timeout over whole runs. last_active is written at accept and when a
worker picks a task up, in_use between the lookup and the end of the task, so the scan knows
nothing of an event that waits in the queue, of a worker that is about to look up or to rearm,
nor of the time a response took. -/
namespace EpollHttpServer.IdleTimeout
open Server Worker FileSystem Ownership LiveNotices Runs

/- The connection that a step of the scan closes. -/
def expires (s : State) : Action → Option ConnId
  | .scan => match s.main with
    | .scanning _ now slot =>
      if slot < maxEvents then match s.connections slot with
        | none => none
        | some id =>
          if (s.heap id).inUse = false ∧ now - (s.heap id).lastActive > connectionTimeout then some id else none
      else none
    | _ => none
  | _ => none

def Moments.latest (m : Moments) : Int := max m.accepted (max m.delivered m.completed)

/- No task of the connection is queued or running, and it has been idle for long enough. -/
def ClosesIdle (s : State) (a : Action) : Prop := ∀ id, expires s a = some id →
  (∀ n ∈ s.queue, n.origin ≠ id) ∧ (∀ p ∈ s.workers, ∀ n, WorkerPc.task p = some n → n.origin ≠ id) ∧
    connectionTimeout < s.clock - Moments.latest (s.moments id)

/- Tasks that in_use does not tell of: before the lookup and between in_use = 0 and epoll_modify_fd. -/
def unmarked : WorkerPc → List Notice
  | .taken n => [n]
  | .holding .rearming n _ => [n]
  | _ => []

def Spared (s : State) (a : Action) : Prop := ∀ id, expires s a = some id →
  (∀ n ∈ s.queue ++ s.workers.flatMap unmarked, n.origin ≠ id) ∧
    ((s.moments id).completed ≤ (s.heap id).lastActive ∨ connectionTimeout < s.clock - (s.moments id).completed)

theorem expiresSome {s : State} {a id} (gone : expires s a = some id) : ∃ since now slot, a = .scan ∧
    s.main = .scanning since now slot ∧ slot < maxEvents ∧ s.connections slot = some id ∧
      (s.heap id).inUse = false ∧ now - (s.heap id).lastActive > connectionTimeout := by
  unfold expires at gone
  split at gone <;> try contradiction
  split at gone <;> try contradiction
  rename_i since now slot main
  split at gone <;> try contradiction
  rename_i small
  split at gone <;> try contradiction
  rename_i found listed
  split at gone <;> try contradiction
  rename_i old
  cases Option.some.inj gone
  exact ⟨since,now,slot,rfl,main,small,listed,old.1,old.2⟩

/- What expires is what the step takes out of the table. -/
theorem expiresCloses (config own) {s : State} {a id} (gone : expires s a = some id) : ∃ t slot,
    step config own s a = some t ∧ s.connections slot = some id ∧ t.connections slot = none ∧ t.opened slot = none := by
  obtain ⟨since,now,slot,rfl,main,small,listed,unused,old⟩ := expiresSome gone
  refine ⟨{vacate (closeFd s slot) slot with main := .scanning since now (slot+1)},slot,?_,listed,?_,?_⟩
  · simp only [step, scan, main, if_pos small, listed]
    rw [if_pos ⟨unused,old⟩, epollHandlerClose, listed]
  · exact Function.update_self _ _ _
  · exact Function.update_self _ _ _

def Stage.inUse : Stage → Bool
  | .rearming => false
  | .closed => false
  | _ => true

/- Events and tasks whose delivery last_active does not show yet. -/
def batchNotices : MainPc → List Notice
  | .batch events => readyNotices events
  | .accepting rest => readyNotices rest
  | .accepted _ rest => readyNotices rest
  | .prepared _ rest => readyNotices rest
  | .inserted _ rest => readyNotices rest
  | _ => []

def workerUnstamped : WorkerPc → List Notice
  | .taken n => [n]
  | .holding .marked n _ => [n]
  | _ => []

def unstamped (s : State) : List Notice := batchNotices s.main ++ s.queue ++ s.workers.flatMap workerUnstamped

def scanTime : MainPc → Option Int
  | .locking _ now => some now
  | .scanning _ now _ => some now
  | _ => none

structure Timed (s : State) : Prop where
  homed : Homed s
  flagged : ∀ (w : Nat) stage n id, s.workers[w]? = some (.holding stage n id) → Stage.inUse stage = true →
    (s.heap id).inUse = true
  past : ∀ id, (s.moments id).accepted ≤ s.clock ∧ (s.moments id).delivered ≤ s.clock
  scanned : ∀ now, scanTime s.main = some now → now ≤ s.clock
  prepared : ∀ n rest, s.main = .prepared n rest →
    (s.moments n.origin).accepted ≤ (s.heap n.origin).lastActive ∧
      (s.moments n.origin).delivered ≤ (s.heap n.origin).lastActive
  stamped : ∀ fd id, s.connections fd = some id → (s.moments id).accepted ≤ (s.heap id).lastActive ∧
    ((s.moments id).delivered ≤ (s.heap id).lastActive ∨ ⟨fd,id⟩ ∈ unstamped s)

section
variable {config : ServerConfig} {own : Nat → Bool} {s t : State} {a : Action}

/- in_use tells of every task of a worker but those. -/
theorem markedInUse (inv : Timed s) {p n} (worker : p ∈ s.workers) (held : n ∈ workerNotices p) :
    n ∈ unmarked p ∨ (s.heap n.origin).inUse = true := by
  obtain ⟨w,here⟩ := List.mem_iff_getElem?.mp worker
  cases p with
  | idle => contradiction
  | taken m => exact Or.inl held
  | holding stage m id =>
    have own := inv.homed.tracked.pointers stage m id worker
    have marked := inv.flagged w stage m id here
    rw [own] at marked
    cases stage with
    | rearming => exact Or.inl held
    | closed => contradiction
    | _ =>
      rw [List.mem_singleton.mp held]
      exact Or.inr (marked rfl)

theorem sparedUntouched (inv : Timed s) (spared : Spared s a) : Untouched s a := by
  rintro since now slot id rfl main small listed unused old n member same
  have gone : expires s .scan = some id := by
    simp only [expires, main, if_pos small, listed]
    exact if_pos ⟨unused,old⟩
  obtain ⟨waiting,_⟩ := spared id gone
  rw [outstanding, main] at member
  rcases List.mem_append.mp member with queued | worker
  · exact waiting n (List.mem_append_left _ queued) same
  · obtain ⟨p,there,held⟩ := List.mem_flatMap.mp worker
    rcases markedInUse inv there held with early | marked
    · exact waiting n (List.mem_append_right _ (List.mem_flatMap.mpr ⟨p,there,early⟩)) same
    · rw [same, unused] at marked
      contradiction

theorem clockGrows (made : Step config own s a t) : s.clock ≤ t.clock := by
  cases made with
  | tick seconds => exact le_add_of_nonneg_right (Int.natCast_nonneg seconds)
  | _ => exact le_refl _

theorem updatedConn (heap : ConnId → ClientConnection) (k : ConnId) (c : ClientConnection) (id : ConnId) :
    Function.update heap k c id = heap id ∨ (id = k ∧ Function.update heap k c id = c) := by
  by_cases same : id = k
  · subst same
    exact Or.inr ⟨rfl,Function.update_self _ _ _⟩
  · exact Or.inl (Function.update_of_ne same _ _)

/- last_active is left alone or set to the time of the step. -/
theorem lastActiveStep (made : Step config own s a t) (id : ConnId) :
    (t.heap id).lastActive = (s.heap id).lastActive ∨ (t.heap id).lastActive = t.clock := by
  have wrote : ∀ k c, (Function.update s.heap k c id).lastActive = (s.heap id).lastActive ∨
      (id = k ∧ (Function.update s.heap k c id).lastActive = c.lastActive) := by
    intro k c
    rcases updatedConn s.heap k c id with same | ⟨here,new⟩
    · exact Or.inl (congrArg ClientConnection.lastActive same)
    · exact Or.inr ⟨here,congrArg ClientConnection.lastActive new⟩
  cases made with
  | @prepare n rest here small =>
    rcases wrote n.origin (acceptedConnection n.fd s.clock) with same | ⟨_,new⟩
    · exact Or.inl same
    · exact Or.inr new
  | @lookup w n found here free listed =>
    rcases wrote found {s.heap found with inUse := true} with same | ⟨rfl,new⟩
    · exact Or.inl same
    · exact Or.inl new
  | @stamp w n found here =>
    rcases wrote found {s.heap found with lastActive := s.clock} with same | ⟨_,new⟩
    · exact Or.inl same
    · exact Or.inr new
  | @serve w n found env world here =>
    have stays := (serveClient env config world (s.heap found)).lastActive
    generalize Worker.serve env config world (s.heap found) = e at stays
    rcases wrote found {e.conn with inUse := e.ending ≠ .waiting} with same | ⟨rfl,new⟩
    · exact Or.inl same
    · exact Or.inl (new.trans stays)
  | @keep w n found here free =>
    rcases wrote found {s.heap found with inUse := false} with same | ⟨rfl,new⟩
    · exact Or.inl same
    · exact Or.inl new
  | rearm here => exact Or.inl rfl
  | _ => exact Or.inl rfl

/- The history of a connection changes when it is accepted and when an event is delivered. -/
theorem momentsStep (made : Step config own s a t) (id : ConnId) :
    ((t.moments id).accepted = (s.moments id).accepted ∧ (t.moments id).delivered = (s.moments id).delivered) ∨
      (id = s.next ∧ (t.moments id).accepted = t.clock ∧ (t.moments id).delivered = t.clock ∧
        ∃ n rest, t.main = .accepted n rest) ∨
      ((t.moments id).accepted = (s.moments id).accepted ∧ (t.moments id).delivered = t.clock ∧
        (∃ events, t.main = .batch events) ∧ ∃ n ∈ notices s, n.origin = id ∧ n ∈ batchNotices t.main) := by
  cases made with
  | @accept rest fd here closed foreign =>
    by_cases same : id = s.next
    · subst same
      refine Or.inr (Or.inl ⟨rfl,?_,?_,_,_,rfl⟩) <;> simp only [Function.update_self]
    · refine Or.inl ⟨?_,?_⟩ <;> simp only [Function.update_of_ne same]
  | @epollWait events here distinct ready =>
    simp only [deliverMoments]
    split
    · rename_i mine
      obtain ⟨n,member,same⟩ := List.any_eq_true.mp mine
      have there : n ∈ notices s := memNotices.mpr (Or.inl (ready n member))
      exact Or.inr (Or.inr ⟨rfl,rfl,⟨events,rfl⟩,n,there,of_decide_eq_true same,member⟩)
    · exact Or.inl ⟨rfl,rfl⟩
  | @serve w n found env world here =>
    refine Or.inl ?_
    by_cases same : id = found
    · subst same
      simp only [serveConn, Function.update_self]
      split <;> exact ⟨rfl,rfl⟩
    · constructor <;> simp only [serveConn, Function.update_of_ne same]
  | rearm here => exact Or.inl ⟨rfl,rfl⟩
  | keep here free => exact Or.inl ⟨rfl,rfl⟩
  | _ => exact Or.inl ⟨rfl,rfl⟩

theorem pastStep (inv : Timed s) (made : Step config own s a t) (id : ConnId) :
    (t.moments id).accepted ≤ t.clock ∧ (t.moments id).delivered ≤ t.clock := by
  obtain ⟨accepted,delivered⟩ := inv.past id
  have clock := clockGrows made
  rcases momentsStep made id with ⟨first,second⟩ | ⟨_,first,second,_⟩ | ⟨first,second,_⟩
  · exact ⟨by omega,by omega⟩
  · exact ⟨by omega,by omega⟩
  · exact ⟨by omega,by omega⟩

theorem scannedStep (scanned : ∀ now, scanTime s.main = some now → now ≤ s.clock) (made : Step config own s a t) :
    ∀ now, scanTime t.main = some now → now ≤ t.clock := by
  intro now main
  have clock := clockGrows made
  have before : scanTime s.main = some now → now ≤ t.clock := fun held => le_trans (scanned now held) clock
  rcases stepMoves made with same | move
  · exact before (by rw [← same]; exact main)
  · generalize t.main = pc at move main
    cases move with
    | quiet move =>
      cases move with
      | readClock here =>
        cases Option.some.inj main
        exact clock
      | lock here free => exact before (by rw [here]; exact main)
      | skip here => exact before (by rw [here]; exact main)
      | _ => contradiction
    | expire here => exact before (by rw [here]; exact main)
    | _ => contradiction

/- A connection behind whose last_active its accept and its last event lie, stays so unless an
event of its own is delivered. -/
theorem behindStep (inv : Timed s) (made : Step config own s a t) {id : ConnId} (below : id < s.next)
    (quiet : ∀ events, t.main = .batch events → ∀ n ∈ notices s, n.origin = id → n ∉ batchNotices t.main)
    (accepted : (s.moments id).accepted ≤ (s.heap id).lastActive)
    (delivered : (s.moments id).delivered ≤ (s.heap id).lastActive) :
    (t.moments id).accepted ≤ (t.heap id).lastActive ∧ (t.moments id).delivered ≤ (t.heap id).lastActive := by
  rcases lastActiveStep made id with same | new
  · rcases momentsStep made id with ⟨first,second⟩ | ⟨next,_⟩ | ⟨_,_,⟨events,main⟩,n,member,origin,batch⟩
    · rw [same, first, second]
      exact ⟨accepted,delivered⟩
    · rw [next] at below
      exact absurd below (Nat.lt_irrefl _)
    · exact absurd batch (quiet events main n member origin)
  · rw [new]
    exact pastStep inv made id

theorem preparedStep (inv : Timed s) (made : Step config own s a t) : ∀ n rest, t.main = .prepared n rest →
    (t.moments n.origin).accepted ≤ (t.heap n.origin).lastActive ∧
      (t.moments n.origin).delivered ≤ (t.heap n.origin).lastActive := by
  intro n rest main
  have whence : s.main = .prepared n rest ∨ (t.heap n.origin).lastActive = t.clock := by
    cases made with
    | prepare here small =>
      cases main
      exact Or.inr (congrArg ClientConnection.lastActive (Function.update_self n.origin _ s.heap))
    | quiet move => cases move <;> contradiction
    | tick seconds => exact Or.inl main
    | dequeue here head => exact Or.inl main
    | lookupNone here free unlisted => exact Or.inl main
    | lookup here free listed => exact Or.inl main
    | stamp here => exact Or.inl main
    | serve here => exact Or.inl main
    | rearm here => exact Or.inl main
    | keep here free => exact Or.inl main
    | closeNone here free unlisted => exact Or.inl main
    | close here free listed => exact Or.inl main
    | vacate here => exact Or.inl main
    | _ => contradiction
  rcases whence with before | new
  · obtain ⟨accepted,delivered⟩ := inv.prepared n rest before
    have member : n ∈ notices s := memNotices.mpr (Or.inr (Or.inl (pendingMem (by rw [before]; rfl))))
    refine behindStep inv made (inv.homed.tracked.below _ (noticeHolder member)) ?_ accepted delivered
    intro events batch
    rw [main] at batch
    contradiction
  · rw [new]
    exact pastStep inv made n.origin

theorem quietBatch {pc} (move : Quiet s a pc) : batchNotices pc = batchNotices s.main := by
  cases move with
  | acceptEvent here => rw [here]; rfl
  | acceptEnds here => rw [here]; rfl
  | due here => rw [here]; rfl
  | early here => rw [here]; rfl
  | readClock here => rw [here]; rfl
  | lock here free => rw [here]; rfl
  | skip here => rw [here]; rfl
  | stop here => rw [here]; rfl

theorem memUnstamped {n : Notice} : n ∈ unstamped s ↔
    n ∈ batchNotices s.main ∨ n ∈ s.queue ∨ n ∈ s.workers.flatMap workerUnstamped := by
  simp only [unstamped, List.mem_append, or_assoc]

theorem unstampedMoved {w : Nat} {p} (q : WorkerPc) {n : Notice} (here : s.workers[w]? = some p)
    (there : n ∈ s.workers.flatMap workerUnstamped) :
    n ∈ workerUnstamped p ∨ n ∈ (s.workers.set w q).flatMap workerUnstamped := by
  obtain ⟨before,after,whole,replaced⟩ := Crew.split here
  rw [whole] at there
  rw [replaced]
  simp only [List.flatMap_append, List.flatMap_cons, List.mem_append] at there ⊢
  rcases there with left | mine | right
  · exact Or.inr (Or.inl left)
  · exact Or.inl mine
  · exact Or.inr (Or.inr (Or.inr right))

theorem setMem {w : Nat} {p} (q : WorkerPc) {n : Notice} (here : s.workers[w]? = some p) (held : n ∈ workerUnstamped q) :
    n ∈ (s.workers.set w q).flatMap workerUnstamped := by
  obtain ⟨before,after,_,replaced⟩ := Crew.split here
  rw [replaced, List.flatMap_append, List.flatMap_cons]
  exact List.mem_append_right _ (List.mem_append_left _ held)

theorem unstampedSet {w : Nat} {p q} {n : Notice} (here : s.workers[w]? = some p) (there : n ∈ unstamped s)
    (other : n ∉ workerUnstamped p) :
    n ∈ batchNotices s.main ++ s.queue ++ (s.workers.set w q).flatMap workerUnstamped := by
  rcases memUnstamped.mp there with main | queued | worker
  · exact List.mem_append_left _ (List.mem_append_left _ main)
  · exact List.mem_append_left _ (List.mem_append_right _ queued)
  · rcases unstampedMoved q here worker with mine | still
    · exact absurd mine other
    · exact List.mem_append_right _ still

/- An event stays on its way until last_active shows it or its connection leaves the table. -/
theorem unstampedStep (inv : Timed s) (made : Step config own s a t) {fd id} (listed : t.connections fd = some id)
    (there : ⟨fd,id⟩ ∈ unstamped s) : ⟨fd,id⟩ ∈ unstamped t ∨ (t.heap id).lastActive = t.clock := by
  cases made with
  | quiet move =>
    rw [unstamped, ← quietBatch move] at there
    exact Or.inl there
  | scanEnds here =>
    rw [unstamped, here] at there
    exact Or.inl there
  | expire here small found unused old =>
    rw [unstamped, here] at there
    exact Or.inl there
  | epollWait here distinct ready =>
    rw [unstamped, here] at there
    exact Or.inl (by rw [unstamped, List.append_assoc]; exact List.mem_append_right _ there)
  | @dispatch n rest here =>
    refine Or.inl (memUnstamped.mpr ?_)
    rcases memUnstamped.mp there with main | queued | worker
    · rw [here] at main
      rcases List.mem_cons.mp main with same | later
      · exact Or.inr (Or.inl (List.mem_append_right _ (List.mem_singleton.mpr same)))
      · exact Or.inl later
    · exact Or.inr (Or.inl (List.mem_append_left _ queued))
    · exact Or.inr (Or.inr worker)
  | @refused n rest here free unlisted =>
    rcases memUnstamped.mp there with main | queued | worker
    · rw [here] at main
      rcases List.mem_cons.mp main with same | later
      · rw [← same] at unlisted
        exact absurd (unlisted.symm.trans listed) (by simp)
      · exact Or.inl (memUnstamped.mpr (Or.inl later))
    · exact Or.inl (memUnstamped.mpr (Or.inr (Or.inl queued)))
    · exact Or.inl (memUnstamped.mpr (Or.inr (Or.inr worker)))
  | @dispatchFails n rest c here free found =>
    rcases memUnstamped.mp there with main | queued | worker
    · rw [here] at main
      rcases List.mem_cons.mp main with same | later
      · have gone : (Function.update s.connections n.fd none) fd = some id := listed
        rw [← same, Function.update_self] at gone
        contradiction
      · exact Or.inl (memUnstamped.mpr (Or.inl later))
    · exact Or.inl (memUnstamped.mpr (Or.inr (Or.inl queued)))
    · exact Or.inl (memUnstamped.mpr (Or.inr (Or.inr worker)))
  | accept here closed foreign =>
    rw [unstamped, here] at there
    exact Or.inl there
  | reject here =>
    rw [unstamped, here] at there
    exact Or.inl there
  | prepare here small =>
    rw [unstamped, here] at there
    exact Or.inl there
  | insert here free =>
    rw [unstamped, here] at there
    exact Or.inl there
  | register here isOpen =>
    rw [unstamped, here] at there
    exact Or.inl there
  | registerFails here free =>
    rw [unstamped, here] at there
    exact Or.inl there
  | cleanup here empty idle => contradiction
  | tick seconds => exact Or.inl there
  | @dequeue w n queue here head =>
    refine Or.inl (memUnstamped.mpr ?_)
    rcases memUnstamped.mp there with main | queued | worker
    · exact Or.inl main
    · rw [head] at queued
      rcases List.mem_cons.mp queued with same | later
      · exact Or.inr (Or.inr (setMem (.taken n) here (List.mem_singleton.mpr same)))
      · exact Or.inr (Or.inl later)
    · rcases unstampedMoved (.taken n) here worker with mine | still
      · exact absurd mine List.not_mem_nil
      · exact Or.inr (Or.inr still)
  | @lookupNone w n here free unlisted =>
    refine Or.inl (unstampedSet here there (fun mine => ?_))
    rw [← List.mem_singleton.mp mine] at unlisted
    exact absurd (unlisted.symm.trans listed) (by simp)
  | @lookup w n c here free found =>
    refine Or.inl (memUnstamped.mpr ?_)
    rcases memUnstamped.mp there with main | queued | worker
    · exact Or.inl main
    · exact Or.inr (Or.inl queued)
    · rcases unstampedMoved (.holding .marked n c) here worker with mine | still
      · exact Or.inr (Or.inr (setMem (.holding .marked n c) here mine))
      · exact Or.inr (Or.inr still)
  | @stamp w n c here =>
    by_cases mine : ⟨fd,id⟩ ∈ workerUnstamped (.holding .marked n c)
    · have same : id = c := by
        rw [inv.homed.tracked.pointers _ n c (List.mem_of_getElem? here), ← List.mem_singleton.mp mine]
      rw [same]
      exact Or.inr (congrArg ClientConnection.lastActive (Function.update_self c _ s.heap))
    · exact Or.inl (unstampedSet here there mine)
  | serve here => exact Or.inl (unstampedSet here there List.not_mem_nil)
  | rearm here => exact Or.inl (unstampedSet here there List.not_mem_nil)
  | keep here free => exact Or.inl (unstampedSet here there List.not_mem_nil)
  | closeNone here free unlisted => exact Or.inl (unstampedSet here there List.not_mem_nil)
  | close here free found => exact Or.inl (unstampedSet here there List.not_mem_nil)
  | vacate here => exact Or.inl (unstampedSet here there List.not_mem_nil)

theorem stampedStep (inv : Timed s) (made : Step config own s a t) : ∀ fd id, t.connections fd = some id →
    (t.moments id).accepted ≤ (t.heap id).lastActive ∧
      ((t.moments id).delivered ≤ (t.heap id).lastActive ∨ ⟨fd,id⟩ ∈ unstamped t) := by
  intro fd id listed
  rcases listedStep made listed with old | ⟨n,rest,before,after,_,rfl,rfl⟩
  · have below := inv.homed.tracked.listedBelow fd id old
    obtain ⟨accepted,history⟩ := inv.stamped fd id old
    have past := pastStep inv made id
    rcases lastActiveStep made id with same | new
    · rcases momentsStep made id with ⟨first,second⟩ | ⟨next,_⟩ | ⟨first,_,_,n,member,origin,batch⟩
      · refine ⟨by rw [same, first]; exact accepted,?_⟩
        rcases history with delivered | waits
        · exact Or.inl (by rw [same, second]; exact delivered)
        · rcases unstampedStep inv made listed waits with still | new
          · exact Or.inr still
          · exact Or.inl (by rw [new]; exact past.2)
      · rw [next] at below
        exact absurd below (Nat.lt_irrefl _)
      · have home := inv.homed.homed fd id n old member origin
        subst home
        subst origin
        exact ⟨by rw [same, first]; exact accepted,Or.inr (memUnstamped.mpr (Or.inl batch))⟩
    · rw [new]
      exact ⟨past.1,Or.inl past.2⟩
  · obtain ⟨accepted,delivered⟩ := inv.prepared n rest before
    have member : n ∈ notices s := memNotices.mpr (Or.inr (Or.inl (pendingMem (by rw [before]; rfl))))
    have behind := behindStep inv made (inv.homed.tracked.below _ (noticeHolder member))
      (fun events batch => by rw [after] at batch; contradiction) accepted delivered
    exact ⟨behind.1,Or.inl behind.2⟩

/- A worker that moves writes its own connection only. -/
theorem flaggedMoved (inv : Timed s) {w : Nat} {p q} {c : ConnId → ClientConnection} (here : s.workers[w]? = some p)
    (wrote : ∀ id, c id = s.heap id ∨ (c id).inUse = true ∨ WorkerPc.pointer p = some id)
    (mine : ∀ stage n id, q = .holding stage n id → Stage.inUse stage = true → (c id).inUse = true) :
    ∀ (v : Nat) stage n id, (s.workers.set w q)[v]? = some (.holding stage n id) → Stage.inUse stage = true →
      (c id).inUse = true := by
  intro v stage n id there marked
  by_cases same : w = v
  · subst same
    obtain ⟨bound,_⟩ := List.getElem?_eq_some_iff.mp here
    rw [List.getElem?_set_self bound] at there
    exact mine stage n id (Option.some.inj there) marked
  · rw [List.getElem?_set_ne same] at there
    have flag := inv.flagged v stage n id there marked
    rcases wrote id with kept | raised | pointer
    · rw [kept]
      exact flag
    · exact raised
    · exact absurd rfl ((trackedExclusive inv.homed.tracked).apart w v _ _ id same here there pointer)

theorem flaggedStep (inv : Timed s) (made : Step config own s a t) : ∀ (v : Nat) stage n id,
    t.workers[v]? = some (.holding stage n id) → Stage.inUse stage = true → (t.heap id).inUse = true := by
  have nothing : ∀ stage (n : Notice) id, WorkerPc.idle = .holding stage n id → Stage.inUse stage = true →
      (s.heap id).inUse = true := fun _ _ _ same => by cases same
  cases made with
  | @prepare m rest here small =>
    intro v stage n id there marked
    have held : n ∈ workerNotices (.holding stage n id) := by
      cases stage with
      | closed => contradiction
      | _ => exact List.mem_singleton_self n
    have other := (pendingWorker inv.homed.tracked there held (by rw [here]; rfl)).2
    have own := inv.homed.tracked.pointers stage n id (List.mem_of_getElem? there)
    have differ : id ≠ m.origin := by
      rw [own]
      exact Ne.symm other
    simp only [setConn, Function.update_of_ne differ]
    exact inv.flagged v stage n id there marked
  | dequeue here head => exact flaggedMoved inv here (fun id => Or.inl rfl) (fun _ _ _ same => by cases same)
  | lookupNone here free unlisted => exact flaggedMoved inv here (fun id => Or.inl rfl) nothing
  | @lookup w m c here free listed =>
    refine flaggedMoved inv here (fun id => ?_) (fun stage n id same marked => ?_)
    · rcases updatedConn s.heap c {s.heap c with inUse := true} id with same | ⟨_,new⟩
      · exact Or.inl same
      · exact Or.inr (Or.inl (congrArg ClientConnection.inUse new))
    · cases same
      exact congrArg ClientConnection.inUse (Function.update_self c _ s.heap)
  | @stamp w m c here =>
    refine flaggedMoved inv here (fun id => ?_) (fun stage n id same marked => ?_)
    · rcases updatedConn s.heap c {s.heap c with lastActive := s.clock} id with same | ⟨rfl,_⟩
      · exact Or.inl same
      · exact Or.inr (Or.inr rfl)
    · cases same
      exact (congrArg ClientConnection.inUse (Function.update_self c _ s.heap)).trans
        (inv.flagged w .marked m c here rfl)
  | @serve w m c env world here =>
    refine flaggedMoved inv here (fun id => ?_) (fun stage n id same marked => ?_)
    · rcases updatedConn s.heap c {(Worker.serve env config world (s.heap c)).conn with
        inUse := (Worker.serve env config world (s.heap c)).ending ≠ .waiting} id with same | ⟨rfl,_⟩
      · exact Or.inl same
      · exact Or.inr (Or.inr rfl)
    · cases same
      refine (congrArg ClientConnection.inUse (Function.update_self c _ s.heap)).trans ?_
      generalize (Worker.serve env config world (s.heap c)).ending = ending at marked
      cases ending with
      | waiting => contradiction
      | _ => rfl
  | rearm here => exact flaggedMoved inv here (fun id => Or.inl rfl) nothing
  | @keep w m c here free =>
    refine flaggedMoved inv here (fun id => ?_) (fun _ _ _ same => by cases same)
    rcases updatedConn s.heap c {s.heap c with inUse := false} id with same | ⟨rfl,_⟩
    · exact Or.inl same
    · exact Or.inr (Or.inr rfl)
  | closeNone here free unlisted => exact flaggedMoved inv here (fun id => Or.inl rfl) nothing
  | close here free listed =>
    refine flaggedMoved inv here (fun id => Or.inl rfl) (fun stage n id same marked => ?_)
    cases same
    contradiction
  | vacate here => exact flaggedMoved inv here (fun id => Or.inl rfl) nothing
  | _ => exact inv.flagged

theorem timedStep (inv : Timed s) (made : Step config own s a t) (spared : Spared s a) : Timed t :=
  ⟨homedKept inv.homed made (sparedUntouched inv spared),flaggedStep inv made,pastStep inv made,
    scannedStep inv.scanned made,preparedStep inv made,stampedStep inv made⟩

theorem initialTimed (config : ServerConfig) (now : Int) : Timed (initial config now) := by
  refine ⟨initialHomed config now,?_,fun id => ⟨le_refl _,le_refl _⟩,?_,?_,?_⟩
  · intro w stage n id here
    have idle := List.eq_of_mem_replicate (List.mem_of_getElem? here)
    contradiction
  · exact fun now main => nomatch main
  · exact fun n rest main => nomatch main
  · exact fun fd id listed => nomatch listed

theorem taskNotice {p : WorkerPc} {n} (task : WorkerPc.task p = some n) (opened : p.closedFd = none) :
    n ∈ workerNotices p := by
  cases p with
  | idle => contradiction
  | taken m => exact List.mem_singleton.mpr (Option.some.inj task).symm
  | holding stage m id =>
    cases stage with
    | closed => contradiction
    | _ => exact List.mem_singleton.mpr (Option.some.inj task).symm

theorem scanUnstamped {since now slot} (main : s.main = .scanning since now slot) {n : Notice}
    (early : n ∈ unstamped s) : n ∈ outstanding s := by
  rcases memUnstamped.mp early with batch | queued | worker
  · rw [main] at batch
    contradiction
  · exact List.mem_append_left _ (List.mem_append_right _ queued)
  · obtain ⟨p,there,held⟩ := List.mem_flatMap.mp worker
    refine List.mem_append_right _ (List.mem_flatMap.mpr ⟨p,there,?_⟩)
    unfold workerUnstamped at held
    split at held <;> try contradiction
    · exact held
    · exact held

/- What the scan closes has been idle by last_active, and by its history too unless in_use or
last_active says less than the history does. -/
theorem idleSpared (inv : Timed s) : ClosesIdle s a ↔ Spared s a := by
  constructor
  · intro idle id gone
    obtain ⟨queued,running,old⟩ := idle id gone
    refine ⟨fun n member => ?_,Or.inr ?_⟩
    · rcases List.mem_append.mp member with waits | worker
      · exact queued n waits
      · obtain ⟨p,there,held⟩ := List.mem_flatMap.mp worker
        refine running p there n ?_
        unfold unmarked at held
        split at held <;> try contradiction
        · rw [List.mem_singleton.mp held, WorkerPc.task]
        · rw [List.mem_singleton.mp held, WorkerPc.task]
    · have least : (s.moments id).completed ≤ Moments.latest (s.moments id) :=
        le_trans (le_max_right _ _) (le_max_right _ _)
      omega
  · intro spared id gone
    obtain ⟨waiting,finished⟩ := spared id gone
    obtain ⟨since,now,slot,rfl,main,small,listed,unused,old⟩ := expiresSome gone
    have untouched := sparedUntouched inv spared since now slot id rfl main small listed unused old
    have scanned := inv.scanned now (by rw [main]; rfl)
    obtain ⟨accepted,history⟩ := inv.stamped slot id listed
    have delivered : (s.moments id).delivered ≤ (s.heap id).lastActive := by
      rcases history with delivered | early
      · exact delivered
      · exact absurd rfl (untouched _ (scanUnstamped main early))
    refine ⟨fun n queued => untouched n (List.mem_append_left _ (List.mem_append_right _ queued)),?_,?_⟩
    · intro p there n task
      have held := taskNotice task (inv.homed.locked (by rw [main]; rfl) p there)
      exact untouched n (List.mem_append_right _ (List.mem_flatMap.mpr ⟨p,there,held⟩))
    · rw [Moments.latest]
      omega

/- The runs that close idle connections only are the runs whose scans meet no hidden task and no
response that was finished after last_active in the last sixty seconds. -/
theorem idleExactly (config : ServerConfig) (own : Nat → Bool) (now : Int) (as : List Action) :
    Follows (server config own) ClosesIdle (initial config now) as ↔
      Follows (server config own) Spared (initial config now) as := by
  have agree : ∀ s a, Timed s → (ClosesIdle s a ↔ Spared s a) := fun s a inv => idleSpared inv
  have keeps : ∀ s a t, Timed s → Spared s a → (server config own).step s a = some t → Timed t :=
    fun s a t inv spared made => timedStep inv (stepSound made) spared
  exact followsAgree agree keeps (initialTimed config now) as

end

/- The event of the 61st second is dispatched, and the scan of the same turn comes to its slot. -/
def edgeRun : List Action :=
  arrivalOn 5 ++ [.tick 61,.epollWait [.ready ⟨5,0⟩],.dispatch,.batchEnds,.readClock,.lock] ++ List.replicate 5 .scan

theorem edgeDropped : ∃ s, Reach (server Main.defaults firstFive) (fun _ _ => True) s ∧
    ⟨5,0⟩ ∈ s.queue ∧ expires s .scan = some 0 ∧ ¬ ClosesIdle s .scan ∧
    ∃ t slot, step Main.defaults firstFive s .scan = some t ∧ s.connections slot = some 0 ∧ t.opened slot = none := by
  obtain ⟨s,reached,seen⟩ := reachSeen (initialReach Main.defaults firstFive _ 0) (fun s => (s.queue,expires s .scan))
    (followsAll _ edgeRun) (b := ([⟨5,0⟩],some 0)) (by decide +kernel)
  obtain ⟨queue,gone⟩ := Prod.mk.inj seen
  have waits : ⟨5,0⟩ ∈ s.queue := by
    rw [queue]
    exact List.mem_singleton_self _
  obtain ⟨t,slot,made,listed,_,closed⟩ := expiresCloses Main.defaults firstFive gone
  exact ⟨s,reached,waits,gone,fun idle => (idle 0 gone).1 _ waits rfl,t,slot,made,listed,closed⟩

end EpollHttpServer.IdleTimeout
