import EpollHttpServer.Sessions
import EpollHttpServer.Lib.Custody

/-! The connection records that malloc gives and free takes. Each step uses the records that its part of
the code dereferences; while accept returns no descriptor that is still carried, none of them is one that
was given back, none is given back twice, and at the end none is left. -/
namespace EpollHttpServer.ConnectionMemory
open FileSystem Worker Server Ownership ConnectionTable LiveNotices IdleTimeout Sessions Runs Simulation Resources

/- The records in the table, as the cleanup meets them. -/
def listedRecords (s : State) : List ConnId := (List.range maxEvents).filterMap s.connections

/- A task that closes early does not look at its record again under the mutex; here it does as well. -/
def workerUses (s : State) : WorkerPc → Turn → List (Use ConnId)
  | .taken n,.lookup => (s.connections n.fd).toList.map .touches
  | .holding .marked _ id,.stamp => [.touches id]
  | .holding .running _ id,.serve _ _ => [.touches id]
  | .holding .keeping _ id,.keep => [.touches id]
  | .holding .closing _ id,.close => [.touches id]
  | .holding .closed n _,.vacate => (s.connections n.fd).toList.map .gives
  | _,_ => []

def mainUses (s : State) : MainPc → Action → List (Use ConnId)
  | .accepted n _,.prepare => [.takes n.origin,.touches n.origin]
  | .inserted n _,.registerFails => [.gives n.origin]
  | .batch (.ready n::_),.dispatchFails => (s.connections n.fd).toList.map .gives
  | .scanning _ _ slot,.scan =>
    if slot < maxEvents then (s.connections slot).toList.map .touches ++ (expires s .scan).toList.map .gives else []
  | .draining,.cleanup => (listedRecords s).flatMap (fun id => [.touches id,.gives id])
  | _,_ => []

def uses (s : State) : Action → List (Use ConnId)
  | .worker w turn => match s.workers[w]? with
    | none => []
    | some p => workerUses s p turn
  | a => mainUses s s.main a

/- The server and what it holds of the heap; none once it has made a fault. -/
structure Memory where
  server : State
  held : Option (ConnId → Bool)

def memoryStep (config : ServerConfig) (own : Nat → Bool) (m : Memory) (a : Action) : Option Memory :=
  (step config own m.server a).map (fun t => ⟨t,m.held.bind (fun held => useAll held (uses m.server a))⟩)

def memory (config : ServerConfig) (own : Nat → Bool) : System Memory Action where
  start := fun m => ∃ now, m = ⟨initial config now,some (fun _ => false)⟩
  step := memoryStep config own

/- The accept loop has filled the record in and not yet put it into the table. -/
def aside : MainPc → Option ConnId
  | .prepared n _ => some n.origin
  | _ => none

def Allocated (s : State) (id : ConnId) : Prop := (∃ fd, s.connections fd = some id) ∨ aside s.main = some id

/- A worker between the lookup and the end of its part, but for the rearming: its connection is listed. -/
def Stage.seated : Stage → Bool
  | .rearming => false
  | _ => true

structure Seated (s : State) : Prop where
  seat : ∀ (w : Nat) stage n id, s.workers[w]? = some (.holding stage n id) → Stage.seated stage = true →
    s.connections n.fd = some id
  inserted : ∀ n rest, s.main = .inserted n rest → s.connections n.fd = some n.origin
  locked : s.main.locked = true → ∀ p ∈ s.workers, p.closedFd = none
  stopped : s.main = .stopped → ∀ fd, s.connections fd = none

/- What is known of a state in a run where accept returns no descriptor that is still carried. -/
structure Known (own : Nat → Bool) (s : State) : Prop where
  tracked : Tracked s
  matched : Matched own s
  mirrored : ∃ u, Mirrored s u

section
variable {config : ServerConfig} {own : Nat → Bool} {s t : State} {a : Action}

theorem knownStep (known : Known own s) (made : Step config own s a t) (fresh : FreshAccept s a) : Known own t := by
  obtain ⟨u,same⟩ := known.mirrored
  obtain ⟨v,_,later⟩ := mirroredStep known.tracked same made
  exact ⟨trackedStep known.tracked made fresh,matchedStep known.matched made,v,later⟩

/- The main thread and a worker carry different descriptors. -/
theorem mainWorker (inv : Tracked s) {w : Nat} {p m n} (here : s.workers[w]? = some p) (held : m ∈ workerNotices p)
    (main : n ∈ mainNotices s.main) : n.fd ≠ m.fd := by
  have member : m ∈ s.workers.flatMap workerNotices := List.mem_flatMap.mpr ⟨p,List.mem_of_getElem? here,held⟩
  have parts : notices s = (mainNotices s.main : Multiset Notice) +
      (s.workers.flatMap workerNotices : List Notice) + (s.armed + s.queue) := by
    simp only [notices, hand]
    abel
  exact (apart inv parts main member).1

/- While no worker is in the middle of a close, the main thread vacates or fills no seat of a worker. -/
theorem mainApart (inv : Tracked s) (free : ∀ p ∈ s.workers, p.closedFd = none) {w : Nat} {stage m c n}
    (here : s.workers[w]? = some (.holding stage m c)) (main : n ∈ mainNotices s.main) : m.fd ≠ n.fd := by
  cases stage with
  | closed =>
    have busy := free _ (List.mem_of_getElem? here)
    contradiction
  | _ => exact Ne.symm (mainWorker inv here (List.mem_singleton_self m) main)

theorem seatKept {connections : Nat → Option ConnId} {fd k : Nat} {id : ConnId} {c : Option ConnId}
    (there : connections fd = some id) (other : fd ≠ k) : Function.update connections k c fd = some id :=
  (Function.update_of_ne other _ _).trans there

theorem seatMoved (seats : Seated s) {w : Nat} {q} {connections : Nat → Option ConnId}
    (others : ∀ (v : Nat) stage n id, v ≠ w → s.workers[v]? = some (.holding stage n id) → s.connections n.fd = some id →
      connections n.fd = some id)
    (mine : ∀ stage n id, q = .holding stage n id → Stage.seated stage = true → connections n.fd = some id) :
    ∀ (v : Nat) stage n id, (s.workers.set w q)[v]? = some (.holding stage n id) → Stage.seated stage = true →
      connections n.fd = some id := by
  intro v stage n id there seated
  rcases Crew.setCases there with ⟨_,moved⟩ | ⟨differ,old⟩
  · exact mine stage n id moved.symm seated
  · exact others v stage n id differ old (seats.seat v stage n id old seated)

theorem seatStep (known : Known own s) (seats : Seated s) (made : Step config own s a t) :
    ∀ (w : Nat) stage n id, t.workers[w]? = some (.holding stage n id) → Stage.seated stage = true →
      t.connections n.fd = some id := by
  have inv := known.tracked
  have same : ∀ (w v : Nat) stage n id, v ≠ w → s.workers[v]? = some (.holding stage n id) →
      s.connections n.fd = some id → s.connections n.fd = some id := fun _ _ _ _ _ _ _ there => there
  have idle : ∀ stage (n : Notice) (id : ConnId), WorkerPc.idle = .holding stage n id → Stage.seated stage = true →
      s.connections n.fd = some id := fun _ _ _ moved => WorkerPc.noConfusion moved
  cases made with
  | @expire since now slot id here small listed unused old =>
    intro w stage m c there seated
    have seat := seats.seat w stage m c there seated
    refine seatKept seat (fun alike => ?_)
    rw [alike, listed] at seat
    cases Option.some.inj seat
    obtain ⟨u,mirrored⟩ := known.mirrored
    obtain ⟨_,_,_,_,flag⟩ := mirrored.held w stage m id there
    cases stage with
    | rearming => contradiction
    | closed =>
      have busy := seats.locked (by rw [here]; rfl) _ (List.mem_of_getElem? there)
      contradiction
    | _ =>
      rw [flag rfl] at unused
      contradiction
  | @dispatchFails n rest id here free listed =>
    intro w stage m c there seated
    exact seatKept (seats.seat w stage m c there seated)
      (mainApart inv free.2 there (by rw [here]; exact List.mem_cons_self))
  | @registerFails n rest here free =>
    intro w stage m c there seated
    exact seatKept (seats.seat w stage m c there seated)
      (mainApart inv free.2 there (by rw [here]; exact List.mem_cons_self))
  | @insert n rest here free =>
    intro w stage m c there seated
    exact seatKept (seats.seat w stage m c there seated)
      (mainApart inv free.2 there (by rw [here]; exact List.mem_cons_self))
  | cleanup here empty resting =>
    intro w stage m c there
    have rests := resting _ (List.mem_of_getElem? there)
    contradiction
  | dequeue here head => exact seatMoved seats (same _) (fun _ _ _ moved => WorkerPc.noConfusion moved)
  | lookupNone here free missing => exact seatMoved seats (same _) idle
  | lookup here free listed =>
    refine seatMoved seats (same _) (fun stage n id moved _ => ?_)
    cases moved
    exact listed
  | @stamp w n id here =>
    refine seatMoved seats (same _) (fun stage m c moved _ => ?_)
    cases moved
    exact seats.seat w .marked n id here rfl
  | @serve w n id env world here =>
    refine seatMoved seats (same _) (fun stage m c moved _ => ?_)
    cases moved
    exact seats.seat w .running n id here rfl
  | rearm here => exact seatMoved seats (same _) idle
  | keep here free => exact seatMoved seats (same _) idle
  | closeNone here free missing => exact seatMoved seats (same _) idle
  | @close w n id found here free listed =>
    refine seatMoved seats (same _) (fun stage m c moved _ => ?_)
    cases moved
    exact seats.seat w .closing n id here rfl
  | @vacate w n id here =>
    refine seatMoved seats (fun v stage m c differ there seat => seatKept seat (fun alike => ?_))
      (fun _ _ _ moved => WorkerPc.noConfusion moved)
    have mine := seats.seat w .closed n id here rfl
    rw [alike, mine] at seat
    cases Option.some.inj seat
    exact (trackedExclusive inv).apart w v _ _ id (Ne.symm differ) here there rfl rfl
  | _ => exact seats.seat

/- A worker in the middle of a close is at another connection than the one that is being set up. -/
theorem closedApart (inv : Tracked s) {w : Nat} {m : Notice} {c n} (here : s.workers[w]? = some (.holding .closed m c))
    (main : n ∈ mainNotices s.main) : c ≠ n.origin := by
  rw [inv.pointers .closed m c (List.mem_of_getElem? here)]
  have retired : m.origin ∈ (s.workers.flatMap workerRetired : List ConnId) :=
    List.mem_flatMap.mpr ⟨_,List.mem_of_getElem? here,List.mem_singleton_self _⟩
  have carried : n.origin ∈ (notices s).map Notice.origin :=
    Multiset.mem_map_of_mem _ (memNotices.mpr (Or.inr (Or.inl main)))
  have holders := inv.sound.holders
  rw [ledgerHolders] at holders
  intro alike
  rw [alike] at retired
  exact Multiset.disjoint_left.mp (Multiset.nodup_add.mp holders).2.2 carried retired

theorem insertedStep (known : Known own s) (seats : Seated s) (made : Step config own s a t) :
    ∀ n rest, t.main = .inserted n rest → t.connections n.fd = some n.origin := by
  intro m more main
  cases made with
  | quiet move => cases move <;> contradiction
  | insert here free =>
    cases main
    exact Function.update_self _ _ _
  | @vacate w n id here =>
    have before : s.main = .inserted m more := main
    have seat := seats.inserted m more before
    refine seatKept seat (fun alike => ?_)
    rw [alike, seats.seat w .closed n id here rfl] at seat
    exact closedApart known.tracked here (by rw [before]; exact List.mem_cons_self) (Option.some.inj seat)
  | tick seconds => exact seats.inserted m more main
  | dequeue here head => exact seats.inserted m more main
  | lookupNone here free missing => exact seats.inserted m more main
  | lookup here free listed => exact seats.inserted m more main
  | stamp here => exact seats.inserted m more main
  | serve here => exact seats.inserted m more main
  | rearm here => exact seats.inserted m more main
  | keep here free => exact seats.inserted m more main
  | closeNone here free missing => exact seats.inserted m more main
  | close here free listed => exact seats.inserted m more main
  | _ => contradiction

theorem stoppedStep (seats : Seated s) (made : Step config own s a t) : t.main = .stopped → ∀ fd, t.connections fd = none := by
  intro main fd
  cases made with
  | quiet move => cases move <;> contradiction
  | cleanup here empty idle => rfl
  | vacate here =>
    have before := seats.stopped main fd
    simp only [setWorker, Server.vacate]
    rw [Function.update_apply, before, ite_self]
  | tick seconds => exact seats.stopped main fd
  | dequeue here head => exact seats.stopped main fd
  | lookupNone here free missing => exact seats.stopped main fd
  | lookup here free listed => exact seats.stopped main fd
  | stamp here => exact seats.stopped main fd
  | serve here => exact seats.stopped main fd
  | rearm here => exact seats.stopped main fd
  | keep here free => exact seats.stopped main fd
  | closeNone here free missing => exact seats.stopped main fd
  | close here free listed => exact seats.stopped main fd
  | _ => contradiction

theorem seatedStep (known : Known own s) (seats : Seated s) (made : Step config own s a t) : Seated t :=
  ⟨seatStep known seats made,insertedStep known seats made,lockedStep seats.locked made,stoppedStep seats made⟩

/- The records that are held are those in the table and the one that is about to be put there. -/
def Owns (held : ConnId → Bool) (s : State) : Prop := ∀ id, held id = true ↔ Allocated s id

theorem ownsSame {held : ConnId → Bool} (owns : Owns held s) (connections : t.connections = s.connections)
    (main : aside t.main = aside s.main) : Owns held t := by
  intro id
  rw [owns id, Allocated, Allocated, connections, main]

/- The slot fd is vacated and its record given back. -/
theorem ownsVacated {held : ConnId → Bool} (matched : Matched own s) (owns : Owns held s) {fd : Nat} {id : ConnId}
    (listed : s.connections fd = some id) (setup : aside s.main ≠ some id)
    (connections : t.connections = Function.update s.connections fd none) (main : aside t.main = aside s.main) :
    Owns (Function.update held id false) t := by
  intro c
  rw [Allocated, connections, main]
  by_cases same : c = id
  · subst same
    rw [Function.update_self]
    refine ⟨fun wrong => Bool.noConfusion wrong,fun there => ?_⟩
    rcases there with ⟨k,there⟩ | there
    · have before := updateOpen there
      have alike : k = fd := (matched.names k c before).symm.trans (matched.names fd c listed)
      rw [alike, Function.update_self] at there
      contradiction
    · exact absurd there setup
  · rw [Function.update_of_ne same, owns c, Allocated]
    constructor
    · rintro (⟨k,there⟩ | there)
      · refine Or.inl ⟨k,seatKept there (fun alike => ?_)⟩
        rw [alike, listed] at there
        exact same (Option.some.inj there).symm
      · exact Or.inr there
    · rintro (⟨k,there⟩ | there)
      · exact Or.inl ⟨k,updateOpen there⟩
      · exact Or.inr there

theorem recordsListed (matched : Matched own s) (id : ConnId) : id ∈ listedRecords s ↔ ∃ fd, s.connections fd = some id := by
  rw [listedRecords, List.mem_filterMap]
  constructor
  · rintro ⟨fd,_,listed⟩
    exact ⟨fd,listed⟩
  · rintro ⟨fd,listed⟩
    exact ⟨fd,List.mem_range.mpr (matched.placed.listed fd id listed).1,listed⟩

theorem recordsOnce (matched : Matched own s) : (listedRecords s).Nodup := by
  refine List.Nodup.filterMap ?_ List.nodup_range
  intro k l id there other
  exact (matched.names k id there).symm.trans (matched.names l id other)

theorem listedHeld {held : ConnId → Bool} (owns : Owns held s) {fd : Nat} {id : ConnId} (listed : s.connections fd = some id) :
    held id = true :=
  (owns id).mpr (Or.inl ⟨fd,listed⟩)

theorem touched {held : ConnId → Bool} {id : ConnId} (there : held id = true) : useAll held [.touches id] = some held :=
  touchesHeld there []

theorem given {held : ConnId → Bool} {id : ConnId} (there : held id = true) :
    useAll held [.gives id] = some (Function.update held id false) :=
  givesHeld there []

/- One turn of the scan: the record is looked at and, when it is old, given back. -/
theorem scanUses {held : ConnId → Bool} (known : Known own s) (owns : Owns held s)
    (made : step config own s .scan = some t) : ∃ left, useAll held (uses s .scan) = some left ∧ Owns left t := by
  cases main : s.main with
  | scanning since now slot =>
    simp only [step, Server.scan, main] at made
    split at made
    · rename_i small
      cases listed : s.connections slot with
      | none =>
        rw [listed] at made
        cases Option.some.inj made
        refine ⟨held,?_,ownsSame owns rfl (by rw [main]; rfl)⟩
        simp only [uses, main, mainUses, if_pos small, expires, listed]
        rfl
      | some id =>
        have there := listedHeld owns listed
        rw [listed] at made
        dsimp only at made
        split at made
        · rename_i old
          cases Option.some.inj made
          refine ⟨Function.update held id false,?_,?_⟩
          · simp only [uses, main, mainUses, if_pos small, expires, listed, if_pos old]
            exact (touchesHeld there _).trans (given there)
          · simp only [epollHandlerClose, listed]
            exact ownsVacated known.matched owns listed (by rw [main]; simp [aside]) rfl (by rw [main]; rfl)
        · rename_i young
          cases Option.some.inj made
          refine ⟨held,?_,ownsSame owns rfl (by rw [main]; rfl)⟩
          simp only [uses, main, mainUses, if_pos small, expires, listed, if_neg young]
          exact touched there
    · rename_i all
      cases Option.some.inj made
      refine ⟨held,?_,ownsSame owns rfl (by rw [main]; rfl)⟩
      simp only [uses, main, mainUses, if_neg all]
      rfl
  | _ =>
    simp only [step, Server.scan, main] at made
    contradiction

/- The record of an accepted connection is new: no table lists it, and nobody sets another one up. -/
theorem prepareUses {held : ConnId → Bool} (known : Known own s) (owns : Owns held s) {n rest}
    (here : s.main = .accepted n rest) :
    ∃ left, useAll held (uses s .prepare) = some left ∧
      Owns left {setConn s n.origin (acceptedConnection n.fd s.clock) with main := .prepared n rest} := by
  have unlisted := known.tracked.unlisted n
  have free : held n.origin = false := by
    cases there : held n.origin with
    | false => rfl
    | true =>
      rcases (owns n.origin).mp there with ⟨fd,listed⟩ | set
      · exact absurd listed (unlisted fd (by rw [here]; rfl))
      · rw [here] at set
        contradiction
  refine ⟨Function.update held n.origin true,?_,fun id => ?_⟩
  · simp only [uses, here, mainUses]
    rw [takesFresh free]
    exact touched (Function.update_self _ _ _)
  · rw [Allocated]
    by_cases same : id = n.origin
    · subst same
      rw [Function.update_self]
      exact ⟨fun _ => Or.inr rfl,fun _ => rfl⟩
    · rw [Function.update_of_ne same, owns id, Allocated, here]
      constructor
      · rintro (listed | set)
        · exact Or.inl listed
        · contradiction
      · rintro (listed | set)
        · exact Or.inl listed
        · exact absurd (Option.some.inj set).symm same

theorem insertOwns {held : ConnId → Bool} (known : Known own s) (owns : Owns held s) {n rest}
    (here : s.main = .prepared n rest) (free : MutexFree s) :
    Owns held {s with main := .inserted n rest, connections := Function.update s.connections n.fd (some n.origin)} := by
  have empty := setupEmpty known.matched free (n := n) (by rw [here]; rfl)
  intro id
  rw [owns id, Allocated, Allocated, here]
  constructor
  · rintro (⟨fd,listed⟩ | set)
    · refine Or.inl ⟨fd,seatKept listed (fun alike => ?_)⟩
      rw [alike, empty] at listed
      contradiction
    · cases Option.some.inj set
      exact Or.inl ⟨n.fd,Function.update_self _ _ _⟩
  · rintro (⟨fd,listed⟩ | set)
    · dsimp only at listed
      by_cases alike : fd = n.fd
      · rw [alike, Function.update_self] at listed
        exact Or.inr listed
      · rw [Function.update_of_ne alike] at listed
        exact Or.inl ⟨fd,listed⟩
    · contradiction

theorem cleanupUses {held : ConnId → Bool} (known : Known own s) (owns : Owns held s) (here : s.main = .draining) :
    ∃ left, useAll held (uses s .cleanup) = some left ∧ ∀ id, left id = false := by
  have there : ∀ id ∈ listedRecords s, held id = true := by
    intro id member
    obtain ⟨fd,listed⟩ := (recordsListed known.matched id).mp member
    exact listedHeld owns listed
  refine ⟨fun id => held id && !(listedRecords s).contains id,?_,fun id => ?_⟩
  · simp only [uses, here, mainUses]
    exact givesEach there (recordsOnce known.matched)
  · dsimp only
    cases mine : held id with
    | false => rfl
    | true =>
      have member : id ∈ listedRecords s := by
        rcases (owns id).mp mine with listed | set
        · exact (recordsListed known.matched id).mpr listed
        · rw [here] at set
          contradiction
      simp [member]

theorem mainSame {held : ConnId → Bool} (owns : Owns held s) (unused : uses s a = []) (connections : t.connections = s.connections)
    (main : aside t.main = aside s.main) : ∃ left, useAll held (uses s a) = some left ∧ Owns left t := by
  rw [unused]
  exact ⟨held,rfl,ownsSame owns connections main⟩

theorem tickUses (s : State) (seconds : Nat) : uses s (.tick seconds) = [] := by
  simp only [uses]
  unfold mainUses
  split <;> first | contradiction | rfl

theorem usesStep {held : ConnId → Bool} (known : Known own s) (seats : Seated s) (owns : Owns held s)
    (made : step config own s a = some t) : ∃ left, useAll held (uses s a) = some left ∧ Owns left t := by
  have worker : ∀ {w p turn}, s.workers[w]? = some p → uses s (.worker w turn) = workerUses s p turn := by
    intro w p turn here
    simp only [uses, here]
  cases stepSound made with
  | tick seconds => exact mainSame owns (tickUses s seconds) rfl rfl
  | quiet move =>
    cases move with
    | acceptEvent here => exact mainSame owns (by simp only [uses, here, mainUses]) rfl (by rw [here]; rfl)
    | acceptEnds here => exact mainSame owns (by simp only [uses, here, mainUses]) rfl (by rw [here]; rfl)
    | due here => exact mainSame owns (by simp only [uses, here, mainUses]) rfl (by rw [here]; rfl)
    | early here => exact mainSame owns (by simp only [uses, here, mainUses]) rfl (by rw [here]; rfl)
    | readClock here => exact mainSame owns (by simp only [uses, here, mainUses]) rfl (by rw [here]; rfl)
    | lock here free => exact mainSame owns (by simp only [uses, here, mainUses]) rfl (by rw [here]; rfl)
    | skip here => exact scanUses known owns made
    | stop here => exact mainSame owns (by simp only [uses, here, mainUses]) rfl (by rw [here]; rfl)
  | scanEnds here => exact scanUses known owns made
  | expire here small listed unused old => exact scanUses known owns made
  | epollWait here distinct ready => exact mainSame owns (by simp only [uses, here, mainUses]) rfl (by rw [here]; rfl)
  | dispatch here => exact mainSame owns (by simp only [uses, here, mainUses]) rfl (by rw [here]; rfl)
  | refused here free missing =>
    exact mainSame owns (by simp only [uses, here, mainUses, missing, Option.toList_none, List.map_nil]) rfl (by rw [here]; rfl)
  | @dispatchFails n rest id here free listed =>
    refine ⟨Function.update held id false,?_,ownsVacated known.matched owns listed (by rw [here]; simp [aside]) rfl (by rw [here]; rfl)⟩
    simp only [uses, here, mainUses, listed]
    exact given (listedHeld owns listed)
  | accept here closed foreign => exact mainSame owns (by simp only [uses, here, mainUses]) rfl (by rw [here]; rfl)
  | reject here => exact mainSame owns (by simp only [uses, here, mainUses]) rfl (by rw [here]; rfl)
  | prepare here small => exact prepareUses known owns here
  | insert here free =>
    refine ⟨held,?_,insertOwns known owns here free⟩
    simp only [uses, here, mainUses, useAll]
  | register here isOpen => exact mainSame owns (by simp only [uses, here, mainUses]) rfl (by rw [here]; rfl)
  | @registerFails n rest here free =>
    have listed := seats.inserted n rest here
    refine ⟨Function.update held n.origin false,?_,ownsVacated known.matched owns listed (by rw [here]; simp [aside]) rfl (by rw [here]; rfl)⟩
    simp only [uses, here, mainUses]
    exact given (listedHeld owns listed)
  | cleanup here empty idle =>
    obtain ⟨left,used,nothing⟩ := cleanupUses known owns here
    refine ⟨left,used,fun id => ?_⟩
    rw [nothing id]
    refine ⟨fun wrong => Bool.noConfusion wrong,fun there => ?_⟩
    rcases there with ⟨fd,listed⟩ | set <;> contradiction
  | dequeue here head => exact mainSame owns (worker here) rfl rfl
  | lookupNone here free missing =>
    refine mainSame owns ?_ rfl rfl
    simp only [worker here, workerUses, missing, Option.toList_none, List.map_nil]
  | @lookup w n id here free listed =>
    refine ⟨held,?_,ownsSame owns rfl rfl⟩
    simp only [worker here, workerUses, listed]
    exact touched (listedHeld owns listed)
  | @stamp w n id here =>
    refine ⟨held,?_,ownsSame owns rfl rfl⟩
    rw [worker here]
    exact touched (listedHeld owns (seats.seat w .marked n id here rfl))
  | @serve w n id env world here =>
    refine ⟨held,?_,ownsSame owns rfl rfl⟩
    rw [worker here]
    exact touched (listedHeld owns (seats.seat w .running n id here rfl))
  | rearm here => exact mainSame owns (worker here) rfl rfl
  | @keep w n id here free =>
    refine ⟨held,?_,ownsSame owns rfl rfl⟩
    rw [worker here]
    exact touched (listedHeld owns (seats.seat w .keeping n id here rfl))
  | @closeNone w n id here free missing =>
    have listed := seats.seat w .closing n id here rfl
    rw [missing] at listed
    contradiction
  | @close w n id found here free listed =>
    refine ⟨held,?_,ownsSame owns rfl rfl⟩
    rw [worker here]
    exact touched (listedHeld owns (seats.seat w .closing n id here rfl))
  | @vacate w n id here =>
    have listed := seats.seat w .closed n id here rfl
    refine ⟨Function.update held id false,?_,ownsVacated known.matched owns listed (fun setup => ?_) rfl rfl⟩
    · simp only [worker here, workerUses, listed]
      exact given (listedHeld owns listed)
    · unfold aside at setup
      split at setup <;> try contradiction
      rename_i m rest main
      exact closedApart known.tracked here (by rw [main]; exact List.mem_cons_self) (Option.some.inj setup).symm

structure Safe (own : Nat → Bool) (m : Memory) : Prop where
  known : Known own m.server
  seats : Seated m.server
  owns : ∃ held, m.held = some held ∧ Owns held m.server

theorem safeStep {m n : Memory} (safe : Safe own m) (fresh : FreshAccept m.server a)
    (made : memoryStep config own m a = some n) : Safe own n := by
  obtain ⟨t,moved,rfl⟩ := Option.map_eq_some_iff.mp made
  obtain ⟨held,same,owns⟩ := safe.owns
  obtain ⟨left,used,later⟩ := usesStep safe.known safe.seats owns moved
  refine ⟨knownStep safe.known (stepSound moved) fresh,seatedStep safe.known safe.seats (stepSound moved),left,?_,later⟩
  rw [same]
  exact used

theorem initialSafe (config : ServerConfig) (own : Nat → Bool) (now : Int) :
    Safe own ⟨initial config now,some (fun _ => false)⟩ := by
  have idle : ∀ (w : Nat) stage n id, (initial config now).workers[w]? ≠ some (.holding stage n id) := by
    intro w stage n id here
    have resting := List.eq_of_mem_replicate (List.mem_of_getElem? here)
    contradiction
  refine ⟨⟨initialTracked config now,initialMatched config own now,_,initialMirrored config now⟩,?_,_,rfl,fun id => ?_⟩
  · exact ⟨fun w stage n id here => absurd here (idle w stage n id),fun _ _ main => MainPc.noConfusion main,
      fun main => Bool.noConfusion main,fun main => MainPc.noConfusion main⟩
  · refine ⟨fun wrong => Bool.noConfusion wrong,fun there => ?_⟩
    rcases there with ⟨fd,listed⟩ | set <;> contradiction

end

/- No fault in any run: the records in use are those in the table and the one on its way there. At the end
every record is given back. -/
theorem memorySafe (config : ServerConfig) (own : Nat → Bool) (m : Memory)
    (reached : Reach (memory config own) (fun m a => FreshAccept m.server a) m) :
    ∃ held, m.held = some held ∧ (∀ id, held id = true ↔ Allocated m.server id) ∧
      (m.server.main = .stopped → ∀ id, held id = false) := by
  have safe : Safe own m := by
    refine reachInvariant (I := Safe own) ?_ (fun _ _ _ safe fresh made => safeStep safe fresh made) reached
    rintro m ⟨now,rfl⟩
    exact initialSafe config own now
  obtain ⟨held,same,owns⟩ := safe.owns
  refine ⟨held,same,owns,fun main id => ?_⟩
  cases there : held id with
  | false => rfl
  | true =>
    rcases (owns id).mp there with ⟨fd,listed⟩ | set
    · rw [safe.seats.stopped main fd] at listed
      contradiction
    · rw [main] at set
      contradiction

/- A client comes and hangs up, another one comes and stays until the server stops. -/
def twoClients : List Action :=
  reusedRun ++ [.worker 1 .stamp,.worker 1 (arrives "GET / HT"),.worker 1 .rearm,.batchEnds,.stop,.cleanup]

theorem twoGivenBack : ∃ m held, Reach (memory Main.defaults firstFive) (fun m a => FreshAccept m.server a) m ∧
    m.server.next = 2 ∧ m.held = some held ∧ ∀ id, held id = false := by
  have start : Reach (memory Main.defaults firstFive) (fun m a => FreshAccept m.server a)
      ⟨initial Main.defaults 0,some (fun _ => false)⟩ := .start ⟨0,rfl⟩
  have follows : Follows (memory Main.defaults firstFive) (fun m a => FreshAccept m.server a)
      ⟨initial Main.defaults 0,some (fun _ => false)⟩ twoClients := by
    decide +kernel
  obtain ⟨m,reached,seen⟩ := reachSeen start (fun m => (m.server.main,m.server.next)) follows (b := (.stopped,2))
    (by decide +kernel)
  obtain ⟨main,next⟩ := Prod.mk.inj seen
  obtain ⟨held,same,_,left⟩ := memorySafe Main.defaults firstFive m reached
  exact ⟨m,held,reached,next,same,left main⟩

end EpollHttpServer.ConnectionMemory
