import EpollHttpServer.Sessions

/-! One pass of epoll_handler_check_timeout while the workers go on. The mutex keeps them from picking up or
giving back a connection, so what is idle when the lock is taken is closed when it is released, and what was
active within the timeout is not. -/
namespace EpollHttpServer.Eviction
open CString FileSystem Worker Server Ownership ConnectionTable LiveNotices IdleTimeout Sessions Runs Simulation

/- What the scan tests. -/
def Old (s : State) (now : Int) (id : ConnId) : Prop :=
  (s.heap id).inUse = false ∧ now - (s.heap id).lastActive > connectionTimeout

section
variable {config : ServerConfig} {own : Nat → Bool} {s t : State} {a : Action} {since now : Int} {slot : Nat}

/- One turn of the loop. -/
inductive Turned (s : State) (since now : Int) (slot : Nat) (t : State) : Prop where
  | ends (past : maxEvents ≤ slot) (main : t.main = .wait) (connections : t.connections = s.connections)
      (opened : t.opened = s.opened)
  | closes (id) (listed : s.connections slot = some id) (old : Old s now id) (main : t.main = .scanning since now (slot+1))
      (connections : t.connections = Function.update s.connections slot none)
      (opened : t.opened = Function.update s.opened slot none)
  | spares (main : t.main = .scanning since now (slot+1)) (connections : t.connections = s.connections)
      (opened : t.opened = s.opened) (young : ∀ id, s.connections slot = some id → ¬ Old s now id)

theorem scanTurned (main : s.main = .scanning since now slot) (made : step config own s .scan = some t) :
    t.heap = s.heap ∧ Turned s since now slot t := by
  simp only [step, Server.scan, main] at made
  split at made
  · split at made
    · rename_i listed
      cases Option.some.inj made
      exact ⟨rfl,.spares rfl rfl rfl (fun id there => by rw [listed] at there; contradiction)⟩
    · rename_i id listed
      split at made
      · rename_i old
        cases Option.some.inj made
        simp only [epollHandlerClose, listed]
        exact ⟨rfl,.closes id listed old rfl rfl rfl⟩
      · rename_i young
        cases Option.some.inj made
        refine ⟨rfl,.spares rfl rfl rfl (fun c there => ?_)⟩
        rw [listed] at there
        cases Option.some.inj there
        exact young
  · rename_i past
    cases Option.some.inj made
    exact ⟨rfl,.ends (Nat.le_of_not_lt past) rfl rfl rfl⟩

/- What a worker, or the clock, does in the meantime. -/
structure Beside (s t : State) : Prop where
  main : t.main = s.main
  connections : t.connections = s.connections
  opened : t.opened = s.opened
  heap : ∀ id, t.heap id = s.heap id ∨ ∃ (w : Nat) (stage : Stage) (n : Notice),
    s.workers[w]? = some (.holding stage n id) ∧ Stage.inUse stage = true

theorem besideHeap {w : Nat} {stage n id} (here : s.workers[w]? = some (.holding stage n id)) (busy : Stage.inUse stage = true)
    (c : ClientConnection) (k : ConnId) : Function.update s.heap id c k = s.heap k ∨ ∃ (w : Nat) (stage : Stage) (n : Notice),
      s.workers[w]? = some (.holding stage n k) ∧ Stage.inUse stage = true := by
  rcases updatedConn s.heap id c k with same | ⟨rfl,_⟩
  · exact Or.inl same
  · exact Or.inr ⟨w,stage,n,here,busy⟩

theorem besideScan (main : s.main = .scanning since now slot) (locked : ∀ p ∈ s.workers, p.closedFd = none)
    (other : a ≠ .scan) (made : Step config own s a t) : Beside s t := by
  have held : s.main.locked = true := by rw [main]; rfl
  have taken : ¬ MutexFree s := fun free => by rw [free.1] at held; contradiction
  cases made with
  | tick seconds => exact ⟨rfl,rfl,rfl,fun _ => Or.inl rfl⟩
  | quiet move =>
    cases move with
    | skip here => contradiction
    | acceptEvent here => rw [main] at here; contradiction
    | acceptEnds here => rw [main] at here; contradiction
    | due here => rw [main] at here; contradiction
    | early here => rw [main] at here; contradiction
    | readClock here => rw [main] at here; contradiction
    | lock here free => rw [main] at here; contradiction
    | stop here => rw [main] at here; contradiction
  | scanEnds here => contradiction
  | expire here small listed unused old => contradiction
  | epollWait here distinct ready => rw [main] at here; contradiction
  | dispatch here => rw [main] at here; contradiction
  | refused here free missing => rw [main] at here; contradiction
  | dispatchFails here free listed => rw [main] at here; contradiction
  | accept here closed foreign => rw [main] at here; contradiction
  | reject here => rw [main] at here; contradiction
  | prepare here small => rw [main] at here; contradiction
  | insert here free => rw [main] at here; contradiction
  | register here isOpen => rw [main] at here; contradiction
  | registerFails here free => rw [main] at here; contradiction
  | cleanup here empty idle => rw [main] at here; contradiction
  | dequeue here head => exact ⟨rfl,rfl,rfl,fun _ => Or.inl rfl⟩
  | lookupNone here free missing => exact absurd free taken
  | lookup here free listed => exact absurd free taken
  | stamp here => exact ⟨rfl,rfl,rfl,besideHeap here rfl _⟩
  | serve here => exact ⟨rfl,rfl,rfl,besideHeap here rfl _⟩
  | rearm here => exact ⟨rfl,rfl,rfl,fun _ => Or.inl rfl⟩
  | keep here free => exact absurd free taken
  | closeNone here free missing => exact absurd free taken
  | close here free listed => exact absurd free taken
  | vacate here =>
    have opened := locked _ (List.mem_of_getElem? here)
    contradiction

theorem reachScanned {allowed} (reached : Reach (server config own) allowed s) :
    (s.main.locked = true → ∀ p ∈ s.workers, p.closedFd = none) ∧ ∀ now, scanTime s.main = some now → now ≤ s.clock := by
  refine reachInvariant (I := fun s => (s.main.locked = true → ∀ p ∈ s.workers, p.closedFd = none) ∧
    ∀ now, scanTime s.main = some now → now ≤ s.clock) ?_ ?_ reached
  · rintro s ⟨now,rfl⟩
    exact ⟨fun locked => Bool.noConfusion locked,fun now scanned => absurd scanned (by simp [initial, scanTime])⟩
  · intro s a t holds _ made
    exact ⟨lockedStep holds.1 (stepSound made),scannedStep holds.2 (stepSound made)⟩

/- A connection that is not in use has no worker that would write its record. -/
theorem oldUntouched (reached : Reach (server config own) FreshAccept s) (beside : Beside s t) {id : ConnId}
    (unused : (s.heap id).inUse = false) : t.heap id = s.heap id := by
  obtain ⟨u,_,_,same⟩ := reachRefined (serverRefines config own) reached
  rcases beside.heap id with kept | ⟨w,stage,n,here,busy⟩
  · exact kept
  · obtain ⟨_,_,_,_,flag⟩ := same.held w stage n id here
    rw [flag busy] at unused
    contradiction

/- Before its slot is reached, and after. -/
inductive Condemned (since now : Int) (fd : Nat) (id : ConnId) (s : State) : Prop where
  | before (k : Nat) (main : s.main = .scanning since now k) (ahead : k ≤ fd) (listed : s.connections fd = some id)
      (old : Old s now id)
  | after (k : Nat) (main : s.main = .wait ∨ s.main = .scanning since now k) (vacant : s.connections fd = none)
      (closed : s.opened fd = none)

theorem condemnedScan {fd : Nat} {id : ConnId} (small : fd < maxEvents) (condemned : Condemned since now fd id s)
    (main : s.main = .scanning since now slot) (made : step config own s .scan = some t) :
    Condemned since now fd id t := by
  obtain ⟨heap,turned⟩ := scanTurned main made
  cases condemned with
  | before k here ahead listed old =>
    rw [main] at here
    cases here
    have still : Old t now id := by
      rw [Old, heap]
      exact old
    cases turned with
    | ends past _ _ _ => omega
    | closes c there _ main' connections opened =>
      by_cases mine : fd = slot
      · subst mine
        refine .after (fd+1) (Or.inr main') ?_ ?_
        · rw [connections, Function.update_self]
        · rw [opened, Function.update_self]
      · refine .before (slot+1) main' (by omega) ?_ still
        rw [connections, Function.update_of_ne mine]
        exact listed
    | spares main' connections opened young =>
      by_cases mine : fd = slot
      · subst mine
        exact absurd old (young id listed)
      · refine .before (slot+1) main' (by omega) ?_ still
        rw [connections]
        exact listed
  | after k _ vacant closed =>
    cases turned with
    | ends past main' connections opened =>
      exact .after k (Or.inl main') (by rw [connections]; exact vacant) (by rw [opened]; exact closed)
    | closes c there _ main' connections opened =>
      refine .after (slot+1) (Or.inr main') ?_ ?_
      · rw [connections, Function.update_apply, vacant, ite_self]
      · rw [opened, Function.update_apply, closed, ite_self]
    | spares main' connections opened young =>
      exact .after (slot+1) (Or.inr main') (by rw [connections]; exact vacant) (by rw [opened]; exact closed)

theorem condemnedStep {fd : Nat} {id : ConnId} (small : fd < maxEvents) (reached : Reach (server config own) FreshAccept s)
    (here : s.main.locked = true) (condemned : Condemned since now fd id s) (made : step config own s a = some t) :
    Condemned since now fd id t := by
  have scanning : ∃ k, s.main = .scanning since now k := by
    cases condemned with
    | before k main _ _ _ => exact ⟨k,main⟩
    | after k main _ _ =>
      rcases main with waits | main
      · rw [waits] at here
        contradiction
      · exact ⟨k,main⟩
  obtain ⟨slot,main⟩ := scanning
  by_cases turn : a = .scan
  · subst turn
    exact condemnedScan small condemned main made
  · have beside := besideScan main ((reachScanned reached).1 here) turn (stepSound made)
    cases condemned with
    | before k stands ahead listed old =>
      refine .before k (beside.main.trans stands) ahead (by rw [beside.connections]; exact listed) ?_
      rw [Old, oldUntouched reached beside old.1]
      exact old
    | after k stands vacant closed =>
      exact .after k (by rw [beside.main]; exact stands) (by rw [beside.connections]; exact vacant)
        (by rw [beside.opened]; exact closed)

/- Active within the timeout, and so it stays. -/
structure Recent (since now : Int) (fd : Nat) (id : ConnId) (s : State) : Prop where
  main : s.main = .wait ∨ ∃ k, s.main = .scanning since now k
  listed : s.connections fd = some id
  recent : now - (s.heap id).lastActive ≤ connectionTimeout

theorem recentStep {allowed} {fd : Nat} {id : ConnId} (reached : Reach (server config own) allowed s)
    (here : s.main.locked = true) (recent : Recent since now fd id s) (made : step config own s a = some t) :
    Recent since now fd id t := by
  obtain ⟨locked,scanned⟩ := reachScanned reached
  obtain ⟨slot,main⟩ : ∃ k, s.main = .scanning since now k := by
    rcases recent.main with waits | main
    · rw [waits] at here
      contradiction
    · exact main
  have stays : now - (t.heap id).lastActive ≤ connectionTimeout := by
    have young := recent.recent
    have past := scanned now (by rw [main]; rfl)
    have grows := clockGrows (stepSound made)
    rcases lastActiveStep (stepSound made) id with same | new
    · rw [same]
      exact young
    · have positive : (0 : Int) ≤ connectionTimeout := by decide
      rw [new]
      omega
  by_cases turn : a = .scan
  · subst turn
    obtain ⟨heap,turned⟩ := scanTurned main made
    cases turned with
    | ends past main' connections opened => exact ⟨Or.inl main',by rw [connections]; exact recent.listed,stays⟩
    | closes c there old main' connections opened =>
      refine ⟨Or.inr ⟨_,main'⟩,?_,stays⟩
      have other : fd ≠ slot := by
        rintro rfl
        have same := recent.listed
        rw [there] at same
        cases Option.some.inj same
        exact absurd recent.recent (not_le.mpr old.2)
      rw [connections, Function.update_of_ne other]
      exact recent.listed
    | spares main' connections opened young =>
      exact ⟨Or.inr ⟨_,main'⟩,by rw [connections]; exact recent.listed,stays⟩
  · have beside := besideScan main (locked here) turn (stepSound made)
    exact ⟨by rw [beside.main]; exact recent.main,by rw [beside.connections]; exact recent.listed,stays⟩

end

theorem lockedFresh {config : ServerConfig} {own : Nat → Bool} {s t : State} {a : Action} (locked : s.main.locked = true)
    (made : step config own s a = some t) : FreshAccept s a := by
  rintro fd rfl
  cases stepSound made with
  | accept here closed foreign =>
    rw [here] at locked
    contradiction
  | quiet move => cases move

/- From lock to unlock, whatever the workers do: what was idle for too long when the lock was taken is closed, what
was active within the timeout stays. -/
theorem passEvicts (config : ServerConfig) (own : Nat → Bool) (s : State)
    (reached : Reach (server config own) FreshAccept s) (since now : Int) (begins : s.main = .scanning since now 0)
    (as : List Action) (t : State) (follows : Follows (server config own) (fun u _ => u.main.locked = true) s as)
    (ran : run (server config own) s as = some t) (ended : t.main = .wait) (fd : Nat) (id : ConnId)
    (listed : s.connections fd = some id) :
    (Old s now id → t.connections fd = none ∧ t.opened fd = none) ∧
    (now - (s.heap id).lastActive ≤ connectionTimeout → t.connections fd = some id) := by
  have matched : Matched own s := reachMatched reached
  have small := (matched.placed.listed fd id listed).1
  constructor
  · intro old
    have condemned : Reach (server config own) FreshAccept t ∧ Condemned since now fd id t := by
      refine runInvariant (I := fun u => Reach (server config own) FreshAccept u ∧ Condemned since now fd id u)
        (fun u a v holds locked made => ?_) ⟨reached,.before 0 begins (Nat.zero_le _) listed old⟩ follows ran
      exact ⟨.next holds.1 (lockedFresh locked made) made,condemnedStep small holds.1 locked holds.2 made⟩
    cases condemned.2 with
    | before k main _ _ _ =>
      rw [ended] at main
      contradiction
    | after k _ vacant closed => exact ⟨vacant,closed⟩
  · intro young
    have recent : Reach (server config own) FreshAccept t ∧ Recent since now fd id t := by
      refine runInvariant (I := fun u => Reach (server config own) FreshAccept u ∧ Recent since now fd id u)
        (fun u a v holds locked made => ?_) ⟨reached,Or.inr ⟨0,begins⟩,listed,young⟩ follows ran
      exact ⟨.next holds.1 (lockedFresh locked made) made,recentStep holds.1 locked holds.2 made⟩
    exact recent.2.listed

/- Two clients come, one is silent for 61 seconds and the other one sends again just before the scan. -/
def silentClient : List Action :=
  arrivalOn 5 ++ arrivalOn 6 ++ [.tick 61,.epollWait [.ready ⟨6,1⟩],.dispatch,.batchEnds,.worker 0 .dequeue,
    .worker 0 .lookup,.worker 0 .stamp,.readClock,.lock]

def onePass : List Action :=
  List.replicate 3 .scan ++ [.worker 0 (arrives "GET /")] ++ List.replicate 3 .scan ++ [.worker 0 .rearm] ++
    List.replicate (maxEvents - 5) .scan

theorem silentEvicted : ∃ s t, Reach (server Main.defaults firstFive) FreshAccept s ∧
    run (server Main.defaults firstFive) s onePass = some t ∧ t.connections 5 = none ∧ t.connections 6 = some 1 := by
  have seen : (run (server Main.defaults firstFive) (initial Main.defaults 0) silentClient).map (fun s =>
      ((s.main,s.connections 5,s.connections 6),((s.heap 0).inUse,(s.heap 0).lastActive,(s.heap 1).lastActive),
        decide (Follows (server Main.defaults firstFive) (fun u _ => u.main.locked = true) s onePass),
        (run (server Main.defaults firstFive) s onePass).map (fun t => t.main))) =
      some ((.scanning 61 61 0,some 0,some 1),(false,0,61),true,some .wait) := by
    decide +kernel
  have fresh : Follows (server Main.defaults firstFive) FreshAccept (initial Main.defaults 0) silentClient := by
    decide +kernel
  obtain ⟨s,ran,same⟩ := Option.map_eq_some_iff.mp seen
  obtain ⟨table,rest⟩ := Prod.mk.inj same
  obtain ⟨main,five,six⟩ : s.main = .scanning 61 61 0 ∧ s.connections 5 = some 0 ∧ s.connections 6 = some 1 := by
    simpa using table
  obtain ⟨records,rest⟩ := Prod.mk.inj rest
  obtain ⟨unused,first,second⟩ : (s.heap 0).inUse = false ∧ (s.heap 0).lastActive = 0 ∧ (s.heap 1).lastActive = 61 := by
    simpa using records
  obtain ⟨follows,rest⟩ := Prod.mk.inj rest
  obtain ⟨t,passed,ended⟩ := Option.map_eq_some_iff.mp rest
  have reached := reachRun (initialReach Main.defaults firstFive FreshAccept 0) fresh ran
  have pass := passEvicts Main.defaults firstFive s reached 61 61 main onePass t (of_decide_eq_true follows) passed ended
  refine ⟨s,t,reached,passed,?_,?_⟩
  · exact ((pass 5 0 five).1 ⟨unused,by rw [first]; decide⟩).1
  · exact (pass 6 1 six).2 (by rw [second]; decide)

end EpollHttpServer.Eviction
