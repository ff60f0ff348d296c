import EpollHttpServer.ConnectionTable

/-! epoll_handler_accept against a backlog. Its body is the part of Server between acceptEvent and acceptEnds, with
the workers and the clock running beside it; here each call of accept takes its answer from the kernel, and errno
decides how the loop goes on. -/
namespace EpollHttpServer.AcceptLoop
open Server Ownership ConnectionTable Runs

-- The last three are -1 with EAGAIN, ECONNABORTED and EINTR in errno.
inductive AcceptResult where
  | descriptor (fd : Nat)
  | again
  | aborted
  | interrupted
  deriving DecidableEq, Repr

/- backlog counts the connections that wait in the kernel, received lists what accept has returned so far. -/
structure Call where
  server : State
  backlog : Nat
  received : List Notice
  returned : Bool

inductive Move where
  | result (r : AcceptResult)
  | beside (a : Action)

/- EAGAIN when nothing waits, and only then. -/
def answers (backlog : Nat) : AcceptResult → Bool
  | .again => decide (backlog = 0)
  | _ => decide (0 < backlog)

/- The rest of the body, and the other threads. -/
def outside : Action → Bool
  | .accept _ => false
  | .acceptEnds => false
  | _ => true

section
variable (config : ServerConfig) (own : Nat → Bool)

def leave (s : Call) (backlog : Nat) : Option Call :=
  (step config own s.server .acceptEnds).map (fun t => {s with server := t, backlog := backlog, returned := true})

def acceptResult (s : Call) : AcceptResult → Option Call
  | .descriptor fd => (step config own s.server (.accept fd)).map (fun t => { s with
      server := t, backlog := s.backlog - 1, received := s.received ++ [⟨fd,s.server.next⟩] })
  | .again => leave config own s s.backlog
  -- perror, and the same break. The aborted connection is no longer in the backlog.
  | .aborted => leave config own s (s.backlog - 1)
  | .interrupted => leave config own s s.backlog

def callStep (s : Call) : Move → Option Call
  | .result r => if s.returned = false ∧ answers s.backlog r = true then acceptResult config own s r else none
  | .beside a =>
    if s.returned = false ∧ outside a = true then
      (step config own s.server a).map (fun t => {s with server := t})
    else none

/- The call begins where the main thread has taken the event of the listening socket, in any run of the server. -/
def acceptLoop : System Call Move where
  start := fun s => Reach (server config own) (fun _ _ => True) s.server ∧ (∃ rest, s.server.main = .accepting rest) ∧
    s.received = [] ∧ s.returned = false
  step := callStep config own

end

/- What has become of a descriptor: in the table and in epoll, or closed. -/
def Disposed (s : State) (n : Notice) : Prop :=
  (s.connections n.fd = some n.origin ∧ s.registered n.fd = some n.origin) ∨ s.opened n.fd ≠ some n.origin

structure Drained (s : Call) : Prop where
  empty : s.backlog = 0
  disposed : ∀ n ∈ s.received, Disposed s.server n

def results (moves : List Move) : List AcceptResult :=
  moves.filterMap (fun m => match m with | .result r => some r | .beside _ => none)

/- The first error, if there is one, comes with the last connection of the backlog and takes it away. -/
def Harmless : Nat → List AcceptResult → Prop
  | backlog,.descriptor _::rest => Harmless (backlog - 1) rest
  | backlog,.aborted::_ => backlog = 1
  | _,.interrupted::_ => False
  | _,_ => True

/- Every open descriptor is registered, apart from the one in its setup. -/
structure Registered (s : State) : Prop where
  setup : ∀ n, pending s.main = some n → ∀ id, s.opened n.fd = some id → id = n.origin
  enrolled : ∀ fd id, s.opened fd = some id → s.registered fd = some id ∨ pending s.main = some ⟨fd,id⟩

section
variable {config : ServerConfig} {own : Nat → Bool} {s t : State} {a : Action}

theorem enrolledOutside (inv : Registered s) (idle : pending s.main = none) {fd id} (isOpen : s.opened fd = some id) :
    s.registered fd = some id := by
  rcases inv.enrolled fd id isOpen with there | setup
  · exact there
  · rw [idle] at setup
    contradiction

/- epoll_remove_fd and close go together. -/
theorem shutEnrolled (inv : Registered s) {fd k : Nat} {id} (isOpen : Function.update s.opened fd none k = some id) :
    Function.update s.registered fd none k = some id ∨ pending s.main = some ⟨k,id⟩ := by
  rw [Function.update_of_ne (shutOther isOpen)]
  exact inv.enrolled k id (updateOpen isOpen)

theorem registeredIdle (idle : pending t.main = none)
    (enrolled : ∀ fd id, t.opened fd = some id → t.registered fd = some id) : Registered t := by
  refine ⟨fun n setup => ?_,fun fd id isOpen => Or.inl (enrolled fd id isOpen)⟩
  rw [idle] at setup
  contradiction

/- The main thread closes a descriptor that it does not set up. -/
theorem shutIdle (inv : Registered s) (idle : pending s.main = none) {fd k : Nat} {id}
    (isOpen : Function.update s.opened fd none k = some id) : Function.update s.registered fd none k = some id := by
  rcases shutEnrolled inv isOpen with there | setup
  · exact there
  · rw [idle] at setup
    contradiction

/- The setup moves on with its descriptor. -/
theorem setupKept (inv : Registered s) {n : Notice} (before : pending s.main = some n) (main : pending t.main = some n)
    (opened : t.opened = s.opened) (registered : t.registered = s.registered) : Registered t := by
  refine ⟨fun m setup => ?_,fun fd id isOpen => ?_⟩
  · rw [opened]
    exact inv.setup m (before.trans (main.symm.trans setup))
  · rw [opened] at isOpen
    rw [registered, main, ← before]
    exact inv.enrolled fd id isOpen

theorem registeredStep (matched : Matched own s) (inv : Registered s) (made : Step config own s a t) : Registered t := by
  cases made with
  | quiet move => exact registeredIdle (quietPending move) (fun fd id isOpen => enrolledOutside inv (quietOutside move) isOpen)
  | scanEnds here => exact registeredIdle rfl (fun fd id isOpen => enrolledOutside inv (by rw [here]; rfl) isOpen)
  | expire here small found unused old => exact registeredIdle rfl (fun fd id isOpen => shutIdle inv (by rw [here]; rfl) isOpen)
  | epollWait here distinct ready => exact registeredIdle rfl (fun fd id isOpen => enrolledOutside inv (by rw [here]; rfl) isOpen)
  | dispatch here => exact registeredIdle rfl (fun fd id isOpen => enrolledOutside inv (by rw [here]; rfl) isOpen)
  | refused here free missing => exact registeredIdle rfl (fun fd id isOpen => enrolledOutside inv (by rw [here]; rfl) isOpen)
  | dispatchFails here free found => exact registeredIdle rfl (fun fd id isOpen => shutIdle inv (by rw [here]; rfl) isOpen)
  | @accept rest fd here closed foreign =>
    refine ⟨fun n setup id isOpen => ?_,fun k id isOpen => ?_⟩
    · cases Option.some.inj setup
      dsimp only at isOpen
      rw [Function.update_self] at isOpen
      exact (Option.some.inj isOpen).symm
    · dsimp only at isOpen ⊢
      by_cases same : k = fd
      · subst same
        rw [Function.update_self] at isOpen
        cases Option.some.inj isOpen
        exact Or.inr rfl
      · rw [Function.update_of_ne same] at isOpen
        exact Or.inl (enrolledOutside inv (by rw [here]; rfl) isOpen)
  | @reject n rest here =>
    refine registeredIdle rfl (fun fd id isOpen => ?_)
    rcases inv.enrolled fd id (updateOpen isOpen) with there | setup
    · exact there
    · rw [here] at setup
      cases Option.some.inj setup
      exact absurd rfl (shutOther isOpen)
  | prepare here small => exact setupKept inv (by rw [here]; rfl) rfl rfl rfl
  | insert here free => exact setupKept inv (by rw [here]; rfl) rfl rfl rfl
  | @register n rest here isOpen =>
    refine registeredIdle rfl (fun fd id there => ?_)
    dsimp only at there ⊢
    by_cases same : fd = n.fd
    · subst same
      rw [Function.update_self, inv.setup n (by rw [here]; rfl) id there]
    · rw [Function.update_of_ne same]
      rcases inv.enrolled fd id there with listed | setup
      · exact listed
      · rw [here] at setup
        cases Option.some.inj setup
        exact absurd rfl same
  | @registerFails n rest here free =>
    refine registeredIdle rfl (fun fd id isOpen => ?_)
    rcases shutEnrolled inv isOpen with there | setup
    · exact there
    · rw [here] at setup
      cases Option.some.inj setup
      exact absurd rfl (shutOther isOpen)
  | cleanup here empty idle =>
    refine registeredIdle rfl (fun fd id isOpen => ?_)
    dsimp only at isOpen
    rw [cleanedNone matched (by rw [here]; rfl)] at isOpen
    contradiction
  | close here free found =>
    exact ⟨fun n setup id isOpen => inv.setup n setup id (updateOpen isOpen),fun fd id isOpen => shutEnrolled inv isOpen⟩
  | _ => exact ⟨inv.setup,inv.enrolled⟩

theorem reachRegistered {allowed} (reached : Reach (server config own) allowed s) : Matched own s ∧ Registered s := by
  refine @reachInvariant _ _ _ _ (fun s => Matched own s ∧ Registered s) ?_ ?_ _ reached
  · rintro s ⟨now,rfl⟩
    exact ⟨initialMatched config own now,registeredIdle rfl (fun fd id isOpen => by contradiction)⟩
  · intro s a t ⟨matched,inv⟩ _ made
    exact ⟨matchedStep matched (stepSound made),registeredStep matched inv (stepSound made)⟩

/- Between two turns no descriptor is left half set up, whoever closed what in the meantime. -/
theorem disposedIdle (reached : Reach (server config own) (fun _ _ => True) s) (idle : pending s.main = none) (n : Notice) :
    Disposed s n := by
  obtain ⟨matched,inv⟩ := reachRegistered reached
  by_cases isOpen : s.opened n.fd = some n.origin
  · exact Or.inl ⟨openOutside matched (pendingUnlisted idle) isOpen,enrolledOutside inv idle isOpen⟩
  · exact Or.inr isOpen

end

/- What a move of the loop does, by the answer of accept. -/
inductive Moved (config : ServerConfig) (own : Nat → Bool) : Call → Move → Call → Prop where
  | descriptor {s fd t} (waits : 0 < s.backlog) (made : step config own s.server (.accept fd) = some t) :
      Moved config own s (.result (.descriptor fd)) { s with
        server := t, backlog := s.backlog - 1, received := s.received ++ [⟨fd,s.server.next⟩] }
  | again {s t} (empty : s.backlog = 0) (made : step config own s.server .acceptEnds = some t) :
      Moved config own s (.result .again) {s with server := t, returned := true}
  | aborted {s t} (waits : 0 < s.backlog) (made : step config own s.server .acceptEnds = some t) :
      Moved config own s (.result .aborted) {s with server := t, backlog := s.backlog - 1, returned := true}
  | interrupted {s t} (waits : 0 < s.backlog) (made : step config own s.server .acceptEnds = some t) :
      Moved config own s (.result .interrupted) {s with server := t, returned := true}
  | beside {s a t} (made : step config own s.server a = some t) : Moved config own s (.beside a) {s with server := t}

section
variable {config : ServerConfig} {own : Nat → Bool} {s t : Call}

theorem acceptLeaves {s t : State} (made : step config own s .acceptEnds = some t) : pending t.main = none := by
  simp only [step] at made
  split at made <;> try contradiction
  cases Option.some.inj made
  rfl

theorem moveSound {m : Move} (made : callStep config own s m = some t) : s.returned = false ∧ Moved config own s m t := by
  cases m with
  | result r =>
    simp only [callStep] at made
    split at made <;> try contradiction
    rename_i guards
    refine ⟨guards.1,?_⟩
    cases r with
    | descriptor fd =>
      obtain ⟨u,stepped,rfl⟩ := Option.map_eq_some_iff.mp made
      exact .descriptor (of_decide_eq_true guards.2) stepped
    | again =>
      obtain ⟨u,stepped,rfl⟩ := Option.map_eq_some_iff.mp made
      exact .again (of_decide_eq_true guards.2) stepped
    | aborted =>
      obtain ⟨u,stepped,rfl⟩ := Option.map_eq_some_iff.mp made
      exact .aborted (of_decide_eq_true guards.2) stepped
    | interrupted =>
      obtain ⟨u,stepped,rfl⟩ := Option.map_eq_some_iff.mp made
      exact .interrupted (of_decide_eq_true guards.2) stepped
  | beside a =>
    simp only [callStep] at made
    split at made <;> try contradiction
    rename_i guards
    obtain ⟨u,stepped,rfl⟩ := Option.map_eq_some_iff.mp made
    exact ⟨guards.1,.beside stepped⟩

theorem movedReach {m : Move} (reached : Reach (server config own) (fun _ _ => True) s.server)
    (moved : Moved config own s m t) : Reach (server config own) (fun _ _ => True) t.server := by
  have next {u : State} {a : Action} (stepped : step config own s.server a = some u) :
      Reach (server config own) (fun _ _ => True) u := .next reached trivial stepped
  cases moved with
  | descriptor waits stepped => exact next stepped
  | again empty stepped => exact next stepped
  | aborted waits stepped => exact next stepped
  | interrupted waits stepped => exact next stepped
  | beside stepped => exact next stepped

theorem returnedLast {as : List Move} (gone : s.returned = true) (ran : run (acceptLoop config own) s as = some t) : s = t := by
  cases as with
  | nil => exact Option.some.inj ran
  | cons m as =>
    simp only [run] at ran
    split at ran <;> try contradiction
    rename_i u made
    have still := (moveSound made).1
    rw [gone] at still
    contradiction

/- By the answers that accept gives until the loop returns. -/
theorem runReturns {as : List Move} (reached : Reach (server config own) (fun _ _ => True) s.server)
    (here : s.returned = false) (ran : run (acceptLoop config own) s as = some t) (returned : t.returned = true) :
    Reach (server config own) (fun _ _ => True) t.server ∧ pending t.server.main = none ∧
      (t.backlog = 0 ↔ Harmless s.backlog (results as)) := by
  induction as generalizing s with
  | nil =>
    cases Option.some.inj ran
    rw [here] at returned
    contradiction
  | cons m as ih =>
    simp only [run] at ran
    split at ran <;> try contradiction
    rename_i u made
    have moved := (moveSound made).2
    have later := movedReach reached moved
    cases moved with
    | descriptor waits stepped => exact ih later here ran
    | again empty stepped =>
      cases returnedLast rfl ran
      exact ⟨later,acceptLeaves stepped,iff_of_true empty trivial⟩
    | aborted waits stepped =>
      cases returnedLast rfl ran
      refine ⟨later,acceptLeaves stepped,?_⟩
      simp only [results, List.filterMap_cons, Harmless]
      omega
    | interrupted waits stepped =>
      cases returnedLast rfl ran
      exact ⟨later,acceptLeaves stepped,iff_of_false (by dsimp only; omega) id⟩
    | @beside a u stepped => exact @ih {s with server := u} later here ran

/- Whatever the errors, what was received is registered or closed; the backlog is empty when they are harmless,
and not otherwise. -/
theorem acceptDrains {as : List Move} (start : (acceptLoop config own).start s)
    (ran : run (acceptLoop config own) s as = some t) (returned : t.returned = true) :
    (∀ n ∈ t.received, Disposed t.server n) ∧ (Drained t ↔ Harmless s.backlog (results as)) := by
  obtain ⟨reached,-,-,here⟩ := start
  obtain ⟨later,idle,empty⟩ := runReturns reached here ran returned
  have disposed : ∀ n ∈ t.received, Disposed t.server n := fun n _ => disposedIdle later idle n
  exact ⟨disposed,fun drained => empty.mp drained.empty,fun harmless => ⟨empty.mpr harmless,disposed⟩⟩

end

def listening : List Action := [.epollWait [.incoming],.acceptEvent]

/- The loop on its first event, seen at the end of some moves. -/
theorem listeningSeen {B : Type} (f : Call → B) {b : B} {backlog : Nat} {moves : List Move}
    (seen : ((run (server Main.defaults firstFive) (initial Main.defaults 0) listening).bind (fun u =>
      run (acceptLoop Main.defaults firstFive) ⟨u,backlog,[],false⟩ moves)).map f = some b) :
    ∃ s t, (acceptLoop Main.defaults firstFive).start s ∧ s.backlog = backlog ∧
      run (acceptLoop Main.defaults firstFive) s moves = some t ∧ f t = b := by
  obtain ⟨t,whole,same⟩ := Option.map_eq_some_iff.mp seen
  obtain ⟨u,before,ran⟩ := Option.bind_eq_some_iff.mp whole
  have main : (run (server Main.defaults firstFive) (initial Main.defaults 0) listening).map State.main =
      some (.accepting []) := by
    decide +kernel
  rw [before, Option.map_some, Option.some.injEq] at main
  have reached := reachRun (initialReach _ _ _ 0) (followsAll _ listening) before
  exact ⟨⟨u,backlog,[],false⟩,t,⟨reached,⟨_,main⟩,rfl,rfl⟩,rfl,ran,same⟩

def oneClient : List Move :=
  [.result (.descriptor 5),.beside .prepare,.beside .insert,.beside .register,.result .again]

theorem oneDrained : ∃ s t, (acceptLoop Main.defaults firstFive).start s ∧ s.backlog = 1 ∧
    run (acceptLoop Main.defaults firstFive) s oneClient = some t ∧ t.returned = true ∧ t.received = [⟨5,0⟩] ∧
    (∀ n ∈ t.received, Disposed t.server n) ∧ (Drained t ↔ Harmless s.backlog (results oneClient)) := by
  obtain ⟨s,t,start,waits,ran,seen⟩ := @listeningSeen _ (fun t => (t.returned,t.received)) (true,[⟨5,0⟩]) 1 oneClient
    (by decide +kernel)
  obtain ⟨returned,received⟩ := Prod.mk.inj seen
  exact ⟨s,t,start,waits,ran,returned,received,acceptDrains start ran returned⟩

/- Two clients wait, and the first has gone when accept comes to it. The second stays in the backlog. -/
theorem secondWaits : ∃ s t, (acceptLoop Main.defaults firstFive).start s ∧ s.backlog = 2 ∧
    run (acceptLoop Main.defaults firstFive) s [.result .aborted] = some t ∧ t.returned = true ∧ t.backlog = 1 ∧
    ¬ Drained t := by
  obtain ⟨s,t,start,waits,ran,seen⟩ := @listeningSeen _ (fun t => (t.returned,t.backlog)) (true,1) 2 [.result .aborted]
    (by decide +kernel)
  obtain ⟨returned,left⟩ := Prod.mk.inj seen
  refine ⟨s,t,start,waits,ran,returned,left,fun drained => ?_⟩
  rw [drained.empty] at left
  contradiction

end EpollHttpServer.AcceptLoop
