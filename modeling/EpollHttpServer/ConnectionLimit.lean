import EpollHttpServer.Ownership

/-! max_connections is read, tested and printed by main, and admission never asks for it. What
bounds the table is MAX_EVENTS and the descriptors that the process holds itself. -/
namespace EpollHttpServer.ConnectionLimit
open CString Server Ownership Runs

/- The descriptors below MAX_EVENTS that accept may return. -/
def freeDescriptors (own : Nat → Bool) : List Nat := (List.range maxEvents).filter (fun fd => own fd = false)

/- Only such descriptors come into the table. -/
structure Placed (own : Nat → Bool) (s : State) : Prop where
  foreign : ∀ n, pending s.main = some n → own n.fd = false
  small : ∀ n rest, s.main = .prepared n rest → n.fd < maxEvents
  listed : ∀ fd id, s.connections fd = some id → fd < maxEvents ∧ own fd = false

section
variable {config : ServerConfig} {own : Nat → Bool} {s t : State} {a : Action}

theorem placedStep (inv : Placed own s) (made : Step config own s a t) : Placed own t := by
  have moves := stepMoves made
  refine ⟨fun n main => ?_,fun n rest main => ?_,fun fd id listed => ?_⟩
  · generalize t.main = pc at moves main
    rcases moves with rfl | move
    · exact inv.foreign n main
    · cases move with
      | quiet move =>
        rw [quietPending move] at main
        contradiction
      | accept here foreign =>
        cases Option.some.inj main
        exact foreign
      | prepare here small => exact inv.foreign n (by rw [here]; exact main)
      | insert here => exact inv.foreign n (by rw [here]; exact main)
      | _ => contradiction
  · generalize t.main = pc at moves main
    rcases moves with rfl | move
    · exact inv.small n rest main
    · cases move with
      | quiet move => cases move <;> contradiction
      | prepare here small =>
        cases main
        exact small
      | _ => contradiction
  · rcases listedStep made listed with old | ⟨n,rest,before,_,_,rfl,_⟩
    · exact inv.listed fd id old
    · exact ⟨inv.small n rest before,inv.foreign n (by rw [before]; rfl)⟩

theorem initialPlaced (config : ServerConfig) (own : Nat → Bool) (now : Int) : Placed own (initial config now) :=
  ⟨(fun _ main => nomatch main),(fun _ _ main => nomatch main),(fun _ _ listed => nomatch listed)⟩

theorem reachPlaced {allowed} (reached : Reach (server config own) allowed s) : Placed own s := by
  refine reachInvariant ?_ ?_ reached
  · rintro s ⟨now,rfl⟩
    exact initialPlaced config own now
  · intro s a t inv _ made
    exact placedStep inv (stepSound made)

theorem placedCount (inv : Placed own s) : connectionCount s ≤ (freeDescriptors own).length := by
  rw [connectionCount, freeDescriptors, ← List.countP_eq_length_filter]
  refine List.countP_mono_left (fun fd _ present => ?_)
  obtain ⟨id,listed⟩ := Option.isSome_iff_exists.mp present
  exact decide_eq_true (inv.listed fd id listed).2

/- One client in the accept loop. -/
theorem clientEnters {fd} (reached : Reach (server config own) (fun _ _ => True) s) (main : s.main = .accepting [])
    (free : MutexFree s) (closed : s.opened fd = none) (small : fd < maxEvents) (foreign : own fd = false) :
    ∃ t, Reach (server config own) (fun _ _ => True) t ∧ t.main = .accepting [] ∧ MutexFree t ∧
      t.opened = Function.update s.opened fd (some s.next) ∧
      t.connections = Function.update s.connections fd (some s.next) := by
  have accepted : ∃ t, step config own s (.accept fd) = some t ∧ t.main = .accepted ⟨fd,s.next⟩ [] ∧
      t.workers = s.workers ∧ t.opened = Function.update s.opened fd (some s.next) ∧ t.connections = s.connections := by
    simp only [step, accept, main, if_pos (And.intro closed foreign)]
    exact ⟨_,rfl,rfl,rfl,rfl,rfl⟩
  obtain ⟨s1,made1,main1,workers1,opened1,listed1⟩ := accepted
  have prepared : ∃ t, step config own s1 .prepare = some t ∧ t.main = .prepared ⟨fd,s.next⟩ [] ∧
      t.workers = s1.workers ∧ t.opened = s1.opened ∧ t.connections = s1.connections := by
    simp only [step, prepare, main1, if_pos small]
    exact ⟨_,rfl,rfl,rfl,rfl,rfl⟩
  obtain ⟨s2,made2,main2,workers2,opened2,listed2⟩ := prepared
  have free2 : MutexFree s2 := ⟨by rw [main2]; rfl,by rw [workers2, workers1]; exact free.2⟩
  have inserted : ∃ t, step config own s2 .insert = some t ∧ t.main = .inserted ⟨fd,s.next⟩ [] ∧
      t.workers = s2.workers ∧ t.opened = s2.opened ∧
      t.connections = Function.update s2.connections fd (some s.next) := by
    simp only [step, Server.insert, main2, if_pos free2]
    exact ⟨_,rfl,rfl,rfl,rfl,rfl⟩
  obtain ⟨s3,made3,main3,workers3,opened3,listed3⟩ := inserted
  have isOpen : s3.opened fd ≠ none := by
    rw [opened3, opened2, opened1, Function.update_self]
    exact Option.some_ne_none _
  have registered : ∃ t, step config own s3 .register = some t ∧ t.main = .accepting [] ∧
      t.workers = s3.workers ∧ t.opened = s3.opened ∧ t.connections = s3.connections := by
    simp only [step, register, main3, if_pos isOpen]
    exact ⟨_,rfl,rfl,rfl,rfl,rfl⟩
  obtain ⟨s4,made4,main4,workers4,opened4,listed4⟩ := registered
  have ran : run (server config own) s [.accept fd,.prepare,.insert,.register] = some s4 := by
    simp only [run, server, made1, made2, made3, made4]
  refine ⟨s4,reachRun reached (followsAll _ _) ran,main4,⟨by rw [main4]; rfl,?_⟩,?_,?_⟩
  · rw [workers4, workers3]
    exact free2.2
  · rw [opened4, opened3, opened2, opened1]
  · rw [listed4, listed3, listed2, listed1]

/- A burst of clients fills any descriptors that are free. -/
theorem fills {fds : List Nat} (distinct : fds.Nodup) (each : ∀ fd ∈ fds, fd < maxEvents ∧ own fd = false)
    (reached : Reach (server config own) (fun _ _ => True) s) (main : s.main = .accepting []) (free : MutexFree s)
    (closed : ∀ fd ∈ fds, s.opened fd = none) : ∃ t, Reach (server config own) (fun _ _ => True) t ∧
      ∀ fd, fd ∈ fds ∨ (s.connections fd).isSome → (t.connections fd).isSome := by
  induction fds generalizing s with
  | nil =>
    refine ⟨s,reached,fun fd listed => ?_⟩
    rcases listed with absent | listed
    · exact absurd absent List.not_mem_nil
    · exact listed
  | cons first fds ih =>
    obtain ⟨new,distinct⟩ := List.nodup_cons.mp distinct
    obtain ⟨small,foreign⟩ := each first List.mem_cons_self
    obtain ⟨u,next,main,free,opened,listed⟩ := clientEnters reached main free (closed first List.mem_cons_self) small foreign
    have still : ∀ fd ∈ fds, u.opened fd = none := by
      intro fd member
      have other : fd ≠ first := by
        rintro rfl
        exact new member
      rw [opened, Function.update_of_ne other]
      exact closed fd (List.mem_cons_of_mem _ member)
    obtain ⟨t,reached,full⟩ := ih distinct (fun fd member => each fd (List.mem_cons_of_mem _ member)) next main free still
    refine ⟨t,reached,fun fd asked => full fd ?_⟩
    by_cases same : fd = first
    · right
      rw [listed, same, Function.update_self]
      rfl
    · rw [listed, Function.update_of_ne same]
      rcases asked with member | before
      · exact Or.inl (List.mem_of_ne_of_mem same member)
      · exact Or.inr before

theorem filledCount (config : ServerConfig) (own : Nat → Bool) : ∃ s, Reach (server config own) (fun _ _ => True) s ∧
    (freeDescriptors own).length ≤ connectionCount s := by
  have began : ∃ s, run (server config own) (initial config 0) [.epollWait [.incoming],.acceptEvent] = some s ∧
      s.main = .accepting [] ∧ s.workers = (initial config 0).workers ∧ s.opened = fun _ => none :=
    ⟨_,rfl,rfl,rfl,rfl⟩
  obtain ⟨s,ran,main,workers,opened⟩ := began
  have free : MutexFree s := by
    refine ⟨by rw [main]; rfl,fun p member => ?_⟩
    rw [workers] at member
    rw [List.eq_of_mem_replicate member]
    rfl
  have distinct : (freeDescriptors own).Nodup := List.Nodup.filter _ List.nodup_range
  have each : ∀ fd ∈ freeDescriptors own, fd < maxEvents ∧ own fd = false := by
    intro fd member
    obtain ⟨small,foreign⟩ := List.mem_filter.mp member
    exact ⟨List.mem_range.mp small,of_decide_eq_true foreign⟩
  obtain ⟨t,reached,full⟩ := fills distinct each (reachRun (initialReach _ _ _ 0) (followsAll _ _) ran) main free
    (fun fd _ => by rw [opened])
  refine ⟨t,reached,?_⟩
  rw [connectionCount, freeDescriptors, ← List.countP_eq_length_filter]
  refine List.countP_mono_left (fun fd small foreign => full fd (Or.inl ?_))
  exact List.mem_filter.mpr ⟨small,foreign⟩

/- The limit holds of every run if and only if the process runs out of descriptors first. -/
theorem limitExactly (config : ServerConfig) (own : Nat → Bool) :
    (∀ s, Reach (server config own) (fun _ _ => True) s → (connectionCount s : Int) ≤ config.maxConnections) ↔
      ((freeDescriptors own).length : Int) ≤ config.maxConnections := by
  constructor
  · intro limited
    obtain ⟨s,reached,full⟩ := filledCount config own
    have most := limited s reached
    omega
  · intro few s reached
    have most := placedCount (reachPlaced reached)
    omega

end

def oneConnection : ServerConfig := {Main.defaults with maxConnections := 1, maxRange := by decide}

def twoClients : List Action := [.epollWait [.incoming],.acceptEvent,.accept 5,.prepare,.insert,.register,
  .accept 6,.prepare,.insert,.register]

theorem limitPassed : Main.run [ascii "http_server",ascii "-m",ascii "1"] = .ok oneConnection ∧
    ∃ s, Reach (server oneConnection firstFive) (fun _ _ => True) s ∧
      ¬ (connectionCount s : Int) ≤ oneConnection.maxConnections := by
  obtain ⟨s,reached,two⟩ := reachSeen (initialReach oneConnection firstFive _ 0) connectionCount
    (followsAll _ twoClients) (b := 2) (by decide +kernel)
  refine ⟨by rfl,s,reached,?_⟩
  rw [two]
  decide

end EpollHttpServer.ConnectionLimit
