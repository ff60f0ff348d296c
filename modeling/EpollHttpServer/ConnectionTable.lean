import EpollHttpServer.ConnectionLimit
import Mathlib.Data.Set.Card

/-! The connection table and the descriptors that the kernel has open, in every run. Only the
setup of an accepted descriptor and a close under the mutex may let them differ, and a slot is
filled only when it is empty. -/
namespace EpollHttpServer.ConnectionTable
open Server Worker FileSystem Ownership ConnectionLimit Runs

structure Matched (own : Nat → Bool) (s : State) : Prop where
  placed : Placed own s
  entries : Entries s
  openListed : ∀ fd id, s.opened fd = some id →
    s.connections fd = some id ∨ ∃ n, unlisted s.main = some n ∧ n.fd = fd
  vacating : ∀ p ∈ s.workers, ∀ fd id, p.closedFd = some fd → s.opened fd = some id →
    ∃ n, unlisted s.main = some n ∧ n.fd = fd
  names : ∀ fd id, s.connections fd = some id → (s.heap id).fd = fd
  prepared : ∀ n rest, s.main = .prepared n rest → (s.heap n.origin).fd = n.fd

section
variable {config : ServerConfig} {own : Nat → Bool} {s t : State} {a : Action}

theorem pendingUnlisted {pc} (outside : pending pc = none) : unlisted pc = none := by
  cases listed : unlisted pc with
  | none => rfl
  | some n =>
    rw [unlistedPending listed] at outside
    contradiction

theorem quietUnlisted {pc} (move : Quiet s a pc) : unlisted s.main = none := pendingUnlisted (quietOutside move)

/- Outside the setup every open descriptor is listed. -/
theorem openOutside (inv : Matched own s) (outside : unlisted s.main = none) {fd id} (isOpen : s.opened fd = some id) :
    s.connections fd = some id := by
  rcases inv.openListed fd id isOpen with listed | ⟨n,main,_⟩
  · exact listed
  · rw [outside] at main
    contradiction

theorem shutOther {fd k : Nat} {opened : Nat → Option ConnId} {id} (isOpen : Function.update opened fd none k = some id) :
    k ≠ fd := by
  rintro rfl
  rw [Function.update_self] at isOpen
  contradiction

/- A close under the mutex takes the descriptor and the slot together. -/
theorem shutTogether (inv : Matched own s) (outside : unlisted s.main = none) {fd k : Nat} {id}
    (isOpen : Function.update s.opened fd none k = some id) : Function.update s.connections fd none k = some id := by
  rw [Function.update_of_ne (shutOther isOpen)]
  exact openOutside inv outside (updateOpen isOpen)

theorem cleanedNone (inv : Matched own s) (outside : unlisted s.main = none) (fd : Nat) : cleanedUp s fd = none := by
  unfold cleanedUp
  cases named : recordNames s fd with
  | true => rfl
  | false =>
    cases isOpen : s.opened fd with
    | none => rfl
    | some id =>
      have listed := openOutside inv outside isOpen
      have small := (inv.placed.listed fd id listed).1
      have yes : recordNames s fd = true := by
        refine List.any_eq_true.mpr ⟨fd,List.mem_range.mpr small,?_⟩
        rw [listed]
        exact decide_eq_true (inv.names fd id listed)
      rw [yes] at named
      contradiction

theorem openListedStep (inv : Matched own s) (made : Step config own s a t) : ∀ fd id, t.opened fd = some id →
    t.connections fd = some id ∨ ∃ n, unlisted t.main = some n ∧ n.fd = fd := by
  intro k id isOpen
  cases made with
  | quiet move => exact Or.inl (openOutside inv (quietUnlisted move) isOpen)
  | scanEnds here => exact Or.inl (openOutside inv (by rw [here]; rfl) isOpen)
  | expire here small found unused old => exact Or.inl (shutTogether inv (by rw [here]; rfl) isOpen)
  | epollWait here distinct ready => exact Or.inl (openOutside inv (by rw [here]; rfl) isOpen)
  | dispatch here => exact Or.inl (openOutside inv (by rw [here]; rfl) isOpen)
  | refused here free missing => exact Or.inl (openOutside inv (by rw [here]; rfl) isOpen)
  | dispatchFails here free found => exact Or.inl (shutTogether inv (by rw [here]; rfl) isOpen)
  | @accept rest fd here closed foreign =>
    by_cases same : k = fd
    · exact Or.inr ⟨_,rfl,same.symm⟩
    · dsimp only at isOpen
      rw [Function.update_of_ne same] at isOpen
      exact Or.inl (openOutside inv (by rw [here]; rfl) isOpen)
  | @reject n rest here =>
    have other := shutOther isOpen
    rcases inv.openListed k id (updateOpen isOpen) with listed | ⟨m,main,same⟩
    · exact Or.inl listed
    · rw [here] at main
      cases Option.some.inj main
      exact absurd same.symm other
  | prepare here small =>
    rcases inv.openListed k id isOpen with listed | ⟨m,main,same⟩
    · exact Or.inl listed
    · rw [here] at main
      exact Or.inr ⟨m,main,same⟩
  | @insert n rest here free =>
    have mine := inv.entries.unlistedOpen n (by rw [here]; rfl)
    left
    dsimp only at isOpen ⊢
    by_cases same : k = n.fd
    · subst same
      rw [Function.update_self, ← isOpen, mine]
    · rw [Function.update_of_ne same]
      rcases inv.openListed k id isOpen with listed | ⟨m,main,there⟩
      · exact listed
      · rw [here] at main
        cases Option.some.inj main
        exact absurd there.symm same
  | register here isOpen' => exact Or.inl (openOutside inv (by rw [here]; rfl) isOpen)
  | registerFails here free => exact Or.inl (shutTogether inv (by rw [here]; rfl) isOpen)
  | cleanup here empty idle =>
    dsimp only at isOpen
    rw [cleanedNone inv (by rw [here]; rfl)] at isOpen
    contradiction
  | close here free found => exact inv.openListed k id (updateOpen isOpen)
  | @vacate w n c here =>
    by_cases same : k = n.fd
    · exact Or.inr (inv.vacating _ (List.mem_of_getElem? here) k id (by rw [same]; rfl) isOpen)
    · rcases inv.openListed k id isOpen with listed | setup
      · left
        simp only [setWorker, Server.vacate, Function.update_of_ne same]
        exact listed
      · exact Or.inr setup
  | tick seconds => exact inv.openListed k id isOpen
  | dequeue here head => exact inv.openListed k id isOpen
  | lookupNone here free missing => exact inv.openListed k id isOpen
  | lookup here free found => exact inv.openListed k id isOpen
  | stamp here => exact inv.openListed k id isOpen
  | serve here => exact inv.openListed k id isOpen
  | rearm here => exact inv.openListed k id isOpen
  | keep here free => exact inv.openListed k id isOpen
  | closeNone here free missing => exact inv.openListed k id isOpen

/- A slot that a worker is about to clear is open again only for a descriptor in its setup. -/
theorem vacatingOutside (inv : Matched own s) (outside : unlisted s.main = none) {p fd id} (worker : p ∈ s.workers)
    (closed : p.closedFd = some fd) : s.opened fd ≠ some id := by
  intro isOpen
  obtain ⟨n,main,_⟩ := inv.vacating p worker fd id closed isOpen
  rw [outside] at main
  contradiction

theorem vacatingMoved (inv : Matched own s) {w : Nat} {q : WorkerPc} (opened : q.closedFd = none) :
    ∀ p ∈ s.workers.set w q, ∀ fd id, p.closedFd = some fd → s.opened fd = some id →
      ∃ n, unlisted s.main = some n ∧ n.fd = fd := by
  refine Crew.setAll inv.vacating (fun fd id closed _ => ?_)
  rw [opened] at closed
  contradiction

theorem vacatingStep (inv : Matched own s) (made : Step config own s a t) : ∀ p ∈ t.workers, ∀ fd id,
    p.closedFd = some fd → t.opened fd = some id → ∃ n, unlisted t.main = some n ∧ n.fd = fd := by
  intro p worker k id closed isOpen
  cases made with
  | quiet move => exact absurd isOpen (vacatingOutside inv (quietUnlisted move) worker closed)
  | scanEnds here => exact absurd isOpen (vacatingOutside inv (by rw [here]; rfl) worker closed)
  | expire here small found unused old =>
    exact absurd (updateOpen isOpen) (vacatingOutside inv (by rw [here]; rfl) worker closed)
  | epollWait here distinct ready => exact absurd isOpen (vacatingOutside inv (by rw [here]; rfl) worker closed)
  | dispatch here => exact absurd isOpen (vacatingOutside inv (by rw [here]; rfl) worker closed)
  | refused here free missing => exact absurd isOpen (vacatingOutside inv (by rw [here]; rfl) worker closed)
  | dispatchFails here free found =>
    exact absurd (updateOpen isOpen) (vacatingOutside inv (by rw [here]; rfl) worker closed)
  | @accept rest fd here shut foreign =>
    by_cases same : k = fd
    · exact ⟨_,rfl,same.symm⟩
    · dsimp only at isOpen
      rw [Function.update_of_ne same] at isOpen
      exact absurd isOpen (vacatingOutside inv (by rw [here]; rfl) worker closed)
  | @reject n rest here =>
    have other := shutOther isOpen
    obtain ⟨m,main,same⟩ := inv.vacating p worker k id closed (updateOpen isOpen)
    rw [here] at main
    cases Option.some.inj main
    exact absurd same.symm other
  | prepare here small =>
    obtain ⟨m,main,same⟩ := inv.vacating p worker k id closed isOpen
    rw [here] at main
    exact ⟨m,main,same⟩
  | insert here free =>
    rw [free.2 p worker] at closed
    contradiction
  | register here isOpen' => exact absurd isOpen (vacatingOutside inv (by rw [here]; rfl) worker closed)
  | registerFails here free =>
    rw [free.2 p worker] at closed
    contradiction
  | cleanup here empty idle =>
    rw [idle p worker] at closed
    contradiction
  | @close w n c found here free listed =>
    rcases List.mem_or_eq_of_mem_set worker with old | rfl
    · rw [free.2 p old] at closed
      contradiction
    · cases Option.some.inj closed
      exact absurd rfl (shutOther isOpen)
  | @serve w n c env world here =>
    refine vacatingMoved inv ?_ p worker k id closed isOpen
    cases (Worker.serve env config world (s.heap c)).ending <;> rfl
  | tick seconds => exact inv.vacating p worker k id closed isOpen
  | dequeue here head => exact vacatingMoved inv rfl p worker k id closed isOpen
  | lookupNone here free missing => exact vacatingMoved inv rfl p worker k id closed isOpen
  | lookup here free found => exact vacatingMoved inv rfl p worker k id closed isOpen
  | stamp here => exact vacatingMoved inv rfl p worker k id closed isOpen
  | rearm here => exact vacatingMoved inv rfl p worker k id closed isOpen
  | keep here free => exact vacatingMoved inv rfl p worker k id closed isOpen
  | closeNone here free missing => exact vacatingMoved inv rfl p worker k id closed isOpen
  | vacate here => exact vacatingMoved inv rfl p worker k id closed isOpen

/- The descriptor of a record is written once, before the record is listed. -/
theorem heapFdStep (made : Step config own s a t) (id : ConnId) : (t.heap id).fd = (s.heap id).fd ∨
    ∃ n, unlisted s.main = some n ∧ id = n.origin ∧ (t.heap id).fd = n.fd := by
  have wrote : ∀ k c, (c : ClientConnection).fd = (s.heap k).fd → (Function.update s.heap k c id).fd = (s.heap id).fd := by
    intro k c same
    by_cases there : id = k
    · rw [there, Function.update_self, same]
    · rw [Function.update_of_ne there]
  cases made with
  | @prepare n rest here small =>
    by_cases there : id = n.origin
    · refine Or.inr ⟨n,by rw [here]; rfl,there,?_⟩
      simp only [setConn, there, Function.update_self]
      rfl
    · simp only [setConn, Function.update_of_ne there]
      exact Or.inl trivial
  | lookup here free found => exact Or.inl (wrote _ _ rfl)
  | stamp here => exact Or.inl (wrote _ _ rfl)
  | @serve w n c env world here => exact Or.inl (wrote _ _ (serveClient env config world (s.heap c)).fd)
  | keep here free => exact Or.inl (wrote _ _ rfl)
  | rearm here => exact Or.inl rfl
  | _ => exact Or.inl rfl

theorem preparedFd (made : Step config own s a t) {n rest} (main : t.main = .prepared n rest) :
    s.main = .prepared n rest ∨ (t.heap n.origin).fd = n.fd := by
  cases made with
  | quiet move => cases move <;> contradiction
  | @prepare n rest here small =>
    cases main
    simp only [setConn, Function.update_self]
    exact Or.inr rfl
  | tick seconds => exact Or.inl main
  | dequeue here head => exact Or.inl main
  | lookupNone here free missing => exact Or.inl main
  | lookup here free found => exact Or.inl main
  | stamp here => exact Or.inl main
  | serve here => exact Or.inl main
  | rearm here => exact Or.inl main
  | keep here free => exact Or.inl main
  | closeNone here free missing => exact Or.inl main
  | close here free found => exact Or.inl main
  | vacate here => exact Or.inl main
  | _ => contradiction

theorem preparedStep (inv : Matched own s) (made : Step config own s a t) :
    ∀ n rest, t.main = .prepared n rest → (t.heap n.origin).fd = n.fd := by
  intro n rest main
  rcases preparedFd made main with before | new
  · rcases heapFdStep made n.origin with same | ⟨m,setup,_,new⟩
    · rw [same]
      exact inv.prepared n rest before
    · rw [before] at setup
      cases Option.some.inj setup
      exact new
  · exact new

theorem namesStep (inv : Matched own s) (made : Step config own s a t) :
    ∀ fd id, t.connections fd = some id → (t.heap id).fd = fd := by
  intro fd id listed
  have before : (s.heap id).fd = fd := by
    rcases listedStep made listed with old | ⟨n,rest,here,_,_,rfl,rfl⟩
    · exact inv.names fd id old
    · exact inv.prepared n rest here
  rcases heapFdStep made id with same | ⟨m,setup,rfl,new⟩
  · rw [same]
    exact before
  · rcases listedStep made listed with old | ⟨n,rest,here,_,_,rfl,_⟩
    · exact absurd old (inv.entries.unlisted m fd setup)
    · rw [here] at setup
      cases Option.some.inj setup
      exact new

theorem matchedStep (inv : Matched own s) (made : Step config own s a t) : Matched own t :=
  ⟨placedStep inv.placed made,entriesStep inv.entries made,openListedStep inv made,vacatingStep inv made,
    namesStep inv made,preparedStep inv made⟩

theorem initialMatched (config : ServerConfig) (own : Nat → Bool) (now : Int) : Matched own (initial config now) :=
  ⟨initialPlaced config own now,trackedEntries (initialTracked config now),(fun _ _ isOpen => nomatch isOpen),
    (fun _ _ _ _ _ isOpen => nomatch isOpen),(fun _ _ listed => nomatch listed),(fun _ _ main => nomatch main)⟩

theorem reachMatched {allowed} (reached : Reach (server config own) allowed s) : Matched own s := by
  refine reachInvariant ?_ ?_ reached
  · rintro s ⟨now,rfl⟩
    exact initialMatched config own now
  · intro s a t inv _ made
    exact matchedStep inv (stepSound made)

/- A filled slot would be open under another connection than the one in its setup. -/
theorem setupEmpty (inv : Matched own s) (free : MutexFree s) {n} (setup : unlisted s.main = some n) :
    s.connections n.fd = none := by
  cases listed : s.connections n.fd with
  | none => rfl
  | some id =>
    have isOpen := listedNow inv.entries free.2 listed
    rw [inv.entries.unlistedOpen n setup] at isOpen
    cases Option.some.inj isOpen
    exact absurd listed (inv.entries.unlisted n n.fd setup)

theorem insertSource {n rest} (here : s.main = .prepared n rest) (made : step config own s .insert = some t) :
    MutexFree s := by
  simp only [step, Server.insert, here] at made
  split at made <;> try contradiction
  assumption

theorem countOpen (exactly : ∀ i, s.connections i ≠ none ↔ s.opened i ≠ none ∧ i < maxEvents)
    (bounded : ∀ fd, s.opened fd ≠ none → fd < maxEvents) : connectionCount s = Set.ncard {fd | s.opened fd ≠ none} := by
  have whole : {fd | s.opened fd ≠ none} =
      (((List.range maxEvents).filter (fun i => (s.connections i).isSome)).toFinset : Set Nat) := by
    ext fd
    simp only [Set.mem_ofPred_eq, List.coe_toFinset, List.mem_filter, List.mem_range, Option.isSome_iff_ne_none, exactly fd]
    exact ⟨fun isOpen => ⟨bounded fd isOpen,isOpen,bounded fd isOpen⟩,fun listed => listed.2.1⟩
  rw [whole, Set.ncard_coe_finset, List.toFinset_card_of_nodup (List.Nodup.filter _ List.nodup_range),
    ← List.countP_eq_length_filter, connectionCount]

/- A slot is filled for the open descriptors and for no others, and is empty when it is filled. -/
theorem tableExact (reached : Reach (server config own) (fun _ _ => True) s) :
    (MutexFree s → pending s.main = none →
      (∀ i, s.connections i ≠ none ↔ s.opened i ≠ none ∧ i < maxEvents) ∧
      (∀ i id, s.connections i = some id → s.opened i = some id ∧ (s.heap id).fd = i) ∧
      connectionCount s = Set.ncard {fd | s.opened fd ≠ none}) ∧
    (pending s.main = none → ∀ fd id, s.opened fd = some id → s.connections fd = some id) ∧
    (∀ n rest t, s.main = .prepared n rest → step config own s .insert = some t → s.connections n.fd = none) := by
  have inv : Matched own s := reachMatched reached
  refine ⟨fun free outside => ?_,fun outside fd id isOpen => openOutside inv (pendingUnlisted outside) isOpen,?_⟩
  · have exactly : ∀ i, s.connections i ≠ none ↔ s.opened i ≠ none ∧ i < maxEvents := by
      intro i
      constructor
      · intro listed
        obtain ⟨id,listed⟩ := Option.ne_none_iff_exists'.mp listed
        rw [listedNow inv.entries free.2 listed]
        exact ⟨Option.some_ne_none id,(inv.placed.listed i id listed).1⟩
      · intro ⟨isOpen,_⟩
        obtain ⟨id,isOpen⟩ := Option.ne_none_iff_exists'.mp isOpen
        rw [openOutside inv (pendingUnlisted outside) isOpen]
        exact Option.some_ne_none id
    refine ⟨exactly,fun i id listed => ⟨listedNow inv.entries free.2 listed,inv.names i id listed⟩,?_⟩
    refine countOpen exactly (fun fd isOpen => ?_)
    obtain ⟨id,isOpen⟩ := Option.ne_none_iff_exists'.mp isOpen
    exact (inv.placed.listed fd id (openOutside inv (pendingUnlisted outside) isOpen)).1
  · intro n rest t here made
    exact setupEmpty inv (insertSource here made) (by rw [here]; rfl)

end

/- The second client of a slot: the first one has hung up, and its worker has cleared the slot. -/
theorem tableReused : ∃ s, Reach (server Main.defaults firstFive) (fun _ _ => True) s ∧ connectionCount s = 1 ∧
    connectionCount s = Set.ncard {fd | s.opened fd ≠ none} := by
  obtain ⟨s,reached,seen⟩ := reachSeen (initialReach Main.defaults firstFive _ 0)
    (fun s => (decide (MutexFree s),pending s.main,connectionCount s)) (followsAll _ reusedRun) (b := (true,none,1))
    (by decide +kernel)
  obtain ⟨free,rest⟩ := Prod.mk.inj seen
  obtain ⟨outside,one⟩ := Prod.mk.inj rest
  exact ⟨s,reached,one,((tableExact reached).1 (of_decide_eq_true free) outside).2.2⟩

end EpollHttpServer.ConnectionTable
