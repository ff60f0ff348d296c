import EpollHttpServer.Ownership

/-! Notices of open connections. As long as the scan closes no connection whose event or task is
still on its way, every notice carries a descriptor that its own connection has open, so accept
cannot return one that is still carried. -/
namespace EpollHttpServer.LiveNotices
open Server Ownership Runs Custody

theorem liveOpen {s : State} (live : Live (ledger s)) {n : Notice} (member : n ∈ notices s) :
    s.opened n.fd = some n.origin :=
  live (token n) (tokenMem member)

theorem outstandingNotice {s : State} {n : Notice} (member : n ∈ outstanding s) : n ∈ notices s := by
  rcases List.mem_append.mp member with left | worker
  · rcases List.mem_append.mp left with main | queued
    · exact memNotices.mpr (Or.inr (Or.inl main))
    · exact memNotices.mpr (Or.inr (Or.inr (Or.inl queued)))
  · exact memNotices.mpr (Or.inr (Or.inr (Or.inr (List.mem_flatMap.mp worker))))

theorem noticeOutstanding {s : State} {n : Notice} (member : n ∈ notices s) : n ∈ s.armed ∨ n ∈ outstanding s := by
  rcases memNotices.mp member with armed | main | queued | worker
  · exact Or.inl armed
  · exact Or.inr (List.mem_append_left _ (List.mem_append_left _ main))
  · exact Or.inr (List.mem_append_left _ (List.mem_append_right _ queued))
  · exact Or.inr (List.mem_append_right _ (List.mem_flatMap.mpr worker))

theorem liveFresh {config own s a t} (live : Live (ledger s)) (made : Step config own s a t) : FreshAccept s a := by
  rintro fd rfl n member same
  cases made with
  | accept here closed foreign =>
    have isOpen := liveOpen live (outstandingNotice member)
    rw [same, closed] at isOpen
    contradiction
  | quiet move => cases move

theorem mainSpends {s t : State} {m : Notice} (workers : t.workers = s.workers)
    (spent : ({m} : Multiset Notice) + hand t 0 ≤ hand s 0) : token m ::ₘ (ledger t).tokens ≤ (ledger s).tokens := by
  have more : m ::ₘ notices t ≤ notices s := by
    rw [notices, notices, workers, ← zero_add (Multiset.ofList _), handAdd, handAdd, ← Multiset.singleton_add,
      ← add_assoc]
    exact add_le_add_left spent _
  simpa only [ledger, Multiset.map_cons] using Multiset.map_le_map more (f := token)

theorem workerSpends {s t : State} {w p q} {m : Notice} (here : s.workers[w]? = some p)
    (workers : t.workers = s.workers.set w q)
    (spent : ({m} : Multiset Notice) + hand t (workerNotices q) ≤ hand s (workerNotices p)) :
    token m ::ₘ (ledger t).tokens ≤ (ledger s).tokens := by
  obtain ⟨before,after,whole,replaced⟩ := Crew.split here
  have more : m ::ₘ notices t ≤ notices s := by
    rw [notices, notices, workers, replaced, whole, Crew.flatMapSplit, Crew.flatMapSplit, handAdd, handAdd,
      ← Multiset.singleton_add, ← add_assoc]
    exact add_le_add_left spent _
  simpa only [ledger, Multiset.map_cons] using Multiset.map_le_map more (f := token)

section
variable {config : ServerConfig} {own : Nat → Bool} {s t : State} {a : Action}

/- The scan leaves alone what an event or a task on its way belongs to. -/
def Untouched (s : State) (a : Action) : Prop :=
  ∀ since now slot id, a = .scan → s.main = .scanning since now slot → slot < maxEvents →
    s.connections slot = some id → (s.heap id).inUse = false → now - (s.heap id).lastActive > connectionTimeout →
      ∀ n ∈ outstanding s, n.origin ≠ id

theorem expireGone (inv : Tracked s) (live : Live (ledger s)) {slot id} (listed : s.connections slot = some id)
    (free : ∀ p ∈ s.workers, p.closedFd = none) (untouched : ∀ n ∈ outstanding s, n.origin ≠ id) :
    ∀ n ∈ outstanding s, n.fd ≠ slot := by
  intro n member same
  have mine := liveOpen live (outstandingNotice member)
  rw [same, listedNow (trackedEntries inv) free listed] at mine
  exact untouched n member (Option.some.inj mine).symm

theorem filterOther {fd} {n : Notice} (member : n ∈ s.armed.filter (fun m => m.fd ≠ fd)) : n.fd ≠ fd := by
  simpa using (List.mem_filter.mp member).2

theorem updateKept {fd} {n : Notice} (gone : n.fd ≠ fd) : Function.update s.opened fd none n.fd = s.opened n.fd :=
  Function.update_of_ne gone _ _

theorem spentNotice (inv : Tracked s) {m : Notice} (spent : token m ::ₘ (ledger t).tokens ≤ (ledger s).tokens)
    {n : Notice} (member : n ∈ notices t) : n.fd ≠ m.fd :=
  spentGone inv.sound spent (token n) (tokenMem member)

/- A step takes a descriptor back only when no notice carries it any more. -/
theorem keptStep (inv : Tracked s) (live : Live (ledger s)) (made : Step config own s a t)
    (locked : s.main.locked = true → ∀ p ∈ s.workers, p.closedFd = none) (untouched : Untouched s a) :
    (∃ fd, a = .accept fd) ∨ ∀ n ∈ notices t, t.opened n.fd = s.opened n.fd := by
  cases made with
  | @accept rest fd here closed foreign => exact Or.inl ⟨fd,rfl⟩
  | @expire since now slot id here small listed unused old =>
    refine Or.inr (fun n member => updateKept ?_)
    have gone := expireGone inv live listed (locked (by rw [here]; rfl))
      (untouched since now slot id rfl here small listed unused old)
    rcases noticeOutstanding member with armed | carried
    · exact filterOther armed
    · refine gone n ?_
      rw [outstanding, here]
      exact carried
  | dispatchFails here free listed =>
    refine Or.inr (fun n member => updateKept (spentNotice inv ?_ member))
    refine mainSpends rfl (le_of_eq_of_le (add_left_comm _ _ _) (add_le_add (filterLe _ _) ?_))
    rw [batchHead here, add_assoc]
    exact le_refl _
  | reject here =>
    refine Or.inr (fun n member => updateKept (spentNotice inv ?_ member))
    refine mainSpends rfl (le_of_eq ?_)
    simp only [hand, here, mainNotices, ← Multiset.cons_coe, ← Multiset.singleton_add]
    abel
  | registerFails here free =>
    refine Or.inr (fun n member => updateKept (spentNotice inv ?_ member))
    refine mainSpends rfl (le_of_eq_of_le (add_left_comm _ _ _) (add_le_add (filterLe _ _) (le_of_eq ?_)))
    simp only [here, mainNotices, ← Multiset.cons_coe, ← Multiset.singleton_add]
    abel
  | @close w n id found here free listed =>
    refine Or.inr (fun m member => updateKept (spentNotice inv ?_ member))
    refine workerSpends here rfl (le_of_eq_of_le (add_left_comm _ _ _) (add_le_add (filterLe _ _) ?_))
    refine le_of_eq ?_
    change ({n} : Multiset Notice) + (mainNotices s.main + (s.queue + 0)) = mainNotices s.main + (s.queue + {n})
    abel
  | cleanup here empty idle =>
    refine Or.inr (fun n member => ?_)
    rcases memNotices.mp member with armed | main | queued | ⟨p,worker,held⟩
    · exact absurd armed List.not_mem_nil
    · exact absurd main List.not_mem_nil
    · exact absurd (empty ▸ queued : n ∈ []) List.not_mem_nil
    · rw [idle p worker] at held
      exact absurd held List.not_mem_nil
  | _ => exact Or.inr (fun n member => rfl)

theorem noticeStep (inv : Tracked s) (made : Step config own s a t) (fresh : FreshAccept s a) {n : Notice}
    (member : n ∈ notices t) : n ∈ notices s ∨ n.origin = s.next := by
  have back : token n ∈ (ledger s).tokens → n ∈ notices s := by
    intro carried
    obtain ⟨m,there,same⟩ := memTokens.mp carried
    obtain ⟨fd,origin⟩ := Prod.mk.inj same
    cases n
    cases m
    cases fd
    cases origin
    exact there
  rcases ledgerStep inv made fresh with pass | ⟨fd,_,issue⟩
  · exact Or.inl (back (Multiset.mem_of_le pass.tokens (tokenMem member)))
  · have carried := tokenMem member
    rw [issue.tokens, Multiset.mem_cons] at carried
    rcases carried with new | old
    · exact Or.inr (Prod.mk.inj new).2
    · exact Or.inl (back old)

/- What holds beside the ledger while the scan touches no notice: a connection in the table has
its notices on its own descriptor, and a scan has no worker between close and the end of its lock. -/
structure Homed (s : State) : Prop where
  tracked : Tracked s
  live : Live (ledger s)
  locked : s.main.locked = true → ∀ p ∈ s.workers, p.closedFd = none
  homed : ∀ fd id n, s.connections fd = some id → n ∈ notices s → n.origin = id → n.fd = fd

theorem liveStep (inv : Homed s) (made : Step config own s a t) (untouched : Untouched s a) : Live (ledger t) := by
  have fresh := liveFresh inv.live made
  rcases keptStep inv.tracked inv.live made inv.locked untouched with ⟨fd,rfl⟩ | kept
  · cases made with
    | accept here closed foreign =>
      exact issueLive inv.live (acceptIssues inv.tracked here closed (fresh fd rfl) rfl rfl rfl rfl rfl)
    | quiet move => cases move
  · rcases ledgerStep inv.tracked made fresh with pass | ⟨fd,_,issue⟩
    · refine passLive inv.live pass (fun pair carried => ?_)
      obtain ⟨n,member,rfl⟩ := memTokens.mp carried
      exact kept n member
    · exact issueLive inv.live issue

theorem movedLocked (locked : s.main.locked = true → ∀ p ∈ s.workers, p.closedFd = none) {w : Nat} {q : WorkerPc}
    (opened : q.closedFd = none) (main : s.main.locked = true) : ∀ p ∈ s.workers.set w q, p.closedFd = none :=
  Crew.setAll (locked main) opened

theorem lockedStep (locked : s.main.locked = true → ∀ p ∈ s.workers, p.closedFd = none) (made : Step config own s a t) :
    t.main.locked = true → ∀ p ∈ t.workers, p.closedFd = none := by
  intro main
  cases made with
  | tick seconds => exact locked main
  | quiet move =>
    cases move with
    | lock here free => exact free.2
    | skip here => exact locked (by rw [here]; rfl)
    | _ => contradiction
  | expire here small listed unused old => exact locked (by rw [here]; rfl)
  | dequeue here head => exact movedLocked locked rfl main
  | lookupNone here free unlisted => exact movedLocked locked rfl main
  | lookup here free listed => exact movedLocked locked rfl main
  | stamp here => exact movedLocked locked rfl main
  | @serve w n id env world here =>
    refine movedLocked locked ?_ main
    cases (Worker.serve env config world (s.heap id)).ending <;> rfl
  | rearm here => exact movedLocked locked rfl main
  | keep here free => exact movedLocked locked rfl main
  | closeNone here free unlisted => exact movedLocked locked rfl main
  | close here free listed =>
    have held : s.main.locked = true := main
    rw [free.1] at held
    contradiction
  | vacate here => exact movedLocked locked rfl main
  | _ => contradiction

theorem homedStep (inv : Homed s) (made : Step config own s a t) :
    ∀ fd id n, t.connections fd = some id → n ∈ notices t → n.origin = id → n.fd = fd := by
  intro fd id n listed member same
  have before : id < s.next → n ∈ notices s := by
    intro below
    rcases noticeStep inv.tracked made (liveFresh inv.live made) member with old | new
    · exact old
    · rw [← same, new] at below
      exact absurd below (Nat.lt_irrefl _)
  rcases listedStep made listed with old | ⟨m,rest,here,_,_,rfl,rfl⟩
  · exact inv.homed fd id n old (before (inv.tracked.listedBelow fd id old)) same
  · have main : m ∈ mainNotices s.main := by rw [here]; exact List.mem_cons_self
    have there : m ∈ notices s := memNotices.mpr (Or.inr (Or.inl main))
    have below := inv.tracked.below m.origin (noticeHolder there)
    exact (Prod.mk.inj (sameHolder inv.tracked.sound (tokenMem (before below)) (tokenMem there) same)).1

theorem homedKept (inv : Homed s) (made : Step config own s a t) (untouched : Untouched s a) : Homed t :=
  ⟨trackedStep inv.tracked made (liveFresh inv.live made),liveStep inv made untouched,lockedStep inv.locked made,
    homedStep inv made⟩

theorem initialHomed (config : ServerConfig) (now : Int) : Homed (initial config now) := by
  have nothing : ∀ n, n ∉ notices (initial config now) := by
    rw [initialNotices]
    exact fun n => Multiset.notMem_zero n
  refine ⟨initialTracked config now,fun pair carried => ?_,(fun main => nomatch main),(fun fd id n listed => nomatch listed)⟩
  obtain ⟨n,member,_⟩ := memTokens.mp carried
  exact absurd member (nothing n)

end

end EpollHttpServer.LiveNotices
