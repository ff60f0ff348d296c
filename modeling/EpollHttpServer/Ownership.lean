import EpollHttpServer.Server
import EpollHttpServer.Lib.Custody
import Mathlib.Tactic.Abel

/-! Which connection a task acts on. Descriptors are names, accepted connections are holders,
and armed registrations, events, tasks, workers and a descriptor just accepted carry the
tokens. While accept returns no descriptor that an event, a task or a worker still carries,
the server keeps the ledger sound. -/
namespace EpollHttpServer.Ownership
open Server Worker FileSystem Runs Custody

def mainNotices : MainPc → List Notice
  | .batch events => readyNotices events
  | .accepting rest => readyNotices rest
  | .accepted n rest => n :: readyNotices rest
  | .prepared n rest => n :: readyNotices rest
  | .inserted n rest => n :: readyNotices rest
  | _ => []

def workerNotices : WorkerPc → List Notice
  | .idle => []
  | .taken n => [n]
  | .holding .closed _ _ => []
  | .holding _ n _ => [n]

def workerRetired : WorkerPc → List ConnId
  | .holding .closed n _ => [n.origin]
  | _ => []

/- All notices of a state whose workers hold the given ones. -/
def hand (s : State) (held : Multiset Notice) : Multiset Notice :=
  s.armed + (mainNotices s.main + (s.queue + held))

def notices (s : State) : Multiset Notice := hand s (s.workers.flatMap workerNotices : List Notice)

def token (n : Notice) : Nat × ConnId := (n.fd,n.origin)

def ledger (s : State) : Ledger Nat ConnId :=
  ⟨s.opened,(notices s).map token,(s.workers.flatMap workerRetired : List ConnId)⟩

theorem handAdd (s : State) (a b : Multiset Notice) : hand s (a + b) = hand s a + b := by
  simp only [hand, add_assoc]

theorem ledgerHolders (s : State) :
    (ledger s).holders = (notices s).map Notice.origin + (s.workers.flatMap workerRetired : List ConnId) := by
  rw [Ledger.holders, ledger, Multiset.map_map]
  rfl

/- A step of worker w that takes it from p to q passes the tokens on when its own part does. -/
theorem workerPasses {s t : State} {w p q} (here : s.workers[w]? = some p) (workers : t.workers = s.workers.set w q)
    (noticed : hand t (workerNotices q) ≤ hand s (workerNotices p))
    (held : (hand t (workerNotices q)).map Notice.origin + workerRetired q ≤
      (hand s (workerNotices p)).map Notice.origin + workerRetired p)
    (opened : ∀ fd id, t.opened fd = some id → s.opened fd = some id) : Passes (ledger s) (ledger t) := by
  obtain ⟨before,after,whole,replaced⟩ := Crew.split here
  have left : notices s = hand s (workerNotices p) + (before.flatMap workerNotices ++ after.flatMap workerNotices : List Notice) := by
    rw [notices, whole, Crew.flatMapSplit, handAdd]
  have right : notices t = hand t (workerNotices q) + (before.flatMap workerNotices ++ after.flatMap workerNotices : List Notice) := by
    rw [notices, workers, replaced, Crew.flatMapSplit, handAdd]
  have more : notices t ≤ notices s := by
    rw [left, right]
    exact add_le_add_left noticed _
  constructor
  · exact Multiset.map_le_map more
  · rw [ledgerHolders, ledgerHolders, left, right, workers, replaced, whole, Crew.flatMapSplit, Crew.flatMapSplit,
      Multiset.map_add, Multiset.map_add]
    refine le_of_eq_of_le (add_add_add_comm _ _ _ _) (le_of_le_of_eq ?_ (add_add_add_comm _ _ _ _))
    exact add_le_add_left held _
  · exact opened

theorem mainPasses {s t : State} (workers : t.workers = s.workers) (noticed : hand t 0 ≤ hand s 0)
    (opened : ∀ fd id, t.opened fd = some id → s.opened fd = some id) : Passes (ledger s) (ledger t) := by
  have more : notices t ≤ notices s := by
    rw [notices, notices, workers, ← zero_add (Multiset.ofList _), handAdd, handAdd]
    exact add_le_add_left noticed _
  constructor
  · exact Multiset.map_le_map more
  · rw [ledgerHolders, ledgerHolders, workers]
    exact add_le_add_left (Multiset.map_le_map more) _
  · exact opened

theorem memNotices {s : State} {n : Notice} : n ∈ notices s ↔
    n ∈ s.armed ∨ n ∈ mainNotices s.main ∨ n ∈ s.queue ∨ ∃ p ∈ s.workers, n ∈ workerNotices p := by
  simp only [notices, hand, Multiset.mem_add, Multiset.mem_coe, List.mem_flatMap]

theorem workerMem {s : State} {w : Nat} {p n} (here : s.workers[w]? = some p) (held : n ∈ workerNotices p) :
    n ∈ notices s :=
  memNotices.mpr (Or.inr (Or.inr (Or.inr ⟨p,List.mem_of_getElem? here,held⟩)))

theorem tokenMem {s : State} {n : Notice} (member : n ∈ notices s) : (n.fd,n.origin) ∈ (ledger s).tokens :=
  Multiset.mem_map_of_mem token member

theorem memTokens {s : State} {pair} : pair ∈ (ledger s).tokens ↔ ∃ n ∈ notices s, token n = pair := by
  simp only [ledger]
  exact Multiset.mem_map

/- A descriptor between accept and epoll_ctl, and one that is not in the table yet. -/
def pending : MainPc → Option Notice
  | .accepted n _ => some n
  | .prepared n _ => some n
  | .inserted n _ => some n
  | _ => none

def unlisted : MainPc → Option Notice
  | .accepted n _ => some n
  | .prepared n _ => some n
  | _ => none

structure Tracked (s : State) : Prop where
  sound : Sound (ledger s)
  below : ∀ g ∈ (ledger s).holders, g < s.next
  listedBelow : ∀ fd id, s.connections fd = some id → id < s.next
  armedOpen : ∀ n ∈ s.armed, s.opened n.fd = some n.origin
  pendingOpen : ∀ n, pending s.main = some n → s.opened n.fd = some n.origin ∧ s.registered n.fd = none
  unlisted : ∀ n fd, unlisted s.main = some n → s.connections fd ≠ some n.origin
  registeredOpen : ∀ fd id, s.registered fd = some id → s.opened fd = some id
  listedOpen : ∀ fd id, s.connections fd = some id →
    s.opened fd = some id ∨ ∃ p ∈ s.workers, p.closedFd = some fd
  pointers : ∀ stage n id, .holding stage n id ∈ s.workers → id = n.origin

/- What the table owes the kernel in every run, also where accept returns a descriptor that is
still carried: a task that came too late closes what is listed under its number. -/
structure Entries (s : State) : Prop where
  unlistedBelow : ∀ n, unlisted s.main = some n → n.origin < s.next
  listedBelow : ∀ fd id, s.connections fd = some id → id < s.next
  unlistedOpen : ∀ n, unlisted s.main = some n → s.opened n.fd = some n.origin
  unlisted : ∀ n fd, unlisted s.main = some n → s.connections fd ≠ some n.origin
  listedOpen : ∀ fd id, s.connections fd = some id →
    s.opened fd = some id ∨ ∃ p ∈ s.workers, p.closedFd = some fd

/- Events, tasks and workers that still carry a descriptor. -/
def outstanding (s : State) : List Notice :=
  mainNotices s.main ++ s.queue ++ s.workers.flatMap workerNotices

def FreshAccept (s : State) (a : Action) : Prop := ∀ fd, a = .accept fd → ∀ n ∈ outstanding s, n.fd ≠ fd

def Action.accepts : Action → Option Nat
  | .accept fd => some fd
  | _ => none

theorem acceptsSome {a : Action} {fd} : Action.accepts a = some fd ↔ a = .accept fd := by
  cases a <;> simp [Action.accepts]

instance (s a) : Decidable (FreshAccept s a) :=
  decidable_of_iff (∀ fd ∈ Action.accepts a, ∀ n ∈ outstanding s, n.fd ≠ fd) (by
    simp only [FreshAccept, Option.mem_def, acceptsSome])

theorem quietNotices {s a pc} (move : Quiet s a pc) : mainNotices pc = mainNotices s.main := by
  cases move with
  | acceptEvent here => rw [here]; rfl
  | acceptEnds here => rw [here]; rfl
  | due here => rw [here]; rfl
  | early here => rw [here]; rfl
  | readClock here => rw [here]; rfl
  | lock here free => rw [here]; rfl
  | skip here => rw [here]; rfl
  | stop here => rw [here]; rfl

theorem filterLe (l : List Notice) (fd : Nat) : ((l.filter (fun n => n.fd ≠ fd) : List Notice) : Multiset Notice) ≤ l :=
  Multiset.coe_le.mpr List.filter_sublist.subperm

theorem handMono {s t : State} {a b : Multiset Notice} (armed : (t.armed : Multiset Notice) ≤ s.armed)
    (rest : (mainNotices t.main + (t.queue + b) : Multiset Notice) ≤ mainNotices s.main + (s.queue + a)) :
    hand t b ≤ hand s a :=
  add_le_add armed rest

theorem readyNodup {events : List Event} (distinct : events.Nodup) : (readyNotices events).Nodup := by
  refine List.Nodup.filterMap ?_ distinct
  intro a b n ha hb
  cases a <;> cases b <;> simp_all

theorem deliverHand {s : State} {events : List Event} (here : s.main = .wait) (distinct : events.Nodup)
    (ready : ∀ n ∈ readyNotices events, n ∈ s.armed) (a : Multiset Notice) :
    (s.armed.diff (readyNotices events) + (readyNotices events + (s.queue + a)) : Multiset Notice) = hand s a := by
  have part : (readyNotices events : Multiset Notice) ≤ s.armed :=
    (Multiset.le_iff_subset (Multiset.coe_nodup.mpr (readyNodup distinct))).mpr ready
  rw [hand, here, ← add_assoc, ← Multiset.coe_sub, tsub_add_cancel_of_le part]
  simp [mainNotices]

theorem updateOpen {opened : Nat → Option ConnId} {fd k id} (h : Function.update opened fd none k = some id) :
    opened k = some id := by
  by_cases same : k = fd
  · subst same
    simp at h
  · simpa [same] using h

theorem cleanedOpen {s : State} {fd id} (h : cleanedUp s fd = some id) : s.opened fd = some id := by
  unfold cleanedUp at h
  cases named : recordNames s fd with
  | true =>
    rw [named] at h
    contradiction
  | false =>
    rw [named] at h
    exact h

theorem modifyHand {s : State} {n : Notice} (same : ∀ id, s.registered n.fd = some id → id = n.origin) :
    hand (epollModifyFd s n.fd) 0 ≤ hand s ([n] : List Notice) := by
  have dropped : hand s 0 ≤ hand s ([n] : List Notice) := by
    rw [← zero_add (Multiset.ofList [n]), handAdd]
    exact Multiset.le_add_right _ _
  unfold epollModifyFd rearmed
  split
  · exact dropped
  · rename_i id found
    split
    · exact dropped
    · refine le_of_eq ?_
      rw [same id found]
      simp only [hand, ← Multiset.coe_add]
      rw [add_zero, add_assoc, add_comm ([n] : Multiset Notice), add_assoc]

section
variable {config : ServerConfig} {own : Nat → Bool} {s t : State} {a : Action}

theorem registeredOrigin (inv : Tracked s) {n : Notice} (member : n ∈ notices s) :
    ∀ id, s.registered n.fd = some id → id = n.origin :=
  fun id found => inv.sound.agree n.fd n.origin id (tokenMem member) (inv.registeredOpen _ _ found)

/- A worker that rearms gives its token back to epoll, if the descriptor is still registered. -/
theorem modifyPasses (inv : Tracked s) {w : Nat} {stage n id} (here : s.workers[w]? = some (.holding stage n id))
    (carried : workerNotices (.holding stage n id) = [n]) (retired : workerRetired (.holding stage n id) = [])
    (c : ConnId → ClientConnection) :
    Passes (ledger s) (ledger (setWorker (epollModifyFd {s with heap := c} n.fd) w .idle)) := by
  have member := workerMem here (by rw [carried]; exact List.mem_singleton_self n)
  have less : hand (epollModifyFd {s with heap := c} n.fd) 0 ≤ hand s ([n] : List Notice) :=
    @modifyHand {s with heap := c} n (registeredOrigin inv member)
  refine workerPasses here rfl ?_ ?_ (fun _ _ h => h)
  · rw [carried]
    exact less
  · rw [carried, retired]
    exact add_le_add_left (Multiset.map_le_map less) _

theorem batchHead {n rest} (here : s.main = .batch (.ready n::rest)) :
    (mainNotices s.main : Multiset Notice) = ([n] : List Notice) + (readyNotices rest : List Notice) := by
  rw [here]
  rfl

/- The new token of an accepted descriptor. -/
theorem acceptIssues (inv : Tracked s) {rest fd} (here : s.main = .accepting rest) (closed : s.opened fd = none)
    (free : ∀ n ∈ outstanding s, n.fd ≠ fd) {t : State} (workers : t.workers = s.workers) (armed : t.armed = s.armed)
    (queue : t.queue = s.queue) (main : t.main = .accepted ⟨fd,s.next⟩ rest)
    (opened : t.opened = Function.update s.opened fd (some s.next)) : Issues (ledger s) (ledger t) fd s.next := by
  have whole : notices t = ⟨fd,s.next⟩ ::ₘ notices s := by
    simp only [notices, hand, workers, armed, queue, main, here, mainNotices, ← Multiset.cons_coe,
      ← Multiset.singleton_add]
    abel
  constructor
  · intro pair carried
    obtain ⟨n,member,rfl⟩ := memTokens.mp carried
    rcases memNotices.mp member with ready | main | queued | ⟨p,worker,held⟩
    · intro same
      have isOpen := inv.armedOpen n ready
      simp only [token] at same
      rw [same, closed] at isOpen
      contradiction
    · exact free n (List.mem_append_left _ (List.mem_append_left _ main))
    · exact free n (List.mem_append_left _ (List.mem_append_right _ queued))
    · exact free n (List.mem_append_right _ (List.mem_flatMap.mpr ⟨p,worker,held⟩))
  · exact fun held => absurd (inv.below _ held) (Nat.lt_irrefl _)
  · simp only [ledger, whole, Multiset.map_cons, token]
  · simp only [ledger, workers]
  · simp only [ledger, opened, Function.update_self]
  · intro k other
    simp only [ledger, opened, Function.update_of_ne other]

theorem dropHand (s : State) (a : Multiset Notice) : hand s 0 ≤ hand s a := by
  rw [← zero_add a, handAdd]
  exact Multiset.le_add_right _ _

/- A worker that becomes idle drops what it held. -/
theorem idlePasses {w : Nat} {p} (here : s.workers[w]? = some p) {t : State} (workers : t.workers = s.workers.set w .idle)
    (same : hand t 0 = hand s 0) (opened : t.opened = s.opened) : Passes (ledger s) (ledger t) := by
  have less : hand t 0 ≤ hand s (workerNotices p) := by
    rw [same]
    exact dropHand s _
  refine workerPasses here workers less ?_ (by rw [opened]; exact fun _ _ h => h)
  exact add_le_add (Multiset.map_le_map less) (Multiset.zero_le _)

/- A worker that closes its descriptor keeps its connection without a token. -/
theorem closePasses {w : Nat} {n id} (here : s.workers[w]? = some (.holding .closing n id)) :
    Passes (ledger s) (ledger (setWorker (closeFd s n.fd) w (.holding .closed n id))) := by
  have less : hand (closeFd s n.fd) 0 ≤ hand s 0 := handMono (filterLe _ _) (le_refl _)
  refine workerPasses here rfl (le_trans less (dropHand s _)) ?_ (fun _ _ => updateOpen)
  have whole : hand s (workerNotices (.holding .closing n id)) = hand s 0 + ([n] : List Notice) := by
    rw [← handAdd, zero_add]
    rfl
  have before : ((workerRetired (.holding .closing n id) : List ConnId) : Multiset ConnId) = 0 := rfl
  rw [whole, Multiset.map_add, before, add_zero]
  exact add_le_add_left (Multiset.map_le_map less) _

theorem servePasses {w : Nat} {n id} (here : s.workers[w]? = some (.holding .running n id)) (e) :
    Passes (ledger s) (ledger (serveConn s w n id e)) := by
  have held : workerNotices (.holding (endingStage e.ending) n id) = [n] ∧
      workerRetired (.holding (endingStage e.ending) n id) = [] := by
    cases e.ending <;> exact ⟨rfl,rfl⟩
  have same : hand (serveConn s w n id e) (workerNotices (.holding (endingStage e.ending) n id)) =
      hand s (workerNotices (.holding .running n id)) := by
    rw [held.1]
    simp only [hand, serveConn, workerNotices]
  refine workerPasses here rfl (le_of_eq same) ?_ (fun _ _ h => h)
  rw [same, held.2]
  exact le_refl _

theorem ledgerStep (inv : Tracked s) (made : Step config own s a t) (fresh : FreshAccept s a) :
    Passes (ledger s) (ledger t) ∨ ∃ fd, t.next = s.next + 1 ∧ Issues (ledger s) (ledger t) fd s.next := by
  have same : ∀ (o : Nat → Option ConnId) fd id, o fd = some id → o fd = some id := fun _ _ _ h => h
  cases made with
  | tick seconds => exact Or.inl (mainPasses rfl (le_refl _) (same _))
  | quiet move =>
    refine Or.inl (mainPasses rfl (le_of_eq ?_) (same _))
    simp only [hand, quietNotices move]
  | scanEnds here =>
    refine Or.inl (mainPasses rfl (le_of_eq ?_) (same _))
    simp only [hand, here, mainNotices]
  | expire here small listed unused old =>
    refine Or.inl (mainPasses rfl (handMono (filterLe _ _) (le_of_eq ?_)) (fun _ _ => updateOpen))
    simp only [vacate, closeFd, here, mainNotices]
  | epollWait here distinct ready => exact Or.inl (mainPasses rfl (le_of_eq (deliverHand here distinct ready 0)) (same _))
  | dispatch here =>
    refine Or.inl (mainPasses rfl (handMono (le_refl _) (le_of_eq ?_)) (same _))
    rw [batchHead here]
    simp only [mainNotices, ← Multiset.coe_add]
    abel
  | refused here free unlisted =>
    refine Or.inl (mainPasses rfl (handMono (le_refl _) (add_le_add_left ?_ _)) (same _))
    rw [batchHead here]
    exact Multiset.le_add_left _ _
  | dispatchFails here free listed =>
    refine Or.inl (mainPasses rfl (handMono (filterLe _ _) (add_le_add_left ?_ _)) (fun _ _ => updateOpen))
    rw [batchHead here]
    exact Multiset.le_add_left _ _
  | @accept rest fd here closed foreign =>
    exact Or.inr ⟨fd,rfl,acceptIssues inv here closed (fresh fd rfl) rfl rfl rfl rfl rfl⟩
  | @reject n rest here =>
    refine Or.inl (mainPasses rfl (handMono (le_refl _) (add_le_add_left ?_ _)) (fun _ _ => updateOpen))
    rw [here]
    exact Multiset.le_cons_self _ _
  | prepare here small =>
    refine Or.inl (mainPasses rfl (le_of_eq ?_) (same _))
    simp only [hand, setConn, here, mainNotices]
  | insert here free =>
    refine Or.inl (mainPasses rfl (le_of_eq ?_) (same _))
    simp only [hand, here, mainNotices]
  | register here isOpen =>
    refine Or.inl (mainPasses rfl (le_of_eq ?_) (same _))
    simp only [hand, here, mainNotices, ← Multiset.coe_add, ← Multiset.cons_coe, ← Multiset.singleton_add]
    abel
  | registerFails here free =>
    refine Or.inl (mainPasses rfl (handMono (filterLe _ _) (add_le_add_left ?_ _)) (fun _ _ => updateOpen))
    rw [here]
    exact Multiset.le_cons_self _ _
  | cleanup here empty idle =>
    refine Or.inl (mainPasses rfl (handMono (Multiset.zero_le _) (le_of_eq ?_)) (fun fd id gone => ?_))
    · simp only [here, mainNotices]
    · dsimp only at gone
      exact cleanedOpen gone
  | dequeue here head =>
    refine Or.inl (workerPasses here rfl (le_of_eq ?_) (le_of_eq ?_) (same _))
    · simp only [hand, setWorker, head, workerNotices, ← Multiset.cons_coe, ← Multiset.singleton_add]
      abel
    · simp only [hand, setWorker, head, workerNotices, workerRetired, ← Multiset.cons_coe, ← Multiset.singleton_add]
      abel_nf
  | lookupNone here free unlisted => exact Or.inl (idlePasses here rfl rfl rfl)
  | lookup here free listed => exact Or.inl (workerPasses here rfl (le_refl _) (le_refl _) (same _))
  | stamp here => exact Or.inl (workerPasses here rfl (le_refl _) (le_refl _) (same _))
  | serve here => exact Or.inl (servePasses here _)
  | rearm here => exact Or.inl (modifyPasses inv here rfl rfl s.heap)
  | keep here free => exact Or.inl (modifyPasses inv here rfl rfl _)
  | closeNone here free unlisted => exact Or.inl (idlePasses here rfl rfl rfl)
  | close here free listed => exact Or.inl (closePasses here)
  | vacate here => exact Or.inl (idlePasses here rfl rfl rfl)

theorem nextGrows (made : Step config own s a t) : s.next ≤ t.next := by
  cases made with
  | accept here closed foreign => exact Nat.le_succ _
  | _ => exact le_refl _

/- Entries appear in the table by the insertion alone. -/
theorem listedStep (made : Step config own s a t) {fd id} (listed : t.connections fd = some id) :
    s.connections fd = some id ∨
      ∃ n rest, s.main = .prepared n rest ∧ t.main = .inserted n rest ∧ MutexFree s ∧ fd = n.fd ∧ id = n.origin := by
  cases made with
  | expire here small found unused old => exact Or.inl (updateOpen listed)
  | dispatchFails here free found => exact Or.inl (updateOpen listed)
  | registerFails here free => exact Or.inl (updateOpen listed)
  | vacate here => exact Or.inl (updateOpen listed)
  | cleanup here empty idle => contradiction
  | @insert n rest here free =>
    dsimp only at listed
    by_cases same : fd = n.fd
    · subst same
      rw [Function.update_self] at listed
      exact Or.inr ⟨n,rest,here,rfl,free,rfl,(Option.some.inj listed).symm⟩
    · rw [Function.update_of_ne same] at listed
      exact Or.inl listed
  | _ => exact Or.inl listed

theorem apart (inv : Tracked s) {x y rest : Multiset Notice} (parts : notices s = x + y + rest) {m n : Notice}
    (left : m ∈ x) (right : n ∈ y) : m.fd ≠ n.fd ∧ m.origin ≠ n.origin := by
  have tokens : (ledger s).tokens = x.map token + y.map token + rest.map token := by
    simp only [ledger, parts, Multiset.map_add]
  exact partsApart inv.sound tokens (Multiset.mem_map_of_mem token left) (Multiset.mem_map_of_mem token right)

theorem pendingMem {n} (here : pending s.main = some n) : n ∈ mainNotices s.main := by
  unfold pending at here
  split at here <;> try contradiction
  all_goals
    rename_i main
    cases Option.some.inj here
    rw [main]
    exact List.mem_cons_self

theorem armedPending (inv : Tracked s) {m n} (armed : m ∈ s.armed) (here : pending s.main = some n) : m.fd ≠ n.fd := by
  have parts : notices s = s.armed + (mainNotices s.main : Multiset Notice) +
      (s.queue + (s.workers.flatMap workerNotices : List Notice)) := (add_assoc _ _ _).symm
  exact (apart inv parts armed (pendingMem here)).1

theorem pendingWorker (inv : Tracked s) {w : Nat} {p m n} (here : s.workers[w]? = some p) (held : m ∈ workerNotices p)
    (main : pending s.main = some n) : n.fd ≠ m.fd ∧ n.origin ≠ m.origin := by
  have member : m ∈ s.workers.flatMap workerNotices := List.mem_flatMap.mpr ⟨p,List.mem_of_getElem? here,held⟩
  have parts : notices s = (mainNotices s.main : Multiset Notice) +
      (s.workers.flatMap workerNotices : List Notice) + (s.armed + s.queue) := by
    simp only [notices, hand]
    abel
  exact apart inv parts (pendingMem main) member

theorem quietPending {pc} (move : Quiet s a pc) : pending pc = none := by
  cases move <;> rfl

theorem quietOutside {pc} (move : Quiet s a pc) : pending s.main = none := by
  cases move with
  | acceptEvent here => rw [here]; rfl
  | acceptEnds here => rw [here]; rfl
  | due here => rw [here]; rfl
  | early here => rw [here]; rfl
  | readClock here => rw [here]; rfl
  | lock here free => rw [here]; rfl
  | skip here => rw [here]; rfl
  | stop here => rw [here]; rfl

theorem filterOpen (inv : Tracked s) {fd m} (member : m ∈ s.armed.filter (fun n => n.fd ≠ fd)) :
    Function.update s.opened fd none m.fd = some m.origin := by
  obtain ⟨armed,other⟩ := List.mem_filter.mp member
  rw [Function.update_of_ne (by simpa using other)]
  exact inv.armedOpen m armed

theorem modifyOpen (inv : Tracked s) {fd m} (member : m ∈ rearmed s.registered s.armed fd) :
    s.opened m.fd = some m.origin := by
  unfold rearmed at member
  split at member
  · exact inv.armedOpen m member
  · rename_i id found
    split at member
    · exact inv.armedOpen m member
    · rcases List.mem_append.mp member with old | new
      · exact inv.armedOpen m old
      · rw [List.mem_singleton.mp new]
        exact inv.registeredOpen fd id found

theorem armedStep (inv : Tracked s) (made : Step config own s a t) : ∀ m ∈ t.armed, t.opened m.fd = some m.origin := by
  intro m member
  cases made with
  | expire here small found unused old => exact filterOpen inv member
  | dispatchFails here free found => exact filterOpen inv member
  | registerFails here free => exact filterOpen inv member
  | close here free found => exact filterOpen inv member
  | epollWait here distinct ready => exact inv.armedOpen m (List.diff_subset _ _ member)
  | @accept rest fd here closed foreign =>
    have before := inv.armedOpen m member
    have other : m.fd ≠ fd := fun same => by rw [same, closed] at before; contradiction
    simp only [Function.update_of_ne other]
    exact before
  | @reject n rest here =>
    have other : m.fd ≠ n.fd := armedPending inv member (by rw [here]; rfl)
    simp only [Function.update_of_ne other]
    exact inv.armedOpen m member
  | @register n rest here isOpen =>
    rcases List.mem_append.mp member with old | new
    · exact inv.armedOpen m old
    · rw [List.mem_singleton.mp new]
      exact (inv.pendingOpen n (by rw [here]; rfl)).1
  | cleanup here empty idle => exact absurd member List.not_mem_nil
  | rearm here => exact modifyOpen inv member
  | keep here free => exact modifyOpen inv member
  | _ => exact inv.armedOpen m member

theorem pendingStep (inv : Tracked s) (made : Step config own s a t) :
    ∀ n, pending t.main = some n → t.opened n.fd = some n.origin ∧ t.registered n.fd = none := by
  intro m main
  cases made with
  | quiet move =>
    rw [quietPending move] at main
    contradiction
  | @accept rest fd here closed foreign =>
    cases Option.some.inj main
    refine ⟨Function.update_self _ _ _,?_⟩
    cases found : s.registered fd with
    | none => rfl
    | some id => exact absurd (inv.registeredOpen fd id found) (by rw [closed]; simp)
  | prepare here small => exact inv.pendingOpen m (by rw [here]; exact main)
  | insert here free => exact inv.pendingOpen m (by rw [here]; exact main)
  | @close w n id found here free listed =>
    have other : m.fd ≠ n.fd := (pendingWorker inv here (List.mem_singleton_self n) main).1
    simp only [setWorker, closeFd, Function.update_of_ne other]
    exact inv.pendingOpen m main
  | serve here => exact inv.pendingOpen m main
  | rearm here => exact inv.pendingOpen m main
  | keep here free => exact inv.pendingOpen m main
  | tick seconds => exact inv.pendingOpen m main
  | dequeue here head => exact inv.pendingOpen m main
  | lookupNone here free missing => exact inv.pendingOpen m main
  | lookup here free listed => exact inv.pendingOpen m main
  | stamp here => exact inv.pendingOpen m main
  | closeNone here free missing => exact inv.pendingOpen m main
  | vacate here => exact inv.pendingOpen m main
  | _ => contradiction

theorem shutRegistered (inv : Tracked s) (fd : Nat) {k id} (found : Function.update s.registered fd none k = some id) :
    Function.update s.opened fd none k = some id := by
  by_cases same : k = fd
  · subst same
    rw [Function.update_self] at found
    contradiction
  · rw [Function.update_of_ne same] at found ⊢
    exact inv.registeredOpen k id found

theorem registeredStep (inv : Tracked s) (made : Step config own s a t) :
    ∀ fd id, t.registered fd = some id → t.opened fd = some id := by
  intro k id found
  cases made with
  | expire here small listed unused old => exact shutRegistered inv _ found
  | dispatchFails here free listed => exact shutRegistered inv _ found
  | registerFails here free => exact shutRegistered inv _ found
  | close here free listed => exact shutRegistered inv _ found
  | @accept rest fd here closed foreign =>
    have before := inv.registeredOpen k id found
    have other : k ≠ fd := fun same => by rw [same, closed] at before; contradiction
    simp only [Function.update_of_ne other]
    exact before
  | @reject n rest here =>
    have free := (inv.pendingOpen n (by rw [here]; rfl)).2
    have other : k ≠ n.fd := fun same => by rw [same, free] at found; contradiction
    simp only [Function.update_of_ne other]
    exact inv.registeredOpen k id found
  | @register n rest here isOpen =>
    dsimp only at found ⊢
    by_cases same : k = n.fd
    · subst same
      rw [Function.update_self] at found
      rw [← found]
      exact (inv.pendingOpen n (by rw [here]; rfl)).1
    · rw [Function.update_of_ne same] at found
      exact inv.registeredOpen k id found
  | cleanup here empty idle => contradiction
  | _ => exact inv.registeredOpen k id found

theorem unlistedPending {pc n} (main : Ownership.unlisted pc = some n) : pending pc = some n := by
  unfold Ownership.unlisted at main
  split at main <;> try contradiction
  · exact main
  · exact main

theorem unlistedStep (inv : Entries s) (made : Step config own s a t) :
    ∀ n fd, unlisted t.main = some n → t.connections fd ≠ some n.origin := by
  intro m fd main listed
  have before : s.connections fd = some m.origin := by
    rcases listedStep made listed with old | ⟨n,rest,_,inserted,_⟩
    · exact old
    · rw [inserted] at main
      contradiction
  rcases stepMoves made with same | move
  · exact inv.unlisted m fd (by rw [← same]; exact main) before
  · generalize t.main = pc at move main
    cases move with
    | quiet move =>
      have nothing := quietPending move
      rw [unlistedPending main] at nothing
      contradiction
    | accept here foreign =>
      cases Option.some.inj main
      exact absurd (inv.listedBelow fd _ before) (Nat.lt_irrefl _)
    | prepare here small => exact inv.unlisted m fd (by rw [here]; exact main) before
    | _ => contradiction

theorem unlistedBelowStep (inv : Entries s) (made : Step config own s a t) :
    ∀ n, unlisted t.main = some n → n.origin < t.next := by
  intro m main
  have grows := nextGrows made
  cases made with
  | quiet move =>
    have nothing := quietPending move
    rw [unlistedPending main] at nothing
    contradiction
  | accept here closed foreign =>
    cases Option.some.inj main
    exact Nat.lt_succ_self _
  | prepare here small => exact inv.unlistedBelow m (by rw [here]; exact main)
  | tick seconds => exact inv.unlistedBelow m main
  | dequeue here head => exact inv.unlistedBelow m main
  | lookupNone here free missing => exact inv.unlistedBelow m main
  | lookup here free listed => exact inv.unlistedBelow m main
  | stamp here => exact inv.unlistedBelow m main
  | serve here => exact inv.unlistedBelow m main
  | rearm here => exact inv.unlistedBelow m main
  | keep here free => exact inv.unlistedBelow m main
  | closeNone here free missing => exact inv.unlistedBelow m main
  | close here free found => exact inv.unlistedBelow m main
  | vacate here => exact inv.unlistedBelow m main
  | _ => contradiction

/- Under the mutex, what the table lists is open. -/
theorem listedNow (inv : Entries s) (free : ∀ p ∈ s.workers, p.closedFd = none) {fd id}
    (listed : s.connections fd = some id) : s.opened fd = some id := by
  rcases inv.listedOpen fd id listed with isOpen | ⟨p,worker,vacating⟩
  · exact isOpen
  · rw [free p worker] at vacating
    contradiction

theorem unlistedOpenStep (inv : Entries s) (made : Step config own s a t) :
    ∀ n, unlisted t.main = some n → t.opened n.fd = some n.origin := by
  intro m main
  cases made with
  | quiet move =>
    have nothing := quietPending move
    rw [unlistedPending main] at nothing
    contradiction
  | accept here closed foreign =>
    cases Option.some.inj main
    exact Function.update_self _ _ _
  | prepare here small => exact inv.unlistedOpen m (by rw [here]; exact main)
  | tick seconds => exact inv.unlistedOpen m main
  | dequeue here head => exact inv.unlistedOpen m main
  | lookupNone here free missing => exact inv.unlistedOpen m main
  | lookup here free listed => exact inv.unlistedOpen m main
  | stamp here => exact inv.unlistedOpen m main
  | serve here => exact inv.unlistedOpen m main
  | rearm here => exact inv.unlistedOpen m main
  | keep here free => exact inv.unlistedOpen m main
  | closeNone here free missing => exact inv.unlistedOpen m main
  | @close w n id found here free listed =>
    have mine := inv.unlistedOpen m main
    have other : m.fd ≠ n.fd := by
      intro same
      have isOpen := listedNow inv free.2 listed
      rw [← same, mine] at isOpen
      cases Option.some.inj isOpen
      exact inv.unlisted m n.fd main listed
    simp only [setWorker, closeFd, Function.update_of_ne other]
    exact mine
  | vacate here => exact inv.unlistedOpen m main
  | _ => contradiction

theorem listedBelowStep (inv : Entries s) (made : Step config own s a t) :
    ∀ fd id, t.connections fd = some id → id < t.next := by
  intro fd id listed
  refine lt_of_lt_of_le ?_ (nextGrows made)
  rcases listedStep made listed with old | ⟨n,rest,here,_,_,_,rfl⟩
  · exact inv.listedBelow fd id old
  · exact inv.unlistedBelow n (by rw [here]; rfl)

/- A worker that is vacating a slot stays in the list when another one moves. -/
theorem vacatingStays {w : Nat} {p q fd} (here : s.workers[w]? = some p) (other : p.closedFd ≠ some fd)
    (present : ∃ v ∈ s.workers, v.closedFd = some fd) : ∃ v ∈ s.workers.set w q, v.closedFd = some fd := by
  obtain ⟨before,after,whole,replaced⟩ := Crew.split here
  obtain ⟨v,member,vacating⟩ := present
  rw [whole] at member
  refine ⟨v,?_,vacating⟩
  rw [replaced]
  rcases List.mem_append.mp member with left | right
  · exact List.mem_append_left _ left
  · rcases List.mem_cons.mp right with same | right
    · rw [same] at vacating
      exact absurd vacating other
    · exact List.mem_append_right _ (List.mem_cons_of_mem _ right)

theorem shutListed (inv : Entries s) (fd : Nat) {k id} (listed : Function.update s.connections fd none k = some id) :
    Function.update s.opened fd none k = some id ∨ ∃ p ∈ s.workers, p.closedFd = some k := by
  have before := updateOpen listed
  have other : k ≠ fd := by
    rintro rfl
    rw [Function.update_self] at listed
    contradiction
  rw [Function.update_of_ne other]
  exact inv.listedOpen k id before

theorem movedListed (inv : Entries s) {w : Nat} {p q} {k id} (here : s.workers[w]? = some p) (busy : p.closedFd = none)
    (listed : s.connections k = some id) : s.opened k = some id ∨ ∃ v ∈ s.workers.set w q, v.closedFd = some k := by
  rcases inv.listedOpen k id listed with isOpen | vacating
  · exact Or.inl isOpen
  · exact Or.inr (vacatingStays here (by rw [busy]; simp) vacating)

/- What the table lists is open, but for a slot that a worker is about to clear. -/
theorem listedOpenStep (inv : Entries s) (made : Step config own s a t) :
    ∀ fd id, t.connections fd = some id → t.opened fd = some id ∨ ∃ p ∈ t.workers, p.closedFd = some fd := by
  intro k id listed
  cases made with
  | expire here small found unused old => exact shutListed inv _ listed
  | dispatchFails here free found => exact shutListed inv _ listed
  | registerFails here free => exact shutListed inv _ listed
  | @accept rest fd here closed foreign =>
    rcases inv.listedOpen k id listed with isOpen | vacating
    · have other : k ≠ fd := fun same => by rw [same, closed] at isOpen; contradiction
      simp only [Function.update_of_ne other]
      exact Or.inl isOpen
    · exact Or.inr vacating
  | @reject n rest here =>
    rcases inv.listedOpen k id listed with isOpen | vacating
    · have mine := inv.unlistedOpen n (by rw [here]; rfl)
      have other : k ≠ n.fd := by
        rintro rfl
        rw [mine] at isOpen
        cases Option.some.inj isOpen
        exact inv.unlisted n n.fd (by rw [here]; rfl) listed
      simp only [Function.update_of_ne other]
      exact Or.inl isOpen
    · exact Or.inr vacating
  | @insert n rest here free =>
    dsimp only at listed ⊢
    by_cases same : k = n.fd
    · subst same
      rw [Function.update_self] at listed
      rw [← listed]
      exact Or.inl (inv.unlistedOpen n (by rw [here]; rfl))
    · rw [Function.update_of_ne same] at listed
      exact inv.listedOpen k id listed
  | cleanup here empty idle => contradiction
  | dequeue here head => exact movedListed inv here rfl listed
  | lookupNone here free missing => exact movedListed inv here rfl listed
  | lookup here free found => exact movedListed inv here rfl listed
  | stamp here => exact movedListed inv here rfl listed
  | serve here => exact movedListed inv here rfl listed
  | rearm here => exact movedListed inv here rfl listed
  | keep here free => exact movedListed inv here rfl listed
  | closeNone here free missing => exact movedListed inv here rfl listed
  | @close w n c found here free there =>
    by_cases same : k = n.fd
    · subst same
      obtain ⟨before,after,_,replaced⟩ := Crew.split here
      refine Or.inr ⟨.holding .closed n c,?_,rfl⟩
      simp only [setWorker, closeFd, replaced]
      exact List.mem_append_right _ List.mem_cons_self
    · simp only [setWorker, closeFd, Function.update_of_ne same]
      exact movedListed inv here rfl listed
  | @vacate w n c here =>
    have before := updateOpen listed
    have other : n.fd ≠ k := by
      rintro rfl
      have gone : Function.update s.connections n.fd none n.fd = some id := listed
      rw [Function.update_self] at gone
      contradiction
    rcases inv.listedOpen k id before with isOpen | vacating
    · exact Or.inl isOpen
    · exact Or.inr (vacatingStays here (by simpa [WorkerPc.closedFd] using other) vacating)
  | _ => exact inv.listedOpen k id listed

theorem entriesStep (inv : Entries s) (made : Step config own s a t) : Entries t :=
  ⟨unlistedBelowStep inv made,listedBelowStep inv made,unlistedOpenStep inv made,unlistedStep inv made,
    listedOpenStep inv made⟩

theorem noticeHolder {n : Notice} (member : n ∈ notices s) : n.origin ∈ (ledger s).holders := by
  rw [ledgerHolders]
  exact Multiset.mem_add.mpr (Or.inl (Multiset.mem_map_of_mem _ member))

theorem trackedEntries (inv : Tracked s) : Entries s := by
  refine ⟨fun n main => ?_,inv.listedBelow,fun n main => (inv.pendingOpen n (unlistedPending main)).1,
    inv.unlisted,inv.listedOpen⟩
  have there : n ∈ notices s := memNotices.mpr (Or.inr (Or.inl (pendingMem (unlistedPending main))))
  exact inv.below _ (noticeHolder there)

/- Under the mutex the table tells what the kernel has open, so a task finds its own connection. -/
theorem lookupOrigin (inv : Tracked s) {w : Nat} {n id} (here : s.workers[w]? = some (.taken n)) (free : MutexFree s)
    (listed : s.connections n.fd = some id) : id = n.origin :=
  inv.sound.agree n.fd n.origin id (tokenMem (workerMem here (List.mem_singleton_self n)))
    (listedNow (trackedEntries inv) free.2 listed)

theorem movedPointer (inv : Tracked s) {w : Nat} {q} {stage n id}
    (new : ∀ stage n id, q = .holding stage n id → id = n.origin)
    (member : .holding stage n id ∈ s.workers.set w q) : id = n.origin := by
  rcases List.mem_or_eq_of_mem_set member with old | same
  · exact inv.pointers stage n id old
  · exact new stage n id same.symm

theorem samePointer (inv : Tracked s) {w : Nat} {before n id} (after : Stage)
    (here : s.workers[w]? = some (.holding before n id)) :
    ∀ stage m c, .holding after n id = WorkerPc.holding stage m c → c = m.origin := by
  intro stage m c same
  cases same
  exact inv.pointers before n id (List.mem_of_getElem? here)

theorem pointersStep (inv : Tracked s) (made : Step config own s a t) :
    ∀ stage n id, .holding stage n id ∈ t.workers → id = n.origin := by
  intro stage m c member
  cases made with
  | dequeue here head => exact movedPointer inv (fun _ _ _ same => by cases same) member
  | lookupNone here free missing => exact movedPointer inv (fun _ _ _ same => by cases same) member
  | lookup here free found =>
    refine movedPointer inv (fun stage n id same => ?_) member
    cases same
    exact lookupOrigin inv here free found
  | stamp here => exact movedPointer inv (samePointer inv _ here) member
  | serve here => exact movedPointer inv (samePointer inv _ here) member
  | rearm here => exact movedPointer inv (fun _ _ _ same => by cases same) member
  | keep here free => exact movedPointer inv (fun _ _ _ same => by cases same) member
  | closeNone here free missing => exact movedPointer inv (fun _ _ _ same => by cases same) member
  | close here free found => exact movedPointer inv (samePointer inv _ here) member
  | vacate here => exact movedPointer inv (fun _ _ _ same => by cases same) member
  | _ => exact inv.pointers stage m c member

theorem trackedStep (inv : Tracked s) (made : Step config own s a t) (fresh : FreshAccept s a) : Tracked t := by
  have move := ledgerStep inv made fresh
  have grows := nextGrows made
  have entries := entriesStep (trackedEntries inv) made
  constructor
  · rcases move with pass | ⟨fd,_,issue⟩
    · exact passSound inv.sound pass
    · exact issueSound inv.sound issue
  · intro g held
    rcases move with pass | ⟨fd,next,issue⟩
    · exact lt_of_lt_of_le (inv.below g (Multiset.mem_of_le pass.holders held)) grows
    · rw [issueHolders issue, Multiset.mem_cons] at held
      rcases held with new | old
      · rw [new, next]
        exact Nat.lt_succ_self _
      · exact lt_of_lt_of_le (inv.below g old) grows
  · exact entries.listedBelow
  · exact armedStep inv made
  · exact pendingStep inv made
  · exact entries.unlisted
  · exact registeredStep inv made
  · exact entries.listedOpen
  · exact pointersStep inv made

theorem initialNotices (config : ServerConfig) (now : Int) : notices (initial config now) = 0 := by
  have idle : ((initial config now).workers.flatMap workerNotices) = [] := by
    rw [List.flatMap_eq_nil_iff]
    exact fun p member => by rw [List.eq_of_mem_replicate member]; rfl
  simp only [notices, hand, idle]
  rfl

theorem initialTracked (config : ServerConfig) (now : Int) : Tracked (initial config now) := by
  have idle : ∀ p ∈ (initial config now).workers, p = .idle := fun p member => List.eq_of_mem_replicate member
  have retired : ((initial config now).workers.flatMap workerRetired) = [] := by
    rw [List.flatMap_eq_nil_iff]
    exact fun p member => by rw [idle p member]; rfl
  have empty : ledger (initial config now) = ⟨fun _ => none,0,0⟩ := by
    simp only [ledger, initialNotices, retired]
    rfl
  constructor
  · rw [empty]
    exact emptySound _
  · rw [empty]
    exact fun g held => absurd held (Multiset.notMem_zero g)
  · exact fun fd id listed => nomatch listed
  · exact fun n armed => absurd armed List.not_mem_nil
  · exact fun n main => nomatch main
  · exact fun n fd main => nomatch main
  · exact fun fd id found => nomatch found
  · exact fun fd id listed => nomatch listed
  · intro stage n id member
    have same := idle _ member
    contradiction

theorem reachTracked (reached : Reach (server config own) FreshAccept s) : Tracked s := by
  refine reachInvariant ?_ ?_ reached
  · rintro s ⟨now,rfl⟩
    exact initialTracked config now
  · intro s a t inv fresh made
    exact trackedStep inv (stepSound made) fresh

/- The connections that the workers past the lookup were given. -/
def WorkerPc.pointer : WorkerPc → Option ConnId
  | .holding _ _ id => some id
  | _ => none

def WorkerPc.task : WorkerPc → Option Notice
  | .idle => none
  | .taken n => some n
  | .holding _ n _ => some n

/- A worker that was given a connection was given the one its task was raised for, and no two
workers have one connection. -/
structure Exclusive (s : State) : Prop where
  own : ∀ p ∈ s.workers, ∀ n id, WorkerPc.task p = some n → WorkerPc.pointer p = some id → id = n.origin
  apart : ∀ (v w : Nat) p q id, v ≠ w → s.workers[v]? = some p → s.workers[w]? = some q →
    WorkerPc.pointer p = some id → WorkerPc.pointer q ≠ some id

/- One holder for each worker past the lookup, with its token or retired. -/
def workerHolders (p : WorkerPc) : List ConnId := (workerNotices p).map Notice.origin ++ workerRetired p

theorem workersNodup (inv : Tracked s) : (s.workers.flatMap workerHolders).Nodup := by
  have part : ((s.workers.flatMap workerHolders : List ConnId) : Multiset ConnId) ≤ (ledger s).holders := by
    have shuffle : ((s.workers.flatMap workerHolders : List ConnId) : Multiset ConnId) =
        (s.workers.flatMap (fun p => (workerNotices p).map Notice.origin) : List ConnId) +
          (s.workers.flatMap workerRetired : List ConnId) :=
      (Multiset.coe_eq_coe.mpr (List.flatMap_append_perm s.workers
        (fun p => (workerNotices p).map Notice.origin) workerRetired)).symm
    rw [shuffle, ledgerHolders, ← List.map_flatMap, ← Multiset.map_coe]
    refine add_le_add_left (Multiset.map_le_map ?_) _
    rw [notices, hand, ← add_assoc, ← add_assoc]
    exact Multiset.le_add_left _ _
  exact Multiset.coe_nodup.mp (Multiset.nodup_of_le part inv.sound.holders)

theorem trackedExclusive (inv : Tracked s) : Exclusive s := by
  have own : ∀ p ∈ s.workers, ∀ n id, WorkerPc.task p = some n → WorkerPc.pointer p = some id → id = n.origin := by
    intro p member n id task pointer
    cases p with
    | idle => contradiction
    | taken m => contradiction
    | holding stage m c =>
      have same := inv.pointers stage m c member
      cases Option.some.inj task
      cases Option.some.inj pointer
      exact same
  have held : ∀ p ∈ s.workers, ∀ id, WorkerPc.pointer p = some id → id ∈ workerHolders p := by
    intro p member id pointer
    cases p with
    | idle => contradiction
    | taken m => contradiction
    | holding stage m c =>
      have same := inv.pointers stage m c member
      cases Option.some.inj pointer
      rw [same]
      cases stage <;> exact List.mem_singleton_self _
  refine ⟨own,fun v w p q id differ atV atW mine other => ?_⟩
  have pairwise := (List.nodup_flatMap.mp (workersNodup inv)).2
  have inV := held p (List.mem_of_getElem? atV) id mine
  have inW := held q (List.mem_of_getElem? atW) id other
  obtain ⟨boundV,sameV⟩ := List.getElem?_eq_some_iff.mp atV
  obtain ⟨boundW,sameW⟩ := List.getElem?_eq_some_iff.mp atW
  rw [← sameV] at inV
  rw [← sameW] at inW
  rcases Nat.lt_or_gt_of_ne differ with less | more
  · exact List.pairwise_iff_getElem.mp pairwise v w boundV boundW less inV inW
  · exact List.pairwise_iff_getElem.mp pairwise w v boundW boundV more inW inV

theorem tasksExclusive (reached : Reach (server config own) FreshAccept s) : Exclusive s :=
  trackedExclusive (reachTracked reached)

end

-- The descriptors below the first accepted one: the standard ones, the socket, the epoll set.
def firstFive (fd : Nat) : Bool := fd < 5

def arrivalOn (fd : Nat) : List Action :=
  [.epollWait [.incoming],.acceptEvent,.accept fd,.prepare,.insert,.register,.acceptEnds,.batchEnds]

def nothingRead : Environment := ⟨fun _ => true,0,[.eof],[]⟩

/- The client hangs up, the worker closes the descriptor, and accept returns it again. -/
def reusedRun : List Action :=
  arrivalOn 5 ++ [.epollWait [.ready ⟨5,0⟩],.dispatch,.batchEnds,.worker 0 .dequeue,.worker 0 .lookup,
    .worker 0 .stamp,.worker 0 (.serve nothingRead emptyWorld),.worker 0 .close,.worker 0 .vacate] ++
    arrivalOn 5 ++ [.epollWait [.ready ⟨5,1⟩],.dispatch,.worker 1 .dequeue,.worker 1 .lookup]

theorem reusedExclusive : ∃ s, Reach (server Main.defaults firstFive) FreshAccept s ∧
    s.workers[1]? = some (.holding .marked ⟨5,1⟩ 1) ∧ Exclusive s := by
  have follows : Follows (server Main.defaults firstFive) FreshAccept (initial Main.defaults 0) reusedRun := by
    decide +kernel
  obtain ⟨s,reached,there⟩ := reachSeen (initialReach _ _ _ 0) (fun s => s.workers[1]?) follows
    (b := some (.holding .marked ⟨5,1⟩ 1)) (by decide +kernel)
  exact ⟨s,reached,there,tasksExclusive reached⟩

/- An event is dispatched at the 61st second and the scan of the same turn closes the connection;
the descriptor is accepted again before a worker takes the task. -/
def staleRun : List Action :=
  arrivalOn 5 ++ [.tick 61,.epollWait [.ready ⟨5,0⟩],.dispatch,.batchEnds,.readClock,.lock] ++
    List.replicate (maxEvents+1) .scan ++ arrivalOn 5 ++ [.worker 0 .dequeue,.worker 0 .lookup]

theorem staleTask : ∃ s, Reach (server Main.defaults firstFive) (fun _ _ => True) s ∧ ¬ Exclusive s := by
  obtain ⟨s,reached,there⟩ := reachSeen (initialReach Main.defaults firstFive _ 0) (fun s => s.workers[0]?)
    (followsAll _ staleRun) (b := some (.holding .marked ⟨5,0⟩ 1)) (by decide +kernel)
  refine ⟨s,reached,fun exclusive => ?_⟩
  have same := exclusive.own _ (List.mem_of_getElem? there) ⟨5,0⟩ 1 rfl rfl
  contradiction

end EpollHttpServer.Ownership
