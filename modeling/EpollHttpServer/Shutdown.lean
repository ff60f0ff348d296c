import EpollHttpServer.ThreadPool
import EpollHttpServer.Lib.Custody

/-! Shutting the pool down. thread_pool_destroy sets the flag and broadcasts under the lock, where
no worker stands between its test and its wait; thread_pool_create does both without the lock
when a thread cannot be created, and a worker that stands there then sleeps for good. -/
namespace EpollHttpServer.Shutdown
open ThreadPool LinkedQueue Runs

def WorkerPc.holds : WorkerPc → Bool
  | .testing => true
  | .blocking => true
  | .leaving => true
  | _ => false

def ControlPc.holds : ControlPc → Bool
  | .linking _ => true
  | .linked => true
  | .signalled => true
  | .marking => true
  | .marked => true
  | .woke => true
  | _ => false

/- The controlling thread has set the flag. -/
def ControlPc.closed : ControlPc → Bool
  | .flagged => true
  | .marked => true
  | .woke => true
  | .joining _ _ => true
  | .releasing _ => true
  | .destroyed => true
  | .failed => true
  | _ => false

/- How many of the workers it has joined. -/
def ControlPc.joins (count : Nat) : ControlPc → Nat
  | .joining _ i => i
  | .releasing _ => count
  | .destroyed => count
  | .failed => count
  | _ => 0

structure Guarded {F A : Type} (s : State F A) : Prop where
  workerLock : ∀ w p, s.workers[w]? = some p → WorkerPc.holds p = true → s.lock = some (.worker w)
  controlLock : ControlPc.holds s.control = true → s.lock = some .control
  workerOwns : ∀ w, s.lock = some (.worker w) → ∃ p, s.workers[w]? = some p ∧ WorkerPc.holds p = true
  controlOwns : s.lock = some .control → ControlPc.holds s.control = true
  closing : s.shutdown = true ↔ ControlPc.closed s.control = true
  joined : ∀ i < ControlPc.joins s.workers.length s.control, s.workers[i]? = some .exited

section
variable {F A : Type} {threadCounts : Int} {s t : State F A} {a : Action F A}

theorem awakenedAt {w : Nat} {q} (there : (s.workers.map awakened)[w]? = some q) :
    ∃ p, s.workers[w]? = some p ∧ awakened p = q := by
  rw [List.getElem?_map] at there
  exact Option.map_eq_some_iff.mp there

/- The broadcast adds to those who are out of the wait and to no others. -/
theorem awakenedBefore {p : WorkerPc} (member : p ∈ s.workers.map awakened) (other : p ≠ .woken) : p ∈ s.workers := by
  obtain ⟨q,old,rfl⟩ := List.mem_map.mp member
  cases q with
  | waiting => exact absurd rfl other
  | _ => exact old

theorem awakenedHolds (p : WorkerPc) : WorkerPc.holds (awakened p) = WorkerPc.holds p := by
  cases p <;> rfl

theorem createdAt {w : Nat} {q} (there : (s.workers ++ [.entering])[w]? = some q) :
    s.workers[w]? = some q ∨ q = .entering := by
  by_cases bound : w < s.workers.length
  · rw [List.getElem?_append_left bound] at there
    exact Or.inl there
  · rw [List.getElem?_append_right (Nat.le_of_not_lt bound)] at there
    exact Or.inr (List.mem_singleton.mp (List.mem_of_getElem? there))

/- A worker that moves without taking or giving up the lock. -/
theorem movedLock (inv : Guarded s) {w : Nat} {p q} (here : s.workers[w]? = some p)
    {i : Nat} {r} (there : (s.workers.set w q)[i]? = some r) (same : WorkerPc.holds q = WorkerPc.holds p)
    (held : WorkerPc.holds r = true) : s.lock = some (.worker i) := by
  rcases Crew.setCases there with ⟨rfl,rfl⟩ | ⟨_,old⟩
  · exact inv.workerLock i p here (same ▸ held)
  · exact inv.workerLock i r old held

/- One worker that holds the lock excludes the others. -/
theorem released (inv : Guarded s) {w : Nat} {p q} (here : s.workers[w]? = some p) (holds : WorkerPc.holds p = true)
    (gone : WorkerPc.holds q = false) {i : Nat} {r} (there : (s.workers.set w q)[i]? = some r) : WorkerPc.holds r = false := by
  rcases Crew.setCases there with ⟨rfl,rfl⟩ | ⟨other,old⟩
  · exact gone
  · cases held : WorkerPc.holds r with
    | false => rfl
    | true =>
      have mine := inv.workerLock w p here holds
      rw [inv.workerLock i r old held] at mine
      cases Option.some.inj mine
      exact absurd rfl other

theorem acquired (inv : Guarded s) (free : s.lock = none) {w : Nat} {q} {i : Nat} {r} (there : (s.workers.set w q)[i]? = some r)
    (held : WorkerPc.holds r = true) : i = w := by
  rcases Crew.setCases there with ⟨same,_⟩ | ⟨_,old⟩
  · exact same
  · have mine := inv.workerLock i r old held
    rw [free] at mine
    contradiction

theorem nobodyHolds (inv : Guarded s) (free : s.lock = none ∨ s.lock = some .control) {i : Nat} {r}
    (there : s.workers[i]? = some r) : WorkerPc.holds r = false := by
  cases held : WorkerPc.holds r with
  | false => rfl
  | true =>
    have mine := inv.workerLock i r there held
    rcases free with free | free <;> rw [free] at mine <;> cases mine

theorem workerLockStep (inv : Guarded s) (made : Step threadCounts s a t) :
    ∀ i r, t.workers[i]? = some r → WorkerPc.holds r = true → t.lock = some (.worker i) := by
  intro i r there held
  have controlled : ControlPc.holds s.control = true → s.workers[i]? = some r → t.lock = some (.worker i) := by
    intro owns old
    rw [nobodyHolds inv (Or.inr (inv.controlLock owns)) old] at held
    contradiction
  cases made with
  | create here more =>
    rcases createdAt there with old | rfl
    · exact inv.workerLock i r old held
    · contradiction
  | lock here free =>
    rw [nobodyHolds inv (Or.inl free) there] at held
    contradiction
  | lockLast here free =>
    rw [nobodyHolds inv (Or.inl free) there] at held
    contradiction
  | signal here waits => exact movedLock inv waits there rfl held
  | unlock here => exact controlled (by rw [here]; rfl) there
  | unlockLast here => exact controlled (by rw [here]; rfl) there
  | broadcastFailed here =>
    obtain ⟨p,old,rfl⟩ := awakenedAt there
    exact inv.workerLock i p old (awakenedHolds p ▸ held)
  | broadcast here =>
    obtain ⟨p,old,rfl⟩ := awakenedAt there
    exact inv.workerLock i p old (awakenedHolds p ▸ held)
  | enter here free => rw [acquired inv free there held]; rfl
  | reenter here free => rw [acquired inv free there held]; rfl
  | sleepy here empty running => exact movedLock inv here there rfl held
  | test here settled => exact movedLock inv here there rfl held
  | block here =>
    rw [released inv here rfl rfl there] at held
    contradiction
  | wake here => exact movedLock inv here there rfl held
  | exit here settled empty =>
    rw [released inv here rfl rfl there] at held
    contradiction
  | dequeue here popped =>
    rw [released inv here rfl rfl there] at held
    contradiction
  | run here node => exact movedLock inv here there rfl held
  | free here => exact movedLock inv here there rfl held
  | _ => exact inv.workerLock i r there held

theorem controlLockStep (inv : Guarded s) (made : Step threadCounts s a t) :
    ControlPc.holds t.control = true → t.lock = some .control := by
  intro held
  have excluded : ∀ {w : Nat} {p}, s.workers[w]? = some p → WorkerPc.holds p = true → ControlPc.holds s.control = true →
      t.lock = some .control := by
    intro w p here holds owns
    have mine := inv.workerLock w p here holds
    rw [inv.controlLock owns] at mine
    cases mine
  have idle : s.lock = none → ControlPc.holds s.control = true → t.lock = some .control := by
    intro free owns
    rw [inv.controlLock owns] at free
    contradiction
  cases made with
  | lock here free => rfl
  | lockLast here free => rfl
  | link here => exact inv.controlLock (by rw [here]; rfl)
  | signalNone here nobody => exact inv.controlLock (by rw [here]; rfl)
  | signal here waits => exact inv.controlLock (by rw [here]; rfl)
  | mark here => exact inv.controlLock (by rw [here]; rfl)
  | broadcast here => exact inv.controlLock (by rw [here]; rfl)
  | @joined failed i here all => cases failed <;> contradiction
  | create here more => exact inv.controlLock held
  | refused here => exact inv.controlLock held
  | enter here free => exact idle free held
  | reenter here free => exact idle free held
  | sleepy here empty running => exact inv.controlLock held
  | test here settled => exact inv.controlLock held
  | block here => exact excluded here rfl held
  | wake here => exact inv.controlLock held
  | exit here settled empty => exact excluded here rfl held
  | dequeue here popped => exact excluded here rfl held
  | run here node => exact inv.controlLock held
  | free here => exact inv.controlLock held
  | _ => contradiction

/- The owner of the lock stays where it holds it. -/
theorem movedOwns (inv : Guarded s) {w : Nat} {p} (here : s.workers[w]? = some p) (q)
    (holds : WorkerPc.holds q = WorkerPc.holds p) {i} (locked : s.lock = some (.worker i)) :
    ∃ r, (s.workers.set w q)[i]? = some r ∧ WorkerPc.holds r = true := by
  obtain ⟨r,there,held⟩ := inv.workerOwns i locked
  by_cases same : i = w
  · subst same
    cases Option.some.inj (here.symm.trans there)
    exact ⟨q,Crew.setSelf here q,holds.trans held⟩
  · exact ⟨r,(List.getElem?_set_ne (Ne.symm same)).trans there,held⟩

theorem workerOwnsStep (inv : Guarded s) (made : Step threadCounts s a t) :
    ∀ i, t.lock = some (.worker i) → ∃ r, t.workers[i]? = some r ∧ WorkerPc.holds r = true := by
  intro i locked
  have awake : s.lock = some (.worker i) → ∃ r, (s.workers.map awakened)[i]? = some r ∧ WorkerPc.holds r = true := by
    intro locked
    obtain ⟨p,there,held⟩ := inv.workerOwns i locked
    refine ⟨awakened p,?_,(awakenedHolds p).trans held⟩
    rw [List.getElem?_map, there]
    rfl
  cases made with
  | create here more =>
    obtain ⟨p,there,held⟩ := inv.workerOwns i locked
    obtain ⟨bound,_⟩ := List.getElem?_eq_some_iff.mp there
    exact ⟨p,(List.getElem?_append_left bound).trans there,held⟩
  | signal here waits => exact movedOwns inv waits .woken rfl locked
  | broadcastFailed here => exact awake locked
  | broadcast here => exact awake locked
  | enter here free =>
    cases Option.some.inj locked
    exact ⟨.testing,Crew.setSelf here _,rfl⟩
  | reenter here free =>
    cases Option.some.inj locked
    exact ⟨.testing,Crew.setSelf here _,rfl⟩
  | sleepy here empty running => exact movedOwns inv here .blocking rfl locked
  | test here settled => exact movedOwns inv here .leaving rfl locked
  | wake here => exact movedOwns inv here .woken rfl locked
  | run here node => exact movedOwns inv here (.freeing _) rfl locked
  | free here => exact movedOwns inv here .entering rfl locked
  | lock here free => cases locked
  | lockLast here free => cases locked
  | unlock here => cases locked
  | unlockLast here => cases locked
  | block here => cases locked
  | exit here settled empty => cases locked
  | dequeue here popped => cases locked
  | _ => exact inv.workerOwns i locked

theorem controlOwnsStep (inv : Guarded s) (made : Step threadCounts s a t) :
    t.lock = some .control → ControlPc.holds t.control = true := by
  intro locked
  have still : s.lock = some .control → ControlPc.holds s.control = true := inv.controlOwns
  cases made with
  | lock here free => rfl
  | lockLast here free => rfl
  | link here => rfl
  | signalNone here nobody => rfl
  | signal here waits => rfl
  | mark here => rfl
  | broadcast here => rfl
  | create here more => exact still locked
  | refused here => exact still locked
  | sleepy here empty running => exact still locked
  | test here settled => exact still locked
  | wake here => exact still locked
  | run here node => exact still locked
  | free here => exact still locked
  | unlock here => cases locked
  | unlockLast here => cases locked
  | enter here free => cases locked
  | reenter here free => cases locked
  | block here => cases locked
  | exit here settled empty => cases locked
  | dequeue here popped => cases locked
  | createFails here more => exact absurd (still locked) (by rw [here]; decide)
  | created here all => exact absurd (still locked) (by rw [here]; decide)
  | add here running fresh => exact absurd (still locked) (by rw [here]; decide)
  | destroy here => exact absurd (still locked) (by rw [here]; decide)
  | broadcastFailed here => exact absurd (still locked) (by rw [here]; decide)
  | join here exited => exact absurd (still locked) (by rw [here]; exact Bool.false_ne_true)
  | joined here all => exact absurd (still locked) (by rw [here]; exact Bool.false_ne_true)
  | release here left => exact absurd (still locked) (by rw [here]; exact Bool.false_ne_true)
  | released here => exact absurd (still locked) (by rw [here]; decide)

theorem closingStep (inv : Guarded s) (made : Step threadCounts s a t) :
    t.shutdown = true ↔ ControlPc.closed t.control = true := by
  have before := inv.closing
  cases made with
  | createFails here more => exact ⟨fun _ => rfl,fun _ => rfl⟩
  | mark here => exact ⟨fun _ => rfl,fun _ => rfl⟩
  | created here all => rw [here] at before; exact before
  | add here running fresh => rw [here] at before; exact before
  | lock here free => rw [here] at before; exact before
  | lockLast here free => rw [here] at before; exact before
  | link here => rw [here] at before; exact before
  | signalNone here nobody => rw [here] at before; exact before
  | signal here waits => rw [here] at before; exact before
  | unlock here => rw [here] at before; exact before
  | unlockLast here => rw [here] at before; exact before
  | destroy here => rw [here] at before; exact before
  | broadcastFailed here => rw [here] at before; exact before
  | broadcast here => rw [here] at before; exact before
  | join here exited => rw [here] at before; exact before
  | @joined failed i here all =>
    rw [here] at before
    cases failed <;> exact before
  | release here left => rw [here] at before; exact before
  | released here => rw [here] at before; exact before
  | _ => exact before

/- A worker that has been joined takes no step. -/
theorem movedJoined (inv : Guarded s) {w : Nat} {p q} (here : s.workers[w]? = some p) (busy : p ≠ .exited) :
    ∀ i < ControlPc.joins (s.workers.set w q).length s.control, (s.workers.set w q)[i]? = some .exited := by
  intro i less
  rw [List.length_set] at less
  have there := inv.joined i less
  have other : w ≠ i := by
    rintro rfl
    exact busy (Option.some.inj (here.symm.trans there))
  rw [List.getElem?_set_ne other]
  exact there

theorem joinedStep (inv : Guarded s) (made : Step threadCounts s a t) :
    ∀ i < ControlPc.joins t.workers.length t.control, t.workers[i]? = some .exited := by
  have before := inv.joined
  cases made with
  | refused here => exact before
  | @join failed k here exited =>
    intro i less
    rw [here] at before
    rcases Nat.lt_succ_iff_lt_or_eq.mp less with earlier | rfl
    · exact before i earlier
    · exact exited
  | @joined failed k here all =>
    intro i less
    rw [here] at before
    have size : s.workers.length ≤ k := List.getElem?_eq_none_iff.mp all
    have least : i < s.workers.length := by cases failed <;> exact less
    exact before i (Nat.lt_of_lt_of_le least size)
  | release here left =>
    rw [here] at before
    exact before
  | released here =>
    rw [here] at before
    exact before
  | create here more =>
    intro i less
    simp only [here] at less
    exact absurd less (Nat.not_lt_zero i)
  | enter here free => exact movedJoined inv here (by simp)
  | reenter here free => exact movedJoined inv here (by simp)
  | sleepy here empty running => exact movedJoined inv here (by simp)
  | test here settled => exact movedJoined inv here (by simp)
  | block here => exact movedJoined inv here (by simp)
  | wake here => exact movedJoined inv here (by simp)
  | exit here settled empty => exact movedJoined inv here (by simp)
  | dequeue here popped => exact movedJoined inv here (by simp)
  | run here node => exact movedJoined inv here (by simp)
  | free here => exact movedJoined inv here (by simp)
  | _ => exact fun i less => absurd less (Nat.not_lt_zero i)

theorem guardedStep (inv : Guarded s) (made : Step threadCounts s a t) : Guarded t :=
  ⟨workerLockStep inv made,controlLockStep inv made,workerOwnsStep inv made,controlOwnsStep inv made,
    closingStep inv made,joinedStep inv made⟩

theorem initialGuarded : Guarded (initial : State F A) := by
  refine ⟨?_,?_,?_,?_,?_,?_⟩
  · exact fun w p there => nomatch there
  · exact fun held => nomatch held
  · exact fun w locked => nomatch locked
  · exact fun locked => nomatch locked
  · exact ⟨(fun settled => nomatch settled),(fun closed => nomatch closed)⟩
  · exact fun i less => absurd less (Nat.not_lt_zero i)

theorem reachGuarded {allowed} (reached : Reach (pool threadCounts) allowed s) : Guarded s := by
  refine reachInvariant ?_ ?_ reached
  · rintro s ⟨_,rfl⟩
    exact initialGuarded
  · intro s a t inv _ made
    exact guardedStep inv (stepSound made)

end

/- The broadcast is over, on either path; on the path of thread_pool_destroy. -/
def ControlPc.issued : ControlPc → Bool
  | .woke => true
  | .joining _ _ => true
  | .releasing _ => true
  | .destroyed => true
  | .failed => true
  | _ => false

def ControlPc.closes : ControlPc → Bool
  | .woke => true
  | .joining failed _ => !failed
  | .releasing _ => true
  | .destroyed => true
  | _ => false

section
variable {F A : Type}

/- A worker sleeps that nobody will wake. -/
def Missed (s : State F A) : Prop :=
  s.shutdown = true ∧ ControlPc.issued s.control = true ∧ .waiting ∈ s.workers

/- When thread_pool_create gives up, no worker stands between a true test and its wait. -/
def Undisturbed (s : State F A) : Action F A → Prop
  | .broadcast => s.control = .flagged → .blocking ∉ s.workers
  | _ => True

instance (s : State F A) (a) : Decidable (Undisturbed s a) := by
  cases a <;> simp only [Undisturbed] <;> infer_instance

def Calm (s : State F A) : Prop := ∀ p ∈ s.workers, p ≠ .waiting ∧ p ≠ .blocking

variable {threadCounts : Int} {s t : State F A} {a : Action F A}

theorem movedCalm (calm : Calm s) {w : Nat} {q : WorkerPc} (awake : q ≠ .waiting ∧ q ≠ .blocking) :
    ∀ p ∈ s.workers.set w q, p ≠ .waiting ∧ p ≠ .blocking :=
  Crew.setAll calm awake

/- After the flag is set every test ends the loop. -/
theorem calmStep (calm : Calm s) (settled : s.shutdown = true) (made : Step threadCounts s a t) : Calm t := by
  cases made with
  | create here more =>
    intro p member
    rcases List.mem_append.mp member with old | new
    · exact calm p old
    · rw [List.mem_singleton.mp new]
      exact ⟨by simp,by simp⟩
  | signal here waits => exact absurd rfl (calm _ (List.mem_of_getElem? waits)).1
  | broadcastFailed here =>
    intro q member
    obtain ⟨p,old,rfl⟩ := List.mem_map.mp member
    have awake := calm p old
    cases p <;> simp_all [awakened]
  | broadcast here =>
    intro q member
    obtain ⟨p,old,rfl⟩ := List.mem_map.mp member
    have awake := calm p old
    cases p <;> simp_all [awakened]
  | enter here free => exact movedCalm calm ⟨by simp,by simp⟩
  | reenter here free => exact movedCalm calm ⟨by simp,by simp⟩
  | sleepy here empty running =>
    rw [settled] at running
    contradiction
  | test here settled => exact movedCalm calm ⟨by simp,by simp⟩
  | block here => exact absurd rfl (calm _ (List.mem_of_getElem? here)).2
  | wake here => exact movedCalm calm ⟨by simp,by simp⟩
  | exit here settled empty => exact movedCalm calm ⟨by simp,by simp⟩
  | dequeue here popped => exact movedCalm calm ⟨by simp,by simp⟩
  | run here node => exact movedCalm calm ⟨by simp,by simp⟩
  | free here => exact movedCalm calm ⟨by simp,by simp⟩
  | _ => exact calm

theorem awakenedCalm (tested : .blocking ∉ s.workers) : ∀ q ∈ s.workers.map awakened, q ≠ .waiting ∧ q ≠ .blocking := by
  intro q member
  obtain ⟨p,old,rfl⟩ := List.mem_map.mp member
  cases p with
  | blocking => exact absurd old tested
  | _ => exact ⟨by simp [awakened],by simp [awakened]⟩

/- Under the lock of the controlling thread no worker stands between its test and its wait. -/
theorem controlTested (inv : Guarded s) (holds : ControlPc.holds s.control = true) : .blocking ∉ s.workers := by
  intro member
  obtain ⟨w,there⟩ := List.mem_iff_getElem?.mp member
  have mine := inv.workerLock w _ there rfl
  rw [inv.controlLock holds] at mine
  cases mine

theorem issuedClosed {pc} (issued : ControlPc.issued pc = true) : ControlPc.closed pc = true := by
  cases pc <;> first | rfl | contradiction

theorem closesIssued {pc} (closes : ControlPc.closes pc = true) : ControlPc.issued pc = true := by
  cases pc <;> first | rfl | contradiction

/- Steps of workers leave the control where it is; of the others only the broadcasts issue anything. -/
theorem issuedStep (made : Step threadCounts s a t) (issued : ControlPc.issued t.control = true) :
    ControlPc.issued s.control = true ∨ (a = .broadcast ∧ t.workers = s.workers.map awakened ∧
      (s.control = .flagged ∨ s.control = .marked)) := by
  by_cases still : t.control = s.control
  · rw [← still]
    exact Or.inl issued
  cases made with
  | broadcastFailed here => exact Or.inr ⟨rfl,rfl,Or.inl here⟩
  | broadcast here => exact Or.inr ⟨rfl,rfl,Or.inr here⟩
  | unlockLast here => exact Or.inl (by rw [here]; rfl)
  | join here exited => exact Or.inl (by rw [here]; rfl)
  | joined here all => exact Or.inl (by rw [here]; rfl)
  | release here left => exact Or.inl (by rw [here]; rfl)
  | released here => exact Or.inl (by rw [here]; rfl)
  | _ => contradiction

/- Past the broadcast nobody sleeps or is about to. -/
theorem heardStep (guarded : Guarded s) (calm : ControlPc.issued s.control = true → Calm s)
    (made : Step threadCounts s a t) (may : Undisturbed s a) : ControlPc.issued t.control = true → Calm t := by
  intro issued
  rcases issuedStep made issued with before | ⟨rfl,workers,flagged | marked⟩
  · exact calmStep (calm before) (guarded.closing.mpr (issuedClosed before)) made
  · unfold Calm
    rw [workers]
    exact awakenedCalm (may flagged)
  · unfold Calm
    rw [workers]
    exact awakenedCalm (controlTested guarded (by rw [marked]; rfl))

/- Where the condition is not met, the next step of a worker is to fall asleep. -/
theorem disturbedMisses (guarded : Guarded s) (made : step threadCounts s a = some t) (breaks : ¬ Undisturbed s a) :
    ∃ w u, step threadCounts t (.worker w .block) = some u ∧ Missed u := by
  cases a with
  | broadcast =>
    simp only [Undisturbed, Classical.not_imp, not_not] at breaks
    obtain ⟨flagged,member⟩ := breaks
    obtain ⟨w,there⟩ := List.mem_iff_getElem?.mp member
    simp only [step, flagged] at made
    cases Option.some.inj made
    have stands : (s.workers.map awakened)[w]? = some .blocking := by
      rw [List.getElem?_map, there]
      rfl
    have settled : s.shutdown = true := guarded.closing.mpr (by rw [flagged]; rfl)
    have sleeps : step threadCounts {s with workers := s.workers.map awakened, control := .joining true 0}
        (.worker w .block) = some (setWorker {s with
          workers := s.workers.map awakened, control := .joining true 0, lock := none} w .waiting) := by
      simp only [step, stands, workerMove]
    exact ⟨w,_,sleeps,settled,rfl,List.mem_of_getElem? (Crew.setSelf stands .waiting)⟩
  | _ => exact absurd trivial breaks

theorem undisturbedHeard (reached : Reach (pool threadCounts) Undisturbed s) : ¬ Missed s := by
  have inv : Guarded s ∧ (ControlPc.issued s.control = true → Calm s) := by
    refine reachInvariant (I := fun s => Guarded s ∧ (ControlPc.issued s.control = true → Calm s)) ?_ ?_ reached
    · rintro s ⟨_,rfl⟩
      exact ⟨initialGuarded,(fun issued => nomatch issued)⟩
    · intro s a t ⟨guarded,calm⟩ may made
      exact ⟨guardedStep guarded (stepSound made),heardStep guarded calm (stepSound made) may⟩
  intro ⟨_,issued,asleep⟩
  exact (inv.2 issued _ asleep).1 rfl

/- The runs in which creation fails at no such moment miss no worker, and each such moment can
leave one asleep. -/
theorem shutdownHeard (F A : Type) (threadCounts : Int) :
    (∀ s : State F A, Reach (pool threadCounts) Undisturbed s → ¬ Missed s) ∧
    (∀ (s t : State F A) a, Reach (pool threadCounts) (fun _ _ => True) s → step threadCounts s a = some t →
      ¬ Undisturbed s a → ∃ u : State F A, Reach (pool threadCounts) (fun _ _ => True) u ∧ Missed u) := by
  refine ⟨fun s reached => undisturbedHeard reached,fun s t a reached made breaks => ?_⟩
  obtain ⟨w,u,sleeps,missed⟩ := disturbedMisses (reachGuarded reached) made breaks
  have later : Reach (pool threadCounts) (fun _ _ => True) t := .next reached trivial made
  have blocks : (pool threadCounts).step t (.worker w .block) = some u := sleeps
  exact ⟨u,.next later trivial blocks,missed⟩

theorem closesStep (made : Step threadCounts s a t) (closes : ControlPc.closes t.control = true) :
    ControlPc.closes s.control = true ∨ (t.workers = s.workers.map awakened ∧ s.control = .marked) := by
  rcases issuedStep made (closesIssued closes) with before | ⟨rfl,workers,flagged | marked⟩
  · left
    by_cases still : t.control = s.control
    · rw [← still]
      exact closes
    cases made with
    | unlockLast here => rw [here]; rfl
    | join here exited =>
      rw [here]
      exact closes
    | @joined failed i here all =>
      rw [here]
      cases failed with
      | true => contradiction
      | false => rfl
    | release here left => rw [here]; rfl
    | released here => rw [here]; rfl
    | broadcastFailed here =>
      rw [here] at before
      contradiction
    | broadcast here =>
      rw [here] at before
      contradiction
    | _ => contradiction
  · cases made with
    | broadcastFailed here => contradiction
    | broadcast here =>
      rw [here] at flagged
      contradiction
  · exact Or.inr ⟨workers,marked⟩

end

theorem initialReach {F A : Type} {threadCounts : Int} (positive : 0 < threadCounts) (allowed) :
    Reach (pool threadCounts) allowed (initial : State F A) :=
  .start ⟨positive,rfl⟩

/- thread_pool_destroy with a worker asleep. -/
def sleeperDestroyed : List (ThreadPool.Action Unit Unit) :=
  [.create,.created,.worker 0 .lock,.worker 0 .test,.worker 0 .block,.destroy,.lock,.mark,.broadcast]

theorem sleeperWakes : ∃ s : State Unit Unit, Reach (pool 1) Undisturbed s ∧ s.workers = [.woken] ∧ ¬ Missed s := by
  have follows : Follows (pool 1) Undisturbed initial sleeperDestroyed := by decide
  obtain ⟨s,reached,woken⟩ := reachSeen (initialReach (by decide) _) State.workers follows (b := [.woken]) (by decide)
  exact ⟨s,reached,woken,(shutdownHeard Unit Unit 1).1 s reached⟩

/- The second thread cannot be created while the first one is about to wait. -/
def creationFails : List (ThreadPool.Action Unit Unit) :=
  [.create,.worker 0 .lock,.worker 0 .test,.createFails,.broadcast,.worker 0 .block]

theorem creationMisses : ∃ s : State Unit Unit, Reach (pool 2) (fun _ _ => True) s ∧ Missed s := by
  have start : Reach (pool 2) (fun _ _ => True) (initial : State Unit Unit) := initialReach (by decide) _
  obtain ⟨s,reached,seen⟩ := reachSeen start (fun s => (s.shutdown,ControlPc.issued s.control,s.workers))
    (followsAll _ creationFails) (b := (true,true,[.waiting])) (by decide)
  obtain ⟨settled,rest⟩ := Prod.mk.inj seen
  obtain ⟨issued,workers⟩ := Prod.mk.inj rest
  refine ⟨s,reached,settled,issued,?_⟩
  rw [workers]
  exact List.mem_singleton_self _

end EpollHttpServer.Shutdown
