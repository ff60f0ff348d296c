import EpollHttpServer.MainThread
import EpollHttpServer.Draining

/-! The main loop of server_run against Server: its text, call by call, is a way of the main thread
through Server, whatever the workers and the clock do beside it. -/
namespace EpollHttpServer.MainLoop
open CString Server Runs Calls MainThread

section
variable {config : ServerConfig} {own : Nat → Bool} {s t : State} {a : Action}

/- A notice never names a descriptor of the main thread itself. -/
structure Foreign (own : Nat → Bool) (s : State) : Prop where
  noticed : ∀ n, n ∈ s.armed ∨ n ∈ Ownership.mainNotices s.main → own n.fd = false
  registered : ∀ fd id, s.registered fd = some id → own fd = false

theorem foreignKept (inv : Foreign own s) (armed : ∀ n ∈ t.armed, n ∈ s.armed)
    (main : ∀ n ∈ Ownership.mainNotices t.main, n ∈ Ownership.mainNotices s.main)
    (registered : ∀ fd id, t.registered fd = some id → s.registered fd = some id) : Foreign own t := by
  refine ⟨?_,fun fd id there => inv.registered fd id (registered fd id there)⟩
  intro n member
  exact inv.noticed n (member.imp (armed n) (main n))

theorem foreignShut (inv : Foreign own s) (fd : Nat)
    (armed : t.armed = s.armed.filter (fun n => n.fd ≠ fd)) (registered : t.registered = Function.update s.registered fd none)
    (main : ∀ n ∈ Ownership.mainNotices t.main, n ∈ Ownership.mainNotices s.main) : Foreign own t := by
  refine foreignKept inv ?_ main ?_
  · intro n member
    rw [armed] at member
    exact List.mem_of_mem_filter member
  · intro k id there
    rw [registered] at there
    exact Ownership.updateOpen there

theorem foreignRearmed (inv : Foreign own s) (fd : Nat) (armed : t.armed = rearmed s.registered s.armed fd)
    (registered : t.registered = s.registered) (main : t.main = s.main) : Foreign own t := by
  refine ⟨?_,fun k id there => inv.registered k id (by rw [← registered]; exact there)⟩
  intro n member
  rw [armed, main] at member
  unfold rearmed at member
  split at member
  · exact inv.noticed n member
  · rename_i id there
    split at member
    · exact inv.noticed n member
    · rcases member with late | early
      · rcases List.mem_append.mp late with old | new
        · exact inv.noticed n (Or.inl old)
        · rw [List.mem_singleton.mp new]
          exact inv.registered fd id there
      · exact inv.noticed n (Or.inr early)

theorem foreignStep (inv : Foreign own s) (made : Step config own s a t) : Foreign own t := by
  cases made with
  | quiet move =>
    refine foreignKept inv (fun _ member => member) ?_ (fun _ _ there => there)
    dsimp only
    rw [Ownership.quietNotices move]
    exact fun _ member => member
  | expire here =>
    exact foreignShut inv _ rfl rfl (by simp [Ownership.mainNotices])
  | scanEnds => exact foreignKept inv (fun _ member => member) (by simp [Ownership.mainNotices]) (fun _ _ there => there)
  | epollWait here distinct ready =>
    refine ⟨?_,inv.registered⟩
    rintro n (armed | taken)
    · exact inv.noticed n (Or.inl (List.diff_subset _ _ armed))
    · exact inv.noticed n (Or.inl (ready n taken))
  | dispatch here =>
    refine foreignKept inv (fun _ member => member) ?_ (fun _ _ there => there)
    intro n member
    rw [here]
    exact List.mem_cons_of_mem _ member
  | refused here =>
    refine foreignKept inv (fun _ member => member) ?_ (fun _ _ there => there)
    intro n member
    rw [here]
    exact List.mem_cons_of_mem _ member
  | dispatchFails here =>
    refine foreignShut inv _ rfl rfl ?_
    intro n member
    rw [here]
    exact List.mem_cons_of_mem _ member
  | accept here closed foreign =>
    refine ⟨?_,inv.registered⟩
    rintro n (armed | mine)
    · exact inv.noticed n (Or.inl armed)
    · rcases List.mem_cons.mp mine with rfl | later
      · exact foreign
      · exact inv.noticed n (Or.inr (by rw [here]; exact later))
  | reject here =>
    refine foreignKept inv (fun _ member => member) ?_ (fun _ _ there => there)
    intro n member
    rw [here]
    exact List.mem_cons_of_mem _ member
  | prepare here => exact foreignKept inv (fun _ member => member) (by rw [here]; exact fun _ member => member) (fun _ _ there => there)
  | insert here => exact foreignKept inv (fun _ member => member) (by rw [here]; exact fun _ member => member) (fun _ _ there => there)
  | register here =>
    rename_i n rest isOpen
    have mine : own n.fd = false := inv.noticed n (Or.inr (by rw [here]; exact List.mem_cons_self))
    refine ⟨?_,?_⟩
    · rintro m (armed | later)
      · rcases List.mem_append.mp armed with old | new
        · exact inv.noticed m (Or.inl old)
        · rw [List.mem_singleton.mp new]
          exact mine
      · exact inv.noticed m (Or.inr (by rw [here]; exact List.mem_cons_of_mem _ later))
    · intro fd id there
      dsimp only at there
      by_cases same : fd = n.fd
      · rw [same]
        exact mine
      · exact inv.registered fd id (by rwa [Function.update_of_ne same] at there)
  | registerFails here =>
    refine foreignShut inv _ rfl rfl ?_
    intro n member
    rw [here]
    exact List.mem_cons_of_mem _ member
  | cleanup => exact foreignKept inv (by simp) (by simp [Ownership.mainNotices]) (by simp)
  | rearm => exact foreignRearmed inv _ rfl rfl rfl
  | keep => exact foreignRearmed inv _ rfl rfl rfl
  | close => exact foreignShut inv _ rfl rfl (fun _ member => member)
  | _ => exact foreignKept inv (fun _ member => member) (fun _ member => member) (fun _ _ there => there)

theorem reachForeign {allowed} (reached : Reach (server config own) allowed s) : Foreign own s := by
  refine reachInvariant ?_ ?_ reached
  · rintro s ⟨now,rfl⟩
    exact ⟨by simp [initial, Ownership.mainNotices],by simp [initial]⟩
  · intro s a t inv _ made
    exact foreignStep inv (stepSound made)

end

section
variable {config : ServerConfig} {own : Nat → Bool} {s t : State} {a : Action} {mine : Action → Bool}

theorem goesInvariant {I : State → Prop}
    (keeps : ∀ u a w, I u → background a = true ∨ mine a = true → Step config own u a w → I w)
    (goes : Goes config own mine s t) (holds : I s) : I t := by
  obtain ⟨as,each,ran⟩ := goes
  refine runInvariant (I := I) ?_ holds (followsEach each s) ran
  intro u a w before may made
  exact keeps u a w before may (stepSound made)

theorem goesReach (reached : Reach (server config own) (fun _ _ => True) s) (goes : Goes config own mine s t) :
    Reach (server config own) (fun _ _ => True) t := by
  obtain ⟨as,_,ran⟩ := goes
  exact reachRun reached (followsAll s as) ran

/- The main thread stands still while the others go on. -/
theorem backgroundMain (beside : background a = true) (made : Step config own s a t) :
    t.main = s.main ∧ t.lastTimeoutCheck = s.lastTimeoutCheck := by
  cases made with
  | quiet move => cases move <;> contradiction
  | tick => exact ⟨rfl,rfl⟩
  | dequeue => exact ⟨rfl,rfl⟩
  | lookupNone => exact ⟨rfl,rfl⟩
  | lookup => exact ⟨rfl,rfl⟩
  | stamp => exact ⟨rfl,rfl⟩
  | serve => exact ⟨rfl,rfl⟩
  | rearm => exact ⟨rfl,rfl⟩
  | keep => exact ⟨rfl,rfl⟩
  | closeNone => exact ⟨rfl,rfl⟩
  | close => exact ⟨rfl,rfl⟩
  | vacate => exact ⟨rfl,rfl⟩
  | _ => contradiction

theorem waitingKept (goes : Goes config own (fun _ => false) s t) :
    t.main = s.main ∧ t.lastTimeoutCheck = s.lastTimeoutCheck := by
  refine goesInvariant (I := fun u => u.main = s.main ∧ u.lastTimeoutCheck = s.lastTimeoutCheck) ?_ goes ⟨rfl,rfl⟩
  intro u a w holds may made
  have still := backgroundMain (may.resolve_right (by simp)) made
  exact ⟨still.1.trans holds.1,still.2.trans holds.2⟩

/- Only the end of the scan writes last_timeout_check. -/
theorem checkedKept (other : a ≠ .scan) (made : Step config own s a t) : t.lastTimeoutCheck = s.lastTimeoutCheck := by
  cases made <;> first | rfl | contradiction

theorem goesChecked (other : mine .scan = false) (goes : Goes config own mine s t) :
    t.lastTimeoutCheck = s.lastTimeoutCheck := by
  refine goesInvariant (I := fun u => u.lastTimeoutCheck = s.lastTimeoutCheck) ?_ goes rfl
  intro u a w holds may made
  refine (checkedKept ?_ made).trans holds
  rintro rfl
  rcases may with beside | own
  · contradiction
  · rw [other] at own
    contradiction

/- epoll_handler_check_timeout remembers the time it began with until last_timeout_check takes it. -/
def Checking (since : Int) (s : State) : Prop :=
  match s.main with
  | .checking began | .locking began _ | .scanning began _ _ => began = since
  | .wait => s.lastTimeoutCheck = since
  | _ => False

theorem checkingStep {since : Int} (stands : Checking since s) (may : background a = true ∨ checks a = true)
    (made : Step config own s a t) : Checking since t := by
  rcases may with beside | checks
  · have still := backgroundMain beside made
    unfold Checking
    rw [still.1, still.2]
    exact stands
  · unfold Checking at stands
    cases made with
    | quiet move =>
      cases move with
      | readClock here =>
        rw [here] at stands
        exact stands
      | lock here =>
        rw [here] at stands
        exact stands
      | skip here =>
        rw [here] at stands
        exact stands
      | _ => contradiction
    | scanEnds here =>
      rw [here] at stands
      exact stands
    | expire here =>
      rw [here] at stands
      exact stands
    | _ => contradiction

theorem checkingEnds {since : Int} (here : s.main = .checking since) (goes : Goes config own checks s t)
    (ends : t.main = .wait) : t.lastTimeoutCheck = since := by
  have begun : Checking since s := by simp only [Checking, here]
  have stands : Checking since t :=
    goesInvariant (fun u a w holds may made => checkingStep holds may made) goes begun
  simpa only [Checking, ends] using stands

theorem goesRefl : Goes config own mine s s := ⟨[],by simp,rfl⟩

theorem goesTrans {u : State} (first : Goes config own mine s t) (second : Goes config own mine t u) :
    Goes config own mine s u := by
  obtain ⟨as,each,ran⟩ := first
  obtain ⟨bs,others,went⟩ := second
  refine ⟨as ++ bs,?_,by rw [runAppend ran]; exact went⟩
  intro a member
  exact (List.mem_append.mp member).elim (each a) (others a)

theorem goesOne (may : background a = true ∨ mine a = true) (made : step config own s a = some t) :
    Goes config own mine s t := by
  refine ⟨[a],?_,?_⟩
  · intro b member
    cases List.mem_singleton.mp member
    exact may
  · have moves : (server config own).step s a = some t := made
    simp only [run, moves]

theorem reachNext (reached : Reach (server config own) (fun _ _ => True) s) (made : step config own s a = some t) :
    Reach (server config own) (fun _ _ => True) t := .next reached trivial made

/- Left to themselves the workers come to rest, the main thread standing where it stands. -/
theorem comesToRest (reached : Reach (server config own) (fun _ _ => True) s) (outside : s.main.locked = false) :
    ∃ t, Goes config own mine s t ∧ t.main = s.main ∧ t.queue = [] ∧ ∀ w ∈ t.workers, w = .idle := by
  induction left : Draining.workLeft s using Nat.strong_induction_on generalizing s with
  | h n ih =>
    by_cases rests : Draining.Rests config own s
    · have manned : 0 < s.workers.length := by
        rw [Draining.crewCount reached]
        exact Draining.crewPositive config
      exact ⟨s,goesRefl,rfl,Draining.restDone rests outside manned⟩
    · unfold Draining.Rests at rests
      push Not at rests
      obtain ⟨w,turn,moves⟩ := rests
      obtain ⟨u,made⟩ := Option.ne_none_iff_exists'.mp moves
      have still := (backgroundMain rfl (stepSound made)).1
      have less := Draining.workFalls rfl (stepSound made)
      obtain ⟨t,goes,main,done⟩ := ih _ (by omega) (reachNext reached made) (by rw [still]; exact outside) rfl
      exact ⟨t,goesTrans (goesOne (Or.inl rfl) made) goes,main.trans still,done⟩

/- The scan takes every slot in turn and comes back to the head of the loop. -/
theorem scanReturns {since now : Int} {slot : Nat} (here : s.main = .scanning since now slot) :
    ∃ t, Goes config own checks s t ∧ t.main = .wait := by
  induction left : maxEvents - slot generalizing s slot with
  | zero =>
    refine ⟨{s with main := .wait, lastTimeoutCheck := since},goesOne (a := .scan) (Or.inr rfl) ?_,rfl⟩
    simp only [step, scan, here]
    rw [if_neg (by omega)]
  | succ n ih =>
    have next : ∃ u, step config own s .scan = some u ∧ u.main = .scanning since now (slot+1) := by
      simp only [step, scan, here]
      rw [if_pos (by omega)]
      split
      · exact ⟨_,rfl,rfl⟩
      split
      · exact ⟨_,rfl,rfl⟩
      · exact ⟨_,rfl,rfl⟩
    obtain ⟨u,made,there⟩ := next
    obtain ⟨t,goes,ends⟩ := ih there (by omega)
    exact ⟨t,goesTrans (goesOne (a := .scan) (Or.inr rfl) made) goes,ends⟩

theorem checkReturns {since : Int} (reached : Reach (server config own) (fun _ _ => True) s)
    (here : s.main = .checking since) : ∃ t, Goes config own checks s t ∧ t.main = .wait := by
  have reads : step config own s .readClock = some {s with main := .locking since s.clock} := by
    simp only [step, here]
  obtain ⟨u,goes,main,empty,idle⟩ := @comesToRest config own _ checks (reachNext reached reads) rfl
  have free : MutexFree u := by
    refine ⟨by rw [main]; rfl,?_⟩
    intro p member
    rw [idle p member]
    rfl
  have locks : step config own u .lock = some {u with main := .scanning since s.clock 0} := by
    simp only [step, main, if_pos free]
  obtain ⟨t,scans,ends⟩ := @scanReturns config own {u with main := .scanning since s.clock 0} since s.clock 0 rfl
  exact ⟨t,goesTrans (goesTrans (goesOne (a := .readClock) (Or.inr rfl) reads) goes)
    (goesTrans (goesOne (a := .lock) (Or.inr rfl) locks) scans),ends⟩

/- The cleanup of a pool at rest; nothing but the clock moves beside it. -/
def Rested (config : ServerConfig) (own : Nat → Bool) (s : State) : Prop :=
  Reach (server config own) (fun _ _ => True) s ∧ s.queue = [] ∧ (∀ p ∈ s.workers, p = .idle) ∧
  (s.main = .draining ∨ Draining.Stopped s)

theorem restedStep (rested : Rested config own s) (may : background a = true ∨ cleans a = true)
    (made : step config own s a = some t) : Rested config own t := by
  obtain ⟨reached,empty,idle,place⟩ := rested
  have later : Reach (server config own) (fun _ _ => True) t := .next reached trivial made
  cases a with
  | tick seconds =>
    cases Option.some.inj made
    refine ⟨later,empty,idle,place.imp_right ?_⟩
    exact fun stopped => ⟨stopped.main,stopped.connections,stopped.opened,stopped.registered,stopped.armed,stopped.queue⟩
  | worker w turn =>
    rw [Draining.idleRests empty idle w turn] at made
    contradiction
  | cleanup =>
    have draining : s.main = .draining := by
      rcases place with draining | stopped
      · exact draining
      · simp only [step, stopped.main] at made
        contradiction
    obtain ⟨u,cleaned,stopped⟩ := Draining.cleaned reached draining empty idle
    cases Option.some.inj (made.symm.trans cleaned)
    have same : t.workers = s.workers := by
      cases stepSound made with
      | quiet move => cases move
      | cleanup => rfl
    exact ⟨later,stopped.queue,by rw [same]; exact idle,Or.inr stopped⟩
  | _ => simp [background, cleans] at may

theorem cleanedStopped (rested : Rested config own s) (goes : Goes config own cleans s t) (ends : t.main = .stopped) :
    Draining.Stopped t := by
  obtain ⟨as,each,ran⟩ := goes
  have still : Rested config own t :=
    runInvariant (I := Rested config own) (fun u a w holds may made => restedStep holds may made) rested
      (followsEach each s) ran
  rcases still.2.2.2 with draining | stopped
  · rw [ends] at draining
    contradiction
  · exact stopped

end

/- What holds wherever the main loop makes a call. -/
structure Serves (config : ServerConfig) (epollFd listenFd : Nat) (p : Process) (own : Nat → Bool) (s : State) : Prop where
  signals : p.signals = true
  configured : p.config = some config
  pool : p.pool ≠ none
  watching : Watching p epollFd listenFd
  serving : p.serving = some ⟨own,s⟩
  reached : Reach (server config own) (fun _ _ => True) s
  listens : own listenFd = true

section Loop
variable {config : ServerConfig} {epollFd listenFd : Nat} {p q : Process} {own : Nat → Bool} {s : State}

theorem movedOnly (configured : p.config = some config) (held : p.serving = some ⟨own,s⟩) {mine ends}
    (made : moved p mine ends q) :
    ∃ t, Goes config own mine s t ∧ ends s t ∧ q = {p with serving := some ⟨own,t⟩} := by
  obtain ⟨used,v,t,configured',held',goes,ended,rfl⟩ := made
  cases Option.some.inj (configured.symm.trans configured')
  cases Option.some.inj (held.symm.trans held')
  exact ⟨t,goes,ended,rfl⟩

theorem servesMoved (serves : Serves config epollFd listenFd p own s) {mine ends} (made : moved p mine ends q) :
    ∃ t, Goes config own mine s t ∧ ends s t ∧ Serves config epollFd listenFd q own t ∧
      q = {p with serving := some ⟨own,t⟩} := by
  obtain ⟨t,goes,ended,rfl⟩ := movedOnly serves.configured serves.serving made
  exact ⟨t,goes,ended,⟨serves.signals,serves.configured,serves.pool,serves.watching,rfl,goesReach serves.reached goes,
    serves.listens⟩,rfl⟩

/- A turn of the loop changes the server alone. -/
def Goal (config : ServerConfig) (epollFd listenFd : Nat) (p : Process) (own : Nat → Bool) (ends : State → Prop)
    (q : Process) : Prop :=
  ∃ t, Serves config epollFd listenFd q own t ∧ q = {p with serving := some ⟨own,t⟩} ∧ ends t

theorem goalAfter {ends : State → Prop} {t : State} (same : q = {p with serving := some ⟨own,t⟩}) {r : Process}
    (goal : Goal config epollFd listenFd q own ends r) : Goal config epollFd listenFd p own ends r := by
  obtain ⟨u,serves,rfl,ended⟩ := goal
  exact ⟨u,serves,by rw [same],ended⟩

theorem handledMeets {mine : Action → Bool} (other : mine .scan = false) {event : Event} {rest : List Event}
    (serves : Serves config epollFd listenFd p own s) (here : s.main = .batch (event::rest)) (moves : moved p mine handled q) :
    ∃ t, Serves config epollFd listenFd q own t ∧ q = {p with serving := some ⟨own,t⟩} ∧ t.main = .batch rest ∧
      t.lastTimeoutCheck = s.lastTimeoutCheck := by
  obtain ⟨t,goes,⟨head,left,before,after⟩,later,same⟩ := servesMoved serves moves
  rw [here] at before
  cases before
  exact ⟨t,later,same,after,goesChecked other goes⟩

/- The event of the listening socket is told apart by its descriptor. -/
theorem eventsMeets {events : List Event} (serves : Serves config epollFd listenFd p own s)
    (here : s.main = .batch events) :
    Meets process (serveEvents epollFd listenFd (events.map (eventFd listenFd))) p
      (fun _ => Goal config epollFd listenFd p own (fun t => t.main = .batch [] ∧ t.lastTimeoutCheck = s.lastTimeoutCheck)) := by
  induction events generalizing p s with
  | nil => exact ⟨s,serves,by rw [← serves.serving],here,rfl⟩
  | cons event rest ih =>
    have goOn {mine} (other : mine .scan = false) {q : Process} (moves : moved p mine handled q) :
        Meets process (serveEvents epollFd listenFd (rest.map (eventFd listenFd))) q (fun _ =>
          Goal config epollFd listenFd p own (fun t => t.main = .batch [] ∧ t.lastTimeoutCheck = s.lastTimeoutCheck)) := by
      obtain ⟨t,later,same,after,checked⟩ := handledMeets other serves here moves
      refine meetsMono (ih later after) ?_
      intro _ r goal
      obtain ⟨u,final,unchanged,ended,kept⟩ := goalAfter same goal
      exact ⟨u,final,unchanged,ended,kept.trans checked⟩
    rw [List.map_cons, serveEvents]
    cases event with
    | incoming =>
      rw [eventFd, if_pos rfl, meetsBind]
      refine meetsAsk.mpr ⟨⟨serves.watching,⟨_,serves.serving,rest,here⟩⟩,?_⟩
      exact fun _ q made => @goOn accepts rfl q made
    | ready n =>
      have foreign : n.fd ≠ listenFd := by
        rintro rfl
        have away := (reachForeign serves.reached).noticed n (Or.inr (by rw [here]; exact List.mem_cons_self))
        rw [serves.listens] at away
        contradiction
      rw [eventFd, if_neg foreign, meetsBind]
      refine meetsAsk.mpr ⟨⟨⟨listenFd,serves.watching⟩,serves.pool,⟨_,serves.serving,n,rest,here,rfl⟩⟩,?_⟩
      exact fun _ q made => @goOn dispatches rfl q made

theorem timeMeets (serves : Serves config epollFd listenFd p own s) (here : s.main = .batch [])
    {post : Int → Process → Prop}
    (early : ∀ now t, now - s.lastTimeoutCheck < 1 → t.main = .wait → t.lastTimeoutCheck = s.lastTimeoutCheck →
      Serves config epollFd listenFd {p with serving := some ⟨own,t⟩} own t → post now {p with serving := some ⟨own,t⟩})
    (due : ∀ now t, now - s.lastTimeoutCheck ≥ 1 → t.main = .checking now →
      Serves config epollFd listenFd {p with serving := some ⟨own,t⟩} own t → post now {p with serving := some ⟨own,t⟩}) :
    Meets process time p post := by
  refine meetsAsk.mpr ⟨⟨_,serves.serving,here⟩,?_⟩
  rintro now q ⟨used,v,u,t,configured,held,goes,rfl,made,rfl⟩
  cases Option.some.inj (serves.configured.symm.trans configured)
  cases Option.some.inj (serves.serving.symm.trans held)
  obtain ⟨still,checked⟩ := waitingKept goes
  dsimp only at still checked made ⊢
  have later : Serves config epollFd listenFd {p with serving := some ⟨own,t⟩} own t :=
    ⟨serves.signals,serves.configured,serves.pool,serves.watching,rfl,reachNext (goesReach serves.reached goes) made,
      serves.listens⟩
  rw [here] at still
  simp only [step, still] at made
  rw [checked] at made
  split at made
  · rename_i passed
    cases Option.some.inj made
    exact due u.clock _ passed rfl later
  · rename_i short
    cases Option.some.inj made
    exact early u.clock _ (by omega) rfl rfl later

/- One turn of the main loop is one way round for the main thread, and the two agree on the last check. -/
theorem loopMeets (turns : Nat) (serves : Serves config epollFd listenFd p own s) (here : s.main = .wait) :
    Meets process (serveLoop epollFd listenFd turns s.lastTimeoutCheck) p
      (fun _ => Goal config epollFd listenFd p own (fun t => t.main = .wait)) := by
  induction turns generalizing p s with
  | zero => exact ⟨s,serves,by rw [← serves.serving],here⟩
  | succ turns ih =>
    have goOn {q t} (later : Serves config epollFd listenFd q own t) (rests : t.main = .wait)
        (same : q = {p with serving := some ⟨own,t⟩}) : Meets process (serveLoop epollFd listenFd turns t.lastTimeoutCheck) q
          (fun _ => Goal config epollFd listenFd p own (fun t => t.main = .wait)) :=
      meetsMono (ih later rests) (fun _ _ goal => goalAfter same goal)
    rw [serveLoop, meetsBind]
    refine meetsAsk.mpr ⟨serves.signals,?_⟩
    intro goesOn q same
    change q = p at same
    subst q
    cases goesOn with
    | false => exact ⟨s,serves,by rw [← serves.serving],here⟩
    | true =>
      simp only [Bool.not_true, Bool.false_eq_true, if_false, meetsBind]
      refine meetsAsk.mpr ⟨⟨⟨listenFd,serves.watching⟩,_,serves.serving,here⟩,?_⟩
      intro answer q made
      cases answer with
      | interrupted =>
        have moves : moved p (fun _ => false) anywhere q := made
        obtain ⟨t,goes,_,later,same⟩ := servesMoved serves moves
        obtain ⟨still,checked⟩ := waitingKept goes
        rw [← checked]
        exact goOn later (still.trans here) same
      | failed =>
        have moves : moved p (fun _ => false) anywhere q := made
        obtain ⟨t,goes,_,later,same⟩ := servesMoved serves moves
        exact ⟨t,later,same,(waitingKept goes).1.trans here⟩
      | events fds =>
        obtain ⟨found,watched,moves⟩ := made
        cases serves.watching.1.symm.trans watched
        obtain ⟨t,goes,⟨events,batch,rfl⟩,later,same⟩ := servesMoved serves moves
        have checked := goesChecked rfl goes
        simp only [meetsBind]
        refine meetsMono (eventsMeets later batch) ?_
        rintro _ r ⟨u,served,again,done,kept⟩
        refine timeMeets served done ?_ ?_
        · intro now w short rests last final
          rw [if_neg (by omega), ← checked, ← kept, ← last]
          exact goOn final rests (by rw [again, same])
        · intro now w passed began final
          rw [if_pos (by omega), meetsBind]
          refine meetsAsk.mpr ⟨⟨⟨listenFd,final.watching⟩,_,final.serving,now,began⟩,?_⟩
          intro _ o made
          have moves : moved {r with serving := some ⟨own,w⟩} checks rejoined o := made
          obtain ⟨x,went,back,latest,so⟩ := servesMoved final moves
          have last := checkingEnds began went back
          rw [← last]
          exact goOn latest back (by rw [so, again, same])

end Loop

end EpollHttpServer.MainLoop
