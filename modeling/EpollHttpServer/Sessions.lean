import EpollHttpServer.ConnectionTable
import EpollHttpServer.IdleTimeout
import EpollHttpServer.CleanReuse
import EpollHttpServer.Lib.Family
import EpollHttpServer.Lib.Simulation

/-! The server as a family of sessions, one for each connection and each alone with its client. While
accept returns no descriptor that is still carried, what the workers, the scan and the other connections
do in between is not seen in what a connection answers. -/
namespace EpollHttpServer.Sessions
open CString FileSystem Framing Worker CleanReuse Server Ownership ConnectionTable IdleTimeout Runs Simulation Family

structure Session where
  conn : ClientConnection
  live : Bool

/- A task and what the client sees of it. -/
abbrev Label := Task × (Bytes × Ending)

def sessionStep (config : ServerConfig) (x : Session) (l : Label) : Option Session :=
  if x.live = true ∧ outcome (exchange config x.conn l.1) = l.2 then
    some ⟨(exchange config x.conn l.1).conn,decide ((exchange config x.conn l.1).ending ≠ .closed)⟩
  else none

/- From accept on; descriptor and time. -/
def accepted : Nat × Int → Session := fun i => ⟨acceptedConnection i.1 i.2,true⟩

def session (config : ServerConfig) : System Session Label where
  start := fun x => ∃ i, x = accepted i
  step := sessionStep config

def sessions (config : ServerConfig) : System (ConnId → Option Session) (Move ConnId (Nat × Int) Label) :=
  family (session config) accepted

/- The task that a worker is about to do; its time is the one the connection was stamped with. -/
def taskOf (s : State) (id : ConnId) (env : Environment) (world : World) : Task :=
  ⟨{env with now := (s.heap id).lastActive},world⟩

def served (config : ServerConfig) (s : State) (env : Environment) (world : World) :
    WorkerPc → Option (Move ConnId (Nat × Int) Label)
  | .holding .running _ id =>
    some (.moves id (taskOf s id env world,outcome (Worker.serve env config world (s.heap id))))
  | _ => none

/- A connection is there once its record is filled in, and moves when a task has read, answered and sent. -/
def view (config : ServerConfig) (s : State) : Action → Option (Move ConnId (Nat × Int) Label)
  | .prepare => match s.main with
    | .accepted n _ => some (.opens n.origin (n.fd,s.clock))
    | _ => none
  | .worker w (.serve env world) => (s.workers[w]?).bind (served config s env world)
  | _ => none

section
variable {config : ServerConfig}

theorem deadSession {conn : ClientConnection} {ls : List Label} {y} (ran : run (session config) ⟨conn,false⟩ ls = some y) :
    ls = [] := by
  cases ls with
  | nil => rfl
  | cons l ls =>
    simp only [run, session, sessionStep, Bool.false_eq_true, false_and, if_false] at ran
    contradiction

/- A run of a session is the history of a connection that is served alone. -/
theorem sessionExchanges {conn : ClientConnection} {ls : List Label} {y} (ran : run (session config) ⟨conn,true⟩ ls = some y) :
    ls.map Prod.snd = (exchanges config conn (ls.map Prod.fst)).map outcome := by
  induction ls generalizing conn with
  | nil => rfl
  | cons l ls ih =>
    simp only [run] at ran
    split at ran <;> try contradiction
    rename_i x made
    simp only [session, sessionStep] at made
    split at made <;> try contradiction
    rename_i shown
    cases Option.some.inj made
    simp only [List.map_cons, exchanges]
    by_cases ends : (exchange config conn l.1).ending = .closed
    · rw [decide_eq_false (not_not.mpr ends)] at ran
      rw [if_pos ends, deadSession ran, ← shown.2]
      rfl
    · rw [decide_eq_true ends] at ran
      rw [if_neg ends, List.map_cons, ih ran, ← shown.2]

end

/- The record but for what the lookup, the stamp and the last branch write. -/
def settled (c : ClientConnection) : ClientConnection := {c with inUse := false, lastActive := 0}

def Stage.live : Stage → Bool
  | .closing => false
  | .closed => false
  | _ => true

/- A worker at a connection: the session is there, and over exactly when the worker is about to close. -/
def Held (u : ConnId → Option Session) (heap : ConnId → ClientConnection) (stage : Stage) (n : Notice) (id : ConnId) : Prop :=
  ∃ x, u id = some x ∧ x.conn.fd = n.fd ∧ x.live = Stage.live stage ∧
    (Stage.inUse stage = true → (heap id).inUse = true)

/- About to close the connection, or in the middle of it. -/
def Finishing (id : ConnId) : WorkerPc → Prop
  | .holding stage _ c => Stage.live stage = false ∧ c = id
  | _ => False

structure Mirrored (s : State) (u : ConnId → Option Session) : Prop where
  fresh : ∀ id, s.next ≤ id → u id = none
  accepted : ∀ n rest, s.main = .accepted n rest → u n.origin = none
  prepared : ∀ n rest, s.main = .prepared n rest → ∃ x, u n.origin = some x ∧ x.conn.fd = n.fd ∧ x.live = true
  heap : ∀ id x, u id = some x → x.live = true → settled x.conn = settled (s.heap id)
  listed : ∀ fd id, s.connections fd = some id →
    ∃ x, u id = some x ∧ x.conn.fd = fd ∧ (x.live = false → ∃ p ∈ s.workers, Finishing id p)
  held : ∀ (w : Nat) stage n id, s.workers[w]? = some (.holding stage n id) → Held u s.heap stage n id

section
variable {config : ServerConfig} {own : Nat → Bool} {s t : State} {a : Action} {u : ConnId → Option Session}

/- The main thread moves and leaves the connections as they are, or takes some out of the table. -/
theorem mirroredMain (same : Mirrored s u) (workers : t.workers = s.workers) (heap : t.heap = s.heap)
    (next : s.next ≤ t.next) (listed : ∀ fd id, t.connections fd = some id → s.connections fd = some id)
    (main : unlisted t.main = none) : Mirrored t u := by
  refine ⟨fun id above => same.fresh id (le_trans next above),fun n rest here => ?_,fun n rest here => ?_,?_,?_,?_⟩
  · rw [here] at main
    contradiction
  · rw [here] at main
    contradiction
  · rw [heap]
    exact same.heap
  · intro fd id there
    rw [workers]
    exact same.listed fd id (listed fd id there)
  · rw [workers, heap]
    exact same.held

/- Two workers that carry one connection are one worker. -/
theorem holdersApart (inv : Tracked s) {v w : Nat} {p q} (differ : v ≠ w) (atV : s.workers[v]? = some p)
    (atW : s.workers[w]? = some q) {id : ConnId} (mine : id ∈ workerHolders p) : id ∉ workerHolders q := by
  have pairwise := (List.nodup_flatMap.mp (workersNodup inv)).2
  obtain ⟨boundV,sameV⟩ := List.getElem?_eq_some_iff.mp atV
  obtain ⟨boundW,sameW⟩ := List.getElem?_eq_some_iff.mp atW
  intro other
  rw [← sameV] at mine
  rw [← sameW] at other
  rcases Nat.lt_or_gt_of_ne differ with less | more
  · exact List.pairwise_iff_getElem.mp pairwise v w boundV boundW less mine other
  · exact List.pairwise_iff_getElem.mp pairwise w v boundW boundV more other mine

theorem heldMoved (inv : Tracked s) (same : Mirrored s u) {w : Nat} {p q} {v : ConnId → Option Session}
    {heap : ConnId → ClientConnection} (here : s.workers[w]? = some p)
    (others : ∀ id, WorkerPc.pointer p ≠ some id → v id = u id ∧ (heap id = s.heap id ∨ (heap id).inUse = true))
    (mine : ∀ stage n id, q = .holding stage n id → Held v heap stage n id) :
    ∀ (k : Nat) stage n id, (s.workers.set w q)[k]? = some (.holding stage n id) → Held v heap stage n id := by
  intro k stage n id there
  rcases Crew.setCases there with ⟨_,moved⟩ | ⟨differ,old⟩
  · exact mine stage n id moved.symm
  · have apart : WorkerPc.pointer p ≠ some id := fun pointer =>
      (trackedExclusive inv).apart w k _ _ id (Ne.symm differ) here old pointer rfl
    obtain ⟨session,wrote⟩ := others id apart
    obtain ⟨x,there,fd,live,flag⟩ := same.held k stage n id old
    refine ⟨x,session.trans there,fd,live,fun marked => ?_⟩
    rcases wrote with kept | raised
    · rw [kept]
      exact flag marked
    · exact raised

/- What is listed stays listed only while the worker that is to close it is at it. -/
theorem listedMoved (same : Mirrored s u) {w : Nat} {p q} {connections : Nat → Option ConnId}
    (here : s.workers[w]? = some p) (before : ∀ fd id, connections fd = some id → s.connections fd = some id)
    (stays : ∀ fd id x, connections fd = some id → u id = some x → x.conn.fd = fd → Finishing id p → Finishing id q) :
    ∀ fd id, connections fd = some id →
      ∃ x, u id = some x ∧ x.conn.fd = fd ∧ (x.live = false → ∃ p ∈ s.workers.set w q, Finishing id p) := by
  intro fd id listed
  obtain ⟨x,there,named,closing⟩ := same.listed fd id (before fd id listed)
  refine ⟨x,there,named,fun spent => ?_⟩
  obtain ⟨f,member,finishing⟩ := closing spent
  obtain ⟨front,back,whole,replaced⟩ := Crew.split here
  rw [replaced]
  rw [whole] at member
  rcases List.mem_append.mp member with left | right
  · exact ⟨f,List.mem_append_left _ left,finishing⟩
  · rcases List.mem_cons.mp right with mine | right
    · rw [mine] at finishing
      exact ⟨q,List.mem_append_right _ List.mem_cons_self,stays fd id x listed there named finishing⟩
    · exact ⟨f,List.mem_append_right _ (List.mem_cons_of_mem _ right),finishing⟩

/- A step of worker w that no session sees. -/
theorem mirroredWorker (inv : Tracked s) (same : Mirrored s u) {w : Nat} {p q} (here : s.workers[w]? = some p)
    (workers : t.workers = s.workers.set w q) (main : t.main = s.main) (next : t.next = s.next)
    (settles : ∀ id, settled (t.heap id) = settled (s.heap id))
    (others : ∀ id, WorkerPc.pointer p ≠ some id → t.heap id = s.heap id ∨ (t.heap id).inUse = true)
    (mine : ∀ stage n id, q = .holding stage n id → Held u t.heap stage n id)
    (before : ∀ fd id, t.connections fd = some id → s.connections fd = some id)
    (stays : ∀ fd id x, t.connections fd = some id → u id = some x → x.conn.fd = fd → Finishing id p → Finishing id q) :
    Mirrored t u := by
  refine ⟨?_,?_,?_,?_,?_,?_⟩
  · rw [next]
    exact same.fresh
  · rw [main]
    exact same.accepted
  · rw [main]
    exact same.prepared
  · intro id x there live
    rw [settles]
    exact same.heap id x there live
  · rw [workers]
    exact listedMoved same here before stays
  · rw [workers]
    exact heldMoved inv same here (fun id apart => ⟨rfl,others id apart⟩) mine

/- Under the mutex a task that finds its connection finds a session that is not over. -/
theorem foundLive (inv : Tracked s) (same : Mirrored s u) {w : Nat} {n id} (here : s.workers[w]? = some (.taken n))
    (free : MutexFree s) (listed : s.connections n.fd = some id) :
    ∃ x, u id = some x ∧ x.conn.fd = n.fd ∧ x.live = true := by
  obtain ⟨x,there,named,closing⟩ := same.listed n.fd id listed
  refine ⟨x,there,named,Bool.not_eq_false _ |>.mp fun spent => ?_⟩
  obtain ⟨f,member,finishing⟩ := closing spent
  obtain ⟨v,atV⟩ := List.mem_iff_getElem?.mp member
  cases f with
  | idle => exact finishing
  | taken m => exact finishing
  | holding stage m c =>
    obtain ⟨spent,rfl⟩ := finishing
    have own := inv.pointers stage m c member
    have differ : w ≠ v := by
      rintro rfl
      rw [here] at atV
      cases Option.some.inj atV
    have mine : c ∈ workerHolders (.taken n) := by
      rw [lookupOrigin inv here free listed]
      exact List.mem_singleton_self _
    refine holdersApart inv differ here atV mine ?_
    cases stage with
    | closed =>
      have busy := free.2 _ member
      contradiction
    | closing =>
      rw [own]
      exact List.mem_singleton_self _
    | _ => contradiction

theorem quietUnseen {pc} (move : Quiet s a pc) : view config s a = none := by
  cases move <;> rfl

/- The record is filled in: the session is opened under the number of the connection. -/
theorem mirroredPrepare (inv : Tracked s) (same : Mirrored s u) {n rest} (here : s.main = .accepted n rest) :
    Mirrored {setConn s n.origin (acceptedConnection n.fd s.clock) with main := .prepared n rest}
      (Function.update u n.origin (some (accepted (n.fd,s.clock)))) := by
  have absent := same.accepted n rest here
  have known : ∀ id x, u id = some x → id ≠ n.origin := fun id x there alike => by
    rw [alike, absent] at there
    contradiction
  refine ⟨fun id above => ?_,fun m more there => MainPc.noConfusion there,fun m more there => ?_,?_,?_,?_⟩
  · have below : n.origin < s.next := (trackedEntries inv).unlistedBelow n (by rw [here]; rfl)
    have reached : s.next ≤ id := above
    rw [Function.update_of_ne (Nat.ne_of_gt (lt_of_lt_of_le below reached))]
    exact same.fresh id above
  · cases there
    exact ⟨_,Function.update_self _ _ _,rfl,rfl⟩
  · intro id x there live
    dsimp only [setConn]
    by_cases alike : id = n.origin
    · subst alike
      rw [Function.update_self] at there ⊢
      cases Option.some.inj there
      rfl
    · rw [Function.update_of_ne alike] at there ⊢
      exact same.heap id x there live
  · intro fd id listed
    obtain ⟨x,there,named,closing⟩ := same.listed fd id listed
    exact ⟨x,(Function.update_of_ne (known id x there) _ _).trans there,named,closing⟩
  · intro w stage m id there
    obtain ⟨x,mine,fd,live,flag⟩ := same.held w stage m id there
    have other := known id x mine
    refine ⟨x,(Function.update_of_ne other _ _).trans mine,fd,live,fun marked => ?_⟩
    dsimp only [setConn]
    rw [Function.update_of_ne other]
    exact flag marked

theorem mirroredInsert (same : Mirrored s u) {n rest} (here : s.main = .prepared n rest) :
    Mirrored {s with main := .inserted n rest, connections := Function.update s.connections n.fd (some n.origin)} u := by
  refine ⟨same.fresh,fun m more there => MainPc.noConfusion there,fun m more there => MainPc.noConfusion there,
    same.heap,fun fd id listed => ?_,same.held⟩
  dsimp only at listed
  by_cases alike : fd = n.fd
  · subst alike
    rw [Function.update_self] at listed
    cases Option.some.inj listed
    obtain ⟨x,there,named,live⟩ := same.prepared n rest here
    refine ⟨x,there,named,fun spent => ?_⟩
    rw [live] at spent
    contradiction
  · rw [Function.update_of_ne alike] at listed
    exact same.listed fd id listed

theorem resettled {c : ClientConnection} (flag : c.inUse = true) :
    {settled c with inUse := true, lastActive := c.lastActive} = c := by
  cases c
  cases flag
  rfl

/- What the lookup and the stamp have written is what a task alone writes first. -/
theorem taskExchange {id : ConnId} {conn : ClientConnection} (settles : settled conn = settled (s.heap id))
    (flag : (s.heap id).inUse = true) (env : Environment) (world : World) :
    exchange config conn (taskOf s id env world) = Worker.serve env config world (s.heap id) := by
  have alike : {conn with inUse := true, lastActive := (s.heap id).lastActive} = s.heap id := by
    refine Eq.trans ?_ (resettled flag)
    rw [← settles]
    rfl
  unfold exchange workerProcessRequest taskOf
  rw [alike]
  rfl

/- The worker reads, answers and sends: the session takes the task. -/
theorem mirroredServe (inv : Tracked s) (same : Mirrored s u) {w : Nat} {n id env world}
    (here : s.workers[w]? = some (.holding .running n id)) :
    ∃ v, Mirrors (sessions config) u v (view config s (.worker w (.serve env world))) ∧
      Mirrored (serveConn s w n id (Worker.serve env config world (s.heap id))) v := by
  obtain ⟨x,there,named,live,flag⟩ := same.held w .running n id here
  obtain ⟨conn,alive⟩ := x
  cases live
  have task : exchange config conn (taskOf s id env world) = Worker.serve env config world (s.heap id) :=
    taskExchange (same.heap id ⟨conn,_⟩ there rfl) (flag rfl) env world
  have client := (serveClient env config world (s.heap id)).fd
  have kept : (s.heap id).fd = conn.fd := (congrArg ClientConnection.fd (same.heap id _ there rfl)).symm
  have seen : view config s (.worker w (.serve env world)) =
      some (.moves id (taskOf s id env world,outcome (Worker.serve env config world (s.heap id)))) := by
    simp only [view, here, Option.bind_some, served]
  generalize Worker.serve env config world (s.heap id) = e at task client seen ⊢
  refine ⟨Function.update u id (some ⟨e.conn,decide (e.ending ≠ .closed)⟩),?_,?_,?_,?_,?_,?_,?_⟩
  · rw [seen]
    simp only [Mirrors, sessions, family, Family.step, there, session, sessionStep, task]
    simp
  · intro k above
    have other : k ≠ id := fun alike => by
      subst alike
      rw [same.fresh k above] at there
      contradiction
    exact (Function.update_of_ne other _ _).trans (same.fresh k above)
  · intro m rest main
    have absent := same.accepted m rest main
    have other : m.origin ≠ id := fun alike => by
      rw [alike, there] at absent
      contradiction
    exact (Function.update_of_ne other _ _).trans absent
  · intro m rest main
    obtain ⟨x,known,named,live⟩ := same.prepared m rest main
    have pends : pending s.main = some m := by
      have main : s.main = .prepared m rest := main
      rw [main]
      rfl
    have other : m.origin ≠ id := by
      rw [inv.pointers .running n id (List.mem_of_getElem? here)]
      exact (pendingWorker inv here (List.mem_singleton_self n) pends).2
    exact ⟨x,(Function.update_of_ne other _ _).trans known,named,live⟩
  · intro k x known live
    simp only [serveConn]
    by_cases alike : k = id
    · subst alike
      rw [Function.update_self] at known ⊢
      cases Option.some.inj known
      rfl
    · rw [Function.update_of_ne alike] at known ⊢
      exact same.heap k x known live
  · intro fd k listed
    by_cases alike : k = id
    · subst alike
      obtain ⟨y,known,which,_⟩ := same.listed fd k listed
      rw [there] at known
      cases Option.some.inj known
      refine ⟨_,Function.update_self _ _ _,client.trans (kept.trans which),fun spent => ?_⟩
      have ends : e.ending = .closed := by simpa using spent
      obtain ⟨front,back,_,replaced⟩ := Crew.split here
      refine ⟨.holding .closing n k,?_,rfl,rfl⟩
      simp only [serveConn, replaced, ends]
      exact List.mem_append_right _ List.mem_cons_self
    · obtain ⟨y,known,which,closing⟩ := listedMoved (q := .holding (endingStage e.ending) n id) same here (fun _ _ h => h)
        (fun _ _ _ _ _ _ finishing => absurd finishing.1 (by decide)) fd k listed
      exact ⟨y,(Function.update_of_ne alike _ _).trans known,which,closing⟩
  · refine heldMoved inv same here (fun k apart => ?_) (fun stage m k moved => ?_)
    · have other : k ≠ id := fun alike => apart (congrArg some alike.symm)
      exact ⟨Function.update_of_ne other _ _,Or.inl (Function.update_of_ne other _ _)⟩
    · cases moved
      refine ⟨_,Function.update_self _ _ _,client.trans (kept.trans named),?_,fun marked => ?_⟩
      · cases e.ending <;> rfl
      · refine (congrArg ClientConnection.inUse (Function.update_self id _ s.heap)).trans ?_
        generalize e.ending = ending at marked
        cases ending with
        | waiting => contradiction
        | _ => rfl

theorem settledUpdate {heap : ConnId → ClientConnection} {id : ConnId} {c : ClientConnection}
    (alike : settled c = settled (heap id)) (k : ConnId) : settled (Function.update heap id c k) = settled (heap k) := by
  by_cases same : k = id
  · subst same
    rw [Function.update_self]
    exact alike
  · rw [Function.update_of_ne same]

/- Only the worker at a connection writes its record. -/
theorem updateOther {heap : ConnId → ClientConnection} {id : ConnId} (c : ClientConnection) {k : ConnId}
    (apart : some id ≠ some k) : Function.update heap id c k = heap k :=
  Function.update_of_ne (fun alike => apart (congrArg some alike.symm)) _ _

theorem mirroredStep (inv : Tracked s) (same : Mirrored s u) (made : Step config own s a t) :
    ∃ v, Mirrors (sessions config) u v (view config s a) ∧ Mirrored t v := by
  have listedSame : ∀ fd id, s.connections fd = some id → s.connections fd = some id := fun _ _ h => h
  have nothing : ∀ stage n id, WorkerPc.idle = .holding stage n id → Held u s.heap stage n id :=
    fun _ _ _ idle => WorkerPc.noConfusion idle
  cases made with
  | tick seconds => exact ⟨u,rfl,same.fresh,same.accepted,same.prepared,same.heap,same.listed,same.held⟩
  | quiet move =>
    rw [quietUnseen move]
    exact ⟨u,rfl,mirroredMain same rfl rfl (le_refl _) listedSame (pendingUnlisted (quietPending move))⟩
  | scanEnds here => exact ⟨u,rfl,mirroredMain same rfl rfl (le_refl _) listedSame rfl⟩
  | expire here small listed unused old => exact ⟨u,rfl,mirroredMain same rfl rfl (le_refl _) (fun _ _ => updateOpen) rfl⟩
  | epollWait here distinct ready => exact ⟨u,rfl,mirroredMain same rfl rfl (le_refl _) listedSame rfl⟩
  | dispatch here => exact ⟨u,rfl,mirroredMain same rfl rfl (le_refl _) listedSame rfl⟩
  | refused here free missing => exact ⟨u,rfl,mirroredMain same rfl rfl (le_refl _) listedSame rfl⟩
  | dispatchFails here free listed => exact ⟨u,rfl,mirroredMain same rfl rfl (le_refl _) (fun _ _ => updateOpen) rfl⟩
  | @accept rest fd here closed foreign =>
    refine ⟨u,rfl,fun id above => same.fresh id (Nat.le_of_succ_le above),fun n more main => ?_,
      fun n more main => MainPc.noConfusion main,same.heap,same.listed,same.held⟩
    cases main
    exact same.fresh s.next (le_refl _)
  | reject here => exact ⟨u,rfl,mirroredMain same rfl rfl (le_refl _) listedSame rfl⟩
  | @prepare n rest here small =>
    refine ⟨_,?_,mirroredPrepare inv same here⟩
    simp only [view, here, Mirrors, sessions, family, Family.step, same.accepted n rest here]
  | insert here free => exact ⟨u,rfl,mirroredInsert same here⟩
  | register here isOpen => exact ⟨u,rfl,mirroredMain same rfl rfl (le_refl _) listedSame rfl⟩
  | registerFails here free => exact ⟨u,rfl,mirroredMain same rfl rfl (le_refl _) (fun _ _ => updateOpen) rfl⟩
  | cleanup here empty idle => exact ⟨u,rfl,mirroredMain same rfl rfl (le_refl _) (fun _ _ h => absurd h (by simp)) rfl⟩
  | dequeue here head =>
    exact ⟨u,rfl,mirroredWorker inv same here rfl rfl rfl (fun _ => rfl) (fun _ _ => Or.inl rfl)
      (fun _ _ _ same => WorkerPc.noConfusion same) listedSame (fun _ _ _ _ _ _ finishing => finishing.elim)⟩
  | lookupNone here free missing =>
    exact ⟨u,rfl,mirroredWorker inv same here rfl rfl rfl (fun _ => rfl) (fun _ _ => Or.inl rfl) nothing listedSame
      (fun _ _ _ _ _ _ finishing => finishing.elim)⟩
  | @lookup w n id here free listed =>
    obtain ⟨x,there,named,live⟩ := foundLive inv same here free listed
    refine ⟨u,rfl,mirroredWorker inv same here rfl rfl rfl (settledUpdate rfl) (fun k _ => ?_) (fun stage m k moved => ?_)
      listedSame (fun _ _ _ _ _ _ finishing => finishing.elim)⟩
    · by_cases alike : k = id
      · subst alike
        exact Or.inr (congrArg ClientConnection.inUse (Function.update_self k _ s.heap))
      · exact Or.inl (Function.update_of_ne alike _ _)
    · cases moved
      exact ⟨x,there,named,live,fun _ => congrArg ClientConnection.inUse (Function.update_self id _ s.heap)⟩
  | @stamp w n id here =>
    obtain ⟨x,there,named,live,flag⟩ := same.held w .marked n id here
    refine ⟨u,rfl,mirroredWorker inv same here rfl rfl rfl (settledUpdate rfl) (fun k apart => Or.inl (updateOther _ apart))
      (fun stage m k moved => ?_) listedSame (fun _ _ _ _ _ _ finishing => absurd finishing.1 (by decide))⟩
    cases moved
    exact ⟨x,there,named,live,fun _ => (congrArg ClientConnection.inUse (Function.update_self id _ s.heap)).trans (flag rfl)⟩
  | @serve w n id env world here => exact mirroredServe inv same here
  | @rearm w n id here =>
    exact ⟨u,rfl,mirroredWorker inv same here rfl rfl rfl (fun _ => rfl) (fun _ _ => Or.inl rfl) nothing listedSame
      (fun _ _ _ _ _ _ finishing => absurd finishing.1 (by decide))⟩
  | @keep w n id here free =>
    exact ⟨u,rfl,mirroredWorker inv same here rfl rfl rfl (settledUpdate rfl) (fun k apart => Or.inl (updateOther _ apart))
      (fun _ _ _ same => WorkerPc.noConfusion same) listedSame
      (fun _ _ _ _ _ _ finishing => absurd finishing.1 (by decide))⟩
  | @closeNone w n id here free missing =>
    obtain ⟨y,mine,fd,_,_⟩ := same.held w .closing n id here
    refine ⟨u,rfl,mirroredWorker inv same here rfl rfl rfl (fun _ => rfl) (fun _ _ => Or.inl rfl) nothing listedSame ?_⟩
    rintro k c x listed there named ⟨_,rfl⟩
    rw [mine] at there
    cases Option.some.inj there
    rw [← named, fd] at listed
    have found : s.connections n.fd = some id := listed
    rw [missing] at found
    contradiction
  | @close w n id found here free there =>
    obtain ⟨y,mine,fd,spent,_⟩ := same.held w .closing n id here
    refine ⟨u,rfl,mirroredWorker inv same here rfl rfl rfl (fun _ => rfl) (fun _ _ => Or.inl rfl) (fun stage m k moved => ?_)
      listedSame (fun _ _ _ _ _ _ finishing => ⟨rfl,finishing.2⟩)⟩
    cases moved
    exact ⟨y,mine,fd,spent,fun marked => Bool.noConfusion marked⟩
  | @vacate w n id here =>
    obtain ⟨y,mine,fd,_,_⟩ := same.held w .closed n id here
    refine ⟨u,rfl,mirroredWorker inv same here rfl rfl rfl (fun _ => rfl) (fun _ _ => Or.inl rfl) nothing
      (fun _ _ => updateOpen) ?_⟩
    rintro k c x listed there named ⟨_,rfl⟩
    rw [mine] at there
    cases Option.some.inj there
    rw [← named, fd] at listed
    exact absurd listed (by simp [setWorker, vacate])

theorem initialMirrored (config : ServerConfig) (now : Int) : Mirrored (initial config now) (fun _ => none) := by
  refine ⟨fun _ _ => rfl,fun _ _ main => MainPc.noConfusion main,fun _ _ main => MainPc.noConfusion main,
    fun _ _ there => absurd there (by simp),fun _ _ listed => absurd listed (by simp [initial]),
    fun w stage n id here => ?_⟩
  have idle := List.eq_of_mem_replicate (List.mem_of_getElem? here)
  contradiction

theorem serverRefines (config : ServerConfig) (own : Nat → Bool) :
    Refines (server config own) FreshAccept (sessions config) (view config) (fun s u => Tracked s ∧ Mirrored s u) := by
  constructor
  · rintro s ⟨now,rfl⟩
    exact ⟨_,rfl,initialTracked config now,initialMirrored config now⟩
  · rintro s a t u ⟨inv,same⟩ fresh made
    obtain ⟨v,mirrors,later⟩ := mirroredStep inv same (stepSound made)
    exact ⟨v,mirrors,trackedStep inv (stepSound made) fresh,later⟩

end

/- What happens on one connection in a run of the server. -/
def history (config : ServerConfig) (own : Nat → Bool) (now : Int) (as : List Action) (id : ConnId) : List Label :=
  labels id (trace (server config own) (view config) (initial config now) as)

/- From its accept on, a connection of the server has a history of its own. -/
theorem historyAlone {config : ServerConfig} {own : Nat → Bool} {now : Int} {as : List Action} {t : State}
    (follows : Follows (server config own) FreshAccept (initial config now) as)
    (ran : run (server config own) (initial config now) as = some t) (id : ConnId) :
    ∃ fd time, (history config own now as id).map Prod.snd =
      (exchanges config (acceptedConnection fd time) ((history config own now as id).map Prod.fst)).map outcome := by
  obtain ⟨v,went,_⟩ := runRefined (serverRefines config own) ⟨initialTracked config now,initialMirrored config now⟩
    follows ran
  have absent : (fun _ => none : ConnId → Option Session) id = none := rfl
  rcases runAbsent went absent with nothing | ⟨i,y,_,alone⟩
  · refine ⟨0,0,?_⟩
    rw [history, nothing]
    rfl
  · exact ⟨i.1,i.2,sessionExchanges alone⟩

/- The tasks of a connection, taken out of the run, give the answers of a connection that is served alone,
and none comes after the one that closes it. -/
theorem servedApart (config : ServerConfig) (own : Nat → Bool) (now : Int) (as : List Action) (t : State)
    (follows : Follows (server config own) FreshAccept (initial config now) as)
    (ran : run (server config own) (initial config now) as = some t) (id : ConnId) (fd : Nat) (time : Int) :
    (history config own now as id).map Prod.snd =
      (exchanges config (acceptedConnection fd time) ((history config own now as id).map Prod.fst)).map outcome := by
  obtain ⟨first,start,alone⟩ := historyAlone follows ran id
  rw [alone]
  exact exchangesRelabelled (acceptedConnection fd time) first start _

def arrives (text : String) : Turn := .serve ⟨fun _ => true,0,[arrival (ascii text)],[]⟩ emptyWorld

/- A request in two parts on one connection, a whole one in between on another. -/
def pairRun : List Action :=
  arrivalOn 5 ++ arrivalOn 6 ++ [.epollWait [.ready ⟨5,0⟩,.ready ⟨6,1⟩],.dispatch,.dispatch,.batchEnds,
    .worker 0 .dequeue,.worker 1 .dequeue,.worker 1 .lookup,.worker 0 .lookup,.worker 0 .stamp,.worker 1 .stamp,
    .worker 0 (arrives "GET /missing HT"),.worker 0 .rearm,.epollWait [.ready ⟨5,0⟩],.dispatch,.tick 3,
    .worker 2 .dequeue,.worker 2 .lookup,.worker 2 .stamp,.worker 1 (arrives "GET /other HTTP/1.1\r\n\r\n"),
    .worker 2 (arrives "TP/1.1\r\n\r\n"),.worker 1 .keep,.worker 2 .keep]

theorem pairApart : (history Main.defaults firstFive 0 pairRun 0).map (fun l => l.2.2) = [.waiting,.kept] ∧
    (history Main.defaults firstFive 0 pairRun 0).map Prod.snd = (exchanges Main.defaults (acceptedConnection 0 0)
      ((history Main.defaults firstFive 0 pairRun 0).map Prod.fst)).map outcome := by
  have follows : Follows (server Main.defaults firstFive) FreshAccept (initial Main.defaults 0) pairRun := by
    decide +kernel
  have ran : (run (server Main.defaults firstFive) (initial Main.defaults 0) pairRun).isSome = true := by
    decide +kernel
  obtain ⟨t,ran⟩ := Option.isSome_iff_exists.mp ran
  exact ⟨by decide +kernel,servedApart Main.defaults firstFive 0 pairRun t follows ran 0 0 0⟩

end EpollHttpServer.Sessions
