import EpollHttpServer.MainLoop

/-! From the arguments to the exit status: what main sets up and what it leaves, on every way through. -/
namespace EpollHttpServer.Lifecycle
open CString Server Runs Calls MainThread MainLoop

/- The descriptors of the main thread with a socket, and with epoll beside it. -/
def holding (listenFd : Nat) (s : Socket) : Nat → Option Descriptor :=
  Function.update (fun _ => none) listenFd (some (.socket s))

def watched (listenFd : Nat) (s : Socket) (epollFd : Nat) (w : Option Nat) : Nat → Option Descriptor :=
  Function.update (holding listenFd s) epollFd (some (.epoll w))

theorem holdingSocket (listenFd s) : holding listenFd s listenFd = some (.socket s) := Function.update_self ..

theorem watchedEpoll (listenFd s epollFd w) : watched listenFd s epollFd w epollFd = some (.epoll w) :=
  Function.update_self ..

theorem watchedSocket {listenFd epollFd : Nat} (apart : holding listenFd s epollFd = none) (w) :
    watched listenFd s epollFd w listenFd = some (.socket s) := by
  have differ : listenFd ≠ epollFd := by
    rintro rfl
    rw [holdingSocket] at apart
    contradiction
  rw [watched, Function.update_of_ne differ]
  exact holdingSocket listenFd s

theorem putClosed (p : Process) {fd : Nat} {d : Option Descriptor} (unused : p.descriptor fd = none) :
    (p.put fd d).put fd none = p := by
  simp only [Process.put, Function.update_idem, ← unused, Function.update_eq_self]

section Setup
variable {config : ServerConfig} {listenFd epollFd : Nat} {s : Socket} {w : Option Nat} {signals handed : Bool}
  {configured : Option ServerConfig} {pool : Option Int} {serving : Option Serving}

def Over (serving : Option Serving) : Prop := ∀ v, serving = some v → v.state.main = .stopped

theorem closeListener (finished : Over serving) {post : Unit → Process → Prop}
    (later : post () ⟨fun _ => none,signals,configured,pool,handed,serving⟩) :
    Meets process (close listenFd) ⟨holding listenFd s,signals,configured,pool,handed,serving⟩ post := by
  refine meetsAsk.mpr ⟨⟨by simp [holdingSocket],finished⟩,?_⟩
  rintro _ q rfl
  simp only [Process.put, holding, Function.update_idem]
  rw [Function.update_eq_self (f := fun _ => none)]
  exact later

theorem closeBoth (apart : holding listenFd s epollFd = none) (finished : Over serving) {post : Bool → Process → Prop}
    (later : post true ⟨fun _ => none,signals,configured,pool,handed,serving⟩) :
    Meets process (do close epollFd; close listenFd; return true)
      ⟨watched listenFd s epollFd w,signals,configured,pool,handed,serving⟩ post := by
  rw [meetsBind]
  refine meetsAsk.mpr ⟨⟨by simp [watchedEpoll],finished⟩,?_⟩
  rintro _ q rfl
  simp only [Process.put, watched, Function.update_idem, ← apart, Function.update_eq_self, meetsBind]
  exact closeListener finished later

/- After server_run: nothing left open, and a server that ran has been drained and stopped; or the loop goes on. -/
def Served (config : ServerConfig) (ended : Bool) (q : Process) : Prop :=
  if ended then
    (∀ fd, q.descriptor fd = none) ∧ (q.serving = none ∨ q.pool = none ∧ q.config = some config ∧
      ∃ v, q.serving = some v ∧ Reach (server config v.own) (fun _ _ => True) v.state ∧ Draining.Stopped v.state)
  else ∃ epollFd listenFd own t, Serves config epollFd listenFd q own t ∧ t.main = .wait

theorem shutdownMeets {own : Nat → Bool} {t : State} (apart : holding listenFd s epollFd = none)
    (reached : Reach (server config own) (fun _ _ => True) t) (here : t.main = .wait) (manned : pool ≠ none) :
    Meets process (do threadPoolDestroy; epollHandlerCleanup; close epollFd; close listenFd; return true)
      ⟨watched listenFd s epollFd w,true,some config,pool,true,some ⟨own,t⟩⟩ (Served config) := by
  rw [meetsBind]
  refine meetsAsk.mpr ⟨⟨manned,_,rfl,here⟩,?_⟩
  intro _ q made
  have moves : moved ⟨watched listenFd s epollFd w,true,some config,none,true,some ⟨own,t⟩⟩ stops drained q := made
  obtain ⟨u,goes,⟨draining,empty,idle⟩,rfl⟩ := movedOnly rfl rfl moves
  have rested : Rested config own u := ⟨goesReach reached goes,empty,idle,Or.inl draining⟩
  rw [meetsBind]
  refine meetsAsk.mpr ⟨⟨rfl,_,rfl,draining,empty,idle⟩,?_⟩
  intro _ r made
  have moves : moved ⟨watched listenFd s epollFd w,true,some config,none,true,some ⟨own,u⟩⟩ cleans ceased r := made
  obtain ⟨x,went,stopped,rfl⟩ := movedOnly rfl rfl moves
  have left := cleanedStopped rested went stopped
  refine closeBoth apart ?_ ?_
  · intro v held
    cases Option.some.inj held
    exact stopped
  · exact ⟨fun _ => rfl,Or.inr ⟨rfl,rfl,_,rfl,goesReach rested.1 went,left⟩⟩

theorem beginsInitial {count : Int} (manned : count.toNat = threadCount config) (now : Int) :
    begins config count now = initial config now := by
  unfold begins initial
  rw [manned]

theorem servingMeets {count : Int} (apart : holding listenFd s epollFd = none) (listens : s.listening = true)
    (nonblocking : s.flags &&& nonblock ≠ 0) (manned : count.toNat = threadCount config) (turns : Nat) :
    Meets process (do
        let lastTimeoutCheck ← startTime
        if !(← serveLoop epollFd listenFd turns lastTimeoutCheck) then return false
        threadPoolDestroy
        epollHandlerCleanup
        close epollFd
        close listenFd
        return true)
      ⟨watched listenFd s epollFd (some listenFd),true,some config,some count,true,none⟩ (Served config) := by
  have watching (q : Process) (same : q.descriptor = watched listenFd s epollFd (some listenFd)) :
      Watching q epollFd listenFd := by
    refine ⟨by rw [same, watchedEpoll],s,by rw [same, watchedSocket apart],listens,nonblocking⟩
  rw [meetsBind]
  refine meetsAsk.mpr ⟨⟨rfl,rfl,rfl,⟨config,count,rfl,rfl,manned⟩,epollFd,listenFd,watching _ rfl⟩,?_⟩
  rintro now q ⟨used,threads,configured,pooled,rfl⟩
  cases Option.some.inj configured
  cases Option.some.inj pooled
  rw [beginsInitial manned, meetsBind]
  have serves : Serves config epollFd listenFd
      ⟨watched listenFd s epollFd (some listenFd),true,some config,some count,true,
        some ⟨fun fd => (watched listenFd s epollFd (some listenFd) fd).isSome,initial config now⟩⟩
      (fun fd => (watched listenFd s epollFd (some listenFd) fd).isSome) (initial config now) :=
    ⟨rfl,rfl,by simp,watching _ rfl,rfl,initialReach config _ _ now,by simp [watchedSocket apart]⟩
  refine meetsMono (loopMeets turns serves rfl) ?_
  rintro ended q ⟨t,later,rfl,rests⟩
  cases ended with
  | false => exact ⟨epollFd,listenFd,_,t,later,rests⟩
  | true => exact shutdownMeets apart later.reached rests (by simp)

theorem endedNowhere {own : Option Serving} (none' : own = none) {pool : Option Int} :
    Served config true ⟨fun _ => none,signals,configured,pool,handed,own⟩ :=
  ⟨fun _ => rfl,Or.inl none'⟩

theorem nobodyServes : Over none := fun _ held => absurd held (by simp)

theorem flagKept (flags flag : UInt32) : (flags ||| flag) &&& flag = flag := by
  apply UInt32.eq_of_toBitVec_eq
  ext i small
  simp only [UInt32.toBitVec_and, UInt32.toBitVec_or, BitVec.getElem_and, BitVec.getElem_or]
  cases flag.toBitVec[i] <;> simp

/- With the flags that F_GETFL gave, F_SETFL makes the socket one that does not block. -/
theorem nonblockingMeets {post : Bool → Process → Prop}
    (fails : post false ⟨holding listenFd s,signals,configured,pool,handed,serving⟩)
    (sets : post true ⟨holding listenFd {s with flags := s.flags ||| nonblock},signals,configured,pool,handed,serving⟩) :
    Meets process (setNonblocking listenFd) ⟨holding listenFd s,signals,configured,pool,handed,serving⟩ post := by
  rw [setNonblocking, meetsBind]
  refine meetsAsk.mpr ⟨⟨s,holdingSocket _ _⟩,?_⟩
  rintro answer q ⟨found,there,known,rfl⟩
  cases (holdingSocket listenFd s).symm.trans there
  rcases known with rfl | rfl
  · exact fails
  · refine meetsAsk.mpr ⟨⟨s,holdingSocket _ _⟩,?_⟩
    rintro answer q ⟨found,there,rfl⟩
    cases (holdingSocket listenFd s).symm.trans there
    cases answer with
    | false => exact fails
    | true => simpa only [if_true, Process.put, holding, Function.update_idem] using sets

theorem runMeets (accepted : Main.Accepted config) (listens : s.listening = true) (turns : Nat) :
    Meets process (serverRun listenFd config turns) ⟨holding listenFd s,false,none,none,false,none⟩ (Served config) := by
  rw [serverRun, meetsBind]
  refine nonblockingMeets ?_ ?_
  · exact meetsBind.mpr (closeListener nobodyServes (endedNowhere rfl))
  have nonblocking : (s.flags ||| nonblock) &&& nonblock ≠ 0 := by
    rw [flagKept]
    decide
  rw [if_neg (by simp), meetsBind]
  refine meetsAsk.mpr ⟨rfl,?_⟩
  rintro _ q rfl
  rw [meetsBind]
  refine meetsAsk.mpr ⟨rfl,?_⟩
  intro answer q opened
  cases answer with
  | none =>
    cases opened
    exact meetsBind.mpr (closeListener nobodyServes (endedNowhere rfl))
  | some epollFd =>
    obtain ⟨apart,rfl⟩ := opened
    rw [meetsBind, epollHandlerInit, meetsBind]
    refine meetsAsk.mpr ⟨⟨rfl,rfl,accepted⟩,?_⟩
    rintro _ q rfl
    rw [meetsPure, if_neg (by decide), meetsBind]
    have positive : 0 < if config.threadCount > 0 then config.threadCount else defaultThreadCount := by
      split
      · assumption
      · decide
    have manned : (if config.threadCount > 0 then config.threadCount else defaultThreadCount).toNat = threadCount config := by
      unfold threadCount
      split <;> rfl
    generalize (if config.threadCount > 0 then config.threadCount else defaultThreadCount) = count at positive manned
    refine meetsAsk.mpr ⟨⟨rfl,positive⟩,?_⟩
    rintro answer q rfl
    cases answer with
    | false => exact closeBoth apart nobodyServes (endedNowhere rfl)
    | true =>
      rw [if_neg (by simp), meetsBind]
      refine meetsAsk.mpr ⟨by simp [process, Ready],?_⟩
      rintro _ q rfl
      rw [meetsBind]
      refine meetsAsk.mpr ⟨⟨Function.update_self ..,_,watchedSocket apart _,listens,nonblocking⟩,?_⟩
      rintro answer q rfl
      cases answer with
      | false => exact closeBoth apart nobodyServes (endedNowhere rfl)
      | true =>
        rw [if_neg (by simp)]
        have there := servingMeets apart listens nonblocking manned turns
        simpa only [if_true, Process.put, watched, Function.update_idem] using there

/- The process in server_init. -/
def alone (listenFd : Nat) (s : Socket) : Process := ⟨holding listenFd s,false,none,none,false,none⟩

theorem changesAlone {change : Socket → Socket} {answer : Bool} {q : Process}
    (made : changes (alone listenFd s) listenFd change answer q) :
    q = alone listenFd (if answer then change s else s) := by
  obtain ⟨found,there,rfl⟩ := made
  cases (holdingSocket listenFd s).symm.trans there
  cases answer with
  | false => rfl
  | true => simp only [if_true, Process.put, alone, holding, Function.update_idem]

/- One call on the socket; where it fails the socket is closed and nothing is left. -/
theorem stageMeets {ask : Program Bool} {rest : Program (Option Nat)} {n : Socket} {post : Option Nat → Process → Prop}
    (asks : Meets process ask (alone listenFd s)
      (fun answer q => q = alone listenFd (if answer then n else s)))
    (fails : post none boot) (goesOn : Meets process rest (alone listenFd n) post) :
    Meets process (do
        if !(← ask) then
          close listenFd
          return none
        rest) (alone listenFd s) post := by
  rw [meetsBind]
  refine meetsMono asks ?_
  rintro answer q rfl
  cases answer with
  | false => exact meetsBind.mpr (closeListener nobodyServes fails)
  | true => exact goesOn

theorem initMeets (accepted : Main.Accepted config) :
    Meets process (serverInit config) boot (fun answer q => match answer with
      | none => q = boot
      | some fd => ∃ s, s.listening = true ∧ q = alone fd s) := by
  rw [serverInit, meetsBind]
  refine meetsAsk.mpr ⟨rfl,?_⟩
  rintro answer q ⟨flags,opened⟩
  cases answer with
  | none => exact opened
  | some listenFd =>
    obtain ⟨_,rfl⟩ := opened
    refine stageMeets (n := ⟨true,none,false,flags⟩) ?_ rfl ?_
    · exact meetsAsk.mpr ⟨⟨_,holdingSocket _ _,rfl⟩,fun _ _ made => changesAlone made⟩
    refine stageMeets (n := ⟨true,some config.port,false,flags⟩) ?_ rfl ?_
    · exact meetsAsk.mpr ⟨⟨⟨_,holdingSocket _ _,rfl,rfl⟩,accepted.port⟩,fun _ _ made => changesAlone made⟩
    refine stageMeets (n := ⟨true,some config.port,true,flags⟩) ?_ rfl ?_
    · exact meetsAsk.mpr ⟨⟨_,holdingSocket _ _,by simp,rfl⟩,fun _ _ made => changesAlone made⟩
    exact ⟨_,rfl,rfl⟩

/- How main may end: with the status that the options ask for; with 1 and nothing begun; with 0 after server_run. -/
def Finished (argv : List Bytes) (answer : Option Int) (q : Process) : Prop :=
  match Main.run argv,answer with
  | .error status,answer => answer = some status ∧ q = boot
  | .ok config,none => Served config false q
  | .ok config,some status => (status = 1 ∧ q = boot) ∨ (status = 0 ∧ Served config true q)

theorem mainMeets (argv : List Bytes) (turns : Nat) : Meets process (main argv turns) boot (Finished argv) := by
  unfold main Finished
  cases parsed : Main.run argv with
  | error status => exact ⟨rfl,rfl⟩
  | ok config =>
    have accepted : Main.Accepted config := Main.runAccepted parsed
    dsimp only
    rw [meetsBind]
    refine meetsAsk.mpr ⟨rfl,?_⟩
    intro answer q opened
    cases answer with
    | none =>
      cases opened
      exact Or.inl ⟨rfl,rfl⟩
    | some dirFd =>
      obtain ⟨_,rfl⟩ := opened
      rw [meetsBind]
      refine meetsAsk.mpr ⟨⟨by simp [Process.put],nobodyServes⟩,?_⟩
      rintro _ q rfl
      rw [putClosed boot rfl, meetsBind]
      refine meetsMono (initMeets accepted) ?_
      intro answer q made
      cases answer with
      | none => exact Or.inl ⟨rfl,made⟩
      | some listenFd =>
        obtain ⟨s,listens,rfl⟩ := made
        rw [meetsBind]
        refine meetsMono (runMeets accepted listens turns) ?_
        intro ended q served
        cases ended with
        | false => exact served
        | true => exact Or.inr ⟨rfl,served⟩

end Setup

/- Wherever the program is, the configuration has passed its checks, and a server that serves has
come about in a run of Server under it. -/
structure Genuine (p : Process) : Prop where
  accepted : ∀ config, p.config = some config → Main.Accepted config
  reached : ∀ v, p.serving = some v → ∃ config, p.config = some config ∧
    Reach (server config v.own) (fun _ _ => True) v.state

section
variable {p q : Process}

theorem genuineSame (genuine : Genuine p) (config : q.config = p.config) (serving : q.serving = p.serving) : Genuine q := by
  obtain ⟨accepted,reached⟩ := genuine
  exact ⟨by rwa [config],by rwa [config, serving]⟩

theorem genuineMoved (genuine : Genuine p) {mine ends} (made : moved p mine ends q) : Genuine q := by
  obtain ⟨config,v,t,configured,held,goes,_,rfl⟩ := made
  refine ⟨genuine.accepted,?_⟩
  intro w there
  cases Option.some.inj there
  obtain ⟨used,known,reached⟩ := genuine.reached v held
  cases Option.some.inj (configured.symm.trans known)
  exact ⟨config,configured,goesReach reached goes⟩

theorem genuineOpened (genuine : Genuine p) {d answer} (made : opensAs p d answer q) : Genuine q := by
  cases answer with
  | none =>
    cases made
    exact genuine
  | some fd =>
    obtain ⟨_,rfl⟩ := made
    exact genuineSame genuine rfl rfl

theorem genuineChanged (genuine : Genuine p) {fd change answer} (made : changes p fd change answer q) : Genuine q := by
  obtain ⟨s,_,rfl⟩ := made
  cases answer <;> exact genuineSame genuine rfl rfl

theorem genuineStep (p : Process) (c : Call) (answer : Answer c) (q : Process) (genuine : Genuine p) (ready : Ready p c)
    (made : Answers p c answer q) : Genuine q := by
  cases c with
  | openRoot path => exact genuineOpened genuine made
  | socket =>
    obtain ⟨flags,opened⟩ := made
    exact genuineOpened genuine opened
  | epollCreate => exact genuineOpened genuine made
  | reuseAddress fd => exact genuineChanged genuine made
  | bindPort fd port => exact genuineChanged genuine made
  | listen fd backlog => exact genuineChanged genuine made
  | setFlags fd flags => exact genuineChanged genuine made
  | getFlags fd =>
    obtain ⟨_,_,_,rfl⟩ := made
    exact genuine
  | clearTable config =>
    cases made
    obtain ⟨nobody,_,accepted⟩ := ready
    refine ⟨?_,?_⟩
    · intro other there
      cases Option.some.inj there
      exact accepted
    · intro v held
      rw [nobody] at held
      contradiction
  | poolCreate count =>
    cases made
    cases answer <;> exact genuineSame genuine rfl rfl
  | epollAdd epollFd fd events =>
    cases made
    cases answer <;> exact genuineSame genuine rfl rfl
  | startTime =>
    obtain ⟨config,count,configured,pooled,rfl⟩ := made
    obtain ⟨_,_,_,⟨used,threads,known,counted,manned⟩,_⟩ := ready
    cases Option.some.inj (configured.symm.trans known)
    cases Option.some.inj (pooled.symm.trans counted)
    refine ⟨genuine.accepted,?_⟩
    intro v held
    cases Option.some.inj held
    refine ⟨config,configured,?_⟩
    rw [beginsInitial manned]
    exact initialReach config _ _ answer
  | epollWait epollFd =>
    cases answer with
    | interrupted => exact genuineMoved genuine made
    | failed => exact genuineMoved genuine made
    | events fds =>
      obtain ⟨_,_,moves⟩ := made
      exact genuineMoved genuine moves
  | accept epollFd listenFd => exact genuineMoved genuine made
  | dispatch epollFd fd => exact genuineMoved genuine made
  | time =>
    obtain ⟨config,v,u,t,configured,held,goes,_,batchEnds,rfl⟩ := made
    refine ⟨genuine.accepted,?_⟩
    intro w there
    cases Option.some.inj there
    obtain ⟨used,known,reached⟩ := genuine.reached v held
    cases Option.some.inj (configured.symm.trans known)
    have moves : (server config v.own).step u .batchEnds = some t := batchEnds
    exact ⟨config,configured,.next (goesReach reached goes) trivial moves⟩
  | checkTimeout epollFd => exact genuineMoved genuine made
  | poolDestroy =>
    have moves : moved {p with pool := none} stops drained q := made
    exact genuineMoved (p := {p with pool := none}) (genuineSame genuine rfl rfl) moves
  | cleanup => exact genuineMoved genuine made
  | _ =>
    cases made
    exact genuineSame genuine rfl rfl

theorem movedMay {v : Serving} (genuine : Genuine p) (held : p.serving = some v) (mine : Action → Bool)
    (ends : State → State → Prop)
    (may : ∀ config, Reach (server config v.own) (fun _ _ => True) v.state →
      ∃ t, Goes config v.own mine v.state t ∧ ends v.state t) : ∃ q, moved p mine ends q := by
  obtain ⟨config,configured,reached⟩ := genuine.reached v held
  obtain ⟨t,goes,ended⟩ := may config reached
  exact ⟨_,config,v,t,configured,held,goes,ended,rfl⟩

/- Every call in order comes back: the lock of the scan becomes free, the workers finish and are joined. -/
theorem processAnswers (p : Process) (c : Call) (genuine : Genuine p) (ready : Ready p c) : ∃ answer q, Answers p c answer q := by
  cases c with
  | openRoot path => exact ⟨none,p,rfl⟩
  | close fd => exact ⟨(),_,rfl⟩
  | socket => exact ⟨none,p,0,rfl⟩
  | reuseAddress fd =>
    obtain ⟨s,there,_⟩ := ready
    exact ⟨false,p,s,there,rfl⟩
  | bindPort fd port =>
    obtain ⟨⟨s,there,_⟩,_⟩ := ready
    exact ⟨false,p,s,there,rfl⟩
  | listen fd backlog =>
    obtain ⟨s,there,_⟩ := ready
    exact ⟨false,p,s,there,rfl⟩
  | getFlags fd =>
    obtain ⟨s,there⟩ := ready
    exact ⟨none,p,s,there,Or.inl rfl,rfl⟩
  | setFlags fd flags =>
    obtain ⟨s,there⟩ := ready
    exact ⟨false,p,s,there,rfl⟩
  | setupSignals => exact ⟨(),_,rfl⟩
  | epollCreate => exact ⟨none,p,rfl⟩
  | clearTable config => exact ⟨(),_,rfl⟩
  | poolCreate count => exact ⟨false,_,rfl⟩
  | setPool => exact ⟨(),_,rfl⟩
  | epollAdd epollFd fd events => exact ⟨false,_,rfl⟩
  | startTime =>
    obtain ⟨_,_,_,⟨config,count,configured,pooled,_⟩,_⟩ := ready
    exact ⟨(0 : Int),_,config,count,configured,pooled,rfl⟩
  | running => exact ⟨false,_,rfl⟩
  | epollWait epollFd =>
    obtain ⟨_,v,held,_⟩ := ready
    obtain ⟨q,moves⟩ := movedMay genuine held (fun _ => false) anywhere
      (fun config _ => ⟨v.state,goesRefl,trivial⟩)
    exact ⟨.interrupted,q,moves⟩
  | accept epollFd listenFd =>
    obtain ⟨_,v,held,rest,here⟩ := ready
    have enters (config) : step config v.own v.state .acceptEvent = some {v.state with main := .accepting rest} := by
      simp only [step, here]
    obtain ⟨q,moves⟩ := movedMay genuine held accepts handled (fun config _ =>
      ⟨{v.state with main := .batch rest},goesTrans (goesOne (a := .acceptEvent) (Or.inr rfl) (enters config))
        (goesOne (a := .acceptEnds) (Or.inr rfl) rfl),.incoming,rest,here,rfl⟩)
    exact ⟨(),q,moves⟩
  | dispatch epollFd fd =>
    obtain ⟨_,_,v,held,n,rest,here,_⟩ := ready
    have moves (config) : step config v.own v.state .dispatch =
        some {v.state with main := .batch rest, queue := v.state.queue ++ [n]} := by
      simp only [step, dispatch, here]
    obtain ⟨q,moves⟩ := movedMay genuine held dispatches handled (fun config _ =>
      ⟨_,goesOne (a := .dispatch) (Or.inr rfl) (moves config),.ready n,rest,here,rfl⟩)
    exact ⟨(),q,moves⟩
  | time =>
    obtain ⟨v,held,here⟩ := ready
    obtain ⟨config,configured,_⟩ := genuine.reached v held
    have ends : ∃ t, step config v.own v.state .batchEnds = some t := by
      simp only [step, here]
      split
      · exact ⟨_,rfl⟩
      · exact ⟨_,rfl⟩
    obtain ⟨t,made⟩ := ends
    exact ⟨v.state.clock,_,config,v,v.state,t,configured,held,goesRefl,rfl,made,rfl⟩
  | checkTimeout epollFd =>
    obtain ⟨_,v,held,since,here⟩ := ready
    obtain ⟨q,moves⟩ := movedMay genuine held checks rejoined
      (fun config reached => checkReturns reached here)
    exact ⟨(),q,moves⟩
  | poolDestroy =>
    obtain ⟨_,v,held,here⟩ := ready
    have stopped (config) : step config v.own v.state .stop = some {v.state with main := .draining} := by
      simp only [step, here]
    obtain ⟨q,moves⟩ := movedMay (p := {p with pool := none}) (genuineSame genuine rfl rfl) held stops drained
      (fun config reached => by
        obtain ⟨t,goes,main,done⟩ := @comesToRest config v.own _ stops (reachNext reached (stopped config)) rfl
        exact ⟨t,goesTrans (goesOne (a := .stop) (Or.inr rfl) (stopped config)) goes,main,done⟩)
    exact ⟨(),q,moves⟩
  | cleanup =>
    obtain ⟨_,v,held,draining,empty,idle⟩ := ready
    obtain ⟨q,moves⟩ := movedMay genuine held cleans ceased (fun config reached => by
      obtain ⟨t,made,stopped⟩ := Draining.cleaned reached draining empty idle
      exact ⟨t,goesOne (a := .cleanup) (Or.inr rfl) made,stopped.main⟩)
    exact ⟨(),q,moves⟩

end

section
variable {listenFd : Nat} {s : Socket}

theorem changedAlone (change : Socket → Socket) :
    changes (alone listenFd s) listenFd change true (alone listenFd (change s)) :=
  ⟨s,holdingSocket _ _,by simp only [if_true, Process.put, alone, holding, Function.update_idem]⟩

/- The workers of the pool have nothing to do. -/
theorem mayStop {config : ServerConfig} {own : Nat → Bool} {pool : Option Int} {w : Option Nat}
    {t : State} (here : t.main = .wait) (empty : t.queue = []) (idle : ∀ p ∈ t.workers, p = .idle) :
    May process (do threadPoolDestroy; epollHandlerCleanup; close 4; close listenFd; return true)
      ⟨watched listenFd s 4 w,true,some config,pool,true,some ⟨own,t⟩⟩ (fun ended q => ended = true ∧ q.serving ≠ none) := by
  have stopped : step config own t .stop = some {t with main := .draining} := by
    simp only [step, here]
  have cleaned : ∃ u, step config own {t with main := .draining} .cleanup = some u ∧ u.main = .stopped := by
    simp only [step]
    rw [if_pos ⟨empty,idle⟩]
    exact ⟨_,rfl,rfl⟩
  obtain ⟨u,cleans,main⟩ := cleaned
  rw [mayBind]
  refine mayAsk () ⟨watched listenFd s 4 w,true,some config,none,true,some ⟨own,{t with main := .draining}⟩⟩
    ⟨config,_,_,rfl,rfl,goesOne (a := .stop) (Or.inr rfl) stopped,⟨rfl,empty,idle⟩,rfl⟩ ?_
  rw [mayBind]
  refine mayAsk () ⟨watched listenFd s 4 w,true,some config,none,true,some ⟨own,u⟩⟩
    ⟨config,_,_,rfl,rfl,goesOne (a := .cleanup) (Or.inr rfl) cleans,main,rfl⟩ ?_
  rw [mayBind]
  refine mayAsk () _ rfl ?_
  rw [mayBind]
  refine mayAsk () _ rfl ?_
  exact mayPure ⟨rfl,by simp [Process.put]⟩

/- Nothing fails, and the signal comes before the first event. -/
theorem mayRun (config : ServerConfig) (turns : Nat) : May process (serverRun 3 config (turns+1)) (alone 3 s)
    (fun ended q => ended = true ∧ q.serving ≠ none) := by
  let n : Socket := {s with flags := s.flags ||| nonblock}
  rw [serverRun, mayBind, setNonblocking, mayBind]
  refine mayAsk (some s.flags) _ ⟨s,holdingSocket 3 s,Or.inr rfl,rfl⟩ ?_
  refine mayAsk true (alone 3 n) (changedAlone (fun t => {t with flags := s.flags ||| nonblock})) ?_
  rw [if_neg (by simp), mayBind]
  refine mayAsk () ⟨holding 3 n,true,none,none,false,none⟩ rfl ?_
  rw [mayBind]
  refine mayAsk (some 4) ⟨watched 3 n 4 none,true,none,none,false,none⟩ ⟨rfl,rfl⟩ ?_
  dsimp only
  rw [mayBind, epollHandlerInit, mayBind]
  refine mayAsk () ⟨watched 3 n 4 none,true,some config,none,false,none⟩ rfl (mayPure ?_)
  rw [if_neg (by decide), mayBind]
  generalize (if config.threadCount > 0 then config.threadCount else defaultThreadCount) = count
  refine mayAsk true ⟨watched 3 n 4 none,true,some config,some count,false,none⟩ rfl ?_
  rw [if_neg (by simp), mayBind]
  refine mayAsk () ⟨watched 3 n 4 none,true,some config,some count,true,none⟩ rfl ?_
  rw [mayBind]
  refine mayAsk true ⟨watched 3 n 4 (some 3),true,some config,some count,true,none⟩
    (by simp only [process, Answers, if_true, Process.put, watched, Function.update_idem]) ?_
  rw [if_neg (by simp), mayBind]
  refine mayAsk (0 : Int) _ ⟨config,_,rfl,rfl,rfl⟩ ?_
  rw [mayBind, serveLoop, mayBind]
  refine mayAsk false _ rfl ?_
  rw [if_pos (by simp)]
  refine mayPure ?_
  rw [if_neg (by simp)]
  exact mayStop rfl rfl (fun p member => List.eq_of_mem_replicate member)

theorem mayInit (config : ServerConfig) : May process (serverInit config) boot
    (fun answer q => answer = some 3 ∧ q = alone 3 ⟨true,some config.port,true,0⟩) := by
  rw [serverInit, mayBind]
  refine mayAsk (some 3) (alone 3 ⟨false,none,false,0⟩) ⟨0,rfl,rfl⟩ ?_
  dsimp only
  rw [mayBind]
  refine mayAsk true _ (changedAlone (fun s => {s with reuse := true})) ?_
  rw [if_neg (by simp), mayBind]
  refine mayAsk true _ (changedAlone (fun s => {s with port := some config.port})) ?_
  rw [if_neg (by simp), mayBind]
  refine mayAsk true _ (changedAlone (fun s => {s with listening := true})) ?_
  rw [if_neg (by simp)]
  exact mayPure ⟨rfl,rfl⟩

theorem mayServe {argv : List Bytes} {config : ServerConfig} (parsed : Main.run argv = .ok config) (turns : Nat) :
    May process (main argv (turns+1)) boot (fun answer q => answer = some 0 ∧ q.serving ≠ none) := by
  simp only [main, parsed]
  rw [mayBind]
  refine mayAsk (some 3) (boot.put 3 (some .directory)) ⟨rfl,rfl⟩ ?_
  dsimp only
  rw [mayBind]
  refine mayAsk () boot (putClosed boot rfl).symm ?_
  rw [mayBind]
  refine mayMono (mayInit config) ?_
  rintro _ _ ⟨rfl,rfl⟩
  dsimp only
  rw [mayBind]
  refine mayMono (mayRun config turns) ?_
  rintro _ q ⟨rfl,served⟩
  rw [if_neg (by simp)]
  exact mayPure ⟨rfl,served⟩

end

/- However the calls answer, main makes each in order and ends as Finished says; wherever it is, the server
it serves with is a server of Server, and it can be answered to the end. -/
theorem wholeProgram (argv : List Bytes) (turns : Nat) :
    Sound process (main argv turns) boot (Finished argv) ∧
    (∀ q p, Steps process (main argv turns) boot q p →
      Genuine p ∧ ∃ answer r, Steps process q p (.ret answer) r ∧ Finished argv answer r) ∧
    ∀ config, Main.run argv = .ok config → 0 < turns →
      ∃ p, Steps process (main argv turns) boot (.ret (some 0)) p ∧ p.serving ≠ none := by
  have meets := mainMeets argv turns
  have begun : Genuine boot := ⟨fun _ there => absurd there (by simp [boot]),fun _ there => absurd there (by simp [boot])⟩
  refine ⟨meetsSound meets,?_,?_⟩
  · intro q p steps
    exact ⟨soundInvariant genuineStep (meetsSound meets) begun steps,
      meetsEnds genuineStep processAnswers meets begun steps⟩
  · intro config parsed some'
    obtain ⟨more,rfl⟩ := Nat.exists_eq_succ_of_ne_zero (Nat.pos_iff_ne_zero.mp some')
    obtain ⟨answer,p,steps,rfl,served⟩ := mayEnds (mayServe parsed more)
    exact ⟨p,steps,served⟩

end EpollHttpServer.Lifecycle
