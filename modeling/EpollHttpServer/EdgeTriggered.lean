import EpollHttpServer.ReadBuffer
import EpollHttpServer.Segmentation
import EpollHttpServer.Lib.Simulation

/-! One connection between the peer, the kernel and the workers. With EPOLLET | EPOLLONESHOT the kernel
reports data that comes while the descriptor is armed, and at each EPOLL_CTL_ADD or MOD the data that is
already there; nothing is reported in between. The read loop ends at EAGAIN and every task that keeps
the connection ends with a MOD. -/
namespace EpollHttpServer.EdgeTriggered
open CString HttpParser FileSystem Framing Worker KeptAlive ReadBuffer Segmentation Runs Simulation

/- Armed; an event or a task is on its way; a worker is at the connection; about to call epoll_ctl;
closed. -/
inductive Phase where
  | waiting | notified | working | rearming | gone
  deriving DecidableEq

/- arrived and ended are the kernel's: what the peer has sent and read has not taken, and that it will
send no more. sent and answered are in no memory: what the peer has sent in all, and the texts that were
answered. -/
structure State where
  task : ReadBuffer.State
  phase : Phase
  ready : Bool
  arrived : Bytes
  ended : Bool
  sent : Bytes
  answered : List Bytes

inductive Action where
  | send (first : UInt8) (rest : Bytes)
  | finish
  | deliver
  | work (a : ReadBuffer.Action)
  | rearm
  | expire (now : Int)
  | refuse

/- The steps of the kernel and of the task; the others are the peer's, or the main thread's way to close
a connection: the idle scan, and a task that could not be queued. -/
def Action.serves : Action → Bool
  | .deliver => true
  | .work _ => true
  | .rearm => true
  | _ => false

def State.readable (s : State) : Bool := !s.arrived.isEmpty || s.ended

/- What read may answer is the kernel's to say. -/
def Permitted (s : State) : ReadBuffer.Action → Prop
  | .wake _ => s.phase = .notified
  | .read .again => s.phase = .working ∧ s.readable = false
  | .read .eof => s.phase = .working ∧ s.arrived = [] ∧ s.ended = true
  | .read (.data first more) => s.phase = .working ∧ first::more <+: s.arrived
  | _ => s.phase = .working

instance (s a) : Decidable (Permitted s a) := by
  unfold Permitted
  split <;> infer_instance

def taken : ReadBuffer.Action → Nat
  | .read (.data _ more) => more.length + 1
  | _ => 0

def phaseOf : Pc → Phase
  | .armed => .rearming
  | .closed => .gone
  | _ => .working

/- The text in the buffer when the answer is computed, if the connection lives on. -/
def answeredBy (before after : ReadBuffer.State) : ReadBuffer.Action → List Bytes
  | .answer _ _ => if after.pc = .armed then [before.since.flatten] else []
  | _ => []

def step (config : ServerConfig) (s : State) : Action → Option State
  | .send first rest =>
    if s.ended = false ∧ s.phase ≠ .gone then
      some {s with
        arrived := s.arrived ++ first::rest, sent := s.sent ++ first::rest
        ready := s.ready || decide (s.phase = .waiting)}
    else none
  | .finish =>
    if s.phase ≠ .gone then some {s with ended := true, ready := s.ready || decide (s.phase = .waiting)} else none
  | .deliver =>
    if s.phase = .waiting ∧ s.ready = true then some {s with phase := .notified, ready := false} else none
  | .work a =>
    if Permitted s a then match ReadBuffer.step config s.task a with
      | none => none
      | some task => some {s with
          task := task, phase := phaseOf task.pc, arrived := s.arrived.drop (taken a)
          answered := s.answered ++ answeredBy s.task task a}
    else none
  | .rearm => if s.phase = .rearming then some {s with phase := .waiting, ready := s.readable} else none
  | .expire now =>
    if s.phase ≠ .working ∧ s.task.conn.inUse = false ∧ now - s.task.conn.lastActive > connectionTimeout then
      some {s with phase := .gone}
    else none
  | .refuse => if s.phase = .notified then some {s with phase := .gone} else none

/- Between accept and the first EPOLL_CTL_ADD. -/
def channel (config : ServerConfig) : System State Action where
  start := fun s => ∃ fd now, s = ⟨⟨acceptedConnection fd now,.armed,[]⟩,.rearming,false,[],false,[],[]⟩
  step := step config

section
variable {config : ServerConfig} {s t : State} {a : Action}

/- What a step can do, guards included. -/
inductive Step (config : ServerConfig) (s : State) : Action → State → Prop where
  | send (first rest) (more : s.ended = false) (there : s.phase ≠ .gone) : Step config s (.send first rest) {s with
      arrived := s.arrived ++ first::rest, sent := s.sent ++ first::rest
      ready := s.ready || decide (s.phase = .waiting)}
  | finish (there : s.phase ≠ .gone) :
      Step config s .finish {s with ended := true, ready := s.ready || decide (s.phase = .waiting)}
  | deliver (here : s.phase = .waiting) (ready : s.ready = true) :
      Step config s .deliver {s with phase := .notified, ready := false}
  | work (a task) (may : Permitted s a) (moved : ReadBuffer.step config s.task a = some task) :
      Step config s (.work a) {s with
        task := task, phase := phaseOf task.pc, arrived := s.arrived.drop (taken a)
        answered := s.answered ++ answeredBy s.task task a}
  | rearm (here : s.phase = .rearming) : Step config s .rearm {s with phase := .waiting, ready := s.readable}
  | expire (now) (idle : s.phase ≠ .working) : Step config s (.expire now) {s with phase := .gone}
  | refuse (here : s.phase = .notified) : Step config s .refuse {s with phase := .gone}

theorem stepCases (made : step config s a = some t) : Step config s a t := by
  cases a with
  | send first rest =>
    simp only [step] at made
    split at made <;> try contradiction
    rename_i may
    cases Option.some.inj made
    exact .send first rest may.1 may.2
  | finish =>
    simp only [step] at made
    split at made <;> try contradiction
    rename_i there
    cases Option.some.inj made
    exact .finish there
  | deliver =>
    simp only [step] at made
    split at made <;> try contradiction
    rename_i may
    cases Option.some.inj made
    exact .deliver may.1 may.2
  | work a =>
    simp only [step] at made
    split at made <;> try contradiction
    rename_i may
    split at made <;> try contradiction
    rename_i task moved
    cases Option.some.inj made
    exact .work a task may moved
  | rearm =>
    simp only [step] at made
    split at made <;> try contradiction
    rename_i here
    cases Option.some.inj made
    exact .rearm here
  | expire now =>
    simp only [step] at made
    split at made <;> try contradiction
    rename_i may
    cases Option.some.inj made
    exact .expire now may.1
  | refuse =>
    simp only [step] at made
    split at made <;> try contradiction
    rename_i here
    cases Option.some.inj made
    exact .refuse here

def workOf (_ : State) : Action → Option ReadBuffer.Action
  | .work a => some a
  | _ => none

/- Seen from the task alone it is the connection of the read buffer. -/
theorem channelRefines (config : ServerConfig) :
    Refines (channel config) (fun _ _ => True) (connection config) workOf (fun s u => s.task = u) := by
  constructor
  · rintro s ⟨fd,now,rfl⟩
    exact ⟨_,⟨fd,now,rfl⟩,rfl⟩
  · rintro s a t u rfl _ made
    cases stepCases made with
    | work a task may moved => exact ⟨task,moved,rfl⟩
    | _ => exact ⟨_,rfl,rfl⟩

theorem channelFilled (reached : Reach (channel config) (fun _ _ => True) s) : Filled s.task := by
  obtain ⟨u,there,same⟩ := reachRefined (channelRefines config) reached
  rw [same]
  exact reachFilled there

/- Nobody is at the connection: it waits for the kernel, or a notice or the MOD is on its way. -/
def Phase.idle : Phase → Bool
  | .working => false
  | .gone => false
  | _ => true

structure Linked (s : State) : Prop where
  armed : s.phase.idle = true → s.task.pc = .armed ∧ judged s.task.since.flatten = false
  busy : s.phase = .working → s.task.pc ≠ .armed ∧ s.task.pc ≠ .closed
  ready : s.phase = .waiting → s.ready = s.readable
  conserved : s.sent = s.answered.flatten ++ s.task.since.flatten ++ s.arrived
  whole : ∀ r ∈ s.answered, judged r = true

theorem emptyJudged : judged [] = false := by decide +kernel

/- What is left of a task when it gives the connection up or on: the text, and whether it was answered. -/
structure Handover (s : State) (a : ReadBuffer.Action) (task : ReadBuffer.State) : Prop where
  armed : task.pc = .armed → judged task.since.flatten = false
  text : s.task.since.flatten ++ s.arrived =
    (answeredBy s.task task a).flatten ++ task.since.flatten ++ s.arrived.drop (taken a)
  whole : ∀ r ∈ answeredBy s.task task a, judged r = true

/- A step that answers nothing and takes nothing. -/
theorem plainHandover {task : ReadBuffer.State} {a : ReadBuffer.Action} (none : answeredBy s.task task a = [])
    (left : taken a = 0) (same : task.since = s.task.since) (armed : task.pc = .armed → judged task.since.flatten = false) :
    Handover s a task := by
  refine ⟨armed,?_,?_⟩
  · rw [none, left, same]
    rfl
  · rw [none]
    exact fun r member => absurd member List.not_mem_nil

theorem answerHandover (filled : Filled s.task) (here : s.task.pc = .parsing) {env : Environment} {world : World}
    {task} (moved : ReadBuffer.step config s.task (.answer env world) = some task) :
    Handover s (.answer env world) task := by
  have whole : judged s.task.since.flatten = true := by
    rw [judged, ← filled.part.text, ← filled.part.pos]
    exact filled.complete here
  simp only [ReadBuffer.step, here] at moved
  cases Option.some.inj moved
  rw [processAnswers (filled.complete here) rfl]
  split
  · exact plainHandover rfl rfl rfl (fun there => Pc.noConfusion there)
  · refine ⟨fun _ => emptyJudged,?_,?_⟩
    · simp [answeredBy, endingPc, taken]
    · intro r member
      cases List.mem_singleton.mp member
      exact whole

theorem readHandover {outcome : ReadOutcome} (may : Permitted s (.read outcome)) {task}
    (moved : ReadBuffer.step config s.task (.read outcome) = some task) : Handover s (.read outcome) task := by
  simp only [ReadBuffer.step] at moved
  split at moved <;> try contradiction
  cases outcome with
  | data first more =>
    simp only [readStep] at moved
    split at moved <;> try contradiction
    cases Option.some.inj moved
    obtain ⟨left,arrived⟩ := may.2
    refine ⟨fun there => Pc.noConfusion there,?_,fun r member => absurd member List.not_mem_nil⟩
    simp [answeredBy, taken, ← arrived]
  | _ =>
    cases Option.some.inj moved
    exact plainHandover rfl rfl rfl (fun there => Pc.noConfusion there)

theorem handover (filled : Filled s.task) {a : ReadBuffer.Action} (may : Permitted s a) {task}
    (moved : ReadBuffer.step config s.task a = some task) : Handover s a task := by
  cases a with
  | wake now =>
    simp only [ReadBuffer.step] at moved
    split at moved <;> try contradiction
    cases Option.some.inj moved
    exact plainHandover rfl rfl rfl (fun there => Pc.noConfusion there)
  | loop =>
    simp only [ReadBuffer.step] at moved
    split at moved <;> try contradiction
    split at moved
    · cases Option.some.inj moved
      exact plainHandover rfl rfl rfl (fun there => Pc.noConfusion there)
    · cases Option.some.inj moved
      exact plainHandover rfl rfl rfl (fun there => Pc.noConfusion there)
  | read outcome => exact readHandover may moved
  | check =>
    simp only [ReadBuffer.step] at moved
    split at moved <;> try contradiction
    split at moved
    · cases Option.some.inj moved
      exact plainHandover rfl rfl rfl (fun there => Pc.noConfusion there)
    · rename_i partly
      cases Option.some.inj moved
      refine plainHandover rfl rfl rfl (fun _ => ?_)
      rw [judged, ← filled.part.text, ← filled.part.pos]
      exact Bool.eq_false_iff.mpr partly
  | answer env world =>
    cases here : s.task.pc with
    | parsing => exact answerHandover filled here moved
    | _ =>
      simp only [ReadBuffer.step, here] at moved
      contradiction

theorem workLinked (linked : Linked s) {a : ReadBuffer.Action} {task} (given : Handover s a task) :
    Linked {s with
      task := task, phase := phaseOf task.pc, arrived := s.arrived.drop (taken a)
      answered := s.answered ++ answeredBy s.task task a} := by
  refine ⟨fun idle => ?_,fun busy => ?_,fun there => ?_,?_,fun r member => ?_⟩
  · dsimp only at idle ⊢
    cases pc : task.pc with
    | armed => exact ⟨rfl,given.armed pc⟩
    | _ =>
      rw [pc] at idle
      contradiction
  · dsimp only at busy ⊢
    constructor
    · intro pc
      rw [pc] at busy
      contradiction
    · intro pc
      rw [pc] at busy
      contradiction
  · dsimp only at there
    cases pc : task.pc <;> rw [pc] at there <;> contradiction
  · simp only [linked.conserved, List.flatten_append, List.append_assoc]
    rw [given.text, List.append_assoc]
  · rcases List.mem_append.mp member with before | now
    · exact linked.whole r before
    · exact given.whole r now

/- The connection changes hands while no worker is at it. -/
theorem movedLinked (linked : Linked s) {phase : Phase} {ready : Bool} (before : phase.idle = true → s.phase.idle = true)
    (rests : phase ≠ .working) (level : phase = .waiting → ready = s.readable) :
    Linked {s with phase := phase, ready := ready} :=
  ⟨fun idle => linked.armed (before idle),fun busy => absurd busy rests,level,linked.conserved,linked.whole⟩

theorem linkedStep (filled : Filled s.task) (linked : Linked s) (made : step config s a = some t) : Linked t := by
  cases stepCases made with
  | send first rest more there =>
    refine ⟨linked.armed,linked.busy,fun here => ?_,?_,linked.whole⟩
    · simp only [State.readable] at here ⊢
      rw [here]
      simp
    · simp only [linked.conserved, List.append_assoc]
  | finish there =>
    refine ⟨linked.armed,linked.busy,fun here => ?_,linked.conserved,linked.whole⟩
    simp only [State.readable] at here ⊢
    rw [here]
    simp
  | deliver here ready =>
    have waited : s.phase.idle = true := by rw [here]; rfl
    exact movedLinked linked (fun _ => waited) (by decide) (fun there => Phase.noConfusion there)
  | work a task may moved => exact workLinked linked (handover filled may moved)
  | rearm here =>
    have waited : s.phase.idle = true := by rw [here]; rfl
    exact movedLinked linked (fun _ => waited) (by decide) (fun _ => rfl)
  | expire now idle =>
    exact movedLinked linked (fun there => Bool.noConfusion there) (by decide) (fun there => Phase.noConfusion there)
  | refuse here =>
    exact movedLinked linked (fun there => Bool.noConfusion there) (by decide) (fun there => Phase.noConfusion there)

theorem reachLinked (reached : Reach (channel config) (fun _ _ => True) s) : Filled s.task ∧ Linked s := by
  refine ⟨channelFilled reached,?_⟩
  induction reached with
  | start init =>
    obtain ⟨fd,now,rfl⟩ := init
    refine ⟨fun _ => ⟨rfl,emptyJudged⟩,fun busy => Phase.noConfusion busy,fun there => Phase.noConfusion there,rfl,?_⟩
    exact fun r member => absurd member List.not_mem_nil
  | next before _ made ih => exact linkedStep (channelFilled before) ih made

/- How many steps of the server are to come, at most. Each byte is read, checked and answered at most once,
and what is readable at the MOD makes one more notice. -/
def due : Bool → Nat
  | true => 11
  | false => 0

def reserve (s : State) : Nat := due s.readable

def turns (s : State) : Nat :=
  match s.phase with
  | .waiting => due s.ready
  | .notified => 10
  | .working => match s.task.pc with
    | .looping => 9
    | .reading _ => 8
    | .checking => 3 + reserve s
    | .parsing => 2 + reserve s
    | .armed => 0
    | .closed => 0
  | .rearming => 1 + reserve s
  | .gone => 0

def price (s : State) : Nat := 16 * s.arrived.length + turns s

/- What a task step that takes nothing leaves to be paid. -/
theorem workPrice (s : State) {a : ReadBuffer.Action} (task : ReadBuffer.State) (none : taken a = 0) :
    price {s with
      task := task, phase := phaseOf task.pc, arrived := s.arrived.drop (taken a)
      answered := s.answered ++ answeredBy s.task task a} =
    16 * s.arrived.length + turns {s with task := task, phase := phaseOf task.pc} := by
  rw [none]
  rfl

theorem readPaid {outcome : ReadOutcome} {task} (may : Permitted s (.read outcome))
    (moved : ReadBuffer.step config s.task (.read outcome) = some task) : price {s with
      task := task, phase := phaseOf task.pc, arrived := s.arrived.drop (taken (.read outcome))
      answered := s.answered ++ answeredBy s.task task (.read outcome)} < price s := by
  simp only [ReadBuffer.step] at moved
  split at moved <;> try contradiction
  rename_i size here
  cases outcome with
  | again =>
    obtain ⟨working,silent⟩ := may
    cases Option.some.inj moved
    rw [workPrice s _ rfl]
    have nothing : reserve {s with task := {s.task with pc := .checking}, phase := .working} = 0 := by
      simp only [reserve, State.readable] at silent ⊢
      simp only [silent, due]
    simp only [price, turns, phaseOf, working, here, nothing]
    omega
  | error =>
    have working : s.phase = .working := may
    cases Option.some.inj moved
    rw [workPrice s _ rfl]
    simp only [price, turns, phaseOf, working, here]
    omega
  | eof =>
    have working : s.phase = .working := may.1
    cases Option.some.inj moved
    rw [workPrice s _ rfl]
    simp only [price, turns, phaseOf, working, here]
    omega
  | data first more =>
    obtain ⟨working,left,arrived⟩ := may
    simp only [readStep] at moved
    split at moved <;> try contradiction
    cases Option.some.inj moved
    simp only [price, turns, phaseOf, working, here, taken, ← arrived, List.length_drop, List.length_append, List.length_cons]
    omega

theorem workPaid {a : ReadBuffer.Action} {task} (may : Permitted s a)
    (moved : ReadBuffer.step config s.task a = some task) : price {s with
      task := task, phase := phaseOf task.pc, arrived := s.arrived.drop (taken a)
      answered := s.answered ++ answeredBy s.task task a} < price s := by
  cases a with
  | wake now =>
    have notified : s.phase = .notified := may
    simp only [ReadBuffer.step] at moved
    split at moved <;> try contradiction
    cases Option.some.inj moved
    rw [workPrice s _ rfl]
    simp only [price, turns, phaseOf, notified]
    omega
  | loop =>
    have working : s.phase = .working := may
    simp only [ReadBuffer.step] at moved
    split at moved <;> try contradiction
    rename_i here
    rw [workPrice s _ rfl]
    split at moved
    · cases Option.some.inj moved
      simp only [price, turns, phaseOf, working, here]
      omega
    · cases Option.some.inj moved
      simp only [price, turns, phaseOf, working, here]
      omega
  | read outcome => exact readPaid may moved
  | check =>
    have working : s.phase = .working := may
    simp only [ReadBuffer.step] at moved
    split at moved <;> try contradiction
    rename_i here
    rw [workPrice s _ rfl]
    split at moved
    · cases Option.some.inj moved
      simp only [price, turns, phaseOf, working, here, reserve, State.readable]
      omega
    · cases Option.some.inj moved
      simp only [price, turns, phaseOf, working, here, reserve, State.readable]
      omega
  | answer env world =>
    have working : s.phase = .working := may
    simp only [ReadBuffer.step] at moved
    split at moved <;> try contradiction
    rename_i here
    cases Option.some.inj moved
    rw [workPrice s _ rfl]
    generalize (processBuffer env config world s.task.conn).ending = ending
    cases ending with
    | closed =>
      simp only [price, turns, endingPc, phaseOf, working, here]
      omega
    | _ =>
      simp only [price, turns, endingPc, phaseOf, working, here, reserve, State.readable]
      omega

theorem servePaid (serves : a.serves = true) (made : step config s a = some t) : price t < price s := by
  cases stepCases made with
  | deliver here ready =>
    simp only [price, turns, here, ready, due]
    omega
  | work a task may moved => exact workPaid may moved
  | rearm here =>
    simp only [price, turns, here, reserve]
    omega
  | _ => contradiction

/- Of the kernel and of the task nothing is to come. -/
def Quiet (config : ServerConfig) (s : State) : Prop := ∀ a : Action, a.serves = true → step config s a = none

theorem workStuck (quiet : Quiet config s) {a : ReadBuffer.Action} (may : Permitted s a) :
    ReadBuffer.step config s.task a = none := by
  have stuck := quiet (.work a) rfl
  simp only [step, if_pos may] at stuck
  split at stuck
  · assumption
  · contradiction

theorem workingMoves (filled : Filled s.task) (linked : Linked s) (working : s.phase = .working) : ¬ Quiet config s := by
  intro quiet
  obtain ⟨notArmed,notClosed⟩ := linked.busy working
  cases here : s.task.pc with
  | armed => exact notArmed here
  | closed => exact notClosed here
  | looping =>
    have stuck := workStuck (a := .loop) quiet working
    simp only [ReadBuffer.step, here] at stuck
    split at stuck <;> contradiction
  | checking =>
    have stuck := workStuck (a := .check) quiet working
    simp only [ReadBuffer.step, here] at stuck
    split at stuck <;> contradiction
  | parsing =>
    have stuck := workStuck (a := .answer ⟨fun _ => true,0,[],[]⟩ emptyWorld) quiet working
    simp only [ReadBuffer.step, here] at stuck
    contradiction
  | reading size =>
    cases arrived : s.arrived with
    | cons first rest =>
      have stuck := workStuck (a := .read (.data first [])) quiet ⟨working,by rw [arrived]; exact ⟨rest,rfl⟩⟩
      have room : ((([first] : Bytes).length : Nat) : Int) ≤ size := by
        have positive := (filled.size size here).2
        simp only [List.length_singleton]
        omega
      simp only [ReadBuffer.step, here, readStep, if_pos room] at stuck
      contradiction
    | nil =>
      cases ended : s.ended with
      | true =>
        have stuck := workStuck (a := .read .eof) quiet ⟨working,arrived,ended⟩
        simp only [ReadBuffer.step, here, readStep] at stuck
        contradiction
      | false =>
        have silent : s.readable = false := by
          simp only [State.readable, arrived, ended]
          rfl
        have stuck := workStuck (a := .read .again) quiet ⟨working,silent⟩
        simp only [ReadBuffer.step, here, readStep] at stuck
        contradiction

/- All that the peer sent is answered or in the buffer, which holds a part of a request. -/
theorem quietServed (filled : Filled s.task) (linked : Linked s) (quiet : Quiet config s) : s.phase = .gone ∨
    s.phase = .waiting ∧ s.arrived = [] ∧ s.ended = false ∧ judged s.task.since.flatten = false := by
  cases here : s.phase with
  | gone => exact .inl rfl
  | working => exact absurd quiet (workingMoves filled linked here)
  | notified =>
    have armed := (linked.armed (by rw [here]; rfl)).1
    have stuck := workStuck (a := .wake 0) quiet here
    simp only [ReadBuffer.step, armed] at stuck
    contradiction
  | rearming =>
    have stuck := quiet .rearm rfl
    simp only [step, if_pos here] at stuck
    contradiction
  | waiting =>
    have partly := (linked.armed (by rw [here]; rfl)).2
    have level := linked.ready here
    cases ready : s.ready with
    | true =>
      have stuck := quiet .deliver rfl
      simp only [step, if_pos (And.intro here ready)] at stuck
      contradiction
    | false =>
      rw [ready] at level
      have silent : s.arrived = [] ∧ s.ended = false := by
        simpa [State.readable] using level.symm
      exact .inr ⟨rfl,silent.1,silent.2,partly⟩

/- No byte is lost between the kernel and the task, and none waits for an event that does not come: in any
interleaving, what the peer has sent is answered, in the buffer or unread; the server comes to rest after
boundedly many steps of its own, and then nothing is unread. -/
theorem nothingStranded (config : ServerConfig) (s : State) (reached : Reach (channel config) (fun _ _ => True) s) :
    (s.sent = s.answered.flatten ++ s.task.since.flatten ++ s.arrived ∧ ∀ r ∈ s.answered, judged r = true) ∧
    (∀ as t, Follows (channel config) (fun _ a => a.serves = true) s as → run (channel config) s as = some t →
      as.length + price t ≤ price s) ∧
    (Quiet config s → s.phase = .gone ∨
      s.phase = .waiting ∧ s.arrived = [] ∧ s.ended = false ∧ judged s.task.since.flatten = false) := by
  obtain ⟨filled,linked⟩ := reachLinked reached
  refine ⟨⟨linked.conserved,linked.whole⟩,fun as t follows ran => ?_,quietServed filled linked⟩
  refine runBounded (I := Reach (channel config) (fun _ _ => True)) ?_ ?_ reached follows ran
  · exact fun _ _ _ before _ made => .next before trivial made
  · exact fun _ _ _ _ serves made => servePaid serves made

theorem restQuiet (here : s.phase = .waiting) (ready : s.ready = false) : Quiet config s := by
  intro a serves
  cases made : step config s a with
  | none => rfl
  | some t =>
    cases stepCases made with
    | deliver _ due =>
      rw [ready] at due
      contradiction
    | work b task may _ =>
      have working := may
      cases b with
      | read outcome => cases outcome <;> simp [Permitted, here] at working
      | _ => simp [Permitted, here] at working
    | rearm rearming =>
      rw [here] at rearming
      contradiction
    | _ => contradiction

end

def opening : Bytes := ascii "GET /missing HT"

def closing : Bytes := ascii "TP/1.1\r\n\r\n"

/- A request in two parts; the second one comes when the read loop has ended and the MOD is not yet made. -/
def lateHalf : List Action :=
  [.rearm,.send 71 (opening.drop 1),.deliver,.work (.wake 7),.work .loop,.work (.read (arrival opening)),.work .loop,
    .work (.read .again),.send 84 (closing.drop 1),.work .check,.rearm,.deliver,.work (.wake 8),.work .loop,
    .work (.read (arrival closing)),.work .loop,.work (.read .again),.work .check,
    .work (.answer ⟨fun _ => true,8,[],[]⟩ emptyWorld),.rearm]

theorem lateServed : ∃ s : State, Reach (channel Main.defaults) (fun _ _ => True) s ∧ s.phase = .waiting ∧
    s.sent = opening ++ closing ∧ s.arrived = [] := by
  have start : Reach (channel Main.defaults) (fun _ _ => True)
      ⟨⟨acceptedConnection 5 0,.armed,[]⟩,.rearming,false,[],false,[],[]⟩ := .start ⟨5,0,rfl⟩
  obtain ⟨s,reached,seen⟩ := reachSeen start (fun s => ((s.phase,s.ready),(s.answered,s.task.since)))
    (followsAll _ lateHalf) (b := ((.waiting,false),([opening ++ closing],[]))) (by decide +kernel)
  obtain ⟨stands,text⟩ := Prod.mk.inj seen
  obtain ⟨here,ready⟩ := Prod.mk.inj stands
  obtain ⟨answered,since⟩ := Prod.mk.inj text
  obtain ⟨⟨conserved,_⟩,_,rests⟩ := nothingStranded Main.defaults s reached
  rcases rests (restQuiet here ready) with gone | ⟨_,arrived,_,_⟩
  · rw [here] at gone
    contradiction
  · rw [answered, since, arrived] at conserved
    exact ⟨s,reached,here,conserved.trans (by decide),arrived⟩

end EpollHttpServer.EdgeTriggered
