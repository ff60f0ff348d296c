import EpollHttpServer.KeptAlive
import EpollHttpServer.CleanReuse
import EpollHttpServer.Lib.Runs

/-! The read buffer of one connection, step by step: what the reads gave since the accept or the
last reset lies in front of read_pos, NULs behind it. The steps of a task add up to
worker_process_request as the other results have it. -/
namespace EpollHttpServer.ReadBuffer
open CString HttpParser FileSystem Framing Worker KeptAlive CleanReuse Runs

/- Where the task of the connection stands: none is under way; at the head of the read loop; in
read, which may give so many bytes; before is_request_complete; before http_parse_request. -/
inductive Pc where
  | armed | looping
  | reading (size : Int)
  | checking | parsing | closed
  deriving DecidableEq

/- The last field is not in the code: what each read gave since the accept or the last reset. -/
structure State where
  conn : ClientConnection
  pc : Pc
  since : List Bytes

inductive Action where
  | wake (now : Int)
  | loop
  | read (outcome : ReadOutcome)
  | check
  | answer (env : Environment) (world : World)

def readStep (s : State) (size : Int) : ReadOutcome → Option State
  | .again => some {s with pc := .checking}
  | .error => some {s with pc := .closed}
  | .eof => some {s with pc := .closed}
  | .data first more =>
    if ((first::more).length : Int) ≤ size then
      some ⟨receive s.conn (first::more),.looping,s.since ++ [first::more]⟩
    else none

def endingPc : Ending → Pc
  | .closed => .closed
  | .waiting => .armed
  | .kept => .armed

/- Before http_parse_request the check has answered yes, and would again: it changes nothing. -/
def step (config : ServerConfig) (s : State) : Action → Option State
  | .wake now => match s.pc with
    | .armed => some {s with conn := {s.conn with inUse := true, lastActive := now}, pc := .looping}
    | _ => none
  | .loop => match s.pc with
    | .looping =>
      if spaceLeft s.conn ≤ 0 then some {s with pc := .closed} else some {s with pc := .reading (spaceLeft s.conn)}
    | _ => none
  | .read outcome => match s.pc with
    | .reading size => readStep s size outcome
    | _ => none
  | .check => match s.pc with
    | .checking =>
      if (isRequestComplete s.conn.readBuf s.conn.readPos 0).1 then some {s with pc := .parsing}
      else some {s with conn := {s.conn with inUse := false}, pc := .armed}
    | _ => none
  | .answer env world => match s.pc with
    | .parsing =>
      let e := processBuffer env config world s.conn
      some ⟨e.conn,endingPc e.ending,if e.ending = .kept then [] else s.since⟩
    | _ => none

def connection (config : ServerConfig) : System State Action where
  start := fun s => ∃ fd now, s = ⟨acceptedConnection fd now,.armed,[]⟩
  step := step config

structure Filled (s : State) : Prop where
  part : Partly s.conn s.since.flatten
  room : s.since.flatten.length ≤ bufferSize - 1
  size : ∀ size, s.pc = .reading size → size = spaceLeft s.conn ∧ 0 < size
  complete : s.pc = .parsing → (isRequestComplete s.conn.readBuf s.conn.readPos 0).1 = true

variable {config : ServerConfig} {s t : State} {a : Action}

def Pc.plain : Pc → Bool
  | .reading _ => false
  | .parsing => false
  | _ => true

theorem filledPlain (plain : Pc.plain s.pc = true) (part : Partly s.conn s.since.flatten)
    (room : s.since.flatten.length ≤ bufferSize - 1) : Filled s := by
  refine ⟨part,room,fun size there => ?_,fun there => ?_⟩
  · rw [there] at plain
    contradiction
  · rw [there] at plain
    contradiction

/- One read of at most space_left bytes; the terminator takes the byte that was left out. -/
theorem partlyReceive {conn : ClientConnection} {p c : Bytes} (part : Partly conn p)
    (room : (c.length : Int) ≤ spaceLeft conn) :
    Partly (receive conn c) (p ++ c) ∧ (p ++ c).length ≤ bufferSize - 1 := by
  have short : (p ++ c).length + 1 ≤ bufferSize := by
    rw [spaceLeft, part.pos] at room
    rw [List.length_append]
    omega
  refine ⟨⟨?_,?_⟩,by omega⟩
  · simp only [receive, part.text, part.pos]
    exact bufferedAppend short
  · simp only [receive, part.pos, List.length_append]

/- After the check: the buffer as it was, or cleared for the next request. -/
theorem processPartly {env : Environment} {world : World} {conn : ClientConnection} {since : List Bytes}
    (part : Partly conn since.flatten) (room : since.flatten.length ≤ bufferSize - 1) {e}
    (same : processBuffer env config world conn = e) {left} (cleared : (if e.ending = .kept then [] else since) = left) :
    Partly e.conn left.flatten ∧ left.flatten.length ≤ bufferSize - 1 := by
  subst same cleared
  cases complete : (isRequestComplete conn.readBuf conn.readPos 0).1 with
  | true =>
    rw [processAnswers complete rfl]
    split
    · exact ⟨⟨part.text,part.pos⟩,room⟩
    · exact ⟨acceptedPartly _ _,Nat.zero_le _⟩
  | false =>
    rw [processWaits complete]
    exact ⟨⟨part.text,part.pos⟩,room⟩

theorem readFilled (filled : Filled s) {size : Int} (here : s.pc = .reading size) {outcome}
    (made : readStep s size outcome = some t) : Filled t := by
  have part := filled.part
  cases outcome with
  | again =>
    cases Option.some.inj made
    exact filledPlain rfl part filled.room
  | error =>
    cases Option.some.inj made
    exact filledPlain rfl part filled.room
  | eof =>
    cases Option.some.inj made
    exact filledPlain rfl part filled.room
  | data first more =>
    unfold readStep at made
    dsimp only at made
    split at made <;> try contradiction
    rename_i fits
    cases Option.some.inj made
    rw [(filled.size size here).1] at fits
    obtain ⟨after,room⟩ := partlyReceive part fits
    have joined : (s.since ++ [first::more]).flatten = s.since.flatten ++ first::more := by
      rw [List.flatten_append, List.flatten_singleton]
    rw [← joined] at after room
    exact filledPlain rfl after room

theorem filledStep (filled : Filled s) (made : step config s a = some t) : Filled t := by
  have part := filled.part
  cases a with
  | wake now =>
    simp only [step] at made
    split at made <;> try contradiction
    cases Option.some.inj made
    exact filledPlain rfl ⟨part.text,part.pos⟩ filled.room
  | loop =>
    simp only [step] at made
    split at made <;> try contradiction
    split at made
    · cases Option.some.inj made
      exact filledPlain rfl part filled.room
    · rename_i space
      cases Option.some.inj made
      refine ⟨part,filled.room,fun size there => ?_,fun there => ?_⟩
      · cases there
        exact ⟨rfl,Int.not_le.mp space⟩
      · contradiction
  | read outcome =>
    simp only [step] at made
    split at made <;> try contradiction
    rename_i size here
    exact readFilled filled here made
  | check =>
    simp only [step] at made
    split at made <;> try contradiction
    split at made
    · rename_i complete
      cases Option.some.inj made
      refine ⟨part,filled.room,fun _ there => ?_,fun _ => complete⟩
      contradiction
    · cases Option.some.inj made
      exact filledPlain rfl ⟨part.text,part.pos⟩ filled.room
  | answer env world =>
    simp only [step] at made
    split at made <;> try contradiction
    cases Option.some.inj made
    obtain ⟨after,room⟩ := @processPartly config env world s.conn s.since part filled.room _ rfl _ rfl
    refine filledPlain ?_ after room
    cases (processBuffer env config world s.conn).ending <;> rfl

theorem reachFilled {allowed} (reached : Reach (connection config) allowed s) : Filled s := by
  refine reachInvariant (I := Filled) ?_ (fun _ _ _ filled _ made => filledStep filled made) reached
  rintro s ⟨fd,now,rfl⟩
  exact filledPlain rfl (acceptedPartly fd now) (Nat.zero_le _)

theorem bufferedSize {p : Bytes} (room : p.length ≤ bufferSize - 1) : (buffered p).length = bufferSize ∧
    (buffered p)[p.length]? = some 0 ∧ (buffered p).take p.length = p := by
  obtain ⟨n,left⟩ : ∃ n, bufferSize - p.length = n + 1 := ⟨bufferSize - p.length - 1,by simp only [bufferSize] at *; omega⟩
  rw [buffered, left]
  refine ⟨?_,?_,List.take_left⟩
  · rw [List.length_append, List.length_replicate]
    omega
  · rw [List.getElem?_append_right (Nat.le_refl _), Nat.sub_self]
    rfl

theorem moves (reached : Reach (connection config) (fun _ _ => True) s) (a : Action) (made : step config s a = some t) :
    Reach (connection config) (fun _ _ => True) t :=
  .next reached trivial made

def afterLoop (closeConn : Bool) : Pc := if closeConn then .closed else .checking

/- The read loop is these steps; a list of outcomes that has run out stands for EAGAIN. -/
theorem loopReached (reached : Reach (connection config) (fun _ _ => True) s) (here : s.pc = .looping)
    (outcomes : List ReadOutcome) : ∃ t, Reach (connection config) (fun _ _ => True) t ∧
      t.conn = (readLoop s.conn outcomes).2 ∧ t.pc = afterLoop (readLoop s.conn outcomes).1 := by
  induction outcomes generalizing s with
  | nil =>
    by_cases full : spaceLeft s.conn ≤ 0
    · have closes := moves (t := {s with pc := .closed}) reached .loop (by simp only [step, here, if_pos full])
      have ends : readLoop s.conn [] = (true,s.conn) := by simp only [readLoop, decide_eq_true full]
      rw [ends]
      exact ⟨_,closes,rfl,rfl⟩
    · have enters := moves (t := {s with pc := .reading (spaceLeft s.conn)}) reached .loop
        (by simp only [step, here, if_neg full])
      have ends : readLoop s.conn [] = (false,s.conn) := by simp only [readLoop, decide_eq_false full]
      rw [ends]
      exact ⟨_,moves enters (.read .again) rfl,rfl,rfl⟩
  | cons outcome rest ih =>
    by_cases full : spaceLeft s.conn ≤ 0
    · have closes := moves (t := {s with pc := .closed}) reached .loop (by simp only [step, here, if_pos full])
      simp only [readLoop, if_pos full]
      exact ⟨_,closes,rfl,rfl⟩
    · have enters := moves (t := {s with pc := .reading (spaceLeft s.conn)}) reached .loop
        (by simp only [step, here, if_neg full])
      simp only [readLoop, if_neg full]
      cases outcome with
      | again => exact ⟨_,moves enters (.read .again) rfl,rfl,rfl⟩
      | error => exact ⟨_,moves enters (.read .error) rfl,rfl,rfl⟩
      | eof => exact ⟨_,moves enters (.read .eof) rfl,rfl,rfl⟩
      | data first more =>
        obtain ⟨n,size⟩ : ∃ n : Nat, spaceLeft s.conn = n + 1 := ⟨(spaceLeft s.conn - 1).toNat,by omega⟩
        have chunk : (first::more).take (spaceLeft s.conn).toNat = first :: more.take n := by
          rw [size]
          exact List.take_succ_cons
        have fits : ((first :: more.take n).length : Int) ≤ spaceLeft s.conn := by
          rw [List.length_cons, size]
          have short := List.length_take_le n more
          omega
        have reads : step config {s with pc := .reading (spaceLeft s.conn)} (.read (.data first (more.take n))) =
            some ⟨receive s.conn (first :: more.take n),.looping,s.since ++ [first :: more.take n]⟩ := by
          simp only [step, readStep, if_pos fits]
        dsimp only
        rw [chunk]
        exact ih (moves enters _ reads) rfl

/- A whole task is these steps. -/
theorem taskReached (reached : Reach (connection config) (fun _ _ => True) s) (here : s.pc = .armed) (k : Task) :
    ∃ t, Reach (connection config) (fun _ _ => True) t ∧ t.conn = (exchange config s.conn k).conn ∧
      t.pc = endingPc (exchange config s.conn k).ending := by
  have woken := moves (t := {s with conn := {s.conn with inUse := true, lastActive := k.env.now}, pc := .looping})
    reached (.wake k.env.now) (by simp only [step, here])
  obtain ⟨read,after,same,stands⟩ := loopReached woken rfl k.env.reads
  unfold exchange workerProcessRequest serve
  dsimp only at same stands
  generalize readLoop {s.conn with inUse := true, lastActive := k.env.now} k.env.reads = seen at same stands ⊢
  obtain ⟨stops,conn⟩ := seen
  cases stops with
  | true => exact ⟨read,after,same,stands⟩
  | false =>
    obtain ⟨held,pc,since⟩ := read
    cases same
    cases stands
    cases complete : (isRequestComplete conn.readBuf conn.readPos 0).1 with
    | true =>
      have checked := moves (t := ⟨conn,.parsing,since⟩) after .check (by simp only [step, complete, if_true])
      exact ⟨_,moves checked (.answer k.env k.world) rfl,rfl,rfl⟩
    | false =>
      have waits := moves (t := ⟨{conn with inUse := false},.armed,since⟩) after .check
        (by simp only [step, complete, Bool.false_eq_true, if_false])
      dsimp only
      rw [processWaits complete]
      exact ⟨_,waits,rfl,rfl⟩

theorem exchangesReached (reached : Reach (connection config) (fun _ _ => True) s) (here : s.pc = .armed)
    {tasks : List Task} {e : Exchange} (member : e ∈ exchanges config s.conn tasks) :
    ∃ t, Reach (connection config) (fun _ _ => True) t ∧ t.conn = e.conn ∧ t.pc = endingPc e.ending := by
  induction tasks generalizing s with
  | nil => exact absurd member List.not_mem_nil
  | cons k later ih =>
    obtain ⟨t,after,same,stands⟩ := taskReached reached here k
    simp only [exchanges] at member
    split at member
    · cases List.mem_singleton.mp member
      exact ⟨t,after,same,stands⟩
    · rename_i goes
      rcases List.mem_cons.mp member with rfl | member
      · exact ⟨t,after,same,stands⟩
      · rw [← same] at member
        refine ih after ?_ member
        rw [stands]
        cases ending : (exchange config s.conn k).ending with
        | closed => exact absurd ending goes
        | waiting => rfl
        | kept => rfl

/- Between the wake-ups of a connection too the buffer is a text and NULs behind it. -/
theorem exchangesFilled (fd : Nat) (now : Int) {tasks : List Task} {e : Exchange}
    (member : e ∈ exchanges config (acceptedConnection fd now) tasks) :
    ∃ p, Partly e.conn p ∧ p.length ≤ bufferSize - 1 := by
  have start : Reach (connection config) (fun _ _ => True) ⟨acceptedConnection fd now,.armed,[]⟩ := .start ⟨fd,now,rfl⟩
  obtain ⟨t,reached,same,_⟩ := exchangesReached start rfl member
  have filled := reachFilled reached
  rw [← same]
  exact ⟨_,filled.part,filled.room⟩

/- In every state of every run, so at each turn of the read loop and at the calls behind it; and in what the
tasks of a connection leave, one after another. -/
theorem bufferHolds (config : ServerConfig) : (∀ s, Reach (connection config) (fun _ _ => True) s →
    s.conn.readBuf.length = bufferSize ∧ s.conn.readPos ≤ bufferSize - 1 ∧ s.conn.readBuf[s.conn.readPos]? = some 0 ∧
    s.conn.readBuf.take s.conn.readPos = s.since.flatten ∧
    ∀ size, s.pc = .reading size → 0 < size ∧ s.conn.readPos + size + 1 ≤ bufferSize) ∧
    ∀ fd now tasks, ∀ e ∈ exchanges config (acceptedConnection fd now) tasks,
      ∃ p, Partly e.conn p ∧ p.length ≤ bufferSize - 1 := by
  refine ⟨fun s reached => ?_,fun fd now _ _ member => exchangesFilled fd now member⟩
  have filled := reachFilled reached
  obtain ⟨whole,ended,text⟩ := bufferedSize filled.room
  rw [filled.part.text, filled.part.pos]
  refine ⟨whole,filled.room,ended,text,fun size there => ?_⟩
  obtain ⟨same,positive⟩ := filled.size size there
  rw [same, spaceLeft, filled.part.pos] at positive ⊢
  omega

/- A head in two parts, the second one with a wake-up of its own. -/
def twoParts : List Action :=
  [.wake 7,.loop,.read (arrival (ascii "GET / HT")),.loop,.read .again,.check,.wake 9,.loop,
    .read (arrival (ascii "TP/1.1\r\n")),.loop]

theorem partsHeld : ∃ s : State, Reach (connection Main.defaults) (fun _ _ => True) s ∧ s.pc = .reading 4079 ∧
    s.conn.readBuf.take s.conn.readPos = ascii "GET / HTTP/1.1\r\n" ∧ s.conn.readBuf[s.conn.readPos]? = some 0 := by
  have start : Reach (connection Main.defaults) (fun _ _ => True) ⟨acceptedConnection 5 0,.armed,[]⟩ := .start ⟨5,0,rfl⟩
  obtain ⟨s,reached,seen⟩ := reachSeen start (fun s => (s.pc,s.since)) (followsAll _ twoParts)
    (b := (.reading 4079,[ascii "GET / HT",ascii "TP/1.1\r\n"])) (by decide +kernel)
  obtain ⟨here,since⟩ := Prod.mk.inj seen
  obtain ⟨_,_,ended,text,_⟩ := (bufferHolds Main.defaults).1 s reached
  rw [since] at text
  exact ⟨s,reached,here,text.trans (by decide),ended⟩

end EpollHttpServer.ReadBuffer
