import EpollHttpServer.ClientStream
import EpollHttpServer.Sessions

/-! The clients of the whole server. Whatever the workers, the scan and the other clients do, a client that asks
for files that are there reads exactly those files. -/
namespace EpollHttpServer.Clients
open CString HttpMessage HttpStream HttpResponse HttpRequest FileSystem Framing Worker KeptAlive ClientStream CleanReuse
open Server Ownership Runs Simulation Family

/- Tasks one after the other on a connection that none of them closes: what they send, and the connection afterwards. -/
inductive Stays (config : ServerConfig) : ClientConnection → List Task → Bytes → ClientConnection → Prop
  | nil {conn} : Stays config conn [] [] conn
  | cons {conn k ks sent last} (kept : (exchange config conn k).ending ≠ .closed)
      (later : Stays config (exchange config conn k).conn ks sent last) :
      Stays config conn (k::ks) ((exchange config conn k).sent ++ sent) last

/- What a task finds in the socket, in pieces, with writes that get through. -/
def Brings (k : Task) (burst : Bytes) : Prop :=
  ∃ reads : List Bytes, (∀ c ∈ reads, c ≠ []) ∧ k.env.reads = reads.map arrival ∧ reads.flatten = burst ∧
    Delivers k.env.sends 0

section
variable {config : ServerConfig} {conn last : ClientConnection} {k : Task} {ks : List Task} {p burst sent : Bytes}

theorem staysAppend {ls : List Task} {more : Bytes} {final : ClientConnection} (first : Stays config conn ks sent last)
    (second : Stays config last ls more final) : Stays config conn (ks ++ ls) (sent ++ more) final := by
  induction first with
  | nil => exact second
  | cons kept _ ih =>
    rw [List.append_assoc]
    exact .cons kept (ih second)

theorem staysSent (stays : Stays config conn ks sent last) :
    (((exchanges config conn ks).map outcome).map Prod.fst).flatten = sent ∧
    ∀ x ∈ (exchanges config conn ks).map outcome, x.2 ≠ .closed := by
  induction stays with
  | nil => exact ⟨rfl,by simp [exchanges]⟩
  | cons kept _ ih =>
    rw [exchanges, if_neg kept]
    refine ⟨by simp only [List.map_cons, List.flatten_cons, ih.1]; rfl,?_⟩
    rw [List.map_cons]
    exact List.forall_mem_cons.mpr ⟨kept,ih.2⟩

variable (config)

/- A task as a wake-up of a session of its own. -/
theorem taskWakes (conn : ClientConnection) {reads : List Bytes} (nonempty : ∀ c ∈ reads, c ≠ [])
    (same : k.env.reads = reads.map arrival) :
    wakeUp k.env.malloc config (fun _ => k.world) ⟨conn,0,[],true⟩ ⟨k.env.now,reads,k.env.sends,nonempty⟩ =
      ⟨(exchange config conn k).conn,if (exchange config conn k).ending = .waiting then 0 else 1,
        (exchange config conn k).sent,decide ((exchange config conn k).ending ≠ .closed)⟩ := by
  simp only [wakeUp, if_true, ← same, exchange, List.nil_append, Nat.zero_add]
  rfl

theorem taskFills (part : Partly conn p) (brings : Brings k burst) (room : (p ++ burst).length ≤ bufferSize - 2)
    (partly : (isRequestComplete (buffered (p ++ burst)) (p ++ burst).length 0).1 = false) :
    (exchange config conn k).sent = [] ∧ (exchange config conn k).ending ≠ .closed ∧
    Partly (exchange config conn k).conn (p ++ burst) := by
  obtain ⟨reads,nonempty,same,rfl,_⟩ := brings
  have woken := taskWakes config conn nonempty same
  have filled := @wakeFills k.env.malloc config (fun _ => k.world) conn p 0 [] part ⟨k.env.now,reads,k.env.sends,nonempty⟩ room partly
  rw [woken] at filled
  injection filled with conns _ sends lives
  rw [conns]
  exact ⟨sends,of_decide_eq_true lives,rfl,rfl⟩

theorem taskAnswers (part : Partly conn p) (brings : Brings k burst) (room : (p ++ burst).length ≤ bufferSize - 2)
    (request : Request k.env.malloc (p ++ burst))
    (complete : (isRequestComplete (buffered (p ++ burst)) (p ++ burst).length 0).1 = true) :
    (exchange config conn k).sent = response k.env.malloc config k.world (p ++ burst) ∧
    (exchange config conn k).ending ≠ .closed ∧ Partly (exchange config conn k).conn [] := by
  obtain ⟨reads,nonempty,same,rfl,delivers⟩ := brings
  have woken := taskWakes config conn nonempty same
  have hold : Holding ⟨conn,0,[],true⟩ p 0 [] := ⟨part,rfl,rfl,rfl⟩
  have answered := @wakeAnswers k.env.malloc config (fun _ => k.world) _ p 0 [] ⟨k.env.now,reads,k.env.sends,nonempty⟩
    hold room request complete delivers
  rw [woken] at answered
  exact ⟨answered.sent,of_decide_eq_true answered.live,answered.part⟩

/- Between two requests nothing comes. -/
theorem tasksIdle {bursts : List Bytes} (brought : List.Forall₂ Brings ks bursts) (empty : ∀ b ∈ bursts, b = [])
    (part : Partly conn []) : ∃ last, Stays config conn ks [] last ∧ Partly last [] := by
  induction brought generalizing conn with
  | nil => exact ⟨conn,.nil,part⟩
  | @cons k b ks bursts brings _ ih =>
    cases empty b List.mem_cons_self
    obtain ⟨silent,kept,still⟩ := taskFills config part brings (by decide) (by decide +kernel)
    obtain ⟨last,stays,clean⟩ := ih (fun b member => empty b (List.mem_cons_of_mem _ member)) still
    have goes : Stays config conn (k::ks) ((exchange config conn k).sent ++ []) last := .cons kept stays
    rw [silent, List.append_nil] at goes
    exact ⟨last,goes,clean⟩

/- The tasks of one request, on any heap and any state of the counters. -/
theorem askServed {a : Ask} {content : Bytes} (ok : Sendable a) {bursts : List Bytes}
    (brought : List.Forall₂ Brings ks bursts) (stocked : ∀ k ∈ ks, Stocked config k.world a.uri content)
    (part : Partly conn p) (whole : p ++ bursts.flatten = a.text) (more : bursts.flatten ≠ []) :
    ∃ last, Stays config conn ks (fileMessage config a.uri content).render last ∧ Partly last [] := by
  induction brought generalizing conn p with
  | nil => exact absurd rfl more
  | @cons k b ks bursts brings brought ih =>
    have rest : (p ++ b) ++ bursts.flatten = a.text := by
      rw [← whole]
      simp
    have later : ∀ k ∈ ks, Stocked config k.world a.uri content := fun j member => stocked j (List.mem_cons_of_mem _ member)
    have size := congrArg List.length rest
    have room := ok.room
    rw [List.length_append] at size
    cases left : bursts.flatten with
    | nil =>
      rw [left, List.append_nil] at rest
      have request := askRequest ok k.env.malloc
      have complete := textComplete ok
      rw [← rest] at request complete
      obtain ⟨answered,kept,clean⟩ := taskAnswers config part brings (by omega) request complete
      have empty : ∀ b ∈ bursts, b = [] := List.flatten_eq_nil_iff.mp left
      obtain ⟨last,stays,still⟩ := tasksIdle config brought empty clean
      have goes : Stays config conn (k::ks) ((exchange config conn k).sent ++ []) last := .cons kept stays
      rw [answered, rest, List.append_nil, responseText] at goes
      have file := @askAnswer k.env.malloc config k.world a content ok (stocked k List.mem_cons_self)
      rw [parsedAlone] at file
      rw [file] at goes
      exact ⟨last,goes,still⟩
    | cons c rest' =>
      have nonempty : bursts.flatten ≠ [] := by simp [left]
      obtain ⟨h,first,long⟩ := (askRequest ok k.env.malloc).ends
      rw [← rest] at first long
      obtain ⟨silent,kept,part⟩ := taskFills config part brings (by omega) (partIncomplete first long nonempty)
      obtain ⟨last,stays,clean⟩ := ih later part rest nonempty
      have goes : Stays config conn (k::ks) ((exchange config conn k).sent ++ _) last := .cons kept stays
      rw [silent, List.nil_append] at goes
      exact ⟨last,goes,clean⟩

theorem asksServed {asks : List (Ask × Bytes)} (ok : ∀ a ∈ asks, Sendable a.1) {groups : List (List Bytes)}
    (brought : List.Forall₂ Brings ks groups.flatten) (pieces : groups.map List.flatten = asks.map (fun a => a.1.text))
    (stocked : ∀ k ∈ ks, ∀ a ∈ asks, Stocked config k.world a.1.uri a.2) (part : Partly conn []) :
    ∃ last, Stays config conn ks ((asks.map (fun a => fileMessage config a.1.uri a.2)).map Message.render).flatten last := by
  induction asks generalizing conn ks groups with
  | nil =>
    cases List.map_eq_nil_iff.mp pieces
    cases brought
    exact ⟨conn,.nil⟩
  | cons a asks ih =>
    cases groups with
    | nil => contradiction
    | cons group groups =>
      obtain ⟨whole,others⟩ := List.cons.inj pieces
      have here : Sendable a.1 := ok a List.mem_cons_self
      have nonempty : group.flatten ≠ [] := by
        rw [whole]
        exact requestNonempty (askRequest here (fun _ => true))
      rw [List.flatten_cons] at brought
      have early := List.forall₂_take_append ks group groups.flatten brought
      have late := List.forall₂_drop_append ks group groups.flatten brought
      obtain ⟨mid,stays,clean⟩ := askServed config here early
        (fun k member => stocked k (List.mem_of_mem_take member) a List.mem_cons_self) part whole nonempty
      obtain ⟨last,goes⟩ := ih (fun b member => ok b (List.mem_cons_of_mem a member)) late others
        (fun k member b inside => stocked k (List.mem_of_mem_drop member) b (List.mem_cons_of_mem a inside)) clean
      refine ⟨last,?_⟩
      have both := staysAppend stays goes
      rw [List.take_append_drop] at both
      exact both

/- A request takes at least one task. -/
theorem tasksThere {asks : List (Ask × Bytes)} (ok : ∀ a ∈ asks, Sendable a.1) {groups : List (List Bytes)}
    (brought : List.Forall₂ Brings ks groups.flatten) (pieces : groups.map List.flatten = asks.map (fun a => a.1.text))
    {a : Ask × Bytes} (member : a ∈ asks) : ks ≠ [] := by
  rintro rfl
  cases empty : groups.flatten with
  | cons b bursts =>
    rw [empty] at brought
    cases brought
  | nil =>
    have text : a.1.text ∈ groups.map List.flatten := by
      rw [pieces]
      exact List.mem_map.mpr ⟨a,member,rfl⟩
    obtain ⟨group,inside,same⟩ := List.mem_map.mp text
    rw [List.flatten_eq_nil_iff.mp empty group inside] at same
    exact requestNonempty (askRequest (ok a member) (fun _ => true)) same.symm

end

/- Any run of the server in which accept returns no descriptor that is still carried, and any connection in it:
if what its tasks found in the socket are GETs in any pieces for files that were there at each task, its client
reads these files, one after the other, and the server has not closed it. -/
theorem filesForEveryone {config : ServerConfig} {own : Nat → Bool} {now : Int} {as : List Action} {t : State}
    (follows : Follows (server config own) FreshAccept (initial config now) as)
    (ran : run (server config own) (initial config now) as = some t) (id : ConnId) {asks : List (Ask × Bytes)}
    (ok : ∀ a ∈ asks, Sendable a.1) {groups : List (List Bytes)}
    (brought : List.Forall₂ Brings ((Sessions.history config own now as id).map Prod.fst) groups.flatten)
    (pieces : groups.map List.flatten = asks.map (fun a => a.1.text))
    (stocked : ∀ l ∈ Sessions.history config own now as id, ∀ a ∈ asks, Stocked config l.1.world a.1.uri a.2) :
    readStream (asks.map (fun _ => false)) ((Sessions.history config own now as id).map (fun l => l.2.1)).flatten =
      some (asks.map (fun a => fileMessage config a.1.uri a.2)) ∧
    ∀ l ∈ Sessions.history config own now as id, l.2.2 ≠ .closed := by
  obtain ⟨fd,time,alone⟩ := Sessions.historyAlone follows ran id
  have worlds : ∀ k ∈ (Sessions.history config own now as id).map Prod.fst, ∀ a ∈ asks, Stocked config k.world a.1.uri a.2 := by
    intro k member
    obtain ⟨l,inside,rfl⟩ := List.mem_map.mp member
    exact stocked l inside
  obtain ⟨last,stays⟩ := asksServed config ok brought pieces worlds (acceptedPartly fd time)
  obtain ⟨sent,kept⟩ := staysSent stays
  rw [← alone] at sent kept
  rw [List.map_map] at sent
  refine ⟨?_,fun l member => kept l.2 (List.mem_map.mpr ⟨l,member,rfl⟩)⟩
  change readStream _ ((Sessions.history config own now as id).map (Prod.fst ∘ Prod.snd)).flatten = _
  rw [sent]
  refine filesRead config (fun a member => ?_)
  obtain ⟨l,inside⟩ := List.exists_mem_of_ne_nil _ (tasksThere ok brought pieces member)
  obtain ⟨x,there,_⟩ := List.mem_map.mp inside
  exact (stocked x there a member).small

section
variable {config : ServerConfig} {own : Nat → Bool} {now : Int} {as : List Action} {id : ConnId}

/- A task of the history is one of a worker, with what the socket gave it. -/
theorem historySource {l} (member : l ∈ Sessions.history config own now as id) :
    ∃ w env, Action.worker w (.serve env l.1.world) ∈ as ∧ l.1.env.reads = env.reads ∧ l.1.env.sends = env.sends := by
  obtain ⟨b,traced,label⟩ := List.mem_filterMap.mp member
  obtain ⟨a,inside,u,shown⟩ := traceSource traced
  unfold Sessions.view at shown
  split at shown
  · split at shown <;> try contradiction
    cases Option.some.inj shown
    contradiction
  · rename_i w env world
    obtain ⟨p,_,served⟩ := Option.bind_eq_some_iff.mp shown
    unfold Sessions.served at served
    split at served <;> try contradiction
    cases Option.some.inj served
    simp only [Move.label] at label
    split at label <;> try contradiction
    cases Option.some.inj label
    exact ⟨w,env,inside,rfl,rfl⟩
  · contradiction

/- Each task finds one piece. -/
theorem piecesBrought {ks : List Task} {bursts : List Bytes} (nonempty : ∀ b ∈ bursts, b ≠ [])
    (reads : ks.map (fun k => k.env.reads) = bursts.map (fun b => [arrival b])) (writes : ∀ k ∈ ks, k.env.sends = []) :
    List.Forall₂ Brings ks bursts := by
  induction ks generalizing bursts with
  | nil =>
    cases List.map_eq_nil_iff.mp reads.symm
    exact .nil
  | cons k ks ih =>
    cases bursts with
    | nil => contradiction
    | cons b bursts =>
      obtain ⟨first,others⟩ := List.cons.inj reads
      refine .cons ⟨[b],?_,first,by simp,?_⟩ (ih (fun c member => nonempty c (List.mem_cons_of_mem b member)) others
        (fun j member => writes j (List.mem_cons_of_mem k member)))
      · intro c member
        rw [List.mem_singleton.mp member]
        exact nonempty b List.mem_cons_self
      · rw [writes k List.mem_cons_self]
        trivial

end

def noteArrives (piece : Bytes) : Turn := .serve ⟨fun _ => true,0,[arrival piece],[]⟩ noteWorld

/- Two clients; the first asks for the file twice, at first in two pieces. -/
def notesRun : List Action :=
  arrivalOn 5 ++ arrivalOn 6 ++ [.epollWait [.ready ⟨5,0⟩,.ready ⟨6,1⟩],.dispatch,.dispatch,.batchEnds,
    .worker 0 .dequeue,.worker 1 .dequeue,.worker 1 .lookup,.worker 0 .lookup,.worker 0 .stamp,.worker 1 .stamp,
    .worker 0 (noteArrives (noteAsk.text.take 9)),.worker 0 .rearm,.epollWait [.ready ⟨5,0⟩],.dispatch,.batchEnds,.tick 3,
    .worker 2 .dequeue,.worker 2 .lookup,.worker 2 .stamp,.worker 1 (noteArrives (ascii "GET /other HTTP/1.1\r\n\r\n")),
    .worker 2 (noteArrives (noteAsk.text.drop 9)),.worker 1 .keep,.worker 2 .keep,.epollWait [.ready ⟨5,0⟩],.dispatch,
    .worker 0 .dequeue,.worker 0 .lookup,.worker 0 .stamp,.worker 0 (noteArrives noteAsk.text),.worker 0 .keep]

def notePieces : List (List Bytes) := [[noteAsk.text.take 9,noteAsk.text.drop 9],[noteAsk.text]]

theorem noteForFirst : readStream [false,false]
      ((Sessions.history Main.defaults firstFive 0 notesRun 0).map (fun l => l.2.1)).flatten =
    some [fileMessage Main.defaults noteAsk.uri (ascii "hello"),fileMessage Main.defaults noteAsk.uri (ascii "hello")] := by
  have follows : Follows (server Main.defaults firstFive) FreshAccept (initial Main.defaults 0) notesRun := by
    decide +kernel
  have ran : (run (server Main.defaults firstFive) (initial Main.defaults 0) notesRun).isSome = true := by
    decide +kernel
  obtain ⟨t,ran⟩ := Option.isSome_iff_exists.mp ran
  have each : ∀ a ∈ [(noteAsk,ascii "hello"),(noteAsk,ascii "hello")], a = (noteAsk,ascii "hello") := by
    intro a member
    simpa using member
  have given : ∀ l ∈ Sessions.history Main.defaults firstFive 0 notesRun 0, l.1.world = noteWorld ∧ l.1.env.sends = [] := by
    intro l member
    obtain ⟨w,env,inside,_,sends⟩ := historySource member
    rw [sends]
    simp only [notesRun, arrivalOn, noteArrives, List.cons_append, List.nil_append, List.mem_cons, List.not_mem_nil,
      or_false, reduceCtorEq, false_or, Action.worker.injEq, Turn.serve.injEq, and_false] at inside
    rcases inside with ⟨_,rfl,same⟩ | ⟨_,rfl,same⟩ | ⟨_,rfl,same⟩ | ⟨_,rfl,same⟩ <;> exact ⟨same,rfl⟩
  have reads : ((Sessions.history Main.defaults firstFive 0 notesRun 0).map Prod.fst).map (fun k => k.env.reads) =
      notePieces.flatten.map (fun b => [arrival b]) := by
    decide +kernel
  have brought : List.Forall₂ Brings ((Sessions.history Main.defaults firstFive 0 notesRun 0).map Prod.fst) notePieces.flatten := by
    refine piecesBrought (by decide +kernel) reads ?_
    intro k member
    obtain ⟨l,inside,rfl⟩ := List.mem_map.mp member
    exact (given l inside).2
  have served := @filesForEveryone Main.defaults firstFive 0 notesRun t follows ran 0
    [(noteAsk,ascii "hello"),(noteAsk,ascii "hello")] (fun a member => by rw [each a member]; exact noteSendable)
    notePieces brought (by decide +kernel)
    (fun l inside a member => by rw [each a member, (given l inside).1]; exact noteStocked)
  exact served.1

end EpollHttpServer.Clients
