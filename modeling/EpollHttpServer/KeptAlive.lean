import EpollHttpServer.Worker

/-! Several requests on one connection. A wake-up drains the socket, answers at most one
request and clears the buffer, so what stands behind the first blank line of a burst is
lost; requests that end where a burst ends are all answered. -/
namespace EpollHttpServer.KeptAlive
open CString Crlf HttpParser HttpResponse FileSystem Framing Worker

/- What one task of the connection gets from the socket: the data of its reads, up to
EAGAIN, and the outcomes of its writes. -/
structure Wake where
  now : Int
  reads : List Bytes
  sends : List WriteOutcome
  nonempty : ∀ c ∈ reads, c ≠ []

def Wake.burst (k : Wake) : Bytes := k.reads.flatten

structure Session where
  conn : ClientConnection
  handled : Nat
  sent : Bytes
  live : Bool

section
variable (malloc : Nat → Bool) (config : ServerConfig) (worlds : Nat → World)

/- The n-th answer is computed in the n-th world. -/
def wakeUp (s : Session) (k : Wake) : Session :=
  if s.live then
    let e := workerProcessRequest ⟨malloc,k.now,k.reads.map arrival,k.sends⟩ config (worlds s.handled) s.conn
    { conn := e.conn
      handled := if e.ending = .waiting then s.handled else s.handled + 1
      sent := s.sent ++ e.sent
      live := e.ending ≠ .closed }
  else s

def session (s : Session) (wakes : List Wake) : Session := wakes.foldl (wakeUp malloc config worlds) s

/- read_buf with the text in it and nothing behind it. -/
def buffered (p : Bytes) : Bytes := p ++ List.replicate (bufferSize - p.length) 0

/- The response to a request that stands alone in the buffer of a new connection. -/
def response (w : World) (r : Bytes) : Bytes :=
  written (parseAndHandle (httpParseRequest malloc (buffered r) r.length) (acceptedConnection 0 0) config w).conn

theorem responseText (w : World) (r : Bytes) : response malloc config w r =
    (answer (httpParseRequest malloc (buffered r) r.length) config w).message.render :=
  (answerHeld _ _ config w).text

def responses : Nat → List Bytes → Bytes
  | _,[] => []
  | n,r::rs => response malloc config (worlds n) r ++ responses (n+1) rs

/- A complete request without a body that asks for the connection to be kept. -/
structure Request (r : Bytes) : Prop where
  noNul : (0 : UInt8) ∉ r
  ends : ∃ h, FirstAt blank r h ∧ r.length = h + 4
  parsed : ∃ req, httpParseRequest malloc (buffered r) r.length = some req ∧ req.keepAlive = true ∧
    req.contentLength ≤ 0

end

/- Every request is the data of some consecutive bursts, and found complete when it stands alone. -/
structure Aligned (wakes : List Wake) (rs : List Bytes) : Prop where
  groups : ∃ groups : List (List Wake), wakes = groups.flatten ∧
    rs = groups.map (fun g => (g.map Wake.burst).flatten)
  complete : ∀ r ∈ rs, (isRequestComplete (buffered r) r.length 0).1 = true

/- The buffer of the connection holds p. -/
structure Partly (conn : ClientConnection) (p : Bytes) : Prop where
  text : conn.readBuf = buffered p
  pos : conn.readPos = p.length

theorem acceptedPartly (fd now) : Partly (acceptedConnection fd now) [] := ⟨rfl,rfl⟩

theorem bufferedAppend {p c : Bytes} (room : (p ++ c).length < bufferSize) :
    (blit (buffered p) p.length c).set (p.length + c.length) 0 = buffered (p ++ c) := by
  rw [List.length_append] at room
  have size : p.length + c.length = (p ++ c).length := List.length_append.symm
  rw [buffered, blitAfter rfl, List.drop_replicate, size, List.set_append_right _ _ (Nat.le_refl _), Nat.sub_self]
  obtain ⟨n,hn⟩ : ∃ n, bufferSize - p.length - c.length = n + 1 :=
    ⟨bufferSize - p.length - c.length - 1,by omega⟩
  rw [buffered, ← size, Nat.sub_add_eq, hn]
  rfl

/- Data that fits is appended, however the reads cut it, and the loop goes on from there. -/
theorem readThrough {conn p} (part : Partly conn p) {chunks : List Bytes} (nonempty : ∀ c ∈ chunks, c ≠ [])
    (room : (p ++ chunks.flatten).length ≤ bufferSize - 1) (more : List ReadOutcome) :
    readLoop conn (chunks.map arrival ++ more) = readLoop {conn with
      readBuf := buffered (p ++ chunks.flatten), readPos := (p ++ chunks.flatten).length} more := by
  induction chunks generalizing conn p with
  | nil => simp only [List.map_nil, List.nil_append, List.flatten_nil, List.append_nil, ← part.text, ← part.pos]
  | cons c chunks ih =>
    have rest : p ++ (c::chunks).flatten = (p ++ c) ++ chunks.flatten := by simp
    rw [rest] at room ⊢
    have fits : (p ++ c).length ≤ bufferSize - 1 := by
      rw [List.length_append] at room
      omega
    cases c with
    | nil => exact absurd rfl (nonempty [] (by simp))
    | cons first tail =>
      have space : ¬ spaceLeft conn ≤ 0 ∧ (first::tail).length ≤ (spaceLeft conn).toNat := by
        simp only [List.length_append, List.length_cons, bufferSize] at fits
        simp only [spaceLeft, part.pos, bufferSize, List.length_cons]
        omega
      have all : (first::tail).take (spaceLeft conn).toNat = first::tail := List.take_of_length_le space.2
      simp only [List.map_cons, List.cons_append, arrival, readLoop, if_neg space.1, all]
      have received : Partly (receive conn (first::tail)) (p ++ first::tail) := by
        refine ⟨?_,?_⟩
        · simp only [receive, part.text, part.pos]
          refine bufferedAppend ?_
          simp only [bufferSize] at fits ⊢
          omega
        · simp only [receive, part.pos, List.length_append]
      exact ih received (fun c hc => nonempty c (List.mem_cons_of_mem _ hc)) room

/- Short of the limit the loop ends with EAGAIN. -/
theorem readAppends {conn p} (part : Partly conn p) {chunks : List Bytes} (nonempty : ∀ c ∈ chunks, c ≠ [])
    (room : (p ++ chunks.flatten).length ≤ bufferSize - 2) :
    readLoop conn (chunks.map arrival) = (false,{conn with
      readBuf := buffered (p ++ chunks.flatten), readPos := (p ++ chunks.flatten).length}) := by
  have through := readThrough part nonempty (room.trans (by decide)) []
  rw [List.append_nil] at through
  have space : ¬ spaceLeft {conn with
      readBuf := buffered (p ++ chunks.flatten), readPos := (p ++ chunks.flatten).length} ≤ 0 := by
    simp only [bufferSize] at room
    simp only [spaceLeft, bufferSize]
    omega
  rw [through, readLoop, decide_eq_false space]

/- A part of a request has no blank line yet. -/
theorem partIncomplete {p q : Bytes} {h : Nat} (first : FirstAt blank (p ++ q) h)
    (ends : (p ++ q).length = h + 4) (more : q ≠ []) :
    (isRequestComplete (buffered p) p.length 0).1 = false := by
  have absent : ¬ blank <:+: p := by
    rintro ⟨a,b,same⟩
    have early : a.length < h := by
      have positive := List.length_pos_iff.mpr more
      have size := congrArg List.length same
      simp only [List.length_append, blank, crlf, List.length_cons, List.length_nil] at size ends
      omega
    refine first.before a.length early ?_
    rw [← same]
    simp [List.append_assoc]
  have hidden : strstr blank (buffered p) = none := by
    cases found : strstr blank (buffered p) with
    | none => rfl
    | some t =>
      have inside := strstrSomeInfix (by decide) found
      unfold buffered at inside
      rcases Nat.eq_zero_or_pos (bufferSize - p.length) with zero | positive
      · rw [zero, List.replicate_zero, List.append_nil] at inside
        exact absurd inside absent
      · obtain ⟨n,hn⟩ : ∃ n, bufferSize - p.length = n + 1 := ⟨bufferSize - p.length - 1,by omega⟩
        rw [hn, List.replicate_succ] at inside
        rcases infixAcross (by decide) inside with left | right
        · exact absurd left absent
        · have cr : (13 : UInt8) ∈ List.replicate n 0 := right.subset (by decide)
          exact absurd (List.eq_of_mem_replicate cr) (by decide)
  simp only [isRequestComplete, hidden]

structure Holding (s : Session) (p : Bytes) (n : Nat) (sent : Bytes) : Prop where
  part : Partly s.conn p
  handled : s.handled = n
  sent : s.sent = sent
  live : s.live = true

section
variable {malloc : Nat → Bool} {config : ServerConfig} {worlds : Nat → World}

/- The connection as the read loop leaves it when the buffer has come to hold p. -/
def filled (conn : ClientConnection) (now : Int) (p : Bytes) : ClientConnection :=
  {conn with inUse := true, lastActive := now, readBuf := buffered p, readPos := p.length}

theorem wakeReads {conn p} (part : Partly conn p) {k : Wake} (room : (p ++ k.burst).length ≤ bufferSize - 2) :
    readLoop {conn with inUse := true, lastActive := k.now} (k.reads.map arrival) = (false,filled conn k.now (p ++ k.burst)) := by
  have same : Partly {conn with inUse := true, lastActive := k.now} p := ⟨part.text,part.pos⟩
  exact readAppends same k.nonempty room

/- A wake-up that leaves the request incomplete. -/
theorem wakeFills {conn p n sent} (part : Partly conn p) {k : Wake} (room : (p ++ k.burst).length ≤ bufferSize - 2)
    (partly : (isRequestComplete (buffered (p ++ k.burst)) (p ++ k.burst).length 0).1 = false) :
    wakeUp malloc config worlds ⟨conn,n,sent,true⟩ k =
      ⟨{filled conn k.now (p ++ k.burst) with inUse := false},n,sent,true⟩ := by
  have waits : (isRequestComplete (filled conn k.now (p ++ k.burst)).readBuf
      (filled conn k.now (p ++ k.burst)).readPos 0).1 = false := partly
  simp only [wakeUp, if_true, workerProcessRequest, serve, wakeReads part room, processWaits waits, List.append_nil]
  rfl

/- A wake-up that completes it. -/
theorem wakeCompletes {conn p n sent} (part : Partly conn p) {k : Wake} (room : (p ++ k.burst).length ≤ bufferSize - 2)
    (complete : (isRequestComplete (buffered (p ++ k.burst)) (p ++ k.burst).length 0).1 = true)
    {parsed} (same : httpParseRequest malloc (buffered (p ++ k.burst)) (p ++ k.burst).length = parsed) {cut}
    (writes : sendLoop k.sends (answer parsed config (worlds n)).message.render 0 = cut) :
    wakeUp malloc config worlds ⟨conn,n,sent,true⟩ k =
      if cut.1 || !keepAliveAfter parsed conn then
        ⟨finished parsed (filled conn k.now (p ++ k.burst)),n+1,sent ++ cut.2,false⟩
      else ⟨acceptedConnection conn.fd k.now,n+1,sent ++ cut.2,true⟩ := by
  have whole : (isRequestComplete (filled conn k.now (p ++ k.burst)).readBuf
      (filled conn k.now (p ++ k.burst)).readPos 0).1 = true := complete
  have keep : keepAliveAfter parsed conn = keepAliveAfter parsed (filled conn k.now (p ++ k.burst)) := by
    cases parsed <;> rfl
  have goes := @processAnswers ⟨malloc,k.now,k.reads.map arrival,k.sends⟩ config (worlds n) _ whole parsed same
  dsimp only at goes
  rw [writes] at goes
  simp only [wakeUp, if_true, workerProcessRequest, serve, wakeReads part room, goes, keep]
  split <;> rfl

theorem wakeWaits {s p n sent} {k : Wake} (hold : Holding s p n sent)
    (room : (p ++ k.burst).length ≤ bufferSize - 2)
    (partly : (isRequestComplete (buffered (p ++ k.burst)) (p ++ k.burst).length 0).1 = false) :
    Holding (wakeUp malloc config worlds s k) (p ++ k.burst) n sent := by
  obtain ⟨part,rfl,rfl,live⟩ := hold
  obtain ⟨conn,n,sent,_⟩ := s
  cases live
  rw [wakeFills part room partly]
  exact ⟨⟨rfl,rfl⟩,rfl,rfl,rfl⟩

theorem wakeAnswers {s p n sent} {k : Wake} (hold : Holding s p n sent)
    (room : (p ++ k.burst).length ≤ bufferSize - 2) (request : Request malloc (p ++ k.burst))
    (complete : (isRequestComplete (buffered (p ++ k.burst)) (p ++ k.burst).length 0).1 = true)
    (ok : Delivers k.sends 0) :
    Holding (wakeUp malloc config worlds s k) [] (n+1)
      (sent ++ response malloc config (worlds n) (p ++ k.burst)) := by
  obtain ⟨part,rfl,rfl,live⟩ := hold
  obtain ⟨conn,n,sent,_⟩ := s
  cases live
  obtain ⟨req,parsed,keep,_⟩ := request.parsed
  have alone : response malloc config (worlds n) (p ++ k.burst) =
      (answer (some req) config (worlds n)).message.render := by
    rw [responseText, parsed]
  rw [wakeCompletes part room complete parsed (sendDelivered ok _), alone]
  simp only [keepAliveAfter, keep, Bool.not_true, Bool.or_false, Bool.false_eq_true, if_false]
  exact ⟨acceptedPartly _ _,rfl,rfl,rfl⟩

theorem idleWakes {s n sent} {g : List Wake} (hold : Holding s [] n sent) (empty : ∀ k ∈ g, k.burst = []) :
    Holding (session malloc config worlds s g) [] n sent := by
  induction g generalizing s with
  | nil => exact hold
  | cons k g ih =>
    have nothing := empty k (by simp)
    have waits := @wakeWaits malloc config worlds s [] n sent k hold (by rw [nothing]; decide)
      (by rw [nothing]; decide +kernel)
    rw [nothing] at waits
    exact ih waits (fun j hj => empty j (List.mem_cons_of_mem _ hj))

theorem groupAnswers {r} (request : Request malloc r) (room : r.length ≤ bufferSize - 2)
    (complete : (isRequestComplete (buffered r) r.length 0).1 = true) {g : List Wake}
    (delivers : ∀ k ∈ g, Delivers k.sends 0) {s p n sent} (hold : Holding s p n sent)
    (whole : p ++ (g.map Wake.burst).flatten = r) (more : (g.map Wake.burst).flatten ≠ []) :
    Holding (session malloc config worlds s g) [] (n+1) (sent ++ response malloc config (worlds n) r) := by
  induction g generalizing s p with
  | nil => exact absurd rfl more
  | cons k g ih =>
    have rest : (p ++ k.burst) ++ (g.map Wake.burst).flatten = r := by
      rw [← whole]
      simp
    cases left : (g.map Wake.burst).flatten with
    | nil =>
      rw [left, List.append_nil] at rest
      rw [← rest] at request room complete ⊢
      have answered : Holding (wakeUp malloc config worlds s k) [] (n+1)
          (sent ++ response malloc config (worlds n) (p ++ k.burst)) :=
        wakeAnswers hold room request complete (delivers k (by simp))
      have idle : ∀ j ∈ g, j.burst = [] := fun j hj =>
        List.flatten_eq_nil_iff.mp left _ (List.mem_map.mpr ⟨j,hj,rfl⟩)
      have later : Holding (session malloc config worlds (wakeUp malloc config worlds s k) g) [] (n+1)
          (sent ++ response malloc config (worlds n) (p ++ k.burst)) := idleWakes answered idle
      exact later
    | cons b more =>
      have nonempty : (g.map Wake.burst).flatten ≠ [] := by simp [left]
      obtain ⟨h,first,size⟩ := request.ends
      rw [← rest] at first size room
      have fits : (p ++ k.burst).length ≤ bufferSize - 2 := by
        rw [List.length_append] at room
        omega
      exact ih (fun j hj => delivers j (List.mem_cons_of_mem _ hj))
        (wakeWaits hold fits (partIncomplete first size nonempty)) rest nonempty

theorem requestNonempty {r} (request : Request malloc r) : r ≠ [] := by
  obtain ⟨h,_,size⟩ := request.ends
  intro empty
  rw [empty, List.length_nil] at size
  omega

theorem groupsAnswer {groups : List (List Wake)} (delivers : ∀ g ∈ groups, ∀ k ∈ g, Delivers k.sends 0)
    (requests : ∀ r ∈ groups.map (fun g => (g.map Wake.burst).flatten), Request malloc r ∧
      r.length ≤ bufferSize - 2 ∧ (isRequestComplete (buffered r) r.length 0).1 = true)
    {s n sent} (hold : Holding s [] n sent) :
    Holding (session malloc config worlds s groups.flatten) [] (n + groups.length)
      (sent ++ responses malloc config worlds n (groups.map (fun g => (g.map Wake.burst).flatten))) := by
  induction groups generalizing s n sent with
  | nil => simpa [session, responses] using hold
  | cons g groups ih =>
    obtain ⟨request,room,complete⟩ := requests _ List.mem_cons_self
    have answered : Holding (session malloc config worlds s g) [] (n+1)
        (sent ++ response malloc config (worlds n) (g.map Wake.burst).flatten) :=
      groupAnswers request room complete (delivers g List.mem_cons_self) hold rfl (requestNonempty request)
    have later := ih (fun j hj => delivers j (List.mem_cons_of_mem _ hj))
      (fun r hr => requests r (List.mem_cons_of_mem _ hr)) answered
    have count : n + (g::groups).length = n + 1 + groups.length := by simp only [List.length_cons]; omega
    rw [count]
    simpa [session, responses] using later

end

/- A connection as it is accepted, before its first event. -/
def started (fd : Nat) (now : Int) : Session := ⟨acceptedConnection fd now,0,[],true⟩

theorem alignedAnswered {malloc : Nat → Bool} {rs : List Bytes} {wakes : List Wake}
    (requests : ∀ r ∈ rs, Request malloc r) (room : rs.flatten.length ≤ bufferSize - 2)
    (aligned : Aligned wakes rs) (delivers : ∀ k ∈ wakes, Delivers k.sends 0) (config worlds fd now) :
    (session malloc config worlds (started fd now) wakes).sent = responses malloc config worlds 0 rs ∧
    (session malloc config worlds (started fd now) wakes).live = true := by
  obtain ⟨groups,rfl,rfl⟩ := aligned.groups
  have each : ∀ r ∈ groups.map (fun g => (g.map Wake.burst).flatten), r.length ≤ bufferSize - 2 := by
    intro r hr
    exact (List.Sublist.length_le (List.sublist_flatten_of_mem hr)).trans room
  have start : Holding (started fd now) [] 0 [] := ⟨acceptedPartly fd now,rfl,rfl,rfl⟩
  have done := @groupsAnswer malloc config worlds groups
    (fun g hg k hk => delivers k (List.mem_flatten.mpr ⟨g,hg,hk⟩))
    (fun r hr => ⟨requests r hr,each r hr,aligned.complete r hr⟩) _ _ _ start
  exact ⟨by simpa using done.sent,done.live⟩

def rootRequest : Bytes := ascii "GET / HTTP/1.1\r\n\r\n"

def oneWake (c : Bytes) (nonempty : c ≠ []) : Wake := ⟨0,[c],[],by simpa using nonempty⟩

theorem rootComplete : Request (fun _ => true) rootRequest := by
  have parsed : (httpParseRequest (fun _ => true) (buffered rootRequest) rootRequest.length).map
      (fun req => (req.keepAlive,decide (req.contentLength ≤ 0))) = some (true,true) := by
    decide +kernel
  obtain ⟨req,ok,same⟩ := Option.map_eq_some_iff.mp parsed
  have keep := congrArg Prod.fst same
  have bodyless := congrArg Prod.snd same
  exact ⟨by decide,⟨14,by decide +kernel,by decide⟩,req,ok,keep,of_decide_eq_true bodyless⟩

theorem rootPair : ∀ r ∈ [rootRequest,rootRequest], Request (fun _ => true) r := by
  intro r hr
  simp only [List.mem_cons, List.not_mem_nil, or_false, or_self] at hr
  rw [hr]
  exact rootComplete

/- One request in two bursts, then another in one. -/
def threeWakes : List Wake :=
  [oneWake (rootRequest.take 8) (by decide),oneWake (rootRequest.drop 8) (by decide),oneWake rootRequest (by decide)]

theorem threeAligned : Aligned threeWakes [rootRequest,rootRequest] := by
  refine ⟨⟨[[oneWake (rootRequest.take 8) (by decide),oneWake (rootRequest.drop 8) (by decide)],
    [oneWake rootRequest (by decide)]],rfl,by decide⟩,fun r hr => ?_⟩
  simp only [List.mem_cons, List.not_mem_nil, or_false, or_self] at hr
  rw [hr]
  decide +kernel

theorem threeAnswered :
    (session (fun _ => true) Main.defaults (fun _ => emptyWorld) (started 5 0) threeWakes).sent =
      responses (fun _ => true) Main.defaults (fun _ => emptyWorld) 0 [rootRequest,rootRequest] ∧
    (session (fun _ => true) Main.defaults (fun _ => emptyWorld) (started 5 0) threeWakes).live = true :=
  alignedAnswered rootPair (by decide) threeAligned (by simp [threeWakes, oneWake, Delivers]) _ _ _ _

/- Both requests in one burst: the second is cleared with the buffer. -/
def oneBurst : List Wake := [oneWake (rootRequest ++ rootRequest) (by decide)]

theorem secondLost : (∀ r ∈ [rootRequest,rootRequest], Request (fun _ => true) r) ∧
    (oneBurst.map Wake.burst).flatten = [rootRequest,rootRequest].flatten ∧
    [rootRequest,rootRequest].flatten.length ≤ bufferSize - 2 ∧ (∀ k ∈ oneBurst, Delivers k.sends 0) ∧
    (session (fun _ => true) Main.defaults (fun _ => emptyWorld) (started 5 0) oneBurst).sent ≠
      responses (fun _ => true) Main.defaults (fun _ => emptyWorld) 0 [rootRequest,rootRequest] :=
  ⟨rootPair,by decide,by decide,by simp [oneBurst, oneWake, Delivers],by decide +kernel⟩

end EpollHttpServer.KeptAlive
