import EpollHttpServer.KeptAlive

/-! One request, cut into wake-ups and reads in any way. Until it is complete the connection holds
what has arrived and nothing is sent; the answer is computed from the whole text, so two runs
that cut it differently end alike, but for the time of the last wake-up. -/
namespace EpollHttpServer.Segmentation
open CString Crlf HttpParser FileSystem Framing Worker KeptAlive

def judged (p : Bytes) : Bool := (isRequestComplete (buffered p) p.length 0).1

/- A connection as it was accepted, with p in its buffer. -/
def filling (fd : Nat) (time : Int) (p : Bytes) : ClientConnection :=
  {acceptedConnection fd time with readBuf := buffered p, readPos := p.length}

def waitingAt (fd : Nat) (time : Int) (p : Bytes) : Session := ⟨filling fd time p,0,[],true⟩

/- The close decision for the request s: a write failed, or the request does not keep the connection. -/
def closes (malloc : Nat → Bool) (config : ServerConfig) (w : World) (sends : List WriteOutcome) (s : Bytes) : Bool :=
  let parsed := httpParseRequest malloc (buffered s) s.length
  (sendLoop sends (answer parsed config w).message.render 0).1 || !keepAliveAfter parsed (filling 0 0 s)

/- The session once the request s is answered. -/
def answeredAt (malloc : Nat → Bool) (config : ServerConfig) (w : World) (sends : List WriteOutcome) (fd : Nat)
    (time : Int) (s : Bytes) : Session :=
  let parsed := httpParseRequest malloc (buffered s) s.length
  let sent := (sendLoop sends (answer parsed config w).message.render 0).2
  if closes malloc config w sends s then ⟨finished parsed {filling fd time s with inUse := true},1,sent,false⟩
  else ⟨acceptedConnection fd time,1,sent,true⟩

/- The session but for the time of its last wake-up. -/
def atTime (x : Session) (time : Int) : Session := {x with conn := {x.conn with lastActive := time}}

/- The text that the task of one wake-up hands to the write loop. -/
def handed (malloc : Nat → Bool) (config : ServerConfig) (worlds : Nat → World) (x : Session) (k : Wake) : List Bytes :=
  if x.live then (attempted ⟨malloc,k.now,k.reads.map arrival,k.sends⟩ config (worlds x.handled) x.conn).toList else []

def texts (malloc : Nat → Bool) (config : ServerConfig) (worlds : Nat → World) : Session → List Wake → List Bytes
  | _,[] => []
  | x,k::wakes => handed malloc config worlds x k ++ texts malloc config worlds (wakeUp malloc config worlds x k) wakes

/- How the writes go in the wake-up that brings the last byte. -/
def lastSends : List Wake → List WriteOutcome
  | [] => []
  | k::wakes => if (wakes.map Wake.burst).flatten = [] then k.sends else lastSends wakes

section
variable {malloc : Nat → Bool} {config : ServerConfig} {worlds : Nat → World} {fd : Nat} {time : Int} {p s : Bytes}

theorem fillWaits {k : Wake} {n : Nat} {sent : Bytes} (room : (p ++ k.burst).length ≤ bufferSize - 2)
    (partly : judged (p ++ k.burst) = false) :
    wakeUp malloc config worlds ⟨filling fd time p,n,sent,true⟩ k = ⟨filling fd k.now (p ++ k.burst),n,sent,true⟩ :=
  wakeFills ⟨rfl,rfl⟩ room partly

theorem fillSilent {k : Wake} {n : Nat} {sent : Bytes} (room : (p ++ k.burst).length ≤ bufferSize - 2)
    (partly : judged (p ++ k.burst) = false) : handed malloc config worlds ⟨filling fd time p,n,sent,true⟩ k = [] := by
  have part : Partly (filling fd time p) p := ⟨rfl,rfl⟩
  have nothing := @attemptedWaits ⟨malloc,k.now,k.reads.map arrival,k.sends⟩ config (worlds n) _ _ (wakeReads part room) partly
  simp only [handed, if_true, nothing, Option.toList_none]

theorem fillAttempts {k : Wake} (room : (p ++ k.burst).length ≤ bufferSize - 2) (complete : judged (p ++ k.burst) = true) :
    handed malloc config worlds (waitingAt fd time p) k = [response malloc config (worlds 0) (p ++ k.burst)] := by
  have part : Partly (filling fd time p) p := ⟨rfl,rfl⟩
  have text := @attemptedText ⟨malloc,k.now,k.reads.map arrival,k.sends⟩ config (worlds 0) _ _ (wakeReads part room) complete
  simp only [handed, waitingAt, if_true, text, Option.toList_some, responseText]
  rfl

theorem fillAnswers {k : Wake} (room : (p ++ k.burst).length ≤ bufferSize - 2) (complete : judged (p ++ k.burst) = true) :
    wakeUp malloc config worlds (waitingAt fd time p) k =
      answeredAt malloc config (worlds 0) k.sends fd k.now (p ++ k.burst) := by
  have keep (parsed : Option HttpRequest) : keepAliveAfter parsed (filling fd time p) =
      keepAliveAfter parsed (filling 0 0 (p ++ k.burst)) := by
    cases parsed <;> rfl
  rw [waitingAt, wakeCompletes ⟨rfl,rfl⟩ room complete rfl rfl, keep]
  rfl

/- A wake-up without data changes the time only, and nothing is handed out. -/
theorem answeredIdle {w : World} {sends : List WriteOutcome} {k : Wake} (empty : k.burst = []) :
    handed malloc config worlds (answeredAt malloc config w sends fd time s) k = [] ∧
    ∃ t, wakeUp malloc config worlds (answeredAt malloc config w sends fd time s) k =
      answeredAt malloc config w sends fd t s := by
  simp only [answeredAt]
  cases settled : closes malloc config w sends s with
  | true => exact ⟨rfl,time,rfl⟩
  | false =>
    have nothing : ([] : Bytes) ++ k.burst = [] := empty
    have room : (([] : Bytes) ++ k.burst).length ≤ bufferSize - 2 := by
      rw [nothing]
      decide
    have partly : judged ([] ++ k.burst) = false := by
      rw [nothing]
      decide +kernel
    have idle := @fillWaits malloc config worlds fd time [] k 1
      (sendLoop sends (answer (httpParseRequest malloc (buffered s) s.length) config w).message.render 0).2 room partly
    rw [nothing] at idle
    exact ⟨@fillSilent malloc config worlds fd time [] k 1 _ room partly,k.now,idle⟩

theorem answeredRun {w : World} {sends : List WriteOutcome} {wakes : List Wake} (idle : ∀ k ∈ wakes, k.burst = []) :
    texts malloc config worlds (answeredAt malloc config w sends fd time s) wakes = [] ∧
    ∃ t, session malloc config worlds (answeredAt malloc config w sends fd time s) wakes =
      answeredAt malloc config w sends fd t s := by
  induction wakes generalizing time with
  | nil => exact ⟨rfl,time,rfl⟩
  | cons k wakes ih =>
    obtain ⟨silent,t,same⟩ := @answeredIdle malloc config worlds fd time s w sends k (idle k List.mem_cons_self)
    obtain ⟨none,later,goes⟩ := @ih t (fun j hj => idle j (List.mem_cons_of_mem _ hj))
    rw [← same] at none goes
    refine ⟨?_,later,goes⟩
    rw [texts, silent, none, List.append_nil]

/- The request s, of which p has come, through wake-ups that bring the rest of it. -/
theorem fillRun (room : s.length ≤ bufferSize - 2) (partly : ∀ q, q <+: s → q ≠ s → judged q = false)
    {wakes : List Wake} (rest : p ++ (wakes.map Wake.burst).flatten = s) (notYet : judged p = false) :
    texts malloc config worlds (waitingAt fd time p) wakes =
      (if judged s then [response malloc config (worlds 0) s] else []) ∧
    ∃ t, session malloc config worlds (waitingAt fd time p) wakes =
      if judged s then answeredAt malloc config (worlds 0) (lastSends wakes) fd t s else waitingAt fd t s := by
  induction wakes generalizing p time with
  | nil =>
    rw [List.map_nil, List.flatten_nil, List.append_nil] at rest
    subst rest
    rw [notYet]
    exact ⟨rfl,time,rfl⟩
  | cons k wakes ih =>
    have more : (p ++ k.burst) ++ (wakes.map Wake.burst).flatten = s := by
      rw [← rest]
      simp
    have part : p ++ k.burst <+: s := ⟨_,more⟩
    have fits : (p ++ k.burst).length ≤ bufferSize - 2 := part.length_le.trans room
    cases now : judged (p ++ k.burst) with
    | true =>
      -- Only the whole request is judged complete, so the wake-ups that follow bring nothing.
      have whole : p ++ k.burst = s := by
        by_contra proper
        rw [partly _ part proper] at now
        contradiction
      have nothing : (wakes.map Wake.burst).flatten = [] := by
        rw [whole] at more
        exact List.append_right_eq_self.mp more
      have text := @fillAttempts malloc config worlds fd time p k fits now
      have answered := @fillAnswers malloc config worlds fd time p k fits now
      rw [whole] at text answered now
      obtain ⟨none,t,same⟩ := @answeredRun malloc config worlds fd k.now s (worlds 0) k.sends wakes
        (fun j hj => List.flatten_eq_nil_iff.mp nothing _ (List.mem_map.mpr ⟨j,hj,rfl⟩))
      rw [← answered] at none same
      refine ⟨?_,t,?_⟩
      · rw [if_pos now, texts, text, none, List.append_nil]
      · rw [if_pos now, lastSends, if_pos nothing]
        exact same
    | false =>
      have waits : wakeUp malloc config worlds (waitingAt fd time p) k = waitingAt fd k.now (p ++ k.burst) :=
        fillWaits fits now
      have silent : handed malloc config worlds (waitingAt fd time p) k = [] := fillSilent fits now
      obtain ⟨later,t,same⟩ := @ih k.now (p ++ k.burst) more now
      rw [← waits] at later same
      refine ⟨by rw [texts, silent, later, List.nil_append],t,?_⟩
      have data : judged s = true → (wakes.map Wake.burst).flatten ≠ [] := by
        -- Data is still to come: what has come so far is not the whole request.
        intro complete nothing
        rw [nothing, List.append_nil] at more
        rw [more, complete] at now
        contradiction
      rw [lastSends]
      cases complete : judged s with
      | true =>
        rw [if_neg (data complete)]
        rw [complete] at same
        exact same
      | false =>
        rw [complete] at same
        exact same

theorem runOf (room : s.length ≤ bufferSize - 2) (partly : ∀ q, q <+: s → q ≠ s → judged q = false)
    {wakes : List Wake} (whole : (wakes.map Wake.burst).flatten = s) :
    texts malloc config worlds (started fd time) wakes =
      (if judged s then [response malloc config (worlds 0) s] else []) ∧
    ∃ t, session malloc config worlds (started fd time) wakes =
      if judged s then answeredAt malloc config (worlds 0) (lastSends wakes) fd t s else waitingAt fd t s :=
  @fillRun malloc config worlds fd time [] s room partly wakes whole (by decide +kernel)

/- Before the last byte nothing is answered. -/
theorem silentBefore (room : s.length ≤ bufferSize - 2) (partly : ∀ q, q <+: s → q ≠ s → judged q = false)
    {before after : List Wake} (whole : ((before ++ after).map Wake.burst).flatten = s)
    (proper : (before.map Wake.burst).flatten ≠ s) :
    texts malloc config worlds (started fd time) before = [] ∧
      (session malloc config worlds (started fd time) before).sent = [] := by
  have part : (before.map Wake.burst).flatten <+: s := by
    rw [← whole, List.map_append, List.flatten_append]
    exact List.prefix_append _ _
  obtain ⟨none,t,same⟩ := @runOf malloc config worlds fd time _ (part.length_le.trans room)
    (fun q hq _ => partly q (hq.trans part) (fun eq => proper (part.eq_of_length_le (eq ▸ hq.length_le)))) before rfl
  rw [partly _ part proper] at none same
  rw [same]
  exact ⟨none,rfl⟩

theorem answeredTime {w : World} {sends others : List WriteOutcome}
    (alike : sendLoop sends (answer (httpParseRequest malloc (buffered s) s.length) config w).message.render 0 =
      sendLoop others (answer (httpParseRequest malloc (buffered s) s.length) config w).message.render 0) (t u : Int) :
    atTime (answeredAt malloc config w sends fd t s) u = answeredAt malloc config w others fd u s := by
  have same : closes malloc config w sends s = closes malloc config w others s := by simp only [closes, alike]
  simp only [atTime, answeredAt, same, alike]
  cases closes malloc config w others s with
  | true =>
    simp only [if_true]
    generalize httpParseRequest malloc (buffered s) s.length = parsed
    cases parsed <;> rfl
  | false => rfl

end

/- Two ways to cut one request. They come to the same text, and where the socket takes what the
worker writes alike, to the same end. -/
theorem segmentsAlike {malloc : Nat → Bool} {config : ServerConfig} {worlds : Nat → World} {fd : Nat} {s : Bytes}
    (room : s.length ≤ bufferSize - 2) (partly : ∀ q, q <+: s → q ≠ s → judged q = false) {wakes others : List Wake}
    (whole : (wakes.map Wake.burst).flatten = s) (same : (others.map Wake.burst).flatten = s) (start restart : Int) :
    (∀ before after, wakes = before ++ after → (before.map Wake.burst).flatten ≠ s →
      texts malloc config worlds (started fd start) before = [] ∧
      (session malloc config worlds (started fd start) before).sent = []) ∧
    texts malloc config worlds (started fd start) wakes = texts malloc config worlds (started fd restart) others ∧
    ((∀ text ∈ texts malloc config worlds (started fd start) wakes,
        sendLoop (lastSends wakes) text 0 = sendLoop (lastSends others) text 0) →
      ∀ time, atTime (session malloc config worlds (started fd start) wakes) time =
        atTime (session malloc config worlds (started fd restart) others) time) := by
  obtain ⟨text,t,one⟩ := @runOf malloc config worlds fd start s room partly wakes whole
  obtain ⟨again,u,other⟩ := @runOf malloc config worlds fd restart s room partly others same
  refine ⟨?_,text.trans again.symm,fun alike time => ?_⟩
  · rintro before after rfl proper
    exact silentBefore room partly whole proper
  · rw [one, other]
    cases complete : judged s with
    | true =>
      have written := alike (response malloc config (worlds 0) s) (by rw [text, if_pos complete]; exact List.mem_singleton_self _)
      rw [responseText] at written
      rw [if_pos rfl, if_pos rfl, answeredTime written, answeredTime rfl]
    | false => rfl

/- The request at once, and cut inside its last line break. -/
def cutTwice : List Wake := [oneWake (rootRequest.take 15) (by decide),oneWake (rootRequest.drop 15) (by decide)]

theorem rootPartly (q : Bytes) (part : q <+: rootRequest) (proper : q ≠ rootRequest) : judged q = false := by
  obtain ⟨rest,whole⟩ := part
  have more : rest ≠ [] := by
    rintro rfl
    exact proper (by simpa using whole)
  have ends : FirstAt blank rootRequest 14 := by decide +kernel
  rw [← whole] at ends
  exact partIncomplete ends (by rw [whole]; decide) more

theorem rootAlike : judged rootRequest = true ∧
    ∀ time, atTime (session (fun _ => true) Main.defaults (fun _ => emptyWorld) (started 5 0)
        [oneWake rootRequest (by decide)]) time =
      atTime (session (fun _ => true) Main.defaults (fun _ => emptyWorld) (started 5 9) cutTwice) time := by
  have sends : lastSends [oneWake rootRequest (by decide)] = lastSends cutTwice := by decide
  refine ⟨by decide +kernel,?_⟩
  exact (segmentsAlike (by decide) rootPartly (by decide) (by decide) 0 9).2.2 (fun _ _ => by rw [sends])

end EpollHttpServer.Segmentation

/-! Whether a complete request is answered. What the worker sees after its last byte decides: with
EAGAIN it goes on to the parser and the write loop, with end of file or an error it closes. -/
namespace EpollHttpServer.Answering
open CString HttpParser HttpResponse FileSystem Framing Worker KeptAlive Segmentation

theorem answersWhenDrained {env : Environment} {config : ServerConfig} {w : World} {conn : ClientConnection} {p s : Bytes}
    {chunks : List Bytes} {o : ReadOutcome} {later : List ReadOutcome} (part : Partly conn p)
    (nonempty : ∀ c ∈ chunks, c ≠ []) (whole : p ++ chunks.flatten = s) (room : s.length ≤ bufferSize - 2)
    (complete : judged s = true) (reads : env.reads = chunks.map arrival ++ o::later)
    (last : ∀ first more, o ≠ .data first more) :
    (attempted env config w conn =
        some (answer (httpParseRequest env.malloc (buffered s) s.length) config w).message.render ↔ o = .again) ∧
    (o = .again → (workerProcessRequest env config w conn).sent =
      (sendLoop env.sends (answer (httpParseRequest env.malloc (buffered s) s.length) config w).message.render 0).2) ∧
    (o ≠ .again → attempted env config w conn = none ∧ (workerProcessRequest env config w conn).ending = .closed ∧
      (workerProcessRequest env config w conn).sent = []) := by
  have same : Partly {conn with inUse := true, lastActive := env.now} p := ⟨part.text,part.pos⟩
  have through : readLoop {conn with inUse := true, lastActive := env.now} env.reads =
      readLoop (filled conn env.now s) (o::later) := by
    rw [reads, ← whole]
    exact readThrough same nonempty (by rw [whole]; exact room.trans (by decide)) (o::later)
  have space : ¬ spaceLeft (filled conn env.now s) ≤ 0 := by
    simp only [bufferSize] at room
    simp only [spaceLeft, filled, bufferSize]
    omega
  cases o with
  | data first more => exact absurd rfl (last first more)
  | again =>
    simp only [readLoop, if_neg space] at through
    have found : (isRequestComplete (filled conn env.now s).readBuf (filled conn env.now s).readPos 0).1 = true := complete
    have text := @attemptedText env config w conn _ through found
    have sent := attemptedSent env config w conn
    rw [text] at sent
    exact ⟨⟨fun _ => rfl,fun _ => text⟩,fun _ => sent,fun other => absurd rfl other⟩
  | eof =>
    simp only [readLoop, if_neg space] at through
    have closed := @closedEarly env config w conn _ through
    have sent := attemptedSent env config w conn
    rw [closed.1] at sent ⊢
    exact ⟨by simp,fun wrong => absurd wrong (by simp),fun _ => ⟨rfl,closed.2,sent⟩⟩
  | error =>
    simp only [readLoop, if_neg space] at through
    have closed := @closedEarly env config w conn _ through
    have sent := attemptedSent env config w conn
    rw [closed.1] at sent ⊢
    exact ⟨by simp,fun wrong => absurd wrong (by simp),fun _ => ⟨rfl,closed.2,sent⟩⟩

def drained : Environment := ⟨fun _ => true,0,[arrival rootRequest] ++ [.again],[]⟩

theorem rootAttempted : attempted drained Main.defaults emptyWorld (acceptedConnection 5 0) =
    some (answer (httpParseRequest (fun _ => true) (buffered rootRequest) rootRequest.length) Main.defaults
      emptyWorld).message.render := by
  have last (first : UInt8) (more : Bytes) : ReadOutcome.again ≠ .data first more := nofun
  have nonempty : ∀ c ∈ [rootRequest], c ≠ [] := by decide
  exact (@answersWhenDrained drained Main.defaults emptyWorld _ [] rootRequest [rootRequest] .again []
    (acceptedPartly 5 0) nonempty (by decide) (by decide) (by decide +kernel) rfl last).1.mpr rfl

/- The client has half-closed after its request. -/
def halfClosed : Environment := ⟨fun _ => true,0,[arrival rootRequest,.eof],[]⟩

/- A request that leaves room for the terminator only. -/
def fullRequest : Bytes := ascii "GET / HTTP/1.1\r\nX: " ++ List.replicate 4072 120 ++ ascii "\r\n\r\n"

theorem closedUnanswered :
    (judged rootRequest = true ∧
      attempted halfClosed Main.defaults emptyWorld (acceptedConnection 5 0) = none) ∧
    (judged fullRequest = true ∧ fullRequest.length = bufferSize - 1 ∧
      attempted ⟨fun _ => true,0,[arrival fullRequest],[]⟩ Main.defaults emptyWorld (acceptedConnection 5 0) = none) := by
  refine ⟨⟨by decide +kernel,by decide +kernel⟩,by decide +kernel,by decide +kernel,by decide +kernel⟩

end EpollHttpServer.Answering
