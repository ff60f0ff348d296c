import EpollHttpServer.Counters

/-! What a /status answer says while all workers count, store and read. Each of its numbers was true at a
moment of the call. -/
namespace EpollHttpServer.StatusAnswers
open CString HttpParser HttpResponse HttpRequest FileSystem Worker Ownership ConnectionMemory Counters
open Runs Moments
open Server hiding State Action Turn Step step initial stepSound

section
variable {config : ServerConfig} {own : Nat → Bool} {s t u : State} {a : Action}

/- What has been read so far was so at a moment since the call began. -/
def Told (config : ServerConfig) (own : Nat → Bool) (s : State) (bs : List Action) : CallPc → Prop
  | .counting => 0 < adds bs
  | .measuring connections => 0 < adds bs ∧ Tallied connections
  | .timed connections now => 0 < adds bs ∧ Tallied connections ∧ Timed now
  | .started connections start => 0 < adds bs ∧ Tallied connections ∧ Started start
  | .loading connections now start => 0 < adds bs ∧ Tallied connections ∧ Timed now ∧ Started start
  | .answering connections now start total => Tallied connections ∧ Timed now ∧ Started start ∧
      Sometime (counted config own) s bs (fun front x => 0 < adds front ∧ total = x.totalRequests)
  | _ => True
where
  Tallied (connections : Int32) : Prop := Sometime (counted config own) s bs (fun _ x =>
    MutexFree x.server ∧ 0 < connectionCount x.server ∧ connections = Int32.ofNat (connectionCount x.server))
  Timed (now : Int64) : Prop := Sometime (counted config own) s bs (fun _ x => now = Int64.ofInt x.server.clock)
  Started (start : Int64) : Prop := Sometime (counted config own) s bs (fun _ x => start = x.serverStartTime)

theorem addsLater {bs : List Action} (added : 0 < adds bs) (a) : 0 < adds (bs ++ [a]) := by
  rw [addsSnoc]
  exact Nat.lt_add_right _ added

theorem toldLater {bs : List Action} {pc} (told : Told config own s bs pc) (a) : Told config own s (bs ++ [a]) pc := by
  cases pc with
  | counting => exact addsLater told a
  | measuring connections => exact ⟨addsLater told.1 a,sometimeLater told.2 [a]⟩
  | timed connections now =>
    obtain ⟨added,tallied,timed⟩ := told
    exact ⟨addsLater added a,sometimeLater tallied [a],sometimeLater timed [a]⟩
  | started connections start =>
    obtain ⟨added,tallied,started⟩ := told
    exact ⟨addsLater added a,sometimeLater tallied [a],sometimeLater started [a]⟩
  | loading connections now start =>
    obtain ⟨added,tallied,timed,started⟩ := told
    exact ⟨addsLater added a,sometimeLater tallied [a],sometimeLater timed [a],sometimeLater started [a]⟩
  | answering connections now start total =>
    obtain ⟨tallied,timed,started,loaded⟩ := told
    exact ⟨sometimeLater tallied [a],sometimeLater timed [a],sometimeLater started [a],sometimeLater loaded [a]⟩
  | _ => trivial

theorem countPositive (engaged : Engaged own s) {w call} (here : s.calls w = some call) : 0 < connectionCount s.server := by
  obtain ⟨n,id,there,_⟩ := handedSource (engaged.inside w call here)
  have seat := engaged.seats.seat w _ n id there rfl
  refine List.countP_pos_iff.mpr ⟨n.fd,List.mem_range.mpr (engaged.known.matched.placed.listed n.fd id seat).1,?_⟩
  rw [seat]
  rfl

/- What a step of the call reads, it reads as it is at that moment. -/
theorem toldMoved {bs : List Action} {x y : State} {w call turn next} (ran : run (counted config own) s bs = some x)
    (engaged : Engaged own x) (here : x.calls w = some call) (told : Told config own s bs call.pc)
    (moved : Moved x call.request call.pc turn y next) : Told config own s (bs ++ [.call w turn]) next := by
  obtain ⟨env,request,pc⟩ := call
  have later := toldLater told (.call w turn)
  cases moved with
  | addStatus asks =>
    have added : adds (bs ++ [.call w .add]) = adds bs + 1 := addsSnoc _ _
    exact lt_of_lt_of_eq (Nat.succ_pos _) added.symm
  | count tally =>
    obtain ⟨free,same⟩ := countSource tally
    exact ⟨later,sometimeLater (sometimeNow ran ⟨free,countPositive engaged here,same⟩) _⟩
  | now => exact ⟨later.1,later.2,sometimeLater (sometimeNow ran rfl) _⟩
  | start => exact ⟨later.1,later.2,sometimeLater (sometimeNow ran rfl) _⟩
  | startAfter => exact ⟨later.1,later.2.1,later.2.2,sometimeLater (sometimeNow ran rfl) _⟩
  | nowAfter => exact ⟨later.1,later.2.1,sometimeLater (sometimeNow ran rfl) _,later.2.2⟩
  | load =>
    obtain ⟨_,tallied,timed,started⟩ := later
    exact ⟨tallied,timed,started,sometimeLater (sometimeNow ran ⟨told.1,rfl⟩) _⟩
  | _ => trivial

/- Others leave a call alone. -/
theorem callSteps {x y : State} {w call} (here : x.calls w = some call) (may : During w x a) (made : Step config own x a y) :
    y.calls w = some call ∨ ∃ turn pc z, a = .call w turn ∧ Moved x call.request call.pc turn z pc ∧
      y.calls w = some {call with pc := pc} := by
  have kept : ∀ v new, v ≠ w → (setCall x v new).calls w = some call := fun v new differ =>
    (Function.update_of_ne (Ne.symm differ) _ _).trans here
  cases made with
  | server outside moved => exact Or.inl here
  | @enter v env request free parsed =>
    refine Or.inl (kept v _ ?_)
    rintro rfl
    rw [here] at free
    contradiction
  | @call v turn mine z pc there moved =>
    by_cases same : v = w
    · subst same
      rw [here] at there
      cases Option.some.inj there
      exact Or.inr ⟨turn,pc,z,rfl,moved,Function.update_self _ _ _⟩
    · refine Or.inl ((Function.update_of_ne (Ne.symm same) _ _).trans ?_)
      rw [(movedServer moved).2]
      exact here
  | @leave v world mine known z there told moved =>
    refine Or.inl (kept v _ ?_)
    rintro rfl
    exact may.2 world rfl

theorem callGoes {bs : List Action} {w env request} (engaged : Engaged own s)
    (here : s.calls w = some ⟨env,request,.entering⟩) (during : Follows (counted config own) (During w) s bs)
    (went : run (counted config own) s bs = some u) :
    Engaged own u ∧ ∃ pc, u.calls w = some ⟨env,request,pc⟩ ∧ Told config own s bs pc := by
  refine runHistory
    (J := fun bs u => Engaged own u ∧ ∃ pc, u.calls w = some ⟨env,request,pc⟩ ∧ Told config own s bs pc)
    ⟨engaged,_,here,trivial⟩ ?_ during went
  rintro bs a x y ran ⟨engaged,pc,there,told⟩ may made
  have made := stepSound made
  refine ⟨engagedStep engaged may.1 made,?_⟩
  rcases callSteps there may made with still | ⟨turn,next,z,rfl,moved,now⟩
  · exact ⟨pc,still,toldLater told a⟩
  · exact ⟨next,now,toldMoved ran engaged there told moved⟩

/- The numbers of a /status answer, as a world in which no one else runs. -/
def reported (connections : Int32) (time start total : Int64) : World :=
  {emptyWorld with connections := connections, statusTime := time, serverStartTime := start, totalRequests := total}

theorem statusAnswer {request : HttpRequest} (asks : asksStatus request = true) {connections time start total world known}
    (told : seen world (.answering connections time start total) = some known) :
    answer (some request) config known =
      statusReply request.keepAlive config (reported connections time start total) := by
  cases Option.some.inj told
  have status : route request = .status := if_pos asks
  simp only [answer, reply, status, statusReply, countRequest, jsonBody, reported]
  simp

theorem handedParts {env conn request} (parsed : handed env conn = some request) : ∃ after,
    readLoop conn env.reads = (false,after) ∧ (Framing.isRequestComplete after.readBuf after.readPos 0).1 = true ∧
      httpParseRequest env.malloc after.readBuf after.readPos = some request := by
  unfold handed at parsed
  split at parsed <;> try contradiction
  split at parsed <;> try contradiction
  exact ⟨_,by assumption,by assumption,parsed⟩

theorem handedServe {env conn request} (parsed : handed env conn = some request) (w : World) :
    (Worker.serve env config w conn).sent = (sendLoop env.sends (answer (some request) config w).message.render 0).2 := by
  obtain ⟨after,read,complete,same⟩ := handedParts parsed
  have processed : Worker.serve env config w conn = processBuffer env config w after := by simp only [Worker.serve, read]
  rw [processed, processAnswers complete same]
  split <;> rfl

end

/- A run with the counters is one of the server in which a call is done at once, and each number of a /status
answer is true at a moment of its call: total_requests counts the request itself and every one counted
before the call began, connections at least the one that asks, and uptime is from a start time that is set. -/
theorem statusTruthful {config : ServerConfig} {own : Nat → Bool} {now : Int} (positive : 0 < now)
    {as bs : List Action} {s s' u : State} {w env call connections time start total}
    (before : Follows (counted config own) Fresh (initial config now) as)
    (ran : run (counted config own) (initial config now) as = some s)
    (entered : step config own s (.enter w env) = some s')
    (during : Follows (counted config own) (During w) s' bs) (went : run (counted config own) s' bs = some u)
    (here : u.calls w = some call) (done : call.pc = .answering connections time start total)
    (soon : u.server.clock < 2^63) (world : World) :
    Reach (server config own) FreshAccept u.server ∧
    (∃ n, total = Int64.ofNat n ∧ adds as < n ∧ n ≤ adds as + adds bs) ∧
    Sometime (counted config own) s' bs (fun _ x => MutexFree x.server ∧ 0 < connectionCount x.server ∧
      connections = Int32.ofNat (connectionCount x.server)) ∧
    Sometime (counted config own) s' bs (fun _ x => time = Int64.ofInt x.server.clock) ∧
    Sometime (counted config own) s' bs (fun _ x => start = x.serverStartTime) ∧ start ≠ 0 ∧
    ∃ n id known, u.server.workers[w]? = some (.holding .running n id) ∧
      leaves u w world = some (.worker w (.serve env known)) ∧
      (Worker.serve env config known (u.server.heap id)).sent = (sendLoop env.sends
        (statusReply call.request.keepAlive config (reported connections time start total)).message.render 0).2 := by
  have engaged := engagedRun (initialEngaged config own now) before ran
  have timely := timelyRun (timelyStep (timelyRun (initialTimely positive) ran) (stepSound entered)) went
  have fresh : Fresh s (.enter w env) := trivial
  have inside := engagedStep engaged fresh (stepSound entered)
  have counted := totalCounts ran
  have reached := reachServer (reachRun (.next (reachRun (.start ⟨now,rfl⟩) before ran) fresh entered)
    (followsWeaken (fun _ _ may => may.1) during) went)
  cases stepSound entered with
  | @enter w env asked free parsed =>
    obtain ⟨later,pc,there,told⟩ := callGoes inside (Function.update_self _ _ _) during went
    rw [here] at there
    cases Option.some.inj there
    cases done
    obtain ⟨tallied,timed,started,loaded⟩ := told
    refine ⟨reached,?_,tallied,timed,started,timely.2 soon w _ here,?_⟩
    · obtain ⟨front,back,x,rfl,sofar,added,rfl⟩ := loaded
      refine ⟨adds as + adds front,?_,Nat.lt_add_of_pos_right added,?_⟩
      · rw [totalCounts sofar, setCall, counted, Int64.ofNat_add]
        simp [initial]
      · rw [adds, adds, adds, List.countP_append]
        omega
    · obtain ⟨n,id,mine,handed⟩ := handedSource (later.inside w _ here)
      have asks : asksStatus asked = true := later.routed w _ here
      obtain ⟨known,shown⟩ : ∃ known, seen world (.answering connections time start total) = some known := ⟨_,rfl⟩
      refine ⟨n,id,known,mine,?_,?_⟩
      · simp only [leaves, here, Option.bind_eq_bind, Option.bind_some, shown]
      · rw [handedServe handed, statusAnswer asks shown]

def asksFor (text : String) : Environment := ⟨fun _ => true,0,[arrival (ascii text)],[]⟩

def byServer (as : List Server.Action) : List Action := as.map .server

def broughtTo (w : Nat) (n : Notice) : List Server.Action :=
  [.epollWait [.ready n],.dispatch,.batchEnds,.worker w .dequeue,.worker w .lookup,.worker w .stamp]

/- Two workers find no start time, and both are about to store one. -/
def twoEnter : List Action :=
  byServer (arrivalOn 5 ++ arrivalOn 6 ++ broughtTo 0 ⟨5,0⟩ ++ broughtTo 1 ⟨6,1⟩) ++
    [.enter 1 (asksFor "GET /a HTTP/1.1\r\n\r\n"),.call 1 .check,.server (.tick 3),.call 1 .readClock]

/- The one that asks for /status goes on and stores, and so does the other, between its steps. -/
def statusRun : List Action :=
  [.call 0 .check,.call 0 .readClock,.call 0 .store,.call 0 .add,.call 1 .store,.call 0 .count,.call 0 .readStart,
    .call 1 .add,.server (.tick 4),.call 0 .readClock,.call 0 .load]

def asking : Environment := asksFor "GET /status HTTP/1.1\r\n\r\n"

def timeOrCall : Action → Bool
  | .call _ _ => true
  | .server (.tick _) => true
  | _ => false

theorem timeOrCallDuring (w : Nat) (s : State) {a : Action} (only : timeOrCall a = true) : During w s a := by
  unfold timeOrCall at only
  split at only <;> try contradiction
  · exact ⟨trivial,fun world wrong => absurd wrong (by simp)⟩
  · exact ⟨fun fd wrong => Server.Action.noConfusion wrong,fun world wrong => absurd wrong (by simp)⟩

theorem statusInside (s : State) : Follows (counted Main.defaults firstFive) (During 0) s statusRun := by
  have only : statusRun.all timeOrCall = true := by decide
  exact followsAlways (fun a member s => timeOrCallDuring 0 s (List.all_eq_true.mp only a member)) s

/- Two connections, two requests counted, and four seconds since the second store. -/
theorem racedStatus : ∃ s s' u call,
    run (counted Main.defaults firstFive) (initial Main.defaults 100) twoEnter = some s ∧
    step Main.defaults firstFive s (.enter 0 asking) = some s' ∧
    run (counted Main.defaults firstFive) s' statusRun = some u ∧ u.calls 0 = some call ∧
    call.pc = .answering 2 107 103 2 ∧
    (∃ n, (2 : Int64) = Int64.ofNat n ∧ adds twoEnter < n ∧ n ≤ adds twoEnter + adds statusRun) ∧
    Sometime (counted Main.defaults firstFive) s' statusRun (fun _ x => (103 : Int64) = x.serverStartTime) := by
  have ends : (run (counted Main.defaults firstFive) (initial Main.defaults 100) twoEnter).bind (fun s =>
      (step Main.defaults firstFive s (.enter 0 asking)).bind (fun s' =>
        (run (counted Main.defaults firstFive) s' statusRun).bind (fun u =>
          (u.calls 0).map (fun call => (call.pc,u.server.clock))))) = some (.answering 2 107 103 2,107) := by
    decide +kernel
  obtain ⟨s,ran,ends⟩ := Option.bind_eq_some_iff.mp ends
  obtain ⟨s',entered,ends⟩ := Option.bind_eq_some_iff.mp ends
  obtain ⟨u,went,ends⟩ := Option.bind_eq_some_iff.mp ends
  obtain ⟨call,here,same⟩ := Option.map_eq_some_iff.mp ends
  obtain ⟨done,time⟩ := Prod.mk.inj same
  have told := statusTruthful (by decide) (by decide +kernel) ran entered (statusInside s') went here done
    (by rw [time]; decide) emptyWorld
  exact ⟨s,s',u,call,ran,entered,went,here,done,told.2.1,told.2.2.2.2.1⟩

end EpollHttpServer.StatusAnswers
