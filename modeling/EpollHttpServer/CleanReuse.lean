import EpollHttpServer.Worker

/-! One connection through any number of wake-ups. Whatever came before, a wake-up that keeps the
connection leaves it as it was accepted, but for the descriptor and the time, and neither of
these has a part in what is answered later. -/
namespace EpollHttpServer.CleanReuse
open CString FileSystem HttpParser Framing Worker

/- One wake-up: what the system gives to the task, and the world it finds. -/
structure Task where
  env : Environment
  world : World

def exchange (config : ServerConfig) (conn : ClientConnection) (k : Task) : Exchange :=
  workerProcessRequest k.env config k.world conn

/- One wake-up after the other, until one of them closes the connection. -/
def exchanges (config : ServerConfig) : ClientConnection → List Task → List Exchange
  | _,[] => []
  | conn,k::later =>
    if (exchange config conn k).ending = .closed then [exchange config conn k]
    else exchange config conn k :: exchanges config (exchange config conn k).conn later

-- What the client sees of it.
def outcome (e : Exchange) : Bytes × Ending := (e.sent,e.ending)

variable {config : ServerConfig}

theorem exchangeRelabelled (conn : ClientConnection) (fd : Nat) (time : Int) (k : Task) :
    exchange config (relabelled conn fd time) k =
      {exchange config conn k with conn := relabelled (exchange config conn k).conn fd k.env.now} :=
  serveRelabelled k.env config k.world {conn with inUse := true, lastActive := k.env.now} fd k.env.now

theorem exchangesRelabelled (conn : ClientConnection) (fd : Nat) (time : Int) (tasks : List Task) :
    (exchanges config (relabelled conn fd time) tasks).map outcome = (exchanges config conn tasks).map outcome := by
  induction tasks generalizing conn time with
  | nil => rfl
  | cons k later ih =>
    simp only [exchanges, exchangeRelabelled]
    split
    · rfl
    · rw [List.map_cons, List.map_cons, ih]
      rfl

/- What the keep-alive branch leaves behind. -/
theorem keptAccepted {conn : ClientConnection} {k : Task} (kept : (exchange config conn k).ending = .kept) (fd : Nat)
    (time : Int) : relabelled (exchange config conn k).conn fd time = acceptedConnection fd time := by
  unfold exchange workerProcessRequest serve at kept ⊢
  generalize readLoop {conn with inUse := true, lastActive := k.env.now} k.env.reads = read at kept ⊢
  obtain ⟨closes,after⟩ := read
  cases closes with
  | true => contradiction
  | false =>
    dsimp only at kept ⊢
    cases complete : (isRequestComplete after.readBuf after.readPos 0).1 with
    | true =>
      rw [processAnswers complete rfl] at kept ⊢
      split at kept
      · contradiction
      · rename_i stays
        rw [if_neg stays]
        rfl
    | false =>
      rw [processWaits complete] at kept
      contradiction

theorem exchangesSource {conn : ClientConnection} {tasks : List Task} {e : Exchange}
    (member : e ∈ exchanges config conn tasks) : ∃ before k, e = exchange config before k := by
  induction tasks generalizing conn with
  | nil => exact absurd member List.not_mem_nil
  | cons k later ih =>
    simp only [exchanges] at member
    split at member
    · exact ⟨conn,k,List.mem_singleton.mp member⟩
    · rcases List.mem_cons.mp member with first | after
      · exact ⟨conn,k,first⟩
      · exact ih after

/- A history that did not end in a close goes on from where it stands. -/
theorem exchangesAppend {conn : ClientConnection} {history : List Task} {last : Exchange}
    (ended : (exchanges config conn history).getLast? = some last) (stays : last.ending ≠ .closed) (next : List Task) :
    exchanges config conn (history ++ next) = exchanges config conn history ++ exchanges config last.conn next := by
  induction history generalizing conn with
  | nil => contradiction
  | cons k later ih =>
    simp only [List.cons_append, exchanges] at ended ⊢
    split at ended
    · rename_i closed
      cases Option.some.inj ended
      exact absurd closed stays
    · rename_i goes
      rw [if_neg goes, if_neg goes, List.cons_append]
      refine congrArg _ ?_
      cases rest : exchanges config (exchange config conn k).conn later with
      | nil =>
        rw [rest] at ended
        cases Option.some.inj ended
        cases later with
        | nil => rfl
        | cons j more =>
          simp only [exchanges] at rest
          split at rest <;> contradiction
      | cons first more =>
        rw [rest, List.getLast?_cons_cons, ← rest] at ended
        rw [ih ended, rest]

theorem keptClean {conn : ClientConnection} {history : List Task} {last : Exchange}
    (ended : (exchanges config conn history).getLast? = some last) (kept : last.ending = .kept) :
    (∀ fd time, relabelled last.conn fd time = acceptedConnection fd time) ∧
    ∀ next fd time, exchanges config conn (history ++ next) =
        exchanges config conn history ++ exchanges config last.conn next ∧
      (exchanges config last.conn next).map outcome = (exchanges config (acceptedConnection fd time) next).map outcome := by
  obtain ⟨before,k,rfl⟩ := exchangesSource (List.mem_of_getLast? ended)
  refine ⟨keptAccepted kept,fun next fd time => ⟨exchangesAppend ended (by rw [kept]; decide) next,?_⟩⟩
  rw [← keptAccepted kept fd time, exchangesRelabelled]

def arrivalOf (text : String) : Task := ⟨⟨fun _ => true,7,[arrival (ascii text)],[]⟩,emptyWorld⟩

/- A request in two parts, the answer an error, the connection kept. -/
def brokenUp : List Task := [arrivalOf "GET /missing HT",arrivalOf "TP/1.1\r\n\r\n"]

theorem brokenClean : ∃ last : Exchange,
    (exchanges Main.defaults (acceptedConnection 5 0) brokenUp).getLast? = some last ∧ last.sent ≠ [] ∧
      relabelled last.conn 5 0 = acceptedConnection 5 0 := by
  have seen : (exchanges Main.defaults (acceptedConnection 5 0) brokenUp).getLast?.map
      (fun e => (decide (e.sent ≠ []),e.ending)) = some (true,.kept) := by
    decide +kernel
  obtain ⟨last,ended,same⟩ := Option.map_eq_some_iff.mp seen
  obtain ⟨answered,kept⟩ := Prod.mk.inj same
  exact ⟨last,ended,of_decide_eq_true answered,(keptClean ended kept).1 5 0⟩

end EpollHttpServer.CleanReuse
