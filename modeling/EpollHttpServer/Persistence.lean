import EpollHttpServer.Worker
import EpollHttpServer.Delimiting

/-! What a response says about the connection and what the worker then does with it. The
handlers print conn->keep_alive, http_send_error prints a constant, and the last branch
tests conn->keep_alive. -/
namespace EpollHttpServer.Persistence
open CString Crlf HttpMessage HttpParser HttpResponse HttpRequest FileSystem Framing Worker Delimiting

def announcement (keepAlive : Bool) : Bytes := ascii "Connection: " ++ connectionValue keepAlive

theorem announcementPlain (b : Bool) : announcement b ≠ [] ∧ (13 : UInt8) ∉ announcement b ∧
    (10 : UInt8) ∉ announcement b := by
  cases b <;> decide

theorem infixDigits {needle a ds : Bytes} {last : UInt8} (ends : ∃ n, needle = n ++ [last])
    (absent : last ∉ ds) (inside : needle <:+: a ++ ds) : needle <:+: a := by
  obtain ⟨n,rfl⟩ := ends
  obtain ⟨before,after,same⟩ := inside
  have joined : (before ++ n) ++ [last] ++ after = a ++ ds := by simpa using same
  rcases List.append_eq_append_iff.mp joined with ⟨t,whole,_⟩ | ⟨t,part,rest⟩
  · exact ⟨before,t,by rw [whole]; simp⟩
  · cases t using List.reverseRecOn with
    | nil => exact ⟨before,[],by simpa using part⟩
    | append_singleton t x =>
      have same := List.append_inj_right' (by simpa using part : (before ++ n) ++ [last] = (a ++ t) ++ [x]) rfl
      cases List.singleton_inj.mp same
      exact absurd (by rw [rest]; simp) absent

theorem statusSilent : ∀ s ∈ statuses, ∀ b, ¬ announcement b <:+: ascii "HTTP/1.1 " ++ s := by
  decide +kernel

theorem contentTypeSilent : ∀ t ∈ contentTypes, ∀ b,
    ¬ announcement b <:+: ascii "Content-Type" ++ [58,32] ++ t := by
  decide +kernel

theorem lengthSilent (n : Nat) (b : Bool) :
    ¬ announcement b <:+: ascii "Content-Length" ++ [58,32] ++ decimalNat n := by
  intro inside
  have digits : (101 : UInt8) ∉ decimalNat n := fun h => absurd (decimalNatDigits n _ h) (by decide)
  have ends : ∃ m, announcement b = m ++ [101] := by
    cases b
    · exact ⟨ascii "Connection: clos",by decide⟩
    · exact ⟨ascii "Connection: keep-aliv",by decide⟩
  have start := infixDigits ends digits inside
  cases b <;> exact absurd start (by decide)

theorem announcedReply {r : Reply} (plain : Plain r) (b : Bool) :
    announcement b <:+: r.message.render ↔ r.keepAlive = b ∨ announcement b <:+: r.body := by
  obtain ⟨nonempty,cr,lf⟩ := announcementPlain b
  have status := statusSilent _ plain.status b
  have type := contentTypeSilent _ plain.contentType b
  have length := lengthSilent r.contentLength b
  have server : ¬ announcement b <:+: ascii "Server" ++ [58,32] ++ ascii "SimpleHTTP/1.0" := by
    cases b <;> decide
  have connection : announcement b <:+: ascii "Connection" ++ [58,32] ++ connectionValue r.keepAlive ↔
      r.keepAlive = b := by
    cases b <;> cases r.keepAlive <;> decide
  rw [Message.render, infixHead nonempty cr lf]
  simp only [Message.head, Reply.message, Field.line, List.map_cons, List.map_nil, List.mem_cons,
    List.not_mem_nil, or_false, exists_eq_or_imp, exists_eq_left, status, server, type, length, false_or,
    connection]

theorem errorSilent : ∀ e ∈ errors, ∀ b, ¬ announcement b <:+: errorPage e.1 e.2 := by decide +kernel

/- No part of the JSON text has a capital C. -/
theorem jsonSilent (config : ServerConfig) (w : World) (b : Bool) :
    ¬ announcement b <:+: jsonBody config w := by
  have number : ∀ z, (67 : UInt8) ∉ decimal z := by
    intro z
    have digits : ∀ n, (67 : UInt8) ∉ decimalNat n := fun n h => absurd (decimalNatDigits n _ h) (by decide)
    unfold decimal
    split
    · rw [List.mem_cons]
      exact not_or.mpr ⟨by decide,digits _⟩
    · exact digits _
  have capital : (67 : UInt8) ∈ announcement b := by cases b <;> decide
  have text : ∀ t ∈ [ascii "\x7b\"connections\":",ascii ",\"total_requests\":",ascii ",\"thread_pool_size\":",
      ascii ",\"uptime\":",ascii "\x7d"], (67 : UInt8) ∉ t := by
    decide
  intro inside
  have found := inside.subset capital
  simp only [jsonBody, List.mem_append, number, or_false] at found
  simp only [List.mem_cons, List.not_mem_nil, or_false, forall_eq_or_imp, forall_eq] at text
  tauto

/- The requests that are answered by http_send_error. -/
def Refused (parsed : Option HttpRequest) (config : ServerConfig) (w : World) : Prop :=
  match parsed with
  | none => True
  | some request => match route request with
    | .status => False
    | .get => match (lookup config request.uri w).1 with
      | .found _ size file => size > maxFileSize ∨ file.read size = none
      | _ => True
    | .head => match (lookup config request.uri w).1 with
      | .found _ _ _ => False
      | _ => True
    | .post => True
    | .other => True

/- The bytes of a file that become the body. -/
def servedBytes (parsed : Option HttpRequest) (config : ServerConfig) (w : World) : Bytes :=
  match parsed with
  | none => []
  | some request => match route request with
    | .get => match (lookup config request.uri w).1 with
      | .found _ size file => (file.read size).getD []
      | _ => []
    | _ => []

inductive Answered (keepAlive : Bool) (served : Bytes) (refused : Prop) (r : Reply) : Prop where
  | error (is : refused) (status : r.keepAlive = false) (silent : ∀ b, ¬ announcement b <:+: r.body)
  | served (not : ¬ refused) (status : r.keepAlive = keepAlive)
      (body : ∀ b, announcement b <:+: r.body ↔ announcement b <:+: served)

theorem errorAnswered {keepAlive served refused code message} (known : (code,message) ∈ errors)
    (is : refused) : Answered keepAlive served refused (errorReply code message) :=
  .error is rfl (errorSilent (code,message) known)

theorem answerKinds (parsed : Option HttpRequest) (conn config w) :
    Answered (keepAliveAfter parsed conn) (servedBytes parsed config w) (Refused parsed config w)
      (answer parsed config w) := by
  cases parsed with
  | none => exact @errorAnswered _ _ _ 400 _ (by decide) trivial
  | some request =>
    simp only [answer, reply, Refused, servedBytes, keepAliveAfter, locateLookup, lookupCounted]
    cases route request with
    | status =>
      refine .served id rfl fun b => ?_
      have empty : ¬ announcement b <:+: [] := by cases b <;> decide
      simp only [statusReply, okReply, jsonSilent, empty]
    | post => exact errorAnswered (by decide) trivial
    | other => exact errorAnswered (by decide) trivial
    | head =>
      simp only
      cases (lookup config request.uri w).1 with
      | forbidden => exact errorAnswered (by decide) trivial
      | missing => exact errorAnswered (by decide) trivial
      | found path size file => exact .served id rfl fun b => Iff.rfl
    | get =>
      simp only
      cases (lookup config request.uri w).1 with
      | forbidden => exact errorAnswered (by decide) trivial
      | missing => exact errorAnswered (by decide) trivial
      | found path size file =>
        simp only [getReply]
        split
        · rename_i large
          exact errorAnswered (by decide) (Or.inl large)
        · rename_i fits
          cases h : file.read size with
          | none => exact errorAnswered (by decide) (Or.inr rfl)
          | some bytes => exact .served (by simp [fits]) rfl fun b => Iff.rfl

/- The response written against the branch taken after it. -/
structure Truthful (e : Exchange) : Prop where
  close : ascii "Connection: close" <:+: e.sent ↔ e.ending = .closed
  keep : ascii "Connection: keep-alive" <:+: e.sent ↔ e.ending = .kept

/- An error closes, and a file that is served does not hold the opposite announcement. -/
structure Persists (parsed : Option HttpRequest) (keepAlive : Bool) (config : ServerConfig) (w : World) : Prop where
  refused : Refused parsed config w → keepAlive = false
  served : ¬ Refused parsed config w → ¬ announcement (!keepAlive) <:+: servedBytes parsed config w

theorem truthfulWhen {env config w conn} (complete : (isRequestComplete conn.readBuf conn.readPos 0).1 = true)
    (ok : Delivers env.sends 0) :
    Truthful (processBuffer env config w conn) ↔
      Persists (httpParseRequest env.malloc conn.readBuf conn.readPos)
        (keepAliveAfter (httpParseRequest env.malloc conn.readBuf conn.readPos) conn) config w := by
  generalize same : httpParseRequest env.malloc conn.readBuf conn.readPos = parsed
  obtain ⟨sent,ending,_⟩ := @processDelivered env config w conn complete ok parsed same
  have plain := answerPlain parsed config w
  have close : ascii "Connection: close" = announcement false := by decide
  have keep : ascii "Connection: keep-alive" = announcement true := by decide
  have kinds := answerKinds parsed conn config w
  generalize keepAliveAfter parsed conn = k at ending kinds ⊢
  have truth : Truthful (processBuffer env config w conn) ↔
      ∀ b, ((answer parsed config w).keepAlive = b ∨ announcement b <:+: (answer parsed config w).body) ↔ k = b := by
    constructor
    · intro t b
      have closing := t.close
      have keeping := t.keep
      rw [close, sent, announcedReply plain, ending] at closing
      rw [keep, sent, announcedReply plain, ending] at keeping
      cases b
      · rw [closing]
        cases k <;> decide
      · rw [keeping]
        cases k <;> decide
    · intro all
      constructor
      · rw [close, sent, announcedReply plain, ending, all]
        cases k <;> decide
      · rw [keep, sent, announcedReply plain, ending, all]
        cases k <;> decide
  rw [truth]
  cases kinds with
  | error is status silent =>
    simp only [status, silent, or_false]
    refine ⟨fun all => ⟨fun _ => (all false).mp rfl,fun not => absurd is not⟩,fun p b => ?_⟩
    rw [p.refused is]
  | served not status body =>
    simp only [status, body]
    constructor
    · intro all
      refine ⟨fun is => absurd is not,fun _ inside => ?_⟩
      have both := (all (!k)).mp (Or.inr inside)
      cases k <;> contradiction
    · intro p b
      have opposite := p.served not
      refine ⟨fun h => ?_,Or.inl⟩
      rcases h with h | inside
      · exact h
      · cases k <;> cases b <;> first | rfl | exact absurd inside opposite

def oneRead (text : String) : Environment := ⟨fun _ => true,0,[arrival (ascii text)],[]⟩

/- A fresh connection whose worker has drained the text. -/
def drained (text : String) : ClientConnection := (readLoop (acceptedConnection 5 0) (oneRead text).reads).2

def closing : ClientConnection := drained "GET / HTTP/1.1\r\nConnection: close\r\n\r\n"

theorem closingTruthful : Truthful (processBuffer (oneRead "") Main.defaults emptyWorld closing) ↔
    Persists (httpParseRequest (oneRead "").malloc closing.readBuf closing.readPos)
      (keepAliveAfter (httpParseRequest (oneRead "").malloc closing.readBuf closing.readPos) closing)
      Main.defaults emptyWorld :=
  truthfulWhen (by decide +kernel) trivial

/- The 404 page announces the close of a connection that stays open. -/
theorem missingKept : ¬ Truthful
    (workerProcessRequest (oneRead "GET /missing HTTP/1.1\r\n\r\n") Main.defaults emptyWorld (acceptedConnection 5 0)) := by
  intro truthful
  have sent : ascii "Connection: close" <:+: (workerProcessRequest (oneRead "GET /missing HTTP/1.1\r\n\r\n")
      Main.defaults emptyWorld (acceptedConnection 5 0)).sent := by
    decide +kernel
  have kept : (workerProcessRequest (oneRead "GET /missing HTTP/1.1\r\n\r\n")
      Main.defaults emptyWorld (acceptedConnection 5 0)).ending = .kept := by
    decide +kernel
  exact absurd ((truthful.close.mp sent).symm.trans kept) (by decide)

end EpollHttpServer.Persistence
