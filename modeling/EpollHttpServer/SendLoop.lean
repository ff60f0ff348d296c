import EpollHttpServer.Worker
import EpollHttpServer.Lib.Runs

/-! The send loop of worker_process_request, one write a turn. What the socket answers is an endless sequence;
the loop of Worker is this one on the answers it takes before it ends. -/
namespace EpollHttpServer.SendLoop
open CString Worker Driven

inductive SendEnd where
  | complete
  | retries
  | failed
  deriving DecidableEq, Repr

def closeConn : SendEnd → Bool
  | .complete => false
  | _ => true

-- socket is what it has taken so far.
structure Sending where
  sent : Nat
  retry : Nat
  socket : Bytes
  ended : Option SendEnd
  deriving DecidableEq, Repr

def opening : Sending := ⟨0,0,[],none⟩

/- One turn: the loop condition, then the write that it lets through. The socket takes at least one byte, and no
more than it is offered. -/
def sendTurn (text : Bytes) (s : Sending) (outcome : WriteOutcome) : Sending :=
  match s.ended with
  | some _ => s
  | none =>
    if s.sent < text.length then
      match outcome with
      | .taken n =>
        let count := min (n+1) (text.length - s.sent)
        { s with sent := s.sent + count, retry := 0, socket := s.socket ++ (text.drop s.sent).take count }
      | .again =>
        if s.retry + 1 > 1000 then { s with retry := s.retry + 1, ended := some .retries }
        else { s with retry := s.retry + 1 }
      | .error => { s with ended := some .failed }
    else { s with ended := some .complete }

def sendAfter (text : Bytes) (outcomes : Nat → WriteOutcome) (n : Nat) : Sending := after (sendTurn text) outcomes opening n

/- The bytes that are left count most; among equals, the retries that are left. -/
def sendMeasure (text : Bytes) (s : Sending) : Nat :=
  if s.ended = none then (text.length - s.sent) * 1001 + (1000 - s.retry) + 1 else 0

theorem measureFalls (text : Bytes) (s : Sending) (outcome : WriteOutcome) (running : s.ended = none) :
    sendMeasure text (sendTurn text s outcome) < sendMeasure text s := by
  simp only [sendMeasure, sendTurn, running, if_true]
  split
  · rename_i more
    cases outcome with
    | taken n =>
      simp only [if_true]
      omega
    | again =>
      dsimp only
      split
      · simp
      · simp only [if_true]
        omega
    | error => simp
  · simp

theorem sendEnds (text : Bytes) (outcomes : Nat → WriteOutcome) :
    ∃ n ≤ 1001 * (text.length + 1), (sendAfter text outcomes n).ended ≠ none := by
  obtain ⟨n,bound,done⟩ := @ends _ _ (sendTurn text) (fun s => s.ended ≠ none) (sendMeasure text)
    (fun s outcome running => measureFalls text s outcome (not_not.mp running)) outcomes opening
  refine ⟨n,?_,done⟩
  have start : sendMeasure text opening = text.length * 1001 + 1001 := rfl
  omega

/- What every turn keeps: the socket has taken the front of the text, as far as sent says, and a loop that ended by
its condition has nothing left. -/
structure Sent (text : Bytes) (s : Sending) : Prop where
  bound : s.sent ≤ text.length
  front : s.socket = text.take s.sent
  whole : s.ended = some .complete → s.sent = text.length
  part : ∀ e, s.ended = some e → e ≠ .complete → s.sent < text.length

theorem sendKeeps {text : Bytes} (s : Sending) (outcome : WriteOutcome) (holds : Sent text s) :
    Sent text (sendTurn text s outcome) := by
  unfold sendTurn
  split
  · exact holds
  · rename_i running
    split
    · rename_i more
      cases outcome with
      | taken n =>
        refine ⟨by dsimp only; omega,?_,fun done => ?_,fun e done => ?_⟩
        · dsimp only
          rw [holds.front, List.take_add]
        · exact absurd (running.symm.trans done) (by simp)
        · exact absurd (running.symm.trans done) (by simp)
      | again =>
        dsimp only
        split
        · exact ⟨holds.bound,holds.front,fun done => by simp at done,fun _ _ _ => more⟩
        · exact ⟨holds.bound,holds.front,holds.whole,holds.part⟩
      | error => exact ⟨holds.bound,holds.front,fun done => by simp at done,fun _ _ _ => more⟩
    · rename_i finished
      refine ⟨holds.bound,holds.front,fun _ => ?_,fun e done other => ?_⟩
      · have bound := holds.bound
        dsimp only
        omega
      · exact absurd (Option.some.inj done).symm other

theorem sendHolds (text : Bytes) (outcomes : Nat → WriteOutcome) (n : Nat) : Sent text (sendAfter text outcomes n) :=
  always sendKeeps outcomes ⟨Nat.zero_le _,rfl,fun done => by contradiction,fun _ done => by contradiction⟩ n

theorem endedStill {text : Bytes} {s : Sending} {e : SendEnd} (done : s.ended = some e) (outcome : WriteOutcome) :
    sendTurn text s outcome = s := by
  simp only [sendTurn, done]

theorem endedFold {text : Bytes} {s : Sending} {e : SendEnd} (done : s.ended = some e) (os : List WriteOutcome) :
    os.foldl (sendTurn text) s = s := by
  induction os with
  | nil => rfl
  | cons outcome os ih => rw [List.foldl_cons, endedStill done, ih]

/- The retries of a loop that still runs: as many of the last turns were EAGAIN, and nothing was sent in them. -/
structure Waited (text : Bytes) (outcomes : Nat → WriteOutcome) (n : Nat) : Prop where
  short : (sendAfter text outcomes n).retry ≤ n
  again : ∀ i < (sendAfter text outcomes n).retry, outcomes (n - 1 - i) = .again
  still : ∀ i ≤ (sendAfter text outcomes n).retry, (sendAfter text outcomes (n - i)).sent = (sendAfter text outcomes n).sent

theorem waitedNext {text : Bytes} {outcomes : Nat → WriteOutcome} {n : Nat} (waited : Waited text outcomes n)
    (same : (sendAfter text outcomes (n+1)).sent = (sendAfter text outcomes n).sent)
    (more : (sendAfter text outcomes (n+1)).retry = (sendAfter text outcomes n).retry + 1) (again : outcomes n = .again) :
    Waited text outcomes (n+1) := by
  refine ⟨by have short := waited.short; omega,fun i less => ?_,fun i most => ?_⟩
  · cases i with
    | zero => exact again
    | succ i =>
      rw [show n + 1 - 1 - (i+1) = n - 1 - i by omega]
      exact waited.again i (by omega)
  · cases i with
    | zero => rfl
    | succ i =>
      rw [show n + 1 - (i+1) = n - i by omega, same]
      exact waited.still i (by omega)

theorem sendWaits (text : Bytes) (outcomes : Nat → WriteOutcome) (n : Nat)
    (running : (sendAfter text outcomes n).ended = none) : Waited text outcomes n := by
  induction n with
  | zero => exact ⟨Nat.le_refl 0,fun i less => absurd less (Nat.not_lt_zero i),fun i _ => by rw [Nat.zero_sub]⟩
  | succ n ih =>
    have turned : sendAfter text outcomes (n+1) = sendTurn text (sendAfter text outcomes n) (outcomes n) := rfl
    cases before : (sendAfter text outcomes n).ended with
    | some e =>
      rw [turned, endedStill before, before] at running
      contradiction
    | none =>
      have waited := ih before
      simp only [sendTurn, before] at turned
      split at turned
      · cases made : outcomes n with
        | taken k =>
          rw [made] at turned
          have zero : (sendAfter text outcomes (n+1)).retry = 0 := by rw [turned]
          refine ⟨by omega,fun i less => by omega,fun i most => ?_⟩
          rw [show i = 0 by omega, Nat.sub_zero]
        | again =>
          rw [made] at turned
          dsimp only at turned
          split at turned
          · rw [turned] at running
            contradiction
          · exact waitedNext waited (by rw [turned]) (by rw [turned]) made
        | error =>
          rw [made] at turned
          rw [turned] at running
          contradiction
      · rw [turned] at running
        contradiction

/- The turn in which the loop gives up is the last of 1001 that were EAGAIN, one after another. -/
theorem givesUp {text : Bytes} {outcomes : Nat → WriteOutcome} {n : Nat} (running : (sendAfter text outcomes n).ended = none)
    (gone : (sendAfter text outcomes (n+1)).ended = some .retries) : 1000 ≤ n ∧ ∀ i < 1001, outcomes (n - i) = .again ∧
      (sendAfter text outcomes (n - i)).sent = (sendAfter text outcomes (n+1)).sent := by
  have waited := sendWaits text outcomes n running
  have turned : sendAfter text outcomes (n+1) = sendTurn text (sendAfter text outcomes n) (outcomes n) := rfl
  simp only [sendTurn, running] at turned
  have last : outcomes n = .again ∧ 1000 ≤ (sendAfter text outcomes n).retry ∧
      (sendAfter text outcomes (n+1)).sent = (sendAfter text outcomes n).sent := by
    split at turned
    · cases made : outcomes n with
      | taken k =>
        rw [made] at turned
        rw [turned] at gone
        cases gone
      | again =>
        rw [made] at turned
        dsimp only at turned
        split at turned
        · exact ⟨rfl,by omega,by rw [turned]⟩
        · rw [turned] at gone
          cases gone
      | error =>
        rw [made] at turned
        rw [turned] at gone
        cases gone
    · rw [turned] at gone
      cases gone
  have short := waited.short
  refine ⟨by omega,fun i less => ⟨?_,?_⟩⟩
  · cases i with
    | zero => exact last.1
    | succ i =>
      rw [show n - (i+1) = n - 1 - i by omega]
      exact waited.again i (by omega)
  · rw [last.2.2]
    exact waited.still i (by omega)

theorem sendNothing (os : List WriteOutcome) (retry : Nat) : sendLoop os [] retry = (false,[]) := by
  cases os <;> rfl

/- Where the loop ends, the loop of the worker ends alike, and has sent the rest of what was taken. -/
theorem foldSent {text : Bytes} {os : List WriteOutcome} {s : Sending} {e : SendEnd} (running : s.ended = none)
    (bound : s.sent ≤ text.length) (done : (os.foldl (sendTurn text) s).ended = some e) :
    (os.foldl (sendTurn text) s).socket = s.socket ++ (sendLoop os (text.drop s.sent) s.retry).2 ∧
      (sendLoop os (text.drop s.sent) s.retry).1 = closeConn e := by
  induction os generalizing s with
  | nil => exact absurd (running.symm.trans done) (by simp)
  | cons outcome os ih =>
    rw [List.foldl_cons] at done ⊢
    by_cases more : s.sent < text.length
    · obtain ⟨b,left,shape⟩ : ∃ b left, text.drop s.sent = b::left := ⟨_,_,List.drop_eq_getElem_cons more⟩
      cases outcome with
      | taken n =>
        have turned : sendTurn text s (.taken n) = { s with
            sent := s.sent + min (n+1) (text.length - s.sent), retry := 0,
            socket := s.socket ++ (text.drop s.sent).take (min (n+1) (text.length - s.sent)) } := by
          simp only [sendTurn, running, if_pos more]
        have first : (text.drop s.sent).take (min (n+1) (text.length - s.sent)) = (text.drop s.sent).take (n+1) := by
          rw [← List.length_drop, ← List.take_eq_take_min]
        have rest : text.drop (s.sent + min (n+1) (text.length - s.sent)) = (text.drop s.sent).drop (n+1) := by
          rw [List.drop_drop]
          rcases Nat.le_total (n+1) (text.length - s.sent) with fits | past
          · rw [Nat.min_eq_left fits]
          · rw [Nat.min_eq_right past, List.drop_of_length_le (by omega), List.drop_of_length_le (by omega)]
        rw [turned] at done ⊢
        obtain ⟨sent,closed⟩ := @ih { s with
          sent := s.sent + min (n+1) (text.length - s.sent), retry := 0,
          socket := s.socket ++ (text.drop s.sent).take (min (n+1) (text.length - s.sent)) } running (by dsimp only; omega) done
        dsimp only at sent closed
        rw [rest] at sent closed
        rw [first] at sent
        rw [first, sent]
        rw [shape] at closed ⊢
        exact ⟨List.append_assoc _ _ _,closed⟩
      | again =>
        rw [shape]
        simp only [sendLoop]
        by_cases past : s.retry + 1 > 1000
        · have turned : sendTurn text s .again = { s with retry := s.retry + 1, ended := some .retries } := by
            simp only [sendTurn, running, if_pos more, if_pos past]
          rw [turned, endedFold rfl] at done ⊢
          cases Option.some.inj done
          rw [if_pos past, List.append_nil]
          exact ⟨rfl,rfl⟩
        · have turned : sendTurn text s .again = { s with retry := s.retry + 1 } := by
            simp only [sendTurn, running, if_pos more, if_neg past]
          rw [turned] at done ⊢
          rw [if_neg past, ← shape]
          exact @ih { s with retry := s.retry + 1 } running bound done
      | error =>
        have turned : sendTurn text s .error = { s with ended := some .failed } := by
          simp only [sendTurn, running, if_pos more]
        rw [turned, endedFold rfl] at done ⊢
        cases Option.some.inj done
        rw [shape]
        simp only [sendLoop, List.append_nil]
        exact ⟨trivial,rfl⟩
    · have turned : sendTurn text s outcome = { s with ended := some .complete } := by
        simp only [sendTurn, running, if_neg more]
      rw [turned, endedFold rfl] at done ⊢
      cases Option.some.inj done
      rw [List.drop_of_length_le (by omega), sendNothing, List.append_nil]
      exact ⟨rfl,rfl⟩

theorem closeEnds {text : Bytes} {s : Sending} {e : SendEnd} (holds : Sent text s) (done : s.ended = some e) :
    closeConn e = false ↔ s.socket = text := by
  rw [holds.front, List.take_eq_self_iff]
  have bound := holds.bound
  cases e with
  | complete => exact iff_of_true rfl (Nat.le_of_eq (holds.whole done).symm)
  | retries => exact iff_of_false (by decide) (Nat.not_le.mpr (holds.part _ done (by decide)))
  | failed => exact iff_of_false (by decide) (Nat.not_le.mpr (holds.part _ done (by decide)))

/- The loop ends after so many turns at most, and keeps the connection when the socket has taken the whole text and
not otherwise; all along the socket has taken the front of it; and it gives up after 1001 EAGAIN in a row. -/
theorem loopSends (text : Bytes) (outcomes : Nat → WriteOutcome) :
    (∃ n ≤ 1001 * (text.length + 1), ∃ e, (sendAfter text outcomes n).ended = some e ∧
      sendLoop (taken outcomes n) text 0 = (closeConn e,(sendAfter text outcomes n).socket) ∧
      (closeConn e = false ↔ (sendAfter text outcomes n).socket = text)) ∧
    (∀ n, (sendAfter text outcomes n).sent ≤ text.length ∧
      (sendAfter text outcomes n).socket = text.take (sendAfter text outcomes n).sent) ∧
    (∀ n, (sendAfter text outcomes n).ended = none → (sendAfter text outcomes (n+1)).ended = some .retries →
      1000 ≤ n ∧ ∀ i < 1001, outcomes (n - i) = .again ∧
        (sendAfter text outcomes (n - i)).sent = (sendAfter text outcomes (n+1)).sent) := by
  refine ⟨?_,fun n => ?_,fun n running gone => givesUp running gone⟩
  · obtain ⟨n,bound,done⟩ := sendEnds text outcomes
    obtain ⟨e,ended⟩ := Option.ne_none_iff_exists'.mp done
    refine ⟨n,bound,e,ended,?_,closeEnds (sendHolds text outcomes n) ended⟩
    have folded : ((taken outcomes n).foldl (sendTurn text) opening).ended = some e := by
      rw [← afterTaken]
      exact ended
    obtain ⟨socket,closed⟩ := foldSent rfl (Nat.zero_le _) folded
    rw [← afterTaken] at socket
    exact Prod.ext closed socket.symm
  · have holds := sendHolds text outcomes n
    exact ⟨holds.bound,holds.front⟩

end EpollHttpServer.SendLoop
