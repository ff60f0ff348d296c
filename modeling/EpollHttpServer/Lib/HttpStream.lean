import EpollHttpServer.Lib.HttpMessage

/-! The messages of a persistent connection, one after another, and the reader at its other end. It takes
of each message as much body as the length field says, and no body where it knows that none comes. -/
namespace HttpStream
open CString Crlf HttpMessage

def cutBody (bodiless : Bool) (m : Message) (rest : Bytes) : Option (Message × Bytes) :=
  match bodiless,m.contentLength with
  | true,_ => some (m,rest)
  | false,none => none
  | false,some n => if n ≤ rest.length then some ({m with body := rest.take n},rest.drop n) else none

/- The first message of a stream, and what follows it. -/
def readMessage (bodiless : Bool) (stream : Bytes) : Option (Message × Bytes) :=
  match parse stream with
  | none => none
  | some m => cutBody bodiless {m with body := []} m.body

/- The stream ends with the last message that is waited for. -/
def readStream : List Bool → Bytes → Option (List Message)
  | [],[] => some []
  | [],_::_ => none
  | bodiless::more,stream => match readMessage bodiless stream with
    | none => none
    | some (m,rest) => (readStream more rest).map (m :: ·)

/- The message tells its reader where it ends. -/
def Delimited (bodiless : Bool) (m : Message) : Prop :=
  match bodiless with
  | true => m.body = []
  | false => m.contentLength = some m.body.length

/- The head of a text ends at its first blank line. -/
theorem headAt {s : Bytes} {ls : List Bytes} {rest : Bytes} (head : Head s ls rest) :
    ∃ h, FirstAt blank s h ∧ lines (s.take h) = ls ∧ s.drop (h+4) = rest := by
  obtain ⟨h,first⟩ := blankExists (headBlank head)
  obtain ⟨lined,left⟩ := headUnique head (headOfBlank first)
  exact ⟨h,first,lined.symm,left.symm⟩

theorem parseFollowed {m : Message} (wf : WellFormed m) (rest : Bytes) :
    parse (m.render ++ rest) = some {m with body := m.body ++ rest} := by
  have text : m.render ++ rest = Message.render {m with body := m.body ++ rest} := by
    simp only [Message.render, Message.head, List.append_assoc]
  rw [text]
  exact parseRender ⟨wf.status,wf.names,wf.lines⟩

theorem readFollowed {m : Message} (wf : WellFormed m) (bodiless : Bool) (rest : Bytes) :
    readMessage bodiless (m.render ++ rest) = cutBody bodiless {m with body := []} (m.body ++ rest) := by
  rw [readMessage, parseFollowed wf]

/- Whoever gets a message back has been told its end. -/
theorem cutDelimited {bodiless : Bool} {m : Message} {text rest : Bytes}
    (cut : cutBody bodiless {m with body := []} text = some (m,rest)) : Delimited bodiless m := by
  cases bodiless with
  | true =>
    have same := congrArg Prod.fst (Option.some.inj cut)
    exact (congrArg Message.body same).symm
  | false =>
    have length : Message.contentLength {m with body := []} = m.contentLength := rfl
    simp only [cutBody, length] at cut
    cases announced : m.contentLength with
    | none =>
      rw [announced] at cut
      contradiction
    | some n =>
      simp only [announced] at cut
      split at cut <;> try contradiction
      rename_i fits
      have body : text.take n = m.body := congrArg (fun x => x.1.body) (Option.some.inj cut)
      rw [Delimited, announced, ← body, List.length_take, Nat.min_eq_left fits]

theorem delimitedCut {bodiless : Bool} {m : Message} (delimited : Delimited bodiless m) (rest : Bytes) :
    cutBody bodiless {m with body := []} (m.body ++ rest) = some (m,rest) := by
  cases bodiless with
  | true =>
    have empty : m.body = [] := delimited
    obtain ⟨status,fields,body⟩ := m
    cases empty
    rfl
  | false =>
    have length : Message.contentLength {m with body := []} = some m.body.length := delimited
    have fits : m.body.length ≤ (m.body ++ rest).length := by
      rw [List.length_append]
      exact Nat.le_add_right _ _
    simp only [cutBody, length]
    rw [if_pos fits, List.take_left, List.drop_left]

/- The reader gets exactly the messages that were written when each of them tells its end, and only then. -/
theorem streamRendered {ms : List (Bool × Message)} (wf : ∀ x ∈ ms, WellFormed x.2) :
    readStream (ms.map Prod.fst) (ms.map (fun x => x.2.render)).flatten = some (ms.map Prod.snd) ↔
      ∀ x ∈ ms, Delimited x.1 x.2 := by
  induction ms with
  | nil => simp [readStream]
  | cons x ms ih =>
    obtain ⟨bodiless,m⟩ := x
    have ih := ih (fun y hy => wf y (List.mem_cons_of_mem _ hy))
    have first := @readFollowed m (wf _ List.mem_cons_self) bodiless (ms.map (fun x => x.2.render)).flatten
    simp only [List.map_cons, List.flatten_cons, readStream, first]
    constructor
    · intro read
      cases cut : cutBody bodiless {m with body := []} (m.body ++ (ms.map (fun x => x.2.render)).flatten) with
      | none =>
        rw [cut] at read
        contradiction
      | some found =>
        obtain ⟨got,rest⟩ := found
        rw [cut] at read
        obtain ⟨later,same,whole⟩ := Option.map_eq_some_iff.mp read
        cases whole
        have delimited := cutDelimited cut
        rw [delimitedCut delimited] at cut
        cases cut
        intro y member
        rcases List.mem_cons.mp member with rfl | member
        · exact delimited
        · exact ih.mp same y member
    · intro each
      rw [delimitedCut (each _ List.mem_cons_self)]
      simp only [ih.mpr (fun y hy => each y (List.mem_cons_of_mem _ hy)), Option.map_some]

end HttpStream
