import EpollHttpServer.LengthLines

/-! is_request_complete of epoll_handler.c against http_parse_request: both read a
length from the head of one buffer. The literal of the first holds U+2011, three
bytes, where the header name has a hyphen, so the 15 bytes it compares end in "Lengt". -/
namespace EpollHttpServer.Framing
open CString Crlf HttpParser

def contentLengthName : Bytes := ascii "Content" ++ [0xE2,0x80,0x91] ++ ascii "Length:"

-- The pointer p moves past one CRLF a turn until it reaches header_end.
def lengthScan : Nat → Bytes → Bytes → Int
  | 0,_,_ => 0
  | fuel+1,headerEnd,p =>
    if p.length ≤ headerEnd.length then 0
    else if strncasecmpEq p contentLengthName 15 then
      atoi ((p.drop 15).dropWhile (fun b => b == 32 || b == 9))
    else match strstr crlf p with
      | none => 0
      | some next => lengthScan fuel headerEnd (next.drop 2)

/- The result, and what out_content_length holds on return: it keeps its value when the
head has not ended. The sum is an int. -/
def isRequestComplete (buf : Bytes) (len : Int) (out : Int) : Bool × Int :=
  match strstr blank buf with
  | none => (false,out)
  | some headerEnd =>
    let headerLen : Int := (buf.length - headerEnd.length : Nat) + 4
    let contentLength := lengthScan buf.length headerEnd buf
    (decide (¬ len < wrapInt (headerLen + contentLength)),contentLength)

def opensLength (line : Bytes) : Bool := strncasecmpEq line contentLengthName 15

/- The number after the first line of the head that opens as the literal does. The text
it is read from runs on past that line, and past the head. -/
def announced : List Bytes → Bytes → Int
  | [],_ => 0
  | line::ls,rest =>
    if opensLength line then atoi (line.drop 15 ++ crlf ++ unlines ls ++ crlf ++ rest)
    else announced ls rest

/- The text behind the literal of is_request_complete, in the first line that opens with it. -/
def literalText : List Bytes → Bytes → Option Bytes
  | [],_ => none
  | line::ls,rest =>
    if opensLength line then some (line.drop 15 ++ crlf ++ unlines ls ++ crlf ++ rest) else literalText ls rest

theorem announcedLiteral (ls : List Bytes) (rest : Bytes) : announced ls rest = ((literalText ls rest).map atoi).getD 0 := by
  induction ls with
  | nil => rfl
  | cons line ls ih =>
    unfold announced literalText
    split
    · rfl
    · exact ih

theorem opensLengthStop {line : Bytes} (nul : (0 : UInt8) ∉ line) (t : Bytes) :
    strncasecmpEq (line ++ crlf ++ t) contentLengthName 15 = opensLength line ∧
      (opensLength line = true → 15 ≤ line.length) := by
  have stop := @strncasecmpStop line contentLengthName 15 13 nul (by decide) (by decide) (by decide)
    (10::t)
  simpa [crlf, opensLength] using stop

theorem scanLines {fuel : Nat} {ls : List Bytes} (rest : Bytes) (enough : ls.length < fuel)
    (free : ∀ l ∈ ls, CrlfFree l) (nul : ∀ l ∈ ls, (0 : UInt8) ∉ l) :
    lengthScan fuel (blank ++ rest) (unlines ls ++ crlf ++ rest) = announced ls rest := by
  induction ls generalizing fuel with
  | nil =>
    cases fuel with
    | zero => rfl
    | succ fuel => simp [lengthScan, blank, announced]
  | cons line ls ih =>
    cases fuel with
    | zero => omega
    | succ fuel =>
      have lineNul := nul line List.mem_cons_self
      have text : unlines (line::ls) ++ crlf ++ rest = line ++ crlf ++ (unlines ls ++ crlf ++ rest) := by
        simp
      have opens := opensLengthStop lineNul (unlines ls ++ crlf ++ rest)
      have found := strstrLine (free line List.mem_cons_self) lineNul (unlines ls ++ crlf ++ rest)
      have next : (crlf ++ (unlines ls ++ crlf ++ rest)).drop 2 = unlines ls ++ crlf ++ rest := rfl
      have later := @ih fuel (by simp only [List.length_cons] at enough; omega)
        (fun l hl => free l (List.mem_cons_of_mem _ hl)) (fun l hl => nul l (List.mem_cons_of_mem _ hl))
      rw [text]
      unfold lengthScan announced
      split
      · -- The pointer stands on header_end: the head is one empty line.
        rename_i reached
        have empty : line = [] ∧ ls = [] := by
          have many := linesCount ls
          simp only [List.length_append, blank, crlf, List.length_cons, List.length_nil] at reached
          constructor
          · exact List.length_eq_zero_iff.mp (by omega)
          · exact List.length_eq_zero_iff.mp (by omega)
        obtain ⟨rfl,rfl⟩ := empty
        rfl
      · rw [opens.1]
        cases opened : opensLength line with
        | true =>
          have kept : (line ++ crlf ++ (unlines ls ++ crlf ++ rest)).drop 15 =
              line.drop 15 ++ crlf ++ unlines ls ++ crlf ++ rest := by
            rw [List.append_assoc, List.drop_append_of_le_length (opens.2 opened)]
            simp
          have skip : ∀ b : UInt8, (b == 32 || b == 9) = true → isspace b = true := by
            intro b hb
            simp only [Bool.or_eq_true, beq_iff_eq] at hb
            rcases hb with same | same <;> subst same <;> decide
          rw [if_pos rfl, if_pos rfl, atoiDropBlank skip, kept]
        | false =>
          simp only [found, next, Bool.false_eq_true, if_false]
          exact later

theorem announcedRange (ls : List Bytes) (rest : Bytes) :
    -2^31 ≤ announced ls rest ∧ announced ls rest < 2^31 := by
  induction ls with
  | nil => simp [announced]
  | cons line ls ih =>
    unfold announced
    split
    · exact atoiRange _
    · exact ih

theorem completeHidden {buf : Bytes} {h : Nat} (first : FirstAt blank buf h) (nul : (0 : UInt8) ∈ buf.take h)
    (len out : Int) : isRequestComplete buf len out = (false,out) := by
  have hidden := strstrHidden (by simp [blank, crlf]) first nul
  simp [isRequestComplete, hidden]

theorem headLinesFree {buf : Bytes} {h : Nat} (free : (0 : UInt8) ∉ buf.take h) :
    ∀ l ∈ lines (buf.take h), (0 : UInt8) ∉ l :=
  fun _ hl zero => free (linesMember hl 0 zero)

theorem headScan {buf : Bytes} {h : Nat} (first : FirstAt blank buf h) (free : (0 : UInt8) ∉ buf.take h) :
    ((buf.length - (buf.drop h).length : Nat) : Int) = h ∧
    lengthScan buf.length (buf.drop h) buf = announced (lines (buf.take h)) (buf.drop (h+4)) := by
  have head := headOfBlank first
  have text := headText head
  obtain ⟨t,ht⟩ := first.here
  have rest : buf.drop (h+4) = t := by
    rw [← List.drop_drop, ← ht]
    simp [blank, crlf]
  have size : h + 4 ≤ buf.length := by
    have len := congrArg List.length ht
    simp only [List.length_append, blank, crlf, List.length_cons, List.length_nil, List.length_drop] at len
    omega
  have header : ((buf.length - (buf.drop h).length : Nat) : Int) = h := by
    simp only [List.length_drop]
    omega
  have fuel : (lines (buf.take h)).length < buf.length := by
    have many := linesCount (lines (buf.take h))
    have len := congrArg List.length text
    simp only [List.length_append, crlf, List.length_cons, List.length_nil] at len
    omega
  have scan := scanLines (buf.drop (h+4)) fuel (headFree head) (headLinesFree free)
  rw [← text, rest, ht, ← rest] at scan
  exact ⟨header,scan⟩

theorem completeHead {buf : Bytes} {h : Nat} (first : FirstAt blank buf h) (free : (0 : UInt8) ∉ buf.take h)
    (len out : Int) : isRequestComplete buf len out =
      (decide (¬ len < wrapInt (h + 4 + announced (lines (buf.take h)) (buf.drop (h+4)))),
        announced (lines (buf.take h)) (buf.drop (h+4))) := by
  have found := strstrAt (by simp [blank, crlf]) first free
  obtain ⟨header,scan⟩ := headScan first free
  simp only [isRequestComplete, found, header, scan]

/- What the receive side and the parser owe each other on a buffer whose first blank line is at
offset h: a positive answer exactly when the declared body has arrived, with its length. -/
def Agrees (buf : Bytes) (len h : Nat) (req : HttpRequest) : Prop :=
  ∀ out, ((isRequestComplete buf len out).1 = true ↔ max 0 req.contentLength ≤ (len - (h+4) : Nat)) ∧
    (0 ≤ req.contentLength → (isRequestComplete buf len out).2 = req.contentLength)

/- The bytes of the head for that. No NUL hides it. Where no line opens with the literal, the text of the last
length header writes nothing that an int would hold as a positive number; where one does, the integer behind
the literal and the integer of that header have the same lower half, or the header's is negative as an int
and the other is not more than the body that is there, or too large to be added to the length of the head. -/
structure SameLength (buf : Bytes) (len h : Nat) : Prop where
  visible : (0 : UInt8) ∉ buf.take h
  silent : literalText (lines (buf.take h)) (buf.drop (h+4)) = none →
    ∀ value, lengthValue (lines (buf.take h)).tail = some value → ¬ (0 < lowerHalf value ∧ lowerHalf value < 2^31)
  spoken : ∀ text, literalText (lines (buf.take h)) (buf.drop (h+4)) = some text →
    ∀ value, (lengthValue (lines (buf.take h)).tail).getD [] = value →
      (lowerHalf value < 2^31 → lowerHalf text = lowerHalf value ∧ h + 4 + lowerHalf value < 2^31) ∧
      (2^31 ≤ lowerHalf value → h + 4 + lowerHalf text ≤ len ∨ 2^31 ≤ h + 4 + lowerHalf text)

/- The same in the two numbers that are read from those texts. -/
theorem sameNumbers {buf : Bytes} {len h : Nat} (fits : h + 4 ≤ len) (small : len ≤ 4095) :
    SameLength buf len h ↔ (0 : UInt8) ∉ buf.take h ∧
      (0 ≤ declared (lines (buf.take h)).tail →
        announced (lines (buf.take h)) (buf.drop (h+4)) = declared (lines (buf.take h)).tail ∧
        h + 4 + declared (lines (buf.take h)).tail < 2^31) ∧
      (declared (lines (buf.take h)).tail < 0 →
        announced (lines (buf.take h)) (buf.drop (h+4)) ≤ (len - (h+4) : Nat) ∨
        2^31 ≤ h + 4 + announced (lines (buf.take h)) (buf.drop (h+4))) := by
  have empty : atoi [] = 0 := by decide
  have value : declared (lines (buf.take h)).tail = atoi ((lengthValue (lines (buf.take h)).tail).getD []) := by
    rw [declaredValue]
    cases lengthValue (lines (buf.take h)).tail with
    | none => exact empty.symm
    | some v => rfl
  have header := halfRange ((lengthValue (lines (buf.take h)).tail).getD [])
  rw [announcedLiteral, value, atoiHalf]
  constructor
  · rintro ⟨visible,silent,spoken⟩
    refine ⟨visible,?_⟩
    cases literal : literalText (lines (buf.take h)) (buf.drop (h+4)) with
    | none =>
      have quiet : ¬ (0 < lowerHalf ((lengthValue (lines (buf.take h)).tail).getD []) ∧
          lowerHalf ((lengthValue (lines (buf.take h)).tail).getD []) < 2^31) := by
        cases said : lengthValue (lines (buf.take h)).tail with
        | none => exact fun wrong => absurd wrong.1 (by decide)
        | some v => exact silent literal v said
      rw [Option.map_none, Option.getD_none]
      split <;> omega
    | some text =>
      have both := spoken text literal _ rfl
      have behind := halfRange text
      rw [Option.map_some, Option.getD_some, atoiHalf]
      split <;> split <;> omega
  · rintro ⟨visible,plus,minus⟩
    refine ⟨visible,?_,?_⟩
    · intro literal v said positive
      rw [literal, Option.map_none, Option.getD_none, said, Option.getD_some] at plus
      rw [said, Option.getD_some] at header
      split at plus <;> omega
    · rintro text literal v rfl
      have behind := halfRange text
      rw [literal, Option.map_some, Option.getD_some, atoiHalf] at plus minus
      constructor
      · intro low
        rw [if_pos low] at plus
        split at plus <;> omega
      · intro high
        rw [if_neg (by omega)] at minus
        split at minus <;> omega

theorem framingAgreesWhen {malloc : Nat → Bool} {buf : Bytes} {len h : Nat} {req : HttpRequest}
    (bound : len ≤ bufferSize - 1) (first : FirstAt blank (buf.take len) h)
    (ok : httpParseRequest malloc buf len = some req) :
    Agrees buf len h req ↔ SameLength buf len h := by
  have whole := firstAtTake first
  have fits : h + 4 ≤ len := by
    have long := first.here.length_le
    simp only [blank, crlf, List.length_append, List.length_cons, List.length_nil, List.length_drop,
      List.length_take] at long
    omega
  have small : len ≤ 4095 := bound
  by_cases nul : (0 : UInt8) ∈ buf.take h
  · -- The head is hidden from strstr: nothing is ever complete, and out is left alone.
    have hidden := completeHidden whole nul
    refine ⟨fun agrees => ?_,fun same => absurd nul same.visible⟩
    have asked := agrees (req.contentLength + 1)
    simp only [hidden] at asked
    by_cases minus : req.contentLength < 0
    · exact absurd (asked.1.mpr (by omega)) (by simp)
    · exact absurd (asked.2 (by omega)) (by omega)
  · rw [sameNumbers fits small]
    have complete := completeHead whole nul len
    have length := parsedContentLength (headOfBlank whole) (headLinesFree nul) ok
    have range := announcedRange (lines (buf.take h)) (buf.drop (h+4))
    have sum : wrapInt (h + 4 + announced (lines (buf.take h)) (buf.drop (h+4))) =
        if h + 4 + announced (lines (buf.take h)) (buf.drop (h+4)) < 2^31
        then h + 4 + announced (lines (buf.take h)) (buf.drop (h+4))
        else h + 4 + announced (lines (buf.take h)) (buf.drop (h+4)) - 2^32 := by
      split
      · exact wrapIntRange (by omega) (by omega)
      · exact wrapIntOver (by omega) (by omega)
    simp only [Agrees, complete, length, decide_eq_true_eq, forall_const, sum]
    constructor
    · intro agrees
      refine ⟨nul,fun plus => ?_,fun minus => ?_⟩
      · have same := agrees.2 plus
        split at agrees <;> omega
      · split at agrees <;> omega
    · rintro ⟨-,plus,minus⟩
      split <;> omega

def getBuffer : Bytes := ascii "GET / HTTP/1.1\r\n\r\n" ++ [0]

theorem getBufferAgrees : ∃ req, httpParseRequest (fun _ => true) getBuffer 18 = some req ∧
    (Agrees getBuffer 18 14 req ↔ SameLength getBuffer 18 14) := by
  cases ok : httpParseRequest (fun _ => true) getBuffer 18 with
  | none => exact absurd ok (by decide +kernel)
  | some req => exact ⟨req,rfl,framingAgreesWhen (by decide) (by decide +kernel) ok⟩

/- Five body bytes are announced and none has arrived. -/
def postBuffer : Bytes := ascii "POST / HTTP/1.1\r\nContent-Length: 5\r\n\r\n" ++ [0]

theorem postBufferDisagrees : FirstAt blank (postBuffer.take 38) 34 ∧
    ∃ req, httpParseRequest (fun _ => true) postBuffer 38 = some req ∧ req.contentLength = 5 ∧
      isRequestComplete postBuffer 38 0 = (true,0) ∧ ¬ Agrees postBuffer 38 34 req := by
  have length : (httpParseRequest (fun _ => true) postBuffer 38).map (·.contentLength) = some 5 := by
    decide +kernel
  have complete : isRequestComplete postBuffer 38 0 = (true,0) := by decide +kernel
  obtain ⟨req,ok,five⟩ := Option.map_eq_some_iff.mp length
  refine ⟨by decide +kernel,req,ok,five,complete,fun agrees => ?_⟩
  have arrived := (agrees 0).1.mp (congrArg Prod.fst complete)
  rw [five] at arrived
  exact absurd arrived (by decide)

end EpollHttpServer.Framing
