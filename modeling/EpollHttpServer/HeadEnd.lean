import EpollHttpServer.Framing

/-! Where the header loop of http_parse_request stops, and why. is_request_complete finds the end of the
head by one search for four bytes; the loop walks there line by line, and what it reads on the way is the
whole of what the request says but its body. -/
namespace EpollHttpServer.HeadEnd
open CString Crlf HttpParser

-- The three ways out of the loop: its condition, and its two breaks.
inductive LoopEnd where
  | endOfString
  | blankLine
  | missingCrlf
  deriving DecidableEq, Repr

/- The header loop, with the way it is left. None stands for a loop that still runs when the fuel is gone. -/
def headerWalk : Nat → Bytes → HttpRequest → Option LoopEnd × Bytes × HttpRequest
  | 0,p,r => (none,p,r)
  | fuel+1,p,r =>
    if p.headD 0 = 0 then (some .endOfString,p,r)
    else if crlf <+: p then (some .blankLine,p.drop 2,r)
    else match strstr crlf p with
      | none => (some .missingCrlf,p,r)
      | some lineEnd =>
        let lineLen := min (p.length - lineEnd.length) 1023
        headerWalk fuel (lineEnd.drop 2) (addHeader r (p.take lineLen))

/- The text in request_line, and the rest of the buffer from its CRLF on. -/
def requestText (raw : Bytes) : Option (Bytes × Bytes) :=
  (strstr crlf raw).map (fun lineEnd => (raw.take (min (raw.length - lineEnd.length) 1023),lineEnd))

/- The parse up to the end of that loop. -/
def parseHead (raw : Bytes) : Option (Option LoopEnd × Bytes × HttpRequest) :=
  match requestText raw with
  | none => none
  | some (text,lineEnd) =>
    (parseRequestLine text httpRequestInit).map (headerWalk raw.length (lineEnd.drop 2))

theorem walkLoop (fuel : Nat) (p : Bytes) (r : HttpRequest) : (headerWalk fuel p r).2 = headerLoop fuel p r := by
  induction fuel generalizing p r with
  | zero => rfl
  | succ fuel ih =>
    unfold headerWalk headerLoop
    split
    · rfl
    · split
      · rfl
      · cases strstr crlf p with
        | none => rfl
        | some lineEnd => exact ih _ _

theorem parseAfterHead (malloc raw length) : httpParseRequest malloc raw length =
    (parseHead raw).map (fun walk => parseBody malloc raw length walk.2.1 walk.2.2) := by
  unfold httpParseRequest parseHead requestText
  cases strstr crlf raw with
  | none => rfl
  | some lineEnd =>
    dsimp only [Option.map_some]
    cases parseRequestLine (raw.take (min (raw.length - lineEnd.length) 1023)) httpRequestInit with
    | none => rfl
    | some r => simp only [Option.map_some, walkLoop]

theorem walkLines {fuel : Nat} {ls : List Bytes} (rest : Bytes) (r : HttpRequest) (enough : ls.length < fuel)
    (each : ∀ l ∈ ls, HeaderLine l) :
    headerWalk fuel (unlines ls ++ (crlf ++ rest)) r = (some .blankLine,rest,ls.foldl addLine r) := by
  induction ls generalizing fuel r with
  | nil =>
    cases fuel with
    | zero => omega
    | succ fuel => simp [headerWalk, crlf]
  | cons line ls ih =>
    cases fuel with
    | zero => omega
    | succ fuel =>
      have start : unlines (line::ls) ++ (crlf ++ rest) = line ++ crlf ++ (unlines ls ++ (crlf ++ rest)) := by
        simp
      obtain ⟨first,more,found⟩ := lineTurn (each line List.mem_cons_self) (unlines ls ++ (crlf ++ rest))
      have kept := lineCut line (unlines ls ++ (crlf ++ rest))
      have next : (crlf ++ (unlines ls ++ (crlf ++ rest))).drop 2 = unlines ls ++ (crlf ++ rest) := rfl
      rw [start]
      simp only [headerWalk, first, more, if_false, found, kept, next, List.foldl_cons]
      exact ih (addLine r line) (by simp only [List.length_cons] at enough; omega)
        (fun l hl => each l (List.mem_cons_of_mem _ hl))

/- Up to its blank line a head is read the same way, whatever stands behind it. -/
theorem headWalked {raw line rest : Bytes} {ls : List Bytes} (head : Head raw (line::ls) rest)
    (nul : ∀ l ∈ line::ls, (0 : UInt8) ∉ l) :
    parseHead raw = (parseRequestLine (line.take 1023) httpRequestInit).map
      (fun r => (some .blankLine,rest,ls.foldl addLine r)) := by
  have free := headFree head
  have nonempty := headTail head
  have each : ∀ l ∈ ls, HeaderLine l := fun l hl =>
    ⟨nonempty l hl,free l (List.mem_cons_of_mem _ hl),nul l (List.mem_cons_of_mem _ hl)⟩
  have text : raw = line ++ crlf ++ (unlines ls ++ (crlf ++ rest)) := by
    rw [headText head]
    simp
  have found := strstrLine (free line List.mem_cons_self) (nul line List.mem_cons_self) (unlines ls ++ (crlf ++ rest))
  have next : (crlf ++ (unlines ls ++ (crlf ++ rest))).drop 2 = unlines ls ++ (crlf ++ rest) := rfl
  have fuel : ls.length < raw.length := by
    have many := linesCount ls
    have size := congrArg List.length text
    simp only [List.length_append, crlf, List.length_cons, List.length_nil] at size
    omega
  have walk (r : HttpRequest) : headerWalk raw.length (unlines ls ++ (crlf ++ rest)) r =
      (some .blankLine,rest,ls.foldl addLine r) := walkLines rest r fuel each
  have cut : raw.take (min (raw.length - (crlf ++ (unlines ls ++ (crlf ++ rest))).length) 1023) = line.take 1023 := by
    rw [text]
    exact lineCut line _
  have split : strstr crlf raw = some (crlf ++ (unlines ls ++ (crlf ++ rest))) := by
    rw [text]
    exact found
  simp only [parseHead, requestText, split, Option.map_some, cut, next]
  congr 1
  funext r
  exact walk r

/- The lines in front of the first blank line. -/
theorem firstLines {raw : Bytes} {h : Nat} (first : FirstAt blank raw h) (free : (0 : UInt8) ∉ raw.take h) :
    ∃ line ls, Head raw (line::ls) (raw.drop (h+4)) ∧ ∀ l ∈ line::ls, (0 : UInt8) ∉ l := by
  have head := headOfBlank first
  have nul := Framing.headLinesFree free
  cases split : lines (raw.take h) with
  | nil =>
    rw [split] at head
    cases head
  | cons line ls =>
    rw [split] at head nul
    exact ⟨line,ls,head,nul⟩

/- What a request says but for its body. -/
def withoutBody (r : HttpRequest) : HttpRequest := {r with body := none, bodyLength := 0}

theorem bodyAside (malloc raw length p r) : withoutBody (parseBody malloc raw length p r) = withoutBody r := by
  unfold parseBody
  split <;> rfl

/- The same head with another continuation. -/
theorem headContinued {raw rest : Bytes} {ls : List Bytes} {n : Nat} (head : Head raw ls rest)
    (behind : rest = raw.drop n) (other : Bytes) : Head (raw.take n ++ other) ls other := by
  have text := headText head
  have part : raw.take n = unlines ls ++ crlf := by
    conv at text => lhs; rw [← List.take_append_drop n raw, ← behind]
    exact List.append_cancel_right text
  have nonempty : ls ≠ [] := by
    rintro rfl
    cases head
  rw [part]
  exact headOfLines nonempty (headFree head) (headTail head) other

/- The loop ends at the blank line that is_request_complete finds, and the request, its body apart, is
that of the bytes up to there. -/
theorem headStands {raw text lineEnd : Bytes} {h : Nat} {r : HttpRequest} (first : FirstAt blank raw h)
    (free : (0 : UInt8) ∉ raw.take h) (cut : requestText raw = some (text,lineEnd))
    (parses : parseRequestLine text httpRequestInit = some r) :
    (∃ out, parseHead raw = some (some .blankLine,raw.drop (h+4),out)) ∧
    (∃ headerEnd, strstr blank raw = some headerEnd ∧ raw.length - headerEnd.length + 4 = h + 4) ∧
    ∀ rest malloc malloc' length length', ∃ a b, httpParseRequest malloc raw length = some a ∧
      httpParseRequest malloc' (raw.take (h+4) ++ rest) length' = some b ∧ withoutBody a = withoutBody b := by
  obtain ⟨line,ls,head,nul⟩ := firstLines first free
  have found := strstrAt (by simp [blank, crlf]) first free
  have size : h ≤ raw.length := by
    have long := first.here.length_le
    simp only [blank, crlf, List.length_append, List.length_cons, List.length_nil, List.length_drop] at long
    omega
  have walked := headWalked head nul
  have parsed : parseHead raw = some (headerWalk raw.length (lineEnd.drop 2) r) := by
    simp only [parseHead, cut, parses, Option.map_some]
  obtain ⟨start,accepted,-⟩ := Option.map_eq_some_iff.mp (walked.symm.trans parsed)
  rw [accepted, Option.map_some] at walked
  refine ⟨⟨_,walked⟩,⟨_,found,by simp only [List.length_drop]; omega⟩,?_⟩
  intro rest malloc malloc' length length'
  have walked' := headWalked (headContinued head rfl rest) nul
  rw [accepted, Option.map_some] at walked'
  refine ⟨_,_,by rw [parseAfterHead, walked]; rfl,by rw [parseAfterHead, walked']; rfl,?_⟩
  rw [bodyAside, bodyAside]

/- A line without a colon and a bare CR before the blank line, and NUL behind it. -/
def strayBuffer : Bytes := ascii "GET / HTTP/1.1\r\nab\rc\r\n\r\n" ++ [0,13,10]

theorem strayEnds : (∃ out, parseHead strayBuffer = some (some .blankLine,strayBuffer.drop 24,out)) ∧
    ∀ rest, ∃ a b, httpParseRequest (fun _ => true) strayBuffer 24 = some a ∧
      httpParseRequest (fun _ => true) (strayBuffer.take 24 ++ rest) 24 = some b ∧ withoutBody a = withoutBody b := by
  have first : FirstAt blank strayBuffer 20 := by decide +kernel
  have free : (0 : UInt8) ∉ strayBuffer.take 20 := by decide +kernel
  cases cut : requestText strayBuffer with
  | none => exact absurd cut (by decide +kernel)
  | some found =>
    cases parses : parseRequestLine found.1 httpRequestInit with
    | none =>
      have parsed : ((requestText strayBuffer).bind (fun f => parseRequestLine f.1 httpRequestInit)).isSome = true := by
        decide +kernel
      rw [cut, Option.bind_some, parses] at parsed
      contradiction
    | some r =>
      have stands := headStands first free cut parses
      exact ⟨stands.1,fun rest => stands.2.2 rest _ _ _ _⟩

end EpollHttpServer.HeadEnd
