import EpollHttpServer.LengthLines
import EpollHttpServer.PrintedHeaders

/-! The body of a request: as many bytes after the blank line as the header declares and as have come,
whatever they are, but for a NUL at the front, which http_parse_request takes for the end of the text, and for
a length whose digits do not fit the arrays of the parser. -/
namespace EpollHttpServer.RequestBody
open CString Crlf HttpParser PrintedHeaders

/- The buffer of a request: head, body, and what stands behind, where the worker sets a terminator. -/
def received (line : Bytes) (headers : List Bytes) (body behind : Bytes) : Bytes :=
  line ++ crlf ++ (unlines headers ++ (crlf ++ (body ++ behind)))

def receivedLength (line : Bytes) (headers : List Bytes) (body : Bytes) : Nat :=
  (line ++ crlf ++ (unlines headers ++ (crlf ++ body))).length

def Extracted (n : Nat) (body : Bytes) (req : HttpRequest) : Prop :=
  req.bodyLength = (min n body.length : Nat) ∧
    (0 < min n body.length → req.body = some (body.take (min n body.length) ++ [0]))

/- The arrays keep all digits of the value, or enough of them for the body that has come. -/
def Kept (line value body : Bytes) : Prop :=
  (value.takeWhile isdigit).length ≤ valueRoom line value ∨ body.length ≤ digitsValue 0 (value.take (valueRoom line value))

/- The first k bytes of a text that begins with a number begin with the first digits of it. -/
theorem numberCut {value : Bytes} (positive : 0 < digitsValue 0 value) (k : Nat) :
    written (value.take k) = digitsValue 0 (value.take k) ∧ digitsValue 0 (value.take k) ≤ digitsValue 0 value ∧
    (digitsValue 0 (value.take k) = digitsValue 0 value ↔ (value.takeWhile isdigit).length ≤ k) := by
  have digits : ∀ b ∈ value.takeWhile isdigit, isdigit b = true := fun b hb => List.mem_takeWhile_imp hb
  have front : digitsValue 0 (value.take k) = digitsValue 0 ((value.takeWhile isdigit).take k) := by
    rw [List.take_takeWhile, digitsValueFront]
  have whole : digitsValue 0 value = digitsValue 0 (value.takeWhile isdigit) := (digitsValueFront 0 value).symm
  have start : ∀ b, (value.take k).head? = some b → isdigit b = true := by
    intro b first
    cases value with
    | nil =>
      rw [List.take_nil] at first
      contradiction
    | cons d value =>
      cases k with
      | zero => contradiction
      | succ k =>
        cases Option.some.inj first
        by_contra other
        simp [digitsValue, other] at positive
  refine ⟨writtenStart start,?_,?_⟩
  · rw [front, whole]
    exact digitsValueTake digits k
  · rw [front, whole]
    constructor
    · intro same
      by_contra short
      have zero := (digitsValueCut digits (by omega)).mp same
      omega
    · intro all
      rw [List.take_of_length_le all]

/- What is extracted when the parser keeps c of the n bytes that are declared. -/
theorem bodyBytes {n c : Nat} {r : HttpRequest} (content : r.contentLength = c) (fresh : r.body = none ∧ r.bodyLength = 0)
    (low : 1 ≤ n) (less : c ≤ n) (high : n < 2^31 - 1) {malloc : Nat → Bool}
    (memory : ∀ size ≤ n + 1, malloc size = true) (head body behind : Bytes) :
    Extracted n body (parseBody malloc (head ++ (body ++ behind)) (head ++ body).length (body ++ behind) r) ↔
      body = [] ∨ body.headD 0 ≠ 0 ∧ (c = n ∨ body.length ≤ c) := by
  have size : ((head ++ body).length : Int) - ((head ++ (body ++ behind)).length - (body ++ behind).length : Nat) =
      body.length := by
    simp only [List.length_append]
    omega
  have space : ((wrapInt (r.contentLength + 1)) % 2^64).toNat = c + 1 := by
    rw [content, wrapIntRange (by omega) (by omega)]
    omega
  unfold parseBody Extracted
  rw [size, space, content]
  cases body with
  | nil =>
    split
    · simp
    · simp [fresh.2]
  | cons b more =>
    have first : ((b::more) ++ behind).headD 0 = b := rfl
    have positive : 0 < min n (b::more).length := by
      rw [List.length_cons]
      omega
    simp only [first, memory (c+1) (by omega), and_true, List.headD_cons, reduceCtorEq, false_or]
    split
    · rename_i data
      have least : min ((b::more).length : Int) c = (min c (b::more).length : Nat) := by omega
      simp only [least, Int.toNat_natCast]
      constructor
      · rintro ⟨length,-⟩
        exact ⟨data.2,by omega⟩
      · rintro ⟨-,enough⟩
        have same : min c (b::more).length = min n (b::more).length := by omega
        rw [same]
        refine ⟨rfl,fun _ => ?_⟩
        rw [List.take_append_of_le_length (Nat.min_le_right _ _)]
    · rename_i hidden
      refine ⟨fun extracted => ?_,fun visible => absurd ?_ hidden⟩
      · have nothing := fresh.2.symm.trans extracted.1
        omega
      · have many : 1 ≤ (b::more).length := by simp
        exact ⟨by omega,visible.1⟩

/- The number that the parser keeps of the last length line. -/
theorem declaredNumber {headers : List Bytes} {line value : Bytes} {n : Nat} (each : ∀ l ∈ headers, HeaderLine l)
    (few : (headers.filterMap sentField).length ≤ maxHeaders) (last : (lengthLines headers).getLast? = some (line,value))
    (number : digitsValue 0 value = n) (low : 1 ≤ n) (high : n < 2^31 - 1) :
    declared headers = digitsValue 0 (value.take (valueRoom line value)) := by
  obtain ⟨text,less,-⟩ := @numberCut value (by omega) (valueRoom line value)
  have kept : atoi (value.take (valueRoom line value)) = digitsValue 0 (value.take (valueRoom line value)) := by
    rw [atoiWritten (by omega) (by omega), text]
  rw [declaredSent (fun l hl => (each l hl).nul) few, List.getLastD_eq_getLast?, List.getLast?_map, last, Option.map_some,
    Option.getD_some]
  exact kept

/- A body is extracted byte for byte when it is empty, or begins with no NUL and the digits of its length are kept,
and otherwise not. -/
theorem bodyExact {start : Bytes} {headers : List Bytes} {line value : Bytes} {n : Nat} (free : CrlfFree start)
    (nul : (0 : UInt8) ∉ start) (each : ∀ l ∈ headers, HeaderLine l)
    (few : (headers.filterMap sentField).length ≤ maxHeaders) (last : (lengthLines headers).getLast? = some (line,value))
    (number : digitsValue 0 value = n) (low : 1 ≤ n) (high : n < 2^31 - 1) {malloc : Nat → Bool}
    (memory : ∀ size ≤ n + 1, malloc size = true) (body behind : Bytes) {req : HttpRequest}
    (ok : httpParseRequest malloc (received start headers body behind) (receivedLength start headers body) = some req) :
    Extracted n body req ↔ body = [] ∨ body.headD 0 ≠ 0 ∧ Kept line value body := by
  have ends : Ends (crlf ++ (body ++ behind)) := Or.inl (List.prefix_append _ _)
  have text : start ++ crlf ++ (unlines headers ++ (crlf ++ (body ++ behind))) =
      (start ++ crlf ++ unlines headers ++ crlf) ++ (body ++ behind) := by simp
  have size : receivedLength start headers body = ((start ++ crlf ++ unlines headers ++ crlf) ++ body).length := by
    simp [receivedLength]
  rw [received, parseLines free nul each ends, text, size] at ok
  obtain ⟨r,parsed,rfl⟩ := Option.map_eq_some_iff.mp ok
  have keeps := addLinesKeeps (requestLineKeeps parsed) (fun l hl => (each l hl).nul) (fun l hl => (each l hl).free)
    (Nat.zero_le _)
  have content : declared headers = digitsValue 0 (value.take (valueRoom line value)) :=
    declaredNumber each few last number low high
  obtain ⟨-,less,whole⟩ := @numberCut value (by omega) (valueRoom line value)
  rw [number] at less whole
  rw [Kept, ← whole]
  exact bodyBytes (keeps.contentLength.trans content) keeps.body low less high memory _ body behind

def postLine : Bytes := ascii "POST / HTTP/1.1"
def lengthHeader (v : Bytes) : Bytes := printed (ascii "Content-Length",v)

theorem lengthHeaderLine {v : Bytes} (printable : Printable (ascii "Content-Length",v)) :
    ∀ l ∈ [lengthHeader v], HeaderLine l := by
  intro l hl
  rw [List.mem_singleton.mp hl]
  exact printedLine printable

/- Three bytes are declared and five have come, a NUL among them. -/
theorem threeExtracted : ∃ req, httpParseRequest (fun _ => true)
      (received postLine [lengthHeader (ascii "3")] [97,0,98,99,100] [0]) 43 = some req ∧
    (Extracted 3 [97,0,98,99,100] req ↔ ([97,0,98,99,100] : Bytes) = [] ∨
      ([97,0,98,99,100] : Bytes).headD 0 ≠ 0 ∧ Kept (lengthHeader (ascii "3")) (ascii "3") [97,0,98,99,100]) := by
  cases ok : httpParseRequest (fun _ => true) (received postLine [lengthHeader (ascii "3")] [97,0,98,99,100] [0]) 43 with
  | none => exact absurd ok (by decide +kernel)
  | some req =>
    have each := @lengthHeaderLine (ascii "3") ⟨by decide,by decide +kernel,by decide,by decide +kernel,by decide⟩
    have last : (lengthLines [lengthHeader (ascii "3")]).getLast? = some (lengthHeader (ascii "3"),ascii "3") := by decide
    have number : digitsValue 0 (ascii "3") = 3 := by decide
    exact ⟨req,rfl,bodyExact (by decide) (by decide) each (by decide) last number (by decide) (by decide)
      (fun _ _ => rfl) _ [0] ok⟩

/- Two bytes are declared and both have come; the first is NUL. -/
theorem zeroDropped : lengthLines [lengthHeader (ascii "2")] = [(lengthHeader (ascii "2"),ascii "2")] ∧
    digitsValue 0 (ascii "2") = 2 ∧
    ∃ req, httpParseRequest (fun _ => true) (received postLine [lengthHeader (ascii "2")] [0,97] [0])
        (receivedLength postLine [lengthHeader (ascii "2")] [0,97]) = some req ∧
      req.contentLength = 2 ∧ req.body = none ∧ ¬ Extracted 2 [0,97] req := by
  have seen : (httpParseRequest (fun _ => true) (received postLine [lengthHeader (ascii "2")] [0,97] [0])
      (receivedLength postLine [lengthHeader (ascii "2")] [0,97])).map
      (fun req => (req.contentLength,req.body,req.bodyLength)) = some (2,none,0) := by
    decide +kernel
  obtain ⟨req,ok,same⟩ := Option.map_eq_some_iff.mp seen
  obtain ⟨content,rest⟩ := Prod.mk.inj same
  obtain ⟨body,length⟩ := Prod.mk.inj rest
  refine ⟨by decide,by decide,req,ok,content,body,fun extracted => ?_⟩
  have two := length.symm.trans extracted.1
  exact absurd two (by decide)

/- Of three hundred zeros and a five no digit but zeros is kept. -/
example : ¬ Kept (lengthHeader (List.replicate 300 48 ++ ascii "5")) (List.replicate 300 48 ++ ascii "5") (ascii "hello") := by
  unfold Kept
  decide +kernel

end EpollHttpServer.RequestBody
