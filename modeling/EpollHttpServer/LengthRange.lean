import EpollHttpServer.HeadEnd

/-! The number of Content-Length on its way through two int variables. http_parse_request and
is_request_complete each narrow a number of any length to int, and each then adds to it. -/
namespace EpollHttpServer.LengthRange
open CString Crlf HttpParser HeadEnd Framing

def InInt (z : Int) : Prop := -2^31 ≤ z ∧ z < 2^31

/- The sum header_len + content_length of is_request_complete, where it is reached. -/
def completeSum (buf : Bytes) : Option Int :=
  (strstr blank buf).map (fun headerEnd =>
    ((buf.length - headerEnd.length : Nat) : Int) + 4 + lengthScan buf.length headerEnd buf)

theorem completeSumWraps (buf len out) : (isRequestComplete buf len out).1 =
    (completeSum buf).any (fun sum => decide (¬ len < wrapInt sum)) := by
  unfold isRequestComplete completeSum
  cases strstr blank buf <;> rfl

/- The sum content_length + 1 of the body allocation, where it is reached. -/
def bodySum (p : Bytes) (r : HttpRequest) : Option Int :=
  if r.contentLength > 0 ∧ p.headD 0 ≠ 0 then some (r.contentLength + 1) else none

theorem bodySumWraps (malloc raw length p r) :
    (parseBody malloc raw length p r).body.isSome =
      (r.body.isSome || (bodySum p r).any (fun sum => malloc ((wrapInt sum) % 2^64).toNat)) := by
  unfold parseBody bodySum
  by_cases data : r.contentLength > 0 ∧ p.headD 0 ≠ 0
  · cases memory : malloc ((wrapInt (r.contentLength + 1)) % 2^64).toNat with
    | true => rw [if_pos ⟨data.1,data.2,rfl⟩, if_pos data, Option.any_some, memory, Bool.or_true]; rfl
    | false => rw [if_neg (fun all => Bool.noConfusion all.2.2), if_pos data, Option.any_some, memory, Bool.or_false]
  · rw [if_neg (fun all => data ⟨all.1,all.2.1⟩), if_neg data]
    simp

def allocationSum (raw : Bytes) : Option Int := (parseHead raw).bind (fun walk => bodySum walk.2.1 walk.2.2)

structure WithinLimits (ls : List Bytes) : Prop where
  count : (ls.filterMap sentField).length ≤ maxHeaders
  name : ∀ f ∈ ls.filterMap sentField, f.1.length < maxHeaderName
  value : ∀ f ∈ ls.filterMap sentField, f.2.length < maxHeaderValue

/- A head whose one Content-Length, in line, is digits. -/
structure DigitHead (raw line digits : Bytes) : Prop where
  limits : WithinLimits (headerLines raw)
  only : lengthLines (headerLines raw) = [(line,digits)]
  text : ∀ b ∈ digits, isdigit b = true

/- The request line passes. -/
def Accepted (raw : Bytes) : Prop :=
  ∃ line r, (endedLines raw).head? = some line ∧ parseRequestLine (line.take 1023) httpRequestInit = some r

/- The length that a parsed request keeps is exact, and both sums made with a length stay ints: is_request_complete
compares with that sum, and the body has so many bytes. -/
structure ExactLength (malloc : Nat → Bool) (raw : Bytes) (length : Int) : Prop where
  same : ∀ req line digits, httpParseRequest malloc raw length = some req → DigitHead raw line digits →
    req.contentLength = digitsValue 0 digits
  complete : ∀ sum, completeSum raw = some sum → InInt sum ∧
    ∀ len out, (isRequestComplete raw len out).1 = decide (¬ len < sum)
  allocation : ∀ sum, allocationSum raw = some sum → InInt sum ∧
    ∀ req, httpParseRequest malloc raw length = some req → req.body.isSome = malloc sum.toNat

/- What the bytes have to be for that. The number of a digit head is 0, or an int, in a line that the line buffer
holds; the text behind the literal of is_request_complete writes no integer that is kept as one close below 2^31;
the last length header writes none that is kept as 2^31 - 1, unless no text follows the head. -/
structure LengthFits (raw : Bytes) : Prop where
  number : Accepted raw → ∀ line digits, DigitHead raw line digits →
    digitsValue 0 digits = 0 ∨ digitsValue 0 digits < 2^31 ∧ line.length ≤ 1023
  literal : ∀ h, FirstAt blank raw h → (0 : UInt8) ∉ raw.take h →
    ∀ text, literalText (lines (raw.take h)) (raw.drop (h+4)) = some text →
      ¬ (2^31 - (h + 4) ≤ lowerHalf text ∧ lowerHalf text < 2^31)
  largest : Accepted raw → (behindHead raw).headD 0 ≠ 0 →
    ∀ value, lengthValue (headerLines raw) = some value → lowerHalf value ≠ 2^31 - 1

/- A digit text, as far as the line buffer holds it, is read as the number it writes. -/
theorem cutExact {line digits : Bytes} (text : ∀ b ∈ digits, isdigit b = true) (inside : digits.length ≤ line.length) :
    atoi (digits.take (1023 - (line.length - digits.length))) = digitsValue 0 digits ↔
      digitsValue 0 digits = 0 ∨ digitsValue 0 digits < 2^31 ∧ line.length ≤ 1023 := by
  have front : ∀ b ∈ digits.take (1023 - (line.length - digits.length)), isdigit b = true :=
    fun b hb => text b (List.mem_of_mem_take hb)
  have range := atoiRange (digits.take (1023 - (line.length - digits.length)))
  rcases Nat.lt_or_ge (1023 - (line.length - digits.length)) digits.length with short | whole
  · have cut := digitsValueCut text short
    have less := digitsValueTake text (1023 - (line.length - digits.length))
    constructor
    · intro same
      have small : digitsValue 0 (digits.take (1023 - (line.length - digits.length))) < 2^31 := by omega
      rw [atoiDigits front small] at same
      exact Or.inl (cut.mp (by omega))
    · rintro (zero | fits)
      · rw [atoiDigits front (by omega)]
        exact congrArg Nat.cast (cut.mpr zero)
      · omega
  · rw [List.take_of_length_le whole] at range ⊢
    constructor
    · intro same
      by_cases zero : digitsValue 0 digits = 0
      · exact Or.inl zero
      · have nonempty : 0 < digits.length := by
          refine List.length_pos_iff.mpr ?_
          rintro rfl
          exact zero rfl
        exact Or.inr ⟨by omega,by omega⟩
    · intro cond
      exact atoiDigits text (by omega)

/- The loop, on the lines of any buffer. -/
theorem walkAny (raw : Bytes) : (parseHead raw).map Prod.snd =
    ((endedLines raw).head?.bind (fun line => parseRequestLine (line.take 1023) httpRequestInit)).map
      (fun r => (behindHead raw,(headerLines raw).foldl addLine r)) := by
  rcases parseAny raw with ⟨absent,none⟩ | ⟨line,tail,whole,free,nul,first,each,ends,behind⟩
  · simp only [parseHead, requestText, absent, none, Option.map_none, List.head?_nil, Option.bind_none]
  · have found := strstrLine free nul (unlines (headerLines raw) ++ tail)
    have kept := lineCut line (unlines (headerLines raw) ++ tail)
    have next : (crlf ++ (unlines (headerLines raw) ++ tail)).drop 2 = unlines (headerLines raw) ++ tail := rfl
    have fuel : (headerLines raw).length < raw.length := by
      have many := linesCount (headerLines raw)
      have size := congrArg List.length whole
      simp only [List.length_append, crlf, List.length_cons, List.length_nil] at size
      omega
    rw [← whole] at found kept
    simp only [parseHead, requestText, found, Option.map_some, kept, next, first, Option.bind_some, behind]
    cases parseRequestLine (line.take 1023) httpRequestInit with
    | none => rfl
    | some r => simp only [Option.map_some, walkLoop, headerLoopLines ends r fuel each]

theorem parseWalked (malloc raw length) : httpParseRequest malloc raw length =
    ((parseHead raw).map Prod.snd).map (fun walk => parseBody malloc raw length walk.1 walk.2) := by
  rw [parseAfterHead, Option.map_map]
  rfl

theorem sumWalked (raw : Bytes) :
    allocationSum raw = ((parseHead raw).map Prod.snd).bind (fun walk => bodySum walk.1 walk.2) := by
  rw [allocationSum, Option.bind_map]
  rfl

/- A buffer that passes, by its lines: what the parse keeps, and where the body is looked for. -/
theorem acceptedParse {raw : Bytes} (accepted : Accepted raw) : ∃ r, r.body = none ∧
    r.contentLength = declared (headerLines raw) ∧ (∀ l ∈ headerLines raw, (0 : UInt8) ∉ l) ∧
    allocationSum raw = bodySum (behindHead raw) r ∧
    ∀ malloc length, httpParseRequest malloc raw length = some (parseBody malloc raw length (behindHead raw) r) := by
  obtain ⟨line,start,first,passes⟩ := accepted
  have walk := walkAny raw
  rw [first, Option.bind_some, passes, Option.map_some] at walk
  rcases parseAny raw with ⟨_,none⟩ | ⟨_,_,_,_,_,_,each,_,_⟩
  · rw [none] at first
    contradiction
  · have keeps := addLinesKeeps (requestLineKeeps passes) (fun l hl => (each l hl).nul) (fun l hl => (each l hl).free)
      (Nat.zero_le _)
    refine ⟨_,keeps.body.1,keeps.contentLength,fun l hl => (each l hl).nul,?_,fun malloc length => ?_⟩
    · rw [sumWalked, walk, Option.bind_some]
    · rw [parseWalked, walk, Option.map_some]

theorem refused {raw : Bytes} (fails : ¬ Accepted raw) : allocationSum raw = none ∧
    ∀ malloc length, httpParseRequest malloc raw length = none := by
  have walk := walkAny raw
  have nothing : (endedLines raw).head?.bind (fun line => parseRequestLine (line.take 1023) httpRequestInit) = none := by
    cases passes : (endedLines raw).head?.bind (fun line => parseRequestLine (line.take 1023) httpRequestInit) with
    | none => rfl
    | some r =>
      obtain ⟨line,first,parsed⟩ := Option.bind_eq_some_iff.mp passes
      exact absurd ⟨line,r,first,parsed⟩ fails
  rw [nothing, Option.map_none] at walk
  exact ⟨by rw [sumWalked, walk]; rfl,fun malloc length => by rw [parseWalked, walk]; rfl⟩

theorem sumRange {raw : Bytes} (size : raw.length < 2^31) : (∀ sum, completeSum raw = some sum → InInt sum) ↔
    ∀ h, FirstAt blank raw h → (0 : UInt8) ∉ raw.take h →
      ∀ text, literalText (lines (raw.take h)) (raw.drop (h+4)) = some text →
        ¬ (2^31 - (h + 4) ≤ lowerHalf text ∧ lowerHalf text < 2^31) := by
  have nonempty : blank ≠ [] := by simp [blank, crlf]
  have summed {h : Nat} (first : FirstAt blank raw h) (free : (0 : UInt8) ∉ raw.take h) :
      completeSum raw = some (h + 4 + announced (lines (raw.take h)) (raw.drop (h+4))) ∧ h + 4 ≤ raw.length := by
    have found := strstrAt nonempty first free
    obtain ⟨header,scan⟩ := headScan first free
    have long := first.here.length_le
    simp only [blank, crlf, List.length_append, List.length_cons, List.length_nil, List.length_drop] at long
    refine ⟨?_,by omega⟩
    simp only [completeSum, found, Option.map_some, header, scan]
  constructor
  · intro inside h first free text literal near
    obtain ⟨sum,fits⟩ := summed first free
    rw [announcedLiteral, literal, Option.map_some, Option.getD_some, atoiHalf, if_pos near.2] at sum
    have bound := (inside _ sum).2
    omega
  · intro away sum made
    cases found : strstr blank raw with
    | none =>
      rw [completeSum, found] at made
      contradiction
    | some t =>
      obtain ⟨h,first,-,free⟩ := strstrFirst nonempty found
      obtain ⟨same,fits⟩ := summed first free
      have range := announcedRange (lines (raw.take h)) (raw.drop (h+4))
      cases Option.some.inj (same.symm.trans made)
      rw [announcedLiteral] at range ⊢
      cases literal : literalText (lines (raw.take h)) (raw.drop (h+4)) with
      | none =>
        rw [Option.map_none, Option.getD_none]
        exact ⟨by omega,by omega⟩
      | some text =>
        have far := away h first free text literal
        have half := halfRange text
        rw [literal, Option.map_some, Option.getD_some] at range
        rw [Option.map_some, Option.getD_some]
        rw [atoiHalf] at range ⊢
        unfold InInt
        split <;> omega

/- A sum that stays an int is the one that is compared with, and the one that is allocated. -/
theorem sumCompared {raw : Bytes} {sum : Int} (inside : ∀ sum, completeSum raw = some sum → InInt sum)
    (made : completeSum raw = some sum) (len out : Int) : (isRequestComplete raw len out).1 = decide (¬ len < sum) := by
  have range := inside sum made
  rw [completeSumWraps, made, Option.any_some, wrapIntRange range.1 range.2]

theorem bodySize {p : Bytes} {r : HttpRequest} {sum : Int} (inside : InInt sum) (made : bodySum p r = some sum) :
    ((wrapInt sum) % 2^64).toNat = sum.toNat := by
  have positive : 0 < sum := by
    unfold bodySum at made
    split at made <;> try contradiction
    cases Option.some.inj made
    omega
  rw [wrapIntRange inside.1 inside.2, Int.emod_eq_of_lt (by omega) (by have := inside.2; omega)]

/- The other sum, on a buffer that passes. -/
theorem allocationRange {raw : Bytes} (accepted : Accepted raw) : (∀ sum, allocationSum raw = some sum → InInt sum) ↔
    ((behindHead raw).headD 0 ≠ 0 → ∀ value, lengthValue (headerLines raw) = some value → lowerHalf value ≠ 2^31 - 1) := by
  obtain ⟨r,_,content,_,sum,_⟩ := acceptedParse accepted
  rw [declaredValue] at content
  rw [sum, bodySum]
  constructor
  · intro inside data value said most
    rw [said, Option.map_some, Option.getD_some, atoiHalf, if_pos (by omega)] at content
    rw [if_pos ⟨by omega,data⟩] at inside
    have bound := (inside _ rfl).2
    omega
  · intro away sum made
    split at made <;> try contradiction
    rename_i data
    cases Option.some.inj made
    cases said : lengthValue (headerLines raw) with
    | none =>
      rw [said, Option.map_none, Option.getD_none] at content
      omega
    | some value =>
      have other := away data.2 value said
      have range := atoiRange value
      have half := halfRange value
      rw [said, Option.map_some, Option.getD_some] at content
      have low : r.contentLength ≠ 2^31 - 1 := by
        rw [content, atoiHalf]
        split <;> omega
      exact ⟨by omega,by omega⟩

/- The number of a digit head. -/
theorem digitsKept {raw line digits : Bytes} (nul : ∀ l ∈ headerLines raw, (0 : UInt8) ∉ l)
    (head : DigitHead raw line digits) : declared (headerLines raw) = digitsValue 0 digits ↔
      digitsValue 0 digits = 0 ∨ digitsValue 0 digits < 2^31 ∧ line.length ≤ 1023 := by
  obtain ⟨limits,only,text⟩ := head
  obtain ⟨n,here,sent⟩ := lengthMember (by rw [only]; exact List.mem_cons_self)
  have short : digits.length < 256 := limits.value _ (List.mem_filterMap.mpr ⟨line,here,sent⟩)
  have whole : digits.take 255 = digits := List.take_of_length_le (by omega)
  have value : declared (headerLines raw) = atoi (digits.take (1023 - (line.length - digits.length))) := by
    have kept : digits.take (valueRoom line digits) = digits.take (1023 - (line.length - digits.length)) := by
      rw [valueRoom, Nat.min_comm, ← List.take_take, whole]
    rw [declaredSent nul limits.count, only, ← kept]
    rfl
  rw [value]
  exact cutExact text (valueShort sent)

/- For every buffer: Content-Length is read exactly and added to within the range of int when its bytes are as
LengthFits has them, and not otherwise. -/
theorem lengthExactWhen {malloc : Nat → Bool} {raw : Bytes} {length : Int} (size : raw.length < 2^31) :
    ExactLength malloc raw length ↔ LengthFits raw := by
  have complete := sumRange size
  by_cases accepted : Accepted raw
  · have alloc := allocationRange accepted
    obtain ⟨r,bare,content,nul,sum,parsed⟩ := acceptedParse accepted
    constructor
    · intro all
      refine ⟨fun _ line digits head => ?_,complete.mp (fun sum made => (all.complete sum made).1),
        fun _ => alloc.mp (fun sum made => (all.allocation sum made).1)⟩
      have same := all.same _ line digits (parsed malloc length) head
      rw [bodyContentLength, content] at same
      exact (digitsKept nul head).mp same
    · intro fits
      refine ⟨?_,?_,?_⟩
      · intro req line digits got head
        cases Option.some.inj ((parsed malloc length).symm.trans got)
        rw [bodyContentLength, content]
        exact (digitsKept nul head).mpr (fits.number accepted line digits head)
      · exact fun sum made => ⟨complete.mpr fits.literal sum made,sumCompared (complete.mpr fits.literal) made⟩
      · intro total made
        have inside := alloc.mpr (fits.largest accepted) total made
        refine ⟨inside,fun req got => ?_⟩
        cases Option.some.inj ((parsed malloc length).symm.trans got)
        rw [bodySumWraps, bare, ← sum, made, Option.any_some, bodySize inside (sum.symm.trans made)]
        rfl
  · obtain ⟨alloc,none⟩ := refused accepted
    constructor
    · exact fun all => ⟨fun passes => absurd passes accepted,complete.mp (fun sum made => (all.complete sum made).1),
        fun passes => absurd passes accepted⟩
    · intro fits
      refine ⟨fun req line digits got => ?_,fun sum made =>
        ⟨complete.mpr fits.literal sum made,sumCompared (complete.mpr fits.literal) made⟩,fun sum made => ?_⟩
      · rw [none] at got
        contradiction
      · rw [alloc] at made
        contradiction

def lengthLineOf (digits : Bytes) : Bytes := ascii "Content-Length: " ++ digits
def postOf (value body : Bytes) : Bytes := ascii "POST / HTTP/1.1\r\n" ++ lengthLineOf value ++ blank ++ body ++ [0]

theorem fiveExact : ExactLength (fun _ => true) (postOf (ascii "5") []) 38 ↔ LengthFits (postOf (ascii "5") []) :=
  lengthExactWhen (by decide)

/- The number 2^32 is kept as 0: its body is taken for the next request. -/
theorem lengthNarrowed : DigitHead (postOf (ascii "4294967296") []) (lengthLineOf (ascii "4294967296")) (ascii "4294967296") ∧
    ∃ req, httpParseRequest (fun _ => true) (postOf (ascii "4294967296") []) 47 = some req ∧ req.contentLength = 0 ∧
      ¬ ExactLength (fun _ => true) (postOf (ascii "4294967296") []) 47 := by
  have seen : (httpParseRequest (fun _ => true) (postOf (ascii "4294967296") []) 47).map (·.contentLength) = some 0 := by
    decide +kernel
  have digits : DigitHead (postOf (ascii "4294967296") []) (lengthLineOf (ascii "4294967296")) (ascii "4294967296") :=
    ⟨⟨by decide +kernel,by decide +kernel,by decide +kernel⟩,by decide +kernel,by decide +kernel⟩
  obtain ⟨req,ok,zero⟩ := Option.map_eq_some_iff.mp seen
  refine ⟨digits,req,ok,zero,fun all => ?_⟩
  have same := zero.symm.trans (all.same req _ _ ok digits)
  exact absurd same (by decide)

/- A sign in front: the sum for the body leaves int. -/
example : allocationSum (postOf (ascii "+2147483647") (ascii "x")) = some 2147483648 := by decide +kernel

end EpollHttpServer.LengthRange
