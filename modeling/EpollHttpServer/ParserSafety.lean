import EpollHttpServer.HeadEnd
import EpollHttpServer.Lib.Checked

/-! http_parser.c with every access checked: the functions of HttpParser once more, as the source makes each
read, write and copy. request_line and header_line are arrays with any contents before they are written, and
so is the block that malloc gives. None is a fault; -1 is the answer false, with the request as it was left. -/
namespace EpollHttpServer.ParserSafety
open CString Crlf HttpParser HeadEnd

def skipSpaces : Bytes → Option Bytes
  | [] => none
  | b::bs => if b ≠ 0 ∧ isspace b then skipSpaces bs else some (b::bs)

def copyUntil (dest : Bytes) (destSize : Nat) (src delimiter : Bytes) : Option (Bytes × Option Bytes) := do
  match ← Checked.strstr delimiter src with
  | none =>
    let dest ← Checked.strncpy dest src (destSize - 1)
    let dest ← Checked.store dest (destSize - 1) 0
    some (dest,none)
  | some end_ =>
    let len := min (src.length - end_.length) (destSize - 1)
    let dest ← Checked.strncpy dest src len
    let dest ← Checked.store dest len 0
    some (dest,some end_)

def copyVersion (dest p : Bytes) : Option Bytes := do
  let (version,_) ← copyUntil dest maxVersionLength p crlf
  if (← Checked.load version) = 0 then
    let again ← Checked.strncpy version p (maxVersionLength - 1)
    match ← Checked.strstr [13] again with
    | some cr => Checked.store again (again.length - cr.length) 0
    | none => some again
  else some version

def parseRequestLine (line : Bytes) (r : HttpRequest) : Option (Bool × HttpRequest) := do
  match ← copyUntil r.method maxMethodLength (← skipSpaces line) [32] with
  | (method,none) => some (false,{r with method := method})
  | (method,some end_) =>
    match ← copyUntil r.uri maxUriLength (← skipSpaces (← Checked.advance end_ 1)) [32] with
    | (uri,none) => some (false,{r with method := method, uri := uri})
    | (uri,some end_) =>
      let version ← copyVersion r.version (← skipSpaces (← Checked.advance end_ 1))
      some (true,{r with method := method, uri := uri, version := version})

def valueLength (value : Bytes) : Option Nat := do
  match ← Checked.strstr crlf value with
  | some end_ => some (value.length - end_.length)
  | none => Checked.strlen value

def parseHeaderLine (line : Bytes) (header : HttpHeader) : Option (Option HttpHeader) := do
  match ← Checked.strchr 58 line with
  | none => some none
  | some colon =>
    let nameLen := min (line.length - colon.length) (maxHeaderName - 1)
    let name ← Checked.strncpy header.name line nameLen
    let name ← Checked.store name nameLen 0
    let value ← skipSpaces (← Checked.advance colon 1)
    let valueLen := min (← valueLength value) (maxHeaderValue - 1)
    let text ← Checked.strncpy header.value value valueLen
    let text ← Checked.store text valueLen 0
    some (some ⟨name,text⟩)

def cacheHeader (r : HttpRequest) (header : HttpHeader) : Option HttpRequest := do
  if ← Checked.strcasecmp header.name (ascii "Host") then
    let host ← Checked.strncpy r.host header.value (maxHeaderValue - 1)
    some {r with host := host}
  else if ← Checked.strcasecmp header.name (ascii "Connection") then
    if ← Checked.strcasecmp header.value (ascii "keep-alive") then some {r with keepAlive := true}
    else if ← Checked.strcasecmp header.value (ascii "close") then some {r with keepAlive := false}
    else some r
  else if ← Checked.strcasecmp header.name (ascii "Content-Length") then
    let content ← Checked.atoi header.value
    some {r with contentLength := content}
  else some r

def addHeader (r : HttpRequest) (line : Bytes) : Option HttpRequest := do
  if r.headerCount < maxHeaders then
    let slot ← r.headers[r.headerCount]?
    match ← parseHeaderLine line slot with
    | some header =>
      let r ← cacheHeader {r with headers := r.headers.set r.headerCount header} header
      some {r with headerCount := r.headerCount + 1}
    | none => some r
  else some r

/- The bytes before the CRLF at lineEnd, in a line buffer. -/
def cutLine (buffer p lineEnd : Bytes) : Option Bytes := do
  let lineLen := min (p.length - lineEnd.length) (buffer.length - 1)
  let line ← Checked.strncpy buffer p lineLen
  Checked.store line lineLen 0

/- The buffer of each turn is header_line as it comes from the stack. A loop that outruns its fuel counts as a fault. -/
def headerLoop (buffer : Nat → Bytes) : Nat → Bytes → HttpRequest → Option (Bytes × HttpRequest)
  | 0,_,_ => none
  | fuel+1,p,r => do
    if (← Checked.load p) = 0 then some (p,r)
    else if ← Checked.strncmp p crlf then some (← Checked.advance p 2,r)
    else match ← Checked.strstr crlf p with
      | none => some (p,r)
      | some lineEnd =>
        let line ← cutLine (buffer fuel) p lineEnd
        let r ← addHeader r line
        headerLoop buffer fuel (← Checked.advance lineEnd 2) r

/- malloc answers whether there is a block; block gives its bytes. Of the body the request keeps the bytes that
have been written. -/
def parseBody (malloc : Nat → Bool) (block : Nat → Bytes) (raw : Bytes) (length : Int) (p : Bytes) (r : HttpRequest) :
    Option HttpRequest := do
  if r.contentLength > 0 then
    if (← Checked.load p) ≠ 0 then
      let size := ((← Checked.addInt r.contentLength 1) % 2^64).toNat
      if malloc size then
        let left := length - ((raw.length - p.length : Nat) : Int)
        let bodyLen := min left r.contentLength
        let count ← Checked.toSize bodyLen
        let body ← Checked.memcpy (block size) 0 p count
        let body ← Checked.store body count 0
        some {r with body := some (body.take (count + 1)), bodyLength := bodyLen}
      else some r
    else some r
  else some r

/- The strings that http_request_print reads. -/
def printHeaders (r : HttpRequest) : Nat → Option Unit
  | 0 => some ()
  | i+1 => do
    printHeaders r i
    let header ← r.headers[i]?
    let _ ← Checked.strlen header.name
    let _ ← Checked.strlen header.value
    some ()

def httpRequestPrint (r : HttpRequest) : Option Unit := do
  let _ ← Checked.strlen r.method
  let _ ← Checked.strlen r.uri
  let _ ← Checked.strlen r.version
  let _ ← Checked.strlen r.host
  printHeaders r r.headerCount

def httpParseRequest (malloc : Nat → Bool) (block : Nat → Bytes) (requestBuffer : Bytes) (buffer : Nat → Bytes)
    (raw : Bytes) (length : Int) : Option (Bool × HttpRequest) := do
  match ← Checked.strstr crlf raw with
  | none => some (false,httpRequestInit)
  | some lineEnd =>
    let line ← cutLine requestBuffer raw lineEnd
    let (parsed,r) ← parseRequestLine line httpRequestInit
    if parsed then
      let (p,r) ← headerLoop buffer raw.length (← Checked.advance lineEnd 2) r
      let r ← parseBody malloc block raw length p r
      httpRequestPrint r
      some (true,r)
    else some (false,r)

theorem skipSpacesText {s : Bytes} (free : (0 : UInt8) ∉ s) (t : Bytes) :
    skipSpaces (s ++ 0::t) = some (HttpParser.skipSpaces s ++ 0::t) := by
  induction s with
  | nil => rfl
  | cons b s ih =>
    simp only [List.mem_cons, not_or] at free
    simp only [List.cons_append, skipSpaces, HttpParser.skipSpaces, List.dropWhile_cons, ne_eq, Ne.symm free.1,
      not_false_eq_true, true_and]
    split
    · exact ih free.2
    · rfl

theorem skipFree {s : Bytes} (free : (0 : UInt8) ∉ s) : (0 : UInt8) ∉ HttpParser.skipSpaces s :=
  fun h => free ((List.dropWhile_suffix _).subset h)

theorem endedText (s t : Bytes) : (0 : UInt8) ∈ s ++ 0::t := by simp

/- A text copied out of an array: no fault, and the same copy as of the text alone. -/
theorem copyUntilText {dest s delimiter : Bytes} {size : Nat} (free : (0 : UInt8) ∉ s) (absent : (0 : UInt8) ∉ delimiter)
    (nonempty : delimiter ≠ []) (room : dest.length = size) (positive : 0 < size) (t : Bytes) :
    copyUntil dest size (s ++ 0::t) delimiter = some ((HttpParser.copyUntil dest size s delimiter).1,
      (HttpParser.copyUntil dest size s delimiter).2.map (· ++ 0::t)) := by
  have ended := endedText s t
  simp only [copyUntil, HttpParser.copyUntil, Checked.strstr, Checked.readingOk ended,
    Checked.strstrText free absent nonempty, bind, Option.bind]
  cases found : strstr delimiter s with
  | none =>
    have fits : size - 1 ≤ dest.length := by omega
    have inside : size - 1 < (strncpy dest s (size - 1)).length := by
      rw [Checked.strncpyLength fits]
      omega
    simp only [Option.map_none, Checked.strncpyOk fits ended, Checked.strncpyText free, Checked.storeOk inside]
  | some end_ =>
    have len : (s ++ 0::t).length - (end_ ++ 0::t).length = s.length - end_.length := by
      simp only [List.length_append]
      omega
    have fits : min (s.length - end_.length) (size - 1) ≤ dest.length := by omega
    have inside : min (s.length - end_.length) (size - 1) <
        (strncpy dest s (min (s.length - end_.length) (size - 1))).length := by
      rw [Checked.strncpyLength fits]
      omega
    simp only [Option.map_some, len, Checked.strncpyOk fits ended, Checked.strncpyText free, Checked.storeOk inside]

/- The array keeps its size and holds a terminated string. -/
theorem copyUntilArray {dest src delimiter : Bytes} {size : Nat} (room : dest.length = size) (positive : 0 < size) :
    (HttpParser.copyUntil dest size src delimiter).1.length = size ∧
      (0 : UInt8) ∈ (HttpParser.copyUntil dest size src delimiter).1 := by
  have written (n : Nat) (fits : n < size) : ((strncpy dest src n).set n 0).length = size ∧
      (0 : UInt8) ∈ (strncpy dest src n).set n 0 := by
    have length := Checked.strncpyLength (show n ≤ dest.length by omega) src
    exact ⟨by rw [List.length_set, length, room],Checked.storeEnds (by rw [length]; omega)⟩
  unfold HttpParser.copyUntil
  split
  · exact written _ (by omega)
  · exact written _ (by omega)

theorem copyUntilFound {dest src delimiter end_ : Bytes} {size : Nat} (free : (0 : UInt8) ∉ src) (nonempty : delimiter ≠ [])
    (found : (HttpParser.copyUntil dest size src delimiter).2 = some end_) :
    1 ≤ end_.length ∧ (0 : UInt8) ∉ end_ := by
  have at_ : strstr delimiter src = some end_ := by
    unfold HttpParser.copyUntil at found
    split at found
    · contradiction
    · rename_i here
      rw [here]
      exact found
  obtain ⟨h,first,rfl,-⟩ := strstrFirst nonempty at_
  refine ⟨?_,fun inside => free (List.mem_of_mem_drop inside)⟩
  have long := first.here.length_le
  have least := List.length_pos_iff.mpr nonempty
  omega

theorem nextText {end_ : Bytes} (long : 1 ≤ end_.length) (t : Bytes) :
    Checked.advance (end_ ++ 0::t) 1 = some (end_.drop 1 ++ 0::t) := by
  rw [Checked.advanceOk (by rw [List.length_append]; omega), List.drop_append_of_le_length long]

/- A NUL in the last byte of the array stays. -/
theorem copyUntilLast {dest src delimiter : Bytes} {size : Nat} (last : dest.drop (size - 1) = [0]) (positive : 0 < size) :
    (HttpParser.copyUntil dest size src delimiter).1.drop (size - 1) = [0] := by
  have kept (n : Nat) (fits : n ≤ size - 1) : ((strncpy dest src n).set n 0).drop (size - 1) = [0] := by
    have behind : (strncpy dest src n).drop (size - 1) = [0] := by
      rw [show size - 1 = n + (size - 1 - n) by omega, ← List.drop_drop, strncpyDrop, List.drop_drop,
        show n + (size - 1 - n) = size - 1 by omega]
      exact last
    rw [List.drop_set, behind]
    split
    · rfl
    · rw [show n - (size - 1) = 0 by omega]
      rfl
  unfold HttpParser.copyUntil
  split
  · exact kept _ (by omega)
  · exact kept _ (by omega)

theorem copyVersionText {dest s : Bytes} (room : dest.length = maxVersionLength)
    (last : dest.drop (maxVersionLength - 1) = [0]) (free : (0 : UInt8) ∉ s) (t : Bytes) :
    copyVersion dest (s ++ 0::t) = some (HttpParser.copyVersion dest s) ∧
      (HttpParser.copyVersion dest s).length = maxVersionLength ∧ (0 : UInt8) ∈ HttpParser.copyVersion dest s := by
  have ended := endedText s t
  have copied := @copyUntilText dest s crlf maxVersionLength free (by decide) (by simp [crlf]) room (by decide) t
  obtain ⟨size,version⟩ := @copyUntilArray dest s crlf maxVersionLength room (by decide)
  have lastVersion := @copyUntilLast dest s crlf maxVersionLength last (by decide)
  unfold copyVersion HttpParser.copyVersion
  simp only [copied, bind, Option.bind, Checked.loadOk version]
  split
  · have fits : maxVersionLength - 1 ≤ (HttpParser.copyUntil dest maxVersionLength s crlf).1.length := by
      rw [size]
      decide
    have sizeAgain := Checked.strncpyLength fits s
    have endedAgain : (0 : UInt8) ∈ strncpy (HttpParser.copyUntil dest maxVersionLength s crlf).1 s (maxVersionLength - 1) := by
      refine List.mem_of_mem_drop (i := maxVersionLength - 1) ?_
      rw [strncpyDrop, lastVersion]
      exact List.mem_singleton_self 0
    simp only [Checked.strncpyOk fits ended, Checked.strncpyText free, Checked.strstr, Checked.readingOk endedAgain]
    cases found : strstr [13] (strncpy (HttpParser.copyUntil dest maxVersionLength s crlf).1 s (maxVersionLength - 1)) with
    | none => exact ⟨rfl,by rw [sizeAgain, size],endedAgain⟩
    | some cr =>
      obtain ⟨start,-,short,-⟩ := Checked.foundEnded (by simp) found endedAgain
      have nonempty := start.length_le
      simp only [List.length_cons, List.length_nil] at nonempty
      have inside : (strncpy (HttpParser.copyUntil dest maxVersionLength s crlf).1 s (maxVersionLength - 1)).length - cr.length <
          (strncpy (HttpParser.copyUntil dest maxVersionLength s crlf).1 s (maxVersionLength - 1)).length := by
        omega
      exact ⟨Checked.storeOk inside 0,by rw [List.length_set, sizeAgain, size],Checked.storeEnds inside⟩
  · exact ⟨rfl,size,version⟩

/- An array of the given size that holds a terminated string. -/
def Text (a : Bytes) (size : Nat) : Prop := a.length = size ∧ 0 ∈ a

/- Every string of the request is terminated in its array, and there are no more headers than places. -/
structure Sound (r : HttpRequest) : Prop where
  method : Text r.method maxMethodLength
  uri : Text r.uri maxUriLength
  version : Text r.version maxVersionLength
  host : r.host.length = maxHeaderValue ∧ r.host.drop (maxHeaderValue - 1) = [0]
  places : r.headers.length = maxHeaders
  headers : ∀ h ∈ r.headers, Text h.name maxHeaderName ∧ Text h.value maxHeaderValue
  count : r.headerCount ≤ maxHeaders

theorem zerosText {n : Nat} (positive : 0 < n) : Text (zeros n) n :=
  ⟨List.length_replicate,List.mem_replicate.mpr ⟨by omega,rfl⟩⟩

theorem initSound : Sound httpRequestInit := by
  refine ⟨zerosText (by decide),zerosText (by decide),zerosText (by decide),⟨List.length_replicate,?_⟩,
    List.length_replicate,?_,by decide⟩
  · exact List.drop_replicate
  · intro h hh
    rw [(List.mem_replicate.mp hh).2]
    exact ⟨zerosText (by decide),zerosText (by decide)⟩

/- The request line: no fault, the answer of the model, and a sound request also where the line is refused. -/
theorem parseRequestLineText {s : Bytes} (free : (0 : UInt8) ∉ s) (t : Bytes) :
    ∃ parsed r, parseRequestLine (s ++ 0::t) httpRequestInit = some (parsed,r) ∧
      HttpParser.parseRequestLine s httpRequestInit = (if parsed then some r else none) ∧ Sound r ∧ r.body = none := by
  have freeMethod := skipFree free
  have method := @copyUntilText httpRequestInit.method (HttpParser.skipSpaces s) [32] maxMethodLength freeMethod
    (by decide) (by simp) initSound.method.1 (by decide) t
  have methodArray := @copyUntilArray httpRequestInit.method (HttpParser.skipSpaces s) [32] maxMethodLength
    initSound.method.1 (by decide)
  unfold parseRequestLine HttpParser.parseRequestLine
  simp only [skipSpacesText free, method, bind, Option.bind]
  cases first : HttpParser.copyUntil httpRequestInit.method maxMethodLength (HttpParser.skipSpaces s) [32] with
  | mk methodText rest =>
  rw [first] at methodArray
  have found : (HttpParser.copyUntil httpRequestInit.method maxMethodLength (HttpParser.skipSpaces s) [32]).2 = rest := by
    rw [first]
  cases rest with
  | none => exact ⟨false,_,rfl,rfl,{initSound with method := methodArray},rfl⟩
  | some end_ =>
    obtain ⟨long,freeEnd⟩ := copyUntilFound freeMethod (by simp) found
    have freeDrop : (0 : UInt8) ∉ end_.drop 1 := fun h => freeEnd (List.mem_of_mem_drop h)
    have freeUri := skipFree freeDrop
    have uri := @copyUntilText httpRequestInit.uri (HttpParser.skipSpaces (end_.drop 1)) [32] maxUriLength freeUri
      (by decide) (by simp) initSound.uri.1 (by decide) t
    have uriArray := @copyUntilArray httpRequestInit.uri (HttpParser.skipSpaces (end_.drop 1)) [32] maxUriLength
      initSound.uri.1 (by decide)
    simp only [Option.map_some, nextText long, skipSpacesText freeDrop, uri]
    cases second : HttpParser.copyUntil httpRequestInit.uri maxUriLength (HttpParser.skipSpaces (end_.drop 1)) [32] with
    | mk uriText rest =>
    rw [second] at uriArray
    have found : (HttpParser.copyUntil httpRequestInit.uri maxUriLength (HttpParser.skipSpaces (end_.drop 1)) [32]).2 =
        rest := by
      rw [second]
    cases rest with
    | none => exact ⟨false,_,rfl,rfl,{initSound with method := methodArray, uri := uriArray},rfl⟩
    | some end_ =>
      obtain ⟨long,freeEnd⟩ := copyUntilFound freeUri (by simp) found
      have freeDrop : (0 : UInt8) ∉ end_.drop 1 := fun h => freeEnd (List.mem_of_mem_drop h)
      have last : httpRequestInit.version.drop (maxVersionLength - 1) = [0] := by decide
      obtain ⟨version,size,ended⟩ := copyVersionText initSound.version.1 last (skipFree freeDrop) t
      simp only [Option.map_some, nextText long, skipSpacesText freeDrop, version]
      exact ⟨true,_,rfl,rfl,{initSound with method := methodArray, uri := uriArray, version := ⟨size,ended⟩},
        rfl⟩

theorem valueLengthText {s : Bytes} (free : (0 : UInt8) ∉ s) (t : Bytes) : valueLength (s ++ 0::t) =
    some (match strstr crlf s with
      | some end_ => s.length - end_.length
      | none => (cstr s).length) := by
  have ended := endedText s t
  simp only [valueLength, Checked.strstr, Checked.readingOk ended, Checked.strstrText free (show (0 : UInt8) ∉ crlf by decide)
    (by simp [crlf]), bind, Option.bind]
  cases strstr crlf s with
  | none => simp only [Option.map_none, Checked.strlen, Checked.readingOk ended, cstrAppendNul free, cstrOfFree free]
  | some end_ =>
    simp only [Option.map_some, List.length_append, Nat.add_sub_add_right]

/- A bounded copy with its terminator, in an array with room for both. -/
theorem copiedText {dest s : Bytes} {size n : Nat} (room : Text dest size) (fits : n < size) (free : (0 : UInt8) ∉ s)
    (t : Bytes) : Checked.strncpy dest (s ++ 0::t) n = some (strncpy dest s n) ∧
      Checked.store (strncpy dest s n) n 0 = some ((strncpy dest s n).set n 0) ∧
      Text ((strncpy dest s n).set n 0) size := by
  have least : n ≤ dest.length := by
    rw [room.1]
    omega
  have length := Checked.strncpyLength least s
  have inside : n < (strncpy dest s n).length := by
    rw [length, room.1]
    exact fits
  refine ⟨?_,Checked.storeOk inside 0,by rw [List.length_set, length, room.1],Checked.storeEnds inside⟩
  rw [Checked.strncpyOk least (endedText s t), Checked.strncpyText free]

/- A header line: the same header, in arrays that hold terminated strings. -/
theorem parseHeaderLineText {s : Bytes} {header : HttpHeader} (free : (0 : UInt8) ∉ s) (name : Text header.name maxHeaderName)
    (value : Text header.value maxHeaderValue) (t : Bytes) :
    parseHeaderLine (s ++ 0::t) header = some (HttpParser.parseHeaderLine s header) ∧
      ∀ out, HttpParser.parseHeaderLine s header = some out → Text out.name maxHeaderName ∧ Text out.value maxHeaderValue := by
  have ended := endedText s t
  unfold parseHeaderLine HttpParser.parseHeaderLine
  simp only [Checked.strchr, Checked.readingOk ended, Checked.strchrText free (show (58 : UInt8) ≠ 0 by decide), bind, Option.bind]
  cases found : strchr 58 s with
  | none => exact ⟨rfl,fun _ no => by contradiction⟩
  | some colon =>
    obtain ⟨rest,shape,inside⟩ := strchrFound found
    have long : 1 ≤ colon.length := by
      rw [shape]
      exact Nat.le_add_left 1 _
    have freeDrop : (0 : UInt8) ∉ colon.drop 1 := fun h => free (inside.subset (List.mem_of_mem_drop h))
    have freeValue := skipFree freeDrop
    have len : (s ++ 0::t).length - (colon ++ 0::t).length = s.length - colon.length := by
      simp only [List.length_append, Nat.add_sub_add_right]
    have nameCopy := @copiedText header.name s maxHeaderName (min (s.length - colon.length) (maxHeaderName - 1)) name
      (by unfold maxHeaderName; omega) free t
    simp only [Option.map_some, len, nameCopy.1, nameCopy.2.1, nextText long, skipSpacesText freeDrop,
      valueLengthText freeValue]
    have valueCopy (k : Nat) := @copiedText header.value (HttpParser.skipSpaces (colon.drop 1)) maxHeaderValue
      (min k (maxHeaderValue - 1)) value (by unfold maxHeaderValue; omega) freeValue t
    simp only [(valueCopy _).1, (valueCopy _).2.1]
    refine ⟨by trivial,fun out made => ?_⟩
    cases Option.some.inj made
    exact ⟨nameCopy.2.2,(valueCopy _).2.2⟩

/- The fields that are cached: the same, and host keeps its last NUL. -/
theorem cacheHeaderSound {r : HttpRequest} {header : HttpHeader} (sound : Sound r) (name : Text header.name maxHeaderName)
    (value : Text header.value maxHeaderValue) :
    cacheHeader r header = some (HttpParser.cacheHeader r header) ∧ Sound (HttpParser.cacheHeader r header) := by
  have fits : maxHeaderValue - 1 ≤ r.host.length := by
    rw [sound.host.1]
    decide
  unfold cacheHeader HttpParser.cacheHeader
  simp only [Checked.strcasecmp, Checked.readingOk name.2, Checked.readingOk value.2, Checked.strncpyOk fits value.2,
    Checked.atoi, bind, Option.bind]
  split
  · refine ⟨rfl,{sound with host := ⟨?_,?_⟩}⟩
    · rw [Checked.strncpyLength fits, sound.host.1]
    · rw [strncpyDrop]
      exact sound.host.2
  · split
    · split
      · exact ⟨rfl,{sound with}⟩
      · split
        · exact ⟨rfl,{sound with}⟩
        · exact ⟨rfl,sound⟩
    · split
      · exact ⟨rfl,{sound with}⟩
      · exact ⟨rfl,sound⟩

theorem addHeaderSound {r : HttpRequest} {s : Bytes} (sound : Sound r) (free : (0 : UInt8) ∉ s) (t : Bytes) :
    addHeader r (s ++ 0::t) = some (HttpParser.addHeader r s) ∧ Sound (HttpParser.addHeader r s) := by
  unfold addHeader HttpParser.addHeader
  split
  · rename_i room
    have place : r.headerCount < r.headers.length := by rw [sound.places]; exact room
    obtain ⟨name,value⟩ := sound.headers _ (List.getElem_mem place)
    obtain ⟨parsed,arrays⟩ := parseHeaderLineText free name value t
    have slot : r.headers.getD r.headerCount ⟨zeros maxHeaderName,zeros maxHeaderValue⟩ = r.headers[r.headerCount] := by
      rw [List.getD_eq_getElem?_getD, List.getElem?_eq_getElem place, Option.getD_some]
    rw [slot]
    simp only [List.getElem?_eq_getElem place, parsed, bind, Option.bind]
    cases made : HttpParser.parseHeaderLine s r.headers[r.headerCount] with
    | none => exact ⟨rfl,sound⟩
    | some header =>
      obtain ⟨name,value⟩ := arrays header made
      have stored : Sound {r with headers := r.headers.set r.headerCount header} := by
        refine {sound with places := by rw [List.length_set]; exact sound.places, headers := ?_}
        intro h hh
        rcases List.mem_or_eq_of_mem_set hh with old | rfl
        · exact sound.headers h old
        · exact ⟨name,value⟩
      obtain ⟨cached,kept⟩ := cacheHeaderSound stored name value
      simp only [cached, HttpParser.storeHeader]
      refine ⟨trivial,{kept with count := ?_}⟩
      simp only [cacheForm]
      exact room
  · exact ⟨rfl,sound⟩

/- The line before a CRLF that is found: its first 1023 bytes, and a NUL behind them. -/
theorem cutLineText {buffer p lineEnd : Bytes} (room : buffer.length = 1024) (ended : 0 ∈ p)
    (found : strstr crlf p = some lineEnd) : ∃ junk, cutLine buffer p lineEnd =
      some (p.take (min (p.length - lineEnd.length) 1023) ++ 0::junk) ∧
      (0 : UInt8) ∉ p.take (min (p.length - lineEnd.length) 1023) := by
  obtain ⟨-,-,-,free⟩ := Checked.foundEnded (by simp [crlf]) found ended
  have freeCut : (0 : UInt8) ∉ p.take (min (p.length - lineEnd.length) 1023) :=
    fun h => free (List.take_subset_take_left p (Nat.min_le_left _ _) h)
  have fits : min (p.length - lineEnd.length) 1023 ≤ buffer.length := by omega
  have inside : min (p.length - lineEnd.length) 1023 <
      (strncpy buffer p (min (p.length - lineEnd.length) 1023)).length := by
    rw [Checked.strncpyLength fits]
    omega
  refine ⟨buffer.drop (min (p.length - lineEnd.length) 1023 + 1),?_,freeCut⟩
  simp only [cutLine, room, bind, Option.bind, show 1024 - 1 = 1023 from rfl, Checked.strncpyOk fits ended]
  rw [Checked.storeOk inside, Checked.copiedFront (by omega) (by omega) freeCut]

/- The loop: every turn is as in the model, and the pointer stays in the string it walks. -/
theorem headerLoopSound {buffer : Nat → Bytes} {fuel : Nat} {p : Bytes} {r : HttpRequest}
    (room : ∀ n, (buffer n).length = 1024) (ended : 0 ∈ p) (enough : p.length < fuel) (sound : Sound r) :
    headerLoop buffer fuel p r = some (HttpParser.headerLoop fuel p r) ∧ Sound (HttpParser.headerLoop fuel p r).2 ∧
      0 ∈ (HttpParser.headerLoop fuel p r).1 ∧ (HttpParser.headerLoop fuel p r).1 <:+ p := by
  induction fuel generalizing p r with
  | zero => omega
  | succ fuel ih =>
    unfold headerLoop HttpParser.headerLoop
    simp only [Checked.loadOk ended, Checked.strncmpOk ended, Checked.strstr, Checked.readingOk ended, bind, Option.bind,
      decide_eq_true_eq]
    split
    · exact ⟨rfl,sound,ended,List.suffix_refl p⟩
    · split
      · rename_i start
        obtain ⟨long,behind⟩ := Checked.pastNeedle (by decide) start ended
        have next : Checked.advance p 2 = some (p.drop 2) := Checked.advanceOk long
        rw [next]
        exact ⟨rfl,sound,behind,List.drop_suffix 2 p⟩
      · cases found : strstr crlf p with
        | none => exact ⟨rfl,sound,ended,List.suffix_refl p⟩
        | some lineEnd =>
          obtain ⟨start,endedLine,short,-⟩ := Checked.foundEnded (by simp [crlf]) found ended
          obtain ⟨long,behind⟩ := Checked.pastNeedle (by decide) start endedLine
          obtain ⟨junk,cut,free⟩ := cutLineText (room fuel) ended found
          obtain ⟨added,kept⟩ := addHeaderSound sound free junk
          have next : Checked.advance lineEnd 2 = some (lineEnd.drop 2) := Checked.advanceOk long
          have size : 2 ≤ lineEnd.length := long
          have later := ih behind (by simp only [crlf, List.length_drop, List.length_cons, List.length_nil]; omega) kept
          simp only [cut, added, next]
          have inside : lineEnd.drop 2 <:+ p := by
            obtain ⟨h,-,rest,-⟩ := strstrFirst (by simp [crlf]) found
            rw [rest, List.drop_drop]
            exact List.drop_suffix _ p
          exact ⟨later.1,later.2.1,later.2.2.1,later.2.2.2.trans inside⟩

/- The body of a request, where it has one: some bytes, no more than were declared or have come, and a NUL. -/
structure BodyFits (left : Int) (r : HttpRequest) : Prop where
  positive : 0 < r.bodyLength
  declared : r.bodyLength ≤ r.contentLength
  arrived : r.bodyLength ≤ left
  ended : ∀ body, r.body = some body → body.length = r.bodyLength + 1 ∧ 0 ∈ body

/- The bytes between p and the terminator of the buffer. -/
def bytesLeft (data p : Bytes) : Int := data.length - (((data ++ [0]).length - p.length : Nat) : Int)

theorem leftPositive {data p : Bytes} (inside : p <:+ data ++ [0]) (text : p.headD 0 ≠ 0) :
    bytesLeft data p = (p.length : Int) - 1 ∧ 2 ≤ p.length := by
  have short := inside.length_le
  have long : 2 ≤ p.length := by
    cases p with
    | nil => exact absurd rfl text
    | cons b p =>
      cases p with
      | nil =>
        obtain ⟨before,same⟩ := inside
        have last := (List.append_inj' same rfl).2
        cases List.singleton_injective last
        exact absurd rfl text
      | cons c p => simp
  rw [List.length_append, List.length_singleton] at short
  refine ⟨?_,long⟩
  simp only [bytesLeft, List.length_append, List.length_singleton]
  omega

/- The copy into the new block: the bytes, a NUL behind them, and the rest of the block as it came. -/
theorem blockCopied {block p : Bytes} {n : Nat} (room : n < block.length) (inside : n ≤ p.length) :
    ∃ body, Checked.memcpy block 0 p n = some body ∧ Checked.store body n 0 = some (body.set n 0) ∧
      (body.set n 0).take (n+1) = p.take n ++ [0] := by
  have size : (p.take n).length = n := List.length_take_of_le inside
  have copied := @Checked.memcpyOk block p 0 n (by omega) inside
  rw [blitStart, size] at copied
  refine ⟨_,copied,Checked.storeOk (by simp only [List.length_append, List.length_drop, size]; omega) 0,?_⟩
  rw [List.set_append_right _ _ (Nat.le_of_eq size), size, Nat.sub_self, List.drop_eq_getElem_cons room, List.set_cons_zero,
    List.take_append, size, List.take_of_length_le (by omega), Nat.add_sub_cancel_left, List.take_succ_cons, List.take_zero]

theorem parseBodySound {malloc : Nat → Bool} {block : Nat → Bytes} {data p : Bytes} {r : HttpRequest}
    (room : ∀ n, (block n).length = n) (ended : 0 ∈ p) (inside : p <:+ data ++ [0]) (fresh : r.body = none)
    (small : r.contentLength < 2^31 - 1) :
    parseBody malloc block (data ++ [0]) data.length p r =
      some (HttpParser.parseBody malloc (data ++ [0]) data.length p r) ∧
    ((HttpParser.parseBody malloc (data ++ [0]) data.length p r).body ≠ none →
      BodyFits (bytesLeft data p) (HttpParser.parseBody malloc (data ++ [0]) data.length p r)) := by
  by_cases declared : r.contentLength > 0
  · have sum : Checked.addInt r.contentLength 1 = some (r.contentLength + 1) :=
      Checked.addIntOk (by omega) (by omega)
    have wrap : wrapInt (r.contentLength + 1) = r.contentLength + 1 := wrapIntRange (by omega) (by omega)
    by_cases text : p.headD 0 ≠ 0
    · obtain ⟨rest,long⟩ := leftPositive inside text
      cases memory : malloc ((r.contentLength + 1) % 2^64).toNat with
      | true =>
        have bytes : ((r.contentLength + 1) % 2^64).toNat = r.contentLength.toNat + 1 := by omega
        have count : Checked.toSize (min (bytesLeft data p) r.contentLength) =
            some (min (bytesLeft data p) r.contentLength).toNat := Checked.toSizeOk (by omega)
        obtain ⟨body,copied,stored,kept⟩ := @blockCopied (block ((r.contentLength + 1) % 2^64).toNat) p
          (min (bytesLeft data p) r.contentLength).toNat (by rw [room]; omega) (by omega)
        have model : HttpParser.parseBody malloc (data ++ [0]) data.length p r =
            {r with body := some (p.take (min (bytesLeft data p) r.contentLength).toNat ++ [0]),
                    bodyLength := min (bytesLeft data p) r.contentLength} := by
          rw [HttpParser.parseBody, wrap, if_pos ⟨declared,text,memory⟩]
          rfl
        have fold : (data.length : Int) - (((data ++ [0]).length - p.length : Nat) : Int) = bytesLeft data p := rfl
        refine ⟨?_,fun _ => ?_⟩
        · rw [model]
          simp only [parseBody, if_pos declared, Checked.loadOk ended, bind, Option.bind, if_pos text, sum, memory, if_true,
            fold, count, copied, stored, kept]
        · rw [model]
          refine ⟨by dsimp only; omega,by dsimp only; omega,by dsimp only; omega,fun body same => ?_⟩
          cases Option.some.inj same
          dsimp only
          refine ⟨?_,by simp⟩
          simp only [List.length_append, List.length_take, List.length_singleton]
          omega
      | false =>
        have model : HttpParser.parseBody malloc (data ++ [0]) data.length p r = r := by
          rw [HttpParser.parseBody, wrap, if_neg (fun all => by rw [memory] at all; exact Bool.noConfusion all.2.2)]
        rw [model]
        refine ⟨?_,fun filled => absurd fresh filled⟩
        simp only [parseBody, if_pos declared, Checked.loadOk ended, bind, Option.bind, if_pos text, sum, memory,
          Bool.false_eq_true, if_false]
    · have model : HttpParser.parseBody malloc (data ++ [0]) data.length p r = r :=
        if_neg (fun all => text all.2.1)
      rw [model]
      refine ⟨?_,fun filled => absurd fresh filled⟩
      simp only [parseBody, if_pos declared, Checked.loadOk ended, bind, Option.bind, if_neg text]
  · have model : HttpParser.parseBody malloc (data ++ [0]) data.length p r = r := if_neg (fun all => declared all.1)
    rw [model]
    refine ⟨?_,fun filled => absurd fresh filled⟩
    simp only [parseBody, if_neg declared]

theorem printHeadersSound {r : HttpRequest} (sound : Sound r) {n : Nat} (places : n ≤ maxHeaders) : printHeaders r n = some () := by
  induction n with
  | zero => rfl
  | succ n ih =>
    have place : n < r.headers.length := by
      rw [sound.places]
      omega
    obtain ⟨name,value⟩ := sound.headers _ (List.getElem_mem place)
    simp only [printHeaders, ih (by omega), List.getElem?_eq_getElem place, Checked.strlen, Checked.readingOk name.2,
      Checked.readingOk value.2, bind, Option.bind]

theorem printSound {r : HttpRequest} (sound : Sound r) : httpRequestPrint r = some () := by
  have host : (0 : UInt8) ∈ r.host := List.mem_of_mem_drop (by rw [sound.host.2]; exact List.mem_singleton_self 0)
  simp only [httpRequestPrint, Checked.strlen, Checked.readingOk sound.method.2, Checked.readingOk sound.uri.2,
    Checked.readingOk sound.version.2, Checked.readingOk host, bind, Option.bind, printHeadersSound sound sound.count]

theorem bodySound {malloc : Nat → Bool} {raw p : Bytes} {length : Int} {r : HttpRequest} (sound : Sound r) :
    Sound (HttpParser.parseBody malloc raw length p r) := by
  unfold HttpParser.parseBody
  split
  · exact {sound with}
  · exact sound

theorem addHeaderBody (r : HttpRequest) (line : Bytes) : (HttpParser.addHeader r line).body = r.body := by
  unfold HttpParser.addHeader
  split
  · split
    · simp only [storeHeader, cacheForm]
    · rfl
  · rfl

/- What the parser leaves on any bytes with a NUL behind them: the answer of the model, a request whose strings are
terminated in their arrays, and a body within the bytes that came. -/
structure Safe (malloc : Nat → Bool) (data : Bytes) (parsed : Bool) (r : HttpRequest) : Prop where
  answer : HttpParser.httpParseRequest malloc (data ++ [0]) data.length = if parsed then some r else none
  sound : Sound r
  body : r.body ≠ none → ∃ walk, parseHead (data ++ [0]) = some walk ∧ BodyFits (bytesLeft data walk.2.1) r

theorem parserSafe {malloc : Nat → Bool} {block : Nat → Bytes} {requestBuffer : Bytes} {buffer : Nat → Bytes} {data : Bytes}
    (blockSize : ∀ n, (block n).length = n) (requestSize : requestBuffer.length = 1024)
    (lineSize : ∀ n, (buffer n).length = 1024)
    (small : ∀ req, HttpParser.httpParseRequest malloc (data ++ [0]) data.length = some req → req.contentLength < 2^31 - 1) :
    ∃ parsed r, httpParseRequest malloc block requestBuffer buffer (data ++ [0]) data.length = some (parsed,r) ∧
      Safe malloc data parsed r := by
  have ended : (0 : UInt8) ∈ data ++ [0] := by simp
  unfold httpParseRequest
  simp only [Checked.strstr, Checked.readingOk ended, bind, Option.bind]
  cases found : strstr crlf (data ++ [0]) with
  | none =>
    refine ⟨false,_,rfl,?_,initSound,fun filled => absurd rfl filled⟩
    simp only [HttpParser.httpParseRequest, found]
    rfl
  | some lineEnd =>
    obtain ⟨junk,cut,free⟩ := cutLineText requestSize ended found
    obtain ⟨parsed,r,line,model,sound,fresh⟩ := parseRequestLineText free junk
    simp only [cut, line]
    cases parsed with
    | false =>
      refine ⟨false,r,rfl,?_,sound,fun filled => absurd fresh filled⟩
      simp only [HttpParser.httpParseRequest, found, model]
      rfl
    | true =>
      obtain ⟨start,endedLine,short,-⟩ := Checked.foundEnded (by simp [crlf]) found ended
      obtain ⟨long,behind⟩ := Checked.pastNeedle (by decide) start endedLine
      have next : Checked.advance lineEnd 2 = some (lineEnd.drop 2) := Checked.advanceOk long
      have size : 2 ≤ lineEnd.length := long
      have enough : (lineEnd.drop 2).length < (data ++ [0]).length := by
        rw [List.length_drop]
        omega
      have endedNext : 0 ∈ lineEnd.drop 2 := behind
      obtain ⟨loop,kept,endedRest,inside⟩ := headerLoopSound lineSize endedNext enough sound
      have walked : parseHead (data ++ [0]) = some (headerWalk (data ++ [0]).length (lineEnd.drop 2) r) := by
        simp only [parseHead, requestText, found, Option.map_some, model, if_true]
      have answer (m : Nat → Bool) := parseAfterHead m (data ++ [0]) data.length
      simp only [walked, Option.map_some, walkLoop] at answer
      have bound := small _ (answer malloc)
      rw [bodyContentLength] at bound
      have untouched : (HttpParser.headerLoop (data ++ [0]).length (lineEnd.drop 2) r).2.body = none :=
        (loopKeeps addHeaderBody _ _ _).trans fresh
      have within : (HttpParser.headerLoop (data ++ [0]).length (lineEnd.drop 2) r).1 <:+ data ++ [0] := by
        obtain ⟨h,-,rest,-⟩ := strstrFirst (by simp [crlf]) found
        refine inside.trans ?_
        rw [rest, List.drop_drop]
        exact List.drop_suffix _ _
      obtain ⟨body,fits⟩ := @parseBodySound malloc block data _ _ blockSize endedRest within untouched bound
      simp only [if_true, next, loop, body, printSound (bodySound kept)]
      refine ⟨true,_,rfl,answer malloc,bodySound kept,fun filled => ⟨_,walked,?_⟩⟩
      rw [walkLoop]
      exact fits filled

/- A block or a buffer that was never cleared. -/
def dirty (n : Nat) : Bytes := List.replicate n 255

/- The last header line is hidden behind a NUL: the loop ends in front of it, and the body starts there. -/
def hostile : Bytes := ascii "GET  / HTTP/1.1\r\nContent-Length:2\r\n" ++ [58,13,0] ++ crlf ++ crlf ++ [97]

theorem hostileSafe : ∃ parsed r, httpParseRequest (fun _ => true) dirty (dirty 1024) (fun _ => dirty 1024)
    (hostile ++ [0]) hostile.length = some (parsed,r) ∧ Safe (fun _ => true) hostile parsed r := by
  have size (n : Nat) : (dirty n).length = n := List.length_replicate
  have content : (HttpParser.httpParseRequest (fun _ => true) (hostile ++ [0]) hostile.length).map (·.contentLength) = some 2 := by
    decide +kernel
  refine parserSafe size (size 1024) (fun _ => size 1024) (fun req ok => ?_)
  rw [ok, Option.map_some, Option.some.injEq] at content
  rw [content]
  decide

-- The sum of the allocation leaves int, and the check shows it.
example : httpParseRequest (fun _ => true) dirty (dirty 1024) (fun _ => dirty 1024)
    (ascii "GET / HTTP/1.1\r\nContent-Length:2147483647\r\n\r\na" ++ [0]) 48 = none := by decide +kernel

end EpollHttpServer.ParserSafety
