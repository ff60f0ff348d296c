import EpollHttpServer.HeaderLines

/-! The request line of http_parse_request. The line is cut to the scratch array of 1024 bytes before
its fields are, so the declared limits of the fields are met only together with that one. -/
namespace EpollHttpServer.RequestLine
open CString Crlf HttpParser

/- A field of a request line: some bytes, fewer than its array has, none of them blank or NUL. -/
structure Word (w : Bytes) (size : Nat) : Prop where
  nonempty : w ≠ []
  fits : w.length < size
  text : ∀ b ∈ w, isspace b = false ∧ b ≠ 0

def requestLine (method uri version : Bytes) : Bytes := method ++ 32::(uri ++ 32::version)

/- What http_parse_request says of the request line. -/
def lineOf (r : HttpRequest) : Bytes × Bytes × Bytes := (cstr r.method,cstr r.uri,cstr r.version)

theorem addHeaderLine (r : HttpRequest) (line : Bytes) : lineOf (addHeader r line) = lineOf r := by
  unfold addHeader
  split
  · split
    · simp only [lineOf, storeHeader, cacheForm]
    · rfl
  · rfl

theorem headerLoopLine (fuel : Nat) (p : Bytes) (r : HttpRequest) : lineOf (headerLoop fuel p r).2 = lineOf r :=
  loopKeeps addHeaderLine fuel p r

theorem parseBodyLine (malloc raw length p r) : lineOf (parseBody malloc raw length p r) = lineOf r := by
  unfold parseBody
  split <;> rfl

theorem skipWord {w t : Bytes} {size : Nat} (word : Word w size) : skipSpaces (w ++ t) = w ++ t := by
  cases w with
  | nil => exact absurd rfl word.nonempty
  | cons b w =>
    have first := (word.text b List.mem_cons_self).1
    simp only [skipSpaces, List.cons_append, List.dropWhile_cons, first, Bool.false_eq_true, if_false]

theorem wordFree {w : Bytes} {size : Nat} (word : Word w size) : (0 : UInt8) ∉ w := fun h => (word.text 0 h).2 rfl

theorem wordNoBlank {w : Bytes} {size : Nat} (word : Word w size) {b : UInt8} (blank : isspace b = true) : b ∉ w := by
  intro h
  rw [(word.text b h).1] at blank
  contradiction

/- What copy_until leaves in the array, as a string. -/
theorem copiedFound {dest src delimiter array end_ : Bytes} {size : Nat}
    (found : copyUntil dest size src delimiter = (array,some end_)) :
    strstr delimiter src = some end_ ∧ cstr array = (cstr src).take (min (src.length - end_.length) (size - 1)) := by
  unfold copyUntil at found
  split at found
  · simp at found
  · rename_i rest at_
    simp only [Prod.mk.injEq, Option.some.injEq] at found
    obtain ⟨rfl,rfl⟩ := found
    exact ⟨at_,cstrCopied dest src _⟩

theorem copiedWhole {dest src delimiter : Bytes} {size : Nat} (absent : strstr delimiter src = none) :
    cstr (copyUntil dest size src delimiter).1 = (cstr src).take (size - 1) := by
  simp only [copyUntil, absent]
  exact cstrCopied dest src _

theorem copiedWord {w t dest : Bytes} {size : Nat} (word : Word w size) (free : (0 : UInt8) ∉ t) :
    ∃ array, copyUntil dest size (w ++ 32::t) [32] = (array,some (32::t)) ∧ cstr array = w := by
  have found := strstrByte (wordNoBlank word (show isspace 32 = true by decide)) (wordFree word) t
  have len : (w ++ 32::t).length - (32::t).length = w.length := by
    rw [List.length_append]
    omega
  have fits := word.fits
  refine ⟨_,by simp only [copyUntil, found]; rfl,?_⟩
  rw [cstrCopied, len, Nat.min_eq_left (by omega), cstrOfFree, List.take_left]
  simp only [List.mem_append, List.mem_cons, not_or]
  exact ⟨wordFree word,by decide,free⟩

theorem noCrlf {s : Bytes} (no : (13 : UInt8) ∉ s) : strstr crlf s = none := by
  cases found : strstr crlf s with
  | none => rfl
  | some t => exact absurd (strstrSomeInfix (by simp [crlf]) found) (freeOfNoCr no)

theorem versionWord {w dest : Bytes} (word : Word w maxVersionLength) : cstr (copyVersion dest w) = w := by
  have whole : cstr (copyUntil dest maxVersionLength w crlf).1 = w := by
    have fits := word.fits
    rw [copiedWhole (noCrlf (wordNoBlank word (by decide))), cstrOfFree (wordFree word), List.take_of_length_le (by omega)]
  have filled : ¬ (copyUntil dest maxVersionLength w crlf).1.headD 0 = 0 := by
    intro zero
    apply word.nonempty
    rw [← whole]
    cases array : (copyUntil dest maxVersionLength w crlf).1 with
    | nil => rfl
    | cons b bs =>
      rw [array] at zero
      have same : b = 0 := zero
      rw [same]
      rfl
  simp only [copyVersion, filled, if_false, whole]

/- Within the scratch array, every field comes out as it went in. -/
theorem lineParsed {method uri version : Bytes} (m : Word method maxMethodLength) (u : Word uri maxUriLength)
    (v : Word version maxVersionLength) (r : HttpRequest) :
    ∃ out, parseRequestLine (requestLine method uri version) r = some out ∧ lineOf out = (method,uri,version) := by
  have tail : (0 : UInt8) ∉ uri ++ 32::version := by
    simp only [List.mem_append, List.mem_cons, not_or]
    exact ⟨wordFree u,by decide,wordFree v⟩
  obtain ⟨first,copied,methodText⟩ := @copiedWord _ _ r.method _ m tail
  obtain ⟨second,copied',uriText⟩ := @copiedWord _ _ r.uri _ u (wordFree v)
  have next : (32::(uri ++ 32::version)).drop 1 = uri ++ 32::version := rfl
  have last : skipSpaces ((32::version).drop 1) = version := by
    simpa using @skipWord version [] _ v
  refine ⟨{r with method := first, uri := second, version := copyVersion r.version version},?_,?_⟩
  · simp only [parseRequestLine, requestLine, skipWord m, copied, next, skipWord u, copied', last]
  · simp only [lineOf, methodText, uriText, versionWord v]

theorem versionShort {p : Bytes} (no : (13 : UInt8) ∉ p) (dest : Bytes) :
    (cstr (copyVersion dest p)).length ≤ (cstr p).length := by
  have whole : cstr (copyUntil dest maxVersionLength p crlf).1 = (cstr p).take 15 := copiedWhole (noCrlf no)
  have ended : ((copyUntil dest maxVersionLength p crlf).1.drop 15).headD 0 = 0 := by
    simp only [copyUntil, noCrlf no, maxVersionLength]
    exact setEnds _ _
  have again := cstrStrncpy ended p
  unfold copyVersion
  dsimp only
  split
  · split
    · refine (cstrSet _ _).length_le.trans ?_
      rw [show maxVersionLength - 1 = 15 from rfl, again]
      exact List.length_take_le' _ _
    · rw [show maxVersionLength - 1 = 15 from rfl, again]
      exact List.length_take_le' _ _
  · rw [whole]
    exact List.length_take_le' _ _

/- The delimiter and what follows it stand behind the field. -/
theorem copiedApart {dest src array end_ : Bytes} {size : Nat} (found : copyUntil dest size src [32] = (array,some end_)) :
    (cstr array).length + 1 + (end_.drop 1).length ≤ src.length ∧ end_ <:+ src := by
  obtain ⟨at_,text⟩ := copiedFound found
  obtain ⟨h,first,rfl,-⟩ := strstrFirst (by simp) at_
  have size := first.here.length_le
  have field := congrArg List.length text
  simp only [List.length_cons, List.length_nil, List.length_drop] at size
  simp only [List.length_take, List.length_drop] at field
  refine ⟨?_,List.drop_suffix _ _⟩
  simp only [List.length_drop]
  omega

theorem skipShort (s : Bytes) : (skipSpaces s).length ≤ s.length := List.length_dropWhile_le _ _

theorem skipSuffix (s : Bytes) : skipSpaces s <:+ s := List.dropWhile_suffix _

/- However it parses, the three fields stand apart in the line. -/
theorem fieldsFit {line : Bytes} {r out : HttpRequest} (no : (13 : UInt8) ∉ line)
    (ok : parseRequestLine line r = some out) :
    (requestLine (lineOf out).1 (lineOf out).2.1 (lineOf out).2.2).length ≤ line.length := by
  unfold parseRequestLine at ok
  split at ok <;> try contradiction
  rename_i method end_ first
  split at ok <;> try contradiction
  rename_i uri end_' second
  cases Option.some.inj ok
  obtain ⟨apart,inside⟩ := copiedApart first
  obtain ⟨apart',inside'⟩ := copiedApart second
  have version : skipSpaces (end_'.drop 1) <:+ line :=
    (skipSuffix _).trans ((List.drop_suffix _ _).trans (inside'.trans
      ((skipSuffix _).trans ((List.drop_suffix _ _).trans (inside.trans (skipSuffix line))))))
  have short := versionShort (fun h => no (version.subset h)) r.version
  have string := (cstrPrefix (skipSpaces (end_'.drop 1))).length_le
  have skipped := skipShort line
  have skipped' := skipShort (end_.drop 1)
  have skipped'' := skipShort (end_'.drop 1)
  simp only [lineOf, requestLine, List.length_append, List.length_cons]
  omega

/- The block after the line has no part in it. -/
theorem lineOnly {line : Bytes} (no : (13 : UInt8) ∉ line) (free : (0 : UInt8) ∉ line) (malloc block length) :
    (httpParseRequest malloc (line ++ crlf ++ block) length).map lineOf =
      (parseRequestLine (line.take 1023) httpRequestInit).map lineOf := by
  have found := strstrLine (freeOfNoCr no) free block
  simp only [httpParseRequest, found, lineCut]
  cases parseRequestLine (line.take 1023) httpRequestInit with
  | none => rfl
  | some r =>
    dsimp only [Option.map_some]
    rw [parseBodyLine, headerLoopLine]

def ParsesExactly (malloc : Nat → Bool) (method uri version block : Bytes) (length : Int) : Prop :=
  ∃ req, httpParseRequest malloc (requestLine method uri version ++ crlf ++ block) length = some req ∧
    lineOf req = (method,uri,version)

theorem lineText {method uri version : Bytes} {a b c : Nat} (m : Word method a) (u : Word uri b) (v : Word version c)
    {x : UInt8} (blank : isspace x = true ∨ x = 0) (other : x ≠ 32) : x ∉ requestLine method uri version := by
  have absent : ∀ {w : Bytes} {size : Nat}, Word w size → x ∉ w := by
    intro w size word
    rcases blank with white | rfl
    · exact wordNoBlank word white
    · exact wordFree word
  simp only [requestLine, List.mem_append, List.mem_cons, not_or]
  exact ⟨absent m,other,absent u,other,absent v⟩

theorem exactMap {malloc method uri version block length} :
    ParsesExactly malloc method uri version block length ↔
      (httpParseRequest malloc (requestLine method uri version ++ crlf ++ block) length).map lineOf =
        some (method,uri,version) := Option.map_eq_some_iff.symm

theorem exactLine {method uri version : Bytes} (m : Word method maxMethodLength) (u : Word uri maxUriLength)
    (v : Word version maxVersionLength) (malloc block length) :
    ParsesExactly malloc method uri version block length ↔
      (parseRequestLine ((requestLine method uri version).take 1023) httpRequestInit).map lineOf =
        some (method,uri,version) := by
  rw [exactMap, lineOnly (lineText m u v (Or.inl (by decide)) (by decide)) (lineText m u v (Or.inr rfl) (by decide))]

theorem exactShort {method uri version : Bytes} (m : Word method maxMethodLength) (u : Word uri maxUriLength)
    (v : Word version maxVersionLength) (short : (requestLine method uri version).length ≤ 1023) (malloc block length) :
    ParsesExactly malloc method uri version block length := by
  rw [exactLine m u v, List.take_of_length_le short]
  exact Option.map_eq_some_iff.mpr (lineParsed m u v httpRequestInit)

/- What the scratch array does not hold is lost to the fields. -/
theorem exactHeld {method uri version : Bytes} (m : Word method maxMethodLength) (u : Word uri maxUriLength)
    (v : Word version maxVersionLength) {malloc block length} (whole : ParsesExactly malloc method uri version block length) :
    (requestLine method uri version).length ≤ 1023 := by
  obtain ⟨out,parsed,fields⟩ := Option.map_eq_some_iff.mp ((exactLine m u v malloc block length).mp whole)
  have no := @lineText _ _ _ _ _ _ m u v 13 (Or.inl (by decide)) (by decide)
  have fit := fieldsFit (fun h => no (List.mem_of_mem_take h)) parsed
  rw [fields] at fit
  exact fit.trans (List.length_take_le _ _)

theorem lineExactWhen {method uri version : Bytes} (m : Word method maxMethodLength) (u : Word uri maxUriLength)
    (v : Word version maxVersionLength) (malloc : Nat → Bool) (block : Bytes) (length : Int) :
    ParsesExactly malloc method uri version block length ↔
      method.length + 1 + uri.length + 1 + version.length ≤ 1023 := by
  have size : (requestLine method uri version).length = method.length + 1 + uri.length + 1 + version.length := by
    simp only [requestLine, List.length_append, List.length_cons]
    omega
  rw [← size]
  exact ⟨exactHeld m u v,fun short => exactShort m u v short malloc block length⟩

theorem getWord : Word (ascii "GET") maxMethodLength := ⟨by decide,by decide,by decide +kernel⟩
theorem versionOne : Word (ascii "HTTP/1.1") maxVersionLength := ⟨by decide,by decide,by decide +kernel⟩

theorem rootExact : ParsesExactly (fun _ => true) (ascii "GET") (ascii "/") (ascii "HTTP/1.1") (ascii "Host: a\r\n\r\n") 27 ↔
    (ascii "GET").length + 1 + (ascii "/").length + 1 + (ascii "HTTP/1.1").length ≤ 1023 :=
  lineExactWhen getWord ⟨by decide,by decide,by decide +kernel⟩ versionOne _ _ _

/- A URI of 1011 bytes, about half of its limit: the last byte of the version does not fit. -/
def longUri : Bytes := 47::List.replicate 1010 97

theorem longUriLength : longUri.length = 1011 := by
  rw [longUri, List.length_cons, List.length_replicate]

theorem longWord : Word longUri maxUriLength := by
  refine ⟨List.cons_ne_nil _ _,by rw [longUriLength]; decide,?_⟩
  intro b hb
  rcases List.mem_cons.mp hb with rfl | more
  · decide
  · rw [List.eq_of_mem_replicate more]
    decide

theorem longUriCut : Word (ascii "GET") maxMethodLength ∧ Word longUri maxUriLength ∧
    Word (ascii "HTTP/1.1") maxVersionLength ∧
    (httpParseRequest (fun _ => true) (requestLine (ascii "GET") longUri (ascii "HTTP/1.1") ++ crlf ++ crlf) 1028).map
      (fun r => cstr r.version) = some (ascii "HTTP/1.") ∧
    ¬ ParsesExactly (fun _ => true) (ascii "GET") longUri (ascii "HTTP/1.1") crlf 1028 := by
  refine ⟨getWord,longWord,versionOne,by decide +kernel,fun whole => ?_⟩
  have held := exactHeld getWord longWord versionOne whole
  simp only [requestLine, List.length_append, List.length_cons, longUriLength] at held
  exact absurd held (by decide)

end EpollHttpServer.RequestLine
