import EpollHttpServer.HttpParser
import Mathlib.Data.List.Basic
import Mathlib.Data.List.Perm.Basic

/-! A setting that each entry of a list may overwrite: the last one that speaks of it decides. Where
no two entries speak of it, their order has no part in the outcome. -/
namespace LastWins

variable {α β : Type*}

def lastOf (read : α → Option β) (start : β) (xs : List α) : β := (xs.filterMap read).getLastD start

theorem lastOfAppend (read : α → Option β) (start : β) (xs : List α) (x : α) :
    lastOf read start (xs ++ [x]) = (read x).getD (lastOf read start xs) := by
  unfold lastOf
  cases said : read x with
  | none => simp [said]
  | some b => simp [said]

theorem lastOfJoin (read : α → Option β) (start : β) (xs ys : List α) :
    lastOf read start (xs ++ ys) = lastOf read (lastOf read start xs) ys := by
  simp only [lastOf, List.filterMap_append, List.getLastD_eq_getLast?, List.getLast?_append]
  cases (ys.filterMap read).getLast? with
  | none => rfl
  | some b => rfl

/- At most one entry speaks. -/
def Single (read : α → Option β) (xs : List α) : Prop := xs.Pairwise (fun x y => read x = none ∨ read y = none)

theorem singleLength {read : α → Option β} {xs : List α} (single : Single read xs) :
    (xs.filterMap read).length ≤ 1 := by
  induction xs with
  | nil => simp
  | cons x xs ih =>
    obtain ⟨first,rest⟩ := List.pairwise_cons.mp single
    cases said : read x with
    | none =>
      rw [List.filterMap_cons_none said]
      exact ih rest
    | some b =>
      have silent : xs.filterMap read = [] :=
        List.filterMap_eq_nil_iff.mpr (fun y hy => (first y hy).resolve_left (by simp [said]))
      rw [List.filterMap_cons_some said, silent]
      exact Nat.le_refl 1

theorem lastOfPerm {read : α → Option β} {xs ys : List α} (perm : xs.Perm ys) (single : Single read xs) (start : β) :
    lastOf read start xs = lastOf read start ys := by
  have same : (xs.filterMap read).Perm (ys.filterMap read) := perm.filterMap read
  have few := singleLength single
  unfold lastOf
  cases said : xs.filterMap read with
  | nil =>
    rw [said] at same
    rw [same.nil_eq]
  | cons b more =>
    cases more with
    | nil =>
      rw [said] at same
      rw [List.singleton_perm.mp same]
    | cons c more =>
      rw [said, List.length_cons, List.length_cons] at few
      omega

end LastWins

/-! The header loop of http_parse_request, on the lines of a head. The loop walks
pointers; here its effect is a fold over the lines that end before the blank line. -/
namespace EpollHttpServer.HttpParser
open CString Crlf LastWins

/- The name and value that the arrays of a header keep of one line. -/
def field (text : Bytes) : Option (Bytes × Bytes) :=
  if 58 ∈ text then
    some ((text.takeWhile (· != 58)).take 63,(skipSpaces ((text.dropWhile (· != 58)).drop 1)).take 255)
  else none

def addLine (r : HttpRequest) (line : Bytes) : HttpRequest := addHeader r (line.take 1023)

structure Shaped (r : HttpRequest) : Prop where
  entries : ∀ h ∈ r.headers, h.name.length = maxHeaderName ∧ h.value.length = maxHeaderValue
  count : r.headers.length = maxHeaders

/- The names and values of the lines that have a colon. -/
def stored (ls : List Bytes) : List (Bytes × Bytes) := ls.filterMap (fun l => field (l.take 1023))

theorem colonParts {n : Bytes} (no : (58 : UInt8) ∉ n) (w : Bytes) :
    (n ++ 58::w).takeWhile (· != 58) = n ∧ (n ++ 58::w).dropWhile (· != 58) = 58::w := by
  have before : ∀ b ∈ n, (b != 58) = true := by
    intro b hb
    simp only [bne_iff_ne, ne_eq]
    rintro rfl
    exact no hb
  rw [List.takeWhile_append_of_pos before, List.dropWhile_append_of_pos before]
  simp

theorem fieldColon {n : Bytes} (no : (58 : UInt8) ∉ n) (w : Bytes) :
    field (n ++ 58::w) = some (n.take 63,(skipSpaces w).take 255) := by
  obtain ⟨name,rest⟩ := colonParts no w
  rw [field, if_pos (by simp), name, rest, List.drop_succ_cons, List.drop_zero]

/- A bounded copy of the text a, which stands before b, with its terminator. -/
theorem storedText {dest a b : Bytes} {k : Nat} (room : k < dest.length) (free : (0 : UInt8) ∉ a ++ b) :
    (strncpy dest (a ++ b) (min a.length k)).set (min a.length k) 0 =
      a.take k ++ 0 :: dest.drop ((a.take k).length + 1) := by
  have text : (a ++ b).take (min a.length k) = a.take k := by
    rw [List.take_append_of_le_length (Nat.min_le_left _ _), Nat.min_comm, ← List.take_eq_take_min]
  have len : (a.take k).length = min a.length k := by rw [List.length_take, Nat.min_comm]
  have rest : dest.drop (min a.length k) = dest[min a.length k] :: dest.drop (min a.length k + 1) :=
    List.drop_eq_getElem_cons (by omega)
  simp only [strncpy, cstrOfFree free, blitStart, text, len, Nat.sub_self, List.replicate_zero,
    List.append_nil, rest]
  rw [List.set_append_right _ _ (by omega), len, Nat.sub_self, List.set_cons_zero]

theorem valueFree {text : Bytes} {b : UInt8} (free : b ∉ text) :
    b ∉ skipSpaces ((text.dropWhile (· != 58)).drop 1) := by
  intro inside
  have one := (List.dropWhile_suffix _).subset inside
  exact free ((List.dropWhile_suffix _).subset (List.mem_of_mem_drop one))

theorem valueInside (text : Bytes) : skipSpaces ((text.dropWhile (· != 58)).drop 1) <:+: text :=
  ((List.dropWhile_suffix _).trans ((List.drop_suffix 1 _).trans (List.dropWhile_suffix _))).isInfix

theorem parsedNone {text : Bytes} {header : HttpHeader} (free : (0 : UInt8) ∉ text)
    (no : field text = none) : parseHeaderLine text header = none := by
  unfold field at no
  split at no <;> try contradiction
  rename_i absent
  simp [parseHeaderLine, strchrBreak 58 free, absent]

theorem parsedSome {text n v : Bytes} {header : HttpHeader} (free : (0 : UInt8) ∉ text)
    (crlfFree : CrlfFree text) (name : header.name.length = maxHeaderName)
    (value : header.value.length = maxHeaderValue) (found : field text = some (n,v)) :
    parseHeaderLine text header =
      some ⟨n ++ 0 :: header.name.drop (n.length+1),v ++ 0 :: header.value.drop (v.length+1)⟩ := by
  unfold field at found
  split at found <;> try contradiction
  rename_i colon
  simp only [Option.some.injEq, Prod.mk.injEq] at found
  obtain ⟨rfl,rfl⟩ := found
  have noCrlf : strstr crlf (skipSpaces ((text.dropWhile (· != 58)).drop 1)) = none := by
    cases h : strstr crlf (skipSpaces ((text.dropWhile (· != 58)).drop 1)) with
    | none => rfl
    | some t => exact absurd ((strstrSomeInfix (by simp [crlf]) h).trans (valueInside text)) crlfFree
  have cut : text.takeWhile (· != 58) ++ text.dropWhile (· != 58) = text := List.takeWhile_append_dropWhile
  have before : text.length - (text.dropWhile (· != 58)).length = (text.takeWhile (· != 58)).length := by
    have len := congrArg List.length cut
    simp only [List.length_append] at len
    omega
  have nameText := @storedText header.name (text.takeWhile (· != 58)) (text.dropWhile (· != 58)) 63
    (by rw [name]; decide) (by rw [cut]; exact free)
  have valueText := @storedText header.value (skipSpaces ((text.dropWhile (· != 58)).drop 1)) [] 255
    (by rw [value]; decide) (by rw [List.append_nil]; exact valueFree free)
  rw [cut] at nameText
  rw [List.append_nil] at valueText
  simp only [parseHeaderLine, strchrBreak 58 free, colon, if_true, before, noCrlf,
    cstrOfFree (valueFree free), maxHeaderName, maxHeaderValue, nameText, valueText]

theorem nameExclusive {name a b : Bytes} (same : strcasecmpEq name a = true)
    (differ : strcasecmpEq a b = false) : strcasecmpEq name b = false := by
  simp only [strcasecmpEq, beq_iff_eq] at same
  simpa only [strcasecmpEq, same] using differ

/- What a header says to a field that is cached under its name; the last that speaks is kept. -/
def named {β : Type} (key : Bytes) (read : Bytes → Option β) (f : Bytes × Bytes) : Option β :=
  if strcasecmpEq f.1 key then read f.2 else none

def hostOf : Bytes × Bytes → Option Bytes := named (ascii "Host") some

def connectionOf : Bytes × Bytes → Option Bool := named (ascii "Connection") (fun value =>
  if strcasecmpEq value (ascii "keep-alive") then some true
  else if strcasecmpEq value (ascii "close") then some false
  else none)

def lengthOf : Bytes × Bytes → Option Int := named (ascii "Content-Length") (fun value => some (atoi value))

theorem cacheForm (r : HttpRequest) (header : HttpHeader) : cacheHeader r header = {r with
    host := if strcasecmpEq header.name (ascii "Host") then strncpy r.host header.value (maxHeaderValue - 1) else r.host
    keepAlive := (connectionOf (header.name,header.value)).getD r.keepAlive
    contentLength := (lengthOf (header.name,header.value)).getD r.contentLength} := by
  have hostConnection : strcasecmpEq (ascii "Host") (ascii "Connection") = false := by decide
  have hostLength : strcasecmpEq (ascii "Host") (ascii "Content-Length") = false := by decide
  have connectionLength : strcasecmpEq (ascii "Connection") (ascii "Content-Length") = false := by decide
  unfold cacheHeader connectionOf lengthOf named
  cases host : strcasecmpEq header.name (ascii "Host") with
  | true =>
    simp only [nameExclusive host hostConnection, nameExclusive host hostLength]
    rfl
  | false =>
    cases connection : strcasecmpEq header.name (ascii "Connection") with
    | true =>
      simp only [nameExclusive connection connectionLength, if_true, Bool.false_eq_true, if_false]
      split
      · rfl
      · split <;> rfl
    | false =>
      simp only [Bool.false_eq_true, if_false]
      split <;> rfl

theorem addLineFull {r : HttpRequest} (full : ¬ r.headerCount < maxHeaders) (line : Bytes) :
    addLine r line = r := by
  simp [addLine, addHeader, full]

theorem addLineNone {r : HttpRequest} {line : Bytes} (free : (0 : UInt8) ∉ line)
    (no : field (line.take 1023) = none) : addLine r line = r := by
  have freeText : (0 : UInt8) ∉ line.take 1023 := fun h => free (List.mem_of_mem_take h)
  simp [addLine, addHeader, parsedNone freeText no]

theorem fieldText {text n v : Bytes} (found : field text = some (n,v)) :
    n <:+: text ∧ v <:+: text ∧ n.length < maxHeaderName ∧ v.length < maxHeaderValue := by
  unfold field at found
  split at found <;> try contradiction
  simp only [Option.some.injEq, Prod.mk.injEq] at found
  obtain ⟨rfl,rfl⟩ := found
  refine ⟨((List.take_prefix _ _).trans (List.takeWhile_prefix _)).isInfix,
    (List.take_prefix _ _).isInfix.trans (valueInside text),?_,?_⟩
  · simp only [List.length_take, maxHeaderName]
    omega
  · simp only [List.length_take, maxHeaderValue]
    omega

theorem addLineSome {r : HttpRequest} {line n v : Bytes} (shaped : Shaped r)
    (room : r.headerCount < maxHeaders) (free : (0 : UInt8) ∉ line) (crlfFree : CrlfFree line)
    (found : field (line.take 1023) = some (n,v)) :
    ∃ a b, (n ++ 0::a).length = maxHeaderName ∧ (v ++ 0::b).length = maxHeaderValue ∧
      addLine r line = storeHeader r ⟨n ++ 0::a,v ++ 0::b⟩ := by
  have freeText : (0 : UInt8) ∉ line.take 1023 := fun h => free (List.mem_of_mem_take h)
  have crlfText : CrlfFree (line.take 1023) := freeOfInfix crlfFree (List.take_prefix _ _).isInfix
  have size : r.headerCount < r.headers.length := by rw [shaped.count]; exact room
  have entry := shaped.entries _ (List.getElem_mem size)
  have parsed := parsedSome freeText crlfText entry.1 entry.2 found
  have short := (fieldText found).2.2
  refine ⟨r.headers[r.headerCount].name.drop (n.length+1),
    r.headers[r.headerCount].value.drop (v.length+1),?_,?_,?_⟩
  · simp only [List.length_append, List.length_cons, List.length_drop, entry.1]
    omega
  · simp only [List.length_append, List.length_cons, List.length_drop, entry.2]
    omega
  · simp only [addLine, addHeader, room, if_true, List.getD_eq_getElem?_getD, List.getElem?_eq_getElem size, Option.getD_some, parsed]

theorem storeShaped {r : HttpRequest} {header : HttpHeader} (shaped : Shaped r)
    (name : header.name.length = maxHeaderName) (value : header.value.length = maxHeaderValue) :
    Shaped (storeHeader r header) := by
  constructor
  · intro h hh
    simp only [storeHeader, cacheForm] at hh
    rcases List.mem_or_eq_of_mem_set hh with old | rfl
    · exact shaped.entries h old
    · exact ⟨name,value⟩
  · simpa [storeHeader, cacheForm] using shaped.count

/- The request r holds the headers fs: in its array, in their order, and in the fields it caches. -/
structure Keeps (r : HttpRequest) (fs : List (Bytes × Bytes)) : Prop where
  shaped : Shaped r
  count : r.headerCount = fs.length
  headers : (r.headers.take fs.length).map (fun h => (cstr h.name,cstr h.value)) = fs
  host : cstr r.host = lastOf hostOf [] fs
  hostEnd : (r.host.drop (maxHeaderValue - 1)).headD 0 = 0
  keepAlive : r.keepAlive = lastOf connectionOf true fs
  contentLength : r.contentLength = lastOf lengthOf 0 fs
  body : r.body = none ∧ r.bodyLength = 0

theorem requestLineKeeps {line out} (ok : parseRequestLine line httpRequestInit = some out) : Keeps out [] := by
  have shaped : Shaped httpRequestInit := by
    constructor
    · intro h hh
      rw [(List.mem_replicate.mp hh).2]
      exact ⟨List.length_replicate,List.length_replicate⟩
    · exact List.length_replicate
  unfold parseRequestLine at ok
  split at ok <;> try contradiction
  split at ok <;> try contradiction
  cases Option.some.inj ok
  exact ⟨⟨shaped.entries,shaped.count⟩,rfl,rfl,rfl,rfl,rfl,rfl,rfl,rfl⟩

theorem sameName {n : Bytes} (free : (0 : UInt8) ∉ n) (a key : Bytes) :
    strcasecmpEq (n ++ 0::a) key = strcasecmpEq n key := by
  simp only [strcasecmpEq, cstrAppendNul free, cstrOfFree free]

theorem storeKeeps {r : HttpRequest} {fs : List (Bytes × Bytes)} {n v a b : Bytes} (keeps : Keeps r fs)
    (room : fs.length < maxHeaders) (name : (0 : UInt8) ∉ n) (value : (0 : UInt8) ∉ v)
    (nameSize : (n ++ 0::a).length = maxHeaderName) (valueSize : (v ++ 0::b).length = maxHeaderValue) :
    Keeps (storeHeader r ⟨n ++ 0::a,v ++ 0::b⟩) (fs ++ [(n,v)]) := by
  have slot : fs.length < r.headers.length := by rw [keeps.shaped.count]; exact room
  have short : (cstr (v ++ 0::b)).take (maxHeaderValue - 1) = v := by
    rw [cstrAppendNul value]
    refine List.take_of_length_le ?_
    rw [List.length_append, List.length_cons] at valueSize
    omega
  refine ⟨storeShaped keeps.shaped nameSize valueSize,?_,?_,?_,?_,?_,?_,?_⟩
  · simp only [storeHeader, cacheForm, keeps.count, List.length_append, List.length_singleton]
  · have array : (r.headers.set fs.length ⟨n ++ 0::a,v ++ 0::b⟩).take (fs.length + 1) =
        r.headers.take fs.length ++ [⟨n ++ 0::a,v ++ 0::b⟩] := by
      rw [List.take_succ_eq_append_getElem (by rw [List.length_set]; exact slot), List.take_set_of_le (Nat.le_refl _),
        List.getElem_set_self]
    simp only [storeHeader, cacheForm, keeps.count, List.length_append, List.length_singleton, array, List.map_append,
      keeps.headers, List.map_cons, List.map_nil, cstrAppendNul name, cstrAppendNul value]
  · simp only [storeHeader, cacheForm, lastOfAppend, hostOf, named, sameName name]
    split
    · rw [cstrStrncpy keeps.hostEnd, short]
      rfl
    · exact keeps.host
  · simp only [storeHeader, cacheForm]
    split
    · rw [strncpyDrop]
      exact keeps.hostEnd
    · exact keeps.hostEnd
  · simp only [storeHeader, cacheForm, lastOfAppend, connectionOf, named, sameName name, sameName value, keeps.keepAlive]
  · simp only [storeHeader, cacheForm, lastOfAppend, lengthOf, named, sameName name, atoiNul, keeps.contentLength]
  · simp only [storeHeader, cacheForm]
    exact keeps.body

/- One line: its field is the last one, if it has one and there is a place for it. -/
theorem addLineKeeps {r : HttpRequest} {fs : List (Bytes × Bytes)} {line : Bytes} (keeps : Keeps r fs)
    (nul : (0 : UInt8) ∉ line) (free : CrlfFree line) (bound : fs.length ≤ maxHeaders) :
    Keeps (addLine r line) ((fs ++ stored [line]).take maxHeaders) := by
  cases found : field (line.take 1023) with
  | none =>
    have nothing : stored [line] = [] := List.filterMap_cons_none found
    rw [addLineNone nul found, nothing, List.append_nil, List.take_of_length_le bound]
    exact keeps
  | some pair =>
    obtain ⟨n,v⟩ := pair
    have one : stored [line] = [(n,v)] := List.filterMap_cons_some found
    rw [one]
    rcases Nat.lt_or_ge fs.length maxHeaders with room | full
    · obtain ⟨a,b,nameSize,valueSize,same⟩ := addLineSome keeps.shaped (by rw [keeps.count]; exact room) nul free found
      obtain ⟨nameText,valueText,_,_⟩ := fieldText found
      have all : (fs ++ [(n,v)]).take maxHeaders = fs ++ [(n,v)] :=
        List.take_of_length_le (by rw [List.length_append, List.length_singleton]; exact room)
      rw [same, all]
      exact storeKeeps keeps room (fun h => nul (List.mem_of_mem_take (nameText.subset h)))
        (fun h => nul (List.mem_of_mem_take (valueText.subset h))) nameSize valueSize
    · rw [addLineFull (by rw [keeps.count]; omega), List.take_append_of_le_length full,
        List.take_of_length_le bound]
      exact keeps

/- All of the lines: the first fields that fit the array. -/
theorem addLinesKeeps {r : HttpRequest} {fs : List (Bytes × Bytes)} {ls : List Bytes} (keeps : Keeps r fs)
    (nul : ∀ l ∈ ls, (0 : UInt8) ∉ l) (free : ∀ l ∈ ls, CrlfFree l) (bound : fs.length ≤ maxHeaders) :
    Keeps (ls.foldl addLine r) ((fs ++ stored ls).take maxHeaders) := by
  induction ls generalizing r fs with
  | nil =>
    rw [stored, List.filterMap_nil, List.append_nil, List.take_of_length_le bound]
    exact keeps
  | cons line ls ih =>
    have step := addLineKeeps keeps (nul line List.mem_cons_self) (free line List.mem_cons_self) bound
    have later := ih step (fun l hl => nul l (List.mem_cons_of_mem _ hl)) (fun l hl => free l (List.mem_cons_of_mem _ hl))
      (List.length_take_le _ _)
    have split : stored (line::ls) = stored [line] ++ stored ls := List.filterMap_append (l := [line])
    rw [split, ← List.append_assoc]
    have same : (((fs ++ stored [line]).take maxHeaders) ++ stored ls).take maxHeaders =
        ((fs ++ stored [line]) ++ stored ls).take maxHeaders := by
      have left : maxHeaders - ((fs ++ stored [line]).take maxHeaders).length = maxHeaders - (fs ++ stored [line]).length := by
        rw [List.length_take]
        omega
      rw [List.take_append, List.take_take, Nat.min_self, left, ← List.take_append]
    rw [← same]
    exact later

/- A line that the loop reads: it ends before the next NUL and is not the blank one. -/
structure HeaderLine (line : Bytes) : Prop where
  text : line ≠ []
  free : CrlfFree line
  nul : (0 : UInt8) ∉ line

/- Where the loop stops: at a blank line, or where no further line ends before a NUL. -/
def Ends (tail : Bytes) : Prop := crlf <+: tail ∨ strstr crlf tail = none

def afterHead (tail : Bytes) : Bytes := if crlf <+: tail then tail.drop 2 else tail

theorem headerLoopEnds {tail : Bytes} (ends : Ends tail) (fuel : Nat) (r : HttpRequest) :
    headerLoop (fuel+1) tail r = (afterHead tail,r) := by
  unfold headerLoop afterHead
  rcases ends with blankLine | absent
  · obtain ⟨rest,rfl⟩ := blankLine
    simp [crlf]
  · rw [absent]
    split
    · rename_i stops
      rw [if_neg]
      rintro ⟨rest,rfl⟩
      exact absurd stops (by simp [crlf])
    · split <;> rfl

/- The line buffer holds the bytes before the CRLF, as many as it has room for. -/
theorem lineCut (line s : Bytes) :
    (line ++ crlf ++ s).take (min ((line ++ crlf ++ s).length - (crlf ++ s).length) 1023) = line.take 1023 := by
  have len : (line ++ crlf ++ s).length - (crlf ++ s).length = line.length := by
    simp only [List.length_append]
    omega
  rw [len, List.append_assoc, List.take_append_of_le_length (Nat.min_le_left _ _), Nat.min_comm, ← List.take_eq_take_min]

/- What the loop sees at a line that it reads: the line does not stop it, and the next CRLF is the line's own. -/
theorem lineTurn {line : Bytes} (ok : HeaderLine line) (s : Bytes) : (line ++ crlf ++ s).headD 0 ≠ 0 ∧
    ¬ crlf <+: line ++ crlf ++ s ∧ strstr crlf (line ++ crlf ++ s) = some (crlf ++ s) := by
  obtain ⟨text,free,nul⟩ := ok
  refine ⟨?_,(crlfAt free s).before 0 (List.length_pos_iff.mpr text),strstrLine free nul s⟩
  cases line with
  | nil => exact absurd rfl text
  | cons b line => simpa using fun h => nul (by simp [h])

/- What no header line changes, the loop leaves as it was. -/
theorem loopKeeps {α : Type} {view : HttpRequest → α} (each : ∀ r line, view (addHeader r line) = view r) (fuel : Nat)
    (p : Bytes) (r : HttpRequest) : view (headerLoop fuel p r).2 = view r := by
  induction fuel generalizing p r with
  | zero => rfl
  | succ fuel ih =>
    unfold headerLoop
    split
    · rfl
    · split
      · rfl
      · split
        · rfl
        · exact (ih _ _).trans (each r _)

/- The loop reads the lines in order and stops after them. -/
theorem headerLoopLines {fuel : Nat} {ls : List Bytes} {tail : Bytes} (ends : Ends tail) (r : HttpRequest)
    (enough : ls.length < fuel) (each : ∀ l ∈ ls, HeaderLine l) :
    headerLoop fuel (unlines ls ++ tail) r = (afterHead tail,ls.foldl addLine r) := by
  induction ls generalizing fuel r with
  | nil =>
    cases fuel with
    | zero => omega
    | succ fuel => exact headerLoopEnds ends fuel r
  | cons line ls ih =>
    cases fuel with
    | zero => omega
    | succ fuel =>
      have start : unlines (line::ls) ++ tail = line ++ crlf ++ (unlines ls ++ tail) := by
        simp
      obtain ⟨first,more,found⟩ := lineTurn (each line List.mem_cons_self) (unlines ls ++ tail)
      have kept := lineCut line (unlines ls ++ tail)
      have next : (crlf ++ (unlines ls ++ tail)).drop 2 = unlines ls ++ tail := rfl
      rw [start]
      simp only [headerLoop, first, more, if_false, found, kept, next, List.foldl_cons]
      exact ih (addLine r line) (by simp only [List.length_cons] at enough; omega)
        (fun l hl => each l (List.mem_cons_of_mem _ hl))

/- The values of the length lines among those that fit the header array, in order. -/
def lengths (count : Nat) (ls : List Bytes) : List Int :=
  ((ls.filterMap (fun l => field (l.take 1023))).take (maxHeaders - count)).filterMap
    (fun f => if strcasecmpEq f.1 (ascii "Content-Length") then some (atoi f.2) else none)

@[simp] theorem bodyContentLength (malloc raw length p r) :
    (parseBody malloc raw length p r).contentLength = r.contentLength := by
  unfold parseBody
  split <;> rfl

theorem linesCount (ls : List Bytes) : ls.length ≤ (unlines ls).length := by
  induction ls with
  | nil => simp
  | cons l ls ih =>
    simp only [unlinesCons, List.length_append, crlf, List.length_cons, List.length_nil]
    omega

/- The whole parse: the request line decides whether there is a request, the lines after it are
added one by one, and the body is what stands behind them. -/
theorem parseLines {line : Bytes} {ls : List Bytes} {tail : Bytes} (free : CrlfFree line) (nul : (0 : UInt8) ∉ line)
    (each : ∀ l ∈ ls, HeaderLine l) (ends : Ends tail) (malloc : Nat → Bool) (length : Int) :
    httpParseRequest malloc (line ++ crlf ++ (unlines ls ++ tail)) length =
      (parseRequestLine (line.take 1023) httpRequestInit).map (fun r =>
        parseBody malloc (line ++ crlf ++ (unlines ls ++ tail)) length (afterHead tail) (ls.foldl addLine r)) := by
  have found := strstrLine free nul (unlines ls ++ tail)
  have kept := lineCut line (unlines ls ++ tail)
  have next : (crlf ++ (unlines ls ++ tail)).drop 2 = unlines ls ++ tail := rfl
  have fuel : ls.length < (line ++ crlf ++ (unlines ls ++ tail)).length := by
    have many := linesCount ls
    simp only [List.length_append, crlf, List.length_cons, List.length_nil]
    omega
  simp only [httpParseRequest, found, kept, next]
  cases parseRequestLine (line.take 1023) httpRequestInit with
  | none => rfl
  | some r =>
    dsimp only [Option.map_some]
    rw [headerLoopLines ends r fuel each]

/- The request of a head: it holds the fields of the header lines, and the body after the blank line. -/
theorem parsedHead {malloc raw length ls rest req} (head : Head raw ls rest)
    (nul : ∀ l ∈ ls, (0 : UInt8) ∉ l) (ok : httpParseRequest malloc raw length = some req) :
    ∃ r, Keeps r ((stored ls.tail).take maxHeaders) ∧ req = parseBody malloc raw length rest r := by
  have text := headText head
  have free := headFree head
  have nonempty := headTail head
  cases ls with
  | nil => cases head
  | cons line ls =>
    have whole : raw = line ++ crlf ++ (unlines ls ++ (crlf ++ rest)) := by
      rw [text]
      simp
    have each : ∀ l ∈ ls, HeaderLine l := fun l hl =>
      ⟨nonempty l hl,free l (List.mem_cons_of_mem _ hl),nul l (List.mem_cons_of_mem _ hl)⟩
    have ends : Ends (crlf ++ rest) := Or.inl (List.prefix_append _ _)
    rw [whole, parseLines (free line List.mem_cons_self) (nul line List.mem_cons_self) each ends, ← whole] at ok
    obtain ⟨r,parsed,same⟩ := Option.map_eq_some_iff.mp ok
    have keeps := addLinesKeeps (requestLineKeeps parsed) (fun l hl => (each l hl).nul) (fun l hl => (each l hl).free)
      (Nat.zero_le _)
    exact ⟨ls.foldl addLine r,keeps,same.symm⟩

def declared (ls : List Bytes) : Int := (lengths 0 ls).getLastD 0

theorem parsedContentLength {malloc raw length ls rest req} (head : Head raw ls rest)
    (nul : ∀ l ∈ ls, (0 : UInt8) ∉ l) (ok : httpParseRequest malloc raw length = some req) :
    req.contentLength = declared ls.tail := by
  obtain ⟨r,keeps,rfl⟩ := parsedHead head nul ok
  rw [bodyContentLength, keeps.contentLength]
  rfl

end EpollHttpServer.HttpParser
