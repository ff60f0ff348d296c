import EpollHttpServer.HeaderLines

/-! The Content-Length lines of a head, as they were sent and as far as the arrays of the parser hold them; and
the lines that the parser reads of a buffer of any kind, NUL and missing blank line included. -/
namespace EpollHttpServer.HttpParser
open CString Crlf LastWins

/- The value of the last length header that the array has a place for, as its entry keeps it. -/
def lengthValue (ls : List Bytes) : Option Bytes :=
  (((stored ls).take maxHeaders).filterMap (named (ascii "Content-Length") some)).getLast?

theorem declaredValue (ls : List Bytes) : declared ls = ((lengthValue ls).map atoi).getD 0 := by
  have read : lengthOf = fun f => (named (ascii "Content-Length") some f).map atoi := by
    funext f
    unfold lengthOf named
    split <;> rfl
  have kept : declared ls = (((stored ls).take maxHeaders).filterMap lengthOf).getLastD 0 := rfl
  rw [kept, read, ← List.map_filterMap, List.getLastD_eq_getLast?, List.getLast?_map]
  rfl

/- A header line as it was sent: the name before the colon and the value after the blanks, at full length. -/
def sentField (line : Bytes) : Option (Bytes × Bytes) :=
  if 58 ∈ line then
    some (line.takeWhile (· != 58),skipSpaces ((line.dropWhile (· != 58)).drop 1))
  else none

/- The lines that declare a length, each with its value. -/
def lengthLine (line : Bytes) : Option (Bytes × Bytes) :=
  ((sentField line).bind (named (ascii "Content-Length") some)).map (fun value => (line,value))
def lengthLines (ls : List Bytes) : List (Bytes × Bytes) := ls.filterMap lengthLine

/- How much of the value at the end of a line the line buffer and the value array have a place for. -/
def valueRoom (line value : Bytes) : Nat := min 255 (1023 - (line.length - value.length))

theorem sentColon {n : Bytes} (no : (58 : UInt8) ∉ n) (w : Bytes) : sentField (n ++ 58::w) = some (n,skipSpaces w) := by
  obtain ⟨name,rest⟩ := colonParts no w
  rw [sentField, if_pos (by simp), name, rest, List.drop_succ_cons, List.drop_zero]

theorem sentParts {line n v : Bytes} (sent : sentField line = some (n,v)) :
    ∃ w, line = n ++ 58::w ∧ (58 : UInt8) ∉ n ∧ v = skipSpaces w := by
  have colon : 58 ∈ line := by
    unfold sentField at sent
    split at sent <;> try contradiction
    assumption
  obtain ⟨m,w,rfl,no⟩ := List.eq_append_cons_of_mem colon
  rw [sentColon no] at sent
  obtain ⟨rfl,rfl⟩ := Prod.mk.inj (Option.some.inj sent)
  exact ⟨w,rfl,no,rfl⟩

theorem valueShort {line n v : Bytes} (sent : sentField line = some (n,v)) : v.length ≤ line.length := by
  obtain ⟨w,rfl,_,rfl⟩ := sentParts sent
  have short : (skipSpaces w).length ≤ w.length := List.length_dropWhile_le _ _
  simp only [List.length_append, List.length_cons]
  omega

theorem dropWhileTake {w : Bytes} {skip : UInt8 → Bool} (k : Nat) :
    (w.take k).dropWhile skip = (w.dropWhile skip).take (k - (w.length - (w.dropWhile skip).length)) := by
  induction w generalizing k with
  | nil => simp
  | cons b w ih =>
    cases k with
    | zero => simp
    | succ k =>
      have short := List.length_dropWhile_le skip w
      cases blank : skip b with
      | true =>
        simp only [List.take_succ_cons, List.dropWhile_cons, blank, if_true, List.length_cons]
        rw [ih k]
        congr 1
        omega
      | false =>
        simp [blank]

/- The entry of a line: its name and its value are cut where their arrays end, the value also where the
line buffer does. -/
theorem fieldCut {line n v : Bytes} (sent : sentField line = some (n,v)) :
    field (line.take 1023) = if n.length < 1023 then some (n.take 63,v.take (valueRoom line v)) else none := by
  obtain ⟨w,rfl,no,rfl⟩ := sentParts sent
  have short : (skipSpaces w).length ≤ w.length := List.length_dropWhile_le _ _
  split
  · rename_i inside
    have cut : (n ++ 58::w).take 1023 = n ++ 58::w.take (1022 - n.length) := by
      rw [List.take_append, List.take_of_length_le (by omega), show 1023 - n.length = (1022 - n.length) + 1 by omega,
        List.take_succ_cons]
    have kept : skipSpaces (w.take (1022 - n.length)) =
        (skipSpaces w).take (1023 - ((n ++ 58::w).length - (skipSpaces w).length)) := by
      rw [skipSpaces, dropWhileTake]
      congr 1
      simp only [List.length_append, List.length_cons, skipSpaces] at short ⊢
      omega
    rw [cut, fieldColon no, kept, List.take_take, valueRoom]
  · rename_i long
    have cut : (n ++ 58::w).take 1023 = n.take 1023 := List.take_append_of_le_length (by omega)
    rw [cut, field, if_neg (fun h => no (List.mem_of_mem_take h))]

theorem fieldNone {line : Bytes} (sent : sentField line = none) : field (line.take 1023) = none := by
  unfold sentField at sent
  split at sent <;> try contradiction
  rename_i absent
  rw [field, if_neg (fun h => absent (List.mem_of_mem_take h))]

/- A short name is the same name before and after its array cuts it. -/
theorem nameCut {n key : Bytes} (free : (0 : UInt8) ∉ n) (short : (cstr key).length < 63) :
    strcasecmpEq (n.take 63) key = strcasecmpEq n key := by
  have cutFree : (0 : UInt8) ∉ n.take 63 := fun h => free (List.mem_of_mem_take h)
  rcases Nat.lt_or_ge 63 n.length with long | fits
  · have differ (m : Bytes) (size : 63 ≤ m.length) : (m.map tolower == (cstr key).map tolower) = false := by
      refine beq_eq_false_iff_ne.mpr (fun same => ?_)
      have len := congrArg List.length same
      simp only [List.length_map] at len
      omega
    simp only [strcasecmpEq, cstrOfFree free, cstrOfFree cutFree]
    rw [differ n (by omega), differ (n.take 63) (by rw [List.length_take]; omega)]
  · rw [List.take_of_length_le fits]

/- What one line says of the length. -/
theorem lineLength {line : Bytes} (nul : (0 : UInt8) ∉ line) : (field (line.take 1023)).bind lengthOf =
    (lengthLine line).map (fun f => atoi (f.2.take (valueRoom f.1 f.2))) := by
  cases sent : sentField line with
  | none => simp [fieldNone sent, lengthLine, sent]
  | some f =>
    obtain ⟨n,v⟩ := f
    obtain ⟨w,whole,_,_⟩ := sentParts sent
    have free : (0 : UInt8) ∉ n := fun h => nul (by rw [whole]; exact List.mem_append_left _ h)
    have key : (cstr (ascii "Content-Length")).length = 14 := by decide
    have same : strcasecmpEq (n.take 63) (ascii "Content-Length") = strcasecmpEq n (ascii "Content-Length") :=
      nameCut free (by omega)
    rw [fieldCut sent]
    simp only [lengthLine, sent, Option.bind_some, named]
    cases speaks : strcasecmpEq n (ascii "Content-Length") with
    | true =>
      have len := congrArg List.length (beq_iff_eq.mp speaks)
      simp only [List.length_map, cstrOfFree free, key] at len
      rw [if_pos (by omega), Option.bind_some, lengthOf, named, same, speaks]
      rfl
    | false =>
      split
      · rw [Option.bind_some, lengthOf, named, same, speaks]
        rfl
      · rfl

theorem storedCount (ls : List Bytes) : (stored ls).length ≤ (ls.filterMap sentField).length := by
  induction ls with
  | nil => exact Nat.le_refl _
  | cons line ls ih =>
    simp only [stored] at ih
    cases sent : sentField line with
    | none =>
      simp only [stored, List.filterMap_cons, sent, fieldNone sent]
      exact ih
    | some f =>
      simp only [stored, List.filterMap_cons, sent]
      cases field (line.take 1023) with
      | none => exact Nat.le_succ_of_le ih
      | some g => exact Nat.succ_le_succ ih

/- The number the parser keeps is that of the last length line, as far as its arrays hold the value. -/
theorem declaredSent {ls : List Bytes} (nul : ∀ l ∈ ls, (0 : UInt8) ∉ l)
    (count : (ls.filterMap sentField).length ≤ maxHeaders) :
    declared ls = ((lengthLines ls).map (fun f => atoi (f.2.take (valueRoom f.1 f.2)))).getLastD 0 := by
  have all : (stored ls).take maxHeaders = stored ls := List.take_of_length_le ((storedCount ls).trans count)
  have kept : declared ls = ((stored ls).filterMap lengthOf).getLastD 0 := by
    rw [← all]
    rfl
  rw [kept, stored, List.filterMap_filterMap, lengthLines, List.map_filterMap]
  congr 1
  exact List.filterMap_congr (fun line member => lineLength (nul line member))

theorem lengthMember {ls : List Bytes} {line value : Bytes} (member : (line,value) ∈ lengthLines ls) :
    ∃ n, line ∈ ls ∧ sentField line = some (n,value) := by
  obtain ⟨l,here,spoken⟩ := List.mem_filterMap.mp member
  obtain ⟨v,said,pair⟩ := Option.map_eq_some_iff.mp spoken
  obtain ⟨⟨n,w⟩,sent,kept⟩ := Option.bind_eq_some_iff.mp said
  obtain ⟨rfl,rfl⟩ := Prod.mk.inj pair
  have same : w = v := by
    unfold named at kept
    split at kept <;> try contradiction
    exact Option.some.inj kept
  exact ⟨n,here,same ▸ sent⟩

/- The lines of a buffer that CRLF ends before its first NUL; those after the first, up to an empty one; and
the bytes behind them. -/
def endedLines (raw : Bytes) : List Bytes := (lines (cstr raw)).dropLast
def headerLines (raw : Bytes) : List Bytes := (endedLines raw).tail.takeWhile (fun l => !l.isEmpty)
def behindHead (raw : Bytes) : Bytes :=
  afterHead (raw.drop (unlines ((endedLines raw).take 1 ++ headerLines raw)).length)

theorem linesNonempty (s : Bytes) : lines s ≠ [] := by
  fun_cases lines s <;> simp_all

/- A buffer at its first line. -/
theorem endedSplit (raw : Bytes) : (strstr crlf raw = none ∧ endedLines raw = []) ∨
    ∃ line rest, raw = line ++ crlf ++ rest ∧ CrlfFree line ∧ (0 : UInt8) ∉ line ∧
      strstr crlf raw = some (crlf ++ rest) ∧ endedLines raw = line::endedLines rest := by
  have nonempty : crlf ≠ [] := by simp [crlf]
  cases found : strstr crlf raw with
  | none =>
    left
    rw [endedLines, linesFree (strstrCstrNone found)]
    exact ⟨rfl,rfl⟩
  | some t =>
    right
    obtain ⟨h,first,rfl,nul⟩ := strstrFirst nonempty found
    obtain ⟨free,whole⟩ := crlfSplit first
    have text : cstr raw = raw.take h ++ crlf ++ cstr (raw.drop (h+2)) := by
      have stays : ∀ b ∈ raw.take h ++ crlf, (b != 0) = true := by
        intro b hb
        simp only [bne_iff_ne, ne_eq]
        rintro rfl
        rcases List.mem_append.mp hb with front | ends
        · exact nul front
        · exact absurd ends (by decide)
      conv => lhs; rw [whole]
      exact List.takeWhile_append_of_pos stays
    refine ⟨raw.take h,raw.drop (h+2),whole,free,nul,?_,?_⟩
    · conv => lhs; rw [← found, whole]
      exact strstrLine free nul _
    · rw [endedLines, text, linesAppend free, List.dropLast_cons_of_ne_nil (linesNonempty _)]
      rfl

/- What the header loop reads of any text: the lines up to an empty one or to the last that ends before a NUL. -/
theorem loopLines (p : Bytes) : ∃ tail, p = unlines ((endedLines p).takeWhile (fun l => !l.isEmpty)) ++ tail ∧
    (∀ l ∈ (endedLines p).takeWhile (fun l => !l.isEmpty), HeaderLine l) ∧ Ends tail := by
  induction len : p.length using Nat.strong_induction_on generalizing p with
  | _ n ih =>
    rcases endedSplit p with ⟨absent,none⟩ | ⟨line,rest,whole,free,nul,found,ended⟩
    · rw [none]
      exact ⟨p,rfl,by simp,Or.inr absent⟩
    · rw [ended]
      cases line with
      | nil => exact ⟨p,rfl,by simp,Or.inl (by rw [whole]; simp)⟩
      | cons b line =>
        have shorter : rest.length < n := by
          rw [← len, whole]
          simp only [List.length_append, List.length_cons]
          omega
        obtain ⟨tail,split,each,ends⟩ := ih rest.length shorter rest rfl
        refine ⟨tail,?_,?_,ends⟩
        · conv => lhs; rw [whole, split]
          simp
        · intro l hl
          rcases List.mem_cons.mp (by simpa using hl) with rfl | inside
          · exact ⟨List.cons_ne_nil b line,free,nul⟩
          · exact each l inside

/- The parse of any buffer. -/
theorem parseAny (raw : Bytes) : (strstr crlf raw = none ∧ endedLines raw = []) ∨
    ∃ line tail, raw = line ++ crlf ++ (unlines (headerLines raw) ++ tail) ∧ CrlfFree line ∧ (0 : UInt8) ∉ line ∧
      (endedLines raw).head? = some line ∧ (∀ l ∈ headerLines raw, HeaderLine l) ∧ Ends tail ∧
      behindHead raw = afterHead tail := by
  rcases endedSplit raw with absent | ⟨line,rest,whole,free,nul,_,ended⟩
  · exact Or.inl absent
  · right
    have headers : headerLines raw = (endedLines rest).takeWhile (fun l => !l.isEmpty) := by
      rw [headerLines, ended, List.tail_cons]
    obtain ⟨tail,split,each,ends⟩ := loopLines rest
    rw [← headers] at split each
    have text : raw = line ++ crlf ++ (unlines (headerLines raw) ++ tail) := by
      conv => lhs; rw [whole, split]
    refine ⟨line,tail,text,free,nul,by rw [ended]; rfl,each,ends,?_⟩
    have front : unlines ((endedLines raw).take 1 ++ headerLines raw) = line ++ crlf ++ unlines (headerLines raw) := by
      rw [ended]
      simp
    rw [behindHead, front]
    congr 1
    conv => lhs; arg 2; rw [text]
    rw [← List.append_assoc]
    exact List.drop_left

end EpollHttpServer.HttpParser
