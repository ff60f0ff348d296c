import EpollHttpServer.Lib.Crlf

/-! An HTTP/1.1 message as a status line, fields and a body, its text, and the reader
that a peer on a persistent connection uses to find where the message ends. -/
namespace HttpMessage
open CString Crlf

structure Field where
  name : Bytes
  value : Bytes
  deriving DecidableEq, Repr

structure Message where
  status : Bytes
  fields : List Field
  body : Bytes
  deriving DecidableEq, Repr

def Field.line (f : Field) : Bytes := f.name ++ [58, 32] ++ f.value
def Message.head (m : Message) : List Bytes := m.status :: m.fields.map Field.line
def Message.render (m : Message) : Bytes := unlines m.head ++ crlf ++ m.body

structure WellFormed (m : Message) : Prop where
  status : CrlfFree m.status
  names : ∀ f ∈ m.fields, (58 : UInt8) ∉ f.name
  lines : ∀ f ∈ m.fields, CrlfFree f.line

def splitBlank : Bytes → Option (Bytes × Bytes)
  | [] => none
  | b::bs =>
    if blank <+: b::bs then some ([], (b::bs).drop 4)
    else match splitBlank bs with
      | some (head, rest) => some (b::head, rest)
      | none => none

def readField (line : Bytes) : Option Field :=
  match line.dropWhile (· != 58) with
  | 58::32::value => some ⟨line.takeWhile (· != 58), value⟩
  | _ => none

def readFields : List Bytes → Option (List Field)
  | [] => some []
  | line::ls => do
    let f ← readField line
    let fs ← readFields ls
    some (f::fs)

def parse (raw : Bytes) : Option Message := do
  let (head, body) ← splitBlank raw
  match lines head with
  | [] => none
  | status::ls =>
    let fields ← readFields ls
    some ⟨status, fields, body⟩

def Message.values (m : Message) (name : Bytes) : List Bytes :=
  (m.fields.filter (fun f => f.name == name)).map Field.value

def readDecimal (v : Bytes) : Option Nat :=
  if v ≠ [] ∧ v.all isdigit then some (digitsValue 0 v) else none

-- A repeated or missing length delimits nothing.
def Message.contentLength (m : Message) : Option Nat :=
  match m.values (ascii "Content-Length") with
  | [v] => readDecimal v
  | _ => none

/- The text is one message and its length field counts the bytes after the blank line. -/
def SelfDelimiting (raw : Bytes) : Prop :=
  ∃ m, parse raw = some m ∧ ascii "HTTP/1.1 " <+: m.status ∧ m.contentLength = some m.body.length

theorem splitAtBlank {s : Bytes} {h : Nat} (first : FirstAt blank s h) :
    splitBlank s = some (s.take h, s.drop (h+4)) := by
  induction s generalizing h with
  | nil => exact absurd first.here (by simp [blank, crlf])
  | cons b bs ih =>
    cases h with
    | zero => simp [splitBlank, show blank <+: b::bs by simpa using first.here]
    | succ h =>
      have miss : ¬ blank <+: b::bs := by simpa using first.before 0 (by omega)
      simp [splitBlank, miss, ih ((firstAtCons miss).mp first)]

theorem blankExists {s : Bytes} (inside : blank <:+: s) : ∃ h, FirstAt blank s h := by
  induction s with
  | nil => simp [blank, crlf] at inside
  | cons b s ih =>
    by_cases start : blank <+: b::s
    · exact ⟨0, by simpa using start, by simp⟩
    · rcases List.infix_cons_iff.mp inside with h | h
      · exact absurd h start
      · obtain ⟨e, first⟩ := ih h
        exact ⟨e+1, (firstAtCons start).mpr first⟩

theorem headBlank {s : Bytes} {ls : List Bytes} {rest : Bytes} (head : Head s ls rest) : blank <:+: s := by
  induction head with
  | @last line rest free => exact ⟨line, rest, by simp [blank]⟩
  | @more line s ls rest free text tail ih => exact ih.trans (List.suffix_append (line ++ crlf) s).isInfix

theorem splitHead {s : Bytes} {ls : List Bytes} {rest : Bytes} (head : Head s ls rest) :
    ∃ text, splitBlank s = some (text, rest) ∧ lines text = ls := by
  obtain ⟨h, first⟩ := blankExists (headBlank head)
  obtain ⟨rfl, rfl⟩ := headUnique head (headOfBlank first)
  exact ⟨s.take h, splitAtBlank first, rfl⟩

theorem readLine {f : Field} (name : (58 : UInt8) ∉ f.name) : readField f.line = some f := by
  have before : ∀ b ∈ f.name, (b != 58) = true := by
    intro b hb
    simp only [bne_iff_ne, ne_eq]
    rintro rfl
    exact name hb
  have split : f.line = f.name ++ (58 :: 32 :: f.value) := by simp [Field.line]
  unfold readField
  rw [split, List.dropWhile_append_of_pos before, List.takeWhile_append_of_pos before]
  simp

theorem readLines {fs : List Field} (names : ∀ f ∈ fs, (58 : UInt8) ∉ f.name) :
    readFields (fs.map Field.line) = some fs := by
  induction fs with
  | nil => rfl
  | cons f fs ih =>
    simp only [List.map_cons, readFields, readLine (names f (by simp)),
      ih (fun g hg => names g (List.mem_cons_of_mem _ hg)), bind, Option.bind]

theorem renderHead {m : Message} (wf : WellFormed m) : Head m.render m.head m.body := by
  refine headOfLines (by simp [Message.head]) ?_ ?_ m.body
  · intro l hl
    rcases List.mem_cons.mp hl with rfl | inside
    · exact wf.status
    · obtain ⟨f, hf, rfl⟩ := List.mem_map.mp inside
      exact wf.lines f hf
  · intro l hl
    obtain ⟨f, -, rfl⟩ := List.mem_map.mp (by simpa [Message.head] using hl : l ∈ m.fields.map Field.line)
    simp [Field.line]

/- The reader gets the message back, whatever bytes its body holds. -/
theorem parseRender {m : Message} (wf : WellFormed m) : parse m.render = some m := by
  obtain ⟨text, split, same⟩ := splitHead (renderHead wf)
  simp only [parse, split, same, Message.head, readLines wf.names, bind, Option.bind]

theorem selfDelimitingRender {m : Message} (wf : WellFormed m) :
    SelfDelimiting m.render ↔
      ascii "HTTP/1.1 " <+: m.status ∧ m.contentLength = some m.body.length := by
  simp only [SelfDelimiting, parseRender wf, Option.some.injEq, exists_eq_left']

theorem digitsFold (acc : Nat) (ds : List Nat) (small : ∀ d ∈ ds, d < 10) :
    digitsValue acc (ds.map (fun d => UInt8.ofNat (48 + d))) = ds.foldl (fun a d => a*10 + d) acc := by
  induction ds generalizing acc with
  | nil => rfl
  | cons d ds ih =>
    have lt := small d (by simp)
    have digit : isdigit (UInt8.ofNat (48 + d)) = true := by interval_cases d <;> decide
    have value : (UInt8.ofNat (48 + d)).toNat - 48 = d := by interval_cases d <;> decide
    simp only [List.map_cons, digitsValue, digit, if_true, value, List.foldl_cons]
    exact ih _ (fun e he => small e (List.mem_cons_of_mem _ he))

theorem decimalNatValue (n : Nat) : digitsValue 0 (decimalNat n) = n := by
  unfold decimalNat
  split
  · rename_i zero
    subst zero
    decide
  · rw [digitsFold]
    · rw [List.foldl_reverse]
      conv => rhs; rw [← Nat.ofDigits_digits 10 n, Nat.ofDigits_eq_foldr]
      simp [Nat.mul_comm, Nat.add_comm]
    · intro d hd
      exact Nat.digits_lt_base (by norm_num) (List.mem_reverse.mp hd)

theorem decimalNatNonempty (n : Nat) : decimalNat n ≠ [] := by
  unfold decimalNat
  split
  · simp
  · rename_i positive
    simp [Nat.digits_ne_nil_iff_ne_zero, positive]

@[simp] theorem readDecimalNat (n : Nat) : readDecimal (decimalNat n) = some n := by
  have all : (decimalNat n).all isdigit = true := List.all_eq_true.mpr (decimalNatDigits n)
  simp [readDecimal, decimalNatNonempty, all, decimalNatValue]

end HttpMessage
