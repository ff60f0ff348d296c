import EpollHttpServer.Lib.CString

/-! Memory accesses that are checked. As in CString a pointer is the list of the bytes from it to the end of
its object; here an access outside of the object, a string without a NUL before the end of the object, and an
int that overflows are faults, and the answer is none. Each access has one lemma: no fault, and the same answer. -/
namespace Checked
open CString

def load (p : Bytes) : Option UInt8 := p.head?

-- A pointer may stand one past the last byte.
def advance (p : Bytes) (n : Nat) : Option Bytes := if n ≤ p.length then some (p.drop n) else none

def store (a : Bytes) (i : Nat) (b : UInt8) : Option Bytes := if i < a.length then some (a.set i b) else none

/- What a function does that reads a string up to its NUL. -/
def reading {α : Type} (p : Bytes) (answer : α) : Option α := if 0 ∈ p then some answer else none

def strstr (needle p : Bytes) : Option (Option Bytes) := reading p (CString.strstr needle p)
def strchr (c : UInt8) (p : Bytes) : Option (Option Bytes) := reading p (CString.strchr c p)
def strlen (p : Bytes) : Option Nat := reading p (cstr p).length
def strcasecmp (p literal : Bytes) : Option Bool := reading p (strcasecmpEq p literal)
def atoi (p : Bytes) : Option Int := reading p (CString.atoi p)

-- The comparison with a literal of n bytes reads n bytes at most.
def strncmp (p literal : Bytes) : Option Bool :=
  if literal.length ≤ p.length ∨ 0 ∈ p then some (decide (literal <+: p)) else none

def strncpy (dest src : Bytes) (n : Nat) : Option Bytes :=
  if n ≤ dest.length ∧ (n ≤ src.length ∨ 0 ∈ src) then some (CString.strncpy dest src n) else none

def memcpy (dest : Bytes) (off : Nat) (src : Bytes) (n : Nat) : Option Bytes :=
  if off + n ≤ dest.length ∧ n ≤ src.length then some (blit dest off (src.take n)) else none

/- snprintf into an array: the text is cut to the size that is passed, and the whole length is an int. -/
def snprintf (dest : Bytes) (size : Nat) (text : Bytes) : Option (Bytes × Nat) :=
  if size ≤ dest.length ∧ text.length < 2^31 then some (CString.snprintf dest size text,text.length) else none

/- An array that was never written holds the bytes that the call writes, and no others. -/
def snprintfFresh (capacity size : Nat) (text : Bytes) : Option (Bytes × Nat) :=
  if size ≤ capacity ∧ text.length < 2^31 then some (CString.snprintf [] size text,text.length) else none

/- The kernel may fill every byte that read offers it. None inside is -1. -/
def read (dest : Bytes) (off n : Nat) (file : Nat → Option Bytes) : Option (Option (Bytes × Nat)) :=
  if off + n ≤ dest.length then some ((file n).map (fun bytes => (blit dest off bytes,bytes.length))) else none

def addInt (a b : Int) : Option Int := if -2^31 ≤ a + b ∧ a + b < 2^31 then some (a + b) else none

-- A negative int is no size.
def toSize (z : Int) : Option Nat := if 0 ≤ z then some z.toNat else none

theorem loadOk {p : Bytes} (ended : 0 ∈ p) : load p = some (p.headD 0) := by
  cases p with
  | nil => contradiction
  | cons b p => rfl

theorem advanceOk {p : Bytes} {n : Nat} (inside : n ≤ p.length) : advance p n = some (p.drop n) := if_pos inside

theorem storeOk {a : Bytes} {i : Nat} (inside : i < a.length) (b : UInt8) : store a i b = some (a.set i b) := if_pos inside

theorem readingOk {α : Type} {p : Bytes} (ended : 0 ∈ p) (answer : α) : reading p answer = some answer := if_pos ended

theorem strncmpOk {p : Bytes} (ended : 0 ∈ p) (literal : Bytes) : strncmp p literal = some (decide (literal <+: p)) :=
  if_pos (Or.inr ended)

theorem strncpyOk {dest src : Bytes} {n : Nat} (room : n ≤ dest.length) (ended : 0 ∈ src) :
    strncpy dest src n = some (CString.strncpy dest src n) := if_pos ⟨room,Or.inr ended⟩

theorem memcpyOk {dest src : Bytes} {off n : Nat} (room : off + n ≤ dest.length) (inside : n ≤ src.length) :
    memcpy dest off src n = some (blit dest off (src.take n)) := if_pos ⟨room,inside⟩

theorem snprintfOk {dest text : Bytes} {size : Nat} (room : size ≤ dest.length) (small : text.length < 2^31) :
    snprintf dest size text = some (CString.snprintf dest size text,text.length) := if_pos ⟨room,small⟩

theorem snprintfFreshOk {capacity size : Nat} {text : Bytes} (room : size ≤ capacity) (small : text.length < 2^31) :
    snprintfFresh capacity size text = some (CString.snprintf [] size text,text.length) := if_pos ⟨room,small⟩

theorem readOk {dest : Bytes} {off n : Nat} (room : off + n ≤ dest.length) (file : Nat → Option Bytes) :
    read dest off n file = some ((file n).map (fun bytes => (blit dest off bytes,bytes.length))) := if_pos room

theorem addIntOk {a b : Int} (low : -2^31 ≤ a + b) (high : a + b < 2^31) : addInt a b = some (a + b) := if_pos ⟨low,high⟩

theorem toSizeOk {z : Int} (sign : 0 ≤ z) : toSize z = some z.toNat := if_pos sign

/- A search never leaves its string: the NUL is still ahead of what it finds. -/
theorem foundEnded {needle p t : Bytes} (nonempty : needle ≠ []) (found : CString.strstr needle p = some t)
    (ended : 0 ∈ p) : needle <+: t ∧ 0 ∈ t ∧ t.length ≤ p.length ∧ 0 ∉ p.take (p.length - t.length) := by
  obtain ⟨h,first,rfl,free⟩ := strstrFirst nonempty found
  refine ⟨first.here,?_,by simp,?_⟩
  · rw [← List.take_append_drop h p, List.mem_append] at ended
    exact ended.resolve_left free
  · intro inside
    refine free ((List.take_subset_take_left p ?_) inside)
    simp only [List.length_drop]
    omega

theorem pastNeedle {needle t : Bytes} (free : (0 : UInt8) ∉ needle) (start : needle <+: t) (ended : 0 ∈ t) :
    needle.length ≤ t.length ∧ 0 ∈ t.drop needle.length := by
  obtain ⟨rest,rfl⟩ := start
  rw [List.mem_append] at ended
  refine ⟨by simp,?_⟩
  rw [List.drop_left]
  exact ended.resolve_left free

theorem storeEnds {a : Bytes} {i : Nat} (inside : i < a.length) : (0 : UInt8) ∈ a.set i 0 :=
  List.mem_set inside 0

theorem strncpyLength {dest : Bytes} {n : Nat} (room : n ≤ dest.length) (src : Bytes) :
    (CString.strncpy dest src n).length = dest.length := by
  obtain ⟨form,size⟩ := strncpyPadded dest src n
  rw [form, List.length_append, size, List.length_drop]
  omega

theorem blitLength {dest bs : Bytes} {off : Nat} (room : off + bs.length ≤ dest.length) :
    (blit dest off bs).length = dest.length := by
  simp only [blit, List.length_append, List.length_take, List.length_drop]
  omega

@[simp] theorem blitNothing (dest : Bytes) (off : Nat) : blit dest off [] = dest := by
  rw [blit, List.append_nil, List.length_nil, Nat.add_zero, List.take_append_drop]

theorem snprintfLength {dest : Bytes} {size : Nat} (positive : 0 < size) (room : size ≤ dest.length) (text : Bytes) :
    (CString.snprintf dest size text).length = dest.length := by
  refine blitLength ?_
  simp only [List.length_append, List.length_take, List.length_singleton]
  omega

/- A text with room for its NUL stands whole at the front of the array. -/
theorem snprintfWhole {text : Bytes} {size : Nat} (fits : text.length < size) (dest : Bytes) :
    (CString.snprintf dest size text).take text.length = text := by
  have kept : text.take (size - 1) = text := List.take_of_length_le (by omega)
  rw [CString.snprintf, kept, blitStart, List.append_assoc, List.take_left]

/- A string in an array reads as its text does, whatever stands behind the NUL. -/
theorem strstrText {needle s : Bytes} (free : (0 : UInt8) ∉ s) (absent : (0 : UInt8) ∉ needle) (nonempty : needle ≠ [])
    (t : Bytes) : CString.strstr needle (s ++ 0::t) = (CString.strstr needle s).map (· ++ 0::t) := by
  induction s with
  | nil =>
    have miss : ¬ needle <+: 0::t := fun start => nonempty (List.prefix_nil.mp (prefixAcross (a := []) absent start))
    simp [CString.strstr, nonempty, miss]
  | cons b s ih =>
    simp only [List.mem_cons, not_or] at free
    have same : needle <+: b::(s ++ 0::t) ↔ needle <+: b::s :=
      ⟨fun start => prefixAcross (a := b::s) absent start,fun start => start.trans (List.prefix_append (b::s) _)⟩
    simp only [List.cons_append, CString.strstr, same, Ne.symm free.1, if_false]
    split
    · rfl
    · exact ih free.2

theorem strchrText {c : UInt8} {s : Bytes} (free : (0 : UInt8) ∉ s) (other : c ≠ 0) (t : Bytes) :
    CString.strchr c (s ++ 0::t) = (CString.strchr c s).map (· ++ 0::t) := by
  induction s with
  | nil => simp [CString.strchr, Ne.symm other]
  | cons b s ih =>
    simp only [List.mem_cons, not_or] at free
    simp only [List.cons_append, CString.strchr, Ne.symm free.1, if_false]
    split
    · rfl
    · exact ih free.2

theorem strncpyText {s : Bytes} (free : (0 : UInt8) ∉ s) (dest t : Bytes) (n : Nat) :
    CString.strncpy dest (s ++ 0::t) n = CString.strncpy dest s n := by
  simp only [CString.strncpy, cstrAppendNul free, cstrOfFree free]

/- The first n bytes of a string, in front of what the array held, with a terminator. -/
theorem copiedFront {dest p : Bytes} {n : Nat} (room : n < dest.length) (inside : n ≤ p.length)
    (free : (0 : UInt8) ∉ p.take n) : (CString.strncpy dest p n).set n 0 = p.take n ++ 0::dest.drop (n+1) := by
  have front : (cstr p).take n = p.take n := by
    conv => lhs; rw [← List.take_append_drop n p]
    have all : ∀ b ∈ p.take n, (b != 0) = true := by
      intro b hb
      simp only [bne_iff_ne, ne_eq]
      rintro rfl
      exact free hb
    rw [cstr, List.takeWhile_append_of_pos all]
    exact List.take_left' (List.length_take_of_le inside)
  have size : (p.take n).length = n := List.length_take_of_le inside
  rw [(strncpyPadded dest p n).1, padded, front, size, Nat.sub_self, List.replicate_zero, List.append_nil,
    List.set_append_right _ _ (Nat.le_of_eq size), size, Nat.sub_self, List.drop_eq_getElem_cons room, List.set_cons_zero]

end Checked
