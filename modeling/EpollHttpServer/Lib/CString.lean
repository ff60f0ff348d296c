import Mathlib.Data.List.Infix
import Mathlib.Data.List.TakeWhile
import Mathlib.Data.Nat.Digits.Lemmas

/-! Bytes in memory as the C string library reads and writes them. A pointer is the
list of bytes from it to the end of the object; a read past that end finds NUL.
A write past the end of an array shows as a list that grew. -/
namespace CString

abbrev Bytes := List UInt8

def ascii (s : String) : Bytes := s.toList.map (fun c => UInt8.ofNat c.toNat)

def cstr (p : Bytes) : Bytes := p.takeWhile (· != 0)

def isspace (b : UInt8) : Bool := b == 32 || (9 ≤ b && b ≤ 13)
def isdigit (b : UInt8) : Bool := 48 ≤ b && b ≤ 57
def tolower (b : UInt8) : UInt8 := if 65 ≤ b && b ≤ 90 then b + 32 else b

/- The search stops at NUL. A needle without NUL never matches across one. -/
def strstr (needle : Bytes) : Bytes → Option Bytes
  | [] => if needle = [] then some [] else none
  | b::bs =>
    if needle <+: b::bs then some (b::bs)
    else if b = 0 then none
    else strstr needle bs

def strchr (c : UInt8) : Bytes → Option Bytes
  | [] => none
  | b::bs => if b = c then some (b::bs) else if b = 0 then none else strchr c bs

def strrchr (c : UInt8) : Bytes → Option Bytes
  | [] => none
  | b::bs =>
    if b = 0 then none
    else match strrchr c bs with
      | some found => some found
      | none => if b = c then some (b::bs) else none

-- The comparisons answer whether the C function returns 0.
def strcmpEq (a b : Bytes) : Bool := cstr a == cstr b
def strcasecmpEq (a b : Bytes) : Bool := (cstr a).map tolower == (cstr b).map tolower
def strncasecmpEq (a b : Bytes) (n : Nat) : Bool :=
  ((cstr a).take n).map tolower == ((cstr b).take n).map tolower

def digitsValue (acc : Nat) : Bytes → Nat
  | [] => acc
  | b::bs => if isdigit b then digitsValue (acc*10 + (b.toNat - 48)) bs else acc

/- White space, an optional sign, digits; the value saturates at the range of long. -/
def strtol (p : Bytes) : Int :=
  match p.dropWhile isspace with
  | 45::ds => max (-(digitsValue 0 ds : Int)) (-2^63)
  | 43::ds => min (digitsValue 0 ds : Int) (2^63 - 1)
  | ds => min (digitsValue 0 ds : Int) (2^63 - 1)

/- The integer that strtol reads, before it saturates. -/
def written (p : Bytes) : Int :=
  match p.dropWhile isspace with
  | 45::ds => -(digitsValue 0 ds : Int)
  | 43::ds => digitsValue 0 ds
  | ds => digitsValue 0 ds

def wrapInt (z : Int) : Int := z.bmod (2^32)
def atoi (p : Bytes) : Int := wrapInt (strtol p)

/- Of the integer that is written, as a long holds it, the lower 32 bits. -/
def lowerHalf (p : Bytes) : Int := max (-2^63) (min (written p) (2^63 - 1)) % 2^32

def blit (dest : Bytes) (off : Nat) (bs : Bytes) : Bytes :=
  dest.take off ++ bs ++ dest.drop (off + bs.length)

-- Copies at most n bytes and pads with NUL up to n: no terminator when src is longer.
def strncpy (dest src : Bytes) (n : Nat) : Bytes :=
  blit dest 0 ((cstr src).take n ++ List.replicate (n - ((cstr src).take n).length) 0)

-- The bytes that a formatted text leaves in an array of the given size.
def snprintf (dest : Bytes) (size : Nat) (text : Bytes) : Bytes :=
  blit dest 0 (text.take (size - 1) ++ [0])

def decimalNat (n : Nat) : Bytes :=
  if n = 0 then [48] else (Nat.digits 10 n).reverse.map (fun d => UInt8.ofNat (48 + d))
def decimal (z : Int) : Bytes :=
  if z < 0 then 45 :: decimalNat z.natAbs else decimalNat z.natAbs

theorem prefixAcross {needle a b : Bytes} {sep : UInt8} (absent : sep ∉ needle)
    (start : needle <+: a ++ sep::b) : needle <+: a := by
  rcases List.prefix_or_prefix_of_prefix start (List.prefix_append a (sep::b)) with short | ⟨t,ht⟩
  · exact short
  · rw [← ht, List.prefix_append_right_inj] at start
    cases t with
    | nil => exact ⟨[],by simpa using ht.symm⟩
    | cons x t =>
      cases (List.cons_prefix_cons.mp start).1
      exact absurd (by rw [← ht]; simp) absent

/- What lacks the separator lies on one side of it. -/
theorem infixAcross {needle a b : Bytes} {sep : UInt8} (absent : sep ∉ needle)
    (inside : needle <:+: a ++ sep::b) : needle <:+: a ∨ needle <:+: b := by
  induction a with
  | nil =>
    rcases List.infix_cons_iff.mp inside with start | inside
    · exact Or.inl (prefixAcross (a := []) absent start).isInfix
    · exact Or.inr inside
  | cons x a ih =>
    rcases List.infix_cons_iff.mp inside with start | inside
    · exact Or.inl (prefixAcross (a := x::a) absent start).isInfix
    · rcases ih inside with left | right
      · exact Or.inl (List.infix_cons left)
      · exact Or.inr right

theorem cstrFree (p : Bytes) : (0 : UInt8) ∉ cstr p := by
  intro h
  have := List.mem_takeWhile_imp h
  simp at this

theorem cstrPrefix (p : Bytes) : cstr p <+: p := List.takeWhile_prefix _

theorem cstrOfFree {p : Bytes} (free : (0 : UInt8) ∉ p) : cstr p = p := by
  unfold cstr
  rw [List.takeWhile_eq_self_iff]
  intro b hb
  simp only [bne_iff_ne, ne_eq]
  rintro rfl
  exact free hb

theorem cstrAppendNul {s : Bytes} (free : (0 : UInt8) ∉ s) (t : Bytes) : cstr (s ++ 0 :: t) = s := by
  induction s with
  | nil => rfl
  | cons b s ih =>
    simp only [List.mem_cons, not_or] at free
    have nonzero : (b != 0) = true := by simpa using Ne.symm free.1
    simp only [cstr, List.cons_append, List.takeWhile_cons, nonzero, if_true]
    exact congrArg (b :: ·) (ih free.2)

@[simp] theorem blitStart (dest bs : Bytes) : blit dest 0 bs = bs ++ dest.drop bs.length := by
  simp [blit]

theorem blitAfter {a b c : Bytes} {n : Nat} (start : n = a.length) :
    blit (a ++ b) n c = a ++ c ++ b.drop c.length := by
  subst start
  simp [blit, List.drop_append]

theorem cstrSnprintf {text : Bytes} (free : (0 : UInt8) ∉ text) (dest : Bytes) (size : Nat) :
    cstr (snprintf dest size text) = text.take (size - 1) := by
  have cut : (0 : UInt8) ∉ text.take (size - 1) := fun h => free (List.mem_of_mem_take h)
  simp only [snprintf, blitStart, List.append_assoc, List.singleton_append]
  exact cstrAppendNul cut _

/- What a bounded copy writes: exactly n bytes. -/
def padded (src : Bytes) (n : Nat) : Bytes :=
  (cstr src).take n ++ List.replicate (n - ((cstr src).take n).length) 0

theorem strncpyPadded (dest src : Bytes) (n : Nat) : strncpy dest src n = padded src n ++ dest.drop n ∧
    (padded src n).length = n := by
  have size : (padded src n).length = n := by
    have short : ((cstr src).take n).length ≤ n := List.length_take_le n _
    simp only [padded, List.length_append, List.length_replicate]
    omega
  refine ⟨?_,size⟩
  rw [strncpy, ← padded, blitStart, size]

theorem strncpyDrop (dest src : Bytes) (n : Nat) : (strncpy dest src n).drop n = dest.drop n := by
  obtain ⟨form,size⟩ := strncpyPadded dest src n
  rw [form, List.drop_append_of_le_length (Nat.le_of_eq size.symm), List.drop_of_length_le (Nat.le_of_eq size), List.nil_append]

/- The copy is terminated by its padding, or by what stands behind it. -/
theorem cstrStrncpy {dest : Bytes} {n : Nat} (ended : (dest.drop n).headD 0 = 0) (src : Bytes) :
    cstr (strncpy dest src n) = (cstr src).take n := by
  have free : (0 : UInt8) ∉ (cstr src).take n := fun h => cstrFree src (List.mem_of_mem_take h)
  rw [(strncpyPadded dest src n).1, padded]
  cases n - ((cstr src).take n).length with
  | zero =>
    rw [List.replicate_zero, List.append_nil]
    cases rest : dest.drop n with
    | nil => rw [List.append_nil, cstrOfFree free]
    | cons b more =>
      rw [rest] at ended
      have zero : b = 0 := ended
      rw [zero, cstrAppendNul free]
  | succ k =>
    rw [List.replicate_succ, List.append_assoc, List.cons_append, cstrAppendNul free]

/- A NUL that is written ends the string there or leaves it shorter. -/
theorem cstrSet (l : Bytes) (n : Nat) : cstr (l.set n 0) <+: cstr l := by
  induction l generalizing n with
  | nil => exact List.prefix_refl _
  | cons b l ih =>
    cases n with
    | zero => exact List.nil_prefix
    | succ n =>
      by_cases zero : b = 0
      · rw [zero]
        exact List.prefix_refl _
      · have keep : (b != 0) = true := by simpa using zero
        simp only [cstr, List.set_cons_succ, List.takeWhile_cons, keep, if_true]
        exact List.cons_prefix_cons.mpr ⟨rfl,ih n⟩

theorem setEnds (l : Bytes) (n : Nat) : ((l.set n 0).drop n).headD 0 = 0 := by
  induction l generalizing n with
  | nil => cases n <;> rfl
  | cons b l ih =>
    cases n with
    | zero => rfl
    | succ n => exact ih n

/- A bounded copy and the terminator after it: the string, cut to the bound. -/
theorem cstrCopied (dest src : Bytes) (n : Nat) : cstr ((strncpy dest src n).set n 0) = (cstr src).take n := by
  have same : (strncpy dest src n).set n 0 = strncpy (dest.set n 0) src n := by
    obtain ⟨form,size⟩ := strncpyPadded dest src n
    rw [form, (strncpyPadded _ src n).1, List.set_append_right _ _ (Nat.le_of_eq size), size, Nat.sub_self, List.drop_set,
      if_neg (Nat.lt_irrefl n), Nat.sub_self]
  rw [same]
  exact cstrStrncpy (setEnds dest n) src

theorem cstrDrop {p : Bytes} (nonzero : p.headD 0 ≠ 0) : cstr (p.drop 1) = (cstr p).drop 1 := by
  cases p with
  | nil => exact absurd rfl nonzero
  | cons b p =>
    have keep : (b != 0) = true := by simpa using nonzero
    simp [cstr, keep]

/- The needle begins at offset h and at no smaller one. -/
structure FirstAt (needle s : Bytes) (h : Nat) : Prop where
  here : needle <+: s.drop h
  before : ∀ j < h, ¬ needle <+: s.drop j

instance (needle s h) : Decidable (FirstAt needle s h) :=
  decidable_of_iff (needle <+: s.drop h ∧ ∀ j < h, ¬ needle <+: s.drop j)
    ⟨fun f => ⟨f.1,f.2⟩,fun f => ⟨f.here,f.before⟩⟩

theorem firstAtUnique {needle s : Bytes} {h k : Nat} (a : FirstAt needle s h) (b : FirstAt needle s k) :
    h = k := by
  rcases Nat.lt_trichotomy h k with lt | eq | gt
  · exact absurd a.here (b.before h lt)
  · exact eq
  · exact absurd b.here (a.before k gt)

theorem firstAtCons {needle bs : Bytes} {b : UInt8} {h : Nat} (miss : ¬ needle <+: b::bs) :
    FirstAt needle (b::bs) (h+1) ↔ FirstAt needle bs h := by
  constructor
  · intro f
    exact ⟨by simpa using f.here, fun j lt => by simpa using f.before (j+1) (by omega)⟩
  · intro f
    refine ⟨by simpa using f.here, fun j lt => ?_⟩
    cases j with
    | zero => simpa using miss
    | succ j => simpa using f.before j (by omega)

theorem firstAtTake {needle s : Bytes} {n h : Nat} (first : FirstAt needle (s.take n) h) :
    FirstAt needle s h := by
  have part : ∀ j, (s.take n).drop j <+: s.drop j := by
    intro j
    rw [List.drop_take]
    exact List.take_prefix _ _
  refine ⟨first.here.trans (part h),fun j lt start => first.before j lt ?_⟩
  have long := first.here.length_le
  simp only [List.length_drop, List.length_take] at long
  rcases Nat.lt_or_ge (n - j) needle.length with short | enough
  · have empty : needle = [] := List.length_eq_zero_iff.mp (by omega)
    rw [empty]
    exact List.nil_prefix
  · exact List.prefix_of_prefix_length_le start (part j)
      (by simp only [List.length_drop, List.length_take]; omega)

theorem strstrFirst {needle s t : Bytes} (nonempty : needle ≠ []) (found : strstr needle s = some t) :
    ∃ h, FirstAt needle s h ∧ t = s.drop h ∧ (0 : UInt8) ∉ s.take h := by
  induction s with
  | nil => simp [strstr, nonempty] at found
  | cons b bs ih =>
    simp only [strstr] at found
    split at found
    · rename_i starts
      cases Option.some.inj found
      exact ⟨0, ⟨by simpa using starts, by simp⟩, rfl, by simp⟩
    · rename_i miss
      split at found
      · contradiction
      · rename_i nonzero
        obtain ⟨h, first, rest, free⟩ := ih found
        refine ⟨h+1, (firstAtCons miss).mpr first, by simpa using rest, ?_⟩
        simp only [List.take_succ_cons, List.mem_cons, not_or]
        exact ⟨fun e => nonzero e.symm, free⟩

theorem strstrAt {needle s : Bytes} {h : Nat} (nonempty : needle ≠ []) (first : FirstAt needle s h)
    (free : (0 : UInt8) ∉ s.take h) : strstr needle s = some (s.drop h) := by
  induction s generalizing h with
  | nil =>
    have := first.here
    simp [nonempty] at this
  | cons b bs ih =>
    cases h with
    | zero => simp [strstr, show needle <+: b::bs by simpa using first.here]
    | succ h =>
      have miss : ¬ needle <+: b::bs := by simpa using first.before 0 (by omega)
      simp only [List.take_succ_cons, List.mem_cons, not_or] at free
      simp only [strstr, miss, if_false, Ne.symm free.1, List.drop_succ_cons]
      exact ih ((firstAtCons miss).mp first) free.2

theorem strstrByte {c : UInt8} {s : Bytes} (absent : c ∉ s) (free : (0 : UInt8) ∉ s) (t : Bytes) :
    strstr [c] (s ++ c::t) = some (c::t) := by
  induction s with
  | nil => simp [strstr]
  | cons b s ih =>
    simp only [List.mem_cons, not_or] at absent free
    have miss : ¬ [c] <+: b::(s ++ c::t) := by
      rw [List.cons_prefix_cons]
      exact fun h => absent.1 h.1
    simp only [List.cons_append, strstr, miss, if_false, Ne.symm free.1]
    exact ih absent.2 free.2

theorem strstrHidden {needle s : Bytes} {h : Nat} (nonempty : needle ≠ []) (first : FirstAt needle s h)
    (nul : (0 : UInt8) ∈ s.take h) : strstr needle s = none := by
  cases found : strstr needle s with
  | none => rfl
  | some t =>
    obtain ⟨k, other, -, free⟩ := strstrFirst nonempty found
    rw [firstAtUnique other first] at free
    exact absurd nul free

theorem strstrSomeInfix {needle s t : Bytes} (nonempty : needle ≠ []) (found : strstr needle s = some t) :
    needle <:+: s := by
  obtain ⟨h, first, -, -⟩ := strstrFirst nonempty found
  exact first.here.isInfix.trans (List.drop_suffix h s).isInfix

theorem strstrCstrNone {needle s : Bytes} (absent : strstr needle s = none) : ¬ needle <:+: cstr s := by
  induction s with
  | nil => intro inside; simp [strstr, List.infix_nil.mp inside] at absent
  | cons b bs ih =>
    simp only [strstr] at absent
    split at absent
    · contradiction
    · rename_i miss
      split at absent
      · rename_i zero
        subst zero
        intro inside
        rw [show cstr (0::bs) = [] from rfl, List.infix_nil] at inside
        simp [inside] at miss
      · rename_i nonzero
        have keep : cstr (b::bs) = b :: cstr bs := by simp [cstr, nonzero]
        rw [keep, List.infix_cons_iff]
        rintro (start | inside)
        · exact miss (start.trans (List.cons_prefix_cons.mpr ⟨rfl, cstrPrefix bs⟩))
        · exact ih absent inside

theorem strstrAbsent {needle s : Bytes} (nonempty : needle ≠ []) (free : (0 : UInt8) ∉ needle)
    (absent : ¬ needle <:+: cstr s) : strstr needle s = none := by
  induction s with
  | nil => simp [strstr, nonempty]
  | cons b bs ih =>
    have miss : ¬ needle <+: b::bs := by
      rintro ⟨t,whole⟩
      apply absent
      have stays : ∀ c ∈ needle, (c != 0) = true := fun c hc => by simpa using fun (zero : c = 0) => free (zero ▸ hc)
      rw [← whole, cstr, List.takeWhile_append_of_pos stays]
      exact (List.prefix_append _ _).isInfix
    simp only [strstr, if_neg miss]
    split
    · rfl
    · rename_i nonzero
      have keep : cstr (b::bs) = b :: cstr bs := by simp [cstr, nonzero]
      exact ih (fun inside => absent (by rw [keep]; exact inside.trans (List.suffix_cons b _).isInfix))

theorem strchrBreak (c : UInt8) {s : Bytes} (free : (0 : UInt8) ∉ s) :
    strchr c s = if c ∈ s then some (s.dropWhile (· != c)) else none := by
  induction s with
  | nil => rfl
  | cons b bs ih =>
    simp only [List.mem_cons, not_or] at free
    by_cases same : b = c
    · simp [strchr, same]
    · simp only [strchr, same, if_false, Ne.symm free.1, ih free.2, List.mem_cons, Ne.symm same,
        false_or, List.dropWhile_cons, bne_iff_ne, ne_eq, not_false_eq_true, if_true]

theorem strchrFound {c : UInt8} {s t : Bytes} (found : strchr c s = some t) : ∃ rest, t = c::rest ∧ t <:+ s := by
  induction s with
  | nil => contradiction
  | cons b s ih =>
    unfold strchr at found
    split at found
    · rename_i same
      cases Option.some.inj found
      exact ⟨s,by rw [same],List.suffix_refl _⟩
    · split at found <;> try contradiction
      obtain ⟨rest,shape,inside⟩ := ih found
      exact ⟨rest,shape,inside.trans (List.suffix_cons b s)⟩

theorem strrchrSuffix {c : UInt8} {s d : Bytes} (found : strrchr c s = some d) : d <:+ s := by
  induction s with
  | nil => contradiction
  | cons b s ih =>
    simp only [strrchr] at found
    split at found <;> try contradiction
    split at found
    · rename_i inner
      cases Option.some.inj found
      exact (ih inner).trans (List.suffix_cons b s)
    · split at found <;> try contradiction
      cases Option.some.inj found
      exact List.suffix_refl _

theorem strrchrLast {c : UInt8} {s t d : Bytes} (free : (0 : UInt8) ∉ s) (found : strrchr c t = some d) :
    strrchr c (s ++ t) = some d := by
  induction s with
  | nil => exact found
  | cons b s ih =>
    simp only [List.mem_cons, not_or] at free
    simp only [List.cons_append, strrchr, if_neg (Ne.symm free.1), ih free.2]

theorem strrchrNone {c : UInt8} {s : Bytes} (free : (0 : UInt8) ∉ s) : strrchr c s = none ↔ c ∉ s := by
  induction s with
  | nil => exact ⟨fun _ => List.not_mem_nil,fun _ => rfl⟩
  | cons b s ih =>
    simp only [List.mem_cons, not_or] at free
    have later := ih free.2
    simp only [strrchr, if_neg (Ne.symm free.1), List.mem_cons, not_or]
    cases inner : strrchr c s with
    | none =>
      rw [inner] at later
      have absent := later.mp rfl
      by_cases here : b = c
      · simp [here]
      · simp [here, Ne.symm here, absent]
    | some d =>
      rw [inner] at later
      simp only [reduceCtorEq, false_iff] at later ⊢
      exact fun absent => later absent.2

/- The last of a byte in a string: it begins what is found, and does not come again behind it. -/
theorem strrchrFound {c : UInt8} {s d : Bytes} (free : (0 : UInt8) ∉ s) (found : strrchr c s = some d) :
    ∃ stem rest, s = stem ++ d ∧ d = c::rest ∧ c ∉ rest := by
  induction s with
  | nil => contradiction
  | cons b s ih =>
    simp only [List.mem_cons, not_or] at free
    simp only [strrchr, if_neg (Ne.symm free.1)] at found
    split at found
    · rename_i inner
      cases Option.some.inj found
      obtain ⟨stem,rest,whole,shape,last⟩ := ih free.2 inner
      exact ⟨b::stem,rest,congrArg (b :: ·) whole,shape,last⟩
    · rename_i nowhere
      split at found <;> try contradiction
      rename_i here
      cases Option.some.inj found
      exact ⟨[],s,rfl,by rw [here],(strrchrNone free.2).mp nowhere⟩

theorem strrchrAt {c : UInt8} {stem rest : Bytes} (free : (0 : UInt8) ∉ stem ++ c::rest) (last : c ∉ rest) :
    strrchr c (stem ++ c::rest) = some (c::rest) := by
  simp only [List.mem_append, List.mem_cons, not_or] at free
  obtain ⟨before,nonzero,behind⟩ := free
  refine strrchrLast before ?_
  simp only [strrchr, if_neg (Ne.symm nonzero), (strrchrNone behind).mpr last, if_true]

/- A bounded comparison does not see past a byte that its pattern lacks. -/
theorem strncasecmpStop {line needle : Bytes} {n : Nat} {b : UInt8} (free : (0 : UInt8) ∉ line)
    (nonzero : b ≠ 0) (long : ((cstr needle).take n).length = n)
    (absent : tolower b ∉ ((cstr needle).take n).map tolower) (t : Bytes) :
    strncasecmpEq (line ++ b::t) needle n = strncasecmpEq line needle n ∧
      (strncasecmpEq line needle n = true → n ≤ line.length) := by
  have whole : cstr (line ++ b::t) = line ++ b :: cstr t := by
    have all : ∀ c ∈ line, (c != 0) = true := by
      intro c hc
      simp only [bne_iff_ne, ne_eq]
      intro zero
      exact free (zero ▸ hc)
    simp [cstr, List.takeWhile_append_of_pos all, nonzero]
  simp only [strncasecmpEq, whole, cstrOfFree free]
  rcases Nat.lt_or_ge line.length n with short | enough
  · have differ : (line.take n).map tolower ≠ ((cstr needle).take n).map tolower := by
      intro same
      have len := congrArg List.length same
      simp only [List.length_map, long, List.length_take] at len
      omega
    have other : ((line ++ b :: cstr t).take n).map tolower ≠ ((cstr needle).take n).map tolower := by
      intro same
      apply absent
      rw [← same]
      refine List.mem_map.mpr ⟨b,?_,rfl⟩
      rw [List.take_append, List.mem_append]
      obtain ⟨k,hk⟩ : ∃ k, n - line.length = k+1 := ⟨n - line.length - 1,by omega⟩
      exact Or.inr (by simp [hk])
    exact ⟨by rw [beq_eq_false_iff_ne.mpr differ, beq_eq_false_iff_ne.mpr other],
      fun h => absurd (beq_iff_eq.mp h) differ⟩
  · exact ⟨by rw [List.take_append_of_le_length enough],fun _ => enough⟩

theorem digitsValueStop (acc : Nat) (s t : Bytes) (b : UInt8) (stop : isdigit b = false) :
    digitsValue acc (s ++ b :: t) = digitsValue acc s := by
  induction s generalizing acc with
  | nil => simp [digitsValue, stop]
  | cons d ds ih =>
    simp only [List.cons_append, digitsValue]
    split
    · exact ih _
    · rfl

theorem atoiSkip {s t : Bytes} (blank : ∀ b ∈ s, isspace b = true) : atoi (s ++ t) = atoi t := by
  have : (s ++ t).dropWhile isspace = t.dropWhile isspace := List.dropWhile_append_of_pos blank
  simp [atoi, strtol, this]

theorem atoiDropBlank {p : Bytes} {skip : UInt8 → Bool} (blank : ∀ b, skip b = true → isspace b = true) :
    atoi (p.dropWhile skip) = atoi p := by
  conv => rhs; rw [← List.takeWhile_append_dropWhile (p := skip) (l := p)]
  exact (atoiSkip (fun b hb => blank b (List.mem_takeWhile_imp hb))).symm

theorem wrapIntRange {z : Int} (low : -2^31 ≤ z) (high : z < 2^31) : wrapInt z = z := by
  simp only [wrapInt, Int.bmod]
  omega

theorem wrapIntOver {z : Int} (low : 2^31 ≤ z) (high : z < 2^31 + 2^32) : wrapInt z = z - 2^32 := by
  simp only [wrapInt, Int.bmod]
  omega

theorem atoiRange (p : Bytes) : -2^31 ≤ atoi p ∧ atoi p < 2^31 := by
  simp only [atoi, wrapInt, Int.bmod]
  omega

theorem atoiNul (s t : Bytes) : atoi (s ++ 0 :: t) = atoi s := by
  have stop : isdigit 0 = false := by decide
  induction s with
  | nil => simp [atoi, strtol, isspace, digitsValue, stop]
  | cons b bs ih =>
    by_cases blank : isspace b = true
    · have left : atoi ((b::bs) ++ 0 :: t) = atoi (bs ++ 0 :: t) :=
        atoiSkip (s := [b]) (t := bs ++ 0 :: t) (by simpa using blank)
      have right : atoi (b::bs) = atoi bs := atoiSkip (s := [b]) (t := bs) (by simpa using blank)
      rw [left, right, ih]
    · simp only [atoi, strtol, List.cons_append, List.dropWhile_cons, blank, if_false, Bool.false_eq_true]
      by_cases minus : b = 45
      · subst minus
        simp [digitsValueStop, stop]
      · by_cases plus : b = 43
        · subst plus
          simp [digitsValueStop, stop]
        · have whole := digitsValueStop 0 (b::bs) t 0 stop
          simp only [List.cons_append] at whole
          simp [minus, plus, whole]

theorem strtolWritten (p : Bytes) : strtol p = max (-2^63) (min (written p) (2^63 - 1)) := by
  unfold strtol written
  generalize p.dropWhile isspace = text
  split <;> omega

theorem atoiHalf (p : Bytes) :
    atoi p = if lowerHalf p < 2^31 then lowerHalf p else lowerHalf p - 2^32 := by
  rw [atoi, strtolWritten, lowerHalf]
  simp only [wrapInt, Int.bmod]
  omega

theorem halfRange (p : Bytes) : 0 ≤ lowerHalf p ∧ lowerHalf p < 2^32 := by
  unfold lowerHalf
  omega

theorem atoiWritten {p : Bytes} (low : -2^31 ≤ written p) (high : written p < 2^31) : atoi p = written p := by
  rw [atoi, strtolWritten, wrapIntRange (by omega) (by omega)]
  omega

theorem digitText {b : UInt8} (digit : isdigit b = true) : b ≠ 45 ∧ b ≠ 43 ∧ isspace b = false := by
  have range : 48 ≤ b.toNat ∧ b.toNat ≤ 57 := by
    simp only [isdigit, Bool.and_eq_true, decide_eq_true_eq] at digit
    exact ⟨UInt8.le_iff_toNat_le.mp digit.1,UInt8.le_iff_toNat_le.mp digit.2⟩
  have other (c : UInt8) (outside : c.toNat < 48) : b ≠ c := by
    rintro rfl
    omega
  refine ⟨other 45 (by decide),other 43 (by decide),?_⟩
  simp only [isspace, Bool.or_eq_false_iff, beq_eq_false_iff_ne, Bool.and_eq_false_iff, decide_eq_false_iff_not,
    UInt8.le_iff_toNat_le]
  exact ⟨other 32 (by decide),Or.inr (by simp; omega)⟩

/- A text that begins with a digit has no sign and no space in front. -/
theorem writtenStart {v : Bytes} (start : ∀ b, v.head? = some b → isdigit b = true) : written v = digitsValue 0 v := by
  cases v with
  | nil => rfl
  | cons b v =>
    obtain ⟨minus,plus,text⟩ := digitText (start b rfl)
    simp only [written, List.dropWhile_cons, text, Bool.false_eq_true, if_false]
    split
    · rename_i same
      exact absurd (List.cons.inj same).1 minus
    · rename_i same
      exact absurd (List.cons.inj same).1 plus
    · rfl

theorem writtenDigits {v : Bytes} (digits : ∀ b ∈ v, isdigit b = true) : written v = digitsValue 0 v :=
  writtenStart (fun b first => digits b (List.mem_of_mem_head? first))

theorem atoiDigits {v : Bytes} (digits : ∀ b ∈ v, isdigit b = true) (small : digitsValue 0 v < 2^31) :
    atoi v = digitsValue 0 v := by
  have same := writtenDigits digits
  rw [atoiWritten (by omega) (by omega), same]

theorem digitsValueAppend (acc : Nat) {a : Bytes} (digits : ∀ b ∈ a, isdigit b = true) (b : Bytes) :
    digitsValue acc (a ++ b) = digitsValue (digitsValue acc a) b := by
  induction a generalizing acc with
  | nil => rfl
  | cons d a ih =>
    simp only [List.cons_append, digitsValue, digits d List.mem_cons_self, if_true]
    exact ih _ (fun b hb => digits b (List.mem_cons_of_mem _ hb))

theorem digitsValueGrows (acc : Nat) (v : Bytes) : acc ≤ digitsValue acc v := by
  induction v generalizing acc with
  | nil => exact Nat.le_refl _
  | cons d v ih =>
    unfold digitsValue
    split
    · exact Nat.le_trans (by omega) (ih _)
    · exact Nat.le_refl _

/- Only the digits in front count. -/
theorem digitsValueFront (acc : Nat) (v : Bytes) : digitsValue acc (v.takeWhile isdigit) = digitsValue acc v := by
  induction v generalizing acc with
  | nil => rfl
  | cons d v ih =>
    cases digit : isdigit d with
    | true =>
      simp only [List.takeWhile_cons, digit, if_true, digitsValue]
      exact ih _
    | false => simp [digit, digitsValue]

theorem digitsValueTake {v : Bytes} (digits : ∀ b ∈ v, isdigit b = true) (k : Nat) :
    digitsValue 0 (v.take k) ≤ digitsValue 0 v := by
  have front : ∀ b ∈ v.take k, isdigit b = true := fun b hb => digits b (List.mem_of_mem_take hb)
  have split := digitsValueAppend 0 front (v.drop k)
  rw [List.take_append_drop] at split
  rw [split]
  exact digitsValueGrows _ _

/- A digit text that loses its end writes a smaller number, unless the number is 0. -/
theorem digitsValueCut {v : Bytes} (digits : ∀ b ∈ v, isdigit b = true) {k : Nat} (cut : k < v.length) :
    digitsValue 0 (v.take k) = digitsValue 0 v ↔ digitsValue 0 v = 0 := by
  have front : ∀ b ∈ v.take k, isdigit b = true := fun b hb => digits b (List.mem_of_mem_take hb)
  have whole : digitsValue 0 v = digitsValue (digitsValue 0 (v.take k)) (v.drop k) := by
    conv => lhs; rw [← List.take_append_drop k v]
    exact digitsValueAppend 0 front _
  cases rest : v.drop k with
  | nil =>
    have size := congrArg List.length rest
    simp only [List.length_drop, List.length_nil] at size
    omega
  | cons d more =>
    have digit : isdigit d = true := digits d (List.mem_of_mem_drop (by rw [rest]; exact List.mem_cons_self))
    rw [rest] at whole
    simp only [digitsValue, digit, if_true] at whole
    have grows := digitsValueGrows (digitsValue 0 (v.take k) * 10 + (d.toNat - 48)) more
    constructor
    · intro same
      omega
    · intro zero
      omega

@[simp] theorem decimalOfNat (n : Nat) : decimal (n : Int) = decimalNat n := by
  rw [decimal, if_neg (by omega), Int.natAbs_natCast]

theorem decimalNatDigits (n : Nat) : ∀ b ∈ decimalNat n, isdigit b = true := by
  unfold decimalNat
  split
  · intro b hb
    rw [List.mem_singleton.mp hb]
    rfl
  · intro b hb
    simp only [List.mem_map, List.mem_reverse] at hb
    obtain ⟨d, hd, rfl⟩ := hb
    have small := Nat.digits_lt_base (by norm_num : 1 < 10) hd
    interval_cases d <;> decide

end CString
