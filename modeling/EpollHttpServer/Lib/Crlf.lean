import EpollHttpServer.Lib.CString

/-! Text in lines that CRLF ends, and heads that a blank line ends. The lines of a head
are read off at the first blank line; a line may hold a bare CR or LF, and NUL. -/
namespace Crlf
open CString

def crlf : Bytes := [13, 10]
def blank : Bytes := crlf ++ crlf

def CrlfFree (s : Bytes) : Prop := ¬ crlf <:+: s
instance (s) : Decidable (CrlfFree s) := by unfold CrlfFree; infer_instance

def lines : Bytes → List Bytes
  | [] => [[]]
  | [b] => [[b]]
  | a::b::rest =>
    if a = 13 ∧ b = 10 then [] :: lines rest
    else match lines (b::rest) with
      | [] => [[a]]
      | line::more => (a::line) :: more

def unlines (ls : List Bytes) : Bytes := (ls.map (· ++ crlf)).flatten

@[simp] theorem unlinesNil : unlines [] = [] := rfl
@[simp] theorem unlinesCons (l : Bytes) (ls : List Bytes) : unlines (l::ls) = l ++ crlf ++ unlines ls := by
  simp [unlines]

/- The lines of s up to its first blank line, and the bytes after that line. -/
inductive Head : Bytes → List Bytes → Bytes → Prop where
  | last {line rest} (free : CrlfFree line) : Head (line ++ crlf ++ crlf ++ rest) [line] rest
  | more {line s ls rest} (free : CrlfFree line) (text : ¬ crlf <+: s) (tail : Head s ls rest) :
      Head (line ++ crlf ++ s) (line::ls) rest

theorem freeNil : CrlfFree [] := by decide

theorem freeCons {a b : UInt8} {rest : Bytes} :
    CrlfFree (a::b::rest) ↔ ¬ (a = 13 ∧ b = 10) ∧ CrlfFree (b::rest) := by
  unfold CrlfFree
  rw [List.infix_cons_iff, not_or]
  refine and_congr_left fun _ => not_congr ?_
  simp only [crlf, List.cons_prefix_cons, List.nil_prefix, and_true]
  exact and_congr eq_comm eq_comm

theorem freeTail {a : UInt8} {s : Bytes} (free : CrlfFree (a::s)) : CrlfFree s :=
  fun inside => free (inside.trans (List.suffix_cons a s).isInfix)

theorem freeOfInfix {s t : Bytes} (free : CrlfFree t) (inside : s <:+: t) : CrlfFree s :=
  fun crlfInside => free (crlfInside.trans inside)

/- A text without CR has no CRLF, whatever it is joined with. -/
theorem freeOfNoCr {s : Bytes} (no : (13 : UInt8) ∉ s) : CrlfFree s := by
  intro inside
  exact no (inside.subset (by simp [crlf]))

theorem crlfAt {line : Bytes} (free : CrlfFree line) (s : Bytes) :
    FirstAt crlf (line ++ crlf ++ s) line.length := by
  induction line with
  | nil => exact ⟨by simp, by simp⟩
  | cons a line ih =>
    have miss : ¬ crlf <+: (a::line) ++ crlf ++ s := by
      cases line with
      | nil => simp [crlf]
      | cons b line =>
        have := (freeCons.mp free).1
        simp only [crlf, List.cons_append, List.cons_prefix_cons, List.nil_prefix, and_true]
        exact fun h => this ⟨h.1.symm, h.2.symm⟩
    exact (firstAtCons miss).mpr (ih (freeTail free))

theorem strstrLine {line : Bytes} (free : CrlfFree line) (nul : (0 : UInt8) ∉ line) (s : Bytes) :
    strstr crlf (line ++ crlf ++ s) = some (crlf ++ s) := by
  have nonempty : crlf ≠ [] := by simp [crlf]
  have h := strstrAt nonempty (crlfAt free s) (by simpa using nul)
  simpa using h

theorem linesMember {s line : Bytes} (member : line ∈ lines s) : ∀ b ∈ line, b ∈ s := by
  fun_induction lines s generalizing line <;> simp_all <;> grind

theorem linesStep {a b : UInt8} {rest line : Bytes} {more : List Bytes} (no : ¬ (a = 13 ∧ b = 10))
    (tail : lines (b::rest) = line::more) : lines (a::b::rest) = (a::line) :: more := by
  simp only [lines, if_neg no, tail]

theorem linesFree {line : Bytes} (free : CrlfFree line) : lines line = [line] := by
  induction line with
  | nil => rfl
  | cons a line ih =>
    cases line with
    | nil => rfl
    | cons b line => exact linesStep (freeCons.mp free).1 (ih (freeTail free))

theorem linesAppend {line : Bytes} (free : CrlfFree line) (s : Bytes) :
    lines (line ++ crlf ++ s) = line :: lines s := by
  induction line with
  | nil => simp [lines, crlf]
  | cons a line ih =>
    cases line with
    | nil => exact linesStep (by simp) (ih freeNil)
    | cons b line => exact linesStep (freeCons.mp free).1 (ih (freeTail free))

theorem headText {s : Bytes} {ls : List Bytes} {rest : Bytes} (head : Head s ls rest) :
    s = unlines ls ++ crlf ++ rest := by
  induction head with
  | last free => simp
  | more free text tail ih => rw [ih]; simp

theorem headFree {s : Bytes} {ls : List Bytes} {rest : Bytes} (head : Head s ls rest) :
    ∀ l ∈ ls, CrlfFree l := by
  induction head with
  | last free => simpa using free
  | more free text tail ih =>
    intro l hl
    rcases List.mem_cons.mp hl with rfl | inside
    · exact free
    · exact ih l inside

/- No line but the first is empty, for the blank line would have come earlier. -/
theorem headTail {s : Bytes} {ls : List Bytes} {rest : Bytes} (head : Head s ls rest) :
    ∀ l ∈ ls.tail, l ≠ [] := by
  have first : ∀ {s ls rest}, Head s ls rest → ¬ crlf <+: s → ∀ l ∈ ls, l ≠ [] := by
    intro s ls rest head
    induction head with
    | @last line rest free =>
      intro start l hl
      rw [List.mem_singleton.mp hl]
      rintro rfl
      exact start (by simp)
    | @more line s ls rest free text tail ih =>
      intro start l hl
      rcases List.mem_cons.mp hl with rfl | inside
      · rintro rfl
        exact start (by simp)
      · exact ih text l inside
  cases head with
  | last free => simp
  | more free text tail => exact first tail text

/- Where CRLF first ends a line, the line before it holds none. -/
theorem crlfSplit {s : Bytes} {e : Nat} (first : FirstAt crlf s e) :
    CrlfFree (s.take e) ∧ s = s.take e ++ crlf ++ s.drop (e+2) := by
  obtain ⟨t, ht⟩ := first.here
  have rest : s.drop (e+2) = t := by
    rw [← List.drop_drop, ← ht]
    simp [crlf]
  refine ⟨?_, ?_⟩
  · rintro ⟨pre, post, eq⟩
    have len := congrArg List.length eq
    simp only [List.length_append, List.length_take, crlf, List.length_cons, List.length_nil] at len
    refine first.before pre.length (by omega) ?_
    have whole : s = pre ++ (crlf ++ (post ++ s.drop e)) := by
      conv => lhs; rw [← List.take_append_drop e s, ← eq]
      simp
    rw [whole, List.drop_left]
    exact List.prefix_append _ _
  · conv => lhs; rw [← List.take_append_drop e s, ← ht, ← rest]
    simp

theorem crlfExists {s : Bytes} (inside : crlf <:+: s) : ∃ e, FirstAt crlf s e := by
  induction s with
  | nil => simp [crlf] at inside
  | cons b s ih =>
    by_cases start : crlf <+: b::s
    · exact ⟨0, by simpa using start, by simp⟩
    · rcases List.infix_cons_iff.mp inside with h | h
      · exact absurd h start
      · obtain ⟨e, first⟩ := ih h
        exact ⟨e+1, (firstAtCons start).mpr first⟩

/- The first blank line ends the head whose lines are those of the text before it. -/
theorem headOfBlank {s : Bytes} {h : Nat} (first : FirstAt blank s h) :
    Head s (lines (s.take h)) (s.drop (h+4)) := by
  induction len : s.length using Nat.strong_induction_on generalizing s h with
  | _ n ih =>
    have atBlank : crlf <+: s.drop h := (List.prefix_append crlf crlf).trans first.here
    obtain ⟨e, line⟩ := crlfExists (atBlank.isInfix.trans (List.drop_suffix h s).isInfix)
    have le : e ≤ h := by
      by_contra gt
      exact line.before h (by omega) atBlank
    obtain ⟨free, split⟩ := crlfSplit line
    have size : e + 2 ≤ s.length := by
      have := line.here.length_le
      simp only [crlf, List.length_cons, List.length_nil, List.length_drop] at this
      omega
    rcases Nat.eq_or_lt_of_le le with rfl | lt
    · obtain ⟨t, ht⟩ := first.here
      have rest : s.drop (e+4) = t := by
        rw [← List.drop_drop, ← ht]
        simp [blank, crlf]
      have whole : s = s.take e ++ crlf ++ crlf ++ s.drop (e+4) := by
        conv => lhs; rw [← List.take_append_drop e s, ← ht, ← rest]
        simp [blank]
      rw [linesFree free]
      conv => arg 1; rw [whole]
      exact Head.last free
    · -- The next line starts at e+2; it is not empty and the blank line is still ahead.
      have far : e + 2 ≤ h := by
        by_contra close
        have eq : h = e + 1 := by omega
        subst eq
        have a := line.here
        have b := atBlank
        rw [show s.drop (e+1) = (s.drop e).drop 1 by simp] at b
        obtain ⟨t, ht⟩ := a
        rw [← ht] at b
        simp [crlf] at b
      have next : FirstAt blank (s.drop (e+2)) (h - (e+2)) := by
        constructor
        · simpa [Nat.add_sub_cancel' far] using first.here
        · intro j hj
          simpa using first.before (e+2+j) (by omega)
      have text : ¬ crlf <+: s.drop (e+2) := by
        intro start
        refine first.before e lt ?_
        obtain ⟨t, ht⟩ := start
        obtain ⟨u, hu⟩ := line.here
        have tail : s.drop (e+2) = u := by
          rw [← List.drop_drop, ← hu]
          simp [crlf]
        exact ⟨t, by rw [blank, List.append_assoc, ht, tail, hu]⟩
      have tail := ih (s.drop (e+2)).length (by simp only [List.length_drop]; omega) next rfl
      have before : s.take h = s.take e ++ crlf ++ (s.drop (e+2)).take (h - (e+2)) := by
        conv => lhs; rw [split]
        rw [List.take_append, List.take_of_length_le (by simp [crlf]; omega)]
        simp only [List.length_append, List.length_take, Nat.min_eq_left (show e ≤ s.length by omega), crlf,
          List.length_cons, List.length_nil]
      rw [before, linesAppend free]
      conv => arg 1; rw [split]
      have past : s.drop (h+4) = (s.drop (e+2)).drop (h - (e+2) + 4) := by
        rw [List.drop_drop]
        congr 1
        omega
      rw [past]
      exact Head.more free text tail

theorem headOfLines {ls : List Bytes} (nonempty : ls ≠ []) (free : ∀ l ∈ ls, CrlfFree l)
    (tail : ∀ l ∈ ls.tail, l ≠ []) (rest : Bytes) : Head (unlines ls ++ crlf ++ rest) ls rest := by
  induction ls with
  | nil => contradiction
  | cons line more ih =>
    cases more with
    | nil =>
      have only : Head (line ++ crlf ++ crlf ++ rest) [line] rest := .last (free line (by simp))
      simpa using only
    | cons next more =>
      have nonempty : next ≠ [] := tail next (by simp)
      have later := ih (by simp) (fun l hl => free l (List.mem_cons_of_mem _ hl))
        (fun l hl => tail l (by simp only [List.tail_cons] at hl ⊢; exact List.mem_cons_of_mem _ hl))
      have text : ¬ crlf <+: unlines (next::more) ++ crlf ++ rest := by
        cases next with
        | nil => contradiction
        | cons a next =>
          intro start
          cases next with
          | nil => simp [crlf] at start
          | cons b next =>
            simp only [unlinesCons, crlf, List.cons_append, List.cons_prefix_cons, List.nil_prefix,
              and_true] at start
            exact (freeCons.mp (free (a::b::next) (by simp))).1 ⟨start.1.symm, start.2.symm⟩
      have := Head.more (free line (by simp)) text later
      simpa [List.append_assoc] using this

theorem lineUnique {line other s t : Bytes} (free : CrlfFree line) (free' : CrlfFree other)
    (same : line ++ crlf ++ s = other ++ crlf ++ t) : line = other ∧ s = t := by
  have here : line.length = other.length := by
    have left := crlfAt free s
    rw [same] at left
    exact firstAtUnique left (crlfAt free' t)
  simp only [List.append_assoc] at same
  obtain ⟨rfl, rest⟩ := List.append_inj same here
  exact ⟨rfl, by simpa using rest⟩

theorem headUnique {s : Bytes} {ls ks : List Bytes} {rest other : Bytes}
    (a : Head s ls rest) (b : Head s ks other) : ls = ks ∧ rest = other := by
  induction a generalizing ks other with
  | @last line rest free =>
    generalize eq : line ++ crlf ++ crlf ++ rest = s at b
    rw [List.append_assoc (line ++ crlf)] at eq
    cases b with
    | last free' =>
      rw [List.append_assoc (_ ++ crlf)] at eq
      obtain ⟨rfl, same⟩ := lineUnique free free' eq
      exact ⟨rfl, by simpa using same⟩
    | more free' text tail =>
      obtain ⟨rfl, rfl⟩ := lineUnique free free' eq
      exact absurd (List.prefix_append _ _) text
  | @more line s' ls rest free text tail ih =>
    generalize eq : line ++ crlf ++ s' = s at b
    cases b with
    | last free' =>
      rw [List.append_assoc (_ ++ crlf)] at eq
      obtain ⟨rfl, rfl⟩ := lineUnique free free' eq
      exact absurd (List.prefix_append _ _) text
    | more free' text' tail' =>
      obtain ⟨rfl, rfl⟩ := lineUnique free free' eq
      obtain ⟨rfl, rfl⟩ := ih tail'
      exact ⟨rfl, rfl⟩

theorem infixCrlf {needle a b : Bytes} (nonempty : needle ≠ []) (cr : (13 : UInt8) ∉ needle)
    (lf : (10 : UInt8) ∉ needle) : needle <:+: a ++ crlf ++ b ↔ needle <:+: a ∨ needle <:+: b := by
  constructor
  · intro inside
    have spread : a ++ crlf ++ b = a ++ 13::([] ++ 10::b) := by simp [crlf]
    rw [spread] at inside
    rcases infixAcross cr inside with left | right
    · exact Or.inl left
    rcases infixAcross lf right with empty | right
    · exact absurd (List.infix_nil.mp empty) nonempty
    · exact Or.inr right
  · rintro (left | right)
    · exact left.trans (List.append_assoc a crlf b ▸ List.infix_append_left)
    · exact right.trans List.infix_append_right

/- A text without CR and LF occurs in a head or after it only inside one line or inside the rest. -/
theorem infixHead {needle : Bytes} (nonempty : needle ≠ []) (cr : (13 : UInt8) ∉ needle)
    (lf : (10 : UInt8) ∉ needle) (ls : List Bytes) (rest : Bytes) :
    needle <:+: unlines ls ++ crlf ++ rest ↔ (∃ l ∈ ls, needle <:+: l) ∨ needle <:+: rest := by
  induction ls with
  | nil =>
    rw [unlinesNil, infixCrlf nonempty cr lf, List.infix_nil]
    simp [nonempty]
  | cons line ls ih =>
    rw [unlinesCons, List.append_assoc, List.append_assoc, ← List.append_assoc (unlines ls),
      infixCrlf nonempty cr lf, ih]
    simp only [List.mem_cons, exists_eq_or_imp, or_assoc]

end Crlf
