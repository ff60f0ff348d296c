import Mathlib.Logic.Function.Basic
import Mathlib.Data.List.Nodup

/-! A queue of linked nodes under a pointer to the first and a pointer to the last one, and the
list that it stands for. The nodes live in a heap that other nodes share. -/
namespace LinkedQueue
variable {A V : Type}

structure Node (A V : Type) where
  value : V
  next : Option A

abbrev Heap (A V : Type) := A → Option (Node A V)

structure Queue (A : Type) where
  head : Option A
  tail : Option A

/- The nodes that are reached from a pointer, up to the null pointer. -/
inductive Chain (heap : Heap A V) : Option A → List (A × V) → Prop
  | nil : Chain heap none []
  | cons {a v next rest} (node : heap a = some ⟨v,next⟩) (later : Chain heap next rest) :
      Chain heap (some a) ((a,v)::rest)

def addresses (cells : List (A × V)) : List A := cells.map Prod.fst

def values (cells : List (A × V)) : List V := cells.map Prod.snd

structure Represents (heap : Heap A V) (q : Queue A) (cells : List (A × V)) : Prop where
  chain : Chain heap q.head cells
  last : q.tail = (addresses cells).getLast?
  distinct : (addresses cells).Nodup

section
variable [DecidableEq A]

/- The new node is already filled, with a null next pointer. -/
def push (heap : Heap A V) (q : Queue A) (a : A) : Heap A V × Queue A :=
  match q.tail with
  | none => (heap,⟨some a,some a⟩)
  | some b => (Function.update heap b ((heap b).map (fun n => {n with next := some a})),⟨q.head,some a⟩)

end

def pop (heap : Heap A V) (q : Queue A) : Option (A × Queue A) :=
  match q.head with
  | none => none
  | some a => (heap a).map (fun n => match n.next with
    | none => (a,⟨none,none⟩)
    | some b => (a,⟨some b,q.tail⟩))

variable {heap other : Heap A V} {q : Queue A} {cells : List (A × V)} {a : A} {v : V}

theorem chainFrame {head} (chain : Chain heap head cells) (same : ∀ b ∈ addresses cells, other b = heap b) :
    Chain other head cells := by
  induction chain with
  | nil => exact .nil
  | cons node later ih =>
    refine .cons ?_ (ih (fun b member => same b (List.mem_cons_of_mem _ member)))
    rw [same _ List.mem_cons_self]
    exact node

theorem chainNode {head} (chain : Chain heap head cells) (member : (a,v) ∈ cells) :
    ∃ next, heap a = some ⟨v,next⟩ := by
  induction chain with
  | nil => exact absurd member List.not_mem_nil
  | cons node later ih =>
    rcases List.mem_cons.mp member with same | member
    · cases same
      exact ⟨_,node⟩
    · exact ih member

theorem representsEmpty (heap : Heap A V) : Represents heap ⟨none,none⟩ [] := ⟨.nil,rfl,List.nodup_nil⟩

theorem representsFrame (repr : Represents heap q cells) (same : ∀ b ∈ addresses cells, other b = heap b) :
    Represents other q cells :=
  ⟨chainFrame repr.chain same,repr.last,repr.distinct⟩

theorem headEmpty (repr : Represents heap q cells) : q.head = none ↔ cells = [] := by
  obtain ⟨head,tail⟩ := q
  cases repr.chain with
  | nil => simp
  | cons node later => simp

theorem tailEmpty (repr : Represents heap q cells) : q.tail = none ↔ cells = [] := by
  rw [repr.last, List.getLast?_eq_none_iff, addresses, List.map_eq_nil_iff]

theorem representsNil (repr : Represents heap q cells) (empty : q.tail = none) : cells = [] ∧ q.head = none :=
  ⟨(tailEmpty repr).mp empty,(headEmpty repr).mpr ((tailEmpty repr).mp empty)⟩

section
variable [DecidableEq A]

/- The last node of a chain gets a successor. -/
theorem chainLink {head b} (chain : Chain heap head cells) (distinct : (addresses cells).Nodup)
    (last : (addresses cells).getLast? = some b) (fresh : a ∉ addresses cells) (node : heap a = some ⟨v,none⟩) :
    Chain (Function.update heap b ((heap b).map (fun n => {n with next := some a}))) head (cells ++ [(a,v)]) := by
  induction chain with
  | nil => contradiction
  | @cons c w next rest here later ih =>
    obtain ⟨new,distinct⟩ := List.nodup_cons.mp distinct
    have differs : a ≠ c := fun same => fresh (same ▸ List.mem_cons_self)
    cases later with
    | nil =>
      have mine : b = c := (Option.some.inj last).symm
      subst mine
      have linked : Function.update heap b ((heap b).map (fun n => {n with next := some a})) b = some ⟨w,some a⟩ := by
        rw [Function.update_self, here]
        rfl
      refine .cons linked (.cons ?_ .nil)
      rw [Function.update_of_ne differs]
      exact node
    | @cons d x after rest there later =>
      have last : (addresses ((d,x)::rest)).getLast? = some b := last
      have member : b ∈ addresses ((d,x)::rest) := List.mem_of_getLast? last
      have apart : c ≠ b := fun same => new (same ▸ member)
      refine .cons ?_ (ih distinct last (fun h => fresh (List.mem_cons_of_mem _ h)))
      rw [Function.update_of_ne apart]
      exact here

theorem pushRepresents (repr : Represents heap q cells) (fresh : a ∉ addresses cells) (node : heap a = some ⟨v,none⟩) :
    Represents (push heap q a).1 (push heap q a).2 (cells ++ [(a,v)]) := by
  unfold push
  cases last : q.tail with
  | none =>
    obtain ⟨rfl,_⟩ := representsNil repr last
    exact ⟨.cons node .nil,rfl,List.nodup_singleton a⟩
  | some b =>
    have there : (addresses cells).getLast? = some b := repr.last.symm.trans last
    refine ⟨chainLink repr.chain repr.distinct there fresh node,?_,?_⟩
    · simp [addresses]
    · rw [addresses, List.map_append]
      exact List.Nodup.append repr.distinct (List.nodup_singleton a) (List.disjoint_singleton.mpr fresh)

/- push writes next pointers only. -/
theorem pushValue (heap : Heap A V) (q : Queue A) (a b : A) :
    ((push heap q a).1 b).map Node.value = (heap b).map Node.value := by
  unfold push
  cases q.tail with
  | none => rfl
  | some c =>
    dsimp only
    by_cases same : b = c
    · rw [same, Function.update_self, Option.map_map]
      rfl
    · rw [Function.update_of_ne same]

end

theorem popRepresents (repr : Represents heap q ((a,v)::cells)) :
    ∃ rest, pop heap q = some (a,rest) ∧ Represents heap rest cells := by
  obtain ⟨chain,last,distinct⟩ := repr
  obtain ⟨head,tail⟩ := q
  cases chain with
  | cons node later =>
    have distinct := (List.nodup_cons.mp distinct).2
    cases later with
    | nil =>
      refine ⟨⟨none,none⟩,?_,.nil,rfl,List.nodup_nil⟩
      simp only [pop, node, Option.map_some]
    | @cons b w next rest there later =>
      refine ⟨⟨some b,tail⟩,?_,.cons there later,last,distinct⟩
      simp only [pop, node, Option.map_some]

theorem popNode {rest : Queue A} (popped : pop heap q = some (a,rest)) : ∃ node, heap a = some node := by
  unfold pop at popped
  split at popped <;> try contradiction
  obtain ⟨node,there,same⟩ := Option.map_eq_some_iff.mp popped
  split at same <;> cases same <;> exact ⟨node,there⟩

end LinkedQueue
