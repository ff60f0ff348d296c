import EpollHttpServer.Lib.Runs
import Mathlib.Logic.Function.Basic

/-! Many copies of one machine, opened at any time under a key of their own and moved one at a time.
What one copy goes through in a run of them all is a run of the machine alone. -/
namespace Family
open Runs
variable {K I S L : Type} [DecidableEq K]

inductive Move (K I L : Type) where
  | opens (key : K) (i : I)
  | moves (key : K) (label : L)

def step (m : System S L) (fresh : I → S) (u : K → Option S) : Move K I L → Option (K → Option S)
  | .opens key i => match u key with
    | none => some (Function.update u key (some (fresh i)))
    | some _ => none
  | .moves key label => match u key with
    | none => none
    | some x => (m.step x label).map (fun y => Function.update u key (some y))

def family (m : System S L) (fresh : I → S) : System (K → Option S) (Move K I L) where
  start := fun u => u = fun _ => none
  step := step m fresh

def Move.label (key : K) : Move K I L → Option L
  | .opens _ _ => none
  | .moves k label => if k = key then some label else none

/- What happens under one key. -/
def labels (key : K) (ms : List (Move K I L)) : List L := ms.filterMap (Move.label key)

variable {m : System S L} {fresh : I → S} {u v : K → Option S} {key : K} {a : Move K I L}

theorem stepOther (made : step m fresh u a = some v) (none : Move.label key a = none) :
    v key = u key ∨ (u key = .none ∧ ∃ i, v key = some (fresh i)) := by
  cases a with
  | opens k i =>
    simp only [step] at made
    split at made <;> try contradiction
    rename_i free
    cases Option.some.inj made
    by_cases same : key = k
    · subst same
      exact Or.inr ⟨free,i,Function.update_self _ _ _⟩
    · exact Or.inl (Function.update_of_ne same _ _)
  | moves k label =>
    simp only [Move.label] at none
    split at none <;> try contradiction
    rename_i other
    simp only [step] at made
    split at made <;> try contradiction
    obtain ⟨y,_,rfl⟩ := Option.map_eq_some_iff.mp made
    exact Or.inl (Function.update_of_ne (Ne.symm other) _ _)

theorem stepOwn (made : step m fresh u a = some v) {label : L} (mine : Move.label key a = some label) :
    ∃ x y, u key = some x ∧ m.step x label = some y ∧ v key = some y := by
  cases a with
  | opens k i => contradiction
  | moves k l =>
    simp only [Move.label] at mine
    split at mine <;> try contradiction
    rename_i same
    subst same
    cases Option.some.inj mine
    simp only [step] at made
    split at made <;> try contradiction
    rename_i x there
    obtain ⟨y,moved,rfl⟩ := Option.map_eq_some_iff.mp made
    exact ⟨x,y,there,moved,Function.update_self _ _ _⟩

/- A copy that is there goes on as the machine alone would. -/
theorem runThere {ms : List (Move K I L)} (ran : run (family m fresh) u ms = some v) {x : S} (there : u key = some x) :
    ∃ y, v key = some y ∧ run m x (labels key ms) = some y := by
  induction ms generalizing u x with
  | nil =>
    cases Option.some.inj ran
    exact ⟨x,there,rfl⟩
  | cons a ms ih =>
    simp only [run] at ran
    split at ran <;> try contradiction
    rename_i w made
    cases mine : Move.label key a with
    | none =>
      rw [labels, List.filterMap_cons, mine]
      rcases stepOther made mine with same | ⟨absent,_⟩
      · exact ih ran (same.trans there)
      · rw [there] at absent
        contradiction
    | some label =>
      rw [labels, List.filterMap_cons, mine]
      obtain ⟨x',y,held,moved,later⟩ := stepOwn made mine
      rw [there] at held
      cases Option.some.inj held
      simp only [run, moved]
      exact ih ran later

/- One that is not there yet has nothing to go through until it is opened. -/
theorem runAbsent {ms : List (Move K I L)} (ran : run (family m fresh) u ms = some v) (absent : u key = none) :
    labels key ms = [] ∨ ∃ i y, v key = some y ∧ run m (fresh i) (labels key ms) = some y := by
  induction ms generalizing u with
  | nil => exact Or.inl rfl
  | cons a ms ih =>
    simp only [run] at ran
    split at ran <;> try contradiction
    rename_i w made
    cases mine : Move.label key a with
    | none =>
      rw [labels, List.filterMap_cons, mine]
      rcases stepOther made mine with same | ⟨_,i,opened⟩
      · exact ih ran (same.trans absent)
      · obtain ⟨y,there,went⟩ := runThere ran opened
        exact Or.inr ⟨i,y,there,went⟩
    | some label =>
      obtain ⟨x,_,held,_⟩ := stepOwn made mine
      rw [absent] at held
      contradiction

end Family
