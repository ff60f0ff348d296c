import Mathlib.Logic.Basic
import Mathlib.Data.List.Range

/-! Systems that take one action at a time, and their runs. A run may be limited to the
actions that a condition on state and action allows. -/
namespace Runs
variable {S A : Type}

structure System (S A : Type) where
  start : S → Prop
  step : S → A → Option S

inductive Reach (m : System S A) (allowed : S → A → Prop) : S → Prop
  | start {s} (init : m.start s) : Reach m allowed s
  | next {s a t} (before : Reach m allowed s) (may : allowed s a) (made : m.step s a = some t) :
      Reach m allowed t

def run (m : System S A) : S → List A → Option S
  | s,[] => some s
  | s,a::as => match m.step s a with
    | none => none
    | some t => run m t as

/- Every action of the list that is taken is allowed where it is taken. -/
def Follows (m : System S A) (allowed : S → A → Prop) : S → List A → Prop
  | _,[] => True
  | s,a::as => allowed s a ∧ ∀ t, m.step s a = some t → Follows m allowed t as

variable {m : System S A} {allowed : S → A → Prop}

theorem reachInvariant {I : S → Prop} (init : ∀ s, m.start s → I s)
    (keeps : ∀ s a t, I s → allowed s a → m.step s a = some t → I t) {s} (reached : Reach m allowed s) : I s := by
  induction reached with
  | start h => exact init _ h
  | next before may made ih => exact keeps _ _ _ ih may made

/- Where an invariant of the runs makes two conditions agree, the same runs follow them. -/
theorem followsAgree {other : S → A → Prop} {I : S → Prop} (agree : ∀ s a, I s → (allowed s a ↔ other s a))
    (keeps : ∀ s a t, I s → other s a → m.step s a = some t → I t) {s : S} (holds : I s) (as : List A) :
    Follows m allowed s as ↔ Follows m other s as := by
  induction as generalizing s with
  | nil => exact Iff.rfl
  | cons a as ih =>
    constructor
    · intro ⟨may,later⟩
      have may := (agree s a holds).mp may
      exact ⟨may,fun t made => (ih (keeps s a t holds may made)).mp (later t made)⟩
    · intro ⟨may,later⟩
      exact ⟨(agree s a holds).mpr may,fun t made => (ih (keeps s a t holds may made)).mpr (later t made)⟩

theorem reachRun {s t : S} {as : List A} (before : Reach m allowed s) (follows : Follows m allowed s as)
    (ran : run m s as = some t) : Reach m allowed t := by
  induction as generalizing s with
  | nil =>
    cases Option.some.inj ran
    exact before
  | cons a as ih =>
    simp only [run] at ran
    split at ran <;> try contradiction
    rename_i u made
    exact ih (.next before follows.1 made) (follows.2 u made) ran

theorem runAppend {s t : S} {as bs : List A} (ran : run m s as = some t) : run m s (as ++ bs) = run m t bs := by
  induction as generalizing s with
  | nil =>
    cases Option.some.inj ran
    rfl
  | cons a as ih =>
    simp only [run, List.cons_append] at ran ⊢
    split at ran <;> try contradiction
    rename_i u made
    exact ih ran

theorem runInvariant {I : S → Prop} (keeps : ∀ s a t, I s → allowed s a → m.step s a = some t → I t) {s t : S}
    (holds : I s) {as : List A} (follows : Follows m allowed s as) (ran : run m s as = some t) : I t := by
  induction as generalizing s with
  | nil =>
    cases Option.some.inj ran
    exact holds
  | cons a as ih =>
    simp only [run] at ran
    split at ran <;> try contradiction
    rename_i u made
    exact ih (keeps s a u holds follows.1 made) (follows.2 u made) ran

/- A measure that falls with every step bounds the run. -/
theorem runBounded {I : S → Prop} {measure : S → Nat} (keeps : ∀ s a t, I s → allowed s a → m.step s a = some t → I t)
    (falls : ∀ s a t, I s → allowed s a → m.step s a = some t → measure t < measure s) {s t : S} (holds : I s)
    {as : List A} (follows : Follows m allowed s as) (ran : run m s as = some t) :
    as.length + measure t ≤ measure s := by
  induction as generalizing s with
  | nil =>
    cases Option.some.inj ran
    simp
  | cons a as ih =>
    simp only [run] at ran
    split at ran <;> try contradiction
    rename_i u made
    have less := falls s a u holds follows.1 made
    have rest := ih (keeps s a u holds follows.1 made) (follows.2 u made) ran
    rw [List.length_cons]
    omega

theorem reachSeen {B : Type} {s : S} (before : Reach m allowed s) (f : S → B) {b : B} {as : List A}
    (follows : Follows m allowed s as) (seen : (run m s as).map f = some b) :
    ∃ t, Reach m allowed t ∧ f t = b := by
  obtain ⟨t,ran,same⟩ := Option.map_eq_some_iff.mp seen
  exact ⟨t,reachRun before follows ran,same⟩

def decideFollows [∀ s a, Decidable (allowed s a)] : (s : S) → (as : List A) → Decidable (Follows m allowed s as)
  | _,[] => .isTrue trivial
  | s,a::as =>
    if may : allowed s a then
      match made : m.step s a with
      | none => .isTrue ⟨may,fun t made' => by rw [made] at made'; contradiction⟩
      | some t => match decideFollows t as with
        | .isTrue later => .isTrue ⟨may,fun u made' => by rw [made] at made'; cases made'; exact later⟩
        | .isFalse breaks => .isFalse (fun follows => breaks (follows.2 t made))
    else .isFalse (fun follows => may follows.1)

instance [∀ s a, Decidable (allowed s a)] (s : S) (as : List A) : Decidable (Follows m allowed s as) :=
  decideFollows s as

theorem followsEach {P : A → Prop} {as : List A} (each : ∀ a ∈ as, P a) (s : S) : Follows m (fun _ a => P a) s as := by
  induction as generalizing s with
  | nil => trivial
  | cons a as ih =>
    exact ⟨each a List.mem_cons_self,fun t _ => ih (fun b member => each b (List.mem_cons_of_mem a member)) t⟩

theorem followsAll (s : S) (as : List A) : Follows m (fun _ _ => True) s as := by
  induction as generalizing s with
  | nil => trivial
  | cons a as ih => exact ⟨trivial,fun t _ => ih t⟩

end Runs

/-! What holds at some moment of a run. A value that is read while other parties move is stale when
it is used; it was true at a moment between the call and its return. -/
namespace Moments
open Runs
variable {S A : Type} {m : System S A} {allowed : S → A → Prop} {s t : S} {as : List A}

theorem runSnoc {a : A} (ran : run m s as = some t) : run m s (as ++ [a]) = m.step t a := by
  rw [runAppend ran]
  simp only [run]
  cases m.step t a <;> rfl

/- An invariant that may speak of the actions so far. -/
theorem runHistory {J : List A → S → Prop} (init : J [] s)
    (keeps : ∀ as a t u, run m s as = some t → J as t → allowed t a → m.step t a = some u → J (as ++ [a]) u)
    (follows : Follows m allowed s as) (ran : run m s as = some t) : J as t := by
  have onward : ∀ back front x, run m s front = some x → J front x → Follows m allowed x back →
      run m x back = some t → J (front ++ back) t := by
    intro back
    induction back with
    | nil =>
      intro front x _ holds _ rest
      cases Option.some.inj rest
      rw [List.append_nil]
      exact holds
    | cons a back ih =>
      intro front x sofar holds may rest
      simp only [run] at rest
      split at rest <;> try contradiction
      rename_i y made
      have more := ih (front ++ [a]) y ((runSnoc sofar).trans made) (keeps front a x y sofar holds may.1 made)
        (may.2 y made) rest
      rw [List.append_assoc] at more
      exact more
  exact onward as [] s rfl init follows ran

theorem followsWeaken {other : S → A → Prop} (weaker : ∀ s a, allowed s a → other s a)
    (follows : Follows m allowed s as) : Follows m other s as := by
  induction as generalizing s with
  | nil => trivial
  | cons a as ih => exact ⟨weaker s a follows.1,fun t made => ih (follows.2 t made)⟩

theorem followsAlways (each : ∀ a ∈ as, ∀ s, allowed s a) (s : S) : Follows m allowed s as := by
  induction as generalizing s with
  | nil => trivial
  | cons a as ih =>
    exact ⟨each a List.mem_cons_self s,fun t _ => ih (fun b member => each b (List.mem_cons_of_mem a member)) t⟩

/- P holds of the actions taken and of the state, at a moment of the run. -/
def Sometime (m : System S A) (s : S) (as : List A) (P : List A → S → Prop) : Prop :=
  ∃ front back x, as = front ++ back ∧ run m s front = some x ∧ P front x

variable {P : List A → S → Prop}

theorem sometimeNow (ran : run m s as = some t) (holds : P as t) : Sometime m s as P :=
  ⟨as,[],t,(List.append_nil as).symm,ran,holds⟩

theorem sometimeLater (before : Sometime m s as P) (bs : List A) : Sometime m s (as ++ bs) P := by
  obtain ⟨front,back,x,whole,ran,holds⟩ := before
  refine ⟨front,back ++ bs,x,?_,ran,holds⟩
  rw [whole, List.append_assoc]

end Moments

/-! Loops that their environment drives: each turn takes one answer of an endless sequence. A loop is done in
some states and leaves them as they are. -/
namespace Driven
variable {S A : Type} {turn : S → A → S} {done : S → Prop}

def after (turn : S → A → S) (answers : Nat → A) (s : S) : Nat → S
  | 0 => s
  | n+1 => turn (after turn answers s n) (answers n)

/- The answers that n turns take, as a list. -/
def taken (answers : Nat → A) (n : Nat) : List A := (List.range n).map answers

theorem afterTaken (answers : Nat → A) (s : S) (n : Nat) : after turn answers s n = (taken answers n).foldl turn s := by
  induction n with
  | zero => rfl
  | succ n ih =>
    rw [after, ih, taken, taken, List.range_succ, List.map_append, List.foldl_append]
    rfl

theorem always {I : S → Prop} (keeps : ∀ s a, I s → I (turn s a)) (answers : Nat → A) {s : S} (start : I s) (n : Nat) :
    I (after turn answers s n) := by
  induction n with
  | zero => exact start
  | succ n ih => exact keeps _ _ ih

/- A measure that falls in every turn bounds the turns. -/
theorem ends {measure : S → Nat} (falls : ∀ s a, ¬ done s → measure (turn s a) < measure s)
    (answers : Nat → A) (s : S) : ∃ n ≤ measure s, done (after turn answers s n) := by
  by_contra never
  have runs : ∀ n ≤ measure s, ¬ done (after turn answers s n) := fun n bound here => never ⟨n,bound,here⟩
  have falling : ∀ n ≤ measure s + 1, measure (after turn answers s n) + n ≤ measure s := by
    intro n
    induction n with
    | zero => exact fun _ => Nat.le_refl _
    | succ n ih =>
      intro bound
      have before := ih (by omega)
      have less := falls _ (answers n) (runs n (by omega))
      simp only [after]
      omega
  have last := falling (measure s + 1) (Nat.le_refl _)
  omega

end Driven
