import EpollHttpServer.Lib.Runs

/-! One system seen as another. Each step of the first is an action of the second or nothing at all;
then every run of the first is a run of the second on the actions that are left. -/
namespace Simulation
open Runs
variable {S A T B : Type}

/- Where an action of the first system is nothing in the second, its state there does not change. -/
def Mirrors (n : System T B) (u v : T) : Option B → Prop
  | none => v = u
  | some b => n.step u b = some v

structure Refines (m : System S A) (allowed : S → A → Prop) (n : System T B) (view : S → A → Option B)
    (R : S → T → Prop) : Prop where
  start : ∀ s, m.start s → ∃ u, n.start u ∧ R s u
  step : ∀ s a t u, R s u → allowed s a → m.step s a = some t → ∃ v, Mirrors n u v (view s a) ∧ R t v

/- The actions of the second system that a run of the first one amounts to. -/
def trace (m : System S A) (view : S → A → Option B) : S → List A → List B
  | _,[] => []
  | s,a::as => match m.step s a with
    | none => []
    | some t => (view s a).toList ++ trace m view t as

variable {m : System S A} {allowed : S → A → Prop} {n : System T B} {view : S → A → Option B} {R : S → T → Prop}

theorem mirrorsReach {free} {u v : T} {b : Option B} (before : Reach n free u) (may : ∀ c ∈ b, free u c)
    (mirrors : Mirrors n u v b) : Reach n free v := by
  cases b with
  | none =>
    cases mirrors
    exact before
  | some b => exact before.next (may b rfl) mirrors

/- Where what is allowed in the first system is allowed in the second. -/
theorem reachAllowed (sim : Refines m allowed n view R) {free : T → B → Prop}
    (may : ∀ s a u, R s u → allowed s a → ∀ b ∈ view s a, free u b) {s : S} (reached : Reach m allowed s) :
    ∃ u, Reach n free u ∧ R s u := by
  induction reached with
  | start init =>
    obtain ⟨u,start,related⟩ := sim.start _ init
    exact ⟨u,.start start,related⟩
  | next _ permitted made ih =>
    obtain ⟨u,before,related⟩ := ih
    obtain ⟨v,mirrors,later⟩ := sim.step _ _ _ u related permitted made
    exact ⟨v,mirrorsReach before (may _ _ u related permitted) mirrors,later⟩

theorem reachRefined (sim : Refines m allowed n view R) {s : S} (reached : Reach m allowed s) :
    ∃ u, Reach n (fun _ _ => True) u ∧ R s u :=
  reachAllowed sim (fun _ _ _ _ _ _ _ => trivial) reached

theorem mirrorsRun {u v w : T} {b : Option B} {bs : List B} (mirrors : Mirrors n u v b) (ran : run n v bs = some w) :
    run n u (b.toList ++ bs) = some w := by
  cases b with
  | none =>
    cases mirrors
    exact ran
  | some b =>
    have made : n.step u b = some v := mirrors
    simp only [Option.toList_some, List.singleton_append, run, made, ran]

theorem runRefined (sim : Refines m allowed n view R) {as : List A} {s t : S} {u : T} (related : R s u)
    (follows : Follows m allowed s as) (ran : run m s as = some t) :
    ∃ v, run n u (trace m view s as) = some v ∧ R t v := by
  induction as generalizing s u with
  | nil =>
    cases Option.some.inj ran
    exact ⟨u,rfl,related⟩
  | cons a as ih =>
    simp only [run] at ran
    split at ran <;> try contradiction
    rename_i mid made
    obtain ⟨v,move,later⟩ := sim.step s a mid u related follows.1 made
    obtain ⟨w,rest,final⟩ := ih later (follows.2 mid made) ran
    simp only [trace, made]
    exact ⟨w,mirrorsRun move rest,final⟩

/- Each action of the trace is what some action of the run amounts to. -/
theorem traceSource {s : S} {as : List A} {b : B} (member : b ∈ trace m view s as) : ∃ a ∈ as, ∃ u, view u a = some b := by
  induction as generalizing s with
  | nil => exact absurd member List.not_mem_nil
  | cons a as ih =>
    simp only [trace] at member
    split at member
    · exact absurd member List.not_mem_nil
    · rcases List.mem_append.mp member with here | later
      · exact ⟨a,List.mem_cons_self,s,Option.mem_toList.mp here⟩
      · obtain ⟨c,inside,shown⟩ := ih later
        exact ⟨c,List.mem_cons_of_mem a inside,shown⟩

end Simulation
