import Mathlib.Data.Multiset.MapFold
import Mathlib.Data.Multiset.UnionInter
import Mathlib.Logic.Function.Basic
import Mathlib.Algebra.Order.Group.Multiset
import Mathlib.Tactic.Abel
import Mathlib.Data.List.Nodup

/-! Names that are given out, taken back and given out again, and tokens that carry a
name together with the holder it was given to. Tokens are passed on or dropped, never
copied; a name may be given out again only when no token carries it any more. Then no
token reaches a holder other than its own, and no two tokens reach the same one. -/
namespace Custody
variable {N G : Type}

/- The holders in `retired` have lost their token but are not yet forgotten. -/
structure Ledger (N G : Type) where
  owner : N → Option G
  tokens : Multiset (N × G)
  retired : Multiset G

def Ledger.holders (c : Ledger N G) : Multiset G := c.tokens.map Prod.snd + c.retired

/- Tokens change hands, are dropped or retired, and names are taken back. -/
structure Passes (a b : Ledger N G) : Prop where
  tokens : b.tokens ≤ a.tokens
  holders : b.holders ≤ a.holders
  owner : ∀ n g, b.owner n = some g → a.owner n = some g

/- A free name that no token carries is given to a new holder. -/
structure Issues (a b : Ledger N G) (n : N) (g : G) : Prop where
  free : ∀ t ∈ a.tokens, t.1 ≠ n
  fresh : g ∉ a.holders
  tokens : b.tokens = (n,g) ::ₘ a.tokens
  retired : b.retired = a.retired
  given : b.owner n = some g
  others : ∀ k, k ≠ n → b.owner k = a.owner k

structure Sound (c : Ledger N G) : Prop where
  names : (c.tokens.map Prod.fst).Nodup
  holders : c.holders.Nodup
  agree : ∀ n g h, (n,g) ∈ c.tokens → c.owner n = some h → h = g

theorem emptySound (owner : N → Option G) : Sound ⟨owner,0,0⟩ :=
  ⟨Multiset.nodup_zero,Multiset.nodup_zero,fun _ _ _ carried => absurd carried (Multiset.notMem_zero _)⟩

theorem passSound {a b : Ledger N G} (sound : Sound a) (pass : Passes a b) : Sound b := by
  constructor
  · exact Multiset.nodup_of_le (Multiset.map_le_map pass.tokens) sound.names
  · exact Multiset.nodup_of_le pass.holders sound.holders
  · intro n g h member owned
    exact sound.agree n g h (Multiset.mem_of_le pass.tokens member) (pass.owner n h owned)

theorem issueHolders {a b : Ledger N G} {n : N} {g : G} (issue : Issues a b n g) : b.holders = g ::ₘ a.holders := by
  simp only [Ledger.holders, issue.tokens, issue.retired, Multiset.map_cons, Multiset.cons_add]

theorem issueSound {a b : Ledger N G} {n : N} {g : G} (sound : Sound a) (issue : Issues a b n g) : Sound b := by
  constructor
  · rw [issue.tokens, Multiset.map_cons, Multiset.nodup_cons]
    refine ⟨fun member => ?_,sound.names⟩
    obtain ⟨t,carried,same⟩ := Multiset.mem_map.mp member
    exact issue.free t carried same
  · rw [issueHolders issue, Multiset.nodup_cons]
    exact ⟨issue.fresh,sound.holders⟩
  · intro k h held member owned
    rw [issue.tokens, Multiset.mem_cons] at member
    rcases member with new | old
    · cases new
      rw [issue.given] at owned
      exact (Option.some.inj owned).symm
    · have other : k ≠ n := issue.free (k,h) old
      rw [issue.others k other] at owned
      exact sound.agree k h held old owned

theorem sameHolder {c : Ledger N G} (sound : Sound c) {s t : N × G} (left : s ∈ c.tokens) (right : t ∈ c.tokens)
    (same : s.2 = t.2) : s = t :=
  Multiset.inj_on_of_nodup_map (Multiset.nodup_add.mp sound.holders).1 s left t right same

/- Every token carries a name that its holder still has. -/
def Live (c : Ledger N G) : Prop := ∀ t ∈ c.tokens, c.owner t.1 = some t.2

theorem passLive {a b : Ledger N G} (live : Live a) (pass : Passes a b)
    (kept : ∀ t ∈ b.tokens, b.owner t.1 = a.owner t.1) : Live b := by
  intro t member
  rw [kept t member]
  exact live t (Multiset.mem_of_le pass.tokens member)

theorem issueLive {a b : Ledger N G} {n : N} {g : G} (live : Live a) (issue : Issues a b n g) : Live b := by
  intro t member
  rw [issue.tokens, Multiset.mem_cons] at member
  rcases member with new | old
  · rw [new]
    exact issue.given
  · rw [issue.others _ (issue.free t old)]
    exact live t old

/- When a token is spent, no other one carries its name. -/
theorem spentGone {a b : Ledger N G} (sound : Sound a) {s : N × G} (spent : s ::ₘ b.tokens ≤ a.tokens) :
    ∀ t ∈ b.tokens, t.1 ≠ s.1 := by
  have names := Multiset.nodup_of_le (Multiset.map_le_map spent) sound.names
  rw [Multiset.map_cons, Multiset.nodup_cons] at names
  intro t member same
  exact names.1 (Multiset.mem_map.mpr ⟨t,member,same⟩)

/- Of the parts of a sound ledger no two hold a token of one name or of one holder. -/
theorem partsApart {c : Ledger N G} (sound : Sound c) {x y rest : Multiset (N × G)}
    (parts : c.tokens = x + y + rest) {s t : N × G} (left : s ∈ x) (right : t ∈ y) :
    s.1 ≠ t.1 ∧ s.2 ≠ t.2 := by
  have names := sound.names
  have holders := (Multiset.nodup_add.mp sound.holders).1
  rw [parts, Multiset.map_add, Multiset.map_add] at names holders
  have apartNames := (Multiset.nodup_add.mp (Multiset.nodup_add.mp names).1).2.2
  have apartHolders := (Multiset.nodup_add.mp (Multiset.nodup_add.mp holders).1).2.2
  refine ⟨fun same => ?_,fun same => ?_⟩
  · exact Multiset.disjoint_left.mp apartNames (Multiset.mem_map_of_mem _ left) (same ▸ Multiset.mem_map_of_mem _ right)
  · exact Multiset.disjoint_left.mp apartHolders (Multiset.mem_map_of_mem _ left) (same ▸ Multiset.mem_map_of_mem _ right)

end Custody

/-! A list of threads of which one moves at a time, and what all of them together hold. -/
namespace Crew
variable {T B : Type}

theorem setSelf {l : List T} {w : Nat} {p} (here : l[w]? = some p) (q) : (l.set w q)[w]? = some q := by
  obtain ⟨bound,_⟩ := List.getElem?_eq_some_iff.mp here
  exact List.getElem?_set_self bound

theorem setCases {l : List T} {w i : Nat} {q r} (there : (l.set w q)[i]? = some r) :
    (i = w ∧ r = q) ∨ (i ≠ w ∧ l[i]? = some r) := by
  by_cases same : i = w
  · subst same
    obtain ⟨bound,mine⟩ := List.getElem?_eq_some_iff.mp there
    rw [List.getElem_set_self] at mine
    exact Or.inl ⟨rfl,mine.symm⟩
  · rw [List.getElem?_set_ne (Ne.symm same)] at there
    exact Or.inr ⟨same,there⟩

theorem setAll {P : T → Prop} {l : List T} {w : Nat} {q} (all : ∀ p ∈ l, P p) (moved : P q) : ∀ p ∈ l.set w q, P p := by
  intro p member
  rcases List.mem_or_eq_of_mem_set member with old | rfl
  · exact all p old
  · exact moved

theorem setBefore {l : List T} {w : Nat} {q r} (member : r ∈ l.set w q) (other : q ≠ r) : r ∈ l := by
  rcases List.mem_or_eq_of_mem_set member with old | same
  · exact old
  · exact absurd same.symm other

theorem split {l : List T} {w : Nat} {p} (here : l[w]? = some p) :
    ∃ before after, l = before ++ p::after ∧ ∀ q, l.set w q = before ++ q::after := by
  obtain ⟨bound,same⟩ := List.getElem?_eq_some_iff.mp here
  refine ⟨l.take w,l.drop (w+1),?_,fun q => List.set_eq_take_cons_drop q bound⟩
  rw [← same, List.getElem_cons_drop, List.take_append_drop]

theorem flatMapSplit (f : T → List B) (before : List T) (p : T) (after : List T) :
    (((before ++ p::after).flatMap f : List B) : Multiset B) = f p + (before.flatMap f ++ after.flatMap f : List B) := by
  simp only [List.flatMap_append, List.flatMap_cons, ← Multiset.coe_add]
  exact add_left_comm _ _ _

/- What the moving thread held is exchanged for what it holds then. -/
theorem flatMapMoved {l : List T} {w : Nat} {p} (f : T → List B) (here : l[w]? = some p) (q : T) :
    (f p : Multiset B) + ((l.set w q).flatMap f : List B) = f q + (l.flatMap f : List B) := by
  obtain ⟨before,after,whole,replaced⟩ := split here
  rw [replaced, whole, flatMapSplit, flatMapSplit]
  exact add_left_comm _ _ _

theorem sumMoved {l : List T} {w : Nat} {p} (f : T → Nat) (here : l[w]? = some p) (q : T) :
    f p + ((l.set w q).map f).sum = f q + (l.map f).sum := by
  obtain ⟨before,after,whole,replaced⟩ := split here
  rw [replaced, whole]
  simp only [List.map_append, List.map_cons, List.sum_append, List.sum_cons]
  omega

end Crew

/-! Things that are taken, used and given back: memory, descriptors. It is a fault to take what is
held, and to use or give back what is not. -/
namespace Resources
variable {R : Type} [DecidableEq R]

inductive Use (R : Type) where
  | takes (r : R)
  | touches (r : R)
  | gives (r : R)
  deriving DecidableEq, Repr

/- What is held after one use, or a fault. -/
def use (held : R → Bool) : Use R → Option (R → Bool)
  | .takes r => if held r then none else some (Function.update held r true)
  | .touches r => if held r then some held else none
  | .gives r => if held r then some (Function.update held r false) else none

def useAll (held : R → Bool) : List (Use R) → Option (R → Bool)
  | [] => some held
  | u::us => (use held u).bind (fun left => useAll left us)

variable {held : R → Bool} {r : R}

theorem takesFresh (free : held r = false) (us : List (Use R)) :
    useAll held (.takes r :: us) = useAll (Function.update held r true) us := by
  simp only [useAll, use, free, Bool.false_eq_true, if_false, Option.bind_some]

theorem touchesHeld (there : held r = true) (us : List (Use R)) : useAll held (.touches r :: us) = useAll held us := by
  simp only [useAll, use, there, if_true, Option.bind_some]

theorem givesHeld (there : held r = true) (us : List (Use R)) :
    useAll held (.gives r :: us) = useAll (Function.update held r false) us := by
  simp only [useAll, use, there, if_true, Option.bind_some]

/- Looked at one last time and given back, each once. -/
theorem givesEach {rs : List R} (there : ∀ r ∈ rs, held r = true) (once : rs.Nodup) :
    useAll held (rs.flatMap (fun r => [.touches r,.gives r])) = some (fun r => held r && !rs.contains r) := by
  induction rs generalizing held with
  | nil => simp [useAll]
  | cons r rs ih =>
    obtain ⟨other,once⟩ := List.nodup_cons.mp once
    have mine := there r List.mem_cons_self
    rw [List.flatMap_cons, List.cons_append, touchesHeld mine, List.singleton_append, givesHeld mine, ih ?_ once]
    · refine congrArg some (funext fun k => ?_)
      by_cases same : k = r
      · subst same
        simp
      · simp [same]
    · intro k member
      have differ : k ≠ r := fun same => other (same ▸ member)
      rw [Function.update_of_ne differ]
      exact there k (List.mem_cons_of_mem _ member)

end Resources
