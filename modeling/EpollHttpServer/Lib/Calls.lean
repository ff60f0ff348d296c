import Mathlib.Logic.Basic

/-! Programs that call a kernel and cannot choose its answers. What a program meets is computed
along its text, and holds of every way the kernel lets it go. -/
namespace Calls
variable {C : Type} {R : C → Type} {S A B : Type}

inductive Program (C : Type) (R : C → Type) (A : Type) where
  | ret (value : A)
  | call (c : C) (next : R c → Program C R A)

namespace Program

def bind : Program C R A → (A → Program C R B) → Program C R B
  | .ret a,f => f a
  | .call c next,f => .call c (fun r => bind (next r) f)

instance : Monad (Program C R) where
  pure := .ret
  bind := bind

def ask (c : C) : Program C R (R c) := .call c .ret

end Program

/- Which calls are in order, and what each may answer and leave. -/
structure Kernel (C : Type) (R : C → Type) (S : Type) where
  ready : S → C → Prop
  answers : S → (c : C) → R c → S → Prop

inductive Steps (k : Kernel C R S) : Program C R A → S → Program C R A → S → Prop
  | refl {p s} : Steps k p s p s
  | call {c next s r t q u} (answer : k.answers s c r t) (rest : Steps k (next r) t q u) :
      Steps k (.call c next) s q u

/- However the kernel answers: no call out of order, and the result as said. -/
def Sound (k : Kernel C R S) (p : Program C R A) (s : S) (post : A → S → Prop) : Prop :=
  ∀ q t, Steps k p s q t → match q with
    | .ret a => post a t
    | .call c _ => k.ready t c

def Meets (k : Kernel C R S) : Program C R A → S → (A → S → Prop) → Prop
  | .ret a,s,post => post a s
  | .call c next,s,post => k.ready s c ∧ ∀ r t, k.answers s c r t → Meets k (next r) t post

variable {k : Kernel C R S} {s : S}

@[simp] theorem meetsPure {a : A} {post} : Meets k (pure a) s post ↔ post a s := Iff.rfl

@[simp] theorem meetsAsk {c : C} {post} : Meets k (Program.ask c) s post ↔
    k.ready s c ∧ ∀ r t, k.answers s c r t → post r t := Iff.rfl

@[simp] theorem meetsBind {p : Program C R A} {f : A → Program C R B} {post} :
    Meets k (p >>= f) s post ↔ Meets k p s (fun a t => Meets k (f a) t post) := by
  induction p generalizing s with
  | ret a => exact Iff.rfl
  | call c next ih =>
    have later (r : R c) {t} : Meets k (Program.bind (next r) f) t post ↔ _ := ih r
    change (k.ready s c ∧ ∀ r t, _ → Meets k (Program.bind (next r) f) t post) ↔ _
    simp only [later, Meets]

theorem meetsMono {p : Program C R A} {post other : A → S → Prop} (meets : Meets k p s post)
    (weaker : ∀ a t, post a t → other a t) : Meets k p s other := by
  induction p generalizing s with
  | ret a => exact weaker _ _ meets
  | call c next ih =>
    refine ⟨meets.1,?_⟩
    intro r t answer
    exact ih r (meets.2 r t answer)

theorem meetsSteps {p q : Program C R A} {t : S} {post} (meets : Meets k p s post) (steps : Steps k p s q t) :
    Meets k q t post := by
  induction steps with
  | refl => exact meets
  | call answer rest ih => exact ih (meets.2 _ _ answer)

theorem meetsSound {p : Program C R A} {post} (meets : Meets k p s post) : Sound k p s post := by
  intro q t steps
  have still := meetsSteps meets steps
  cases q with
  | ret a => exact still
  | call c next => exact still.1

/- What holds at the start and over every call in order holds wherever the program comes. -/
theorem soundInvariant {I : S → Prop} (keeps : ∀ s c r t, I s → k.ready s c → k.answers s c r t → I t)
    {p q : Program C R A} {t : S} {post} (sound : Sound k p s post) (holds : I s) (steps : Steps k p s q t) : I t := by
  induction steps with
  | refl => exact holds
  | call answer rest ih =>
    refine ih ?_ (keeps _ _ _ _ holds (sound _ _ .refl) answer)
    intro q t later
    exact sound q t (.call answer later)

/- Some way through, for a kernel that answers as one would have it. -/
def May (k : Kernel C R S) : Program C R A → S → (A → S → Prop) → Prop
  | .ret a,s,post => post a s
  | .call c next,s,post => ∃ r t, k.answers s c r t ∧ May k (next r) t post

theorem mayPure {a : A} {post} (met : post a s) : May k (pure a) s post := met

theorem mayBind {p : Program C R A} {f : A → Program C R B} {post} :
    May k (p >>= f) s post ↔ May k p s (fun a t => May k (f a) t post) := by
  induction p generalizing s with
  | ret a => exact Iff.rfl
  | call c next ih =>
    have later (r : R c) {t} : May k (Program.bind (next r) f) t post ↔ _ := ih r
    change (∃ r t, _ ∧ May k (Program.bind (next r) f) t post) ↔ _
    simp only [later, May]

theorem mayMono {p : Program C R A} {post other : A → S → Prop} (may : May k p s post)
    (weaker : ∀ a t, post a t → other a t) : May k p s other := by
  induction p generalizing s with
  | ret a => exact weaker _ _ may
  | call c next ih =>
    obtain ⟨r,t,answer,later⟩ := may
    exact ⟨r,t,answer,ih r later⟩

theorem mayAsk {c : C} {post : R c → S → Prop} (r : R c) (t : S) (answer : k.answers s c r t) (later : post r t) :
    May k (Program.ask c) s post := ⟨r,t,answer,later⟩

theorem mayEnds {p : Program C R A} {post} (may : May k p s post) :
    ∃ a t, Steps k p s (.ret a) t ∧ post a t := by
  induction p generalizing s with
  | ret a => exact ⟨a,s,.refl,may⟩
  | call c next ih =>
    obtain ⟨r,t,answer,later⟩ := may
    obtain ⟨a,u,steps,met⟩ := ih r later
    exact ⟨a,u,.call answer steps,met⟩

/- A kernel that keeps an invariant and answers what is in order: what every way through meets some way does. -/
theorem meetsMay {I : S → Prop} (keeps : ∀ s c r t, I s → k.ready s c → k.answers s c r t → I t)
    (answered : ∀ s c, I s → k.ready s c → ∃ r t, k.answers s c r t) {p : Program C R A} {post}
    (meets : Meets k p s post) (holds : I s) : May k p s post := by
  induction p generalizing s with
  | ret a => exact meets
  | call c next ih =>
    obtain ⟨r,t,answer⟩ := answered s c holds meets.1
    exact ⟨r,t,answer,ih r (meets.2 r t answer) (keeps s c r t holds meets.1 answer)⟩

/- Then the program is stuck nowhere. -/
theorem meetsEnds {I : S → Prop} (keeps : ∀ s c r t, I s → k.ready s c → k.answers s c r t → I t)
    (answered : ∀ s c, I s → k.ready s c → ∃ r t, k.answers s c r t) {p q : Program C R A} {t : S} {post}
    (meets : Meets k p s post) (holds : I s) (steps : Steps k p s q t) : ∃ a u, Steps k q t (.ret a) u ∧ post a u :=
  mayEnds (meetsMay keeps answered (meetsSteps meets steps) (soundInvariant keeps (meetsSound meets) holds steps))

end Calls
