import EpollHttpServer.StatusAnswers
import Mathlib.Data.Finset.Card

/-! The race on server_start_time: a worker that finds it zero reads the clock and stores, and others may
do so in between. -/
namespace EpollHttpServer.StartTime
open CString HttpParser FileSystem Worker Ownership Counters StatusAnswers
open Runs Moments
open Server hiding State Action Turn Step step initial stepSound

/- Between the test of server_start_time and the store. -/
def inRace : CallPc → Bool
  | .timing => true
  | .storing _ => true
  | _ => false

def racing (calls : Nat → Option Call) (w : Nat) : Bool := (calls w).any (fun call => inRace call.pc)

def racers (n : Nat) (calls : Nat → Option Call) : Finset Nat := (Finset.range n).filter (fun w => racing calls w = true)

def stores (as : List Action) : Nat := as.countP Action.stores

/- The stores so far and those still to come are at most one for each worker, and each stores a time
that the clock has shown. -/
structure Settling (m : System State Action) (start : State) (n : Nat) (as : List Action) (s : State) : Prop where
  unset : s.serverStartTime = 0 ↔ stores as = 0
  added : 0 < adds as → s.serverStartTime ≠ 0
  bound : stores as + (racers n s.calls).card ≤ n
  stored : s.serverStartTime ≠ 0 → Sometime m start as (fun _ x => s.serverStartTime = Int64.ofInt x.server.clock)
  storing : ∀ w call z, s.calls w = some call → call.pc = .storing z →
    Sometime m start as (fun _ x => z = Int64.ofInt x.server.clock)

section
variable {config : ServerConfig} {own : Nat → Bool} {s t u start : State} {a : Action} {as : List Action} {n : Nat}

theorem storesSnoc (as : List Action) (a) : stores (as ++ [a]) = stores as + if Action.stores a then 1 else 0 := by
  simp only [stores, List.countP_append, List.countP_singleton]

theorem racingSelf (calls : Nat → Option Call) (w : Nat) (new) :
    racing (Function.update calls w new) w = new.any (fun call => inRace call.pc) := by
  rw [racing, Function.update_self]

theorem racingOther {calls : Nat → Option Call} {v w : Nat} (differ : v ≠ w) (new) :
    racing (Function.update calls w new) v = racing calls v := by
  rw [racing, racing, Function.update_of_ne differ]

theorem racersShrink {calls : Nat → Option Call} {w : Nat} {new : Option Call}
    (quiet : new.any (fun call => inRace call.pc) = true → racing calls w = true) :
    racers n (Function.update calls w new) ⊆ racers n calls := by
  intro v there
  obtain ⟨inside,races⟩ := Finset.mem_filter.mp there
  refine Finset.mem_filter.mpr ⟨inside,?_⟩
  by_cases same : v = w
  · subst same
    rw [racingSelf] at races
    exact quiet races
  · rw [racingOther same] at races
    exact races

theorem racersLess {calls : Nat → Option Call} {w : Nat} {new : Option Call} (below : w < n)
    (raced : racing calls w = true) (done : new.any (fun call => inRace call.pc) = false) :
    racers n (Function.update calls w new) ⊂ racers n calls := by
  have mine : w ∈ racers n calls := Finset.mem_filter.mpr ⟨Finset.mem_range.mpr below,raced⟩
  refine Finset.ssubset_iff_subset_ne.mpr ⟨racersShrink (fun _ => raced),fun same => ?_⟩
  rw [← same] at mine
  have races := (Finset.mem_filter.mp mine).2
  rw [racingSelf, done] at races
  contradiction

theorem racersFew (n : Nat) (calls) : (racers n calls).card ≤ n :=
  le_of_le_of_eq (Finset.card_filter_le _ _) (Finset.card_range n)

/- What the others are about to store, they still are. -/
theorem storingStays {m : System State Action} (settling : Settling m start n as s) {w : Nat} {new : Option Call}
    (mine : ∀ call z, new = some call → call.pc = .storing z →
      Sometime m start (as ++ [a]) (fun _ x => z = Int64.ofInt x.server.clock)) :
    ∀ v call z, Function.update s.calls w new v = some call → call.pc = .storing z →
      Sometime m start (as ++ [a]) (fun _ x => z = Int64.ofInt x.server.clock) := by
  intro v call z there storing
  by_cases same : v = w
  · subst same
    rw [Function.update_self] at there
    exact mine call z there storing
  · rw [Function.update_of_ne same] at there
    exact sometimeLater (settling.storing v call z there storing) [a]

theorem silentStays {m : System State Action} (settling : Settling m start n as s) {w : Nat} {new : Option Call}
    (quiet : new.any (fun call => inRace call.pc) = false) :
    ∀ v call z, Function.update s.calls w new v = some call → call.pc = .storing z →
      Sometime m start (as ++ [a]) (fun _ x => z = Int64.ofInt x.server.clock) := by
  refine storingStays settling (fun call z mine storing => ?_)
  rw [mine, Option.any_some, storing] at quiet
  contradiction

theorem boundStays {m : System State Action} (settling : Settling m start n as s) {w : Nat} {new : Option Call}
    (quiet : new.any (fun call => inRace call.pc) = true → racing s.calls w = true) :
    stores as + (racers n (Function.update s.calls w new)).card ≤ n :=
  le_trans (Nat.add_le_add_left (Finset.card_le_card (racersShrink quiet)) _) settling.bound

/- What a step that neither adds nor stores leaves of it. -/
theorem settlingQuiet {m : System State Action} (settling : Settling m start n as s) (adds' : Action.adds a = false)
    (stores' : Action.stores a = false) (unchanged : t.serverStartTime = s.serverStartTime)
    (fewer : stores as + (racers n t.calls).card ≤ n)
    (storing : ∀ w call z, t.calls w = some call → call.pc = .storing z →
      Sometime m start (as ++ [a]) (fun _ x => z = Int64.ofInt x.server.clock)) :
    Settling m start n (as ++ [a]) t := by
  have added : adds (as ++ [a]) = adds as := by rw [addsSnoc, adds']; rfl
  have stored : stores (as ++ [a]) = stores as := by rw [storesSnoc, stores']; rfl
  refine ⟨?_,?_,?_,fun there => ?_,storing⟩
  · rw [stored, unchanged]
    exact settling.unset
  · rw [added, unchanged]
    exact settling.added
  · rw [stored]
    exact fewer
  · rw [unchanged] at there ⊢
    exact sometimeLater (settling.stored there) [a]

/- A call in which worker w is about to store nothing comes, goes or goes on. -/
theorem settlingCalls {m : System State Action} (settling : Settling m start n as s) {w : Nat} {new : Option Call}
    (adds' : Action.adds a = false) (stores' : Action.stores a = false) (unchanged : t.serverStartTime = s.serverStartTime)
    (calls : t.calls = Function.update s.calls w new) (quiet : new.any (fun call => inRace call.pc) = false) :
    Settling m start n (as ++ [a]) t := by
  refine settlingQuiet settling adds' stores' unchanged ?_ ?_
  · rw [calls]
    exact boundStays settling (fun wrong => by rw [quiet] at wrong; contradiction)
  · rw [calls]
    exact silentStays settling quiet

theorem settlingAdded {m : System State Action} (settling : Settling m start n as s) {w : Nat} {new : Call} {total}
    (known : s.serverStartTime ≠ 0) (quiet : inRace new.pc = false) :
    Settling m start n (as ++ [.call w .add]) (setCall {s with totalRequests := total} w (some new)) := by
  have stored : stores (as ++ [.call w .add]) = stores as := by rw [storesSnoc]; rfl
  have calm : (some new).any (fun call => inRace call.pc) = false := quiet
  refine ⟨?_,fun _ => known,?_,fun _ => sometimeLater (settling.stored known) _,silentStays settling calm⟩
  · rw [stored]
    exact settling.unset
  · rw [stored]
    exact boundStays settling (fun wrong => by rw [calm] at wrong; contradiction)

theorem settlingStored {m : System State Action} (settling : Settling m start n as s) {w env request now}
    (here : s.calls w = some ⟨env,request,.storing now⟩) (below : w < n) (known : now ≠ 0) :
    Settling m start n (as ++ [.call w .store])
      (setCall {s with serverStartTime := now} w (some ⟨env,request,.adding⟩)) := by
  have stored : stores (as ++ [.call w .store]) = stores as + 1 := storesSnoc _ _
  have source := settling.storing w _ now here rfl
  refine ⟨?_,fun _ => known,?_,fun _ => sometimeLater source _,silentStays settling rfl⟩
  · rw [stored]
    exact ⟨fun wrong => absurd wrong known,fun wrong => absurd wrong (Nat.succ_ne_zero _)⟩
  · have raced : racing s.calls w = true := by rw [racing, here]; rfl
    have fewer : (racers n (Function.update s.calls w (some ⟨env,request,.adding⟩))).card < (racers n s.calls).card :=
      Finset.card_lt_card (racersLess below raced rfl)
    have before := settling.bound
    rw [stored]
    dsimp only [setCall]
    omega

/- Only a worker of the pool has a call. -/
def Pooled (n : Nat) (s : State) : Prop := ∀ w call, s.calls w = some call → w < n

theorem pooledStep (pooled : Pooled n s) (crew : s.server.workers.length = n) (made : Step config own s a t) :
    Pooled n t := by
  cases made with
  | server outside moved => exact pooled
  | @enter w env request free parsed =>
    intro v call there
    rcases setSource there with ⟨rfl,_⟩ | ⟨_,old⟩
    · obtain ⟨_,_,here,_⟩ := handedSource parsed
      exact crew ▸ (List.getElem?_eq_some_iff.mp here).1
    · exact pooled v call old
  | call here moved =>
    intro v call there
    rcases setSource there with ⟨rfl,_⟩ | ⟨_,old⟩
    · exact pooled _ _ here
    · rw [(movedServer moved).2] at old
      exact pooled v call old
  | leave here told moved =>
    intro v call there
    rcases setSource there with ⟨_,gone⟩ | ⟨_,old⟩
    · contradiction
    · exact pooled v call old

theorem settlingStep (settling : Settling (counted config own) start n as s) (pooled : Pooled n s)
    (dated : AllDated s) (ran : run (counted config own) start as = some s)
    (made : Step config own s a t) : Settling (counted config own) start n (as ++ [a]) t := by
  cases made with
  | server outside moved =>
    exact settlingQuiet settling rfl rfl rfl settling.bound
      (fun w call z there storing => sometimeLater (settling.storing w call z there storing) _)
  | enter free parsed => exact settlingCalls settling rfl rfl rfl rfl rfl
  | leave here told moved => exact settlingCalls settling rfl rfl rfl rfl rfl
  | @call w turn mine v pc here moved =>
    obtain ⟨env,request,old⟩ := mine
    have known := dated w _ here
    cases moved with
    | race unset =>
      refine settlingQuiet settling rfl rfl rfl ?_ (storingStays settling (fun call z mine storing => ?_))
      · rw [settling.unset.mp unset, Nat.zero_add]
        exact racersFew n _
      · cases Option.some.inj mine
        contradiction
    | time =>
      have raced : racing s.calls w = true := by rw [racing, here]; rfl
      refine settlingQuiet settling rfl rfl rfl (boundStays settling (fun _ => raced))
        (storingStays settling (fun call z mine storing => ?_))
      cases Option.some.inj mine
      cases storing
      exact sometimeLater (sometimeNow ran rfl) _
    | store =>
      exact settlingStored settling here (pooled w _ here) known
    | addStatus asks => exact settlingAdded settling known rfl
    | addOther asks => exact settlingAdded settling known rfl
    | set known => exact settlingCalls settling rfl rfl rfl rfl rfl
    | count tally => exact settlingCalls settling rfl rfl rfl rfl rfl
    | now => exact settlingCalls settling rfl rfl rfl rfl rfl
    | start => exact settlingCalls settling rfl rfl rfl rfl rfl
    | startAfter => exact settlingCalls settling rfl rfl rfl rfl rfl
    | nowAfter => exact settlingCalls settling rfl rfl rfl rfl rfl
    | load => exact settlingCalls settling rfl rfl rfl rfl rfl

/- The race is over: the start time is set and no worker is about to store another one. -/
structure Settled (z : Int64) (s : State) : Prop where
  set : s.serverStartTime = z
  known : z ≠ 0
  calm : ∀ w call, s.calls w = some call → inRace call.pc = false

theorem settledStep {z} (settled : Settled z s) (made : Step config own s a t) : Settled z t := by
  cases made with
  | server outside moved => exact ⟨settled.set,settled.known,settled.calm⟩
  | enter free parsed =>
    refine ⟨settled.set,settled.known,fun v call there => ?_⟩
    rcases setSource there with ⟨_,new⟩ | ⟨_,old⟩
    · cases Option.some.inj new
      rfl
    · exact settled.calm v call old
  | leave here told moved =>
    refine ⟨settled.set,settled.known,fun v call there => ?_⟩
    rcases setSource there with ⟨_,gone⟩ | ⟨_,old⟩
    · contradiction
    · exact settled.calm v call old
  | @call w turn mine x pc here moved =>
    have quiet := settled.calm w mine here
    have done : x.serverStartTime = z ∧ inRace pc = false := by
      generalize mine.pc = old at moved quiet
      cases moved with
      | race unset => exact absurd (settled.set.symm.trans unset) settled.known
      | time => contradiction
      | store => contradiction
      | _ => exact ⟨settled.set,rfl⟩
    refine ⟨done.1,settled.known,fun v call there => ?_⟩
    rcases setSource there with ⟨_,new⟩ | ⟨_,old⟩
    · cases Option.some.inj new
      exact done.2
    · rw [(movedServer moved).2] at old
      exact settled.calm v call old

theorem settlingRun {now : Int} (positive : 0 < now) (ran : run (counted config own) (initial config now) as = some s)
    (soon : s.server.clock < 2^63) :
    Settling (counted config own) (initial config now) (threadCount config) as s := by
  have whole : Pooled (threadCount config) s ∧ Timely s ∧ s.server.workers.length = threadCount config ∧
      (s.server.clock < 2^63 → Settling (counted config own) (initial config now) (threadCount config) as s) := by
    refine runHistory (J := fun as s => Pooled (threadCount config) s ∧ Timely s ∧
      s.server.workers.length = threadCount config ∧
      (s.server.clock < 2^63 → Settling (counted config own) (initial config now) (threadCount config) as s)) ?_ ?_
      (followsAll (m := counted config own) (initial config now) as) ran
    · refine ⟨fun _ _ there => absurd there (by simp [initial]),initialTimely positive,List.length_replicate,fun _ => ?_⟩
      refine ⟨⟨fun _ => rfl,fun _ => rfl⟩,fun wrong => absurd wrong (Nat.lt_irrefl 0),?_,fun wrong => absurd rfl wrong,
        fun _ _ _ there => absurd there (by simp [initial])⟩
      rw [stores, List.countP_nil, Nat.zero_add]
      exact racersFew _ _
    · rintro as a t u ran ⟨pooled,timely,crew,settling⟩ - made
      have made := stepSound made
      refine ⟨pooledStep pooled crew made,timelyStep timely made,(crewStep made).trans crew,fun soon => ?_⟩
      have earlier := lt_of_le_of_lt (clockStep made) soon
      exact settlingStep (settling earlier) pooled (timely.2 earlier) ran made
  exact whole.2.2.2 soon

theorem elapsed {now since : Int} (positive : 0 < since) (ordered : since ≤ now) (soon : now < 2^63) :
    (Int64.ofInt now - Int64.ofInt since).toInt = now - since := by
  have short : now - since < 2^63 := lt_trans (Int.sub_lt_self now positive) soon
  rw [← Int64.ofInt_sub, Int64.toInt_ofInt_of_le (timeRange (Int.sub_nonneg_of_le ordered)) short]

end

/- The test and the store of server_start_time are two steps that no lock holds together, and yet each worker
stores at most once, before any request is counted; when no worker is about to store, the start time stays
what it is, and uptime is the time since an instant the clock has shown. -/
theorem startSettles {config : ServerConfig} {own : Nat → Bool} {now : Int} (positive : 0 < now) {as : List Action}
    {s : State} (ran : run (counted config own) (initial config now) as = some s) (soon : s.server.clock < 2^63) :
    stores as ≤ threadCount config ∧ (s.serverStartTime = 0 ↔ stores as = 0) ∧
    (0 < adds as → s.serverStartTime ≠ 0) ∧
    (s.serverStartTime ≠ 0 → (∀ w call, s.calls w = some call → inRace call.pc = false) →
      ∃ since, Sometime (counted config own) (initial config now) as (fun _ x => since = x.server.clock) ∧
        since ≤ s.server.clock ∧ ∀ bs t, run (counted config own) s bs = some t → t.server.clock < 2^63 →
          t.serverStartTime = Int64.ofInt since ∧
          (Int64.ofInt t.server.clock - t.serverStartTime).toInt = t.server.clock - since) := by
  have settling := settlingRun positive ran soon
  refine ⟨le_trans (Nat.le_add_right _ _) settling.bound,settling.unset,settling.added,fun known calm => ?_⟩
  obtain ⟨front,back,x,rfl,sofar,same⟩ := settling.stored known
  have rest : run (counted config own) x back = some s := (runAppend sofar).symm.trans ran
  have before := timelyRun (initialTimely positive) sofar
  have grown := clockRun rest
  refine ⟨x.server.clock,⟨front,back,x,rfl,sofar,rfl⟩,grown,fun bs t went fits => ?_⟩
  have settled : Settled s.serverStartTime t := runInvariant (I := Settled s.serverStartTime)
    (fun _ _ _ holds _ made => settledStep holds (stepSound made)) ⟨rfl,known,calm⟩
    (followsAll (m := counted config own) s bs) went
  rw [settled.set, same]
  exact ⟨rfl,elapsed before.1 (le_trans grown (clockRun went)) fits⟩

/- Both workers have stored: the second store counts. -/
theorem storedTwice : ∃ s, run (counted Main.defaults firstFive) (initial Main.defaults 100)
      (twoEnter ++ .enter 0 asking::statusRun) = some s ∧
    stores (twoEnter ++ .enter 0 asking::statusRun) = 2 ∧ s.serverStartTime = 103 ∧
    stores (twoEnter ++ .enter 0 asking::statusRun) ≤ threadCount Main.defaults ∧
    (s.serverStartTime = 0 ↔ stores (twoEnter ++ .enter 0 asking::statusRun) = 0) := by
  have ends : (run (counted Main.defaults firstFive) (initial Main.defaults 100)
      (twoEnter ++ .enter 0 asking::statusRun)).map (fun s => (s.serverStartTime,s.server.clock)) = some (103,107) := by
    decide +kernel
  obtain ⟨s,ran,same⟩ := Option.map_eq_some_iff.mp ends
  obtain ⟨stored,time⟩ := Prod.mk.inj same
  have settled := startSettles (by decide) ran (by rw [time]; decide)
  exact ⟨s,ran,by decide,stored,settled.1,settled.2.1⟩

end EpollHttpServer.StartTime
