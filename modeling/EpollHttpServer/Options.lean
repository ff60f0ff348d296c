import EpollHttpServer.Config
import EpollHttpServer.Lib.Checked
import EpollHttpServer.HeaderLines

/-! The command line as a list of options with their values, and the option loop of main on it: which lines it takes,
and what the configuration then holds. -/
namespace EpollHttpServer.Options
open CString Main LastWins

inductive Setting where
  | port (v : Bytes)
  | root (v : Bytes)
  | connections (v : Bytes)
  | threads (v : Bytes)
  deriving DecidableEq, Repr

def kind (arg : Bytes) : Option (Bytes → Setting) :=
  if isOption arg "-p" "--port" then some .port
  else if isOption arg "-r" "--root" then some .root
  else if isOption arg "-m" "--max" then some .connections
  else if isOption arg "-t" "--threads" then some .threads
  else none

/- None where help is asked for, an option is unknown or a value is missing. -/
def settings : List Bytes → Option (List Setting)
  | [] => some []
  | [_] => none
  | arg::v::rest => (kind arg).bind (fun k => (settings rest).map (k v :: ·))

def Setting.apply (c : ServerConfig) : Setting → Except Int ServerConfig
  | .port v => setPort c v
  | .root v => setRoot c v
  | .connections v => setMax c v
  | .threads v => setThreads c v

def applyAll (c : ServerConfig) : List Setting → Except Int ServerConfig
  | [] => .ok c
  | s::ss => match s.apply c with
    | .error status => .error status
    | .ok c => applyAll c ss

/- The ranges that the usage text and the error messages give. -/
def Setting.Allowed : Setting → Prop
  | .port v => 1 ≤ written v ∧ written v ≤ 65535
  | .root _ => True
  | .connections v => 1 ≤ written v ∧ written v ≤ maxEvents
  | .threads v => 1 ≤ written v ∧ written v ≤ 64

/- What main does not take. A port is tested after its upper bits are gone. -/
def Setting.Refused : Setting → Prop
  | .port v => written v % 2^16 = 0
  | .root _ => False
  | .connections v => ¬ (1 ≤ written v ∧ written v ≤ maxEvents)
  | .threads v => ¬ (1 ≤ written v ∧ written v ≤ 64)

def Setting.InInt : Setting → Prop
  | .root _ => True
  | .port v => IntRange (written v)
  | .connections v => IntRange (written v)
  | .threads v => IntRange (written v)

def readPort : Setting → Option Int
  | .port v => some (written v)
  | _ => none

def readRoot : Setting → Option Bytes
  | .root v => some ((cstr v).take 255)
  | _ => none

def readConnections : Setting → Option Int
  | .connections v => some (written v)
  | _ => none

def readThreads : Setting → Option Int
  | .threads v => some (written v)
  | _ => none

/- web_root as an array that strncpy of 255 bytes never fills. -/
def Terminated (root : Bytes) : Prop := root.length = 256 ∧ root.drop 255 = [0]

instance (root) : Decidable (Terminated root) := by unfold Terminated; infer_instance

/- The configuration says what the options say, from the values that it begins with. -/
structure Means (start c : ServerConfig) (ss : List Setting) : Prop where
  port : (c.port : Int) = lastOf readPort start.port ss
  root : cstr c.webRoot = lastOf readRoot (cstr start.webRoot) ss
  array : Terminated c.webRoot
  connections : c.maxConnections = lastOf readConnections start.maxConnections ss
  threads : c.threadCount = lastOf readThreads start.threadCount ss

theorem kindChosen {arg k} (known : kind arg = some k) :
    ∃ set, choose arg = .value set ∧ ∀ c v, set c v = (k v).apply c := by
  unfold kind at known
  unfold choose
  split at known
  · rename_i port
    cases Option.some.inj known
    exact ⟨setPort,if_pos port,fun _ _ => rfl⟩
  rename_i noPort
  rw [if_neg noPort]
  split at known
  · rename_i root
    cases Option.some.inj known
    exact ⟨setRoot,if_pos root,fun _ _ => rfl⟩
  rename_i noRoot
  rw [if_neg noRoot]
  split at known
  · rename_i connections
    cases Option.some.inj known
    exact ⟨setMax,if_pos connections,fun _ _ => rfl⟩
  rename_i noConnections
  rw [if_neg noConnections]
  split at known
  · rename_i threads
    cases Option.some.inj known
    exact ⟨setThreads,if_pos threads,fun _ _ => rfl⟩
  · contradiction

theorem kindUnknown {arg} (unknown : kind arg = none) : choose arg = .help ∨ choose arg = .unknown := by
  unfold kind at unknown
  unfold choose
  split at unknown <;> try contradiction
  rename_i noPort
  rw [if_neg noPort]
  split at unknown <;> try contradiction
  rename_i noRoot
  rw [if_neg noRoot]
  split at unknown <;> try contradiction
  rename_i noConnections
  rw [if_neg noConnections]
  split at unknown <;> try contradiction
  rename_i noThreads
  rw [if_neg noThreads]
  split
  · exact Or.inl rfl
  · exact Or.inr rfl

theorem optionTurn {arg k} (known : kind arg = some k) {c : ServerConfig} {v : Bytes} {rest : List Bytes} :
    (∀ status, (k v).apply c = .error status → options c (arg::v::rest) = .error status) ∧
    (∀ d, (k v).apply c = .ok d → options c (arg::v::rest) = options d rest) := by
  obtain ⟨set,chosen,same⟩ := kindChosen known
  constructor
  · intro status applied
    simp only [options, chosen, same, applied]
  · intro d applied
    simp only [options, chosen, same, applied]

/- The loop takes the options one after another, or does not come to its end. -/
theorem optionsSettings (c : ServerConfig) (args : List Bytes) :
    (∀ ss, settings args = some ss → options c args = applyAll c ss) ∧ (settings args = none → ∀ d, options c args ≠ .ok d) := by
  induction args using settings.induct generalizing c with
  | case1 =>
    refine ⟨fun ss whole => ?_,fun none => by contradiction⟩
    cases Option.some.inj whole
    rfl
  | case2 arg =>
    refine ⟨fun ss whole => by contradiction,fun _ d taken => ?_⟩
    unfold options at taken
    split at taken <;> contradiction
  | case3 arg v rest ih =>
    cases known : kind arg with
    | none =>
      have never : ∀ d, options c (arg::v::rest) ≠ .ok d := by
        intro d taken
        unfold options at taken
        rcases kindUnknown known with help | unknown
        · rw [help] at taken
          contradiction
        · rw [unknown] at taken
          contradiction
      refine ⟨fun ss whole => ?_,fun _ => never⟩
      simp only [settings, known, Option.bind_none] at whole
      contradiction
    | some k =>
      constructor
      · intro ss whole
        simp only [settings, known, Option.bind_some, Option.map_eq_some_iff] at whole
        obtain ⟨later,found,rfl⟩ := whole
        cases applied : (k v).apply c with
        | error status => rw [(optionTurn known).1 status applied, applyAll, applied]
        | ok d =>
          rw [(optionTurn known).2 d applied, (ih d).1 later found]
          simp only [applyAll, applied]
      · intro broken d taken
        simp only [settings, known, Option.bind_some, Option.map_eq_none_iff] at broken
        cases applied : (k v).apply c with
        | error status =>
          rw [(optionTurn known).1 status applied] at taken
          contradiction
        | ok e =>
          rw [(optionTurn known).2 e applied] at taken
          exact (ih e).2 broken d taken

/- What one option does: it is refused, or is taken. -/
theorem applyTaken {s : Setting} (c : ServerConfig) (inInt : s.InInt) : (∃ d, s.apply c = .ok d) ↔ ¬ s.Refused := by
  cases s with
  | port v =>
    have same : atoi v = written v := atoiWritten inInt.1 inInt.2
    simp only [Setting.apply, setPort, Setting.Refused, same]
    split
    · exact iff_of_false (by simp) (by omega)
    · exact iff_of_true ⟨_,rfl⟩ (by omega)
  | root v => exact iff_of_true ⟨_,rfl⟩ id
  | connections v =>
    have same : atoi v = written v := atoiWritten inInt.1 inInt.2
    simp only [Setting.apply, setMax, Setting.Refused, same]
    split
    · exact iff_of_false (by simp) (by omega)
    · exact iff_of_true ⟨_,rfl⟩ (by omega)
  | threads v =>
    have same : atoi v = written v := atoiWritten inInt.1 inInt.2
    simp only [Setting.apply, setThreads, Setting.Refused, same]
    split
    · exact iff_of_false (by simp) (by omega)
    · exact iff_of_true ⟨_,rfl⟩ (by omega)

theorem terminatedCopy {root : Bytes} (held : Terminated root) (v : Bytes) :
    Terminated (strncpy root v 255) ∧ cstr (strncpy root v 255) = (cstr v).take 255 := by
  obtain ⟨length,last⟩ := held
  refine ⟨⟨?_,?_⟩,cstrStrncpy (by rw [last]; rfl) v⟩
  · rw [Checked.strncpyLength (by omega), length]
  · rw [strncpyDrop, last]

/- An option that is taken and lies in its range sets its own value, and leaves the others. -/
theorem applyMeans {s : Setting} {c d : ServerConfig} (held : Terminated c.webRoot) (inInt : s.InInt) (allowed : s.Allowed)
    (ok : s.apply c = .ok d) : Means c d [s] := by
  cases s with
  | port v =>
    have same : atoi v = written v := atoiWritten inInt.1 inInt.2
    obtain ⟨low,high⟩ := allowed
    simp only [Setting.apply, setPort, same] at ok
    split at ok <;> try contradiction
    cases ok
    refine ⟨?_,rfl,held,rfl,rfl⟩
    simp only [lastOf, readPort, List.filterMap_cons, List.filterMap_nil, List.getLastD_cons, List.getLastD_nil]
    omega
  | root v =>
    cases ok
    obtain ⟨array,text⟩ := terminatedCopy held v
    exact ⟨rfl,text,array,rfl,rfl⟩
  | connections v =>
    have same : atoi v = written v := atoiWritten inInt.1 inInt.2
    simp only [Setting.apply, setMax] at ok
    split at ok <;> try contradiction
    cases ok
    exact ⟨rfl,rfl,held,same,rfl⟩
  | threads v =>
    have same : atoi v = written v := atoiWritten inInt.1 inInt.2
    simp only [Setting.apply, setThreads] at ok
    split at ok <;> try contradiction
    cases ok
    exact ⟨rfl,rfl,held,rfl,same⟩

theorem meansJoin {a b c : ServerConfig} {xs ys : List Setting} (first : Means a b xs) (second : Means b c ys) :
    Means a c (xs ++ ys) := by
  refine ⟨?_,?_,second.array,?_,?_⟩
  · rw [lastOfJoin, ← first.port]
    exact second.port
  · rw [lastOfJoin, ← first.root]
    exact second.root
  · rw [lastOfJoin, ← first.connections]
    exact second.connections
  · rw [lastOfJoin, ← first.threads]
    exact second.threads

theorem applyAllTaken {ss : List Setting} (c : ServerConfig) (ints : ∀ s ∈ ss, s.InInt) :
    (∃ d, applyAll c ss = .ok d) ↔ ∀ s ∈ ss, ¬ s.Refused := by
  induction ss generalizing c with
  | nil => exact iff_of_true ⟨c,rfl⟩ (fun s member => by contradiction)
  | cons s ss ih =>
    have here := applyTaken c (ints s List.mem_cons_self)
    rw [List.forall_mem_cons, ← here]
    simp only [applyAll]
    cases s.apply c with
    | error status => exact iff_of_false (by simp) (by simp)
    | ok e =>
      rw [ih e (fun s member => ints s (List.mem_cons_of_mem _ member))]
      exact ⟨fun later => ⟨⟨e,rfl⟩,later⟩,fun both => both.2⟩

theorem applyAllMeans {ss : List Setting} {c d : ServerConfig} (held : Terminated c.webRoot) (ints : ∀ s ∈ ss, s.InInt)
    (allowed : ∀ s ∈ ss, s.Allowed) (ok : applyAll c ss = .ok d) : Means c d ss := by
  induction ss generalizing c with
  | nil =>
    cases ok
    exact ⟨rfl,rfl,held,rfl,rfl⟩
  | cons s ss ih =>
    simp only [applyAll] at ok
    split at ok <;> try contradiction
    rename_i e applied
    have first := applyMeans held (ints s List.mem_cons_self) (allowed s List.mem_cons_self) applied
    have later := ih first.array (fun s member => ints s (List.mem_cons_of_mem _ member))
      (fun s member => allowed s (List.mem_cons_of_mem _ member)) ok
    exact meansJoin first later

/- What a command line owes: where the loop comes to its end every value lies in its range, and the configuration has
the last value of each option, or the default. -/
def Honest (argv : List Bytes) : Prop :=
  ∀ c, run argv = .ok c → ∃ ss, settings argv.tail = some ss ∧ (∀ s ∈ ss, s.Allowed) ∧ Means defaults c ss

/- Some option is refused, or the ports are in their range. -/
def PortsFit (argv : List Bytes) : Prop :=
  ∀ ss, settings argv.tail = some ss →
    (∃ s ∈ ss, s.Refused) ∨ ∀ v, Setting.port v ∈ ss → 1 ≤ written v ∧ written v ≤ 65535

theorem allowedElse {s : Setting} (taken : ¬ s.Refused)
    (port : ∀ v, s = .port v → 1 ≤ written v ∧ written v ≤ 65535) : s.Allowed := by
  cases s with
  | port v => exact port v rfl
  | root v => trivial
  | connections v => exact not_not.mp taken
  | threads v => exact not_not.mp taken

theorem optionsHonest {argv : List Bytes} (ints : ∀ ss, settings argv.tail = some ss → ∀ s ∈ ss, s.InInt) :
    Honest argv ↔ PortsFit argv := by
  obtain ⟨whole,broken⟩ := optionsSettings defaults argv.tail
  constructor
  · intro honest ss found
    by_contra both
    obtain ⟨taken,outside⟩ := not_or.mp both
    obtain ⟨c,ran⟩ := (applyAllTaken defaults (ints ss found)).mpr (fun s member refused => taken ⟨s,member,refused⟩)
    obtain ⟨others,same,allowed,-⟩ := honest c ((whole ss found).trans ran)
    cases Option.some.inj (found.symm.trans same)
    exact outside (fun v member => allowed _ member)
  · intro fit c ran
    cases found : settings argv.tail with
    | none => exact absurd ran (broken found c)
    | some ss =>
      have applied : applyAll defaults ss = .ok c := (whole ss found).symm.trans ran
      have taken := (applyAllTaken defaults (ints ss found)).mp ⟨c,applied⟩
      have ports := (fit ss found).resolve_left (fun ⟨s,member,refused⟩ => taken s member refused)
      have allowed : ∀ s ∈ ss, s.Allowed := fun s member =>
        allowedElse (taken s member) (fun v same => ports v (by rw [← same]; exact member))
      exact ⟨ss,rfl,allowed,applyAllMeans (by decide +kernel) (ints ss found) allowed applied⟩

def arguments (texts : List String) : List Bytes := ascii "http_server" :: texts.map ascii

theorem repeatedHonest : Honest (arguments ["-p","+9000","-r","/srv/www","--threads","8","-r","/a"]) ↔
    PortsFit (arguments ["-p","+9000","-r","/srv/www","--threads","8","-r","/a"]) := by
  refine optionsHonest (fun ss found s member => ?_)
  have known : settings (arguments ["-p","+9000","-r","/srv/www","--threads","8","-r","/a"]).tail =
      some [.port (ascii "+9000"),.root (ascii "/srv/www"),.threads (ascii "8"),.root (ascii "/a")] := by
    decide +kernel
  rw [known] at found
  cases Option.some.inj found
  simp only [List.mem_cons, List.not_mem_nil, or_false] at member
  rcases member with rfl | rfl | rfl | rfl
  · exact (by decide +kernel : IntRange (written (ascii "+9000")))
  · trivial
  · exact (by decide +kernel : IntRange (written (ascii "8")))
  · trivial

/- Port 65537 is taken for port 1. -/
theorem portWrapped : settings (arguments ["-p","65537"]).tail = some [.port (ascii "65537")] ∧
    IntRange (written (ascii "65537")) ∧ (∃ c, run (arguments ["-p","65537"]) = .ok c ∧ c.port = 1) ∧
    ¬ Honest (arguments ["-p","65537"]) := by
  have known : settings (arguments ["-p","65537"]).tail = some [.port (ascii "65537")] := by decide +kernel
  have taken : ∃ c, run (arguments ["-p","65537"]) = .ok c ∧ c.port = 1 :=
    ⟨{defaults with port := 1, portRange := by decide},by decide +kernel,rfl⟩
  refine ⟨known,by decide +kernel,taken,fun honest => ?_⟩
  obtain ⟨c,ran,-⟩ := taken
  obtain ⟨ss,found,allowed,-⟩ := honest c ran
  rw [known] at found
  cases Option.some.inj found
  have port := (allowed _ (List.mem_singleton_self _)).2
  exact absurd port (by decide +kernel)

end EpollHttpServer.Options
