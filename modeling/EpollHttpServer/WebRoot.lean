import EpollHttpServer.HttpRequest
import Mathlib.Data.List.Infix

/-! Relative paths over any alphabet: their components, and the walk that resolves them
from a directory. A path in which the name of the parent does not occur, not even inside a
component, stays below the directory it starts from. -/
namespace LexicalPath
variable {α : Type} [DecidableEq α]

/- The stack holds the names entered so far, innermost first; none is a step above its bottom. -/
def walk (here up : List α) : List (List α) → List (List α) → Option (List (List α))
  | stack,[] => some stack
  | stack,c::cs =>
    if c = [] ∨ c = here then walk here up stack cs
    else if c = up then match stack with
      | [] => none
      | _::outer => walk here up outer cs
    else walk here up (c::stack) cs

theorem walkBelow {here up : List α} {cs : List (List α)} (absent : up ∉ cs) (stack : List (List α)) :
    ∃ entered, walk here up stack cs = some (entered ++ stack) := by
  induction cs generalizing stack with
  | nil => exact ⟨[],rfl⟩
  | cons c cs ih =>
    simp only [List.mem_cons, not_or] at absent
    simp only [walk]
    split
    · exact ih absent.2 stack
    rw [if_neg (Ne.symm absent.1)]
    obtain ⟨entered,same⟩ := ih absent.2 (c::stack)
    exact ⟨entered ++ [c],by rw [same, List.append_assoc, List.singleton_append]⟩

theorem splitPieces (sep : α) (p : List α) :
    ∃ c cs, p.splitOn sep = c::cs ∧ c <+: p ∧ ∀ d ∈ cs, d <:+: p := by
  induction p with
  | nil => exact ⟨[],[],List.splitOn_nil sep,List.prefix_refl [],by simp⟩
  | cons a p ih =>
    obtain ⟨c,cs,pieces,first,later⟩ := ih
    rw [List.splitOn_cons_eq_if_modifyHead, pieces]
    split
    · refine ⟨[],c::cs,rfl,List.nil_prefix,fun d hd => ?_⟩
      rcases List.mem_cons.mp hd with rfl | hd
      · exact List.infix_cons first.isInfix
      · exact List.infix_cons (later d hd)
    · exact ⟨a::c,cs,rfl,List.cons_prefix_cons.mpr ⟨rfl,first⟩,fun d hd => List.infix_cons (later d hd)⟩

theorem componentInfix {sep : α} {p c : List α} (member : c ∈ p.splitOn sep) : c <:+: p := by
  obtain ⟨first,cs,pieces,start,later⟩ := splitPieces sep p
  rw [pieces] at member
  rcases List.mem_cons.mp member with rfl | member
  · exact start.isInfix
  · exact later c member

/- Text below a root: no component of it, however it is cut off, names the parent. -/
def Below (sep : α) (here up rest : List α) : Prop :=
  up ∉ rest.splitOn sep ∧
    ∀ stack, ∃ entered, walk here up stack (rest.splitOn sep) = some (entered ++ stack)

theorem belowOfAbsent {sep : α} {here up rest : List α} (absent : ¬ up <:+: rest) :
    Below sep here up rest := by
  have no : up ∉ rest.splitOn sep := fun member => absent (componentInfix member)
  exact ⟨no,walkBelow no⟩

end LexicalPath

/-! Every path given to open lies below the web root. The substring test on the URI is
carried through both snprintf calls, which may cut the text. -/
namespace EpollHttpServer.WebRoot
open CString HttpParser HttpRequest FileSystem LexicalPath

def Inside (root path : Bytes) : Prop :=
  ∃ rest, path = root ++ ascii "/" ++ rest ∧ Below 47 (ascii ".") (ascii "..") rest

/- What the code keeps of a path: the root is whole, and no two dots touch after it. -/
def Guarded (root path : Bytes) : Prop :=
  ∃ rest, path = root ++ ascii "/" ++ rest ∧ ¬ ascii ".." <:+: rest

theorem guardedInside {root path} (g : Guarded root path) : Inside root path := by
  obtain ⟨rest,same,absent⟩ := g
  exact ⟨rest,same,belowOfAbsent absent⟩

theorem guardedTake {root path : Bytes} {n : Nat} (short : root.length < n) (g : Guarded root path) :
    Guarded root (path.take n) := by
  obtain ⟨rest,same,absent⟩ := g
  have slash : (ascii "/").length = 1 := by decide
  have whole : (root ++ ascii "/").length ≤ n := by
    rw [List.length_append]
    omega
  refine ⟨rest.take (n - (root ++ ascii "/").length),?_,fun inside => ?_⟩
  · rw [same, List.take_append, List.take_of_length_le whole]
  · exact absent (inside.trans (List.take_prefix _ _).isInfix)

theorem guardedIndex {root path : Bytes} (g : Guarded root path) :
    Guarded root (path ++ ascii "/index.html") := by
  obtain ⟨rest,same,absent⟩ := g
  refine ⟨rest ++ ascii "/index.html",by rw [same, List.append_assoc],fun inside => ?_⟩
  have page : ascii "/index.html" = 47 :: ascii "index.html" := by decide
  rw [page] at inside
  rcases infixAcross (by decide) inside with left | right
  · exact absent left
  · exact absurd right (by decide)

theorem guardedText {webRoot uri : Bytes} (absent : strstr (ascii "..") uri = none) :
    Guarded (cstr webRoot) (pathText webRoot uri) := by
  have hidden := strstrCstrNone absent
  simp only [pathText]
  split
  · exact ⟨ascii "index.html",by rw [List.append_assoc]; congr 1,by decide⟩
  · refine ⟨cstr (relPath uri),rfl,fun inside => hidden ?_⟩
    unfold relPath at inside
    split at inside
    · rename_i slash
      rw [cstrDrop (by rw [slash]; decide)] at inside
      exact inside.trans (List.drop_suffix 1 (cstr uri)).isInfix
    · exact inside

theorem lookupInside {config : ServerConfig} (short : (cstr config.webRoot).length ≤ 255) (uri w) :
    ∀ p ∈ (lookup config uri w).2, Inside (cstr config.webRoot) p := by
  unfold lookup
  split
  · exact fun p hp => absurd hp (by simp)
  rename_i absent
  have direct : Guarded (cstr config.webRoot) (directPath config uri) :=
    guardedTake (by omega) (guardedText absent)
  have index : Guarded (cstr config.webRoot) (indexPath config uri) :=
    guardedTake (by omega) (guardedIndex direct)
  have both : ∀ p ∈ [directPath config uri,indexPath config uri], Inside (cstr config.webRoot) p := by
    intro p hp
    rcases List.mem_cons.mp hp with rfl | hp
    · exact guardedInside direct
    · rw [List.mem_singleton.mp hp]
      exact guardedInside index
  split
  · intro p hp
    rw [List.mem_singleton.mp hp]
    exact guardedInside direct
  split <;> exact both

/- The opens that lead from one world to another are all inside the root. -/
def OpensInside (root : Bytes) (w w' : World) : Prop :=
  ∃ paths, w'.opened = w.opened ++ paths ∧ ∀ p ∈ paths, Inside root p

theorem opensNone {root : Bytes} {w w' : World} (same : w'.opened = w.opened) : OpensInside root w w' :=
  ⟨[],by rw [same, List.append_nil],by simp⟩

theorem locateInside {config : ServerConfig} (short : (cstr config.webRoot).length ≤ 255) (uri w) :
    OpensInside (cstr config.webRoot) w (locate config uri w).2 := by
  rw [locateLookup]
  exact ⟨(lookup config uri w).2,rfl,lookupInside short uri w⟩

theorem getInside {config : ServerConfig} (short : (cstr config.webRoot).length ≤ 255) (uri conn w) :
    OpensInside (cstr config.webRoot) w (handleGet uri conn config w).world := by
  have inside := locateInside short uri w
  unfold handleGet
  generalize locate config uri w = found at inside ⊢
  obtain ⟨l,w'⟩ := found
  cases l with
  | forbidden => exact inside
  | missing => exact inside
  | found path size file =>
    simp only
    split
    · exact inside
    split <;> exact inside

theorem headInside {config : ServerConfig} (short : (cstr config.webRoot).length ≤ 255) (uri conn w) :
    OpensInside (cstr config.webRoot) w (handleHead uri conn config w).world := by
  have inside := locateInside short uri w
  unfold handleHead
  generalize locate config uri w = found at inside ⊢
  obtain ⟨l,w'⟩ := found
  cases l <;> exact inside

/- For any request, parsed or not: the paths that handling it adds to those opened before. -/
theorem opensInsideRoot {config : ServerConfig} (short : (cstr config.webRoot).length ≤ 255)
    (request conn w) :
    ∃ paths, (httpHandleRequest request conn config w).world.opened = w.opened ++ paths ∧
      ∀ p ∈ paths, Inside (cstr config.webRoot) p := by
  unfold httpHandleRequest
  split
  · exact opensNone rfl
  split
  · exact getInside short request.uri conn (countRequest w)
  split
  · exact headInside short request.uri conn (countRequest w)
  split <;> exact opensNone rfl

theorem defaultRootGuarded :
    ∃ paths, (httpHandleRequest ⟨ascii "GET",ascii "/a/b",[],[],0,none,0,[],true,0⟩
        (acceptedConnection 5 0) Main.defaults emptyWorld).world.opened = emptyWorld.opened ++ paths ∧
      ∀ p ∈ paths, Inside (cstr Main.defaults.webRoot) p :=
  opensInsideRoot (by decide +kernel) _ _ _

end EpollHttpServer.WebRoot
