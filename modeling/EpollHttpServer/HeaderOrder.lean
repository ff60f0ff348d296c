import EpollHttpServer.HeaderLines

/-! The order of header lines. Up to MAX_HEADERS lines of different names may stand in any order: each
cached field hears of one of them at most, and the body begins where it did. -/
namespace EpollHttpServer.HeaderOrder
open CString Crlf LastWins HttpParser

def nameOf (line : Bytes) : Bytes := line.takeWhile (· != 58)

/- No two lines have one name, in whatever case it is written. -/
def Distinct (ls : List Bytes) : Prop :=
  ls.Pairwise (fun a b => 58 ∈ a → 58 ∈ b → strcasecmpEq (nameOf a) (nameOf b) = false)

/- What the rest of the server reads of the headers and the body. -/
structure Alike (r q : HttpRequest) : Prop where
  host : cstr r.host = cstr q.host
  keepAlive : r.keepAlive = q.keepAlive
  contentLength : r.contentLength = q.contentLength
  body : r.body = q.body
  bodyLength : r.bodyLength = q.bodyLength

/- A name that is cut to its array is still known for a short one. -/
theorem nameKnown {line key : Bytes} {f : Bytes × Bytes} (nul : (0 : UInt8) ∉ line)
    (found : field (line.take 1023) = some f) (short : (cstr key).length < 63) (same : strcasecmpEq f.1 key = true) :
    58 ∈ line ∧ strcasecmpEq (nameOf line) key = true := by
  unfold field at found
  split at found <;> try contradiction
  rename_i colon
  cases Option.some.inj found
  have whole : (line.take 1023).takeWhile (· != 58) = nameOf line := by
    have cut : ((line.take 1023).takeWhile (· != 58)).length ≠ (line.take 1023).length := by
      intro all
      have every := List.takeWhile_eq_self_iff.mp ((List.takeWhile_prefix _).eq_of_length all) 58 colon
      simp at every
    conv => rhs; rw [nameOf, ← List.take_append_drop 1023 line, List.takeWhile_append, if_neg cut]
  have free : (0 : UInt8) ∉ nameOf line := fun h => nul ((List.takeWhile_prefix _).subset h)
  have freeCut : (0 : UInt8) ∉ (nameOf line).take 63 := fun h => free (List.mem_of_mem_take h)
  rw [whole] at same
  simp only [strcasecmpEq, cstrOfFree freeCut, beq_iff_eq] at same
  have size := congrArg List.length same
  simp only [List.length_map, List.length_take] at size
  rw [List.take_of_length_le (by omega)] at same
  refine ⟨List.mem_of_mem_take colon,?_⟩
  simp only [strcasecmpEq, cstrOfFree free, same, beq_self_eq_true]

/- Of lines with different names one at most speaks to a field that is cached under its name. -/
theorem singleNamed {β : Type} {ls : List Bytes} {key : Bytes} (read : Bytes → Option β) (nul : ∀ l ∈ ls, (0 : UInt8) ∉ l)
    (distinct : Distinct ls) (short : (cstr key).length < 63) : Single (named key read) (stored ls) := by
  have speaks (f : Bytes × Bytes) (said : named key read f ≠ none) : strcasecmpEq f.1 key = true := by
    unfold named at said
    split at said
    · assumption
    · contradiction
  refine List.pairwise_filterMap.mpr (distinct.imp_of_mem ?_)
  intro a b ha hb differ f foundF g foundG
  by_contra both
  obtain ⟨first,second⟩ := not_or.mp both
  obtain ⟨colonA,sameA⟩ := nameKnown (nul a ha) foundF short (speaks f first)
  obtain ⟨colonB,sameB⟩ := nameKnown (nul b hb) foundG short (speaks g second)
  have equal : strcasecmpEq (nameOf a) (nameOf b) = true := by
    simp only [strcasecmpEq, beq_iff_eq] at sameA sameB ⊢
    rw [sameA, sameB]
  rw [differ colonA colonB] at equal
  contradiction

theorem unlinesPerm {ls ks : List Bytes} (perm : ls.Perm ks) : (unlines ls).length = (unlines ks).length := by
  simp only [unlines, List.length_flatten, List.map_map]
  exact (perm.map _).sum_nat

theorem bodyAlike {r q : HttpRequest} {raw other : Bytes} (alike : Alike r q) (size : raw.length = other.length)
    (malloc : Nat → Bool) (length : Int) (p : Bytes) :
    Alike (parseBody malloc raw length p r) (parseBody malloc other length p q) := by
  unfold parseBody
  rw [alike.contentLength, size]
  split
  · exact ⟨alike.host,alike.keepAlive,rfl,rfl,rfl⟩
  · exact alike

theorem orderFree {line : Bytes} {ls ks : List Bytes} {tail : Bytes} (free : CrlfFree line) (nul : (0 : UInt8) ∉ line)
    (each : ∀ l ∈ ls, HeaderLine l) (ends : Ends tail) (few : (stored ls).length ≤ maxHeaders) (distinct : Distinct ls)
    (perm : ls.Perm ks) {malloc : Nat → Bool} {length : Int} {req : HttpRequest}
    (ok : httpParseRequest malloc (line ++ crlf ++ (unlines ls ++ tail)) length = some req) :
    ∃ other, httpParseRequest malloc (line ++ crlf ++ (unlines ks ++ tail)) length = some other ∧ Alike req other := by
  have moved : ∀ l ∈ ks, HeaderLine l := fun l hl => each l (perm.mem_iff.mpr hl)
  have fields : (stored ls).Perm (stored ks) := perm.filterMap _
  rw [parseLines free nul each ends] at ok
  obtain ⟨r,parsed,rfl⟩ := Option.map_eq_some_iff.mp ok
  have keeps := addLinesKeeps (requestLineKeeps parsed) (fun l hl => (each l hl).nul) (fun l hl => (each l hl).free)
    (Nat.zero_le _)
  have other := addLinesKeeps (requestLineKeeps parsed) (fun l hl => (moved l hl).nul) (fun l hl => (moved l hl).free)
    (Nat.zero_le _)
  rw [List.nil_append, List.take_of_length_le few] at keeps
  rw [List.nil_append, List.take_of_length_le (fields.length_eq ▸ few)] at other
  have noNul : ∀ l ∈ ls, (0 : UInt8) ∉ l := fun l hl => (each l hl).nul
  have alike : Alike (ls.foldl addLine r) (ks.foldl addLine r) := by
    refine ⟨?_,?_,?_,keeps.body.1.trans other.body.1.symm,keeps.body.2.trans other.body.2.symm⟩
    · rw [keeps.host, other.host]
      exact lastOfPerm fields (singleNamed _ noNul distinct (by decide)) _
    · rw [keeps.keepAlive, other.keepAlive]
      exact lastOfPerm fields (singleNamed _ noNul distinct (by decide)) _
    · rw [keeps.contentLength, other.contentLength]
      exact lastOfPerm fields (singleNamed _ noNul distinct (by decide)) _
  have size : (line ++ crlf ++ (unlines ls ++ tail)).length = (line ++ crlf ++ (unlines ks ++ tail)).length := by
    simp only [List.length_append, unlinesPerm perm]
  refine ⟨_,?_,bodyAlike alike size malloc length (afterHead tail)⟩
  rw [parseLines free nul moved ends, parsed]
  rfl

def request (ls : List Bytes) : Bytes := ascii "GET / HTTP/1.1" ++ crlf ++ (unlines ls ++ (crlf ++ [0]))

-- The length is that of the text before the terminator.
def parsed (ls : List Bytes) : Option HttpRequest :=
  httpParseRequest (fun _ => true) (request ls) ((request ls).length - 1 : Nat)

def closing : Bytes := ascii "Connection: close"

theorem twoSwapped : ∃ req other, parsed [closing,ascii "Host: a"] = some req ∧
    parsed [ascii "Host: a",closing] = some other ∧ Alike req other := by
  cases ok : parsed [closing,ascii "Host: a"] with
  | none => exact absurd ok (by decide +kernel)
  | some req =>
    have each : ∀ l ∈ [closing,ascii "Host: a"], HeaderLine l := by
      intro l hl
      simp only [List.mem_cons, List.not_mem_nil, or_false] at hl
      rcases hl with rfl | rfl <;> exact ⟨by decide,by decide,by decide⟩
    obtain ⟨other,moved,alike⟩ := orderFree (by decide) (by decide) each (Or.inl (List.prefix_append _ _)) (by decide)
      (by unfold Distinct; decide) (List.Perm.swap (ascii "Host: a") closing []) ok
    exact ⟨req,other,rfl,moved,alike⟩

/- Headers x, xx, xxx and so on, as many as the array holds. -/
def fillers : List Bytes := (List.range maxHeaders).map (fun n => List.replicate (n+1) 120 ++ ascii ": 1")

/- Behind a full array, and behind a line that a NUL cuts, the line is not seen. -/
theorem closeHidden :
    (Distinct (closing::fillers) ∧ (closing::fillers).Perm (fillers ++ [closing]) ∧
      (request (closing::fillers)).length ≤ 4096 ∧
      (parsed (closing::fillers)).map (·.keepAlive) = some false ∧
      (parsed (fillers ++ [closing])).map (·.keepAlive) = some true) ∧
    (Distinct [closing,ascii "x: " ++ [0]] ∧ [closing,ascii "x: " ++ [0]].Perm [ascii "x: " ++ [0],closing] ∧
      (parsed [closing,ascii "x: " ++ [0]]).map (·.keepAlive) = some false ∧
      (parsed [ascii "x: " ++ [0],closing]).map (·.keepAlive) = some true) := by
  refine ⟨⟨?_,(List.perm_append_singleton _ _).symm,by decide +kernel,by decide +kernel,by decide +kernel⟩,?_,
    List.Perm.swap _ _ _,by decide +kernel,by decide +kernel⟩
  · unfold Distinct
    decide +kernel
  · unfold Distinct
    decide +kernel

end EpollHttpServer.HeaderOrder
