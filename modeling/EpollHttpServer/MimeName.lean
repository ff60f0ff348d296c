import EpollHttpServer.Mime

/-! What mime_get_type makes of a file name. The last dot of a path decides; where it stands in a
directory, the slash behind it keeps its suffix out of the table. The test for a leading dot looks
at the start of the path, so that it misses the dot-files of a directory. -/
namespace EpollHttpServer.MimeName
open CString Mime

/- The suffix begins with the last dot of the text. -/
structure LastDot (text stem suffix : Bytes) : Prop where
  whole : text = stem ++ suffix
  dot : ∃ rest, suffix = 46::rest ∧ (46 : UInt8) ∉ rest

/- The type of a file by its name alone. -/
inductive NamedType (name : Bytes) : Bytes → Prop
  | known {stem suffix type} (last : LastDot name stem suffix) (later : stem ≠ [])
      (entry : (suffix,type) ∈ mimeTable) : NamedType name type
  | unknown (nothing : ∀ stem suffix type, LastDot name stem suffix → stem ≠ [] → (suffix,type) ∉ mimeTable) :
      NamedType name octetStream

theorem tableSuffix : ∀ e ∈ mimeTable, (0 : UInt8) ∉ e.1 ∧ (47 : UInt8) ∉ e.1 ∧ e.1 = 46 :: e.1.tail ∧
    (46 : UInt8) ∉ e.1.tail ∧ e.2 ≠ octetStream := by
  decide +kernel

theorem tableFound : ∀ e ∈ mimeTable, mimeTable.find? (fun x => strcmpEq e.1 x.1) = some e := by
  decide +kernel

theorem tableDot {suffix type : Bytes} (entry : (suffix,type) ∈ mimeTable) : LastDot suffix [] suffix := by
  obtain ⟨_,_,shape,last,_⟩ := tableSuffix _ entry
  exact ⟨rfl,_,shape,last⟩

theorem tableOnce {suffix type other : Bytes} (entry : (suffix,type) ∈ mimeTable) (again : (suffix,other) ∈ mimeTable) :
    type = other := by
  have found := tableFound _ entry
  rw [tableFound _ again] at found
  exact (congrArg Prod.snd (Option.some.inj found)).symm

theorem dotFound {text stem suffix : Bytes} (free : (0 : UInt8) ∉ text) (last : LastDot text stem suffix) :
    strrchr 46 text = some suffix := by
  obtain ⟨rfl,rest,rfl,alone⟩ := last
  exact strrchrAt free alone

theorem dotOnce {text a b x y : Bytes} (free : (0 : UInt8) ∉ text) (first : LastDot text a x) (second : LastDot text b y) :
    a = b ∧ x = y := by
  have found := dotFound free first
  rw [dotFound free second] at found
  cases Option.some.inj found
  exact ⟨List.append_cancel_right (first.whole.symm.trans second.whole),rfl⟩

theorem typedOnce {name type other : Bytes} (free : (0 : UInt8) ∉ name) (first : NamedType name type)
    (second : NamedType name other) : type = other := by
  cases first with
  | known last later entry =>
    cases second with
    | known again _ other =>
      obtain ⟨_,rfl⟩ := dotOnce free last again
      exact tableOnce entry other
    | unknown nothing => exact absurd entry (nothing _ _ _ last later)
  | unknown nothing =>
    cases second with
    | known again later entry => exact absurd entry (nothing _ _ _ again later)
    | unknown _ => rfl

/- get_extension gives the suffix unless its dot begins the whole text. -/
theorem extensionDot {path suffix : Bytes} (free : (0 : UInt8) ∉ path) :
    getExtension path = some suffix ↔ ∃ stem, LastDot path stem suffix ∧ stem ≠ [] := by
  constructor
  · intro found
    unfold getExtension at found
    split at found <;> try contradiction
    rename_i dot seen
    split at found <;> try contradiction
    rename_i long
    cases Option.some.inj found
    obtain ⟨stem,rest,whole,shape,alone⟩ := strrchrFound free seen
    refine ⟨stem,⟨whole,rest,shape,alone⟩,?_⟩
    rintro rfl
    exact long (congrArg List.length whole.symm)
  · intro ⟨stem,last,later⟩
    have size := congrArg List.length last.whole
    have positive := List.length_pos_iff.mpr later
    rw [List.length_append] at size
    simp only [getExtension, dotFound free last]
    rw [if_neg (by omega)]

theorem tableEntry {suffix : Bytes} {e : Bytes × Bytes} (free : (0 : UInt8) ∉ suffix)
    (found : mimeTable.find? (fun x => strcmpEq suffix x.1) = some e) : (suffix,e.2) ∈ mimeTable := by
  have member := List.mem_of_find?_eq_some found
  have same := List.find?_some found
  simp only [strcmpEq, cstrOfFree free, cstrOfFree (tableSuffix e member).1, beq_iff_eq] at same
  rw [same]
  exact member

/- Of a whole path, taken as a name, the code finds the type. -/
theorem mimeTyped {path : Bytes} (free : (0 : UInt8) ∉ path) : NamedType path (mimeGetType path) := by
  unfold mimeGetType
  split
  · rename_i nothing
    refine .unknown (fun stem suffix type last later => ?_)
    rw [(extensionDot free).mpr ⟨stem,last,later⟩] at nothing
    contradiction
  · rename_i suffix found
    obtain ⟨stem,last,later⟩ := (extensionDot free).mp found
    have clean : (0 : UInt8) ∉ suffix := by
      rw [last.whole, List.mem_append, not_or] at free
      exact free.2
    split
    · rename_i e listed
      exact .known last later (tableEntry clean listed)
    · rename_i unlisted
      refine .unknown (fun other text type again _ entry => ?_)
      obtain ⟨_,rfl⟩ := dotOnce free last again
      rw [tableFound _ entry] at unlisted
      contradiction

/- Below a directory a suffix of the table belongs to the name: one that begins before the slash
contains it. -/
theorem dotBelow {up name stem suffix type : Bytes} (entry : (suffix,type) ∈ mimeTable)
    (last : LastDot (up ++ 47::name) stem suffix) : ∃ own, LastDot name own suffix := by
  have before : suffix <:+ up ++ 47::name := ⟨stem,last.whole.symm⟩
  have slash : 47::name <:+ up ++ 47::name := List.suffix_append up _
  rcases List.suffix_or_suffix_of_suffix before slash with inside | outside
  · rcases List.suffix_cons_iff.mp inside with same | inside
    · obtain ⟨rest,shape,_⟩ := last.dot
      rw [same] at shape
      exact absurd (List.cons.inj shape).1 (by decide)
    · obtain ⟨own,whole⟩ := inside
      exact ⟨own,whole.symm,last.dot⟩
  · exact absurd (outside.subset List.mem_cons_self) (tableSuffix _ entry).2.1

theorem dotAppend {directory name stem suffix : Bytes} (last : LastDot name stem suffix) :
    LastDot (directory ++ name) (directory ++ stem) suffix :=
  ⟨by rw [last.whole, List.append_assoc],last.dot⟩

/- A dot-file that looks like a suffix of the table has no type of its own. -/
theorem dotFile {name type : Bytes} (free : (0 : UInt8) ∉ name) (entry : (name,type) ∈ mimeTable) :
    NamedType name octetStream := by
  refine .unknown (fun stem suffix other last later _ => ?_)
  obtain ⟨empty,_⟩ := dotOnce free last (tableDot entry)
  exact later empty

/- In a directory such a file is given the type all the same. -/
theorem dotFileBelow {directory name type : Bytes} (free : (0 : UInt8) ∉ directory ++ name) (below : directory ≠ [])
    (entry : (name,type) ∈ mimeTable) : mimeGetType (directory ++ name) = type := by
  have last : LastDot (directory ++ name) (directory ++ []) name := dotAppend (tableDot entry)
  rw [List.append_nil] at last
  exact typedOnce free (mimeTyped free) (.known last below entry)

/- Every other name has the same type in a directory as alone. -/
theorem typedBelow {up name type : Bytes} (plain : ∀ other, (name,other) ∉ mimeTable)
    (typed : NamedType (up ++ 47::name) type) : NamedType name type := by
  cases typed with
  | known last later entry =>
    obtain ⟨own,here⟩ := dotBelow entry last
    refine .known here ?_ entry
    rintro rfl
    have whole : name = _ := here.whole
    rw [List.nil_append] at whole
    rw [← whole] at entry
    exact plain _ entry
  | unknown nothing =>
    refine .unknown (fun stem suffix other last later => ?_)
    have below : LastDot (up ++ 47::name) ((up ++ [47]) ++ stem) suffix := by
      have added := @dotAppend (up ++ [47]) _ _ _ last
      rw [List.append_assoc] at added
      exact added
    exact nothing _ _ other below (by simp)

theorem namePlain {name : Bytes} (start : name.headD 0 ≠ 46) (type : Bytes) : (name,type) ∉ mimeTable := by
  intro entry
  obtain ⟨_,_,shape,_⟩ := tableSuffix _ entry
  dsimp only at shape
  rw [shape] at start
  exact start rfl

/- The type is that of the name, but for the dot-files of a directory that look like a suffix of
the table. The name may go on into a subdirectory. -/
theorem typeOfName (d b : Bytes) (directory : d = [] ∨ ∃ up, d = up ++ [47])
    (free : (0 : UInt8) ∉ d ++ b) :
    (NamedType b (mimeGetType (d ++ b)) ∧ mimeGetType (d ++ b) = mimeGetType b) ↔
      (d = [] ∨ ∀ type, (b,type) ∉ mimeTable) := by
  have clean : (0 : UInt8) ∉ b := fun member => free (List.mem_append_right d member)
  constructor
  · intro ⟨_,same⟩
    by_cases below : d = []
    · exact Or.inl below
    · refine Or.inr (fun type entry => ?_)
      rw [dotFileBelow free below entry] at same
      have untyped := typedOnce clean (mimeTyped clean) (dotFile clean entry)
      rw [← same] at untyped
      exact (tableSuffix _ entry).2.2.2.2 untyped
  · intro condition
    have typed : NamedType b (mimeGetType (d ++ b)) := by
      rcases condition with rfl | plain
      · exact mimeTyped clean
      · rcases directory with rfl | ⟨up,rfl⟩
        · exact mimeTyped clean
        · refine @typedBelow up b _ plain ?_
          have whole := mimeTyped free
          rw [List.append_assoc] at whole ⊢
          exact whole
    exact ⟨typed,typedOnce clean typed (mimeTyped clean)⟩

theorem indexTyped : NamedType (ascii "index.html") (mimeGetType (ascii "./www.d/" ++ ascii "index.html")) ∧
    mimeGetType (ascii "./www.d/" ++ ascii "index.html") = mimeGetType (ascii "index.html") :=
  (typeOfName (ascii "./www.d/") (ascii "index.html") (Or.inr ⟨ascii "./www.d",by decide +kernel⟩)
    (by decide +kernel)).mpr (Or.inr (namePlain (by decide +kernel)))

/- GET /.html from ./www. -/
theorem dotFileTyped : ¬ ∀ d b : Bytes, (d = [] ∨ ∃ up, d = up ++ [47]) → (47 : UInt8) ∉ b → (0 : UInt8) ∉ d ++ b →
    NamedType b (mimeGetType (d ++ b)) ∧ mimeGetType (d ++ b) = mimeGetType b := by
  intro all
  have same := (all (ascii "./www/") (ascii ".html") (Or.inr ⟨ascii "./www",by decide +kernel⟩) (by decide +kernel)
    (by decide +kernel)).2
  exact absurd same (by decide +kernel)

end EpollHttpServer.MimeName
