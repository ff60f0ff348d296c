import EpollHttpServer.Lib.CString

/-! mime.c. The suffix is searched in the whole path, from its last dot on. -/
namespace EpollHttpServer.Mime
open CString

def mimeTable : List (Bytes × Bytes) :=
  [(".html","text/html; charset=utf-8"),
   (".htm","text/html; charset=utf-8"),
   (".css","text/css; charset=utf-8"),
   (".js","application/javascript; charset=utf-8"),
   (".json","application/json; charset=utf-8"),
   (".xml","application/xml; charset=utf-8"),
   (".txt","text/plain; charset=utf-8"),
   (".jpg","image/jpeg"),
   (".jpeg","image/jpeg"),
   (".png","image/png"),
   (".gif","image/gif"),
   (".ico","image/x-icon"),
   (".svg","image/svg+xml"),
   (".webp","image/webp"),
   (".mp3","audio/mpeg"),
   (".wav","audio/wav"),
   (".ogg","audio/ogg"),
   (".mp4","video/mp4"),
   (".webm","video/webm"),
   (".avi","video/x-msvideo"),
   (".pdf","application/pdf"),
   (".zip","application/zip"),
   (".gz","application/gzip"),
   (".tar","application/x-tar"),
   (".woff","font/woff"),
   (".woff2","font/woff2"),
   (".ttf","font/ttf")].map (fun e => (ascii e.1,ascii e.2))

def octetStream : Bytes := ascii "application/octet-stream"

def getExtension (filename : Bytes) : Option Bytes :=
  match strrchr 46 filename with
  | none => none
  | some dot => if dot.length = filename.length then none else some dot

def mimeGetType (filePath : Bytes) : Bytes :=
  match getExtension filePath with
  | none => octetStream
  | some ext => match mimeTable.find? (fun e => strcmpEq ext e.1) with
    | some e => e.2
    | none => octetStream

def mimeTypes : List Bytes := octetStream :: mimeTable.map Prod.snd

theorem mimeKnown (path : Bytes) : mimeGetType path ∈ mimeTypes := by
  unfold mimeGetType
  split
  · exact List.mem_cons_self
  · split
    · rename_i e found
      exact List.mem_cons_of_mem _ (List.mem_map.mpr ⟨e,List.mem_of_find?_eq_some found,rfl⟩)
    · exact List.mem_cons_self

/- What follows the terminator of a string. -/
def Ended (t : Bytes) : Prop := t.headD 0 = 0

theorem strrchrAppend {c : UInt8} {s t : Bytes} (free : (0 : UInt8) ∉ s) (ended : Ended t) :
    strrchr c (s ++ t) = (strrchr c s).map (· ++ t) := by
  induction s with
  | nil =>
    cases t with
    | nil => rfl
    | cons b t =>
      cases ended
      rfl
  | cons b s ih =>
    simp only [List.mem_cons, not_or] at free
    simp only [List.cons_append, strrchr, if_neg (Ne.symm free.1), ih free.2]
    cases strrchr c s with
    | some found => rfl
    | none =>
      simp only [Option.map_none]
      split <;> rfl

theorem extensionAppend {s t : Bytes} (free : (0 : UInt8) ∉ s) (ended : Ended t) :
    getExtension (s ++ t) = (getExtension s).map (· ++ t) := by
  unfold getExtension
  rw [strrchrAppend free ended]
  cases strrchr 46 s with
  | none => rfl
  | some d =>
    simp only [Option.map_some, List.length_append, Nat.add_right_cancel_iff]
    split <;> rfl

theorem mimeAppend {s t : Bytes} (free : (0 : UInt8) ∉ s) (ended : Ended t) :
    mimeGetType (s ++ t) = mimeGetType s := by
  unfold mimeGetType
  rw [extensionAppend free ended]
  cases found : getExtension s with
  | none => rfl
  | some d =>
    have inside : d <:+ s := by
      unfold getExtension at found
      split at found <;> try contradiction
      rename_i dot last
      split at found <;> try contradiction
      cases Option.some.inj found
      exact strrchrSuffix last
    have clean : (0 : UInt8) ∉ d := fun h => free (inside.subset h)
    have text : cstr (d ++ t) = d := by
      cases t with
      | nil => rw [List.append_nil, cstrOfFree clean]
      | cons b t =>
        cases ended
        exact cstrAppendNul clean t
    simp only [Option.map_some, strcmpEq, text, cstrOfFree clean]

theorem mimeCstr (path : Bytes) : mimeGetType path = mimeGetType (cstr path) := by
  have whole : path = cstr path ++ path.dropWhile (· != 0) := List.takeWhile_append_dropWhile.symm
  have ended : Ended (path.dropWhile (· != 0)) := by
    cases rest : path.dropWhile (· != 0) with
    | nil => rfl
    | cons b t =>
      have nonempty : path.dropWhile (· != 0) ≠ [] := by simp [rest]
      have stop := List.head_dropWhile_not (· != 0) nonempty
      simpa [rest, Ended] using stop
  conv => lhs; rw [whole]
  exact mimeAppend (cstrFree path) ended

/- A suffix that begins with its only dot decides the type of a longer path. -/
theorem mimeSuffix {s suffix : Bytes} (free : (0 : UInt8) ∉ s) (nonempty : s ≠ [])
    (dot : strrchr 46 suffix = some suffix) {type}
    (known : mimeTable.find? (fun e => strcmpEq suffix e.1) = some type) :
    mimeGetType (s ++ suffix) = type.2 := by
  have long : suffix.length ≠ (s ++ suffix).length := by
    have positive := List.length_pos_iff.mpr nonempty
    rw [List.length_append]
    omega
  simp only [mimeGetType, getExtension, strrchrLast free dot, if_neg long, known]

end EpollHttpServer.Mime
