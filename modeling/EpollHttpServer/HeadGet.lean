import EpollHttpServer.Delimiting

/-! HEAD beside GET on one URI and one disk. Both look a file up alike; the size limit, the
read and the /status route are in one handler only, and the type after the fallback may be
read past the end of the path. -/
namespace EpollHttpServer.HeadGet
open CString HttpMessage HttpParser HttpResponse HttpRequest FileSystem Mime Delimiting

/- What a client compares: the status line, two headers, and the length of a file. -/
def SameHead (file : Prop) (get head : Bytes) : Prop :=
  ∃ a b, parse get = some a ∧ parse head = some b ∧ a.status = b.status ∧
    a.values (ascii "Content-Type") = b.values (ascii "Content-Type") ∧
    a.values (ascii "Connection") = b.values (ascii "Connection") ∧
    (file → a.status = ascii "HTTP/1.1 200 OK" →
      a.values (ascii "Content-Length") = b.values (ascii "Content-Length"))

structure SameReply (file : Prop) (a b : Reply) : Prop where
  status : a.status = b.status
  contentType : a.contentType = b.contentType
  keepAlive : a.keepAlive = b.keepAlive
  length : file → a.status = ascii "200 OK" → a.contentLength = b.contentLength

theorem connectionInjective {a b : Bool} (same : connectionValue a = connectionValue b) : a = b := by
  cases a <;> cases b <;> first | rfl | exact absurd same (by decide)

theorem decimalInjective {a b : Nat} (same : decimalNat a = decimalNat b) : a = b := by
  rw [← decimalNatValue a, same, decimalNatValue]

theorem sameHeadReply {file : Prop} {a b : Reply} {ca cb} (holdsA : Holds ca a) (holdsB : Holds cb b)
    (plainA : Plain a) (plainB : Plain b) :
    SameHead file (written ca) (written cb) ↔ SameReply file a b := by
  have ok : a.message.status = ascii "HTTP/1.1 200 OK" ↔ a.status = ascii "200 OK" := by
    have whole : ascii "HTTP/1.1 200 OK" = ascii "HTTP/1.1 " ++ ascii "200 OK" := by decide
    rw [whole]
    exact List.append_right_inj _
  unfold SameHead
  rw [holdsA.text, holdsB.text, parseRender (plainWellFormed plainA), parseRender (plainWellFormed plainB)]
  simp only [Option.some.injEq, exists_and_left, exists_eq_left', typeValues, lengthValues, connectionValues,
    List.cons.injEq, and_true, ok]
  constructor
  · rintro ⟨status,type,connection,length⟩
    exact ⟨List.append_cancel_left status,type,connectionInjective connection,
      fun isFile h => decimalInjective (length isFile h)⟩
  · intro same
    refine ⟨?_,same.contentType,by rw [same.keepAlive],fun isFile h => by rw [same.length isFile h]⟩
    simp only [Reply.message, same.status]

theorem statusDiffers (code message) (other : code ∈ [403,404,405,413,500,501]) :
    (errorReply code message).status ≠ ascii "200 OK" := by
  have all : ∀ c ∈ [403,404,405,413,500,501], statusText c ≠ ascii "200 OK" := by decide
  exact all code other

theorem sameRefl (file : Prop) (r : Reply) : SameReply file r r := ⟨rfl,rfl,rfl,fun _ _ => rfl⟩

theorem sameFound (isFile : Prop) (keepAlive : Bool) (get head : Bytes) (size : Nat) (file : File) :
    SameReply isFile (getReply keepAlive (.found get size file)) (headReply keepAlive (.found head size file)) ↔
      size ≤ maxFileSize ∧ (file.read size).isSome ∧ mimeGetType get = mimeGetType head := by
  simp only [getReply, headReply]
  split
  · rename_i large
    refine ⟨fun same => absurd same.status (statusDiffers _ _ (by decide)),fun cond => ?_⟩
    omega
  · rename_i fits
    cases h : file.read size with
    | none =>
      exact ⟨fun same => absurd same.status (statusDiffers _ _ (by decide)),
        fun cond => absurd cond.2.1 (by decide)⟩
    | some bytes =>
      refine ⟨fun same => ⟨by omega,rfl,same.contentType⟩,fun cond => ?_⟩
      exact ⟨rfl,cond.2.2,rfl,fun _ _ => rfl⟩

/- file_path after the fallback. -/
def fallbackArray (config : ServerConfig) (uri frame : Bytes) : Bytes :=
  strncpy (directArray config uri frame) (indexArray config uri) 1023

/- index_path fills all 1023 bytes that strncpy copies, and the terminator of the direct path
lies before the byte that is left. -/
def Unterminated (config : ServerConfig) (uri : Bytes) : Prop :=
  1012 ≤ (directPath config uri).length ∧ (directPath config uri).length ≤ 1022

instance (config uri) : Decidable (Unterminated config uri) := by unfold Unterminated; infer_instance

theorem directType (config uri frame) :
    mimeGetType (directArray config uri frame) = mimeGetType (directPath config uri) := by
  rw [mimeCstr, directArrayText]

theorem directShort (config uri) : (directPath config uri).length ≤ 1023 := List.length_take_le _ _

theorem indexLength (config uri) : (indexPath config uri).length = min 1023 ((directPath config uri).length + 11) := by
  have page : (ascii "/index.html").length = 11 := by decide
  rw [indexPath, List.length_take, List.length_append, page]

theorem directArrayBytes (config uri frame) : directArray config uri frame =
    directPath config uri ++ 0 :: frame.drop ((directPath config uri).length + 1) := by
  simp only [directArray, snprintf, blitStart, directPath, List.append_assoc, List.length_append,
    List.length_singleton, List.singleton_append]

theorem fallbackText (config uri frame) : fallbackArray config uri frame = indexPath config uri ++
    (List.replicate (1023 - (indexPath config uri).length) 0 ++ (directArray config uri frame).drop 1023) := by
  have short : (indexPath config uri).length ≤ 1023 := List.length_take_le _ _
  have whole : (indexPath config uri).take 1023 = indexPath config uri := List.take_of_length_le short
  have full : (indexPath config uri).length + (1023 - (indexPath config uri).length) = 1023 := by omega
  simp only [fallbackArray, strncpy, indexArrayText, whole, blitStart, List.append_assoc, List.length_append,
    List.length_replicate, full]

theorem fallbackType {config uri} (ended : ¬ Unterminated config uri) (frame) :
    mimeGetType (fallbackArray config uri frame) = mimeGetType (indexPath config uri) := by
  have free : (0 : UInt8) ∉ indexPath config uri :=
    fun h => indexTextFree config uri (List.mem_of_mem_take h)
  have long := indexLength config uri
  have short := directShort config uri
  unfold Unterminated at ended
  rw [fallbackText]
  refine mimeAppend free ?_
  rcases Nat.lt_or_ge (indexPath config uri).length 1023 with room | full
  · obtain ⟨n,hn⟩ : ∃ n, 1023 - (indexPath config uri).length = n + 1 :=
      ⟨1022 - (indexPath config uri).length,by omega⟩
    rw [hn]
    rfl
  · have last : 1023 = (directPath config uri).length := by omega
    have zero : 1023 - (indexPath config uri).length = 0 := by omega
    rw [zero, directArrayBytes, List.drop_left' last.symm]
    rfl

theorem fallbackLeft {config uri} (bad : Unterminated config uri) {suffix : Bytes}
    (dot : strrchr 46 suffix = some suffix) (type)
    (known : mimeTable.find? (fun e => strcmpEq suffix e.1) = some type) :
    mimeGetType (fallbackArray config uri (List.replicate 1023 0 ++ suffix)) = type.2 := by
  have free : (0 : UInt8) ∉ indexPath config uri :=
    fun h => indexTextFree config uri (List.mem_of_mem_take h)
  have long := indexLength config uri
  obtain ⟨low,high⟩ := bad
  have nonempty : indexPath config uri ≠ [] := by
    rw [← List.length_pos_iff]
    omega
  have left : (directArray config uri (List.replicate 1023 0 ++ suffix)).drop 1023 = suffix := by
    obtain ⟨n,hn⟩ : ∃ n, 1023 - (directPath config uri).length = n + 1 :=
      ⟨1022 - (directPath config uri).length,by omega⟩
    have sum : (directPath config uri).length + 1 + n = 1023 := by omega
    rw [directArrayBytes, List.drop_append, List.drop_of_length_le (by omega), List.nil_append, hn,
      List.drop_succ_cons, List.drop_drop, sum, List.drop_left' List.length_replicate]
  have zero : 1023 - (indexPath config uri).length = 0 := by omega
  rw [fallbackText, left, zero, List.replicate_zero, List.nil_append]
  exact mimeSuffix free nonempty dot known

theorem fallbackVaries {config uri} (bad : Unterminated config uri) :
    ∃ a b, mimeGetType (fallbackArray config uri a) ≠ mimeGetType (fallbackArray config uri b) := by
  refine ⟨List.replicate 1023 0 ++ ascii ".css",List.replicate 1023 0 ++ ascii ".js",?_⟩
  rw [fallbackLeft bad (by decide) (ascii ".css",ascii "text/css; charset=utf-8") (by decide),
    fallbackLeft bad (by decide) (ascii ".js",ascii "application/javascript; charset=utf-8") (by decide)]
  decide

/- The file that is found can be read and is not over the limit. -/
def Servable (size : Nat) (file : File) : Prop := size ≤ maxFileSize ∧ (file.read size).isSome

def Comparable (config : ServerConfig) (uri : Bytes) (disk : Disk) : Prop :=
  strcmpEq uri (ascii "/status") = false ∧
    (strstr (ascii "..") uri = none →
      match probe disk (directPath config uri) with
      | some (size,file) => Servable size file
      | none => match probe disk (indexPath config uri) with
        | some (size,file) => Servable size file ∧ ¬ Unterminated config uri
        | none => True)

theorem sameLookup {config uri disk} (cond : Comparable config uri disk) (file : Prop) (keepAlive : Bool)
    {wg wh} (diskG : wg.disk = fun _ => disk) (diskH : wh.disk = fun _ => disk) :
    SameReply file (getReply keepAlive (lookup config uri wg).1) (headReply keepAlive (lookup config uri wh).1) := by
  have cond := cond.2
  unfold lookup
  rw [diskG, diskH]
  cases dots : strstr (ascii "..") uri with
  | some found => exact sameRefl _ _
  | none =>
    have cond := cond dots
    cases direct : probe disk (directPath config uri) with
    | some found =>
      rw [direct] at cond
      exact (sameFound file keepAlive _ _ found.1 found.2).mpr ⟨cond.1,cond.2,by rw [directType, directType]⟩
    | none =>
      rw [direct] at cond
      cases index : probe disk (indexPath config uri) with
      | some found =>
        rw [index] at cond
        exact (sameFound file keepAlive _ _ found.1 found.2).mpr
          ⟨cond.1.1,cond.1.2,(fallbackType cond.2 wg.frame).trans (fallbackType cond.2 wh.frame).symm⟩
      | none => exact sameRefl _ _

/- A disk that stays as it is, and stack memory with some content. -/
def worldOn (disk : Disk) (frame : Bytes) : World := {emptyWorld with disk := fun _ => disk, frame := frame}

theorem lookupSame {config uri disk} {file : Prop} (path : strcmpEq uri (ascii "/status") = false) (keepAlive : Bool)
    (same : ∀ a b, SameReply file (getReply keepAlive (lookup config uri (worldOn disk a)).1)
      (headReply keepAlive (lookup config uri (worldOn disk b)).1)) : Comparable config uri disk := by
  refine ⟨path,fun dots => ?_⟩
  simp only [lookup, worldOn, dots] at same
  cases direct : probe disk (directPath config uri) with
  | some found =>
    simp only [direct] at same
    have cond := (sameFound file keepAlive _ _ found.1 found.2).mp (same [] [])
    exact ⟨cond.1,cond.2.1⟩
  | none =>
    cases index : probe disk (indexPath config uri) with
    | some found =>
      simp only [direct, index] at same
      have cond := (sameFound file keepAlive _ _ found.1 found.2).mp (same [] [])
      refine ⟨⟨cond.1,cond.2.1⟩,fun bad => ?_⟩
      obtain ⟨a,b,differ⟩ := fallbackVaries bad
      exact differ ((sameFound file keepAlive _ _ found.1 found.2).mp (same a b)).2.2
    | none => trivial

theorem getRoute {request : HttpRequest} (get : strcmpEq request.method (ascii "GET") = true) :
    route request = if strcmpEq request.uri (ascii "/status") then .status else .get := by
  unfold route
  cases strcmpEq request.uri (ascii "/status") <;> simp [get]

theorem headType (keepAlive : Bool) (l : Located) :
    (headReply keepAlive l).contentType ∈ ascii "text/html" :: mimeTypes := by
  cases l with
  | forbidden => exact List.mem_cons_self
  | missing => exact List.mem_cons_self
  | found path size file => exact List.mem_cons_of_mem _ (mimeKnown path)

/- The answers to one URI, for every state of the connection and of the stack. -/
def Agreeing (g h : HttpRequest) (config : ServerConfig) (disk : Disk) (keepAlive : Bool) : Prop :=
  ∀ cg ch wg wh, cg.keepAlive = keepAlive → ch.keepAlive = keepAlive →
    wg.disk = (fun _ => disk) → wh.disk = (fun _ => disk) →
    SameHead (strcmpEq g.uri (ascii "/status") = false) (written (httpHandleRequest g cg config wg).conn)
      (written (httpHandleRequest h ch config wh).conn)

theorem headAgreesWhen {g h : HttpRequest} (get : strcmpEq g.method (ascii "GET") = true)
    (head : strcmpEq h.method (ascii "HEAD") = true) (uri : g.uri = h.uri) (config disk keepAlive) :
    Agreeing g h config disk keepAlive ↔ Comparable config g.uri disk := by
  have replies : ∀ cg ch wg wh, SameHead (strcmpEq g.uri (ascii "/status") = false)
      (written (httpHandleRequest g cg config wg).conn) (written (httpHandleRequest h ch config wh).conn) ↔
      SameReply (strcmpEq g.uri (ascii "/status") = false)
        (reply g cg.keepAlive config wg) (reply h ch.keepAlive config wh) := fun cg ch wg wh =>
    sameHeadReply (handledReply g cg config wg) (handledReply h ch config wh)
      (replyPlain _ _ _ _) (replyPlain _ _ _ _)
  have headed : ∀ k w, reply h k config w = headReply k (lookup config g.uri w).1 := by
    intro k w
    rw [reply, headRoute.mpr head, uri]
    simp only [locateLookup, lookupCounted]
  simp only [Agreeing, replies, headed]
  cases path : strcmpEq g.uri (ascii "/status") with
  | true =>
    have got : ∀ k w, reply g k config w = statusReply k config (countRequest w) := by
      intro k w
      rw [reply, getRoute get, path]
      rfl
    refine ⟨fun agreeing => ?_,fun cond => absurd (path.symm.trans cond.1) (by decide)⟩
    have same := (agreeing {acceptedConnection 0 0 with keepAlive := keepAlive}
      {acceptedConnection 0 0 with keepAlive := keepAlive} (worldOn disk []) (worldOn disk []) rfl rfl rfl rfl).contentType
    have known := headType keepAlive (lookup config g.uri (worldOn disk [])).1
    rw [got] at same
    rw [← same] at known
    exact absurd known (by simp only [statusReply, okReply]; decide)
  | false =>
    have got : ∀ k w, reply g k config w = getReply k (lookup config g.uri w).1 := by
      intro k w
      rw [reply, getRoute get, path]
      simp only [Bool.false_eq_true, if_false, locateLookup, lookupCounted]
    simp only [got]
    constructor
    · intro agreeing
      exact lookupSame path keepAlive fun a b =>
        agreeing {acceptedConnection 0 0 with keepAlive := keepAlive}
          {acceptedConnection 0 0 with keepAlive := keepAlive} (worldOn disk a) (worldOn disk b) rfl rfl rfl rfl
    · rintro cond cg ch wg wh rfl keep diskG diskH
      rw [keep]
      exact sameLookup cond _ _ diskG diskH

theorem missingAgrees :
    Agreeing (getRequest "/none") (headRequest "/none") Main.defaults (fun _ => none) true ↔
      Comparable Main.defaults (getRequest "/none").uri (fun _ => none) :=
  @headAgreesWhen (getRequest "/none") (headRequest "/none") (by decide) (by decide) rfl _ _ _

/- A regular file above the limit of handle_get. -/
def largeFile : File :=
  { size := some 20000
    read := fun n => some (List.replicate (min n 20000) 0)
    sizeLong := fun n h => by cases h; decide
    readAtMost := fun n bs h => by cases h; simp }

theorem largeDisagrees :
    ¬ Agreeing (getRequest "/big.bin") (headRequest "/big.bin") Main.defaults (fun _ => some largeFile) true := by
  intro agreeing
  have answers := agreeing (acceptedConnection 5 0) (acceptedConnection 5 0)
    (worldOn (fun _ => some largeFile) []) (worldOn (fun _ => some largeFile) []) rfl rfl rfl rfl
  have same := (sameHeadReply (handledReply _ _ _ _) (handledReply _ _ _ _) (replyPlain _ _ _ _)
    (replyPlain _ _ _ _)).mp answers
  exact absurd same.status (by decide +kernel)

end EpollHttpServer.HeadGet
