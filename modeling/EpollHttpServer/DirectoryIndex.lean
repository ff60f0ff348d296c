import EpollHttpServer.NamedFile

/-! Directories. On Linux a directory can be opened and measured, and only read fails on it; the probe of the
handlers opens and measures, so it takes a directory for a file and the index page is not tried. -/
namespace EpollHttpServer.DirectoryIndex
open CString HttpMessage HttpParser HttpResponse HttpRequest FileSystem Mime Delimiting HeadGet NamedFile

/- A directory as open, lseek and read show it. -/
structure IsDirectory (file : File) : Prop where
  measured : ∃ n, file.size = some n
  unreadable : ∀ n, file.read n = none

/- A regular file that can be read and that a response can hold. -/
structure IsPage (file : File) (content : Bytes) : Prop where
  measured : file.size = some content.length
  readable : file.read content.length = some content
  fits : content.length ≤ maxFileSize

def RootUri (uri : Bytes) : Prop := uri = [] ∨ uri = ascii "/" ∨ uri = ascii "//"
instance (uri) : Decidable (RootUri uri) := by unfold RootUri; infer_instance

/- The path of a URI below the web root. -/
def pathBelow (root uri : Bytes) : Bytes :=
  if RootUri uri then root else root ++ ascii "/" ++ (if uri.head? = some 47 then uri.tail else uri)

/- At every open: a directory at the path, and an index page in it. -/
structure HasIndex (disk : Nat → Disk) (path content : Bytes) : Prop where
  directory : ∀ n, ∃ file, disk n path = some file ∧ IsDirectory file
  page : ∀ n, ∃ file, disk n (path ++ indexPage) = some file ∧ IsPage file content

/- GET brings the page with its type, and HEAD the header of that response. -/
def ServesIndex (get head path content : Bytes) : Prop :=
  ∃ a b, parse get = some a ∧ parse head = some b ∧
    a.status = ascii "HTTP/1.1 200 OK" ∧ a.values (ascii "Content-Type") = [mimeGetType (path ++ indexPage)] ∧
    a.values (ascii "Content-Length") = [decimalNat content.length] ∧ a.body = content ∧
    b.status = a.status ∧ b.values (ascii "Content-Type") = a.values (ascii "Content-Type") ∧
    b.values (ascii "Content-Length") = a.values (ascii "Content-Length") ∧ b.body = []

theorem rootRelative {uri : Bytes} : RootUri uri ↔ (if uri.head? = some 47 then uri.tail else uri) = [] ∨
    (if uri.head? = some 47 then uri.tail else uri) = ascii "/" := by
  have slash : ascii "/" = [47] := by decide
  have slashes : ascii "//" = [47,47] := by decide
  rw [RootUri, slash, slashes]
  cases uri with
  | nil => simp
  | cons b uri =>
    by_cases same : b = 47
    · simp [same]
    · simp [same]

theorem namedBelow (root uri : Bytes) :
    namedFile root uri = if RootUri uri then pathBelow root uri ++ indexPage else pathBelow root uri := by
  unfold namedFile pathBelow
  by_cases atRoot : RootUri uri
  · simp only [if_pos atRoot, if_pos (rootRelative.mp atRoot)]
  · simp only [if_neg atRoot, if_neg (fun h => atRoot (rootRelative.mpr h))]

theorem pathFree (root uri : Bytes) : (0 : UInt8) ∉ pathBelow (cstr root) (cstr uri) := by
  have tail : (0 : UInt8) ∉ (if (cstr uri).head? = some 47 then (cstr uri).tail else cstr uri) := by
    split
    · exact fun h => cstrFree uri (List.mem_of_mem_tail h)
    · exact cstrFree uri
  unfold pathBelow
  split
  · exact cstrFree root
  · simp only [List.mem_append, not_or]
    exact ⟨⟨cstrFree root,by decide⟩,tail⟩

theorem indexType {path : Bytes} (free : (0 : UInt8) ∉ path) :
    mimeGetType (path ++ indexPage) = ascii "text/html; charset=utf-8" := by
  have page : path ++ indexPage = (path ++ ascii "/index") ++ ascii ".html" := by
    rw [List.append_assoc]
    rfl
  have clean : (0 : UInt8) ∉ path ++ ascii "/index" := by
    rw [List.mem_append]
    exact not_or.mpr ⟨free,by decide⟩
  rw [page]
  exact mimeSuffix clean (by simp [ascii]) (by decide) (show _ = some (ascii ".html",ascii "text/html; charset=utf-8") by decide)

/- Both answers as replies. -/
theorem servesReplies {ca cb : ClientConnection} {a b : Reply} (holdsA : Holds ca a) (holdsB : Holds cb b) (plainA : Plain a)
    (plainB : Plain b) (path content : Bytes) : ServesIndex (HttpResponse.written ca) (HttpResponse.written cb) path content ↔
      a.status = ascii "200 OK" ∧ a.contentType = mimeGetType (path ++ indexPage) ∧
      decimalNat a.contentLength = decimalNat content.length ∧ a.body = content ∧
      b.status = a.status ∧ b.contentType = a.contentType ∧
      decimalNat b.contentLength = decimalNat a.contentLength ∧ b.body = [] := by
  have line (r : Reply) : r.message.status = ascii "HTTP/1.1 " ++ r.status := rfl
  have text (r : Reply) : r.message.body = r.body := rfl
  have ok : ascii "HTTP/1.1 200 OK" = ascii "HTTP/1.1 " ++ ascii "200 OK" := by decide
  unfold ServesIndex
  rw [holdsA.text, holdsB.text, parseRender (plainWellFormed plainA), parseRender (plainWellFormed plainB)]
  simp only [Option.some.injEq, exists_and_left, exists_eq_left', typeValues, lengthValues, List.cons.injEq, and_true, ok,
    line, text, List.append_right_inj]

/- A directory found at the path is answered with an error, whatever its size. -/
theorem directoryRefused {file : File} (directory : IsDirectory file) (filePath : Bytes) (size : Nat) (keepAlive : Bool) :
    (getReply keepAlive (.found filePath size file)).status ≠ ascii "200 OK" := by
  simp only [getReply]
  split
  · exact statusDiffers _ _ (by decide)
  · rw [directory.unreadable size]
    exact statusDiffers _ _ (by decide)

theorem pageFound {file : File} {content : Bytes} (page : IsPage file content) {disk : Disk} {path : Bytes}
    (there : disk path = some file) : probe disk path = some (content.length,file) := by
  simp only [probe, there, page.measured, bind, Option.bind]

theorem directoryFound {file : File} (directory : IsDirectory file) {disk : Disk} {path : Bytes}
    (there : disk path = some file) : ∃ size, probe disk path = some (size,file) := by
  obtain ⟨size,measured⟩ := directory.measured
  exact ⟨size,by simp only [probe, there, measured, bind, Option.bind]⟩

/- The replies to a URI whose path holds an index page. -/
theorem rootServed {config : ServerConfig} {uri content : Bytes} {w : World} (dots : strstr (ascii "..") uri = none)
    (atRoot : RootUri (cstr uri)) (state : HasIndex w.disk (pathBelow (cstr config.webRoot) (cstr uri)) content)
    (short : (pathBelow (cstr config.webRoot) (cstr uri) ++ indexPage).length ≤ 1023) :
    ∃ array file, (lookup config uri w).1 = .found array content.length file ∧ IsPage file content ∧
      mimeGetType array = mimeGetType (pathBelow (cstr config.webRoot) (cstr uri) ++ indexPage) := by
  have named := namedBelow (cstr config.webRoot) (cstr uri)
  rw [if_pos atRoot] at named
  have direct : directPath config uri = pathBelow (cstr config.webRoot) (cstr uri) ++ indexPage := by
    rw [← named]
    exact directWhole.mpr (by rw [named]; exact short)
  obtain ⟨file,there,page⟩ := state.page w.opened.length
  refine ⟨directArray config uri w.frame,file,?_,page,by rw [directType, direct]⟩
  simp only [lookup, dots, direct, pageFound page there]

theorem otherRefused {config : ServerConfig} {uri content : Bytes} {w : World} (dots : strstr (ascii "..") uri = none)
    (below : ¬ RootUri (cstr uri)) (state : HasIndex w.disk (pathBelow (cstr config.webRoot) (cstr uri)) content)
    (short : (pathBelow (cstr config.webRoot) (cstr uri) ++ indexPage).length ≤ 1023) :
    ∃ array size file, (lookup config uri w).1 = .found array size file ∧ IsDirectory file := by
  have named := namedBelow (cstr config.webRoot) (cstr uri)
  rw [if_neg below] at named
  have fits : (pathBelow (cstr config.webRoot) (cstr uri)).length ≤ 1023 := by
    rw [List.length_append] at short
    omega
  have direct : directPath config uri = pathBelow (cstr config.webRoot) (cstr uri) := by
    rw [← named]
    exact directWhole.mpr (by rw [named]; exact fits)
  obtain ⟨file,there,directory⟩ := state.directory w.opened.length
  obtain ⟨size,found⟩ := directoryFound directory there
  exact ⟨directArray config uri w.frame,size,file,by simp only [lookup, dots, direct, found],directory⟩

/- An index page is served for the root alone. -/
theorem indexServedWhen {g h : HttpRequest} (get : strcmpEq g.method (ascii "GET") = true)
    (head : strcmpEq h.method (ascii "HEAD") = true) (uri : g.uri = h.uri) (dots : strstr (ascii "..") g.uri = none)
    {config : ServerConfig} {content : Bytes} {wg wh : World}
    (stateG : HasIndex wg.disk (pathBelow (cstr config.webRoot) (cstr g.uri)) content)
    (stateH : HasIndex wh.disk (pathBelow (cstr config.webRoot) (cstr g.uri)) content)
    (short : (pathBelow (cstr config.webRoot) (cstr g.uri) ++ indexPage).length ≤ 1023) (cg ch : ClientConnection) :
    ServesIndex (HttpResponse.written (httpHandleRequest g cg config wg).conn)
        (HttpResponse.written (httpHandleRequest h ch config wh).conn) (pathBelow (cstr config.webRoot) (cstr g.uri)) content ↔
      RootUri (cstr g.uri) := by
  rw [servesReplies (handledReply g cg config wg) (handledReply h ch config wh) (replyPlain _ _ _ _) (replyPlain _ _ _ _)]
  have headed : reply h ch.keepAlive config wh = headReply ch.keepAlive (lookup config g.uri wh).1 := by
    rw [reply, headRoute.mpr head, uri]
    simp only [locateLookup, lookupCounted]
  have type := indexType (pathFree config.webRoot g.uri)
  constructor
  · rintro ⟨status,contentType,-⟩
    by_contra below
    obtain ⟨array,size,file,found,directory⟩ := otherRefused dots below stateG short
    cases path : strcmpEq g.uri (ascii "/status") with
    | true =>
      rw [reply, getRoute get, path, type] at contentType
      exact absurd contentType (by simp only [if_true, statusReply, okReply]; decide)
    | false =>
      rw [reply, getRoute get, path] at status
      simp only [Bool.false_eq_true, if_false, locateLookup, lookupCounted, found] at status
      exact directoryRefused directory array size cg.keepAlive status
  · intro atRoot
    obtain ⟨array,file,found,page,typed⟩ := rootServed dots atRoot stateG short
    obtain ⟨array',file',found',page',typed'⟩ := rootServed (w := wh) dots atRoot stateH short
    have path : strcmpEq g.uri (ascii "/status") = false := by
      have literal : cstr (ascii "/status") = ascii "/status" := by decide
      rw [strcmpEq, literal]
      rcases atRoot with same | same | same
      · rw [same]
        decide
      · rw [same]
        decide
      · rw [same]
        decide
    have got : reply g cg.keepAlive config wg = okReply (mimeGetType array) content.length cg.keepAlive content := by
      rw [reply, getRoute get, path]
      simp only [Bool.false_eq_true, if_false, locateLookup, lookupCounted, found, getReply,
        if_neg (Nat.not_lt.mpr page.fits), page.readable]
    rw [got, headed, found']
    exact ⟨rfl,typed,rfl,rfl,rfl,by rw [headReply, okReply, okReply, typed, typed'],rfl,rfl⟩

def docsDirectory : File :=
  { size := some 4096
    read := fun _ => none
    sizeLong := fun n h => by cases h; decide
    readAtMost := fun _ _ h => by contradiction }

def helloPage : File :=
  { size := some 5
    read := fun n => some ((ascii "hello").take n)
    sizeLong := fun n h => by cases h; decide
    readAtMost := fun n bs h => by cases h; exact List.length_take_le _ _ }

/- Two directories, each with its index page. -/
def siteDisk (path : Bytes) : Option File :=
  if path = ascii "./www" ∨ path = ascii "./www/docs" then some docsDirectory
  else if path = ascii "./www/index.html" ∨ path = ascii "./www/docs/index.html" then some helloPage
  else none

def siteWorld : World := worldOn siteDisk (List.replicate 1024 0)

theorem docsIsDirectory : IsDirectory docsDirectory := ⟨⟨4096,rfl⟩,fun _ => rfl⟩
theorem helloIsPage : IsPage helloPage (ascii "hello") := ⟨rfl,rfl,by decide⟩

theorem siteRoot : HasIndex siteWorld.disk (pathBelow (cstr Main.defaults.webRoot) (cstr (getRequest "/").uri)) (ascii "hello") := by
  have path : pathBelow (cstr Main.defaults.webRoot) (cstr (getRequest "/").uri) = ascii "./www" := by decide +kernel
  rw [path]
  exact ⟨fun _ => ⟨docsDirectory,rfl,docsIsDirectory⟩,fun _ => ⟨helloPage,rfl,helloIsPage⟩⟩

theorem siteDocs : HasIndex siteWorld.disk (pathBelow (cstr Main.defaults.webRoot) (cstr (getRequest "/docs").uri)) (ascii "hello") := by
  have path : pathBelow (cstr Main.defaults.webRoot) (cstr (getRequest "/docs").uri) = ascii "./www/docs" := by decide +kernel
  rw [path]
  exact ⟨fun _ => ⟨docsDirectory,rfl,docsIsDirectory⟩,fun _ => ⟨helloPage,rfl,helloIsPage⟩⟩

theorem siteRootServed : ServesIndex
      (HttpResponse.written (httpHandleRequest (getRequest "/") (acceptedConnection 5 0) Main.defaults siteWorld).conn)
      (HttpResponse.written (httpHandleRequest (headRequest "/") (acceptedConnection 5 0) Main.defaults siteWorld).conn)
      (pathBelow (cstr Main.defaults.webRoot) (cstr (getRequest "/").uri)) (ascii "hello") ↔ RootUri (cstr (getRequest "/").uri) :=
  @indexServedWhen (getRequest "/") (headRequest "/") (by decide) (by decide) rfl (by decide) Main.defaults (ascii "hello")
    siteWorld siteWorld siteRoot siteRoot (by decide +kernel) (acceptedConnection 5 0) (acceptedConnection 5 0)

/- The directory is opened, measured and not read: the index page beside it is not tried. -/
theorem siteDocsRefused :
    HasIndex siteWorld.disk (pathBelow (cstr Main.defaults.webRoot) (cstr (getRequest "/docs").uri)) (ascii "hello") ∧
    HttpResponse.written (httpHandleRequest (getRequest "/docs") (acceptedConnection 5 0) Main.defaults siteWorld).conn =
      (errorReply 500 (ascii "Internal Server Error")).message.render ∧
    ¬ ServesIndex
      (HttpResponse.written (httpHandleRequest (getRequest "/docs") (acceptedConnection 5 0) Main.defaults siteWorld).conn)
      (HttpResponse.written (httpHandleRequest (headRequest "/docs") (acceptedConnection 5 0) Main.defaults siteWorld).conn)
      (pathBelow (cstr Main.defaults.webRoot) (cstr (getRequest "/docs").uri)) (ascii "hello") := by
  have held := handledReply (getRequest "/docs") (acceptedConnection 5 0) Main.defaults siteWorld
  have answered : reply (getRequest "/docs") true Main.defaults siteWorld = errorReply 500 (ascii "Internal Server Error") := by
    decide +kernel
  have text := held.text.trans (congrArg (fun r => r.message.render) answered)
  refine ⟨siteDocs,text,fun serves => ?_⟩
  rw [servesReplies held (handledReply _ _ _ _) (replyPlain _ _ _ _) (replyPlain _ _ _ _)] at serves
  have status := (congrArg Reply.status answered).symm.trans serves.1
  exact absurd status (by decide)

end EpollHttpServer.DirectoryIndex
