import EpollHttpServer.Worker

/-! Where a response ends: its Content-Length against the bytes that follow the header.
A file can shrink between lseek and read, and an error raised for HEAD brings its page. -/
namespace EpollHttpServer.Delimiting
open CString Crlf HttpMessage HttpParser HttpResponse HttpRequest FileSystem

theorem replyLength (r : Reply) : r.message.contentLength = some r.contentLength := by
  simp only [Message.contentLength, lengthValues, readDecimalNat]

theorem delimitedReply {conn r} (plain : Plain r) (held : Holds conn r) :
    SelfDelimiting (written conn) ↔ r.contentLength = r.body.length := by
  have start : ascii "HTTP/1.1 " <+: r.message.status := List.prefix_append _ _
  rw [held.text, selfDelimitingRender (plainWellFormed plain), replyLength, Option.some.injEq]
  exact and_iff_right start

/- What read returns for a file that is served is what lseek announced. -/
def ReadsWhole (request : HttpRequest) (config : ServerConfig) (w : World) : Prop :=
  route request = .get → ∀ path size file bytes, (lookup config request.uri w).1 = .found path size file →
    size ≤ maxFileSize → file.read size = some bytes → size = bytes.length

theorem getDelimits (keepAlive : Bool) (l : Located) :
    (getReply keepAlive l).contentLength = (getReply keepAlive l).body.length ↔
      ∀ path size file bytes, l = .found path size file → size ≤ maxFileSize →
        file.read size = some bytes → size = bytes.length := by
  cases l with
  | forbidden => exact ⟨fun _ path size file bytes found => (nomatch found),fun _ => rfl⟩
  | missing => exact ⟨fun _ path size file bytes found => (nomatch found),fun _ => rfl⟩
  | found path size file =>
    simp only [getReply]
    split
    · rename_i large
      refine ⟨fun _ path' size' file' bytes found fits => ?_,fun _ => rfl⟩
      cases found
      omega
    · rename_i fits
      cases h : file.read size with
      | none =>
        refine ⟨fun _ path' size' file' bytes found _ read => ?_,fun _ => rfl⟩
        cases found
        exact absurd (h.symm.trans read) (by simp)
      | some bytes =>
        refine ⟨fun same path' size' file' bytes' found _ read => ?_,fun all => ?_⟩
        · cases found
          cases Option.some.inj (h.symm.trans read)
          exact same
        · exact all path size file bytes rfl (by omega) h

theorem lookupCounted (config uri w) : lookup config uri (countRequest w) = lookup config uri w := rfl

theorem headRoute {request : HttpRequest} :
    route request = .head ↔ strcmpEq request.method (ascii "HEAD") = true := by
  have exclusive : strcmpEq request.method (ascii "HEAD") = true →
      strcmpEq request.method (ascii "GET") = false := by
    intro head
    simp only [strcmpEq, beq_iff_eq] at head
    rw [strcmpEq, head]
    decide
  unfold route
  cases head : strcmpEq request.method (ascii "HEAD") with
  | true => simp [exclusive head]
  | false =>
    simp only [Bool.false_eq_true, if_false, iff_false]
    split <;> try split
    all_goals simp
    split <;> simp

theorem replyDelimits {request : HttpRequest} (other : strcmpEq request.method (ascii "HEAD") = false)
    (keepAlive config w) : (reply request keepAlive config w).contentLength =
      (reply request keepAlive config w).body.length ↔ ReadsWhole request config w := by
  have noHead : route request ≠ .head := fun h => by rw [headRoute, other] at h; contradiction
  unfold reply ReadsWhole
  cases path : route request with
  | status => exact ⟨fun _ get => (nomatch get),fun _ => rfl⟩
  | head => exact absurd path noHead
  | post => exact ⟨fun _ get => (nomatch get),fun _ => rfl⟩
  | other => exact ⟨fun _ get => (nomatch get),fun _ => rfl⟩
  | get =>
    simp only [forall_const, locateLookup, lookupCounted]
    exact getDelimits keepAlive _

theorem delimitedWhen {request : HttpRequest} (other : strcmpEq request.method (ascii "HEAD") = false)
    (conn config w) :
    (SelfDelimiting (written (httpHandleRequest request conn config w).conn) ↔
      ReadsWhole request config w) ∧
    SelfDelimiting (written (httpSendError conn 400 (ascii "Bad Request"))) := by
  have held := handledReply request conn config w
  have plain := replyPlain request conn.keepAlive config w
  refine ⟨(delimitedReply plain held).trans (replyDelimits other _ _ _),?_⟩
  exact (delimitedReply (@errorPlain 400 _ (by decide)) (sendErrorReply (by decide) conn)).mpr rfl

def getRequest (uri : String) : HttpRequest :=
  ⟨ascii "GET",ascii uri,ascii "HTTP/1.1",[],0,none,0,[],true,0⟩

theorem getDelimited : (SelfDelimiting
      (written (httpHandleRequest (getRequest "/") (acceptedConnection 5 0) Main.defaults emptyWorld).conn) ↔
        ReadsWhole (getRequest "/") Main.defaults emptyWorld) ∧
    SelfDelimiting (written (httpSendError (acceptedConnection 5 0) 400 (ascii "Bad Request"))) :=
  delimitedWhen (by decide) _ _ _

/- Ten bytes when its size was taken, empty when it is read. -/
def truncatedFile : File :=
  { size := some 10
    read := fun _ => some []
    sizeLong := fun n h => by cases h; decide
    readAtMost := fun n bs h => by cases h; exact Nat.zero_le n }

theorem truncatedUndelimited : ¬ SelfDelimiting (written (httpHandleRequest (getRequest "/a.txt")
    (acceptedConnection 5 0) Main.defaults {emptyWorld with disk := fun _ _ => some truncatedFile}).conn) := by
  intro delimiting
  have held := handledReply (getRequest "/a.txt") (acceptedConnection 5 0) Main.defaults
    {emptyWorld with disk := fun _ _ => some truncatedFile}
  have same := (delimitedReply (replyPlain _ _ _ _) held).mp delimiting
  exact absurd same (by decide +kernel)

/- write_len counts the status line, the header lines and the blank line, and nothing more. -/
def HeadersOnly (conn : ClientConnection) : Prop :=
  ∃ m, parse (written conn) = some m ∧ conn.writeLen = (unlines m.head ++ crlf).length

theorem headersOnlyReply {conn r} (plain : Plain r) (held : Holds conn r) :
    HeadersOnly conn ↔ r.body = [] := by
  unfold HeadersOnly
  rw [held.text, held.length, parseRender (plainWellFormed plain)]
  simp only [Option.some.injEq, exists_eq_left']
  rw [Message.render, List.length_append, Nat.add_eq_left, List.length_eq_zero_iff]
  rfl

theorem errorBody (code message) : (errorReply code message).body ≠ [] := by
  simp only [errorReply, errorPage, List.append_assoc]
  exact List.append_ne_nil_of_left_ne_nil (by decide) _

/- No ".." in the URI, and one of the two paths names what can be opened and measured. -/
def Found (config : ServerConfig) (uri : Bytes) (w : World) : Prop :=
  strstr (ascii "..") uri = none ∧
    ((probe (w.disk w.opened.length) (directPath config uri)).isSome ∨
      (probe (w.disk (w.opened.length + 1)) (indexPath config uri)).isSome)

theorem headBody (keepAlive : Bool) (config uri w) :
    (headReply keepAlive (lookup config uri w).1).body = [] ↔ Found config uri w := by
  unfold Found lookup
  cases dots : strstr (ascii "..") uri with
  | some found => simp [headReply, errorBody]
  | none =>
    cases direct : probe (w.disk w.opened.length) (directPath config uri) with
    | some found => simp [headReply, okReply]
    | none =>
      cases index : probe (w.disk (w.opened.length + 1)) (indexPath config uri) with
      | some found => simp [headReply, okReply]
      | none => simp [headReply, errorBody]

theorem headersOnlyWhen {request : HttpRequest} (head : strcmpEq request.method (ascii "HEAD") = true)
    (conn config w) :
    HeadersOnly (httpHandleRequest request conn config w).conn ↔ Found config request.uri w := by
  have held := handledReply request conn config w
  have plain := replyPlain request conn.keepAlive config w
  have same : reply request conn.keepAlive config w =
      headReply conn.keepAlive (lookup config request.uri w).1 := by
    rw [reply, headRoute.mpr head]
    simp only [locateLookup, lookupCounted]
  rw [headersOnlyReply plain held, same]
  exact headBody _ _ _ _

def headRequest (uri : String) : HttpRequest :=
  ⟨ascii "HEAD",ascii uri,ascii "HTTP/1.1",[],0,none,0,[],true,0⟩

theorem headMissing : HeadersOnly
      (httpHandleRequest (headRequest "/nope") (acceptedConnection 5 0) Main.defaults emptyWorld).conn ↔
    Found Main.defaults (headRequest "/nope").uri emptyWorld :=
  headersOnlyWhen (by decide) _ _ _

theorem missingHasBody : ¬ HeadersOnly
    (httpHandleRequest (headRequest "/missing") (acceptedConnection 5 0) Main.defaults emptyWorld).conn := by
  intro only
  have held := handledReply (headRequest "/missing") (acceptedConnection 5 0) Main.defaults emptyWorld
  have empty := (headersOnlyReply (replyPlain _ _ _ _) held).mp only
  exact absurd empty (by decide +kernel)

end EpollHttpServer.Delimiting
