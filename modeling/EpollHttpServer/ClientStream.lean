import EpollHttpServer.KeptAlive
import EpollHttpServer.Delimiting
import EpollHttpServer.PrintedHeaders
import EpollHttpServer.RequestLine
import EpollHttpServer.NamedFile
import EpollHttpServer.DirectoryIndex
import EpollHttpServer.Lib.HttpStream

/-! What the client of a kept connection reads. It sends one request after another, in any pieces, and
splits what comes back into messages; it gets the answers to its requests exactly when each of them tells
where it ends, and for files that are there it gets the files. -/
namespace EpollHttpServer.ClientStream
open CString Crlf HttpMessage HttpStream HttpParser HttpResponse HttpRequest FileSystem Framing Worker KeptAlive
open Delimiting

section
variable (malloc : Nat → Bool) (config : ServerConfig)

def parsedAlone (r : Bytes) : Option HttpRequest := httpParseRequest malloc (buffered r) r.length

/- No body is waited for after HEAD. -/
def asksHead (r : Bytes) : Bool := (parsedAlone malloc r).any (fun req => strcmpEq req.method (ascii "HEAD"))

/- The n-th answer is computed in the n-th world. -/
def answers (worlds : Nat → World) : Nat → List Bytes → List Message
  | _,[] => []
  | n,r::rs => (answer (parsedAlone malloc r) config (worlds n)).message :: answers worlds (n+1) rs

/- HEAD asks for what can be found, and of a file that is sent as much is read as was announced. -/
def Framed (w : World) (r : Bytes) : Prop := ∀ req, parsedAlone malloc r = some req →
  if strcmpEq req.method (ascii "HEAD") = true then Found config req.uri w else ReadsWhole req config w

end

section
variable {malloc : Nat → Bool} {config : ServerConfig} {worlds : Nat → World}

theorem responsesRendered (n : Nat) (rs : List Bytes) : responses malloc config worlds n rs =
    ((answers malloc config worlds n rs).map Message.render).flatten := by
  induction rs generalizing n with
  | nil => rfl
  | cons r rs ih =>
    simp only [responses, answers, List.map_cons, List.flatten_cons, ← ih, responseText]
    rfl

theorem answersLength (n : Nat) (rs : List Bytes) : (answers malloc config worlds n rs).length = rs.length := by
  induction rs generalizing n with
  | nil => rfl
  | cons r rs ih => rw [answers, List.length_cons, List.length_cons, ih]

theorem headAnswer {req : HttpRequest} (head : strcmpEq req.method (ascii "HEAD") = true) (w : World) :
    (answer (some req) config w).body = [] ↔ Found config req.uri w := by
  have same : answer (some req) config w = headReply req.keepAlive (lookup config req.uri w).1 := by
    rw [answer, reply, headRoute.mpr head]
    simp only [locateLookup, lookupCounted]
  rw [same]
  exact headBody _ _ _ _

theorem answerDelimited {req : HttpRequest} {w : World} :
    Delimited (strcmpEq req.method (ascii "HEAD")) (answer (some req) config w).message ↔
      if strcmpEq req.method (ascii "HEAD") = true then Found config req.uri w else ReadsWhole req config w := by
  cases head : strcmpEq req.method (ascii "HEAD") with
  | true =>
    rw [if_pos rfl]
    exact headAnswer head w
  | false =>
    rw [if_neg Bool.false_ne_true]
    rw [Delimited, replyLength, Option.some.injEq]
    exact replyDelimits head req.keepAlive config w

/- Each answer with what its client knows of it. -/
theorem answersDelimited {n : Nat} {rs : List Bytes} (parses : ∀ r ∈ rs, parsedAlone malloc r ≠ none) :
    (∀ x ∈ (rs.map (asksHead malloc)).zip (answers malloc config worlds n rs), Delimited x.1 x.2) ↔
      ∀ i r, rs[i]? = some r → Framed malloc config (worlds (n+i)) r := by
  induction rs generalizing n with
  | nil => simp
  | cons r rs ih =>
    have later := @ih (n+1) (fun q hq => parses q (List.mem_cons_of_mem r hq))
    obtain ⟨req,parsed⟩ := Option.ne_none_iff_exists'.mp (parses r List.mem_cons_self)
    have first : Delimited (asksHead malloc r) (answer (parsedAlone malloc r) config (worlds n)).message ↔
        Framed malloc config (worlds n) r := by
      simp only [asksHead, Framed, parsed, Option.any_some, Option.some.injEq, forall_eq', answerDelimited]
    simp only [List.map_cons, answers, List.zip_cons_cons, List.forall_mem_cons, first, later]
    constructor
    · rintro ⟨here,there⟩ i q at_
      cases i with
      | zero =>
        cases Option.some.inj at_
        exact here
      | succ i =>
        rw [← Nat.add_assoc, Nat.add_right_comm]
        exact there i q at_
    · intro all
      refine ⟨all 0 r rfl,fun i q at_ => ?_⟩
      have there := all (i+1) q at_
      rw [← Nat.add_assoc, Nat.add_right_comm] at there
      exact there

theorem answersWellFormed {n : Nat} {rs : List Bytes} : ∀ m ∈ answers malloc config worlds n rs, WellFormed m := by
  induction rs generalizing n with
  | nil => exact fun m member => absurd member List.not_mem_nil
  | cons r rs ih =>
    intro m member
    rcases List.mem_cons.mp member with rfl | member
    · exact plainWellFormed (answerPlain _ _ _)
    · exact ih m member

theorem streamSplits {n : Nat} {rs : List Bytes} (parses : ∀ r ∈ rs, parsedAlone malloc r ≠ none) :
    readStream (rs.map (asksHead malloc)) (responses malloc config worlds n rs) = some (answers malloc config worlds n rs) ↔
      ∀ i r, rs[i]? = some r → Framed malloc config (worlds (n+i)) r := by
  have size : (rs.map (asksHead malloc)).length = (answers malloc config worlds n rs).length := by
    rw [answersLength, List.length_map]
  have split := @streamRendered ((rs.map (asksHead malloc)).zip (answers malloc config worlds n rs))
    (fun x member => answersWellFormed x.2 (List.of_mem_zip member).2)
  have texts : ((rs.map (asksHead malloc)).zip (answers malloc config worlds n rs)).map (fun x => x.2.render) =
      (answers malloc config worlds n rs).map Message.render := by
    have seconds := congrArg (List.map Message.render) (List.map_snd_zip size.ge)
    rw [List.map_map] at seconds
    exact seconds
  rw [List.map_fst_zip size.le, List.map_snd_zip size.ge, texts] at split
  rw [responsesRendered, split]
  exact answersDelimited parses

theorem alignedSent {rs : List Bytes} {wakes : List Wake} (requests : ∀ r ∈ rs, Request malloc r)
    (room : ∀ r ∈ rs, r.length ≤ bufferSize - 2) (aligned : Aligned wakes rs) (delivers : ∀ k ∈ wakes, Delivers k.sends 0)
    (fd : Nat) (now : Int) :
    (session malloc config worlds (started fd now) wakes).sent = responses malloc config worlds 0 rs ∧
    (session malloc config worlds (started fd now) wakes).live = true := by
  obtain ⟨groups,rfl,rfl⟩ := aligned.groups
  have start : Holding (started fd now) [] 0 [] := ⟨acceptedPartly fd now,rfl,rfl,rfl⟩
  have done := @groupsAnswer malloc config worlds groups
    (fun g hg k hk => delivers k (List.mem_flatten.mpr ⟨g,hg,hk⟩))
    (fun r hr => ⟨requests r hr,room r hr,aligned.complete r hr⟩) _ _ _ start
  exact ⟨by simpa using done.sent,done.live⟩

end

/- Requests that end where a wake-up ends: the client reads exactly their answers, one for each and in order,
when no HEAD asks for what is not there and no file shrinks while it is sent, and only then. -/
theorem streamRead {malloc : Nat → Bool} {rs : List Bytes} {wakes : List Wake} (requests : ∀ r ∈ rs, Request malloc r)
    (room : ∀ r ∈ rs, r.length ≤ bufferSize - 2) (aligned : Aligned wakes rs) (delivers : ∀ k ∈ wakes, Delivers k.sends 0)
    (config : ServerConfig) (worlds : Nat → World) (fd : Nat) (now : Int) :
    readStream (rs.map (asksHead malloc)) (session malloc config worlds (started fd now) wakes).sent =
        some (answers malloc config worlds 0 rs) ↔
      ∀ i r, rs[i]? = some r → Framed malloc config (worlds i) r := by
  rw [(alignedSent requests room aligned delivers fd now).1]
  have parses : ∀ r ∈ rs, parsedAlone malloc r ≠ none := by
    intro r member absent
    obtain ⟨req,parsed,_⟩ := (requests r member).parsed
    rw [parsedAlone, parsed] at absent
    contradiction
  have split := @streamSplits malloc config worlds 0 rs parses
  simpa only [Nat.zero_add] using split

/- Nothing is found, so nothing is read. -/
theorem emptyReads (req : HttpRequest) : ReadsWhole req Main.defaults emptyWorld := by
  intro _ path size file bytes found
  unfold lookup at found
  split at found
  · contradiction
  · exact absurd found (by simp [probe, emptyWorld])

theorem rootFramed : Framed (fun _ => true) Main.defaults emptyWorld rootRequest := by
  intro req parsed
  have get : (parsedAlone (fun _ => true) rootRequest).map (fun req => strcmpEq req.method (ascii "HEAD")) = some false := by
    decide +kernel
  rw [parsed] at get
  have head : strcmpEq req.method (ascii "HEAD") = false := Option.some.inj get
  rw [head, if_neg Bool.false_ne_true]
  exact emptyReads req

/- Two answers to two requests that came in three pieces. -/
theorem pairRead : readStream [false,false]
      (session (fun _ => true) Main.defaults (fun _ => emptyWorld) (started 5 0) threeWakes).sent =
    some (answers (fun _ => true) Main.defaults (fun _ => emptyWorld) 0 [rootRequest,rootRequest]) := by
  have flags : [rootRequest,rootRequest].map (asksHead (fun _ => true)) = [false,false] := by decide +kernel
  have read := (streamRead rootPair (by decide) threeAligned (by simp [threeWakes, oneWake, Delivers]) Main.defaults
    (fun _ => emptyWorld) 5 0).mpr (fun i r at_ => by
      have member := List.mem_of_getElem? at_
      simp only [List.mem_cons, List.not_mem_nil, or_false, or_self] at member
      rw [member]
      exact rootFramed)
  rw [flags] at read
  exact read

/- A GET as a client writes it. -/
structure Ask where
  uri : Bytes
  headers : List (Bytes × Bytes)

def Ask.line (a : Ask) : Bytes := RequestLine.requestLine (ascii "GET") a.uri (ascii "HTTP/1.1")

def Ask.text (a : Ask) : Bytes := unlines (a.line::a.headers.map PrintedHeaders.printed) ++ crlf

/- Within the limits of the parser and of the buffer, to be kept and without a body. Names are in ASCII, as the
literal that is_request_complete looks for is not. -/
structure Sendable (a : Ask) : Prop where
  uri : RequestLine.Word a.uri maxUriLength
  short : a.line.length ≤ 1023
  few : a.headers.length ≤ maxHeaders
  each : ∀ f ∈ a.headers, PrintedHeaders.Printable f
  names : ∀ f ∈ a.headers, ∀ b ∈ f.1, b < 128
  keeps : LastWins.lastOf connectionOf true a.headers = true
  bodyless : LastWins.lastOf lengthOf 0 a.headers ≤ 0
  room : a.text.length ≤ bufferSize - 2

section
variable {malloc : Nat → Bool} {config : ServerConfig} {a : Ask}

theorem lineNoNul (ok : Sendable a) : (0 : UInt8) ∉ a.line :=
  RequestLine.lineText RequestLine.getWord ok.uri RequestLine.versionOne (Or.inr rfl) (by decide)

theorem lineNoCr (ok : Sendable a) : (13 : UInt8) ∉ a.line :=
  RequestLine.lineText RequestLine.getWord ok.uri RequestLine.versionOne (Or.inl (by decide)) (by decide)

theorem headerLines (ok : Sendable a) : ∀ l ∈ a.headers.map PrintedHeaders.printed, HeaderLine l := by
  intro l member
  obtain ⟨f,inside,rfl⟩ := List.mem_map.mp member
  exact PrintedHeaders.printedLine (ok.each f inside)

theorem textHead (ok : Sendable a) (rest : Bytes) :
    Head (a.text ++ rest) (a.line::a.headers.map PrintedHeaders.printed) rest := by
  have free : ∀ l ∈ a.line::a.headers.map PrintedHeaders.printed, CrlfFree l := by
    intro l member
    rcases List.mem_cons.mp member with rfl | member
    · exact freeOfNoCr (lineNoCr ok)
    · exact (headerLines ok l member).free
  exact headOfLines (List.cons_ne_nil _ _) free (fun l member => (headerLines ok l member).text) rest

theorem textNoNul (ok : Sendable a) : (0 : UInt8) ∉ a.text := by
  have each : ∀ l ∈ a.line::a.headers.map PrintedHeaders.printed, (0 : UInt8) ∉ l := by
    intro l member
    rcases List.mem_cons.mp member with rfl | member
    · exact lineNoNul ok
    · exact (headerLines ok l member).nul
  intro zero
  rcases List.mem_append.mp zero with zero | zero
  · obtain ⟨t,member,inside⟩ := List.mem_flatten.mp zero
    obtain ⟨l,listed,rfl⟩ := List.mem_map.mp member
    rcases List.mem_append.mp inside with inside | inside
    · exact each l listed inside
    · exact absurd inside (by decide)
  · exact absurd zero (by decide)

/- The blank line ends the text, and what the buffer holds behind it is no part of the head. -/
theorem textEnds (ok : Sendable a) (rest : Bytes) : ∃ h, FirstAt blank (a.text ++ rest) h ∧ a.text.length = h + 4 ∧
    lines ((a.text ++ rest).take h) = a.line::a.headers.map PrintedHeaders.printed ∧ (a.text ++ rest).drop (h+4) = rest := by
  obtain ⟨h,first,lined,left⟩ := headAt (textHead ok rest)
  have long := first.here.length_le
  have size := congrArg List.length left
  simp only [List.length_drop, List.length_append, blank, crlf, List.length_cons, List.length_nil] at long size
  exact ⟨h,first,by omega,lined,left⟩

theorem lowerAscii {b : UInt8} (small : b < 128) : tolower b ≠ 0xE2 := by
  unfold tolower
  split
  · rename_i upper
    simp only [Bool.and_eq_true, decide_eq_true_eq] at upper
    intro same
    have number := congrArg UInt8.toNat same
    have low := UInt8.le_iff_toNat_le.mp upper.1
    have high := UInt8.le_iff_toNat_le.mp upper.2
    simp at number low high
    omega
  · rintro rfl
    exact absurd small (by decide)

/- A header whose name is in ASCII does not open as the literal does. -/
theorem asciiOpens {f : Bytes × Bytes} (ok : PrintedHeaders.Printable f) (names : ∀ b ∈ f.1, b < 128) :
    opensLength (PrintedHeaders.printed f) = false := by
  have nul : (0 : UInt8) ∉ f.1 := fun zero => (ok.name 0 zero).2.2.2 rfl
  have stop := @strncasecmpStop f.1 contentLengthName 15 58 nul (by decide) (by decide) (by decide) (32::f.2)
  have text : PrintedHeaders.printed f = f.1 ++ 58::32::f.2 := by simp [PrintedHeaders.printed]
  rw [opensLength, text, stop.1]
  refine beq_eq_false_iff_ne.mpr (fun same => ?_)
  have hyphen : (0xE2 : UInt8) ∈ ((cstr contentLengthName).take 15).map tolower := by decide
  rw [← same, cstrOfFree nul] at hyphen
  obtain ⟨b,inside,lower⟩ := List.mem_map.mp hyphen
  exact lowerAscii (names b (List.mem_of_mem_take inside)) lower

theorem getOpens (a : Ask) : opensLength a.line = false := by
  have first : a.line = 71::(ascii "ET" ++ 32::(a.uri ++ 32::ascii "HTTP/1.1")) := by
    have get : ascii "GET" = 71::ascii "ET" := by decide
    simp only [Ask.line, RequestLine.requestLine, get, List.cons_append]
  rw [first]
  refine beq_eq_false_iff_ne.mpr (fun same => ?_)
  have heads := congrArg List.head? same
  simp [cstr, contentLengthName, ascii, tolower] at heads

theorem announcedNothing {ls : List Bytes} (closed : ∀ l ∈ ls, opensLength l = false) (rest : Bytes) :
    announced ls rest = 0 := by
  induction ls with
  | nil => rfl
  | cons l ls ih =>
    rw [announced, closed l List.mem_cons_self, if_neg Bool.false_ne_true]
    exact ih (fun k member => closed k (List.mem_cons_of_mem _ member))

/- Found complete with the last byte. -/
theorem textComplete (ok : Sendable a) : (isRequestComplete (buffered a.text) a.text.length 0).1 = true := by
  have room : a.text.length ≤ 4094 := ok.room
  obtain ⟨h,first,size,lined,_⟩ := textEnds ok (List.replicate (bufferSize - a.text.length) 0)
  rw [← buffered] at first lined
  have visible : (0 : UInt8) ∉ (buffered a.text).take h := by
    have part : (buffered a.text).take h = a.text.take h := List.take_append_of_le_length (by omega)
    rw [part]
    exact fun zero => textNoNul ok (List.mem_of_mem_take zero)
  have nothing : announced (lines ((buffered a.text).take h)) ((buffered a.text).drop (h+4)) = 0 := by
    refine announcedNothing (fun l member => ?_) _
    rw [lined] at member
    rcases List.mem_cons.mp member with rfl | member
    · exact getOpens a
    · obtain ⟨f,inside,rfl⟩ := List.mem_map.mp member
      exact asciiOpens (ok.each f inside) (ok.names f inside)
  have whole : wrapInt ((h : Int) + 4 + 0) = h + 4 + 0 := wrapIntRange (by omega) (by omega)
  rw [completeHead first visible, nothing, whole]
  simp only [decide_eq_true_eq]
  omega

theorem addLinesLine (ls : List Bytes) (r : HttpRequest) :
    RequestLine.lineOf (ls.foldl addLine r) = RequestLine.lineOf r := by
  induction ls generalizing r with
  | nil => rfl
  | cons l ls ih => rw [List.foldl_cons, ih, addLine, RequestLine.addHeaderLine]

theorem askParsed (ok : Sendable a) (malloc : Nat → Bool) : ∃ req, parsedAlone malloc a.text = some req ∧
    RequestLine.lineOf req = (ascii "GET",a.uri,ascii "HTTP/1.1") ∧ req.keepAlive = true ∧ req.contentLength ≤ 0 := by
  obtain ⟨n,zeros⟩ : ∃ n, bufferSize - a.text.length = n + 1 := by
    have room : a.text.length ≤ 4094 := ok.room
    exact ⟨bufferSize - a.text.length - 1,by simp only [bufferSize]; omega⟩
  have raw : buffered a.text = a.line ++ crlf ++
      (unlines (a.headers.map PrintedHeaders.printed) ++ (crlf ++ 0::List.replicate n 0)) := by
    rw [buffered, zeros, List.replicate_succ]
    simp only [Ask.text, unlinesCons, List.append_assoc]
  obtain ⟨r,parsed,fields⟩ := RequestLine.lineParsed RequestLine.getWord ok.uri RequestLine.versionOne httpRequestInit
  have headers := headerLines ok
  have ends : Ends (crlf ++ 0::List.replicate n 0) := Or.inl (List.prefix_append _ _)
  have keeps := addLinesKeeps (requestLineKeeps parsed) (fun l member => (headers l member).nul)
    (fun l member => (headers l member).free) (Nat.zero_le _)
  rw [List.nil_append, PrintedHeaders.storedPrinted ok.each, List.take_of_length_le ok.few] at keeps
  have bodyless : parseBody malloc (buffered a.text) a.text.length (afterHead (crlf ++ 0::List.replicate n 0))
      ((a.headers.map PrintedHeaders.printed).foldl addLine r) = (a.headers.map PrintedHeaders.printed).foldl addLine r := by
    rw [parseBody, if_neg]
    rintro ⟨_,data,_⟩
    exact data rfl
  have line : parseRequestLine (a.line.take 1023) httpRequestInit = some r := by
    rw [List.take_of_length_le ok.short]
    exact parsed
  refine ⟨(a.headers.map PrintedHeaders.printed).foldl addLine r,?_,?_,keeps.keepAlive.trans ok.keeps,?_⟩
  · rw [parsedAlone, raw, parseLines (freeOfNoCr (lineNoCr ok)) (lineNoNul ok) headers ends, line, Option.map_some, ← raw,
      bodyless]
  · rw [addLinesLine, fields]
  · rw [keeps.contentLength]
    exact ok.bodyless

theorem askRequest (ok : Sendable a) (malloc : Nat → Bool) : Request malloc a.text := by
  obtain ⟨req,parsed,_,keep,bodyless⟩ := askParsed ok malloc
  obtain ⟨h,first,size,_⟩ := textEnds ok []
  rw [List.append_nil] at first
  exact ⟨textNoNul ok,⟨h,first,size⟩,req,parsed,keep,bodyless⟩

end

/- Below the web root and within file_path there is a file of these contents, and it stays as it is until it
is read. -/
structure Stocked (config : ServerConfig) (w : World) (uri content : Bytes) : Prop where
  other : uri ≠ ascii "/status"
  dots : ¬ ascii ".." <:+: uri
  short : (NamedFile.namedFile (cstr config.webRoot) uri).length ≤ 1023
  small : content.length ≤ maxFileSize
  file : ∃ file, probe (w.disk w.opened.length) (NamedFile.namedFile (cstr config.webRoot) uri) = some (content.length,file) ∧
    file.read content.length = some content

/- A file as a message. -/
def fileMessage (config : ServerConfig) (uri content : Bytes) : Message :=
  { status := ascii "HTTP/1.1 200 OK"
    fields := [⟨ascii "Server",ascii "SimpleHTTP/1.0"⟩,
      ⟨ascii "Content-Type",Mime.mimeGetType (NamedFile.namedFile (cstr config.webRoot) uri)⟩,
      ⟨ascii "Content-Length",decimalNat content.length⟩,
      ⟨ascii "Connection",ascii "keep-alive"⟩]
    body := content }

section
variable {malloc : Nat → Bool} {config : ServerConfig} {w : World}

theorem stockedFound {req : HttpRequest} {content : Bytes} (stocked : Stocked config w (cstr req.uri) content) :
    ∃ file, (lookup config req.uri w).1 = .found (directArray config req.uri w.frame) content.length file ∧
      file.read content.length = some content := by
  obtain ⟨file,there,read⟩ := stocked.file
  have dots : strstr (ascii "..") req.uri = none := strstrAbsent (by decide) (by decide) stocked.dots
  have path := NamedFile.directWhole.mpr stocked.short
  refine ⟨file,?_,read⟩
  simp only [lookup, dots, path, there]

theorem stockedAnswer {req : HttpRequest} {content : Bytes} (get : cstr req.method = ascii "GET") (keep : req.keepAlive = true)
    (stocked : Stocked config w (cstr req.uri) content) :
    (answer (some req) config w).message = fileMessage config (cstr req.uri) content := by
  have isGet : strcmpEq req.method (ascii "GET") = true := by
    rw [strcmpEq, get]
    decide
  have other : strcmpEq req.uri (ascii "/status") = false := by
    rw [strcmpEq]
    exact beq_eq_false_iff_ne.mpr stocked.other
  have isFile : route req = .get := by simp only [route, isGet, other, Bool.and_false, Bool.false_eq_true, if_false, if_true]
  obtain ⟨file,found,read⟩ := stockedFound stocked
  have small := stocked.small
  have type : Mime.mimeGetType (directArray config req.uri w.frame) =
      Mime.mimeGetType (NamedFile.namedFile (cstr config.webRoot) (cstr req.uri)) := by
    rw [Mime.mimeCstr, directArrayText, NamedFile.directWhole.mpr stocked.short]
  simp only [answer, reply, isFile, locateLookup, lookupCounted, found, getReply, if_neg (Nat.not_lt.mpr small), read, keep, type]
  have status : ascii "HTTP/1.1 " ++ ascii "200 OK" = ascii "HTTP/1.1 200 OK" := by decide
  simp only [Reply.message, okReply, fileMessage, status, connectionValue, if_true]

theorem askAnswer {a : Ask} {content : Bytes} (ok : Sendable a) (stocked : Stocked config w a.uri content) :
    (answer (parsedAlone malloc a.text) config w).message = fileMessage config a.uri content := by
  obtain ⟨req,parsed,line,keep,_⟩ := askParsed ok malloc
  obtain ⟨get,rest⟩ := Prod.mk.inj line
  have uri := (Prod.mk.inj rest).1
  rw [← uri] at stocked ⊢
  rw [parsed]
  exact stockedAnswer get keep stocked

theorem fileReply (config : ServerConfig) (uri content : Bytes) : fileMessage config uri content =
    (okReply (Mime.mimeGetType (NamedFile.namedFile (cstr config.webRoot) uri)) content.length true content).message := by
  have status : ascii "HTTP/1.1 " ++ ascii "200 OK" = ascii "HTTP/1.1 200 OK" := by decide
  simp only [Reply.message, okReply, fileMessage, status, connectionValue, if_true]

/- Its length field tells where it ends, and no GET is taken for a HEAD. -/
theorem fileDelimited (config : ServerConfig) (uri content : Bytes) : Delimited false (fileMessage config uri content) := by
  rw [Delimited, fileReply, replyLength]
  rfl

theorem fileLong {n : Nat} (small : n ≤ maxFileSize) : n < 2^63 := by
  have limit : maxFileSize < 2^63 := by decide
  omega

theorem filesRead (config : ServerConfig) {asks : List (Ask × Bytes)} (small : ∀ a ∈ asks, a.2.length ≤ maxFileSize) :
    readStream (asks.map (fun _ => false)) ((asks.map (fun a => fileMessage config a.1.uri a.2)).map Message.render).flatten =
      some (asks.map (fun a => fileMessage config a.1.uri a.2)) := by
  have read := @streamRendered (asks.map (fun a => (false,fileMessage config a.1.uri a.2))) (fun x member => by
    obtain ⟨a,inside,rfl⟩ := List.mem_map.mp member
    dsimp only
    rw [fileReply]
    exact plainWellFormed (okPlain true a.2 (mimeContentType _) (fileLong (small a inside))))
  simp only [List.map_map, Function.comp_def] at read ⊢
  rw [read]
  intro x member
  obtain ⟨a,_,rfl⟩ := List.mem_map.mp member
  exact fileDelimited config a.1.uri a.2

theorem answersFiles {worlds : Nat → World} {asks : List (Ask × Bytes)} {n : Nat} (ok : ∀ a ∈ asks, Sendable a.1)
    (stocked : ∀ i a, asks[i]? = some a → Stocked config (worlds (n+i)) a.1.uri a.2) :
    answers malloc config worlds n (asks.map (fun a => a.1.text)) = asks.map (fun a => fileMessage config a.1.uri a.2) := by
  induction asks generalizing n with
  | nil => rfl
  | cons a asks ih =>
    have first := @askAnswer malloc config (worlds n) a.1 a.2 (ok a List.mem_cons_self) (stocked 0 a rfl)
    have later := @ih (n+1) (fun b member => ok b (List.mem_cons_of_mem a member)) (fun i b at_ => by
      have there := stocked (i+1) b at_
      rw [← Nat.add_assoc, Nat.add_right_comm] at there
      exact there)
    rw [List.map_cons, answers, first, later, List.map_cons]

end

/- A client that asks for files that are there, one after another on one connection and in any pieces, reads
exactly those files, and the connection stays open. -/
theorem filesServed {config : ServerConfig} {asks : List (Ask × Bytes)} {groups : List (List Wake)}
    (ok : ∀ a ∈ asks, Sendable a.1) (pieces : groups.map (fun g => (g.map Wake.burst).flatten) = asks.map (fun a => a.1.text))
    (delivers : ∀ k ∈ groups.flatten, Delivers k.sends 0) {worlds : Nat → World}
    (stocked : ∀ i a, asks[i]? = some a → Stocked config (worlds i) a.1.uri a.2) (malloc : Nat → Bool) (fd : Nat) (now : Int) :
    readStream (asks.map (fun _ => false)) (session malloc config worlds (started fd now) groups.flatten).sent =
      some (asks.map (fun a => fileMessage config a.1.uri a.2)) ∧
    (session malloc config worlds (started fd now) groups.flatten).live = true := by
  have texts : ∀ r ∈ asks.map (fun a => a.1.text), ∃ a ∈ asks, a.1.text = r := fun r member => List.mem_map.mp member
  have requests : ∀ r ∈ asks.map (fun a => a.1.text), Request malloc r := by
    intro r member
    obtain ⟨a,inside,rfl⟩ := texts r member
    exact askRequest (ok a inside) malloc
  have room : ∀ r ∈ asks.map (fun a => a.1.text), r.length ≤ bufferSize - 2 := by
    intro r member
    obtain ⟨a,inside,rfl⟩ := texts r member
    exact (ok a inside).room
  have aligned : Aligned groups.flatten (asks.map (fun a => a.1.text)) := by
    refine ⟨⟨groups,rfl,pieces.symm⟩,fun r member => ?_⟩
    obtain ⟨a,inside,rfl⟩ := texts r member
    exact textComplete (ok a inside)
  have sent := @alignedSent malloc config worlds _ _ requests room aligned delivers fd now
  have files := @answersFiles malloc config worlds asks 0 ok (by simpa only [Nat.zero_add] using stocked)
  have small : ∀ a ∈ asks, a.2.length ≤ maxFileSize := by
    intro a member
    obtain ⟨i,at_⟩ := List.mem_iff_getElem?.mp member
    exact (stocked i a at_).small
  refine ⟨?_,sent.2⟩
  rw [sent.1, responsesRendered, files]
  exact filesRead config small

def noteWorld : World := {emptyWorld with disk := fun _ path => if path = ascii "./www/a.txt" then some DirectoryIndex.helloPage else none}

def noteAsk : Ask := ⟨ascii "/a.txt",[(ascii "Host",ascii "a")]⟩

theorem noteSendable : Sendable noteAsk := by
  refine ⟨⟨by decide,by decide,by decide +kernel⟩,by decide,by decide,?_,?_,by decide +kernel,by decide +kernel,by decide +kernel⟩
  · intro f member
    cases List.mem_singleton.mp member
    exact ⟨by decide,by decide +kernel,by decide,by decide +kernel,by decide⟩
  · intro f member
    cases List.mem_singleton.mp member
    decide +kernel

theorem noteStocked : Stocked Main.defaults noteWorld noteAsk.uri (ascii "hello") := by
  refine ⟨by decide,by decide +kernel,by decide +kernel,by decide,DirectoryIndex.helloPage,?_,by decide⟩
  have path : NamedFile.namedFile (cstr Main.defaults.webRoot) noteAsk.uri = ascii "./www/a.txt" := by decide +kernel
  simp only [path, probe, noteWorld, if_true]
  rfl

/- The same file twice, the first time asked for in two pieces. -/
def noteWakes : List (List Wake) :=
  [[oneWake (noteAsk.text.take 9) (by decide),oneWake (noteAsk.text.drop 9) (by decide)],[oneWake noteAsk.text (by decide)]]

theorem noteTwice : readStream [false,false]
      (session (fun _ => true) Main.defaults (fun _ => noteWorld) (started 5 0) noteWakes.flatten).sent =
    some [fileMessage Main.defaults noteAsk.uri (ascii "hello"),fileMessage Main.defaults noteAsk.uri (ascii "hello")] := by
  have each : ∀ a ∈ [(noteAsk,ascii "hello"),(noteAsk,ascii "hello")], a = (noteAsk,ascii "hello") := by
    intro a member
    simpa using member
  have served := @filesServed Main.defaults [(noteAsk,ascii "hello"),(noteAsk,ascii "hello")] noteWakes
    (fun a member => by rw [each a member]; exact noteSendable) (by decide) (by simp [noteWakes, oneWake, Delivers])
    (fun _ => noteWorld) (fun i a at_ => by rw [each a (List.mem_of_getElem? at_)]; exact noteStocked) (fun _ => true) 5 0
  exact served.1

end EpollHttpServer.ClientStream
