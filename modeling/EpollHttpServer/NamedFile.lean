import EpollHttpServer.HeadGet
import EpollHttpServer.RequestLine

/-! The file that a URI names beside the files that are opened for it. Three arrays of 1024 bytes are filled
one from another, and each fill may cut the text or leave the last byte of its array unwritten. -/
namespace EpollHttpServer.NamedFile
open CString HttpParser HttpRequest FileSystem HeadGet

def indexPage : Bytes := ascii "/index.html"

/- The file that a URI names below a root, both as strings. -/
def namedFile (root uri : Bytes) : Bytes :=
  let rel := if uri.head? = some 47 then uri.tail else uri
  if rel = [] ∨ rel = ascii "/" then root ++ indexPage else root ++ ascii "/" ++ rel

/- The array that a handler gives to mime_get_type for what it found, if it comes to that. -/
def typedArray (typed : Nat → Bool) : Located → Option Bytes
  | .found filePath size _ => if typed size then some filePath else none
  | _ => none

-- handle_get tests the size before the type, handle_head does not.
def getTyped (size : Nat) : Bool := size ≤ maxFileSize
def headTyped (_ : Nat) : Bool := true

theorem getTypeRead {l : Located} {array : Bytes} (typed : typedArray getTyped l = some array) (keepAlive : Bool) :
    (getReply keepAlive l).contentType = Mime.mimeGetType array ∨
      getReply keepAlive l = HttpResponse.errorReply 500 (ascii "Internal Server Error") := by
  cases l with
  | forbidden => contradiction
  | missing => contradiction
  | found filePath size file =>
    simp only [typedArray, getTyped, decide_eq_true_eq] at typed
    split at typed <;> try contradiction
    rename_i fits
    cases Option.some.inj typed
    simp only [getReply, if_neg (Nat.not_lt.mpr fits)]
    cases file.read size with
    | none => exact Or.inr rfl
    | some bytes => exact Or.inl rfl

theorem headTypeRead {l : Located} {array : Bytes} (typed : typedArray headTyped l = some array) (keepAlive : Bool) :
    (headReply keepAlive l).contentType = Mime.mimeGetType array := by
  cases l with
  | forbidden => contradiction
  | missing => contradiction
  | found filePath size file =>
    cases Option.some.inj typed
    rfl

/- The opens are of the file and then of its index page, and the type is that of the path opened last. -/
structure ExactFile (file : Bytes) (opened : List Bytes) (typed : Option Bytes) : Prop where
  paths : opened <+: [file,file ++ indexPage]
  type : ∀ array, typed = some array → 0 ∈ array.take 1024 ∧ opened.getLast? = some (cstr array)

/- Both texts fit their arrays as far as they are needed, and the copy of the second is ended by its own NUL or
by one that the stack happens to hold. -/
def NamedFits (typed : Nat → Bool) (config : ServerConfig) (uri : Bytes) (w : World) : Prop :=
  let file := namedFile (cstr config.webRoot) (cstr uri)
  strstr (ascii "..") uri = none → file.length ≤ 1023 ∧
    (probe (w.disk w.opened.length) file = none → file.length ≤ 1012 ∧
      ∀ size index, probe (w.disk (w.opened.length + 1)) (file ++ indexPage) = some (size,index) → typed size = true →
        file.length ≤ 1011 ∨ w.frame[1023]? = some 0)

theorem namedText (webRoot uri : Bytes) : pathText webRoot uri = namedFile (cstr webRoot) (cstr uri) := by
  have head : (cstr uri).head? = some 47 ↔ uri.headD 0 = 47 := by
    cases uri with
    | nil => simp [cstr]
    | cons b uri =>
      by_cases zero : b = 0
      · simp [cstr, zero]
      · simp [cstr, zero]
  have rel : cstr (relPath uri) = if (cstr uri).head? = some 47 then (cstr uri).tail else cstr uri := by
    unfold relPath
    simp only [head]
    split
    · rename_i slash
      rw [cstrDrop (by rw [slash]; decide), List.drop_one]
    · rfl
  have empty : (relPath uri).headD 0 = 0 ↔ cstr (relPath uri) = [] := by
    cases relPath uri with
    | nil => simp [cstr]
    | cons b rest =>
      by_cases zero : b = 0
      · simp [cstr, zero]
      · simp [cstr, zero]
  have slash : strcmpEq (relPath uri) (ascii "/") = true ↔ cstr (relPath uri) = ascii "/" := by
    have literal : cstr (ascii "/") = ascii "/" := by decide
    rw [strcmpEq, literal, beq_iff_eq]
  simp only [pathText, namedFile, ← rel, empty, slash, indexPage]

/- A text that fits its array is not cut. -/
theorem directWhole {config : ServerConfig} {uri : Bytes} : directPath config uri = namedFile (cstr config.webRoot) (cstr uri) ↔
    (namedFile (cstr config.webRoot) (cstr uri)).length ≤ 1023 := by
  rw [directPath, namedText]
  exact List.take_eq_self_iff _

theorem indexWhole {config : ServerConfig} {uri : Bytes} (fits : (namedFile (cstr config.webRoot) (cstr uri)).length ≤ 1023) :
    indexPath config uri = namedFile (cstr config.webRoot) (cstr uri) ++ indexPage ↔
      (namedFile (cstr config.webRoot) (cstr uri)).length ≤ 1012 := by
  have page : indexPage.length = 11 := by decide
  rw [indexPath, directWhole.mpr fits, ← indexPage, List.take_eq_self_iff, List.length_append, page]
  omega

theorem directEnded (config : ServerConfig) (uri frame : Bytes) : (0 : UInt8) ∈ (directArray config uri frame).take 1024 := by
  have short := directShort config uri
  rw [directArrayBytes, List.take_append, List.mem_append]
  obtain ⟨n,hn⟩ : ∃ n, 1024 - (directPath config uri).length = n + 1 := ⟨1023 - (directPath config uri).length,by omega⟩
  rw [hn, List.take_succ_cons]
  exact Or.inr List.mem_cons_self

/- After the fallback the path is a string of its array when it leaves room for a NUL, or when the last byte of
the array, which nothing writes, is one. -/
theorem fallbackEnded {config : ServerConfig} {uri frame : Bytes} (short : (directPath config uri).length ≤ 1012)
    (size : 1024 ≤ frame.length) :
    (0 ∈ (fallbackArray config uri frame).take 1024 ∧ some (indexPath config uri) = some (cstr (fallbackArray config uri frame))) ↔
      (directPath config uri).length ≤ 1011 ∨ frame[1023]? = some 0 := by
  have free : (0 : UInt8) ∉ indexPath config uri := fun h => indexTextFree config uri (List.mem_of_mem_take h)
  have long := indexLength config uri
  have text := fallbackText config uri frame
  rcases Nat.lt_or_ge (directPath config uri).length 1012 with room | full
  · obtain ⟨n,hn⟩ : ∃ n, 1023 - (indexPath config uri).length = n + 1 := ⟨1022 - (indexPath config uri).length,by omega⟩
    rw [hn, List.replicate_succ, List.cons_append] at text
    refine ⟨fun _ => Or.inl (by omega),fun _ => ⟨?_,?_⟩⟩
    · rw [text, List.take_append, List.mem_append]
      obtain ⟨m,hm⟩ : ∃ m, 1024 - (indexPath config uri).length = m + 1 := ⟨1023 - (indexPath config uri).length,by omega⟩
      rw [hm, List.take_succ_cons]
      exact Or.inr List.mem_cons_self
    · rw [text, cstrAppendNul free]
  · have zero : 1023 - (indexPath config uri).length = 0 := by omega
    have last : (directArray config uri frame).drop 1023 = frame[1023] :: frame.drop 1024 := by
      rw [directArrayBytes, List.drop_append, List.drop_of_length_le (by omega), List.nil_append,
        show 1023 - (directPath config uri).length = 11 by omega, List.drop_succ_cons, List.drop_drop,
        show (directPath config uri).length + 1 + 10 = 1023 by omega, List.drop_eq_getElem_cons]
    have cut : (1024 - (indexPath config uri).length) = 0 + 1 := by omega
    rw [zero, List.replicate_zero, List.nil_append, last] at text
    have byte : (0 : UInt8) ∈ (fallbackArray config uri frame).take 1024 ↔ frame[1023] = 0 := by
      rw [text, List.take_append, List.take_of_length_le (by omega), cut, List.take_succ_cons, List.take_zero, List.mem_append,
        List.mem_singleton]
      exact ⟨fun h => (h.resolve_left free).symm,fun h => Or.inr h.symm⟩
    rw [byte, List.getElem?_eq_getElem (by omega)]
    simp only [Option.some.injEq]
    constructor
    · exact fun h => Or.inr h.1
    · intro h
      have ended : frame[1023] = 0 := h.resolve_left (by omega)
      refine ⟨ended,?_⟩
      rw [text, ended, cstrAppendNul free]

theorem pathsOne {a file : Bytes} : [a] <+: [file,file ++ indexPage] ↔ a = file := by
  rw [List.cons_prefix_cons]
  simp

theorem pathsTwo {a b file : Bytes} : [a,b] <+: [file,file ++ indexPage] ↔ a = file ∧ b = file ++ indexPage := by
  rw [List.cons_prefix_cons, List.cons_prefix_cons]
  simp

theorem lookupExact {config : ServerConfig} {uri : Bytes} {w : World} (typed : Nat → Bool) (size : 1024 ≤ w.frame.length) :
    ExactFile (namedFile (cstr config.webRoot) (cstr uri)) (lookup config uri w).2 (typedArray typed (lookup config uri w).1) ↔
      NamedFits typed config uri w := by
  unfold lookup NamedFits
  cases dots : strstr (ascii "..") uri with
  | some found =>
    refine ⟨fun _ no => by contradiction,fun _ => ⟨List.nil_prefix,fun _ no => by contradiction⟩⟩
  | none =>
    simp only [forall_const]
    have whole := @directWhole config uri
    cases first : probe (w.disk w.opened.length) (directPath config uri) with
    | some found =>
      obtain ⟨n,file⟩ := found
      constructor
      · intro all
        have fits := whole.mp (pathsOne.mp all.paths)
        rw [← whole.mpr fits, first]
        exact ⟨by rw [whole.mpr fits]; exact fits,fun absent => by contradiction⟩
      · rintro ⟨fits,-⟩
        refine ⟨pathsOne.mpr (whole.mpr fits),fun array given => ?_⟩
        simp only [typedArray] at given
        split at given <;> try contradiction
        cases Option.some.inj given
        exact ⟨directEnded config uri w.frame,by rw [directArrayText]; rfl⟩
    | none =>
      cases second : probe (w.disk (w.opened.length + 1)) (indexPath config uri) with
      | none =>
        constructor
        · intro all
          obtain ⟨direct,index⟩ := pathsTwo.mp all.paths
          have fits := whole.mp direct
          refine ⟨fits,fun _ => ⟨(indexWhole fits).mp index,fun n file there => ?_⟩⟩
          rw [← index, second] at there
          contradiction
        · rintro ⟨fits,fallback⟩
          rw [← whole.mpr fits] at fallback
          have room := (fallback first).1
          rw [whole.mpr fits] at room
          exact ⟨pathsTwo.mpr ⟨whole.mpr fits,(indexWhole fits).mpr room⟩,fun _ no => by contradiction⟩
      | some found =>
        obtain ⟨n,file⟩ := found
        have array : typedArray typed (.found (fallbackArray config uri w.frame) n file) =
            if typed n then some (fallbackArray config uri w.frame) else none := rfl
        constructor
        · intro all
          obtain ⟨direct,index⟩ := pathsTwo.mp all.paths
          have fits := whole.mp direct
          have room := (indexWhole fits).mp index
          refine ⟨fits,fun _ => ⟨room,fun m other there asked => ?_⟩⟩
          rw [← index, second] at there
          cases Option.some.inj there
          have given := all.type (fallbackArray config uri w.frame) (array.trans (if_pos asked))
          rw [← direct] at room ⊢
          exact (fallbackEnded room size).mp given
        · rintro ⟨fits,fallback⟩
          have direct := whole.mpr fits
          rw [← direct] at fallback
          obtain ⟨room,ended⟩ := fallback first
          have index := (indexWhole fits).mpr (by rw [← direct]; exact room)
          refine ⟨pathsTwo.mpr ⟨direct,index⟩,fun given asked => ?_⟩
          have typedFile : typed n = true ∧ fallbackArray config uri w.frame = given := by
            have asked := array.symm.trans asked
            split at asked <;> try contradiction
            rename_i yes
            exact ⟨yes,Option.some.inj asked⟩
          obtain ⟨yes,rfl⟩ := typedFile
          rw [direct, ← index] at ended
          exact (fallbackEnded room size).mpr (by rw [direct]; exact ended n file second yes)

theorem getLeaves (uri conn config w) : (handleGet uri conn config w).world = (locate config uri w).2 := by
  unfold handleGet
  generalize locate config uri w = found
  obtain ⟨l,after⟩ := found
  cases l with
  | forbidden => rfl
  | missing => rfl
  | found filePath size file =>
    dsimp only
    split
    · rfl
    · cases file.read size <;> rfl

theorem headLeaves (uri conn config w) : (handleHead uri conn config w).world = (locate config uri w).2 := by
  unfold handleHead
  generalize locate config uri w = found
  obtain ⟨l,after⟩ := found
  cases l <;> rfl

/- The paths that a handler opens. -/
def opens (before after : World) : List Bytes := after.opened.drop before.opened.length

theorem locateOpens (config uri w) : opens w (locate config uri w).2 = (lookup config uri w).2 := by
  rw [locateLookup, opens, List.drop_left]

/- Both handlers open exactly the named file and give its type, when the name fits their arrays and not otherwise;
the type in a reply is that of the array, unless the file cannot be read. -/
theorem fileExactWhen (uri : Bytes) (conn : ClientConnection) (config : ServerConfig) {w : World}
    (size : 1024 ≤ w.frame.length) :
    (ExactFile (namedFile (cstr config.webRoot) (cstr uri)) (opens w (handleGet uri conn config w).world)
        (typedArray getTyped (locate config uri w).1) ↔ NamedFits getTyped config uri w) ∧
    (ExactFile (namedFile (cstr config.webRoot) (cstr uri)) (opens w (handleHead uri conn config w).world)
        (typedArray headTyped (locate config uri w).1) ↔ NamedFits headTyped config uri w) ∧
    (∀ array keepAlive, typedArray getTyped (locate config uri w).1 = some array →
      (getReply keepAlive (locate config uri w).1).contentType = Mime.mimeGetType array ∨
        getReply keepAlive (locate config uri w).1 = HttpResponse.errorReply 500 (ascii "Internal Server Error")) ∧
    ∀ array keepAlive, typedArray headTyped (locate config uri w).1 = some array →
      (headReply keepAlive (locate config uri w).1).contentType = Mime.mimeGetType array := by
  have found : (locate config uri w).1 = (lookup config uri w).1 := by rw [locateLookup]
  refine ⟨?_,?_,fun _ keepAlive typed => getTypeRead typed keepAlive,fun _ keepAlive typed => headTypeRead typed keepAlive⟩
  · rw [getLeaves, locateOpens, found]
    exact lookupExact getTyped size
  · rw [headLeaves, locateOpens, found]
    exact lookupExact headTyped size

/- Nothing on the disk, and a stack that is clear. -/
def bareWorld : World := {emptyWorld with frame := List.replicate 1024 0}

theorem rootFile : (ExactFile (namedFile (cstr Main.defaults.webRoot) (cstr (ascii "/")))
      (opens bareWorld (handleGet (ascii "/") (acceptedConnection 5 0) Main.defaults bareWorld).world)
      (typedArray getTyped (locate Main.defaults (ascii "/") bareWorld).1) ↔
        NamedFits getTyped Main.defaults (ascii "/") bareWorld) ∧
    namedFile (cstr Main.defaults.webRoot) (cstr (ascii "/")) = ascii "./www/index.html" :=
  ⟨(fileExactWhen (ascii "/") (acceptedConnection 5 0) Main.defaults (by decide +kernel)).1,by decide +kernel⟩

/- A URI of 1008 bytes, which the parser delivers whole. -/
def deepUri : Bytes := 47::List.replicate 1007 97
def deepRequest : Bytes := ascii "GET " ++ deepUri ++ ascii " HTTP/1.1\r\n\r\n"
def deepFile : Bytes := ascii "./www" ++ deepUri

theorem deepOpens : (httpParseRequest (fun _ => true) deepRequest 1025).map (fun req =>
      (cstr req.uri,(handleGet req.uri (acceptedConnection 5 0) Main.defaults bareWorld).world.opened)) =
    some (deepUri,[deepFile,(deepFile ++ indexPage).take 1023]) := by
  decide +kernel

/- The second path lacks the last letter of its suffix. -/
theorem indexShortened : namedFile (cstr Main.defaults.webRoot) deepUri = deepFile ∧
    ∃ req, httpParseRequest (fun _ => true) deepRequest 1025 = some req ∧ cstr req.uri = deepUri ∧
      opens bareWorld (handleGet req.uri (acceptedConnection 5 0) Main.defaults bareWorld).world =
        [deepFile,(deepFile ++ indexPage).take 1023] ∧
      ¬ ExactFile deepFile (opens bareWorld (handleGet req.uri (acceptedConnection 5 0) Main.defaults bareWorld).world)
        (typedArray getTyped (locate Main.defaults req.uri bareWorld).1) := by
  have named : namedFile (cstr Main.defaults.webRoot) deepUri = deepFile := by decide +kernel
  obtain ⟨req,ok,seen⟩ := Option.map_eq_some_iff.mp deepOpens
  obtain ⟨uri,opened⟩ := Prod.mk.inj seen
  refine ⟨named,req,ok,uri,opened,fun all => ?_⟩
  have paths := all.paths
  have sameOpens : opens bareWorld (handleGet req.uri (acceptedConnection 5 0) Main.defaults bareWorld).world =
      [deepFile,(deepFile ++ indexPage).take 1023] := opened
  rw [sameOpens, pathsTwo] at paths
  have cut := congrArg List.length paths.2
  have size : deepFile.length = 1013 := by decide +kernel
  have page : indexPage.length = 11 := by decide
  rw [List.length_take, List.length_append, size, page] at cut
  exact absurd cut (by decide)

end EpollHttpServer.NamedFile
