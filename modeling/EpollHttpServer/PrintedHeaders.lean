import EpollHttpServer.HeaderLines

/-! http_parse_request on a head that was printed from a list of names and values: the header array
holds that list again, and the cached fields are those of the last header that names them. -/
namespace EpollHttpServer.PrintedHeaders
open CString Crlf LastWins HttpParser

def printed (f : Bytes × Bytes) : Bytes := f.1 ++ [58,32] ++ f.2

/- A name and a value that fit their arrays and can be told apart in a line. -/
structure Printable (f : Bytes × Bytes) : Prop where
  nameSize : f.1.length < maxHeaderName
  name : ∀ b ∈ f.1, b ≠ 58 ∧ b ≠ 13 ∧ b ≠ 10 ∧ b ≠ 0
  valueSize : f.2.length < maxHeaderValue
  value : ∀ b ∈ f.2, b ≠ 13 ∧ b ≠ 10 ∧ b ≠ 0
  start : isspace (f.2.headD 0) = false

theorem printedLine {f : Bytes × Bytes} (ok : Printable f) : HeaderLine (printed f) := by
  have plain : ∀ b ∈ printed f, b ≠ 13 ∧ b ≠ 0 := by
    intro b hb
    simp only [printed, List.mem_append, List.mem_cons, List.not_mem_nil, or_false] at hb
    rcases hb with (name | colon | space) | value
    · exact ⟨(ok.name b name).2.1,(ok.name b name).2.2.2⟩
    · rw [colon]
      decide
    · rw [space]
      decide
    · exact ⟨(ok.value b value).1,(ok.value b value).2.2⟩
  refine ⟨by simp [printed],freeOfNoCr (fun cr => (plain 13 cr).1 rfl),fun nul => (plain 0 nul).2 rfl⟩

theorem valueStays {v : Bytes} (start : isspace (v.headD 0) = false) : skipSpaces (32::v) = v := by
  cases v with
  | nil => rfl
  | cons b v =>
    have stop : isspace b = false := start
    have space : isspace 32 = true := by decide
    simp [skipSpaces, space, stop]

theorem printedField {f : Bytes × Bytes} (ok : Printable f) : field ((printed f).take 1023) = some f := by
  obtain ⟨n,v⟩ := f
  obtain ⟨nameSize,name,valueSize,value,start⟩ := ok
  have nameFits : n.length < 64 := nameSize
  have valueFits : v.length < 256 := valueSize
  have whole : (printed (n,v)).take 1023 = n ++ 58::32::v := by
    rw [List.take_of_length_le]
    · simp [printed]
    · simp only [printed, List.length_append, List.length_cons, List.length_nil]
      omega
  have no : (58 : UInt8) ∉ n := fun h => (name 58 h).1 rfl
  rw [whole, fieldColon no, @valueStays v start, List.take_of_length_le (by omega), List.take_of_length_le (by omega)]

theorem storedPrinted {fs : List (Bytes × Bytes)} (each : ∀ f ∈ fs, Printable f) : stored (fs.map printed) = fs := by
  induction fs with
  | nil => rfl
  | cons f fs ih =>
    have rest := ih (fun g hg => each g (List.mem_cons_of_mem _ hg))
    simp only [stored, List.map_cons, List.filterMap_cons, printedField (each f List.mem_cons_self)]
    exact congrArg (f :: ·) rest

theorem parsePrinted {line : Bytes} {fs : List (Bytes × Bytes)} (short : line.length < 1024)
    (plain : ∀ b ∈ line, b ≠ 13 ∧ b ≠ 10 ∧ b ≠ 0) (accepted : parseRequestLine line httpRequestInit ≠ none)
    (few : fs.length ≤ maxHeaders) (each : ∀ f ∈ fs, Printable f) (malloc : Nat → Bool) (behind : Bytes) (length : Int) :
    ∃ req, httpParseRequest malloc (line ++ crlf ++ (unlines (fs.map printed) ++ (crlf ++ 0::behind))) length = some req ∧
      req.headerCount = fs.length ∧
      (req.headers.take fs.length).map (fun h => (cstr h.name,cstr h.value)) = fs ∧
      cstr req.host = lastOf hostOf [] fs ∧
      req.keepAlive = lastOf connectionOf true fs ∧
      req.contentLength = lastOf lengthOf 0 fs := by
  obtain ⟨r,parsed⟩ := Option.ne_none_iff_exists'.mp accepted
  have free : CrlfFree line := freeOfNoCr (fun cr => (plain 13 cr).1 rfl)
  have nul : (0 : UInt8) ∉ line := fun zero => (plain 0 zero).2.2 rfl
  have headers : ∀ l ∈ fs.map printed, HeaderLine l := by
    intro l hl
    obtain ⟨f,hf,rfl⟩ := List.mem_map.mp hl
    exact printedLine (each f hf)
  have ends : Ends (crlf ++ 0::behind) := Or.inl (List.prefix_append _ _)
  have keeps := addLinesKeeps (requestLineKeeps parsed) (fun l hl => (headers l hl).nul) (fun l hl => (headers l hl).free)
    (Nat.zero_le _)
  rw [List.nil_append, storedPrinted each, List.take_of_length_le few] at keeps
  have bodyless : parseBody malloc (line ++ crlf ++ (unlines (fs.map printed) ++ (crlf ++ 0::behind))) length
      (afterHead (crlf ++ 0::behind)) ((fs.map printed).foldl addLine r) = (fs.map printed).foldl addLine r := by
    rw [parseBody, if_neg]
    rintro ⟨-,data,-⟩
    exact data rfl
  refine ⟨(fs.map printed).foldl addLine r,?_,keeps.count,keeps.headers,keeps.host,keeps.keepAlive,keeps.contentLength⟩
  rw [parseLines free nul headers ends, List.take_of_length_le (by omega), parsed, Option.map_some, bodyless]

/- A colon in a value, and two headers of one name. -/
def someFields : List (Bytes × Bytes) :=
  [(ascii "Host",ascii "a:80"),(ascii "Connection",ascii "close"),(ascii "host",ascii "b")]

theorem somePrinted : ∃ req, httpParseRequest (fun _ => true)
      (ascii "GET / HTTP/1.1" ++ crlf ++ (unlines (someFields.map printed) ++ (crlf ++ [0]))) 70 = some req ∧
    req.headerCount = 3 ∧ cstr req.host = ascii "b" ∧ req.keepAlive = false := by
  have each : ∀ f ∈ someFields, Printable f := by
    intro f hf
    simp only [someFields, List.mem_cons, List.not_mem_nil, or_false] at hf
    rcases hf with rfl | rfl | rfl <;> exact ⟨by decide,by decide +kernel,by decide,by decide +kernel,by decide⟩
  obtain ⟨req,ok,count,-,host,keep,-⟩ := @parsePrinted (ascii "GET / HTTP/1.1") someFields (by decide)
    (by decide +kernel) (by decide +kernel) (by decide) each (fun _ => true) [] 70
  exact ⟨req,ok,count,host.trans (by decide),keep.trans (by decide)⟩

end EpollHttpServer.PrintedHeaders
