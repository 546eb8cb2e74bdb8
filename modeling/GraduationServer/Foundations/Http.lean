import GraduationServer.Foundations.Numerals
import GraduationServer.Foundations.PrefixFree
import Mathlib.Data.List.TakeWhile

/-!
# HTTP responses

The texts that are one response of HTTP/1.1: a status line, header fields, a blank line, and a body
whose length the fields tell, either as a number or by cutting it into chunks.

* `Line`, `HeaderField`, `Chunk`, `ChunkedBody` and `Response` carry what makes them well formed, and each
  has a code, its text;
* `framing` is how the body of a response ends, by its fields;
* numbers that are written as numerals are read back (`decimal_numeral`, `chunkSize_numeral`), and data
  that is cut into chunks is a body (`exists_chunkedBody`);
* `eq_nil_of_isResponse`: no response is a proper front of another one, since each of the codes is
  prefix-free.
-/

namespace GraduationServer

namespace Http

def crlf : Bytes := [0x0D, 0x0A]

/-! ## Lines and fields -/

/-- A text without a line break. -/
@[ext]
structure Line where
  text : Bytes
  noReturn : 0x0D ∉ text
  noFeed : 0x0A ∉ text

def Line.code (l : Line) : Bytes := l.text ++ crlf

theorem Line.prefixFree_code : PrefixFree Line.code := by
  have hword : PrefixFree fun l : Line => l.text ++ [0x0D] :=
    (prefixFree_until 0x0D).comp (g := fun l : Line => ⟨l.text, l.noReturn⟩)
      fun _ _ h => Line.ext (congrArg Subtype.val h)
  intro l l' s s' h
  have hsplit : l.text ++ [0x0D] ++ ([0x0A] ++ s) = l'.text ++ [0x0D] ++ ([0x0A] ++ s') := by
    simpa [code, crlf] using h
  obtain ⟨rfl, hs⟩ := hword hsplit
  exact ⟨rfl, List.append_cancel_left hs⟩

/-- The letters of the name of a field. -/
def isTokenChar (c : UInt8) : Bool :=
  (0x30 ≤ c && c ≤ 0x39) || (0x41 ≤ c && c ≤ 0x5A) || (0x61 ≤ c && c ≤ 0x7A) ||
    (ascii "!#$%&*+-.^_|~").contains c || c = 0x27 || c = 0x60

/-- A header field. -/
@[ext]
structure HeaderField where
  name : Bytes
  value : Bytes
  nonempty : name ≠ []
  token : name.all isTokenChar = true
  noReturn : 0x0D ∉ value
  noFeed : 0x0A ∉ value

namespace HeaderField

theorem notMem_name (f : HeaderField) {c : UInt8} (hc : isTokenChar c = false) : c ∉ f.name := by
  intro h
  have htoken := List.all_eq_true.1 f.token c h
  rw [hc] at htoken
  cases htoken

def line (f : HeaderField) : Line where
  text := f.name ++ 0x3A :: f.value
  noReturn h := by
    rcases List.mem_append.1 h with h | h
    · exact f.notMem_name (by decide) h
    · rcases List.mem_cons.1 h with h | h
      · cases h
      · exact f.noReturn h
  noFeed h := by
    rcases List.mem_append.1 h with h | h
    · exact f.notMem_name (by decide) h
    · rcases List.mem_cons.1 h with h | h
      · cases h
      · exact f.noFeed h

def code (f : HeaderField) : Bytes := f.line.code

theorem line_injective : Function.Injective line := by
  have hname := prefixFree_until (α := UInt8) 0x3A
  intro f f' h
  have htext : f.name ++ [0x3A] ++ f.value = f'.name ++ [0x3A] ++ f'.value := by
    simpa [line] using h
  obtain ⟨hname, hvalue⟩ := @hname ⟨f.name, f.notMem_name (by decide)⟩
    ⟨f'.name, f'.notMem_name (by decide)⟩ _ _ htext
  exact HeaderField.ext (congrArg Subtype.val hname) hvalue

theorem prefixFree_code : PrefixFree code := Line.prefixFree_code.comp line_injective

end HeaderField

/-- Fields with the blank line behind them. -/
def fieldsCode (fields : List HeaderField) : Bytes := fields.flatMap HeaderField.code ++ crlf

theorem prefixFree_fieldsCode : PrefixFree fieldsCode := by
  have hcode := HeaderField.prefixFree_code.terminated (prefixFree_const crlf) ?_
  · exact hcode.comp (g := fun fields => (fields, ())) fun _ _ h => congrArg Prod.fst h
  · -- a field does not begin like a blank line
    intro f _ s s' h
    obtain ⟨c, name, hname⟩ := List.exists_cons_of_ne_nil f.nonempty
    have hc : c ≠ 0x0D := by
      rintro rfl
      exact f.notMem_name (c := 0x0D) (by decide) (by rw [hname]; exact List.mem_cons_self)
    simp only [HeaderField.code, Line.code, HeaderField.line, hname, crlf, List.cons_append,
      List.cons.injEq] at h
    exact hc h.1

/-! ## Framing -/

def isBlank (c : UInt8) : Bool := c = 0x20 || c = 0x09

/-- A value without the blanks around it. -/
def trim (s : Bytes) : Bytes := ((s.dropWhile isBlank).reverse.dropWhile isBlank).reverse

/-- A text in lower case. -/
def lower (s : Bytes) : Bytes := s.map fun c => if 0x41 ≤ c ∧ c ≤ 0x5A then c + 0x20 else c

/-- The name of a field, whose case does not matter. -/
def HeaderField.named (name : Bytes) (f : HeaderField) : Bool := lower f.name = name

/-- The number in a value. -/
def decimal (value : Bytes) : Option ℕ :=
  if trim value ≠ [] ∧ ((trim value).all fun c => IsDigit 10 c) = true then
    some (ofNumeral 10 (trim value))
  else none

/-- How a body ends. -/
inductive Framing
  | sized (n : ℕ)
  | chunked
  deriving DecidableEq

/-- How the body of a response with these fields ends, if they tell. -/
def framing (fields : List HeaderField) : Option Framing :=
  match fields.filter (HeaderField.named (ascii "transfer-encoding")) with
  | [] =>
    match fields.filter (HeaderField.named (ascii "content-length")) with
    | [f] => (decimal f.value).map .sized
    | _ => none
  | [f] => if lower (trim f.value) = ascii "chunked" then some .chunked else none
  | _ => none

/-! ## Chunks -/

/-- The size in the first line of a chunk, in front of its extensions. -/
def chunkSize (line : Bytes) : Option ℕ :=
  let digits := line.takeWhile fun c => IsDigit 16 c
  let extensions := line.dropWhile fun c => IsDigit 16 c
  if digits ≠ [] ∧ (extensions = [] ∨ (extensions.dropWhile isBlank).head? = some 0x3B) then
    some (ofNumeral 16 digits)
  else none

structure Chunk where
  line : Line
  data : Bytes
  nonempty : data ≠ []
  sized : chunkSize line.text = some data.length

def Chunk.code (c : Chunk) : Bytes := c.line.code ++ (c.data ++ crlf)

theorem Chunk.prefixFree_code : PrefixFree Chunk.code := by
  intro c c' s s' h
  rw [code, code, List.append_assoc, List.append_assoc, List.append_assoc, List.append_assoc] at h
  obtain ⟨hline, hrest⟩ := Line.prefixFree_code h
  have hlength : c.data.length = c'.data.length :=
    Option.some_inj.1 (c.sized.symm.trans (hline ▸ c'.sized))
  obtain ⟨hdata, hs⟩ := List.append_inj hrest hlength
  cases c
  cases c'
  cases hline
  cases hdata
  exact ⟨rfl, List.append_cancel_left hs⟩

/-- A body in chunks: the last one has no data. -/
structure ChunkedBody where
  chunks : List Chunk
  last : Line
  trailer : List HeaderField
  ended : chunkSize last.text = some 0

def ChunkedBody.code (b : ChunkedBody) : Bytes :=
  b.chunks.flatMap Chunk.code ++ (b.last.code ++ fieldsCode b.trailer)

theorem ChunkedBody.prefixFree_code : PrefixFree ChunkedBody.code := by
  have hend : PrefixFree fun p : {l : Line // chunkSize l.text = some 0} × List HeaderField =>
      p.1.1.code ++ fieldsCode p.2 :=
    (Line.prefixFree_code.comp Subtype.val_injective).pair fun _ => prefixFree_fieldsCode
  have hcode := Chunk.prefixFree_code.terminated hend ?_
  · refine hcode.comp (g := fun b : ChunkedBody => (b.chunks, ⟨b.last, b.ended⟩, b.trailer)) ?_
    rintro ⟨chunks, last, trailer, hb⟩ b' h
    cases h
    rfl
  · -- the line of a chunk tells that it is not the last one
    rintro c ⟨⟨last, hlast⟩, trailer⟩ s s' h
    simp only [Chunk.code, List.append_assoc] at h
    obtain ⟨rfl, -⟩ := Line.prefixFree_code h
    exact c.nonempty (List.length_eq_zero_iff.1 (Option.some_inj.1 (c.sized.symm.trans hlast)))

/-- A text is a body that ends so. -/
def Framing.Frames : Framing → Bytes → Prop
  | .sized n, body => body.length = n
  | .chunked, body => ∃ b : ChunkedBody, b.code = body

theorem Framing.prefixFree_frames (framing : Framing) :
    PrefixFree fun p : {body : Bytes // framing.Frames body} => p.1 := by
  cases framing with
  | sized n => exact prefixFree_length n
  | chunked =>
    rintro ⟨_, b, rfl⟩ ⟨_, b', rfl⟩ s s' h
    obtain ⟨rfl, hs⟩ := ChunkedBody.prefixFree_code h
    exact ⟨rfl, hs⟩

/-! ## Responses -/

/-- A status line: a code of three digits and a reason. -/
def IsStatus (line : Bytes) : Prop :=
  ∃ code reason : Bytes, line = ascii "HTTP/1.1 " ++ code ++ 0x20 :: reason ∧
    code.length = 3 ∧ ∀ c ∈ code, IsDigit 10 c

/-- A complete response. -/
structure Response where
  status : Line
  fields : List HeaderField
  framing : Framing
  body : Bytes
  isStatus : IsStatus status.text
  told : Http.framing fields = some framing
  framed : framing.Frames body

def Response.code (r : Response) : Bytes := r.status.code ++ (fieldsCode r.fields ++ r.body)

/-- A text that is one complete response. -/
def IsResponse (s : Bytes) : Prop := ∃ r : Response, r.code = s

theorem Response.prefixFree_code : PrefixFree Response.code := by
  intro r r' s s' h
  simp only [code, List.append_assoc] at h
  obtain ⟨hstatus, hrest⟩ := Line.prefixFree_code h
  obtain ⟨hfields, hbody⟩ := prefixFree_fieldsCode hrest
  have hframing : r.framing = r'.framing :=
    Option.some_inj.1 (r.told.symm.trans (hfields ▸ r'.told))
  obtain ⟨heq, hs⟩ := @Framing.prefixFree_frames r.framing ⟨r.body, r.framed⟩
    ⟨r'.body, hframing ▸ r'.framed⟩ _ _ hbody
  cases r
  cases r'
  cases hstatus
  cases hfields
  cases hframing
  cases heq
  exact ⟨rfl, hs⟩

/-! ## Writing responses -/

/-- A digit is neither a blank nor a break of a line. -/
theorem ne_of_isDigit {base : ℕ} (hle : base ≤ 16) {c d : UInt8} (hc : IsDigit base c)
    (hd : 16 ≤ digitValue d) : c ≠ d := by
  rintro rfl
  exact absurd (hc.trans_le hle) (not_lt.2 hd)

theorem noBreak_numeral {base : ℕ} (hbase : 1 < base) (hle : base ≤ 16) (n : ℕ) :
    0x0D ∉ numeral base n ∧ 0x0A ∉ numeral base n := by
  have hdigit : ∀ d : UInt8, 16 ≤ digitValue d → d ∉ numeral base n :=
    fun d hd h => ne_of_isDigit hle (isDigit_of_mem_numeral hbase hle h) hd rfl
  exact ⟨hdigit 0x0D (by decide), hdigit 0x0A (by decide)⟩

/-- A field with a blank in front of its value. -/
def HeaderField.ofValue (name value : Bytes) (hname : name ≠ [] ∧ name.all isTokenChar = true)
    (hvalue : 0x0D ∉ value ∧ 0x0A ∉ value) : HeaderField where
  name := name
  value := 0x20 :: value
  nonempty := hname.1
  token := hname.2
  noReturn h := (List.mem_cons.1 h).elim nofun hvalue.1
  noFeed h := (List.mem_cons.1 h).elim nofun hvalue.2

theorem HeaderField.code_ofValue {name value : Bytes}
    (hname : name ≠ [] ∧ name.all isTokenChar = true) (hvalue : 0x0D ∉ value ∧ 0x0A ∉ value) :
    (ofValue name value hname hvalue).code = name ++ [0x3A, 0x20] ++ value ++ crlf := by
  simp [ofValue, code, line, Line.code]

theorem trim_of_notMem {s : Bytes} (h : ∀ c ∈ s, isBlank c = false) : trim (0x20 :: s) = s := by
  have hfix : ∀ t : Bytes, (∀ c ∈ t, isBlank c = false) → t.dropWhile isBlank = t := by
    intro t ht
    cases t with
    | nil => rfl
    | cons c t => rw [List.dropWhile_cons_of_neg (by simp [ht c List.mem_cons_self])]
  have hblank : (0x20 :: s).dropWhile isBlank = s :=
    (List.dropWhile_cons_of_pos rfl).trans (hfix s h)
  rw [trim, hblank, hfix s.reverse fun c hc => h c (List.mem_reverse.1 hc), List.reverse_reverse]

theorem decimal_numeral (n : ℕ) : decimal (0x20 :: numeral 10 n) = some n := by
  have hdigit : ∀ c ∈ numeral 10 n, IsDigit 10 c :=
    fun c hc => isDigit_of_mem_numeral (by decide) (by decide) hc
  have htrim : trim (0x20 :: numeral 10 n) = numeral 10 n := by
    refine trim_of_notMem fun c hc => ?_
    have hspace := ne_of_isDigit (d := 0x20) (by decide) (hdigit c hc) (by decide)
    have htab := ne_of_isDigit (d := 0x09) (by decide) (hdigit c hc) (by decide)
    simp [isBlank, hspace, htab]
  have hall : ((numeral 10 n).all fun c => IsDigit 10 c) = true :=
    List.all_eq_true.2 fun c hc => decide_eq_true (hdigit c hc)
  rw [decimal, htrim, if_pos ⟨numeral_ne_nil n, hall⟩, ofNumeral_numeral (by decide) (by decide)]

theorem chunkSize_of_digits {s : Bytes} (hne : s ≠ []) (h : ∀ c ∈ s, IsDigit 16 c) :
    chunkSize s = some (ofNumeral 16 s) := by
  have hdigit : ∀ c ∈ s, decide (IsDigit 16 c) = true := fun c hc => decide_eq_true (h c hc)
  rw [chunkSize, List.takeWhile_eq_self_iff.2 hdigit, List.dropWhile_eq_nil_iff.2 hdigit,
    if_pos ⟨hne, Or.inl rfl⟩]

theorem chunkSize_numeral (n : ℕ) : chunkSize (numeral 16 n) = some n := by
  rw [chunkSize_of_digits (numeral_ne_nil n) fun _ => isDigit_of_mem_numeral (by decide) le_rfl,
    ofNumeral_numeral (by decide) (by decide)]

/-- Data in chunks, each behind its size. -/
def chunksCode (blocks : List Bytes) : Bytes :=
  (blocks.flatMap fun data => numeral 16 data.length ++ crlf ++ data ++ crlf) ++
    (numeral 16 0 ++ crlf ++ crlf)

theorem exists_chunkedBody {blocks : List Bytes} (h : ∀ data ∈ blocks, data ≠ []) :
    ∃ b : ChunkedBody, b.code = chunksCode blocks ∧ b.chunks.map Chunk.data = blocks := by
  have hline := @noBreak_numeral 16 (by decide) le_rfl
  have hchunks : ∃ chunks : List Chunk, (chunks.flatMap Chunk.code =
      blocks.flatMap fun data => numeral 16 data.length ++ crlf ++ data ++ crlf) ∧
      chunks.map Chunk.data = blocks := by
    induction blocks with
    | nil => exact ⟨[], rfl, rfl⟩
    | cons data blocks ih =>
      obtain ⟨chunks, hchunks, hdata⟩ := ih fun d hd => h d (List.mem_cons_of_mem _ hd)
      refine ⟨⟨⟨numeral 16 data.length, (hline _).1, (hline _).2⟩, data, h data List.mem_cons_self,
        chunkSize_numeral _⟩ :: chunks, ?_, by rw [List.map_cons, hdata]⟩
      rw [List.flatMap_cons, List.flatMap_cons, hchunks]
      simp [Chunk.code, Line.code]
  obtain ⟨chunks, hchunks, hdata⟩ := hchunks
  refine ⟨⟨chunks, ⟨numeral 16 0, (hline 0).1, (hline 0).2⟩, [], chunkSize_numeral 0⟩, ?_, hdata⟩
  rw [ChunkedBody.code, hchunks, chunksCode, fieldsCode, List.flatMap_nil, List.nil_append, Line.code]

/-! ## Recognizing responses -/

/-- A response begins with the version. -/
theorem version_prefix_of_isResponse {s : Bytes} (h : IsResponse s) : ascii "HTTP/1.1 " <+: s := by
  obtain ⟨r, rfl⟩ := h
  obtain ⟨code, reason, hstatus, -⟩ := r.isStatus
  rw [Response.code, Line.code, hstatus, List.append_assoc, List.append_assoc, List.append_assoc]
  exact List.prefix_append _ _

theorem not_isResponse_nil : ¬ IsResponse [] := by
  intro h
  have hversion := version_prefix_of_isResponse h
  rw [List.prefix_nil] at hversion
  exact absurd hversion (by decide)

/-- **No response is a proper front of another one.** -/
theorem eq_nil_of_isResponse {s t : Bytes} (hs : IsResponse s) (hst : IsResponse (s ++ t)) :
    t = [] := by
  obtain ⟨r, rfl⟩ := hs
  obtain ⟨r', hr'⟩ := hst
  exact Response.prefixFree_code.eq_nil hr'

end Http

end GraduationServer
