import GraduationServer.Client.Boundaries
import GraduationServer.Client.Malformed
import GraduationServer.Client.Uploads
import GraduationServer.Json.Fronts

/-!
# What requests say

Every array or object of the JSON grammar with less than a thousand values open is a request: what follows it
is not looked at, and no front of it is accepted (`Request.ofText`). What the server does for a request
depends on what it says, not on its layout, its escapes or the order of its members.

A read that begins where a request does holds the request, with anything behind it, or only a front of it,
which changes nothing. So in a run the reads can be replaced by any whole requests that say the same
(`serve_of_said`).
-/

namespace GraduationServer

open Json

namespace ClientSession

variable {s s' : Server} {e : Surroundings} {data : Bytes} {replies : List Reply} {root : Value}

/-! ## Requests -/

/-- A text of the grammar is a request. -/
def Request.ofText {text : Bytes} {v : JsonText.Tree} (h : JsonText.IsText (Reader.stackLimit - 1) text v)
    (hlength : text.length < 2 ^ 30) (hcontainer : Reader.IsContainer (Value.ofTree v)) : Request where
  text := text
  root := Value.ofTree v
  accepted := Reader.accepted_of_isText h hlength hcontainer
  rejected _ := Reader.rejected_of_isText h hlength hcontainer

/-- What is done for a message depends on what it says. -/
theorem process_of_root {data' : Bytes} (h : Reader.parse data = some (true, root))
    (h' : Reader.parse data' = some (true, root)) (s : Server) (e : Surroundings) :
    process s e data = process s e data' := by
  refine process_congr ?_ s e
  simp only [dispatch, messageType, requestData, h, h']

/-- A rejected message changes nothing, and is answered only if it asks for all files. -/
theorem process_of_rejected (hparse : Reader.parse data = some (false, root))
    (h : process s e data = some (s', replies)) :
    s' = s ∧ (replies = [] ∨ messageType data = some (some .loadInfoNormal)) := by
  rcases of_process h with ⟨rfl, rfl⟩ | ⟨type, htype, hhandle⟩
  · exact ⟨rfl, .inl rfl⟩
  by_cases hnormal : type = .loadInfoNormal
  · subst hnormal
    obtain ⟨json, -, hpair⟩ := Option.bind_eq_some_iff.1 hhandle
    cases hpair
    exact ⟨rfl, .inr htype⟩
  · rw [handle_of_rejected hparse hnormal] at hhandle
    cases hhandle
    exact ⟨rfl, .inl rfl⟩

/-! ## Reads -/

/-- A read that begins where a request does. -/
structure Read where
  request : Request
  bytes : Bytes
  begins : request.text <+: bytes ∨ bytes <+: request.text

namespace Read

variable {r : Read}

/-- The read holds the request. -/
def Whole (r : Read) : Prop := r.request.text <+: r.bytes

instance (r : Read) : Decidable r.Whole := inferInstanceAs (Decidable (r.request.text <+: r.bytes))

theorem parse_of_whole (h : r.Whole) : Reader.parse r.bytes = some (true, r.request.root) := by
  obtain ⟨rest, hrest⟩ := h
  rw [← hrest]
  exact r.request.accepted rest

theorem parse_of_not_whole (h : ¬ r.Whole) : ∃ left, Reader.parse r.bytes = some (false, left) := by
  refine r.request.rejected r.bytes (r.begins.resolve_left h) fun heq => h ?_
  rw [Whole, heq]

end Read

/-! ## Runs -/

variable {reads reads' : List (Surroundings × Read)} {answers : List (List Reply)}

/-- The reads as messages, each with what its handler takes from outside. -/
def messages (reads : List (Surroundings × Read)) : List (Surroundings × Bytes) :=
  reads.map fun p => (p.1, p.2.bytes)

/-- What the whole requests of some reads say. -/
def said (reads : List (Surroundings × Read)) : List (Surroundings × Value) :=
  (reads.filter fun p => p.2.Whole).map fun p => (p.1, p.2.request.root)

/-- The answers to the whole requests. -/
def answersTo (reads : List (Surroundings × Read)) (answers : List (List Reply)) : List (List Reply) :=
  ((reads.zip answers).filter fun p => p.1.2.Whole).map Prod.snd

theorem said_cons (p : Surroundings × Read) : said (p :: reads) =
    if p.2.Whole then (p.1, p.2.request.root) :: said reads else said reads := by
  simp only [said, List.filter_cons, decide_eq_true_eq]
  split <;> rfl

theorem answersTo_cons (p : Surroundings × Read) : answersTo (p :: reads) (replies :: answers) =
    if p.2.Whole then replies :: answersTo reads answers else answersTo reads answers := by
  simp only [answersTo, List.zip_cons_cons, List.filter_cons, decide_eq_true_eq]
  split <;> rfl

theorem said_of_whole (h : ∀ p ∈ reads, p.2.Whole) :
    said reads = reads.map fun p => (p.1, p.2.request.root) := by
  rw [said, List.filter_eq_self.2 fun p hp => decide_eq_true (h p hp)]

/-- The state and the answers to whole requests are those of requests that say the same. -/
theorem serve_congr (h : serve s (messages reads) = some (s', answers)) (hwhole : ∀ p ∈ reads', p.2.Whole)
    (hsaid : said reads = said reads') : serve s (messages reads') = some (s', answersTo reads answers) := by
  rw [said_of_whole hwhole] at hsaid
  induction reads generalizing s answers reads' with
  | nil =>
    cases h
    obtain rfl : reads' = [] := List.map_eq_nil_iff.1 hsaid.symm
    rfl
  | cons p reads ih =>
    obtain ⟨⟨s₁, replies⟩, hp, h⟩ := Option.bind_eq_some_iff.1 h
    obtain ⟨⟨s₂, later⟩, hlater, h⟩ := Option.bind_eq_some_iff.1 h
    cases h
    by_cases hread : p.2.Whole
    · rw [said_cons, if_pos hread] at hsaid
      obtain ⟨p', reads', rfl, hp', hsaid⟩ := List.map_eq_cons_iff.1 hsaid.symm
      obtain ⟨hfirst, hrest⟩ := List.forall_mem_cons.1 hwhole
      obtain ⟨he, hroot⟩ := Prod.mk.inj hp'
      have hsame : process s p'.1 p'.2.bytes = some (s₁, replies) := by
        rw [he, ← hp]
        exact process_of_root (Read.parse_of_whole hfirst) (hroot ▸ Read.parse_of_whole hread) s p.1
      have hlater' := ih hlater hrest hsaid.symm
      rw [answersTo_cons, if_pos hread]
      simp only [messages, List.map_cons, serve] at hlater' ⊢
      simp only [hsame, hlater', Option.bind_eq_bind, Option.bind_some]
      rfl
    · obtain ⟨left, hleft⟩ := Read.parse_of_not_whole hread
      obtain rfl : s₁ = s := (process_of_rejected hleft hp).1
      rw [said_cons, if_neg hread] at hsaid
      rw [answersTo_cons, if_neg hread]
      exact ih hlater hwhole hsaid

/-- A front is answered only if it asks for all files. -/
theorem answers_to_fronts (h : serve s (messages reads) = some (s', answers)) :
    ∀ p ∈ reads.zip answers, ¬ p.1.2.Whole →
      p.2 = [] ∨ messageType p.1.2.bytes = some (some .loadInfoNormal) := by
  induction reads generalizing s answers with
  | nil => simp
  | cons p reads ih =>
    obtain ⟨⟨s₁, replies⟩, hp, h⟩ := Option.bind_eq_some_iff.1 h
    obtain ⟨⟨s₂, later⟩, hlater, h⟩ := Option.bind_eq_some_iff.1 h
    cases h
    rw [List.zip_cons_cons, List.forall_mem_cons]
    refine ⟨fun hread => ?_, ih hlater⟩
    obtain ⟨left, hleft⟩ := Read.parse_of_not_whole hread
    exact (process_of_rejected hleft hp).2

/-- **What the server does depends on what the requests say.** In a run whose reads begin where requests do,
the server does what it does for any whole requests that say the same, and gives them the same answers;
the fronts change nothing and are answered only if they ask for all files. -/
theorem serve_of_said (h : serve s (messages reads) = some (s', answers)) (hwhole : ∀ p ∈ reads', p.2.Whole)
    (hsaid : said reads = said reads') :
    serve s (messages reads') = some (s', answersTo reads answers) ∧
      ∀ p ∈ reads.zip answers, ¬ p.1.2.Whole →
        p.2 = [] ∨ messageType p.1.2.bytes = some (some .loadInfoNormal) :=
  ⟨serve_congr h hwhole hsaid, answers_to_fronts h⟩

/-- A request for the listing of all files with white space. -/
def spacedRequest : Request :=
  let code : JsonText.Number :=
    ⟨false, ascii "108", none, none, ⟨by decide +kernel, by decide⟩, .inr (by decide), by simp⟩
  let text : Bytes := 0x7B :: ([0x20] ++ (0x22 :: ("msgType".toList.flatMap String.utf8EncodeChar ++
    0x22 :: ([] ++ 0x3A :: ([0x09] ++ code.text))) ++ ([] ++ [0x7D])))
  have h : JsonText.IsText (Reader.stackLimit - 1) text (.object [("msgType".toList, .number code)]) := by
    have hspace : JsonText.Blank [0x20] := by simp [JsonText.Blank]
    have htab : JsonText.Blank [0x09] := by simp [JsonText.Blank]
    have hkey : JsonText.Chars ("msgType".toList.flatMap String.utf8EncodeChar) "msgType".toList :=
      JsonText.chars_of_plain (by simp)
    have hcode : JsonText.IsText (Reader.stackLimit - 2) code.text (.number code) := .number code
    exact .object (.last hspace (.mk hkey JsonText.blank_nil htab hcode) JsonText.blank_nil)
  .ofText h (by decide +kernel) trivial

/-- A front of the request and the request with a byte behind it. -/
def cutReads : List (Surroundings × Read) :=
  [(carrying, ⟨listingRequest, listingRequest.text.take 12, .inr (List.take_prefix _ _)⟩),
    (carrying, ⟨spacedRequest, spacedRequest.text ++ [0x5D], .inl (List.prefix_append _ _)⟩)]

theorem serve_of_said_spaced : ∃ s' answers,
    serve ⟨smallDatabase, smallManager⟩ (messages cutReads) = some (s', answers) ∧
      serve ⟨smallDatabase, smallManager⟩ [(carrying, listingRequest.text)] =
        some (s', answersTo cutReads answers) := by
  let plain : Read := ⟨listingRequest, listingRequest.text, .inl (List.prefix_refl _)⟩
  have hserved : (serve ⟨smallDatabase, smallManager⟩ (messages cutReads)).isSome := by
    decide +kernel
  obtain ⟨⟨s', answers⟩, h⟩ := Option.isSome_iff_exists.1 hserved
  have hwhole : ∀ p ∈ [(carrying, plain)], p.2.Whole := List.forall_mem_singleton.2 (List.prefix_refl _)
  have hsaid : said cutReads = said [(carrying, plain)] := rfl
  exact ⟨s', answers, h, (serve_of_said h hwhole hsaid).1⟩

end ClientSession

end GraduationServer
