import GraduationServer.Client.Boundaries
import GraduationServer.Client.Malformed
import GraduationServer.Foundations.Segments
import GraduationServer.Json.Written

/-!
# The replies on the connection

All replies of a connection stand in one stream of bytes. Every reply is one document, but only the
handlers of the three listings of a user put CR LF behind theirs; the other handlers send the document
alone. So cutting the stream at CR LF gives the documents exactly when all requests that are answered,
but perhaps the last, are for such a listing, and the last is no login, whose first document has the
listings behind it (`segments_sent_iff`).
-/

namespace GraduationServer

open Json

/-- The document of a reply, and whether CR LF is behind it. -/
def Reply.piece (r : Reply) : Piece UInt8 := (Writer.write r.json, r.crlf)

/-- The bytes of some replies on the connection. -/
def sentBytes (replies : List Reply) : Bytes := stream (ascii "\r\n") (replies.map Reply.piece)

/-- The documents of some replies. -/
def documents (replies : List Reply) : List Bytes := replies.map fun r => Writer.write r.json

/-- The listings of a user. -/
def MsgType.isUserListing : MsgType → Bool
  | .loadInfoHistory | .loadInfoDynamic | .loadInfoCollect => true
  | _ => false

namespace ClientSession

/-- The type of a message that is answered, if it is. -/
def answered (msgbuff : Bytes) : Option MsgType :=
  (messageType msgbuff).join.filter fun type =>
    match type with
    | .heartbeat | .loadInfoSearch => false
    | .loadInfoNormal => true
    | _ => (Reader.parse msgbuff).any Prod.fst

/-- Which of the replies to an answered message have CR LF behind them. -/
def crlfs : MsgType → List Bool
  | .login => [false, true, true, true]
  | type => [type.isUserListing]

/-- Which of the replies of a handler have CR LF behind them, when it returns. -/
def Ending (l : List Bool) (handled : Handled) : Prop :=
  ∀ r, handled = some r → r.2.map Reply.crlf = l

theorem Ending.bind {α : Type} {l : List Bool} {o : Option α} {f : α → Handled}
    (h : ∀ a, o = some a → Ending l (f a)) : Ending l (o.bind f) := by
  intro r hr
  obtain ⟨a, ha, hr⟩ := Option.bind_eq_some_iff.1 hr
  exact h a ha r hr

theorem Ending.ite {l : List Bool} {c : Prop} [Decidable c] {h₁ h₂ : Handled} (hpos : Ending l h₁)
    (hneg : Ending l h₂) : Ending l (if c then h₁ else h₂) := by
  split <;> assumption

theorem ending_pure (s : Server) (replies : List Reply) :
    Ending (replies.map Reply.crlf) (some (s, replies)) := by
  rintro _ ⟨⟩
  rfl

variable {s s' : Server} {e : Surroundings} {data : Bytes} {root : Value} {replies : List Reply}

theorem ending_withRoot (hparse : Reader.parse data = some (true, root)) {l : List Bool}
    {handle : Value → Handled} (h : Ending l (handle root)) : Ending l (withRoot s data handle) :=
  fun r hr => h r (of_withRoot_of_parse hparse hr)

/-! ## What the handlers send -/

theorem ending_stateReply {type : MsgType} {state : ℤ} {members : List (Bytes × Bytes)} :
    Ending [false] ((stateReply type state members).bind fun json => some (s, [{ json }])) :=
  .bind fun _ _ => ending_pure _ _

theorem ending_listing {type : MsgType} {listing : Bytes → Listing}
    (hparse : Reader.parse data = some (true, root)) :
    Ending [true] (withRoot s data fun root => do
      let userName ← root.stringMember (ascii "username")
      let json ← listingReply type (listing userName)
      return (s, [{ json, crlf := true }])) :=
  ending_withRoot hparse <| .bind fun _ _ => .bind fun _ _ => ending_pure _ _

theorem ending_onAddCollectInfoResponse (hparse : Reader.parse data = some (true, root)) :
    Ending [false] (onAddCollectInfoResponse s e data) := by
  refine ending_withRoot hparse (.bind fun username _ => .ite ?_ ending_stateReply)
  refine .bind fun title _ => .bind fun fileType _ => .bind fun cState _ => .ite ?_ ending_stateReply
  exact .bind fun _ _ => .bind fun _ _ => .bind fun _ _ => ending_pure _ _

theorem ending_onAddHistoryInfoResponse (hparse : Reader.parse data = some (true, root)) :
    Ending [false] (onAddHistoryInfoResponse s e data) := by
  refine ending_withRoot hparse (.bind fun username _ => .ite ?_ ending_stateReply)
  exact .bind fun _ _ => .bind fun _ _ => .bind fun _ _ => ending_pure _ _

/-- The message that `OnLoginResponse` writes itself is accepted when it is read without an exception.
-/
theorem parse_uName {name : Bytes} {v : Value} (hv : Value.ofString name = some v) {p : Bool × Value}
    (hparse : Reader.parse (Writer.write (.object [(ascii "username", v)])) = some p) :
    p.1 = true := by
  obtain ⟨decoded, hdecoded⟩ :=
    Option.isSome_iff_exists.1 (Writer.isSome_decodeString_escape (stored name))
  rw [eq_of_ofString hv, parse_uJsonStr, hdecoded, Option.elim_some, Option.map_eq_some_iff] at hparse
  obtain ⟨w, -, rfl⟩ := hparse
  rfl

/-- **A login sends four documents**: its own and the three listings. -/
theorem ending_onLoginResponse (hparse : Reader.parse data = some (true, root)) :
    Ending [false, true, true, true] (onLoginResponse s e data) := by
  refine ending_withRoot hparse (.bind fun userName _ => .bind fun password _ => .bind fun json _ => ?_)
  refine .bind fun uName huName => ?_
  -- the three listings are asked for with one message
  have hlisting : ∀ {s s' : Server} {type : MsgType} {listing : Bytes → Listing}
      {replies : List Reply}, (withRoot s (Writer.write (.object [(ascii "username", uName)])) fun root => do
        let userName ← root.stringMember (ascii "username")
        let json ← listingReply type (listing userName)
        return (s, [{ json, crlf := true }])) = some (s', replies) →
      replies.map Reply.crlf = [true] := by
    intro s s' type listing replies h
    obtain ⟨p, hp, -⟩ := Option.bind_eq_some_iff.1 h
    obtain ⟨ok, root⟩ := p
    obtain rfl : ok = true := parse_uName huName hp
    exact ending_listing hp _ h
  refine .bind fun dynamic hdynamic => .bind fun history hhistory => .bind fun collect hcollect => ?_
  rintro _ ⟨⟩
  simp only [List.map_cons, List.map_append]
  rw [hlisting hdynamic, hlisting hhistory, hlisting hcollect]
  rfl

theorem ending_onRegisterResponse (hparse : Reader.parse data = some (true, root)) :
    Ending [false] (onRegisterResponse s e data) :=
  ending_withRoot hparse <| .bind fun _ _ => .bind fun _ _ => .bind fun _ _ => .bind fun _ _ =>
    .bind fun _ _ => ending_pure _ _

theorem ending_onUploadTextResponse (hparse : Reader.parse data = some (true, root)) :
    Ending [false] (onUploadTextResponse s e data) :=
  ending_withRoot hparse <| .bind fun _ _ => .bind fun _ _ => .bind fun _ _ => .bind fun _ _ =>
    .bind fun _ _ => .bind fun _ _ => ending_pure _ _

theorem ending_onUploadAudioResponse (hparse : Reader.parse data = some (true, root)) :
    Ending [false] (onUploadAudioResponse s e data) :=
  ending_withRoot hparse <| .bind fun _ _ => .bind fun _ _ => .bind fun _ _ => .bind fun _ _ =>
    .bind fun _ _ => .bind fun _ _ => .bind fun _ _ => ending_pure _ _

theorem ending_onUploadVideoResponse (hparse : Reader.parse data = some (true, root)) :
    Ending [false] (onUploadVideoResponse s e data) :=
  ending_withRoot hparse <| .bind fun _ _ => .bind fun _ _ => .bind fun _ _ => .bind fun _ _ =>
    .bind fun _ _ => .bind fun _ _ => .bind fun _ _ => .bind fun _ _ => ending_pure _ _

theorem ending_onGetNotmalInfoResponse : Ending [false] (onGetNotmalInfoResponse s) :=
  .bind fun _ _ => ending_pure _ _

section Handled

variable {type : MsgType} (htype : messageType data = some (some type))

include htype

/-- A message that the parser rejects is answered if it asks for the common list. -/
theorem crlfs_of_rejected (hparse : Reader.parse data = some (false, root))
    (h : handle s e type data = some (s', replies)) :
    replies.map Reply.crlf = (answered data).elim [] crlfs := by
  by_cases hnormal : type = .loadInfoNormal
  · subst hnormal
    rw [ending_onGetNotmalInfoResponse _ h, answered, htype]
    rfl
  · cases h.symm.trans (handle_of_rejected hparse hnormal)
    have hanswered : answered data = none := by
      rw [answered, htype, Option.join_some, hparse]
      cases type with
      | loadInfoNormal => exact absurd rfl hnormal
      | _ => rfl
    rw [hanswered]
    rfl

/-- A message that the parser accepts is answered unless it is a heartbeat or a search. -/
theorem crlfs_of_accepted (hparse : Reader.parse data = some (true, root))
    (h : handle s e type data = some (s', replies)) :
    replies.map Reply.crlf = (answered data).elim [] crlfs := by
  have hanswered : answered data = (some type).filter fun type => match type with
      | .heartbeat | .loadInfoSearch => false
      | _ => true := by
    simp only [answered, htype, Option.join_some, hparse, Option.any_some]
    cases type <;> rfl
  rw [hanswered]
  cases type with
  | heartbeat =>
    cases h
    rfl
  | loadInfoSearch =>
    have hending : Ending [] (onGetSearchInfoResponse s data) :=
      ending_withRoot hparse <| .bind fun _ _ => ending_pure _ _
    exact hending _ h
  | loadInfoNormal => exact ending_onGetNotmalInfoResponse _ h
  | login => exact ending_onLoginResponse hparse _ h
  | register => exact ending_onRegisterResponse hparse _ h
  | uploadVideo => exact ending_onUploadVideoResponse hparse _ h
  | uploadAudio => exact ending_onUploadAudioResponse hparse _ h
  | uploadText => exact ending_onUploadTextResponse hparse _ h
  | loadInfoHistory => exact ending_listing hparse _ h
  | loadInfoDynamic => exact ending_listing hparse _ h
  | loadInfoCollect => exact ending_listing hparse _ h
  | addHistory => exact ending_onAddHistoryInfoResponse hparse _ h
  | addCollect => exact ending_onAddCollectInfoResponse hparse _ h

end Handled

/-- **What `Process` sends** when it returns. -/
theorem crlfs_of_process (h : process s e data = some (s', replies)) :
    replies.map Reply.crlf = (answered data).elim [] crlfs := by
  obtain ⟨type, htype, h⟩ := Option.bind_eq_some_iff.1 h
  obtain ⟨⟨ok, root⟩, hparse, -⟩ := Option.bind_eq_some_iff.1 htype
  cases type with
  | none =>
    cases h
    simp [answered, htype]
  | some type =>
    cases ok with
    | false => exact crlfs_of_rejected htype hparse h
    | true => exact crlfs_of_accepted htype hparse h

/-! ## Runs -/

/-- The types of the messages that are answered. -/
def answeredTypes (messages : List (Surroundings × Bytes)) : List MsgType :=
  messages.filterMap fun m => answered m.2

theorem answeredTypes_cons (m : Surroundings × Bytes) (messages : List (Surroundings × Bytes)) :
    answeredTypes (m :: messages) = (answered m.2).toList ++ answeredTypes messages := by
  rw [answeredTypes, List.filterMap_cons]
  cases answered m.2 <;> rfl

theorem crlfs_of_serve {messages : List (Surroundings × Bytes)} {answers : List (List Reply)}
    (h : serve s messages = some (s', answers)) :
    answers.flatten.map Reply.crlf = (answeredTypes messages).flatMap crlfs := by
  induction messages generalizing s answers with
  | nil =>
    cases h
    rfl
  | cons m messages ih =>
    obtain ⟨⟨s₁, replies⟩, hprocess, h⟩ := Option.bind_eq_some_iff.1 h
    obtain ⟨⟨s₂, later⟩, hserve, h⟩ := Option.bind_eq_some_iff.1 h
    cases h
    have hfirst : (answered m.2).elim [] crlfs = (answered m.2).toList.flatMap crlfs := by
      cases answered m.2 <;> simp
    rw [List.flatten_cons, List.map_append, ih hserve, crlfs_of_process hprocess, hfirst,
      answeredTypes_cons, List.flatMap_append]

/-- All messages that are answered, but perhaps the last, are for a listing of a user, and the last is
no login. -/
def ListingsFirst (types : List MsgType) : Prop :=
  (∀ type ∈ types.dropLast, type.isUserListing = true) ∧ types.getLast? ≠ some .login

/-- This is what it takes that only the last reply may be without CR LF. -/
theorem forall_dropLast_crlfs (types : List MsgType) :
    (∀ b ∈ (types.flatMap crlfs).dropLast, b = true) ↔ ListingsFirst types := by
  have hall : ∀ type : MsgType, (∀ b ∈ crlfs type, b = true) ↔ type.isUserListing = true := by
    intro type
    cases type <;> simp [crlfs, MsgType.isUserListing]
  have hlast : ∀ type : MsgType, (∀ b ∈ (crlfs type).dropLast, b = true) ↔ type ≠ .login := by
    intro type
    cases type <;> simp [crlfs]
  have hne : ∀ type : MsgType, crlfs type ≠ [] := by
    intro type
    cases type <;> simp [crlfs]
  rcases types.eq_nil_or_concat with rfl | ⟨before, last, rfl⟩
  · simp [ListingsFirst]
  · have hsplit : ((before ++ [last]).flatMap crlfs).dropLast =
        before.flatMap crlfs ++ (crlfs last).dropLast := by
      rw [List.flatMap_append, List.flatMap_singleton, List.dropLast_append_of_ne_nil (hne last)]
    rw [List.concat_eq_append, hsplit, ListingsFirst, List.dropLast_concat, List.getLast?_concat]
    simp only [List.forall_mem_append, hlast, List.forall_mem_flatMap, hall, ne_eq,
      Option.some.injEq]

/-- Cutting the bytes of some replies at CR LF gives their documents when all but perhaps the last have
it behind them: a document has no carriage return. -/
theorem segments_sentBytes (replies : List Reply) :
    segments (ascii "\r\n") (sentBytes replies) = documents replies ↔
      ∀ b ∈ (replies.map Reply.crlf).dropLast, b = true := by
  have happart : ∀ p ∈ replies.map Reply.piece, Apart (ascii "\r\n") p.1 := by
    intro p hp
    obtain ⟨r, -, rfl⟩ := List.mem_map.1 hp
    exact apart_of_notMem (Writer.noReturn_write r.json)
  have hne : ∀ p ∈ replies.map Reply.piece, p.1 ≠ [] := by
    intro p hp
    obtain ⟨r, -, rfl⟩ := List.mem_map.1 hp
    exact Writer.write_ne_nil r.json
  have hdocuments : (replies.map Reply.piece).map Prod.fst = documents replies := List.map_map ..
  have hcrlfs : ∀ b, b ∈ (replies.map Reply.crlf).dropLast ↔
      ∃ p ∈ (replies.map Reply.piece).dropLast, p.2 = b := by
    intro b
    have hmap : (replies.map Reply.piece).map Prod.snd = replies.map Reply.crlf := List.map_map ..
    rw [← hmap, ← List.map_dropLast, List.mem_map]
  rw [sentBytes, ← hdocuments, segments_stream_iff (by decide) happart hne]
  simp only [Terminated, hcrlfs, forall_exists_index, and_imp]
  exact ⟨fun h b p hp hb => hb ▸ h p hp, fun h p hp => h p.2 p hp rfl⟩

/-- **Cutting the stream at CR LF gives the documents exactly when all requests that are answered, but
perhaps the last, are for a listing of a user, and the last is no login.** -/
theorem segments_sent_iff {messages : List (Surroundings × Bytes)} {answers : List (List Reply)}
    (h : serve s messages = some (s', answers)) :
    segments (ascii "\r\n") (sentBytes answers.flatten) = documents answers.flatten ↔
      ListingsFirst (answeredTypes messages) := by
  rw [segments_sentBytes, crlfs_of_serve h, forall_dropLast_crlfs]

/-- A request for the files of `ann`. -/
def annListing : Bytes := ascii "\x7b\"msgType\":107,\"username\":\"ann\"\x7d"

/-- The first two documents after the login of `ann` are one segment. -/
theorem not_segments_annLogin :
    ¬ ∀ (s s' : Server) (messages : List (Surroundings × Bytes)) (answers : List (List Reply)),
      serve s messages = some (s', answers) →
        segments (ascii "\r\n") (sentBytes answers.flatten) = documents answers.flatten := by
  intro h
  have hserved : (serve ⟨smallDatabase, smallManager⟩ [(quiet, annLogin)]).isSome := by decide +kernel
  obtain ⟨⟨s', answers⟩, hserve⟩ := Option.isSome_iff_exists.1 hserved
  have hcrlfs := crlfs_of_serve hserve
  have hfalse := (segments_sentBytes answers.flatten).1 (h _ _ _ _ hserve)
  have hanswered : (answeredTypes [(quiet, annLogin)]).flatMap crlfs = [false, true, true, true] := by
    decide
  rw [hcrlfs, hanswered] at hfalse
  exact absurd (hfalse false (by decide)) (by decide)

/-- Two listings of `ann` and the listing of all files can be cut apart. -/
theorem segments_sent_annListing :
    ∃ s' answers, serve ⟨smallDatabase, smallManager⟩
        [(quiet, annListing), (quiet, annListing), (quiet, listingRequest.text)] =
          some (s', answers) ∧
      segments (ascii "\r\n") (sentBytes answers.flatten) = documents answers.flatten := by
  have hserved : (serve ⟨smallDatabase, smallManager⟩
      [(quiet, annListing), (quiet, annListing), (quiet, listingRequest.text)]).isSome := by
    decide +kernel
  obtain ⟨⟨s', answers⟩, hserve⟩ := Option.isSome_iff_exists.1 hserved
  have hanswered : answeredTypes [(quiet, annListing), (quiet, annListing),
      (quiet, listingRequest.text)] = [.loadInfoDynamic, .loadInfoDynamic, .loadInfoNormal] := by
    decide
  refine ⟨s', answers, hserve, (segments_sent_iff hserve).2 ?_⟩
  rw [hanswered]
  exact ⟨by decide, by decide⟩

end ClientSession

end GraduationServer
