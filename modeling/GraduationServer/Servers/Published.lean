import GraduationServer.Client.Malformed
import GraduationServer.Client.Wire
import GraduationServer.Servers.Conversations

/-!
# What clients see of each other

A client uploads a file, and when this is answered with success, every client that asks for the files
behind that is sent it. Here the clients are on their connections, they send any messages, and their events
come in any order: a listing shows what was in the caches at the start, and then what has been uploaded with
success, by whomever and in the order of the answers (`ChatServer.listings_show`).
-/

namespace GraduationServer

open Json Json.Writer

/-! ## One message -/

namespace ClientSession

variable {s s' : Server} {e : Surroundings} {data : Bytes} {root : Value} {replies : List Reply}

/-- The assets of a kind that a message and its answer publish: the one of an upload that is answered with
success. -/
def published (type : AssetType) (data : Bytes) (replies : List Reply) : List Asset :=
  match Reader.parse data with
  | some (true, root) =>
    if messageType data = some (some (uploadType type)) ∧ replies.head?.bind Reply.state = some 1 then
      (requested root type).toList
    else []
  | _ => []

theorem published_nil (type : AssetType) (data : Bytes) : published type data [] = [] := by
  unfold published
  split
  · exact if_neg (by simp)
  · rfl

theorem uploadType_injective : Function.Injective uploadType := by
  intro t t' h
  cases t <;> cases t' <;> first | rfl | cases h

/-- An upload. -/
theorem assets_of_upload {t : AssetType} (hparse : Reader.parse data = some (true, root))
    (htype : messageType data = some (some (uploadType t)))
    (h : handle s e (uploadType t) data = some (s', replies)) (type : AssetType) :
    s'.manager.assets type = s.manager.assets type ++ published type data replies := by
  obtain ⟨w, asset, -, hasset, hassets, rfl, reply, rfl, hstate⟩ := of_upload hparse h
  have hpublished : published type data [reply] =
      if uploadType t = uploadType type ∧ reply.state = some 1 then (requested root type).toList else [] := by
    simp [published, hparse, htype]
  rw [Server.assets_call, hassets, hpublished, hstate]
  congr 1
  by_cases ht : t = type
  · subst ht
    cases (s.call w e.attempt).1 <;> simp [hasset]
  · rw [if_neg (Ne.symm ht), ite_self, if_neg fun h => ht (uploadType_injective h.1)]

/-- A message that asks for anything else keeps the assets. -/
theorem assets_of_other {type : MsgType} (hparse : Reader.parse data = some (true, root))
    (hother : ∀ t, type ≠ uploadType t) (h : handle s e type data = some (s', replies)) (t : AssetType) :
    s'.manager.assets t = s.manager.assets t := by
  have hcall : ∀ w : Write, w.assets t = [] →
      (s.call w e.attempt).2.manager.assets t = s.manager.assets t := by
    intro w hw
    rw [Server.assets_call, hw, ite_self, List.append_nil]
  cases type with
  | uploadVideo => exact absurd rfl (hother .video)
  | uploadAudio => exact absurd rfl (hother .audio)
  | uploadText => exact absurd rfl (hother .text)
  | heartbeat =>
    cases h
    rfl
  | login => rw [server_of_onLoginResponse h]
  | loadInfoHistory | loadInfoDynamic | loadInfoCollect =>
    obtain rfl : s' = s := server_of_listing h
    rfl
  | loadInfoNormal =>
    obtain ⟨json, -, hpair⟩ := Option.bind_eq_some_iff.1 h
    cases hpair
    rfl
  | loadInfoSearch =>
    have hsearch : onGetSearchInfoResponse s data = some (s', replies) := h
    obtain ⟨searchInfo, -, hpair⟩ := Option.bind_eq_some_iff.1 (of_withRoot_of_parse hparse hsearch)
    cases hpair
    rfl
  | register =>
    obtain ⟨user, -, -, rfl, -⟩ := of_onRegisterResponse hparse h
    exact hcall (.addUser user) rfl
  | addCollect =>
    obtain ⟨_, -, _, -, ⟨-, rfl, -⟩ | ⟨u, title, fileType, cState, -, -, -, -, rfl, -⟩⟩ :=
      of_onAddCollectInfoResponse hparse h
    · rfl
    · refine hcall _ ?_
      unfold collectWrite
      split <;> rfl
  | addHistory =>
    have hhistory : onAddHistoryInfoResponse s e data = some (s', replies) := h
    obtain ⟨username, -, h⟩ := Option.bind_eq_some_iff.1 (of_withRoot_of_parse hparse hhistory)
    dsimp only at h
    split at h
    · obtain ⟨title, -, h⟩ := Option.bind_eq_some_iff.1 h
      obtain ⟨fileType, -, h⟩ := Option.bind_eq_some_iff.1 h
      obtain ⟨json, -, h⟩ := Option.bind_eq_some_iff.1 h
      cases h
      exact hcall (.addBrowseInfoFromDB _ _ _ _) rfl
    · obtain ⟨json, -, h⟩ := Option.bind_eq_some_iff.1 h
      cases h
      rfl

/-- **Only an upload that is answered with success changes the assets**, whatever the message is. -/
theorem assets_of_process (h : process s e data = some (s', replies)) (type : AssetType) :
    s'.manager.assets type = s.manager.assets type ++ published type data replies := by
  rcases of_process h with ⟨rfl, rfl⟩ | ⟨msgType, htype, hhandle⟩
  · rw [published_nil, List.append_nil]
  · obtain ⟨⟨ok, root⟩, hparse, -⟩ := Option.bind_eq_some_iff.1 htype
    by_cases hupload : ∃ t, msgType = uploadType t
    · obtain ⟨t, rfl⟩ := hupload
      cases ok with
      | true => exact assets_of_upload hparse htype hhandle type
      | false =>
        rw [handle_of_rejected hparse (by cases t <;> decide)] at hhandle
        cases hhandle
        rw [published_nil, List.append_nil]
    · have hother : ∀ t, msgType ≠ uploadType t := fun t ht => hupload ⟨t, ht⟩
      have hnone : published type data replies = [] := by
        unfold published
        split
        · refine if_neg fun hpublished => hother type ?_
          rw [htype] at hpublished
          simpa using hpublished.1
        · rfl
      rw [hnone, List.append_nil]
      cases ok with
      | true => exact assets_of_other hparse hother hhandle type
      | false =>
        by_cases hnormal : msgType = .loadInfoNormal
        · subst hnormal
          obtain ⟨json, -, hpair⟩ := Option.bind_eq_some_iff.1 hhandle
          cases hpair
          rfl
        · rw [handle_of_rejected hparse hnormal] at hhandle
          cases hhandle
          rfl

end ClientSession

/-! ## Runs -/

namespace ChatServer

open ClientSession

variable {name ipPort : Bytes} {s s' : ChatServer} {type : AssetType}

/-- What has been published in a run. -/
def publishedIn (type : AssetType) (seen : List Seen) : List Asset :=
  seen.flatMap fun o => o.exchange.elim [] fun x => published type x.message x.replies

theorem assets_step {t : Turn} {o : Seen} (h : s.step name ipPort t = some (o, s')) :
    s'.server.manager.assets type = s.server.manager.assets type ++ publishedIn type [o] := by
  rw [publishedIn, List.flatMap_singleton]
  rcases step_cases h with ⟨-, -, hnone, hserver⟩ | ⟨_, _, x, _, -, -, -, hprocess, -, rfl⟩
  · rw [hnone, hserver, Option.elim_none, List.append_nil]
  · exact assets_of_process hprocess type

theorem assets_run {is : List Turn} {out : List Seen} (h : runs (step name ipPort) s is = some (out, s')) :
    s'.server.manager.assets type = s.server.manager.assets type ++ publishedIn type out := by
  induction is generalizing s out with
  | nil =>
    cases h
    exact (List.append_nil _).symm
  | cons t is ih =>
    obtain ⟨o, u, out', hstep, hrest, rfl⟩ := runs_cons_eq_some.1 h
    rw [ih hrest, assets_step hstep, List.append_assoc, publishedIn, publishedIn, ← List.flatMap_append]
    rfl

theorem fits_published {data : Bytes} {replies : List Reply} :
    ∀ asset ∈ published type data replies, Fits asset := by
  intro asset hasset
  unfold published at hasset
  split at hasset
  · next root hparse =>
    split at hasset
    · exact fits_requested hparse (Option.mem_toList.1 hasset)
    · cases hasset
  · cases hasset

theorem fits_publishedIn {seen : List Seen} : ∀ asset ∈ publishedIn type seen, Fits asset := by
  intro asset hasset
  obtain ⟨o, -, hasset⟩ := List.mem_flatMap.1 hasset
  cases hexchange : o.exchange with
  | none =>
    rw [hexchange] at hasset
    cases hasset
  | some x =>
    rw [hexchange] at hasset
    exact fits_published asset hasset

/-- **What clients see of each other.** In every run, whenever a client asks for all files, it is sent one
document, from which it reads the assets of the start and then what all clients have uploaded with success
before, in the order of the answers; and when it asks for the files of a user, those of them that were
uploaded under this name. The texts of the start and of these uploads have to be in UTF-8. -/
theorem listings_show {server : Server} {is : List Turn} {out before behind : List Seen} {o : Seen}
    {x : Exchange} (h : runs (step name ipPort) ⟨{}, server⟩ is = some (out, s))
    (hold : ∀ type, ∀ asset ∈ server.manager.assets type, Legible asset)
    (hout : out = before ++ o :: behind) (hx : o.exchange = some x)
    (hnew : ∀ type, ∀ asset ∈ publishedIn type before, ∀ p ∈ asset, IsUtf8 p.2) :
    (messageType x.message = some (some .loadInfoNormal) →
      ∃ json, x.replies = [{ json }] ∧ Reader.parse (write json) = some (true, json) ∧
        ∀ type, listed json type = some (server.manager.assets type ++ publishedIn type before)) ∧
    ∀ root username, messageType x.message = some (some .loadInfoDynamic) →
      Reader.parse x.message = some (true, root) →
      root.stringMember (ascii "username") = some username →
      ∃ json, x.replies = [{ json, crlf := true }] ∧ Reader.parse (write json) = some (true, json) ∧
        ∀ type, listed json type = some
          ((server.manager.assets type ++ publishedIn type before).filter (UploadedBy username)) := by
  subst hout
  obtain ⟨is₁, t, is₂, u, v, -, hrun, hstep⟩ := runs_split h
  have hassets : ∀ type, u.server.manager.assets type =
      server.manager.assets type ++ publishedIn type before := fun type => assets_run hrun
  have hlegible : ∀ type, ∀ asset ∈ u.server.manager.assets type, Legible asset := by
    intro type asset hasset
    rw [hassets] at hasset
    rcases List.mem_append.1 hasset with hasset | hasset
    · exact hold type asset hasset
    · exact fun p hp => ⟨hnew type asset hasset p hp, fits_publishedIn asset hasset p hp⟩
  rcases step_cases hstep with ⟨-, -, hnone, -⟩ | ⟨_, _, y, _, -, -, -, hprocess, -, rfl⟩
  · rw [hnone] at hx
    cases hx
  obtain rfl : y = x := Option.some_inj.1 hx
  constructor
  · intro htype
    obtain ⟨json, hreply, hparse, hlisted⟩ := normal_on_wire hlegible
    rw [process_of_messageType htype] at hprocess
    have hsame := hprocess.symm.trans hreply
    simp only [Option.some.injEq, Prod.mk.injEq] at hsame
    exact ⟨json, hsame.2, hparse, fun type => (hlisted type).trans (congrArg some (hassets type))⟩
  · intro root username htype hroot hname
    obtain ⟨json, hreply, hparse, hlisted⟩ := dynamic_on_wire hlegible hroot hname
    rw [process_of_messageType htype] at hprocess
    have hsame := hprocess.symm.trans hreply
    simp only [Option.some.injEq, Prod.mk.injEq] at hsame
    exact ⟨json, hsame.2, hparse, fun type => by rw [hlisted, hassets]⟩

/-- `ann` uploads a text, and another client asks for all files. -/
def publishing : List Turn :=
  [quietTurn (.newConnection 0x7F00), quietTurn (.newConnection 0x7F80),
    quietTurn (.poll ⟨1, 0x7F00⟩ { pollIn := true }), quietTurn (.poll ⟨2, 0x7F80⟩ { pollIn := true }),
    ⟨.handle ⟨1, 0x7F00⟩ (some annText.data) .wouldBlock, annText.surroundings, fun _ => .wouldBlock⟩,
    quietTurn (.handle ⟨2, 0x7F80⟩ (some listingRequest.text) .wouldBlock)]

theorem listings_show_publishing : ∃ before o s x json,
    runs (step [] []) ⟨{}, ⟨smallDatabase, smallManager⟩⟩ publishing = some (before ++ [o], s) ∧
      o.exchange = some x ∧ x.replies = [{ json }] ∧ Reader.parse (write json) = some (true, json) ∧
      ∀ type, listed json type = some (smallManager.assets type ++ publishedIn type before) := by
  have hcheck : (runs (step [] []) ⟨{}, ⟨smallDatabase, smallManager⟩⟩ publishing).any fun p =>
      ((p.1.getLast?.bind Seen.exchange).any fun x =>
        messageType x.message = some (some .loadInfoNormal)) &&
      [AssetType.video, .audio, .text].all fun type =>
        (publishedIn type p.1.dropLast).all fun asset => asset.all fun q => q.2.all fun c =>
          c.toNat < 0x80 := by
    decide +kernel
  obtain ⟨⟨out, s⟩, hrun, hcheck⟩ := (Option.any_eq_true _ _).1 hcheck
  rw [Bool.and_eq_true] at hcheck
  obtain ⟨hlast, hascii⟩ := hcheck
  obtain ⟨x, hbind, htype⟩ := (Option.any_eq_true _ _).1 hlast
  obtain ⟨o, ho, hx⟩ := Option.bind_eq_some_iff.1 hbind
  obtain ⟨before, rfl⟩ := List.getLast?_eq_some_iff.1 ho
  have hnew : ∀ type, ∀ asset ∈ publishedIn type before, ∀ p ∈ asset, IsUtf8 p.2 := by
    simp only [List.dropLast_concat, List.all_eq_true, decide_eq_true_eq] at hascii
    intro type asset hasset p hp
    exact isUtf8_of_ascii (hascii type (by cases type <;> simp) asset hasset p hp)
  obtain ⟨json, hshow⟩ :=
    (listings_show hrun legible_smallManager rfl hx hnew).1 (of_decide_eq_true htype)
  exact ⟨before, o, s, x, json, hrun, hx, hshow⟩

end ChatServer

end GraduationServer
