import GraduationServer.Client.Login
import GraduationServer.Client.Messages
import GraduationServer.Client.Safety

/-!
# Malformed messages

`Process` goes on after the parser has rejected a message, with what is left of it: the members read
before the error are still there and may tell a message type. The handler parses the message again and
does nothing when it is rejected (`withRoot`). Only the listing of all files never looks at its message,
so it is sent for a malformed one too, and that is the only way in which a malformed message is
answered (`inert_iff`).
-/

namespace GraduationServer

open Json

namespace ClientSession

/-- A message does nothing: the server stays as it is and nothing is sent, also when `Process` throws.
-/
def Inert (s : Server) (e : Surroundings) (msgbuff : Bytes) : Prop :=
  ∀ r, process s e msgbuff = some r → r = (s, [])

variable {s : Server} {e : Surroundings} {msgbuff : Bytes} {root : Value}

/-- A handler that parses a rejected message does nothing. -/
theorem withRoot_of_rejected (hparse : Reader.parse msgbuff = some (false, root))
    (handle : Value → Handled) : withRoot s msgbuff handle = some (s, []) := by
  rw [withRoot, hparse]
  rfl

/-- **Every handler but one does nothing with a rejected message.** -/
theorem handle_of_rejected (hparse : Reader.parse msgbuff = some (false, root)) {type : MsgType}
    (htype : type ≠ .loadInfoNormal) : handle s e type msgbuff = some (s, []) := by
  cases type with
  | loadInfoNormal => exact absurd rfl htype
  | heartbeat => rfl
  | _ =>
    simp only [handle, onLoginResponse, onRegisterResponse, onUploadTextResponse,
      onUploadAudioResponse, onUploadVideoResponse, onGetHistoryInfoResponse,
      onGetCollectInfoResponse, onGetRowsInfoResponse, onGetDynamicInfoResponse,
      onGetSearchInfoResponse, onAddCollectInfoResponse, onAddHistoryInfoResponse]
    exact withRoot_of_rejected hparse _

/-- The number of a message type belongs to no other. -/
theorem ofCode_eq_some {cmd : ℤ} {type : MsgType} : MsgType.ofCode cmd = some type ↔
    cmd = type.code := by
  constructor
  · intro h
    have hcode : type.code = cmd := by
      simpa using List.find?_some (show MsgType.all.find? _ = some type from h)
    exact hcode.symm
  · rintro rfl
    cases type <;> decide

/-- The type of a message, whether it is accepted or not. -/
theorem messageType_eq {ok : Bool} (hparse : Reader.parse msgbuff = some (ok, root)) :
    messageType msgbuff = (root.intMember (ascii "msgType")).map MsgType.ofCode := by
  simp only [messageType, hparse, Option.bind_eq_bind, Option.bind_some]
  cases root.intMember (ascii "msgType") <;> rfl

/-- The listing of all files is sent whenever it can be written. -/
theorem onGetNotmalInfoResponse_eq (h : s.manager.getInfoFromDB.Storable) :
    ∃ json, onGetNotmalInfoResponse s = some (s, [{ json }]) := by
  have hlisted : (listingReply .loadInfoNormal s.manager.getInfoFromDB).isSome :=
    isSome_listingReply.2 h
  obtain ⟨json, hjson⟩ := Option.isSome_iff_exists.1 hlisted
  exact ⟨json, by rw [onGetNotmalInfoResponse, hjson]; rfl⟩

/-- **A rejected message does nothing exactly when what is left of it does not ask for the listing of
all files**, or that listing holds a string that is too long. -/
theorem inert_iff (hparse : Reader.parse msgbuff = some (false, root)) :
    Inert s e msgbuff ↔ ¬ (root.intMember (ascii "msgType") = some MsgType.loadInfoNormal.code ∧
      s.manager.getInfoFromDB.Storable) := by
  constructor
  · rintro h ⟨hcmd, hstorable⟩
    have htype : messageType msgbuff = some (some .loadInfoNormal) := by
      rw [messageType_eq hparse, hcmd]
      rfl
    obtain ⟨json, hjson⟩ := onGetNotmalInfoResponse_eq hstorable
    have hreply : process s e msgbuff = some (s, [{ json }]) := by
      rw [process_of_messageType htype]
      exact hjson
    cases h _ hreply
  · rintro hno ⟨s', replies⟩ h
    rcases of_process h with ⟨rfl, rfl⟩ | ⟨type, htype, hhandle⟩
    · rfl
    · by_cases hnormal : type = .loadInfoNormal
      · subst hnormal
        rw [messageType_eq hparse, Option.map_eq_some_iff] at htype
        obtain ⟨cmd, hcmd, hcode⟩ := htype
        refine absurd ⟨?_, ?_⟩ hno
        · rw [hcmd, ofCode_eq_some.1 hcode]
        · exact ((isSome_handle hparse .loadInfoNormal).1 (Option.isSome_of_mem hhandle)).2 rfl
      · rw [handle_of_rejected hparse hnormal] at hhandle
        exact (Option.some.inj hhandle).symm

/-- A request for the listing of all files that is cut off. -/
def cutRequest : Bytes := ascii "\x7b\"msgType\":108"

/-- What the parser leaves of it. -/
theorem parse_cutRequest :
    Reader.parse cutRequest = some (false, .object [(ascii "msgType", .int 108)]) := rfl

/-- The request that is cut off is answered by a server without records. -/
theorem not_inert_cutRequest :
    ¬ ∀ (s : Server) (e : Surroundings) (msgbuff : Bytes) (root : Value),
      Reader.parse msgbuff = some (false, root) → Inert s e msgbuff := by
  intro h
  have hempty : ({} : UserManager).getInfoFromDB.Storable := ⟨by simp [UserManager.getInfoFromDB],
    by simp [UserManager.getInfoFromDB], by simp [UserManager.getInfoFromDB]⟩
  obtain ⟨json, hjson⟩ := onGetNotmalInfoResponse_eq (s := ⟨smallDatabase, {}⟩) hempty
  have htype : messageType cutRequest = some (some .loadInfoNormal) := by
    rw [messageType_eq parse_cutRequest]
    decide
  have hinert := h ⟨smallDatabase, {}⟩ quiet cutRequest _ parse_cutRequest
  cases hinert _ ((process_of_messageType htype ..).trans hjson)

/-- A login that is cut off does nothing. -/
theorem inert_cutLogin :
    Reader.parse (ascii "\x7b\"msgType\":101,\"username\":\"ann\"") =
        some (false, .object [(ascii "msgType", .int 101), (ascii "username", .string (ascii "ann"))]) ∧
      Inert ⟨smallDatabase, smallManager⟩ quiet
        (ascii "\x7b\"msgType\":101,\"username\":\"ann\"") := by
  have hparse : Reader.parse (ascii "\x7b\"msgType\":101,\"username\":\"ann\"") =
      some (false, .object [(ascii "msgType", .int 101),
        (ascii "username", .string (ascii "ann"))]) := rfl
  refine ⟨hparse, (inert_iff hparse).2 ?_⟩
  rintro ⟨hcmd, -⟩
  revert hcmd
  decide

end ClientSession

end GraduationServer
