import GraduationServer.Client.Messages
import GraduationServer.Users.Restart

/-!
# Uploaded assets

The handlers of uploads look the user up and take no notice of the result: what the lookup has put
into the state of the reply is replaced by the outcome of the INSERT. So an asset of an unknown user
is stored and listed unless MySQL refuses its INSERT (`upload_owned_iff`), while the handlers of
favourites and history stop at an unknown user.
-/

namespace GraduationServer

open Json

namespace ClientSession

variable {s s' : Server} {e : Surroundings} {data : Bytes} {root : Value} {replies : List Reply}

/-! ## Owners -/

/-- The asset of a request is appended to the cache of its kind. -/
def Appends (root : Value) (type : AssetType) (s s' : Server) : Prop :=
  ∃ asset, requested root type = some asset ∧
    s'.manager.assets type = s.manager.assets type ++ [asset]

/-- Nothing is inserted and no asset is appended. -/
def KeepsAssets (s s' : Server) : Prop :=
  s'.db = s.db ∧ ∀ type, s'.manager.assets type = s.manager.assets type

/-- **An upload is answered with success exactly when its asset is appended, and it is kept from
unknown users exactly when the user is known or MySQL does not carry the INSERT out.** -/
theorem upload_owned_iff {type : AssetType} (hparse : Reader.parse data = some (true, root))
    (h : handle s e (uploadType type) data = some (s', replies)) :
    ∃ w reply, uploadWrite s.manager e.idSuffix root type = some w ∧ replies = [reply] ∧
      (((reply.state = some 1 ↔ Appends root type s s') ∧
          (¬ KnownUser s.manager root → KeepsAssets s s')) ↔
        KnownUser s.manager root ∨ excute s.db w.sql e.attempt = none) := by
  obtain ⟨w, asset, hw, hasset, hassets, rfl, reply, hreplies, hstate⟩ := of_upload hparse h
  refine ⟨w, reply, hw, hreplies, ?_⟩
  have hself : w.assets type = [asset] := by rw [hassets, if_pos rfl]
  obtain ⟨hok, hkeeps⟩ := Server.call_of_assets (by rw [hself]; exact List.cons_ne_nil _ _) s e.attempt
  have happended := Server.assets_call s w e.attempt
  have hanswer : reply.state = some 1 ↔ Appends root type s (s.call w e.attempt).2 := by
    rw [hstate, Appends, happended, hself]
    cases (s.call w e.attempt).1 with
    | false => simp
    | true => simpa using hasset
  rw [and_iff_right hanswer]
  cases hexcute : excute s.db w.sql e.attempt with
  | none =>
    refine iff_of_true (fun _ => ?_) (Or.inr rfl)
    rw [hkeeps hexcute]
    exact ⟨rfl, fun _ => rfl⟩
  | some db =>
    rw [hexcute, Option.isSome_some] at hok
    have hnot : ¬ KeepsAssets s (s.call w e.attempt).2 := by
      intro hkept
      have hlength := congrArg List.length (hkept.2 type)
      rw [happended, hok, if_pos rfl, hself, List.length_append, List.length_singleton] at hlength
      omega
    constructor
    · intro himp
      exact Or.inl (by_contra fun hunknown => hnot (himp hunknown))
    · rintro (hknown | hnone)
      · exact fun hunknown => absurd hknown hunknown
      · cases hnone

/-- A text of the user `name`. -/
def textOf (name : String) : Bytes :=
  ascii "\x7b\"msgType\":105,\"username\":\"" ++ ascii name ++
    ascii "\",\"fileType\":\"text\",\"fileData\":\"d\",\"courses\":\"c\",\"title\":\"x\"\x7d"

/-- What it is read as. -/
def rootOf (name : String) : Value :=
  .ofMembers [(ascii "msgType", .int 105), (ascii "username", .string (ascii name)),
    (ascii "fileType", .string (ascii "text")), (ascii "fileData", .string (ascii "d")),
    (ascii "courses", .string (ascii "c")), (ascii "title", .string (ascii "x"))]

/-- The statements of handlers are carried out. -/
def carrying : Surroundings := ⟨carriedOut, ascii "1", none, none⟩

/-- The text of a user that `smallDatabase` does not know is stored and answered with success. -/
theorem not_upload_owned :
    init smallDatabase smallAnswers = some (true, smallManager) ∧
      ∃ s' reply, Reader.parse (textOf "eve") = some (true, rootOf "eve") ∧
        handle ⟨smallDatabase, smallManager⟩ carrying .uploadText (textOf "eve") =
          some (s', [reply]) ∧
        ¬ KnownUser smallManager (rootOf "eve") ∧ reply.state = some 1 ∧
          ¬ KeepsAssets ⟨smallDatabase, smallManager⟩ s' := by
  have hparse : Reader.parse (textOf "eve") = some (true, rootOf "eve") := rfl
  have hanswered : (handle ⟨smallDatabase, smallManager⟩ carrying .uploadText (textOf "eve")).map
      (fun p => (decide (p.1.manager.assets .text = smallManager.assets .text),
        p.2.map Reply.state)) = some (false, [some 1]) := by
    decide +kernel
  obtain ⟨⟨s', replies⟩, h, heq⟩ := Option.map_eq_some_iff.1 hanswered
  obtain ⟨hassets, hstates⟩ := Prod.mk.inj heq
  obtain ⟨reply, rfl, hstate⟩ := List.map_eq_singleton_iff.1 hstates
  refine ⟨init_smallDatabase, s', reply, hparse, h, fun hknown => ?_, hstate, fun hkept => ?_⟩
  · have hname : (rootOf "eve").stringMember (ascii "username") = some (ascii "eve") := by
      decide +kernel
    have hfound : (smallManager.getUserInfoByUsername (ascii "eve") {}).1 = false := by
      decide +kernel
    have htrue := (@found_iff ⟨smallDatabase, smallManager⟩ _ _ hname).2 hknown
    rw [hfound] at htrue
    cases htrue
  · exact of_decide_eq_false hassets (hkept.2 .text)

/-- The text of `ann` is kept for a known user. -/
theorem upload_owned_ann :
    ∃ s' replies, handle ⟨smallDatabase, smallManager⟩ carrying .uploadText (textOf "ann") =
        some (s', replies) ∧
      ∃ reply, replies = [reply] ∧
        (reply.state = some 1 ↔ Appends (rootOf "ann") .text ⟨smallDatabase, smallManager⟩ s') := by
  have hanswered : (handle ⟨smallDatabase, smallManager⟩ carrying .uploadText (textOf "ann")).isSome :=
    by decide +kernel
  obtain ⟨⟨s', replies⟩, h⟩ := Option.isSome_iff_exists.1 hanswered
  have hname : (rootOf "ann").stringMember (ascii "username") = some (ascii "ann") := by
    decide +kernel
  have hknown : KnownUser smallManager (rootOf "ann") :=
    (@found_iff ⟨smallDatabase, smallManager⟩ _ _ hname).1 (by decide +kernel)
  obtain ⟨w, reply, -, hreplies, hiff⟩ := @upload_owned_iff _ _ _ _ (rootOf "ann") _ .text rfl h
  exact ⟨s', replies, h, reply, hreplies, (hiff.2 (Or.inl hknown)).1⟩

end ClientSession

end GraduationServer
