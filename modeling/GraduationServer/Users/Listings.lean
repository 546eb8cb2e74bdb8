import GraduationServer.Users.UserManager

/-!
# Listings

The functions of `UserManager` that collect cached records for a client: everything, what a user has
uploaded (`GetDynamicInfoFromDB`), and what the rows of a query on the browse or collect table refer
to (`GetHistoryInfoFromDB`, `GetCollectInfoFromDB`).
-/

namespace GraduationServer

/-- The three lists a function fills. -/
structure Listing where
  videos : List VideoInfo := []
  audios : List AudioInfo := []
  words : List WordInfo := []
  deriving DecidableEq

namespace UserManager

/-- `GetVideoInfoFromDB`, `GetAudioInfoFromDB` and `GetWordInfoFromDB`. -/
def getInfoFromDB (m : UserManager) : Listing where
  videos := m.cacheVideoInfo
  audios := m.cacheAudioInfo
  words := m.cacheWordInfo

/-- `GetDynamicInfoFromDB`. -/
def getDynamicInfoFromDB (m : UserManager) (userName : Bytes) : Listing where
  videos := m.cacheVideoInfo.filter fun v => v.vUpName = userName
  audios := m.cacheAudioInfo.filter fun a => a.aUpName = userName
  words := m.cacheWordInfo.filter fun t => t.upName = userName

/-- The records of one row, by the type and the title in it. -/
def recordsOfRow (m : UserManager) (type title : Bytes) : Listing :=
  if type = ascii "video" then { videos := m.cacheVideoInfo.filter fun v => v.vTitle = title }
  else if type = ascii "audio" then { audios := m.cacheAudioInfo.filter fun a => a.aTitle = title }
  else if type = ascii "text" then { words := m.cacheWordInfo.filter fun t => t.title = title }
  else {}

/-- The loop over the rows of a query. -/
def recordsOfRows (m : UserManager) : List (Bytes × Bytes) → Listing
  | [] => {}
  | (type, title) :: rows =>
    let first := m.recordsOfRow type title
    let rest := m.recordsOfRows rows
    ⟨first.videos ++ rest.videos, first.audios ++ rest.audios, first.words ++ rest.words⟩

/-- `GetHistoryInfoFromDB` and `GetCollectInfoFromDB`, which differ in the table they query: the type
and title of each row of the answer, or `none` when the query fails. -/
def getRowsInfoFromDB (m : UserManager) (answer : Option (List (Bytes × Bytes)))
    (userName : Bytes) : Bool × Listing :=
  if (m.getUserInfoByUsername userName {}).1 then
    match answer with
    | none => (false, {})
    | some rows => (true, m.recordsOfRows rows)
  else (false, {})

end UserManager

end GraduationServer
