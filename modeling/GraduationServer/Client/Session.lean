import GraduationServer.Json.Writer
import GraduationServer.Users.Listings

/-!
# The client session

`ClientSession` (`ClientSession.cpp`): a read is taken as one JSON message, whose member `msgType`
chooses the handler (`process`). A handler parses the message again, reads its members, asks or
changes the user manager and sends replies.

A handler is `none` when an accessor or a constructor of `Json::Value` throws. `Surroundings` is what
a handler takes from outside: the outcome of its statement, the answers of its queries, and the end
of a new identifier, made of the time and four random digits.
-/

namespace GraduationServer

open Json

/-- The message types that have a handler (`rInfoType`). -/
inductive MsgType
  | heartbeat
  | login
  | register
  | uploadVideo
  | uploadAudio
  | uploadText
  | loadInfoHistory
  | loadInfoDynamic
  | loadInfoNormal
  | loadInfoCollect
  | loadInfoSearch
  | addHistory
  | addCollect
  deriving DecidableEq

namespace MsgType

def all : List MsgType :=
  [heartbeat, login, register, uploadVideo, uploadAudio, uploadText, loadInfoHistory,
    loadInfoDynamic, loadInfoNormal, loadInfoCollect, loadInfoSearch, addHistory, addCollect]

/-- The number of a message type: they are numbered from 100. -/
def code : MsgType → ℤ
  | heartbeat => 100
  | login => 101
  | register => 102
  | uploadVideo => 103
  | uploadAudio => 104
  | uploadText => 105
  | loadInfoHistory => 106
  | loadInfoDynamic => 107
  | loadInfoNormal => 108
  | loadInfoCollect => 109
  | loadInfoSearch => 110
  | addHistory => 111
  | addCollect => 112

/-- The message type of a number, for the `switch` of `Process`. -/
def ofCode (cmd : ℤ) : Option MsgType := all.find? fun t => t.code = cmd

end MsgType

/-- What a handler takes from outside. -/
structure Surroundings where
  attempt : Attempt
  idSuffix : Bytes
  historyRows : Option (List (Bytes × Bytes))
  collectRows : Option (List (Bytes × Bytes))

/-- A value sent to the client, written with a line end behind it or not. -/
structure Reply where
  json : Value
  crlf : Bool := false

/-- `getTableID`: a letter for the type in front of the time and the random digits. -/
def getTableID (suffix tType : Bytes) : Bytes :=
  (if tType = ascii "user" then ascii "u"
  else if tType = ascii "video" then ascii "v"
  else if tType = ascii "audio" then ascii "a"
  else if tType = ascii "text" then ascii "t"
  else if tType = ascii "browse" then ascii "b"
  else if tType = ascii "collect" then ascii "c"
  else []) ++ suffix

namespace ClientSession

/-! ## Replies -/

/-- The entry of a video in a listing. -/
def videoEntry (v : VideoInfo) : Option Value := do
  let fileData ← Value.ofString v.vFilePath
  let courses ← Value.ofString v.vCourses
  let title ← Value.ofString v.vTitle
  let synopsis ← Value.ofString v.vSynopsis
  let upName ← Value.ofString v.vUpName
  let headImgPath ← Value.ofString v.vHeadImgPath
  return .ofMembers [(ascii "fileData", fileData), (ascii "courses", courses),
    (ascii "title", title), (ascii "synopsis", synopsis), (ascii "upName", upName),
    (ascii "headImgPath", headImgPath)]

/-- The entry of an audio file in a listing. -/
def audioEntry (a : AudioInfo) : Option Value := do
  let fileData ← Value.ofString a.aFilePath
  let courses ← Value.ofString a.aCourses
  let title ← Value.ofString a.aTitle
  let upName ← Value.ofString a.aUpName
  let headImgPath ← Value.ofString a.aHeadImgPath
  return .ofMembers [(ascii "fileData", fileData), (ascii "courses", courses),
    (ascii "title", title), (ascii "upName", upName), (ascii "headImgPath", headImgPath)]

/-- The entry of a text in a listing. -/
def wordEntry (t : WordInfo) : Option Value := do
  let fileData ← Value.ofString t.fileData
  let courses ← Value.ofString t.coursesStr
  let title ← Value.ofString t.title
  let upName ← Value.ofString t.upName
  return .ofMembers [(ascii "fileData", fileData), (ascii "courses", courses),
    (ascii "title", title), (ascii "upName", upName)]

/-- One of the three parts of a listing. -/
def model (fileType : Bytes) (data : List Value) : Value :=
  .ofMembers [(ascii "fileType", .string fileType), (ascii "data", .ofElements data)]

/-- The reply that holds a listing. -/
def listingReply (type : MsgType) (listing : Listing) : Option Value := do
  let vInfo ← listing.videos.mapM videoEntry
  let aInfo ← listing.audios.mapM audioEntry
  let tInfo ← listing.words.mapM wordEntry
  return .ofMembers [(ascii "msgType", .int type.code),
    (ascii "modelInfo", .array [model (ascii "video") vInfo, model (ascii "audio") aInfo,
      model (ascii "text") tInfo])]

/-- A reply with a state, and the strings of a request if that succeeded. -/
def stateReply (type : MsgType) (state : ℤ) (members : List (Bytes × Bytes)) : Option Value := do
  let values ← members.mapM fun m => (Value.ofString m.2).map fun v => (m.1, v)
  return .ofMembers ([(ascii "msgType", .int type.code), (ascii "responsesState", .int state)] ++
    values)

/-! ## Handlers -/

/-- What handling a message leaves and sends. -/
abbrev Handled := Option (Server × List Reply)

/-- A handler parses its message and does nothing when it is rejected. -/
def withRoot (s : Server) (data : Bytes) (handle : Value → Handled) : Handled := do
  let (ok, root) ← Reader.parse data
  if ok then handle root else return (s, [])

/-- `OnRegisterResponse`. -/
def onRegisterResponse (s : Server) (e : Surroundings) (data : Bytes) : Handled :=
  withRoot s data fun root => do
    let username ← root.stringMember (ascii "username")
    let password ← root.stringMember (ascii "password")
    let custimface ← root.stringMember (ascii "filePath")
    let sex ← root.boolMember (ascii "user_sex")
    let user : User :=
      { username, password, uID := getTableID e.idSuffix (ascii "user"), custimface, sex }
    let (ok, s) := s.addUser user e.attempt
    let json ← stateReply .register (if ok then 1 else 0) []
    return (s, [{ json }])

/-- `OnGetDynamicInfoResponse`. -/
def onGetDynamicInfoResponse (s : Server) (data : Bytes) : Handled :=
  withRoot s data fun root => do
    let userName ← root.stringMember (ascii "username")
    let json ← listingReply .loadInfoDynamic (s.manager.getDynamicInfoFromDB userName)
    return (s, [{ json, crlf := true }])

/-- `OnGetHistoryInfoResponse` and `OnGetCollectInfoResponse`; a failed query leaves an empty
listing. -/
def onGetRowsInfoResponse (type : MsgType) (rows : Option (List (Bytes × Bytes))) (s : Server)
    (data : Bytes) : Handled :=
  withRoot s data fun root => do
    let userName ← root.stringMember (ascii "username")
    let json ← listingReply type (s.manager.getRowsInfoFromDB rows userName).2
    return (s, [{ json, crlf := true }])

def onGetHistoryInfoResponse (s : Server) (e : Surroundings) (data : Bytes) : Handled :=
  onGetRowsInfoResponse .loadInfoHistory e.historyRows s data

def onGetCollectInfoResponse (s : Server) (e : Surroundings) (data : Bytes) : Handled :=
  onGetRowsInfoResponse .loadInfoCollect e.collectRows s data

/-- `OnGetNotmalInfoResponse` does not look at its message. -/
def onGetNotmalInfoResponse (s : Server) : Handled := do
  let json ← listingReply .loadInfoNormal s.manager.getInfoFromDB
  return (s, [{ json }])

/-- `OnGetSearchInfoResponse` reads a member and sends nothing. -/
def onGetSearchInfoResponse (s : Server) (data : Bytes) : Handled :=
  withRoot s data fun root => do
    let _ ← root.stringMember (ascii "searchInfo")
    return (s, [])

/-- The decision of `OnLoginResponse`, with the user it has looked up: the second test does not ask
whether there was one. -/
def loginState (m : UserManager) (userName password : Bytes) : ℤ × User :=
  let (found, user) := m.getUserInfoByUsername userName {}
  let state := if found then -1 else 0
  (if userName = user.username ∧ password = user.password then 1 else state, user)

/-- The first reply of `OnLoginResponse`. -/
def loginReply (state : ℤ) (user : User) : Option Value := do
  let username ← Value.ofString user.username
  let filePath ← Value.ofString user.custimface
  return .ofMembers [(ascii "msgType", .int MsgType.login.code),
    (ascii "responsesState", .int state), (ascii "username", username),
    (ascii "user_sex", .bool user.sex), (ascii "filePath", filePath), (ascii "filetype", .int 300)]

/-- `OnLoginResponse`. The three listings are asked for with a message it writes itself. -/
def onLoginResponse (s : Server) (e : Surroundings) (data : Bytes) : Handled :=
  withRoot s data fun root => do
    let userName ← root.stringMember (ascii "username")
    let password ← root.stringMember (ascii "password")
    let (state, user) := loginState s.manager userName password
    let json ← loginReply state user
    let uName ← Value.ofString user.username
    let uJsonStr := Writer.write (.object [(ascii "username", uName)])
    let (s, dynamic) ← onGetDynamicInfoResponse s uJsonStr
    let (s, history) ← onGetHistoryInfoResponse s e uJsonStr
    let (s, collect) ← onGetCollectInfoResponse s e uJsonStr
    return (s, { json } :: (dynamic ++ history ++ collect))

/-- `OnUploadTextResponse`. -/
def onUploadTextResponse (s : Server) (e : Surroundings) (data : Bytes) : Handled :=
  withRoot s data fun root => do
    let username ← root.stringMember (ascii "username")
    let type ← root.stringMember (ascii "fileType")
    let (_, u) := s.manager.getUserInfoByUsername username {}
    let fileData ← root.stringMember (ascii "fileData")
    let coursesStr ← root.stringMember (ascii "courses")
    let title ← root.stringMember (ascii "title")
    let info : WordInfo :=
      { uID := u.uID, fileData, coursesStr, title, tId := getTableID e.idSuffix type,
        upName := username }
    let (ok, s) := s.addWordInfoFromDB info e.attempt
    let json ← stateReply .uploadText (if ok then 1 else 0) (if ok then
      [(ascii "title", title), (ascii "courses", coursesStr), (ascii "fileData", fileData),
        (ascii "username", username)] else [])
    return (s, [{ json }])

/-- `OnUploadAudioResponse`. -/
def onUploadAudioResponse (s : Server) (e : Surroundings) (data : Bytes) : Handled :=
  withRoot s data fun root => do
    let username ← root.stringMember (ascii "username")
    let type ← root.stringMember (ascii "fileType")
    let (_, u) := s.manager.getUserInfoByUsername username {}
    let courses ← root.stringMember (ascii "courses")
    let filePath ← root.stringMember (ascii "fileData")
    let headImgPath ← root.stringMember (ascii "headImgPath")
    let title ← root.stringMember (ascii "title")
    let info : AudioInfo :=
      { aId := getTableID e.idSuffix type, aCourses := courses, aFilePath := filePath,
        aHeadImgPath := headImgPath, aTitle := title, aUID := u.uID, aUpName := username }
    let (ok, s) := s.addAudioInfoFromDB info e.attempt
    let json ← stateReply .uploadAudio (if ok then 1 else 0) (if ok then
      [(ascii "title", title), (ascii "courses", courses), (ascii "fileData", filePath),
        (ascii "headImgPath", headImgPath), (ascii "username", username)] else [])
    return (s, [{ json }])

/-- `OnUploadVideoResponse`. -/
def onUploadVideoResponse (s : Server) (e : Surroundings) (data : Bytes) : Handled :=
  withRoot s data fun root => do
    let username ← root.stringMember (ascii "username")
    let type ← root.stringMember (ascii "fileType")
    let (_, u) := s.manager.getUserInfoByUsername username {}
    let courses ← root.stringMember (ascii "courses")
    let filePath ← root.stringMember (ascii "fileData")
    let headImgPath ← root.stringMember (ascii "headImgPath")
    let title ← root.stringMember (ascii "title")
    let synopsis ← root.stringMember (ascii "synopsis")
    let info : VideoInfo :=
      { vId := getTableID e.idSuffix type, vCourses := courses, vFilePath := filePath,
        vHeadImgPath := headImgPath, vTitle := title, vUID := u.uID, vUpName := username,
        vSynopsis := synopsis }
    let (ok, s) := s.addVideoInfoFromDB info e.attempt
    let json ← stateReply .uploadVideo (if ok then 1 else 0) (if ok then
      [(ascii "title", title), (ascii "courses", courses), (ascii "fileData", filePath),
        (ascii "headImgPath", headImgPath), (ascii "username", username),
        (ascii "synopsis", synopsis)] else [])
    return (s, [{ json }])

/-- `OnAddCollectInfoResponse`. -/
def onAddCollectInfoResponse (s : Server) (e : Surroundings) (data : Bytes) : Handled :=
  withRoot s data fun root => do
    let username ← root.stringMember (ascii "username")
    let (found, u) := s.manager.getUserInfoByUsername username {}
    if found then
      let assetsTitle ← root.stringMember (ascii "title")
      let fType ← root.stringMember (ascii "fileType")
      let cState ← root.intMember (ascii "collectState")
      let (ok, s) :=
        if 0 < cState then
          s.addCollectInfoFromDB (getTableID e.idSuffix (ascii "collect")) u.uID fType assetsTitle
            e.attempt
        else s.removeOneCollectInfo u.uID assetsTitle fType e.attempt
      if ok then
        let title ← Value.ofString assetsTitle
        let fileType ← Value.ofString fType
        let name ← Value.ofString username
        return (s, [{
          json := .ofMembers [(ascii "msgType", .int MsgType.addCollect.code),
            (ascii "title", title), (ascii "fileType", fileType), (ascii "username", name),
            (ascii "collectState", .int cState), (ascii "responsesState", .int 1)] }])
      else
        let json ← stateReply .addCollect (-1) []
        return (s, [{ json }])
    else
      let json ← stateReply .addCollect (-1) []
      return (s, [{ json }])

/-- `OnAddHistoryInfoResponse`. -/
def onAddHistoryInfoResponse (s : Server) (e : Surroundings) (data : Bytes) : Handled :=
  withRoot s data fun root => do
    let username ← root.stringMember (ascii "username")
    let (found, u) := s.manager.getUserInfoByUsername username {}
    if found then
      let assetsTitle ← root.stringMember (ascii "title")
      let fType ← root.stringMember (ascii "fileType")
      let (ok, s) :=
        s.addBrowseInfoFromDB (getTableID e.idSuffix (ascii "browse")) u.uID fType assetsTitle
          e.attempt
      let json ← stateReply .addHistory (if ok then 1 else -1) (if ok then
        [(ascii "title", assetsTitle), (ascii "fileType", fType), (ascii "username", username)]
        else [])
      return (s, [{ json }])
    else
      let json ← stateReply .addHistory (-1) []
      return (s, [{ json }])

/-- The handler of a message type; that of the heartbeat does nothing. -/
def handle (s : Server) (e : Surroundings) (type : MsgType) (data : Bytes) : Handled :=
  match type with
  | .heartbeat => some (s, [])
  | .login => onLoginResponse s e data
  | .register => onRegisterResponse s e data
  | .uploadText => onUploadTextResponse s e data
  | .uploadAudio => onUploadAudioResponse s e data
  | .uploadVideo => onUploadVideoResponse s e data
  | .loadInfoNormal => onGetNotmalInfoResponse s
  | .loadInfoDynamic => onGetDynamicInfoResponse s data
  | .loadInfoHistory => onGetHistoryInfoResponse s e data
  | .loadInfoCollect => onGetCollectInfoResponse s e data
  | .loadInfoSearch => onGetSearchInfoResponse s data
  | .addCollect => onAddCollectInfoResponse s e data
  | .addHistory => onAddHistoryInfoResponse s e data

/-- The message type of a message, `none` for a number without a handler. `Process` goes on when the
message is rejected, with what the parser has left of it. -/
def messageType (msgbuff : Bytes) : Option (Option MsgType) := do
  let (_, jsonData) ← Reader.parse msgbuff
  let cmd ← jsonData.intMember (ascii "msgType")
  return MsgType.ofCode cmd

/-- `Process`; it always returns `true`. -/
def process (s : Server) (e : Surroundings) (msgbuff : Bytes) : Handled := do
  match ← messageType msgbuff with
  | none => return (s, [])
  | some type => handle s e type msgbuff

end ClientSession

end GraduationServer
