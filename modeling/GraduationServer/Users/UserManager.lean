import GraduationServer.Database.MySql

/-!
# The user manager

`UserManager` (`UserManager.cpp`) keeps a copy of each table in memory. `init` loads the copies; each
of the functions that write changes a table by a statement and, when the statement succeeds, its copy.

A loader reads the current row before it looks whether there is one, but for the two that test
`size()` first, so a load from an empty table of users, videos, audio files or texts reads outside of
the row: the loader is `none` there.
-/

namespace GraduationServer

/-- The fields of the manager that anything uses. -/
structure UserManager where
  cachedUsers : List User := []
  cacheVideoInfo : List VideoInfo := []
  cacheAudioInfo : List AudioInfo := []
  cacheWordInfo : List WordInfo := []
  cacheBrowseInfo : List BrowseInfo := []
  cacheCollectInfo : List CollectInfo := []
  baseUserID : Int32 := 0
  deriving DecidableEq, Inhabited

/-- The manager with the database behind it. -/
structure Server where
  db : Database
  manager : UserManager

/-! ## Loading -/

/-- The body of the loop of `LoadUserFromDB`. -/
def readUser (value : Bytes → Option Bytes) : Option User := do
  return {
    uID := ← value (ascii "u_id")
    sex := toBool (← value (ascii "u_sex"))
    custimface := ← value (ascii "u_headImage")
    password := ← value (ascii "u_password")
    username := ← value (ascii "u_userName") }

/-- The body of the loop of `loadVideoInfoFromDB`. -/
def readVideoInfo (value : Bytes → Option Bytes) : Option VideoInfo := do
  return {
    vId := ← value (ascii "v_id")
    vUpName := ← value (ascii "v_upName")
    vFilePath := ← value (ascii "v_filePath")
    vTitle := ← value (ascii "v_videoTitle")
    vHeadImgPath := ← value (ascii "v_headImgPath")
    vSynopsis := ← value (ascii "v_synopsis")
    vCourses := ← value (ascii "v_courses")
    vUID := ← value (ascii "v_uID") }

/-- The body of the loop of `loadAudioInfoFromDB`. -/
def readAudioInfo (value : Bytes → Option Bytes) : Option AudioInfo := do
  return {
    aId := ← value (ascii "a_id")
    aUpName := ← value (ascii "a_upName")
    aFilePath := ← value (ascii "a_filePath")
    aTitle := ← value (ascii "a_audioTitle")
    aHeadImgPath := ← value (ascii "a_headImgPath")
    aCourses := ← value (ascii "a_courses")
    aUID := ← value (ascii "a_uID") }

/-- The body of the loop of `loadWordInfoFromDB`. -/
def readWordInfo (value : Bytes → Option Bytes) : Option WordInfo := do
  return {
    tId := ← value (ascii "t_id")
    upName := ← value (ascii "t_upName")
    fileData := ← value (ascii "t_data")
    title := ← value (ascii "t_title")
    coursesStr := ← value (ascii "t_courses")
    uID := ← value (ascii "t_uID") }

/-- The body of the loop of `loadBrowseInfoFromDB`. -/
def readBrowseInfo (value : Bytes → Option Bytes) : Option BrowseInfo := do
  return {
    bId := ← value (ascii "b_id")
    bAssetsType := ← value (ascii "b_assetsType")
    bBrowseTitle := ← value (ascii "b_browseTitle")
    bUID := ← value (ascii "b_uID") }

/-- The body of the loop of `loadCollectInfoFromDB`. -/
def readCollectInfo (value : Bytes → Option Bytes) : Option CollectInfo := do
  return {
    cId := ← value (ascii "c_id")
    cAssetsType := ← value (ascii "c_assetsType")
    cAssetsTitle := ← value (ascii "c_assetsTitle")
    cUID := ← value (ascii "c_uID") }

section Load

variable {notNull : List Bytes} {t : Table notNull} {ρ : Type}

/-- A loader without a test of its own: `select *` on a table (`none` when the query fails), then the
loop from the current row. The result is what the loader returns and the list it has loaded. -/
def loadInfo (read : (Bytes → Option Bytes) → Option ρ) (answer : Option t.Selected) :
    Option (Bool × List ρ) :=
  match answer with
  | none => some (false, [])
  | some selected =>
    let result := QueryResult.new t.columns selected.rows
    (loadRows read result.vecFieldName result.currentRow result.result).map (true, ·)

/-- A loader that does not enter the loop when `size()` is zero. -/
def loadInfoGuarded (read : (Bytes → Option Bytes) → Option ρ) (answer : Option t.Selected) :
    Option (Bool × List ρ) :=
  match answer with
  | none => some (false, [])
  | some selected =>
    if 0 < (QueryResult.new t.columns selected.rows).size then loadInfo read (some selected)
    else some (true, [])

/-- `LoadUserFromDB`. It tests for a null pointer from `Fetch`, which the vector of the current row
would return only if the table had no column. -/
def loadUserFromDB (answer : Option t.Selected) : Option (Bool × List User) :=
  loadInfo readUser answer

end Load

/-- What the six queries of `Init` return. -/
structure Answers (db : Database) where
  user : Option db.user.Selected
  videoData : Option db.videoData.Selected
  audioData : Option db.audioData.Selected
  textData : Option db.textData.Selected
  browseRecords : Option db.browseRecords.Selected
  assetsCollect : Option db.assetsCollect.Selected

/-- A step of `Init`: a list is loaded into the manager, and `Init` goes on if the loader has
returned `true`. -/
def loadThen {α : Type} (loaded : Option (Bool × α)) (store : α → UserManager)
    (rest : UserManager → Option (Bool × UserManager)) : Option (Bool × UserManager) :=
  match loaded with
  | none => none
  | some (false, l) => some (false, store l)
  | some (true, l) => rest (store l)

/-- `UserManager::Init` of a new manager; `none` when a loader reads outside of a row. -/
def init (db : Database) (answers : Answers db) : Option (Bool × UserManager) :=
  loadThen (loadUserFromDB answers.user) (fun l => { cachedUsers := l }) fun m =>
  loadThen (loadInfo readVideoInfo answers.videoData) (fun l => { m with cacheVideoInfo := l })
    fun m =>
  loadThen (loadInfo readAudioInfo answers.audioData) (fun l => { m with cacheAudioInfo := l })
    fun m =>
  loadThen (loadInfo readWordInfo answers.textData) (fun l => { m with cacheWordInfo := l })
    fun m =>
  loadThen (loadInfoGuarded readBrowseInfo answers.browseRecords)
    (fun l => { m with cacheBrowseInfo := l }) fun m =>
  loadThen (loadInfoGuarded readCollectInfo answers.assetsCollect)
    (fun l => { m with cacheCollectInfo := l }) fun m => some (true, m)

/-! ## Writing -/

namespace Server

/-- A statement is carried out and, when it succeeds, the manager changed. -/
def write (s : Server) (w : Write) (a : Attempt) (change : UserManager → UserManager) :
    Bool × Server :=
  match excute s.db w.sql a with
  | none => (false, s)
  | some db => (true, ⟨db, change s.manager⟩)

/-- A write leaves the server as it is if its statement fails. -/
theorem write_cases (s : Server) (w : Write) (a : Attempt) (change : UserManager → UserManager) :
    (excute s.db w.sql a = none ∧ s.write w a change = (false, s)) ∨
      ∃ db, excute s.db w.sql a = some db ∧ s.write w a change = (true, ⟨db, change s.manager⟩) := by
  unfold write
  cases excute s.db w.sql a with
  | none => exact Or.inl ⟨rfl, rfl⟩
  | some db => exact Or.inr ⟨db, rfl, rfl⟩

/-- `AddUser`: the next id is taken even when the statement fails. -/
def addUser (s : Server) (user : User) (a : Attempt) : Bool × Server :=
  let s := { s with manager.baseUserID := s.manager.baseUserID + 1 }
  s.write (.addUser user) a fun m =>
    { m with cachedUsers := m.cachedUsers ++ [{ user with userid := m.baseUserID }] }

def addWordInfoFromDB (s : Server) (info : WordInfo) (a : Attempt) : Bool × Server :=
  s.write (.addWordInfoFromDB info) a fun m =>
    { m with cacheWordInfo := m.cacheWordInfo ++ [info] }

def addVideoInfoFromDB (s : Server) (info : VideoInfo) (a : Attempt) : Bool × Server :=
  s.write (.addVideoInfoFromDB info) a fun m =>
    { m with cacheVideoInfo := m.cacheVideoInfo ++ [info] }

def addAudioInfoFromDB (s : Server) (info : AudioInfo) (a : Attempt) : Bool × Server :=
  s.write (.addAudioInfoFromDB info) a fun m =>
    { m with cacheAudioInfo := m.cacheAudioInfo ++ [info] }

def addBrowseInfoFromDB (s : Server) (bId bUID bAssetsType bAssetsTitle : Bytes) (a : Attempt) :
    Bool × Server :=
  s.write (.addBrowseInfoFromDB bId bUID bAssetsType bAssetsTitle) a fun m =>
    { m with cacheBrowseInfo := m.cacheBrowseInfo ++ [⟨bId, bUID, bAssetsType, bAssetsTitle⟩] }

def addCollectInfoFromDB (s : Server) (cId cUID cAssetsType cAssetsTitle : Bytes) (a : Attempt) :
    Bool × Server :=
  s.write (.addCollectInfoFromDB cId cUID cAssetsType cAssetsTitle) a fun m =>
    { m with cacheCollectInfo := m.cacheCollectInfo ++ [⟨cId, cUID, cAssetsType, cAssetsTitle⟩] }

/-- The test by which `removeOneCollectInfo` finds a record. -/
def isCollect (uID assetsTitle assetsType : Bytes) (info : CollectInfo) : Bool :=
  info.cUID = uID && info.cAssetsTitle = assetsTitle && info.cAssetsType = assetsType

/-- `removeOneCollectInfo`: no statement without a record in the cache; afterwards the first such
record is erased. -/
def removeOneCollectInfo (s : Server) (uID assetsTitle assetsType : Bytes) (a : Attempt) :
    Bool × Server :=
  let found := isCollect uID assetsTitle assetsType
  if s.manager.cacheCollectInfo.any found then
    s.write (.removeOneCollectInfo uID assetsTitle assetsType) a fun m =>
      { m with cacheCollectInfo := m.cacheCollectInfo.eraseP found }
  else (false, s)

end Server

namespace UserManager

/-- `GetUserInfoByUsername`: whether there is such a user, and the user, which is the given one when
there is none. -/
def getUserInfoByUsername (m : UserManager) (name : Bytes) (user : User) : Bool × User :=
  match m.cachedUsers.find? fun u => u.username = name with
  | some u => (true, u)
  | none => (false, user)

end UserManager

end GraduationServer
