import GraduationServer.Foundations.Bytes

/-!
# The records of the user manager

The classes of `UserManager.h`: the users and the five kinds of records the server caches. The field
names are those of the source with `v_upName` written `vUpName`; `User::status`, which nothing
reads, is left out.
-/

namespace GraduationServer

/-- `User`, with the values of its default constructor (`sex(-1)` is `true`). -/
structure User where
  userid : Int32 := 0
  uID : Bytes := []
  username : Bytes := []
  password : Bytes := []
  custimface : Bytes := []
  sex : Bool := true
  deriving DecidableEq, Inhabited

/-- `wordInfo`: an uploaded text. -/
structure WordInfo where
  uID : Bytes
  tId : Bytes
  title : Bytes
  upName : Bytes
  coursesStr : Bytes
  fileData : Bytes
  deriving DecidableEq

/-- `audioInfo`: an uploaded audio file. -/
structure AudioInfo where
  aId : Bytes
  aUpName : Bytes
  aTitle : Bytes
  aFilePath : Bytes
  aHeadImgPath : Bytes
  aCourses : Bytes
  aUID : Bytes
  deriving DecidableEq

/-- `videoInfo`: an uploaded video. -/
structure VideoInfo where
  vId : Bytes
  vUpName : Bytes
  vTitle : Bytes
  vFilePath : Bytes
  vHeadImgPath : Bytes
  vCourses : Bytes
  vSynopsis : Bytes
  vUID : Bytes
  deriving DecidableEq

/-- `browseInfo`: a user has looked at something. -/
structure BrowseInfo where
  bId : Bytes
  bUID : Bytes
  bAssetsType : Bytes
  bBrowseTitle : Bytes
  deriving DecidableEq

/-- `collectInfo`: a user has something among the favourites. -/
structure CollectInfo where
  cId : Bytes
  cUID : Bytes
  cAssetsType : Bytes
  cAssetsTitle : Bytes
  deriving DecidableEq

end GraduationServer
