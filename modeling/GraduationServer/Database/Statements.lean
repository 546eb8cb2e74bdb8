import GraduationServer.Foundations.QuotedText
import GraduationServer.Users.Records

/-!
# The statements of the user manager

The seven functions of `UserManager.cpp` that write to the database build their SQL text with a
`stringstream`, each string value between two quotes as it is.

* `Write` is a call of one of them with its arguments, `Write.sql` the text it hands to
  `MySqlManager::Excute` and `Write.values` the string values in the order of the text.
* `Shape` is the kind of statement, `Shape.template` its fixed texts.

Nothing escapes a value, so a text reads as intended exactly when its values denote themselves
between quotes (`Write.readText_sql_iff`).
-/

namespace GraduationServer

open QuotedText

/-- The statements the user manager builds; that of `AddUser` shows the user's sex in its text. -/
inductive Shape
  | addUser (sex : Bool)
  | addWordInfo
  | addVideoInfo
  | addAudioInfo
  | removeOneCollectInfo
  | addBrowseInfo
  | addCollectInfo
  deriving DecidableEq

/-- The texts around the values of a statement. -/
def Shape.template : Shape → Template
  | addUser sex =>
    { texts :=
        [ascii "INSERT INTO tab_user (`u_id`,`u_userName`,`u_password`,`u_headImage`,`u_sex`)"
            ++ ascii " VALUES(", ascii ",", ascii ",", ascii ","]
      tail := ascii "," ++ ascii (if sex then "1" else "0") ++ ascii ");"
      unquoted := by cases sex <;> decide +kernel
      apart := by cases sex <;> decide +kernel }
  | addWordInfo =>
    { texts :=
        [ascii "insert into tab_textData (`t_id`,`t_upName`,`t_title`,`t_courses`,`t_data`,`t_uID`)"
            ++ ascii " values (", ascii ",", ascii ",", ascii ",", ascii ",", ascii ","]
      tail := ascii ");"
      unquoted := by decide +kernel
      apart := by decide +kernel }
  | addVideoInfo =>
    { texts :=
        [ascii "insert into tab_videoData (`v_id`,`v_upName`,`v_videoTitle`,`v_courses`,`v_filePath`,"
            ++ ascii "`v_headImgPath`,`v_synopsis`,`v_uID`) values (",
          ascii ",", ascii ",", ascii ",", ascii ",", ascii ",", ascii ",", ascii ","]
      tail := ascii ");"
      unquoted := by decide +kernel
      apart := by decide +kernel }
  | addAudioInfo =>
    { texts :=
        [ascii "insert into tab_audioData (`a_id`,`a_upName`,`a_audioTitle`,`a_courses`,`a_filePath`,"
            ++ ascii "`a_headImgPath`,`a_uID`) values (",
          ascii ",", ascii ",", ascii ",", ascii ",", ascii ",", ascii ","]
      tail := ascii ");"
      unquoted := by decide +kernel
      apart := by decide +kernel }
  | removeOneCollectInfo =>
    { texts :=
        [ascii "delete from tab_assetsCollect where c_uID = ", ascii " AND c_assetsTitle = ",
          ascii " AND c_assetsType = "]
      tail := ascii ";"
      unquoted := by decide +kernel
      apart := by decide +kernel }
  | addBrowseInfo =>
    { texts :=
        [ascii "insert into tab_browseRecords (`b_id`,`b_uID`,`b_assetsType`,`b_browseTime`,"
            ++ ascii "`b_browseTitle`) values (", ascii ",", ascii ",", ascii ",NOW(),"]
      tail := ascii ");"
      unquoted := by decide +kernel
      apart := by decide +kernel }
  | addCollectInfo =>
    { texts :=
        [ascii "insert into tab_assetsCollect (`c_id`,`c_uID`,`c_assetsType`,`c_assetsTitle`) values (",
          ascii ",", ascii ",", ascii ","]
      tail := ascii ");"
      unquoted := by decide +kernel
      apart := by decide +kernel }

/-- A call that writes to the database, with its arguments. -/
inductive Write
  | addUser (user : User)
  | addWordInfoFromDB (info : WordInfo)
  | addVideoInfoFromDB (info : VideoInfo)
  | addAudioInfoFromDB (info : AudioInfo)
  | removeOneCollectInfo (uID assetsTitle assetsType : Bytes)
  | addBrowseInfoFromDB (bId bUID bAssetsType bAssetsTitle : Bytes)
  | addCollectInfoFromDB (cId cUID cAssetsType cAssetsTitle : Bytes)

namespace Write

/-- The text handed to `MySqlManager::Excute`. -/
def sql : Write → Bytes
  | addUser user =>
    ascii "INSERT INTO tab_user (`u_id`,`u_userName`,`u_password`,`u_headImage`,`u_sex`)" ++
      (ascii " VALUES('" ++ (user.uID ++ (ascii "','" ++ (user.username ++ (ascii "','" ++
      (user.password ++ (ascii "','" ++ (user.custimface ++ (ascii "'," ++
      (ascii (if user.sex then "1" else "0") ++ ascii ");"))))))))))
  | addWordInfoFromDB info =>
    ascii "insert into tab_textData (`t_id`,`t_upName`,`t_title`,`t_courses`,`t_data`,`t_uID`)" ++
      (ascii " values ('" ++ (info.tId ++ (ascii "','" ++ (info.upName ++ (ascii "','" ++
      (info.title ++ (ascii "','" ++ (info.coursesStr ++ (ascii "','" ++
      (info.fileData ++ (ascii "','" ++ (info.uID ++ ascii "');"))))))))))))
  | addVideoInfoFromDB info =>
    ascii "insert into tab_videoData (`v_id`,`v_upName`,`v_videoTitle`,`v_courses`,`v_filePath`," ++
      (ascii "`v_headImgPath`,`v_synopsis`,`v_uID`) values ('" ++ (info.vId ++ (ascii "','" ++
      (info.vUpName ++ (ascii "','" ++ (info.vTitle ++ (ascii "','" ++
      (info.vCourses ++ (ascii "','" ++ (info.vFilePath ++ (ascii "','" ++
      (info.vHeadImgPath ++ (ascii "','" ++ (info.vSynopsis ++ (ascii "','" ++
      (info.vUID ++ ascii "');"))))))))))))))))
  | addAudioInfoFromDB info =>
    ascii "insert into tab_audioData (`a_id`,`a_upName`,`a_audioTitle`,`a_courses`,`a_filePath`," ++
      (ascii "`a_headImgPath`,`a_uID`) values ('" ++ (info.aId ++ (ascii "','" ++
      (info.aUpName ++ (ascii "','" ++ (info.aTitle ++ (ascii "','" ++
      (info.aCourses ++ (ascii "','" ++ (info.aFilePath ++ (ascii "','" ++
      (info.aHeadImgPath ++ (ascii "','" ++ (info.aUID ++ ascii "');"))))))))))))))
  | removeOneCollectInfo uID assetsTitle assetsType =>
    ascii "delete from tab_assetsCollect where c_uID = '" ++ (uID ++
      (ascii "' AND c_assetsTitle = '" ++ (assetsTitle ++
      (ascii "' AND c_assetsType = '" ++ (assetsType ++ ascii "';")))))
  | addBrowseInfoFromDB bId bUID bAssetsType bAssetsTitle =>
    ascii "insert into tab_browseRecords (`b_id`,`b_uID`,`b_assetsType`,`b_browseTime`," ++
      (ascii "`b_browseTitle`) values ('" ++ (bId ++ (ascii "','" ++ (bUID ++ (ascii "','" ++
      (bAssetsType ++ (ascii "',NOW(),'" ++ (bAssetsTitle ++ ascii "');"))))))))
  | addCollectInfoFromDB cId cUID cAssetsType cAssetsTitle =>
    ascii "insert into tab_assetsCollect (`c_id`,`c_uID`,`c_assetsType`,`c_assetsTitle`) values ('" ++
      (cId ++ (ascii "','" ++ (cUID ++ (ascii "','" ++ (cAssetsType ++ (ascii "','" ++
      (cAssetsTitle ++ ascii "');")))))))

/-- The kind of statement a call builds. -/
def shape : Write → Shape
  | addUser user => .addUser user.sex
  | addWordInfoFromDB _ => .addWordInfo
  | addVideoInfoFromDB _ => .addVideoInfo
  | addAudioInfoFromDB _ => .addAudioInfo
  | removeOneCollectInfo .. => .removeOneCollectInfo
  | addBrowseInfoFromDB .. => .addBrowseInfo
  | addCollectInfoFromDB .. => .addCollectInfo

/-- The string values of a call, in the order of the statement. -/
def values : Write → List Bytes
  | addUser user => [user.uID, user.username, user.password, user.custimface]
  | addWordInfoFromDB info =>
    [info.tId, info.upName, info.title, info.coursesStr, info.fileData, info.uID]
  | addVideoInfoFromDB info =>
    [info.vId, info.vUpName, info.vTitle, info.vCourses, info.vFilePath, info.vHeadImgPath,
      info.vSynopsis, info.vUID]
  | addAudioInfoFromDB info =>
    [info.aId, info.aUpName, info.aTitle, info.aCourses, info.aFilePath, info.aHeadImgPath,
      info.aUID]
  | removeOneCollectInfo uID assetsTitle assetsType => [uID, assetsTitle, assetsType]
  | addBrowseInfoFromDB bId bUID bAssetsType bAssetsTitle => [bId, bUID, bAssetsType, bAssetsTitle]
  | addCollectInfoFromDB cId cUID cAssetsType cAssetsTitle => [cId, cUID, cAssetsType, cAssetsTitle]

/-- The intended statement: the texts of the kind of statement, and the values as literals. -/
def intended (w : Write) : Reading := w.shape.template.fill w.values

theorem length_values (w : Write) : w.values.length = w.shape.template.texts.length := by
  cases w <;> simp [values, shape, Shape.template]

/-- The text built is the intended statement with its values between quotes. -/
theorem sql_eq (w : Write) : w.sql = w.intended.render := by
  have hsep : ascii "','" = quote :: (ascii "," ++ [quote]) := by decide +kernel
  have hend : ascii "');" = quote :: ascii ");" := by decide +kernel
  cases w with
  | addUser user =>
    have hopen : ascii " VALUES('" = ascii " VALUES(" ++ [quote] := by decide +kernel
    have hsex : ascii "'," = quote :: ascii "," := by decide +kernel
    simp [sql, intended, shape, values, Shape.template, Template.fill, Reading.render,
      renderSegments, hsep, hopen, hsex]
  | addWordInfoFromDB info =>
    have hopen : ascii " values ('" = ascii " values (" ++ [quote] := by decide +kernel
    simp [sql, intended, shape, values, Shape.template, Template.fill, Reading.render,
      renderSegments, hsep, hend, hopen]
  | addVideoInfoFromDB info =>
    have hopen : ascii "`v_headImgPath`,`v_synopsis`,`v_uID`) values ('" =
      ascii "`v_headImgPath`,`v_synopsis`,`v_uID`) values (" ++ [quote] := by decide +kernel
    simp [sql, intended, shape, values, Shape.template, Template.fill, Reading.render,
      renderSegments, hsep, hend, hopen]
  | addAudioInfoFromDB info =>
    have hopen : ascii "`a_headImgPath`,`a_uID`) values ('" =
      ascii "`a_headImgPath`,`a_uID`) values (" ++ [quote] := by decide +kernel
    simp [sql, intended, shape, values, Shape.template, Template.fill, Reading.render,
      renderSegments, hsep, hend, hopen]
  | removeOneCollectInfo uID assetsTitle assetsType =>
    have hopen : ascii "delete from tab_assetsCollect where c_uID = '" =
      ascii "delete from tab_assetsCollect where c_uID = " ++ [quote] := by decide +kernel
    have htitle : ascii "' AND c_assetsTitle = '" =
      quote :: (ascii " AND c_assetsTitle = " ++ [quote]) := by decide +kernel
    have htype : ascii "' AND c_assetsType = '" =
      quote :: (ascii " AND c_assetsType = " ++ [quote]) := by decide +kernel
    have hclose : ascii "';" = quote :: ascii ";" := by decide +kernel
    simp [sql, intended, shape, values, Shape.template, Template.fill, Reading.render,
      renderSegments, hopen, htitle, htype, hclose]
  | addBrowseInfoFromDB bId bUID bAssetsType bAssetsTitle =>
    have hopen : ascii "`b_browseTitle`) values ('" =
      ascii "`b_browseTitle`) values (" ++ [quote] := by decide +kernel
    have hnow : ascii "',NOW(),'" = quote :: (ascii ",NOW()," ++ [quote]) := by decide +kernel
    simp [sql, intended, shape, values, Shape.template, Template.fill, Reading.render,
      renderSegments, hsep, hend, hopen, hnow]
  | addCollectInfoFromDB cId cUID cAssetsType cAssetsTitle =>
    have hopen :
        ascii "insert into tab_assetsCollect (`c_id`,`c_uID`,`c_assetsType`,`c_assetsTitle`) values ('" =
          ascii "insert into tab_assetsCollect (`c_id`,`c_uID`,`c_assetsType`,`c_assetsTitle`) values ("
            ++ [quote] := by decide +kernel
    simp [sql, intended, shape, values, Shape.template, Template.fill, Reading.render,
      renderSegments, hsep, hend, hopen]

/-- **The statement reads as intended exactly when its values are verbatim.** -/
theorem readText_sql_iff (w : Write) :
    readText w.sql = some w.intended ↔ ∀ v ∈ w.values, Verbatim v := by
  rw [sql_eq]
  exact readText_fill_iff _ _ w.length_values

/-- The removal of a favourite of the user `' OR '1'='1`: the text has five literals, not three. -/
theorem readText_sql_injected :
    readText (removeOneCollectInfo (ascii "' OR '1'='1") (ascii "t") (ascii "video")).sql ≠
      some (removeOneCollectInfo (ascii "' OR '1'='1") (ascii "t") (ascii "video")).intended := by
  decide +kernel

end Write

end GraduationServer
