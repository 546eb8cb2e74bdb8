import GraduationServer.Database.Statements
import GraduationServer.Database.Table

/-!
# The database

The tables of the server (`MySqlManager::MySqlManager` declares five of them) and
`MySqlManager::Excute`: the text reaches MySQL by `c_str()`, is read with its string literals, and
acts on the table it names. `Attempt` is what the server does not decide: whether MySQL carries the
statement out, the time it takes for `NOW()`, and the values of the columns a statement leaves out.

A text that is none of the server's statements is refused. With values that hold neither a quote nor
a backslash this happens only to a text cut at a zero byte, which ends inside a literal; every other
text acts with its own values (`effect_of_excute`).
-/

namespace GraduationServer

open QuotedText

/-- The tables. The columns of `tab_textData` are still among those of `tab_assetsCollect` when
`MySqlManager` declares it, and `tab_textData` itself is not declared. -/
structure Database where
  user : Table [ascii "u_id", ascii "u_userName", ascii "u_password", ascii "u_sex"]
  videoData : Table [ascii "v_id", ascii "v_upName", ascii "v_videoTitle", ascii "v_filePath",
    ascii "v_synopsis", ascii "v_courses", ascii "v_uID"]
  audioData : Table [ascii "a_id", ascii "a_upName", ascii "a_audioTitle", ascii "a_filePath",
    ascii "a_courses", ascii "a_uID"]
  textData : Table []
  browseRecords : Table [ascii "b_id", ascii "b_assetsType", ascii "b_browseTime",
    ascii "b_browseTitle", ascii "b_uID"]
  assetsCollect : Table [ascii "c_id", ascii "c_uID", ascii "c_assetsType", ascii "c_assetsTitle",
    ascii "t_id", ascii "t_upName", ascii "t_title", ascii "t_courses", ascii "t_uID"]

/-- What happens when a statement is carried out, besides what it says. -/
structure Attempt where
  ok : Bool
  now : Bytes
  others : Bytes → Option Bytes

/-- Every kind of statement. -/
def Shape.all : List Shape :=
  [.addUser false, .addUser true, .addWordInfo, .addVideoInfo, .addAudioInfo, .removeOneCollectInfo,
    .addBrowseInfo, .addCollectInfo]

/-- The kind of statement a text is, by its texts around the literals. -/
def recognise (r : Reading) : Option Shape :=
  Shape.all.find? fun shape =>
    shape.template.texts = r.segments.map Prod.fst ∧ shape.template.tail = r.tail

/-- What a statement with the given literals does to the database. -/
def Shape.effect (shape : Shape) (values : List Bytes) (a : Attempt) (db : Database) :
    Option Database :=
  match shape with
  | addUser sex =>
    (db.user.insertInto
      [ascii "u_id", ascii "u_userName", ascii "u_password", ascii "u_headImage", ascii "u_sex"]
      (values.map some ++ [some [if sex then 1 else 0]]) a.others).map fun t => { db with user := t }
  | addWordInfo =>
    (db.textData.insertInto
      [ascii "t_id", ascii "t_upName", ascii "t_title", ascii "t_courses", ascii "t_data",
        ascii "t_uID"]
      (values.map some) a.others).map fun t => { db with textData := t }
  | addVideoInfo =>
    (db.videoData.insertInto
      [ascii "v_id", ascii "v_upName", ascii "v_videoTitle", ascii "v_courses", ascii "v_filePath",
        ascii "v_headImgPath", ascii "v_synopsis", ascii "v_uID"]
      (values.map some) a.others).map fun t => { db with videoData := t }
  | addAudioInfo =>
    (db.audioData.insertInto
      [ascii "a_id", ascii "a_upName", ascii "a_audioTitle", ascii "a_courses", ascii "a_filePath",
        ascii "a_headImgPath", ascii "a_uID"]
      (values.map some) a.others).map fun t => { db with audioData := t }
  | removeOneCollectInfo =>
    (db.assetsCollect.deleteFrom
      ([ascii "c_uID", ascii "c_assetsTitle", ascii "c_assetsType"].zip values)).map fun t =>
        { db with assetsCollect := t }
  | addBrowseInfo =>
    (db.browseRecords.insertInto
      [ascii "b_id", ascii "b_uID", ascii "b_assetsType", ascii "b_browseTime",
        ascii "b_browseTitle"]
      ((values.take 3).map some ++ some a.now :: (values.drop 3).map some) a.others).map fun t =>
        { db with browseRecords := t }
  | addCollectInfo =>
    (db.assetsCollect.insertInto
      [ascii "c_id", ascii "c_uID", ascii "c_assetsType", ascii "c_assetsTitle"]
      (values.map some) a.others).map fun t => { db with assetsCollect := t }

/-- `MySqlManager::Excute`: the database afterwards, or `none` when it returns `false` and nothing
has changed. -/
def excute (db : Database) (sql : Bytes) (a : Attempt) : Option Database :=
  if a.ok then
    (readText (cStr sql)).bind fun r =>
      (recognise r).bind fun shape => shape.effect (r.segments.map Prod.snd) a db
  else none

/-! ## The server's own statements -/

/-- The kinds of statements are told apart by their texts. -/
theorem recognise_fill {shape : Shape} {values : List Bytes}
    (h : values.length = shape.template.texts.length) :
    recognise (shape.template.fill values) = some shape := by
  have htexts : (shape.template.fill values).segments.map Prod.fst = shape.template.texts :=
    List.map_fst_zip (by omega)
  have htail : (shape.template.fill values).tail = shape.template.tail := rfl
  rw [recognise, htexts, htail]
  clear h htexts htail
  rcases shape with (_ | _) | _ | _ | _ | _ | _ | _ <;> decide +kernel

/-- The texts of the statements hold no zero byte. -/
theorem zero_notMem_template (shape : Shape) :
    ∀ t ∈ shape.template.tail :: shape.template.texts, (0 : UInt8) ∉ t := by
  rcases shape with (_ | _) | _ | _ | _ | _ | _ | _ <;> decide +kernel

/-- **A statement that is carried out acts with the values it was built from.** -/
theorem effect_of_excute {w : Write} {a : Attempt} {db db' : Database}
    (hplain : ∀ v ∈ w.values, Plain v) (h : excute db w.sql a = some db') :
    w.shape.effect w.values a db = some db' := by
  unfold excute at h
  split at h
  · obtain ⟨r, hr, h⟩ := Option.bind_eq_some_iff.1 h
    rw [Write.sql_eq] at hr
    obtain rfl := readText_cut w.length_values (zero_notMem_template w.shape) (by decide) hplain hr
    have hvalues : (w.shape.template.fill w.values).segments.map Prod.snd = w.values :=
      List.map_snd_zip w.length_values.le
    rw [recognise_fill w.length_values, Option.bind_some, hvalues] at h
    exact h
  · cases h

end GraduationServer
