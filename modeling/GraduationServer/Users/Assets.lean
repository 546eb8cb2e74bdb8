import GraduationServer.Users.Mirror
import GraduationServer.Users.Listings

/-!
# Assets

The three kinds of uploaded files, seen alike: an asset is what a listing shows of an uploaded file,
its texts under their names in a reply. A call of one of the functions that write adds the asset of
its record to the cache of its kind when it returns `true`, and changes no cache of assets otherwise
(`assets_call`).
-/

namespace GraduationServer

/-- The kinds of uploaded files, in the order of a listing. -/
inductive AssetType
  | video
  | audio
  | text
  deriving DecidableEq

/-- What a listing shows of an uploaded file: names and texts. -/
abbrev Asset := List (Bytes × Bytes)

def VideoInfo.asset (v : VideoInfo) : Asset :=
  [(ascii "fileData", v.vFilePath), (ascii "courses", v.vCourses), (ascii "title", v.vTitle),
    (ascii "synopsis", v.vSynopsis), (ascii "upName", v.vUpName),
    (ascii "headImgPath", v.vHeadImgPath)]

def AudioInfo.asset (a : AudioInfo) : Asset :=
  [(ascii "fileData", a.aFilePath), (ascii "courses", a.aCourses), (ascii "title", a.aTitle),
    (ascii "upName", a.aUpName), (ascii "headImgPath", a.aHeadImgPath)]

def WordInfo.asset (t : WordInfo) : Asset :=
  [(ascii "fileData", t.fileData), (ascii "courses", t.coursesStr), (ascii "title", t.title),
    (ascii "upName", t.upName)]

/-- The assets of a listing. -/
def Listing.assets (l : Listing) : AssetType → List Asset
  | .video => l.videos.map VideoInfo.asset
  | .audio => l.audios.map AudioInfo.asset
  | .text => l.words.map WordInfo.asset

/-- The assets the manager has in its caches. -/
def UserManager.assets (m : UserManager) : AssetType → List Asset := m.getInfoFromDB.assets

/-- The records with a text in one of their fields have the assets that show it. -/
theorem map_asset_filter {ρ : Type} {asset : ρ → Asset} {key : Bytes} {field : ρ → Bytes}
    (hfield : ∀ r, (asset r).lookup key = some (field r)) (l : List ρ) (t : Bytes) :
    (l.filter fun r => field r = t).map asset =
      (l.map asset).filter fun a => a.lookup key = some t := by
  rw [List.filter_map]
  refine congrArg _ (List.filter_congr fun r _ => ?_)
  rw [Function.comp_apply, hfield]
  exact decide_eq_decide.2 Option.some_inj.symm

/-- The asset that a call adds to the cache of a kind. -/
def Write.assets : Write → AssetType → List Asset
  | .addVideoInfoFromDB info, .video => [info.asset]
  | .addAudioInfoFromDB info, .audio => [info.asset]
  | .addWordInfoFromDB info, .text => [info.asset]
  | _, _ => []

namespace Server

/-- A write changes the assets if its change does. -/
theorem assets_write (s : Server) (w : Write) (a : Attempt) {change : UserManager → UserManager}
    {type : AssetType} {l : List Asset}
    (hchange : (change s.manager).assets type = s.manager.assets type ++ l) :
    (s.write w a change).2.manager.assets type =
      s.manager.assets type ++ if (s.write w a change).1 then l else [] := by
  rcases s.write_cases w a change with ⟨-, hwrite⟩ | ⟨db, -, hwrite⟩
  · simp [hwrite]
  · simpa [hwrite] using hchange

/-- **A call adds the asset of its record when it succeeds.** -/
theorem assets_call (s : Server) (w : Write) (a : Attempt) (type : AssetType) :
    (s.call w a).2.manager.assets type =
      s.manager.assets type ++ if (s.call w a).1 then w.assets type else [] := by
  cases w with
  | addUser user =>
    refine (assets_write { s with manager.baseUserID := _ } _ a ?_)
    cases type <;> exact (List.append_nil _).symm
  | addVideoInfoFromDB info =>
    apply assets_write
    cases type <;> simp [UserManager.assets, UserManager.getInfoFromDB, Listing.assets, Write.assets]
  | addAudioInfoFromDB info =>
    apply assets_write
    cases type <;> simp [UserManager.assets, UserManager.getInfoFromDB, Listing.assets, Write.assets]
  | addWordInfoFromDB info =>
    apply assets_write
    cases type <;> simp [UserManager.assets, UserManager.getInfoFromDB, Listing.assets, Write.assets]
  | removeOneCollectInfo uID assetsTitle assetsType =>
    simp only [call, removeOneCollectInfo]
    split
    · apply assets_write
      cases type <;> exact (List.append_nil _).symm
    · simp
  | _ =>
    apply assets_write
    cases type <;> exact (List.append_nil _).symm

/-- A call for an asset returns what MySQL answers, and a failed one changes nothing. -/
theorem call_of_assets {w : Write} {type : AssetType} (hw : w.assets type ≠ []) (s : Server)
    (a : Attempt) :
    (s.call w a).1 = (excute s.db w.sql a).isSome ∧
      ((excute s.db w.sql a) = none → (s.call w a).2 = s) := by
  have hwrite : ∀ change, (s.write w a change).1 = (excute s.db w.sql a).isSome ∧
      (excute s.db w.sql a = none → (s.write w a change).2 = s) := by
    intro change
    rcases s.write_cases w a change with ⟨hexcute, hwrite⟩ | ⟨db, hexcute, hwrite⟩
    · rw [hexcute, hwrite]
      exact ⟨rfl, fun _ => rfl⟩
    · rw [hexcute, hwrite]
      exact ⟨rfl, nofun⟩
  cases w with
  | addVideoInfoFromDB info => exact hwrite _
  | addAudioInfoFromDB info => exact hwrite _
  | addWordInfoFromDB info => exact hwrite _
  | _ => cases type <;> exact absurd rfl hw

end Server

end GraduationServer
