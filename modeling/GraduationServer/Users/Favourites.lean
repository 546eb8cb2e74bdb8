import GraduationServer.Users.Assets
import GraduationServer.Users.Loading

/-!
# Favourites

A favourite of a user is a row of `tab_assetsCollect` with the user, the type and the title of an
asset. `GetCollectInfoFromDB` lists the cached assets that the rows of the user name
(`mem_getCollectInfoFromDB`). A removal asks the cache first, and the cache loses one record where the
table loses every row, so the two drift apart; but every row keeps a record in the cache (`Covered`),
so that a removal is refused only when there is nothing to remove (`notMem_of_refused`), and the table
changes as the answers say (`mem_call_add`, `mem_call_remove`).
-/

namespace GraduationServer

open QuotedText

/-! ## Queries with a condition -/

/-- The rows of a table that meet some conditions. -/
def Table.restrict {notNull : List Bytes} (t : Table notNull) (conditions : List (Bytes × Bytes)) :
    Table notNull :=
  { t with
    rows := t.rows.filter (t.matchesRow conditions)
    wide := fun row hr => t.wide row (List.mem_of_mem_filter hr)
    strict := fun row hr => t.strict row (List.mem_of_mem_filter hr) }

/-! ## Rows and records -/

/-- A user, an asset type and a title. -/
structure Favourite where
  uID : Bytes
  type : Bytes
  title : Bytes
  deriving DecidableEq

/-- The favourite of a record. -/
def CollectInfo.favourite (info : CollectInfo) : Favourite :=
  ⟨info.cUID, info.cAssetsType, info.cAssetsTitle⟩

namespace Favourite

/-- The condition on a row of the favourite. -/
def conditions (f : Favourite) : List (Bytes × Bytes) :=
  [ascii "c_uID", ascii "c_assetsTitle", ascii "c_assetsType"].zip [f.uID, f.title, f.type]

/-- The table has a row of the favourite. -/
def Mem (f : Favourite) (db : Database) : Prop :=
  ∃ row ∈ db.assetsCollect.rows, db.assetsCollect.matchesRow f.conditions row = true

/-- The test by which a removal finds a record of the favourite. -/
def isRecord (f : Favourite) : CollectInfo → Bool := Server.isCollect f.uID f.title f.type

theorem isRecord_iff {f : Favourite} {info : CollectInfo} :
    f.isRecord info = true ↔ info.favourite = f := by
  obtain ⟨uID, type, title⟩ := f
  simp only [isRecord, Server.isCollect, CollectInfo.favourite, Bool.and_eq_true, decide_eq_true_eq,
    mk.injEq]
  rw [and_right_comm, and_assoc]

/-- The call that adds or removes a favourite. -/
def write (f : Favourite) (cId : Bytes) (add : Bool) : Write :=
  if add then .addCollectInfoFromDB cId f.uID f.type f.title
  else .removeOneCollectInfo f.uID f.title f.type

end Favourite

/-- The favourites of the rows of the table, as they are read. -/
def Database.favourites (db : Database) : List (Option Favourite) :=
  db.assetsCollect.rows.map fun row =>
    (readCollectInfo (db.assetsCollect.value row)).map CollectInfo.favourite

/-- Every row is read as a record, and the cache has a record of the same favourite. -/
def Covered (s : Server) : Prop :=
  s.db.favourites ⊆ s.manager.cacheCollectInfo.map fun info => some info.favourite

/-- The mirror covers the table. -/
theorem Mirror.covered {s : Server} (h : Mirror s) : Covered s := by
  have hperm := h.collect.map (Option.map CollectInfo.favourite)
  rw [List.map_map, List.map_map] at hperm
  exact hperm.symm.subset

variable {s s' : Server} {f : Favourite}

/-- A row of a favourite is read so. -/
theorem Covered.matchesRow_iff (h : Covered s) {row : Row} (hrow : row ∈ s.db.assetsCollect.rows) :
    s.db.assetsCollect.matchesRow f.conditions row = true ↔
      (readCollectInfo (s.db.assetsCollect.value row)).map CollectInfo.favourite = some f := by
  obtain ⟨info, -, hinfo⟩ := List.mem_map.1 (h (List.mem_map_of_mem hrow))
  obtain ⟨info', hread, -⟩ := Option.map_eq_some_iff.1 hinfo.symm
  rw [hread, Option.map_some, Option.some.injEq, ← Favourite.isRecord_iff]
  exact Bool.eq_iff_iff.1 (isCollect_eq_matchesRow hrow hread).symm

theorem Covered.mem_iff (h : Covered s) : f.Mem s.db ↔ some f ∈ s.db.favourites := by
  rw [Database.favourites, List.mem_map]
  exact exists_congr fun row => and_congr_right fun hrow => h.matchesRow_iff hrow

theorem any_isRecord_iff {m : UserManager} :
    m.cacheCollectInfo.any f.isRecord = true ↔
      some f ∈ m.cacheCollectInfo.map fun info => some info.favourite := by
  rw [List.any_eq_true, List.mem_map]
  refine exists_congr fun info => and_congr_right fun _ => ?_
  rw [Favourite.isRecord_iff, Option.some.injEq]

/-- **A removal is refused without a statement only if the table has no such row.** -/
theorem Covered.notMem_of_refused (h : Covered s)
    (hrefused : ¬ s.manager.cacheCollectInfo.any f.isRecord = true) : ¬ f.Mem s.db := by
  rw [h.mem_iff]
  exact fun hf => hrefused (any_isRecord_iff.2 (h hf))

/-! ## Adding and removing -/

theorem Server.of_write {w : Write} {a : Attempt} {change : UserManager → UserManager} {ok : Bool}
    (hplain : ∀ v ∈ w.values, Plain v) (h : s.write w a change = (ok, s')) :
    (ok = false ∧ s' = s) ∨
      (ok = true ∧ ∃ db, w.shape.effect w.values a s.db = some db ∧ s' = ⟨db, change s.manager⟩) := by
  rcases s.write_cases w a change with ⟨-, hwrite⟩ | ⟨db, hexcute, hwrite⟩
  · rw [hwrite] at h
    cases h
    exact Or.inl ⟨rfl, rfl⟩
  · rw [hwrite] at h
    cases h
    exact Or.inr ⟨rfl, db, effect_of_excute hplain hexcute, rfl⟩

/-- The cache covers the table, which has changed by the favourite if the call has succeeded, and the
rest of the manager is as it was. -/
structure Obeys (s s' : Server) (f : Favourite) (add ok : Bool) : Prop where
  covered : Covered s'
  manager : ∃ infos, s'.manager = { s.manager with cacheCollectInfo := infos }
  mem : ∀ f' : Favourite, f'.Mem s'.db ↔ if ok = true ∧ f' = f then add = true else f'.Mem s.db

theorem Covered.unchanged (h : Covered s) (f : Favourite) (add : Bool) : Obeys s s f add false where
  covered := h
  manager := ⟨_, rfl⟩
  mem f' := by simp

/-- **An insertion adds the favourite**, to the table and to the cache. -/
theorem Covered.add (h : Covered s) {cId : Bytes} {ok : Bool}
    (hplain : ∀ v ∈ [cId, f.uID, f.type, f.title], Plain v) {a : Attempt}
    (hcall : s.addCollectInfoFromDB cId f.uID f.type f.title a = (ok, s')) :
    Obeys s s' f true ok := by
  rcases Server.of_write (w := .addCollectInfoFromDB ..) hplain hcall with
    ⟨rfl, rfl⟩ | ⟨rfl, db, heffect, rfl⟩
  · exact h.unchanged f true
  obtain ⟨t, ht, rfl⟩ := Option.map_eq_some_iff.1 heffect
  obtain ⟨-, hcolumns, hrows⟩ := Table.of_insertInto ht
  have hvalue := Table.value_congr hcolumns
  have hfavourites : ({ s.db with assetsCollect := t } : Database).favourites =
      s.db.favourites ++ [some f] := by
    rw [Database.favourites, hrows, List.map_append, List.map_singleton]
    refine congrArg₂ _ (by rw [hvalue]; rfl) (congrArg ([·]) ?_)
    simp only [readCollectInfo, value_newRow ht (ascii "c_id") rfl,
      value_newRow ht (ascii "c_assetsType") rfl, value_newRow ht (ascii "c_assetsTitle") rfl,
      value_newRow ht (ascii "c_uID") rfl]
    rfl
  have hcovered : Covered ⟨{ s.db with assetsCollect := t },
      { s.manager with cacheCollectInfo := s.manager.cacheCollectInfo ++
        [⟨cId, f.uID, f.type, f.title⟩] }⟩ := by
    unfold Covered
    rw [hfavourites, List.map_append]
    exact List.append_subset.2 ⟨List.subset_append_of_subset_left _ h,
      List.subset_append_of_subset_right _ (List.Subset.refl _)⟩
  refine ⟨hcovered, ⟨_, rfl⟩, fun f' => ?_⟩
  rw [hcovered.mem_iff, h.mem_iff, hfavourites]
  by_cases hf : f' = f <;> simp [hf]

/-- **A removal removes the favourite** from the table; the cache keeps the records of the others. -/
theorem Covered.remove (h : Covered s) {ok : Bool} (hplain : ∀ v ∈ [f.uID, f.title, f.type], Plain v)
    {a : Attempt} (hcall : s.removeOneCollectInfo f.uID f.title f.type a = (ok, s')) :
    Obeys s s' f false ok := by
  simp only [Server.removeOneCollectInfo] at hcall
  split at hcall
  · rcases Server.of_write (w := .removeOneCollectInfo ..) hplain hcall with
      ⟨rfl, rfl⟩ | ⟨rfl, db, heffect, rfl⟩
    · exact h.unchanged f false
    obtain ⟨t, ht, rfl⟩ := Option.map_eq_some_iff.1 heffect
    obtain ⟨hcolumns, hrows⟩ := Table.of_deleteFrom ht
    have hvalue := Table.value_congr hcolumns
    have hfavourites : ({ s.db with assetsCollect := t } : Database).favourites =
        s.db.favourites.filter fun o => o ≠ some f := by
      rw [Database.favourites, Database.favourites, List.filter_map]
      simp only [hvalue, hrows]
      refine congrArg _ (List.filter_congr fun row hrow => ?_)
      rw [Bool.eq_iff_iff, Bool.not_eq_true', ← Bool.not_eq_true, Function.comp_apply,
        decide_eq_true_eq]
      exact not_congr (h.matchesRow_iff hrow)
    have hcovered : Covered ⟨{ s.db with assetsCollect := t },
        { s.manager with cacheCollectInfo := s.manager.cacheCollectInfo.eraseP f.isRecord }⟩ := by
      intro o ho
      rw [hfavourites] at ho
      obtain ⟨ho, hne⟩ := List.mem_filter.1 ho
      obtain ⟨info, hinfo, rfl⟩ := List.mem_map.1 (h ho)
      refine List.mem_map.2 ⟨info, (List.mem_eraseP_of_neg ?_).2 hinfo, rfl⟩
      rw [Favourite.isRecord_iff]
      exact fun heq => of_decide_eq_true hne (congrArg some heq)
    refine ⟨hcovered, ⟨_, rfl⟩, fun f' => ?_⟩
    rw [hcovered.mem_iff, h.mem_iff, hfavourites]
    by_cases hf : f' = f <;> simp [hf]
  · cases hcall
    exact h.unchanged f false

/-- **A call changes the table by its favourite if it succeeds.** -/
theorem Covered.call (h : Covered s) {cId : Bytes} {add ok : Bool}
    (hplain : ∀ v ∈ (f.write cId add).values, Plain v) {a : Attempt}
    (hcall : s.call (f.write cId add) a = (ok, s')) : Obeys s s' f add ok := by
  cases add with
  | true => exact h.add hplain hcall
  | false => exact h.remove hplain hcall

/-! ## Listing -/

/-- The name of a kind of assets in the table. -/
def AssetType.name : AssetType → Bytes
  | .video => ascii "video"
  | .audio => ascii "audio"
  | .text => ascii "text"

/-- The title that a listing shows. -/
def Asset.title (asset : Asset) : Option Bytes := asset.lookup (ascii "title")

/-- The assets of a row are those of its type and title. -/
theorem assets_recordsOfRow (m : UserManager) (name title : Bytes) (type : AssetType) :
    (m.recordsOfRow name title).assets type =
      if name = type.name then (m.assets type).filter fun asset => asset.title = some title
      else [] := by
  have hrow : ∀ type' : AssetType, (m.recordsOfRow type'.name title).assets type' =
      (m.assets type').filter fun asset => asset.title = some title := by
    intro type'
    cases type' with
    | video => exact map_asset_filter (fun _ => rfl) m.cacheVideoInfo title
    | audio => exact map_asset_filter (fun _ => rfl) m.cacheAudioInfo title
    | text => exact map_asset_filter (fun _ => rfl) m.cacheWordInfo title
  split
  · next h =>
    rw [h]
    exact hrow type
  · next h =>
    unfold UserManager.recordsOfRow
    split_ifs with hvideo haudio htext
    · cases type with
      | video => exact absurd hvideo h
      | _ => rfl
    · cases type with
      | audio => exact absurd haudio h
      | _ => rfl
    · cases type with
      | text => exact absurd htext h
      | _ => rfl
    · cases type <;> rfl

theorem mem_recordsOfRow {m : UserManager} {name title : Bytes} {type : AssetType} {asset : Asset} :
    asset ∈ (m.recordsOfRow name title).assets type ↔
      name = type.name ∧ asset ∈ m.assets type ∧ asset.title = some title := by
  rw [assets_recordsOfRow]
  split
  · next h => simp [h]
  · next h => simp [h]

theorem mem_recordsOfRows {m : UserManager} {rows : List (Bytes × Bytes)} {type : AssetType}
    {asset : Asset} :
    asset ∈ (m.recordsOfRows rows).assets type ↔
      ∃ title, (type.name, title) ∈ rows ∧ asset ∈ m.assets type ∧ asset.title = some title := by
  induction rows with
  | nil => cases type <;> simp [UserManager.recordsOfRows, Listing.assets]
  | cons row rows ih =>
    obtain ⟨name, title⟩ := row
    have happend : (m.recordsOfRows ((name, title) :: rows)).assets type =
        (m.recordsOfRow name title).assets type ++ (m.recordsOfRows rows).assets type := by
      cases type <;> exact List.map_append
    rw [happend, List.mem_append, mem_recordsOfRow, ih]
    constructor
    · rintro (⟨rfl, hasset, htitle⟩ | ⟨title', hrow, hasset⟩)
      · exact ⟨title, List.mem_cons_self, hasset, htitle⟩
      · exact ⟨title', List.mem_cons_of_mem _ hrow, hasset⟩
    · rintro ⟨title', hrow, hasset⟩
      rcases List.mem_cons.1 hrow with heq | hrow
      · cases heq
        exact Or.inl ⟨rfl, hasset⟩
      · exact Or.inr ⟨title', hrow, hasset⟩

/-- The type and the title in a row. -/
def readTypeTitle (value : Bytes → Option Bytes) : Option (Bytes × Bytes) := do
  return (← value (ascii "c_assetsType"), ← value (ascii "c_assetsTitle"))

/-- The rows that the query of `GetCollectInfoFromDB` selects. -/
def Database.collectsOf (db : Database) (uID : Bytes) :=
  db.assetsCollect.restrict [(ascii "c_uID", uID)]

/-- `GetCollectInfoFromDB` with its query, whose answer is `none` when it fails. The function itself is
`none` when it reads outside of a row. -/
def Server.getCollectInfoFromDB (s : Server) (userName : Bytes)
    (answer : (u : User) → Option (s.db.collectsOf u.uID).Selected) : Option (Bool × Listing) :=
  match s.manager.getUserInfoByUsername userName {} with
  | (false, _) => some (false, {})
  | (true, u) =>
    match answer u with
    | none => some (false, {})
    | some selected =>
      (loadInfoGuarded readTypeTitle (some selected)).map fun r => (true, s.manager.recordsOfRows r.2)

/-- A row of a favourite has its texts in its columns, none of which may be `NULL`. -/
theorem Favourite.mem_iff {f : Favourite} {db : Database} :
    f.Mem db ↔ ∃ row ∈ db.assetsCollect.rows, db.assetsCollect.value row (ascii "c_uID") = some f.uID ∧
      db.assetsCollect.value row (ascii "c_assetsTitle") = some f.title ∧
      db.assetsCollect.value row (ascii "c_assetsType") = some f.type := by
  refine exists_congr fun row => and_congr_right fun hrow => ?_
  simp only [Table.matchesRow, conditions, List.zip_cons_cons, List.zip_nil_left, List.all_cons,
    List.all_nil, Bool.and_true, Bool.and_eq_true, decide_eq_true_eq]
  rw [Table.value_eq_iff hrow (by decide), Table.value_eq_iff hrow (by decide),
    Table.value_eq_iff hrow (by decide)]

/-- For a client session the answer is the list of types and titles in it. -/
theorem getCollectInfoFromDB_eq {userName : Bytes} {u : User}
    (hu : s.manager.getUserInfoByUsername userName {} = (true, u))
    {answer : (u : User) → Option (s.db.collectsOf u.uID).Selected} {selected}
    (hanswer : answer u = some selected) {rows : List (Bytes × Bytes)}
    (hrows : loadInfoGuarded readTypeTitle (some selected) = some (true, rows)) :
    s.getCollectInfoFromDB userName answer =
      some (s.manager.getRowsInfoFromDB (some rows) userName) := by
  simp only [Server.getCollectInfoFromDB, UserManager.getRowsInfoFromDB, hu, hanswer, hrows,
    Option.map_some, if_true]

theorem readTypeTitle_eq_some_iff {value : Bytes → Option Bytes} {type title : Bytes} :
    readTypeTitle value = some (type, title) ↔
      value (ascii "c_assetsType") = some type ∧ value (ascii "c_assetsTitle") = some title := by
  unfold readTypeTitle
  cases value (ascii "c_assetsType") <;> cases value (ascii "c_assetsTitle") <;> simp

/-- The rows of a favourite are among those that are selected for its user. -/
theorem mem_iff_selected {db : Database} {uID type title : Bytes}
    (selected : (db.collectsOf uID).Selected) :
    Favourite.Mem ⟨uID, type, title⟩ db ↔
      ∃ row ∈ selected.rows, readTypeTitle ((db.collectsOf uID).value row) = some (type, title) := by
  rw [Favourite.mem_iff]
  have hmem : ∀ row, row ∈ selected.rows ↔ row ∈ db.assetsCollect.rows ∧
      db.assetsCollect.value row (ascii "c_uID") = some uID := by
    intro row
    rw [selected.perm.mem_iff]
    refine List.mem_filter.trans (and_congr_right fun hrow => ?_)
    simp only [Table.matchesRow, List.all_cons, List.all_nil, Bool.and_true, decide_eq_true_eq]
    exact (Table.value_eq_iff hrow (by decide)).symm
  constructor
  · rintro ⟨row, hrow, huser, htitle, htype⟩
    exact ⟨row, (hmem row).2 ⟨hrow, huser⟩, readTypeTitle_eq_some_iff.2 ⟨htype, htitle⟩⟩
  · rintro ⟨row, hrow, hread⟩
    obtain ⟨hrow, huser⟩ := (hmem row).1 hrow
    obtain ⟨htype, htitle⟩ := readTypeTitle_eq_some_iff.1 hread
    exact ⟨row, hrow, huser, htitle, htype⟩

/-- The rows that are selected are read. -/
theorem Covered.loadTypeTitle (h : Covered s) {uID : Bytes}
    (selected : (s.db.collectsOf uID).Selected) :
    ∃ rows, loadInfoGuarded readTypeTitle (some selected) = some (true, rows) ∧
      rows.map some = selected.rows.map fun row =>
        readTypeTitle ((s.db.collectsOf uID).value row) := by
  have hread : ∀ row ∈ selected.rows,
      (readTypeTitle ((s.db.collectsOf uID).value row)).isSome := by
    intro row hrow
    have hrow : row ∈ s.db.assetsCollect.rows :=
      List.mem_of_mem_filter (selected.perm.subset hrow)
    obtain ⟨info, -, hinfo⟩ := List.mem_map.1 (h (List.mem_map_of_mem hrow))
    obtain ⟨info', hread, -⟩ := Option.map_eq_some_iff.1 hinfo.symm
    simp only [readCollectInfo, Option.bind_eq_bind, Option.bind_eq_some_iff] at hread
    obtain ⟨cId, -, type, htype, title, htitle, -⟩ := hread
    exact Option.isSome_iff_exists.2 ⟨_, readTypeTitle_eq_some_iff.2 ⟨htype, htitle⟩⟩
  obtain ⟨rows, hrows⟩ := Option.isSome_iff_exists.1 (isSome_mapM.2 hread)
  refine ⟨rows, ?_, map_some_of_mapM hrows⟩
  rw [loadInfoGuarded_eq]
  split
  · next hempty =>
    rw [hempty] at hrows
    cases hrows
    rfl
  · next hne => rw [loadInfo_eq hne, hrows, Option.map_some]

/-- **The listing of a user shows exactly the assets of the favourites in the table.** -/
theorem Covered.mem_getCollectInfoFromDB (h : Covered s) {userName : Bytes} {u : User}
    (hu : s.manager.getUserInfoByUsername userName {} = (true, u))
    {answer : (u : User) → Option (s.db.collectsOf u.uID).Selected} {selected}
    (hanswer : answer u = some selected) :
    ∃ l, s.getCollectInfoFromDB userName answer = some (true, l) ∧
      ∀ (type : AssetType) (asset : Asset) (title : Bytes), asset.title = some title →
        (asset ∈ l.assets type ↔
          asset ∈ s.manager.assets type ∧ Favourite.Mem ⟨u.uID, type.name, title⟩ s.db) := by
  obtain ⟨rows, hrows, hread⟩ := h.loadTypeTitle selected
  refine ⟨s.manager.recordsOfRows rows, ?_, fun type asset title htitle => ?_⟩
  · rw [getCollectInfoFromDB_eq hu hanswer hrows, UserManager.getRowsInfoFromDB, hu]
    rfl
  · have hmem : (type.name, title) ∈ rows ↔ Favourite.Mem ⟨u.uID, type.name, title⟩ s.db := by
      rw [mem_iff_selected selected, ← List.mem_map, ← hread]
      simp
    rw [mem_recordsOfRows, ← hmem]
    constructor
    · rintro ⟨title', hrow, hasset, htitle'⟩
      cases htitle.symm.trans htitle'
      exact ⟨hasset, hrow⟩
    · rintro ⟨hasset, hrow⟩
      exact ⟨title, hrow, hasset, htitle⟩

end GraduationServer
