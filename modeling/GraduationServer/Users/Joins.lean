import GraduationServer.Users.Favourites

/-!
# History and favourites as joins

`GetHistoryInfoFromDB` and `GetCollectInfoFromDB` are two copies of one loop over the rows of a query,
on `tab_browseRecords` and on `tab_assetsCollect`. The loop reads the type and the title in the current
row and appends the cached assets of that type and title to the three lists of the caller.

`getInfoFromRows_eq`: it appends the assets of each row, in the order of the rows, and reads nothing
outside of a row, whether there are rows or not.
-/

namespace GraduationServer

/-- Lists behind lists. -/
def Listing.append (l l' : Listing) : Listing :=
  ⟨l.videos ++ l'.videos, l.audios ++ l'.audios, l.words ++ l'.words⟩

/-- What the two functions do not have in common: the table they query, and the columns of the user,
the type and the title. -/
structure JoinedTable where
  table : Bytes
  uID : Bytes
  assetsType : Bytes
  assetsTitle : Bytes

/-- The table of `GetHistoryInfoFromDB`. -/
def JoinedTable.history : JoinedTable :=
  ⟨ascii "tab_browseRecords", ascii "b_uID", ascii "b_assetsType", ascii "b_browseTitle"⟩

/-- The table of `GetCollectInfoFromDB`. -/
def JoinedTable.collect : JoinedTable :=
  ⟨ascii "tab_assetsCollect", ascii "c_uID", ascii "c_assetsType", ascii "c_assetsTitle"⟩

/-- The text of the query. -/
def JoinedTable.sql (j : JoinedTable) (uID : Bytes) : Bytes :=
  ascii "select * from " ++ j.table ++ ascii " where " ++ j.uID ++ ascii " = '" ++ uID ++ ascii "';"

namespace UserManager

/-- The body of the loop in front of `NextRow`; `none` when a name reads outside of the row. -/
def pushRow (m : UserManager) (j : JoinedTable) (result : QueryResult) (lists : Listing) :
    Option Listing := do
  let type ← result.value j.assetsType
  let title ← result.value j.assetsTitle
  return lists.append (m.recordsOfRow type title)

/-- `while (result != nullptr && result->size() > 0)`, which breaks when `NextRow` returns `false`. -/
def pushRows (m : UserManager) (j : JoinedTable) (names : List Bytes) :
    List Bytes → List Row → Listing → Option Listing
  | current, rows, lists =>
    if (QueryResult.mk names current rows).size = 0 then some lists
    else
      (m.pushRow j ⟨names, current, rows⟩ lists).bind fun lists =>
        match rows with
        | [] => some lists
        | row :: rows => m.pushRows j names (row.map fieldValue) rows lists

/-- The two functions, with the answers to the queries of the database; `none` for a query that fails. -/
def getInfoFromRows (m : UserManager) (j : JoinedTable) (query : Bytes → Option QueryResult)
    (lists : Listing) (userName : Bytes) : Option (Bool × Listing) :=
  match m.getUserInfoByUsername userName {} with
  | (false, _) => some (false, lists)
  | (true, u) =>
    match query (j.sql u.uID) with
    | none => some (false, lists)
    | some result =>
      (m.pushRows j result.vecFieldName result.currentRow result.result lists).map (true, ·)

/-- `GetHistoryInfoFromDB`. -/
def getHistoryInfoFromDB (m : UserManager) (query : Bytes → Option QueryResult) (lists : Listing)
    (userName : Bytes) : Option (Bool × Listing) :=
  m.getInfoFromRows .history query lists userName

/-- `GetCollectInfoFromDB`. -/
def getCollectInfoFromDB (m : UserManager) (query : Bytes → Option QueryResult) (lists : Listing)
    (userName : Bytes) : Option (Bool × Listing) :=
  m.getInfoFromRows .collect query lists userName

end UserManager

/-! ## What is appended -/

/-- The rows that the query of a function returns: any number of them, with a cell in each column, and
the columns of the type and the title among them. -/
structure JoinedTable.Answer (j : JoinedTable) where
  columns : List Bytes
  rows : List Row
  wide : ∀ row ∈ rows, row.length = columns.length
  typed : j.assetsType ∈ columns
  titled : j.assetsTitle ∈ columns

namespace JoinedTable

variable {j : JoinedTable}

/-- The result of the query. -/
def Answer.result (a : j.Answer) : QueryResult := QueryResult.new a.columns a.rows

/-- The text in a column of a row. -/
def Answer.text (a : j.Answer) (name : Bytes) (row : Row) : Bytes :=
  ((cell a.columns row name).map fieldValue).getD []

/-- The type and the title of each row. -/
def Answer.pairs (a : j.Answer) (rows : List Row) : List (Bytes × Bytes) :=
  rows.map fun row => (a.text j.assetsType row, a.text j.assetsTitle row)

/-- The cached assets of a type that the rows of that type refer to, row by row. -/
def Answer.join {ρ : Type} (a : j.Answer) (type : Bytes) (title : ρ → Bytes) (cache : List ρ) :
    List ρ :=
  a.rows.flatMap fun row =>
    if a.text j.assetsType row = type then
      cache.filter fun r => title r = a.text j.assetsTitle row
    else []

end JoinedTable

section

variable {m : UserManager} {j : JoinedTable}

theorem append_recordsOfRows (lists : Listing) (type title : Bytes) (pairs : List (Bytes × Bytes)) :
    (lists.append (m.recordsOfRow type title)).append (m.recordsOfRows pairs) =
      lists.append (m.recordsOfRows ((type, title) :: pairs)) := by
  simp [Listing.append, UserManager.recordsOfRows]

theorem map_cell_eq (a : j.Answer) {row : Row} (hrow : row ∈ a.rows) {name : Bytes}
    (hname : name ∈ a.columns) :
    (cell a.columns row name).map fieldValue = some (a.text name row) := by
  obtain ⟨value, hcell⟩ := Option.isSome_iff_exists.1 (isSome_cell (a.wide row hrow) hname)
  rw [JoinedTable.Answer.text, hcell, Option.map_some, Option.getD_some]

/-- A row of the answer has the two columns. -/
theorem pushRow_eq (a : j.Answer) {row : Row} (hrow : row ∈ a.rows) (rows : List Row)
    (lists : Listing) :
    m.pushRow j ⟨a.columns, row.map fieldValue, rows⟩ lists =
      some (lists.append
        (m.recordsOfRow (a.text j.assetsType row) (a.text j.assetsTitle row))) := by
  have hvalue : ∀ name ∈ a.columns,
      (QueryResult.mk a.columns (row.map fieldValue) rows).value name = some (a.text name row) := by
    intro name hname
    rw [QueryResult.value, cell_map, map_cell_eq a hrow hname]
  simp only [UserManager.pushRow, hvalue _ a.typed, hvalue _ a.titled, Option.bind_eq_bind,
    Option.bind_some, Option.pure_def]

theorem size_ne_zero (a : j.Answer) {row : Row} (hrow : row ∈ a.rows) (rows : List Row) :
    (QueryResult.mk a.columns (row.map fieldValue) rows).size ≠ 0 := by
  have hcolumns := List.length_pos_of_mem a.typed
  have hwide := a.wide row hrow
  simp only [QueryResult.size, List.length_map]
  omega

/-- **The loop**, by induction on the rows behind the current one. -/
theorem pushRows_eq (a : j.Answer) {row : Row} {rows : List Row}
    (hrows : ∀ r ∈ row :: rows, r ∈ a.rows) (lists : Listing) :
    m.pushRows j a.columns (row.map fieldValue) rows lists =
      some (lists.append (m.recordsOfRows (a.pairs (row :: rows)))) := by
  induction rows generalizing row lists with
  | nil =>
    have hrow := hrows row List.mem_cons_self
    rw [UserManager.pushRows, if_neg (size_ne_zero a hrow []), pushRow_eq a hrow]
    simp [JoinedTable.Answer.pairs, UserManager.recordsOfRows]
  | cons row' rows ih =>
    obtain ⟨hrow, hrows⟩ := List.forall_mem_cons.1 hrows
    rw [UserManager.pushRows, if_neg (size_ne_zero a hrow _), pushRow_eq a hrow, Option.bind_some]
    dsimp only
    rw [ih hrows, append_recordsOfRows]
    rfl

/-- The records of some rows, each list by itself. -/
theorem recordsOfRows_eq (m : UserManager) (pairs : List (Bytes × Bytes)) :
    m.recordsOfRows pairs =
      { videos := pairs.flatMap fun p =>
          if p.1 = ascii "video" then m.cacheVideoInfo.filter fun v => v.vTitle = p.2 else []
        audios := pairs.flatMap fun p =>
          if p.1 = ascii "audio" then m.cacheAudioInfo.filter fun v => v.aTitle = p.2 else []
        words := pairs.flatMap fun p =>
          if p.1 = ascii "text" then m.cacheWordInfo.filter fun v => v.title = p.2 else [] } := by
  induction pairs with
  | nil => rfl
  | cons p pairs ih =>
    obtain ⟨type, title⟩ := p
    have hva : ascii "video" ≠ ascii "audio" := by decide
    have hvt : ascii "video" ≠ ascii "text" := by decide
    have hat : ascii "audio" ≠ ascii "text" := by decide
    rw [UserManager.recordsOfRows, ih]
    unfold UserManager.recordsOfRow
    by_cases hvideo : type = ascii "video"
    · simp [hvideo, hva, hvt]
    by_cases haudio : type = ascii "audio"
    · simp [haudio, hva.symm, hat]
    by_cases htext : type = ascii "text"
    · simp [htext, hvt.symm, hat.symm]
    · simp [hvideo, haudio, htext]

theorem recordsOfRows_pairs (m : UserManager) (a : j.Answer) :
    m.recordsOfRows (a.pairs a.rows) =
      { videos := a.join (ascii "video") VideoInfo.vTitle m.cacheVideoInfo
        audios := a.join (ascii "audio") AudioInfo.aTitle m.cacheAudioInfo
        words := a.join (ascii "text") WordInfo.title m.cacheWordInfo } := by
  rw [recordsOfRows_eq]
  simp only [JoinedTable.Answer.pairs, List.flatMap_map]
  rfl

/-- **What the two functions append:** for each row the assets of its type and title, and nothing for
a row of another type. -/
theorem getInfoFromRows_eq {query : Bytes → Option QueryResult} {userName : Bytes} {u : User}
    (hu : m.getUserInfoByUsername userName {} = (true, u)) (a : j.Answer)
    (hquery : query (j.sql u.uID) = some a.result) (lists : Listing) :
    m.getInfoFromRows j query lists userName =
      some (true, lists.append
        { videos := a.join (ascii "video") VideoInfo.vTitle m.cacheVideoInfo
          audios := a.join (ascii "audio") AudioInfo.aTitle m.cacheAudioInfo
          words := a.join (ascii "text") WordInfo.title m.cacheWordInfo }) := by
  rw [← recordsOfRows_pairs, UserManager.getInfoFromRows, hu]
  simp only [hquery, JoinedTable.Answer.result]
  cases hrows : a.rows with
  | nil =>
    simp [QueryResult.new, UserManager.pushRows, QueryResult.size, JoinedTable.Answer.pairs,
      UserManager.recordsOfRows, Listing.append]
  | cons row rows =>
    rw [QueryResult.new]
    dsimp only
    rw [pushRows_eq a (by rw [hrows]; exact fun _ => id), Option.map_some]

end

namespace UserManager

/-- **History and favourites are joins:** for a known user the functions return `true` and append, for
each row in order, the cached assets of its type and title, in the order of the caches. -/
theorem getHistory_and_getCollectInfoFromDB (m : UserManager) (userName : Bytes) (u : User)
    (hu : m.getUserInfoByUsername userName {} = (true, u)) (query : Bytes → Option QueryResult)
    (lists : Listing) :
    (∀ a : JoinedTable.history.Answer, query (JoinedTable.history.sql u.uID) = some a.result →
      m.getHistoryInfoFromDB query lists userName = some (true,
        { videos := lists.videos ++ a.join (ascii "video") VideoInfo.vTitle m.cacheVideoInfo
          audios := lists.audios ++ a.join (ascii "audio") AudioInfo.aTitle m.cacheAudioInfo
          words := lists.words ++ a.join (ascii "text") WordInfo.title m.cacheWordInfo })) ∧
      ∀ a : JoinedTable.collect.Answer, query (JoinedTable.collect.sql u.uID) = some a.result →
        m.getCollectInfoFromDB query lists userName = some (true,
          { videos := lists.videos ++ a.join (ascii "video") VideoInfo.vTitle m.cacheVideoInfo
            audios := lists.audios ++ a.join (ascii "audio") AudioInfo.aTitle m.cacheAudioInfo
            words := lists.words ++ a.join (ascii "text") WordInfo.title m.cacheWordInfo }) :=
  ⟨fun a hquery => getInfoFromRows_eq hu a hquery lists,
    fun a hquery => getInfoFromRows_eq hu a hquery lists⟩

/-- A user with a video that she has looked at, and a row about something of another type. -/
def viewer : UserManager where
  cachedUsers := [{ uID := ascii "u1", username := ascii "ann" }]
  cacheVideoInfo := [⟨ascii "v1", ascii "bob", ascii "t", [], [], [], [], ascii "u2"⟩]

/-- The rows about her. -/
def viewed : JoinedTable.history.Answer where
  columns := [ascii "b_assetsType", ascii "b_browseTitle"]
  rows := [[some (ascii "video"), some (ascii "t")], [some (ascii "image"), some (ascii "t")]]
  wide := by simp
  typed := by decide
  titled := by decide

theorem getHistory_viewer :
    viewer.getHistoryInfoFromDB (fun _ => some viewed.result) {} (ascii "ann") = some (true,
      { videos := [] ++ viewed.join (ascii "video") VideoInfo.vTitle viewer.cacheVideoInfo
        audios := [] ++ viewed.join (ascii "audio") AudioInfo.aTitle viewer.cacheAudioInfo
        words := [] ++ viewed.join (ascii "text") WordInfo.title viewer.cacheWordInfo }) :=
  (getHistory_and_getCollectInfoFromDB viewer (ascii "ann")
    { uID := ascii "u1", username := ascii "ann" } (by decide) (fun _ => some viewed.result) {}).1
    viewed rfl

end UserManager

end GraduationServer
