import GraduationServer.Client.Uploads

/-!
# Listings

What a client reads in the reply with a listing (`listed`) is what the manager has in its caches
(`listed_listingReply`), and the caches are what was loaded at the start followed by the uploads that
were answered with success (`assets_serve`). So every listing shows each accepted upload once, in the
order of the answers and with the texts of its request (`listed_uploads`).
-/

namespace GraduationServer

open Json

/-- The elements of an array; null is read as an array without any. -/
def Json.Value.elements : Value → Option (List Value)
  | .null => some []
  | .array elements => some elements
  | _ => none

theorem Json.Value.elements_ofElements (data : List Value) :
    (Value.ofElements data).elements = some data := by
  cases data <;> rfl

namespace ClientSession

variable {s s' : Server} {e : Surroundings} {data : Bytes} {root : Value} {replies : List Reply}

/-! ## Reading a listing -/

/-- The name of a kind of files in a listing. -/
def assetName : AssetType → Bytes
  | .video => ascii "video"
  | .audio => ascii "audio"
  | .text => ascii "text"

/-- The asset that an entry shows. -/
def readEntry (type : AssetType) (entry : Value) : Option Asset :=
  (assetKeys type).mapM fun key => (entry.stringMember key.1).map (key.1, ·)

/-- The assets of a kind that a reply lists. -/
def listed (json : Value) (type : AssetType) : Option (List Asset) := do
  let modelInfo ← json.member (ascii "modelInfo")
  let models ← modelInfo.elements
  let model ← models.find? fun m => m.stringMember (ascii "fileType") = some (assetName type)
  let data ← model.member (ascii "data")
  let entries ← data.elements
  entries.mapM (readEntry type)

/-- The asset that is read from an entry whose texts have been stored in JSON values. -/
def storedAsset (asset : Asset) : Asset := asset.map fun p => (p.1, stored p.2)

theorem readEntry_videoEntry {v : VideoInfo} {entry : Value} (h : videoEntry v = some entry) :
    readEntry .video entry = some (storedAsset v.asset) := by
  obtain ⟨fileData, h₁, h⟩ := Option.bind_eq_some_iff.1 h
  obtain ⟨courses, h₂, h⟩ := Option.bind_eq_some_iff.1 h
  obtain ⟨title, h₃, h⟩ := Option.bind_eq_some_iff.1 h
  obtain ⟨synopsis, h₄, h⟩ := Option.bind_eq_some_iff.1 h
  obtain ⟨upName, h₅, h⟩ := Option.bind_eq_some_iff.1 h
  obtain ⟨headImgPath, h₆, h⟩ := Option.bind_eq_some_iff.1 h
  cases h
  rw [eq_of_ofString h₁, eq_of_ofString h₂, eq_of_ofString h₃, eq_of_ofString h₄,
    eq_of_ofString h₅, eq_of_ofString h₆]
  rfl

theorem readEntry_audioEntry {a : AudioInfo} {entry : Value} (h : audioEntry a = some entry) :
    readEntry .audio entry = some (storedAsset a.asset) := by
  obtain ⟨fileData, h₁, h⟩ := Option.bind_eq_some_iff.1 h
  obtain ⟨courses, h₂, h⟩ := Option.bind_eq_some_iff.1 h
  obtain ⟨title, h₃, h⟩ := Option.bind_eq_some_iff.1 h
  obtain ⟨upName, h₄, h⟩ := Option.bind_eq_some_iff.1 h
  obtain ⟨headImgPath, h₅, h⟩ := Option.bind_eq_some_iff.1 h
  cases h
  rw [eq_of_ofString h₁, eq_of_ofString h₂, eq_of_ofString h₃, eq_of_ofString h₄,
    eq_of_ofString h₅]
  rfl

theorem readEntry_wordEntry {t : WordInfo} {entry : Value} (h : wordEntry t = some entry) :
    readEntry .text entry = some (storedAsset t.asset) := by
  obtain ⟨fileData, h₁, h⟩ := Option.bind_eq_some_iff.1 h
  obtain ⟨courses, h₂, h⟩ := Option.bind_eq_some_iff.1 h
  obtain ⟨title, h₃, h⟩ := Option.bind_eq_some_iff.1 h
  obtain ⟨upName, h₄, h⟩ := Option.bind_eq_some_iff.1 h
  cases h
  rw [eq_of_ofString h₁, eq_of_ofString h₂, eq_of_ofString h₃, eq_of_ofString h₄]
  rfl

/-- The entries of records are read as the assets of the records. -/
theorem mapM_readEntry {ρ : Type} {type : AssetType} {entry : ρ → Option Value} {asset : ρ → Asset}
    (hentry : ∀ r v, entry r = some v → readEntry type v = some (storedAsset (asset r)))
    {l : List ρ} {entries : List Value} (h : l.mapM entry = some entries) :
    entries.mapM (readEntry type) = some ((l.map asset).map storedAsset) := by
  induction l generalizing entries with
  | nil =>
    cases h
    rfl
  | cons r l ih =>
    rw [List.mapM_cons] at h
    obtain ⟨v, hv, h⟩ := Option.bind_eq_some_iff.1 h
    obtain ⟨vs, hvs, h⟩ := Option.bind_eq_some_iff.1 h
    cases h
    rw [List.mapM_cons, hentry r v hv, ih hvs]
    rfl

/-- **A listing is read as the assets it was made of.** -/
theorem listed_listingReply {type : MsgType} {l : Listing} {json : Value}
    (h : listingReply type l = some json) (t : AssetType) :
    listed json t = some ((l.assets t).map storedAsset) := by
  obtain ⟨vInfo, hvideos, h⟩ := Option.bind_eq_some_iff.1 h
  obtain ⟨aInfo, haudios, h⟩ := Option.bind_eq_some_iff.1 h
  obtain ⟨tInfo, hwords, h⟩ := Option.bind_eq_some_iff.1 h
  cases h
  cases t with
  | video =>
    show (Value.ofElements vInfo).elements.bind (List.mapM (readEntry .video)) = _
    rw [Value.elements_ofElements, Option.bind_some]
    exact mapM_readEntry (fun _ _ => readEntry_videoEntry) hvideos
  | audio =>
    show (Value.ofElements aInfo).elements.bind (List.mapM (readEntry .audio)) = _
    rw [Value.elements_ofElements, Option.bind_some]
    exact mapM_readEntry (fun _ _ => readEntry_audioEntry) haudios
  | text =>
    show (Value.ofElements tInfo).elements.bind (List.mapM (readEntry .text)) = _
    rw [Value.elements_ofElements, Option.bind_some]
    exact mapM_readEntry (fun _ _ => readEntry_wordEntry) hwords

/-! ## Uploads -/

/-- A message that asks for an upload, with what its handler takes from outside. -/
structure Upload where
  type : AssetType
  data : Bytes
  root : Value
  surroundings : Surroundings
  parsed : Reader.parse data = some (true, root)
  typed : messageType data = some (some (uploadType type))

/-- The message as a client sends it. -/
def Upload.message (u : Upload) : Surroundings × Bytes := (u.surroundings, u.data)

/-- The assets of a kind in the uploads that are answered with success. -/
def accepted (type : AssetType) : List Upload → List (List Reply) → List Asset
  | u :: uploads, replies :: answers =>
    (if u.type = type ∧ replies.head?.bind Reply.state = some 1 then
      (requested u.root type).toList else []) ++ accepted type uploads answers
  | _, _ => []

/-- An upload appends its asset if it is answered with success. -/
theorem assets_process {u : Upload} (h : process s u.surroundings u.data = some (s', replies))
    (type : AssetType) :
    s'.manager.assets type = s.manager.assets type ++
      if u.type = type ∧ replies.head?.bind Reply.state = some 1 then
        (requested u.root type).toList else [] := by
  rw [process_of_messageType u.typed] at h
  obtain ⟨w, asset, -, hasset, hassets, rfl, reply, rfl, hstate⟩ := of_upload u.parsed h
  rw [Server.assets_call, hassets, List.head?_cons, Option.bind_some, hstate]
  congr 1
  by_cases htype : u.type = type
  · subst htype
    cases (s.call w u.surroundings.attempt).1 <;> simp [hasset]
  · rw [if_neg (Ne.symm htype), ite_self, if_neg fun h => htype h.1]

/-- **After some uploads the caches hold what they held and the accepted uploads, in order.** -/
theorem assets_serve {uploads : List Upload} {answers : List (List Reply)}
    (h : serve s (uploads.map Upload.message) = some (s', answers)) (type : AssetType) :
    s'.manager.assets type = s.manager.assets type ++ accepted type uploads answers := by
  induction uploads generalizing s answers with
  | nil =>
    cases h
    exact (List.append_nil _).symm
  | cons u uploads ih =>
    obtain ⟨⟨s₁, replies⟩, hu, h⟩ := Option.bind_eq_some_iff.1 h
    obtain ⟨⟨s₂, later⟩, hlater, h⟩ := Option.bind_eq_some_iff.1 h
    cases h
    rw [ih hlater, assets_process hu, accepted, List.append_assoc]

/-- A text that fits into a JSON value is stored as it is. -/
def Fits (asset : Asset) : Prop := ∀ p ∈ asset, p.2.length ≤ 2 ^ 31 - 6

theorem Fits.storedAsset {asset : Asset} (h : Fits asset) : storedAsset asset = asset := by
  refine (List.map_congr_left fun p hp => ?_).trans (List.map_id asset)
  have hlt : p.2.length < 2 ^ 32 := (h p hp).trans_lt (by decide)
  rw [stored, Nat.mod_eq_of_lt hlt, List.take_length]
  rfl

theorem Fits.storable {asset : Asset} (h : Fits asset) : ∀ p ∈ asset, Storable p.2 :=
  fun p hp => (Nat.mod_le _ _).trans (h p hp)

/-- The texts of a request fit. -/
theorem fits_requested {type : AssetType} {asset : Asset}
    (hparse : Reader.parse data = some (true, root)) (h : requested root type = some asset) :
    Fits asset := by
  intro p hp
  have hmem : some p ∈ asset.map some := List.mem_map_of_mem hp
  rw [map_some_of_mapM h] at hmem
  obtain ⟨key, -, hkey⟩ := List.mem_map.1 hmem
  obtain ⟨t, ht, rfl⟩ := Option.map_eq_some_iff.1 hkey
  have hstorable : t.length % 2 ^ 32 ≤ 2 ^ 31 - 6 := Reader.storable_of_stringMember hparse ht
  rwa [Nat.mod_eq_of_lt (Reader.length_of_stringMember hparse ht)] at hstorable

theorem fits_accepted {type : AssetType} {uploads : List Upload} {answers : List (List Reply)} :
    ∀ asset ∈ accepted type uploads answers, Fits asset := by
  induction uploads generalizing answers with
  | nil => exact fun asset h => absurd h List.not_mem_nil
  | cons u uploads ih =>
    cases answers with
    | nil => exact fun asset h => absurd h List.not_mem_nil
    | cons replies answers =>
      intro asset hasset
      rcases List.mem_append.1 hasset with hfirst | hrest
      · split at hfirst
        · exact fits_requested u.parsed (Option.mem_toList.1 hfirst)
        · cases hfirst
      · exact ih asset hrest

/-- A listing can be sent when the texts of its assets can be stored. -/
theorem storable_of_assets {l : Listing}
    (h : ∀ type, ∀ asset ∈ l.assets type, ∀ p ∈ asset, Storable p.2) : l.Storable := by
  refine ⟨fun v hv => ?_, fun a ha => ?_, fun t ht => ?_⟩
  · simpa [VideoInfo.asset] using h .video _ (List.mem_map_of_mem hv)
  · simpa [AudioInfo.asset] using h .audio _ (List.mem_map_of_mem ha)
  · simpa [WordInfo.asset] using h .text _ (List.mem_map_of_mem ht)

/-! ## What is listed -/

/-- The asset was uploaded under the name. -/
def UploadedBy (name : Bytes) (asset : Asset) : Bool := asset.lookup (ascii "upName") = some name

/-- Every listing of everything shows the given assets, and every listing of a name those that were
uploaded under it. -/
structure Shows (s : Server) (assets : AssetType → List Asset) : Prop where
  normal : ∀ r, onGetNotmalInfoResponse s = some r → ∃ json, r = (s, [{ json }]) ∧
    ∀ type, listed json type = some ((assets type).map storedAsset)
  dynamic : ∀ data root name r, Reader.parse data = some (true, root) →
    root.stringMember (ascii "username") = some name → onGetDynamicInfoResponse s data = some r →
      ∃ json, r = (s, [{ json, crlf := true }]) ∧
        ∀ type, listed json type = some (((assets type).filter (UploadedBy name)).map storedAsset)

/-- Every listing that is asked for is sent. -/
structure Sends (s : Server) : Prop where
  normal : (onGetNotmalInfoResponse s).isSome
  dynamic : ∀ data root name, Reader.parse data = some (true, root) →
    root.stringMember (ascii "username") = some name → (onGetDynamicInfoResponse s data).isSome

/-- The uploads of a name are among all of them. -/
theorem assets_getDynamicInfoFromDB (m : UserManager) (name : Bytes) (type : AssetType) :
    (m.getDynamicInfoFromDB name).assets type = (m.assets type).filter (UploadedBy name) := by
  cases type with
  | video => exact map_asset_filter (fun _ => rfl) m.cacheVideoInfo name
  | audio => exact map_asset_filter (fun _ => rfl) m.cacheAudioInfo name
  | text => exact map_asset_filter (fun _ => rfl) m.cacheWordInfo name

/-- The listings show what is in the caches. -/
theorem shows_assets (s : Server) : Shows s s.manager.assets := by
  constructor
  · intro r h
    obtain ⟨json, hjson, h⟩ := Option.bind_eq_some_iff.1 h
    cases h
    exact ⟨json, rfl, listed_listingReply hjson⟩
  · intro data root name r hparse hname h
    obtain ⟨userName, huserName, h⟩ := Option.bind_eq_some_iff.1 (of_withRoot_of_parse hparse h)
    rw [hname] at huserName
    cases huserName
    obtain ⟨json, hjson, h⟩ := Option.bind_eq_some_iff.1 h
    cases h
    refine ⟨json, rfl, fun type => ?_⟩
    rw [listed_listingReply hjson, assets_getDynamicInfoFromDB]

/-- The listings are sent when what is in the caches fits. -/
theorem sends_of_fits (h : ∀ type, ∀ asset ∈ s.manager.assets type, Fits asset) : Sends s := by
  constructor
  · refine (isSome_listingReply_bind fun _ => rfl).2 (storable_of_assets fun type asset hasset => ?_)
    exact (h type asset hasset).storable
  · intro data root name hparse hname
    refine (isSome_listing hparse).2 fun _ => ⟨Value.isSome_stringMember.1 (by rw [hname]; rfl), ?_⟩
    intro name' _
    refine storable_of_assets fun type asset hasset => ?_
    rw [assets_getDynamicInfoFromDB] at hasset
    exact (h type asset (List.mem_of_mem_filter hasset)).storable

/-- **Uploads are listed faithfully.** After some uploads the listings show, for each kind, the assets
of the start followed by the uploads that were answered with success, in order and with the texts of
the requests. They are sent, and no text of the start is cut, if those of the start fit into JSON
values. -/
theorem listed_uploads {uploads : List Upload} {answers : List (List Reply)}
    (h : serve s (uploads.map Upload.message) = some (s', answers)) :
    Shows s' (fun type => s.manager.assets type ++ accepted type uploads answers) ∧
      (∀ type, ∀ asset ∈ accepted type uploads answers, storedAsset asset = asset) ∧
      ((∀ type, ∀ asset ∈ s.manager.assets type, Fits asset) →
        Sends s' ∧ ∀ type, ∀ asset ∈ s.manager.assets type, storedAsset asset = asset) := by
  have hassets := assets_serve h
  refine ⟨?_, fun type asset hasset => (fits_accepted asset hasset).storedAsset, fun hfits => ?_⟩
  · rw [← funext hassets]
    exact shows_assets s'
  · refine ⟨sends_of_fits fun type asset hasset => ?_, fun type asset hasset =>
      (hfits type asset hasset).storedAsset⟩
    rw [hassets] at hasset
    rcases List.mem_append.1 hasset with hold | hnew
    · exact hfits type asset hold
    · exact fits_accepted asset hnew

/-! ## A text is uploaded -/

/-- The text of `ann`. -/
def annText : Upload where
  type := .text
  data := textOf "ann"
  root := rootOf "ann"
  surroundings := carrying
  parsed := rfl
  typed := by decide +kernel

/-- The text is listed behind the one of `smallDatabase`. -/
theorem listed_annText :
    ∃ s' answers, serve ⟨smallDatabase, smallManager⟩ [annText.message] = some (s', answers) ∧
      Shows s' fun type => smallManager.assets type ++ accepted type [annText] answers := by
  have hserved : (serve ⟨smallDatabase, smallManager⟩ [annText.message]).isSome := by
    decide +kernel
  obtain ⟨⟨s', answers⟩, h⟩ := Option.isSome_iff_exists.1 hserved
  exact ⟨s', answers, h, (@listed_uploads _ _ [annText] _ h).1⟩

end ClientSession

end GraduationServer
