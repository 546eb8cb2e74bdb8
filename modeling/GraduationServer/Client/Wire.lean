import GraduationServer.Client.Listed
import GraduationServer.Json.RoundTrip

/-!
# Listings on the wire

A listing goes to the client as the text that the writer makes of it. A client that parses this text reads
the assets that the listing was made of, with their texts as they are in the caches, when these are in
UTF-8 (`parse_listingReply`). So what the uploads of a run have left can be read from the bytes of every
listing behind it (`listings_on_wire`).
-/

namespace GraduationServer

open Json Json.Writer

/-- A text that a client can read back. -/
def IsText (s : Bytes) : Prop := IsUtf8 s ∧ s.length ≤ 2 ^ 31 - 6

/-- An asset of such texts. -/
def Legible (asset : Asset) : Prop := ∀ p ∈ asset, IsText p.2

namespace ClientSession

variable {s s' : Server} {d : ℕ}

theorem Legible.fits {asset : Asset} (h : Legible asset) : Fits asset := fun p hp => (h p hp).2

/-! ## Entries -/

/-- The entry of an asset. -/
def entryOf (asset : Asset) : Value := .ofMembers (asset.map fun p => (p.1, .string (stored p.2)))

theorem eq_entryOf_video {v : VideoInfo} {entry : Value} (h : videoEntry v = some entry) :
    entry = entryOf v.asset := by
  obtain ⟨fileData, h₁, h⟩ := Option.bind_eq_some_iff.1 h
  obtain ⟨courses, h₂, h⟩ := Option.bind_eq_some_iff.1 h
  obtain ⟨title, h₃, h⟩ := Option.bind_eq_some_iff.1 h
  obtain ⟨synopsis, h₄, h⟩ := Option.bind_eq_some_iff.1 h
  obtain ⟨upName, h₅, h⟩ := Option.bind_eq_some_iff.1 h
  obtain ⟨headImgPath, h₆, h⟩ := Option.bind_eq_some_iff.1 h
  cases h
  rw [eq_of_ofString h₁, eq_of_ofString h₂, eq_of_ofString h₃, eq_of_ofString h₄,
    eq_of_ofString h₅, eq_of_ofString h₆]
  rfl

theorem eq_entryOf_audio {a : AudioInfo} {entry : Value} (h : audioEntry a = some entry) :
    entry = entryOf a.asset := by
  obtain ⟨fileData, h₁, h⟩ := Option.bind_eq_some_iff.1 h
  obtain ⟨courses, h₂, h⟩ := Option.bind_eq_some_iff.1 h
  obtain ⟨title, h₃, h⟩ := Option.bind_eq_some_iff.1 h
  obtain ⟨upName, h₄, h⟩ := Option.bind_eq_some_iff.1 h
  obtain ⟨headImgPath, h₅, h⟩ := Option.bind_eq_some_iff.1 h
  cases h
  rw [eq_of_ofString h₁, eq_of_ofString h₂, eq_of_ofString h₃, eq_of_ofString h₄,
    eq_of_ofString h₅]
  rfl

theorem eq_entryOf_word {t : WordInfo} {entry : Value} (h : wordEntry t = some entry) :
    entry = entryOf t.asset := by
  obtain ⟨fileData, h₁, h⟩ := Option.bind_eq_some_iff.1 h
  obtain ⟨courses, h₂, h⟩ := Option.bind_eq_some_iff.1 h
  obtain ⟨title, h₃, h⟩ := Option.bind_eq_some_iff.1 h
  obtain ⟨upName, h₄, h⟩ := Option.bind_eq_some_iff.1 h
  cases h
  rw [eq_of_ofString h₁, eq_of_ofString h₂, eq_of_ofString h₃, eq_of_ofString h₄]
  rfl

/-- The names of the texts of the assets. -/
def assetNames : List Bytes :=
  [ascii "fileData", ascii "courses", ascii "title", ascii "synopsis", ascii "upName",
    ascii "headImgPath"]

theorem isKey_of_mem {key : Bytes} (h : key ∈ assetNames) : IsKey key := by
  have hascii : ∀ k ∈ assetNames, (∀ c ∈ k, 0 < c.toNat ∧ c.toNat < 0x80) ∧ k.length < 2 ^ 30 := by
    decide +kernel
  exact isKey_of_ascii (hascii key h).1 (hascii key h).2

theorem roundTrips_entryOf {asset : Asset} (hnames : ∀ p ∈ asset, p.1 ∈ assetNames)
    (h : Legible asset) : RoundTrips (d + 2) (entryOf asset) := by
  apply roundTrips_ofMembers
  intro q hq
  obtain ⟨p, hp, rfl⟩ := List.mem_map.1 hq
  obtain ⟨hutf8, hlength⟩ := h p hp
  have hmod : p.2.length % 2 ^ 32 = p.2.length := Nat.mod_eq_of_lt (hlength.trans_lt (by decide))
  rw [stored, hmod, List.take_length]
  exact ⟨isKey_of_mem (hnames p hp), roundTrips_string hutf8 hlength⟩

/-- The entries of records are read back. -/
theorem roundTrips_mapM {ρ : Type} {entry : ρ → Option Value} {asset : ρ → Asset}
    (hentry : ∀ r v, entry r = some v → v = entryOf (asset r))
    (hnames : ∀ r, ∀ p ∈ asset r, p.1 ∈ assetNames) {l : List ρ} {entries : List Value}
    (h : l.mapM entry = some entries) (hl : ∀ a ∈ l.map asset, Legible a) :
    ∀ v ∈ entries, RoundTrips (d + 2) v := by
  have hmap : entries.map id = l.map fun r => entryOf (asset r) := map_eq_of_mapM hentry h
  rw [List.map_id] at hmap
  rw [hmap]
  intro v hv
  obtain ⟨r, hr, rfl⟩ := List.mem_map.1 hv
  exact roundTrips_entryOf (hnames r) (hl _ (List.mem_map_of_mem hr))

/-! ## Listings -/

theorem roundTrips_model {fileType : Bytes} {data : List Value} (htype : IsText fileType)
    (h : ∀ v ∈ data, RoundTrips d v) : RoundTrips (d + 2) (model fileType data) := by
  apply roundTrips_ofMembers
  simp only [List.mem_cons, List.not_mem_nil, or_false, forall_eq_or_imp, forall_eq]
  refine ⟨⟨isKey_of_ascii (by decide +kernel) (by decide +kernel), roundTrips_string htype.1 htype.2⟩,
    isKey_of_ascii (by decide +kernel) (by decide +kernel), roundTrips_ofElements h⟩

theorem isText_of_ascii {t : Bytes} (h : ∀ c ∈ t, c.toNat < 0x80) (hlength : t.length ≤ 2 ^ 31 - 6) :
    IsText t :=
  ⟨isUtf8_of_ascii h, hlength⟩

theorem roundTrips_listingReply {type : MsgType} {l : Listing} {json : Value}
    (h : listingReply type l = some json) (hl : ∀ t, ∀ asset ∈ l.assets t, Legible asset) :
    RoundTrips (d + 6) json := by
  obtain ⟨vInfo, hvideos, h⟩ := Option.bind_eq_some_iff.1 h
  obtain ⟨aInfo, haudios, h⟩ := Option.bind_eq_some_iff.1 h
  obtain ⟨tInfo, hwords, h⟩ := Option.bind_eq_some_iff.1 h
  cases h
  have hvideo : RoundTrips (d + 4) (model (ascii "video") vInfo) :=
    roundTrips_model (isText_of_ascii (by decide +kernel) (by decide +kernel))
      (roundTrips_mapM (fun _ _ => eq_entryOf_video) (fun v => by simp [VideoInfo.asset, assetNames])
        hvideos (hl .video))
  have haudio : RoundTrips (d + 4) (model (ascii "audio") aInfo) :=
    roundTrips_model (isText_of_ascii (by decide +kernel) (by decide +kernel))
      (roundTrips_mapM (fun _ _ => eq_entryOf_audio) (fun a => by simp [AudioInfo.asset, assetNames])
        haudios (hl .audio))
  have hword : RoundTrips (d + 4) (model (ascii "text") tInfo) :=
    roundTrips_model (isText_of_ascii (by decide +kernel) (by decide +kernel))
      (roundTrips_mapM (fun _ _ => eq_entryOf_word) (fun t => by simp [WordInfo.asset, assetNames])
        hwords (hl .text))
  apply roundTrips_ofMembers
  simp only [List.mem_cons, List.not_mem_nil, or_false, forall_eq_or_imp, forall_eq]
  refine ⟨⟨isKey_of_ascii (by decide +kernel) (by decide +kernel), ?_⟩,
    isKey_of_ascii (by decide +kernel) (by decide +kernel), ?_⟩
  · cases type <;> exact roundTrips_int (by decide) (by decide)
  · apply roundTrips_array
    simp only [List.mem_cons, List.not_mem_nil, or_false, forall_eq_or_imp, forall_eq]
    exact ⟨hvideo, haudio, hword⟩

/-- **A listing is read from its text** as the assets that it was made of. -/
theorem parse_listingReply {type : MsgType} {l : Listing} {json : Value}
    (h : listingReply type l = some json) (hl : ∀ t, ∀ asset ∈ l.assets t, Legible asset) :
    Reader.parse (write json) = some (true, json) ∧ ∀ t, listed json t = some (l.assets t) := by
  have hreads : RoundTrips Reader.stackLimit json := roundTrips_listingReply (d := 994) h hl
  refine ⟨?_, fun t => ?_⟩
  · rw [parse_of_writes (writes_of_readable hreads.readable), hreads.stored]
  · have hsame : (l.assets t).map storedAsset = l.assets t := by
      refine (List.map_congr_left fun asset hasset => ?_).trans (List.map_id _)
      exact (Legible.fits (hl t asset hasset)).storedAsset
    rw [listed_listingReply h, hsame]

/-! ## Listings of the caches -/

/-- **The listing of all files is read from its text**, when the caches are legible. -/
theorem normal_on_wire (hlegible : ∀ type, ∀ asset ∈ s.manager.assets type, Legible asset) :
    ∃ json, onGetNotmalInfoResponse s = some (s, [{ json }]) ∧
      Reader.parse (write json) = some (true, json) ∧
      ∀ type, listed json type = some (s.manager.assets type) := by
  have hsends := sends_of_fits fun type asset hasset => Legible.fits (hlegible type asset hasset)
  obtain ⟨r, hr⟩ := Option.isSome_iff_exists.1 hsends.normal
  obtain ⟨json, hjson, hr'⟩ := Option.bind_eq_some_iff.1 hr
  cases hr'
  exact ⟨json, hr, parse_listingReply hjson hlegible⟩

/-- **The listing of a user's files is read from its text**, when the caches are legible. -/
theorem dynamic_on_wire (hlegible : ∀ type, ∀ asset ∈ s.manager.assets type, Legible asset)
    {data name : Bytes} {root : Value} (hdata : Reader.parse data = some (true, root))
    (hname : root.stringMember (ascii "username") = some name) :
    ∃ json, onGetDynamicInfoResponse s data = some (s, [{ json, crlf := true }]) ∧
      Reader.parse (write json) = some (true, json) ∧
      ∀ type, listed json type = some ((s.manager.assets type).filter (UploadedBy name)) := by
  have hsends := sends_of_fits fun type asset hasset => Legible.fits (hlegible type asset hasset)
  obtain ⟨r, hr⟩ := Option.isSome_iff_exists.1 (hsends.dynamic data root name hdata hname)
  obtain ⟨userName, huserName, hr'⟩ := Option.bind_eq_some_iff.1 (of_withRoot_of_parse hdata hr)
  rw [hname] at huserName
  cases huserName
  obtain ⟨json, hjson, hr'⟩ := Option.bind_eq_some_iff.1 hr'
  cases hr'
  obtain ⟨hparse, hlisted⟩ := parse_listingReply hjson fun type asset hasset => by
    rw [assets_getDynamicInfoFromDB] at hasset
    exact hlegible type asset (List.mem_of_mem_filter hasset)
  refine ⟨json, hr, hparse, fun type => ?_⟩
  rw [hlisted, assets_getDynamicInfoFromDB]

/-! ## Runs -/

/-- An accepted asset is one that was asked for. -/
theorem mem_accepted {type : AssetType} {uploads : List Upload} {answers : List (List Reply)}
    {asset : Asset} (h : asset ∈ accepted type uploads answers) :
    ∃ u ∈ uploads, requested u.root type = some asset ∧ u.type = type := by
  induction uploads generalizing answers with
  | nil => cases h
  | cons u uploads ih =>
    cases answers with
    | nil => cases h
    | cons replies answers =>
      rcases List.mem_append.1 h with hfirst | hrest
      · split_ifs at hfirst with haccepted
        · exact ⟨u, List.mem_cons_self, Option.mem_toList.1 hfirst, haccepted.1⟩
        · cases hfirst
      · obtain ⟨w, hw, hrequested⟩ := ih hrest
        exact ⟨w, List.mem_cons_of_mem _ hw, hrequested⟩

/-- **What was uploaded is read from the listings.** After some uploads whose texts are in UTF-8, the text of
every listing that is asked for is one from which a client reads exactly the assets of the start and the
accepted uploads, in order; of a name, those that were uploaded under it. -/
theorem listings_on_wire {uploads : List Upload} {answers : List (List Reply)}
    (h : serve s (uploads.map Upload.message) = some (s', answers))
    (hold : ∀ type, ∀ asset ∈ s.manager.assets type, Legible asset)
    (hnew : ∀ u ∈ uploads, ∀ asset, requested u.root u.type = some asset → ∀ p ∈ asset, IsUtf8 p.2) :
    (∃ json, onGetNotmalInfoResponse s' = some (s', [{ json }]) ∧
      Reader.parse (write json) = some (true, json) ∧
      ∀ type, listed json type = some (s.manager.assets type ++ accepted type uploads answers)) ∧
    ∀ data root name, Reader.parse data = some (true, root) →
      root.stringMember (ascii "username") = some name →
      ∃ json, onGetDynamicInfoResponse s' data = some (s', [{ json, crlf := true }]) ∧
        Reader.parse (write json) = some (true, json) ∧
        ∀ type, listed json type =
          some ((s.manager.assets type ++ accepted type uploads answers).filter (UploadedBy name)) := by
  have hassets := assets_serve h
  have hlegible : ∀ type, ∀ asset ∈ s'.manager.assets type, Legible asset := by
    intro type asset hasset
    rw [hassets] at hasset
    rcases List.mem_append.1 hasset with hasset | hasset
    · exact hold type asset hasset
    · obtain ⟨u, hu, hrequested, rfl⟩ := mem_accepted hasset
      exact fun p hp => ⟨hnew u hu asset hrequested p hp, fits_accepted asset hasset p hp⟩
  constructor
  · obtain ⟨json, hreply, hparse, hlisted⟩ := normal_on_wire hlegible
    exact ⟨json, hreply, hparse, fun type => (hlisted type).trans (congrArg some (hassets type))⟩
  · intro data root name hdata hname
    obtain ⟨json, hreply, hparse, hlisted⟩ := dynamic_on_wire hlegible hdata hname
    exact ⟨json, hreply, hparse, fun type => by rw [hlisted, hassets]⟩

theorem legible_smallManager (type : AssetType) : ∀ asset ∈ smallManager.assets type, Legible asset := by
  have hsmall : ∀ asset ∈ smallManager.assets type, ∀ p ∈ asset,
      (∀ c ∈ p.2, c.toNat < 0x80) ∧ p.2.length ≤ 2 ^ 31 - 6 := by
    cases type <;> decide +kernel
  exact fun asset hasset p hp => isText_of_ascii (hsmall asset hasset p hp).1 (hsmall asset hasset p hp).2

/-- The text of `ann` is read from the listings behind the one of `smallDatabase`. -/
theorem listings_on_wire_annText :
    ∃ s' answers json, serve ⟨smallDatabase, smallManager⟩ [annText.message] = some (s', answers) ∧
      onGetNotmalInfoResponse s' = some (s', [{ json }]) ∧
      Reader.parse (write json) = some (true, json) ∧
      ∀ type, listed json type = some (smallManager.assets type ++ accepted type [annText] answers) := by
  have hserved : (serve ⟨smallDatabase, smallManager⟩ [annText.message]).isSome := by
    decide +kernel
  obtain ⟨⟨s', answers⟩, h⟩ := Option.isSome_iff_exists.1 hserved
  have hann : ∀ asset, requested annText.root annText.type = some asset →
      ∀ p ∈ asset, ∀ c ∈ p.2, c.toNat < 0x80 := by
    have hrequested : requested annText.root annText.type =
        some [(ascii "fileData", ascii "d"), (ascii "courses", ascii "c"), (ascii "title", ascii "x"),
          (ascii "upName", ascii "ann")] := by decide +kernel
    intro asset hasset
    obtain rfl := Option.some_inj.1 (hrequested.symm.trans hasset)
    decide +kernel
  obtain ⟨⟨json, hreply, hparse, hlisted⟩, -⟩ := @listings_on_wire _ _ [annText] _ h
    legible_smallManager (by
      intro u hu asset hasset p hp
      obtain rfl := List.mem_singleton.1 hu
      exact isUtf8_of_ascii (hann asset hasset p hp))
  exact ⟨s', answers, json, h, hreply, hparse, hlisted⟩

end ClientSession

end GraduationServer
