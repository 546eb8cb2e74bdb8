import GraduationServer.Client.Session

/-!
# Message boundaries

`OnRead` takes everything the buffer of the connection holds as one message and keeps nothing for the
next read, and the parser ignores what stands behind the first value of a message. So the boundaries
of the messages are those of the reads. A read that begins with a whole request is that request,
whatever stands behind it; a read that is the front of a request gives no handler its data; and if
every read is a run of whole requests, the first of each is handled and no other
(`dispatches_of_reads`).
-/

namespace GraduationServer

open Json

/-- `Buffer::retrieveAsString`: the first `len` bytes, and what stays in the buffer. -/
def retrieveAsString (len : ℕ) (buffer : Bytes) : Bytes × Bytes := (buffer.take len, buffer.drop len)

namespace ClientSession

/-! ## Reads -/

/-- `OnRead`: what `Process` makes of all readable bytes, and what stays in the buffer. -/
def onRead {α : Type} (process : Bytes → Option α) (buffer : Bytes) : Option (α × Bytes) := do
  let (msgbuff, buffer) := retrieveAsString buffer.length buffer
  let result ← process msgbuff
  return (result, buffer)

/-- `OnRead` after each read, whose bytes are put behind those in the buffer. -/
def onReads {α : Type} (process : Bytes → Option α) : Bytes → List Bytes → Option (List α)
  | _, [] => some []
  | buffer, read :: reads => do
    let (result, buffer) ← onRead process (buffer ++ read)
    let results ← onReads process buffer reads
    return result :: results

/-- Nothing stays in the buffer. -/
theorem onRead_eq {α : Type} (process : Bytes → Option α) (buffer : Bytes) :
    onRead process buffer = (process buffer).map fun result => (result, []) := by
  simp only [onRead, retrieveAsString, List.take_length, List.drop_length]
  cases process buffer <;> rfl

/-- Every read is a message of its own. -/
theorem onReads_eq_mapM {α : Type} (process : Bytes → Option α) (reads : List Bytes) :
    onReads process [] reads = reads.mapM process := by
  induction reads with
  | nil => rfl
  | cons read reads ih =>
    rw [onReads, onRead_eq, List.mapM_cons, List.nil_append]
    cases process read with
    | none => rfl
    | some result =>
      simp only [Option.map_some, Option.bind_eq_bind, Option.bind_some, ih]

/-! ## Dispatches -/

/-- A handler that is called, with the data it finds in its message: none if that is rejected. -/
structure Dispatch where
  type : MsgType
  data : Option Value

/-- The data that a handler finds in its message. -/
def requestData (data : Bytes) : Option (Option Value) :=
  (Reader.parse data).map fun p => if p.1 then some p.2 else none

/-- The handlers that `Process` calls for a message: one at most. -/
def dispatch (msgbuff : Bytes) : Option (List Dispatch) := do
  let type ← messageType msgbuff
  let data ← requestData msgbuff
  return type.toList.map fun type => ⟨type, data⟩

theorem withRoot_congr {data data' : Bytes} (h : requestData data = requestData data') (s : Server)
    (handle : Value → Handled) : withRoot s data handle = withRoot s data' handle := by
  have hroot : ∀ data, withRoot s data handle =
      (requestData data).bind fun root => root.elim (some (s, [])) handle := by
    intro data
    simp only [withRoot, requestData, Option.bind_map, Option.bind_eq_bind]
    congr 1
    funext ⟨ok, root⟩
    cases ok <;> rfl
  rw [hroot, hroot, h]

/-- A handler looks at its message only to find this data. -/
theorem handle_congr {data data' : Bytes} (h : requestData data = requestData data') (s : Server)
    (e : Surroundings) (type : MsgType) : handle s e type data = handle s e type data' := by
  cases type with
  | heartbeat => rfl
  | loadInfoNormal => rfl
  | _ =>
    simp only [handle, onLoginResponse, onRegisterResponse, onUploadTextResponse,
      onUploadAudioResponse, onUploadVideoResponse, onGetHistoryInfoResponse,
      onGetCollectInfoResponse, onGetRowsInfoResponse, onGetDynamicInfoResponse,
      onGetSearchInfoResponse, onAddCollectInfoResponse, onAddHistoryInfoResponse]
    exact withRoot_congr h s _

/-- What a message does depends only on the handlers that are called, and on their data. -/
theorem process_congr {msgbuff msgbuff' : Bytes} (h : dispatch msgbuff = dispatch msgbuff')
    (s : Server) (e : Surroundings) : process s e msgbuff = process s e msgbuff' := by
  have hdata : ∀ msgbuff type, messageType msgbuff = some type →
      ∃ data, requestData msgbuff = some data := by
    intro msgbuff type htype
    simp only [messageType, Option.bind_eq_bind, Option.bind_eq_some_iff] at htype
    obtain ⟨p, hp, -⟩ := htype
    exact ⟨_, by rw [requestData, hp, Option.map_some]⟩
  unfold process
  unfold dispatch at h
  cases htype : messageType msgbuff with
  | none =>
    cases htype' : messageType msgbuff' with
    | none => rfl
    | some type' =>
      obtain ⟨data', hdata'⟩ := hdata _ _ htype'
      simp [htype, htype', hdata'] at h
  | some type =>
    obtain ⟨data, hfound⟩ := hdata _ _ htype
    cases htype' : messageType msgbuff' with
    | none => simp [htype, htype', hfound] at h
    | some type' =>
      obtain ⟨data', hfound'⟩ := hdata _ _ htype'
      simp only [htype, htype', hfound, hfound', Option.bind_eq_bind, Option.bind_some,
        Option.pure_def, Option.some.injEq] at h ⊢
      cases type with
      | none =>
        cases type' with
        | none => rfl
        | some type' => cases h
      | some type =>
        cases type' with
        | none => cases h
        | some type' =>
          simp only [Option.toList_some, List.map_cons, List.map_nil, List.cons.injEq,
            Dispatch.mk.injEq, and_true] at h
          obtain ⟨rfl, rfl⟩ := h
          exact handle_congr (hfound.trans hfound'.symm) s e type

/-! ## Requests -/

/-- A request: the parser takes its text for the same object whatever follows, and takes no front of
it. -/
structure Request where
  text : Bytes
  root : Value
  accepted : ∀ rest, Reader.parse (text ++ rest) = some (true, root)
  rejected : ∀ front, front <+: text → front ≠ text → ∃ left, Reader.parse front = some (false, left)

/-- The bytes of some requests. -/
def bytes (requests : List Request) : Bytes := requests.flatMap Request.text

/-- What stands behind a request is not looked at. -/
theorem dispatch_append (q : Request) (rest : Bytes) :
    dispatch (q.text ++ rest) = dispatch q.text := by
  have hq := q.accepted []
  rw [List.append_nil] at hq
  simp only [dispatch, messageType, requestData, q.accepted rest, hq]

/-- The front of a request gives a handler no data. -/
theorem data_of_front {q : Request} {front : Bytes} (h : front <+: q.text) (hne : front ≠ q.text)
    {ds : List Dispatch} (hds : dispatch front = some ds) : ∀ d ∈ ds, d.data = none := by
  obtain ⟨left, hleft⟩ := q.rejected front h hne
  simp only [dispatch, requestData, hleft, Option.map_some, Option.bind_eq_bind,
    Option.bind_some, Option.bind_eq_some_iff] at hds
  obtain ⟨type, -, hds⟩ := hds
  cases hds
  intro d hd
  obtain ⟨_, -, rfl⟩ := List.mem_map.1 hd
  rfl

/-- The handlers that are called after the reads of a connection. -/
def dispatches (reads : List Bytes) : Option (List Dispatch) :=
  (onReads dispatch [] reads).map List.flatten

/-- A read that begins where a request does: it holds the request, which alone is handled, or only
the front of it, which gives a handler no data. -/
theorem dispatch_of_boundary {q : Request} {read after later : Bytes}
    (h : read ++ after = q.text ++ later) :
    (q.text <+: read ∧ dispatch read = dispatch q.text) ∨
      (read <+: q.text ∧ read ≠ q.text ∧
        ∀ ds, dispatch read = some ds → ∀ d ∈ ds, d.data = none) := by
  rcases List.append_eq_append_iff.1 h with ⟨rest, hrest, -⟩ | ⟨rest, rfl, -⟩
  · by_cases hread : read = q.text
    · exact Or.inl ⟨hread ▸ List.prefix_refl _, by rw [hread]⟩
    · have hfront : read <+: q.text := ⟨rest, hrest.symm⟩
      exact Or.inr ⟨hfront, hread, fun ds hds => data_of_front hfront hread hds⟩
  · exact Or.inl ⟨List.prefix_append _ _, dispatch_append q rest⟩

/-- A read that is a run of requests is its first request. -/
theorem dispatches_of_runs (runs : List (Request × List Request)) :
    dispatches (runs.map fun run => bytes (run.1 :: run.2)) =
      dispatches (runs.map fun run => run.1.text) := by
  have hfirst : ∀ run : Request × List Request,
      dispatch (bytes (run.1 :: run.2)) = dispatch run.1.text := fun run => dispatch_append _ _
  rw [dispatches, dispatches, onReads_eq_mapM, onReads_eq_mapM, List.mapM_map, List.mapM_map]
  congr 2
  funext run
  exact hfirst run

/-- As many handlers are called as there are reads if each read calls one. -/
theorem length_dispatches {reads : List Bytes} (h : ∀ read ∈ reads, ∃ d, dispatch read = some [d]) :
    ∃ ds, dispatches reads = some ds ∧ ds.length = reads.length := by
  rw [dispatches, onReads_eq_mapM]
  induction reads with
  | nil => exact ⟨[], rfl, rfl⟩
  | cons read reads ih =>
    obtain ⟨d, hd⟩ := h read List.mem_cons_self
    obtain ⟨ds, hds, hlength⟩ := ih fun r hr => h r (List.mem_cons_of_mem _ hr)
    obtain ⟨dss, hdss, rfl⟩ := Option.map_eq_some_iff.1 hds
    refine ⟨d :: dss.flatten, ?_, by simp [hlength]⟩
    simp [List.mapM_cons, hd, hdss]

/-- If every read is a run of requests and every request calls a handler, the reads call the handlers
that the requests call one by one exactly when every read is one request. -/
theorem dispatches_of_runs_iff {runs : List (Request × List Request)}
    (h : ∀ run ∈ runs, ∀ q ∈ run.1 :: run.2, ∃ d, dispatch q.text = some [d]) :
    dispatches (runs.map fun run => bytes (run.1 :: run.2)) =
        dispatches ((runs.flatMap fun run => run.1 :: run.2).map Request.text) ↔
      ∀ run ∈ runs, run.2 = [] := by
  rw [dispatches_of_runs]
  constructor
  · intro heq
    have hfirst : ∀ read ∈ runs.map (fun run => run.1.text), ∃ d, dispatch read = some [d] := by
      intro read hread
      obtain ⟨run, hrun, rfl⟩ := List.mem_map.1 hread
      exact h run hrun _ List.mem_cons_self
    have hall : ∀ read ∈ (runs.flatMap fun run => run.1 :: run.2).map Request.text,
        ∃ d, dispatch read = some [d] := by
      intro read hread
      obtain ⟨q, hq, rfl⟩ := List.mem_map.1 hread
      obtain ⟨run, hrun, hq⟩ := List.mem_flatMap.1 hq
      exact h run hrun q hq
    obtain ⟨ds, hds, hlength⟩ := length_dispatches hfirst
    obtain ⟨ds', hds', hlength'⟩ := length_dispatches hall
    obtain rfl : ds = ds' := by simpa [hds, hds'] using heq
    -- as many requests as reads: no read holds a second one
    have hsum : (runs.map fun run => run.2.length).sum = 0 := by
      have hsame := hlength.symm.trans hlength'
      simp only [List.length_map, List.length_flatMap, List.length_cons, List.sum_map_add] at hsame
      simpa using hsame
    intro run hrun
    exact List.length_eq_zero_iff.1
      (List.sum_eq_zero_iff_forall_eq_nat.1 hsum _ (List.mem_map_of_mem hrun))
  · intro hone
    congr 1
    rw [List.map_flatMap, List.map_eq_flatMap]
    exact List.flatMap_congr fun run hrun => by rw [hone run hrun]; rfl

/-- **What the reads of a connection dispatch.** No read depends on another. A read that begins where
a request does dispatches this request or hands no data to a handler. If every read is a run of
requests, their first ones are dispatched, which are all of them exactly when every read is one
request. -/
theorem dispatches_of_reads {requests : List Request} {reads : List Bytes}
    (hcut : reads.flatten = bytes requests) :
    dispatches reads = (reads.mapM dispatch).map List.flatten ∧
      (∀ before read after sent q later, reads = before ++ read :: after →
        requests = sent ++ q :: later → before.flatten = bytes sent →
          (q.text <+: read ∧ dispatch read = dispatch q.text) ∨
            (read <+: q.text ∧ read ≠ q.text ∧
              ∀ ds, dispatch read = some ds → ∀ d ∈ ds, d.data = none)) ∧
      ∀ runs : List (Request × List Request),
        reads = runs.map (fun run => bytes (run.1 :: run.2)) →
        requests = runs.flatMap (fun run => run.1 :: run.2) →
          dispatches reads = dispatches (runs.map fun run => run.1.text) ∧
            ((∀ q ∈ requests, ∃ d, dispatch q.text = some [d]) →
              (dispatches reads = dispatches (requests.map Request.text) ↔
                ∀ run ∈ runs, run.2 = [])) := by
  refine ⟨by rw [dispatches, onReads_eq_mapM], ?_, ?_⟩
  · rintro before read after sent q later rfl rfl hbefore
    have hrest : read ++ after.flatten = q.text ++ bytes later := by
      simpa [bytes, hbefore] using hcut
    exact dispatch_of_boundary hrest
  · rintro runs rfl rfl
    refine ⟨dispatches_of_runs runs, fun h => dispatches_of_runs_iff fun run hrun q hq => ?_⟩
    exact h q (List.mem_flatMap.2 ⟨run, hrun, hq⟩)

/-! ## A listing asked for twice -/

/-- A request for the listing of all files. -/
def listingRequest : Request where
  text := ascii "\x7b\"msgType\":108\x7d"
  root := .object [(ascii "msgType", .int 108)]
  accepted _ := rfl
  rejected front hfront hne := by
    have hrejected : ∀ front ∈ (ascii "\x7b\"msgType\":108\x7d").inits,
        front = ascii "\x7b\"msgType\":108\x7d" ∨
          (Reader.parse front).map (fun p => p.1) = some false := by
      decide +kernel
    rcases hrejected front (List.mem_inits _ _ |>.2 hfront) with h | h
    · exact absurd h hne
    · obtain ⟨⟨_, left⟩, hleft, rfl⟩ := Option.map_eq_some_iff.1 h
      exact ⟨left, hleft⟩

/-- Two requests that arrive in one read are answered once. -/
theorem not_dispatches_of_cut :
    ¬ ∀ (requests : List Request) (reads : List Bytes), (∀ read ∈ reads, read ≠ []) →
      reads.flatten = bytes requests →
        dispatches reads = dispatches (requests.map Request.text) := by
  intro h
  have hsame := h [listingRequest, listingRequest] [listingRequest.text ++ listingRequest.text]
    (by decide) (by decide)
  have hlength := congrArg (Option.map List.length) hsame
  revert hlength
  decide +kernel

theorem dispatches_of_two_requests :
    dispatches [listingRequest.text ++ listingRequest.text] = dispatches [listingRequest.text] := by
  have hcut : [listingRequest.text ++ listingRequest.text].flatten =
      bytes [listingRequest, listingRequest] := by decide
  exact ((dispatches_of_reads hcut).2.2 [(listingRequest, [listingRequest])] (by decide) rfl).1

end ClientSession

end GraduationServer
