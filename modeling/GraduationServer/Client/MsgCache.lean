import GraduationServer.Foundations.Bytes
import GraduationServer.Foundations.Mailboxes

/-!
# Cached messages

`MsgCacheManager` (`MsgCacheManager.cpp`) keeps messages for users in two lists, one for notifications
and one for chats. Every call locks the mutex of its list, so the calls of all threads come one after
the other.

* `addMsgCache` puts a message behind the others of its kind.
* `getMsgCache` goes through a list, moves the messages of a user behind those that the caller already
  has, and erases them (`getLoop_eq`).

Each of the two lists is a list of mailboxes (`run_list`), so every message is delivered once and in
order (`delivered_exactly_once`).
-/

namespace GraduationServer

/-- `NotifyMsgCache` and `ChatMsgCache`, which name the message differently. -/
structure MsgCache where
  userid : Int32
  msg : Bytes
  deriving DecidableEq

/-- The kinds of messages. -/
inductive MsgKind
  | notify
  | chat
  deriving DecidableEq

/-- `MsgCacheManager`. -/
structure MsgCacheManager where
  listNotifyMsgCache : List MsgCache := []
  listChatMsgCache : List MsgCache := []
  deriving DecidableEq

namespace MsgCacheManager

/-- The list of a kind. -/
def list (m : MsgCacheManager) : MsgKind → List MsgCache
  | .notify => m.listNotifyMsgCache
  | .chat => m.listChatMsgCache

/-- The manager with another list of a kind. -/
def setList (m : MsgCacheManager) (l : List MsgCache) : MsgKind → MsgCacheManager
  | .notify => { m with listNotifyMsgCache := l }
  | .chat => { m with listChatMsgCache := l }

/-- A message for a user is put at the end of a list. -/
def addMsgCache (m : MsgCacheManager) (kind : MsgKind) (userid : Int32) (cache : Bytes) :
    MsgCacheManager :=
  m.setList (m.list kind ++ [⟨userid, cache⟩]) kind

/-- The loop that moves the messages of a user to the end of the caller's list: the messages that stay,
and the caller's list. -/
def getLoop (userid : Int32) : List MsgCache → List MsgCache → List MsgCache × List MsgCache
  | cache, [] => ([], cache)
  | cache, c :: l =>
    if c.userid = userid then getLoop userid (cache ++ [c]) l
    else
      let (l, cache) := getLoop userid cache l
      (c :: l, cache)

/-- The messages of a user are taken from a list: the manager, and the caller's list. -/
def getMsgCache (m : MsgCacheManager) (kind : MsgKind) (userid : Int32) (cache : List MsgCache) :
    MsgCacheManager × List MsgCache :=
  let (l, cache) := getLoop userid cache (m.list kind)
  (m.setList l kind, cache)

def addNotifyMsgCache (m : MsgCacheManager) (userid : Int32) (cache : Bytes) :
    Bool × MsgCacheManager :=
  (true, m.addMsgCache .notify userid cache)

def getNotifyMsgCache (m : MsgCacheManager) (userid : Int32) (cache : List MsgCache) :
    MsgCacheManager × List MsgCache :=
  m.getMsgCache .notify userid cache

def addChatMsgCache (m : MsgCacheManager) (userid : Int32) (cache : Bytes) :
    Bool × MsgCacheManager :=
  (true, m.addMsgCache .chat userid cache)

def getChatMagCache (m : MsgCacheManager) (userid : Int32) (cache : List MsgCache) :
    MsgCacheManager × List MsgCache :=
  m.getMsgCache .chat userid cache

/-! ## Calls -/

/-- A call of one of the four functions. -/
inductive Call
  | addNotifyMsgCache (userid : Int32) (cache : Bytes)
  | getNotifyMsgCache (userid : Int32) (cache : List MsgCache)
  | addChatMsgCache (userid : Int32) (cache : Bytes)
  | getChatMagCache (userid : Int32) (cache : List MsgCache)

/-- The manager after a call, and the caller's list, which is empty when the call has none. -/
def perform (m : MsgCacheManager) : Call → MsgCacheManager × List MsgCache
  | .addNotifyMsgCache userid cache => ((m.addNotifyMsgCache userid cache).2, [])
  | .getNotifyMsgCache userid cache => m.getNotifyMsgCache userid cache
  | .addChatMsgCache userid cache => ((m.addChatMsgCache userid cache).2, [])
  | .getChatMagCache userid cache => m.getChatMagCache userid cache

/-- The manager after some calls, and each call with the caller's list afterwards. -/
def run (m : MsgCacheManager) : List Call → MsgCacheManager × List (Call × List MsgCache)
  | [] => (m, [])
  | call :: calls =>
    let (m, cache) := m.perform call
    let (m, rest) := run m calls
    (m, (call, cache) :: rest)

/-- The messages of a kind that a call adds for a user. -/
def addedBy (kind : MsgKind) (userid : Int32) : Call → List MsgCache
  | .addNotifyMsgCache u cache => if kind = .notify ∧ u = userid then [⟨u, cache⟩] else []
  | .addChatMsgCache u cache => if kind = .chat ∧ u = userid then [⟨u, cache⟩] else []
  | _ => []

/-- The messages of a kind that a call gives to a user: what stands in the list that it returns behind
the messages that the caller had. -/
def deliveredBy (kind : MsgKind) (userid : Int32) : Call × List MsgCache → List MsgCache
  | (.getNotifyMsgCache u cache, l) => if kind = .notify ∧ u = userid then l.drop cache.length else []
  | (.getChatMagCache u cache, l) => if kind = .chat ∧ u = userid then l.drop cache.length else []
  | _ => []

/-- The messages of a kind that wait for a user. -/
def cached (m : MsgCacheManager) (kind : MsgKind) (userid : Int32) : List MsgCache :=
  (m.list kind).filter fun c => c.userid = userid

/-! ## The two lists -/

open Mailboxes

variable {m : MsgCacheManager} {kind : MsgKind} {userid : Int32}

theorem list_setList (m : MsgCacheManager) (l : List MsgCache) (kind kind' : MsgKind) :
    (m.setList l kind).list kind' = if kind' = kind then l else m.list kind' := by
  cases kind <;> cases kind' <;> rfl

/-- **The loop** takes the messages of a user in the order of the list. -/
theorem getLoop_eq (userid : Int32) (cache l : List MsgCache) :
    getLoop userid cache l =
      (others MsgCache.userid userid l, cache ++ waiting MsgCache.userid userid l) := by
  induction l generalizing cache with
  | nil => simp [getLoop, others, waiting]
  | cons c l ih =>
    by_cases hc : c.userid = userid
    · rw [getLoop, if_pos hc, ih]
      simp [others, waiting, hc]
    · rw [getLoop, if_neg hc, ih]
      simp [others, waiting, hc]

/-- What a call does to the list of a kind. -/
def event (kind : MsgKind) : Call → Option (Event Int32 MsgCache)
  | .addNotifyMsgCache userid cache => if kind = .notify then some (.put ⟨userid, cache⟩) else none
  | .getNotifyMsgCache userid _ => if kind = .notify then some (.take userid) else none
  | .addChatMsgCache userid cache => if kind = .chat then some (.put ⟨userid, cache⟩) else none
  | .getChatMagCache userid _ => if kind = .chat then some (.take userid) else none

/-- A call is an event for the list of its kind, and leaves the other list alone. -/
theorem list_perform (m : MsgCacheManager) (call : Call) (kind : MsgKind) :
    (m.perform call).1.list kind = match event kind call with
      | some e => step MsgCache.userid (m.list kind) e
      | none => m.list kind := by
  cases call <;> cases kind <;>
    simp [perform, addNotifyMsgCache, getNotifyMsgCache, addChatMsgCache, getChatMagCache,
      addMsgCache, getMsgCache, list_setList, getLoop_eq, event, step]

/-- The lists are lists of mailboxes. -/
theorem list_run (m : MsgCacheManager) (calls : List Call) (kind : MsgKind) :
    (m.run calls).1.list kind =
      Mailboxes.run MsgCache.userid (m.list kind) (calls.filterMap (event kind)) := by
  induction calls generalizing m with
  | nil => rfl
  | cons call calls ih =>
    have hlist := list_perform m call kind
    rw [run, ih]
    cases hevent : event kind call with
    | none =>
      rw [hevent] at hlist
      rw [List.filterMap_cons_none hevent, hlist]
    | some e =>
      rw [hevent] at hlist
      rw [List.filterMap_cons_some hevent, hlist, Mailboxes.run, Mailboxes.run, List.foldl_cons]

/-- What a list gives to a user stands behind what the caller has. -/
theorem getMsgCache_snd (m : MsgCacheManager) (kind : MsgKind) (userid : Int32) (cache : List MsgCache) :
    (m.getMsgCache kind userid cache).2 =
      cache ++ waiting MsgCache.userid userid (m.list kind) := by
  rw [getMsgCache, getLoop_eq]

/-- What a call returns is what the mailbox gives. -/
theorem deliveredBy_perform (m : MsgCacheManager) (call : Call) (kind : MsgKind) (userid : Int32) :
    deliveredBy kind userid (call, (m.perform call).2) = match event kind call with
      | some (.take u) => if u = userid then waiting MsgCache.userid userid (m.list kind) else []
      | _ => [] := by
  -- a call that asks for the messages of another user gives nothing to this one
  have hgiven : ∀ kind u cache, (if u = userid then
      (m.getMsgCache kind u cache).2.drop cache.length else []) =
        if u = userid then waiting MsgCache.userid userid (m.list kind) else [] := by
    intro kind u cache
    by_cases hu : u = userid
    · rw [if_pos hu, if_pos hu, getMsgCache_snd, List.drop_left, hu]
    · rw [if_neg hu, if_neg hu]
  cases call with
  | addNotifyMsgCache u cache => cases kind <;> rfl
  | addChatMsgCache u cache => cases kind <;> rfl
  | getNotifyMsgCache u cache =>
    cases kind with
    | chat => rfl
    | notify =>
      simp only [deliveredBy, event, true_and, if_true]
      exact hgiven .notify u cache
  | getChatMagCache u cache =>
    cases kind with
    | notify => rfl
    | chat =>
      simp only [deliveredBy, event, true_and, if_true]
      exact hgiven .chat u cache

theorem delivered_run (m : MsgCacheManager) (calls : List Call) (kind : MsgKind) (userid : Int32) :
    (m.run calls).2.flatMap (deliveredBy kind userid) =
      given MsgCache.userid userid (m.list kind) (calls.filterMap (event kind)) := by
  induction calls generalizing m with
  | nil => rfl
  | cons call calls ih =>
    have hlist := list_perform m call kind
    rw [run, List.flatMap_cons, deliveredBy_perform, ih]
    cases hevent : event kind call with
    | none =>
      rw [hevent] at hlist
      rw [List.filterMap_cons_none hevent, hlist]
      rfl
    | some e =>
      rw [hevent] at hlist
      rw [List.filterMap_cons_some hevent, hlist]
      cases e <;> rfl

theorem putFor_event (calls : List Call) (kind : MsgKind) (userid : Int32) :
    putFor MsgCache.userid userid (calls.filterMap (event kind)) =
      calls.flatMap (addedBy kind userid) := by
  induction calls with
  | nil => rfl
  | cons call calls ih =>
    rw [List.flatMap_cons, ← ih, List.filterMap_cons]
    cases call with
    | addNotifyMsgCache u cache =>
      cases kind <;> by_cases hu : u = userid <;> simp [event, addedBy, hu]
    | addChatMsgCache u cache =>
      cases kind <;> by_cases hu : u = userid <;> simp [event, addedBy, hu]
    | getNotifyMsgCache u cache => cases kind <;> rfl
    | getChatMagCache u cache => cases kind <;> rfl

/-- A call gives a user the messages of a kind: it puts them behind those that the caller has, and nothing
else changes in the two lists. -/
def Gives (kind : MsgKind) (m : MsgCacheManager) (userid : Int32) (cache : List MsgCache)
    (r : MsgCacheManager × List MsgCache) : Prop :=
  r.2 = cache ++ m.cached kind userid ∧ r.1.list kind = (m.list kind).filter (fun c => c.userid ≠ userid) ∧
    ∀ kind', kind' ≠ kind → r.1.list kind' = m.list kind'

theorem gives_getMsgCache (kind : MsgKind) (m : MsgCacheManager) (userid : Int32) (cache : List MsgCache) :
    Gives kind m userid cache (m.getMsgCache kind userid cache) := by
  refine ⟨getMsgCache_snd m kind userid cache, ?_, fun kind' hkind => ?_⟩
  · rw [getMsgCache, list_setList, getLoop_eq, if_pos rfl]
    rfl
  · rw [getMsgCache, list_setList, if_neg hkind]

/-- **Messages are delivered once and in order.** In every run of the four functions the messages of a
kind that a user has been given, and behind them those that still wait, are the messages that have been
added for the user in this kind. A call that takes messages puts them behind those the caller has; they
are of the user and of the kind, and nothing else has changed in the two lists. -/
theorem delivered_exactly_once (calls : List Call) (kind : MsgKind) (userid : Int32) :
    (run {} calls).2.flatMap (deliveredBy kind userid) ++ (run {} calls).1.cached kind userid =
        calls.flatMap (addedBy kind userid) ∧
      ∀ (m : MsgCacheManager) (cache : List MsgCache),
        Gives .notify m userid cache (m.getNotifyMsgCache userid cache) ∧
          Gives .chat m userid cache (m.getChatMagCache userid cache) := by
  refine ⟨?_, fun m cache => ⟨gives_getMsgCache .notify m userid cache,
    gives_getMsgCache .chat m userid cache⟩⟩
  have hall := given_append_waiting MsgCache.userid userid
    (({} : MsgCacheManager).list kind) (calls.filterMap (event kind))
  have hempty : ({} : MsgCacheManager).list kind = [] := by cases kind <;> rfl
  rw [← delivered_run, ← list_run, putFor_event, hempty] at hall
  exact hall

end MsgCacheManager

end GraduationServer
