import Switchboard.Messaging.Repository

/-!
# The contents of the session store

`session/managed_message_log.py` and the part of `session/store.py` that runs
under the store lock, before persistence is told. An operation leaves new
contents and says whether it schedules a save.
-/

namespace Switchboard.Messaging

/-- One managed inbound or outbound platform message. -/
structure ManagedMessage where
  messageId : String
  ts : String
  direction : String
  kind : String
deriving DecidableEq, Repr

def makeChatKey (platform chatId : String) : String := platform ++ ":" ++ chatId

/-- Managed messages of each chat in insertion order, with the ids seen. -/
structure ManagedMessageLog where
  items : Dict String (List ManagedMessage)
  ids : Dict String (List String)
  cap : Option ℤ

namespace ManagedMessageLog

def new (cap : Option ℤ) : ManagedMessageLog := ⟨.empty, .empty, cap⟩

def chatItems (log : ManagedMessageLog) (key : String) : List ManagedMessage :=
  (log.items.get? key).getD []

def seen (log : ManagedMessageLog) (key : String) : List String := (log.ids.get? key).getD []

/-- Keep the newest `cap` messages of a chat; without a positive cap keep all. -/
def trim (log : ManagedMessageLog) (key : String) : ManagedMessageLog :=
  match log.cap with
  | none => log
  | some cap =>
    if cap ≤ 0 ∨ (log.chatItems key).length ≤ cap then log
    else
      let retained := (log.chatItems key).drop ((log.chatItems key).length - cap.toNat)
      { log with
        items := log.items.set key retained
        ids := log.ids.set key (retained.map (·.messageId)) }

def append (log : ManagedMessageLog) (key : String) (m : ManagedMessage) :
    ManagedMessageLog × Bool :=
  -- `setdefault` creates an empty set of ids even for a duplicate
  let seen := log.seen key
  if m.messageId ∈ seen then ({ log with ids := log.ids.set key seen }, false)
  else
    ({ log with
        items := log.items.set key (log.chatItems key ++ [m])
        ids := log.ids.set key (seen ++ [m.messageId]) }.trim key, true)

/-- `record`; the clock reading `ts` is an argument. -/
def record (log : ManagedMessageLog) (platform chatId : String) (m : ManagedMessage) :
    Except Fault (ManagedMessageLog × Bool) :=
  if m.direction ∉ ["in", "out"] then
    .error (.valueError "Managed message direction must be 'in' or 'out'")
  else if m.kind = "" then .error (.valueError "Managed message kind cannot be empty")
  else .ok (log.append (makeChatKey platform chatId) m)

def idsForChat (log : ManagedMessageLog) (platform chatId : String) : List String :=
  (log.chatItems (makeChatKey platform chatId)).map (·.messageId)

def removeIds (log : ManagedMessageLog) (platform chatId : String) (messageIds : List String) :
    ManagedMessageLog × Bool :=
  let key := makeChatKey platform chatId
  if messageIds = [] ∨ log.items.contains key = false then (log, false)
  else
    let retained := (log.chatItems key).filter fun m => m.messageId ∉ messageIds
    let kept :=
      if retained ≠ [] then
        { log with
          items := log.items.set key retained
          ids := log.ids.set key (retained.map (·.messageId)) }
      else { log with items := log.items.erase key, ids := log.ids.erase key }
    (kept, retained.length != (log.chatItems key).length)

def clearChat (log : ManagedMessageLog) (platform chatId : String) : ManagedMessageLog :=
  let key := makeChatKey platform chatId
  { log with items := log.items.erase key, ids := log.ids.erase key }

/-! ### Loading -/

/-- Python's `str(value or "")`. -/
def textOrEmpty (j : Json) : String :=
  match j with
  | .null | .bool false | .int 0 | .arr [] | .obj [] => ""
  | .float r => if r = "0.0" ∨ r = "-0.0" then "" else r
  | j => j.toStr

def fromJsonItem (key : String) (log : ManagedMessageLog) (item : Json) : ManagedMessageLog :=
  match item with
  | .obj fields =>
    let item := Json.obj fields
    let messageId := item.getD "message_id"
    let direction := textOrEmpty (item.getD "direction")
    let kind := textOrEmpty (item.getD "kind")
    if messageId.isNull = true ∨ direction ∉ ["in", "out"] ∨ kind = "" then log
    else (log.append key ⟨messageId.toStr, textOrEmpty (item.getD "ts"), direction, kind⟩).1
  | _ => log

/-- Current and legacy message-log entries; anything malformed is skipped. -/
def fromJson (raw : Json) (cap : Option ℤ) : ManagedMessageLog :=
  match raw with
  | .obj chats => chats.foldl (fun log chat =>
      match chat.2 with
      | .arr items => items.foldl (fromJsonItem chat.1) log
      | _ => log) (new cap)
  | _ => new cap

/-! ### Chats are stored only with messages -/

/-- No chat is stored with an empty list of messages. -/
def NonEmpty (log : ManagedMessageLog) : Prop :=
  ∀ key items, log.items.get? key = some items → items ≠ []

variable {log : ManagedMessageLog} {platform chatId key : String} {m : ManagedMessage}

theorem nonEmpty_new (cap : Option ℤ) : (new cap).NonEmpty := by
  intro key items h
  simp [new] at h

theorem NonEmpty.set {items : List ManagedMessage} (h : log.NonEmpty) (hne : items ≠ []) :
    ∀ key' items', (log.items.set key items).get? key' = some items' → items' ≠ [] := by
  intro key' items' hget
  rw [Dict.get?_set] at hget
  split_ifs at hget
  · cases hget
    exact hne
  · exact h key' items' hget

theorem NonEmpty.trim (h : log.NonEmpty) : (log.trim key).NonEmpty := by
  unfold ManagedMessageLog.trim
  split
  · exact h
  · split_ifs with hc
    · exact h
    · refine h.set ?_
      intro hnil
      have hlen := congrArg List.length hnil
      simp only [List.length_drop, List.length_nil] at hlen
      omega

theorem NonEmpty.append (h : log.NonEmpty) : (log.append key m).1.NonEmpty := by
  unfold ManagedMessageLog.append
  dsimp only
  split_ifs
  · exact h
  · exact NonEmpty.trim (h.set (by simp))

theorem NonEmpty.record {r : ManagedMessageLog × Bool} (h : log.NonEmpty)
    (hr : log.record platform chatId m = .ok r) : r.1.NonEmpty := by
  unfold ManagedMessageLog.record at hr
  split_ifs at hr
  cases hr
  exact h.append

theorem NonEmpty.erase (h : log.NonEmpty) :
    ∀ key' items', (log.items.erase key).get? key' = some items' → items' ≠ [] := by
  intro key' items' hget
  rw [Dict.get?_erase] at hget
  split_ifs at hget
  exact h key' items' hget

theorem NonEmpty.removeIds {gone : List String} (h : log.NonEmpty) :
    (log.removeIds platform chatId gone).1.NonEmpty := by
  unfold ManagedMessageLog.removeIds
  dsimp only
  split_ifs with h1 h2
  · exact h
  · exact h.set h2
  · exact h.erase

theorem NonEmpty.clearChat (h : log.NonEmpty) : (log.clearChat platform chatId).NonEmpty :=
  h.erase

theorem NonEmpty.fromJsonItem {item : Json} (h : log.NonEmpty) :
    (fromJsonItem key log item).NonEmpty := by
  unfold ManagedMessageLog.fromJsonItem
  split
  · dsimp only
    split_ifs
    · exact h
    · exact h.append
  · exact h

theorem nonEmpty_fromJson (raw : Json) (cap : Option ℤ) : (fromJson raw cap).NonEmpty := by
  unfold fromJson
  split
  · next chats =>
    refine List.foldlRecOn chats _ (nonEmpty_new cap) fun log hlog chat _ => ?_
    split
    · next items _ => exact List.foldlRecOn items _ hlog fun _ h _ _ => h.fromJsonItem
    · exact hlog
  · exact nonEmpty_new cap

/-- A message that was not recorded leaves the stored messages as they were. -/
theorem append_unchanged (h : (log.append key m).2 = false) :
    (log.append key m).1.items = log.items := by
  unfold append at h ⊢
  dsimp only at h ⊢
  split_ifs at h ⊢
  rfl

/-- A removal that removed nothing leaves the stored messages as they were. -/
theorem removeIds_unchanged {gone : List String} (hlog : log.NonEmpty)
    (h : (log.removeIds platform chatId gone).2 = false) :
    (log.removeIds platform chatId gone).1.items = log.items := by
  unfold removeIds at h ⊢
  dsimp only at h ⊢
  split_ifs at h ⊢ with h1 h2
  · rfl
  all_goals
    have hall : (log.chatItems (makeChatKey platform chatId)).filter
        (fun m => m.messageId ∉ gone) = log.chatItems (makeChatKey platform chatId) :=
      List.filter_sublist.eq_of_length (by simpa using h)
    obtain ⟨items, hget⟩ : ∃ items, log.items.get? (makeChatKey platform chatId) = some items := by
      rw [← Dict.contains_iff]
      simpa using fun hc => h1 (Or.inr hc)
    have hitems : log.chatItems (makeChatKey platform chatId) = items := by
      simp [chatItems, hget]
    rw [hitems] at hall
  · simp only [hitems, hall]
    exact Dict.set_get? hget
  · refine absurd ?_ (hlog _ _ hget)
    rw [← hall, ← hitems]
    simpa using h2

end ManagedMessageLog

/-- The state that the session file is an encoding of. -/
structure SessionData where
  conversation : ConversationSnapshot
  managedMessages : Dict String (List ManagedMessage)

/-- The fields of `SessionStore` guarded by its lock, without the dirty flag. -/
structure SessionStore where
  conversation : ConversationSnapshot
  managedMessages : ManagedMessageLog

/-- The calls that change the store. -/
inductive StoreOp where
  | saveConversationSnapshot (snapshot : ConversationSnapshot)
  | saveTreeSnapshot (snapshot : TreeSnapshot)
  | removeTreeSnapshot (identity : TreeIdentity)
  | recordMessageId (platform chatId : String) (message : ManagedMessage)
  | forgetTrackedMessageIds (platform chatId : String) (messageIds : List String)
  | clearScope (scope : MessageScope)

/-- What the store does about persistence before it releases its lock. -/
inductive Persist where
  | nothing | scheduleSave | writeCurrentState
deriving DecidableEq, Repr

namespace SessionStore

/-- The contents that `_snapshot_for_persistence` encodes. -/
def snapshotForPersistence (s : SessionStore) : SessionData :=
  ⟨s.conversation, s.managedMessages.items⟩

/-- The contents an operation leaves, and what it asks of persistence. An
operation that raises has changed nothing. -/
def apply (s : SessionStore) : StoreOp → SessionStore × Persist
  | .saveConversationSnapshot snapshot => ({ s with conversation := snapshot }, .scheduleSave)
  | .saveTreeSnapshot snapshot =>
    ({ s with conversation := s.conversation.withTree snapshot }, .scheduleSave)
  | .removeTreeSnapshot identity =>
    ({ s with conversation := s.conversation.withoutTree identity }, .scheduleSave)
  | .recordMessageId platform chatId message =>
    match s.managedMessages.record platform chatId message with
    | .error _ => (s, .nothing)
    | .ok (log, recorded) =>
      ({ s with managedMessages := log }, if recorded then .scheduleSave else .nothing)
  | .forgetTrackedMessageIds platform chatId messageIds =>
    let (log, removed) := s.managedMessages.removeIds platform chatId messageIds
    ({ s with managedMessages := log }, if removed then .scheduleSave else .nothing)
  | .clearScope scope =>
    ({ conversation := s.conversation.withoutScope scope
       managedMessages := s.managedMessages.clearChat scope.platform scope.chatId },
      .writeCurrentState)

/-- `_load` after `TreeSnapshot.from_json` gave `conversation`. -/
def load (conversation : ConversationSnapshot) (rawMessages : Json) (cap : Option ℤ) :
    SessionStore :=
  ⟨conversation, .fromJson rawMessages cap⟩

variable {s : SessionStore} {op : StoreOp}

theorem nonEmpty_apply (op : StoreOp) (h : s.managedMessages.NonEmpty) :
    (s.apply op).1.managedMessages.NonEmpty := by
  cases op with
  | recordMessageId platform chatId message =>
    simp only [apply]
    split
    · exact h
    · next log recorded hr => exact h.record hr
  | forgetTrackedMessageIds platform chatId messageIds => exact h.removeIds
  | clearScope scope => exact h.clearChat
  | _ => exact h

/-- An operation that schedules nothing leaves the encoded contents as they were. -/
theorem apply_nothing (h : s.managedMessages.NonEmpty) (hop : (s.apply op).2 = .nothing) :
    (s.apply op).1.snapshotForPersistence = s.snapshotForPersistence := by
  cases op with
  | recordMessageId platform chatId message =>
    simp only [apply] at hop ⊢
    split at hop
    · rfl
    · next log recorded hr =>
      unfold ManagedMessageLog.record at hr
      split_ifs at hr
      simp only [Except.ok.injEq, Prod.ext_iff] at hr
      obtain ⟨rfl, rfl⟩ := hr
      split_ifs at hop with hrec
      have := ManagedMessageLog.append_unchanged (by simpa using hrec)
      simp only [snapshotForPersistence, this]
  | forgetTrackedMessageIds platform chatId messageIds =>
    simp only [apply] at hop ⊢
    split_ifs at hop with hrem
    have := ManagedMessageLog.removeIds_unchanged h (by simpa using hrem)
    simp only [snapshotForPersistence, this]
  | _ => cases hop

/-- After a clear no tree of the chat and no managed message of it is left. -/
theorem clearScope_empty (scope : MessageScope) :
    let data := (s.apply (.clearScope scope)).1.snapshotForPersistence
    (∀ identity tree, data.conversation.getTree identity = some tree → identity.scope ≠ scope) ∧
      data.managedMessages.get? (makeChatKey scope.platform scope.chatId) = none := by
  constructor
  · intro identity tree h
    simp only [apply, snapshotForPersistence, ConversationSnapshot.getTree,
      ConversationSnapshot.withoutScope, Dict.get?_filter] at h
    simp only [Option.filter_eq_some_iff] at h
    simpa using h.2
  · simp [apply, snapshotForPersistence, ManagedMessageLog.clearChat]

end SessionStore

end Switchboard.Messaging
