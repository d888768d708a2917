import IMail.Store.RuleActions
import IMail.Transition.Feed
import IMail.Transition.Run

/-!
# The event streams

`sync_control.rs` streams the events of a user's accounts to the browser, `gateway.rs` the created
messages to the holders of tokens. Both go over `sync_events` by id, a hundred rows at a time, and
pass over the rows of others. A browser that comes back names the last id it received.
-/

namespace IMail

open Relational Transition Text Feed

def SyncEventPayload.eventType : SyncEventPayload → String
  | .started .. => "sync.started"
  | .completed .. => "sync.completed"
  | .failed .. => "sync.failed"
  | .messageCreated .. => "message.created"

/-- `SyncRuntimeStore::events` -/
def Db.events (db : Db) (afterId limit : ℕ) : List SyncEvent :=
  pageAfter SyncEvent.id afterId (min (max limit 1) 500) db.syncEvents

/-- `latest_event_id` -/
def Db.latestEventId (db : Db) : ℕ := (db.syncEvents.map (·.id)).foldl max 0

/-- The rows of `sync_events` have the ids that `AUTOINCREMENT` gave them. -/
structure Db.EventsNumbered (db : Db) : Prop where
  ascending : Ascending SyncEvent.id db.syncEvents
  bound : ∀ e ∈ db.syncEvents, e.id ≤ db.syncEventSequence

structure SseFrame where
  id : ℕ
  event : String
  data : SyncEvent
  deriving DecidableEq, Repr

def SyncEvent.frame (event : SyncEvent) : SseFrame := ⟨event.id, event.payload.eventType, event⟩

/-- `event_frames`: the new cursor, the frames, and whether there are any. -/
def eventFrames (db : Db) (cursor : ℕ) (accountIds : List String) : ℕ × List SseFrame × Bool :=
  (db.events cursor 100).foldl
    (fun (_, frames, changed) event =>
      if event.accountId ∉ accountIds then (event.id, frames, changed)
      else (event.id, frames ++ [event.frame], true))
    (cursor, [], false)

/-- The cursor that a request names, in its `Last-Event-ID` or else in its query. -/
def requestedCursor (lastEventId after : Option String) : Option ℕ :=
  (lastEventId.or after).map fun value => ((parseI64 value).getD 0).toNat

def startCursor (db : Db) (lastEventId after : Option String) : ℕ :=
  (requestedCursor lastEventId after).getD db.latestEventId

structure GatewayFrame where
  id : String
  type : String
  occurredAt : Time
  data : SyncEventPayload
  deriving DecidableEq, Repr

def SyncEvent.gatewayFrame (event : SyncEvent) : GatewayFrame :=
  ⟨toString event.id, "message.created", event.createdAt, event.payload⟩

/-- The loop over a batch in `websocket_session`, with the accounts of the token. -/
def gatewayFrames (db : Db) (cursor : ℕ) (accountIds : List String) : ℕ × List GatewayFrame :=
  (db.events cursor 100).foldl
    (fun (_, frames) event =>
      if event.payload.eventType ≠ "message.created" ∨ event.accountId ∉ accountIds then
        (event.id, frames)
      else (event.id, frames ++ [event.gatewayFrame]))
    (cursor, [])

def sseEmit (accountIds : List String) (event : SyncEvent) : Option SseFrame :=
  if event.accountId ∈ accountIds then some event.frame else none

def gatewayEmit (accountIds : List String) (event : SyncEvent) : Option GatewayFrame :=
  if event.payload.eventType = "message.created" ∧ event.accountId ∈ accountIds then
    some event.gatewayFrame
  else none

theorem sseEmit_id {accountIds : List String} {event : SyncEvent} {frame : SseFrame}
    (h : sseEmit accountIds event = some frame) : frame.id = event.id := by
  unfold sseEmit at h
  split_ifs at h
  obtain rfl := Option.some.inj h
  rfl

theorem foldl_cursor {β σ : Type} (emit : SyncEvent → Option β) (f : σ → SyncEvent → σ)
    (view : σ → ℕ × List β)
    (hf : ∀ s e, view (f s e) = (e.id, (view s).2 ++ (emit e).toList)) (events : List SyncEvent)
    (s : σ) :
    view (events.foldl f s) =
      (lastKey SyncEvent.id (view s).1 events, (view s).2 ++ events.filterMap emit) := by
  induction events using List.reverseRecOn with
  | nil => simp
  | append_singleton events e ih =>
    rw [List.foldl_append, List.foldl_cons, List.foldl_nil, hf, ih, lastKey_append,
      List.filterMap_append, List.append_assoc]
    cases hemit : emit e with
    | none => simp [hemit]
    | some b => simp [hemit]

theorem eventFrames_eq (db : Db) (cursor : ℕ) (accountIds : List String) :
    ((eventFrames db cursor accountIds).1, (eventFrames db cursor accountIds).2.1) =
      (lastKey SyncEvent.id cursor (db.events cursor 100),
        (db.events cursor 100).filterMap (sseEmit accountIds)) := by
  refine foldl_cursor (sseEmit accountIds) _ (fun s : ℕ × List SseFrame × Bool => (s.1, s.2.1)) ?_
    (db.events cursor 100) (cursor, [], false)
  intro s e
  unfold sseEmit
  by_cases he : e.accountId ∈ accountIds
  · simp [he]
  · simp [he]

theorem gatewayFrames_eq (db : Db) (cursor : ℕ) (accountIds : List String) :
    gatewayFrames db cursor accountIds =
      (lastKey SyncEvent.id cursor (db.events cursor 100),
        (db.events cursor 100).filterMap (gatewayEmit accountIds)) := by
  refine foldl_cursor (gatewayEmit accountIds) _ id ?_ (db.events cursor 100) (cursor, [])
  intro s e
  unfold gatewayEmit
  by_cases htype : e.payload.eventType = "message.created"
  · by_cases he : e.accountId ∈ accountIds
    · simp [htype, he]
    · simp [he]
  · simp [htype]

/-- A browser and a holder of a token on one database, with the events that were ever there since
they connected and those that were pruned. -/
structure EventWorld where
  db : Db
  accountIds : List String
  tokenAccountIds : List String
  start : ℕ
  gatewayStart : ℕ
  inserted : List SyncEvent
  pruned : List SyncEvent
  sse : Reader SyncEvent SseFrame
  gateway : Reader SyncEvent GatewayFrame
  gatewayOpen : Bool

inductive EventOp
  /-- `insert_event` -/
  | insert (job : SyncJob) (payload : SyncEventPayload) (now : Time)
  | created (accountId accountEmail : String) (messages : List Message) (now : Time)
  | prune (before : Time)
  /-- Any write that is not to `sync_events`. -/
  | other (db : Db)
  | sseTick
  | sseReceive (n : ℕ)
  | sseReconnect
  | gatewayTick (authenticated : Bool)
  | gatewayReceive (n : ℕ)

namespace EventWorld

variable (w : EventWorld)

def journal : Journal SyncEvent := ⟨w.db.syncEventSequence, w.db.syncEvents, w.inserted, w.pruned⟩

def append (result : Except SyncRuntimeError Db) : EventWorld :=
  match result with
  | .ok db => { w with db, inserted := w.inserted ++ db.syncEvents.drop w.db.syncEvents.length }
  | .error _ => w

def sseTick : EventWorld :=
  let (cursor, frames, _) := eventFrames w.db w.sse.cursor w.accountIds
  { w with sse := w.sse.advance SyncEvent.id cursor frames w.pruned }

/-- The token is looked up at each tick, and the connection ends where it is not accepted. -/
def gatewayTick (authenticated : Bool) : EventWorld :=
  if authenticated && w.gatewayOpen then
    let (cursor, frames) := gatewayFrames w.db w.gateway.cursor w.tokenAccountIds
    { w with gateway := w.gateway.advance SyncEvent.id cursor frames w.pruned }
  else { w with gatewayOpen := false }

def lastReceived : ℕ := lastKey SseFrame.id w.start w.sse.received

/-- A new connection that names the last id; `events` makes the first frames at once. -/
def sseReconnect : EventWorld :=
  let cursor := startCursor w.db (some (toString w.lastReceived)) none
  ({ w with sse := w.sse.restart SyncEvent.id cursor } : EventWorld).sseTick

def step : EventOp → EventWorld
  | .insert job payload now => w.append (w.db.insertEvent job payload now)
  | .created accountId accountEmail messages now =>
    w.append (recordMessageCreated accountId accountEmail now messages w.db)
  | .prune before =>
    { w with
      db := pruneEvents w.db before
      pruned := w.pruned ++ w.db.syncEvents.filter fun e => e.createdAt < before }
  | .other db =>
    if db.syncEvents = w.db.syncEvents ∧ db.syncEventSequence = w.db.syncEventSequence then
      { w with db }
    else w
  | .sseTick => w.sseTick
  | .sseReceive n => { w with sse := w.sse.receive n }
  | .sseReconnect => w.sseReconnect
  | .gatewayTick authenticated => w.gatewayTick authenticated
  | .gatewayReceive n => { w with gateway := w.gateway.receive n }

end EventWorld

/-- Both connect: the browser with the cursor that it names, the gateway behind the last event. -/
def connectEvents (db : Db) (accountIds tokenAccountIds : List String)
    (lastEventId after : Option String) : EventWorld :=
  ({ db, accountIds, tokenAccountIds
     start := startCursor db lastEventId after
     gatewayStart := db.latestEventId
     inserted := db.syncEvents
     pruned := []
     sse := { cursor := startCursor db lastEventId after }
     gateway := { cursor := db.latestEventId }
     gatewayOpen := true } : EventWorld).sseTick

def Db.Appends (db db' : Db) : Prop :=
  ∃ new, db'.syncEvents = db.syncEvents ++ new ∧ Numbered SyncEvent.id db.syncEventSequence new ∧
    db'.syncEventSequence = db.syncEventSequence + new.length

theorem insertEvent_appends {db db' : Db} {job : SyncJob} {payload : SyncEventPayload} {now : Time}
    (h : db.insertEvent job payload now = .ok db') : db.Appends db' := by
  unfold Db.insertEvent at h
  split_ifs at h
  cases h
  exact ⟨_, rfl, ⟨rfl, trivial⟩, rfl⟩

theorem recordMessageCreated_appends {accountId accountEmail : String} {now : Time}
    {messages : List Message} {db db' : Db}
    (h : recordMessageCreated accountId accountEmail now messages db = .ok db') :
    db.Appends db' := by
  induction messages generalizing db with
  | nil =>
    cases h
    exact ⟨[], (List.append_nil _).symm, trivial, rfl⟩
  | cons message messages ih =>
    rw [recordMessageCreated] at h
    split_ifs at h
    · exact ih h
    · obtain ⟨new, hevents, hids, hsequence⟩ := ih h
      refine ⟨_, hevents.trans (List.append_assoc _ _ _), ⟨rfl, hids⟩, ?_⟩
      rw [hsequence, List.singleton_append, List.length_cons]
      show db.syncEventSequence + 1 + new.length = _
      omega

/-- Both have emitted what is theirs up to where they are. -/
structure EventWorld.Delivers (w : EventWorld) : Prop where
  journal : w.journal.Valid SyncEvent.id
  sse : w.sse.Exact SyncEvent.id (sseEmit w.accountIds) w.journal w.start
  gateway : w.gateway.Exact SyncEvent.id (gatewayEmit w.tokenAccountIds) w.journal w.gatewayStart

namespace EventWorld.Delivers

variable {w : EventWorld} (h : w.Delivers)

include h

theorem append {result : Except SyncRuntimeError Db}
    (hresult : ∀ db, result = .ok db → w.db.Appends db) : (w.append result).Delivers := by
  cases result with
  | error e => exact h
  | ok db =>
    obtain ⟨new, hevents, hids, hsequence⟩ := hresult db rfl
    have hjournal : (w.append (.ok db)).journal = w.journal.insertAll new := by
      rw [Journal.insertAll_eq]
      simp only [EventWorld.append, EventWorld.journal, hevents, hsequence, List.drop_left]
    constructor
    · rw [hjournal]
      exact h.journal.insertAll hids
    · rw [hjournal]
      exact h.sse.insertAll hids
    · rw [hjournal]
      exact h.gateway.insertAll hids

theorem prune (before : Time) : (w.step (.prune before)).Delivers :=
  ⟨h.journal.prune _, h.sse.prune _, h.gateway.prune _⟩

theorem other (db : Db) : (w.step (.other db)).Delivers := by
  rw [EventWorld.step]
  split_ifs with hsame
  · have hjournal : ({ w with db } : EventWorld).journal = w.journal := by
      simp only [EventWorld.journal, hsame.1, hsame.2]
    constructor
    · rw [hjournal]
      exact h.journal
    · rw [hjournal]
      exact h.sse
    · rw [hjournal]
      exact h.gateway
  · exact h

theorem sseTick : w.sseTick.Delivers := by
  have hframes := eventFrames_eq w.db w.sse.cursor w.accountIds
  obtain ⟨hcursor, hemitted⟩ := Prod.mk.inj hframes
  refine ⟨h.journal, ?_, h.gateway⟩
  have hnext := h.sse.advance h.journal (show 0 < 100 by decide)
  simp only [EventWorld.sseTick, hcursor, hemitted]
  exact hnext

theorem gatewayTick (authenticated : Bool) : (w.gatewayTick authenticated).Delivers := by
  unfold EventWorld.gatewayTick
  split_ifs
  · refine ⟨h.journal, h.sse, ?_⟩
    simp only [gatewayFrames_eq]
    exact h.gateway.advance h.journal (by decide)
  · exact ⟨h.journal, h.sse, h.gateway⟩

theorem lastReceived_le : w.lastReceived ≤ w.db.syncEventSequence :=
  (h.sse.restart h.journal fun _ _ => sseEmit_id).cursor_le

theorem startCursor_lastReceived (hfits : w.db.syncEventSequence < 2 ^ 63) :
    startCursor w.db (some (toString w.lastReceived)) none = w.lastReceived := by
  have hsmall : w.lastReceived < 2 ^ 63 := h.lastReceived_le.trans_lt hfits
  show ((parseI64 (toString w.lastReceived)).getD 0).toNat = w.lastReceived
  rw [parseI64_toString hsmall]
  rfl

theorem sseReconnect (hfits : w.db.syncEventSequence < 2 ^ 63) : w.sseReconnect.Delivers := by
  unfold EventWorld.sseReconnect
  rw [h.startCursor_lastReceived hfits]
  apply sseTick
  exact ⟨h.journal, h.sse.restart h.journal fun _ _ => sseEmit_id, h.gateway⟩

theorem step (op : EventOp) (hfits : w.db.syncEventSequence < 2 ^ 63) : (w.step op).Delivers := by
  cases op with
  | insert job payload now => exact h.append fun _ => insertEvent_appends
  | created accountId accountEmail messages now =>
    exact h.append fun _ => recordMessageCreated_appends
  | prune before => exact h.prune before
  | other db => exact h.other db
  | sseTick => exact h.sseTick
  | sseReceive n => exact ⟨h.journal, h.sse.receive n, h.gateway⟩
  | sseReconnect => exact h.sseReconnect hfits
  | gatewayTick authenticated => exact h.gatewayTick authenticated
  | gatewayReceive n => exact ⟨h.journal, h.sse, h.gateway.receive n⟩

end EventWorld.Delivers

namespace EventWorld

section

variable (w : EventWorld)

theorem step_fixed (op : EventOp) :
    (w.step op).accountIds = w.accountIds ∧ (w.step op).tokenAccountIds = w.tokenAccountIds ∧
      (w.step op).start = w.start ∧ (w.step op).gatewayStart = w.gatewayStart := by
  cases op with
  | insert job payload now =>
    rw [step]
    cases w.db.insertEvent job payload now <;> exact ⟨rfl, rfl, rfl, rfl⟩
  | created accountId accountEmail messages now =>
    rw [step]
    cases recordMessageCreated accountId accountEmail now messages w.db <;>
      exact ⟨rfl, rfl, rfl, rfl⟩
  | other db =>
    rw [step]
    split_ifs <;> exact ⟨rfl, rfl, rfl, rfl⟩
  | gatewayTick authenticated =>
    rw [step, gatewayTick]
    split_ifs <;> exact ⟨rfl, rfl, rfl, rfl⟩
  | _ => exact ⟨rfl, rfl, rfl, rfl⟩

theorem append_sequence_le {result : Except SyncRuntimeError Db}
    (hresult : ∀ db, result = .ok db → w.db.Appends db) :
    w.db.syncEventSequence ≤ (w.append result).db.syncEventSequence := by
  cases result with
  | error e => exact le_rfl
  | ok db =>
    obtain ⟨new, _, _, hsequence⟩ := hresult db rfl
    exact (Nat.le_add_right _ _).trans hsequence.ge

theorem step_sequence_le (op : EventOp) :
    w.db.syncEventSequence ≤ (w.step op).db.syncEventSequence := by
  cases op with
  | insert job payload now => exact w.append_sequence_le fun _ => insertEvent_appends
  | created accountId accountEmail messages now =>
    exact w.append_sequence_le fun _ => recordMessageCreated_appends
  | other db =>
    rw [step]
    split_ifs with hsame
    · exact hsame.2.ge
    · exact le_rfl
  | gatewayTick authenticated =>
    rw [step, gatewayTick]
    split_ifs <;> exact le_rfl
  | _ => exact le_rfl

theorem exec_sequence_le (ops : List EventOp) :
    w.db.syncEventSequence ≤ (exec step w ops).db.syncEventSequence := by
  induction ops generalizing w with
  | nil => exact le_rfl
  | cons op ops ih => exact (w.step_sequence_le op).trans (ih _)

theorem exec_fixed (ops : List EventOp) : (exec step w ops).accountIds = w.accountIds ∧
      (exec step w ops).tokenAccountIds = w.tokenAccountIds ∧
      (exec step w ops).start = w.start ∧ (exec step w ops).gatewayStart = w.gatewayStart := by
  induction ops generalizing w with
  | nil => exact ⟨rfl, rfl, rfl, rfl⟩
  | cons op ops ih =>
    obtain ⟨haccounts, htoken, hstart, hgateway⟩ := w.step_fixed op
    obtain ⟨haccounts', htoken', hstart', hgateway'⟩ := ih (w.step op)
    exact ⟨haccounts'.trans haccounts, htoken'.trans htoken, hstart'.trans hstart,
      hgateway'.trans hgateway⟩

end

theorem Delivers.run {w : EventWorld} (h : w.Delivers) (ops : List EventOp)
    (hfits : (exec EventWorld.step w ops).db.syncEventSequence < 2 ^ 63) :
    (exec EventWorld.step w ops).Delivers := by
  induction ops generalizing w with
  | nil => exact h
  | cons op ops ih =>
    have hle := w.exec_sequence_le (op :: ops)
    exact ih (h.step op (hle.trans_lt hfits)) hfits

end EventWorld

theorem latestEventId_le {db : Db} (h : db.EventsNumbered) :
    db.latestEventId ≤ db.syncEventSequence := by
  unfold Db.latestEventId
  have hmax : ∀ (ids : List ℕ) (n : ℕ), n ≤ db.syncEventSequence →
      (∀ id ∈ ids, id ≤ db.syncEventSequence) → ids.foldl max n ≤ db.syncEventSequence := by
    intro ids
    induction ids with
    | nil => exact fun n hn _ => hn
    | cons id ids ih =>
      intro n hn hids
      exact ih _ (max_le hn (hids id List.mem_cons_self))
        fun id hid => hids id (List.mem_cons_of_mem _ hid)
  apply hmax _ _ (Nat.zero_le _)
  intro id hid
  obtain ⟨e, he, rfl⟩ := List.mem_map.mp hid
  exact h.bound e he

theorem connectEvents_delivers {db : Db} (h : db.EventsNumbered)
    (accountIds tokenAccountIds : List String) {lastEventId after : Option String}
    (hstart : startCursor db lastEventId after ≤ db.syncEventSequence) :
    (connectEvents db accountIds tokenAccountIds lastEventId after).Delivers := by
  apply EventWorld.Delivers.sseTick
  constructor
  · refine ⟨h.ascending, h.bound, ?_, ?_⟩
    · intro e he
      cases he
    · symm
      apply List.filter_eq_self.mpr
      intro e _
      exact decide_eq_true List.not_mem_nil
  · exact Reader.exact_start hstart
  · exact Reader.exact_start (latestEventId_le h)

namespace EventWorld

variable (w : EventWorld)

theorem exec_sseTick (n : ℕ) :
    (exec step w (List.replicate n .sseTick)).db = w.db ∧
      (exec step w (List.replicate (n + 1) .sseTick)).sse.cursor =
        lastKey SyncEvent.id (exec step w (List.replicate n .sseTick)).sse.cursor
          (pageAfter SyncEvent.id (exec step w (List.replicate n .sseTick)).sse.cursor 100
            w.db.syncEvents) := by
  induction n generalizing w with
  | zero => exact ⟨rfl, (Prod.mk.inj (eventFrames_eq w.db w.sse.cursor w.accountIds)).1⟩
  | succ n ih => exact ih w.sseTick

theorem exec_gatewayTick (hopen : w.gatewayOpen = true) (n : ℕ) :
    (exec step w (List.replicate n (.gatewayTick true))).db = w.db ∧
      (exec step w (List.replicate (n + 1) (.gatewayTick true))).gateway.cursor =
        lastKey SyncEvent.id (exec step w (List.replicate n (.gatewayTick true))).gateway.cursor
          (pageAfter SyncEvent.id
            (exec step w (List.replicate n (.gatewayTick true))).gateway.cursor 100
            w.db.syncEvents) := by
  induction n generalizing w with
  | zero =>
    refine ⟨rfl, ?_⟩
    show (w.gatewayTick true).gateway.cursor = _
    simp only [gatewayTick, hopen, gatewayFrames_eq]
    rfl
  | succ n ih =>
    have htick : (w.gatewayTick true).db = w.db ∧ (w.gatewayTick true).gatewayOpen = true := by
      simp [gatewayTick, hopen]
    have hrest := ih (w.gatewayTick true) htick.2
    rw [htick.1] at hrest
    exact hrest

variable {w}

theorem le_cursor_of_rowsAfter {rows : List SyncEvent} {cursor : ℕ}
    (h : rowsAfter SyncEvent.id cursor rows = []) {e : SyncEvent} (he : e ∈ rows) :
    e.id ≤ cursor := by
  by_contra hlt
  have hmem := mem_rowsAfter.mpr ⟨he, not_le.mp hlt⟩
  rw [h] at hmem
  cases hmem

theorem Delivers.ticks (h : w.Delivers) {op : EventOp} {cursor : EventWorld → ℕ}
    (hstep : ∀ s : EventWorld, s.Delivers → (s.step op).Delivers)
    (htick : ∀ n, (exec EventWorld.step w (List.replicate n op)).db = w.db ∧
      cursor (exec EventWorld.step w (List.replicate (n + 1) op)) =
        lastKey SyncEvent.id (cursor (exec EventWorld.step w (List.replicate n op)))
          (pageAfter SyncEvent.id (cursor (exec EventWorld.step w (List.replicate n op))) 100
            w.db.syncEvents)) {n : ℕ}
    (hn : (rowsAfter SyncEvent.id (cursor w) w.db.syncEvents).length ≤ 100 * n) {e : SyncEvent}
    (he : e ∈ w.db.syncEvents) :
    (exec EventWorld.step w (List.replicate n op)).Delivers ∧
      e ∈ (exec EventWorld.step w (List.replicate n op)).db.syncEvents ∧
      e.id ≤ cursor (exec EventWorld.step w (List.replicate n op)) := by
  have hrows := rowsAfter_of_pages h.journal.rows_ascending (show 0 < 100 by decide)
    (fun n => cursor (exec EventWorld.step w (List.replicate n op))) (fun n => (htick n).2) n
  refine ⟨?_, (htick n).1 ▸ he,
    le_cursor_of_rowsAfter (hrows.trans (List.drop_eq_nil_of_le hn)) he⟩
  apply invariant_along Delivers (P := fun _ o => o = op) _ h
  · apply along_of_forall
    intro o ho
    exact List.eq_of_mem_replicate ho
  · rintro s _ hs rfl
    exact hstep s hs

theorem Delivers.sse_reaches (h : w.Delivers) {n : ℕ}
    (hn : (rowsAfter SyncEvent.id w.sse.cursor w.db.syncEvents).length ≤ 100 * n) {e : SyncEvent}
    (he : e ∈ w.db.syncEvents) (hstart : w.start < e.id) {f : SseFrame}
    (hf : sseEmit w.accountIds e = some f) :
    f ∈ (exec EventWorld.step w (List.replicate n .sseTick)).sse.received ++
      (exec EventWorld.step w (List.replicate n .sseTick)).sse.sent := by
  obtain ⟨hlater, hthere, hpast⟩ := @Delivers.ticks w h .sseTick (fun w => w.sse.cursor)
    (fun _ => Delivers.sseTick) w.exec_sseTick n hn e he
  obtain ⟨haccounts, _, hfixed, _⟩ := w.exec_fixed (List.replicate n .sseTick)
  exact hlater.sse.emitted hlater.journal (r := e) hthere (hfixed ▸ hstart) hpast (haccounts ▸ hf)

theorem Delivers.gateway_reaches (h : w.Delivers) (hopen : w.gatewayOpen = true) {n : ℕ}
    (hn : (rowsAfter SyncEvent.id w.gateway.cursor w.db.syncEvents).length ≤ 100 * n)
    {e : SyncEvent} (he : e ∈ w.db.syncEvents) (hstart : w.gatewayStart < e.id) {f : GatewayFrame}
    (hf : gatewayEmit w.tokenAccountIds e = some f) :
    f ∈ (exec EventWorld.step w (List.replicate n (.gatewayTick true))).gateway.received ++
      (exec EventWorld.step w (List.replicate n (.gatewayTick true))).gateway.sent := by
  obtain ⟨hlater, hthere, hpast⟩ := @Delivers.ticks w h (.gatewayTick true)
    (fun w => w.gateway.cursor) (fun _ hs => hs.gatewayTick true) (w.exec_gatewayTick hopen) n hn e he
  obtain ⟨_, htoken, _, hfixed⟩ := w.exec_fixed (List.replicate n (.gatewayTick true))
  exact hlater.gateway.emitted hlater.journal (r := e) hthere (hfixed ▸ hstart) hpast (htoken ▸ hf)

end EventWorld

/-- In every run the browser has been sent exactly what is its own between its start and its cursor,
in the order of the ids and each once, across reconnections with the last received id; the gateway
likewise the created messages of the token's accounts. Only what was pruned before a tick came to it
is left out. As many ticks as the rest of the table has hundreds bring everything that is there. -/
theorem events_exactly_once {db : Db} (hnumbered : db.EventsNumbered)
    (accountIds tokenAccountIds : List String) {lastEventId after : Option String}
    (hstart : startCursor db lastEventId after ≤ db.syncEventSequence) (ops : List EventOp)
    (hfits : (exec EventWorld.step (connectEvents db accountIds tokenAccountIds lastEventId after)
      ops).db.syncEventSequence < 2 ^ 63) :
    let start := startCursor db lastEventId after
    let w := exec EventWorld.step
      (connectEvents db accountIds tokenAccountIds lastEventId after) ops
    w.journal.Valid SyncEvent.id ∧
      w.sse.Exact SyncEvent.id (sseEmit accountIds) w.journal start ∧
      w.gateway.Exact SyncEvent.id (gatewayEmit tokenAccountIds) w.journal db.latestEventId ∧
      (∀ n, (rowsAfter SyncEvent.id w.sse.cursor w.db.syncEvents).length ≤ 100 * n →
        ∀ e ∈ w.db.syncEvents, start < e.id → ∀ f ∈ sseEmit accountIds e,
          f ∈ (exec EventWorld.step w (List.replicate n .sseTick)).sse.received ++
            (exec EventWorld.step w (List.replicate n .sseTick)).sse.sent) ∧
      (w.gatewayOpen = true → ∀ n,
        (rowsAfter SyncEvent.id w.gateway.cursor w.db.syncEvents).length ≤ 100 * n →
        ∀ e ∈ w.db.syncEvents, db.latestEventId < e.id → ∀ f ∈ gatewayEmit tokenAccountIds e,
          f ∈ (exec EventWorld.step w (List.replicate n (.gatewayTick true))).gateway.received ++
            (exec EventWorld.step w (List.replicate n (.gatewayTick true))).gateway.sent) := by
  intro start w
  have h : w.Delivers :=
    (connectEvents_delivers hnumbered accountIds tokenAccountIds hstart).run ops hfits
  obtain ⟨haccounts, htoken, hbegin, hgateway⟩ := EventWorld.exec_fixed
    (connectEvents db accountIds tokenAccountIds lastEventId after) ops
  have haccounts : w.accountIds = accountIds := haccounts
  have htoken : w.tokenAccountIds = tokenAccountIds := htoken
  have hbegin : w.start = start := hbegin
  have hgateway : w.gatewayStart = db.latestEventId := hgateway
  rw [← haccounts, ← htoken, ← hbegin, ← hgateway]
  refine ⟨h.journal, h.sse, h.gateway, ?_, ?_⟩
  · intro n hn e he hlt f hf
    exact h.sse_reaches hn he hlt hf
  · intro hopen n hn e he hlt f hf
    exact h.gateway_reaches hopen hn he hlt hf

def streamingDb : Db where
  accounts := [{ id := "a", userId := "u", email := "a@example.com", createdAt := 0 },
    { id := "b", userId := "v", email := "b@example.com", createdAt := 0 }]

def arrives (accountId : String) (now : Time) : EventOp :=
  .created accountId (accountId ++ "@example.com")
    [{ id := "m", accountId, mailbox := "INBOX", mailboxRole := "inbox", uid := 1 }] now

def interruptedStream : List EventOp :=
  [arrives "a" 1, arrives "b" 2, arrives "a" 3, .sseTick, .sseReceive 1, .gatewayTick true,
    .sseReconnect, .prune 2, arrives "a" 4, .sseTick, .sseReceive 9]

theorem events_exactly_once_interrupted :
    let w := exec EventWorld.step (connectEvents streamingDb ["a"] ["b"] none none) interruptedStream
    w.sse.received.map (·.id) = [1, 3, 4] ∧ w.gateway.sent.map (·.id) = ["2"] ∧
      w.pruned.map (·.id) = [1] ∧
      w.sse.Exact SyncEvent.id (sseEmit ["a"]) w.journal 0 := by
  refine ⟨by decide +kernel, by decide +kernel, by decide +kernel, ?_⟩
  have hnumbered : streamingDb.EventsNumbered := by
    constructor
    · exact List.Pairwise.nil
    · intro e he
      cases he
  exact (@events_exactly_once streamingDb hnumbered ["a"] ["b"] none none (by decide +kernel)
    interruptedStream (by decide +kernel)).2.1

end IMail
