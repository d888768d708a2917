import IMail.Store.Schema
import IMail.Transition.Run

/-!
# Moving messages with an undo

`useMessageActions.ts` and `message-actions.ts`: which requests the client sends for a message,
and which messages it locks meanwhile. A move waits for its undo in `pendingMove`, whose timer
is set anew with it. All actions share the flag `busy`, which the end of any of them clears.
What the actions do to the list and the counters shown is left out.
-/

namespace IMail

open Transition

inductive MoveDestination
  | archive | trash
  deriving DecidableEq, Repr

structure PendingMove where
  message : Message
  destination : MoveDestination

/-- A request in flight. -/
inductive ActionRequest
  | move (id : String) (destination : MoveDestination)
  | patch (id : String)
  deriving DecidableEq, Repr

def ActionRequest.id : ActionRequest → String
  | .move id _ | .patch id => id

inductive MoveNote
  | accepted (id : String)
  | undone (id : String)
  | sent (id : String)
  deriving DecidableEq, Repr

/-- Whether a move of the message is open after a note; there is no reading if one is accepted
while another is open, or if one is undone or sent while none is. -/
def MoveNote.settle (id : String) (waiting : Bool) (note : MoveNote) : Option Bool :=
  match note with
  | .accepted other => if other ≠ id then some waiting else if waiting then none else some true
  | .undone other | .sent other =>
    if other ≠ id then some waiting else if waiting then some false else none

/-- The coordinator and the state of the component. `moving` are the messages that a move has
made active and that have not been ended since, and `notes` what became of the moves. -/
structure ActionState where
  active : List String := []
  busy : Bool := false
  pendingMove : Option PendingMove := none
  requests : List ActionRequest := []
  moving : List String := []
  notes : List MoveNote := []

namespace ActionState

variable {s : ActionState}

/-- `MessageActionCoordinator.begin` -/
def begin (s : ActionState) (id : String) : Option ActionState :=
  if id ∈ s.active then none else some { s with active := id :: s.active }

/-- `MessageActionCoordinator.end` -/
def endAction (s : ActionState) (id : String) : ActionState :=
  { s with active := s.active.filter (· ≠ id), moving := s.moving.filter (· ≠ id) }

/-- The start of `coordinator.run` with a request that changes flags. -/
def patch (s : ActionState) (id : String) : ActionState :=
  match s.begin id with
  | none => s
  | some s => { s with busy := true, requests := .patch id :: s.requests }

def setMessageUnread (s : ActionState) (message : Message) (unread : Bool) : ActionState :=
  if message.unread = unread then s else s.patch message.id

def toggleSelectedFlag (s : ActionState) (target : Option Message) : ActionState :=
  match target with
  | none => s
  | some target => s.patch target.id

def moveSelected (s : ActionState) (destination : MoveDestination) (target : Option Message) :
    ActionState :=
  match target with
  | none => s
  | some target =>
    if s.busy then s
    else
      match s.begin target.id with
      | none => s
      | some s =>
        { s with
          busy := true
          pendingMove := some ⟨target, destination⟩
          moving := target.id :: s.moving
          notes := s.notes ++ [.accepted target.id] }

def undoPendingMove (s : ActionState) : ActionState :=
  match s.pendingMove with
  | none => s
  | some move =>
    { s.endAction move.message.id with
      busy := false
      pendingMove := none
      notes := s.notes ++ [.undone move.message.id] }

def timeout (s : ActionState) : ActionState :=
  match s.pendingMove with
  | none => s
  | some move =>
    { s with
      pendingMove := none
      requests := .move move.message.id move.destination :: s.requests
      notes := s.notes ++ [.sent move.message.id] }

/-- A request succeeds or fails; both end in the same `finally`. -/
def completed (s : ActionState) (request : ActionRequest) : ActionState :=
  if request ∈ s.requests then
    { s.endAction request.id with busy := false, requests := s.requests.erase request }
  else s

end ActionState

inductive ActionEvent
  | moveSelected (destination : MoveDestination) (target : Option Message)
  | undoPendingMove
  | setMessageUnread (message : Message) (unread : Bool)
  | toggleSelectedFlag (target : Option Message)
  | timeout
  | completed (request : ActionRequest) (ok : Bool)

namespace ActionState

variable {s : ActionState} {event : ActionEvent} {id : String}

def step (s : ActionState) : ActionEvent → ActionState
  | .moveSelected destination target => s.moveSelected destination target
  | .undoPendingMove => s.undoPendingMove
  | .setMessageUnread message unread => s.setMessageUnread message unread
  | .toggleSelectedFlag target => s.toggleSelectedFlag target
  | .timeout => s.timeout
  | .completed request _ => s.completed request

abbrev run (events : List ActionEvent) : ActionState := exec step {} events

def pendingId (s : ActionState) : Option String := s.pendingMove.map (·.message.id)

/-- No accepted move is dropped: each is pending or in flight until it is ended, it is undone or
sent exactly once, and a message is locked only while something is in progress for it. -/
structure KeepsMoves (s : ActionState) : Prop where
  moving : ∀ id ∈ s.moving, s.pendingId = some id ∨ ∃ d, .move id d ∈ s.requests
  settled : ∀ id, s.notes.foldlM (MoveNote.settle id) false = some (s.pendingId == some id)
  unlocked : ∀ id ∈ s.active, s.pendingId = some id ∨ ∃ r ∈ s.requests, r.id = id

/-- A move is accepted while another one is pending, and takes its place. -/
def Overtakes (s : ActionState) : ActionEvent → Prop
  | .moveSelected _ target =>
    s.busy = false ∧ s.pendingMove.isSome = true ∧ ∃ m, target = some m ∧ m.id ∉ s.active
  | _ => False

def held (s : ActionState) : List String := s.pendingId.toList ++ s.requests.map ActionRequest.id

structure Inv (s : ActionState) : Prop where
  nodup : s.held.Nodup
  active : ∀ id, id ∈ s.active ↔ s.pendingId = some id ∨ ∃ r ∈ s.requests, r.id = id
  moving : ∀ id, id ∈ s.moving ↔ s.pendingId = some id ∨ ∃ d, .move id d ∈ s.requests
  settled : ∀ id, s.notes.foldlM (MoveNote.settle id) false = some (s.pendingId == some id)

theorem mem_held : id ∈ s.held ↔ s.pendingId = some id ∨ ∃ r ∈ s.requests, r.id = id := by
  simp [held]

section

variable (h : s.Inv)
include h

theorem Inv.keeps : s.KeepsMoves :=
  ⟨fun id => (h.moving id).mp, h.settled, fun id => (h.active id).mp⟩

theorem inv_patch : (s.patch id).Inv := by
  unfold patch begin
  split_ifs with hactive
  · exact h
  · have hheld : id ∉ s.held := fun hmem => hactive ((h.active id).mpr (mem_held.mp hmem))
    refine ⟨?_, ?_, ?_, h.settled⟩
    · exact List.nodup_middle.mpr (List.nodup_cons.mpr ⟨hheld, h.nodup⟩)
    · intro other
      have := h.active other
      simp only [pendingId, List.mem_cons, exists_eq_or_imp, ActionRequest.id] at this ⊢
      rw [this, eq_comm, or_left_comm]
    · intro other
      simpa [pendingId] using h.moving other

theorem inv_moveSelected {destination : MoveDestination} {target : Option Message}
    (hfree : ¬s.Overtakes (.moveSelected destination target)) :
    (s.moveSelected destination target).Inv := by
  unfold moveSelected begin
  split
  · exact h
  · rename_i m
    split_ifs with hbusy hactive
    · exact h
    · exact h
    · have hnone : s.pendingMove = none := by
        by_contra hsome
        exact hfree ⟨by simpa using hbusy, Option.isSome_iff_ne_none.mpr hsome, m, rfl, hactive⟩
      have hheld : m.id ∉ s.held := fun hmem => hactive ((h.active m.id).mpr (mem_held.mp hmem))
      have hnodup := h.nodup
      have hrows := h.active
      have hmoves := h.moving
      have hnotes := h.settled
      simp only [held, pendingId, hnone, Option.map_none, Option.toList_none, List.nil_append,
        reduceCtorEq, false_or] at hheld hnodup hrows hmoves hnotes
      refine ⟨List.nodup_cons.mpr ⟨hheld, hnodup⟩, fun other => ?_, fun other => ?_,
        fun other => ?_⟩
      · simp [pendingId, hrows other, eq_comm]
      · simp [pendingId, hmoves other, eq_comm]
      · by_cases hid : m.id = other <;> simp [pendingId, hnotes other, MoveNote.settle, hid]

theorem Inv.pending {move : PendingMove} (hmove : s.pendingMove = some move) :
    (move.message.id :: s.requests.map ActionRequest.id).Nodup ∧
      (∀ id, id ∈ s.active ↔ move.message.id = id ∨ ∃ r ∈ s.requests, r.id = id) ∧
      (∀ id, id ∈ s.moving ↔ move.message.id = id ∨ ∃ d, .move id d ∈ s.requests) ∧
      ∀ id, s.notes.foldlM (MoveNote.settle id) false = some (some move.message.id == some id) := by
  have hpending : s.pendingId = some move.message.id := by rw [pendingId, hmove]; rfl
  obtain ⟨hnodup, hrows, hmoves, hnotes⟩ := h
  simp only [held, hpending, Option.some.injEq] at hnodup hrows hmoves hnotes
  exact ⟨hnodup, hrows, hmoves, hnotes⟩

theorem inv_timeout : s.timeout.Inv := by
  unfold timeout
  split
  · exact h
  · rename_i move hmove
    obtain ⟨hnodup, hrows, hmoves, hnotes⟩ := h.pending hmove
    refine ⟨hnodup, fun other => ?_, fun other => ?_, fun other => ?_⟩
    · simp [pendingId, hrows other, ActionRequest.id]
    · simp [pendingId, hmoves other, eq_comm]
      grind
    · by_cases hid : move.message.id = other <;>
        simp [pendingId, hnotes other, MoveNote.settle, hid]

theorem inv_undoPendingMove : s.undoPendingMove.Inv := by
  unfold undoPendingMove
  split
  · exact h
  · rename_i move hmove
    obtain ⟨hnodup, hrows, hmoves, hnotes⟩ := h.pending hmove
    obtain ⟨hother, hrest⟩ := List.nodup_cons.mp hnodup
    refine ⟨hrest, fun other => ?_, fun other => ?_, fun other => ?_⟩
    · simp [pendingId, endAction, hrows other]
      grind
    · simp [pendingId, endAction, hmoves other]
      grind [ActionRequest.id]
    · by_cases hid : move.message.id = other <;>
        simp [pendingId, hnotes other, MoveNote.settle, hid]

theorem inv_completed {request : ActionRequest} : (s.completed request).Inv := by
  unfold completed
  split_ifs with hmem
  · have hreqs : (s.requests.map ActionRequest.id).Nodup := (List.nodup_append.mp h.nodup).2.1
    have hpending : s.pendingId ≠ some request.id := by
      intro heq
      have hnodup := h.nodup
      rw [held, heq] at hnodup
      exact (List.nodup_cons.mp hnodup).1 (List.mem_map_of_mem hmem)
    have hleft : ∀ r, r ∈ s.requests.erase request ↔ r ∈ s.requests ∧ r.id ≠ request.id := by
      intro r
      rw [(List.Nodup.of_map _ hreqs).mem_erase_iff, and_comm]
      refine and_congr_right fun hr => not_congr ⟨fun heq => heq ▸ rfl, fun heq => ?_⟩
      exact List.inj_on_of_nodup_map hreqs hr hmem heq
    refine ⟨?_, fun other => ?_, fun other => ?_, h.settled⟩
    · exact h.nodup.sublist (List.Sublist.append_left (List.erase_sublist.map _) _)
    · have := h.active other
      simp only [endAction, pendingId, List.mem_filter, hleft, this] at *
      grind
    · have := h.moving other
      simp only [endAction, pendingId, List.mem_filter, hleft, this, ActionRequest.id] at *
      grind
  · exact h

theorem step_inv (hfree : ¬s.Overtakes event) : (s.step event).Inv := by
  cases event with
  | moveSelected destination target => exact inv_moveSelected h hfree
  | undoPendingMove => exact inv_undoPendingMove h
  | setMessageUnread message unread =>
    change (s.setMessageUnread message unread).Inv
    unfold setMessageUnread
    split_ifs
    · exact h
    · exact inv_patch h
  | toggleSelectedFlag target =>
    cases target with
    | none => exact h
    | some target => exact inv_patch h
  | timeout => exact inv_timeout h
  | completed request ok => exact inv_completed h

theorem not_keepsMoves (hovertakes : s.Overtakes event) : ¬(s.step event).KeepsMoves := by
  cases event with
  | moveSelected destination target =>
    obtain ⟨hbusy, hsome, m, rfl, hm⟩ := hovertakes
    obtain ⟨move, hmove⟩ := Option.isSome_iff_exists.mp hsome
    obtain ⟨hnodup, hrows, hmoves, -⟩ := h.pending hmove
    intro hkeeps
    have hkept := hkeeps.moving move.message.id
    simp only [step, moveSelected, hbusy, begin, hm, if_false, Bool.false_eq_true, pendingId,
      List.mem_cons, (hmoves _).mpr (Or.inl rfl), or_true, forall_const, Option.map_some,
      Option.some.injEq] at hkept
    rcases hkept with heq | ⟨destination, hrequest⟩
    · exact hm (heq ▸ (hrows _).mpr (Or.inl rfl))
    · exact (List.nodup_cons.mp hnodup).1 (List.mem_map.mpr ⟨_, hrequest, rfl⟩)
  | _ => exact hovertakes.elim

theorem keepsMoves_iff (events : List ActionEvent) :
    (∀ before, before <+: events → (exec step s before).KeepsMoves) ↔
      Along step (fun s event => ¬s.Overtakes event) s events := by
  induction events generalizing s with
  | nil => simpa using h.keeps
  | cons event events ih =>
    constructor
    · intro hkeeps
      have hfree : ¬s.Overtakes event := fun hovertakes =>
        not_keepsMoves h hovertakes (hkeeps [event] ⟨events, rfl⟩)
      refine ⟨hfree, (ih (step_inv h hfree)).mp fun before hbefore => ?_⟩
      exact hkeeps (event :: before) (List.cons_prefix_cons.mpr ⟨rfl, hbefore⟩)
    · rintro ⟨hfree, hrest⟩ before hbefore
      cases before with
      | nil => exact h.keeps
      | cons first before =>
        obtain ⟨rfl, htail⟩ := List.cons_prefix_cons.mp hbefore
        exact (ih (step_inv h hfree)).mpr hrest before htail

end

/-- Every state on the way keeps the accepted moves exactly if none is accepted while another
one is pending. -/
theorem moves_kept_iff (events : List ActionEvent) :
    (∀ before, before <+: events → (run before).KeepsMoves) ↔
      Along step (fun s event => ¬s.Overtakes event) {} events :=
  keepsMoves_iff ⟨by simp [held, pendingId], by simp [pendingId], by simp [pendingId],
    fun id => rfl⟩ events

def unreadMessage (id : String) : Message :=
  { id, accountId := "a", mailbox := "INBOX", mailboxRole := "inbox", uid := 1 }

/-- Marking a second message as read clears `busy` while the first one waits for its undo. -/
def overtaking : List ActionEvent :=
  [.moveSelected .trash (some (unreadMessage "1")), .setMessageUnread (unreadMessage "2") false,
    .completed (.patch "2") true, .moveSelected .archive (some (unreadMessage "3"))]

/-- The move of the third message takes the place of the first, and nothing is left that would
send or end it. -/
theorem overtaken_move_dropped :
    ("1" ∈ (run overtaking).moving ∧ "1" ∈ (run overtaking).active ∧
      (run overtaking).pendingId = some "3" ∧ (run overtaking).requests = []) ∧
      ¬(run overtaking).KeepsMoves := by
  have hrun : "1" ∈ (run overtaking).moving ∧ "1" ∈ (run overtaking).active ∧
      (run overtaking).pendingId = some "3" ∧ (run overtaking).requests = [] := by decide
  refine ⟨hrun, fun hkeeps => ?_⟩
  have hkept := hkeeps.moving "1" hrun.1
  simp [hrun.2.2.1, hrun.2.2.2] at hkept

end ActionState

end IMail
