import IMail.Transition.Run
import IMail.Translation.Profiles

/-!
# Standing consent

The calls on one translation profile of one user, taken apart into their reads and writes of the
repository, in any interleaving. A settings call reads the record and later writes a whole record
back; `execute_network_provider` reads it in `prepare`, may read it again for the credential, and
hands the segments of a message to the service. The log keeps the writes, what `prepare` read and
what was handed over. The read that follows a write only makes the answer, so that a call ends
with its write.
-/

namespace IMail

open Transition

inductive SettingsCall
  | upsertProfile (input : TranslationProviderProfileInput) (now : String)
  | setCredential (kind : TranslationCredentialKind) (secret now : String)
  | clearCredential (now : String)
  | acceptConsent (now : String)
  | revokeConsent (now : String)
  deriving DecidableEq, Repr

inductive ProfileEvent
  | wrote (call : SettingsCall) (record : TranslationProviderRecord)
  | deleted
  | prepared (id : ℕ) (record : TranslationProviderRecord)
  | handedOver (id : ℕ) (record : TranslationProviderRecord) (segments : List String)
  deriving DecidableEq, Repr

/-- A call between two of its accesses, with what it has read. -/
inductive PendingCall
  | listing (call : SettingsCall) (record : TranslationProviderRecord)
  | writing (call : SettingsCall) (record : TranslationProviderRecord)
  | executing (record : TranslationProviderRecord) (segments : List String)
  deriving DecidableEq, Repr

structure ProfileState where
  row : Option TranslationProviderRecord
  pending : List (ℕ × PendingCall) := []
  log : List ProfileEvent := []
  deriving DecidableEq, Repr

/-- One access of a call. What a message has to translate (none if it cannot be) and whether a
translation of it is in the cache is known to `prepare`; `others` says that the user has another
profile of Edge. -/
inductive ProfileStep
  | read (id : ℕ) (call : SettingsCall)
  | list (id : ℕ) (others : Bool)
  | write (id : ℕ)
  | delete
  | prepare (id : ℕ) (segments : Option (List String)) (cached : Bool)
  | send (id : ℕ)
  deriving DecidableEq, Repr

section

variable (userId profileId : String)

/-- `translation_provider` -/
def translationProvider (row : Option TranslationProviderRecord) :
    Option TranslationProviderRecord :=
  row.filter fun record => record.ownerId == userId

/-- `upsert_translation_provider`: a row of another user is refused, `created_at` is kept. -/
def upsertTranslationProvider (row : Option TranslationProviderRecord)
    (record : TranslationProviderRecord) : Option TranslationProviderRecord :=
  match row with
  | none => some record
  | some old =>
    if old.ownerId ≠ record.ownerId then none else some { record with createdAt := old.createdAt }

section

variable [TranslationCodec]

def SettingsCall.record (existing : Option TranslationProviderRecord) :
    SettingsCall → Except TranslationError TranslationProviderRecord
  | .upsertProfile input now =>
    (validateProfile profileId input).map fun _ => upsertedProfile userId profileId input now existing
  | .setCredential kind secret now =>
    match existing with
    | none => .error profileNotFound
    | some record => withCredential profileId kind secret now record
  | .clearCredential now =>
    match existing with
    | none => .error profileNotFound
    | some record => .ok (withoutCredential now record)
  | .acceptConsent now =>
    match existing with
    | none => .error profileNotFound
    | some record => withConsent profileId now record
  | .revokeConsent now =>
    match existing with
    | none => .error profileNotFound
    | some record => .ok (withoutConsent now record)

def SettingsCall.lists (existing : Option TranslationProviderRecord) : SettingsCall → Bool
  | .upsertProfile input _ => existing.isNone && input.provider.kind = .edgeLocal
  | _ => false

def takesCredential : TranslationProviderConfiguration → TranslationCredentialKind → Bool
  | .deepL _, kind => kind = .deepLApiKey
  | .googleCloud _ _, kind => kind = .googleApiKey || kind = .googleServiceAccount
  | .azureTranslator _ _, kind => kind = .azureApiKey
  | _, _ => false

/-- `execute_network_provider` after `prepare`: whether it comes to a service's `translate`. -/
def handsOver (record : TranslationProviderRecord) (row : Option TranslationProviderRecord) :
    Bool :=
  match record.profile.provider with
  | .bingWeb _ => true
  | provider =>
    match record.profile.credential with
    | none => false
    | some credential =>
      match translationProvider userId row with
      | none => false
      | some current =>
        (credentialSecret credential.kind current).isOk && takesCredential provider credential.kind

namespace ProfileState

def drop (s : ProfileState) (id : ℕ) : ProfileState :=
  { s with pending := s.pending.filter fun p => p.1 != id }

def await (s : ProfileState) (id : ℕ) (call : PendingCall) : ProfileState :=
  { s with pending := (id, call) :: s.pending.filter fun p => p.1 != id }

def step (s : ProfileState) : ProfileStep → ProfileState
  | .read id call =>
    let existing := translationProvider userId s.row
    match call.record userId profileId existing with
    | .error _ => s
    | .ok record =>
      s.await id (if call.lists existing then .listing call record else .writing call record)
  | .list id others =>
    match s.pending.lookup id with
    | some (.listing call record) =>
      if others || (translationProvider userId s.row).any fun stored =>
          stored.profile.provider.kind = .edgeLocal then s.drop id
      else s.await id (.writing call record)
    | _ => s
  | .write id =>
    match s.pending.lookup id with
    | some (.writing call record) =>
      match upsertTranslationProvider s.row record with
      | none => s.drop id
      | some written => { s.drop id with row := some written, log := s.log ++ [.wrote call written] }
    | _ => s
  | .delete =>
    if (translationProvider userId s.row).isSome then
      { s with row := none, log := s.log ++ [.deleted] }
    else s
  | .prepare id segments cached =>
    match translationProvider userId s.row, segments with
    | some record, some (segment :: more) =>
      if record.ready && !cached && record.profile.executionTarget != .webView then
        { s.await id (.executing record (segment :: more)) with
          log := s.log ++ [.prepared id record] }
      else s
    | _, _ => s
  | .send id =>
    match s.pending.lookup id with
    | some (.executing record segments) =>
      if handsOver userId record s.row then
        { s.drop id with log := s.log ++ [.handedOver id record segments] }
      else s.drop id
    | _ => s

end ProfileState

/-- What ends a consent for a configuration: it is revoked, the profile is deleted, or another
configuration is written. -/
def ProfileEvent.Ends (provider : TranslationProviderConfiguration) : ProfileEvent → Prop
  | .wrote (.revokeConsent _) _ => True
  | .wrote _ record => record.profile.provider ≠ provider
  | .deleted => True
  | .prepared _ _ | .handedOver _ _ _ => False

/-- The consent of the record was written by `accept_consent` together with its configuration,
and nothing has ended it since. -/
def Standing (log : List ProfileEvent) (record : TranslationProviderRecord) : Prop :=
  ∃ before now granted since, log = before ++ .wrote (.acceptConsent now) granted :: since ∧
    granted.consent = record.consent ∧
    granted.profile.provider = record.profile.provider ∧
    ∀ e ∈ since, ¬e.Ends record.profile.provider

/-- Segments go to a service elsewhere only after `prepare` read an enabled record with a current
consent that was standing then. -/
def HandOversStand (log : List ProfileEvent) : Prop :=
  ∀ front id record segments back, log = front ++ .handedOver id record segments :: back →
    record.profile.provider.sendsOffDevice = true →
    ∃ before after, front = before ++ .prepared id record :: after ∧
      record.profile.enabled = true ∧
      (∃ consent, record.consent = some consent ∧ consent.disclosureRevision =
        (descriptor record.profile.provider.kind).disclosureRevision) ∧
      Standing before record

/-- A call that writes back a consent it did not grant finds that consent and the configuration
it read still in place. -/
def keepsConsent (s : ProfileState) : ProfileStep → Bool
  | .write id =>
    match s.pending.lookup id with
    | some (.writing (.acceptConsent _) _) => true
    | some (.writing _ record) =>
      record.consent.isNone || (translationProvider userId s.row).any fun stored =>
        stored.consent = record.consent && stored.profile.provider = record.profile.provider
    | _ => true
  | _ => true

variable {log : List ProfileEvent} {record : TranslationProviderRecord}

omit [TranslationCodec] in
theorem Standing.append (h : Standing log record) {e : ProfileEvent}
    (he : ¬e.Ends record.profile.provider) : Standing (log ++ [e]) record := by
  obtain ⟨before, now, granted, since, rfl, hconsent, hprovider, hsince⟩ := h
  refine ⟨before, now, granted, since ++ [e], by simp, hconsent, hprovider, ?_⟩
  intro e' he'
  rcases List.mem_append.mp he' with hold | hnew
  · exact hsince e' hold
  · rw [List.mem_singleton.mp hnew]
    exact he

omit [TranslationCodec] in
theorem Standing.congr {other : TranslationProviderRecord} (h : Standing log record)
    (hconsent : other.consent = record.consent)
    (hprovider : other.profile.provider = record.profile.provider) : Standing log other := by
  unfold Standing at h ⊢
  rw [hconsent, hprovider]
  exact h

omit [TranslationCodec] in
theorem standing_granted (log : List ProfileEvent) (now : String)
    (record : TranslationProviderRecord) :
    Standing (log ++ [.wrote (.acceptConsent now) record]) record :=
  ⟨log, now, record, [], rfl, rfl, rfl, fun _ he => by cases he⟩

omit [TranslationCodec] in
theorem not_standing_of_revoked {before since : List ProfileEvent} {now : String}
    {revoked : TranslationProviderRecord}
    (hsince : ∀ e ∈ since, ∀ again granted, e ≠ .wrote (.acceptConsent again) granted) :
    ¬Standing (before ++ .wrote (.revokeConsent now) revoked :: since) record := by
  rintro ⟨front, again, granted, back, hlog, _, _, hback⟩
  rcases List.append_eq_append_iff.mp hlog with ⟨mid, _, hmid⟩ | ⟨mid, _, hmid⟩
  · -- the consent was given after the revocation
    rcases List.cons_eq_append_iff.mp hmid with ⟨_, heq⟩ | ⟨rest, _, hrest⟩
    · cases heq
    · exact hsince _ (by rw [hrest]; simp) again granted rfl
  · rcases List.cons_eq_append_iff.mp hmid with ⟨_, heq⟩ | ⟨rest, _, hrest⟩
    · cases heq
    · exact hback (.wrote (.revokeConsent now) revoked) (by rw [hrest]; simp) trivial

def Told (before : List ProfileEvent) : ProfileEvent → Prop
  | .prepared _ record => record.ready = true ∧ (record.consent ≠ none → Standing before record)
  | .handedOver id record _ => .prepared id record ∈ before
  | _ => True

def Waits (log : List ProfileEvent) : ℕ × PendingCall → Prop
  | (id, .executing record _) => .prepared id record ∈ log
  | (_, .writing (.revokeConsent _) record) => record.consent = none
  | (_, .listing (.revokeConsent _) record) => record.consent = none
  | _ => True

structure ConsentInvariant (s : ProfileState) : Prop where
  stored : ∀ record, translationProvider userId s.row = some record → record.consent ≠ none →
    Standing s.log record
  told : ∀ front e back, s.log = front ++ e :: back → Told front e
  waits : ∀ p ∈ s.pending, Waits s.log p

def Begun (s : ProfileState) (p : ℕ × PendingCall) : Prop :=
  (∃ call record, call.record userId profileId (translationProvider userId s.row) = .ok record ∧
    (p.2 = .listing call record ∨ p.2 = .writing call record)) ∨
  ∃ call record, (p.1, .listing call record) ∈ s.pending ∧ p.2 = .writing call record

/-- Everything that a step can do. -/
inductive ProfileEffect (s : ProfileState) : ProfileStep → ProfileState → Prop
  | quiet {op : ProfileStep} {pending : List (ℕ × PendingCall)}
      (hpending : ∀ p ∈ pending, p ∈ s.pending ∨ Begun userId profileId s p) :
      ProfileEffect s op { s with pending }
  | wrote {pending : List (ℕ × PendingCall)} {id : ℕ} {call : SettingsCall}
      {record written : TranslationProviderRecord} (hpending : ∀ p ∈ pending, p ∈ s.pending)
      (hcall : s.pending.lookup id = some (.writing call record))
      (hwritten : upsertTranslationProvider s.row record = some written) :
      ProfileEffect s (.write id) ⟨some written, pending, s.log ++ [.wrote call written]⟩
  | deleted {op : ProfileStep} :
      ProfileEffect s op { s with row := none, log := s.log ++ [.deleted] }
  | prepared {op : ProfileStep} {pending : List (ℕ × PendingCall)} {id : ℕ}
      {record : TranslationProviderRecord} {segments : List String}
      (hpending : ∀ p ∈ pending, p ∈ s.pending ∨ p = (id, .executing record segments))
      (hstored : translationProvider userId s.row = some record) (hready : record.ready = true) :
      ProfileEffect s op { s with pending, log := s.log ++ [.prepared id record] }
  | handedOver {op : ProfileStep} {pending : List (ℕ × PendingCall)} {id : ℕ}
      {record : TranslationProviderRecord} {segments : List String} (hpending : ∀ p ∈ pending, p ∈ s.pending)
      (hcall : s.pending.lookup id = some (.executing record segments)) :
      ProfileEffect s op { s with pending, log := s.log ++ [.handedOver id record segments] }

variable {id : ℕ}

variable {call : PendingCall} {p : ℕ × PendingCall} {written : TranslationProviderRecord}

omit [TranslationCodec] in
theorem mem_of_lookup {pending : List (ℕ × PendingCall)} (h : pending.lookup id = some call) :
    (id, call) ∈ pending := by
  induction pending with
  | nil => cases h
  | cons p pending ih =>
    rw [List.lookup_cons] at h
    split at h
    · rename_i hid
      cases h
      rw [beq_iff_eq.mp hid]
      exact List.mem_cons_self
    · exact List.mem_cons_of_mem _ (ih h)

variable {s : ProfileState}

omit [TranslationCodec] in
theorem ProfileState.drop_pending :
    ∀ p ∈ (s.drop id).pending, p ∈ s.pending := fun _ hp => List.mem_of_mem_filter hp

omit [TranslationCodec] in
theorem ProfileState.await_pending :
    ∀ p ∈ (s.await id call).pending, p = (id, call) ∨ p ∈ s.pending := by
  intro p hp
  rcases List.mem_cons.mp hp with rfl | hp
  · exact Or.inl rfl
  · exact Or.inr (List.mem_of_mem_filter hp)

theorem step_effect (s : ProfileState) (op : ProfileStep) :
    ProfileEffect userId profileId s op (s.step userId profileId op) := by
  have hsame : ProfileEffect userId profileId s op s := .quiet fun p hp => Or.inl hp
  cases op with
  | read id call =>
    simp only [ProfileState.step]
    split
    · exact hsame
    · rename_i record hrecord
      apply ProfileEffect.quiet
      intro p hp
      rcases ProfileState.await_pending p hp with rfl | hp
      · refine Or.inr (Or.inl ⟨call, record, hrecord, ?_⟩)
        split_ifs
        · exact Or.inl rfl
        · exact Or.inr rfl
      · exact Or.inl hp
  | list id others =>
    simp only [ProfileState.step]
    split
    · rename_i call record hcall
      split_ifs
      · exact .quiet fun p hp => Or.inl (ProfileState.drop_pending p hp)
      · apply ProfileEffect.quiet
        intro p hp
        rcases ProfileState.await_pending p hp with rfl | hp
        · exact Or.inr (Or.inr ⟨call, record, mem_of_lookup hcall, rfl⟩)
        · exact Or.inl hp
    · exact hsame
  | write id =>
    simp only [ProfileState.step]
    split
    · rename_i call record hcall
      split
      · exact .quiet fun p hp => Or.inl (ProfileState.drop_pending p hp)
      · rename_i written hwritten
        exact .wrote ProfileState.drop_pending hcall hwritten
    · exact hsame
  | delete =>
    simp only [ProfileState.step]
    split_ifs
    · exact .deleted
    · exact hsame
  | prepare id segments cached =>
    simp only [ProfileState.step]
    split
    · rename_i record segment more hstored
      split_ifs with hgo
      · rw [Bool.and_eq_true, Bool.and_eq_true] at hgo
        exact .prepared (fun p hp => (ProfileState.await_pending p hp).symm) hstored hgo.1.1
      · exact hsame
    · exact hsame
  | send id =>
    simp only [ProfileState.step]
    split
    · rename_i record segments hcall
      split_ifs
      · exact .handedOver ProfileState.drop_pending hcall
      · exact .quiet fun p hp => Or.inl (ProfileState.drop_pending p hp)
    · exact hsame

omit [TranslationCodec] in
theorem told_append {new : ProfileEvent}
    (hold : ∀ front e back, log = front ++ e :: back → Told front e) (hnew : Told log new) :
    ∀ front e back, log ++ [new] = front ++ e :: back → Told front e := by
  intro front e back heq
  rcases List.eq_nil_or_concat back with rfl | ⟨rest, last, rfl⟩
  · obtain ⟨rfl, he⟩ := List.append_inj' heq rfl
    cases he
    exact hnew
  · rw [List.concat_eq_append, ← List.cons_append, ← List.append_assoc] at heq
    exact hold front e rest (List.append_inj' heq rfl).1

omit [TranslationCodec] in
theorem Waits.append (h : Waits log p) (e : ProfileEvent) : Waits (log ++ [e]) p := by
  obtain ⟨id, call⟩ := p
  cases call with
  | executing record segments => exact List.mem_append_left _ h
  | writing call record => cases call <;> exact h
  | listing call record => cases call <;> exact h

theorem waits_of_begun (hwaits : ∀ p ∈ s.pending, Waits s.log p) (h : Begun userId profileId s p) :
    Waits s.log p := by
  obtain ⟨id, pending⟩ := p
  have hrevoke : ∀ now record, (SettingsCall.revokeConsent now).record userId profileId
      (translationProvider userId s.row) = .ok record → record.consent = none := by
    intro now record hrecord
    cases hrow : translationProvider userId s.row with
    | none =>
      rw [hrow] at hrecord
      cases hrecord
    | some old =>
      rw [hrow] at hrecord
      cases hrecord
      rfl
  rcases h with ⟨call, record, hrecord, rfl | rfl⟩ | ⟨call, record, hmem, rfl⟩
  · cases call with
    | revokeConsent now => exact hrevoke now record hrecord
    | _ => trivial
  · cases call with
    | revokeConsent now => exact hrevoke now record hrecord
    | _ => trivial
  · have hlisting := hwaits _ hmem
    cases call <;> exact hlisting

omit [TranslationCodec] in
theorem upsertTranslationProvider_some {row : Option TranslationProviderRecord}
    (h : upsertTranslationProvider row record = some written) :
    written.consent = record.consent ∧ written.profile = record.profile ∧
      written.ownerId = record.ownerId := by
  cases row with
  | none =>
    cases h
    exact ⟨rfl, rfl, rfl⟩
  | some old =>
    simp only [upsertTranslationProvider] at h
    split_ifs at h
    cases h
    exact ⟨rfl, rfl, rfl⟩

omit [TranslationCodec] in
theorem standing_of_write {call : SettingsCall} (h : ConsentInvariant userId s)
    (hkeeps : keepsConsent userId s (.write id) = true)
    (hcall : s.pending.lookup id = some (.writing call record))
    (hwritten : upsertTranslationProvider s.row record = some written)
    (hconsent : written.consent ≠ none) : Standing (s.log ++ [.wrote call written]) written := by
  obtain ⟨hsame, hprofile, _⟩ := upsertTranslationProvider_some hwritten
  have hcarried : (record.consent.isNone || (translationProvider userId s.row).any fun stored =>
      stored.consent = record.consent &&
        stored.profile.provider = record.profile.provider) = true →
      ¬(ProfileEvent.wrote call written).Ends written.profile.provider →
      Standing (s.log ++ [.wrote call written]) written := by
    intro hkept hgoes
    rw [Bool.or_eq_true, Option.isNone_iff_eq_none, ← hsame, or_iff_right hconsent] at hkept
    obtain ⟨stored, hstored, hsimilar⟩ := (Option.any_eq_true _ _).mp hkept
    rw [Bool.and_eq_true, decide_eq_true_iff, decide_eq_true_iff, ← hprofile] at hsimilar
    have hstanding := h.stored stored hstored (by rw [hsimilar.1]; exact hconsent)
    exact (hstanding.congr hsimilar.1.symm hsimilar.2.symm).append hgoes
  cases call with
  | acceptConsent now => exact standing_granted s.log now written
  | revokeConsent now =>
    have hnone : record.consent = none := h.waits _ (mem_of_lookup hcall)
    exact absurd (hsame.trans hnone) hconsent
  | _ =>
    simp only [keepsConsent, hcall] at hkeeps
    exact hcarried hkeeps (by simp [ProfileEvent.Ends])

theorem ConsentInvariant.step {op : ProfileStep} (h : ConsentInvariant userId s)
    (hkeeps : keepsConsent userId s op = true) :
    ConsentInvariant userId (s.step userId profileId op) := by
  have heffect := step_effect userId profileId s op
  generalize s.step userId profileId op = s' at heffect
  cases heffect with
  | quiet hpending =>
    refine ⟨h.stored, h.told, fun p hp => ?_⟩
    rcases hpending p hp with hold | hbegun
    · exact h.waits p hold
    · have hwaits : Waits s.log p := waits_of_begun userId profileId h.waits hbegun
      exact hwaits
  | wrote hpending hcall hwritten =>
    refine ⟨?_, told_append h.told trivial, fun p hp => (h.waits p (hpending p hp)).append _⟩
    intro stored hstored hconsent
    obtain ⟨hrow, _⟩ := Option.filter_eq_some_iff.mp hstored
    cases hrow
    exact standing_of_write userId h hkeeps hcall hwritten hconsent
  | deleted =>
    refine ⟨?_, told_append h.told trivial, fun p hp => (h.waits p hp).append _⟩
    intro stored hstored
    cases hstored
  | prepared hpending hstored hready =>
    refine ⟨?_, told_append h.told ⟨hready, h.stored _ hstored⟩, ?_⟩
    · intro stored hagain hconsent
      exact (h.stored stored hagain hconsent).append id
    · intro p hp
      rcases hpending p hp with hold | rfl
      · exact (h.waits p hold).append _
      · exact List.mem_append_right _ (List.mem_singleton.mpr rfl)
  | handedOver hpending hcall =>
    refine ⟨?_, told_append h.told (h.waits _ (mem_of_lookup hcall)), ?_⟩
    · intro stored hstored hconsent
      exact (h.stored stored hstored hconsent).append id
    · exact fun p hp => (h.waits p (hpending p hp)).append _

/-- If no call writes back a consent that is no longer in place, then in every interleaving mail
goes to a service elsewhere by a standing consent, and the consent in the row is a standing one. -/
theorem consent_stands {start : ProfileState} (hrow : translationProvider userId start.row = none)
    (hpending : start.pending = []) (hlog : start.log = []) (ops : List ProfileStep)
    (hkeeps : Along (ProfileState.step userId profileId)
      (fun s op => keepsConsent userId s op = true) start ops) :
    HandOversStand (exec (ProfileState.step userId profileId) start ops).log ∧
      ∀ record, translationProvider userId
          (exec (ProfileState.step userId profileId) start ops).row = some record →
        record.consent ≠ none →
        Standing (exec (ProfileState.step userId profileId) start ops).log record := by
  have hstart : ConsentInvariant userId start := by
    refine ⟨?_, ?_, ?_⟩
    · intro record hstored
      rw [hrow] at hstored
      cases hstored
    · intro front e back hsplit
      rw [hlog] at hsplit
      simp at hsplit
    · intro p hp
      rw [hpending] at hp
      cases hp
  have hinv := invariant_along (ConsentInvariant userId)
    (fun s op hs hop => hs.step userId profileId hop) hstart hkeeps
  refine ⟨?_, hinv.stored⟩
  intro front id record segments back hsplit hoff
  have hprepared : .prepared id record ∈ front := hinv.told front _ back hsplit
  obtain ⟨before, after, rfl⟩ := List.append_of_mem hprepared
  obtain ⟨hready, hstanding⟩ := hinv.told before (.prepared id record)
    (after ++ .handedOver id record segments :: back) (by rw [hsplit]; simp)
  obtain ⟨henabled, consent, hconsent, hrevision⟩ := record.consent_of_ready hready hoff
  exact ⟨before, after, rfl, henabled, ⟨consent, hconsent, hrevision⟩,
    hstanding (by rw [hconsent]; simp)⟩

end

end

@[reducible] def plainTranslationCodec : TranslationCodec where
  encrypt _ secret := some secret
  decrypt payload := some (.obj [("kind", .str "deepl-api-key"), ("secret", .str payload)])

def deepLSteps : List ProfileStep :=
  [.read 0 (.upsertProfile ⟨"DeepL", .localService, .deepL .free, true⟩ "t0"), .write 0,
    .read 1 (.setCredential .deepLApiKey "key" "t1"), .write 1,
    .read 2 (.acceptConsent "t2"), .write 2]

def deepLRecord (key updatedAt : String) : TranslationProviderRecord where
  ownerId := "ann"
  profile :=
    { id := "deepl", displayName := "DeepL", executionTarget := .localService,
      provider := .deepL .free, credential := some ⟨"deepl", .deepLApiKey⟩, enabled := true }
  consent := some ⟨"deepl", "deepl-cloud-v1", "t2"⟩
  encryptedCredential := some key
  createdAt := "t0"
  updatedAt := updatedAt

/-- Another key is set while a message is translated. -/
theorem consent_stands_two_calls :
    let _ := plainTranslationCodec
    let run := exec (ProfileState.step "ann" "deepl") ⟨none, [], []⟩ (deepLSteps ++
      [.read 3 (.setCredential .deepLApiKey "other" "t3"),
        .prepare 4 (some ["Guten Tag"]) false, .write 3, .send 4])
    HandOversStand run.log ∧
      .handedOver 4 (deepLRecord "key" "t2") ["Guten Tag"] ∈ run.log := by
  intro codec run
  have hkeeps : Along (ProfileState.step "ann" "deepl")
      (fun s op => keepsConsent "ann" s op = true) ⟨none, [], []⟩ (deepLSteps ++
        [.read 3 (.setCredential .deepLApiKey "other" "t3"),
          .prepare 4 (some ["Guten Tag"]) false, .write 3, .send 4]) := by
    subst codec
    decide +kernel
  have hsent : .handedOver 4 (deepLRecord "key" "t2") ["Guten Tag"] ∈ run.log := by
    subst run codec
    decide +kernel
  exact ⟨(consent_stands "ann" "deepl" rfl rfl rfl _ hkeeps).1, hsent⟩

/-- The call that sets another key has read the consent before it is revoked, and writes it
back. -/
theorem revoked_consent_returns :
    let _ := plainTranslationCodec
    ¬HandOversStand (exec (ProfileState.step "ann" "deepl") ⟨none, [], []⟩ (deepLSteps ++
      [.read 3 (.setCredential .deepLApiKey "other" "t3"), .read 4 (.revokeConsent "t4"), .write 4,
        .write 3, .prepare 5 (some ["Guten Tag"]) false, .send 5])).log := by
  intro codec hstand
  generalize hrun : (exec (ProfileState.step "ann" "deepl") ⟨none, [], []⟩ (deepLSteps ++
      [.read 3 (.setCredential .deepLApiKey "other" "t3"), .read 4 (.revokeConsent "t4"), .write 4,
        .write 3, .prepare 5 (some ["Guten Tag"]) false, .send 5])).log = log at hstand
  have hlog : log = (log.take 3 ++ .wrote (.revokeConsent "t4")
      { deepLRecord "key" "t4" with consent := none } ::
        [.wrote (.setCredential .deepLApiKey "other" "t3") (deepLRecord "other" "t3")]) ++
      [.prepared 5 (deepLRecord "other" "t3")] ++
      [.handedOver 5 (deepLRecord "other" "t3") ["Guten Tag"]] := by
    subst hrun codec
    decide +kernel
  have honce : .prepared 5 (deepLRecord "other" "t3") ∉ log.take 3 ++ .wrote (.revokeConsent "t4")
      { deepLRecord "key" "t4" with consent := none } ::
        [.wrote (.setCredential .deepLApiKey "other" "t3") (deepLRecord "other" "t3")] := by
    subst hrun codec
    decide +kernel
  obtain ⟨before, after, hfront, _, _, hstanding⟩ := hstand _ _ _ _ _ hlog (by decide)
  rcases List.eq_nil_or_concat after with rfl | ⟨rest, last, rfl⟩
  · obtain ⟨rfl, _⟩ := List.append_inj' hfront rfl
    exact not_standing_of_revoked (by simp) hstanding
  · rw [List.concat_eq_append, ← List.cons_append, ← List.append_assoc] at hfront
    apply honce
    rw [(List.append_inj' hfront rfl).1]
    simp

end IMail
