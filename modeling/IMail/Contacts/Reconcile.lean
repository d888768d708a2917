import IMail.Platform
import IMail.Relational.Keyset
import Mathlib.Data.List.AList
import Mathlib.Data.Prod.Lex
import Mathlib.Data.String.Basic

/-!
# Contacts

`reconcile_contacts_for_addresses` goes through the messages of a user and keeps one contact for
each address that takes part in one, by its lowercase text. The newest message gives the name and
the spelling of the address; logos come from earlier contacts.
-/

namespace IMail

open Text Relational

structure Contact where
  ownerId : String
  address : String
  name : String
  messageCount : ℕ
  lastContactAt : String
  logoKey : Option String := none
  logoContentType : Option String := none
  logoSourceUrl : Option String := none
  logoFetchedAt : Option String := none
  deriving DecidableEq, Repr

structure ContactDomain where
  hostname : String
  registrable : String
  deriving DecidableEq, Repr

structure ContactLogoKeys where
  exact : String
  root : String
  deriving DecidableEq, Repr

/-- `RegistrableDomainResolver::registrable_domain` -/
abbrev DomainResolver := String → Option String

/-- `HashMap<String, ContactReadModel>` -/
abbrev ContactMap := AList fun _ : String => Contact

section

variable [Platform]

/-- `trim_end_matches` of a character. -/
def trimEnd (c : Char) (cs : List Char) : List Char := (cs.reverse.dropWhile (· == c)).reverse

def contactDomain (address : String) (domains : DomainResolver) : Option ContactDomain :=
  match rsplitOnceList '@' address.toList with
  | none => none
  | some (_, host) =>
    let hostname := Platform.toLowercase (String.ofList (trimEnd '.' (trimList host)))
    if hostname.isEmpty || !hostname.toList.all fun c => isAsciiAlphanumeric c || c == '.' || c == '-'
    then none
    else some ⟨hostname, (domains hostname).getD hostname⟩

def contactLogoKeys (address : String) (domains : DomainResolver) : Option ContactLogoKeys :=
  (contactDomain address domains).map fun domain =>
    ⟨"domain:" ++ domain.hostname, "domain:" ++ domain.registrable⟩

def participants (m : Message) : List MailAddressView := m.sender :: m.recipients

def copyLogo (target : Contact) : Option Contact → Contact
  | none => target
  | some source =>
    { target with
      logoKey := source.logoKey
      logoContentType := source.logoContentType
      logoSourceUrl := source.logoSourceUrl
      logoFetchedAt := source.logoFetchedAt }

/-- What the loop reads and does not change. -/
structure ContactInputs where
  userId : String
  ownAddresses : List String
  previousByAddress : ContactMap
  logoByKey : ContactMap
  domains : DomainResolver

def contactInputs (userId : String) (ownAddresses : List String) (previous : List Contact)
    (domains : DomainResolver) : ContactInputs where
  userId := userId
  ownAddresses := ownAddresses.map fun address => Platform.toLowercase (trim address)
  previousByAddress := previous.foldl
    (fun map contact => map.insert (Platform.toLowercase contact.address) contact) ∅
  logoByKey := previous.foldl
    (fun map contact =>
      match contact.logoKey with
      | none => map
      | some key => map.insert key contact) ∅
  domains := domains

def contactKey (participant : MailAddressView) : String :=
  Platform.toLowercase (trim participant.address)

def selectedLogo (inputs : ContactInputs) (address : String) (priorLogo : Option Contact) :
    Option Contact :=
  ((contactLogoKeys address inputs.domains).bind fun keys =>
    ((inputs.logoByKey.lookup keys.exact).or
      (priorLogo.filter fun logo => logo.logoKey == some keys.exact)).or
        (inputs.logoByKey.lookup keys.root)).or priorLogo

/-- The contact of a participant after a message but for its logo, where `current` is the one
before. -/
def namedContact (inputs : ContactInputs) (m : Message) (participant : MailAddressView)
    (current : Option Contact) : Contact :=
  let address := trim participant.address
  let previousContact := inputs.previousByAddress.lookup (contactKey participant)
  let newestName :=
    if (trim participant.name).isEmpty then
      ((current.map (·.name)).or (previousContact.map (·.name))).getD ""
    else trim participant.name
  { ownerId := inputs.userId
    address := match current with
      | some item => if item.lastContactAt < m.date then address else item.address
      | none => address
    name := match current with
      | some item => if item.lastContactAt < m.date then newestName else item.name
      | none => newestName
    messageCount := match current with
      | some item => item.messageCount + 1
      | none => 1
    lastContactAt :=
      ((current.map (·.lastContactAt)).filter fun date => decide (m.date < date)).getD m.date }

def nextContact (inputs : ContactInputs) (m : Message) (participant : MailAddressView)
    (current : Option Contact) : Contact :=
  let previousContact := inputs.previousByAddress.lookup (contactKey participant)
  let priorLogo := (current.filter fun item => item.logoKey.isSome).or
    (previousContact.filter fun item => item.logoKey.isSome)
  copyLogo (namedContact inputs m participant current)
    (selectedLogo inputs (trim participant.address) priorLogo)

def noteParticipant (inputs : ContactInputs) (m : Message) :
    List String × ContactMap → MailAddressView → List String × ContactMap
  | (seen, contacts), participant =>
    let key := contactKey participant
    if (trim participant.address).isEmpty || inputs.ownAddresses.contains key || seen.contains key
    then (seen, contacts)
    else (key :: seen, contacts.insert key
      (nextContact inputs m participant (contacts.lookup key)))

def noteMessage (inputs : ContactInputs) (contacts : ContactMap) (m : Message) : ContactMap :=
  ((participants m).foldl (noteParticipant inputs m) ([], contacts)).2

/-- The order of the contacts: the last contact first, then the most messages. -/
def Contact.rank (c : Contact) : Stringᵒᵈ ×ₗ ℕᵒᵈ ×ₗ String :=
  toLex (OrderDual.toDual c.lastContactAt, toLex (OrderDual.toDual c.messageCount, c.address))

def reconcileContactsForAddresses (userId : String) (ownAddresses : List String)
    (messages : List Message) (previous : List Contact) (domains : DomainResolver) :
    List Contact :=
  let contacts := messages.foldl
    (noteMessage (contactInputs userId ownAddresses previous domains)) ∅
  orderBy Contact.rank (contacts.entries.map Sigma.snd)

def counted (inputs : ContactInputs) (participant : MailAddressView) : Bool :=
  !(trim participant.address).isEmpty && !inputs.ownAddresses.contains (contactKey participant)

def participantOf (inputs : ContactInputs) (key : String) (ps : List MailAddressView) :
    Option MailAddressView :=
  ps.find? fun p => counted inputs p && contactKey p == key

theorem participantOf_some {inputs : ContactInputs} {key : String} {ps : List MailAddressView}
    {p : MailAddressView} (h : participantOf inputs key ps = some p) :
    p ∈ ps ∧ counted inputs p = true ∧ contactKey p = key := by
  have hfound := List.find?_some h
  rw [Bool.and_eq_true, beq_iff_eq] at hfound
  exact ⟨List.mem_of_find?_eq_some h, hfound⟩

section

variable (inputs : ContactInputs)

theorem noteParticipant_eq (m : Message) (seen : List String)
    (contacts : ContactMap) (p : MailAddressView) :
    noteParticipant inputs m (seen, contacts) p =
      if counted inputs p = true ∧ seen.contains (contactKey p) = false then
        (contactKey p :: seen, contacts.insert (contactKey p)
          (nextContact inputs m p (contacts.lookup (contactKey p))))
      else (seen, contacts) := by
  simp only [noteParticipant]
  by_cases hskip : ((trim p.address).isEmpty || inputs.ownAddresses.contains (contactKey p) ||
      seen.contains (contactKey p)) = true
  · rw [if_pos hskip, if_neg]
    rintro ⟨hcount, hseen⟩
    rw [hseen, Bool.or_false] at hskip
    rw [counted, ← Bool.not_or, hskip] at hcount
    cases hcount
  · rw [Bool.not_eq_true, Bool.or_eq_false_iff] at hskip
    rw [if_neg (by rw [hskip.1, hskip.2]; decide), if_pos]
    rw [counted, ← Bool.not_or, hskip.1]
    exact ⟨rfl, hskip.2⟩

theorem lookup_noteParticipants (m : Message) (key : String)
    (ps : List MailAddressView) (seen : List String) (contacts : ContactMap) :
    (ps.foldl (noteParticipant inputs m) (seen, contacts)).2.lookup key =
      match if seen.contains key then none else participantOf inputs key ps with
      | none => contacts.lookup key
      | some p => some (nextContact inputs m p (contacts.lookup key)) := by
  induction ps generalizing seen contacts with
  | nil => simp [participantOf]
  | cons p ps ih =>
    rw [List.foldl_cons, noteParticipant_eq]
    by_cases hnote : counted inputs p = true ∧ seen.contains (contactKey p) = false
    · obtain ⟨hcount, hseen⟩ := hnote
      rw [if_pos ⟨hcount, hseen⟩, ih]
      by_cases hkey : contactKey p = key
      · subst hkey
        rw [hseen, if_pos (by simp), AList.lookup_insert, participantOf, List.find?_cons, hcount]
        simp
      · rw [AList.lookup_insert_ne (Ne.symm hkey), List.contains_cons,
          beq_eq_false_iff_ne.mpr (Ne.symm hkey), Bool.false_or]
        have hnot : (counted inputs p && contactKey p == key) = false := by
          rw [beq_eq_false_iff_ne.mpr hkey, Bool.and_false]
        simp only [participantOf, List.find?_cons, hnot]
    · rw [if_neg hnote, ih]
      by_cases hkey : seen.contains key = true
      · rw [if_pos hkey, if_pos hkey]
      · -- the participant that is skipped has another key, or does not count
        have hnot : (counted inputs p && contactKey p == key) = false := by
          by_contra hboth
          rw [Bool.not_eq_false, Bool.and_eq_true, beq_iff_eq] at hboth
          obtain ⟨hcount, rfl⟩ := hboth
          exact hnote ⟨hcount, Bool.not_eq_true _ ▸ hkey⟩
        rw [if_neg hkey, if_neg hkey, participantOf, participantOf, List.find?_cons, hnot]

theorem lookup_noteMessage (contacts : ContactMap) (m : Message) (key : String) :
    (noteMessage inputs contacts m).lookup key =
      match participantOf inputs key (participants m) with
      | none => contacts.lookup key
      | some p => some (nextContact inputs m p (contacts.lookup key)) := by
  have h := lookup_noteParticipants inputs m key (participants m) [] contacts
  rwa [List.contains_nil, if_neg (by decide)] at h

variable (m : Message) (p : MailAddressView) (current : Option Contact)

theorem nextContact_eq :
    (nextContact inputs m p current).address = (namedContact inputs m p current).address ∧
      (nextContact inputs m p current).lastContactAt =
        (namedContact inputs m p current).lastContactAt := by
  unfold nextContact
  simp only
  generalize selectedLogo _ _ _ = logo
  cases logo with
  | none => exact ⟨rfl, rfl⟩
  | some source => exact ⟨rfl, rfl⟩

theorem nextContact_lastContactAt : (nextContact inputs m p current).lastContactAt =
      match current with
      | none => m.date
      | some item => max item.lastContactAt m.date := by
  rw [(nextContact_eq inputs m p current).2]
  cases current with
  | none => rfl
  | some item =>
    by_cases h : m.date < item.lastContactAt
    · simp [namedContact, Option.filter, h, max_eq_left h.le]
    · simp [namedContact, Option.filter, h, max_eq_right (not_lt.mp h)]

end

theorem nextContact_key {inputs : ContactInputs} {m : Message} {p : MailAddressView}
    {current : Option Contact}
    (h : ∀ item ∈ current, Platform.toLowercase item.address = contactKey p) :
    Platform.toLowercase (nextContact inputs m p current).address = contactKey p := by
  rw [(nextContact_eq inputs m p current).1]
  cases current with
  | none => rfl
  | some item =>
    by_cases hlatest : item.lastContactAt < m.date
    · simp only [namedContact, hlatest, if_true]
      rfl
    · simp only [namedContact, hlatest, if_false]
      exact h item rfl

def takesPart (inputs : ContactInputs) (key : String) (m : Message) : Bool :=
  (participantOf inputs key (participants m)).isSome

/-- A contact of the messages so far: one of them is the last, and it is the greatest by text. -/
structure NotesLast (inputs : ContactInputs) (messages : List Message) (key : String)
    (c : Contact) : Prop where
  address : Platform.toLowercase c.address = key
  reached : ∃ m ∈ messages, takesPart inputs key m = true ∧ m.date = c.lastContactAt
  last : ∀ m ∈ messages, takesPart inputs key m = true → m.date ≤ c.lastContactAt

theorem notesLast_foldl (inputs : ContactInputs) (messages : List Message) (key : String) :
    (∀ c ∈ (messages.foldl (noteMessage inputs) ∅).lookup key,
      NotesLast inputs messages key c) ∧
    ((messages.foldl (noteMessage inputs) ∅).lookup key = none →
      ∀ m ∈ messages, takesPart inputs key m = false) := by
  induction messages using List.reverseRecOn with
  | nil =>
    constructor
    · intro c hc
      cases hc
    · intro _ m hm
      cases hm
  | append_singleton messages m ih =>
    obtain ⟨ihsome, ihnone⟩ := ih
    rw [List.foldl_append, List.foldl_cons, List.foldl_nil, lookup_noteMessage]
    cases hpart : participantOf inputs key (participants m) with
    | none =>
      have hnot : takesPart inputs key m = false := by rw [takesPart, hpart]; rfl
      constructor
      · intro c hc
        obtain ⟨haddress, ⟨n, hn, hnpart, hdate⟩, hlast⟩ := ihsome c hc
        refine ⟨haddress, ⟨n, List.mem_append_left _ hn, hnpart, hdate⟩, ?_⟩
        intro n hn hnpart
        rcases List.mem_append.mp hn with hn | hn
        · exact hlast n hn hnpart
        · rw [List.mem_singleton.mp hn, hnot] at hnpart
          cases hnpart
      · intro hnone n hn
        rcases List.mem_append.mp hn with hn | hn
        · exact ihnone hnone n hn
        · rw [List.mem_singleton.mp hn]
          exact hnot
    | some p =>
      obtain ⟨hp, hcount, hkey⟩ := participantOf_some hpart
      have hpartm : takesPart inputs key m = true := by rw [takesPart, hpart]; rfl
      constructor
      · intro c hc
        obtain rfl := Option.some.inj hc
        cases hcurrent : (messages.foldl (noteMessage inputs) ∅).lookup key with
        | none =>
          refine ⟨?_, ⟨m, by simp, hpartm, ?_⟩, ?_⟩
          · rw [nextContact_key (by simp), hkey]
          · rw [nextContact_lastContactAt]
          · intro n hn hnpart
            rw [nextContact_lastContactAt]
            rcases List.mem_append.mp hn with hn | hn
            · rw [ihnone hcurrent n hn] at hnpart
              cases hnpart
            · rw [List.mem_singleton.mp hn]
        | some item =>
          obtain ⟨haddress, ⟨n, hn, hnpart, hdate⟩, hlast⟩ := ihsome item hcurrent
          refine ⟨?_, ?_, ?_⟩
          · rw [nextContact_key, hkey]
            rintro item' ⟨⟩
            rw [haddress, hkey]
          · rw [nextContact_lastContactAt]
            rcases le_total m.date item.lastContactAt with hle | hle
            · refine ⟨n, List.mem_append_left _ hn, hnpart, ?_⟩
              rw [hdate]
              exact (max_eq_left hle).symm
            · exact ⟨m, by simp, hpartm, (max_eq_right hle).symm⟩
          · intro n hn hnpart
            rw [nextContact_lastContactAt]
            rcases List.mem_append.mp hn with hn | hn
            · exact (hlast n hn hnpart).trans (le_max_left _ _)
            · rw [List.mem_singleton.mp hn]
              exact le_max_right _ _
      · intro hnone
        cases hnone

theorem notesLast_reconcile {userId : String} {ownAddresses : List String}
    {messages : List Message} {previous : List Contact} {domains : DomainResolver} {c : Contact}
    (h : c ∈ reconcileContactsForAddresses userId ownAddresses messages previous domains) :
    NotesLast (contactInputs userId ownAddresses previous domains) messages
      (Platform.toLowercase c.address) c := by
  obtain ⟨⟨key, c⟩, hentry, rfl⟩ := List.mem_map.mp (mem_orderBy.mp h)
  have hlookup := AList.mem_lookup_iff.mpr hentry
  have hnotes := (notesLast_foldl _ messages key).1 c hlookup
  rwa [hnotes.address]

end

end IMail
