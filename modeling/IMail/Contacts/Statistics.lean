import IMail.Contacts.Reconcile

/-!
# Contact statistics

The contacts that `reconcile_contacts_for_addresses` gives, by what it counts: one for each address
of a sender or recipient, with the number of its messages and the date of the last one.
-/

namespace IMail

open Text Relational

section

variable [Platform]

def Contact.key (c : Contact) : String := Platform.toLowercase c.address

/-- The address is the sender's or a recipient's and is none of the user's own. -/
def occursIn (ownAddresses : List String) (key : String) (m : Message) : Bool :=
  ((m.sender.address :: m.recipients.map (·.address)).any fun address =>
      !(trim address).isEmpty && Platform.toLowercase (trim address) == key) &&
    ownAddresses.all fun own => Platform.toLowercase (trim own) ≠ key

/-- What the contacts of some messages say of them. -/
structure ContactStatistics (ownAddresses : List String) (messages : List Message)
    (contacts : List Contact) : Prop where
  once : (contacts.map Contact.key).Nodup
  covers : ∀ key, key ∈ contacts.map Contact.key ↔ ∃ m ∈ messages, occursIn ownAddresses key m = true
  count : ∀ c ∈ contacts, c.messageCount = messages.countP (occursIn ownAddresses c.key)
  reached : ∀ c ∈ contacts, ∃ m ∈ messages, occursIn ownAddresses c.key m = true ∧
    m.date = c.lastContactAt
  last : ∀ c ∈ contacts, ∀ m ∈ messages, occursIn ownAddresses c.key m = true →
    m.date ≤ c.lastContactAt
  sorted : contacts.Pairwise fun a b => b.lastContactAt < a.lastContactAt ∨
    a.lastContactAt = b.lastContactAt ∧ b.messageCount ≤ a.messageCount

variable {userId : String} {ownAddresses : List String} {previous : List Contact}
  {domains : DomainResolver} {messages messages' : List Message} {contacts contacts' : List Contact}

theorem takesPart_eq (userId : String) (ownAddresses : List String) (previous : List Contact)
    (domains : DomainResolver) (key : String) :
    takesPart (contactInputs userId ownAddresses previous domains) key =
      occursIn ownAddresses key := by
  funext m
  have hparticipants : m.sender.address :: m.recipients.map (·.address) =
    (participants m).map (·.address) := rfl
  rw [takesPart, participantOf, occursIn, hparticipants, List.any_map, Bool.eq_iff_iff,
    List.find?_isSome]
  simp only [counted, contactInputs, Bool.and_eq_true, beq_iff_eq, List.any_eq_true,
    Function.comp_apply, Bool.not_eq_true', List.contains_eq_mem, decide_eq_false_iff_not,
    List.mem_map, not_exists, not_and, List.all_eq_true, decide_eq_true_eq]
  constructor
  · rintro ⟨p, hp, ⟨haddress, hown⟩, rfl⟩
    exact ⟨⟨p, hp, haddress, rfl⟩, hown⟩
  · rintro ⟨⟨p, hp, haddress, rfl⟩, hown⟩
    exact ⟨p, hp, ⟨haddress, hown⟩, rfl⟩

theorem nextContact_messageCount (inputs : ContactInputs) (m : Message) (p : MailAddressView)
    (current : Option Contact) :
    (nextContact inputs m p current).messageCount =
      match current with
      | none => 1
      | some item => item.messageCount + 1 := by
  simp only [nextContact]
  generalize selectedLogo _ _ _ = logo
  cases logo <;> cases current <;> rfl

theorem count_foldl (inputs : ContactInputs) (messages : List Message) (key : String) {c : Contact}
    (h : (messages.foldl (noteMessage inputs) ∅).lookup key = some c) :
    c.messageCount = messages.countP (takesPart inputs key) := by
  induction messages using List.reverseRecOn generalizing c with
  | nil => cases h
  | append_singleton messages m ih =>
    rw [List.foldl_append, List.foldl_cons, List.foldl_nil, lookup_noteMessage] at h
    rw [List.countP_append, List.countP_singleton, takesPart]
    cases hpart : participantOf inputs key (participants m) with
    | none =>
      rw [hpart] at h
      simp [ih h]
    | some p =>
      rw [hpart] at h
      obtain rfl := Option.some.inj h
      rw [nextContact_messageCount]
      cases hcurrent : (messages.foldl (noteMessage inputs) ∅).lookup key with
      | none =>
        have hnone := (notesLast_foldl inputs messages key).2 hcurrent
        have hzero : messages.countP (takesPart inputs key) = 0 := by
          rw [List.countP_eq_zero]
          intro n hn
          rw [hnone n hn]
          decide
        rw [hzero]
        rfl
      | some item => simp [ih hcurrent]

theorem contactStatistics_reconcile :
    ContactStatistics ownAddresses messages
      (reconcileContactsForAddresses userId ownAddresses messages previous domains) := by
  have htakes := takesPart_eq userId ownAddresses previous domains
  generalize hinputs : contactInputs userId ownAddresses previous domains = inputs at htakes
  have hnotes := notesLast_foldl inputs messages
  have hcounts := count_foldl inputs messages
  simp only [reconcileContactsForAddresses, hinputs]
  generalize messages.foldl (noteMessage inputs) ∅ = map at *
  have hentry : ∀ c, c ∈ orderBy Contact.rank (map.entries.map Sigma.snd) ↔
      map.lookup c.key = some c := by
    intro c
    rw [mem_orderBy, List.mem_map]
    constructor
    · rintro ⟨⟨key, c⟩, hmem, rfl⟩
      have hlookup := AList.mem_lookup_iff.mpr hmem
      rwa [Contact.key, ((hnotes key).1 c hlookup).address]
    · intro h
      exact ⟨⟨c.key, c⟩, AList.mem_lookup_iff.mp h, rfl⟩
  constructor
  · have hkeys : ((map.entries.map Sigma.snd).map Contact.key) = map.keys := by
      rw [List.map_map]
      apply List.map_congr_left
      rintro ⟨key, c⟩ hmem
      exact ((hnotes key).1 c (AList.mem_lookup_iff.mpr hmem)).address
    rw [((orderBy_perm Contact.rank _).map Contact.key).nodup_iff, hkeys]
    exact map.keys_nodup
  · intro key
    rw [List.mem_map, ← htakes]
    constructor
    · rintro ⟨c, hc, rfl⟩
      obtain ⟨m, hm, hpart, _⟩ := ((hnotes c.key).1 c ((hentry c).mp hc)).reached
      exact ⟨m, hm, hpart⟩
    · rintro ⟨m, hm, hpart⟩
      cases hlookup : map.lookup key with
      | none =>
        rw [(hnotes key).2 hlookup m hm] at hpart
        cases hpart
      | some c =>
        have hkey : c.key = key := ((hnotes key).1 c hlookup).address
        exact ⟨c, (hentry c).mpr (hkey.symm ▸ hlookup), hkey⟩
  · intro c hc
    rw [← htakes]
    exact hcounts c.key ((hentry c).mp hc)
  · intro c hc
    rw [← htakes]
    exact ((hnotes c.key).1 c ((hentry c).mp hc)).reached
  · intro c hc
    rw [← htakes]
    exact ((hnotes c.key).1 c ((hentry c).mp hc)).last
  · refine (pairwise_orderBy Contact.rank _).imp ?_
    intro a b h
    rw [Contact.rank, Contact.rank, Prod.Lex.toLex_le_toLex, Prod.Lex.toLex_le_toLex] at h
    rcases h with h | ⟨h, hcount | ⟨hcount, _⟩⟩
    · exact Or.inl h
    · exact Or.inr ⟨h, le_of_lt hcount⟩
    · exact Or.inr ⟨h, ge_of_eq hcount⟩

/-- What the contact says of the messages. -/
def Contact.statistics (c : Contact) : String × ℕ × String := (c.key, c.messageCount, c.lastContactAt)

theorem ContactStatistics.subset (h : ContactStatistics ownAddresses messages contacts)
    (h' : ContactStatistics ownAddresses messages' contacts') (hperm : messages'.Perm messages)
    {x : String × ℕ × String} (hx : x ∈ contacts.map Contact.statistics) :
    x ∈ contacts'.map Contact.statistics := by
  obtain ⟨c, hc, rfl⟩ := List.mem_map.mp hx
  obtain ⟨m, hm, hoccurs⟩ := (h.covers c.key).mp (List.mem_map_of_mem hc)
  obtain ⟨c', hc', hkey⟩ := List.mem_map.mp ((h'.covers c.key).mpr ⟨m, hperm.mem_iff.mpr hm, hoccurs⟩)
  have hcount : c'.messageCount = c.messageCount := by
    rw [h.count c hc, h'.count c' hc', hkey, hperm.countP_eq]
  have hlast : c'.lastContactAt = c.lastContactAt := by
    obtain ⟨n, hn, hnpart, hndate⟩ := h.reached c hc
    obtain ⟨n', hn', hnpart', hndate'⟩ := h'.reached c' hc'
    apply le_antisymm
    · rw [← hndate']
      exact h.last c hc n' (hperm.mem_iff.mp hn') (hkey ▸ hnpart')
    · rw [← hndate]
      exact h'.last c' hc' n (hperm.mem_iff.mpr hn) (hkey.symm ▸ hnpart)
  refine List.mem_map.mpr ⟨c', hc', ?_⟩
  rw [Contact.statistics, Contact.statistics, hkey, hcount, hlast]

theorem ContactStatistics.nodup (h : ContactStatistics ownAddresses messages contacts) :
    (contacts.map Contact.statistics).Nodup := by
  apply List.Nodup.of_map Prod.fst
  rw [List.map_map]
  exact h.once

/-- The contacts count the messages, whatever their order and whatever the contacts before. -/
theorem contacts_count_messages (userId : String) (ownAddresses : List String)
    (messages : List Message) (previous : List Contact) (domains : DomainResolver) :
    ContactStatistics ownAddresses messages
        (reconcileContactsForAddresses userId ownAddresses messages previous domains) ∧
      ∀ (messages' : List Message) (previous' : List Contact), messages'.Perm messages →
        ((reconcileContactsForAddresses userId ownAddresses messages' previous' domains).map
          Contact.statistics).Perm
        ((reconcileContactsForAddresses userId ownAddresses messages previous domains).map
          Contact.statistics) := by
  refine ⟨contactStatistics_reconcile, fun messages' previous' hperm => ?_⟩
  have h : ContactStatistics ownAddresses messages
    (reconcileContactsForAddresses userId ownAddresses messages previous domains) :=
    contactStatistics_reconcile
  have h' : ContactStatistics ownAddresses messages'
    (reconcileContactsForAddresses userId ownAddresses messages' previous' domains) :=
    contactStatistics_reconcile
  rw [List.perm_ext_iff_of_nodup h'.nodup h.nodup]
  intro x
  exact ⟨h'.subset h hperm.symm, h.subset h' hperm⟩

end

def juneLetter (day name : String) : Message :=
  { id := day, accountId := "a", mailbox := "INBOX", mailboxRole := "inbox", uid := 1,
    sender := ⟨name, " Ann@Example.org"⟩, recipients := [⟨"", "me@example.org"⟩],
    date := "2026-06-" ++ day }

theorem contacts_count_messages_swapped :
    let _ := Platform.plain
    let letters := [juneLetter "02" "Ann", juneLetter "01" ""]
    let contacts := reconcileContactsForAddresses "u" ["ME@example.org"] letters [] fun _ => none
    ContactStatistics ["ME@example.org"] letters contacts ∧
      ((reconcileContactsForAddresses "u" ["ME@example.org"] letters.reverse contacts
        fun _ => none).map Contact.statistics).Perm (contacts.map Contact.statistics) ∧
      contacts.map Contact.statistics = [("ann@example.org", 2, "2026-06-02")] := by
  intro platform letters contacts
  obtain ⟨h, hperm⟩ := contacts_count_messages "u" ["ME@example.org"] letters [] fun _ => none
  exact ⟨h, hperm letters.reverse contacts letters.reverse_perm, by decide +kernel⟩

end IMail
