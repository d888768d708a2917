import IMail.Contacts.Reconcile
import IMail.Mail.SyncPlan
import IMail.Messages.Queries
import IMail.Store.CommitRows
import IMail.Text.Rfc3339

/-!
# The order of the dates

A cached message takes its date from its `Date` header, from the INTERNALDATE of the server or from
the time of the commit, each as the text that its producer writes. The listings, the eviction, the
filters of the gateway and the contacts compare the texts.
-/

namespace IMail

open Text Relational

/-- A second in local time, with a year of four digits and the minutes to UTC. -/
structure LocalTime where
  second : ℤ
  offset : ℤ
  year : 0 ≤ second ∧ second < lastDay * 86400 := by decide
  zone : -1440 < offset ∧ offset < 1440 := by decide
  deriving DecidableEq, Repr

def LocalTime.instant (t : LocalTime) : ℤ := (t.second - 60 * t.offset) * 1000

/-- Where the date of a message comes from. -/
inductive DateSource
  /-- The second of a `Date` header. -/
  | header (second : ℤ)
  /-- The INTERNALDATE of the server, in the time zone that it gave. -/
  | internal (date : LocalTime)
  /-- The millisecond at which the commit of the message was prepared. -/
  | completion (ms : ℤ)
  deriving DecidableEq, Repr

def DateSource.instant : DateSource → ℤ
  | .header second => second * 1000
  | .internal date => date.instant
  | .completion ms => ms

/-- The text of the date. `parse_rfc822` and the fallback write milliseconds of UTC,
`collect_incoming` keeps the time zone. -/
def DateSource.text : DateSource → String
  | .header second => String.ofList (utcText (second * 1000))
  | .internal date => String.ofList (zonedText date.second date.offset)
  | .completion ms => String.ofList (utcText ms)

/-- The source that `cache_message` takes the date from. -/
def DateSource.Provides (source : DateSource) (parsed internal : Option String)
    (fallback : String) : Prop :=
  match source with
  | .header _ => parsed = some source.text
  | .internal _ => parsed = none ∧ internal = some source.text
  | .completion _ => parsed = none ∧ internal = none ∧ fallback = source.text

section

variable [Platform] [MailParser]

/-- A row whose date is that of a message that `cache_message` made. Its other columns may have
changed since. -/
def CachedFrom (source : DateSource) (m : Message) : Prop :=
  ∃ accountId mailbox mailboxRole remote fallbackDate parsed cached,
    parseRfc822 remote.source = .ok parsed ∧
    source.Provides parsed.date remote.internalDate fallbackDate ∧
    cacheMessage accountId mailbox mailboxRole remote fallbackDate = .ok cached ∧
    m.date = cached.date

theorem CachedFrom.date {source : DateSource} {m : Message} (h : CachedFrom source m) :
    m.date = source.text := by
  obtain ⟨accountId, mailbox, mailboxRole, remote, fallbackDate, parsed, cached, hparsed, hfrom,
    hcached, hdate⟩ := h
  have hcolumn : cached.date = (parsed.date.or remote.internalDate).getD fallbackDate := by
    rw [cacheMessage, hparsed] at hcached
    cases hcached
    rfl
  rw [hdate, hcolumn]
  cases source with
  | header second =>
    rw [show parsed.date = _ from hfrom]
    rfl
  | internal date =>
    rw [hfrom.1, hfrom.2]
    rfl
  | completion ms =>
    rw [hfrom.1, hfrom.2.1, ← hfrom.2.2]
    rfl

end

/-- A bound of a filter, as `parse_from_rfc3339` accepts it. -/
structure Bound extends LocalTime where
  ms : Fin 1000
  deriving DecidableEq, Repr

def Bound.instant (b : Bound) : ℤ := b.toLocalTime.instant + b.ms

/-- `normalize_date` -/
def Bound.normalized (b : Bound) : String := String.ofList (utcText b.instant)

def Bound.InYears (b : Bound) : Prop := b.instant < lastDay * 86400000

instance (b : Bound) : Decidable b.InYears := inferInstanceAs (Decidable (_ < _))

theorem Bound.sortable {b : Bound} (h : b.InYears) : Sortable b.instant := by
  refine ⟨?_, h⟩
  have hyear := b.year.1
  have hzone := b.zone
  unfold Bound.instant LocalTime.instant
  omega

def GatewayMessageQuery.within (query : GatewayMessageQuery) (since before : Option Bound) :
    GatewayMessageQuery :=
  { query with since := since.map Bound.normalized, before := before.map Bound.normalized }

section

variable [Platform] [Sqlite]

/-- Whoever compares the dates of these messages compares their instants. -/
structure DatesSort (S : List (DateSource × Message)) (since before : Option Bound) : Prop where
  order : ∀ x ∈ S, ∀ y ∈ S, x.2.date < y.2.date ↔ x.1.instant < y.1.instant
  /-- The listing is newest first. -/
  listing : ∀ (db : Db) index userId query now page, (∀ m ∈ db.messages, m ∈ S.map Prod.snd) →
    queryMessages db index userId query now = .ok page →
    page.messages.Pairwise fun a b =>
      ∀ x y, (x, a) ∈ S → (y, b) ∈ S → y.instant ≤ x.instant
  /-- No message is evicted while an older one is kept. -/
  eviction : ∀ (db : Db) accountId, (∀ m ∈ db.messages, m ∈ S.map Prod.snd) →
    ∀ gone ∈ db.messages, gone ∉ (db.evict accountId).messages →
    ∀ kept ∈ (db.evict accountId).messages, kept.accountId = accountId →
    ∀ x y, (x, gone) ∈ S → (y, kept) ∈ S → x.instant ≤ y.instant
  /-- The filters select the messages of the interval. -/
  filters : ∀ (db : Db) index userId (query : GatewayMessageQuery) now,
    ∀ x ∈ S, x.2 ∈ wholeResult db ((query.within since before).clauses index userId now) ↔
      x.2 ∈ wholeResult db ((query.within none none).clauses index userId now) ∧
      (∀ b ∈ since, b.instant ≤ x.1.instant) ∧ ∀ b ∈ before, x.1.instant < b.instant
  /-- The last contact is the newest message of the contact. -/
  contacts : ∀ userId ownAddresses messages previous domains, messages ⊆ S.map Prod.snd →
    ∀ c ∈ reconcileContactsForAddresses userId ownAddresses messages previous domains,
    let part := takesPart (contactInputs userId ownAddresses previous domains)
      (Platform.toLowercase c.address)
    ∃ x ∈ S, x.2 ∈ messages ∧ part x.2 = true ∧ c.lastContactAt = x.2.date ∧
      ∀ y ∈ S, y.2 ∈ messages → part y.2 = true → y.1.instant ≤ x.1.instant

/-- The date is written in milliseconds of UTC, and its year has four digits or is the last before
the year 0. -/
def DateSource.Plain (source : DateSource) : Prop :=
  (∀ date, source ≠ .internal date) ∧ Sortable source.instant

omit [Platform] [Sqlite] in
theorem ofList_lt_ofList {a b : List Char} : String.ofList a < String.ofList b ↔ a < b := by
  rw [String.lt_iff_toList_lt, String.toList_ofList, String.toList_ofList]

omit [Platform] [Sqlite] in
theorem DateSource.Plain.text_eq {source : DateSource} (h : source.Plain) :
    source.text = String.ofList (utcText source.instant) := by
  cases source with
  | header second => rfl
  | internal date => exact absurd rfl (h.1 date)
  | completion ms => rfl

/-- The dates of the messages are those of their sources, and these are plain. -/
structure PlainDates (S : List (DateSource × Message)) : Prop where
  date : ∀ x ∈ S, x.2.date = String.ofList (utcText x.1.instant)
  sortable : ∀ x ∈ S, Sortable x.1.instant

section

variable {S : List (DateSource × Message)} (h : PlainDates S)

include h

omit [Platform] [Sqlite] in
theorem PlainDates.order {x y : DateSource × Message} (hx : x ∈ S) (hy : y ∈ S) :
    x.2.date < y.2.date ↔ x.1.instant < y.1.instant := by
  rw [h.date x hx, h.date y hy, ofList_lt_ofList, utcText_lt_iff (h.sortable x hx) (h.sortable y hy)]

omit [Platform] [Sqlite] in
theorem PlainDates.le {x y : DateSource × Message} (hx : x ∈ S) (hy : y ∈ S)
    (hdate : x.2.date ≤ y.2.date) : x.1.instant ≤ y.1.instant := by
  by_contra hlt
  exact absurd ((h.order hy hx).mpr (not_le.mp hlt)) (not_lt.mpr hdate)

theorem PlainDates.listing {db : Db} {index : BodyIndex} {userId : String} {query : MessageQuery}
    {now : String} {page : MessagePage}
    (hpage : queryMessages db index userId query now = .ok page) :
    page.messages.Pairwise fun a b =>
      ∀ x y, (x, a) ∈ S → (y, b) ∈ S → y.instant ≤ x.instant := by
  unfold queryMessages at hpage
  split at hpage
  · cases hpage
  · cases hpage
    have hsorted := pairwise_orderBy Message.newness (selectMessages db
      (query.clauses index userId now ++ query.cursor.toList.map MessageCursor.clause))
    apply List.Pairwise.imp _ hsorted.drop.take.take
    intro a b hab x y hx hy
    apply h.le hy hx
    have hle : toLex (b.date, b.id) ≤ toLex (a.date, a.id) := hab
    rcases Prod.Lex.toLex_le_toLex.mp hle with hlt | ⟨heq, _⟩
    · exact hlt.le
    · exact heq.le

omit [Platform] [Sqlite] in
theorem PlainDates.eviction {db : Db} {accountId : String} {gone kept : Message}
    (hgone : gone ∈ db.messages) (hevicted : gone ∉ (db.evict accountId).messages)
    (hkept : kept ∈ (db.evict accountId).messages) (haccount : kept.accountId = accountId)
    {x y : DateSource} (hx : (x, gone) ∈ S) (hy : (y, kept) ∈ S) : x.instant ≤ y.instant := by
  apply h.le hx hy
  obtain ⟨_, hrecent⟩ := mem_deleteWhere.mp hkept
  have hmany : cacheLimit ≤
      (db.messages.filter fun n => n.accountId == accountId && newerThan n gone).length := by
    by_contra hfew
    exact hevicted (mem_deleteWhere.mpr ⟨hgone, by simp [hfew]⟩)
  by_contra holder
  have hsublist : (db.messages.filter fun n => n.accountId == accountId && newerThan n gone).length
      ≤ (db.messages.filter fun n => n.accountId == accountId && newerThan n kept).length := by
    rw [← List.countP_eq_length_filter, ← List.countP_eq_length_filter]
    apply List.countP_mono_left
    intro n _ hn
    rw [Bool.and_eq_true] at hn ⊢
    refine ⟨hn.1, ?_⟩
    have hdate : kept.date < gone.date := not_le.mp holder
    have hnewer : gone.date ≤ n.date := by
      rcases (by simpa [newerThan] using hn.2 : gone.date < n.date ∨ _) with hlt | ⟨heq, _⟩
      · exact hlt.le
      · exact heq.ge
    simp [newerThan, hdate.trans_le hnewer]
  simp [haccount] at hrecent
  omega

omit [Sqlite] in
theorem PlainDates.contacts {userId : String} {ownAddresses : List String}
    {messages : List Message} {previous : List Contact} {domains : DomainResolver}
    (hmessages : messages ⊆ S.map Prod.snd) {c : Contact}
    (hc : c ∈ reconcileContactsForAddresses userId ownAddresses messages previous domains) :
    let part := takesPart (contactInputs userId ownAddresses previous domains)
      (Platform.toLowercase c.address)
    ∃ x ∈ S, x.2 ∈ messages ∧ part x.2 = true ∧ c.lastContactAt = x.2.date ∧
      ∀ y ∈ S, y.2 ∈ messages → part y.2 = true → y.1.instant ≤ x.1.instant := by
  obtain ⟨_, ⟨m, hm, hpart, hdate⟩, hlast⟩ := notesLast_reconcile hc
  obtain ⟨x, hx, rfl⟩ := List.mem_map.mp (hmessages hm)
  refine ⟨x, hx, hm, hpart, hdate.symm, ?_⟩
  intro y hy hmem hpart'
  apply h.le hy hx
  rw [hdate]
  exact hlast y.2 hmem hpart'

end

omit [Platform] in
theorem clauses_within (query : GatewayMessageQuery)
    (since before : Option Bound) (index : BodyIndex) (userId now : String) (a : Account)
    (m : Message) :
    (∀ c ∈ (query.within since before).clauses index userId now, c a m = true) ↔
      (∀ c ∈ (query.within none none).clauses index userId now, c a m = true) ∧
      (∀ b ∈ since, b.normalized ≤ m.date) ∧ ∀ b ∈ before, m.date < b.normalized := by
  simp only [GatewayMessageQuery.clauses, GatewayMessageQuery.within, List.mem_append, or_imp,
    forall_and]
  cases since with
  | none =>
    cases before with
    | none => simp
    | some upper => simp; tauto
  | some lower =>
    cases before with
    | none => simp; tauto
    | some upper => simp; tauto

omit [Platform] in
theorem mem_wholeResult_within (db : Db) (query : GatewayMessageQuery)
    (since before : Option Bound) (index : BodyIndex) (userId now : String) (m : Message) :
    m ∈ wholeResult db ((query.within since before).clauses index userId now) ↔
      m ∈ wholeResult db ((query.within none none).clauses index userId now) ∧
      (∀ b ∈ since, b.normalized ≤ m.date) ∧ ∀ b ∈ before, m.date < b.normalized := by
  rw [mem_wholeResult, mem_wholeResult]
  constructor
  · rintro ⟨hm, a, ha, hclauses⟩
    obtain ⟨hbase, hbounds⟩ := (clauses_within query since before index userId now a m).mp hclauses
    exact ⟨⟨hm, a, ha, hbase⟩, hbounds⟩
  · rintro ⟨⟨hm, a, ha, hbase⟩, hbounds⟩
    exact ⟨hm, a, ha,
      (clauses_within query since before index userId now a m).mpr ⟨hbase, hbounds⟩⟩

section

variable {S : List (DateSource × Message)} (h : PlainDates S) {b : Bound} (hb : b.InYears)
  {x : DateSource × Message} (hx : x ∈ S)
include h hb hx

omit [Platform] [Sqlite] in
theorem PlainDates.since_iff : b.normalized ≤ x.2.date ↔ b.instant ≤ x.1.instant := by
  rw [← not_lt, ← not_lt, h.date x hx, Bound.normalized, ofList_lt_ofList,
    utcText_lt_iff (h.sortable x hx) (Bound.sortable hb)]

omit [Platform] [Sqlite] in
theorem PlainDates.before_iff : x.2.date < b.normalized ↔ x.1.instant < b.instant := by
  rw [h.date x hx, Bound.normalized, ofList_lt_ofList,
    utcText_lt_iff (h.sortable x hx) (Bound.sortable hb)]

end

theorem PlainDates.datesSort {S : List (DateSource × Message)} (h : PlainDates S)
    {since before : Option Bound} (hsince : ∀ b ∈ since, b.InYears)
    (hbefore : ∀ b ∈ before, b.InYears) : DatesSort S since before where
  order x hx y hy := h.order hx hy
  listing db index userId query now page _ hpage := h.listing hpage
  eviction db accountId _ gone hgone hevicted kept hkept haccount x y hx hy :=
    h.eviction hgone hevicted hkept haccount hx hy
  filters db index userId query now x hx := by
    rw [mem_wholeResult_within]
    apply and_congr_right'
    apply and_congr
    · exact forall₂_congr fun b hb => h.since_iff (hsince b hb) hx
    · exact forall₂_congr fun b hb => h.before_iff (hbefore b hb) hx
  contacts userId ownAddresses messages previous domains hmessages c hc :=
    h.contacts hmessages hc

omit [Platform] in
theorem exists_selecting (m : Message) :
    ∃ (db : Db) (index : BodyIndex) (query : GatewayMessageQuery),
      m ∈ wholeResult db ((query.within none none).clauses index "" "") := by
  let a : Account := { id := m.accountId, userId := "", email := "", createdAt := 0 }
  refine ⟨{ accounts := [a], messages := [m] }, ⟨fun _ => 0, []⟩,
    { accountIds := [m.accountId], limit := 1 }, mem_wholeResult.mpr ⟨by simp, a, ?_, ?_⟩⟩
  · simp [Db.account, a]
  · simp [GatewayMessageQuery.clauses, GatewayMessageQuery.within, ownedBy, nonBlank, pushExact, a]

section

variable {S : List (DateSource × Message)} {x : DateSource × Message}

theorem DatesSort.since_iff {b : Bound} (h : DatesSort S (some b) none) (hx : x ∈ S) :
    b.normalized ≤ x.2.date ↔ b.instant ≤ x.1.instant := by
  obtain ⟨db, index, query, hmem⟩ := exists_selecting x.2
  have hfilters := h.filters db index "" query "" x hx
  rw [mem_wholeResult_within] at hfilters
  simpa [hmem] using hfilters

theorem DatesSort.before_iff {b : Bound} (h : DatesSort S none (some b)) (hx : x ∈ S) :
    x.2.date < b.normalized ↔ x.1.instant < b.instant := by
  obtain ⟨db, index, query, hmem⟩ := exists_selecting x.2
  have hfilters := h.filters db index "" query "" x hx
  rw [mem_wholeResult_within] at hfilters
  simpa [hmem] using hfilters

/-- Every filter whose bounds have years of four digits means what it says. -/
def FiltersSort (S : List (DateSource × Message)) : Prop :=
  ∀ since before : Option Bound, (∀ b ∈ since, b.InYears) → (∀ b ∈ before, b.InYears) →
    DatesSort S since before

variable (h : FiltersSort S) (hx : x ∈ S)
include h hx

theorem FiltersSort.since_iff {b : Bound} (hb : b.InYears) :
    b.normalized ≤ x.2.date ↔ b.instant ≤ x.1.instant :=
  (h (some b) none (by rintro _ ⟨⟩; exact hb) (by simp)).since_iff hx

theorem FiltersSort.before_iff {b : Bound} (hb : b.InYears) :
    x.2.date < b.normalized ↔ x.1.instant < b.instant :=
  (h none (some b) (by simp) (by rintro _ ⟨⟩; exact hb)).before_iff hx

/-- A date in UTC has a year that sorts: the filters from the start of the year 0 and from the
millisecond before it show all others. -/
theorem FiltersSort.sortable
    (hdate : x.2.date = String.ofList (utcText x.1.instant)) : Sortable x.1.instant := by
  constructor
  · by_contra hearly
    have hbound := h.since_iff hx (b := ⟨⟨59, 1, by decide, by decide⟩, 999⟩) (by decide)
    have hlt := utcText_lt_of_lt (not_le.mp hearly) (show -365 * 86400000 ≤ (-1 : ℤ) by decide)
      (by decide)
    rw [hdate] at hbound
    have hinstant := hbound.mp (ofList_lt_ofList.mpr hlt).le
    have hvalue : (⟨⟨59, 1, by decide, by decide⟩, 999⟩ : Bound).instant = -1 := by decide
    omega
  · by_contra hlate
    have hbound := h.since_iff hx (b := ⟨⟨0, 0, by decide, by decide⟩, 0⟩) (by decide)
    have hvalue : (⟨⟨0, 0, by decide, by decide⟩, 0⟩ : Bound).instant = 0 := by decide
    have hlt := utcText_lt_of_ge (not_lt.mp hlate) (show (0 : ℤ) ≤ 0 by decide) (by decide)
    have hlast : 0 ≤ lastDay * 86400000 := by decide
    have htext := hbound.mpr (by omega)
    rw [hdate, Bound.normalized, hvalue] at htext
    exact absurd (ofList_lt_ofList.mpr hlt) (not_lt.mpr htext)

/-- The text of a local time sorts before the milliseconds of the same second of UTC, and behind
those of its own instant if the clock is ahead of UTC. -/
theorem FiltersSort.not_internal {date : LocalTime} (hsource : x.1 = .internal date)
    (hdate : x.2.date = String.ofList (zonedText date.second date.offset)) : False := by
  have hyear := date.year
  have hzone := date.zone
  have hinstant : x.1.instant = (date.second - 60 * date.offset) * 1000 := by
    rw [hsource]
    rfl
  rcases le_or_gt date.offset 0 with hwest | heast
  · let b : Bound := ⟨⟨date.second, 0, date.year, by decide⟩, 0⟩
    have hvalue : b.instant = date.second * 1000 := by
      show (date.second - 60 * 0) * 1000 + ((0 : Fin 1000) : ℤ) = _
      simp
    have hyears : b.InYears := by
      unfold Bound.InYears
      omega
    have htext := (h.since_iff hx hyears).mpr (by omega)
    rw [hdate, Bound.normalized, hvalue] at htext
    exact absurd (ofList_lt_ofList.mpr (zonedText_lt_utcText date.second date.offset))
      (not_lt.mpr htext)
  · let b : Bound := ⟨date, 1⟩
    have hvalue : b.instant = (date.second - 60 * date.offset) * 1000 + 1 := rfl
    have hyears : b.InYears := by
      unfold Bound.InYears
      omega
    have htext := (h.before_iff hx hyears).mpr (by omega)
    rw [hdate, Bound.normalized, hvalue] at htext
    have hlt := utcText_lt_zonedText
      (show -365 * 86400000 ≤ (date.second - 60 * date.offset) * 1000 + 1 by omega) (by omega)
      hyear.2 date.offset
    exact absurd (ofList_lt_ofList.mpr hlt) (lt_asymm htext)

end

/-- The text order of the dates is the order of their instants, for the listing, the eviction, the
filters and the contacts, if and only if no date is an INTERNALDATE and all years sort. -/
theorem dates_sort_iff [MailParser] (S : List (DateSource × Message))
    (hcached : ∀ x ∈ S, CachedFrom x.1 x.2) :
    FiltersSort S ↔ ∀ x ∈ S, x.1.Plain := by
  constructor
  · intro h x hx
    have hdate := (hcached x hx).date
    have hinternal : ∀ date, x.1 ≠ .internal date := by
      intro date hsource
      rw [hsource] at hdate
      exact h.not_internal hx hsource hdate
    refine ⟨hinternal, h.sortable hx ?_⟩
    rw [hdate]
    cases hsource : x.1 with
    | header second => rfl
    | internal date => exact absurd hsource (hinternal date)
    | completion ms => rfl
  · intro h since before hsince hbefore
    have hplain : PlainDates S :=
      ⟨fun x hx => (hcached x hx).date.trans (h x hx).text_eq, fun x hx => (h x hx).2⟩
    exact hplain.datesSort hsince hbefore

end

/-- Mail without a `Date` header, or with one of three o'clock on the tenth of August 2026. -/
@[reducible] def datedMail : MailParser where
  parse source := some
    { date := if source.isEmpty then none else some (DateSource.header 63953550000).text }

def datedMessage (id : String) (source : DateSource) : Message :=
  { id, accountId := "a", mailbox := "INBOX", mailboxRole := "inbox", uid := 1, date := source.text }

/-- Ten o'clock in a time zone eight hours ahead of UTC, an hour before the `Date` header. -/
def tenInTheMorning : LocalTime := ⟨63953575200, 480, by decide, by decide⟩

theorem cachedFrom_header (id : String) :
    let _ := Platform.plain
    let _ := datedMail
    CachedFrom (.header 63953550000) (datedMessage id (.header 63953550000)) :=
  ⟨"a", "INBOX", "inbox", ⟨1, [1], none, true, false⟩, "", _, _, rfl, rfl, rfl, rfl⟩

theorem cachedFrom_internal (id : String) :
    let _ := Platform.plain
    let _ := datedMail
    CachedFrom (.internal tenInTheMorning) (datedMessage id (.internal tenInTheMorning)) :=
  ⟨"a", "INBOX", "inbox", ⟨1, [], some (DateSource.internal tenInTheMorning).text, true, false⟩, "",
    _, _, rfl, ⟨rfl, rfl⟩, rfl, rfl⟩

theorem cachedFrom_completion (id : String) :
    let _ := Platform.plain
    let _ := datedMail
    CachedFrom (.completion 63953549999999) (datedMessage id (.completion 63953549999999)) :=
  ⟨"a", "INBOX", "inbox", ⟨1, [], none, true, false⟩, (DateSource.completion 63953549999999).text,
    _, _, rfl, ⟨rfl, rfl, rfl⟩, rfl, rfl⟩

/-- A `Date` header and the time of a commit a millisecond before it. -/
theorem dates_sort_header_completion :
    let _ := Platform.plain
    let _ := Sqlite.plain
    let _ := datedMail
    let S : List (DateSource × Message) :=
      [(.header 63953550000, datedMessage "1" (.header 63953550000)),
        (.completion 63953549999999, datedMessage "2" (.completion 63953549999999))]
    (∀ x ∈ S, CachedFrom x.1 x.2) ∧ FiltersSort S := by
  intro platform sqlite parser S
  have hcached : ∀ x ∈ S, CachedFrom x.1 x.2 := by
    intro x hx
    rcases List.mem_pair.mp hx with rfl | rfl
    · exact cachedFrom_header "1"
    · exact cachedFrom_completion "2"
  refine ⟨hcached, (dates_sort_iff S hcached).mpr ?_⟩
  intro x hx
  rcases List.mem_pair.mp hx with rfl | rfl
  · exact ⟨by simp, by decide⟩
  · exact ⟨by simp, by decide⟩

/-- The INTERNALDATE of two o'clock UTC sorts behind the `Date` header of three o'clock, and a
filter from half past two on returns it. -/
theorem internal_date_of_other_zone :
    let _ := Platform.plain
    let _ := Sqlite.plain
    let _ := datedMail
    let earlier := datedMessage "1" (.internal tenInTheMorning)
    let later := datedMessage "2" (.header 63953550000)
    let S : List (DateSource × Message) :=
      [(.internal tenInTheMorning, earlier), (.header 63953550000, later)]
    let halfPastTwo : Bound := ⟨⟨63953548200, 0, by decide, by decide⟩, 0⟩
    let db : Db :=
      { accounts := [{ id := "a", userId := "u", email := "", createdAt := 0 }]
        messages := [earlier, later] }
    let query : GatewayMessageQuery :=
      { accountIds := ["a"], limit := 10, since := some halfPastTwo.normalized }
    (∀ x ∈ S, CachedFrom x.1 x.2) ∧
      tenInTheMorning.instant < halfPastTwo.instant ∧
      halfPastTwo.instant < (DateSource.header 63953550000).instant ∧
      later.date < earlier.date ∧
      queryGatewayMessages db ⟨fun _ => 0, []⟩ "u" query "" = .ok ⟨[earlier, later], false⟩ ∧
      ¬ DatesSort S none none := by
  intro platform sqlite parser earlier later S halfPastTwo db query
  have hcached : ∀ x ∈ S, CachedFrom x.1 x.2 := by
    intro x hx
    rcases List.mem_pair.mp hx with rfl | rfl
    · exact cachedFrom_internal "1"
    · exact cachedFrom_header "2"
  refine ⟨hcached, by decide, by decide, by decide +kernel, ?_, ?_⟩
  · subst query db halfPastTwo later earlier platform sqlite
    decide +kernel
  · intro h
    have horder := (h.order (.header 63953550000, later) (by simp [S])
      (.internal tenInTheMorning, earlier) (by simp [S])).mp (by decide +kernel)
    exact absurd horder (by decide)

end IMail
