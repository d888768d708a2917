import IMail.Messages.Dates
import IMail.Messages.Reads

/-!
# Snoozed messages

`validate_patch` takes any RFC 3339 text that ends in `Z`, and every view compares this text with
the text of its clock. The clock of the application has milliseconds and a `Z`, the one behind
the filters of the gateway as many digits as the time needs and an offset.
-/

namespace IMail

open Text

def fractionText (digits n : ℕ) : List Char := if digits = 0 then [] else '.' :: padded digits n

structure Reading where
  second : ℤ
  nano : ℕ
  nonneg : 0 ≤ second
  inYears : second < lastDay * 86400
  nano_lt : nano < 10 ^ 9

def Reading.text (now : Reading) (digits : ℕ) (zone : List Char) : List Char :=
  civilText now.second ++ (fractionText digits (now.nano / 10 ^ (9 - digits)) ++ zone)

/-- The digits of `SecondsFormat::AutoSi`. -/
def Reading.autoDigits (now : Reading) : ℕ :=
  if now.nano = 0 then 0 else if now.nano % 10 ^ 6 = 0 then 3 else if now.nano % 10 ^ 3 = 0 then 6
  else 9

/-- `to_rfc3339_opts(SecondsFormat::Millis, true)` -/
def Reading.millis (now : Reading) : String := String.ofList (now.text 3 ['Z'])

/-- `to_rfc3339()` -/
def Reading.auto (now : Reading) : String :=
  String.ofList (now.text now.autoDigits "+00:00".toList)

/-- A text that `validate_patch` accepts: `parse_from_rfc3339` takes three separators and any
number of digits. -/
structure Deadline where
  second : ℤ
  separator : Char
  digits : ℕ
  fraction : ℕ
  nonneg : 0 ≤ second
  inYears : second < lastDay * 86400
  separator_mem : separator ∈ ['T', 't', ' ']
  fraction_lt : fraction < 10 ^ digits

namespace Deadline

def text (v : Deadline) : List Char :=
  dateText (v.second / 86400) ++ v.separator :: ((timeText (v.second % 86400).toNat).tail ++
    (fractionText v.digits v.fraction ++ ['Z']))

def nano (v : Deadline) : ℕ := v.fraction * 10 ^ 9 / 10 ^ v.digits

def After (v : Deadline) (now : Reading) : Prop :=
  now.second < v.second ∨ (now.second = v.second ∧ now.nano < v.nano)

instance (v : Deadline) (now : Reading) : Decidable (v.After now) :=
  inferInstanceAs (Decidable (_ ∨ _))

def SharesDigits (v : Deadline) (now : Reading) (digits : ℕ) : Prop :=
  now.nano / 10 ^ (9 - min digits v.digits) = v.nano / 10 ^ (9 - min digits v.digits)

instance (v : Deadline) (now : Reading) (digits : ℕ) : Decidable (v.SharesDigits now digits) :=
  inferInstanceAs (Decidable (_ = _))

end Deadline

theorem padded_add (a b n : ℕ) : padded (a + b) n = padded a (n / 10 ^ b) ++ padded b n := by
  induction a with
  | zero => simp [padded]
  | succ a ih =>
    rw [Nat.succ_add_eq_add_succ, Nat.add_succ, padded_succ, padded_succ, ih, List.cons_append,
      Nat.div_div_eq_div_mul, ← pow_add, Nat.add_comm b a]

variable {k n t : ℕ} {messages : List Message} {m : Message}

theorem padded_of_le {m : ℕ} (h : m ≤ k) (n : ℕ) :
    padded k n = padded m (n / 10 ^ (k - m)) ++ padded (k - m) n := by
  rw [← padded_add, Nat.add_sub_cancel' h]

theorem append_lt_append_iff (front u v : List Char) : front ++ u < front ++ v ↔ u < v := by
  induction front with
  | nil => rfl
  | cons c front ih => simp [ih]

theorem digit_between (n : ℕ) : '+' < Nat.digitChar (n % 10) ∧ Nat.digitChar (n % 10) < 'Z' := by
  have hdigit : n % 10 < 10 := Nat.mod_lt _ (by decide)
  generalize n % 10 = d at hdigit
  interval_cases d <;> decide

theorem div_lt_pow {m : ℕ} (h : n < 10 ^ k) (hm : m ≤ k) : n / 10 ^ (k - m) < 10 ^ m := by
  rw [Nat.div_lt_iff_lt_mul (by positivity), ← pow_add, Nat.add_sub_cancel' hm]
  exact h

theorem rest_lt {a b : ℕ} (h : a = 0 ∨ b = 0) {zone : List Char}
    (hzone : zone = ['Z'] ∨ zone = "+00:00".toList) :
    padded a t ++ zone < padded b n ++ ['Z'] ↔ zone ≠ ['Z'] ∨ b < a := by
  cases a with
  | succ a =>
    obtain rfl : b = 0 := by omega
    simp only [Nat.zero_lt_succ, or_true, iff_true]
    exact List.cons_lt_cons_iff.mpr (Or.inl (digit_between (t / 10 ^ a)).2)
  | zero =>
    cases b with
    | zero =>
      rw [padded, padded]
      rcases hzone with rfl | rfl <;> decide
    | succ b =>
      obtain ⟨hsign, hletter⟩ := digit_between (n / 10 ^ b)
      rcases hzone with rfl | rfl
      · simp [padded, List.cons_lt_cons_iff, hletter.not_gt, hletter.ne']
      · have hplus : "+00:00".toList ≠ ['Z'] := by decide
        simp only [hplus, ne_eq, not_false_eq_true, true_or, iff_true]
        exact List.cons_lt_cons_iff.mpr (Or.inl hsign)

theorem fractionText_lt {j : ℕ} (ht : t < 10 ^ j) (hn : n < 10 ^ k) {zone : List Char}
    (hzone : zone = ['Z'] ∨ zone = "+00:00".toList) :
    fractionText j t ++ zone < fractionText k n ++ ['Z'] ↔
      t / 10 ^ (j - min j k) < n / 10 ^ (k - min j k) ∨
        (t / 10 ^ (j - min j k) = n / 10 ^ (k - min j k) ∧ (zone ≠ ['Z'] ∨ k < j)) := by
  rcases Nat.eq_zero_or_pos (min j k) with hmin | hmin
  · -- a point sorts between the signs and the letters too
    rw [hmin, Nat.sub_zero, Nat.sub_zero, Nat.div_eq_of_lt ht, Nat.div_eq_of_lt hn]
    simp only [lt_irrefl, true_and, false_or]
    rcases Nat.eq_zero_or_pos j with rfl | hj
    · rcases Nat.eq_zero_or_pos k with rfl | hk
      · rw [fractionText, if_pos rfl, fractionText, if_pos rfl]
        rcases hzone with rfl | rfl <;> decide
      · rw [fractionText, if_pos rfl, fractionText, if_neg hk.ne']
        rcases hzone with rfl | rfl
        · simp [List.cons_lt_cons_iff]
        · simp [List.cons_lt_cons_iff]
    · obtain rfl : k = 0 := by omega
      rw [fractionText, if_neg hj.ne', fractionText, if_pos rfl]
      simp [List.cons_lt_cons_iff, hj]
  · have hj : j ≠ 0 := by omega
    have hk : k ≠ 0 := by omega
    rw [fractionText, if_neg hj, fractionText, if_neg hk, padded_of_le (min_le_left j k),
      padded_of_le (min_le_right j k)]
    simp only [List.cons_append, List.append_assoc]
    rw [List.cons_lt_cons_iff, padded_append_lt (div_lt_pow ht (min_le_left j k))
      (div_lt_pow hn (min_le_right j k)), rest_lt (by omega) hzone]
    have hrest : k - min j k < j - min j k ↔ k < j := by omega
    simp [hrest]

namespace Deadline

variable {v : Deadline} {now : Reading} {j : ℕ} {zone : List Char}

structure ComparesWith (v : Deadline) (now : Reading) (j : ℕ) (zone : List Char) : Prop where
  space : v.second / 86400 = now.second / 86400 → v.separator = ' ' → ¬ v.After now
  lower : v.second / 86400 = now.second / 86400 → v.separator = 't' → v.After now
  digits : v.separator = 'T' → v.second = now.second → v.SharesDigits now j →
    ((zone ≠ ['Z'] ∨ v.digits < j) ↔ now.nano < v.nano)

theorem nano_div {m : ℕ} (hm : m ≤ 9) (hdigits : m ≤ v.digits) :
    v.nano / 10 ^ (9 - m) = v.fraction / 10 ^ (v.digits - m) := by
  obtain ⟨c, hc⟩ := Nat.exists_eq_add_of_le hdigits
  obtain ⟨d, hd⟩ := Nat.exists_eq_add_of_le hm
  have hpow : 10 ^ (m + c) * 10 ^ d = 10 ^ c * 10 ^ (m + d) := by ring
  rw [nano, hc, hd, Nat.add_sub_cancel_left, Nat.add_sub_cancel_left, Nat.div_div_eq_div_mul, hpow,
    Nat.mul_div_mul_right _ _ (by positivity)]

theorem text_of_upper (h : v.separator = 'T') :
    v.text = civilText v.second ++ (fractionText v.digits v.fraction ++ ['Z']) := by
  simp [text, civilText, timeText, h]

theorem text_lt_iff_of_second (hupper : v.separator = 'T') (hsecond : v.second = now.second)
    (hj : j ≤ 9) (hzone : zone = ['Z'] ∨ zone = "+00:00".toList) :
    (now.text j zone < v.text ↔ v.After now) ↔
      (v.SharesDigits now j → ((zone ≠ ['Z'] ∨ v.digits < j) ↔ now.nano < v.nano)) := by
  have hclock : now.nano / 10 ^ (9 - j) / 10 ^ (j - min j v.digits) =
      now.nano / 10 ^ (9 - min j v.digits) := by
    rw [Nat.div_div_eq_div_mul, ← pow_add]
    congr 2
    omega
  have hafter : v.After now ↔ now.nano < v.nano := by simp [After, hsecond]
  rw [Reading.text, text_of_upper hupper, hsecond, append_lt_append_iff, hafter,
    fractionText_lt (div_lt_pow now.nano_lt hj) v.fraction_lt hzone, hclock,
    ← nano_div ((min_le_left _ _).trans hj) (min_le_right _ _)]
  rcases lt_trichotomy (now.nano / 10 ^ (9 - min j v.digits))
    (v.nano / 10 ^ (9 - min j v.digits)) with hlt | heq | hgt
  · simp [SharesDigits, hlt, hlt.ne, Nat.lt_of_div_lt_div hlt]
  · simp [SharesDigits, heq]
  · simp [SharesDigits, hgt.not_gt, hgt.ne', (Nat.lt_of_div_lt_div hgt).le]

theorem text_lt_iff_of_day (hday : v.second / 86400 ≠ now.second / 86400) :
    now.text j zone < v.text ↔ v.After now := by
  have hv := v.nonneg
  have hvyears := v.inYears
  have hnow := now.nonneg
  have hyears := now.inYears
  rw [Reading.text, text, civilText, List.append_assoc]
  rcases hday.lt_or_gt with hlt | hgt
  · have hnot : ¬ v.After now := by
      rw [After]
      omega
    exact iff_of_false (dateText_append_lt (by omega) hlt (by omega) _ _).not_gt hnot
  · exact iff_of_true (dateText_append_lt (by omega) hgt (by omega) _ _) (Or.inl (by omega))

theorem text_lt_iff_of_ne (hupper : v.separator = 'T') (hsecond : v.second ≠ now.second) :
    now.text j zone < v.text ↔ v.After now := by
  have hv := v.nonneg
  have hvyears := v.inYears
  have hnow := now.nonneg
  have hyears := now.inYears
  rw [Reading.text, text_of_upper hupper]
  rcases hsecond.lt_or_gt with hlt | hgt
  · have hnot : ¬ v.After now := by
      rw [After]
      omega
    exact iff_of_false (civilText_append_lt (by omega) hlt (by omega) _ _).not_gt hnot
  · exact iff_of_true (civilText_append_lt (by omega) hgt (by omega) _ _) (Or.inl hgt)

theorem text_lt_iff_separator (hday : v.second / 86400 = now.second / 86400)
    (hne : v.separator ≠ 'T') : now.text j zone < v.text ↔ 'T' < v.separator := by
  rw [Reading.text, text, civilText, List.append_assoc, hday, append_lt_append_iff, timeText,
    List.cons_append, List.cons_lt_cons_iff]
  simp [hne.symm]

theorem text_lt_iff_after (hj : j ≤ 9) (hzone : zone = ['Z'] ∨ zone = "+00:00".toList) :
    (now.text j zone < v.text ↔ v.After now) ↔ v.ComparesWith now j zone := by
  by_cases hday : v.second / 86400 = now.second / 86400
  · have hseparator : v.separator = 'T' ∨ v.separator = 't' ∨ v.separator = ' ' := by
      simpa using v.separator_mem
    rcases hseparator with hupper | hlower | hspace
    · by_cases hsecond : v.second = now.second
      · rw [text_lt_iff_of_second hupper hsecond hj hzone]
        refine ⟨fun h => ⟨?_, ?_, fun _ _ => h⟩, fun h => h.digits hupper hsecond⟩
        · simp [hupper]
        · simp [hupper]
      · refine iff_of_true (text_lt_iff_of_ne hupper hsecond) ⟨?_, ?_, fun _ h => absurd h hsecond⟩
        · simp [hupper]
        · simp [hupper]
    · have hlt : 'T' < 't' := by decide
      rw [text_lt_iff_separator hday (by simp [hlower]), hlower, iff_true_left hlt]
      refine ⟨fun h => ⟨?_, fun _ _ => h, ?_⟩, fun h => h.lower hday hlower⟩
      · simp [hlower]
      · simp [hlower]
    · have hlt : ¬ 'T' < ' ' := by decide
      rw [text_lt_iff_separator hday (by simp [hspace]), hspace, iff_false_left hlt]
      refine ⟨fun h => ⟨fun _ _ => h, ?_, ?_⟩, fun h => h.space hday hspace⟩
      · simp [hspace]
      · simp [hspace]
  · refine iff_of_true (text_lt_iff_of_day hday)
      ⟨fun h => absurd h hday, fun h => absurd h hday, fun _ h => ?_⟩
    exact absurd (congrArg (· / 86400) h) hday

end Deadline

inductive NotificationKind
  | error | snooze | unread
  deriving DecidableEq, Repr

structure NotificationView where
  id : String
  kind : NotificationKind
  title : String
  detail : String
  date : String
  messageId : Option String
  accountId : String
  deriving DecidableEq, Repr

/-- `sender_detail` -/
def senderDetail (m : Message) : String :=
  if m.sender.name.isEmpty then m.sender.address else m.sender.name

def accountNotice (dateText : Time → String) (a : Account) : Option NotificationView :=
  if a.status = .error then
    some
      { id := "account-" ++ a.id
        kind := .error
        title := a.displayName ++ " 连接异常"
        detail := a.lastError.getD a.email
        date := dateText (a.lastSyncAt.getD a.createdAt)
        messageId := none
        accountId := a.id }
  else none

def snoozeNotice (now : String) (m : Message) : Option NotificationView :=
  if m.snoozedUntil.any (· ≤ now) then
    some
      { id := "snooze-" ++ m.id
        kind := .snooze
        title := m.subject
        detail := "稍后处理的邮件已返回收件箱"
        date := m.snoozedUntil.getD ""
        messageId := some m.id
        accountId := m.accountId }
  else none

def unreadNotice (now : String) (m : Message) : Option NotificationView :=
  if m.mailboxRole = "inbox" ∧ m.unread ∧ m.snoozedUntil.all (· ≤ now) then
    some
      { id := "unread-" ++ m.id
        kind := .unread
        title := m.subject
        detail := senderDetail m
        date := m.date
        messageId := some m.id
        accountId := m.accountId }
  else none

/-- `build_notifications`; the dates of accounts are texts in the source. -/
def buildNotifications (dateText : Time → String) (accounts : List Account)
    (messages : List Message) (limit : ℕ) (now : String) : List NotificationView :=
  ((accounts.filterMap (accountNotice dateText) ++ messages.filterMap (snoozeNotice now) ++
    messages.filterMap (unreadNotice now)).mergeSort fun a b => b.date ≤ a.date).take limit

theorem exists_mem_filterMap_notice {notice : Message → Option NotificationView}
    (hnotice : ∀ m n, notice m = some n → n.messageId = some m.id)
    (hids : (messages.map (·.id)).Nodup) (hm : m ∈ messages) :
    (∃ n ∈ messages.filterMap notice, n.messageId = some m.id) ↔ (notice m).isSome := by
  constructor
  · rintro ⟨n, hn, hid⟩
    obtain ⟨m', hm', hn⟩ := List.mem_filterMap.mp hn
    rw [hnotice m' n hn, Option.some.injEq] at hid
    obtain rfl := List.inj_on_of_nodup_map hids hm' hm hid
    rw [hn]
    rfl
  · intro h
    obtain ⟨n, hn⟩ := Option.isSome_iff_exists.mp h
    exact ⟨n, List.mem_filterMap.mpr ⟨m, hm, hn⟩, hnotice m n hn⟩

theorem exists_mem_notices (dateText : Time → String) (accounts : List Account) {now : String}
    (hids : (messages.map (·.id)).Nodup) (hm : m ∈ messages) :
    (∃ n ∈ accounts.filterMap (accountNotice dateText) ++ messages.filterMap (snoozeNotice now) ++
        messages.filterMap (unreadNotice now), n.messageId = some m.id) ↔
      (snoozeNotice now m).isSome ∨ (unreadNotice now m).isSome := by
  have haccount : ¬ ∃ n ∈ accounts.filterMap (accountNotice dateText), n.messageId = some m.id := by
    rintro ⟨n, hn, hid⟩
    obtain ⟨a, _, hn⟩ := List.mem_filterMap.mp hn
    simp only [accountNotice, Option.ite_none_right_eq_some, Option.some.injEq] at hn
    rw [← hn.2] at hid
    cases hid
  have hsnooze : ∀ m n, snoozeNotice now m = some n → n.messageId = some m.id := by
    intro m n hn
    simp only [snoozeNotice, Option.ite_none_right_eq_some, Option.some.injEq] at hn
    rw [← hn.2]
  have hunread : ∀ m n, unreadNotice now m = some n → n.messageId = some m.id := by
    intro m n hn
    simp only [unreadNotice, Option.ite_none_right_eq_some, Option.some.injEq] at hn
    rw [← hn.2]
  simp only [List.mem_append, or_and_right, exists_or, haccount, false_or,
    exists_mem_filterMap_notice hsnooze hids hm, exists_mem_filterMap_notice hunread hids hm]

theorem notice_iff {deadline now : String} (h : m.snoozedUntil = some deadline) :
    (snoozeNotice now m).isSome ∨ (unreadNotice now m).isSome ↔ ¬ now < deadline := by
  by_cases hle : deadline ≤ now
  · exact iff_of_true (by simp [snoozeNotice, h, hle]) hle.not_gt
  · exact iff_of_false (by simp [snoozeNotice, unreadNotice, h, hle]) (not_not.mpr (not_le.mp hle))

structure Snoozed (db : Db) (userId : String) (deadline : String) (a : Account) (m : Message) :
    Prop where
  stored : m ∈ db.messages
  account : db.account m.accountId = some a
  owner : a.userId = userId
  deadline : m.snoozedUntil = some deadline

structure SnoozesByInstant [Sqlite] (v : Deadline) (now : Reading) : Prop where
  inbox : ∀ db userId a m index limit, Snoozed db userId (String.ofList v.text) a m →
    m.mailboxRole = "inbox" →
    (m ∈ selectMessages db (({ mailboxRole := some "inbox", limit } : MessageQuery).clauses
      index userId now.millis) ↔ ¬ v.After now)
  stats : ∀ db userId a m, Snoozed db userId (String.ofList v.text) a m →
    m.mailboxRole = "inbox" →
    ((a, m) ∈ joinedMessages db (statsClauses userId now.millis) ↔ ¬ v.After now)
  snoozed : ∀ db userId a m index limit, Snoozed db userId (String.ofList v.text) a m →
    (m ∈ selectMessages db (({ snoozed := true, limit } : MessageQuery).clauses
      index userId now.millis) ↔ v.After now)
  filter : ∀ db userId a m index limit, Snoozed db userId (String.ofList v.text) a m →
    (m ∈ selectMessages db (({ filters := some { snoozed := some true }, limit } :
      MessageQuery).clauses index userId now.millis) ↔ v.After now)
  gateway : ∀ db userId a m index limit, Snoozed db userId (String.ofList v.text) a m →
    (m ∈ selectMessages db
      (({ filters := some { snoozed := some true }, accountIds := [m.accountId], limit } :
        GatewayMessageQuery).clauses index userId now.auto) ↔ v.After now)
  notices : ∀ dateText accounts (messages : List Message) limit (m : Message), m ∈ messages →
    (messages.map (·.id)).Nodup → m.snoozedUntil = some (String.ofList v.text) →
    accounts.length + 2 * messages.length ≤ limit →
    ((∃ n ∈ buildNotifications dateText accounts messages limit now.millis,
      n.messageId = some m.id) ↔ ¬ v.After now)

section

variable [Sqlite] {v : Deadline} {now : Reading}

omit [Sqlite] in
theorem snoozedAt_iff {clock : String} {m : Message} {deadline : String}
    (h : m.snoozedUntil = some deadline) (a : Account) :
    snoozedAt clock a m = true ↔ clock < deadline := by
  rw [snoozedAt, h, Option.any_some, decide_eq_true_iff]

omit [Sqlite] in
theorem Reading.autoDigits_le (now : Reading) : now.autoDigits ≤ 9 := by
  unfold Reading.autoDigits
  split_ifs <;> decide

theorem SnoozesByInstant.of_texts (hmillis : now.millis < String.ofList v.text ↔ v.After now)
    (hauto : now.auto < String.ofList v.text ↔ v.After now) : SnoozesByInstant v now where
  inbox := by
    intro db userId a m index limit h hinbox
    have hnot : String.ofList v.text ≤ now.millis ↔ ¬ v.After now := by rw [← hmillis, not_lt]
    simp [selectMessages, MessageQuery.clauses, pushExact, nonBlank, ownedBy, notSnoozedAt,
      h.stored, h.account, h.owner, h.deadline, hinbox, hnot]
  stats := by
    intro db userId a m h hinbox
    have hnot : String.ofList v.text ≤ now.millis ↔ ¬ v.After now := by rw [← hmillis, not_lt]
    simp [joinedMessages, statsClauses, ownedBy, notSnoozedAt, Option.filter,
      h.stored, h.account, h.owner, h.deadline, hinbox, hnot]
  snoozed := by
    intro db userId a m index limit h
    simp [selectMessages, MessageQuery.clauses, pushExact, nonBlank, ownedBy,
      snoozedAt_iff h.deadline, h.stored, h.account, h.owner, hmillis]
  filter := by
    intro db userId a m index limit h
    simp [selectMessages, MessageQuery.clauses, SearchFilters.clauses, pushExact, nonBlank, ownedBy,
      snoozedAt_iff h.deadline, h.stored, h.account, h.owner, hmillis]
  gateway := by
    intro db userId a m index limit h
    simp [selectMessages, GatewayMessageQuery.clauses, SearchFilters.clauses, pushExact, nonBlank,
      ownedBy, snoozedAt_iff h.deadline, h.stored, h.account, h.owner, hauto]
  notices := by
    intro dateText accounts messages limit m hm hids hdeadline hlimit
    rw [← hmillis, ← notice_iff hdeadline, ← exists_mem_notices dateText accounts hids hm,
      buildNotifications,
      List.take_of_length_le]
    · simp only [List.mem_mergeSort]
    · have haccounts := List.length_filterMap_le (accountNotice dateText) accounts
      have hsnooze := List.length_filterMap_le (snoozeNotice now.millis) messages
      have hunread := List.length_filterMap_le (unreadNotice now.millis) messages
      simp only [List.length_mergeSort, List.length_append]
      omega

def snoozedMessage (deadline : String) : Message :=
  { id := "m1", accountId := "a1", mailbox := "INBOX", mailboxRole := "inbox", uid := 1,
    snoozedUntil := some deadline }

def snoozedAccount : Account :=
  { id := "a1", userId := "ann", email := "ann@example.com", createdAt := 0 }

def snoozedDb (deadline : String) : Db :=
  { accounts := [snoozedAccount], messages := [snoozedMessage deadline] }

omit [Sqlite] in
theorem snoozed_snoozedDb (deadline : String) :
    Snoozed (snoozedDb deadline) "ann" deadline snoozedAccount (snoozedMessage deadline) :=
  ⟨List.mem_singleton_self _, rfl, rfl, rfl⟩

theorem SnoozesByInstant.texts (h : SnoozesByInstant v now) :
    (now.millis < String.ofList v.text ↔ v.After now) ∧
      (now.auto < String.ofList v.text ↔ v.After now) := by
  have hsnoozed := snoozed_snoozedDb (String.ofList v.text)
  have hlisted := h.snoozed _ _ _ _ ⟨fun _ => 0, []⟩ 1 hsnoozed
  have hgateway := h.gateway _ _ _ _ ⟨fun _ => 0, []⟩ 1 hsnoozed
  constructor
  · rw [← hlisted]
    simp [selectMessages, MessageQuery.clauses, pushExact, nonBlank, ownedBy,
      snoozedAt_iff hsnoozed.deadline, hsnoozed.stored, hsnoozed.account, hsnoozed.owner]
  · rw [← hgateway]
    simp [selectMessages, GatewayMessageQuery.clauses, SearchFilters.clauses, pushExact, nonBlank,
      ownedBy, snoozedAt_iff hsnoozed.deadline, hsnoozed.stored, hsnoozed.account, hsnoozed.owner]

/-- The views go by the instant if and only if the texts of both clocks compare as the times. -/
theorem snoozes_by_instant_iff (v : Deadline) (now : Reading) :
    SnoozesByInstant v now ↔
      v.ComparesWith now 3 ['Z'] ∧ v.ComparesWith now now.autoDigits "+00:00".toList := by
  rw [← Deadline.text_lt_iff_after (by decide) (Or.inl rfl),
    ← Deadline.text_lt_iff_after now.autoDigits_le (Or.inr rfl), ← ofList_lt_ofList,
    ← ofList_lt_ofList]
  exact ⟨SnoozesByInstant.texts, fun h => SnoozesByInstant.of_texts h.1 h.2⟩

end

def tenSharp : Deadline :=
  { second := 63953575200, separator := 'T', digits := 0, fraction := 0, nonneg := by decide,
    inYears := by decide, separator_mem := by decide, fraction_lt := by decide }

def halfSecondLater : Reading :=
  { second := 63953575200, nano := 500000000, nonneg := by decide, inYears := by decide,
    nano_lt := by decide }

/-- A deadline without a fraction has passed, and its message is still listed as snoozed. -/
theorem deadline_without_fraction :
    let _ := Sqlite.plain
    let deadline := String.ofList tenSharp.text
    deadline = "2026-08-10T10:00:00Z" ∧ halfSecondLater.millis = "2026-08-10T10:00:00.500Z" ∧
      ¬ tenSharp.After halfSecondLater ∧
      selectMessages (snoozedDb deadline) (({ snoozed := true, limit := 20 } : MessageQuery).clauses
        ⟨fun _ => 0, []⟩ "ann" halfSecondLater.millis) = [snoozedMessage deadline] ∧
      ¬ SnoozesByInstant tenSharp halfSecondLater := by
  intro sqlite deadline
  have hafter : ¬ tenSharp.After halfSecondLater := by decide
  have hlisted : selectMessages (snoozedDb deadline)
      (({ snoozed := true, limit := 20 } : MessageQuery).clauses ⟨fun _ => 0, []⟩ "ann"
        halfSecondLater.millis) = [snoozedMessage deadline] := by
    subst sqlite deadline
    decide +kernel
  refine ⟨by decide +kernel, by decide +kernel, hafter, hlisted, fun h => hafter ?_⟩
  refine (h.snoozed _ _ _ _ ⟨fun _ => 0, []⟩ 20 (snoozed_snoozedDb deadline)).mp ?_
  exact hlisted ▸ List.mem_singleton_self _

end IMail
