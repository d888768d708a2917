import IMail.Store.CommitTables
import IMail.Sync.LocalState

/-!
# The messages of an account by their ids

A table with unique ids and the summaries of the messages of an account, which
`commit_mailbox_sync` compares before and after; and plans that the planner does not make.
-/

namespace IMail

open Relational

variable {m : Message} {accountId : String} {messages : List Message} {db : Db}

theorem findById_of_mem (h : UniqueBy (fun m => some m.id) messages) (hm : m ∈ messages) :
    findById messages m.id = some m := by
  unfold findById
  cases hfind : messages.find? fun n => n.id == m.id with
  | none =>
    have hnone := List.find?_eq_none.mp hfind m hm
    simp at hnone
  | some n =>
    have hid := List.find?_some hfind
    simp only [beq_iff_eq] at hid
    rw [h.eq_of_mem (List.mem_of_find?_eq_some hfind) hm rfl (congrArg some hid.symm)]

theorem mem_syncMessageSummaries :
    m ∈ syncMessageSummaries db accountId ↔
      ∃ row ∈ db.messages, row.accountId = accountId ∧ row.summary = m := by
  simp [syncMessageSummaries, and_assoc]

theorem uniqueBy_syncMessageSummaries (h : UniqueBy (fun m => some m.id) db.messages)
    (accountId : String) : UniqueBy (fun m => some m.id) (syncMessageSummaries db accountId) := by
  unfold syncMessageSummaries
  apply List.pairwise_map.mpr
  have hids : ∀ rows : List Message, (rows.map (·.id)).Nodup →
      rows.Pairwise fun a b => ∀ k, some a.summary.id = some k → some b.summary.id ≠ some k := by
    intro rows hrows
    apply (List.pairwise_map.mp hrows).imp
    intro a b hab k hk hbk
    exact hab (Option.some.inj (hk.trans hbk.symm))
  apply hids
  apply ((List.perm_insertionSort _ _).map _).nodup_iff.mpr
  exact h.nodup_map.sublist (List.filter_sublist.map _)

/-- A message of the inbox of account `a`. -/
def inboxMail (id : String) (uid : ℤ) (messageId : String) : Message where
  id := id
  accountId := "a"
  mailbox := "INBOX"
  mailboxRole := "inbox"
  uid := uid
  messageId := some messageId

def copiesPlan : MailboxSyncPlan where
  accountId := "a"
  mailbox := "INBOX"
  mailboxRole := "inbox"
  incoming := [inboxMail "a:5" 5 "x", inboxMail "a:6" 6 "x"]
  rawSources := [("a:5", [1]), ("a:6", [1])]

def movedDb : Db where
  accounts := [{ id := "a", userId := "u", email := "a@example.org", createdAt := 0 }]
  messages := [{ inboxMail "a:1" 1 "x" with mailbox := "Archive", mailboxRole := "archive" }]
  messageSources := [⟨"a:1", [1]⟩]

def labelRule : MailRule where
  id := "rule"
  userId := "u"
  revision := 1
  createdAt := 0
  updatedAt := 0
  input :=
    { name := "label"
      enabled := true
      priority := 0
      accountIds := []
      matchMode := .all
      conditions := [.unread true]
      actions := [.addLabel "new"]
      stopProcessing := false }

end IMail
