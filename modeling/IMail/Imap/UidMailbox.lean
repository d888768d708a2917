import Mathlib.Data.List.Sort
import Mathlib.Tactic

/-!
# Mailboxes with unique identifiers

A mailbox of an IMAP server under one UIDVALIDITY: identifiers are given out in ascending
order, possibly with gaps, and none is ever given out twice. `assigned` remembers what an
identifier was given to after the message is gone.
-/

namespace Imap

universe u

structure UidMailbox (μ : Type u) where
  uidNext : ℕ
  assigned : ℕ → Option μ
  live : ℕ → Bool
  positive : 0 < uidNext
  fresh : ∀ uid, uidNext ≤ uid → assigned uid = none
  unused : assigned 0 = none
  lived : ∀ uid, live uid = true → (assigned uid).isSome = true

namespace UidMailbox

variable {μ : Type u} (box : UidMailbox μ)

def empty : UidMailbox μ where
  uidNext := 1
  assigned _ := none
  live _ := false
  positive := Nat.one_pos
  fresh _ _ := rfl
  unused := rfl
  lived _ h := by cases h

def fetch (uid : ℕ) : Option μ := if box.live uid then box.assigned uid else none

/-- A message arrives; `skip` identifiers are left out. -/
def append (message : μ) (skip : ℕ) : UidMailbox μ where
  uidNext := box.uidNext + skip + 1
  assigned := Function.update box.assigned (box.uidNext + skip) (some message)
  live := Function.update box.live (box.uidNext + skip) true
  positive := Nat.succ_pos _
  fresh uid h := by
    have hne : uid ≠ box.uidNext + skip := by omega
    rw [Function.update_of_ne hne]
    exact box.fresh uid (by omega)
  unused := by
    have hpos := box.positive
    have hne : 0 ≠ box.uidNext + skip := by omega
    rw [Function.update_of_ne hne]
    exact box.unused
  lived uid h := by
    by_cases heq : uid = box.uidNext + skip
    · simp [heq]
    · rw [Function.update_of_ne heq] at h ⊢
      exact box.lived uid h

def expunge (uid : ℕ) : UidMailbox μ where
  uidNext := box.uidNext
  assigned := box.assigned
  live := Function.update box.live uid false
  positive := box.positive
  fresh := box.fresh
  unused := box.unused
  lived other h := by
    by_cases heq : other = uid
    · simp [heq] at h
    · rw [Function.update_of_ne heq] at h
      exact box.lived other h

/-- `UID STORE`; an identifier without a message is ignored. -/
def store (uid : ℕ) (f : μ → μ) : UidMailbox μ where
  uidNext := box.uidNext
  assigned := Function.update box.assigned uid ((box.assigned uid).map f)
  live := box.live
  positive := box.positive
  fresh other h := by
    by_cases heq : other = uid
    · simp [heq, box.fresh uid (heq ▸ h)]
    · rw [Function.update_of_ne heq]
      exact box.fresh other h
  unused := by
    by_cases heq : 0 = uid
    · simp [← heq, box.unused]
    · rw [Function.update_of_ne heq]
      exact box.unused
  lived other h := by
    by_cases heq : other = uid
    · simpa [heq] using box.lived uid (heq ▸ h)
    · rw [Function.update_of_ne heq]
      exact box.lived other h

variable {box}

variable {uid start : ℕ} {message : μ}

theorem fetch_eq_some :
    box.fetch uid = some message ↔ box.live uid = true ∧ box.assigned uid = some message := by
  simp [fetch]

theorem lt_uidNext (h : box.assigned uid = some message) : uid < box.uidNext := by
  by_contra hge
  rw [box.fresh uid (by omega)] at h
  cases h

theorem pos_of_assigned (h : box.assigned uid = some message) : 0 < uid := by
  rcases Nat.eq_zero_or_pos uid with rfl | hpos
  · rw [box.unused] at h
    cases h
  · exact hpos

theorem assigned_of_fetch (h : box.fetch uid = some message) :
    box.assigned uid = some message := (fetch_eq_some.mp h).2

@[simp] theorem uidNext_append (message : μ) (skip : ℕ) :
    (box.append message skip).uidNext = box.uidNext + skip + 1 := rfl

theorem fetch_append (message : μ) (skip uid : ℕ) :
    (box.append message skip).fetch uid =
      if uid = box.uidNext + skip then some message else box.fetch uid := by
  by_cases heq : uid = box.uidNext + skip
  · simp [fetch, append, heq]
  · simp [fetch, append, heq]

theorem fetch_expunge (uid other : ℕ) :
    (box.expunge uid).fetch other = if other = uid then none else box.fetch other := by
  by_cases heq : other = uid
  · simp [fetch, expunge, heq]
  · simp [fetch, expunge, heq]

theorem fetch_store (uid other : ℕ) (f : μ → μ) :
    (box.store uid f).fetch other =
      if other = uid then (box.fetch uid).map f else box.fetch other := by
  by_cases heq : other = uid
  · by_cases hlive : box.live uid = true <;> simp [fetch, store, heq, hlive]
  · simp [fetch, store, heq]

variable {κ : Type*} (key : μ → κ)

/-- Identifiers that were given out before stand for the same messages or for none. -/
structure Later (box box' : UidMailbox μ) : Prop where
  uidNext_le : box.uidNext ≤ box'.uidNext
  same : ∀ uid message', uid < box.uidNext → box'.fetch uid = some message' →
    ∃ message, box.fetch uid = some message ∧ key message = key message'

variable {key}

theorem Later.refl (box : UidMailbox μ) : Later key box box :=
  ⟨le_rfl, fun _ message' _ h => ⟨message', h, rfl⟩⟩

theorem Later.trans {a b c : UidMailbox μ} (hab : Later key a b) (hbc : Later key b c) :
    Later key a c := by
  refine ⟨hab.uidNext_le.trans hbc.uidNext_le, ?_⟩
  intro uid message' hlt hfetch
  obtain ⟨middle, hmiddle, hkey⟩ := hbc.same uid message' (hlt.trans_le hab.uidNext_le) hfetch
  obtain ⟨message, hmessage, hkey'⟩ := hab.same uid middle hlt hmiddle
  exact ⟨message, hmessage, hkey'.trans hkey⟩

theorem later_append (message : μ) (skip : ℕ) : Later key box (box.append message skip) := by
  constructor
  · simp only [uidNext_append]
    omega
  · intro uid message' hlt hfetch
    rw [fetch_append, if_neg (by omega)] at hfetch
    exact ⟨message', hfetch, rfl⟩

theorem later_expunge (uid : ℕ) : Later key box (box.expunge uid) := by
  refine ⟨le_rfl, ?_⟩
  intro other message' _ hfetch
  rw [fetch_expunge] at hfetch
  split_ifs at hfetch
  exact ⟨message', hfetch, rfl⟩

theorem later_store (uid : ℕ) {f : μ → μ} (hf : ∀ message, key (f message) = key message) :
    Later key box (box.store uid f) := by
  refine ⟨le_rfl, ?_⟩
  intro other message' _ hfetch
  rw [fetch_store] at hfetch
  split_ifs at hfetch with heq
  · obtain ⟨message, hmessage, rfl⟩ := Option.map_eq_some_iff.mp hfetch
    exact ⟨message, heq ▸ hmessage, (hf message).symm⟩
  · exact ⟨message', hfetch, rfl⟩

variable (box)

def uids : List ℕ := (List.range box.uidNext).filter box.live

/-- The messages from a sequence number on; the range always has the last message. -/
def seqFrom (start : ℕ) : List ℕ := box.uids.drop (min (start - 1) (box.uids.length - 1))

/-- The messages from an identifier on; the range always has the last message. -/
def uidFrom (start : ℕ) : List ℕ :=
  if box.uids.any (start ≤ ·) then box.uids.filter (start ≤ ·) else box.uids.getLast?.toList

def among (set : List ℕ) : List ℕ := box.uids.filter (· ∈ set)

variable {box}

theorem mem_uids : uid ∈ box.uids ↔ box.live uid = true := by
  simp only [uids, List.mem_filter, List.mem_range, and_iff_right_iff_imp]
  intro hlive
  obtain ⟨message, hmessage⟩ := Option.isSome_iff_exists.mp (box.lived uid hlive)
  exact lt_uidNext hmessage

theorem lt_of_mem_uids (h : uid ∈ box.uids) : uid < box.uidNext :=
  List.mem_range.mp (List.mem_filter.mp h).1

theorem pos_of_mem_uids (h : uid ∈ box.uids) : 0 < uid := by
  obtain ⟨message, hmessage⟩ := Option.isSome_iff_exists.mp (box.lived uid (mem_uids.mp h))
  exact pos_of_assigned hmessage

theorem exists_fetch (h : uid ∈ box.uids) : ∃ message, box.fetch uid = some message := by
  have hlive := mem_uids.mp h
  obtain ⟨message, hmessage⟩ := Option.isSome_iff_exists.mp (box.lived uid hlive)
  exact ⟨message, fetch_eq_some.mpr ⟨hlive, hmessage⟩⟩

theorem uids_of_seqFrom (h : uid ∈ box.seqFrom start) : uid ∈ box.uids :=
  List.mem_of_mem_drop h

theorem seqFrom_one : box.seqFrom 1 = box.uids := by
  simp [seqFrom]

theorem uids_sorted : box.uids.Pairwise (· < ·) := List.pairwise_lt_range.filter _

theorem exists_ge_of_seqFrom (h : uid ∈ box.uids) : ∃ last ∈ box.seqFrom start, uid ≤ last := by
  have hlen : 0 < box.uids.length := List.length_pos_of_mem h
  have hne : box.uids ≠ [] := List.ne_nil_of_mem h
  refine ⟨box.uids.getLast hne, ?_, ?_⟩
  · have hdrop : box.seqFrom start ≠ [] := by
      intro hnil
      have hshort := List.drop_eq_nil_iff.mp hnil
      omega
    rw [← List.getLast_drop hdrop]
    exact List.getLast_mem hdrop
  · have hsorted := box.uids_sorted
    rw [← List.dropLast_append_getLast hne] at h hsorted
    rcases List.mem_append.mp h with hinit | hlast
    · exact ((List.pairwise_append.mp hsorted).2.2 uid hinit _ (by simp)).le
    · exact (List.mem_singleton.mp hlast).le

theorem uids_of_uidFrom (h : uid ∈ box.uidFrom start) : uid ∈ box.uids := by
  unfold uidFrom at h
  split_ifs at h
  · exact List.mem_of_mem_filter h
  · exact List.mem_of_mem_getLast? (Option.mem_toList.mp h)

theorem mem_uidFrom (huid : uid ∈ box.uids) (hstart : start ≤ uid) : uid ∈ box.uidFrom start := by
  unfold uidFrom
  rw [if_pos (List.any_eq_true.mpr ⟨uid, huid, by simpa using hstart⟩)]
  exact List.mem_filter.mpr ⟨huid, by simpa using hstart⟩

/-- Messages are added and none goes. -/
structure Grows (box box' : UidMailbox μ) : Prop where
  uidNext_le : box.uidNext ≤ box'.uidNext
  kept : ∀ uid, box.live uid = true → box'.live uid = true
  old : ∀ uid, uid < box.uidNext → box'.live uid = true → box.live uid = true

theorem Grows.refl (box : UidMailbox μ) : Grows box box := ⟨le_rfl, fun _ h => h, fun _ _ h => h⟩

theorem Grows.trans {a b c : UidMailbox μ} (hab : Grows a b) (hbc : Grows b c) : Grows a c := by
  constructor
  · exact hab.uidNext_le.trans hbc.uidNext_le
  · intro uid hlive
    exact hbc.kept uid (hab.kept uid hlive)
  · intro uid hlt hlive
    exact hab.old uid hlt (hbc.old uid (hlt.trans_le hab.uidNext_le) hlive)

theorem grows_iff {box' : UidMailbox μ} : Grows box box' ↔
    box.uidNext ≤ box'.uidNext ∧ ∀ uid < box.uidNext, box'.live uid = box.live uid := by
  constructor
  · intro h
    refine ⟨h.uidNext_le, fun uid hlt => ?_⟩
    exact Bool.eq_iff_iff.mpr ⟨h.old uid hlt, h.kept uid⟩
  · rintro ⟨hle, hsame⟩
    refine ⟨hle, fun uid hlive => ?_, fun uid hlt hlive => ?_⟩
    · rwa [hsame uid (lt_of_mem_uids (mem_uids.mpr hlive))]
    · rwa [← hsame uid hlt]

instance (box box' : UidMailbox μ) : Decidable (Grows box box') := decidable_of_iff' _ grows_iff

end UidMailbox

end Imap
