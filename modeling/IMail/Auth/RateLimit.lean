import IMail.Platform
import IMail.Relational.Keyset
import IMail.Transition.Run

/-!
# Counting attempts

`consume_attempt` and `clear_attempt` of `imail-storage-sqlite/src/auth.rs`. A counter lives under
the digest of its key until its window ends. The table holds a bounded number of counters: a new
one may drop the hundred that end first, also while they still count.
-/

namespace IMail

open Relational Transition

/-- A row of `auth_rate_limits`. -/
structure RateLimitRow where
  keyHash : String
  attemptCount : ℕ
  resetAt : Time
  deriving DecidableEq, Repr

structure RateLimitDecision where
  allowed : Bool
  retryAfter : ℕ
  deriving DecidableEq, Repr

/-- `MAX_RATE_LIMIT_ROWS` -/
def maxRateLimitRows : ℕ := 10000

/-- `RATE_LIMIT_PRUNE_ROWS` -/
def rateLimitPruneRows : ℕ := 100

/-- A call of `consume_attempt`, with the time of its clock. -/
structure Attempt where
  key : String
  maximum : ℕ
  windowMs : ℕ
  now : Time
  deriving DecidableEq, Repr

/-- `DELETE FROM auth_rate_limits WHERE reset_at <= ?1` -/
def liveCounters (rows : List RateLimitRow) (now : Time) : List RateLimitRow :=
  deleteWhere (fun r => r.resetAt ≤ now) rows

def counter (rows : List RateLimitRow) (keyHash : String) : Option RateLimitRow :=
  rows.find? fun r => r.keyHash == keyHash

/-- `SELECT key_hash FROM auth_rate_limits ORDER BY reset_at LIMIT ?1` -/
def firstToReset (rows : List RateLimitRow) : List String :=
  ((orderBy RateLimitRow.resetAt rows).take rateLimitPruneRows).map (·.keyHash)

def pruneCounters (rows : List RateLimitRow) : List RateLimitRow :=
  if maxRateLimitRows ≤ rows.length then
    deleteWhere (fun r => (firstToReset rows).contains r.keyHash) rows
  else rows

section

variable [Platform]

def consumeAttempt (rows : List RateLimitRow) (call : Attempt) :
    RateLimitDecision × List RateLimitRow :=
  let keyHash := Platform.sha256Hex call.key
  let rows := liveCounters rows call.now
  match counter rows keyHash with
  | some row =>
    if call.maximum ≤ row.attemptCount then
      let remainingMs := max (row.resetAt - call.now).toNat 1
      (⟨false, max ((remainingMs + 999) / 1000) 1⟩, rows)
    else
      (⟨true, 0⟩, updateWhere (fun r => r.keyHash == keyHash)
        (fun r => { r with attemptCount := r.attemptCount + 1 }) rows)
  | none =>
    (⟨true, 0⟩, pruneCounters rows ++ [⟨keyHash, 1, call.now + call.windowMs⟩])

def clearAttempt (rows : List RateLimitRow) (key : String) : List RateLimitRow :=
  deleteWhere (fun r => r.keyHash == Platform.sha256Hex key) rows

def attemptStep (rows : List RateLimitRow) (call : Attempt) : List RateLimitRow :=
  (consumeAttempt rows call).2

/-- How many of the calls on a key are allowed. -/
def allowedCalls (key : String) : List RateLimitRow → List Attempt → ℕ
  | _, [] => 0
  | rows, call :: calls =>
    (if call.key = key ∧ (consumeAttempt rows call).1.allowed = true then 1 else 0) +
      allowedCalls key (attemptStep rows call) calls

/-- The call makes a counter for its key. -/
def Creates (rows : List RateLimitRow) (call : Attempt) : Prop :=
  counter (liveCounters rows call.now) (Platform.sha256Hex call.key) = none

/-- The call makes a counter in a full table and drops the one under the digest. -/
def Drops (keyHash : String) (rows : List RateLimitRow) (call : Attempt) : Prop :=
  Creates rows call ∧ maxRateLimitRows ≤ (liveCounters rows call.now).length ∧
    keyHash ∈ firstToReset (liveCounters rows call.now)

instance (rows : List RateLimitRow) (call : Attempt) : Decidable (Creates rows call) :=
  inferInstanceAs (Decidable (_ = none))

instance (keyHash : String) (rows : List RateLimitRow) (call : Attempt) :
    Decidable (Drops keyHash rows call) :=
  inferInstanceAs (Decidable (_ ∧ _ ∧ _))

end

variable {rows : List RateLimitRow} {keyHash : String} {row : RateLimitRow}

section

variable (h : counter rows keyHash = some row)
include h

theorem counter_deleteWhere {p : RateLimitRow → Bool} (hkept : p row = false) :
    counter (deleteWhere p rows) keyHash = some row := by
  induction rows with
  | nil => simp [counter] at h
  | cons r rows ih =>
    unfold counter at h ih ⊢
    rw [List.find?_cons] at h
    by_cases hr : (r.keyHash == keyHash) = true
    · simp only [hr, Option.some.injEq] at h
      subst h
      rw [deleteWhere, List.filter_cons_of_pos (by simp [hkept]), List.find?_cons, hr]
    · simp only [hr] at h
      by_cases hp : p r = true
      · rw [deleteWhere, List.filter_cons_of_neg (by simp [hp])]
        exact ih h
      · rw [deleteWhere, List.filter_cons_of_pos (by simp [hp]), List.find?_cons]
        simp only [hr]
        exact ih h

theorem counter_append {r : RateLimitRow} : counter (rows ++ [r]) keyHash = some row := by
  rw [counter, List.find?_append, ← counter, h, Option.some_or]

theorem counter_updateWhere_self : counter (updateWhere (fun r => r.keyHash == keyHash)
      (fun r => { r with attemptCount := r.attemptCount + 1 }) rows) keyHash =
        some { row with attemptCount := row.attemptCount + 1 } := by
  induction rows with
  | nil => simp [counter] at h
  | cons r rows ih =>
    unfold counter updateWhere at *
    rw [List.find?_cons] at h
    rw [List.map_cons, List.find?_cons]
    by_cases hr : (r.keyHash == keyHash) = true
    · simp only [hr, Option.some.injEq] at h
      subst h
      simp [hr]
    · simp only [hr] at h
      simp only [hr, Bool.false_eq_true, if_false]
      exact ih h

end

theorem counter_updateWhere_other {other : String} (hne : other ≠ keyHash)
    {f : RateLimitRow → RateLimitRow} (hf : ∀ r, (f r).keyHash = r.keyHash) :
    counter (updateWhere (fun r => r.keyHash == other) f rows) keyHash = counter rows keyHash := by
  induction rows with
  | nil => rfl
  | cons r rows ih =>
    unfold counter updateWhere at *
    rw [List.map_cons, List.find?_cons, List.find?_cons, ih]
    by_cases hr : (r.keyHash == other) = true
    · have hkey : (r.keyHash == keyHash) = false := by
        rw [beq_iff_eq] at hr
        rw [hr]
        simpa using hne
      simp [hr, hf, hkey]
    · simp [hr]

section

variable [Platform]

variable {rows : List RateLimitRow}

variable {call : Attempt}

/-- A call in the window of a counter keeps it unless it drops it: with one more attempt if the
call is counted there and allowed. -/
theorem counter_attemptStep (h : counter rows keyHash = some row) (hlive : call.now < row.resetAt)
    (hkept : ¬Drops keyHash rows call) :
    (Platform.sha256Hex call.key = keyHash ∧ row.attemptCount < call.maximum ∧
      (consumeAttempt rows call).1.allowed = true ∧
      counter (attemptStep rows call) keyHash =
        some { row with attemptCount := row.attemptCount + 1 }) ∨
    ((Platform.sha256Hex call.key = keyHash → (consumeAttempt rows call).1.allowed = false) ∧
      counter (attemptStep rows call) keyHash = some row) := by
  have hlives : counter (liveCounters rows call.now) keyHash = some row := by
    apply counter_deleteWhere h
    exact decide_eq_false (not_le.mpr hlive)
  by_cases hkey : Platform.sha256Hex call.key = keyHash
  · by_cases hlimit : call.maximum ≤ row.attemptCount
    · right
      simp only [attemptStep, consumeAttempt, hkey, hlives, if_pos hlimit]
      exact ⟨fun _ => trivial, trivial⟩
    · left
      simp only [attemptStep, consumeAttempt, hkey, hlives, if_neg hlimit]
      exact ⟨trivial, not_le.mp hlimit, trivial, counter_updateWhere_self hlives⟩
  · right
    refine ⟨fun heq => absurd heq hkey, ?_⟩
    cases hown : counter (liveCounters rows call.now) (Platform.sha256Hex call.key) with
    | some other =>
      simp only [attemptStep, consumeAttempt, hown]
      split_ifs
      · exact hlives
      · rw [← hlives]
        exact counter_updateWhere_other hkey fun _ => rfl
    | none =>
      simp only [attemptStep, consumeAttempt, hown]
      apply counter_append
      unfold pruneCounters
      split_ifs with hfull
      · apply counter_deleteWhere hlives
        have hhash : row.keyHash = keyHash := by simpa using List.find?_some hlives
        have hnot : keyHash ∉ firstToReset (liveCounters rows call.now) := by
          intro hmem
          exact hkept ⟨hown, hfull, hmem⟩
        rw [hhash]
        simpa using hnot
      · exact hlives

theorem counter_of_creates (h : Creates rows call) :
    (consumeAttempt rows call).1.allowed = true ∧
      counter (attemptStep rows call) (Platform.sha256Hex call.key) =
        some ⟨Platform.sha256Hex call.key, 1, call.now + call.windowMs⟩ := by
  unfold Creates at h
  simp only [attemptStep, consumeAttempt, h]
  refine ⟨trivial, ?_⟩
  have hnone : counter (pruneCounters (liveCounters rows call.now))
      (Platform.sha256Hex call.key) = none := by
    unfold pruneCounters
    split_ifs
    · apply List.find?_eq_none.mpr
      intro r hr
      exact List.find?_eq_none.mp h r (List.mem_filter.mp hr).1
    · exact h
  unfold counter at hnone ⊢
  rw [List.find?_append, hnone, Option.none_or]
  simp

theorem allowedCalls_le {key : String} {maximum attempts : ℕ} {resetAt : Time}
    {calls : List Attempt} (hrow : counter rows (Platform.sha256Hex key) = some row)
    (hreset : row.resetAt = resetAt) (hcount : attempts ≤ row.attemptCount)
    (hattempts : attempts ≤ max maximum 1) (hlimit : ∀ c ∈ calls, c.key = key → c.maximum = maximum)
    (htimes : ∀ c ∈ calls, c.now < resetAt)
    (hkept : Along attemptStep (fun rows c => ¬Drops (Platform.sha256Hex key) rows c) rows calls) :
    attempts + allowedCalls key rows calls ≤ max maximum 1 := by
  induction calls generalizing rows row attempts with
  | nil => exact hattempts
  | cons call calls ih =>
    have hlimits : ∀ c ∈ calls, c.key = key → c.maximum = maximum :=
      fun c hc => hlimit c (List.mem_cons_of_mem _ hc)
    have htimes' : ∀ c ∈ calls, c.now < resetAt :=
      fun c hc => htimes c (List.mem_cons_of_mem _ hc)
    have hnow : call.now < row.resetAt := hreset ▸ htimes call List.mem_cons_self
    rw [allowedCalls]
    rcases counter_attemptStep hrow hnow hkept.1 with
      ⟨_, hless, _, hnext⟩ | ⟨hdenied, hnext⟩
    · by_cases hcall : call.key = key ∧ (consumeAttempt rows call).1.allowed = true
      · have hmax : call.maximum = maximum := hlimit call List.mem_cons_self hcall.1
        have hfewer : attempts + 1 ≤ max maximum 1 := by omega
        have hrest := ih hnext hreset (Nat.succ_le_succ hcount) hfewer hlimits htimes' hkept.2
        rw [if_pos hcall]
        omega
      · have hrest := ih hnext hreset (Nat.le_succ_of_le hcount) hattempts hlimits htimes' hkept.2
        rw [if_neg hcall]
        omega
    · have hcall : ¬(call.key = key ∧ (consumeAttempt rows call).1.allowed = true) := by
        rintro ⟨hkey, hallowed⟩
        rw [hdenied (by rw [hkey])] at hallowed
        cases hallowed
      have hrest := ih hnext hreset hcount hattempts hlimits htimes' hkept.2
      rw [if_neg hcall]
      omega

/-- From the call that makes a counter to the end of its window, the limit of the key holds if no
call of another key drops the counter from a full table. -/
theorem attempts_bounded (rows : List RateLimitRow) (key : String) (maximum windowMs : ℕ)
    (now : Time) (calls : List Attempt) (hcreates : Creates rows ⟨key, maximum, windowMs, now⟩)
    (hlimit : ∀ c ∈ calls, c.key = key → c.maximum = maximum)
    (htimes : ∀ c ∈ calls, c.now < now + windowMs)
    (hkept : Along attemptStep (fun rows c => ¬Drops (Platform.sha256Hex key) rows c)
      (attemptStep rows ⟨key, maximum, windowMs, now⟩) calls) :
    allowedCalls key rows (⟨key, maximum, windowMs, now⟩ :: calls) ≤ max maximum 1 := by
  obtain ⟨hallowed, hrow⟩ := counter_of_creates hcreates
  rw [allowedCalls, if_pos ⟨rfl, hallowed⟩]
  exact allowedCalls_le hrow rfl le_rfl (le_max_right _ _) hlimit htimes hkept

end

/-- Two attempts of three are allowed under a limit of two, with another key in between. -/
theorem attempts_bounded_two :
    let _ := Platform.plain
    allowedCalls "a" [] [⟨"a", 2, 1000, 5⟩, ⟨"a", 2, 1000, 6⟩, ⟨"b", 2, 1000, 6⟩,
      ⟨"a", 2, 1000, 7⟩] ≤ max 2 1 := by
  intro platform
  apply attempts_bounded [] "a" 2 1000 5
  · subst platform
    decide +kernel
  · decide +kernel
  · decide +kernel
  · subst platform
    refine ⟨?_, ?_, ?_, trivial⟩ <;> decide +kernel

def loginKey : String := "login-account:ann"

def loginAttempt (now : Time) : Attempt := ⟨loginKey, 10, 900000, now⟩

def loginRow : RateLimitRow := ⟨loginKey, 10, 900000⟩

def otherAttempt (n : ℕ) : Attempt := ⟨toString n, 10, 900000, 1⟩

def otherRow (n : ℕ) : RateLimitRow := ⟨toString n, 1, 900001⟩

theorem toString_ne_loginKey (n : ℕ) : toString n ≠ loginKey := by
  intro h
  have hdigit := Text.isDigit_of_mem_toString (n := n) (c := 'l') (by rw [h]; decide)
  exact absurd hdigit (by decide)

def fullRows (n : ℕ) : List RateLimitRow := loginRow :: (List.range n).map otherRow

theorem live_fullRows (n : ℕ) : liveCounters (fullRows n) 1 = fullRows n := by
  apply List.filter_eq_self.mpr
  intro r hr
  rcases List.mem_cons.mp hr with rfl | hr
  · decide
  · obtain ⟨i, _, rfl⟩ := List.mem_map.mp hr
    simp [otherRow]

theorem counter_fullRows (n : ℕ) : counter (fullRows n) (toString n) = none := by
  apply List.find?_eq_none.mpr
  intro r hr
  rw [beq_iff_eq]
  rcases List.mem_cons.mp hr with rfl | hr
  · exact (toString_ne_loginKey n).symm
  · obtain ⟨i, hi, rfl⟩ := List.mem_map.mp hr
    intro heq
    have hparse := Text.parseDigits_toString i
    rw [show (toString i).toList = (toString n).toList from congrArg String.toList heq,
      Text.parseDigits_toString] at hparse
    have hin : i = n := (Option.some.inj hparse).symm
    rw [hin] at hi
    simp at hi

theorem length_fullRows (n : ℕ) : (fullRows n).length = n + 1 := by
  simp [fullRows]

variable {n : ℕ}

theorem attemptStep_other (h : n + 1 < maxRateLimitRows) :
    @attemptStep Platform.plain (fullRows n) (otherAttempt n) = fullRows (n + 1) := by
  let _ := Platform.plain
  have hlength : ¬maxRateLimitRows ≤ (fullRows n).length := by
    rw [length_fullRows]
    omega
  have hcounter : counter (fullRows n) (Platform.sha256Hex (otherAttempt n).key) = none :=
    counter_fullRows n
  simp only [attemptStep, consumeAttempt, otherAttempt] at hcounter ⊢
  rw [live_fullRows, hcounter]
  simp only [pruneCounters, if_neg hlength]
  rw [fullRows, fullRows, List.range_succ, List.map_append, List.cons_append]
  rfl

theorem exec_others (n : ℕ) (h : n < maxRateLimitRows) :
    exec (@attemptStep Platform.plain) (fullRows 0) ((List.range n).map otherAttempt) =
      fullRows n := by
  induction n with
  | zero => rfl
  | succ n ih =>
    rw [List.range_succ, List.map_append, exec_append, ih (by omega)]
    exact attemptStep_other h

theorem counter_dropped (hn : n + 1 = maxRateLimitRows) :
    counter (@attemptStep Platform.plain (fullRows n) (otherAttempt n)) loginKey = none := by
  let _ := Platform.plain
  have hlength : maxRateLimitRows ≤ (fullRows n).length := by
    rw [length_fullRows]
    exact hn.ge
  have hsorted : (fullRows n).Pairwise fun a b => a.resetAt ≤ b.resetAt := by
    apply List.pairwise_cons.mpr
    constructor
    · intro r hr
      obtain ⟨i, _, rfl⟩ := List.mem_map.mp hr
      simp [loginRow, otherRow]
    · apply List.pairwise_map.mpr
      exact List.pairwise_of_forall fun _ _ => le_rfl
  have hfirst : loginKey ∈ firstToReset (fullRows n) := by
    rw [firstToReset, orderBy, hsorted.insertionSort_eq, fullRows, rateLimitPruneRows,
      List.take_succ_cons]
    exact List.mem_cons_self
  have hcounter : counter (fullRows n) (Platform.sha256Hex (otherAttempt n).key) = none :=
    counter_fullRows n
  simp only [attemptStep, consumeAttempt, otherAttempt] at hcounter ⊢
  rw [live_fullRows, hcounter]
  simp only [pruneCounters, if_pos hlength]
  apply List.find?_eq_none.mpr
  intro r hr
  rw [beq_iff_eq]
  intro hkey
  rcases List.mem_append.mp hr with hr | hr
  · have hkept := (List.mem_filter.mp hr).2
    simp [hkey, hfirst] at hkept
  · rw [List.mem_singleton.mp hr] at hkey
    exact toString_ne_loginKey n hkey

section

variable [Platform]

theorem allowedCalls_append (key : String) (rows : List RateLimitRow) (front back : List Attempt) :
    allowedCalls key rows (front ++ back) =
      allowedCalls key rows front + allowedCalls key (exec attemptStep rows front) back := by
  induction front generalizing rows with
  | nil => simp [allowedCalls]
  | cons call front ih =>
    rw [List.cons_append, allowedCalls, allowedCalls, ih, exec_cons]
    omega

theorem allowedCalls_of_other {key : String} {calls : List Attempt}
    (h : ∀ c ∈ calls, c.key ≠ key) (rows : List RateLimitRow) : allowedCalls key rows calls = 0 := by
  induction calls generalizing rows with
  | nil => rfl
  | cons call calls ih =>
    have hcall : ¬(call.key = key ∧ (consumeAttempt rows call).1.allowed = true) :=
      fun hkey => h call List.mem_cons_self hkey.1
    rw [allowedCalls, if_neg hcall, ih fun c hc => h c (List.mem_cons_of_mem _ hc)]

theorem allowedCalls_of_none {call : Attempt}
    (h : counter rows (Platform.sha256Hex call.key) = none) :
    allowedCalls call.key rows [call] = 1 := by
  have hcreates : Creates rows call := by
    apply List.find?_eq_none.mpr
    intro r hr
    exact List.find?_eq_none.mp h r (List.mem_filter.mp hr).1
  rw [allowedCalls, if_pos ⟨rfl, (counter_of_creates hcreates).1⟩, allowedCalls]

end

def floodCalls (n : ℕ) : List Attempt :=
  List.replicate 10 (loginAttempt 0) ++ (List.range (n + 1)).map otherAttempt ++ [loginAttempt 1]

theorem allowed_floodCalls (hn : n + 1 = maxRateLimitRows) :
    @allowedCalls Platform.plain loginKey [] (floodCalls n) = 11 := by
  let _ := Platform.plain
  have hfirst : allowedCalls loginKey [] (List.replicate 10 (loginAttempt 0)) = 10 ∧
      exec attemptStep [] (List.replicate 10 (loginAttempt 0)) = fullRows 0 := by
    decide +kernel
  have hothers : allowedCalls loginKey (fullRows 0) ((List.range (n + 1)).map otherAttempt) = 0 := by
    apply allowedCalls_of_other
    intro c hc
    obtain ⟨i, _, rfl⟩ := List.mem_map.mp hc
    exact toString_ne_loginKey i
  have hend : counter (exec attemptStep (fullRows 0) ((List.range (n + 1)).map otherAttempt))
      loginKey = none := by
    rw [List.range_succ, List.map_append, exec_append, exec_others n (by omega)]
    exact counter_dropped hn
  have hlast : allowedCalls loginKey
      (exec attemptStep (fullRows 0) ((List.range (n + 1)).map otherAttempt)) [loginAttempt 1] = 1 :=
    allowedCalls_of_none hend
  rw [floodCalls, allowedCalls_append, allowedCalls_append, exec_append, hfirst.1, hfirst.2,
    hothers, hlast]

/-- The limit of a key does not hold when the table is full, and a limit of zero allows the first
attempt. -/
theorem limit_bypassed :
    let _ := Platform.plain
    allowedCalls loginKey [] (floodCalls 9999) = 11 ∧
      allowedCalls loginKey [] [⟨loginKey, 0, 900000, 0⟩] = 1 := by
  intro platform
  constructor
  · exact allowed_floodCalls rfl
  · subst platform
    decide +kernel

end IMail
