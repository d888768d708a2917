import IMail.Transition.Run

/-!
# The cancellation of desktop requests

`RequestCancellationRegistry` of `src-tauri/src/request_cancellation.rs`, with the requests of
`desktop_http_request` and `desktop_mail_service_call` that begin, run until they have an answer or
see the cancellation, and finish. A request is the channel that its `begin` opened, under its
number in the order of the beginnings; the registry has the sender of one channel for an id. Two
requests may have one id, but the registry removes an entry by its id alone.
-/

namespace IMail.Desktop

open Transition

/-- `Uuid::parse_str`. -/
class UuidText (U : Type) where
  parseStr : String → Option U

open UuidText

/-- A request with the `watch` channel of its receiver: the value, and whether the sender is gone.
The receiver goes when the request completes with an answer of its own, before it finishes. -/
structure Request where
  requestId : Option String
  value : Bool := false
  dropped : Bool := false
  completed : Bool := false
  finished : Bool := false
  deriving DecidableEq

structure Requests (U : Type) where
  requests : List Request := []
  active : U → Option ℕ := fun _ => none

inductive RequestOp
  | begin (requestId : Option String)
  | cancel (requestId : String)
  | complete (request : ℕ)
  | finish (request : ℕ)

/-- `Sender::send` of `true`, which fails without a receiver. -/
def Request.send (r : Request) : Request := { r with value := r.value || !r.completed }

/-- `wait_for_request_cancellation` returns: on the value, or since `changed` fails without a
sender. A request without an id waits for ever. -/
def Request.waitReturns (r : Request) : Bool :=
  r.requestId.isSome && !r.completed && (r.value || r.dropped)

variable {U : Type} [DecidableEq U] [UuidText U] {s : Requests U} {id : U} {k : ℕ} {op : RequestOp}

def parseRequestId (value : String) : Except String U :=
  match parseStr value with
  | some id => .ok id
  | none => .error "请求标识无效"

namespace Requests

/-- The requests after something happened to the sender under `id`. -/
def onSender (s : Requests U) (id : U) (f : Request → Request) : List Request :=
  match s.active id with
  | none => s.requests
  | some k => s.requests.modify k f

/-- `begin`: the previous sender under the id sends and is dropped. -/
def begin (s : Requests U) : Option String → Except String (Requests U)
  | none => .ok { s with requests := s.requests ++ [{ requestId := none }] }
  | some requestId => (parseRequestId requestId).map fun id =>
    { requests := s.onSender id (fun r => { r.send with dropped := true }) ++
        [{ requestId := some requestId }],
      active := fun j => if id = j then some s.requests.length else s.active j }

def cancel (s : Requests U) (requestId : String) : Except String (Bool × Requests U) :=
  (parseRequestId requestId).map fun id =>
    ((s.active id).isSome, { s with requests := s.onSender id Request.send })

/-- `finish`: the entry under the id goes with its sender, whichever request that belongs to. -/
def finish (s : Requests U) (requestId : Option String) : Requests U :=
  match requestId.bind parseStr with
  | none => s
  | some id =>
    { requests := s.onSender id fun r => { r with dropped := true },
      active := fun j => if id = j then none else s.active j }

/-- A request calls `finish` once; a failed `begin` has no request. -/
def step (s : Requests U) : RequestOp → Requests U
  | .begin requestId =>
    match s.begin requestId with
    | .ok s' => s'
    | .error _ => s
  | .cancel requestId =>
    match s.cancel requestId with
    | .ok (_, s') => s'
    | .error _ => s
  | .complete k => { s with requests := s.requests.modify k fun r => { r with completed := true } }
  | .finish k =>
    match s.requests[k]? with
    | none => s
    | some r =>
      if r.finished then s
      else
        let s' := s.finish r.requestId
        { s' with requests := s'.requests.modify k fun r => { r with finished := true } }

/-- Request `k` has begun with the id and has not finished. -/
def Running (s : Requests U) (id : U) (k : ℕ) : Prop :=
  ∃ r, s.requests[k]? = some r ∧ r.requestId.bind parseStr = some id ∧ r.finished = false

def Asks (id : U) : RequestOp → Prop
  | .begin requestId => requestId.bind parseStr = some id
  | .cancel requestId => parseStr requestId = some id
  | .complete _ | .finish _ => False

/-- No request begins under the id of a running one. -/
def NoOverlap (s : Requests U) (op : RequestOp) : Prop :=
  ∀ v id, op = .begin v → v.bind parseStr = some id → ∀ k, ¬ s.Running id k

/-- The registry has the senders of the running requests, and none of them was dropped. -/
structure Owned (s : Requests U) : Prop where
  active : ∀ id k, s.active id = some k ↔ s.Running id k
  kept : ∀ (k : ℕ) (r : Request), s.requests[k]? = some r → r.finished = false → r.dropped = false

/-- Nobody has asked for the id of request `k` while it ran. -/
def Unasked (id : U) (k : ℕ) (s : Requests U) : Prop :=
  ∃ r, s.requests[k]? = some r ∧ r.requestId.bind parseStr = some id ∧
    (r.finished = false → r.value = false)

theorem getElem?_concat_some {l : List Request} {a r : Request} :
    (l ++ [a])[k]? = some r ↔ l[k]? = some r ∨ k = l.length ∧ r = a := by
  rw [List.getElem?_append]
  split
  · next hk => simp [hk.ne]
  · next hk =>
    rw [List.getElem?_eq_none (not_lt.mp hk), List.getElem?_singleton]
    by_cases hlen : k = l.length
    · simp [hlen, eq_comm]
    · simp [hlen, show k - l.length ≠ 0 by omega]

omit [DecidableEq U] [UuidText U] in
theorem getElem?_onSender (f : Request → Request) : (s.onSender id f)[k]? =
    (s.requests[k]?).map fun r => if s.active id = some k then f r else r := by
  unfold onSender
  cases h : s.active id <;> grind

omit [DecidableEq U] in
theorem running_map {l : List Request} {a : U → Option ℕ} {g : Request → Request}
    (hg : ∀ r, (g r).requestId = r.requestId ∧ (g r).finished = r.finished)
    (hl : l[k]? = (s.requests[k]?).map g) : Running ⟨l, a⟩ id k ↔ s.Running id k := by
  simp [Running, hl, hg]

omit [DecidableEq U] in
theorem owned_empty : ({} : Requests U).Owned := ⟨by simp [Running], by simp⟩

namespace Owned

variable (h : s.Owned)
include h

theorem begin_eq {v : String} (hop : s.NoOverlap (.begin (some v))) (hid : parseStr v = some id) :
    s.step (.begin (some v)) = ⟨s.requests ++ [{ requestId := some v }],
      fun j => if id = j then some s.requests.length else s.active j⟩ := by
  have hnone : s.active id = none := Option.eq_none_iff_forall_ne_some.mpr fun k hk =>
    hop _ id rfl hid k ((h.active id k).mp hk)
  simp [Requests.step, Requests.begin, parseRequestId, hid, Except.map, onSender, hnone]

variable (hop : s.NoOverlap op)
include hop

theorem step_cases : s.step op = s ∨
    (∃ v, op = .begin v ∧ s.step op = ⟨s.requests ++ [{ requestId := v }],
      fun j => if v.bind parseStr = some j then some s.requests.length else s.active j⟩) ∨
    (∃ id : U, Asks id op ∧ s.step op =
      { s with requests := s.onSender id Request.send }) ∨
    (∃ k, s.step op =
      { s with requests := s.requests.modify k fun r => { r with completed := true } }) ∨
    ∃ k r, ∃ f : Request → Request, s.requests[k]? = some r ∧ r.finished = false ∧
      (∀ r, (f r).finished = true ∧ (f r).requestId = r.requestId) ∧
      s.step op = ⟨s.requests.modify k f,
        fun j => if r.requestId.bind parseStr = some j then none else s.active j⟩ := by
  cases op with
  | begin v =>
    rcases v with _ | v
    · exact .inr (.inl ⟨none, rfl, by simp [Requests.step, Requests.begin]⟩)
    · cases hid : (parseStr v : Option U) with
      | none => simp [Requests.step, Requests.begin, parseRequestId, hid, Except.map]
      | some id => exact .inr (.inl ⟨some v, rfl, by simp [h.begin_eq hop hid, hid]⟩)
  | cancel v =>
    cases hid : (parseStr v : Option U) with
    | none => simp [Requests.step, Requests.cancel, parseRequestId, hid, Except.map]
    | some id =>
      refine .inr (.inr (.inl ⟨id, hid, ?_⟩))
      simp [Requests.step, Requests.cancel, parseRequestId, hid, Except.map]
  | complete k => exact .inr (.inr (.inr (.inl ⟨k, rfl⟩)))
  | finish k =>
    cases hr : s.requests[k]? with
    | none => simp [Requests.step, hr]
    | some r =>
      by_cases hrun : r.finished = true
      · simp [Requests.step, hr, hrun]
      rw [Bool.not_eq_true] at hrun
      refine .inr (.inr (.inr (.inr ⟨k, r, fun r' => { r' with
        dropped := r'.dropped || (r.requestId.bind (parseStr (U := U))).isSome, finished := true },
        hr, hrun, fun _ => ⟨rfl, rfl⟩, ?_⟩)))
      cases hid : (r.requestId.bind parseStr : Option U) with
      | none => simp [Requests.step, Requests.finish, hr, hrun, hid]
      | some id =>
        have hk := (h.active id k).mpr ⟨r, hr, hid, hrun⟩
        simp [Requests.step, Requests.finish, hr, hrun, hid, onSender, hk,
          List.modify_modify_eq, Function.comp_def]

theorem running_step : (s.step op).Running id k ↔ (s.step op).active id = some k := by
  obtain hs | ⟨v, hv, hs⟩ | ⟨_, -, hs⟩ | ⟨j, hs⟩ | ⟨j, r, f, hj, hrun, hf, hs⟩ :=
    h.step_cases hop <;> rw [hs]
  · exact (h.active id k).symm
  · have hnew : Running ⟨s.requests ++ [{ requestId := v }],
        fun j => if v.bind parseStr = some j then some s.requests.length else s.active j⟩ id k ↔
        s.Running id k ∨ k = s.requests.length ∧ v.bind parseStr = some id := by
      simp only [Running, getElem?_concat_some]
      constructor
      · rintro ⟨r, hr | ⟨hk, rfl⟩, hid, hfin⟩
        · exact .inl ⟨r, hr, hid, hfin⟩
        · exact .inr ⟨hk, hid⟩
      · rintro (⟨r, hr, hid, hfin⟩ | ⟨hk, hid⟩)
        · exact ⟨r, .inl hr, hid, hfin⟩
        · exact ⟨_, .inr ⟨hk, rfl⟩, hid, rfl⟩
    rw [hnew]
    by_cases hid : v.bind parseStr = some id
    · simp [hid, hop v id hv hid k, eq_comm]
    · simp [hid, h.active id k]
  · rw [h.active id k, running_map (fun r => ?_) (getElem?_onSender Request.send)]
    split <;> exact ⟨rfl, rfl⟩
  · rw [h.active id k, running_map (fun r => ?_) (List.getElem?_modify ..)]
    split <;> exact ⟨rfl, rfl⟩
  · -- the finished request was the only one under its id
    have honly : r.requestId.bind parseStr = some id → (s.Running id k ↔ j = k) := fun hid => by
      have hown := (h.active id j).mpr ⟨r, hj, hid, hrun⟩
      rw [← h.active id k, hown, Option.some.injEq]
    have hother : Running ⟨s.requests.modify j f,
        fun i => if r.requestId.bind parseStr = some i then none else s.active i⟩ id k ↔
        s.Running id k ∧ j ≠ k := by
      simp only [Running, List.getElem?_modify, Option.map_eq_map, Option.map_eq_some_iff]
      constructor
      · rintro ⟨_, ⟨r', hr', rfl⟩, hid, hfin⟩
        split at hid
        · simp_all
        · next hne => exact ⟨⟨r', hr', hid, by simpa [hne] using hfin⟩, hne⟩
      · rintro ⟨⟨r', hr', hid, hfin⟩, hne⟩
        exact ⟨r', ⟨r', hr', by simp [hne]⟩, hid, hfin⟩
    rw [hother]
    by_cases hid : r.requestId.bind parseStr = some id
    · simp [hid, honly hid]
    · have hne : s.Running id k → j ≠ k := by
        rintro ⟨r', hr', hid', -⟩ rfl
        exact hid (Option.some_inj.mp (hj.symm.trans hr') ▸ hid')
      simp [hid, h.active id k, and_iff_left_of_imp hne]

/-- A request that runs after a step ran before it and was not dropped by it, with the same value
unless the step asks for its id; or it has just begun. -/
theorem step_request {r' : Request} (hr' : (s.step op).requests[k]? = some r')
    (hfin : r'.finished = false) : (∃ r, s.requests[k]? = some r ∧ r.finished = false ∧
      r'.requestId = r.requestId ∧ r'.dropped = r.dropped ∧
      (r'.value = r.value ∨ ∃ id, Asks id op ∧ s.active id = some k)) ∨
    k = s.requests.length ∧ ∃ v, r' = { requestId := v } := by
  obtain hs | ⟨v, hv, hs⟩ | ⟨id, hid, hs⟩ | ⟨j, hs⟩ | ⟨j, r, f, hj, hrun, hf, hs⟩ :=
    h.step_cases hop <;> rw [hs] at hr'
  · exact .inl ⟨r', hr', hfin, rfl, rfl, .inl rfl⟩
  · rcases getElem?_concat_some.mp hr' with hr' | ⟨hk, rfl⟩
    · exact .inl ⟨r', hr', hfin, rfl, rfl, .inl rfl⟩
    · exact .inr ⟨hk, v, rfl⟩
  · rw [getElem?_onSender, Option.map_eq_some_iff] at hr'
    obtain ⟨r, hr, rfl⟩ := hr'
    split at hfin
    · next hown => exact .inl ⟨r, hr, hfin, by simp [hown, Request.send],
        by simp [hown, Request.send], .inr ⟨id, hid, hown⟩⟩
    · next hown => exact .inl ⟨r, hr, hfin, by simp [hown], by simp [hown], .inl (by simp [hown])⟩
  · rw [List.getElem?_modify, Option.map_eq_map, Option.map_eq_some_iff] at hr'
    obtain ⟨r, hr, rfl⟩ := hr'
    refine .inl ⟨r, hr, ?_, ?_, ?_, .inl ?_⟩ <;> split_ifs at hfin ⊢ <;> trivial
  · rw [List.getElem?_modify, Option.map_eq_map, Option.map_eq_some_iff] at hr'
    obtain ⟨r, hr, rfl⟩ := hr'
    split at hfin
    · simp [hf] at hfin
    · next hne => exact .inl ⟨r, hr, hfin, by simp [hne], by simp [hne], .inl (by simp [hne])⟩

theorem step_keeps {r : Request} (hr : s.requests[k]? = some r) :
    ∃ r', (s.step op).requests[k]? = some r' ∧ r'.requestId = r.requestId := by
  obtain hs | ⟨v, hv, hs⟩ | ⟨id, hid, hs⟩ | ⟨j, hs⟩ | ⟨j, _, f, hj, hrun, hf, hs⟩ :=
    h.step_cases hop <;> rw [hs]
  · exact ⟨r, hr, rfl⟩
  · exact ⟨r, getElem?_concat_some.mpr (.inl hr), rfl⟩
  · exact ⟨_, by rw [getElem?_onSender, hr]; rfl, by split <;> rfl⟩
  · exact ⟨_, by rw [List.getElem?_modify, hr]; rfl, by dsimp only; split <;> rfl⟩
  · exact ⟨_, by rw [List.getElem?_modify, hr]; rfl, by dsimp only; split <;> simp [hf]⟩

theorem unasked_step (hno : ¬ Asks id op) (hk : s.Unasked id k) : (s.step op).Unasked id k := by
  obtain ⟨r, hr, hid, hvalue⟩ := hk
  obtain ⟨r', hr', hid'⟩ := h.step_keeps hop hr
  refine ⟨r', hr', hid' ▸ hid, fun hfin => ?_⟩
  obtain ⟨q, hq, hrun, -, -, hsame | ⟨i, hasked, hown⟩⟩ | ⟨hk, -⟩ := h.step_request hop hr' hfin
  · obtain rfl := Option.some_inj.mp (hr.symm.trans hq)
    exact hsame.trans (hvalue hrun)
  · -- the sender that was asked is the one of request `k`, under its own id
    obtain ⟨q, hq, hi, -⟩ := (h.active i k).mp hown
    obtain rfl := Option.some_inj.mp (hr.symm.trans hq)
    exact absurd (Option.some_inj.mp (hid.symm.trans hi) ▸ hasked) hno
  · simp [hk] at hr

theorem step : (s.step op).Owned where
  active id k := (h.running_step hop).symm
  kept k r' hr' hfin := by
    obtain ⟨r, hr, hrun, -, hdropped, -⟩ | ⟨-, v, rfl⟩ := h.step_request hop hr' hfin
    · exact hdropped.trans (h.kept k r hr hrun)
    · rfl

end Owned

/-- A request is cancelled only when asked, and can be until it completes, as long as no request
begins under the id of a running one. -/
theorem cancelled_when_asked (run : List RequestOp)
    (h : Along step NoOverlap ({} : Requests U) run) :
    let s : Requests U := exec step {} run
    (∀ before v (id : U) after, run = before ++ .begin v :: after → v.bind parseStr = some id →
      ∀ r, s.requests[(exec step ({} : Requests U) before).requests.length]? = some r →
        r.finished = false → r.waitReturns = true → ∃ op ∈ after, Asks id op) ∧
    (∀ v (id : U), parseStr v = some id → ∃ found s', s.cancel v = .ok (found, s') ∧
      (found = true ↔ ∃ k, s.Running id k) ∧
      ∀ k, s.Running id k → (∀ j, s.Running id j → j ≤ k) →
        ∃ r, s'.requests[k]? = some r ∧ (r.completed = false → r.waitReturns = true)) ∧
    ((∀ r ∈ s.requests, r.finished = true) → s.active = fun _ => none) := by
  intro s
  have howned : s.Owned := invariant_along _ (fun _ _ => Owned.step) owned_empty h
  refine ⟨?_, ?_, ?_⟩
  · rintro before v id after rfl hid r hr hrun hwait
    by_contra hno
    push Not at hno
    obtain ⟨hbefore, hop, hafter⟩ := (along_append _ _ _ _ _).mp h
    have hb := invariant_along _ (fun _ _ => Owned.step) owned_empty hbefore
    obtain ⟨v, rfl, hv⟩ := Option.bind_eq_some_iff.mp hid
    have hstart : ((exec step {} before).step (.begin (some v))).Unasked id
        (exec step ({} : Requests U) before).requests.length := by
      rw [hb.begin_eq hop hv]
      exact ⟨{ requestId := some v }, by simp, hv, fun _ => rfl⟩
    have hend := (invariant_along (fun s : Requests U => s.Owned ∧ s.Unasked id _)
      (fun _ _ hs hop => ⟨hs.1.step hop.1, hs.1.unasked_step hop.1 hop.2 hs.2⟩)
      ⟨hb.step hop, hstart⟩ (hafter.and (along_of_forall hno _))).2
    rw [← exec_cons, ← exec_append] at hend
    obtain ⟨r', hr', -, hvalue⟩ := hend
    obtain rfl := Option.some_inj.mp (hr.symm.trans hr')
    simp [Request.waitReturns, hvalue hrun, howned.kept _ _ hr hrun] at hwait
  · intro v id hid
    refine ⟨_, _, by simp only [cancel, parseRequestId, hid, Except.map]; rfl, ?_, ?_⟩
    · simp [Option.isSome_iff_exists, howned.active]
    · rintro k hk -
      have hsender := (howned.active id k).mpr hk
      obtain ⟨r, hr, hrid, -⟩ := hk
      obtain ⟨w, hw, -⟩ := Option.bind_eq_some_iff.mp hrid
      exact ⟨r.send, by simp [getElem?_onSender, hsender, hr],
        by simp +contextual [Request.send, Request.waitReturns, hw]⟩
  · intro hall
    funext id
    refine Option.eq_none_iff_forall_ne_some.mpr fun k hk => ?_
    obtain ⟨r, hr, -, hrun⟩ := (howned.active id k).mp hk
    simp [hall r (List.mem_of_getElem? hr)] at hrun

omit [DecidableEq U] in
theorem noOverlap_begin {v : Option String}
    (hv : ∀ r ∈ s.requests, r.finished = true ∨ r.requestId.bind parseStr ≠ (v.bind parseStr : Option U)) :
    s.NoOverlap (.begin v) := by
  rintro _ id ⟨⟩ hid k ⟨r, hr, hrid, hrun⟩
  rcases hv r (List.mem_of_getElem? hr) with hfin | hne
  · exact absurd hfin (by simp [hrun])
  · exact hne (hrid.trans hid.symm)

@[reducible] def hyphenated : UuidText (List Char) where
  parseStr value :=
    let digits := value.toList.map Char.toLower
    if (digits.splitOn '-').map List.length = [8, 4, 4, 4, 12] ∧
        digits.all ("-0123456789abcdef".toList.contains ·) then some digits else none

/-- The id of a request that has finished is used again, in other letters, beside a request of
another id: a call that cancels it finds the second request, which then sees the cancellation. -/
theorem cancelled_when_asked_again : let _ := hyphenated
    let first := "3F2504E0-4F89-41D3-9A0C-0305E82C3301"
    let again := "3f2504e0-4f89-41d3-9a0c-0305e82c3301"
    let other := "9b2e41c7-0d55-4c2f-8a31-7c1f0f6d2e90"
    let run : List RequestOp := [.begin (some first), .complete 0, .finish 0, .begin (some again),
      .begin (some other)]
    (∃ found s', (exec step ({} : Requests (List Char)) run).cancel again = .ok (found, s') ∧
      found = true ∧ (s'.requests[1]?).map (·.waitReturns) = some true) ∧
    ∃ op ∈ [RequestOp.begin (some other), .cancel again], Asks again.toList op := by
  intro _ first again other run
  have hid : ∀ v ∈ [first, again], parseStr v = some again.toList := by decide +kernel
  have hrun : Along step NoOverlap ({} : Requests (List Char)) run :=
    ⟨noOverlap_begin (by decide +kernel), nofun, nofun, noOverlap_begin (by decide +kernel),
      noOverlap_begin (by decide +kernel), trivial⟩
  have hrunning : (exec step ({} : Requests (List Char)) run).Running again.toList 1 :=
    ⟨{ requestId := some again }, by decide +kernel, hid again (by simp), rfl⟩
  have hlast : ∀ j, (exec step ({} : Requests (List Char)) run).Running again.toList j → j ≤ 1 := by
    rintro j ⟨r, hr, hrid, -⟩
    have hlen : (exec step ({} : Requests (List Char)) run).requests.length = 3 := by decide +kernel
    have hj : j < 3 := hlen ▸ (List.getElem?_eq_some_iff.mp hr).1
    have hthird : ((exec step ({} : Requests (List Char)) run).requests[2]?).all
      (fun r => r.requestId.bind parseStr ≠ some again.toList) = true := by decide +kernel
    interval_cases j
    · omega
    · omega
    · simp [hr, hrid] at hthird
  constructor
  · obtain ⟨found, s', hs', hfound, hseen⟩ :=
      (cancelled_when_asked run hrun).2.1 again again.toList (hid again (by simp))
    obtain ⟨r, hr, hwait⟩ := hseen 1 hrunning hlast
    have hopen : ((exec step ({} : Requests (List Char)) run).cancel again).toOption.bind
      (fun answer => (answer.2.requests[1]?).map (·.completed)) = some false := by decide +kernel
    rw [hs'] at hopen
    refine ⟨found, s', hs', hfound.mpr ⟨1, hrunning⟩, ?_⟩
    simp only [hr, Option.map_some, Except.toOption, Option.bind_some, Option.some.injEq] at hopen ⊢
    exact hwait hopen
  · exact (cancelled_when_asked (run ++ [.cancel again])
      ((along_append _ _ _ _ _).mpr ⟨hrun, nofun, trivial⟩)).1
      [.begin (some first), .complete 0, .finish 0] (some again) again.toList _ rfl
      (hid again (by simp)) { requestId := some again, value := true } (by decide +kernel) rfl rfl

/-- The first of two requests under one id finishes: the second is cancelled though nobody asked
after its `begin`, and a call to cancel it finds nothing. A request that has completed is found
until it finishes, but sees nothing. -/
theorem second_request_lost : let _ := hyphenated
    let id := "3f2504e0-4f89-41d3-9a0c-0305e82c3301"
    let s := exec step ({} : Requests (List Char)) [.begin (some id), .begin (some id), .finish 0]
    ((s.requests[1]?).map (fun r => (r.finished, r.waitReturns)) = some (false, true) ∧
      (s.cancel id).toOption.map (·.1) = some false) ∧
    ((exec step ({} : Requests (List Char)) [.begin (some id), .complete 0]).cancel id).toOption.map
      (fun answer => (answer.1, answer.2.requests.map (·.waitReturns))) = some (true, [false]) := by
  decide +kernel

end Requests

end IMail.Desktop
