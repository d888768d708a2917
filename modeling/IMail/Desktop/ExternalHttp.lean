import IMail.Transition.Run

/-!
# The external HTTP adapter

`start_external_http` and `shutdown` of `src-tauri/src/embedded_service.rs` on an initialized host.
Every lock access, bind, write of the port file and start of a task is one step, and any number of
calls interleave. An adapter is told by its port; its task ends when the adapter is dropped, and
its `shutdown` sender with it.
-/

namespace IMail.Desktop

open Transition

def baseUrl (port : ℕ) : String := "http://127.0.0.1:" ++ toString port

/-- The next step of a call, with the port of its listener and whether the port file was written. -/
inductive StartPhase
  | check
  | bind
  | address (port : ℕ)
  | persist (port : ℕ)
  | spawn (port : ℕ) (written : Bool)
  | install (port : ℕ) (written : Bool)
  | returned (result : Except String String)

def StartPhase.between : StartPhase → Bool
  | .check | .returned _ => false
  | _ => true

/-- `externalHttp` is an adapter's port, with whether the port file was written for it. -/
structure HttpHost where
  externalHttp : Option (ℕ × Bool) := none
  serving : List ℕ := []
  portFile : Option ℕ := none
  starts : ℕ → StartPhase := fun _ => .check
  stopped : Bool := false

/-- A step of a call comes with what the system answers: whether the preferred port is free, the
port that it gives otherwise or why it gives none or no address, and whether the port file can be
written. -/
inductive HostOp
  | next (call : ℕ) (free : Bool) (port : Except String ℕ) (written : Bool)
  | shutdown

namespace HttpHost

def afterDrop (h : HttpHost) : List ℕ := h.serving.filter fun p => some p ≠ h.externalHttp.map (·.1)

/-- The next step of a call of `start_external_http`. -/
def advance (h : HttpHost) (free : Bool) (port : Except String ℕ) (written : Bool) :
    StartPhase → HttpHost × StartPhase
  | .check =>
    match h.externalHttp with
    | some (p, _) => (h, .returned (.ok (baseUrl p)))
    | none => (h, .bind)
  | .bind =>
    match h.portFile.filter (fun p => p ≠ 0 && free), port with
    | some p, _ | none, .ok p => (h, .address p)
    | none, .error e => (h, .returned (.error ("启动嵌入式 HTTP Adapter 失败：" ++ e)))
  | .address p =>
    match port with
    | .ok _ => (h, .persist p)
    | .error e => (h, .returned (.error ("读取嵌入式 HTTP Adapter 地址失败：" ++ e)))
  | .persist p => ({ h with portFile := if written then some p else h.portFile }, .spawn p written)
  | .spawn p w => ({ h with serving := h.serving ++ [p] }, .install p w)
  | .install p w =>
    ({ h with externalHttp := some (p, w), serving := h.afterDrop }, .returned (.ok (baseUrl p)))
  | .returned result => (h, .returned result)

def step (h : HttpHost) : HostOp → HttpHost
  | .next call free port written =>
    let (h', phase) := h.advance free port written (h.starts call)
    { h' with starts := fun i => if i = call then phase else h.starts i }
  | .shutdown => { h with externalHttp := none, serving := h.afterDrop, stopped := true }

def Idle (h : HttpHost) : Prop := ∀ i, (h.starts i).between = false

/-- No call checks for an adapter while another is between its check and its installation, nor
after the shutdown, and the shutdown does not come there either. -/
def Exclusive (h : HttpHost) : HostOp → Prop
  | .next call .. => (h.starts call) matches .check → h.Idle ∧ h.stopped = false
  | .shutdown => h.Idle

def Fits (h : HttpHost) : StartPhase → Prop
  | .check => True
  | .bind | .address _ | .persist _ => h.externalHttp = none ∧ h.serving = []
  | .spawn p w => h.externalHttp = none ∧ h.serving = [] ∧ (w = true → h.portFile = some p)
  | .install p w => h.externalHttp = none ∧ h.serving = [p] ∧ (w = true → h.portFile = some p)
  | .returned r => ∀ url, r = .ok url → h.stopped = true ∨
    ∃ a, h.externalHttp = some a ∧ url = baseUrl a.1

structure Inv (h : HttpHost) : Prop where
  fits : ∀ i, h.Fits (h.starts i)
  one : ∀ i j, (h.starts i).between → (h.starts j).between → i = j
  idle : h.Idle → h.serving = h.externalHttp.toList.map (·.1)
  agree : ∀ i j url url', h.starts i = .returned (.ok url) → h.starts j = .returned (.ok url') →
    url = url'
  file : ∀ p, h.externalHttp = some (p, true) → h.portFile = some p
  stopped : h.stopped = true → h.Idle ∧ h.externalHttp = none

variable {h h' : HttpHost}

theorem Fits.of_idle {phase : StartPhase} (hfit : h.Fits phase) (hidle : phase.between = false)
    (hkept : h'.stopped = true ∨
      h'.stopped = h.stopped ∧ ∀ a, h.externalHttp = some a → h'.externalHttp = some a) :
    h'.Fits phase := by
  cases phase with
  | check => trivial
  | returned r =>
    intro url hr
    rcases hkept with hstop | ⟨hstop, hkept⟩
    · exact .inl hstop
    · obtain hstopped | ⟨a, ha, hurl⟩ := hfit url hr
      · exact .inl (hstop.trans hstopped)
      · exact .inr ⟨a, hkept a ha, hurl⟩
  | bind | address | persist | spawn | install => cases hidle

theorem Inv.moved (hinv : h.Inv) {call : ℕ} {q : StartPhase}
    (hquiet : h.stopped = false ∧ ∀ i, i ≠ call → (h.starts i).between = false)
    (hstopped : h'.stopped = h.stopped) (hfit : h'.Fits q)
    (hkept : ∀ a, h.externalHttp = some a → h'.externalHttp = some a)
    (hserving : q.between = false → h'.serving = h'.externalHttp.toList.map (·.1))
    (hfile : ∀ p, h'.externalHttp = some (p, true) → h'.portFile = some p) :
    ({ h' with starts := fun i => if i = call then q else h.starts i } : HttpHost).Inv := by
  have hfits : ∀ i, h'.Fits (if i = call then q else h.starts i) := by
    intro i
    split_ifs with hi
    · exact hfit
    · exact (hinv.fits i).of_idle (hquiet.2 i hi) (.inr ⟨hstopped, hkept⟩)
  have honly : ∀ i, (if i = call then q else h.starts i).between = true → i = call := by
    intro i hi
    by_contra hne
    simp [hne, hquiet.2 i hne] at hi
  have hurl : ∀ i url, (if i = call then q else h.starts i) = .returned (.ok url) →
      ∃ a, h'.externalHttp = some a ∧ url = baseUrl a.1 := by
    intro i url hi
    have hret := hfits i
    rw [hi] at hret
    exact (hret url rfl).resolve_left (by simp [hstopped, hquiet.1])
  refine ⟨hfits, fun i j hi hj => (honly i hi).trans (honly j hj).symm,
    fun hidle => hserving (by simpa using hidle call), fun i j url url' hi hj => ?_, hfile,
    by simp [hstopped, hquiet.1]⟩
  obtain ⟨a, ha, rfl⟩ := hurl i url hi
  obtain ⟨b, hb, rfl⟩ := hurl j url' hj
  rw [Option.some_inj.mp (ha.symm.trans hb)]

theorem Inv.next (hinv : h.Inv) {call : ℕ} {free : Bool} {port : Except String ℕ} {written : Bool}
    (hop : h.Exclusive (.next call free port written)) :
    (h.step (.next call free port written)).Inv := by
  have hfit := hinv.fits call
  have hquiet : (h.starts call).between = true →
      h.stopped = false ∧ ∀ i, i ≠ call → (h.starts i).between = false := fun hbetween =>
    ⟨Bool.eq_false_iff.mpr fun hstop => by simp [(hinv.stopped hstop).1 call] at hbetween,
      fun i hi => Bool.eq_false_iff.mpr fun hother => hi (hinv.one i call hother hbetween)⟩
  simp only [HttpHost.step]
  cases hc : h.starts call with rw [hc] at hfit hquiet
  | check =>
    obtain ⟨hidle, hlive⟩ := hop (by rw [hc])
    have hserving := hinv.idle hidle
    simp only [advance]
    split
    next p w ha =>
      exact hinv.moved ⟨hlive, fun i _ => hidle i⟩ rfl (by simp [Fits, ha]) (fun _ => id)
        (fun _ => hserving) hinv.file
    next ha =>
      exact hinv.moved ⟨hlive, fun i _ => hidle i⟩ rfl ⟨ha, by simpa [ha] using hserving⟩
        (fun _ => id) nofun hinv.file
  | bind =>
    simp only [advance]
    split
    · exact hinv.moved (hquiet rfl) rfl hfit (fun _ => id) nofun hinv.file
    · exact hinv.moved (hquiet rfl) rfl hfit (fun _ => id) nofun hinv.file
    · exact hinv.moved (q := .returned (.error _)) (hquiet rfl) rfl nofun (fun _ => id)
        (by simp [hfit.1, hfit.2]) hinv.file
  | address p =>
    simp only [advance]
    split
    · exact hinv.moved (hquiet rfl) rfl hfit (fun _ => id) nofun hinv.file
    · exact hinv.moved (q := .returned (.error _)) (hquiet rfl) rfl nofun (fun _ => id)
        (by simp [hfit.1, hfit.2]) hinv.file
  | persist p =>
    exact hinv.moved (hquiet rfl) rfl ⟨hfit.1, hfit.2, fun hw => if_pos hw⟩ (fun _ => id) nofun
      (by simp [advance, hfit.1])
  | spawn p w =>
    exact hinv.moved (hquiet rfl) rfl ⟨hfit.1, by simp [advance, hfit.2.1], hfit.2.2⟩ (fun _ => id)
      nofun hinv.file
  | install p w =>
    exact hinv.moved (hquiet rfl) rfl (by simp [Fits, advance]) (by simp [hfit.1])
      (by simp [advance, afterDrop, hfit.1, hfit.2.1]) (by simpa [advance] using hfit.2.2)
  | returned r =>
    have hself : (fun i => if i = call then .returned r else h.starts i) = h.starts :=
      funext fun i => ite_eq_right_iff.mpr fun hi => hi ▸ hc.symm
    simpa only [advance, hself] using hinv

theorem Inv.step (hinv : h.Inv) {op : HostOp} (hop : h.Exclusive op) : (h.step op).Inv := by
  cases op with
  | next call free port written => exact hinv.next hop
  | shutdown =>
    refine ⟨fun i => (hinv.fits i).of_idle (hop i) (.inl rfl), hinv.one, fun _ => ?_, hinv.agree,
      nofun, fun _ => ⟨hop, rfl⟩⟩
    have hserving := hinv.idle hop
    cases ha : h.externalHttp <;> simp_all [afterDrop, HttpHost.step]

theorem Inv.serving_le_one (hinv : h.Inv) : h.serving.length ≤ 1 := by
  by_cases hidle : h.Idle
  · rw [hinv.idle hidle]
    cases h.externalHttp <;> simp
  · simp only [Idle, not_forall, Bool.not_eq_false] at hidle
    obtain ⟨i, hi⟩ := hidle
    have hfit := hinv.fits i
    cases hp : h.starts i with rw [hp] at hfit hi
    | check | returned => cases hi
    | bind | address | persist => simp [hfit.2]
    | spawn | install => simp [hfit.2.1]

/-- There is at most one adapter, whatever port was saved, as long as the calls and the shutdown
exclude each other between the check for an adapter and its installation, and no call comes after
the shutdown. -/
theorem one_adapter (saved : Option ℕ) (run : List HostOp)
    (h : Along step Exclusive { portFile := saved } run) :
    let host := exec step { portFile := saved } run
    host.serving.length ≤ 1 ∧
      (∀ i j url url', host.starts i = .returned (.ok url) → host.starts j = .returned (.ok url') →
        url = url') ∧
      (∀ p, host.externalHttp = some (p, true) → host.portFile = some p) ∧
      (host.stopped = true → host.serving = []) := by
  have hinit : ({ portFile := saved } : HttpHost).Inv :=
    ⟨fun _ => trivial, nofun, fun _ => rfl, nofun, nofun, nofun⟩
  have hinv := invariant_along Inv (fun _ _ hs hop => hs.step hop) hinit h
  refine ⟨hinv.serving_le_one, hinv.agree, hinv.file, fun hstop => ?_⟩
  obtain ⟨hidle, hnone⟩ := hinv.stopped hstop
  rw [hinv.idle hidle, hnone]
  rfl

/-- The steps of a call that finds no adapter, up to the task and beyond it, where the system gives
a port. -/
def steps (call port n : ℕ) : List HostOp := List.replicate n (.next call false (.ok port) true)

/-- The first call takes the saved port, which is free, and the second, though the system would give
it another one, answers with the first one's address. -/
theorem one_adapter_saved_port :
    let first := List.replicate 6 (.next 0 true (.ok 4002) true)
    let host := exec step { portFile := some 4100 } (first ++ steps 1 4001 1)
    (∀ url, host.starts 1 = .returned (.ok url) → url = baseUrl 4100) ∧
      host.portFile = some 4100 ∧
      (exec step { portFile := some 4100 } (first ++ steps 1 4001 1 ++ [.shutdown])).serving = [] := by
  intro first host
  have hcalls : Along step Exclusive { portFile := some 4100 } (first ++ steps 1 4001 1) := by
    refine ⟨fun _ => ⟨fun _ => rfl, rfl⟩, nofun, nofun, nofun, nofun, nofun, fun _ => ⟨fun i => ?_, rfl⟩,
      trivial⟩
    cases i <;> rfl
  refine ⟨fun url hurl => (one_adapter _ _ hcalls).2.1 1 0 url _ hurl rfl,
    (one_adapter _ _ hcalls).2.2.1 4100 rfl, (one_adapter _ _ ?_).2.2.2 rfl⟩
  refine (along_append _ _ _ _ _).mpr ⟨hcalls, fun i => ?_, trivial⟩
  rcases i with _ | _ | i <;> rfl

/-- Two calls that both find no adapter serve on two ports, and one of the two tasks goes on after
a shutdown that comes before the second installation. -/
theorem two_adapters :
    let run := .next 0 false (.ok 4001) true :: steps 1 4002 5 ++ steps 0 4001 4
    (exec step {} run).serving = [4002, 4001] ∧
      (exec step {} (run ++ steps 1 4002 1 ++ .shutdown :: steps 0 4001 1)).serving = [4001] := by
  decide

end HttpHost

end IMail.Desktop
