import IMail.Auth.Authentication

/-!
# Whoever registers can log in

A user who has registered is found again by the login text exactly when lower-casing that text
changes nothing but ASCII letters.
-/

namespace IMail

open Relational Text

namespace UserDb

theorem eqIgnoreAsciiCase_iff {s t : String} :
    eqIgnoreAsciiCase s t = true ↔ s.toList.map asciiLower = t.toList.map asciiLower := by
  simp [eqIgnoreAsciiCase]

variable {db : UserDb} {login : String} {u : AppUser}

theorem userByLogin_some (h : db.userByLogin login = some u) :
    u ∈ db.users ∧ eqIgnoreAsciiCase u.login login = true :=
  ⟨List.mem_of_find?_eq_some h,
    List.find?_some (p := fun u : AppUser => eqIgnoreAsciiCase u.login login) h⟩

theorem UniqueUsers.userByLogin (h : db.UniqueUsers) (hu : u ∈ db.users)
    (hlogin : eqIgnoreAsciiCase u.login login = true) : db.userByLogin login = some u := by
  cases hfound : db.userByLogin login with
  | none => exact absurd hlogin (by simpa using List.find?_eq_none.mp hfound u hu)
  | some v =>
    obtain ⟨hmem, hv⟩ := userByLogin_some hfound
    rw [eqIgnoreAsciiCase_iff] at hlogin hv
    have hsame : v = u := h.logins.eq_of_mem hmem hu (congrArg some hv) (congrArg some hlogin)
    rw [hsame]

theorem UniqueUsers.append {db' : UserDb} (h : db.UniqueUsers) {user : AppUser}
    (husers : db'.users = db.users ++ [user])
    (hfree : ∀ u ∈ db.users, u.id ≠ user.id ∧ eqIgnoreAsciiCase u.login user.login = false) :
    db'.UniqueUsers where
  ids := by
    rw [husers]
    apply h.ids.append
    intro u hu id hid hsame
    exact (hfree u hu).1 (Option.some.inj (hid.trans hsame.symm))
  logins := by
    rw [husers]
    apply h.logins.append
    intro u hu login hlogin hsame
    have heq : eqIgnoreAsciiCase u.login user.login = true :=
      eqIgnoreAsciiCase_iff.mpr (Option.some.inj (hlogin.trans hsame.symm))
    rw [(hfree u hu).2] at heq
    cases heq

section

variable [Platform] [AuthLibrary]

def FreshSession (db : UserDb) (call : AuthCall) : Prop :=
  ∀ s ∈ db.sessions, s.id ≠ call.sessionId ∧ s.tokenHash ≠ Platform.sha256Hex call.rawSession

variable {user : AppUser} {db : UserDb} {call : AuthCall}

omit [AuthLibrary] in
theorem openSession_total (db : UserDb) (call : AuthCall) (huser : user ∈ db.users)
    (hfresh : db.FreshSession call) :
    ∃ db', db.openSession call user = (.ok ⟨user.toPublic, call.rawSession⟩, db') := by
  have hsessions : ((deleteWhere (fun s => decide (s.expiresAt ≤ call.now)) db.sessions).any fun s =>
      s.id == call.sessionId || s.tokenHash == Platform.sha256Hex call.rawSession) = false := by
    apply List.any_eq_false.mpr
    intro s hs
    obtain ⟨hid, htoken⟩ := hfresh s (List.mem_filter.mp hs).1
    simp [hid, htoken]
  have hknown : (db.users.any fun u => u.id == user.id) = true :=
    List.any_eq_true.mpr ⟨user, huser, by simp⟩
  unfold openSession createSession
  dsimp only
  rw [hsessions, hknown]
  exact ⟨_, rfl⟩

omit [AuthLibrary] in
@[simp] theorem loginLimits_users (db : UserDb) (call : AuthCall) (login : String) :
    (db.loginLimits call login).2.users = db.users ∧
      (db.loginLimits call login).2.sessions = db.sessions := by
  unfold loginLimits
  dsimp only
  split_ifs <;> exact ⟨rfl, rfl⟩

theorem login_ok {db' : UserDb} {input : LoginInput} {session : AuthenticatedSession}
    (h : db.login call (some input) = (.ok session, db')) :
    ∃ user ∈ db.users, session.user = user.toPublic ∧
      eqIgnoreAsciiCase user.login (trim input.login) = true := by
  unfold login at h
  dsimp only at h
  split at h
  · cases h
  · rename_i valid hvalid
    have htrim : valid.login = trim input.login := by
      unfold validateLogin at hvalid
      dsimp only at hvalid
      split at hvalid
      · cases hvalid
      · cases hvalid
        rfl
    split at h
    · cases h
    · rename_i limited hlimits
      split at h
      · cases h
      · cases h
      · rename_i user hauth
        have husers : limited.users = db.users := by
          have := (loginLimits_users db call valid.login).1
          rw [hlimits] at this
          exact this
        unfold authenticate at hauth
        split at hauth
        · cases hauth
        · rename_i found hfound
          split at hauth
          · cases hauth
          · cases hauth
            obtain ⟨hmem, hlogin⟩ := userByLogin_some hfound
            exact ⟨user, husers ▸ hmem, (openSession_ok h).1, htrim ▸ hlogin⟩
          · cases hauth

theorem login_total (hunique : db.UniqueUsers) (input : LoginInput) (huser : user ∈ db.users)
    {salt : List UInt8} (hsalt : salt.length = passwordSaltBytes)
    (hhash : user.passwordHash = hashPassword input.password salt)
    (hlogin : eqIgnoreAsciiCase user.login (trim input.login) = true)
    (hcredentials : validateCredentials (trim input.login) input.password = .ok ())
    (hlimits : (db.loginLimits call (trim input.login)).1 = .ok ())
    (hfresh : db.FreshSession call) :
    ∃ db', db.login call (some input) = (.ok ⟨user.toPublic, call.rawSession⟩, db') := by
  obtain ⟨hkept, hsessions⟩ := loginLimits_users db call (trim input.login)
  have hvalid : validateLogin input = .ok ⟨trim input.login, input.password⟩ := by
    simp only [validateLogin, hcredentials]
  cases hresult : db.loginLimits call (trim input.login) with
  | mk limits limited =>
    rw [hresult] at hlimits hkept hsessions
    dsimp only at hlimits hkept hsessions
    subst hlimits
    have hfound : limited.userByLogin (trim input.login) = some user := by
      unfold userByLogin
      rw [hkept]
      exact hunique.userByLogin huser hlogin
    have hauth : limited.authenticate (trim input.login) input.password = .ok (some user) := by
      simp only [authenticate, hfound, hhash, verifyPassword_hashPassword _ hsalt]
    have hfresh' : limited.FreshSession call := by
      intro s hs
      exact hfresh s (hsessions ▸ hs)
    obtain ⟨db', hopen⟩ := openSession_total { limited with
      rateLimits := clearAttempt limited.rateLimits
        ("login-account:" ++ Platform.toLowercase (trim input.login)) } call (hkept ▸ huser) hfresh'
    refine ⟨db', ?_⟩
    simp only [login, hvalid, hresult, hauth]
    exact hopen

/-- The rows of a registered user are there as the registration left them. -/
def KeepsUser (registered later : UserDb) (id : String) : Prop :=
  ∀ u ∈ registered.users, u.id = id → u ∈ later.users

/-- A later login with the text and the password of a registration succeeds as its user, and no
later registration with the same login in another letter case does. -/
structure CanLogIn (input : RegistrationInput) (session : AuthenticatedSession)
    (registered : UserDb) : Prop where
  login : ∀ (later : UserDb) (call : AuthCall), later.UniqueUsers →
    registered.KeepsUser later session.user.id →
    (later.loginLimits call (trim input.login)).1 = .ok () → later.FreshSession call →
    ∃ opened later', later.login call (some ⟨input.login, input.password⟩) = (.ok opened, later') ∧
      opened.user = session.user
  once : ∀ (later : UserDb) (call : AuthCall) (again : RegistrationInput) (configured : Bool),
    registered.KeepsUser later session.user.id →
    Platform.toLowercase (trim again.login) = Platform.toLowercase (trim input.login) →
    ∀ opened later', later.register call (some again) configured ≠ (.ok opened, later')

/-- Lower-casing the login changes nothing but ASCII letters. -/
def FoldsAscii (login : String) : Prop :=
  eqIgnoreAsciiCase (Platform.toLowercase (trim login)) (trim login) = true

omit [AuthLibrary] in
theorem loginLimits_empty (users : List AppUser) (call : AuthCall) (login : String) :
    (loginLimits { users } call login).1 = .ok () := by
  have hsource : (consume { users } ("login-ip:" ++ call.actor) loginSourceMaximum loginWindowMs
      call.now) = (⟨true, 0⟩, { users, rateLimits :=
        [⟨Platform.sha256Hex ("login-ip:" ++ call.actor), 1, call.now + loginWindowMs⟩] }) := rfl
  have haccount : ∀ row : RateLimitRow, row.attemptCount = 1 → ∀ key : String,
      (consumeAttempt [row] ⟨key, loginAccountMaximum, loginWindowMs, call.now⟩).1.allowed = true := by
    intro row hrow key
    unfold consumeAttempt
    dsimp only
    split
    · rename_i found hfound
      have hmem := (List.mem_filter.mp (List.mem_of_find?_eq_some hfound)).1
      rw [List.mem_singleton.mp hmem, hrow, if_neg (by decide)]
    · rfl
  unfold loginLimits
  rw [hsource]
  dsimp only [Bool.not_true]
  rw [if_neg (by decide)]
  have hallowed := haccount
    ⟨Platform.sha256Hex ("login-ip:" ++ call.actor), 1, call.now + loginWindowMs⟩ rfl
    ("login-account:" ++ Platform.toLowercase login)
  unfold consume
  dsimp only
  rw [hallowed]
  rfl

/-- Whoever registers can log in exactly if the login folds by ASCII letters. -/
theorem register_login_iff {db registered : UserDb} (hunique : db.UniqueUsers) {call : AuthCall}
    {input : RegistrationInput} {configured : Bool} {session : AuthenticatedSession}
    (h : db.register call (some input) configured = (.ok session, registered)) :
    CanLogIn input session registered ↔ FoldsAscii input.login := by
  obtain ⟨user, hpublic, husers, hlogin, hhash, hfree, hcredentials⟩ := register_ok h
  have hid : session.user.id = user.id := by rw [hpublic]; rfl
  have huser : user ∈ registered.users := by
    rw [husers]
    exact List.mem_append_right _ (List.mem_singleton_self _)
  constructor
  · -- a login right after the registration finds the user under the text
    intro hcan
    have hregistered := hunique.append husers hfree
    obtain ⟨opened, later', hopened, hsame⟩ := hcan.login { users := registered.users } call
      ⟨hregistered.ids, hregistered.logins⟩ (fun _ hu _ => hu) (loginLimits_empty _ _ _)
      (fun s hs => by cases hs)
    obtain ⟨found, hfound, hfoundpublic, hfoundlogin⟩ := login_ok hopened
    have hfoundid : found.id = user.id := by
      have hids := congrArg PublicUser.id (hfoundpublic.symm.trans hsame)
      exact hids.trans hid
    have heq : found = user := hregistered.ids.eq_of_mem hfound huser (congrArg some hfoundid) rfl
    unfold FoldsAscii
    rw [← hlogin, ← heq]
    exact hfoundlogin
  · intro hfolds
    constructor
    · intro later logincall hlater hkept hlimits hfresh
      have hfound : eqIgnoreAsciiCase user.login (trim input.login) = true := by
        rw [hlogin]
        exact hfolds
      obtain ⟨later', hopened⟩ := login_total hlater ⟨input.login, input.password⟩
        (hkept user huser hid.symm) call.saltLength hhash hfound hcredentials hlimits hfresh
      exact ⟨_, later', hopened, hpublic.symm⟩
    · -- the stored login is the same, and the column is unique
      intro later again_call again configured' hkept hsame opened later' hagain
      obtain ⟨second, _, _, hsecond, _, hsecondfree, _⟩ := register_ok hagain
      have hconflict := (hsecondfree user (hkept user huser hid.symm)).2
      rw [hlogin, hsecond, hsame] at hconflict
      simp [eqIgnoreAsciiCase] at hconflict

end

@[reducible] def plainAuthLibrary : AuthLibrary where
  isLetterOrNumber := fun c => isAsciiAlphanumeric c || (192 ≤ c.toNat && c.toNat ≤ 255)
  scrypt := fun password _ n => (password ++ List.replicate n 0).take n
  length_scrypt := by
    intro password _ n
    rw [List.length_take, List.length_append, List.length_replicate]
    omega

@[reducible] def umlautPlatform : Platform :=
  { Platform.plain with
    toLowercase := fun s => String.ofList (s.toList.map fun c => if c = 'Ä' then 'ä' else asciiLower c) }

def exampleCall : AuthCall where
  actor := "127.0.0.1"
  now := 0
  userId := "u1"
  salt := List.replicate 16 0
  sessionId := "s1"
  rawSession := "token"
  saltLength := rfl

def exampleRegistration (login : String) : RegistrationInput := ⟨login, "Anne", "correct horse"⟩

/-- An ASCII login, typed with a capital and blanks around it. -/
theorem register_login_ascii :
    let _ := Platform.plain
    let _ := plainAuthLibrary
    ∃ session registered, register {} exampleCall (some (exampleRegistration " Anne ")) true =
      (.ok session, registered) ∧ CanLogIn (exampleRegistration " Anne ") session registered := by
  intro platform library
  have hresult : ((register {} exampleCall (some (exampleRegistration " Anne ")) true).1).isOk =
      true := by
    subst platform library
    decide +kernel
  cases h : register {} exampleCall (some (exampleRegistration " Anne ")) true with
  | mk result registered =>
    cases result with
    | error e =>
      rw [h] at hresult
      cases hresult
    | ok session =>
      refine ⟨session, registered, rfl, ?_⟩
      have hfolds : FoldsAscii (exampleRegistration " Anne ").login := by
        unfold FoldsAscii
        subst platform
        decide +kernel
      exact (register_login_iff ⟨UniqueBy.nil _, UniqueBy.nil _⟩ h).mpr hfolds

/-- The login "Änne" is stored as "änne" and is not found again. -/
theorem umlaut_login_rejected :
    let _ := umlautPlatform
    let _ := plainAuthLibrary
    let registered := (register {} exampleCall (some (exampleRegistration "Änne")) true).2
    ((register {} exampleCall (some (exampleRegistration "Änne")) true).1).isOk = true ∧
      (registered.login { exampleCall with sessionId := "s2", rawSession := "token2" }
        (some ⟨"Änne", "correct horse"⟩)).1 = .error (.domain 401 "登录名或密码错误") := by
  intro platform library registered
  subst registered platform library
  decide +kernel

end UserDb

end IMail
