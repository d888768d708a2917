import IMail.Auth.Store

/-!
# Registration and login

`AuthenticationService` of `imail-core/src/authentication.rs`. A registration stores its login in
lower case by the rules of Unicode; a login passes the text as it was typed to a comparison that
folds ASCII letters only.
-/

namespace IMail

open Relational Text

structure RegistrationInput where
  login : String
  displayName : String
  password : String
  deriving DecidableEq, Repr

structure LoginInput where
  login : String
  password : String
  deriving DecidableEq, Repr

structure PublicUser where
  id : String
  login : String
  displayName : String
  deriving DecidableEq, Repr

def AppUser.toPublic (u : AppUser) : PublicUser := ⟨u.id, u.login, u.displayName⟩

structure AuthenticatedSession where
  user : PublicUser
  rawSession : String
  deriving DecidableEq, Repr

inductive AuthenticationError
  | domain (status : ℕ) (message : String)
  | limited (retryAfter : ℕ)
  | repository (e : UserDbError)
  deriving DecidableEq, Repr

/-- What a call brings along: where it comes from, the time, and the random values it draws. -/
structure AuthCall where
  actor : String
  now : Time
  userId : String
  salt : List UInt8
  sessionId : String
  rawSession : String
  saltLength : salt.length = passwordSaltBytes

def utf16Count (value : String) : ℕ := (value.toList.map utf16Length).sum

section

variable [AuthLibrary]

/-- `^[\p{L}\p{N}_.@-]+$` -/
def supportedLogin (login : String) : Bool :=
  !login.isEmpty && login.toList.all fun c =>
    AuthLibrary.isLetterOrNumber c || c == '_' || c == '.' || c == '@' || c == '-'

def validateCredentials (login password : String) : Except AuthenticationError Unit :=
  if utf16Count login < 3 then .error (.domain 400 "登录名至少 3 个字符")
  else if 80 < utf16Count login then .error (.domain 400 "登录名最多 80 个字符")
  else if !supportedLogin login then .error (.domain 400 "登录名包含不支持的字符")
  else if utf16Count password < 8 then .error (.domain 400 "密码至少 8 个字符")
  else if 256 < utf16Count password then .error (.domain 400 "密码最多 256 个字符")
  else .ok ()

def validateRegistration (input : RegistrationInput) :
    Except AuthenticationError RegistrationInput :=
  let input : RegistrationInput := ⟨trim input.login, trim input.displayName, input.password⟩
  match validateCredentials input.login input.password with
  | .error e => .error e
  | .ok _ =>
    if utf16Count input.displayName = 0 then .error (.domain 400 "请填写显示名称")
    else if 80 < utf16Count input.displayName then .error (.domain 400 "显示名称最多 80 个字符")
    else .ok input

def validateLogin (input : LoginInput) : Except AuthenticationError LoginInput :=
  let input : LoginInput := ⟨trim input.login, input.password⟩
  match validateCredentials input.login input.password with
  | .error e => .error e
  | .ok _ => .ok input

end

namespace UserDb

section

variable [Platform] [AuthLibrary]

def registrationMaximum : ℕ := 5
def registrationWindowMs : ℕ := 60 * 60000
def loginSourceMaximum : ℕ := 30
def loginAccountMaximum : ℕ := 10
def loginWindowMs : ℕ := 15 * 60000

omit [AuthLibrary]

/-- `consume_attempt` on the table of the store. -/
def consume (db : UserDb) (key : String) (maximum windowMs : ℕ) (now : Time) :
    RateLimitDecision × UserDb :=
  let (decision, rows) := consumeAttempt db.rateLimits ⟨key, maximum, windowMs, now⟩
  (decision, { db with rateLimits := rows })

def openSession (db : UserDb) (call : AuthCall) (user : AppUser) :
    Except AuthenticationError AuthenticatedSession × UserDb :=
  match db.createSession user.id call.sessionId call.rawSession call.now with
  | .error e => (.error (.repository e), db)
  | .ok db => (.ok ⟨user.toPublic, call.rawSession⟩, db)

def registrationClosed : AuthenticationError := .domain 403 "此服务已关闭新用户注册"

/-- `register`; the security events that it records are left out. -/
def register (db : UserDb) (call : AuthCall) (input : Option RegistrationInput)
    (registrationConfigured : Bool) :
    Except AuthenticationError AuthenticatedSession × UserDb :=
  if !db.setupRequired && !registrationConfigured then (.error registrationClosed, db)
  else
    let (limit, db) := db.consume ("register:" ++ call.actor) registrationMaximum
      registrationWindowMs call.now
    if !limit.allowed then (.error (.limited limit.retryAfter), db)
    else
      match input with
      | none => (.error (.domain 400 "请求参数无效"), db)
      | some input =>
        match validateRegistration input with
        | .error e => (.error e, db)
        | .ok input =>
          match db.createUserIfAllowed input.login input.displayName input.password
              registrationConfigured call.userId call.salt call.now with
          | .error e => (.error (.repository e), db)
          | .ok (none, db) => (.error registrationClosed, db)
          | .ok (some user, db) => db.openSession call user

def loginLimits (db : UserDb) (call : AuthCall) (login : String) :
    Except AuthenticationError Unit × UserDb :=
  let (source, db) := db.consume ("login-ip:" ++ call.actor) loginSourceMaximum loginWindowMs call.now
  if !source.allowed then (.error (.limited source.retryAfter), db)
  else
    let (account, db) := db.consume ("login-account:" ++ Platform.toLowercase login)
      loginAccountMaximum loginWindowMs call.now
    if !account.allowed then (.error (.limited account.retryAfter), db)
    else (.ok (), db)

def login (db : UserDb) (call : AuthCall) (input : Option LoginInput) :
    Except AuthenticationError AuthenticatedSession × UserDb :=
  match input with
  | none => (.error (.domain 400 "请求参数无效"), db)
  | some input =>
    match validateLogin input with
    | .error e => (.error e, db)
    | .ok input =>
      match db.loginLimits call input.login with
      | (.error e, db) => (.error e, db)
      | (.ok _, db) =>
        match db.authenticate input.login input.password with
        | .error e => (.error (.repository e), db)
        | .ok none => (.error (.domain 401 "登录名或密码错误"), db)
        | .ok (some user) =>
          let db := { db with
            rateLimits := clearAttempt db.rateLimits
              ("login-account:" ++ Platform.toLowercase input.login) }
          db.openSession call user

end

/-- `id TEXT PRIMARY KEY, login TEXT NOT NULL COLLATE NOCASE UNIQUE` -/
structure UniqueUsers (db : UserDb) : Prop where
  ids : UniqueBy (fun u : AppUser => some u.id) db.users
  logins : UniqueBy (fun u : AppUser => some (u.login.toList.map asciiLower)) db.users

section

variable [Platform] [AuthLibrary]

variable {db db' : UserDb} {call : AuthCall} {user : AppUser} {session : AuthenticatedSession}

omit [AuthLibrary] in
theorem openSession_ok (h : db.openSession call user = (.ok session, db')) :
    session.user = user.toPublic ∧ db'.users = db.users := by
  unfold openSession createSession at h
  dsimp only at h
  split_ifs at h with hused huser
  · cases h
  · cases h
  · cases h
    exact ⟨rfl, rfl⟩

omit [AuthLibrary] in
theorem createUserIfAllowed_some [AuthLibrary] {login displayName password id : String}
    {registrationOpen : Bool} {salt : List UInt8} {now : Time}
    (h : db.createUserIfAllowed login displayName password registrationOpen id salt now =
      .ok (some user, db')) :
    user = ⟨id, Platform.toLowercase login, displayName, hashPassword password salt, now⟩ ∧
      db'.users = db.users ++ [user] ∧
      ∀ u ∈ db.users, u.id ≠ id ∧ eqIgnoreAsciiCase u.login user.login = false := by
  unfold createUserIfAllowed at h
  dsimp only at h
  split_ifs at h with hclosed hused
  · cases h
  · cases h
    refine ⟨rfl, rfl, ?_⟩
    intro u hu
    have hfree := List.any_eq_false.mp (Bool.not_eq_true _ ▸ hused) u hu
    rw [Bool.not_eq_true, Bool.or_eq_false_iff, beq_eq_false_iff_ne] at hfree
    exact hfree

theorem register_ok {input : RegistrationInput} {configured : Bool}
    (h : db.register call (some input) configured = (.ok session, db')) :
    ∃ user : AppUser, session.user = user.toPublic ∧ db'.users = db.users ++ [user] ∧
      user.login = Platform.toLowercase (trim input.login) ∧
      user.passwordHash = hashPassword input.password call.salt ∧
      (∀ u ∈ db.users, u.id ≠ user.id ∧ eqIgnoreAsciiCase u.login user.login = false) ∧
      validateCredentials (trim input.login) input.password = .ok () := by
  unfold register at h
  dsimp only at h
  split_ifs at h
  · cases h
  · cases h
  · cases hvalid : validateRegistration input with
    | error e => simp [hvalid] at h
    | ok valid =>
      simp only [hvalid] at h
      unfold validateRegistration at hvalid
      dsimp only at hvalid
      split at hvalid
      · cases hvalid
      · rename_i u hcredentials
        split_ifs at hvalid
        cases hvalid
        split at h
        · cases h
        · cases h
        · rename_i user stored hcreate
          obtain ⟨rfl, husers, hfree⟩ := createUserIfAllowed_some hcreate
          obtain ⟨hpublic, hkept⟩ := openSession_ok h
          exact ⟨_, hpublic, hkept.trans husers, rfl, rfl, hfree, hcredentials⟩

end

end UserDb

end IMail
