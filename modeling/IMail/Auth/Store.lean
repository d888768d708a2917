import IMail.Auth.RateLimit
import IMail.Text.Base64

/-!
# Users, passwords and sessions

`hash_password` and `verify_password` of `imail-security`, and the users and sessions of
`imail-storage-sqlite/src/auth.rs`. A login is stored in lower case, and the column compares ASCII
letters in either case (`COLLATE NOCASE`).
-/

namespace IMail

open Relational Text

/-- What the regex and the scrypt crate compute. -/
class AuthLibrary where
  /-- `\p{L}` or `\p{N}` -/
  isLetterOrNumber : Char → Bool
  /-- `scrypt` under the parameters 14, 8 and 1, for a number of bytes. -/
  scrypt : List UInt8 → List UInt8 → ℕ → List UInt8
  length_scrypt : ∀ password salt n, (scrypt password salt n).length = n

inductive SecurityError
  | invalidPasswordHash
  | passwordDerivation
  deriving DecidableEq, Repr

/-- `PASSWORD_SALT_BYTES` -/
def passwordSaltBytes : ℕ := 16

/-- `PASSWORD_HASH_BYTES` -/
def passwordHashBytes : ℕ := 64

/-- `ScryptParams::new(14, 8, 1, length)` accepts the length. -/
def scryptLength (length : ℕ) : Bool := 10 ≤ length && length ≤ 64

def passwordBytes (password : String) : List UInt8 := password.toUTF8.toList

section

variable [AuthLibrary]

/-- `hash_password_with_salt` -/
def hashPassword (password : String) (salt : List UInt8) : String :=
  "scrypt:" ++ base64UrlEncode salt ++ ":" ++
    base64UrlEncode (AuthLibrary.scrypt (passwordBytes password) salt passwordHashBytes)

def verifyPassword (password encoded : String) : Except SecurityError Bool :=
  match (splitList (· == ':') encoded.toList).map String.ofList with
  | [scheme, salt, expected] =>
    if scheme ≠ "scrypt" then .ok false
    else
      match base64UrlDecode salt, base64UrlDecode expected with
      | some salt, some expected =>
        if salt.length ≠ passwordSaltBytes || expected.isEmpty then .ok false
        else if !scryptLength expected.length then .error .passwordDerivation
        else .ok (AuthLibrary.scrypt (passwordBytes password) salt expected.length == expected)
      | _, _ => .error .invalidPasswordHash
  | _ => .ok false

end

theorem splitList_of_free {p : Char → Bool} {cs : List Char} (h : ∀ c ∈ cs, p c = false) :
    splitList p cs = [cs] := by
  induction cs with
  | nil => rfl
  | cons c cs ih =>
    rw [splitList, if_neg (by simp [h c List.mem_cons_self]),
      ih fun d hd => h d (List.mem_cons_of_mem _ hd)]

theorem splitList_append {p : Char → Bool} {front back : List Char} {sep : Char}
    (h : ∀ c ∈ front, p c = false) (hsep : p sep = true) :
    splitList p (front ++ sep :: back) = front :: splitList p back := by
  induction front with
  | nil => rw [List.nil_append, splitList, if_pos hsep]
  | cons c front ih =>
    rw [List.cons_append, splitList, if_neg (by simp [h c List.mem_cons_self]),
      ih fun d hd => h d (List.mem_cons_of_mem _ hd)]

theorem base64UrlEncode_free (bytes : List UInt8) :
    ∀ c ∈ (base64UrlEncode bytes).toList, (c == ':') = false := by
  intro c hc
  rw [base64UrlEncode, String.toList_ofList] at hc
  obtain ⟨n, _, rfl⟩ := List.mem_map.mp hc
  have hall : (base64UrlAlphabet.all fun d => !(d == ':')) = true := by decide
  have halphabet : ∀ d ∈ base64UrlAlphabet, (d == ':') = false := by simpa using hall
  unfold base64UrlChar
  rw [List.getD_eq_getElem?_getD]
  cases hn : base64UrlAlphabet[n]? with
  | none => rfl
  | some d => exact halphabet d (List.mem_of_getElem? hn)

theorem verifyPassword_hashPassword [AuthLibrary] (password : String) {salt : List UInt8}
    (hsalt : salt.length = passwordSaltBytes) :
    verifyPassword password (hashPassword password salt) = .ok true := by
  have hscheme : ∀ c ∈ "scrypt".toList, (c == ':') = false := by simp
  have hchars : (hashPassword password salt).toList = "scrypt".toList ++ ':' ::
      ((base64UrlEncode salt).toList ++ ':' :: (base64UrlEncode
        (AuthLibrary.scrypt (passwordBytes password) salt passwordHashBytes)).toList) := by
    simp [hashPassword, String.toList_append]
  have hlength := AuthLibrary.length_scrypt (passwordBytes password) salt passwordHashBytes
  have hnonempty : (AuthLibrary.scrypt (passwordBytes password) salt passwordHashBytes).isEmpty =
      false := by
    rw [List.isEmpty_eq_false_iff, ← List.length_pos_iff, hlength]
    decide
  have hvalid : scryptLength passwordHashBytes = true := by decide
  unfold verifyPassword
  rw [hchars, splitList_append hscheme rfl, splitList_append (base64UrlEncode_free _) rfl,
    splitList_of_free (base64UrlEncode_free _)]
  simp only [List.map_cons, List.map_nil, String.ofList_toList, base64UrlDecode_encode, hsalt,
    hnonempty, hlength, hvalid, ne_eq, not_true_eq_false, decide_false, Bool.or_false, if_false,
    Bool.not_true, Bool.false_eq_true, BEq.rfl]

/-- A row of `app_users`. -/
structure AppUser where
  id : String
  login : String
  displayName : String
  passwordHash : String
  createdAt : Time
  deriving DecidableEq, Repr

/-- A row of `app_sessions`. -/
structure AppSession where
  id : String
  userId : String
  tokenHash : String
  createdAt : Time
  expiresAt : Time
  lastSeenAt : Time
  deriving DecidableEq, Repr

structure UserDb where
  users : List AppUser := []
  sessions : List AppSession := []
  rateLimits : List RateLimitRow := []
  deriving DecidableEq, Repr

inductive UserDbError
  | constraint
  | security (e : SecurityError)
  deriving DecidableEq, Repr

/-- `SESSION_TTL_DAYS`, in milliseconds. -/
def sessionTtl : Time := 30 * 86400000

namespace UserDb

def setupRequired (db : UserDb) : Bool := db.users.isEmpty

/-- `WHERE login = ?1 COLLATE NOCASE` -/
def userByLogin (db : UserDb) (login : String) : Option AppUser :=
  db.users.find? fun u => eqIgnoreAsciiCase u.login login

section

variable [Platform] [AuthLibrary]

/-- `create_user_if_allowed`, with the new id, the salt and the time. -/
def createUserIfAllowed (db : UserDb) (login displayName password : String)
    (registrationOpen : Bool) (id : String) (salt : List UInt8) (now : Time) :
    Except UserDbError (Option AppUser × UserDb) :=
  if !registrationOpen && !db.setupRequired then .ok (none, db)
  else
    let user : AppUser :=
      ⟨id, Platform.toLowercase login, displayName, hashPassword password salt, now⟩
    -- the primary key and `login ... COLLATE NOCASE UNIQUE`
    if db.users.any fun u => u.id == id || eqIgnoreAsciiCase u.login user.login then
      .error .constraint
    else .ok (some user, { db with users := db.users ++ [user] })

omit [Platform] in
def authenticate (db : UserDb) (login password : String) : Except UserDbError (Option AppUser) :=
  match db.userByLogin login with
  | none => .ok none
  | some user =>
    match verifyPassword password user.passwordHash with
    | .error e => .error (.security e)
    | .ok true => .ok (some user)
    | .ok false => .ok none

omit [AuthLibrary]

/-- `create_session`, with the new id, the random token and the time. -/
def createSession (db : UserDb) (userId id raw : String) (now : Time) :
    Except UserDbError UserDb :=
  let sessions := deleteWhere (fun s => s.expiresAt ≤ now) db.sessions
  let tokenHash := Platform.sha256Hex raw
  if sessions.any fun s => s.id == id || s.tokenHash == tokenHash then .error .constraint
  else if !db.users.any fun u => u.id == userId then .error .constraint
  else .ok { db with sessions := sessions ++ [⟨id, userId, tokenHash, now, now + sessionTtl, now⟩] }

end

end UserDb

end IMail
