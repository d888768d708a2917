import IMail.Text.Strings

/-!
# How long a refreshed token lives

`refresh_account_secret`, `token_to_secret` and `token_needs_refresh` of `imail-oauth/src/lib.rs`
and the use that `resolve` of `imail-core/src/oauth_refresh.rs` makes of them. The expiry is a
number of milliseconds that is stored as RFC 3339 text. The text of a year beyond 9999 is never
read back, and a lifetime of 90 seconds or less is within the skew from the start.
-/

namespace IMail

inductive OAuthProviderKey
  | google
  | microsoft
  | yahoo
deriving DecidableEq

structure OAuthAccountSecret where
  authType : String
  oauthProvider : OAuthProviderKey
  accessToken : String
  refreshToken : Option String
  expiresAt : String
  scopes : List String
  tokenType : String
  proxyPassword : Option String
deriving DecidableEq

structure OAuthTokenResponse where
  accessToken : String
  refreshToken : Option String
  expiresIn : Option ℤ
  tokenType : Option String
  scope : Option String
deriving DecidableEq

structure OAuthConfig where
  key : OAuthProviderKey
  scopes : List String
  configured : Bool
  configurationHint : String

inductive OAuthError
  | configuration (hint : String)
  | invalidProviderResponse
  | missingRefreshToken
  | provider (detail : String)
deriving DecidableEq

/-- The milliseconds that a `DateTime<Utc>` can hold. -/
def InDateRange (ms : ℤ) : Prop := -8334601228800000 ≤ ms ∧ ms ≤ 8210266876799999

/-- The milliseconds of the years 0000 to 9999. -/
def InFourDigitYears (ms : ℤ) : Prop := -62167219200000 ≤ ms ∧ ms ≤ 253402300799999

instance (ms : ℤ) : Decidable (InDateRange ms) := inferInstanceAs (Decidable (_ ∧ _))

instance (ms : ℤ) : Decidable (InFourDigitYears ms) := inferInstanceAs (Decidable (_ ∧ _))

/-- What the code takes from `chrono`. A year of more than four digits is written with a sign,
and `parse_from_rfc3339` takes four digits only. -/
class Chrono where
  /-- `from_timestamp_millis` and `to_rfc3339_opts(SecondsFormat::Millis, true)` -/
  toRfc3339 : ℤ → Option String
  /-- `parse_from_rfc3339` and `timestamp_millis` -/
  parseRfc3339 : String → Option ℤ
  isSome_toRfc3339 : ∀ ms, (toRfc3339 ms).isSome ↔ InDateRange ms
  parse_toRfc3339 : ∀ ms text, toRfc3339 ms = some text →
    parseRfc3339 text = if InFourDigitYears ms then some ms else none

@[reducible] def Chrono.unary : Chrono where
  toRfc3339 ms :=
    if InDateRange ms then some (String.ofList (List.replicate (Encodable.encode ms) '1'))
    else none
  parseRfc3339 text :=
    (Encodable.decode (α := ℤ) text.length).filter fun ms => decide (InFourDigitYears ms)
  isSome_toRfc3339 ms := by split_ifs with h <;> simp [h]
  parse_toRfc3339 ms text h := by
    split_ifs at h with hrange
    cases h
    rw [String.length_ofList, List.length_replicate, Encodable.encodek]
    simp [Option.filter]

/-- A result of the saturating operations of `i64`. -/
def saturate (n : ℤ) : ℤ := max (-2 ^ 63) (min n (2 ^ 63 - 1))

def tokenExpirySkewMs : ℤ := 90 * 1000

/-- The lifetime that a provider states, in seconds. -/
def OAuthTokenResponse.lifetime (token : OAuthTokenResponse) : ℤ := token.expiresIn.getD 3600

def OAuthTokenResponse.expiresAtMs (token : OAuthTokenResponse) (nowMs : ℤ) : ℤ :=
  saturate (nowMs + saturate (max token.lifetime 60 * 1000))

section

variable [Chrono]

def tokenNeedsRefresh (secret : OAuthAccountSecret) (nowMs : ℤ) : Bool :=
  (Chrono.parseRfc3339 secret.expiresAt).any (· ≤ saturate (nowMs + tokenExpirySkewMs))

def tokenToSecret (config : OAuthConfig) (token : OAuthTokenResponse)
    (previousRefreshToken proxyPassword : Option String) (nowMs : ℤ) :
    Except OAuthError OAuthAccountSecret :=
  if token.accessToken = "" then .error .invalidProviderResponse
  else
    match Chrono.toRfc3339 (token.expiresAtMs nowMs) with
    | none => .error .invalidProviderResponse
    | some expiresAt =>
      .ok
        { authType := "oauth2"
          oauthProvider := config.key
          accessToken := token.accessToken
          refreshToken := token.refreshToken.or previousRefreshToken
          expiresAt
          scopes := Text.splitWhitespace (token.scope.getD (String.intercalate " " config.scopes))
          tokenType := token.tokenType.getD "Bearer"
          proxyPassword }

/-- `refresh_account_secret`, with the provider's answer to a refresh token. -/
def refreshAccountSecret (provider : String → Except OAuthError OAuthTokenResponse)
    (config : OAuthConfig) (current : OAuthAccountSecret) (nowMs : ℤ) :
    Except OAuthError OAuthAccountSecret :=
  match current.refreshToken with
  | none => .error .missingRefreshToken
  | some refreshToken => do
    let token ← provider refreshToken
    tokenToSecret config token (some refreshToken) current.proxyPassword nowMs

/-- `resolve` for an account with an OAuth secret: the refresh tokens presented to the provider,
and the secret that the connection is made with. -/
def resolveSecret (provider : String → Except OAuthError OAuthTokenResponse)
    (config : OAuthConfig) (stored : OAuthAccountSecret) (nowMs : ℤ) :
    List String × Except OAuthError OAuthAccountSecret :=
  if tokenNeedsRefresh stored nowMs then
    if !config.configured then ([], .error (.configuration config.configurationHint))
    else (stored.refreshToken.toList, refreshAccountSecret provider config stored nowMs)
  else ([], .ok stored)

/-- A refreshed secret needs no refresh at once and needs one from its expiry on, and a rotated
refresh token is kept. -/
def SaneLife (config : OAuthConfig) (current : OAuthAccountSecret) (token : OAuthTokenResponse)
    (nowMs : ℤ) : Prop :=
  (∀ s, refreshAccountSecret (fun _ => .ok token) config current nowMs = .ok s →
    tokenNeedsRefresh s nowMs = false ∧
      (∀ provider, (resolveSecret provider config s nowMs).1 = []) ∧
      ∀ t, nowMs + 1000 * max token.lifetime 60 ≤ t → tokenNeedsRefresh s t = true) ∧
    ∀ rotated, token.refreshToken = some rotated →
      ∃ s, refreshAccountSecret (fun _ => .ok token) config current nowMs = .ok s ∧
        s.refreshToken = some rotated

omit [Chrono] in
theorem expiresAtMs_eq {token : OAuthTokenResponse} {nowMs : ℤ}
    (h : InFourDigitYears (token.expiresAtMs nowMs)) :
    token.expiresAtMs nowMs = nowMs + min (max token.lifetime 60 * 1000) (2 ^ 63 - 1) := by
  simp only [InFourDigitYears, OAuthTokenResponse.expiresAtMs, saturate] at h ⊢
  omega

omit [Chrono] in
theorem le_saturate_iff {ms : ℤ} (h : InFourDigitYears ms) (n : ℤ) : ms ≤ saturate n ↔ ms ≤ n := by
  simp only [InFourDigitYears, saturate] at h ⊢
  omega

theorem refreshAccountSecret_cases (config : OAuthConfig) {current : OAuthAccountSecret}
    {token : OAuthTokenResponse} {previous : String} (nowMs : ℤ)
    (hcurrent : current.refreshToken = some previous) (haccess : token.accessToken ≠ "") :
    ¬ InDateRange (token.expiresAtMs nowMs) ∧
        refreshAccountSecret (fun _ => .ok token) config current nowMs =
          .error .invalidProviderResponse ∨
      InDateRange (token.expiresAtMs nowMs) ∧
        ∃ s, refreshAccountSecret (fun _ => .ok token) config current nowMs = .ok s ∧
          s.refreshToken = token.refreshToken.or (some previous) ∧
          ∀ t, tokenNeedsRefresh s t = true ↔
            InFourDigitYears (token.expiresAtMs nowMs) ∧
              token.expiresAtMs nowMs ≤ t + tokenExpirySkewMs := by
  have hsome := Chrono.isSome_toRfc3339 (token.expiresAtMs nowMs)
  simp only [refreshAccountSecret, hcurrent, bind, Except.bind, tokenToSecret, if_neg haccess]
  cases htext : Chrono.toRfc3339 (token.expiresAtMs nowMs) with
  | none => exact .inl ⟨by simpa [htext] using hsome, rfl⟩
  | some text =>
    refine .inr ⟨by simpa [htext] using hsome, _, rfl, rfl, fun t => ?_⟩
    simp only [tokenNeedsRefresh, Chrono.parse_toRfc3339 _ _ htext]
    split_ifs with hyears <;> simp [hyears, le_saturate_iff]

/-- A refreshed token has a sane lifetime exactly if it lives for more than 90 seconds and expires
in a year of four digits, or if the expiry cannot be written and no rotated token is lost by it. -/
theorem sane_life_iff (config : OAuthConfig) {current : OAuthAccountSecret}
    {token : OAuthTokenResponse} {previous : String} (nowMs : ℤ)
    (hcurrent : current.refreshToken = some previous) (haccess : token.accessToken ≠ "") :
    SaneLife config current token nowMs ↔
      90 < token.lifetime ∧ InFourDigitYears (token.expiresAtMs nowMs) ∨
        token.refreshToken = none ∧ ¬ InDateRange (token.expiresAtMs nowMs) := by
  have hwithin : InFourDigitYears (token.expiresAtMs nowMs) →
      InDateRange (token.expiresAtMs nowMs) := by
    simp only [InFourDigitYears, InDateRange]
    omega
  rcases refreshAccountSecret_cases config nowMs hcurrent haccess with
    ⟨hrange, herror⟩ | ⟨hrange, s, hok, hkept, hneeds⟩
  · -- nothing is returned, so a rotated token would be lost
    simp only [SaneLife, herror, hrange, reduceCtorEq, false_and, exists_false, false_implies,
      implies_true, true_and, imp_false, not_false_eq_true, and_true, mt hwithin hrange, and_false,
      false_or, Option.eq_none_iff_forall_ne_some, ne_eq]
  · have hquiet : tokenNeedsRefresh s nowMs = false →
        ∀ provider, (resolveSecret provider config s nowMs).1 = [] := fun h provider => by
      simp [resolveSecret, h]
    have hrotated : ∀ rotated, token.refreshToken = some rotated →
        s.refreshToken = some rotated := fun rotated h => by rw [hkept, h, Option.some_or]
    simp only [hrange, not_true_eq_false, and_false, or_false]
    simp only [tokenExpirySkewMs] at hneeds
    constructor
    · rintro ⟨hlife, -⟩
      obtain ⟨hnow, -, hlater⟩ := hlife s hok
      have hyears := ((hneeds _).mp (hlater _ le_rfl)).1
      have hexpiry := expiresAtMs_eq hyears
      have hskew : ¬ token.expiresAtMs nowMs ≤ nowMs + 90 * 1000 := fun hle =>
        Bool.eq_false_iff.mp hnow ((hneeds nowMs).mpr ⟨hyears, hle⟩)
      exact ⟨by omega, hyears⟩
    · rintro ⟨hlong, hyears⟩
      have hexpiry := expiresAtMs_eq hyears
      have hnow : tokenNeedsRefresh s nowMs = false :=
        Bool.eq_false_iff.mpr fun hneeded => by
          have hle := ((hneeds nowMs).mp hneeded).2
          omega
      refine ⟨fun s' hs' => ?_, fun rotated h => ⟨s, hok, hrotated rotated h⟩⟩
      obtain rfl : s = s' := Except.ok.inj (hok.symm.trans hs')
      exact ⟨hnow, hquiet hnow, fun t ht => (hneeds t).mpr ⟨hyears, by omega⟩⟩

end

def plainConfig : OAuthConfig := ⟨.google, [], true, ""⟩

def plainSecret : OAuthAccountSecret := ⟨"oauth2", .google, "access", some "first", "", [], "", none⟩

def rotatedToken (lifetime : ℤ) : OAuthTokenResponse :=
  ⟨"access", some "second", some lifetime, none, none⟩

theorem sane_life_iff_hour :
    letI := Chrono.unary
    SaneLife plainConfig plainSecret (rotatedToken 3600) 0 :=
  letI := Chrono.unary
  (@sane_life_iff _ plainConfig plainSecret _ "first" 0 rfl (by decide)).mpr
    (.inl ⟨by decide, by decide⟩)

/-- A token of 60 seconds needs a refresh at once, one of `10 ^ 12` seconds never needs one, and
with one of `10 ^ 16` seconds the rotated refresh token is lost. -/
theorem lifetimes_go_wrong :
    letI := Chrono.unary
    let refresh := fun lifetime =>
      refreshAccountSecret (fun _ => .ok (rotatedToken lifetime)) plainConfig plainSecret 0
    (∃ s, refresh 60 = .ok s ∧ tokenNeedsRefresh s 0 = true) ∧
      (∃ s, refresh (10 ^ 12) = .ok s ∧ ∀ t, tokenNeedsRefresh s t = false) ∧
      refresh (10 ^ 16) = .error .invalidProviderResponse := by
  let _ := Chrono.unary
  have hcases := fun lifetime => @refreshAccountSecret_cases _ plainConfig plainSecret
    (rotatedToken lifetime) "first" 0 rfl (by simp [rotatedToken])
  refine ⟨?_, ?_, ?_⟩
  · obtain ⟨hrange, -⟩ | ⟨-, s, hok, -, hneeds⟩ := hcases 60
    · exact absurd (by decide) hrange
    · exact ⟨s, hok, (hneeds 0).mpr (by decide)⟩
  · obtain ⟨hrange, -⟩ | ⟨-, s, hok, -, hneeds⟩ := hcases (10 ^ 12)
    · exact absurd (by decide) hrange
    · refine ⟨s, hok, fun t => Bool.eq_false_iff.mpr fun h => ?_⟩
      exact absurd ((hneeds t).mp h).1 (by decide)
  · obtain ⟨-, herror⟩ | ⟨hrange, -⟩ := hcases (10 ^ 16)
    · exact herror
    · exact absurd hrange (by decide)

end IMail
