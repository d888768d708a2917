import IMail.Text.JsonValue
import IMail.Text.Strings

/-!
# Translation profiles

A profile of a user names a translation service, its configuration and where it runs, with a
reference to its credential and the consent to send mail there. `translation_settings.rs` of
`imail-core`: what each call of `TranslationSettingsService` makes of the record it reads. Every
such call reads a whole record and writes a whole record back.
-/

namespace IMail

open Text

inductive TranslationProviderKind
  | edgeLocal
  | deepL
  | googleCloud
  | azureTranslator
  | bingWeb
  deriving DecidableEq, Repr

inductive TranslationExecutionTarget
  | webView
  | localService
  | remoteService
  deriving DecidableEq, Repr

inductive DeepLApiPlan
  | free
  | pro
  deriving DecidableEq, Repr

inductive TranslationProviderConfiguration
  | edgeLocal
  | deepL (plan : DeepLApiPlan)
  | googleCloud (projectId : String) (location : Option String)
  | azureTranslator (endpoint : String) (region : Option String)
  | bingWeb (market : Option String)
  deriving DecidableEq, Repr

namespace TranslationProviderConfiguration

def kind : TranslationProviderConfiguration → TranslationProviderKind
  | edgeLocal => .edgeLocal
  | deepL _ => .deepL
  | googleCloud _ _ => .googleCloud
  | azureTranslator _ _ => .azureTranslator
  | bingWeb _ => .bingWeb

def requiresCredentials : TranslationProviderConfiguration → Bool
  | deepL _ | googleCloud _ _ | azureTranslator _ _ => true
  | _ => false

end TranslationProviderConfiguration

inductive TranslationCredentialKind
  | deepLApiKey
  | googleApiKey
  | googleServiceAccount
  | azureApiKey
  deriving DecidableEq, Repr

structure TranslationCredentialReference where
  id : String
  kind : TranslationCredentialKind
  deriving DecidableEq, Repr

structure TranslationProviderProfile where
  id : String
  displayName : String
  executionTarget : TranslationExecutionTarget
  provider : TranslationProviderConfiguration
  credential : Option TranslationCredentialReference := none
  enabled : Bool
  deriving DecidableEq, Repr

structure TranslationProviderConsent where
  profileId : String
  disclosureRevision : String
  acceptedAt : String
  deriving DecidableEq, Repr

structure TranslationProviderRecord where
  ownerId : String
  profile : TranslationProviderProfile
  consent : Option TranslationProviderConsent := none
  encryptedCredential : Option String := none
  createdAt : String
  updatedAt : String
  deriving DecidableEq, Repr

structure TranslationProviderProfileInput where
  displayName : String
  executionTarget : TranslationExecutionTarget
  provider : TranslationProviderConfiguration
  enabled : Bool
  deriving DecidableEq, Repr

/-- `ApplicationError::Domain` -/
structure TranslationError where
  code : String
  status : ℕ
  message : String
  deriving DecidableEq, Repr

structure TranslationProviderDescriptor where
  kind : TranslationProviderKind
  executionTargets : List TranslationExecutionTarget
  credentialKinds : List TranslationCredentialKind
  sendsContentOffDevice : Bool
  experimental : Bool
  disclosureRevision : String
  deriving DecidableEq, Repr

def providerRegistry : List TranslationProviderDescriptor :=
  [⟨.edgeLocal, [.webView], [], false, false, "edge-local-v1"⟩,
    ⟨.deepL, [.localService, .remoteService], [.deepLApiKey], true, false, "deepl-cloud-v1"⟩,
    ⟨.googleCloud, [.localService, .remoteService], [.googleApiKey, .googleServiceAccount], true,
      false, "google-cloud-v1"⟩,
    ⟨.azureTranslator, [.localService, .remoteService], [.azureApiKey], true, false,
      "azure-translator-v1"⟩,
    ⟨.bingWeb, [.localService, .remoteService], [], true, true, "bing-web-experimental-v1"⟩]

theorem providerRegistry_complete (kind : TranslationProviderKind) :
    (providerRegistry.find? fun provider => provider.kind = kind).isSome = true := by
  cases kind <;> rfl

def descriptor (kind : TranslationProviderKind) : TranslationProviderDescriptor :=
  (providerRegistry.find? fun provider => provider.kind = kind).get
    (providerRegistry_complete kind)

/-- `provider.sends_content_off_device` of the descriptor -/
def TranslationProviderConfiguration.sendsOffDevice (provider : TranslationProviderConfiguration) :
    Bool :=
  (descriptor provider.kind).sendsContentOffDevice

inductive TranslationProviderStatus
  | configured
  | disabled
  | needsCredential
  | needsConsent
  | runtimeCheckRequired
  | experimental
  deriving DecidableEq, Repr

namespace TranslationProviderRecord

/-- `consent_current` -/
def consentCurrent (record : TranslationProviderRecord) : Bool :=
  record.consent.any fun consent =>
    consent.disclosureRevision == (descriptor record.profile.provider.kind).disclosureRevision

/-- `profile_status` -/
def status (record : TranslationProviderRecord) : TranslationProviderStatus :=
  let provider := descriptor record.profile.provider.kind
  if !record.profile.enabled then .disabled
  else if record.profile.provider.requiresCredentials && record.profile.credential.isNone then
    .needsCredential
  else if provider.sendsContentOffDevice && !record.consentCurrent then .needsConsent
  else if record.profile.provider.kind = .edgeLocal then .runtimeCheckRequired
  else if provider.experimental then .experimental
  else .configured

/-- The statuses that `prepare` goes on with. -/
def ready (record : TranslationProviderRecord) : Bool :=
  match record.status with
  | .disabled | .needsCredential | .needsConsent => false
  | _ => true

theorem ready_iff {record : TranslationProviderRecord} :
    record.ready = true ↔ record.profile.enabled = true ∧
      (record.profile.provider.requiresCredentials = true → record.profile.credential ≠ none) ∧
      (record.profile.provider.sendsOffDevice = true → record.consentCurrent = true) := by
  unfold ready status TranslationProviderConfiguration.sendsOffDevice
  dsimp only
  split_ifs with hdisabled hcredential hconsent <;> simp_all

theorem consent_of_ready {record : TranslationProviderRecord} (hready : record.ready = true)
    (hoff : record.profile.provider.sendsOffDevice = true) :
    record.profile.enabled = true ∧ ∃ consent, record.consent = some consent ∧
      consent.disclosureRevision =
        (descriptor record.profile.provider.kind).disclosureRevision := by
  obtain ⟨henabled, _, hcurrent⟩ := ready_iff.mp hready
  obtain ⟨consent, hconsent, hrevision⟩ := (Option.any_eq_true _ _).mp (hcurrent hoff)
  exact ⟨henabled, consent, hconsent, by simpa using hrevision⟩

end TranslationProviderRecord

def configInvalid : TranslationError :=
  ⟨"TRANSLATION_PROVIDER_CONFIG_INVALID", 400, "翻译服务配置无效"⟩

def validateOptionalField (value : String) (maximum : ℕ) : Except TranslationError Unit :=
  if (trim value).isEmpty || maximum < value.utf8ByteSize then .error configInvalid else .ok ()

def validateOptional (value : Option String) (maximum : ℕ) : Except TranslationError Unit :=
  match value with
  | none => .ok ()
  | some value => validateOptionalField value maximum

def alphanumericOr (extra : List Char) (value : String) : Bool :=
  value.toList.all fun c => c.isAlphanum || extra.contains c

def validateConfiguration : TranslationProviderConfiguration → Except TranslationError Unit
  | .googleCloud projectId location => do
    validateOptionalField projectId 160
    validateOptional location 80
    if !alphanumericOr ['-', '.', ':'] projectId ||
        location.any fun location => !alphanumericOr ['-'] location then
      .error ⟨"TRANSLATION_PROVIDER_CONFIG_INVALID", 400, "Google Cloud 项目或区域无效"⟩
    else .ok ()
  | .azureTranslator endpoint region =>
    if !"https://".toList.isPrefixOf endpoint.toList || 500 < endpoint.utf8ByteSize then
      .error ⟨"TRANSLATION_ENDPOINT_INVALID", 400, "Azure Translator 地址必须使用 HTTPS"⟩
    else validateOptional region 80
  | .bingWeb market => validateOptional market 40
  | .edgeLocal | .deepL _ => .ok ()

def validateProfile (profileId : String) (input : TranslationProviderProfileInput) :
    Except TranslationError Unit :=
  if profileId.isEmpty || 80 < profileId.utf8ByteSize || !alphanumericOr ['-', '_'] profileId then
    .error ⟨"TRANSLATION_PROFILE_ID_INVALID", 400, "翻译服务配置 ID 无效"⟩
  else if (trim input.displayName).isEmpty || 80 < (trim input.displayName).length then
    .error ⟨"TRANSLATION_PROFILE_NAME_INVALID", 400, "翻译服务名称无效"⟩
  else if !(descriptor input.provider.kind).executionTargets.contains input.executionTarget then
    .error ⟨"TRANSLATION_EXECUTION_TARGET_INVALID", 400, "翻译服务不能在所选位置运行"⟩
  else validateConfiguration input.provider

/-- `TranslationCredentialCodec` -/
class TranslationCodec where
  encrypt : TranslationCredentialKind → String → Option String
  decrypt : String → Option Json

def profileNotFound : TranslationError :=
  ⟨"TRANSLATION_PROFILE_NOT_FOUND", 404, "翻译服务配置不存在"⟩

/-- The record that `upsert_profile` makes of the input and the record it read. -/
def upsertedProfile (userId profileId : String) (input : TranslationProviderProfileInput)
    (now : String) (existing : Option TranslationProviderRecord) : TranslationProviderRecord :=
  let providerChanged := existing.any fun record => record.profile.provider != input.provider
  let credential := (existing.bind fun record => record.profile.credential).filter
    fun credential => (descriptor input.provider.kind).credentialKinds.contains credential.kind
  { ownerId := userId
    profile :=
      { id := profileId
        displayName := trim input.displayName
        executionTarget := input.executionTarget
        provider := input.provider
        credential
        enabled := input.enabled }
    consent := if providerChanged then none else existing.bind fun record => record.consent
    encryptedCredential := (existing.bind fun record => record.encryptedCredential).filter
      fun _ => credential.isSome
    createdAt := (existing.map fun record => record.createdAt).getD now
    updatedAt := now }

/-- `MAX_SECRET_BYTES` -/
def maxSecretBytes : ℕ := 128 * 1024

/-- The record that `set_credential` writes back. -/
def withCredential [TranslationCodec] (profileId : String) (kind : TranslationCredentialKind)
    (secret now : String) (record : TranslationProviderRecord) :
    Except TranslationError TranslationProviderRecord :=
  if !(descriptor record.profile.provider.kind).credentialKinds.contains kind then
    .error ⟨"TRANSLATION_CREDENTIAL_KIND_INVALID", 400, "凭据类型与翻译服务不匹配"⟩
  else if (trim secret).isEmpty || maxSecretBytes < (trim secret).utf8ByteSize then
    .error ⟨"TRANSLATION_CREDENTIAL_INVALID", 400, "翻译服务凭据无效"⟩
  else
    match TranslationCodec.encrypt kind (trim secret) with
    | none => .error ⟨"TRANSLATION_CREDENTIAL_ENCRYPT_FAILED", 500, "无法安全保存翻译服务凭据"⟩
    | some encrypted =>
      .ok { record with
        profile := { record.profile with credential := some ⟨profileId, kind⟩ }
        encryptedCredential := some encrypted
        updatedAt := now }

def withoutCredential (now : String) (record : TranslationProviderRecord) :
    TranslationProviderRecord :=
  { record with
    profile := { record.profile with credential := none }
    encryptedCredential := none
    updatedAt := now }

/-- The record that `accept_consent` writes back. -/
def withConsent (profileId now : String) (record : TranslationProviderRecord) :
    Except TranslationError TranslationProviderRecord :=
  let provider := descriptor record.profile.provider.kind
  if !provider.sendsContentOffDevice then
    .error ⟨"TRANSLATION_CONSENT_NOT_REQUIRED", 409, "本地翻译不需要云端数据授权"⟩
  else
    .ok { record with
      consent := some ⟨profileId, provider.disclosureRevision, now⟩
      updatedAt := now }

def withoutConsent (now : String) (record : TranslationProviderRecord) :
    TranslationProviderRecord :=
  { record with consent := none, updatedAt := now }

def credentialKindOf : Json → Option TranslationCredentialKind
  | .str "deepl-api-key" => some .deepLApiKey
  | .str "google-api-key" => some .googleApiKey
  | .str "google-service-account" => some .googleServiceAccount
  | .str "azure-api-key" => some .azureApiKey
  | _ => none

def jsonMember (key : String) : Json → Option Json
  | .obj members => members.lookup key
  | _ => none

/-- What `credential_secret` makes of the record it read. -/
def credentialSecret [TranslationCodec] (expectedKind : TranslationCredentialKind)
    (record : TranslationProviderRecord) : Except TranslationError String :=
  match record.profile.credential with
  | none => .error ⟨"TRANSLATION_CREDENTIAL_REQUIRED", 409, "翻译服务缺少访问凭据"⟩
  | some reference =>
    if reference.kind ≠ expectedKind then
      .error ⟨"TRANSLATION_CREDENTIAL_KIND_INVALID", 409, "翻译服务凭据类型不匹配"⟩
    else
      match record.encryptedCredential with
      | none => .error ⟨"TRANSLATION_CREDENTIAL_REQUIRED", 409, "翻译服务缺少访问凭据"⟩
      | some encrypted =>
        match TranslationCodec.decrypt encrypted with
        | none => .error ⟨"TRANSLATION_CREDENTIAL_DECRYPT_FAILED", 500, "无法读取翻译服务凭据"⟩
        | some value =>
          match credentialKindOf ((jsonMember "kind" value).getD .null),
              (((jsonMember "secret" value).bind Json.asString).map trim).filter
                fun secret => !secret.isEmpty with
          | some kind, some secret =>
            if kind ≠ expectedKind then
              .error ⟨"TRANSLATION_CREDENTIAL_KIND_INVALID", 500, "翻译服务凭据类型不匹配"⟩
            else .ok secret
          | _, _ => .error ⟨"TRANSLATION_CREDENTIAL_INVALID", 500, "翻译服务凭据无效"⟩

end IMail
