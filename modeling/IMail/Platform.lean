import IMail.Store.Schema

/-!
# What the program takes from outside

Functions of other crates and of the Unicode tables that the modelled code calls. The
development holds for every choice of them; where a result needs a property of one, the
property is a hypothesis of that result.
-/

namespace IMail

class Platform where
  /-- `str::to_lowercase` -/
  toLowercase : String → String
  /-- The hexadecimal digest of `Sha256::digest`. -/
  sha256Hex : String → String
  /-- `serde_json::to_vec` of a message. -/
  messageJson : Message → String
  /-- `serde_json::to_string` of an outgoing message. -/
  sendMessageJson : SendMessageInput → String
  /-- `serde_json::to_vec` of a message text with a draft id and a time. -/
  scheduleJson : String → String → Time → String
  /-- `DateTime::parse_from_rfc3339` -/
  parseRfc3339 : String → Option Time
  /-- `Uuid::parse_str` succeeds. -/
  isUuid : String → Bool
  /-- `STANDARD.decode` of the base64 crate. -/
  base64Decode : String → Option (List UInt8)
  /-- How `rusqlite` describes its errors. -/
  sqliteErrorText : String
  /-- `replace_all` of the three expressions of `redact_protocol_detail`. -/
  redactUriCredentials : String → String
  redactBearer : String → String
  redactNamedSecrets : String → String

/-- A platform to evaluate closed terms with: ASCII case folding, and digests and encodings
that are the text itself. -/
@[reducible] def Platform.plain : Platform where
  toLowercase := Text.toAsciiLowercase
  sha256Hex := id
  messageJson := fun m => m.id
  sendMessageJson := fun m => m.subject
  scheduleJson := fun message draft time => s!"{message} {draft} {time}"
  parseRfc3339 := fun _ => some 0
  isUuid := fun _ => true
  base64Decode := fun s => some (s.toList.map fun c => c.toNat.toUInt8)
  sqliteErrorText := "database error"
  redactUriCredentials := id
  redactBearer := id
  redactNamedSecrets := id

end IMail
