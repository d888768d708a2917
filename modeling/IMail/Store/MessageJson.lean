import IMail.Store.Outbox
import IMail.Text.JsonValue

/-!
# The JSON of an outgoing message

`outbox_items.message_json` is what `serde_json` makes of a `SendMessageInput`, and `json_set` of
SQLite takes the content out of it. The rest still decodes.
-/

namespace IMail

open Text

def SendAttachmentInput.toJson (a : SendAttachmentInput) : Json :=
  .obj [("filename", .str a.filename), ("contentType", .str a.contentType), ("data", .str a.data)]

/-- `skip_serializing_if = "Vec::is_empty"` -/
def nonEmptyMember (key : String) (values : List String) : JsonObject :=
  if values.isEmpty then [] else [(key, Json.strings values)]

def ComposeEnvelope.toJson (e : ComposeEnvelope) : JsonObject :=
  nonEmptyMember "bcc" e.bcc ++
    (nonEmptyMember "inReplyTo" e.inReplyTo ++ nonEmptyMember "references" e.references)

def SendMessageInput.ownJson (m : SendMessageInput) : JsonObject :=
  [ ("accountId", .str m.accountId), ("to", Json.strings m.recipients),
    ("cc", Json.optional Json.strings m.cc), ("subject", .str m.subject), ("text", .str m.text),
    ("html", Json.optional .str m.html),
    ("attachments", Json.optional (fun l => .arr (l.map SendAttachmentInput.toJson))
      m.attachments) ]

def SendMessageInput.toJson (m : SendMessageInput) : JsonObject := m.envelope.toJson ++ m.ownJson

def SendAttachmentInput.ofJson : Json → Option SendAttachmentInput
  | .obj members => do
    let filename ← (members.lookup "filename").bind Json.asString
    let contentType ← (members.lookup "contentType").bind Json.asString
    let data ← (members.lookup "data").bind Json.asString
    return ⟨filename, contentType, data⟩
  | _ => none

/-- A member with `#[serde(default)]`. -/
def defaultStrings : Option Json → Option (List String)
  | none => some []
  | some value => value.asStrings

def ComposeEnvelope.ofJson (members : JsonObject) : Option ComposeEnvelope := do
  let bcc ← defaultStrings (members.lookup "bcc")
  let inReplyTo ← defaultStrings (members.lookup "inReplyTo")
  let references ← defaultStrings (members.lookup "references")
  return ⟨bcc, inReplyTo, references⟩

def SendMessageInput.ofJson (members : JsonObject) : Option SendMessageInput := do
  let envelope ← ComposeEnvelope.ofJson members
  let accountId ← (members.lookup "accountId").bind Json.asString
  let recipients ← (members.lookup "to").bind Json.asStrings
  let cc ← Json.asOptional Json.asStrings (members.lookup "cc")
  let subject ← (members.lookup "subject").bind Json.asString
  let text ← (members.lookup "text").bind Json.asString
  let html ← Json.asOptional Json.asString (members.lookup "html")
  let attachments ← Json.asOptional (Json.asArray SendAttachmentInput.ofJson)
    (members.lookup "attachments")
  return ⟨envelope, accountId, recipients, cc, subject, text, html, attachments⟩

/-- `json_set(message_json,'$.text','','$.html',NULL,'$.attachments',NULL)` -/
def redactJson (members : JsonObject) : JsonObject :=
  jsonSet (jsonSet (jsonSet members "text" (.str "")) "html" .null) "attachments" .null

/-- Nothing of the content is left. -/
structure Redacted (members : JsonObject) : Prop where
  text : members.lookup "text" = some (.str "")
  html : members.lookup "html" = some .null
  attachments : members.lookup "attachments" = some .null

theorem redacted_redactJson (members : JsonObject) : Redacted (redactJson members) where
  text := by simp [redactJson, lookup_jsonSet]
  html := by simp [redactJson, lookup_jsonSet]
  attachments := by simp [redactJson, lookup_jsonSet]

theorem SendAttachmentInput.ofJson_toJson (a : SendAttachmentInput) :
    SendAttachmentInput.ofJson a.toJson = some a := by
  simp [toJson, ofJson, List.lookup_cons, Json.asString]

theorem lookup_nonEmptyMember (key : String) (values : List String) (other : String) :
    (nonEmptyMember key values).lookup other =
      if other = key then if values = [] then none else some (Json.strings values) else none := by
  unfold nonEmptyMember
  by_cases hempty : values = []
  · simp [hempty]
  · simp [hempty, lookup_cons_if]

theorem defaultStrings_if (values : List String) :
    defaultStrings (if values = [] then none else some (Json.strings values)) = some values := by
  split_ifs with h
  · rw [h]
    rfl
  · exact Json.asStrings_strings values

theorem ComposeEnvelope.ofJson_append {e : ComposeEnvelope} {rest : JsonObject}
    (hbcc : rest.lookup "bcc" = none) (hreply : rest.lookup "inReplyTo" = none)
    (hreferences : rest.lookup "references" = none) :
    ComposeEnvelope.ofJson (e.toJson ++ rest) = some e := by
  unfold ComposeEnvelope.ofJson ComposeEnvelope.toJson
  simp [List.lookup_append, lookup_nonEmptyMember, hbcc, hreply, hreferences, defaultStrings_if]

theorem lookup_envelope (e : ComposeEnvelope) {key : String} (hbcc : key ≠ "bcc")
    (hreply : key ≠ "inReplyTo") (hreferences : key ≠ "references") (rest : JsonObject) :
    (e.toJson ++ rest).lookup key = rest.lookup key := by
  unfold ComposeEnvelope.toJson
  simp [List.lookup_append, lookup_nonEmptyMember, hbcc, hreply, hreferences]

theorem SendMessageInput.ofJson_toJson (m : SendMessageInput) :
    SendMessageInput.ofJson m.toJson = some m := by
  have henvelope : ComposeEnvelope.ofJson (m.envelope.toJson ++ m.ownJson) = some m.envelope :=
    ComposeEnvelope.ofJson_append rfl rfl rfl
  have hrecipients := Json.asStrings_strings m.recipients
  have hcc := Json.asOptional_optional Json.asStrings_strings (by simp [Json.strings]) m.cc
  have hhtml := Json.asOptional_optional (f := Json.asString) (g := .str) (fun _ => rfl)
    (by simp) m.html
  have hattachments := Json.asOptional_optional
    (Json.asArray_map SendAttachmentInput.ofJson_toJson) (by simp) m.attachments
  unfold SendMessageInput.ofJson SendMessageInput.toJson
  rw [henvelope]
  simp only [lookup_envelope m.envelope (show "accountId" ≠ "bcc" by decide) (by decide) (by decide),
    lookup_envelope m.envelope (show "to" ≠ "bcc" by decide) (by decide) (by decide),
    lookup_envelope m.envelope (show "cc" ≠ "bcc" by decide) (by decide) (by decide),
    lookup_envelope m.envelope (show "subject" ≠ "bcc" by decide) (by decide) (by decide),
    lookup_envelope m.envelope (show "text" ≠ "bcc" by decide) (by decide) (by decide),
    lookup_envelope m.envelope (show "html" ≠ "bcc" by decide) (by decide) (by decide),
    lookup_envelope m.envelope (show "attachments" ≠ "bcc" by decide) (by decide) (by decide)]
  simp [SendMessageInput.ownJson, List.lookup_cons, Json.asString, hrecipients, hcc, hhtml,
    hattachments]

theorem SendMessageInput.ofJson_redactJson {members : JsonObject} {m : SendMessageInput}
    (h : SendMessageInput.ofJson members = some m) :
    SendMessageInput.ofJson (redactJson members) = some (compactMessage m) := by
  have hkeep : ∀ key, key ≠ "text" → key ≠ "html" → key ≠ "attachments" →
      (redactJson members).lookup key = members.lookup key := by
    intro key htext hhtml hattachments
    simp [redactJson, lookup_jsonSet, htext, hhtml, hattachments]
  obtain ⟨htext, hhtml, hattachments⟩ := redacted_redactJson members
  have henvelope : ComposeEnvelope.ofJson (redactJson members) =
      ComposeEnvelope.ofJson members := by
    unfold ComposeEnvelope.ofJson
    rw [hkeep "bcc" (by decide) (by decide) (by decide),
      hkeep "inReplyTo" (by decide) (by decide) (by decide),
      hkeep "references" (by decide) (by decide) (by decide)]
  simp only [SendMessageInput.ofJson, Option.bind_eq_bind, Option.bind_eq_some_iff] at h
  obtain ⟨envelope, he, accountId, ha, recipients, hr, cc, hc, subject, hs, text, _, html, _,
    attachments, _, hm⟩ := h
  cases hm
  unfold SendMessageInput.ofJson
  rw [henvelope, he, hkeep "accountId" (by decide) (by decide) (by decide),
    hkeep "to" (by decide) (by decide) (by decide), hkeep "cc" (by decide) (by decide) (by decide),
    hkeep "subject" (by decide) (by decide) (by decide), htext, hhtml, hattachments,
    Option.bind_eq_some_iff.mpr ha, Option.bind_eq_some_iff.mpr hr, hc,
    Option.bind_eq_some_iff.mpr hs]
  rfl

end IMail
