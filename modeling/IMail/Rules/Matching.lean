import IMail.Mail.Composition

/-!
# Mail rules

`imail-core/src/rules.rs`: when a rule is valid, when it matches a message, and which
rules apply to a message. Matching looks at the message as it arrived, never at what an
earlier rule has done to it.
-/

namespace IMail

open Text

/-- `valid_text` -/
def validText (value : String) (max : ℕ) : Bool :=
  !(trim value).isEmpty && decide ((value.toList.map utf16Length).sum ≤ max) &&
    !value.toList.any isControl

/-- One label of a domain in a `SenderDomain` condition. -/
def validDomainPart (part : List Char) : Bool :=
  !part.isEmpty && decide (utf8Length part ≤ 63) && part.head? != some '-' &&
    part.getLast? != some '-' && part.all fun c => isAsciiAlphanumeric c || c = '-'

def RuleCondition.valid : RuleCondition → Bool
  | .sender v | .recipient v => validMailAddress v
  | .senderDomain v =>
    validText v 253 && v.toList.contains '.' &&
      (splitList (· = '.') v.toList).all validDomainPart
  | .subjectContains v | .bodyContains v => validText v 200
  | .label v => validText v 80
  | .mailboxRole v =>
    decide (v ∈ ["inbox", "sent", "archive", "drafts", "trash", "junk", "custom"])
  | .hasAttachments _ | .unread _ | .flagged _ => true

namespace RuleAction

/-- `RuleAction::is_remote`. The clients need the mail server for these. -/
def isRemote : RuleAction → Bool
  | .markRead _ | .flag _ | .archive => true
  | .addLabel _ | .removeLabel _ | .mute _ => false

end RuleAction

/-- The check of the actions from position `index` on: a move changes the remote locator, so
it must be the last action. -/
def validateActions : List RuleAction → Except String Unit
  | [] => .ok ()
  | action :: rest =>
    match action with
    | .addLabel v | .removeLabel v =>
      if validText v 80 then validateActions rest else .error "标签需要 1–80 个字符"
    | .archive => if rest = [] then .ok () else .error "归档必须是规则的最后一个动作"
    | .markRead _ | .flag _ | .mute _ => validateActions rest

def MailRuleInput.validate (input : MailRuleInput) : Except String Unit :=
  if !validText input.name 80 || 10000 < input.priority then
    .error "规则名称需要 1–80 个字符，优先级需要 0–10000"
  else if 100 < input.accountIds.length || (input.accountIds.any fun id => !validText id 200) ||
      input.conditions.isEmpty || 20 < input.conditions.length ||
      input.actions.isEmpty || 20 < input.actions.length then
    .error "规则需要 1–20 个条件和动作，最多选择 100 个账户"
  else if input.conditions.all RuleCondition.valid then validateActions input.actions
  else .error "规则匹配条件无效"

section

variable [Platform]

def RuleCondition.holds (message : Message) : RuleCondition → Bool
  | .sender v => eqIgnoreAsciiCase message.sender.address (trim v)
  | .senderDomain v =>
    (rsplitOnceList '@' message.sender.address.toList).any fun parts =>
      eqIgnoreAsciiCase (String.ofList parts.2) v
  | .recipient v =>
    (message.recipients.any fun a => eqIgnoreAsciiCase a.address (trim v)) ||
      message.headers.cc.any fun a => eqIgnoreAsciiCase a.address (trim v)
  | .subjectContains v =>
    contains (Platform.toLowercase message.subject) (Platform.toLowercase (trim v))
  | .bodyContains v =>
    contains (Platform.toLowercase message.text) (Platform.toLowercase (trim v))
  | .hasAttachments v => message.hasAttachments == v
  | .unread v => message.unread == v
  | .flagged v => message.flagged == v
  | .mailboxRole v => message.mailboxRole == v
  | .label v => message.labels.contains v

/-- `MailRuleInput::matches`. An invalid imported rule never matches. -/
def MailRuleInput.matchesMessage (input : MailRuleInput) (message : Message) : Bool :=
  (input.accountIds.isEmpty || input.accountIds.contains message.accountId) &&
    input.validate.isOk &&
    match input.matchMode with
    | .all => input.conditions.all (RuleCondition.holds message)
    | .any => input.conditions.any (RuleCondition.holds message)

/-- Lower priorities run first; equal ones in creation order, then by id. -/
def ruleOrder (a b : MailRule) : Prop :=
  a.input.priority < b.input.priority ∨ (a.input.priority = b.input.priority ∧
    (a.createdAt < b.createdAt ∨ (a.createdAt = b.createdAt ∧ a.id ≤ b.id)))

instance : DecidableRel ruleOrder := fun _ _ => inferInstanceAs (Decidable (_ ∨ _))

/-- The loop of `matching_rules`: a matching rule that stops processing is the last. -/
def collectMatches (message : Message) : List MailRule → List MailRule
  | [] => []
  | rule :: rules =>
    if rule.input.matchesMessage message then
      if rule.input.stopProcessing then [rule] else rule :: collectMatches message rules
    else collectMatches message rules

def matchingRules (rules : List MailRule) (message : Message) : List MailRule :=
  collectMatches message ((rules.filter (·.input.enabled)).insertionSort ruleOrder)

end

end IMail
