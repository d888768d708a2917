import IMail.Apple.Srp
import IMail.Attachments.Cache
import IMail.Auth.Registration
import IMail.Client.Counters
import IMail.Client.MessageActions
import IMail.Contacts.Statistics
import IMail.Desktop.ExternalHttp
import IMail.Desktop.RequestCancellation
import IMail.Gateway.Aliases
import IMail.Mail.PatchRaces
import IMail.Mail.ReplyDraft
import IMail.Messages.Conversation
import IMail.Messages.LiteralSearch
import IMail.Messages.Paging
import IMail.Messages.Snooze
import IMail.Messages.StatsAgreement
import IMail.Messages.Tenants
import IMail.Network.Connect
import IMail.Network.SafeFetch
import IMail.OAuth.TokenLife
import IMail.Outbox.AtMostOnce
import IMail.Outbox.Idempotency
import IMail.Outbox.Tenant
import IMail.Rules.Attempts
import IMail.Rules.AutomaticRuns
import IMail.Rules.Drain
import IMail.Rules.MatchOrder
import IMail.Rules.Superseded
import IMail.Store.Migration
import IMail.Sync.ArchiveLabels
import IMail.Sync.AuthSticky
import IMail.Sync.EventStreams
import IMail.Sync.MailboxNames
import IMail.Sync.Notifications
import IMail.Sync.OtherTargets
import IMail.Sync.SelectedFolders
import IMail.Sync.Stopped
import IMail.Translation.Consent
