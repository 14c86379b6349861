import JustMail.Accounts.Bootstrap
import JustMail.Accounts.DeactivateSwitch
import JustMail.Accounts.GroupPatch
import JustMail.Accounts.IdToken
import JustMail.Accounts.InviteOnce
import JustMail.Accounts.KeyRotation
import JustMail.Accounts.LdapSync
import JustMail.Accounts.LoginOnce
import JustMail.Accounts.NestedGroups
import JustMail.Accounts.OrgSettings
import JustMail.Accounts.OwnerGrants
import JustMail.Accounts.ScimListing
import JustMail.Accounts.ScimRoles
import JustMail.Accounts.SessionCookies
import JustMail.Accounts.Sso
import JustMail.Accounts.TenantIsolation
import JustMail.Accounts.TwoFactor
import JustMail.Attachments.Downloads
import JustMail.Attachments.Finalise
import JustMail.Attachments.Resume
import JustMail.Av.ClamScan
import JustMail.Backups.Engine
import JustMail.Backups.Schedules
import JustMail.Calendar.ICalNesting
import JustMail.Calendar.ICalRoundTrip
import JustMail.Contacts.VCardRoundTrip
import JustMail.Dav.InPlace
import JustMail.Dav.LineLaws
import JustMail.Dav.Listings
import JustMail.Dav.PropertyGrammar
import JustMail.Dav.Transport
import JustMail.Deliverability.DmarcArchive
import JustMail.Dkim.CloudflareSync
import JustMail.Dkim.DesecCodec
import JustMail.Dkim.DesecSync
import JustMail.Dkim.DnsCheck
import JustMail.Dkim.Rotation
import JustMail.Dkim.RotationFailures
import JustMail.Dkim.SigningMap
import JustMail.Dkim.ZoneFile
import JustMail.Domains.BimiLogo
import JustMail.Domains.Lifecycle
import JustMail.Foundation.NormalForms
import JustMail.Foundation.Sequences
import JustMail.Foundation.UriComponent
import JustMail.MailParser.StructureExact
import JustMail.MailParser.StructureLimits
import JustMail.Mailboxes.Quota
import JustMail.Notifications.WebPush
import JustMail.Observability.MailTraces
import JustMail.Observability.PostfixLines
import JustMail.Platform.BucketExpiry
import JustMail.Platform.Migrations
import JustMail.Platform.RateLimits
import JustMail.Platform.WorkerLoops
import JustMail.Postfix.CatchAll
import JustMail.Postfix.SenderLogin
import JustMail.Realtime.MailboxHook
import JustMail.Realtime.Revocation
import JustMail.Realtime.Tickets
import JustMail.Retention.LegalHolds
import JustMail.Retention.MailboxExport
import JustMail.Retention.PolicyUpdate
import JustMail.Security.SecurityScore
import JustMail.Storage.LocalListing
import JustMail.Storage.MigrateFaithful
import JustMail.Storage.RangedReads
import JustMail.Storage.TenantPaths
import JustMail.Themes.ThemeBlocks
import JustMail.Webhooks.Deliveries
import JustMail.Webmail.AttemptBudget
import JustMail.Webmail.CacheBust
import JustMail.Webmail.CredentialAgree
import JustMail.Webmail.DeltaSync
import JustMail.Webmail.DraftAutosave
import JustMail.Webmail.HeaderBlocks
import JustMail.Webmail.IdleOwnership
import JustMail.Webmail.ImapTurns
import JustMail.Webmail.InlineImages
import JustMail.Webmail.LockedFilters
import JustMail.Webmail.LockedMailbox
import JustMail.Webmail.MailboxAccess
import JustMail.Webmail.ManageSieve
import JustMail.Webmail.Personalization
import JustMail.Webmail.ScannedSends
import JustMail.Webmail.SearchWindow
import JustMail.Webmail.SendOnce
import JustMail.Webmail.SieveConcurrent
import JustMail.Webmail.SieveCorrect
import JustMail.Webmail.SieveReconcile
import JustMail.Webmail.SingleDraft
import JustMail.Webmail.Subjects
import JustMail.Webmail.Threading
import JustMail.Webmail.UndoWindow
