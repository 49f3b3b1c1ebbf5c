import Soika.Library.Prog
import Soika.Library.Pool
import Soika.Library.Protocol
import Soika.Library.Transaction
import Soika.Library.Calendar
import Soika.Library.Table
import Soika.Library.Slice
import Soika.Library.Separated
import Soika.Library.OrdMap
import Soika.Library.Serial
import Soika.Library.Postcondition
import Soika.Domain.Project
import Soika.Domain.Notifications
import Soika.Alertmanager.Alert
import Soika.Alertmanager.Template
import Soika.Alertmanager.Rendering
import Soika.Alertmanager.Lifecycle
import Soika.Alertmanager.Operations
import Soika.Alertmanager.Orphans
import Soika.Alertmanager.Skip
import Soika.Alertmanager.Reconciled
import Soika.Domain.Json
import Soika.Domain.Time
import Soika.Domain.Event
import Soika.Domain.Stacktrace
import Soika.Domain.Text
import Soika.Domain.Trim
import Soika.Error
import Soika.Adapters.Store
import Soika.Adapters.Issue
import Soika.Adapters.Event
import Soika.Adapters.IssueSpec
import Soika.Ports
import Soika.Adapters.Machine
import Soika.Adapters.Write
import Soika.Adapters.Consistent
import Soika.Adapters.Database
import Soika.Issues.RowInvariant
import Soika.Issues.Override
import Soika.Issues.Chronology
import Soika.Ingest.Envelope
import Soika.Ingest.EnvelopeGrammar
import Soika.Ingest.EnvelopeCursor
import Soika.Grouping.Normalize
import Soika.Grouping.Fingerprint
import Soika.Grouping.Characters
import Soika.Grouping.Material
import Soika.Grouping.Indifference
import Soika.Grouping.Title
import Soika.Grouping.Pipeline
import Soika.Grouping.SqlitePipeline
import Soika.Grouping.Accounting
import Soika.Grouping.Phases
import Soika.Grouping.Atomicity
import Soika.Grouping.Resurfacing
import Soika.Grouping.Notifications
import Soika.Grouping.OperatorActions
import Soika.Ingest.EnvelopeFormat
import Soika.Ingest.Enrich
import Soika.Ingest.Handlers
import Soika.Ingest.Resend
import Soika.Api.Issues
import Soika.Api.Projects
import Soika.Scheduler
import Soika.TimeArithmetic
import Soika.Domain.User
import Soika.Domain.Membership
import Soika.Domain.ConfigFile
import Soika.Domain.SyncPlan
import Soika.Adapters.Directory
import Soika.Adapters.Accounts
import Soika.Adapters.AccountsSpec
import Soika.Adapters.AccountsConsistent
import Soika.Adapters.AccountsFrame
import Soika.Adapters.Retry
import Soika.ConfigSync.Apply
import Soika.Auth.Lockout
import Soika.Auth.RollingWindow
import Soika.Auth.Escalation
import Soika.Auth.Signing
import Soika.Auth.Session
import Soika.Auth.Server
import Soika.Auth.Repositories
import Soika.Auth.Handlers
import Soika.Auth.Calls
import Soika.Auth.Guesses
import Soika.Api.Settings
import Soika.Accounts.Refusals
import Soika.Accounts.LastAdmin
import Soika.Accounts.Owners
import Soika.Accounts.FirstOwner
import Soika.Accounts.Invites
import Soika.Accounts.Redemption
import Soika.Accounts.Registration
import Soika.Domain.JsonPath
import Soika.Ingest.RateLimit
import Soika.Ingest.Additive
import Soika.Library.Spending
import Soika.Ingest.Server
import Soika.Ingest.EventLimit
import Soika.Frontend.Values
import Soika.Frontend.Stacktrace
import Soika.Frontend.Agreement
import Soika.Ingest.Tags
import Soika.Api.MuteRules
import Soika.Frontend.EventContext
import Soika.Frontend.TagRules
import Soika.Library.Rfc3339
import Soika.Issues.Timestamps
import Soika.Library.Ranking
import Soika.Adapters.Pruning
import Soika.Adapters.PruningRuns
import Soika.Library.Histories
import Soika.Library.Sum
import Soika.Library.Guarded
import Soika.Auth.PasskeyHandlers
import Soika.Auth.PasskeyCalls
import Soika.Auth.Challenges
import Soika.Auth.Ceremonies
import Soika.Auth.SignatureCounters
import Soika.Auth.Conversion
import Soika.Auth.PasskeyQuota
import Soika.Ingest.RetryAfter
import Soika.Auth.LockDurations
import Soika.Library.Delimited
import Soika.Domain.Find
import Soika.Alertmanager.Grammar
import Soika.Domain.Yaml
import Soika.ConfigSync.Expansion
import Soika.ConfigSync.Reading
import Soika.ConfigSync.Sections
import Soika.Grouping.Scan
import Soika.Grouping.NormalForm
import Soika.Grouping.Masking
import Soika.Library.Like
import Soika.Library.Paging
import Soika.Adapters.IssueList
import Soika.Adapters.IssueSearch
import Soika.Adapters.IssuePages
import Soika.Adapters.RetryRuns
import Soika.Grouping.BuildHashes
import Soika.Domain.Slug
import Soika.Library.Base64
import Soika.Auth.SignedCookies
import Soika.ConfigSync.Reconciliation
import Soika.Adapters.DirectoryViews
import Soika.ConfigSync.Teams
import Soika.ConfigSync.Projects
import Soika.ConfigSync.Pruning
import Soika.ConfigSync.TeamPruning
import Soika.ConfigSync.Outcome
import Soika.ConfigSync.Applied
import Soika.ConfigSync.Idempotence
import Soika.ConfigSync.UserGrants
import Soika.ConfigSync.Membership
import Soika.Auth.Oidc
import Soika.Auth.Callback
import Soika.Accounts.OwnerPasswords
import Soika.Accounts.OwnerSignIn
import Soika.Adapters.Site
import Soika.Adapters.SiteSpec
import Soika.Adapters.TeamPart
import Soika.Api.Snippets
import Soika.Api.Access
import Soika.Api.Requests
import Soika.Api.Evidence
import Soika.Api.Mediation
import Soika.Api.Mediated
import Soika.Api.Confinement
import Soika.Api.Owners
import Soika.Retention.Batches
import Soika.Retention.Losses
