import T560.Js.Text
import T560.Js.Value
import T560.Transcript.Message
import T560.Transcript.Repair
import T560.Transcript.Pairing
import T560.Transcript.RepairTurns
import T560.Transcript.RepairSpec
import T560.Transcript.RepairCorrect
import T560.Transcript.Session
import T560.Provider.Reply
import T560.Provider.Ledger
import T560.Provider.Chat
import T560.Provider.ChatLayout
import T560.Provider.ChatInvariant
import T560.Js.Ascii
import T560.Provider.Requests
import T560.Provider.Orphans
import T560.Foundation.ReplayLog
import T560.Js.Lines
import T560.Memory.Store
import T560.Memory.Normalized
import T560.Js.Json
import T560.Memory.Compact
import T560.Checkout.Workflow
import T560.Browser.Params
import T560.Checkout.Runs
import T560.Browser.Gestures
import T560.Checkout.Detect
import T560.Checkout.Coverage
import T560.Js.PropertyMap
import T560.Browser.Cookies
import T560.Browser.CookieRuns
import T560.Vault.Store
import T560.Browser.Login
import T560.Foundation.SharedCell
import T560.Provider.SessionTurns
import T560.Web.Frames
import T560.Memory.Save
import T560.Memory.Append
import T560.Memory.SaveSpec
import T560.Memory.Quota
import T560.Memory.Durable
import T560.Memory.Tools
import T560.Memory.CompactRuns
import T560.Provider.Dispatch
import T560.Foundation.Obligation
import T560.Provider.Signals
import T560.Provider.Gate
import T560.Vault.Write
import T560.Vault.RoundTrip
import T560.Vault.Files
import T560.Vault.Map
import T560.Vault.Runs
import T560.Provider.ChatSteps
import T560.Channels.Pairing
import T560.Channels.PairingRuns
import T560.Foundation.Suffix
import T560.Process.Output
import T560.Foundation.InsertionMap
import T560.Process.Registry
import T560.Process.RegistryRuns
import T560.Guard.Shell
import T560.Js.Path
import T560.Guard.Policy
import T560.Guard.Composition
import T560.Guard.Newlines
import T560.Setup.Flow
import T560.Setup.Identifier
import T560.Setup.Secrecy
import T560.Memory.Calls
import T560.Memory.Titles
import T560.Memory.Trust
import T560.Memory.Isolation
import T560.Memory.SystemTier
import T560.Js.Serial
import T560.Transcript.SessionStable
import T560.Config.Normalize
import T560.Config.Reread
import T560.Config.RoundTrip
import T560.Config.Onboarding
import T560.Provider.Credential
import T560.Format.Inline
import T560.Format.Markdown
import T560.Format.Tags
import T560.Format.Regular
import T560.Format.Inert
import T560.Format.Nesting
import T560.Channels.Polling
import T560.Channels.PollingRuns
import T560.Mail.Wire
import T560.Browser.History
import T560.Browser.HistoryCursor
import T560.Browser.HistoryRuns
import T560.Transcript.RepairComplete
import T560.Foundation.GrowingTable
import T560.Transcript.ToolCallId
import T560.Transcript.UniqueId
import T560.Transcript.RenamedIds
import T560.Foundation.Ranking
import T560.Memory.Conflicts
import T560.Foundation.Words
import T560.Memory.SearchWords
import T560.Foundation.Retention
import T560.Memory.Retention
import T560.Js.AbsolutePath
import T560.Memory.Documents
import T560.Memory.References
import T560.Guard.ShellWords
import T560.Guard.Verdict
import T560.Guard.Inline
import T560.Guard.Wrappers
import T560.Foundation.Glob
import T560.Guard.Globs
import T560.Foundation.FieldSearch
import T560.Mail.Imap
import T560.Mail.ImapReading
import T560.Files.Editable
import T560.Files.Regions
import T560.Files.WriteGuard
import T560.Files.EditGuard
import T560.Files.Literal
import T560.Files.Paths
import T560.Browser.FormPayload
import T560.Browser.SetCookie
import T560.Browser.Markup
import T560.Browser.Entities
import T560.Browser.Attributes
import T560.Browser.MarkupReading
import T560.Mail.Smtp
import T560.Mail.Fetch
import T560.Mail.FetchReading
import T560.Mail.FetchOrder
import T560.Guard.Pieces
import T560.Guard.Redirections
import T560.Js.Utf8
import T560.Mail.HeaderText
import T560.Mail.Message
import T560.Web.Search
import T560.Web.EscapedText
import T560.Web.SearchResults
import T560.Channels.Unaccepted
import T560.Checkout.Price
import T560.Checkout.PriceReading
import T560.Setup.DeleteProvider
import T560.Tools.Policy
import T560.Foundation.Choice
import T560.Provider.ModelRemap
import T560.Js.PlacedPath
import T560.Web.StaticFiles
import T560.Guard.Quoting
import T560.Agent.ChatCalls
import T560.Foundation.Correlation
import T560.Foundation.Emitter
import T560.Gateway.Client
import T560.Gateway.Events
import T560.Gateway.Reconnect
import T560.Mail.Headers
import T560.Mail.Listing
import T560.Foundation.Outbox
import T560.Js.Shape
import T560.Panel.Chat
import T560.Tools.Catalog
import T560.Tools.Contract
import T560.Tools.Execution
import T560.Vault.Api
