import Gafam.Lib.Steps
import Gafam.Moksa.Executor
import Gafam.Go.Proofs.TextProofs
import Gafam.Relay.SmsHandler
import Gafam.Relay.Proofs.DedupProofs
import Gafam.Relay.Proofs.EmergencyProofs
import Gafam.Relay.Proofs.SmsHandlerProofs
import Gafam.Relay.Mailbox
import Gafam.Relay.Proofs.MailboxProofs
import Gafam.Relay.Cascade
import Gafam.Relay.Proofs.CascadeProofs
import Gafam.Moksa.Proofs.ExecutorProofs
import Gafam.Orchestrator.Levels
import Gafam.Orchestrator.Proofs.WorkerProofs
import Gafam.Orchestrator.Proofs.LevelsProofs
import Gafam.Orchestrator.Fate
import Gafam.Orchestrator.Proofs.ConfluenceProofs
import Gafam.Orchestrator.Proofs.ApprovalProofs
import Gafam.Orchestrator.Sweep
import Gafam.Orchestrator.Proofs.SweepProofs
import Gafam.Orchestrator.System
import Gafam.Orchestrator.Guard
import Gafam.Orchestrator.Proofs.GuardProofs
import Gafam.Orchestrator.Board
import Gafam.Orchestrator.Proofs.BoardProofs
import Gafam.Orchestrator.Proofs.EffectProofs
import Gafam.Orchestrator.Proofs.IdsProofs
import Gafam.Orchestrator.Proofs.RecoveryProofs
import Gafam.Orchestrator.Executions
import Gafam.Orchestrator.Proofs.ExecutionsProofs
import Gafam.Orchestrator.Proofs.FlightProofs
import Gafam.Orchestrator.Proofs.VerdictsProofs
import Gafam.Go.Encoding
import Gafam.Go.Proofs.EncodingProofs
import Gafam.Go.Json
import Gafam.Relay.Transport
import Gafam.Relay.Proofs.TransportProofs
import Gafam.Relay.Feed
import Gafam.Relay.Proofs.SigningProofs
import Gafam.Relay.Proofs.PublishProofs
import Gafam.Relay.Proofs.KeypairProofs
import Gafam.Relay.Scan
import Gafam.Relay.Proofs.ScanProofs
import Gafam.Go.Proofs.MarshalProofs
import Gafam.Moksa.Durability
import Gafam.Moksa.Proofs.DurabilityProofs
import Gafam.Orchestrator.Ends
import Gafam.Orchestrator.Proofs.EndsProofs
import Gafam.Orchestrator.Thread
import Gafam.Orchestrator.Delegation
import Gafam.Orchestrator.Proofs.DelegationProofs
import Gafam.Orchestrator.Pipeline
import Gafam.Orchestrator.Proofs.PipelineProofs
import Gafam.Orchestrator.Refusal
import Gafam.Orchestrator.Proofs.RefusalProofs
import Gafam.Orchestrator.Rerun
import Gafam.Orchestrator.Proofs.RerunProofs
import Gafam.Js.Text
import Gafam.Js.Json
import Gafam.Frontend.VpcProxy
import Gafam.Frontend.Proofs.RequestProofs
import Gafam.Js.Proofs.TextProofs
import Gafam.Js.Proofs.JsonProofs
import Gafam.Frontend.Proofs.ResponseProofs
import Gafam.Frontend.Directory
import Gafam.Frontend.Proofs.DirectoryProofs
import Gafam.Lib.Drain
import Gafam.Scrcpy.Hub
import Gafam.Scrcpy.Proofs.HubProofs
import Gafam.Karaka.Registry
import Gafam.Karaka.Proofs.RegistryProofs
import Gafam.Go.Net
import Gafam.Go.Proofs.NetProofs
import Gafam.Karaka.Proofs.SsrfProofs
import Gafam.Relay.Fetch
import Gafam.Relay.Proofs.FetchProofs
import Gafam.Relay.Discovery
import Gafam.Relay.Proofs.DiscoveryProofs
import Gafam.Orchestrator.Proofs.ReferencesProofs
import Gafam.Lib.Cells
import Gafam.Relay.Settings
import Gafam.Relay.Failover
import Gafam.Relay.Proofs.SettingsProofs
import Gafam.Relay.Proofs.VectorIndexProofs
import Gafam.Python.Text
import Gafam.Sandbox.Files
import Gafam.Relay.CustomTools
import Gafam.Sandbox.Proofs.SafePathProofs
import Gafam.Sandbox.Proofs.ShellProofs
import Gafam.Relay.Proofs.CustomToolsProofs
import Gafam.Scrcpy.Input
import Gafam.Scrcpy.Proofs.InputProofs
import Gafam.Edge.Proofs.RuntimeProofs
import Gafam.Relay.Credentials
import Gafam.Relay.Proofs.CredentialsProofs
import Gafam.Go.Proofs.TrimProofs
import Gafam.Relay.Contacts
import Gafam.Relay.Proofs.ContactsProofs
import Gafam.Sandbox.Shell
import Gafam.Python.Proofs.DecodeProofs
import Gafam.Frontend.Markdown
import Gafam.Lib.Firsts
import Gafam.Lib.Html
import Gafam.Frontend.Proofs.MarkdownProofs
import Gafam.Lib.RegexRules
import Gafam.Lib.Words
import Gafam.Relay.SmsCodes
import Gafam.Frontend.SmsCodes
import Gafam.Relay.Proofs.SmsCodesProofs
import Gafam.Frontend.Proofs.SmsCodesProofs
import Gafam.Relay.Mms
import Gafam.Relay.Proofs.MmsProofs
import Gafam.Relay.ContactsAuto
import Gafam.Android.Outbox
import Gafam.Android.Proofs.OutboxProofs
import Gafam.Android.Proofs.RetryQueueProofs
import Gafam.Orchestrator.Cron
import Gafam.Orchestrator.Proofs.CronProofs
import Gafam.Go.Time
import Gafam.Go.Proofs.TimeProofs
import Gafam.Relay.Logs
import Gafam.Relay.Proofs.LogsProofs
import Gafam.Relay.Proofs.IngestionProofs
import Gafam.Go.Proofs.WordsProofs
import Gafam.Relay.Proofs.AlertProofs
import Gafam.Relay.Proofs.SpamProofs
import Gafam.Android.LogShipper
import Gafam.Android.Proofs.LogShipperProofs
import Gafam.Browser.Jpegs
import Gafam.Browser.Proofs.JpegsProofs
import Gafam.Frontend.Submissions
import Gafam.Frontend.Proofs.SubmissionsProofs
import Gafam.Frontend.Tunnel
import Gafam.Frontend.Proofs.TunnelProofs
import Gafam.Frontend.Login
import Gafam.Frontend.Proofs.LoginProofs
import Gafam.Android.EdgeInference
import Gafam.Android.Proofs.EdgeInferenceProofs
import Gafam.Relay.DraftSync
import Gafam.Relay.Proofs.DraftSyncProofs
import Gafam.Orchestrator.Proofs.PlanProofs
import Gafam.Android.ModelDownload
import Gafam.Android.Proofs.ModelDownloadProofs
import Gafam.Browser.PageText
import Gafam.Browser.Proofs.PageTextProofs
import Gafam.Moksa.BoardCalls
import Gafam.Orchestrator.Proofs.TerminationProofs
import Gafam.Orchestrator.Termination
import Gafam.Lib.Brackets
import Gafam.Lib.JsonText
import Gafam.Orchestrator.ExtractJson
import Gafam.Lib.Pieces
import Gafam.Orchestrator.Interpolation
import Gafam.Relay.ContactsSync
import Gafam.Relay.Proofs.ContactsSyncProofs
import Gafam.Relay.Proofs.FailoverProofs
import Gafam.Frontend.BrowserPage
import Gafam.Frontend.Proofs.InjectProofs
import Gafam.Frontend.Proofs.PageReadsProofs
import Gafam.Frontend.Proofs.BrowserPageProofs
import Gafam.Lib.Find
import Gafam.Relay.Totp
import Gafam.Scrcpy.Bridge
import Gafam.Scrcpy.Proofs.BridgeProofs
import Gafam.Android.Logcat
import Gafam.Android.Proofs.LogcatProofs
import Gafam.Sandbox.Tree
import Gafam.Sandbox.Proofs.TreeProofs
import Gafam.Relay.McpClient
import Gafam.Relay.Effects
import Gafam.Relay.Proofs.PhonesProofs
import Gafam.Orchestrator.Proofs.TruncateProofs
import Gafam.Relay.Seal
import Gafam.Edge.Proofs.InstallProofs
import Gafam.Suparna.Proofs.JobsProofs
import Gafam.Browser.Cdp
import Gafam.Relay.Geo
