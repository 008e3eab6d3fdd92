import Attestation.Attester
import Attestation.Attester.Json
import Attestation.Base64
import Attestation.Bcrypt
import Attestation.Bcrypt.Blowfish
import Attestation.Blob
import Attestation.Cbor.Decode
import Attestation.Cbor.Head
import Attestation.Cmw
import Attestation.Compositor
import Attestation.Compositor.Clock
import Attestation.Compositor.Envelope
import Attestation.Compositor.Request
import Attestation.Compositor.Settings
import Attestation.Daemon.Address
import Attestation.Daemon.Command
import Attestation.Daemon.Host
import Attestation.Daemon.Start
import Attestation.Dialogue
import Attestation.Hex
import Attestation.Http.App
import Attestation.Http.Authorizer
import Attestation.Http.Message
import Attestation.Http.Status
import Attestation.Json.Decode
import Attestation.Json.Fault
import Attestation.Json.Number
import Attestation.Json.Reader
import Attestation.Json.Tree
import Attestation.Json.Value
import Attestation.Location
import Attestation.Logging
import Attestation.Main
import Attestation.Mock
import Attestation.Number.Binary64
import Attestation.Number.Extended
import Attestation.Number.Shortest
import Attestation.Plugin.Channel
import Attestation.Plugin.Checksums
import Attestation.Plugin.Client
import Attestation.Plugin.Error
import Attestation.Plugin.Handshake
import Attestation.Plugin.Host
import Attestation.Plugin.Loader
import Attestation.Plugin.Session
import Attestation.Problem
import Attestation.Proofs.Acceptance
import Attestation.Proofs.Admission
import Attestation.Proofs.AnswerText
import Attestation.Proofs.Base64Decoding
import Attestation.Proofs.Base64Encoding
import Attestation.Proofs.Base64Padding
import Attestation.Proofs.Base64Text
import Attestation.Proofs.CallIsolation
import Attestation.Proofs.CallOrder
import Attestation.Proofs.CallOutcomes
import Attestation.Proofs.Candidates
import Attestation.Proofs.CborGrammar
import Attestation.Proofs.CborHeads
import Attestation.Proofs.CborItems
import Attestation.Proofs.CborPrefixes
import Attestation.Proofs.CborReading
import Attestation.Proofs.CborSizes
import Attestation.Proofs.Clocks
import Attestation.Proofs.CmwGrammar
import Attestation.Proofs.CmwRoundTrip
import Attestation.Proofs.CmwText
import Attestation.Proofs.ConcurrentReports
import Attestation.Proofs.Coupling
import Attestation.Proofs.Credentials
import Attestation.Proofs.Digests
import Attestation.Proofs.Discovery
import Attestation.Proofs.Dispatching
import Attestation.Proofs.EntryExchanges
import Attestation.Proofs.EvidenceFiles
import Attestation.Proofs.EvidenceServing
import Attestation.Proofs.FirstFailure
import Attestation.Proofs.Framing
import Attestation.Proofs.Freshness
import Attestation.Proofs.Handshakes
import Attestation.Proofs.InputLines
import Attestation.Proofs.InstantAttesters
import Attestation.Proofs.Interference
import Attestation.Proofs.JsonDocuments
import Attestation.Proofs.JsonGrammar
import Attestation.Proofs.JsonReading
import Attestation.Proofs.JsonTokens
import Attestation.Proofs.JsonValues
import Attestation.Proofs.KernelEntries
import Attestation.Proofs.Labels
import Attestation.Proofs.LenientReports
import Attestation.Proofs.LineText
import Attestation.Proofs.Listing
import Attestation.Proofs.Loading
import Attestation.Proofs.MediaTypes
import Attestation.Proofs.MemberOrder
import Attestation.Proofs.Messages
import Attestation.Proofs.ModeAgreement
import Attestation.Proofs.NameOrder
import Attestation.Proofs.OptionsPassing
import Attestation.Proofs.PasswordHashes
import Attestation.Proofs.Processes
import Attestation.Proofs.RecordMembers
import Attestation.Proofs.Registration
import Attestation.Proofs.ReportCbor
import Attestation.Proofs.ReportEvidence
import Attestation.Proofs.ReportExchanges
import Attestation.Proofs.ReportJson
import Attestation.Proofs.Secrecy
import Attestation.Proofs.SecureLoading
import Attestation.Proofs.Service
import Attestation.Proofs.ServiceText
import Attestation.Proofs.SettingsText
import Attestation.Proofs.Tables
import Attestation.Proofs.Transparency
import Attestation.Proofs.Trials
import Attestation.Proofs.Truncation
import Attestation.Proofs.Worlds
import Attestation.Report
import Attestation.Rpc.Message
import Attestation.Rpc.Server
import Attestation.Settings
import Attestation.Settings.Access
import Attestation.Settings.Layer
import Attestation.Settings.Load
import Attestation.Settings.Variable
import Attestation.Sha256
import Attestation.Shell.Machine
import Attestation.Shell.Script
import Attestation.SystemError
import Attestation.Table
import Attestation.Text.Alphanumeric
import Attestation.Text.Blank
import Attestation.Text.Invisible
import Attestation.Text.Lines
import Attestation.Text.Numeral
import Attestation.Text.Quoted
import Attestation.Text.Utf8
import Attestation.Tls
import Attestation.Tls.Certificate
import Attestation.Tls.Curve
import Attestation.Tls.Der
import Attestation.Tls.Pem
import Attestation.Tls.PrivateKey
import Attestation.Token
import Attestation.Toml.Document
import Attestation.Toml.Draft
import Attestation.Toml.Quoted
import Attestation.Toml.Scalar
import Attestation.Toml.Value
import Attestation.Tsm.Attester
import Attestation.Tsm.Backend
import Attestation.Tsm.Configfs
import Attestation.Tsm.Configfs.Root
import Attestation.Tsm.Error
import Attestation.Tsm.Program
import Attestation.Proofs.ServingChildren
import Attestation.Proofs.AttentiveWorlds
import Attestation.Proofs.PromptClients
