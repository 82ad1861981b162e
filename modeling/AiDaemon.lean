import AiDaemon.SchedKv
import AiDaemon.SchedPause
import AiDaemon.SchedSlots
import AiDaemon.Identity
import AiDaemon.UnitNames
import AiDaemon.Policy
import AiDaemon.IdentityOf
import AiDaemon.Attenuate
import AiDaemon.CreateSession
import AiDaemon.SessionCount
import AiDaemon.Occurs
import AiDaemon.Provenance
import AiDaemon.Cancel
import AiDaemon.GrantFile
import AiDaemon.Grants
import AiDaemon.Cbor
import AiDaemon.Proto
import AiDaemon.Wire
import AiDaemon.ByteStream
import AiDaemon.Framing
import AiDaemon.Routing
import AiDaemon.Rate
import AiDaemon.Spend
import AiDaemon.Turn
import AiDaemon.Settlement
import AiDaemon.IdentityKeys
import AiDaemon.Json
import AiDaemon.JsonReads
import AiDaemon.JsonWrite
import AiDaemon.Audit
import AiDaemon.AuditRun
import AiDaemon.Control
import AiDaemon.LiveBackends
import AiDaemon.Janitor
import AiDaemon.Dispatch
import AiDaemon.Gbnf
import AiDaemon.Grammar
import AiDaemon.GrammarShape
import AiDaemon.GrammarTexts
import AiDaemon.GrammarCompile
import AiDaemon.JsonFails
import AiDaemon.GrammarSound
import AiDaemon.GrammarValid
import AiDaemon.GrammarComplete
import AiDaemon.BitList
import AiDaemon.Canonical
import AiDaemon.Checked
import AiDaemon.Inflate
import AiDaemon.InflateCodes
import AiDaemon.InflateSafe
import AiDaemon.Deflate
import AiDaemon.InflateCorrect
import AiDaemon.Png
import AiDaemon.PngFormat
import AiDaemon.PngSafe
import AiDaemon.PngCorrect
import AiDaemon.ContentStore
import AiDaemon.Registry
import AiDaemon.RegistryBlobs
import AiDaemon.RegistryRace
import AiDaemon.ModelResolve
import AiDaemon.Serving
import AiDaemon.Install
import AiDaemon.AuditSlices
import AiDaemon.Consent
import AiDaemon.MeteredGate
import AiDaemon.SpendCeiling
import AiDaemon.SessionLife
import AiDaemon.Relay
import AiDaemon.Shim
import AiDaemon.ShimChat
import AiDaemon.ShimMessages
import AiDaemon.ShimResponses
import AiDaemon.MessagesStream
import AiDaemon.MessagesHeard
import AiDaemon.ResponsesOutput
import AiDaemon.ToolCallsKept
import AiDaemon.DeadSessions
import AiDaemon.Fragments
import AiDaemon.RemoteGenerate
import AiDaemon.RemoteCalls
import AiDaemon.SchedEviction
import AiDaemon.SchedAdmission
import AiDaemon.ToolAnswers
import AiDaemon.Delivery
import AiDaemon.WholeTurn
import AiDaemon.TurnReserve
import AiDaemon.TurnCaches
import AiDaemon.RemoteHeard
import AiDaemon.RemoteText
import AiDaemon.RemoteBilling
import AiDaemon.Silence
import AiDaemon.Defang
import AiDaemon.LaunchNames
import AiDaemon.InflateLimit
import AiDaemon.Wav
import AiDaemon.Attach
import AiDaemon.Residency
import AiDaemon.Capacity
import AiDaemon.Flattening
import AiDaemon.ShimBodies
import AiDaemon.ConversationKept
import AiDaemon.GrammarClosed
import AiDaemon.GrammarObject
import AiDaemon.Journal
import AiDaemon.Base64
import AiDaemon.ShimBase64
import AiDaemon.ShimModels
import AiDaemon.ConfigMerge
import AiDaemon.ShimCountTokens
import AiDaemon.ByKey
import AiDaemon.RegistryViews
import AiDaemon.RemoteConnections
import AiDaemon.JsonRules
import AiDaemon.JsonCut
import AiDaemon.CallText
import AiDaemon.RecordedCalls
import AiDaemon.LastOfEach
import AiDaemon.ConfigLoad
import AiDaemon.AttachmentFits
import AiDaemon.PacketFilter
import AiDaemon.Confine
import AiDaemon.PipeFrames
import AiDaemon.DecodeExchange
import AiDaemon.BufferedReader
import AiDaemon.ShimHttp
import AiDaemon.HttpCallers
import AiDaemon.LlamaCpp
import AiDaemon.LlamaThread
import AiDaemon.LlamaProcess
import AiDaemon.LlamaRuns
import AiDaemon.AppPortal
import AiDaemon.ChainReply
import AiDaemon.ChatServed
import AiDaemon.FetchHelper
import AiDaemon.InstallFetched
import AiDaemon.Unblock
