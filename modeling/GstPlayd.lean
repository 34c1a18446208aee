import GstPlayd.StepMachine
import GstPlayd.Linearization
import GstPlayd.Backtracking
import GstPlayd.Base64
import GstPlayd.TextFormats
import GstPlayd.MessageRegex
import GstPlayd.KeyedTable
import GstPlayd.Parser
import GstPlayd.PluginLifetimes
import GstPlayd.Wiring
import GstPlayd.ElementGraph
import GstPlayd.Playback
import GstPlayd.Registry
import GstPlayd.ParallelDaemons
import GstPlayd.PlayHistory
import GstPlayd.PlayerId
import GstPlayd.StopParameter
import GstPlayd.MixerPorts
import GstPlayd.SourceGraph
import GstPlayd.PlayOutcomes
import GstPlayd.SourceRemoval
import GstPlayd.PadEvents
import GstPlayd.Audible
import GstPlayd.DaemonLedger
import GstPlayd.ServerLedger
import GstPlayd.LineFraming
import GstPlayd.LinearMemory
import GstPlayd.Uuencode
import GstPlayd.UuencodeMemory
import GstPlayd.GroupScan
import GstPlayd.Base64Decode
import GstPlayd.ReadBase64
import GstPlayd.ReadTermination
import GstPlayd.UuencodeBlocks
import GstPlayd.TagTable
import GstPlayd.HashTableText
import GstPlayd.TagText
import GstPlayd.ClientReply
import GstPlayd.TagReply
import GstPlayd.TagMerge
import GstPlayd.TagsLedger
import GstPlayd.TagOrder
import GstPlayd.Operations
import GstPlayd.MessageDispatch
import GstPlayd.ClientRequest
import GstPlayd.Daemon
import GstPlayd.RequestReply
import GstPlayd.DaemonPlayback
import GstPlayd.IdBuffer
import GstPlayd.ReplyOutcome
import GstPlayd.QuitRequest
import GstPlayd.Jukebox
import GstPlayd.ClientSessions
import GstPlayd.ClientCalls
import GstPlayd.FailedRequests
import GstPlayd.PlayStopLaw
import GstPlayd.Subscribers
import GstPlayd.EventStream
import GstPlayd.ResourceLedger
import GstPlayd.MainSockets
import GstPlayd.PlaybackLedger
