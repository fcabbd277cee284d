import TunnelPublishers.ByteOrder
import TunnelPublishers.FiniteMap
import TunnelPublishers.ExecutionTraces
import TunnelPublishers.HiddenInputs
import TunnelPublishers.ShellWords
import TunnelPublishers.SearchTree
import TunnelPublishers.TunnelFraming
import TunnelPublishers.PayloadRequests
import TunnelPublishers.FrameGrammar
import TunnelPublishers.FrameStreams
import TunnelPublishers.BroadcastService
import TunnelPublishers.BroadcastMachine
import TunnelPublishers.BroadcastHandles
import TunnelPublishers.BroadcastOutcomes
import TunnelPublishers.BroadcastInvariant
import TunnelPublishers.BroadcastRefinement
import TunnelPublishers.BroadcastViews
import TunnelPublishers.BroadcastBrackets
import TunnelPublishers.BroadcastSweep
import TunnelPublishers.BroadcastIsolation
import TunnelPublishers.BroadcastGroupNames
import TunnelPublishers.BroadcastReads
import TunnelPublishers.BroadcastReplies
import TunnelPublishers.BroadcastQueries
import TunnelPublishers.BroadcastNotices
import TunnelPublishers.KernelTables
import TunnelPublishers.VtermService
import TunnelPublishers.VtermTerminals
import TunnelPublishers.VtermSignals
import TunnelPublishers.VtermMembership
import TunnelPublishers.VtermDescriptors
import TunnelPublishers.VtermIsolation
import TunnelPublishers.VtermChildren
import TunnelPublishers.VtermReleases
import TunnelPublishers.VtermSweep
import TunnelPublishers.VtermLogin
import TunnelPublishers.WfifoService
import TunnelPublishers.WfifoPrivacy
import TunnelPublishers.WfifoDescriptors
import TunnelPublishers.WfifoFanout
import TunnelPublishers.InputWrites
import TunnelPublishers.SyslogService
import TunnelPublishers.SyslogFanout
import TunnelPublishers.StackContents
import TunnelPublishers.SubscriberNames
import TunnelPublishers.RunnerConfig
import TunnelPublishers.RunnerViews
import TunnelPublishers.RunnerSections
import TunnelPublishers.RunnerMonitor
import TunnelPublishers.RunnerChildren
import TunnelPublishers.CallOutcomes
import TunnelPublishers.CamService
import TunnelPublishers.CamCalls
import TunnelPublishers.CamDevices
import TunnelPublishers.CamDescriptors
import TunnelPublishers.CamBuffer
import TunnelPublishers.CamRows
import TunnelPublishers.CamStreaming
import TunnelPublishers.CamPacing
import TunnelPublishers.RunnerTables
import TunnelPublishers.ChannelOpening
import TunnelPublishers.PosixRegex
import TunnelPublishers.SocketPaths
import TunnelPublishers.BroadcastCommands
import TunnelPublishers.BroadcastFrames
import TunnelPublishers.BroadcastTenants
import TunnelPublishers.RunnerShutdown
import TunnelPublishers.CamClients
import TunnelPublishers.CamProtocol
import TunnelPublishers.PublisherProgram
import TunnelPublishers.BroadcastProgram
import TunnelPublishers.SyslogProgram
import TunnelPublishers.BroadcastReplicas
import TunnelPublishers.VtermSessions
import TunnelPublishers.WfifoTranscripts
import TunnelPublishers.VtermStreams
import TunnelPublishers.VtermSizes
import TunnelPublishers.BroadcastOrder
