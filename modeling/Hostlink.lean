import Hostlink.Lib.Run
import Hostlink.Lib.Fifo
import Hostlink.Lib.Slots
import Hostlink.Lib.Handoff
import Hostlink.Lib.GoError
import Hostlink.Lib.Grpc
import Hostlink.Lib.GoMap
import Hostlink.Lib.GoStrings
import Hostlink.Lib.GoNet
import Hostlink.Lib.GoJson
import Hostlink.Lib.Strconv
import Hostlink.Lib.Prog
import Hostlink.Lib.Redis
import Hostlink.Lib.NamedFile
import Hostlink.Tunnel.Frame
import Hostlink.Tunnel.SpliceConn
import Hostlink.Tunnel.SpliceConnInv
import Hostlink.Tunnel.SpliceStream
import Hostlink.Tunnel.Chain
import Hostlink.Tunnel.Reset
import Hostlink.Controller.Ports
import Hostlink.Controller.PortsExclusive
import Hostlink.Controller.PortStores
import Hostlink.Controller.PortJson
import Hostlink.Controller.PortsAgree
import Hostlink.Controller.ContainerEvents
import Hostlink.Controller.EventOwner
import Hostlink.Controller.EventOrder
import Hostlink.Controller.Bindings
import Hostlink.Controller.ActivationBarrier
import Hostlink.Controller.Registry
import Hostlink.Controller.Directory
import Hostlink.Controller.AgentConn
import Hostlink.Controller.Correlation
import Hostlink.Controller.AgentConnCases
import Hostlink.Controller.Dispatcher
import Hostlink.Controller.DispatcherInv
import Hostlink.Controller.SharedConn
import Hostlink.Controller.Disconnect
import Hostlink.Controller.Streaming
import Hostlink.Controller.Lossless
import Hostlink.Controller.StreamDelivery
import Hostlink.Controller.Responses
import Hostlink.Controller.Download
import Hostlink.Controller.UploadBody
import Hostlink.Controller.PeerRelay
import Hostlink.Controller.StaleHolder
import Hostlink.Controller.RelayedResponses
import Hostlink.Controller.Forwarding
import Hostlink.Controller.ForwardingCases
import Hostlink.Controller.ForwardingInv
import Hostlink.Controller.ForwardingSteps
import Hostlink.Controller.Pairing
import Hostlink.Controller.SessionOwner
import Hostlink.Controller.SessionsClosed
import Hostlink.Agent.Upload
import Hostlink.Agent.ReadFile
import Hostlink.Agent.EventWatcher
import Hostlink.Agent.Inbound
import Hostlink.Link.Sessions
import Hostlink.Link.OwnReply
import Hostlink.Link.Uploads
import Hostlink.Link.UploadStages
import Hostlink.Link.UploadSteps
import Hostlink.Link.UploadsIntact
import Hostlink.Link.CommandLoops
import Hostlink.Link.Cancellation
import Hostlink.Link.OwnCommands
import Hostlink.Agent.Fs
import Hostlink.Agent.LinkSandbox
import Hostlink.Agent.Scrape
import Hostlink.Controller.AdvisoryStreams
import Hostlink.Controller.AgentUp
import Hostlink.Controller.LocalRegistry
import Hostlink.Controller.MergedSeries
import Hostlink.Controller.PortWakeups
import Hostlink.Tunnel.CloseDiscipline
import Hostlink.Tunnel.RelayNormalForm
import Hostlink.Agent.LogLines
import Hostlink.Controller.CancelOnce
import Hostlink.Controller.ConnOwnership
import Hostlink.Controller.EventEffect
import Hostlink.Controller.FamilyMerge
import Hostlink.Controller.HandledConns
import Hostlink.Controller.ListenerShutdown
import Hostlink.Controller.ScrapeReassembly
import Hostlink.Tunnel.RelayReturn
import Hostlink.Agent.LogPieces
import Hostlink.Controller.AgentRelease
import Hostlink.Controller.ForwardTarget
import Hostlink.Controller.Forwards
import Hostlink.Controller.PortRange
import Hostlink.Controller.UploadTarget
import Hostlink.Controller.AcceptLoops
import Hostlink.Controller.MetricsFanout
import Hostlink.Controller.LogEvents
