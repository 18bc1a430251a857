import ClantoDesk.Runs
import ClantoDesk.Text
import ClantoDesk.Glob
import ClantoDesk.IdPermissions
import ClantoDesk.SessionGrant
import ClantoDesk.AuditQueue
import ClantoDesk.FlowControl
import ClantoDesk.TunnelChannel
import ClantoDesk.ChannelTable
import ClantoDesk.Connection
import ClantoDesk.LoginGates
import ClantoDesk.AccessRequirements
import ClantoDesk.GrantPermissions
import ClantoDesk.FileSystem
import ClantoDesk.SessionBlock
import ClantoDesk.TransferJob
import ClantoDesk.FileScan
import ClantoDesk.ConnectionManager
import ClantoDesk.KeyRotation
import ClantoDesk.RetiredKeys
import ClantoDesk.ManagedConfig
import ClantoDesk.PolicyDocuments
import ClantoDesk.CyclicSearch
import ClantoDesk.ForwardEngine
import ClantoDesk.ForwardListeners
import ClantoDesk.AuditSink
import ClantoDesk.HashChain
import ClantoDesk.SessionLog
import ClantoDesk.TunnelTraffic
import ClantoDesk.ChannelBytes
import ClantoDesk.ChannelOrder
import ClantoDesk.DeviceCommands
import ClantoDesk.LittleEndian
import ClantoDesk.UnauthorizedRegistry
import ClantoDesk.ClipboardFiles
import ClantoDesk.LoginScope
import ClantoDesk.UserKey
import ClantoDesk.FileTree
import ClantoDesk.ReadJob
import ClantoDesk.FileArrivals
import ClantoDesk.FileTransfer
import ClantoDesk.InterruptedTransfer
import ClantoDesk.BlockedExtensions
import ClantoDesk.ClipboardFilter
import ClantoDesk.ScanRegistry
import ClantoDesk.CameraConsent
import ClantoDesk.Lines
import ClantoDesk.PostureSignature
import ClantoDesk.SessionTable
import ClantoDesk.BufferedFile
import ClantoDesk.ClipboardServing
import ClantoDesk.EnrollmentFlows
import ClantoDesk.TerminalOutput
import ClantoDesk.TerminalStream
import ClantoDesk.TerminalCleanup
import ClantoDesk.TerminalRegistry
import ClantoDesk.Documents
import ClantoDesk.MachineKeyImport
import ClantoDesk.ConfigImport
import ClantoDesk.Base64
import ClantoDesk.TrustedControllers
import ClantoDesk.ForwardTargets
import ClantoDesk.LoginFailures
import ClantoDesk.ServiceSubscriptions
import ClantoDesk.ForwardLogins
import ClantoDesk.PostureDecision
import ClantoDesk.SessionCompleteness
import ClantoDesk.DrmDisplayList
import ClantoDesk.WaylandLayout
import ClantoDesk.CapturerLayouts
import ClantoDesk.DrmStream
import ClantoDesk.DrmStreamOrder
import ClantoDesk.DrmStreamDelivery
import ClantoDesk.ForwardAddresses
import ClantoDesk.AccessHours
import ClantoDesk.ForwardOffers
import ClantoDesk.MatchingEntry
import ClantoDesk.BinarySearch
import ClantoDesk.FuseTree
import ClantoDesk.FuseHandles
import ClantoDesk.ConfinedPaths
import ClantoDesk.CefRecords
import ClantoDesk.PolicyOverwrite
import ClantoDesk.AuditNumbering
import ClantoDesk.AuditLosses
import ClantoDesk.LogReport
import ClantoDesk.CameraReceiver
import ClantoDesk.CameraStream
import ClantoDesk.CommandReports
import ClantoDesk.TrustedList
import ClantoDesk.OsCredentialBackoff
import ClantoDesk.VideoQos
import ClantoDesk.ViewerIsolation
import ClantoDesk.ReductionEvidence
import ClantoDesk.StreamAggregation
import ClantoDesk.TerminalChunks
import ClantoDesk.HelperFraming
import ClantoDesk.OutputLimits
import ClantoDesk.AudioHandoff
import ClantoDesk.Replacement
import ClantoDesk.UpdateUrl
import ClantoDesk.CacheRefresh
import ClantoDesk.HostWatermark
import ClantoDesk.UinputRefresh
import ClantoDesk.ProbeVerdicts
import ClantoDesk.CursorCalibration
import ClantoDesk.ConnectorMatching
import ClantoDesk.DrmGeometry
import ClantoDesk.CapturerFrames
import ClantoDesk.PointerRemap
import ClantoDesk.RttBaseline
import ClantoDesk.VirtualCamera
import ClantoDesk.HotspotGuess
import ClantoDesk.CursorDelivery
