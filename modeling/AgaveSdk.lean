import AgaveSdk.Library.FallibleState
import AgaveSdk.Library.Segments
import AgaveSdk.Library.Draining
import AgaveSdk.Library.ByteOrder
import AgaveSdk.Library.LastWins
import AgaveSdk.TransactionView.Bytes
import AgaveSdk.TransactionView.Reading
import AgaveSdk.TransactionView.LeadingFrames
import AgaveSdk.TransactionView.InstructionsFrame
import AgaveSdk.TransactionView.InstructionsGrammar
import AgaveSdk.TransactionView.V1InstructionsGrammar
import AgaveSdk.TransactionView.AddressTableLookupFrame
import AgaveSdk.TransactionView.MessageFrame
import AgaveSdk.TransactionView.MessageGrammar
import AgaveSdk.TransactionView.V1MessageGrammar
import AgaveSdk.TransactionView.TransactionGrammar
import AgaveSdk.TransactionView.Sanitize
import AgaveSdk.TransactionView.Decoding
import AgaveSdk.TransactionView.SanitizeSpec
import AgaveSdk.TransactionView.Acceptance
import AgaveSdk.TransactionView.UncheckedAccess
import AgaveSdk.TransactionView.SanitizedGrammar
import AgaveSdk.TransactionView.PrefixParsing
import AgaveSdk.TransactionView.SignedMessages
import AgaveSdk.TransactionView.RecentBlockhash
import AgaveSdk.TransactionView.SanitizedCounts
import AgaveSdk.TransactionView.ResolvedTransactionView
import AgaveSdk.EventSystem.PublisherSlots
import AgaveSdk.EventSystem.StreamPolicy
import AgaveSdk.EventSystem.StreamPolicyManager
import AgaveSdk.Library.Memory
import AgaveSdk.EventSystem.StreamDirectories
import AgaveSdk.EventSystem.DirectoryOwnership
import AgaveSdk.EventSystem.PublishedDirectories
import AgaveSdk.EventSystem.AvailableStream
import AgaveSdk.SchedulerHandshake.Shared
import AgaveSdk.SchedulerHandshake.SetupSession
import AgaveSdk.SchedulerHandshake.SessionLayout
import AgaveSdk.SchedulerHandshake.SessionAttachment
import AgaveSdk.SchedulerHandshake.AllocatorHandles
import AgaveSdk.Library.LossyUtf8
import AgaveSdk.SchedulerHandshake.Handshake
import AgaveSdk.SchedulerHandshake.LogonExchange
import AgaveSdk.EventSystem.CanonicalPolicy
import AgaveSdk.TransactionView.CompressedU16
import AgaveSdk.SchedulerHandshake.Rejections
import AgaveSdk.TransactionView.HostOrder
import AgaveSdk.SchedulerHandshake.ValidatedSizes
import AgaveSdk.Library.Layers
import AgaveSdk.Scripts.OrderCratesForPublishing
import AgaveSdk.Scripts.WorkspaceOrder
import AgaveSdk.EventSystem.Publishing
import AgaveSdk.EventSystem.QueueCreation
import AgaveSdk.EventSystem.PublishedSystem
import AgaveSdk.SchedulerHandshake.AcceptOutcomes
import AgaveSdk.SchedulerHandshake.HandshakeNetwork
import AgaveSdk.SchedulerHandshake.NetworkSafety
import AgaveSdk.SchedulerHandshake.NetworkCompletion
import AgaveSdk.SchedulerHandshake.NetworkOutcomes
import AgaveSdk.EventSystem.SystemDirectories
import AgaveSdk.EventSystem.StreamTraffic
import AgaveSdk.EventSystem.TrafficOutcomes
import AgaveSdk.TransactionView.CanonicalBytes
import AgaveSdk.TransactionView.SvmInterface
import AgaveSdk.Scripts.ExitReasons
import AgaveSdk.EventSystem.QueueLinks
import AgaveSdk.EventSystem.StreamDiscovery
import AgaveSdk.EventSystem.QueueFileNames
import AgaveSdk.EventSystem.StreamExplorer
import AgaveSdk.EventSystem.ExplorerOutcomes
import AgaveSdk.EventSystem.AtomicStreams
import AgaveSdk.EventSystem.CreationAtomicity
import AgaveSdk.EventSystem.QueueCells
