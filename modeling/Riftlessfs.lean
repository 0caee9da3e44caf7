import Riftlessfs.Fuse.Dispatch
import Riftlessfs.Core.InodeRuns
import Riftlessfs.Core.NamespaceEffects
import Riftlessfs.Fuse.Requests
import Riftlessfs.Fuse.LookupCounts
import Riftlessfs.Core.Tracking
import Riftlessfs.Core.Sound
import Riftlessfs.Core.CallActs
import Riftlessfs.Core.CallRefines
import Riftlessfs.Core.CallRuns
import Riftlessfs.Core.NodeIdentity
import Riftlessfs.Core.NodeExact
import Riftlessfs.Fuse.NodeIdentity
import Riftlessfs.Core.Containment
import Riftlessfs.Fuse.Containment
import Riftlessfs.Core.TrackedLocations
import Riftlessfs.Core.FileData
import Riftlessfs.Fuse.DataPath
import Riftlessfs.Lib.Flat
import Riftlessfs.VhostUser.Memory
import Riftlessfs.VhostUser.Virtqueue
import Riftlessfs.VhostUser.Service
import Riftlessfs.VhostUser.Mapping
import Riftlessfs.VhostUser.ZeroCopy
import Riftlessfs.VhostUser.ChainReply
import Riftlessfs.Fuse.Replies
import Riftlessfs.VhostUser.UsedLength
import Riftlessfs.VhostUser.ProcessVring
import Riftlessfs.VhostUser.UsedRing
import Riftlessfs.VhostUser.ServeFrame
import Riftlessfs.VhostUser.MappedSlices
import Riftlessfs.VhostUser.RoundTrip
import Riftlessfs.VhostUser.Server
import Riftlessfs.VhostUser.ServerRuns
import Riftlessfs.VhostUser.RingProgress
import Riftlessfs.VhostUser.RingStops
import Riftlessfs.VhostUser.RingConfig
import Riftlessfs.VhostUser.RingHandover
import Riftlessfs.VhostUser.RingOrder
import Riftlessfs.VhostUser.RingSizes
import Riftlessfs.VhostUser.Connection
import Riftlessfs.Lib.Ring
import Riftlessfs.VhostUser.BufferFrame
import Riftlessfs.VhostUser.QueueWords
import Riftlessfs.VhostUser.QueuePair
import Riftlessfs.VhostUser.QueueOrder
import Riftlessfs.VhostUser.ExactlyOnce
import Riftlessfs.Fuse.DirStreams
import Riftlessfs.Fuse.Dirents
import Riftlessfs.Fuse.DirPaging
import Riftlessfs.VhostUser.SegmentViews
import Riftlessfs.VhostUser.AddressSpaces
import Riftlessfs.VhostUser.ChainWalk
import Riftlessfs.VhostUser.TableBounds
import Riftlessfs.VhostUser.ExactAddresses
import Riftlessfs.VhostUser.AddressWraps
import Riftlessfs.Fuse.ReplyForm
import Riftlessfs.VhostUser.FdOwnership
import Riftlessfs.Core.SyscallFds
import Riftlessfs.Lib.Ownership
import Riftlessfs.Core.FdAccounting
import Riftlessfs.Lib.Codec
import Riftlessfs.Lib.Locks
import Riftlessfs.VhostUser.PayloadCodecs
import Riftlessfs.Fuse.BatchForget
import Riftlessfs.Fuse.RecordShapes
import Riftlessfs.VhostUser.CountedLists
import Riftlessfs.VhostUser.KickDrain
import Riftlessfs.Core.HandleMoves
import Riftlessfs.Fuse.ListingCache
import Riftlessfs.Core.Rename2
import Riftlessfs.Fuse.RenameFlags
import Riftlessfs.Core.InodeThreads
import Riftlessfs.Core.InodeBooks
import Riftlessfs.Core.InodeMoves
import Riftlessfs.Core.InodeForgetMoves
import Riftlessfs.Core.InodeRegisterMoves
import Riftlessfs.Core.InodeInterleaving
import Riftlessfs.Core.InodeAlone
import Riftlessfs.Lib.Agreement
import Riftlessfs.VhostUser.Isolation
import Riftlessfs.VhostUser.IsolatedRuns
import Riftlessfs.VhostUser.NoLostKick
import Riftlessfs.VhostUser.Announced
import Riftlessfs.Core.HandleThreads
import Riftlessfs.Core.HandleInterleaving
import Riftlessfs.Fuse.Cursor
import Riftlessfs.Fuse.Protocol
import Riftlessfs.Fuse.ProtocolCodecs
import Riftlessfs.Fuse.Transparency
import Riftlessfs.VhostUser.Footprints
import Riftlessfs.VhostUser.ServedBatch
import Riftlessfs.VhostUser.BatchRuns
import Riftlessfs.Core.Asked
import Riftlessfs.Fuse.AskedChanges
import Riftlessfs.VhostUser.Doorbell
import Riftlessfs.Core.Enclosure
