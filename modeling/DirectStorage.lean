import DirectStorage.Lts
import DirectStorage.Loop
import DirectStorage.RingQueue
import DirectStorage.SlotMap
import DirectStorage.ByteMem
import DirectStorage.WordRange
import DirectStorage.InFlight
import DirectStorage.CondWait
import DirectStorage.LockedSection
import DirectStorage.Wire
import DirectStorage.Chunked
import DirectStorage.Framing
import DirectStorage.CText
import DirectStorage.Xarray
import DirectStorage.Ownership
import DirectStorage.Lifecycle
import DirectStorage.Ledger
import DirectStorage.Backend
import DirectStorage.BackendStore
import DirectStorage.BackendLock
import DirectStorage.Blkdev
import DirectStorage.BlkdevStore
import DirectStorage.BlkdevMap
import DirectStorage.BlkdevBounds
import DirectStorage.BlkdevInit
import DirectStorage.BlkdevTransport
import DirectStorage.Prototype
import DirectStorage.PrototypeMap
import DirectStorage.PrototypeIo
import DirectStorage.PrototypeFill
import DirectStorage.PrototypeShared
import DirectStorage.FullIo
import DirectStorage.Nbd
import DirectStorage.NbdProtocol
import DirectStorage.NbdServe
import DirectStorage.NbdTruncation
import DirectStorage.NbdHistory
import DirectStorage.NbdBuffer
import DirectStorage.NbdConformance
import DirectStorage.CtrlTypes
import DirectStorage.CtrlServer
import DirectStorage.CtrlParser
import DirectStorage.CtrlClient
import DirectStorage.CtrlTransparent
import DirectStorage.CtrlPeerInfo
import DirectStorage.CtrlStart
import DirectStorage.FullIoExact
import DirectStorage.CtrlFaults
import DirectStorage.UrmaMgr
import DirectStorage.UrmaSystem
import DirectStorage.HandOver
import DirectStorage.UrmaQueue
import DirectStorage.UrmaPeers
import DirectStorage.UrmaFrame
import DirectStorage.UrmaIsolation
import DirectStorage.UrmaTransfer
import DirectStorage.UrmaCalls
import DirectStorage.UrmaLifetime
import DirectStorage.UrmaSerial
import DirectStorage.PeerMap
import DirectStorage.UrmaTable
import DirectStorage.UrmaSequential
import DirectStorage.UrmaProgress
import DirectStorage.UrmaRefines
import DirectStorage.UrmaWait
import DirectStorage.UrmaShutdown
import DirectStorage.UrmaProvider
import DirectStorage.UrmaCompletion
import DirectStorage.UrmaPeerTable
import DirectStorage.UrmaAdmission
import DirectStorage.UrmaAgreement
import DirectStorage.UrmaEffects
import DirectStorage.UrmaAtomic
import DirectStorage.UrmaResources
import DirectStorage.UrmaOwnership
import DirectStorage.UrmaHostCalls
import DirectStorage.Eid
import DirectStorage.EidOption
import DirectStorage.CtrlCommand
import DirectStorage.NbdOptions
import DirectStorage.DaemonThreads
import DirectStorage.DaemonSafe
import DirectStorage.DaemonService
import DirectStorage.DaemonCalls
import DirectStorage.DaemonRefines
import DirectStorage.DaemonMain
import DirectStorage.DirectIo
import DirectStorage.DirectIoInv
import DirectStorage.DirectIoWorker
import DirectStorage.DirectIoCleanup
import DirectStorage.DirectIoOnce
import DirectStorage.DirectIoDepth
import DirectStorage.DirectIoOrder
import DirectStorage.DirectIoWake
import DirectStorage.DirectIoPost
import DirectStorage.DirectIoContents
