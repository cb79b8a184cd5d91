/-
DirectStorage/CtrlTypes.lean

The control protocol's data (`userspace-nbd/include/ramdisk_ctrl.h`) as the
URMA manager and the control server see it: the transfer, connect and
disconnect arguments, and the status record.

The wire layout of these structures is not here; it belongs to the control
server, which reads them off a byte stream.
-/
import DirectStorage.Backend

namespace DirectStorage

/-- `RAMDISK_TO_HBM`. -/
def ramdiskToHbm : UInt32 := 1

/-- `HBM_TO_RAMDISK`. -/
def hbmToRamdisk : UInt32 := 2

/-- `struct ramdisk_ctrl_urma_transfer`. -/
structure UrmaTransfer where
  peerId : UInt64
  requestId : UInt64
  localOffset : UInt64
  remoteHbmAddr : UInt64
  length : UInt32
  direction : UInt32
  deriving DecidableEq

/-- `struct ramdisk_ctrl_peer_connect_info`, without its reserved word. -/
structure PeerConnectInfo where
  peerId : UInt64
  eid : Vector UInt8 16
  uasid : UInt32
  segVa : UInt64
  segLen : UInt64
  segTokenId : UInt32
  jettyId : UInt32
  deriving DecidableEq

/-- `struct ramdisk_ctrl_status`. -/
structure CtrlStatus where
  size : UInt64
  blockSize : UInt32
  urmaEnabled : UInt32
  peerCount : UInt32
  queueDepth : UInt32
  inflight : UInt32
  pending : UInt32
  completed : UInt64
  failed : UInt64
  deriving DecidableEq

end DirectStorage
