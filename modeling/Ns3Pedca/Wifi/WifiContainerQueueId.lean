import Ns3Pedca.Wifi.WifiMacHeader

/-!
# Container queues

The MAC queue of an access category holds a queue for each kind of frame, kind of receiver address,
address and TID. QoS data frames of different TIDs are in different queues, and broadcast frames are
told apart by their transmitter.
-/

namespace Ns3Pedca

/-- `WifiContainerQueueType`. -/
inductive WifiContainerQueueType
  | ctl | mgt | qosData | data
  deriving DecidableEq

/-- `WifiRcvAddr`. -/
inductive WifiRcvAddr
  | unicast | broadcast | groupcast
  deriving DecidableEq

/-- `WifiContainerQueueId`. -/
structure WifiContainerQueueId where
  type : WifiContainerQueueType
  addrType : WifiRcvAddr
  address : Mac48Address
  tid : Option UInt8
  deriving DecidableEq

/-- The kinds of frame that are queued, with the TID of QoS data. -/
inductive QueuedFrameType
  | ctl | mgt | qosData (tid : UInt8) | data
  deriving DecidableEq

/-- What the queue of a frame depends on : its header, and the destination of the first MSDU of an
A-MSDU. -/
structure QueuedHeader where
  type : QueuedFrameType
  addr1 : Mac48Address
  addr2 : Mac48Address
  amsduDestinationAddr : Option Mac48Address := none
  deriving DecidableEq

namespace QueuedHeader

variable (hdr : QueuedHeader)

/-- The kind of receiver address, and the address that the queue is for. -/
def rcvAddr : WifiRcvAddr × Mac48Address :=
  if hdr.addr1.isBroadcast then (.broadcast, hdr.addr2)
  else if hdr.addr1.isGroup then (.groupcast, hdr.amsduDestinationAddr.getD hdr.addr1)
  else (.unicast, hdr.addr1)

/-- `WifiMacQueueContainer::GetQueueId`. -/
def getQueueId : WifiContainerQueueId :=
  match hdr.type with
  | .ctl => ⟨.ctl, hdr.rcvAddr.1, hdr.rcvAddr.2, none⟩
  | .mgt => ⟨.mgt, hdr.rcvAddr.1, hdr.rcvAddr.2, none⟩
  | .qosData tid => ⟨.qosData, hdr.rcvAddr.1, hdr.rcvAddr.2, some tid⟩
  | .data => ⟨.data, hdr.rcvAddr.1, hdr.rcvAddr.2, none⟩

end QueuedHeader

end Ns3Pedca
