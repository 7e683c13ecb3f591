import Wsmq.Lib.ByteString

/-! Constants shared by the processes (`common_def/comdef.h`). -/

namespace Wsmq
open Lib.ByteString

def maxClintPackageLength : Nat := 1024 * 11
def maxServerPackageLength : Nat := 1024 * 11
def serverBufferSize : Nat := 1024 * 100
def maxNameLength : Nat := 32
def durableMessageFileSize : Nat := 1024 * 1024 * 10

/-! Commands. -/

def cmdCreateExcnange : Nat := 1
def cmdCreateQueue : Nat := 2
def cmdCreateBinding : Nat := 3
def cmdCreatePublish : Nat := 4
def cmdCreateRecv : Nat := 5
def cmdCreateSubcribe : Nat := 6
def cmdDeleteExchange : Nat := 7
def cmdDeleteQueue : Nat := 8
def cmdCancelSubcribe : Nat := 9
def cmdClientPullMessage : Nat := 10
def cmdServerPushMessage : Nat := 11
def cmdServerReplyMessage : Nat := 12
def cmdClientAckMessage : Nat := 13
def cmdServerAckMessage : Nat := 14
def cmdClientExit : Nat := 15

/-! Exchange types. -/

def exchangeTypeFanout : Nat := 1
def exchangeTypeDirect : Nat := 2
def exchangeTypeTopic : Nat := 3

/-! Confirm levels. -/

def producerNoAck : Nat := 0
def producerSingleAck : Nat := 1
def producerMutilAck : Nat := 2
def consumerNoAck : Nat := 0
def consumerAutoAck : Nat := 1
def consumerSingleAck : Nat := 2
def consumerMutilAck : Nat := 3

/-- `sizeof(ClientPackageHead)`: length, client index and command, packed. -/
def sizeofClientPackageHead : Nat := 2 + 4 + 2

/-- Names, keys and bodies are byte strings. -/
abbrev Name := Bytes

/-- The bytes of an ASCII text. -/
def ascii (s : String) : Bytes := s.toList.map fun c => UInt8.ofNat c.toNat

end Wsmq
