import Wsmq.ShmQueueFifo
import Wsmq.Message
import Mathlib.Data.List.AList

/-!
# Dispatch of the connect server (`connectServer/connectServer.cpp`)

What the loop of `Run` over `LOGIC_TO_CONNECT` does with one package.  Of a
connection only the send side is kept, and of the system calls only whether
`SendDataToClient` succeeds.
-/

namespace Wsmq
open Lib Lib.ByteString Lib.Packing Lib.Fifo

def clientEpollCount : Nat := 1000

structure ClientConnect where
  index : Int
  /-- From `m_pSendHead` to `m_pSendTail`. -/
  sendBuff : Bytes := []
  /-- What the socket has taken. -/
  socket : Bytes := []

namespace ClientConnect

/-- All bytes for this client, in order. -/
def stream (c : ClientConnect) : Bytes := c.socket ++ c.sendBuff

/-- `m_pSendEnd-m_pSendTail`. -/
def freeSpace (c : ClientConnect) : Int := serverBufferSize - c.sendBuff.length

def append (c : ClientConnect) (pack : Bytes) : ClientConnect :=
  { c with sendBuff := c.sendBuff ++ pack }

/-- `SendDataToClient` took the buffer. -/
def flushed (c : ClientConnect) : ClientConnect :=
  { c with sendBuff := [], socket := c.socket ++ c.sendBuff }

end ClientConnect

structure ConnectServer where
  onlineClient : AList fun _ : Int => ClientConnect
  queueToLogicLayer : ShmQueue.Fifo

namespace ConnectServer

def findClient (s : ConnectServer) (iIndex : Int) : Option ClientConnect :=
  s.onlineClient.lookup iIndex

def setClient (s : ConnectServer) (c : ClientConnect) (iIndex : Int) : ConnectServer :=
  { s with onlineClient := s.onlineClient.insert iIndex c }

def exitFields (iClientIndex : Int) : List Field :=
  packHead (ushort sizeofClientPackageHead) iClientIndex cmdClientExit

/-- `ClientExitMessage`; `GetMessagePack` does not set the length, so the whole zeroed
buffer is passed on. -/
def exitPack (iClientIndex : Int) : Bytes :=
  (place zeroed 0 (exitFields iClientIndex)).read 0 maxClintPackageLength

def tellClientExit (s : ConnectServer) (iClientIndex : Int) : ConnectServer :=
  { s with
    queueToLogicLayer := (s.queueToLogicLayer.call (.enqueue (exitPack iClientIndex))).2 }

def clientExit (s : ConnectServer) (iIndex : Int) : ConnectServer :=
  { s with onlineClient := s.onlineClient.erase iIndex }

/-- Commands that are passed on to clients. -/
def ToClient (iCmdId : Nat) : Prop :=
  iCmdId = cmdClientPullMessage ∨ iCmdId = cmdServerPushMessage ∨
    iCmdId = cmdServerReplyMessage ∨ iCmdId = cmdServerAckMessage

instance (n : Nat) : Decidable (ToClient n) := inferInstanceAs (Decidable (_ ∨ _ ∨ _ ∨ _))

/-- The body of the loop once a package is dequeued; `sendOk` says whether a
`SendDataToClient` in it succeeds. -/
def dispatch (s : ConnectServer) (pack : Bytes) (sendOk : Bool) : ConnectServer :=
  let pBuff := Mem.ofBytes pack
  if pack.length < sizeofClientPackageHead then s
  else
    let iClientIndex := readInt pBuff 2
    match s.findClient iClientIndex with
    | none => s.tellClientExit iClientIndex
    | some c =>
      if ¬ ToClient (readUShort pBuff 6) then s
      else if c.freeSpace ≥ pack.length then s.setClient (c.append pack) iClientIndex
      else if sendOk then s.setClient (c.flushed.append pack) iClientIndex
      else (s.tellClientExit c.index).clientExit c.index

/-- The package is added to the stream of client `iIndex` and to no other. -/
def DeliversTo (s s' : ConnectServer) (pack : Bytes) (iIndex : Int) : Prop :=
  ∀ i, (s'.findClient i).map ClientConnect.stream =
    if i = iIndex then (s.findClient i).map fun c => c.stream ++ pack
    else (s.findClient i).map ClientConnect.stream

theorem dispatch_delivers {s : ConnectServer} {c : ClientConnect} {pack : Bytes} {iIndex : Int}
    (hlen : sizeofClientPackageHead ≤ pack.length)
    (hindex : readInt (Mem.ofBytes pack) 2 = iIndex)
    (hcmd : ToClient (readUShort (Mem.ofBytes pack) 6)) (hc : s.findClient iIndex = some c) :
    DeliversTo s (s.dispatch pack true) pack iIndex := by
  have hset : ∀ c' : ClientConnect, c'.stream = c.stream ++ pack →
      DeliversTo s (s.setClient c' iIndex) pack iIndex := by
    intro c' hstream i
    by_cases hi : i = iIndex
    · subst hi
      simp only [findClient, setClient, AList.lookup_insert] at hc ⊢
      simp [hc, hstream]
    · simp only [findClient, setClient, AList.lookup_insert_ne hi, if_neg hi]
  unfold dispatch
  dsimp only
  rw [if_neg (Nat.not_lt.mpr hlen), hindex, hc]
  dsimp only
  rw [if_neg (not_not.mpr hcmd)]
  split
  · exact hset _ (List.append_assoc _ _ _).symm
  · rw [if_pos rfl]
    exact hset _ (by simp [ClientConnect.stream, ClientConnect.append, ClientConnect.flushed])

end ConnectServer

end Wsmq
