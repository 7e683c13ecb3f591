import Wsmq.Client.Receive
import Wsmq.LogicServer.Dedup
import Wsmq.LogicServer.Effects

/-!
# A body on its way from the producer to the consumer

Client library, framer, handler, logic server and client library again each add or take off
a head of their own, and each has its own bound on the length.
-/

namespace Wsmq
open Lib Lib.ByteString Lib.Packing LogicServer

/-- What stands behind the head of a message package. -/
def messageData (confirmLevel : Nat) (iMsgSeq : Int) (body : Bytes) : Bytes :=
  image [writeByte confirmLevel, writeInt iMsgSeq, writeBody body]

variable {level : Nat} {seq iopLen : Int} {body pack : Bytes} {iCmdId : Nat} {sendOk : Bool}
  {opBuffer : Mem} {rets : List RecvRet} {c : Consumer}

theorem fits_messageData : ∀ f ∈ [writeByte level, writeInt seq, writeBody body], f.Fits := by
  simp [Field.Fits, writeByte, writeInt, writeBody]

theorem messageData_length : (messageData level seq body).length = 1 + 4 + body.length := by
  rw [messageData, image_length fits_messageData]
  simp only [size_cons, size_nil, writeByte, writeInt, writeBody]
  omega

/-! ## The client -/

/-- What `opBuffer` holds in the end. -/
def messageBuffer (opBuffer : Mem) (confirmLevel : Nat) (iMsgSeq : Int) (body : Bytes) : Mem :=
  ((opBuffer.write 0 (messageData confirmLevel iMsgSeq body)).write 0 body).write body.length [0]

theorem messageBuffer_body : (messageBuffer opBuffer level seq body).read 0 body.length = body := by
  have hcut : ∀ i < body.length, messageBuffer opBuffer level seq body (0 + i) =
      ((opBuffer.write 0 (messageData level seq body)).write 0 body) (0 + i) :=
    fun i hi => Mem.write_of_lt _ _ (by omega)
  rw [Mem.read_congr hcut]
  exact Mem.read_write_same _ _ _

/-- Nothing is written behind the data. -/
theorem messageBuffer_of_ge {x : Nat} (h : 1 + 4 + body.length ≤ x) :
    messageBuffer opBuffer level seq body x = opBuffer x := by
  rw [messageBuffer, Mem.write_of_ge _ _ (by simp only [List.length_singleton]; omega),
    Mem.write_of_ge _ _ (by omega), Mem.write_of_ge _ _ (by rw [messageData_length]; omega)]

/-- The call has handed the body over, within a buffer of the usual length. -/
structure HandsOver (body : Bytes) (opBuffer : Mem) (t : Consumer.Taken) : Prop where
  iopLen : t.iopLen = body.length
  body : t.opBuffer.read 0 body.length = body
  rest : ∀ x, maxClintPackageLength ≤ x → t.opBuffer x = opBuffer x

theorem handsOver {ret : Int} {bRepeat : Bool} {c : Consumer}
    (hlen : 1 + 4 + body.length ≤ maxClintPackageLength) :
    HandsOver body opBuffer
      ⟨ret, bRepeat, messageBuffer opBuffer level seq body, body.length, c, rets⟩ where
  iopLen := rfl
  body := messageBuffer_body
  rest _ hx := messageBuffer_of_ge (Nat.le_trans hlen hx)

namespace Consumer

/-- Both calls hand the body over whatever becomes of the acknowledgement. -/
theorem takeMessage_body (hlevel : level < 2 ^ 8) (hseq : FitsInt 4 seq)
    (bAck : Nat → Int → Bool) (notSent : Consumer → Verdict) :
    c.takeMessage bAck notSent sendOk (opBuffer.write 0 (messageData level seq body))
        (messageData level seq body).length rets =
      some ⟨(c.afterMessage (bAck level seq) notSent sendOk level seq).ret,
        (c.afterMessage (bAck level seq) notSent sendOk level seq).bRepeat,
        messageBuffer opBuffer level seq body, body.length,
        (c.afterMessage (bAck level seq) notSent sendOk level seq).consumer, rets⟩ := by
  have hholds : Holds (opBuffer.write 0 (messageData level seq body)) 0
      (messageData level seq body) := Mem.read_write_same _ _ _
  have hbyte : readByte (opBuffer.write 0 (messageData level seq body)) 0 = level :=
    readByte_field (a := 0) [] hholds fits_messageData hlevel
  have hint : readInt (opBuffer.write 0 (messageData level seq body)) 1 = seq :=
    readInt_field (a := 0) [writeByte level] hholds fits_messageData hseq
  have hbody : (opBuffer.write 0 (messageData level seq body)).read (1 + 4) body.length = body :=
    read_body_field (a := 0) [writeByte level, writeInt seq] hholds fits_messageData
  have hrest : (messageData level seq body).length - (1 + 4) = body.length := by
    rw [messageData_length, Nat.add_sub_cancel_left]
  unfold takeMessage
  dsimp only
  rw [if_neg (by rw [messageData_length]; omega), hbyte, hint, hrest, hbody]
  rfl

theorem seqSet_confirm (bAck : Bool) : (c.confirm bAck level seq).seqSet = c.seqSet := by
  unfold confirm
  split
  · rfl
  · split <;> rfl

theorem connection_confirm (bAck : Bool) : (c.confirm bAck level seq).bBuild = c.bBuild ∧
    (c.confirm bAck level seq).window = c.window := by
  unfold confirm
  split
  · exact ⟨rfl, rfl⟩
  · split <;> exact ⟨rfl, rfl⟩

/-- What the duplicate set says about a message with this level and number, and how the call
ends. -/
structure Judges (c : Consumer) (level : Nat) (seq : Int) (v : Verdict) : Prop where
  isRepeat : v.bRepeat = true → seq ∈ c.seqSet
  seqSet : ∀ k ∈ v.consumer.seqSet, k ∈ c.seqSet ∨ (k = seq ∧ 0 < level)
  window : v.consumer.window = c.window

/-- The same when the acknowledgement can be sent. -/
structure Accepts (c : Consumer) (seq : Int) (v : Verdict) : Prop where
  ret : v.ret = Client.success ∨ v.bRepeat = true
  new : seq ∉ c.seqSet → v.ret = Client.success
  bBuild : v.consumer.bBuild = c.bBuild

theorem checkRepeat_judges : Judges c level seq (c.checkRepeat level seq) := by
  unfold checkRepeat
  split
  · next hold => exact ⟨fun _ => hold, fun _ hk => Or.inl hk, rfl⟩
  · refine ⟨nofun, fun k hk => ?_, ?_⟩
    · dsimp only at hk
      split at hk
      · next hlevel =>
        exact (List.mem_cons.mp hk).symm.imp_right fun hseq => ⟨hseq, hlevel⟩
      · exact Or.inl hk
    · dsimp only
      split <;> rfl

theorem checkRepeat_accepts : Accepts c seq (c.checkRepeat level seq) := by
  unfold checkRepeat
  split
  · next hold => exact ⟨Or.inr rfl, fun hnew => absurd hold hnew, rfl⟩
  · refine ⟨Or.inl rfl, fun _ => rfl, ?_⟩
    dsimp only
    split <;> rfl

theorem afterMessage_judges {bAck : Bool} {notSent : Consumer → Verdict}
    (h : Judges c level seq (notSent c)) :
    Judges c level seq (c.afterMessage bAck notSent sendOk level seq) := by
  unfold afterMessage
  split
  · exact h
  · have hcheck := @checkRepeat_judges level seq (c.confirm bAck level seq)
    obtain ⟨hrepeat, hset, hwindow⟩ := hcheck
    rw [seqSet_confirm] at hrepeat hset
    exact ⟨hrepeat, hset, hwindow.trans (connection_confirm bAck).2⟩

theorem afterMessage_accepts {bAck : Bool} {notSent : Consumer → Verdict}
    (hok : sendOk = true) : Accepts c seq (c.afterMessage bAck notSent sendOk level seq) := by
  rw [afterMessage, if_neg (by simp [hok])]
  obtain ⟨hret, hnew, hbuild⟩ := @checkRepeat_accepts level seq (c.confirm bAck level seq)
  rw [seqSet_confirm] at hnew
  exact ⟨hret, hnew, hbuild.trans (connection_confirm bAck).1⟩

/-- The end of the call, without the buffers. -/
def Taken.verdict (t : Taken) : Verdict := ⟨t.ret, t.bRepeat, t.consumer⟩

/-- The call has taken this message package off the stream. -/
structure Took (c : Consumer) (rets : List RecvRet) (pack : Bytes) (level : Nat) (seq : Int)
    (t : Taken) : Prop where
  isRepeat : t.bRepeat = true → seq ∈ c.seqSet
  seqSet : ∀ k ∈ t.consumer.seqSet, k ∈ c.seqSet ∨ (k = seq ∧ 0 < level)
  stream : t.consumer.window ++ arriving t.rets = (c.window ++ arriving rets).drop pack.length
  alive : Alive t.rets

theorem IsPack.messageData_le (h : IsPack pack iCmdId (messageData level seq body)) :
    1 + 4 + body.length ≤ maxClintPackageLength := by
  rw [← @messageData_length level seq body, h.data_length]
  exact Nat.le_trans (Nat.sub_le _ _) (Nat.le_trans h.short (Nat.sub_le _ _))

/-- `ConsumeMessage` when a message package is next. -/
theorem consumeMessage_arrives (hbuild : c.bBuild = true) (hlevel : level < 2 ^ 8)
    (hseq : FitsInt 4 seq) (hpack : IsPack pack iCmdId (messageData level seq body))
    (halive : Alive rets) (hnext : pack <+: c.window ++ arriving rets) :
    ∃ t, c.consumeMessage rets sendOk opBuffer iopLen = some t ∧ HandsOver body opBuffer t ∧
      Took c rets pack level seq t ∧ (sendOk = true → Accepts c seq t.verdict) := by
  obtain ⟨window, rets', hrecv, hrest, halive'⟩ := recvOnePack_arrives hpack halive hnext
  have htake := @takeMessage_body level seq body sendOk opBuffer rets'
    { c with window := window } hlevel hseq (fun level seq => level = consumerAutoAck ∧ seq ≠ -1)
    (fun c => ⟨Client.errClientSendAck, false, c⟩)
  have hjudges := @afterMessage_judges level seq sendOk { c with window := window }
    (level = consumerAutoAck ∧ seq ≠ -1) (fun c => ⟨Client.errClientSendAck, false, c⟩)
    ⟨nofun, fun _ hk => Or.inl hk, rfl⟩
  have haccepts := @afterMessage_accepts level seq sendOk { c with window := window }
    (level = consumerAutoAck ∧ seq ≠ -1) (fun c => ⟨Client.errClientSendAck, false, c⟩)
  refine ⟨_, Eq.trans ?_ htake, handsOver (IsPack.messageData_le hpack),
    ⟨hjudges.isRepeat, hjudges.seqSet, ?_, halive'⟩,
    fun hok => ⟨(haccepts hok).ret, (haccepts hok).new, (haccepts hok).bBuild⟩⟩
  · rw [consumeMessage, if_neg (not_not.mpr hbuild), hrecv, Option.bind_some]
  · rw [← hrest]
    exact congrArg (· ++ arriving rets') hjudges.window

theorem packs_recvMessage {n : Name} (hname : n.length ≤ maxNameLength) (iConfirmLevel : Nat) :
    (Call.recvMessage n iConfirmLevel).Packs := by
  show (packNames [n] zeroed maxClintPackageLength (Wsmq.pack zeroed maxClintPackageLength
    CreateRecvMessage.iMsgLen _)).ret = Message.success
  rw [packNames, if_neg (by simpa using hname), Wsmq.pack, if_neg (by decide)]

/-- `RecvMessage` when a message package is next after its request. -/
theorem recvMessage_arrives {n : Name} {iConfirmLevel : Nat} (hbuild : c.bBuild = true)
    (hpacks : (Call.recvMessage n iConfirmLevel).Packs) (hlevel : level < 2 ^ 8) (hseq : FitsInt 4 seq)
    (hpack : IsPack pack iCmdId (messageData level seq body))
    (hcmd : iCmdId ≠ cmdServerReplyMessage) (halive : Alive rets)
    (hnext : pack <+: c.window ++ arriving rets) :
    ∃ t, c.recvMessage n iConfirmLevel rets true sendOk opBuffer iopLen = some t ∧
      HandsOver body opBuffer t ∧ Took c rets pack level seq t ∧
      (sendOk = true → Accepts c seq t.verdict) := by
  obtain ⟨window, rets', hrecv, hrest, halive'⟩ := @recvOnePack_arrives _ _ _ _
    (c.sendRequest (.recvMessage n iConfirmLevel)) hpack halive hnext
  have htake := @takeMessage_body level seq body sendOk opBuffer rets'
    { c.sendRequest (.recvMessage n iConfirmLevel) with window := window } hlevel hseq
    (fun level _ => level = consumerAutoAck) (fun c => ⟨Client.errClientRevMsg, false, c.closed⟩)
  have hjudges := @afterMessage_judges level seq sendOk
    { c.sendRequest (.recvMessage n iConfirmLevel) with window := window }
    (level = consumerAutoAck) (fun c => ⟨Client.errClientRevMsg, false, c.closed⟩)
    ⟨nofun, fun _ hk => Or.inl hk, rfl⟩
  have haccepts := @afterMessage_accepts level seq sendOk
    { c.sendRequest (.recvMessage n iConfirmLevel) with window := window }
    (level = consumerAutoAck) (fun c => ⟨Client.errClientRevMsg, false, c.closed⟩)
  refine ⟨_, Eq.trans ?_ htake, handsOver (IsPack.messageData_le hpack),
    ⟨hjudges.isRepeat, hjudges.seqSet, ?_, halive'⟩,
    fun hok => ⟨(haccepts hok).ret, (haccepts hok).new, (haccepts hok).bBuild⟩⟩
  · unfold Call.Packs at hpacks
    rw [recvMessage]
    dsimp only
    rw [if_neg (not_not.mpr hbuild), if_neg (not_not.mpr hpacks), if_neg (by decide), takePulled,
      hrecv, Option.bind_some]
    dsimp only
    rw [if_neg hcmd]
  · have hstream : (c.sendRequest (.recvMessage n iConfirmLevel)).window = c.window := rfl
    rw [hstream] at hrest
    rw [← hrest]
    exact congrArg (· ++ arriving rets') hjudges.window

end Consumer

/-! ## The server -/

/-- A copy of a stored message as `PushMessage` or `OnRecvMessage` fill it in. -/
structure SentCopy (pMsg copy : SeverStoreMessage) : Prop where
  body : copy.msgBody = pMsg.msgBody
  cmdId : copy.cmdId = cmdClientPullMessage ∨ copy.cmdId = cmdServerPushMessage
  confirmLevel : copy.confirmLevel < 2 ^ 8
  msgSeq : FitsInt 4 copy.msgSeq

theorem SentCopy.filled {pMsg : SeverStoreMessage} {index : Int} {n : Name}
    (hcmd : iCmdId = cmdClientPullMessage ∨ iCmdId = cmdServerPushMessage)
    (hlevel : level < 2 ^ 8) (hseq : FitsInt 4 seq) :
    SentCopy pMsg { pMsg with
      index := index
      cmdId := iCmdId
      confirmLevel := level
      msgSeq := seq
      queueName := n } :=
  ⟨rfl, hcmd, hlevel, hseq⟩

theorem SeverStoreMessage.iMsgLen_eq {m : SeverStoreMessage}
    (h : m.msgBody.length ≤ maxBodyLength) :
    m.iMsgLen = sizeofClientPackageHead +
      size [writeByte m.confirmLevel, writeInt m.msgSeq, writeBody m.msgBody] := by
  have hlt : sizeofClientPackageHead + 1 + 4 + m.msgBody.length < 2 ^ 16 := by
    have hmax : maxBodyLength = 11184 := rfl
    have hhead : sizeofClientPackageHead = 8 := rfl
    omega
  rw [SeverStoreMessage.iMsgLen, ushort, Nat.mod_eq_of_lt hlt]
  simp only [size_cons, size_nil, writeByte, writeInt, writeBody]
  omega

/-- A message package fits every buffer on its way, and the client accepts it. -/
theorem SeverStoreMessage.sent_isPack {m : SeverStoreMessage}
    (h : m.msgBody.length ≤ maxBodyLength)
    (hcmd : m.cmdId = cmdClientPullMessage ∨ m.cmdId = cmdServerPushMessage) :
    (m.getMessagePack zeroed maxServerPackageLength).ret = Message.success ∧
      IsPack (m.getMessagePack zeroed maxServerPackageLength).sent m.cmdId
        (messageData m.confirmLevel m.msgSeq m.msgBody) := by
  have hlen := iMsgLen_eq h
  have hsize : size [writeByte m.confirmLevel, writeInt m.msgSeq, writeBody m.msgBody] =
      1 + 4 + m.msgBody.length := by
    simp only [size_cons, size_nil, writeByte, writeInt, writeBody]
    omega
  have hmax : m.iMsgLen ≤ maxClintPackageLength - sizeofClientPackageHead := by
    have hbody : maxBodyLength = 11184 := rfl
    have hhead : sizeofClientPackageHead = 8 := rfl
    have hclient : maxClintPackageLength = 11264 := rfl
    omega
  have hroom : ¬ (maxServerPackageLength : Int) < m.iMsgLen :=
    Int.not_lt.mpr (Int.ofNat_le.mpr (Nat.le_trans hmax (by decide)))
  constructor
  · rw [getMessagePack, Wsmq.pack, if_neg hroom]
  · have hpack := @isPack_image m.cmdId m.iMsgLen m.index
      [writeByte m.confirmLevel, writeInt m.msgSeq, writeBody m.msgBody] fits_messageData hlen
      (by rw [hsize]; omega) hmax (by rcases hcmd with hcmd | hcmd <;> rw [hcmd] <;> decide)
    have hfields : size m.fields = m.iMsgLen := by
      rw [SeverStoreMessage.fields, size_append, hlen]
      rfl
    rw [getMessagePack, pack_sent hroom hfields m.fits]
    exact hpack

section

variable [Platform] {st : LogicServer} {queue : QueueId} {q : MessageQueue}

/-- The message is in the queue, up to its priority. -/
theorem MessageQueue.mem_addMessage (q : MessageQueue) (m : SeverStoreMessage) :
    ∃ m' ∈ (q.addMessage m).messages, m'.id = m.id ∧ m'.msgBody = m.msgBody := by
  unfold addMessage
  split
  · refine ⟨q.limited m, ?_, q.limited_id m, ?_⟩
    · refine List.mem_append_left _ ?_
      exact (MsgHeap.items_push _ _).mem_iff.mpr List.mem_cons_self
    · unfold limited
      split <;> rfl
  · refine ⟨m, ?_, rfl, rfl⟩
    simp only [messages, List.mem_append, List.mem_singleton, or_true]

namespace LogicServer

theorem storeMessage_stores {p : Publish} {c : Int} (hq : st.queues queue = some q) :
    ∃ st' q' pMsg, st.storeMessage p c queue = some st' ∧ st'.queues queue = some q' ∧
      pMsg ∈ q'.messages ∧ pMsg.id = st.nextMsg ∧ pMsg.msgBody = p.body := by
  rw [storeMessage, hq, Option.map_some]
  split
  · obtain ⟨pMsg, hmem, hid, hbody⟩ := MessageQueue.mem_addMessage
      { q with durableIndex := q.durableIndex + 1 } (durableMessage (st.newMessage p) q)
    exact ⟨_, _, pMsg, rfl, if_pos rfl, hmem, hid, hbody⟩
  · obtain ⟨pMsg, hmem, hid, hbody⟩ := MessageQueue.mem_addMessage q (st.newMessage p)
    exact ⟨_, _, pMsg, rfl, if_pos rfl, hmem, hid, hbody⟩

/-- A publish that is no repeat and goes to one queue. -/
theorem publish_stores {p : Publish} {c : Int} (hnew : ¬ st.IsRepeat p c)
    (hexchange : p.strExchangeName ∈ st.exchanges) (hroute : st.routedQueues p = [queue])
    (hlen : 0 ≤ p.iBodyLen) (hq : st.queues queue = some q) :
    ∃ o q' pMsg, st.publish p c = some o ∧ o.ret = success ∧ o.server.queues queue = some q' ∧
      pMsg ∈ q'.messages ∧ pMsg.id = st.nextMsg ∧ pMsg.msgBody = p.body := by
  obtain ⟨st', q', pMsg, hstore, hq', hmem, hid, hbody⟩ := storeMessage_stores (p := p) (c := c) hq
  refine ⟨⟨success, [], st'.confirmPublish p c⟩, q', pMsg, ?_, rfl, ?_, hmem, hid, hbody⟩
  · rw [publish, if_neg hnew, if_neg (not_not.mpr hexchange), hroute, if_neg (List.cons_ne_nil _ _),
      if_neg (Int.not_lt.mpr hlen), storeMessages, hstore, Option.bind_some]
    rfl
  · show (st'.confirmPublish p c).queues queue = some q'
    rw [queues_confirmPublish, hq']

end LogicServer

open LogicServer

/-- Whichever way the package of the copy comes to a client, it is let through and both calls
return the body. -/
structure Returns (copy : SeverStoreMessage) (body : Bytes) : Prop where
  pushed : (copy.getMessagePack zeroed maxServerPackageLength).ret = Message.success
  pulled : (copy.getMessagePack zeroed maxClintPackageLength).ret = Message.success
  consumeMessage : ∀ (c : Consumer) (rets : List RecvRet) (opBuffer : Mem) (iopLen : Int),
    c.bBuild = true → Alive rets →
    (copy.getMessagePack zeroed maxServerPackageLength).sent <+: c.window ++ arriving rets →
    ∃ t, c.consumeMessage rets true opBuffer iopLen = some t ∧ HandsOver body opBuffer t ∧
      (copy.msgSeq ∉ c.seqSet → t.ret = Client.success)
  recvMessage : ∀ (c : Consumer) (n : Name) (iConfirmLevel : Nat) (rets : List RecvRet)
    (opBuffer : Mem) (iopLen : Int), n.length ≤ maxNameLength → c.bBuild = true → Alive rets →
    (copy.getMessagePack zeroed maxClintPackageLength).sent <+: c.window ++ arriving rets →
    ∃ t, c.recvMessage n iConfirmLevel rets true true opBuffer iopLen = some t ∧
      HandsOver body opBuffer t ∧ (copy.msgSeq ∉ c.seqSet → t.ret = Client.success)

omit [Platform] in
theorem SentCopy.returns {pMsg copy : SeverStoreMessage} (h : SentCopy pMsg copy)
    (hlen : pMsg.msgBody.length ≤ maxBodyLength) : Returns copy pMsg.msgBody := by
  have hcopy : copy.msgBody.length ≤ maxBodyLength := by rwa [h.body]
  obtain ⟨hret, hpack⟩ := SeverStoreMessage.sent_isPack hcopy h.cmdId
  have hcmd : copy.cmdId ≠ cmdServerReplyMessage := by
    rcases h.cmdId with hcmd | hcmd <;> rw [hcmd] <;> decide
  rw [h.body] at hpack
  refine ⟨hret, hret, fun c rets opBuffer iopLen hbuild halive hnext => ?_,
    fun c n iConfirmLevel rets opBuffer iopLen hname hbuild halive hnext => ?_⟩
  · obtain ⟨t, ht, hover, -, hok⟩ := @Consumer.consumeMessage_arrives _ _ iopLen _ _ _ true opBuffer _ _
      hbuild h.confirmLevel h.msgSeq hpack halive hnext
    exact ⟨t, ht, hover, (hok rfl).new⟩
  · obtain ⟨t, ht, hover, -, hok⟩ := @Consumer.recvMessage_arrives _ _ iopLen _ _ _ true opBuffer _ _ n
      iConfirmLevel hbuild (Consumer.packs_recvMessage hname _) h.confirmLevel h.msgSeq hpack hcmd
      halive hnext
    exact ⟨t, ht, hover, (hok rfl).new⟩

/-! ### What is sent is a copy -/

theorem waitConnect_last {bs : Bytes} {fuel : Nat} {st st' : LogicServer}
    (h : waitConnect bs fuel st = some st') : ∃ pre, st'.queueToConnect.items = pre ++ [bs] := by
  induction fuel generalizing st with
  | zero => cases h
  | succ fuel ih =>
    rw [waitConnect] at h
    split at h
    · obtain ⟨st₁, _, hrest⟩ := Option.bind_eq_some_iff.mp h
      exact ih hrest
    · next hroom =>
      cases h
      by_cases hfits : Lib.Fifo.Fits st.queueToConnect.cap
          (Lib.Fifo.total ShmQueue.blockCost st.queueToConnect.items + ShmQueue.blockCost bs)
      · exact ⟨_, (ShmQueue.Fifo.call_enqueue_of_fits hfits).2.2⟩
      · exact absurd (ShmQueue.Fifo.call_enqueue_of_not_fits hfits).1 hroom

theorem fitsInt_ackSeqInt (st : LogicServer) : FitsInt 4 st.ackSeqInt := by
  have hlow := Int.le_bmod (x := (st.ackSeq : Int)) (show 0 < 2 ^ 32 by decide)
  have hhigh := Int.bmod_lt (x := (st.ackSeq : Int)) (show 0 < 2 ^ 32 by decide)
  unfold FitsInt ackSeqInt
  omega

omit [Platform] in
theorem fitsInt_neg_one : FitsInt 4 (-1) := by
  unfold FitsInt
  decide

/-- `PushMessage` sends a copy of the message. -/
theorem pushOne_sends {pMsg : SeverStoreMessage} {st' : LogicServer}
    (hq : q.confirmLevel < 2 ^ 8) (hm : pMsg.confirmLevel < 2 ^ 8)
    (h : st.pushOne q pMsg = some st') :
    ∃ copy pre, SentCopy pMsg copy ∧ st'.queueToConnect.items =
      pre ++ [(copy.getMessagePack zeroed maxServerPackageLength).sent] := by
  unfold pushOne at h
  split at h
  · obtain ⟨pre, hpre⟩ := waitConnect_last h
    refine ⟨{ pMsg with
        cmdId := cmdServerPushMessage
        confirmLevel := q.confirmLevel
        msgSeq := st.ackSeqInt
        queueName := q.queueName }, pre, ?_, hpre⟩
    exact .filled (.inr rfl) hq (fitsInt_ackSeqInt st)
  · obtain ⟨st₁, hsend, rfl⟩ := Option.map_eq_some_iff.mp h
    obtain ⟨pre, hpre⟩ := waitConnect_last hsend
    refine ⟨{ pMsg with cmdId := cmdServerPushMessage, msgSeq := -1 }, pre,
      ⟨rfl, .inr rfl, hm, fitsInt_neg_one⟩, ?_⟩
    rw [← hpre]
    unfold sendConsumed sendPersis
    split <;> rfl

/-- A body that the client library may pack is stored as it is, every copy of it that the server
sends is let through, and both calls of the client return it. -/
theorem payload_returned {m : CreatePublishMessage} {iIndex : Int} {p : Package}
    {pExchange : Exchange} (hbody : m.msgBody.length ≤ maxBodyLength)
    (hzero : 0 ∉ m.exchangeName ∧ 0 ∉ m.routingKey)
    (hshort : m.exchangeName.length ≤ 31 ∧ m.routingKey.length ≤ 31)
    (hpriority : FitsInt 2 m.priority) (hseq : FitsInt 4 m.msgSeq)
    (hlevel : m.confirmLevel < 2 ^ 8) (hindex : FitsInt 4 iIndex)
    (hp : Received p (RecvBuff.setIndex iIndex (Request.createPublish m).package))
    (hexchange : st.exchanges.lookup m.exchangeName = some pExchange)
    (hroute : (pExchange.findBindingQueue m.routingKey).2 = [queue])
    (hq : st.queues queue = some q)
    (hnew : m.confirmLevel > 0 → msgSeqKey iIndex m.msgSeq ∉ st.producerMsgSeqs) :
    (m.getMessagePack zeroed maxClintPackageLength).ret = Message.success ∧
    ∃ o q' pMsg, st.processRecvData p = some o ∧ o.ret = LogicServer.success ∧
      o.server.queues queue = some q' ∧ pMsg ∈ q'.messages ∧ pMsg.id = st.nextMsg ∧
      ∀ copy, SentCopy pMsg copy → Returns copy m.msgBody := by
  have hrange : (Request.createPublish m).InRange := by
    refine ⟨hpriority, hseq, hlevel, ?_⟩
    have hmax : maxBodyLength = 11184 := rfl
    have hclient : maxClintPackageLength = 11264 := rfl
    have hhead : sizeofClientPackageHead + publishBodyOffset = 80 := rfl
    omega
  have hnames : ∀ n ∈ (Request.createPublish m).names, 0 ∉ n ∧ n.length < maxNameLength := by
    intro n hn
    rcases List.mem_cons.mp hn with rfl | hn
    · exact ⟨hzero.1, Nat.lt_succ_of_le hshort.1⟩
    · rw [List.mem_singleton.mp hn]
      exact ⟨hzero.2, Nat.lt_succ_of_le hshort.2⟩
  have hpack : (m.getMessagePack zeroed maxClintPackageLength).ret = Message.success := by
    have hlen := Request.packLen_le hrange
    rw [← Request.publish_iMsgLen hrange] at hlen
    rw [CreatePublishMessage.getMessagePack,
      if_neg (Nat.not_lt.mpr (Nat.le_trans hshort.1 (by decide))),
      if_neg (Nat.not_lt.mpr (Nat.le_trans hshort.2 (by decide))), pack,
      if_neg (Int.not_lt.mpr (Int.ofNat_le.mpr hlen))]
  refine ⟨hpack, ?_⟩
  have hhead := headRead_package (r := .createPublish m) hindex hrange hpack hp
  have hdecode := decodePublish_fields hhead.body hhead.bodyLen
    (Request.fits fun n hn => Nat.le_of_lt (hnames n hn).2) hrange (fun n hn => (hnames n hn).1)
    fun n hn => (hnames n hn).2
  have hrouted : st.routedQueues ⟨m.exchangeName, m.routingKey, m.priority, m.durable, m.msgSeq,
      m.confirmLevel, m.msgBody.length, m.msgBody⟩ = [queue] := by
    simp only [routedQueues, hexchange, hroute]
  obtain ⟨o, q', pMsg, ho, hret, hq', hmem, hid, hstored⟩ := @publish_stores _ st _ _
    ⟨m.exchangeName, m.routingKey, m.priority, m.durable, m.msgSeq, m.confirmLevel,
      m.msgBody.length, m.msgBody⟩ iIndex (fun hrep => hnew hrep.1 hrep.2)
    (AList.lookup_isSome.mp (Option.isSome_of_eq_some hexchange)) hrouted (Int.natCast_nonneg _) hq
  refine ⟨o, q', pMsg, ?_, hret, hq', hmem, hid, fun copy hcopy => ?_⟩
  · have hlen : ¬ p.packLen > p.len := by
      have hsize : p.len - sizeofClientPackageHead = size (Request.createPublish m).body :=
        hhead.bodyLen
      have hge := p.len_ge
      rw [hhead.packLen, Request.packLen]
      omega
    rw [processRecvData, if_neg hlen, dispatch]
    simp only [hhead.cmdId, hhead.clientIndex]
    show st.onPublishMessage p.body p.bodyLen iIndex = some o
    rw [onPublishMessage, hdecode, Option.bind_some, ho]
  · have hreturns := hcopy.returns (by rw [hstored]; exact hbody)
    rwa [hstored] at hreturns

end

section Runs

open LogicServer

attribute [local instance] Platform.plain

/-- The exchange "e" with a queue bound to the key "k". -/
def boundExchange : Exchange where
  exchangeName := ascii "e"
  exchangeType := exchangeTypeDirect
  bindingQueues := (∅ : AList fun _ : Name => List QueueId).insert (ascii "k") [0]

def boundQueue : LogicServer :=
  { start none none with
    exchanges := (∅ : AList fun _ : Name => Exchange).insert (ascii "e") boundExchange
    queues := fun i => if i = 0 then some { queueName := ascii "q" } else none }

theorem payload_returned_small : ∃ p o q' pMsg, boundQueue.processRecvData p = some o ∧
    o.server.queues 0 = some q' ∧ pMsg ∈ q'.messages ∧
      ∀ copy, SentCopy pMsg copy → Returns copy [104, 0, 105] := by
  have hp := received_receivedPackage (RecvBuff.setIndex 3 smallPublish.package)
    (by decide +kernel) (by decide +kernel)
  have hroute : (boundExchange.findBindingQueue (ascii "k")).2 = [0] := by decide +kernel
  obtain ⟨_, o, q', pMsg, ho, _, hq', hmem, _, hcopies⟩ := @payload_returned _ boundQueue _ _
    ⟨-1, ascii "e", ascii "k", -1, true, 7, 1, [104, 0, 105]⟩ 3 _ _ (by decide) (by decide) (by decide)
    (by unfold FitsInt; decide) (by unfold FitsInt; decide) (by decide)
    (by unfold FitsInt; decide) hp (AList.lookup_insert _) hroute rfl
    (fun _ h => nomatch h)
  exact ⟨_, o, q', pMsg, ho, hq', hmem, hcopies⟩

end Runs

end Wsmq
