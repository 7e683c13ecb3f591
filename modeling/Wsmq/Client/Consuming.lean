import Wsmq.Client.Calls

/-!
# What a consumer takes off its connection

Whatever becomes of the connection, a call takes no more than the next package, and a message that
it acknowledges is in `m_SeqSet`.
-/

namespace Wsmq
open Lib Lib.ByteString Lib.Packing

/-- What the two calls read in a package. -/
structure TakenAs (pack : Bytes) (level : Nat) (seq : Int) (body : Bytes) : Prop where
  level_lt : level < 2 ^ 8
  seq_fits : FitsInt 4 seq
  pack : ∃ iCmdId, IsPack pack iCmdId (messageData level seq body)

section Packages

variable {pack data : Bytes} {level iCmdId : Nat} {seq : Int} {body : Bytes}

theorem messageData_eq (level : Nat) (seq : Int) (body : Bytes) :
    messageData level seq body = be 1 level ++ beInt 4 seq ++ body := by
  simp [messageData, writeByte, writeInt, writeBody, pad]

/-- Number and body are what stands there. -/
theorem TakenAs.unique {level' : Nat} {seq' : Int} {body' : Bytes}
    (h : TakenAs pack level seq body) (h' : TakenAs pack level' seq' body') :
    seq = seq' ∧ body = body' := by
  obtain ⟨_, hpack⟩ := h.pack
  obtain ⟨_, hpack'⟩ := h'.pack
  have hdata := hpack.data.symm.trans hpack'.data
  rw [messageData_eq, messageData_eq] at hdata
  obtain ⟨hfirst, hbody⟩ := List.append_inj hdata (by
    simp only [List.length_append, be_length, beInt_length])
  have hseq := (List.append_inj hfirst (by rw [be_length, be_length])).2
  refine ⟨?_, hbody⟩
  rw [← ofBeInt_beInt h.seq_fits, hseq, ofBeInt_beInt h'.seq_fits]

/-- Data that are long enough are read like those of a message. -/
theorem takenAs_of_data (h : IsPack pack iCmdId data) (hlen : 1 + 4 ≤ data.length) :
    TakenAs pack (ofBe (data.take 1)) (ofBeInt ((data.drop 1).take 4)) (data.drop (1 + 4)) := by
  have hfirst : (data.take 1).length = 1 := List.length_take_of_le (by omega)
  have hnext : ((data.drop 1).take 4).length = 4 :=
    List.length_take_of_le (by rw [List.length_drop]; omega)
  refine ⟨?_, fitsInt_ofBeInt (by decide) hnext, iCmdId, ?_⟩
  · have hlt := ofBe_lt (data.take 1)
    rwa [hfirst] at hlt
  · rw [messageData_eq, be_ofBe hfirst, beInt_ofBeInt hnext, List.append_assoc, ← List.drop_drop,
      List.take_append_drop, List.take_append_drop]
    exact h

end Packages

/-- The bytes that `recv` gave are all there, whether or not a package is. -/
theorem recvPacks_stream {found : Bool} {window window' : Bytes} {rets rets' : List RecvRet}
    (h : recvPacks rets window = some (found, window', rets')) :
    window' ++ arriving rets' = window ++ arriving rets ∧ (found = true → HasPack window') := by
  induction rets generalizing window with
  | nil =>
    obtain ⟨hhas, h⟩ | ⟨_, h⟩ := LogicServer.ite_eq_some h
    · cases h
      exact ⟨rfl, fun _ => hhas⟩
    · cases h
  | cons ret rets ih =>
    unfold recvPacks at h
    obtain ⟨hhas, h⟩ | ⟨_, h⟩ := LogicServer.ite_eq_some h
    · cases h
      exact ⟨rfl, fun _ => hhas⟩
    cases ret with
    | again => exact ih h
    | failed =>
      cases h
      exact ⟨rfl, fun hfound => absurd hfound Bool.false_ne_true⟩
    | recvd bs =>
      obtain ⟨hnil, h⟩ | ⟨_, h⟩ := LogicServer.ite_eq_some h
      · cases h
        rw [hnil]
        exact ⟨rfl, fun hfound => absurd hfound Bool.false_ne_true⟩
      · obtain ⟨hsame, hhas⟩ := ih h
        rw [hsame, List.append_assoc]
        exact ⟨rfl, hhas⟩

namespace Consumer

variable {c c' : Consumer} {rets rets' : List RecvRet} {packs : List Bytes} {later pack : Bytes}
  {level : Nat} {seq : Int} {body : Bytes} {sendOk ackOk : Bool} {opBuffer : Mem} {iopLen : Int}

/-- What has been sent is whole packages, of which `packs` have not been read; `later` has not
arrived yet. -/
theorem recvOnePack_reads {r : Option (Nat × Bytes)}
    (hpacks : ∀ pack ∈ packs, ∃ iCmdId data, IsPack pack iCmdId data)
    (hstream : c.window ++ (arriving rets ++ later) = packs.flatten)
    (h : c.recvOnePack rets = some (r, c', rets')) :
    (r = none ∧ ∃ window, c' = { c with bBuild := false, window := window }) ∨
      ∃ pack rest iCmdId data window, packs = pack :: rest ∧ IsPack pack iCmdId data ∧
        r = some (iCmdId, data) ∧ c' = { c with window := window } ∧
        window ++ (arriving rets' ++ later) = rest.flatten := by
  obtain ⟨⟨found, window, rets₁⟩, hrecv, h⟩ := Option.bind_eq_some_iff.mp h
  obtain ⟨hsame, hhas⟩ := recvPacks_stream hrecv
  rw [← List.append_assoc, ← hsame, List.append_assoc] at hstream
  obtain ⟨_, h⟩ | ⟨hfound, h⟩ := LogicServer.ite_eq_some h
  · cases h
    exact Or.inl ⟨rfl, window, rfl⟩
  have hhas := hhas (not_not.mp hfound)
  cases packs with
  | nil =>
    have hnil : window = [] := (List.append_eq_nil_iff.mp hstream).1
    rw [hnil] at hhas
    exact absurd hhas.1 (Nat.not_lt_zero _)
  | cons pack rest =>
    obtain ⟨iCmdId, data, hpack⟩ := hpacks pack List.mem_cons_self
    have hwhole : pack <+: window := by
      refine (hpack.hasPack_iff (s := (pack :: rest).flatten) ?_ ?_).mp hhas
      · exact List.prefix_append _ _
      · rw [← hstream]
        exact List.prefix_append _ _
    simp only [hpack.window_packLen hwhole, hpack.window_cmdId hwhole] at h
    rw [if_neg (Nat.not_lt.mpr hpack.short), if_neg (Nat.not_lt.mpr (Nat.le_of_lt hpack.long)),
      hpack.window_data hwhole] at h
    cases h
    refine Or.inr ⟨pack, rest, iCmdId, data, _, rfl, hpack, rfl, rfl, ?_⟩
    obtain ⟨left, rfl⟩ := hwhole
    rw [List.drop_left]
    rw [List.append_assoc, List.flatten_cons] at hstream
    exact List.append_cancel_left hstream

/-! ## Acknowledgements -/

/-- `SendConsumerAck`, without what it returns. -/
def sendConsumerAck (c : Consumer) (sendOk : Bool) : Consumer :=
  if (c.iConfirmLevel = consumerSingleAck ∨ c.iConfirmLevel = consumerMutilAck) ∧
      c.iAckSeq ≠ -1 ∧ sendOk then c.sendAck c.iConfirmLevel c.iAckSeq
  else c

def ackPack (confirmLevel : Nat) (iMsgSeq : Int) : Bytes :=
  (({ confirmLevel := confirmLevel, ackSeq := iMsgSeq } : ClientAckMessage).getMessagePack zeroed
    maxClintPackageLength).sent

/-- What is noted of a message with this level and number. -/
structure Notes (c : Consumer) (level : Nat) (seq : Int) (v : Verdict) : Prop where
  seqSet : v.consumer.seqSet = c.seqSet ∨
    v.consumer.seqSet = seq :: c.seqSet ∧ seq ∉ c.seqSet ∧ v.ret = Client.success
  sent : v.consumer.sent = c.sent ∨
    v.consumer.sent = c.sent ++ [ackPack level seq] ∧ seq ∈ v.consumer.seqSet
  iAckSeq : v.consumer.iAckSeq = c.iAckSeq ∨
    v.consumer.iAckSeq = seq ∧ seq ∈ v.consumer.seqSet
  window : v.consumer.window = c.window
  bBuild : v.consumer.bBuild = true → c.bBuild = true

theorem checkRepeat_notes :
    (c.checkRepeat level seq).consumer =
        { c with seqSet := (c.checkRepeat level seq).consumer.seqSet } ∧
      ((c.checkRepeat level seq).consumer.seqSet = c.seqSet ∨
        (c.checkRepeat level seq).consumer.seqSet = seq :: c.seqSet ∧ seq ∉ c.seqSet ∧
          (c.checkRepeat level seq).ret = Client.success) ∧
      (0 < level → seq ∈ (c.checkRepeat level seq).consumer.seqSet) := by
  unfold checkRepeat
  split
  · next hold => exact ⟨rfl, Or.inl rfl, fun _ => hold⟩
  · next hnew =>
    by_cases hlevel : level > 0
    · rw [if_pos hlevel]
      exact ⟨rfl, Or.inr ⟨rfl, hnew, rfl⟩, fun _ => List.mem_cons_self⟩
    · rw [if_neg hlevel]
      exact ⟨rfl, Or.inl rfl, fun hpos => absurd hpos hlevel⟩

theorem sent_confirm (bAck : Bool) : (c.confirm bAck level seq).sent = c.sent ∨
    bAck = true ∧ (c.confirm bAck level seq).sent = c.sent ++ [ackPack level seq] := by
  unfold confirm
  split
  · next hack => exact Or.inr ⟨hack, rfl⟩
  · split <;> exact Or.inl rfl

theorem iAckSeq_confirm (bAck : Bool) : (c.confirm bAck level seq).iAckSeq = c.iAckSeq ∨
    0 < level ∧ (c.confirm bAck level seq).iAckSeq = seq := by
  unfold confirm
  split
  · exact Or.inl rfl
  · split
    · next hmanual =>
      have hpos : 0 < level := by
        rcases hmanual with rfl | rfl <;> decide
      exact Or.inr ⟨hpos, rfl⟩
    · exact Or.inl rfl

theorem afterMessage_notes {bAck : Bool} {notSent : Consumer → Verdict}
    (hlevel : bAck = true → 0 < level) (h : Notes c level seq (notSent c)) :
    Notes c level seq (c.afterMessage bAck notSent sendOk level seq) := by
  unfold afterMessage
  split
  · exact h
  obtain ⟨hsame, hset, hin⟩ := @checkRepeat_notes (c.confirm bAck level seq) level seq
  obtain ⟨hbuild, hwindow⟩ := @connection_confirm level seq c bAck
  rw [seqSet_confirm] at hset
  refine ⟨hset, ?_, ?_, ?_, ?_⟩
  · have hsent := congrArg Consumer.sent hsame
    rw [hsent]
    exact (sent_confirm bAck).imp_right fun ⟨hack, hnew⟩ => ⟨hnew, hin (hlevel hack)⟩
  · have hack := congrArg Consumer.iAckSeq hsame
    rw [hack]
    exact (iAckSeq_confirm bAck).imp_right fun ⟨hpos, hnew⟩ => ⟨hnew, hin hpos⟩
  · exact (congrArg Consumer.window hsame).trans hwindow
  · intro hopen
    exact hbuild.symm.trans ((congrArg Consumer.bBuild hsame).symm.trans hopen)

/-! ## Calls -/

/-- A call with packages lost on the way or not. -/
def attempt (c : Consumer) (call : ConsumerCall) (rets : List RecvRet) (sendOk ackOk : Bool)
    (opBuffer : Mem) (iopLen : Int) : Option Taken :=
  match call with
  | .request (.recvMessage n l) => c.recvMessage n l rets sendOk ackOk opBuffer iopLen
  | .request call => c.requestCall call rets sendOk opBuffer iopLen
  | .consumeMessage => c.consumeMessage rets ackOk opBuffer iopLen

/-- The consumer when the requests of these calls are sent. -/
def asked (c : Consumer) (calls : List Call) : Consumer :=
  { c with sent := c.sent ++ calls.map fun call => call.request.package }

/-- What a call has done from the moment that its request was sent. -/
inductive Spends (c : Consumer) (packs : List Bytes) (later : Bytes) (t : Taken) : Prop
  /-- If it has read a package, then not for a message. -/
  | other (read rest : List Bytes) (packs : packs = read ++ rest)
    (same : t.consumer =
      { c with bBuild := t.consumer.bBuild, window := t.consumer.window })
    (stream : t.consumer.bBuild = true → c.bBuild = true ∧
      t.consumer.window ++ (arriving t.rets ++ later) = rest.flatten)
  | message (pack : Bytes) (rest : List Bytes) (level : Nat) (seq : Int) (body window : Bytes)
    (packs : packs = pack :: rest) (taken : TakenAs pack level seq body)
    (notes : Notes { c with window := window } level seq t.verdict)
    (iopLen : t.iopLen = body.length) (opBuffer : t.opBuffer.read 0 body.length = body)
    (stream : t.consumer.bBuild = true → c.bBuild = true ∧
      t.consumer.window ++ (arriving t.rets ++ later) = rest.flatten)

variable {t : Taken} {ret : Int} {bRepeat : Bool}

/-- The call ends before it reads. -/
theorem spends_unread
    (hstream : c.bBuild = true → c.window ++ (arriving rets ++ later) = packs.flatten) :
    Spends c packs later ⟨ret, bRepeat, opBuffer, iopLen, c, rets⟩ :=
  .other [] packs rfl rfl fun hopen => ⟨hopen, hstream hopen⟩

theorem spends_closed : Spends c packs later ⟨ret, bRepeat, opBuffer, iopLen, c.closed, rets⟩ :=
  .other [] packs rfl rfl fun hopen => nomatch hopen

/-- `RecvOnePack` fails, or takes a package off that is given up. -/
theorem spends_read {r : Option (Nat × Bytes)}
    (hpacks : ∀ pack ∈ packs, ∃ iCmdId data, IsPack pack iCmdId data) (hopen : c.bBuild = true)
    (hstream : c.window ++ (arriving rets ++ later) = packs.flatten)
    (h : c.recvOnePack rets = some (r, c', rets')) :
    Spends c packs later ⟨ret, bRepeat, opBuffer, iopLen, c', rets'⟩ := by
  obtain ⟨_, window, rfl⟩ | ⟨pack, rest, _, _, window, rfl, _, _, rfl, hrest⟩ :=
    recvOnePack_reads hpacks hstream h
  · exact .other [] packs rfl rfl fun hbuild => nomatch hbuild
  · exact .other [pack] rest rfl rfl fun _ => ⟨hopen, hrest⟩

theorem isPack_of_taken (h : ∀ pack ∈ packs, ∃ level seq body, TakenAs pack level seq body) :
    ∀ pack ∈ packs, ∃ iCmdId data, IsPack pack iCmdId data := by
  intro pack hpack
  obtain ⟨_, _, _, htaken⟩ := h pack hpack
  obtain ⟨iCmdId, hpack⟩ := htaken.pack
  exact ⟨iCmdId, _, hpack⟩

/-- A package is read and taken for a message. -/
theorem spends_message {iCmdId : Nat} {data : Bytes} {bAck : Nat → Int → Bool}
    {notSent : Consumer → Verdict}
    (hpacks : ∀ pack ∈ packs, ∃ level seq body, TakenAs pack level seq body)
    (hopen : c.bBuild = true) (hstream : c.window ++ (arriving rets ++ later) = packs.flatten)
    (hlevel : ∀ level seq, bAck level seq = true → 0 < level)
    (hnot : ∀ c level seq, Notes c level seq (notSent c))
    (h : c.recvOnePack rets = some (some (iCmdId, data), c', rets'))
    (htake : c'.takeMessage bAck notSent ackOk (opBuffer.write 0 data) data.length rets' = some t) :
    Spends c packs later t := by
  obtain ⟨hnone, _⟩ | ⟨pack, rest, iCmdId', data', window, rfl, hpack, hdata, rfl, hrest⟩ :=
    recvOnePack_reads (isPack_of_taken hpacks) hstream h
  · cases hnone
  obtain ⟨level, seq, body, htaken⟩ := hpacks pack List.mem_cons_self
  obtain ⟨_, hmessage⟩ := htaken.pack
  cases hdata
  have hsame : data = messageData level seq body := hpack.data.symm.trans hmessage.data
  rw [hsame, takeMessage_body htaken.level_lt htaken.seq_fits] at htake
  cases htake
  have hnotes := @afterMessage_notes { c with window := window } level seq ackOk (bAck level seq)
    notSent (hlevel level seq) (hnot _ level seq)
  refine .message pack rest level seq body window rfl htaken hnotes rfl messageBuffer_body
    fun _ => ⟨hopen, ?_⟩
  rw [hnotes.window]
  exact hrest

theorem asked_nil : c.asked [] = c := by
  rw [asked, List.map_nil, List.append_nil]

/-- The request of the call is sent, unless something is in its way. -/
def Asks (c : Consumer) (call : Call) (sendOk : Bool) (calls : List Call) : Prop :=
  calls = [call] ∧ call.Packs ∨
    calls = [] ∧ ¬ (c.bBuild = true ∧ call.Packs ∧ sendOk = true)

section Attempt

variable (hpacks : ∀ pack ∈ packs, ∃ level seq body, TakenAs pack level seq body)
  (hstream : c.bBuild = true → c.window ++ (arriving rets ++ later) = packs.flatten)

include hpacks hstream

theorem consumeMessage_spends (h : c.consumeMessage rets ackOk opBuffer iopLen = some t) :
    Spends c packs later t := by
  obtain ⟨_, h⟩ | ⟨hopen, h⟩ := LogicServer.ite_eq_some h
  · cases h
    exact spends_unread hstream
  have hopen := not_not.mp hopen
  obtain ⟨⟨pack, c', rets'⟩, hrecv, h⟩ := Option.bind_eq_some_iff.mp h
  cases pack with
  | none =>
    cases h
    exact spends_read (isPack_of_taken hpacks) hopen (hstream hopen) hrecv
  | some r =>
    refine spends_message hpacks hopen (hstream hopen) (fun level seq hack => ?_)
      (fun c level seq => ⟨Or.inl rfl, Or.inl rfl, Or.inl rfl, rfl, id⟩) hrecv h
    rw [(of_decide_eq_true hack).1]
    decide

theorem takePulled_spends (hopen : c.bBuild = true)
    (h : c.takePulled rets ackOk opBuffer iopLen = some t) : Spends c packs later t := by
  have hwhole := isPack_of_taken hpacks
  obtain ⟨⟨pack, c', rets'⟩, hrecv, h⟩ := Option.bind_eq_some_iff.mp h
  cases pack with
  | none =>
    cases h
    exact spends_read hwhole hopen (hstream hopen) hrecv
  | some r =>
    obtain ⟨_, h⟩ | ⟨_, h⟩ := LogicServer.ite_eq_some h
    · cases h
      exact spends_read hwhole hopen (hstream hopen) hrecv
    · refine spends_message hpacks hopen (hstream hopen) (fun level seq hack => ?_)
        (fun c level seq => ⟨Or.inl rfl, Or.inl rfl, Or.inl rfl, rfl,
          fun hbuild : false = true => nomatch hbuild⟩) hrecv h
      rw [of_decide_eq_true hack]
      decide

theorem recvMessage_spends {n : Name} {l : Nat}
    (h : c.recvMessage n l rets sendOk ackOk opBuffer iopLen = some t) :
    ∃ calls, Asks c (.recvMessage n l) sendOk calls ∧ Spends (c.asked calls) packs later t := by
  obtain ⟨hclosed, h⟩ | ⟨hopen, h⟩ := LogicServer.ite_eq_some h
  · cases h
    exact ⟨[], .inr ⟨rfl, fun hall => hclosed hall.1⟩, asked_nil ▸ spends_unread hstream⟩
  obtain ⟨hret, h⟩ | ⟨hret, h⟩ := LogicServer.ite_eq_some h
  · cases h
    exact ⟨[], .inr ⟨rfl, fun hall => hret hall.2.1⟩, asked_nil ▸ spends_unread hstream⟩
  obtain ⟨hlost, h⟩ | ⟨_, h⟩ := LogicServer.ite_eq_some h
  · cases h
    exact ⟨[], .inr ⟨rfl, fun hall => hlost hall.2.2⟩, asked_nil ▸ spends_closed⟩
  · exact ⟨[.recvMessage n l], .inl ⟨rfl, not_not.mp hret⟩,
      takePulled_spends hpacks hstream (not_not.mp hopen) h⟩

theorem requestCall_spends {call : Call}
    (h : c.requestCall call rets sendOk opBuffer iopLen = some t) :
    ∃ calls, Asks c call sendOk calls ∧ Spends (c.asked calls) packs later t := by
  have hwhole := isPack_of_taken hpacks
  obtain ⟨hclosed, h⟩ | ⟨hopen, h⟩ := LogicServer.ite_eq_some h
  · cases h
    exact ⟨[], .inr ⟨rfl, fun hall => hclosed hall.1⟩, asked_nil ▸ spends_unread hstream⟩
  obtain ⟨hret, h⟩ | ⟨hret, h⟩ := LogicServer.ite_eq_some h
  · cases h
    exact ⟨[], .inr ⟨rfl, fun hall => hret hall.2.1⟩, asked_nil ▸ spends_unread hstream⟩
  obtain ⟨hlost, h⟩ | ⟨_, h⟩ := LogicServer.ite_eq_some h
  · cases h
    exact ⟨[], .inr ⟨rfl, fun hall => hlost.1 hall.2.2⟩, asked_nil ▸ spends_closed⟩
  have hopen := not_not.mp hopen
  obtain ⟨calls, hcalls, hsent⟩ : ∃ calls : List Call, Asks c call sendOk calls ∧
      (if sendOk then c.sendRequest call else c) = c.asked calls := by
    cases sendOk with
    | false => exact ⟨[], .inr ⟨rfl, fun hall => nomatch hall.2.2⟩, asked_nil.symm⟩
    | true => exact ⟨[call], .inl ⟨rfl, not_not.mp hret⟩, rfl⟩
  rw [hsent] at h
  obtain ⟨⟨pack, c', rets'⟩, hrecv, h⟩ := Option.bind_eq_some_iff.mp h
  refine ⟨calls, hcalls, ?_⟩
  cases pack with
  | none =>
    cases h
    exact spends_read hwhole hopen (hstream hopen) hrecv
  | some r =>
    obtain ⟨_, h⟩ | ⟨_, h⟩ := LogicServer.ite_eq_some h
    · cases h
      exact spends_read hwhole hopen (hstream hopen) hrecv
    · cases h
      exact spends_read hwhole hopen (hstream hopen) hrecv

theorem attempt_spends {call : ConsumerCall}
    (h : c.attempt call rets sendOk ackOk opBuffer iopLen = some t) :
    ∃ calls, (∀ x ∈ ConsumerCall.requests [call], Asks c x sendOk calls) ∧
      (∀ x ∈ calls, call = .request x ∧ x.Packs) ∧ Spends (c.asked calls) packs later t := by
  have hasks : ∀ {x : Call} {calls : List Call}, Asks c x sendOk calls →
      (∀ y ∈ ConsumerCall.requests [.request x], Asks c y sendOk calls) ∧
        ∀ y ∈ calls, ConsumerCall.request x = .request y ∧ y.Packs := by
    intro x calls hasks
    refine ⟨fun y hy => ?_, fun y hy => ?_⟩
    · cases List.mem_singleton.mp hy
      exact hasks
    · rcases hasks with ⟨rfl, hpacks⟩ | ⟨rfl, -⟩
      · cases List.mem_singleton.mp hy
        exact ⟨rfl, hpacks⟩
      · cases hy
  unfold attempt at h
  split at h
  · obtain ⟨calls, hcalls, hspends⟩ := recvMessage_spends hpacks hstream h
    exact ⟨calls, (hasks hcalls).1, (hasks hcalls).2, hspends⟩
  · obtain ⟨calls, hcalls, hspends⟩ := requestCall_spends hpacks hstream h
    exact ⟨calls, (hasks hcalls).1, (hasks hcalls).2, hspends⟩
  · exact ⟨[], nofun, nofun, asked_nil ▸ consumeMessage_spends hpacks hstream h⟩

end Attempt

end Consumer

end Wsmq
