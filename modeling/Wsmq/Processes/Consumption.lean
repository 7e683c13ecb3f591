import Wsmq.Processes.Handing

/-!
# A consumer and the logic server

A consumer, the logic server with all its other clients, and what is on its way between them, as
long as the connect server does not give the connection up.
-/

namespace Wsmq
open Lib Lib.ByteString Lib.Packing Lib.Fifo
open LogicServer (GoesTo TakenAmong Received Linked AllProper Numbered seqOf ackedSeq IsRequestCmd
  ite_eq_some)

/-! ## What a consumer sends -/

namespace Request

variable {r : Request}

/-- Everything behind the index is what was packed. -/
theorem read_package (hrange : r.InRange)
    (h : (r.getMessagePack zeroed maxClintPackageLength).ret = Message.success) (a n : Nat) :
    (Mem.ofBytes r.package).read (6 + a) n =
      (Mem.ofBytes (image (packHead r.packLen r.index r.cmdId ++ r.body))).read (6 + a) n := by
  have hsame := @setIndex_package r r.index hrange h
  have hfit := fits_fields (getMessagePack_success hrange h).2 r.index
  have hlen := congrArg List.length hsame
  rw [image_length hfit, size_append] at hlen
  have hhead : size (packHead r.packLen r.index r.cmdId) = 8 := rfl
  have hlong : sizeofClientPackageHead ≤ r.package.length := by
    have height : sizeofClientPackageHead = 8 := rfl
    rw [RecvBuff.setIndex, List.length_append, List.length_append, List.length_drop,
      List.length_take, beInt_length, hhead] at hlen
    omega
  rw [← hsame]
  exact ((setIndex_read r.index hlong).2.2 a n).symm

theorem cmd_package (hrange : r.InRange)
    (h : (r.getMessagePack zeroed maxClintPackageLength).ret = Message.success) :
    readUShort (Mem.ofBytes r.package) 6 = r.cmdId := by
  have hfit := fits_fields (getMessagePack_success hrange h).2 r.index
  have hcmd : r.cmdId < 2 ^ 16 := by cases r <;> exact Nat.le_of_ble_eq_true rfl
  have hread := read_package hrange h 0 2
  rw [readUShort, hread]
  exact readUShort_field (a := 0) [writeUShort r.packLen, writeInt r.index]
    (holds_ofBytes _) hfit hcmd

end Request

/-- An acknowledgement of the message with this number. -/
def IsAckOf (pack : Bytes) (n : Int) : Prop :=
  readUShort (Mem.ofBytes pack) 6 = cmdClientAckMessage ∧ readInt (Mem.ofBytes pack) 9 = n

theorem number_package {m : ClientAckMessage} (hrange : (Request.clientAck m).InRange) :
    readInt (Mem.ofBytes (Request.clientAck m).package) 9 = m.ackSeq := by
  have hfit := Request.fits_fields (Request.getMessagePack_success hrange rfl).2
    (Request.clientAck m).index
  have hread := Request.read_package hrange rfl 3 4
  rw [readInt, hread]
  exact readInt_field (a := 0) [writeUShort (Request.clientAck m).packLen,
    writeInt (Request.clientAck m).index, writeUShort cmdClientAckMessage,
    writeByte m.confirmLevel] (holds_ofBytes _) hfit hrange.2

theorem isAckOf_package {m : ClientAckMessage} (hrange : (Request.clientAck m).InRange) :
    IsAckOf (Request.clientAck m).package m.ackSeq :=
  ⟨Request.cmd_package hrange rfl, number_package hrange⟩

theorem sent_clientAck {m : ClientAckMessage} (hrange : (Request.clientAck m).InRange) :
    (m.getMessagePack zeroed maxClintPackageLength).sent = (Request.clientAck m).package := by
  obtain ⟨hbuf, hnames⟩ := Request.getMessagePack_success hrange rfl
  have hfit := Request.fits_fields hnames (Request.clientAck m).index
  have himage := read_place hfit (fun x (_ : 0 ≤ x) => (rfl : zeroed x = 0))
  have hholds := himage
  rw [← image_length hfit] at hholds
  have hlen := readUShort_field (a := 0) [] hholds hfit (Nat.le_of_ble_eq_true rfl)
  have hsent : (m.getMessagePack zeroed maxClintPackageLength).sent = image m.fields :=
    pack_sent (by decide) rfl hfit
  rw [hsent]
  simp only [Request.package]
  rw [hbuf]
  have hsize : readUShort (place zeroed 0 (packHead (Request.clientAck m).packLen
      (Request.clientAck m).index (Request.clientAck m).cmdId ++ (Request.clientAck m).body)) 0 =
      size (packHead (Request.clientAck m).packLen (Request.clientAck m).index
        (Request.clientAck m).cmdId ++ (Request.clientAck m).body) := hlen
  rw [hsize, himage]
  rfl

/-- A package of the consumer: a request, or an acknowledgement. -/
def FromConsumer (pack : Bytes) : Prop :=
  ∃ r : Request, pack = r.package ∧ r.InRange ∧
    (r.getMessagePack zeroed maxClintPackageLength).ret = Message.success ∧
    (IsRequestCmd r.cmdId ∨ ∃ m, r = .clientAck m)

theorem ackPack_spec {level : Nat} {seq : Int} (hlevel : level < 2 ^ 8) (hseq : FitsInt 4 seq) :
    FromConsumer (Consumer.ackPack level seq) ∧
      ∀ n, IsAckOf (Consumer.ackPack level seq) n → n = seq := by
  have hrange : (Request.clientAck { confirmLevel := level, ackSeq := seq }).InRange :=
    ⟨hlevel, hseq⟩
  have hsent := sent_clientAck hrange
  refine ⟨⟨_, hsent, hrange, rfl, Or.inr ⟨_, rfl⟩⟩, fun n hn => ?_⟩
  have hnumber := hn.2
  rw [Consumer.ackPack, hsent, number_package hrange] at hnumber
  exact hnumber.symm

theorem request_spec {call : Call} (hrange : call.request.InRange) (hpacks : call.Packs) :
    FromConsumer call.request.package ∧ ∀ n, ¬ IsAckOf call.request.package n := by
  have hcmd : IsRequestCmd call.request.cmdId := by
    unfold LogicServer.IsRequestCmd
    cases call <;> simp [Call.request, Request.cmdId]
  refine ⟨⟨_, rfl, hrange, hpacks, Or.inl hcmd⟩, fun n hn => ?_⟩
  have hack := hn.1
  rw [Request.cmd_package hrange hpacks] at hack
  rw [hack] at hcmd
  unfold LogicServer.IsRequestCmd at hcmd
  exact absurd hcmd (by decide)

section Model

variable [Platform]

structure Consumption where
  /-- The index of the connection. -/
  index : Int
  consumer : Consumer := {}
  /-- The call that waits for the answer to its request. -/
  asked : Option Call := none
  /-- What the consumer has sent and the logic server has not taken yet. -/
  toServer : List Bytes := []
  logic : LogicServer
  /-- What the connect server has given to the socket. -/
  toClient : Bytes := []
  /-- A history variable: how many numbers for acknowledgements have been given. -/
  drawn : Nat
  /-- A history variable: number and body of each message with a level that a call has returned. -/
  handed : List (Int × Bytes) := []

namespace Consumption

inductive Step
  /-- A call sends its request. -/
  | ask (call : Call)
  /-- It goes on when the bytes `arriving rets` have arrived. -/
  | answer (rets : List RecvRet) (ackOk : Bool) (opBuffer : Mem) (iopLen : Int)
  /-- A call for which everything has arrived. -/
  | attempt (call : ConsumerCall) (rets : List RecvRet) (sendOk ackOk : Bool) (opBuffer : Mem)
      (iopLen : Int)
  | sendConsumerAck (sendOk : Bool)
  /-- The logic server processes the next package of the consumer. -/
  | take (p : LogicServer.Package)
  /-- The logic server does something else. -/
  | logic (a : LogicServer.Step)
  /-- The connect server takes a package out of `LOGIC_TO_CONNECT`. -/
  | deliver

/-- What does not come from the connection, and is not its reader.  No other client acknowledges a
message of this one: `OnClientAck` would believe it. -/
def Other (s : Consumption) : LogicServer.Step → Prop
  | .package p => p.clientIndex ≠ s.index ∧ (p.cmdId = cmdClientAckMessage →
      ∀ m ∈ s.logic.needAckMessageList, m.index = s.index → m.msgSeq ≠ ackedSeq p.body)
  | .drainConnect => False
  | _ => True

instance (s : Consumption) : (a : LogicServer.Step) → Decidable (Other s a)
  | .package p => inferInstanceAs (Decidable (p.clientIndex ≠ s.index ∧
      (p.cmdId = cmdClientAckMessage → ∀ m ∈ s.logic.needAckMessageList, m.index = s.index →
        m.msgSeq ≠ ackedSeq p.body)))
  | .drainConnect => isFalse not_false
  | .pushMessage | .sendMultiAck | .drainPersis | .rehash _ => isTrue trivial

/-- The message that a successful call has put into `m_SeqSet`. -/
def received (c : Consumer) (t : Consumer.Taken) : Option (Int × Bytes) :=
  if t.ret ≠ Client.success ∨ t.consumer.seqSet = c.seqSet then none
  else t.consumer.seqSet.head?.map fun n => (n, t.opBuffer.read 0 t.iopLen.toNat)

/-- The server has done what leads to `st`, and `rest` is still to be taken. -/
def served (s : Consumption) (st : LogicServer) (rest : List Bytes) : Consumption :=
  { s with
    logic := st
    toServer := rest
    drawn := s.drawn + (st.needAckMessageList.length - s.logic.needAckMessageList.length) }

/-- A call from its beginning to its end; the server may have its request already. -/
def finish (s : Consumption) (call : ConsumerCall) (rets : List RecvRet) (sendOk ackOk : Bool)
    (opBuffer : Mem) (iopLen : Int) : Option Consumption :=
  if ¬ arriving rets <+: s.toClient then none
  else (s.consumer.attempt call rets sendOk ackOk opBuffer iopLen).bind fun t =>
    if t.rets ≠ [] then none
    else
      let sent := t.consumer.sent.drop s.consumer.sent.length
      some { s with
        consumer := t.consumer
        asked := none
        toServer := s.toServer ++ sent.drop s.asked.toList.length
        toClient := s.toClient.drop (arriving rets).length
        handed := s.handed ++ (received s.consumer t).toList }

def step (s : Consumption) : Step → Option Consumption
  | .ask call =>
    if s.asked.isSome ∨ ¬ s.consumer.bBuild ∨
        (call.request.getMessagePack zeroed maxClintPackageLength).ret ≠ Message.success then none
    else some { s with asked := some call, toServer := s.toServer ++ [call.request.package] }
  | .answer rets ackOk opBuffer iopLen =>
    match s.asked with
    | none => none
    | some call => s.finish (.request call) rets true ackOk opBuffer iopLen
  | .attempt call rets sendOk ackOk opBuffer iopLen =>
    if s.asked.isSome then none else s.finish call rets sendOk ackOk opBuffer iopLen
  -- on a closed socket `send` fails
  | .sendConsumerAck sendOk =>
    if s.asked.isSome then none
    else
      let c := s.consumer.sendConsumerAck (s.consumer.bBuild && sendOk)
      some { s with consumer := c, toServer := s.toServer ++ c.sent.drop s.consumer.sent.length }
  | .take p =>
    match s.toServer with
    | [] => none
    | pack :: rest =>
      if p.buf.read 0 p.len ≠ RecvBuff.setIndex s.index pack then none
      else (s.logic.step (.package p)).map fun st => s.served st rest
  | .logic a =>
    if ¬ Other s a then none else (s.logic.step a).map fun st => s.served st s.toServer
  | .deliver =>
    s.logic.queueToConnect.dequeue.map fun r =>
      { s with
        logic := { s.logic with queueToConnect := r.2 }
        toClient := if GoesTo s.index r.1 then s.toClient ++ r.1 else s.toClient }

abbrev run : Consumption → List Step → Option Consumption := Runs.run step

/-- The arguments of the calls fit their types. -/
def Step.InRange : Step → Prop
  | .ask call => call.request.InRange
  | .attempt (.request call) _ _ _ _ _ => call.request.InRange
  | _ => True

/-- A new connection with the index, when so many numbers have been given. -/
def start (index : Int) (drawn : Nat) (st : LogicServer) : Consumption where
  index := index
  logic := st
  drawn := drawn

/-! ## What is kept -/

/-- The consumer has sent an acknowledgement of this number. -/
def Acked (s : Consumption) (n : Int) : Prop := ∃ pack ∈ s.consumer.sent, IsAckOf pack n

/-- The packages for the consumer in `LOGIC_TO_CONNECT`. -/
def onTheWay (s : Consumption) : List Bytes := s.logic.queueToConnect.items.filter (GoesTo s.index)

/-- The consumer has these bytes of whole packages still to read. -/
def Reading (given : List SeverStoreMessage) (stream : Bytes) : Prop :=
  ∃ packs : List Bytes, stream = packs.flatten ∧ ∀ pack ∈ packs, TakenAmong given pack

/-- The server side, when the messages `given` have got numbers. -/
structure Serving (s : Consumption) (given : List SeverStoreMessage) : Prop where
  linked : Linked s.logic
  allProper : AllProper s.logic
  cap : s.logic.queueToConnect.cap = none
  numbered : Numbered s.drawn s.logic
  nodup : (given.map (·.msgSeq)).Nodup
  below : ∀ m ∈ given, ∃ k < s.drawn, m.msgSeq = seqOf k
  pending : ∀ m ∈ s.logic.needAckMessageList, m.index = s.index → m ∈ given
  kept : ∀ m ∈ given, m.index = s.index → m ∈ s.logic.needAckMessageList ∨ s.Acked m.msgSeq
  taken : ∀ m ∈ s.logic.needAckMessageList, m.index = s.index → s.Acked m.msgSeq →
    ∃ pack ∈ s.toServer, IsAckOf pack m.msgSeq
  toServer : ∀ pack ∈ s.toServer, FromConsumer pack ∧ ∀ n, IsAckOf pack n → s.Acked n
  onTheWay : ∀ pack ∈ s.onTheWay, TakenAmong given pack

/-- The consumer side. -/
structure Noting (s : Consumption) (given : List SeverStoreMessage) : Prop where
  sent : ∀ n, s.Acked n → n ∈ s.consumer.seqSet
  fits : FitsInt 4 s.consumer.iAckSeq
  iAckSeq : s.consumer.iAckSeq ≠ -1 → s.consumer.iAckSeq ∈ s.consumer.seqSet
  seqSet : (s.handed.map Prod.fst).Perm s.consumer.seqSet
  nodup : s.consumer.seqSet.Nodup
  handed : ∀ x ∈ s.handed, IsAckSeq x.1 → ∃ m ∈ given, m.msgSeq = x.1 ∧ m.msgBody = x.2
  reading : s.consumer.bBuild = true → Reading given (s.consumer.window ++ s.toClient)

structure Inv (s : Consumption) (given : List SeverStoreMessage) : Prop where
  pos : 0 < s.index
  fits : FitsInt 4 s.index
  asked : ∀ call, s.asked = some call →
    s.consumer.bBuild = true ∧ call.Packs ∧ call.request.InRange
  serving : Serving s given
  noting : Noting s given

variable {s s' : Consumption} {given new : List SeverStoreMessage} {st' : LogicServer}

omit [Platform] in
theorem takenAmong_mono {given' : List SeverStoreMessage} {pack : Bytes} (h : TakenAmong given pack)
    (hsub : given ⊆ given') : TakenAmong given' pack := by
  obtain ⟨level, seq, body, htaken, hnew⟩ := h
  refine ⟨level, seq, body, htaken, fun hseq => ?_⟩
  obtain ⟨m, hm, hsame⟩ := hnew hseq
  exact ⟨m, hsub hm, hsame⟩

omit [Platform] in
theorem isAckSeq_seqOf {k : Nat} (hk : k < 2 ^ 30) : IsAckSeq (seqOf k) := by
  have hsame : seqOf k = k := by
    unfold seqOf
    rw [Nat.mod_eq_of_lt (by omega)]
    exact Int.bmod_eq_of_le (by omega) (by omega)
  rw [hsame]
  exact ⟨by omega, by omega⟩

/-- A message with a number that has been acknowledged was handed over. -/
theorem Inv.handedOver (h : Inv s given) {n : Int} (hn : IsAckSeq n)
    (hacked : s.Acked n) : ∃ m ∈ given, m.msgSeq = n ∧ (n, m.msgBody) ∈ s.handed := by
  have hin := h.noting.seqSet.mem_iff.mpr (h.noting.sent n hacked)
  obtain ⟨x, hx, rfl⟩ := List.mem_map.mp hin
  obtain ⟨m, hm, hseq, hbody⟩ := h.noting.handed x hx hn
  exact ⟨m, hm, hseq, hbody ▸ hx⟩

/-! ## The logic server -/

section Server

variable {rest packs : List Bytes} {gone : Int → Prop}

/-- The messages that the server gives numbers to are new. -/
theorem Serving.fresh (h : Serving s given) (hle : s.drawn + new.length ≤ 2 ^ 30)
    (hnumbers : new.map (·.msgSeq) = (List.range' s.drawn new.length).map seqOf) :
    ((given ++ new).map (·.msgSeq)).Nodup ∧
      ∀ m ∈ new, (∃ k < s.drawn + new.length, m.msgSeq = seqOf k) ∧
        ∀ x ∈ given, x.msgSeq ≠ m.msgSeq := by
  have hnew : ∀ m ∈ new, ∃ k, s.drawn ≤ k ∧ k < s.drawn + new.length ∧ m.msgSeq = seqOf k := by
    intro m hm
    have hin : m.msgSeq ∈ (List.range' s.drawn new.length).map seqOf :=
      hnumbers ▸ List.mem_map_of_mem hm
    obtain ⟨k, hk, hseq⟩ := List.mem_map.mp hin
    obtain ⟨hlo, hhi⟩ := List.mem_range'_1.mp hk
    exact ⟨k, hlo, hhi, hseq.symm⟩
  have hother : ∀ m ∈ new, ∀ x ∈ given, x.msgSeq ≠ m.msgSeq := by
    intro m hm x hx hsame
    obtain ⟨k, hlo, hhi, hk⟩ := hnew m hm
    obtain ⟨j, hj, hxj⟩ := h.below x hx
    have hkj := LogicServer.seqOf_inj (by omega) (by omega) (hxj.symm.trans (hsame.trans hk))
    omega
  refine ⟨?_, fun m hm => ⟨?_, hother m hm⟩⟩
  · rw [List.map_append]
    refine List.nodup_append'.mpr ⟨h.nodup, ?_, fun n hn hin => ?_⟩
    · rw [hnumbers]
      refine List.Nodup.map_on (fun j hj k hk hsame => ?_) List.nodup_range'
      obtain ⟨-, hj⟩ := List.mem_range'_1.mp hj
      obtain ⟨-, hk⟩ := List.mem_range'_1.mp hk
      exact LogicServer.seqOf_inj (by omega) (by omega) hsame
    · obtain ⟨x, hx, rfl⟩ := List.mem_map.mp hn
      obtain ⟨m, hm, hsame⟩ := List.mem_map.mp hin
      exact hother m hm x hx hsame.symm
  · obtain ⟨k, -, hhi, hk⟩ := hnew m hm
    exact ⟨k, hhi, hk⟩

/-- The server does what serves the consumer. -/
theorem Inv.serve {a : LogicServer.Step} (h : Inv s given)
    (hstep : LogicServer.step s.logic a = some st')
    (hserves : LogicServer.Serves s.index gone s.logic st' packs new)
    (hle : (s.served st' rest).drawn ≤ 2 ^ 30) (hgone : ∀ n, gone n → s.Acked n)
    (hsub : rest ⊆ s.toServer)
    (hrest : ∀ pack ∈ s.toServer, ∀ m ∈ st'.needAckMessageList, IsAckOf pack m.msgSeq →
      pack ∈ rest) : Inv (s.served st' rest) (given ++ new) := by
  have heffects := LogicServer.step_effects h.serving.linked hstep
  have hgrown : s.drawn + new.length ≤ (s.served st' rest).drawn :=
    Nat.add_le_add_left hserves.grown _
  have hnumbers := hserves.numbers s.drawn (by rw [h.serving.numbered.ackSeq, Nat.mod_mod])
  obtain ⟨hnodup, hnew⟩ := h.serving.fresh (Nat.le_trans hgrown hle) hnumbers
  have hunacked : ∀ m ∈ new, ¬ s.Acked m.msgSeq := by
    intro m hm hacked
    obtain ⟨⟨k, hk, hseq⟩, hother⟩ := hnew m hm
    obtain ⟨x, hx, hxm, -⟩ := h.handedOver (hseq ▸ isAckSeq_seqOf (by omega)) hacked
    exact hother x hx hxm
  refine ⟨h.pos, h.fits, h.asked, ⟨heffects.linked h.serving.linked,
    heffects.allProper h.serving.allProper, hserves.cap,
    LogicServer.numbered_of_step h.serving.linked h.serving.numbered hstep, hnodup,
    fun m hm => ?_, fun m hm hindex => ?_, fun m hm hindex => ?_, fun m hm hindex hacked => ?_,
    fun pack hpack => h.serving.toServer pack (hsub hpack), fun pack hpack => ?_⟩, ?_⟩
  · rcases List.mem_append.mp hm with hold | hin
    · obtain ⟨k, hk, hseq⟩ := h.serving.below m hold
      exact ⟨k, Nat.lt_of_lt_of_le hk (Nat.le_trans (Nat.le_add_right _ _) hgrown), hseq⟩
    · obtain ⟨⟨k, hk, hseq⟩, -⟩ := hnew m hin
      exact ⟨k, Nat.lt_of_lt_of_le hk hgrown, hseq⟩
  · rcases hserves.only m hm with hold | hin
    · exact List.mem_append_left _ (h.serving.pending m hold hindex)
    · exact List.mem_append_right _ hin
  · rcases List.mem_append.mp hm with hold | hin
    · rcases h.serving.kept m hold hindex with hpending | hacked
      · exact (hserves.kept m hpending hindex).imp_right (hgone _)
      · exact Or.inr hacked
    · exact Or.inl (hserves.isNew m hin)
  · rcases hserves.only m hm with hold | hin
    · obtain ⟨pack, hpack, hack⟩ := h.serving.taken m hold hindex hacked
      exact ⟨pack, hrest pack hpack m hm hack, hack⟩
    · exact absurd hacked (hunacked m hin)
  · have hitems : (s.served st' rest).onTheWay = s.onTheWay ++ packs.filter (GoesTo s.index) := by
      show st'.queueToConnect.items.filter (GoesTo s.index) = _
      rw [hserves.items, List.filter_append]
      rfl
    rw [hitems] at hpack
    rcases List.mem_append.mp hpack with hold | hin
    · exact takenAmong_mono (h.serving.onTheWay pack hold) (List.subset_append_left _ _)
    · obtain ⟨hin, hgoes⟩ := List.mem_filter.mp hin
      exact takenAmong_mono (hserves.copies pack hin (of_decide_eq_true hgoes))
        (List.subset_append_right _ _)
  · refine ⟨h.noting.sent, h.noting.fits, h.noting.iAckSeq, h.noting.seqSet, h.noting.nodup,
      fun x hx hseq => ?_, fun hopen => ?_⟩
    · obtain ⟨m, hm, hsame⟩ := h.noting.handed x hx hseq
      exact ⟨m, List.mem_append_left _ hm, hsame⟩
    · obtain ⟨unread, hstream, hunread⟩ := h.noting.reading hopen
      exact ⟨unread, hstream, fun pack hpack =>
        takenAmong_mono (hunread pack hpack) (List.subset_append_left _ _)⟩

theorem Inv.logic {a : LogicServer.Step} (h : Inv s given) (hs : s.step (.logic a) = some s')
    (hle : s'.drawn ≤ 2 ^ 30) : ∃ new, Inv s' (given ++ new) := by
  obtain ⟨_, hs⟩ | ⟨hother, hs⟩ := ite_eq_some hs
  · cases hs
  have hother := not_not.mp hother
  obtain ⟨st', hstep, rfl⟩ := Option.map_eq_some_iff.mp hs
  obtain ⟨packs, new, hserves⟩ := LogicServer.step_serves (c := s.index) h.serving.linked
    h.serving.allProper h.serving.cap h.pos (fun p hp => by subst hp; exact hother)
    (fun hdrain => by subst hdrain; exact hother) hstep
  exact ⟨new, h.serve hstep hserves hle (fun _ hn => hn.elim) (List.Subset.refl _)
    fun pack hpack _ _ _ => hpack⟩

theorem Inv.take {p : LogicServer.Package} (h : Inv s given) (hs : s.step (.take p) = some s')
    (hle : s'.drawn ≤ 2 ^ 30) : ∃ new, Inv s' (given ++ new) := by
  unfold step at hs
  dsimp only at hs
  split at hs
  · cases hs
  next pack rest htoServer =>
  obtain ⟨_, hs⟩ | ⟨hread, hs⟩ := ite_eq_some hs
  · cases hs
  obtain ⟨st', hstep, rfl⟩ := Option.map_eq_some_iff.mp hs
  have hin : pack ∈ s.toServer := htoServer ▸ List.mem_cons_self
  obtain ⟨⟨r, rfl, hrange, hpacks, hcmd⟩, hsent⟩ := h.serving.toServer pack hin
  have hhead := LogicServer.headRead_package h.fits hrange hpacks (not_not.mp hread)
  have hsub : rest ⊆ s.toServer := htoServer ▸ List.subset_cons_self _ _
  have hothers : ∀ pack ∈ s.toServer, pack ≠ r.package → pack ∈ rest := fun pack hpack hne =>
    (List.mem_cons.mp (htoServer ▸ hpack)).resolve_left hne
  rcases hcmd with hrequest | ⟨m, rfl⟩
  · obtain ⟨packs, new, hserves⟩ := LogicServer.request_serves h.serving.linked
      h.serving.allProper h.serving.cap hhead.clientIndex (hhead.cmdId.symm ▸ hrequest) hstep
    refine ⟨new, h.serve hstep hserves hle (fun _ hn => hn.elim) hsub fun pack hpack m _ hack =>
      hothers pack hpack ?_⟩
    rintro rfl
    rw [← Request.cmd_package hrange hpacks, hack.1] at hrequest
    have hnot : ¬ IsRequestCmd cmdClientAckMessage := by
      unfold LogicServer.IsRequestCmd
      decide
    exact absurd hrequest hnot
  · have hfit := Request.fits_fields (Request.getMessagePack_success hrange hpacks).2 s.index
    have hseq : ackedSeq p.body = m.ackSeq :=
      readInt_field (a := 0) [writeByte m.confirmLevel] hhead.body
        (fun f hf => hfit f (List.mem_append_right _ hf)) hrange.2
    have hlen : p.packLen ≤ p.len := by
      have hbody := hhead.bodyLen
      have hlong := p.len_ge
      rw [LogicServer.Package.bodyLen] at hbody
      rw [hhead.packLen, Request.packLen]
      omega
    have hdrawn : s.drawn ≤ 2 ^ 32 :=
      Nat.le_trans (Nat.le_trans (Nat.le_add_right _ _) hle) (by decide)
    obtain ⟨hserves, hgone⟩ := LogicServer.ack_serves (c := s.index) h.serving.cap
      (h.serving.numbered.nodup hdrawn) hhead.cmdId hlen hstep
    refine ⟨[], h.serve hstep hserves hle (fun n hn => ?_) hsub fun pack hpack m' hm' hack =>
      hothers pack hpack ?_⟩
    · rw [hn, hseq]
      exact hsent _ (isAckOf_package hrange)
    · intro heq
      rw [heq] at hack
      have hnumber : m'.msgSeq = m.ackSeq := hack.2.symm.trans (number_package hrange)
      exact hgone m' hm' (hnumber.trans hseq.symm)

end Server

/-! ## The connection -/

theorem Inv.deliver (h : Inv s given) (hs : s.step .deliver = some s') : Inv s' given := by
  obtain ⟨⟨bs, q⟩, hdequeue, rfl⟩ := Option.map_eq_some_iff.mp hs
  have hitems := BoundedFifo.dequeue_some hdequeue
  have hcap := BoundedFifo.dequeue_cap hdequeue
  have hserving := h.serving
  have hway : ∀ pack ∈ q.items, GoesTo s.index pack → TakenAmong given pack :=
    fun pack hpack hgoes => hserving.onTheWay pack (List.mem_filter.mpr
      ⟨hitems ▸ List.mem_cons_of_mem _ hpack, decide_eq_true hgoes⟩)
  refine ⟨h.pos, h.fits, h.asked, ⟨?_, ?_, hcap.trans hserving.cap, ?_, hserving.nodup,
    hserving.below, hserving.pending, hserving.kept, hserving.taken, hserving.toServer,
    fun pack hpack => ?_⟩,
    ⟨h.noting.sent, h.noting.fits, h.noting.iAckSeq, h.noting.seqSet, h.noting.nodup,
      h.noting.handed, fun hopen => ?_⟩⟩
  · obtain ⟨hunsubcribed, hsubcribed, hexchanges, hfresh⟩ := hserving.linked
    exact ⟨hunsubcribed, hsubcribed, hexchanges, hfresh⟩
  · exact ⟨hserving.allProper.stored, hserving.allProper.pending⟩
  · exact ⟨hserving.numbered.ackSeq, hserving.numbered.nodup, hserving.numbered.given⟩
  · obtain ⟨hin, hgoes⟩ := List.mem_filter.mp hpack
    exact hway pack hin (of_decide_eq_true hgoes)
  · obtain ⟨packs, hstream, hunread⟩ := h.noting.reading hopen
    by_cases hgoes : GoesTo s.index bs
    · refine ⟨packs ++ [bs], ?_, fun pack hpack => ?_⟩
      · dsimp only
        rw [if_pos hgoes, ← List.append_assoc, hstream, List.flatten_append, List.flatten_singleton]
      · rcases List.mem_append.mp hpack with hold | hnew
        · exact hunread pack hold
        · cases List.mem_singleton.mp hnew
          exact hserving.onTheWay bs (List.mem_filter.mpr
            ⟨hitems ▸ List.mem_cons_self, decide_eq_true hgoes⟩)
    · refine ⟨packs, ?_, hunread⟩
      dsimp only
      rw [if_neg hgoes, hstream]

/-! ## The consumer -/

/-- The request of a call is on its way. -/
theorem Inv.ask {call : Call} (h : Inv s given) (hrange : call.request.InRange)
    (hs : s.step (.ask call) = some s') : Inv s' given := by
  obtain ⟨_, hs⟩ | ⟨hgo, hs⟩ := ite_eq_some hs
  · cases hs
  cases hs
  obtain ⟨-, hgo⟩ := not_or.mp hgo
  obtain ⟨hopen, hret⟩ := not_or.mp hgo
  have hpacks : call.Packs := not_not.mp hret
  obtain ⟨hfrom, hnot⟩ := request_spec hrange hpacks
  have hserving := h.serving
  refine ⟨h.pos, h.fits, ?_, ⟨hserving.linked, hserving.allProper, hserving.cap,
    hserving.numbered, hserving.nodup, hserving.below, hserving.pending, hserving.kept,
    fun m hm hindex hacked => ?_, fun pack hpack => ?_, hserving.onTheWay⟩,
    ⟨h.noting.sent, h.noting.fits, h.noting.iAckSeq, h.noting.seqSet, h.noting.nodup,
      h.noting.handed, h.noting.reading⟩⟩
  · rintro _ ⟨⟩
    exact ⟨not_not.mp hopen, hpacks, hrange⟩
  · obtain ⟨pack, hpack, hof⟩ := hserving.taken m hm hindex hacked
    exact ⟨pack, List.mem_append_left _ hpack, hof⟩
  · rcases List.mem_append.mp hpack with hin | hin
    · exact hserving.toServer pack hin
    · cases List.mem_singleton.mp hin
      exact ⟨hfrom, fun n hn => absurd hn (hnot n)⟩

/-- A call sends the packages `sent`, of which `queued` are new for the server, and hands over
`got`. -/
theorem Inv.client {c' : Consumer} {sent queued : List Bytes} {got : Option (Int × Bytes)}
    {bs : Bytes} (h : Inv s given) (hsent : c'.sent = s.consumer.sent ++ sent)
    (hnew : ∀ pack ∈ sent, ∀ n, IsAckOf pack n → n ∈ c'.seqSet ∧ pack ∈ queued)
    (hqueued : ∀ pack ∈ queued, FromConsumer pack ∧ pack ∈ sent)
    (hset : c'.seqSet = (got.map Prod.fst).toList ++ s.consumer.seqSet)
    (hgot : ∀ x, got = some x → x.1 ∉ s.consumer.seqSet ∧
      (IsAckSeq x.1 → ∃ m ∈ given, m.msgSeq = x.1 ∧ m.msgBody = x.2))
    (hfits : FitsInt 4 c'.iAckSeq) (hack : c'.iAckSeq ≠ -1 → c'.iAckSeq ∈ c'.seqSet)
    (hreading : c'.bBuild = true → Reading given (c'.window ++ bs)) :
    Inv { s with
      consumer := c'
      asked := none
      toServer := s.toServer ++ queued
      toClient := bs
      handed := s.handed ++ got.toList } given := by
  have hserving := h.serving
  have hnoting := h.noting
  have hold : ∀ n ∈ s.consumer.seqSet, n ∈ c'.seqSet := fun n hn => by
    rw [hset]
    exact List.mem_append_right _ hn
  have hacked : ∀ n, (∃ pack ∈ c'.sent, IsAckOf pack n) →
      s.Acked n ∨ ∃ pack ∈ sent, IsAckOf pack n := by
    rintro n ⟨pack, hpack, hof⟩
    rw [hsent] at hpack
    exact (List.mem_append.mp hpack).imp (fun hin => ⟨pack, hin, hof⟩) fun hin => ⟨pack, hin, hof⟩
  have hkept : ∀ n, s.Acked n → ∃ pack ∈ c'.sent, IsAckOf pack n := by
    rintro n ⟨pack, hpack, hof⟩
    exact ⟨pack, hsent ▸ List.mem_append_left _ hpack, hof⟩
  refine ⟨h.pos, h.fits, nofun, ⟨hserving.linked, hserving.allProper, hserving.cap,
    hserving.numbered, hserving.nodup, hserving.below, hserving.pending,
    fun m hm hindex => (hserving.kept m hm hindex).imp_right (hkept _),
    fun m hm hindex hm' => ?_, fun pack hpack => ?_, hserving.onTheWay⟩,
    ⟨fun n hn => ?_, hfits, hack, ?_, ?_, fun x hx hseq => ?_, hreading⟩⟩
  · rcases hacked _ hm' with hbefore | ⟨pack, hpack, hof⟩
    · obtain ⟨pack, hpack, hof⟩ := hserving.taken m hm hindex hbefore
      exact ⟨pack, List.mem_append_left _ hpack, hof⟩
    · exact ⟨pack, List.mem_append_right _ (hnew pack hpack _ hof).2, hof⟩
  · rcases List.mem_append.mp hpack with hin | hin
    · obtain ⟨hfrom, hbefore⟩ := hserving.toServer pack hin
      exact ⟨hfrom, fun n hn => hkept n (hbefore n hn)⟩
    · obtain ⟨hfrom, hnow⟩ := hqueued pack hin
      exact ⟨hfrom, fun n hn => ⟨pack, hsent ▸ List.mem_append_right _ hnow, hn⟩⟩
  · rcases hacked n hn with hbefore | ⟨pack, hpack, hof⟩
    · exact hold n (hnoting.sent n hbefore)
    · exact (hnew pack hpack n hof).1
  · show ((s.handed ++ got.toList).map Prod.fst).Perm c'.seqSet
    rw [hset, List.map_append, ← Option.toList_map]
    exact (hnoting.seqSet.append_right _).trans List.perm_append_comm
  · show c'.seqSet.Nodup
    rw [hset]
    cases got with
    | none => exact hnoting.nodup
    | some x => exact List.nodup_cons.mpr ⟨(hgot x rfl).1, hnoting.nodup⟩
  · rcases List.mem_append.mp hx with hin | hin
    · exact hnoting.handed x hin hseq
    · exact (hgot x (Option.mem_toList.mp hin)).2 hseq

theorem Inv.sendConsumerAck {sendOk : Bool} (h : Inv s given)
    (hs : s.step (.sendConsumerAck sendOk) = some s') : Inv s' given := by
  obtain ⟨_, hs⟩ | ⟨hasked, hs⟩ := ite_eq_some hs
  · cases hs
  have hnoting := h.noting
  have hs' : s' = { s with
      consumer := s.consumer.sendConsumerAck (s.consumer.bBuild && sendOk)
      toServer := s.toServer ++ (s.consumer.sendConsumerAck
        (s.consumer.bBuild && sendOk)).sent.drop s.consumer.sent.length } :=
    (Option.some.inj hs).symm
  rw [hs']
  by_cases hmanual : (s.consumer.iConfirmLevel = consumerSingleAck ∨
      s.consumer.iConfirmLevel = consumerMutilAck) ∧
      s.consumer.iAckSeq ≠ -1 ∧ (s.consumer.bBuild && sendOk) = true
  · have hlevel : s.consumer.iConfirmLevel < 2 ^ 8 := by
      rcases hmanual.1 with hlevel | hlevel <;> rw [hlevel] <;> decide
    obtain ⟨hfrom, hnumber⟩ := ackPack_spec hlevel hnoting.fits
    have hnext := @Inv.client _ s given (s.consumer.sendAck s.consumer.iConfirmLevel
      s.consumer.iAckSeq) [Consumer.ackPack s.consumer.iConfirmLevel s.consumer.iAckSeq]
      [Consumer.ackPack s.consumer.iConfirmLevel s.consumer.iAckSeq] none
      s.toClient h rfl (fun pack hpack n hn => ?_) (fun pack hpack => ?_) rfl nofun hnoting.fits
      hnoting.iAckSeq hnoting.reading
    · rw [Option.toList_none, List.append_nil] at hnext
      have hdrop : (s.consumer.sendAck s.consumer.iConfirmLevel s.consumer.iAckSeq).sent.drop
          s.consumer.sent.length =
          [Consumer.ackPack s.consumer.iConfirmLevel s.consumer.iAckSeq] := List.drop_left
      have hnone : s.asked = none := Option.not_isSome_iff_eq_none.mp hasked
      rw [Consumer.sendConsumerAck, if_pos hmanual, hdrop, hnone]
      exact hnext
    · refine ⟨?_, hpack⟩
      cases List.mem_singleton.mp hpack
      exact hnumber n hn ▸ hnoting.iAckSeq hmanual.2.1
    · cases List.mem_singleton.mp hpack
      exact ⟨hfrom, hpack⟩
  · rw [Consumer.sendConsumerAck, if_neg hmanual, List.drop_length, List.append_nil]
    exact h

/-- What a call does to a consumer whose requests `calls` are sent, of which the server has `k`. -/
theorem Inv.spend {t : Consumer.Taken} {packs : List Bytes} {later : Bytes} {calls : List Call}
    {k : Nat} (h : Inv s given) (hcalls : ∀ x ∈ calls, x.request.InRange ∧ x.Packs)
    (hk : k = 0 ∨ k = calls.length) (hunread : ∀ pack ∈ packs, TakenAmong given pack)
    (hrets : t.rets = []) (hspends : Consumer.Spends (s.consumer.asked calls) packs later t) :
    Inv { s with
      consumer := t.consumer
      asked := none
      toServer := s.toServer ++ (t.consumer.sent.drop s.consumer.sent.length).drop k
      toClient := later
      handed := s.handed ++ (received s.consumer t).toList } given := by
  have hnoting := h.noting
  have hrequests : ∀ pack ∈ calls.map fun call => call.request.package,
      FromConsumer pack ∧ ∀ n, ¬ IsAckOf pack n := by
    intro pack hpack
    obtain ⟨call, hcall, rfl⟩ := List.mem_map.mp hpack
    exact request_spec (hcalls call hcall).1 (hcalls call hcall).2
  have hbehind : ∀ acks : List Bytes, ∀ pack ∈ acks,
      pack ∈ ((calls.map fun call => call.request.package) ++ acks).drop k := by
    intro acks pack hpack
    rcases hk with rfl | rfl
    · exact List.mem_append_right _ hpack
    · rw [List.drop_left' (List.length_map _)]
      exact hpack
  cases hspends with
  | other read rest hpacks hsame hstream =>
    have hsent : t.consumer.sent =
        s.consumer.sent ++ calls.map fun call => call.request.package := by
      rw [hsame]
      rfl
    have hset : t.consumer.seqSet = s.consumer.seqSet := by
      rw [hsame]
      rfl
    have hack : t.consumer.iAckSeq = s.consumer.iAckSeq := by
      rw [hsame]
      rfl
    have hnone : received s.consumer t = none := if_pos (Or.inr hset)
    rw [hsent, List.drop_left, hnone]
    refine h.client hsent (fun pack hpack n hn => absurd hn ((hrequests pack hpack).2 n))
      (fun pack hpack => ?_) hset nofun (hack ▸ hnoting.fits) ?_ fun hopen => ?_
    · have hin := List.mem_of_mem_drop hpack
      exact ⟨(hrequests pack hin).1, hin⟩
    · rw [hack, hset]
      exact hnoting.iAckSeq
    · obtain ⟨-, hwindow⟩ := hstream hopen
      rw [hrets] at hwindow
      exact ⟨rest, hwindow, fun pack hpack =>
        hunread pack (hpacks ▸ List.mem_append_right _ hpack)⟩
  | message pack rest level seq body window hpacks htaken hnotes hlen hbuffer hstream =>
    have hgot : received s.consumer t = none ∧ t.consumer.seqSet = s.consumer.seqSet ∨
        received s.consumer t = some (seq, body) ∧
          t.consumer.seqSet = seq :: s.consumer.seqSet ∧ seq ∉ s.consumer.seqSet := by
      rcases hnotes.seqSet with hset | ⟨hset, hnew, hret⟩
      · exact Or.inl ⟨if_pos (Or.inr hset), hset⟩
      · have hset : t.consumer.seqSet = seq :: s.consumer.seqSet := hset
        have hret : t.ret = Client.success := hret
        have hne : t.consumer.seqSet ≠ s.consumer.seqSet := by
          rw [hset]
          exact List.cons_ne_self _ _
        refine Or.inr ⟨?_, hset, hnew⟩
        rw [received, if_neg (not_or.mpr ⟨not_not.mpr hret, hne⟩), hset, hlen, Int.toNat_natCast,
          hbuffer]
        rfl
    have hset : t.consumer.seqSet =
        ((received s.consumer t).map Prod.fst).toList ++ s.consumer.seqSet := by
      rcases hgot with ⟨hnone, hset⟩ | ⟨hsome, hset, -⟩
      · rw [hnone, hset]
        rfl
      · rw [hsome, hset]
        rfl
    have hold : ∀ n ∈ s.consumer.seqSet, n ∈ t.consumer.seqSet := fun n hn => by
      rw [hset]
      exact List.mem_append_right _ hn
    obtain ⟨acks, hsent, hnew⟩ : ∃ acks, t.consumer.sent =
        s.consumer.sent ++ ((calls.map fun call => call.request.package) ++ acks) ∧
        ∀ pack ∈ acks, FromConsumer pack ∧ ∀ n, IsAckOf pack n → n ∈ t.consumer.seqSet := by
      rcases hnotes.sent with hsent | ⟨hsent, hin⟩
      · exact ⟨[], hsent.trans (List.append_nil _ ▸ rfl), nofun⟩
      · obtain ⟨hfrom, hnumber⟩ := ackPack_spec htaken.level_lt htaken.seq_fits
        refine ⟨[Consumer.ackPack level seq], hsent.trans (List.append_assoc _ _ _),
          fun pack hpack => ?_⟩
        cases List.mem_singleton.mp hpack
        exact ⟨hfrom, fun n hn => hnumber n hn ▸ hin⟩
    rw [hsent, List.drop_left]
    refine h.client hsent (fun pack hpack n hn => ?_) (fun pack hpack => ?_) hset
      (fun x hx => ?_) ?_ (fun hne => ?_) fun hopen => ?_
    · rcases List.mem_append.mp hpack with hin | hin
      · exact absurd hn ((hrequests pack hin).2 n)
      · exact ⟨(hnew pack hin).2 n hn, hbehind acks pack hin⟩
    · have hin := List.mem_of_mem_drop hpack
      refine ⟨?_, hin⟩
      rcases List.mem_append.mp hin with hin | hin
      · exact (hrequests pack hin).1
      · exact (hnew pack hin).1
    · rcases hgot with ⟨hnone, -⟩ | ⟨hsome, -, hfresh⟩
      · rw [hnone] at hx
        cases hx
      · cases hsome.symm.trans hx
        refine ⟨hfresh, fun hseq => ?_⟩
        obtain ⟨_, _, _, htaken', hamong⟩ := hunread pack (hpacks ▸ List.mem_cons_self)
        obtain ⟨rfl, rfl⟩ := htaken.unique htaken'
        exact hamong hseq
    · rcases hnotes.iAckSeq with hack | ⟨hack, -⟩
      · exact hack.symm ▸ hnoting.fits
      · exact hack.symm ▸ htaken.seq_fits
    · rcases hnotes.iAckSeq with hack | ⟨hack, hin⟩
      · have hack : t.consumer.iAckSeq = s.consumer.iAckSeq := hack
        rw [hack] at hne ⊢
        exact hold _ (hnoting.iAckSeq hne)
      · have hack : t.consumer.iAckSeq = seq := hack
        rw [hack]
        exact hin
    · obtain ⟨-, hwindow⟩ := hstream hopen
      rw [hrets] at hwindow
      exact ⟨rest, hwindow, fun b hb => hunread b (hpacks ▸ List.mem_cons_of_mem _ hb)⟩

theorem Inv.finish {call : ConsumerCall} {rets : List RecvRet} {sendOk ackOk : Bool}
    {opBuffer : Mem} {iopLen : Int} (h : Inv s given)
    (hrange : ∀ x, call = .request x → x.request.InRange)
    (hasked : ∀ x, s.asked = some x → call = .request x ∧ sendOk = true)
    (hs : s.finish call rets sendOk ackOk opBuffer iopLen = some s') : Inv s' given := by
  obtain ⟨_, hs⟩ | ⟨harrived, hs⟩ := ite_eq_some hs
  · cases hs
  obtain ⟨later, hlater⟩ := not_not.mp harrived
  obtain ⟨t, hattempt, hs⟩ := Option.bind_eq_some_iff.mp hs
  obtain ⟨_, hs⟩ | ⟨hrets, hs⟩ := ite_eq_some hs
  · cases hs
  cases hs
  rw [← hlater, List.drop_left]
  obtain ⟨packs, hstream, hunread⟩ : ∃ packs : List Bytes,
      (s.consumer.bBuild = true →
        s.consumer.window ++ (arriving rets ++ later) = packs.flatten) ∧
      ∀ pack ∈ packs, TakenAmong given pack := by
    by_cases hopen : s.consumer.bBuild = true
    · obtain ⟨packs, hstream, hunread⟩ := h.noting.reading hopen
      exact ⟨packs, fun _ => hlater.symm ▸ hstream, hunread⟩
    · exact ⟨[], fun hbuild => absurd hbuild hopen, fun _ hpack => nomatch hpack⟩
  obtain ⟨calls, hasks, hcalls, hspends⟩ := Consumer.attempt_spends (fun pack hpack => by
    obtain ⟨level, seq, body, htaken, -⟩ := hunread pack hpack
    exact ⟨level, seq, body, htaken⟩) hstream hattempt
  refine h.spend (fun x hx => ⟨hrange x (hcalls x hx).1, (hcalls x hx).2⟩) ?_ hunread
    (not_not.mp hrets) hspends
  cases hwaits : s.asked with
  | none => exact Or.inl rfl
  | some x =>
    obtain ⟨rfl, hsend⟩ := hasked x hwaits
    obtain ⟨hopen, hpacks, -⟩ := h.asked x hwaits
    obtain ⟨rfl, -⟩ | ⟨-, hnot⟩ := hasks x (List.mem_singleton_self x)
    · exact Or.inr rfl
    · exact absurd ⟨hopen, hpacks, hsend⟩ hnot

theorem Inv.answer {rets : List RecvRet} {ackOk : Bool} {opBuffer : Mem} {iopLen : Int}
    (h : Inv s given) (hs : s.step (.answer rets ackOk opBuffer iopLen) = some s') :
    Inv s' given := by
  unfold step at hs
  dsimp only at hs
  split at hs
  · cases hs
  next call hasked =>
  refine h.finish (fun x hx => ?_) (fun x hx => ?_) hs
  · cases hx
    exact (h.asked call hasked).2.2
  · cases hasked.symm.trans hx
    exact ⟨rfl, rfl⟩

theorem Inv.attempt {call : ConsumerCall} {rets : List RecvRet} {sendOk ackOk : Bool}
    {opBuffer : Mem} {iopLen : Int} (h : Inv s given)
    (hrange : (Step.attempt call rets sendOk ackOk opBuffer iopLen).InRange)
    (hs : s.step (.attempt call rets sendOk ackOk opBuffer iopLen) = some s') : Inv s' given := by
  obtain ⟨_, hs⟩ | ⟨hasked, hs⟩ := ite_eq_some hs
  · cases hs
  refine h.finish (fun x hx => ?_) (fun x hx => ?_) hs
  · subst hx
    exact hrange
  · rw [Option.not_isSome_iff_eq_none.mp hasked] at hx
    cases hx

/-! ## Runs -/

theorem step_grows {a : Step} (hs : s.step a = some s') :
    s'.index = s.index ∧ s.drawn ≤ s'.drawn := by
  have hfinish : ∀ {call : ConsumerCall} {rets : List RecvRet} {sendOk ackOk : Bool}
      {opBuffer : Mem} {iopLen : Int}, s.finish call rets sendOk ackOk opBuffer iopLen = some s' →
      s'.index = s.index ∧ s.drawn ≤ s'.drawn := by
    intro call rets sendOk ackOk opBuffer iopLen hs
    obtain ⟨_, hs⟩ | ⟨_, hs⟩ := ite_eq_some hs
    · cases hs
    obtain ⟨t, _, hs⟩ := Option.bind_eq_some_iff.mp hs
    obtain ⟨_, hs⟩ | ⟨_, hs⟩ := ite_eq_some hs <;> cases hs
    exact ⟨rfl, le_rfl⟩
  cases a with
  | ask =>
    obtain ⟨_, hs⟩ | ⟨_, hs⟩ := ite_eq_some hs <;> cases hs
    exact ⟨rfl, le_rfl⟩
  | answer =>
    unfold step at hs
    dsimp only at hs
    split at hs
    · cases hs
    · exact hfinish hs
  | attempt =>
    obtain ⟨_, hs⟩ | ⟨_, hs⟩ := ite_eq_some hs
    · cases hs
    · exact hfinish hs
  | sendConsumerAck =>
    obtain ⟨_, hs⟩ | ⟨_, hs⟩ := ite_eq_some hs <;> cases hs
    exact ⟨rfl, le_rfl⟩
  | take =>
    unfold step at hs
    dsimp only at hs
    split at hs
    · cases hs
    · obtain ⟨_, hs⟩ | ⟨_, hs⟩ := ite_eq_some hs
      · cases hs
      · obtain ⟨st', _, rfl⟩ := Option.map_eq_some_iff.mp hs
        exact ⟨rfl, Nat.le_add_right _ _⟩
  | logic =>
    obtain ⟨_, hs⟩ | ⟨_, hs⟩ := ite_eq_some hs
    · cases hs
    · obtain ⟨st', _, rfl⟩ := Option.map_eq_some_iff.mp hs
      exact ⟨rfl, Nat.le_add_right _ _⟩
  | deliver =>
    obtain ⟨_, _, rfl⟩ := Option.map_eq_some_iff.mp hs
    exact ⟨rfl, le_rfl⟩

theorem run_grows {as : List Step} (hrun : run s as = some s') :
    s'.index = s.index ∧ s.drawn ≤ s'.drawn := by
  refine @Runs.invariant_of_step _ _ _ (fun x => x.index = s.index ∧ s.drawn ≤ x.drawn)
    (fun x a y hx hs => ?_) _ _ _ ⟨rfl, le_rfl⟩ hrun
  obtain ⟨hindex, hdrawn⟩ := step_grows hs
  exact ⟨hindex.trans hx.1, hx.2.trans hdrawn⟩

theorem Inv.step {a : Step} (h : Inv s given) (hrange : a.InRange) (hs : s.step a = some s')
    (hle : s'.drawn ≤ 2 ^ 30) : ∃ new, Inv s' (given ++ new) := by
  have hclient : Inv s' given → ∃ new, Inv s' (given ++ new) :=
    fun hnext => ⟨[], (List.append_nil given).symm ▸ hnext⟩
  cases a with
  | ask => exact hclient (h.ask hrange hs)
  | answer => exact hclient (h.answer hs)
  | attempt => exact hclient (h.attempt hrange hs)
  | sendConsumerAck => exact hclient (h.sendConsumerAck hs)
  | take => exact h.take hs hle
  | logic => exact h.logic hs hle
  | deliver => exact hclient (h.deliver hs)

theorem Inv.run {as : List Step} (h : Inv s given) (hrange : ∀ a ∈ as, a.InRange)
    (hrun : run s as = some s') (hle : s'.drawn ≤ 2 ^ 30) : ∃ new, Inv s' (given ++ new) := by
  induction as generalizing s given with
  | nil =>
    cases hrun
    exact ⟨[], (List.append_nil given).symm ▸ h⟩
  | cons a as ih =>
    obtain ⟨s₁, hs, hrest⟩ := Runs.run_cons_some hrun
    have hle₁ := Nat.le_trans (run_grows hrest).2 hle
    obtain ⟨new, hnext⟩ := h.step (hrange a List.mem_cons_self) hs hle₁
    obtain ⟨later, hlast⟩ := ih hnext (fun b hb => hrange b (List.mem_cons_of_mem _ hb)) hrest
    exact ⟨new ++ later, List.append_assoc _ _ _ ▸ hlast⟩

/-- The logic server, which has given so many numbers, knows nothing of the connection yet, and its
channel does not fill up. -/
structure NewTo (st : LogicServer) (index : Int) (drawn : Nat) : Prop where
  reached : ∃ capConnect capPersis as,
    LogicServer.run (LogicServer.start capConnect capPersis) as = some st ∧
      (LogicServer.start capConnect capPersis).drawnDuring as = drawn
  cap : st.queueToConnect.cap = none
  pending : ∀ m ∈ st.needAckMessageList, m.index ≠ index
  sent : ∀ pack ∈ st.queueToConnect.items, ¬ GoesTo index pack

theorem sound_of_run {capConnect capPersis : Option Nat} {as : List LogicServer.Step}
    {st : LogicServer}
    (hrun : LogicServer.run (LogicServer.start capConnect capPersis) as = some st) :
    Linked st ∧ AllProper st := by
  refine @Runs.invariant_of_step _ _ LogicServer.step (fun st => Linked st ∧ AllProper st)
    (fun st a st' hi hs => ?_) _ _ _ ?_ hrun
  · have heffects := LogicServer.step_effects hi.1 hs
    exact ⟨heffects.linked hi.1, heffects.allProper hi.2⟩
  · exact ⟨LogicServer.linked_start _ _, LogicServer.allProper_start _ _⟩

theorem inv_start {index : Int} {drawn : Nat} {st : LogicServer} (hpos : 0 < index)
    (hfits : FitsInt 4 index) (h : NewTo st index drawn) : Inv (start index drawn st) [] := by
  obtain ⟨capConnect, capPersis, as, hrun, hdrawn⟩ := h.reached
  obtain ⟨hlinked, hall⟩ := sound_of_run hrun
  have hnone : Numbered 0 (LogicServer.start capConnect capPersis) :=
    ⟨rfl, fun _ => List.nodup_nil, fun _ m hm => nomatch hm⟩
  have hfitsNone : FitsInt 4 (-1) := by decide
  have hnumbered := LogicServer.numbered_of_run (LogicServer.linked_start _ _) hnone hrun
  rw [Nat.zero_add, hdrawn] at hnumbered
  refine ⟨hpos, hfits, nofun, ⟨hlinked, hall, h.cap, hnumbered, List.nodup_nil, nofun,
    fun m hm hindex => absurd hindex (h.pending m hm), nofun,
    fun m hm hindex => absurd hindex (h.pending m hm), nofun, fun pack hpack => ?_⟩,
    ⟨?_, hfitsNone, fun hne => absurd rfl hne, List.Perm.nil, List.nodup_nil, nofun,
      fun _ => ⟨[], rfl, nofun⟩⟩⟩
  · obtain ⟨hin, hgoes⟩ := List.mem_filter.mp hpack
    exact absurd (of_decide_eq_true hgoes) (h.sent pack hin)
  · rintro n ⟨pack, hpack, -⟩
    cases hpack

/-- Each message that waits for an acknowledgement of the consumer goes on waiting until the
consumer has sent one.  A call has returned the message by then, with its body, and no number is
returned twice.  When the server has taken all that the consumer has sent, the messages left are
those that are not acknowledged. -/
theorem pending_until_acknowledged {index : Int} {drawn : Nat} {st₀ : LogicServer}
    {as bs : List Step} (hpos : 0 < index) (hfits : FitsInt 4 index)
    (hnew : NewTo st₀ index drawn) (hrange : ∀ a ∈ as ++ bs, a.InRange)
    (hrun : run (start index drawn st₀) as = some s) (hlater : run s bs = some s')
    (hle : s'.drawn ≤ 2 ^ 30) :
    (s'.handed.map Prod.fst).Nodup ∧
      ∀ m ∈ s.logic.needAckMessageList, m.index = index →
        (m ∈ s'.logic.needAckMessageList ∨ s'.Acked m.msgSeq) ∧
        (s'.Acked m.msgSeq → (m.msgSeq, m.msgBody) ∈ s'.handed) ∧
        (s'.toServer = [] → (m ∈ s'.logic.needAckMessageList ↔ ¬ s'.Acked m.msgSeq)) := by
  obtain ⟨hindex, -⟩ := run_grows hrun
  obtain ⟨hindex', hdrawn⟩ := run_grows hlater
  obtain ⟨given, hinv⟩ := (inv_start hpos hfits hnew).run
    (fun a ha => hrange a (List.mem_append_left _ ha)) hrun (hdrawn.trans hle)
  rw [List.nil_append] at hinv
  obtain ⟨new, hinv'⟩ := hinv.run (fun a ha => hrange a (List.mem_append_right _ ha)) hlater hle
  refine ⟨hinv'.noting.seqSet.nodup_iff.mpr hinv'.noting.nodup, fun m hm hmindex => ?_⟩
  have hindex : s.index = index := hindex
  have hgiven : m ∈ given ++ new :=
    List.mem_append_left _ (hinv.serving.pending m hm (hmindex.trans hindex.symm))
  have hmindex' : m.index = s'.index := hmindex.trans (hindex'.trans hindex).symm
  have hkept := hinv'.serving.kept m hgiven hmindex'
  refine ⟨hkept, fun hacked => ?_, fun hempty => ⟨fun hpending hacked => ?_, fun hnot => ?_⟩⟩
  · obtain ⟨k, hk, hseq⟩ := hinv'.serving.below m hgiven
    obtain ⟨x, hx, hxm, hhanded⟩ :=
      hinv'.handedOver (hseq ▸ isAckSeq_seqOf (Nat.lt_of_lt_of_le hk hle)) hacked
    have hsame : x = m := List.inj_on_of_nodup_map hinv'.serving.nodup hx hgiven hxm
    rwa [hsame] at hhanded
  · obtain ⟨pack, hpack, -⟩ := hinv'.serving.taken m hpending hmindex' hacked
    rw [hempty] at hpack
    cases hpack
  · exact hkept.resolve_right hnot

end Consumption

end Model

namespace Consumption

section Witness

attribute [local instance] Platform.plain

/-- The reply to a subscription. -/
def replyBytes : Bytes :=
  image [writeUShort 44, writeInt 12, writeUShort cmdServerReplyMessage, writeBool true,
    ⟨LogicServer.reSubscribeSucceed ++ ascii "q", 35⟩]

/-- The message that is pushed. -/
def messageBytes : Bytes :=
  image [writeUShort 18, writeInt 12, writeUShort cmdServerPushMessage, writeByte consumerAutoAck,
    writeInt 0, writeBody (ascii "hello")]

/-- Client 3 publishes "hello", and client 12 subscribes to the queue. -/
def subscribed : List Step :=
  LogicServer.setUp.map .logic ++ [.logic (.publish 3 false 0 0), .deliver, .deliver, .deliver,
    .ask (.createSubscribe (ascii "q") consumerAutoAck),
    .take (.ofBody cmdCreateSubcribe 12 (image [writeName (ascii "q"), writeByte consumerAutoAck])
      (by decide)),
    .deliver, .answer [.recvd replyBytes] true zeroed 0, .logic .pushMessage]

/-- It consumes the message. -/
def consumed : List Step :=
  [.deliver, .attempt .consumeMessage [.recvd messageBytes] true true zeroed 0,
    .take (.ofBody cmdClientAckMessage 12 (image [writeByte consumerAutoAck, writeInt 0])
      (by decide))]

theorem pending_until_acknowledged_hello :
    ∃ s s', run (start 12 0 (LogicServer.start none none)) subscribed = some s ∧
      run s consumed = some s' ∧ (∃ m ∈ s.logic.needAckMessageList, m.index = 12) ∧
      s'.logic.needAckMessageList = [] ∧ s'.Acked 0 ∧ (0, ascii "hello") ∈ s'.handed := by
  have hpending : (run (start 12 0 (LogicServer.start none none)) subscribed).map
      (fun s => s.logic.needAckMessageList.map fun m => (m.index, m.msgSeq, m.msgBody)) =
        some [(12, 0, ascii "hello")] := by decide +kernel
  have htaken : (run (start 12 0 (LogicServer.start none none)) (subscribed ++ consumed)).map
      (fun s => decide (s.logic.needAckMessageList.length = 0 ∧ s.toServer = [] ∧
        s.drawn ≤ 2 ^ 30)) = some true := by decide +kernel
  obtain ⟨s', hrun, hprops⟩ := Option.map_eq_some_iff.mp htaken
  obtain ⟨hlength, hempty, hdrawn⟩ := of_decide_eq_true hprops
  obtain ⟨s, hrun, hlater⟩ := Runs.run_append_some hrun
  obtain ⟨s₁, hrun₁, hlist⟩ := Option.map_eq_some_iff.mp hpending
  cases hrun₁.symm.trans hrun
  obtain ⟨m, hm, hsame⟩ := List.mem_map.mp (hlist.symm ▸ List.mem_singleton_self _ :
    (12, 0, ascii "hello") ∈ s.logic.needAckMessageList.map
      fun m => (m.index, m.msgSeq, m.msgBody))
  obtain ⟨hindex, hrest⟩ := Prod.mk.inj hsame
  obtain ⟨hseq, hbody⟩ := Prod.mk.inj hrest
  have hnew : NewTo (LogicServer.start none none) 12 0 :=
    ⟨⟨none, none, [], rfl, rfl⟩, rfl, nofun, nofun⟩
  have hrange : ∀ a ∈ subscribed ++ consumed, a.InRange := by
    simp [subscribed, consumed, LogicServer.setUp, Step.InRange, Call.request, Request.InRange]
    decide
  obtain ⟨-, hall⟩ := pending_until_acknowledged (by decide) (by decide) hnew hrange hrun hlater
    hdrawn
  obtain ⟨-, hhanded, hiff⟩ := hall m hm hindex
  have hgone : m ∉ s'.logic.needAckMessageList := by
    rw [List.length_eq_zero_iff.mp hlength]
    exact List.not_mem_nil
  have hacked : s'.Acked m.msgSeq := by
    by_contra hnot
    exact hgone ((hiff hempty).mpr hnot)
  have hin := hhanded hacked
  rw [hseq, hbody] at hin
  rw [hseq] at hacked
  exact ⟨s, s', hrun, hlater, ⟨m, hm, hindex⟩, List.length_eq_zero_iff.mp hlength, hacked, hin⟩

end Witness

end Consumption

end Wsmq
