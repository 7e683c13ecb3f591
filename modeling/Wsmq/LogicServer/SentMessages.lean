import Wsmq.LogicServer.Outgoing
import Wsmq.LogicServer.PublishAck

/-!
# The messages that a run sends

Only `PushMessage` and pulling put messages into `LOGIC_TO_CONNECT`.  Along a run the messages
have ever larger numbers, as long as none goes out without a number and with a level.
-/

namespace Wsmq.LogicServer
open Lib Lib.ByteString Lib.Packing Processes

section

variable [Platform] {st st' st'' : LogicServer}

/-! ## Handlers that send no message -/

/-- Nothing but packages without a message has gone out. -/
structure Quiet (st st' : LogicServer) : Prop where
  cap : st'.queueToConnect.cap = st.queueToConnect.cap
  sent : ∃ packs, st'.queueToConnect.items = st.queueToConnect.items ++ packs ∧
    ∀ pack ∈ packs, ¬ CarriesMessage pack

namespace Quiet

theorem of_connect (h : st'.queueToConnect = st.queueToConnect) : Quiet st st' := by
  refine ⟨by rw [h], [], ?_, fun _ hpack => nomatch hpack⟩
  rw [h, List.append_nil]

theorem refl (st : LogicServer) : Quiet st st := .of_connect rfl

theorem trans (h : Quiet st st') (h' : Quiet st' st'') : Quiet st st'' := by
  obtain ⟨packs, hitems, hpacks⟩ := h.sent
  obtain ⟨packs', hitems', hpacks'⟩ := h'.sent
  refine ⟨h'.cap.trans h.cap, packs ++ packs', ?_, fun pack hpack => ?_⟩
  · rw [hitems', hitems, List.append_assoc]
  · exact (List.mem_append.mp hpack).elim (hpacks pack) (hpacks' pack)

/-- What concerns nobody is too short for a message. -/
theorem of_concerns (h : Concerns (fun _ => False) st st') : Quiet st st' := by
  obtain ⟨packs, hitems, hpacks⟩ := h.sent
  exact ⟨h.cap, packs, hitems, fun pack hpack hmsg => hpacks pack hpack hmsg.1⟩

theorem enqueueConnect {bs : Bytes} (h : ¬ CarriesMessage bs) :
    Quiet st (st.enqueueConnect bs).2 := by
  refine ⟨ShmQueue.Fifo.call_enqueue_cap _ _, ?_⟩
  by_cases hfits : Lib.Fifo.Fits st.queueToConnect.cap
      (Lib.Fifo.total ShmQueue.blockCost st.queueToConnect.items + ShmQueue.blockCost bs)
  · refine ⟨[bs], (ShmQueue.Fifo.call_enqueue_of_fits hfits).2.2, fun pack hpack => ?_⟩
    rwa [List.mem_singleton.mp hpack]
  · refine ⟨[], ?_, fun _ hpack => nomatch hpack⟩
    rw [List.append_nil]
    exact congrArg Lib.Fifo.BoundedFifo.items (ShmQueue.Fifo.call_enqueue_of_not_fits hfits).2

end Quiet

omit [Platform] in
/-- An encoder writes its command, or there was no room and the buffer is empty. -/
theorem not_carriesMessage_pack {iopBuffLen iIndex : Int} {iMsgLen iCmdId : Nat}
    {rest : List Field} (hf : ∀ f ∈ packHead iMsgLen iIndex iCmdId ++ rest, f.Fits)
    (hcmd : cmdServerPushMessage < iCmdId) (hlt : iCmdId < 2 ^ 16) :
    ¬ CarriesMessage
      (pack zeroed iopBuffLen iMsgLen (packHead iMsgLen iIndex iCmdId ++ rest)).sent := by
  have hread : ∀ (m : Mem) (n : Nat), 8 ≤ n →
      readUShort (Mem.ofBytes (m.read 0 n)) 6 = readUShort m 6 := by
    intro m n hn
    rw [readUShort, readUShort, Mem.read_ofBytes_read m 0 hn]
  rintro ⟨hlen, hmsg⟩
  rw [Packed.sent, Mem.read_length] at hlen
  rw [Packed.sent, hread _ _ hlen, pack] at hmsg
  split at hmsg
  · have hempty : readUShort zeroed 6 = 0 := by decide
    dsimp only at hmsg
    rw [hempty] at hmsg
    exact absurd hmsg (by decide)
  · have hholds : Holds (place zeroed 0 (packHead iMsgLen iIndex iCmdId ++ rest)) 0
        (image (packHead iMsgLen iIndex iCmdId ++ rest)) := by
      rw [Holds, image_length hf]
      exact read_place hf fun _ _ => rfl
    have hvalue := readUShort_field [writeUShort iMsgLen, writeInt iIndex] hholds hf hlt
    dsimp only at hmsg
    rw [show (6 : Nat) = 0 + size [writeUShort iMsgLen, writeInt iIndex] from rfl, hvalue] at hmsg
    rcases hmsg with hmsg | hmsg
    · rw [hmsg] at hcmd
      exact absurd hcmd (by decide)
    · rw [hmsg] at hcmd
      exact absurd hcmd (by decide)

theorem quiet_sendServerAck (oMsg : ServerAckMessage) : Quiet st (st.sendServerAck oMsg) :=
  .enqueueConnect (not_carriesMessage_pack oMsg.fits (by decide) (by decide))

theorem quiet_reply (o : Outcome) (c : Int) : Quiet o.server (reply o c) := by
  unfold reply
  split
  · exact .refl _
  · exact .enqueueConnect
      (not_carriesMessage_pack (ActReplyMessage.fits _) (by decide) (by decide))

theorem quiet_onPublishMessage {buf : Mem} {iLen : Nat} {c : Int} {o : Outcome}
    (h : st.onPublishMessage buf iLen c = some o) : Quiet st o.server := by
  obtain ⟨p, _, h⟩ := Option.bind_eq_some_iff.mp h
  rcases ite_eq_some h with ⟨_, h⟩ | ⟨_, h⟩
  · cases h
    exact quiet_sendServerAck _
  rcases ite_eq_some h with ⟨_, h⟩ | ⟨_, h⟩
  · cases h
    exact .refl st
  rcases ite_eq_some h with ⟨_, h⟩ | ⟨_, h⟩
  · cases h
    exact .refl st
  rcases ite_eq_some h with ⟨_, h⟩ | ⟨_, h⟩
  · cases h
  · obtain ⟨st₁, hstore, rfl⟩ := Option.map_eq_some_iff.mp h
    refine (Quiet.of_connect (storeMessages_connect _ hstore)).trans ?_
    show Quiet st₁ (st₁.confirmPublish p c)
    unfold confirmPublish
    split
    · exact (quiet_sendServerAck _).trans (.of_connect (connect_insertMsgSeq _))
    · split
      · exact .of_connect (connect_insertMsgSeq _)
      · exact .refl _

theorem quiet_sendSubscribers {q : MessageQueue} {bIsCreate : Bool} {r : Int × LogicServer}
    (h : st.sendSubscribers q bIsCreate = some r) : Quiet st r.2 :=
  .of_concerns (concerns_sendSubscribers h)

theorem quiet_onCreateSubscribe {buf : Mem} {c : Int} {o : Outcome}
    (h : st.onCreateSubscribe buf c = some o) : Quiet st o.server := by
  obtain ⟨n, _, h⟩ := onCreateSubscribe_some h
  dsimp only [createSubscribe] at h
  split at h
  · cases h
    exact .refl st
  · next queue _ =>
    obtain ⟨q, hq, h⟩ := Option.bind_eq_some_iff.mp h
    obtain ⟨r, hsend, rfl⟩ := Option.map_eq_some_iff.mp h
    have hset : Quiet st (st.setQueue queue (q.addSubscribe c (readByte buf 32))) := .of_connect rfl
    refine (hset.trans (quiet_sendSubscribers hsend)).trans ?_
    split
    · exact .of_connect rfl
    · split <;> exact .of_connect rfl

theorem quiet_onCancelSubscribe {buf : Mem} {c : Int} {o : Outcome}
    (h : st.onCancelSubscribe buf c = some o) : Quiet st o.server := by
  obtain ⟨n, _, h⟩ := onCancelSubscribe_some h
  dsimp only [LogicServer.cancelSubscribe] at h
  rcases ite_eq_some h with ⟨_, h⟩ | ⟨_, h⟩
  · cases h
    exact .refl st
  · split at h
    · cases h
      exact .refl st
    · next queue _ =>
      obtain ⟨q, hq, h⟩ := Option.bind_eq_some_iff.mp h
      obtain ⟨r, hsend, rfl⟩ := Option.map_eq_some_iff.mp h
      have hset : Quiet st (st.setQueue queue (q.cancelSubscribe c)) := .of_connect rfl
      refine (hset.trans (quiet_sendSubscribers hsend)).trans ?_
      split
      · exact .of_connect rfl
      · have hqueue : r.2.queues queue = some (q.cancelSubscribe c) := by
          rw [queues_sendSubscribers hsend]
          exact if_pos rfl
        exact .of_concerns (concerns_afterCancel hqueue)

theorem quiet_dispatch {p : Package} {o : Outcome} (hcmd : p.cmdId ≠ cmdCreateRecv)
    (h : st.dispatch p = some o) : Quiet st o.server := by
  unfold dispatch at h
  rcases ite_eq_some h with ⟨_, h⟩ | ⟨_, h⟩
  · exact .of_concerns (concerns_onCreateExchange h)
  rcases ite_eq_some h with ⟨_, h⟩ | ⟨_, h⟩
  · exact .of_concerns (concerns_onCreateQueue h)
  rcases ite_eq_some h with ⟨_, h⟩ | ⟨_, h⟩
  · exact .of_concerns (concerns_onCreateBinding h)
  rcases ite_eq_some h with ⟨_, h⟩ | ⟨_, h⟩
  · exact quiet_onPublishMessage h
  rcases ite_eq_some h with ⟨hrecv, _⟩ | ⟨_, h⟩
  · exact absurd hrecv hcmd
  rcases ite_eq_some h with ⟨_, h⟩ | ⟨_, h⟩
  · exact quiet_onCreateSubscribe h
  rcases ite_eq_some h with ⟨_, h⟩ | ⟨_, h⟩
  · exact .of_concerns (concerns_onDeleteExchange h)
  rcases ite_eq_some h with ⟨_, h⟩ | ⟨_, h⟩
  · exact .of_concerns (concerns_onDeleteQueue h)
  rcases ite_eq_some h with ⟨_, h⟩ | ⟨_, h⟩
  · exact quiet_onCancelSubscribe h
  rcases ite_eq_some h with ⟨_, h⟩ | ⟨_, h⟩
  · cases h
    exact .of_concerns (concerns_onClientAck _ _ _)
  rcases ite_eq_some h with ⟨_, h⟩ | ⟨_, h⟩
  · obtain ⟨st₁, hexit, rfl⟩ := Option.map_eq_some_iff.mp h
    exact .of_concerns (concerns_onClientExit hexit)
  · cases h
    exact .refl st

/-! ## Steps -/

/-- What goes out without a number has no level.  Only a message that was sent with a level
before, and was put back when its client left, has one. -/
def SendsFresh (st : LogicServer) : Step → Prop
  | .package p => p.cmdId = cmdCreateRecv → PullsFresh st p
  | .pushMessage => ∀ e ∈ st.subcribeQueues.entries, PushesFresh st e.2
  | _ => True

instance (st : LogicServer) : (a : Step) → Decidable (SendsFresh st a)
  | .package p => inferInstanceAs (Decidable (_ → PullsFresh st p))
  | .pushMessage => inferInstanceAs (Decidable (∀ e ∈ st.subcribeQueues.entries, _))
  | .sendMultiAck | .drainConnect | .drainPersis | .rehash _ => isTrue trivial

/-- The packages that are new in `LOGIC_TO_CONNECT`. -/
def newPacks (st st' : LogicServer) : List Bytes :=
  st'.queueToConnect.items.drop st.queueToConnect.items.length

theorem newPacks_eq {packs : List Bytes}
    (h : st'.queueToConnect.items = st.queueToConnect.items ++ packs) : newPacks st st' = packs := by
  rw [newPacks, h, List.drop_left]

/-- What a step has put into the channel, and that there is still room for more. -/
structure Puts (lo hi : Nat) (st st' : LogicServer) : Prop where
  cap : st'.queueToConnect.cap = none
  packs : Emitted lo hi (newPacks st st')

theorem Quiet.puts {lo hi : Nat} (h : Quiet st st') (hcap : st.queueToConnect.cap = none)
    (hle : lo ≤ hi) : Puts lo hi st st' := by
  obtain ⟨packs, hitems, hpacks⟩ := h.sent
  refine ⟨h.cap.trans hcap, ?_⟩
  rw [newPacks_eq hitems]
  exact (Emitted.of_others lo hpacks).to_le hle

theorem Puts.of_connect {lo hi : Nat} (h : st'.queueToConnect = st.queueToConnect)
    (hcap : st.queueToConnect.cap = none) (hle : lo ≤ hi) : Puts lo hi st st' :=
  (Quiet.of_connect h).puts hcap hle

/-- The messages have the numbers that the list of pending ones has grown by. -/
theorem Draws.puts {lo : Nat} (h : Draws st st') (hq : Quiet st' st'')
    (hlist : st''.needAckMessageList = st'.needAckMessageList) (hlo : st.ackSeq = lo % 2 ^ 32) :
    Puts lo (lo + (st''.needAckMessageList.length - st.needAckMessageList.length)) st st'' := by
  obtain ⟨hcap, packs, d, hitems, hlen, -, hemitted⟩ := h
  obtain ⟨packs', hitems', hpacks'⟩ := hq.sent
  refine ⟨hq.cap.trans hcap, ?_⟩
  have hgrown : st''.needAckMessageList.length - st.needAckMessageList.length = d := by
    rw [hlist, hlen]
    exact Nat.add_sub_cancel_left _ _
  rw [hitems, List.append_assoc] at hitems'
  rw [newPacks_eq hitems', hgrown]
  refine (hemitted lo ?_).append (.of_others _ hpacks')
  rw [hlo, Nat.mod_mod]

theorem needAckMessageList_reply (o : Outcome) (c : Int) :
    (reply o c).needAckMessageList = o.server.needAckMessageList := by
  unfold reply
  split <;> rfl

theorem puts_of_step {a : Step} {lo : Nat} (hlo : st.ackSeq = lo % 2 ^ 32)
    (hall : AllProper st) (hcap : st.queueToConnect.cap = none) (hfresh : SendsFresh st a)
    (h : step st a = some st') :
    Puts lo (lo + (st'.needAckMessageList.length - st.needAckMessageList.length)) st st' := by
  have hle := Nat.le_add_right lo (st'.needAckMessageList.length - st.needAckMessageList.length)
  cases a with
  | package p =>
    obtain ⟨o, ho, rfl⟩ := Option.map_eq_some_iff.mp h
    rcases ite_eq_some ho with ⟨_, ho⟩ | ⟨_, ho⟩
    · cases ho
      exact (Quiet.refl st).puts hcap hle
    · by_cases hcmd : p.cmdId = cmdCreateRecv
      · have hdispatch : st.onRecvMessage p.body p.clientIndex = some o := by
          rw [← ho, dispatch]
          simp only [hcmd]
          rfl
        exact (onRecvMessage_draws hdispatch hcap hall (hfresh hcmd)).puts (quiet_reply o _)
          (needAckMessageList_reply o _) hlo
      · exact ((quiet_dispatch hcmd ho).trans (quiet_reply o _)).puts hcap hle
  | pushMessage =>
    exact (pushLoop_draws _ (Nat.le_refl _) h hcap hall hfresh).puts (.refl _) rfl hlo
  | sendMultiAck =>
    rcases ite_eq_some h with ⟨_, h⟩ | ⟨_, h⟩
    · cases h
      exact .of_connect rfl hcap hle
    · cases h
  | drainConnect =>
    obtain ⟨r, hr, rfl⟩ := Option.map_eq_some_iff.mp h
    have hitems := Lib.Fifo.BoundedFifo.dequeue_some hr
    refine ⟨(Lib.Fifo.BoundedFifo.dequeue_cap hr).trans hcap, ?_⟩
    have hnone : newPacks st { st with queueToConnect := r.2 } = [] := by
      apply List.drop_eq_nil_of_le
      rw [hitems]
      exact Nat.le_succ _
    rw [hnone]
    exact .nil hle
  | drainPersis =>
    obtain ⟨r, _, rfl⟩ := Option.map_eq_some_iff.mp h
    exact .of_connect rfl hcap hle
  | rehash t =>
    rcases ite_eq_some h with ⟨_, h⟩ | ⟨_, h⟩
    · cases h
      exact .of_connect rfl hcap hle
    · cases h

/-! ## Runs -/

/-- All that a run puts into `LOGIC_TO_CONNECT`, whoever reads it and when. -/
def sentDuring : LogicServer → List Step → List Bytes
  | _, [] => []
  | st, a :: as =>
    match LogicServer.step st a with
    | none => []
    | some st' => newPacks st st' ++ sentDuring st' as

theorem emitted_of_run {as : List Step} {lo : Nat} (hl : Linked st) (hn : Numbered lo st)
    (hall : AllProper st) (hcap : st.queueToConnect.cap = none)
    (hfresh : Runs.AllSteps LogicServer.step SendsFresh st as)
    (hrun : LogicServer.run st as = some st') :
    Emitted lo (lo + st.drawnDuring as) (st.sentDuring as) := by
  induction as generalizing st lo with
  | nil => exact .nil (Nat.le_refl lo)
  | cons a as ih =>
    obtain ⟨st₁, hstep, hrest⟩ := Runs.run_cons_some hrun
    have heffects := step_effects hl hstep
    have hputs := puts_of_step hn.ackSeq hall hcap hfresh.1 hstep
    have hlater := ih (heffects.linked hl) (numbered_of_step hl hn hstep) (heffects.allProper hall)
      hputs.cap (hfresh.2 st₁ hstep) hrest
    simp only [sentDuring, drawnDuring, hstep]
    rw [← Nat.add_assoc]
    exact hputs.packs.append hlater

theorem emitted_from_start {capPersis : Option Nat} {as : List Step}
    (hfresh : Runs.AllSteps LogicServer.step SendsFresh (start none capPersis) as)
    (hrun : LogicServer.run (start none capPersis) as = some st) :
    Emitted 0 ((start none capPersis).drawnDuring as) ((start none capPersis).sentDuring as) := by
  have hnumbered : Numbered 0 (start none capPersis) :=
    ⟨rfl, fun _ => List.nodup_nil, fun _ m hm => nomatch hm⟩
  have hemitted := emitted_of_run (linked_start none capPersis) hnumbered
    (allProper_start none capPersis) rfl hfresh hrun
  rwa [Nat.zero_add] at hemitted

end

end Wsmq.LogicServer
