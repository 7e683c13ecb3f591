import Wsmq.Client.Payload
import Wsmq.LogicServer.Integrity
import Wsmq.Processes.Addressing

/-!
# The messages on `LOGIC_TO_CONNECT`

A message goes out with the next acknowledgement number or with the number -1.  In the second
case its confirm level is what an earlier delivery has left in it.
-/

namespace Wsmq
open Lib Lib.ByteString Lib.Packing

/-- The command of a package that carries a message; shorter packages are dropped. -/
def CarriesMessage (pack : Bytes) : Prop :=
  sizeofClientPackageHead ≤ pack.length ∧
    (readUShort (Mem.ofBytes pack) 6 = cmdClientPullMessage ∨
      readUShort (Mem.ofBytes pack) 6 = cmdServerPushMessage)

/-- Confirm level and number in a package with a message. -/
def packLevel (pack : Bytes) : Nat := readByte (Mem.ofBytes pack) 8

def packSeq (pack : Bytes) : Int := readInt (Mem.ofBytes pack) 9

/-- A package that the client takes for a message with this level and this number. -/
structure IsMessage (pack : Bytes) (level : Nat) (seq : Int) : Prop where
  level_lt : level < 2 ^ 8
  seq_fits : FitsInt 4 seq
  pack : ∃ iCmdId body, (iCmdId = cmdClientPullMessage ∨ iCmdId = cmdServerPushMessage) ∧
    IsPack pack iCmdId (messageData level seq body)

namespace IsMessage

variable {pack : Bytes} {level : Nat} {seq : Int}

theorem holds_data {iCmdId : Nat} {data : Bytes} (h : IsPack pack iCmdId data) :
    Holds (Mem.ofBytes pack) sizeofClientPackageHead data := by
  have hdata := h.window_data (List.prefix_refl pack)
  rwa [← h.data_length] at hdata

theorem packLevel_eq (h : IsMessage pack level seq) : packLevel pack = level := by
  obtain ⟨iCmdId, body, -, hpack⟩ := h.pack
  exact readByte_field (a := sizeofClientPackageHead) [] (holds_data hpack) fits_messageData h.level_lt

theorem packSeq_eq (h : IsMessage pack level seq) : packSeq pack = seq := by
  obtain ⟨iCmdId, body, -, hpack⟩ := h.pack
  exact readInt_field (a := sizeofClientPackageHead) [writeByte level] (holds_data hpack)
    fits_messageData h.seq_fits

end IsMessage

theorem be_one_mod (n : Nat) : be 1 (n % 2 ^ 8) = be 1 n := by
  have hcell : UInt8.ofNat (n % 2 ^ 8) = UInt8.ofNat n := by
    apply UInt8.toNat_inj.mp
    simp
  simp only [be, pow_zero, Nat.div_one, hcell]

/-- The level goes into the package as a byte. -/
theorem messageData_level (level : Nat) (seq : Int) (body : Bytes) :
    messageData (level % 2 ^ 8) seq body = messageData level seq body := by
  simp only [messageData, writeByte, be_one_mod]

theorem isMessage_sent {m : SeverStoreMessage} (h : LogicServer.Proper m)
    (hseq : FitsInt 4 m.msgSeq) :
    IsMessage (m.getMessagePack zeroed maxServerPackageLength).sent (m.confirmLevel % 2 ^ 8)
      m.msgSeq := by
  obtain ⟨-, hpack⟩ := SeverStoreMessage.sent_isPack h.body h.cmdId
  refine ⟨Nat.mod_lt _ (by decide), hseq, m.cmdId, m.msgBody, h.cmdId, ?_⟩
  rwa [messageData_level]

/-! ## Numbers in the order of sending -/

/-- Packages of which those with a message have numbers from `lo` on and below `hi`, each a
larger one than the one before, or the number -1 and the level 0. -/
inductive Emitted : Nat → Nat → List Bytes → Prop
  | nil {lo hi : Nat} (hle : lo ≤ hi) : Emitted lo hi []
  | other {lo hi : Nat} {pack : Bytes} {packs : List Bytes} (h : ¬ CarriesMessage pack)
      (hrest : Emitted lo hi packs) : Emitted lo hi (pack :: packs)
  | unnumbered {lo hi : Nat} {pack : Bytes} {packs : List Bytes} (h : IsMessage pack 0 (-1))
      (hrest : Emitted lo hi packs) : Emitted lo hi (pack :: packs)
  | numbered {lo k hi level : Nat} {pack : Bytes} {packs : List Bytes} (hk : lo ≤ k)
      (h : IsMessage pack level (LogicServer.seqOf k)) (hrest : Emitted (k + 1) hi packs) :
      Emitted lo hi (pack :: packs)

namespace Emitted

variable {lo mid hi : Nat} {packs packs' : List Bytes}

theorem le (h : Emitted lo hi packs) : lo ≤ hi := by
  induction h with
  | nil hle => exact hle
  | other _ _ ih => exact ih
  | unnumbered _ _ ih => exact ih
  | numbered hk _ _ ih => exact Nat.le_trans hk (Nat.le_of_succ_le ih)

theorem from_le (h : Emitted mid hi packs) (hle : lo ≤ mid) : Emitted lo hi packs := by
  induction h with
  | nil hmid => exact .nil (Nat.le_trans hle hmid)
  | other hpack _ ih => exact .other hpack (ih hle)
  | unnumbered hpack _ ih => exact .unnumbered hpack (ih hle)
  | numbered hk hpack hrest _ => exact .numbered (Nat.le_trans hle hk) hpack hrest

theorem to_le (h : Emitted lo mid packs) (hle : mid ≤ hi) : Emitted lo hi packs := by
  induction h with
  | nil hlo => exact .nil (Nat.le_trans hlo hle)
  | other hpack _ ih => exact .other hpack (ih hle)
  | unnumbered hpack _ ih => exact .unnumbered hpack (ih hle)
  | numbered hk hpack _ ih => exact .numbered hk hpack (ih hle)

theorem append (h : Emitted lo mid packs) (h' : Emitted mid hi packs') :
    Emitted lo hi (packs ++ packs') := by
  induction h with
  | nil hle => exact h'.from_le hle
  | other hpack _ ih => exact .other hpack (ih h')
  | unnumbered hpack _ ih => exact .unnumbered hpack (ih h')
  | numbered hk hpack _ ih => exact .numbered hk hpack (ih h')

theorem of_others (n : Nat) (h : ∀ pack ∈ packs, ¬ CarriesMessage pack) : Emitted n n packs := by
  induction packs with
  | nil => exact .nil (Nat.le_refl n)
  | cons pack packs ih =>
    exact .other (h pack List.mem_cons_self) (ih fun p hp => h p (List.mem_cons_of_mem _ hp))

/-- A client gets some of the packages, in their order. -/
theorem sublist (h : Emitted lo hi packs) (hsub : packs'.Sublist packs) : Emitted lo hi packs' := by
  induction h generalizing packs' with
  | nil hle =>
    rw [List.sublist_nil.mp hsub]
    exact .nil hle
  | other hpack _ ih =>
    cases hsub with
    | cons _ hsub => exact ih hsub
    | cons_cons _ hsub => exact .other hpack (ih hsub)
  | unnumbered hpack _ ih =>
    cases hsub with
    | cons _ hsub => exact ih hsub
    | cons_cons _ hsub => exact .unnumbered hpack (ih hsub)
  | numbered hk hpack _ ih =>
    cases hsub with
    | cons _ hsub => exact (ih hsub).from_le (Nat.le_succ_of_le hk)
    | cons_cons _ hsub => exact .numbered hk hpack (ih hsub)

/-- Each message has a number of its own or no number and no level. -/
theorem mem (h : Emitted lo hi packs) {pack : Bytes} (hmem : pack ∈ packs)
    (hcarries : CarriesMessage pack) : ∃ level seq, IsMessage pack level seq ∧
      (level = 0 ∧ seq = -1 ∨ ∃ k, lo ≤ k ∧ k < hi ∧ seq = LogicServer.seqOf k) := by
  induction h with
  | nil _ => cases hmem
  | other hpack _ ih =>
    rcases List.mem_cons.mp hmem with rfl | hmem
    · exact absurd hcarries hpack
    · exact ih hmem
  | unnumbered hpack _ ih =>
    rcases List.mem_cons.mp hmem with rfl | hmem
    · exact ⟨0, -1, hpack, Or.inl ⟨rfl, rfl⟩⟩
    · exact ih hmem
  | @numbered lo n hi level p ps hn hpack hrest ih =>
    rcases List.mem_cons.mp hmem with rfl | hmem
    · exact ⟨level, _, hpack, Or.inr ⟨n, hn, hrest.le, rfl⟩⟩
    · obtain ⟨level', seq, hmsg, hseq⟩ := ih hmem
      refine ⟨level', seq, hmsg, hseq.imp_right ?_⟩
      rintro ⟨k, hlo, hhi, hk⟩
      exact ⟨k, Nat.le_trans hn (Nat.le_of_succ_le hlo), hhi, hk⟩

end Emitted

namespace LogicServer

section

variable [Platform] {st st' st'' : LogicServer} {queue : QueueId} {q q' : MessageQueue}
  {m : SeverStoreMessage}

/-! ## Messages in the server -/

/-- All messages in queues or waiting for an acknowledgement go into packages. -/
structure AllProper (st : LogicServer) : Prop where
  stored : ∀ queue q, st.queues queue = some q → ∀ m ∈ q.messages, Proper m
  pending : ∀ m ∈ st.needAckMessageList, Proper m

theorem allProper_start (capConnect capPersis : Option Nat) :
    AllProper (start capConnect capPersis) := ⟨(fun _ _ h => nomatch h), (fun _ h => nomatch h)⟩

theorem AllProper.setQueue (h : AllProper st) (hq : ∀ m ∈ q.messages, Proper m) :
    AllProper (st.setQueue queue q) := by
  refine ⟨fun i r hr => ?_, h.pending⟩
  by_cases hi : i = queue
  · have hself : (st.setQueue queue q).queues i = some q := if_pos hi
    cases hself.symm.trans hr
    exact hq
  · have hother : (st.setQueue queue q).queues i = st.queues i := if_neg hi
    exact h.stored i r (hother.symm.trans hr)

theorem AllProper.same (h : AllProper st) (hq : st.queues queue = some q)
    (hsame : SameObject q q') : AllProper (st.setQueue queue q') :=
  h.setQueue fun m hm => h.stored queue q hq m (hsame.messages ▸ hm)

theorem AllProper.popped (h : AllProper st) (hq : st.queues queue = some q)
    (hpop : MessageQueue.Popped q m q') : Proper m ∧ AllProper (st.setQueue queue q') := by
  obtain ⟨x, hx, i, rfl⟩ := hpop.taken
  have hproper := h.stored queue q hq x hx
  exact ⟨⟨hproper.body, hproper.cmdId⟩,
    h.setQueue fun y hy => h.stored queue q hq y (hpop.rest y hy)⟩

theorem Proper.of_limited (h : Proper m) (q : MessageQueue) : Proper (q.limited m) := by
  unfold MessageQueue.limited
  split
  · exact ⟨h.body, h.cmdId⟩
  · exact h

theorem mem_push {heap : MsgHeap} {x : SeverStoreMessage} {l : List SeverStoreMessage}
    (hx : x ∈ (heap.push m).items ++ l) : x = m ∨ x ∈ heap.items ++ l := by
  rcases List.mem_append.mp hx with hx | hx
  · rcases List.mem_cons.mp ((MsgHeap.items_push heap m).mem_iff.mp hx) with rfl | hx
    · exact Or.inl rfl
    · exact Or.inr (List.mem_append_left _ hx)
  · exact Or.inr (List.mem_append_right _ hx)

theorem proper_addMessage (hq : ∀ x ∈ q.messages, Proper x) (hm : Proper m) :
    ∀ x ∈ (q.addMessage m).messages, Proper x := by
  intro x hx
  unfold MessageQueue.addMessage at hx
  split at hx
  · rcases mem_push hx with rfl | hx
    · exact hm.of_limited q
    · exact hq x hx
  · rw [MessageQueue.messages, ← List.append_assoc] at hx
    rcases List.mem_append.mp hx with hx | hx
    · exact hq x hx
    · rwa [List.mem_singleton.mp hx]

theorem proper_addMessageFront (hq : ∀ x ∈ q.messages, Proper x) (hm : Proper m) :
    ∀ x ∈ (q.addMessageFront m).messages, Proper x := by
  intro x hx
  unfold MessageQueue.addMessageFront at hx
  split at hx
  · rcases mem_push hx with rfl | hx
    · exact hm.of_limited q
    · exact hq x hx
  · rcases List.mem_cons.mp (List.perm_middle.mem_iff.mp hx) with rfl | hx
    · exact hm
    · exact hq x hx

theorem allProper_of_effect {k : Kind} (h : AllProper st) (he : Effect st k st') :
    AllProper st' := by
  cases he with
  | makeQueue q hmessages _ =>
    refine ⟨fun i r hr => ?_, h.pending⟩
    by_cases hi : i = st.nextQueue
    · have hself : (st.newQueue q).queues i = some q := if_pos hi
      cases hself.symm.trans hr
      rw [hmessages]
      exact fun _ hm => nomatch hm
    · have hother : (st.newQueue q).queues i = st.queues i := if_neg hi
      exact h.stored i r (hother.symm.trans hr)
  | adjust queue q q' hq hsame _ => exact h.same hq hsame
  | resubscribe n queue q q' hq hsame _ _ => exact h.same hq hsame
  | subscribe n queue q q' hq hsame _ =>
    have hset := h.same hq hsame
    exact ⟨hset.stored, hset.pending⟩
  | clear queue q hq =>
    refine h.setQueue ?_
    rw [MessageQueue.clearMessage_messages]
    exact fun _ hm => nomatch hm
  | free queue =>
    refine ⟨fun i r hr => ?_, h.pending⟩
    by_cases hi : i = queue
    · have hgone : (st.freeQueue queue).queues i = none := if_pos hi
      cases hgone.symm.trans hr
    · have hother : (st.freeQueue queue).queues i = st.queues i := if_neg hi
      exact h.stored i r (hother.symm.trans hr)
  | store p c queue q q' pMsg hq hsame hsubs hid hproper =>
    have hset : AllProper (st.setQueue queue (q'.addMessage pMsg)) := by
      refine h.setQueue (proper_addMessage ?_ hproper)
      intro x hx
      exact h.stored queue q hq x (hsame.messages ▸ hx)
    exact ⟨hset.stored, hset.pending⟩
  | await queue q q' m m' hq hpop hid hseq hproper =>
    obtain ⟨hm, hset⟩ := h.popped hq hpop
    refine ⟨hset.stored, fun x hx => ?_⟩
    rcases List.mem_append.mp hx with hx | hx
    · exact h.pending x hx
    · rw [List.mem_singleton.mp hx]
      exact hproper hm
  | deliver queue q q' m hq hpop =>
    obtain ⟨-, hset⟩ := h.popped hq hpop
    exact ⟨hset.stored, hset.pending⟩
  | ack m l iAckSeq hperm =>
    exact ⟨h.stored, fun x hx => h.pending x (hperm.mem_iff.mpr (List.mem_cons_of_mem _ hx))⟩
  | giveBack queue q m l hq hperm =>
    have hm := h.pending m (hperm.mem_iff.mpr List.mem_cons_self)
    have hset : AllProper (st.setQueue queue (q.addMessageFront m)) :=
      h.setQueue (proper_addMessageFront (h.stored queue q hq) hm)
    exact ⟨hset.stored, fun x hx => h.pending x (hperm.mem_iff.mpr (List.mem_cons_of_mem _ hx))⟩
  | forget m l hperm =>
    exact ⟨h.stored, fun x hx => h.pending x (hperm.mem_iff.mpr (List.mem_cons_of_mem _ hx))⟩
  | arrange l hperm =>
    exact ⟨h.stored, fun x hx => h.pending x (hperm.mem_iff.mpr hx)⟩
  | _ => exact ⟨h.stored, h.pending⟩

theorem Effects.allProper {allowed : Kind → Prop} (h : Effects allowed st st')
    (hs : AllProper st) : AllProper st' :=
  h.invariant (fun _ _ _ hi _ he => allProper_of_effect hi he) hs

/-! ## Sending -/

/-- Messages have gone out, each with the next number or with no number and no level. -/
structure Draws (st st' : LogicServer) : Prop where
  cap : st'.queueToConnect.cap = none
  sent : ∃ packs d, st'.queueToConnect.items = st.queueToConnect.items ++ packs ∧
    st'.needAckMessageList.length = st.needAckMessageList.length + d ∧
    st'.ackSeq % 2 ^ 32 = (st.ackSeq + d) % 2 ^ 32 ∧
    ∀ lo, st.ackSeq % 2 ^ 32 = lo % 2 ^ 32 → Emitted lo (lo + d) packs

theorem Draws.refl (hcap : st.queueToConnect.cap = none) : Draws st st :=
  ⟨hcap, [], 0, (List.append_nil _).symm, rfl, rfl, fun lo _ => .nil (Nat.le_refl lo)⟩

theorem Draws.trans (h : Draws st st') (h' : Draws st' st'') : Draws st st'' := by
  obtain ⟨-, packs, d, hitems, hlen, hseq, hemitted⟩ := h
  obtain ⟨hcap, packs', d', hitems', hlen', hseq', hemitted'⟩ := h'
  refine ⟨hcap, packs ++ packs', d + d', ?_, ?_, ?_, fun lo hlo => ?_⟩
  · rw [hitems', hitems, List.append_assoc]
  · rw [hlen', hlen, Nat.add_assoc]
  · omega
  · have hmid : st'.ackSeq % 2 ^ 32 = (lo + d) % 2 ^ 32 := by omega
    rw [← Nat.add_assoc]
    exact (hemitted lo hlo).append (hemitted' (lo + d) hmid)

theorem enqueueConnectWait_items {bs : Bytes} (h : st.enqueueConnectWait bs = some st')
    (hcap : st.queueToConnect.cap = none) :
    st'.queueToConnect.cap = none ∧ st'.queueToConnect.items = st.queueToConnect.items ++ [bs] := by
  have hret : (st.enqueueConnect bs).1 = ShmQueue.success := ShmQueue.Fifo.call_enqueue_ret hcap bs
  rw [enqueueConnectWait, waitConnect, if_neg (by rw [hret]; decide)] at h
  cases h
  obtain ⟨-, hcap', hitems⟩ := @ShmQueue.Fifo.call_enqueue_of_fits st.queueToConnect bs
    (by simp [hcap])
  exact ⟨hcap'.trans hcap, hitems⟩

theorem ackSeqInt_eq {lo : Nat} (h : st.ackSeq % 2 ^ 32 = lo % 2 ^ 32) :
    st.ackSeqInt = seqOf lo := by
  unfold ackSeqInt seqOf
  rw [← h, Int.natCast_emod]
  exact (Int.emod_bmod _ _).symm

theorem sendAwaited_draws {iLen : Nat} (h : st.sendAwaited m iLen = some st')
    (hlen : iLen = maxServerPackageLength) (hcap : st.queueToConnect.cap = none) (hm : Proper m)
    (hseq : m.msgSeq = st.ackSeqInt) : Draws st st' := by
  unfold sendAwaited at h
  obtain ⟨hcap', hitems⟩ := enqueueConnectWait_items h hcap
  have hsame := enqueueConnectWait_some h
  refine ⟨hcap', _, 1, hitems, ?_, ?_, fun lo hlo => ?_⟩
  · rw [hsame]
    simp [pushNeedAck]
  · rw [hsame]
    exact Nat.mod_mod _ _
  · have hmsg := isMessage_sent hm (hseq ▸ fitsInt_ackSeqInt st)
    rw [hseq, ackSeqInt_eq hlo] at hmsg
    rw [hlen]
    exact .numbered (Nat.le_refl lo) hmsg (.nil (Nat.le_refl _))

omit [Platform] in
/-- A message without a number has level 0 when its last delivery left it so. -/
theorem isMessage_unnumbered (hm : Proper m) (hlevel : m.confirmLevel = 0) (hseq : m.msgSeq = -1) :
    IsMessage (m.getMessagePack zeroed maxServerPackageLength).sent 0 (-1) := by
  have hmsg := isMessage_sent hm (hseq ▸ fitsInt_neg_one)
  rwa [hlevel, hseq] at hmsg

/-- One package goes out without a number. -/
theorem draws_unnumbered {pack : Bytes} (h : IsMessage pack 0 (-1))
    (hcap : st'.queueToConnect.cap = none)
    (hitems : st'.queueToConnect.items = st.queueToConnect.items ++ [pack])
    (hlist : st'.needAckMessageList = st.needAckMessageList) (hseq : st'.ackSeq = st.ackSeq) :
    Draws st st' := by
  refine ⟨hcap, [pack], 0, hitems, by rw [hlist]; rfl, by rw [hseq]; rfl, fun lo _ => ?_⟩
  exact .unnumbered h (.nil (Nat.le_refl lo))

theorem pushOne_draws (h : st.pushOne q m = some st') (hcap : st.queueToConnect.cap = none)
    (hm : Proper m) (hlevel : q.confirmLevel = 0 → m.confirmLevel = 0) : Draws st st' := by
  unfold pushOne at h
  split at h
  · exact sendAwaited_draws h rfl hcap ⟨hm.body, Or.inr rfl⟩ (by dsimp only)
  · next hzero =>
    obtain ⟨st₁, hsend, rfl⟩ := Option.map_eq_some_iff.mp h
    obtain ⟨hcap', hitems⟩ := enqueueConnectWait_items hsend hcap
    have hsame := enqueueConnectWait_some hsend
    have hmsg := isMessage_unnumbered (m := { m with cmdId := cmdServerPushMessage, msgSeq := -1 })
      ⟨hm.body, Or.inr rfl⟩ (hlevel (Nat.eq_zero_of_not_pos hzero)) rfl
    rw [sendConsumed, sendPersis_eq]
    refine draws_unnumbered hmsg hcap' hitems ?_ ?_
    · rw [hsame]
      rfl
    · rw [hsame]
      rfl

/-- Queues have lost messages at most. -/
def Shrinks (st st' : LogicServer) : Prop :=
  ∀ queue q', st'.queues queue = some q' → ∃ q, st.queues queue = some q ∧
    q'.subscribeConsumers = q.subscribeConsumers ∧ q'.confirmLevel = q.confirmLevel ∧
    ∀ m ∈ q'.messages, m ∈ q.messages

theorem Shrinks.of_queues (h : st'.queues = st.queues) : Shrinks st st' := by
  intro queue q' hq'
  rw [h] at hq'
  exact ⟨q', hq', rfl, rfl, fun _ hm => hm⟩

theorem Shrinks.trans (h : Shrinks st st') (h' : Shrinks st' st'') : Shrinks st st'' := by
  intro queue q'' hq''
  obtain ⟨q', hq', hsubs', hlevel', hmessages'⟩ := h' queue q'' hq''
  obtain ⟨q, hq, hsubs, hlevel, hmessages⟩ := h queue q' hq'
  exact ⟨q, hq, hsubs'.trans hsubs, hlevel'.trans hlevel, fun m hm => hmessages m (hmessages' m hm)⟩

theorem Shrinks.popped (hq : st.queues queue = some q) (hpop : MessageQueue.Popped q m q') :
    Shrinks st (st.setQueue queue q') := by
  intro i r hr
  by_cases hi : i = queue
  · have hself : (st.setQueue queue q').queues i = some q' := if_pos hi
    cases hself.symm.trans hr
    exact ⟨q, hi ▸ hq, hpop.consumers, hpop.confirmLevel, hpop.rest⟩
  · have hother : (st.setQueue queue q').queues i = st.queues i := if_neg hi
    exact ⟨r, hother.symm.trans hr, rfl, rfl, fun _ hm => hm⟩

/-- What `PushMessage` sends out of the queue without a number has no level. -/
def PushesFresh (st : LogicServer) (queue : QueueId) : Prop :=
  ∀ q ∈ st.queues queue, q.isSubscribe → q.confirmLevel = 0 →
    ∀ m ∈ q.messages, m.confirmLevel = 0

instance (st : LogicServer) (queue : QueueId) : Decidable (PushesFresh st queue) :=
  inferInstanceAs (Decidable (∀ q ∈ st.queues queue, _))

theorem PushesFresh.shrinks (h : PushesFresh st queue) (hs : Shrinks st st') :
    PushesFresh st' queue := by
  intro q' hq' hsub hlevel m hm
  obtain ⟨q, hq, hsubs, hlevels, hmessages⟩ := hs queue q' hq'
  rw [MessageQueue.isSubscribe, hsubs] at hsub
  exact h q hq hsub (hlevels ▸ hlevel) m (hmessages m hm)

theorem queues_pushOne (h : st.pushOne q m = some st') : st'.queues = st.queues := by
  unfold pushOne at h
  split at h
  · rw [enqueueConnectWait_some h]
    rfl
  · obtain ⟨st₁, hsend, rfl⟩ := Option.map_eq_some_iff.mp h
    have hsame : st₁.queues = st.queues := by
      rw [enqueueConnectWait_some hsend]
    rw [sendConsumed, sendPersis_eq]
    exact hsame

/-- Every message of the queue goes out; what it holds later, it held before. -/
theorem pushQueue_draws {fuel : Nat} (h : pushQueue queue fuel st = some st')
    (hcap : st.queueToConnect.cap = none) (hall : AllProper st) (hfresh : PushesFresh st queue) :
    Draws st st' ∧ Shrinks st st' := by
  induction fuel generalizing st with
  | zero =>
    cases h
    exact ⟨.refl hcap, .of_queues rfl⟩
  | succ fuel ih =>
    simp only [pushQueue] at h
    split at h
    · cases h
    · next q hq =>
      split at h
      · cases h
        exact ⟨.refl hcap, .of_queues rfl⟩
      · next m q' hpop =>
        obtain ⟨st₁, hone, hrest⟩ := Option.bind_eq_some_iff.mp h
        have hpopped := MessageQueue.popFrontMsg_some hpop
        have hlevel : q.confirmLevel = 0 → m.confirmLevel = 0 := by
          intro hzero
          have hsub : q.isSubscribe := by
            by_contra hidle
            rw [MessageQueue.popFrontMsg, if_pos (by simpa [MessageQueue.isSubscribe] using hidle)]
              at hpop
            cases hpop
          obtain ⟨x, hx, i, rfl⟩ := hpopped.taken
          exact hfresh q hq hsub hzero x hx
        obtain ⟨hm, hset⟩ := hall.popped hq hpopped
        have hshrinks : Shrinks st st₁ :=
          (Shrinks.popped hq hpopped).trans (.of_queues (queues_pushOne hone))
        have hdraws : Draws st st₁ := by
          have hsent := pushOne_draws hone hcap hm hlevel
          exact ⟨hsent.cap, hsent.sent⟩
        have hall₁ : AllProper st₁ :=
          (@pushOne_effects _ (fun _ => True) _ _ trivial trivial _ _ _ _ hq hpopped hone).allProper
            hall
        obtain ⟨hdraws', hshrinks'⟩ := ih hrest hdraws.cap hall₁ (hfresh.shrinks hshrinks)
        exact ⟨hdraws.trans hdraws', hshrinks.trans hshrinks'⟩

/-- By induction on the number of entries left, since the loop may skip one. -/
theorem pushLoop_draws (k : Nat) {entries : List (Σ _ : Name, QueueId)} (hk : entries.length ≤ k)
    (h : pushLoop entries st = some st') (hcap : st.queueToConnect.cap = none)
    (hall : AllProper st) (hfresh : ∀ e ∈ entries, PushesFresh st e.2) : Draws st st' := by
  induction k generalizing entries st with
  | zero =>
    cases List.length_eq_zero_iff.mp (Nat.le_zero.mp hk)
    cases h
    exact .refl hcap
  | succ k ih =>
    cases entries with
    | nil =>
      cases h
      exact .refl hcap
    | cons e rest =>
      have hrest : rest.length ≤ k := Nat.le_of_succ_le_succ hk
      simp only [pushLoop] at h
      split at h
      · cases h
      · next q hq =>
        split at h
        · obtain ⟨st₁, hqueue, hloop⟩ := Option.bind_eq_some_iff.mp h
          obtain ⟨hdraws, hshrinks⟩ := pushQueue_draws hqueue hcap hall (hfresh e List.mem_cons_self)
          have hall₁ : AllProper st₁ :=
            (@pushQueue_effects _ (fun _ => True) trivial trivial _ _ _ _ hqueue).allProper hall
          refine hdraws.trans (ih hrest hloop hdraws.cap hall₁ ?_)
          intro e' he'
          exact (hfresh e' (List.mem_cons_of_mem _ he')).shrinks hshrinks
        · split at h
          · cases h
          · next e' rest' =>
            have hdraws := ih (Nat.le_of_succ_le hrest) h hcap ⟨hall.stored, hall.pending⟩ ?_
            · exact ⟨hdraws.cap, hdraws.sent⟩
            · intro e'' he''
              exact hfresh e'' (List.mem_cons_of_mem _ (List.mem_cons_of_mem _ he''))

/-- The message that `OnRecvMessage` takes out of its queue. -/
def nextPulled (st : LogicServer) (buf : Mem) : Option SeverStoreMessage :=
  (readName buf 0).bind fun strQueueName =>
    (st.findQueue strQueueName).bind fun queue =>
      (st.queues queue).bind fun q => (q.popFrontMsg false).map (·.1)

/-- What a pull without acknowledgement takes has no level. -/
def PullsFresh (st : LogicServer) (p : Package) : Prop :=
  readByte p.body 32 = 0 → ∀ m ∈ st.nextPulled p.body, m.confirmLevel = 0

instance (st : LogicServer) (p : Package) : Decidable (PullsFresh st p) :=
  inferInstanceAs (Decidable (_ → ∀ m ∈ st.nextPulled p.body, _))

theorem onRecvMessage_draws {p : Package} {c : Int} {o : Outcome}
    (h : st.onRecvMessage p.body c = some o) (hcap : st.queueToConnect.cap = none)
    (hall : AllProper st) (hfresh : PullsFresh st p) : Draws st o.server := by
  obtain ⟨n, hn, h⟩ := onRecvMessage_some h
  dsimp only [recvMessage] at h
  split at h
  · cases h
    exact .refl hcap
  · next queue hfind =>
    obtain ⟨q, hq, h⟩ := Option.bind_eq_some_iff.mp h
    split at h
    · cases h
      exact .refl hcap
    · next m q' hpop =>
      obtain ⟨st₁, hsend, rfl⟩ := Option.map_eq_some_iff.mp h
      obtain ⟨hm, -⟩ := hall.popped hq (MessageQueue.popFrontMsg_some hpop)
      unfold sendPulled at hsend
      dsimp only at hsend
      split at hsend
      · have hdraws := sendAwaited_draws hsend rfl hcap ⟨hm.body, hm.cmdId⟩ (by dsimp only)
        exact ⟨hdraws.cap, hdraws.sent⟩
      · next hzero =>
        have hnext : st.nextPulled p.body = some m := by
          simp only [nextPulled, hn, hfind, hq, hpop, Option.bind_some, Option.map_some]
        have hlevel := hfresh (Nat.eq_zero_of_not_pos hzero) m hnext
        have hmsg := isMessage_unnumbered (m := { m with index := c, msgSeq := -1 })
          ⟨hm.body, hm.cmdId⟩ hlevel rfl
        rw [sendConsumed, sendPersis_eq] at hsend
        have hsame := enqueueConnectWait_some hsend
        obtain ⟨hcap', hitems⟩ := enqueueConnectWait_items hsend hcap
        refine draws_unnumbered hmsg hcap' hitems ?_ ?_
        · rw [hsame]
          rfl
        · rw [hsame]
          rfl

end

end LogicServer

end Wsmq
