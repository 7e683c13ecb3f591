import Wsmq.LogicServer.Orders
import Wsmq.LogicServer.StepEffects

/-!
# Acknowledgements of consumers

`confirmLevel==CONSUMER_AUTO_ACK||CONSUMER_SINGLE_ACK` is true for every level.  So the loop for
a single acknowledgement runs for all of them, and this one does not look at the client.  What
`Enqueue` returns for the record of a durable message is not looked at either: with a full
channel the message goes and its record with it.
-/

namespace Wsmq
open Lib Lib.ByteString Lib.Packing Lib.Fifo

namespace LogicServer

/-! ## Removing the first match -/

section FirstOnly

variable {α : Type} (p q r : α → Bool)

/-- No element has `p`, but for the first one with `q`, which has it when there is one. -/
def FirstOnly : List α → Prop
  | [] => True
  | a :: l => if q a then p a ∧ ∀ x ∈ l, ¬ p x else ¬ p a ∧ FirstOnly l

instance : DecidablePred (FirstOnly p q) := fun l => by
  induction l with
  | nil => exact isTrue trivial
  | cons a l ih => exact inferInstanceAs (Decidable (ite _ _ _))

variable {p q r}

theorem filter_not_cons {a : α} (l : List α) (h : ¬ p a) :
    (a :: l).filter (fun x => ¬ p x) = a :: l.filter fun x => ¬ p x :=
  List.filter_cons_of_pos (by simpa using h)

theorem eraseP_eq_filter {l : List α} :
    l.eraseP q = l.filter (fun x => ¬ p x) ↔ FirstOnly p q l := by
  induction l with
  | nil => exact iff_of_true rfl trivial
  | cons a l ih =>
    unfold FirstOnly
    by_cases hq : q a
    · rw [List.eraseP_cons_of_pos hq, if_pos hq]
      constructor
      · intro h
        have hall : ∀ x ∈ l, ¬ p x := fun x hx => by
          rw [h] at hx
          exact of_decide_eq_true (List.mem_filter.mp hx).2
        refine ⟨?_, hall⟩
        by_contra ha
        have hlen := congrArg List.length h
        rw [filter_not_cons l ha, List.filter_eq_self.mpr
          fun x hx => decide_eq_true (hall x hx), List.length_cons] at hlen
        omega
      · rintro ⟨ha, hall⟩
        rw [List.filter_cons_of_neg (by simpa using ha)]
        exact (List.filter_eq_self.mpr fun x hx => decide_eq_true (hall x hx)).symm
    · rw [List.eraseP_cons_of_neg hq, if_neg hq]
      constructor
      · intro h
        have hmem : a ∈ (a :: l).filter fun x => ¬ p x := h ▸ List.mem_cons_self
        have ha : ¬ p a := of_decide_eq_true (List.mem_filter.mp hmem).2
        rw [filter_not_cons l ha] at h
        exact ⟨ha, ih.mp (List.cons.inj h).2⟩
      · rintro ⟨ha, hrest⟩
        rw [filter_not_cons l ha, ih.mpr hrest]

theorem filter_eraseP {l : List α} :
    (l.eraseP q).filter r = l.filter r ↔ ∀ a, l.find? q = some a → ¬ r a := by
  induction l with
  | nil => exact iff_of_true rfl fun a ha => nomatch ha
  | cons a l ih =>
    by_cases hq : q a
    · rw [List.eraseP_cons_of_pos hq, List.find?_cons_of_pos hq]
      constructor
      · rintro h _ ⟨⟩ hr
        have hlen := congrArg List.length h
        rw [List.filter_cons_of_pos hr, List.length_cons] at hlen
        omega
      · intro h
        rw [List.filter_cons_of_neg (h a rfl)]
    · rw [List.eraseP_cons_of_neg hq, List.find?_cons_of_neg hq, ← ih]
      by_cases hr : r a
      · rw [List.filter_cons_of_pos hr, List.filter_cons_of_pos hr]
        exact ⟨fun h => (List.cons.inj h).2, congrArg _⟩
      · rw [List.filter_cons_of_neg hr, List.filter_cons_of_neg hr]

end FirstOnly

/-! ## What an acknowledgement removes -/

section Ack

variable [Platform] (st : LogicServer) (buf : Mem) (c : Int)

/-- The level and the sequence number of an acknowledgement. -/
def ackLevel (buf : Mem) : Nat := readByte buf 0
def ackedSeq (buf : Mem) : Int := readInt buf 1

/-- What the persistence server reads in a record: the message of this queue with this index
is done with. -/
structure RecordsConsumed (m : SeverStoreMessage) (bs : Bytes) : Prop where
  own : PersistenceServer.OwnPacket bs
  cmd : PersistenceServer.packetCmd bs = cmdClientAckMessage
  queue : readName (PersistenceServer.packetBody bs) 0 = some m.queueName
  index : readInt (PersistenceServer.packetBody bs) maxNameLength = m.durableIndex

/-- The acknowledgement removes what it confirms, and a record of each durable message that
it removed is in the channel. -/
structure AcksExactly : Prop where
  single : ackLevel buf = consumerAutoAck ∨ ackLevel buf = consumerSingleAck →
    (st.onClientAck buf c).needAckMessageList =
      st.needAckMessageList.filter fun m => ¬ (m.index = c ∧ m.msgSeq = ackedSeq buf)
  batch : ackLevel buf = consumerMutilAck →
    (st.onClientAck buf c).needAckMessageList =
      st.needAckMessageList.filter fun m => ¬ (m.index = c ∧ m.msgSeq ≤ ackedSeq buf)
  others : (st.onClientAck buf c).needAckMessageList.filter (fun m => m.index ≠ c) =
    st.needAckMessageList.filter fun m => m.index ≠ c
  records : ∃ removed : List SeverStoreMessage, ∃ records : List Bytes,
    st.needAckMessageList.Perm (removed ++ (st.onClientAck buf c).needAckMessageList) ∧
      (st.onClientAck buf c).queueToPersis.items = st.queueToPersis.items ++ records ∧
      List.Forall₂ RecordsConsumed (removed.filter (·.durable)) records

/-- The cost of a record in `LOGIC_TO_PERSIS`. -/
def consumedCost : Nat := 14 + (2 + 2 + maxNameLength + 4)

/-- The record of the message fits into the channel, and its queue and index into the record. -/
structure CanRecord (st : LogicServer) (m : SeverStoreMessage) : Prop where
  name : IsName m.queueName
  index : FitsInt 4 m.durableIndex
  room : Fits st.queueToPersis.cap (total ShmQueue.blockCost st.queueToPersis.items + consumedCost)

theorem onClientAck_eq : st.onClientAck buf c = st.ackSingle (ackedSeq buf) :=
  st.onClientAck_single buf c

theorem needAck_onClientAck : (st.onClientAck buf c).needAckMessageList =
    st.needAckMessageList.eraseP fun m => m.msgSeq = ackedSeq buf := by
  rw [onClientAck_eq, ackSingle]
  split
  · next hnone =>
    have hno := List.find?_eq_none.mp hnone
    exact (List.eraseP_of_forall_not hno).symm
  · rw [dropAcked_eq]
    rfl

/-! ## The record -/

omit [Platform] in
theorem blockCost_consumed (n : Name) (iDurableIndex : Int) :
    ShmQueue.blockCost (consumePacket cmdClientAckMessage n iDurableIndex) = consumedCost := by
  rw [ShmQueue.blockCost_eq, consumePacket, Mem.read_length]
  rfl

omit [Platform] in
theorem recordsConsumed_iff (m : SeverStoreMessage) :
    RecordsConsumed m (consumePacket cmdClientAckMessage m.queueName m.durableIndex) ↔
      IsName m.queueName ∧ FitsInt 4 m.durableIndex := by
  constructor
  · rintro ⟨-, -, hqueue, hindex⟩
    exact ⟨isName_of_readName hqueue, hindex ▸ fitsInt_readInt _ _⟩
  · rintro ⟨hname, hindex⟩
    have hfits : ∀ f ∈ [writeName m.queueName, writeInt m.durableIndex], f.Fits := by
      simp [Field.Fits, writeName, writeInt, hname.short.le]
    have hsize : size [writeName m.queueName, writeInt m.durableIndex] = 36 := rfl
    have hholds := holds_ofBytes (image [writeName m.queueName, writeInt m.durableIndex])
    rw [consumePacket_form hname.short.le]
    refine ⟨PersistenceServer.ownPacket_packet ?_,
      PersistenceServer.packetCmd_packet (by decide), readName_body ?_, ?_⟩
    · rw [image_length hfits, hsize]
      decide
    · exact readName_field [] hholds hfits hname.zero hname.short
    · rw [PersistenceServer.packetBody_packet]
      simpa [size, writeName] using
        readInt_field [writeName m.queueName] hholds hfits hindex

/-- The record of a removed message is in the channel exactly when it can be made. -/
theorem dropAcked_recorded_iff (m : SeverStoreMessage) (iAckSeq : Int) :
    (∃ records, (st.dropAcked m iAckSeq).queueToPersis.items =
        st.queueToPersis.items ++ records ∧
      List.Forall₂ RecordsConsumed ([m].filter (·.durable)) records) ↔
    (m.durable = true → CanRecord st m) := by
  have hpersis : (st.dropAcked m iAckSeq).queueToPersis =
      (st.sendConsumed cmdClientAckMessage m.queueName m).queueToPersis := by
    rw [dropAcked_eq]
  rw [hpersis, sendConsumed, sendPersis]
  by_cases hdurable : m.durable = true
  swap
  · rw [if_neg hdurable, List.filter_cons_of_neg hdurable]
    exact iff_of_true ⟨[], (List.append_nil _).symm, .nil⟩ fun h => (hdurable h).elim
  rw [if_pos hdurable, List.filter_cons_of_pos hdurable, List.filter_nil]
  have hcost := blockCost_consumed m.queueName m.durableIndex
  by_cases hroom : Fits st.queueToPersis.cap
      (total ShmQueue.blockCost st.queueToPersis.items + consumedCost)
  · have hfits := hroom
    rw [← hcost] at hfits
    have hitems := (ShmQueue.Fifo.call_enqueue_of_fits hfits).2.2
    constructor
    · rintro ⟨records, hrecords, hconsumed⟩ -
      have hone := List.append_cancel_left (hitems.symm.trans hrecords)
      rw [← hone] at hconsumed
      obtain ⟨hname, hindex⟩ := (recordsConsumed_iff m).mp (List.forall₂_cons.mp hconsumed).1
      exact ⟨hname, hindex, hroom⟩
    · intro h
      obtain ⟨hname, hindex, -⟩ := h hdurable
      exact ⟨_, hitems, .cons ((recordsConsumed_iff m).mpr ⟨hname, hindex⟩) .nil⟩
  · have hfull := hroom
    rw [← hcost] at hfull
    have hsame := (ShmQueue.Fifo.call_enqueue_of_not_fits hfull).2
    refine iff_of_false ?_ fun h => hroom (h hdurable).room
    rintro ⟨records, hrecords, hconsumed⟩
    -- the full channel is as it was, so there is no record
    have hnone : records = [] := by
      rw [enqueuePersis] at hrecords
      dsimp only at hrecords
      rw [hsame] at hrecords
      exact List.append_right_eq_self.mp hrecords.symm
    rw [hnone] at hconsumed
    cases hconsumed

theorem records_onClientAck_iff : (∃ removed : List SeverStoreMessage, ∃ records : List Bytes,
    st.needAckMessageList.Perm (removed ++ (st.onClientAck buf c).needAckMessageList) ∧
      (st.onClientAck buf c).queueToPersis.items = st.queueToPersis.items ++ records ∧
      List.Forall₂ RecordsConsumed (removed.filter (·.durable)) records) ↔
    ∀ m, st.needAckMessageList.find? (fun m => m.msgSeq = ackedSeq buf) = some m →
      m.durable = true → CanRecord st m := by
  rw [needAck_onClientAck, onClientAck_eq, ackSingle]
  cases hfind : st.needAckMessageList.find? fun m => m.msgSeq = ackedSeq buf with
  | none =>
    refine iff_of_true ⟨[], [], ?_, (List.append_nil _).symm, .nil⟩ fun m hm => nomatch hm
    rw [List.eraseP_of_forall_not (List.find?_eq_none.mp hfind)]
    exact .refl _
  | some m =>
    have hperm := perm_cons_eraseP hfind
    have hone := dropAcked_recorded_iff (st.setNeedAck
      (st.needAckMessageList.eraseP fun m => m.msgSeq = ackedSeq buf)) m (ackedSeq buf)
    constructor
    · rintro ⟨removed, records, hremoved, hrecords⟩ _ ⟨⟩
      -- what was removed is the message that was found
      have hsame : removed.Perm [m] :=
        (List.perm_append_right_iff _).mp (hremoved.symm.trans hperm)
      rw [List.perm_singleton.mp hsame] at hrecords
      intro hdurable
      obtain ⟨hname, hindex, hroom⟩ := hone.mp ⟨records, hrecords⟩ hdurable
      exact ⟨hname, hindex, hroom⟩
    · intro h
      obtain ⟨records, hrecords⟩ := hone.mpr fun hdurable =>
        have hcan := h m rfl hdurable
        ⟨hcan.name, hcan.index, hcan.room⟩
      exact ⟨[m], records, hperm, hrecords⟩

/-- An acknowledgement of each level removes what it should when the first message with its
number was sent to the client and is the only one that it confirms; its record is kept when the
channel has room for it. -/
theorem acksExactly_iff : AcksExactly st buf c ↔
    (ackLevel buf = consumerAutoAck ∨ ackLevel buf = consumerSingleAck →
      FirstOnly (fun m => m.index = c ∧ m.msgSeq = ackedSeq buf)
        (fun m => m.msgSeq = ackedSeq buf) st.needAckMessageList) ∧
    (ackLevel buf = consumerMutilAck →
      FirstOnly (fun m => m.index = c ∧ m.msgSeq ≤ ackedSeq buf)
        (fun m => m.msgSeq = ackedSeq buf) st.needAckMessageList) ∧
    ∀ m, st.needAckMessageList.find? (fun m => m.msgSeq = ackedSeq buf) = some m →
      m.index = c ∧ (m.durable = true → CanRecord st m) := by
  have hremoves : ∀ p : SeverStoreMessage → Bool,
      (st.onClientAck buf c).needAckMessageList =
        st.needAckMessageList.filter (fun m => ¬ p m) ↔
      FirstOnly p (fun m => m.msgSeq = ackedSeq buf) st.needAckMessageList := fun p => by
    rw [needAck_onClientAck]
    exact eraseP_eq_filter
  have hothers := filter_eraseP (q := fun m => m.msgSeq = ackedSeq buf)
    (r := fun m => m.index ≠ c) (l := st.needAckMessageList)
  rw [← needAck_onClientAck st buf c] at hothers
  simp only [decide_eq_true_eq, not_not] at hothers
  have hrecords := records_onClientAck_iff st buf c
  constructor
  · rintro ⟨hsingle, hbatch, hkept, hsent⟩
    refine ⟨fun hlevel => (hremoves _).mp ?_, fun hlevel => (hremoves _).mp ?_,
      fun m hm => ⟨hothers.mp hkept m hm, hrecords.mp hsent m hm⟩⟩
    · simpa only [decide_eq_true_eq] using hsingle hlevel
    · simpa only [decide_eq_true_eq] using hbatch hlevel
  · rintro ⟨hsingle, hbatch, hfirst⟩
    refine ⟨fun hlevel => ?_, fun hlevel => ?_, hothers.mpr fun m hm => (hfirst m hm).1,
      hrecords.mpr fun m hm => (hfirst m hm).2⟩
    · simpa only [decide_eq_true_eq] using (hremoves _).mpr (hsingle hlevel)
    · simpa only [decide_eq_true_eq] using (hremoves _).mpr (hbatch hlevel)

end Ack

section Runs

attribute [local instance] Platform.plain

/-- Two messages that were sent to client 1. -/
def twoAwaited : LogicServer :=
  (start none none).setNeedAck
    [{ id := 0, msgSeq := 0, priority := -1, durable := false, msgBody := [], index := 1 },
      { id := 1, msgSeq := 1, priority := -1, durable := false, msgBody := [], index := 1 }]

/-- A batch acknowledgement of the second leaves the first. -/
theorem batch_removes_one :
    ¬ AcksExactly twoAwaited (Mem.ofBytes [3, 0, 0, 0, 1]) 1 := by
  intro h
  have hlevel : ackLevel (Mem.ofBytes [3, 0, 0, 0, 1]) = consumerMutilAck := by decide
  have hlen := congrArg List.length (h.batch hlevel)
  have hleft : ((twoAwaited.onClientAck (Mem.ofBytes [3, 0, 0, 0, 1]) 1).needAckMessageList).length
      = 1 := by decide +kernel
  have hnone : (twoAwaited.needAckMessageList.filter fun m =>
      ¬ (m.index = 1 ∧ m.msgSeq ≤ ackedSeq (Mem.ofBytes [3, 0, 0, 0, 1]))).length = 0 := by
    decide +kernel
  omega

end Runs

end LogicServer

end Wsmq
