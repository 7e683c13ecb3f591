import Wsmq.Client

/-!
# What `Consumer::CancelSubscribe` does on the server

It sends the package of `DeleteQueue`, so the queue goes with all that it holds.
-/

namespace Wsmq.LogicServer
open Lib Lib.ByteString Lib.Packing

section

variable [Platform] {st st' : LogicServer} {p : Package} {n : Name} {c : Int} {queue : QueueId}
  {q : MessageQueue}

/-- The client is the only subscriber of an auto-delete queue. -/
def LastOfAutoDelete (q : MessageQueue) (iCliIndex : Int) : Prop :=
  q.autoDel = true ∧ iCliIndex ∈ q.subscribeConsumers ∧ ∀ d ∈ q.subscribeConsumers, d = iCliIndex

/-- The client does not subscribe to the queue any more; else nothing has changed. -/
structure OnlyCancels (st st' : LogicServer) (strQueueName : Name) (iCliIndex : Int)
    (queue : QueueId) (q : MessageQueue) : Prop where
  reachable : st'.findQueue strQueueName = some queue
  left : ∃ q', st'.queues queue = some q' ∧ q'.messages = q.messages ∧
    iCliIndex ∉ q'.subscribeConsumers ∧
    ∀ d, d ≠ iCliIndex → (d ∈ q'.subscribeConsumers ↔ d ∈ q.subscribeConsumers)
  others : ∀ i, i ≠ queue → st'.queues i = st.queues i
  bindings : st'.exchanges = st.exchanges

/-- The package of a call, as it arrives on the connection of a client. -/
def Sends (call : Call) (iCliIndex : Int) (p : Package) : Prop :=
  Received p (RecvBuff.setIndex iCliIndex call.request.package)

theorem findQueue_reply (o : Outcome) (c : Int) (n : Name) :
    (reply o c).findQueue n = o.server.findQueue n := by
  unfold reply
  split <;> rfl

/-- A deleted queue is gone, or at least cannot be found any more. -/
theorem onDeleteQueue_loses {buf : Mem} {iLen : Nat} {o : Outcome} (hn : readName buf 0 = some n)
    (hfind : st.findQueue n = some queue) (ho : st.onDeleteQueue buf iLen = some o) :
    o.server.queues queue = none ∨ o.server.findQueue n = none := by
  obtain ⟨m, hm, ho⟩ := onDeleteQueue_some ho
  cases hn.symm.trans hm
  dsimp only [deleteQueue] at ho
  split at ho
  · next hnone =>
    cases hnone.symm.trans hfind
  · next queue' hfind' =>
    cases hfind.symm.trans hfind'
    obtain ⟨q, _, rfl⟩ := Option.map_eq_some_iff.mp ho
    split
    · right
      have hun : ((st.eraseUnSubcribe n).eraseSubcribe n).findQueue n = none := by
        unfold findQueue eraseSubcribe eraseUnSubcribe
        simp only [AList.lookup_erase]
      unfold sendPersis
      split <;> exact hun
    · left
      exact if_pos rfl

omit [Platform] in
theorem readName_cancelSubscribe (hindex : FitsInt 4 c) (hzero : 0 ∉ n)
    (hlen : n.length < maxNameLength) (hp : Sends (.cancelSubscribe n) c p) :
    p.cmdId = cmdDeleteQueue ∧ p.packLen ≤ p.len ∧ readName p.body 0 = some n := by
  have hshort : ∀ m ∈ (Call.cancelSubscribe n).request.names, m.length ≤ maxNameLength := by
    intro m hm
    rw [List.mem_singleton.mp hm]
    exact Nat.le_of_lt hlen
  have hpack : ((Call.cancelSubscribe n).request.getMessagePack zeroed
      maxClintPackageLength).ret = Message.success := by
    show (packNames [n] zeroed maxClintPackageLength (pack zeroed maxClintPackageLength
      DeleteQueueMessage.iMsgLen _)).ret = Message.success
    rw [packNames, if_neg, pack, if_neg (by decide)]
    rintro ⟨m, hm, hlong⟩
    exact Nat.not_lt.mpr (hshort m hm) hlong
  have hhead := @headRead_package (Call.cancelSubscribe n).request c p hindex trivial hpack hp
  have hbody : p.len - sizeofClientPackageHead = size (Call.cancelSubscribe n).request.body :=
    hhead.bodyLen
  refine ⟨hhead.cmdId, ?_, ?_⟩
  · rw [hhead.packLen, Request.packLen, ← hbody]
    have := p.len_ge
    omega
  · exact readName_field (a := 0) [] hhead.body (Request.fits hshort) hzero hlen

/-- Cancelling a subscription to a queue, under a name that a queue can have, is no more than
that only where the queue was to be deleted anyway. -/
theorem cancelSubscribe_frame_iff (hindex : FitsInt 4 c) (hzero : 0 ∉ n)
    (hlen : n.length < maxNameLength) (hp : Sends (.cancelSubscribe n) c p)
    (hfind : st.findQueue n = some queue) (_hq : st.queues queue = some q)
    (hstep : st.processPackage p = some st') :
    (¬ LastOfAutoDelete q c → OnlyCancels st st' n c queue q) ↔ LastOfAutoDelete q c := by
  have hlost : ¬ OnlyCancels st st' n c queue q := by
    intro h
    obtain ⟨hcmd, hle, hname⟩ := readName_cancelSubscribe hindex hzero hlen hp
    obtain ⟨o, ho, rfl⟩ := Option.map_eq_some_iff.mp hstep
    rw [processRecvData, if_neg (Nat.not_lt.mpr hle), dispatch] at ho
    simp only [hcmd] at ho
    obtain ⟨q', hq', _⟩ := h.left
    have hreach := h.reachable
    rw [queues_reply] at hq'
    rw [findQueue_reply] at hreach
    rcases onDeleteQueue_loses hname hfind ho with hgone | hgone
    · rw [hgone] at hq'
      cases hq'
    · rw [hgone] at hreach
      cases hreach
  constructor
  · intro h
    by_contra hlast
    exact hlost (h hlast)
  · intro hlast h
    exact absurd hlast h

end

section Runs

attribute [local instance] Platform.plain

/-- The package with which client 12 cancels its subscription to "q". -/
def cancelPackage : Package :=
  receivedPackage (RecvBuff.setIndex 12 (Call.cancelSubscribe (ascii "q")).request.package)
    (by decide +kernel) (by decide +kernel)

theorem sends_cancelPackage : Sends (.cancelSubscribe (ascii "q")) 12 cancelPackage :=
  received_receivedPackage _ _ _

/-- Client 12 alone subscribes to the auto-delete queue "q". -/
def lastSubscriber : List Step :=
  [.package (.ofBody cmdCreateQueue 12
    (image [writeName (ascii "q"), writeShort (-1), writeBool false, writeBool true])
    (by decide)), .subscribe 12]

/-- The state before the package, the queue in it, and the state after. -/
def cancelAfter (as : List Step) :
    Option (LogicServer × QueueId × MessageQueue × LogicServer) :=
  (run (start none none) as).bind fun st =>
    (st.findQueue (ascii "q")).bind fun queue =>
      (st.queues queue).bind fun q =>
        (st.processPackage cancelPackage).map fun st' => (st, queue, q, st')

theorem cancelAfter_some {as : List Step} {st st' : LogicServer} {queue : QueueId}
    {q : MessageQueue} (h : cancelAfter as = some (st, queue, q, st')) :
    run (start none none) as = some st ∧ st.findQueue (ascii "q") = some queue ∧
      st.queues queue = some q ∧ st.processPackage cancelPackage = some st' := by
  obtain ⟨st₁, hst, h⟩ := Option.bind_eq_some_iff.mp h
  obtain ⟨queue₁, hfind, h⟩ := Option.bind_eq_some_iff.mp h
  obtain ⟨q₁, hq, h⟩ := Option.bind_eq_some_iff.mp h
  obtain ⟨st₂, hstep, h⟩ := Option.map_eq_some_iff.mp h
  cases h
  exact ⟨hst, hfind, hq, hstep⟩

theorem cancelSubscribe_frame_last :
    ∃ st queue q st', cancelAfter lastSubscriber = some (st, queue, q, st') ∧
      (¬ LastOfAutoDelete q 12 → OnlyCancels st st' (ascii "q") 12 queue q) := by
  have hcheck : (cancelAfter lastSubscriber).map (fun r => decide (
      r.2.2.1.autoDel = true ∧ r.2.2.1.subscribeConsumers = [12])) = some true := by
    decide +kernel
  obtain ⟨⟨st, queue, q, st'⟩, hafter, hprops⟩ := Option.map_eq_some_iff.mp hcheck
  obtain ⟨hauto, hsubs : q.subscribeConsumers = [12]⟩ := of_decide_eq_true hprops
  obtain ⟨_, hfind, hq, hstep⟩ := cancelAfter_some hafter
  refine ⟨st, queue, q, st', hafter, (cancelSubscribe_frame_iff (by unfold FitsInt; decide)
    (by decide) (by decide) sends_cancelPackage hfind hq hstep).mpr ⟨hauto, ?_, ?_⟩⟩
  · rw [hsubs]
    exact List.mem_singleton.mpr rfl
  · intro d hd
    rw [hsubs] at hd
    exact List.mem_singleton.mp hd

/-- Client 12 cancels, and the queue is gone, to which client 3 had subscribed as well. -/
theorem cancelSubscribe_deletes :
    ∃ st queue q st',
      cancelAfter [.makeQueue 3 false, .subscribe 12, .subscribe 3] = some (st, queue, q, st') ∧
        q.autoDel = false ∧ q.subscribeConsumers = [12, 3] ∧
        st'.findQueue (ascii "q") = none ∧ (st'.queues queue).isNone := by
  have hcheck : (cancelAfter [.makeQueue 3 false, .subscribe 12, .subscribe 3]).map (fun r =>
      decide (r.2.2.1.autoDel = false ∧ r.2.2.1.subscribeConsumers = [12, 3] ∧
        r.2.2.2.findQueue (ascii "q") = none ∧ (r.2.2.2.queues r.2.1).isNone)) = some true := by
    decide +kernel
  obtain ⟨⟨st, queue, q, st'⟩, hafter, hprops⟩ := Option.map_eq_some_iff.mp hcheck
  exact ⟨st, queue, q, st', hafter, of_decide_eq_true hprops⟩

end Runs

end Wsmq.LogicServer
