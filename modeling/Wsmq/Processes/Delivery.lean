import Wsmq.LogicServer.Refinement
import Wsmq.LogicServer.StepEffects
import Wsmq.Processes.Addressing

/-!
# Packages and connections

Packages are addressed to slots, and a slot is given to the next connection as soon as it is
free.
-/

namespace Wsmq.Processes
open Lib Lib.ByteString Lib.Packing Lib.Fifo Lib.CircularWait LogicServer

section

variable [Platform] {s t : Processes} {st st' : LogicServer}

/-- Whatever a socket took answers its own connection. -/
def Delivered (s : Processes) : Prop := ∀ e ∈ s.written, ∀ x ∈ e.2.conns, x = e.1

/-- The logic server and the queues hold nothing for earlier connections of the slot. -/
structure Vacant (s : Processes) (k : Int) : Prop where
  toLogic : ∀ b ∈ s.toLogic.items, b.clientIndex = k → b.cmdId = cmdClientExit
  toConnect : ∀ b ∈ s.toConnect.items, b.clientIndex ≠ k
  logicPending : ∀ e ∈ s.logicPending, e.1.clientIndex ≠ k
  subscribed : ∀ queue, ¬ Subscribed s.logic queue k
  producers : k ∉ s.logic.producerLastMsgSeq

/-- A slot is given to a connection only when it is vacant. -/
def Reuses (s : Processes) : Step → Prop
  | .accept => ∀ k rest, s.freeList = k :: rest → s.Vacant k
  | _ => True

/-! ## Subscriptions outside of packages -/

/-- The clients subscribed to each queue, and those with something to be acknowledged. -/
def clientsOf (st : LogicServer) : (QueueId → Option (List Int)) × (Int → Prop) :=
  (fun queue => (st.queues queue).map (·.subscribeConsumers), fun k => k ∈ st.producerLastMsgSeq)

theorem subscribed_iff (queue : QueueId) (k : Int) :
    Subscribed st queue k ↔ ∃ l, (clientsOf st).1 queue = some l ∧ k ∈ l := by
  constructor
  · rintro ⟨q, hq, hk⟩
    exact ⟨q.subscribeConsumers, by simp only [clientsOf, hq, Option.map_some], hk⟩
  · rintro ⟨l, hl, hk⟩
    obtain ⟨q, hq, rfl⟩ := Option.map_eq_some_iff.mp hl
    exact ⟨q, hq, hk⟩

theorem clientsOf_setQueue {id : QueueId} {q q' : MessageQueue} (hq : st.queues id = some q)
    (h : q'.subscribeConsumers = q.subscribeConsumers) :
    clientsOf (st.setQueue id q') = clientsOf st := by
  refine Prod.ext (funext fun i => ?_) rfl
  by_cases hi : i = id
  · cases hi
    have hset : (st.setQueue id q').queues id = some q' := if_pos rfl
    simp only [clientsOf, hset, hq, Option.map_some, h]
  · have hset : (st.setQueue id q').queues i = st.queues i := if_neg hi
    simp only [clientsOf, hset]

theorem clientsOf_enqueueConnectWait {bs : Bytes} (h : st.enqueueConnectWait bs = some st') :
    clientsOf st' = clientsOf st := by
  rw [enqueueConnectWait_some h]
  rfl

theorem clientsOf_sendConsumed (st : LogicServer) (iCmdId : Nat) (name : Name)
    (pMsg : SeverStoreMessage) : clientsOf (st.sendConsumed iCmdId name pMsg) = clientsOf st := by
  unfold sendConsumed sendPersis
  split <;> rfl

theorem clientsOf_pushOne {q : MessageQueue} {pMsg : SeverStoreMessage}
    (h : st.pushOne q pMsg = some st') : clientsOf st' = clientsOf st := by
  unfold pushOne at h
  split at h
  · unfold sendAwaited at h
    have hsame := clientsOf_enqueueConnectWait h
    exact hsame
  · obtain ⟨st₁, hsend, rfl⟩ := Option.map_eq_some_iff.mp h
    exact (clientsOf_sendConsumed _ _ _ _).trans (clientsOf_enqueueConnectWait hsend)

theorem clientsOf_pushQueue (id : QueueId) (fuel : Nat) {st st' : LogicServer}
    (h : pushQueue id fuel st = some st') : clientsOf st' = clientsOf st := by
  induction fuel generalizing st with
  | zero =>
    cases h
    rfl
  | succ fuel ih =>
    simp only [pushQueue] at h
    split at h
    · cases h
    · next q hq =>
      split at h
      · cases h
        rfl
      · next pMsg q' hpop =>
        obtain ⟨st₁, hone, hrest⟩ := Option.bind_eq_some_iff.mp h
        rw [ih hrest, clientsOf_pushOne hone,
          clientsOf_setQueue hq (MessageQueue.popFrontMsg_some hpop).consumers]

/-- By induction on the number of entries left, since the loop may skip one. -/
theorem clientsOf_pushLoop (n : Nat) (entries : List (Σ _ : Name, QueueId))
    (hn : entries.length ≤ n) {st st' : LogicServer} (h : pushLoop entries st = some st') :
    clientsOf st' = clientsOf st := by
  induction n generalizing entries st with
  | zero =>
    cases List.length_eq_zero_iff.mp (Nat.le_zero.mp hn)
    cases h
    rfl
  | succ n ih =>
    cases entries with
    | nil =>
      cases h
      rfl
    | cons e rest =>
      have hrest : rest.length ≤ n := Nat.le_of_succ_le_succ hn
      simp only [pushLoop] at h
      split at h
      · cases h
      · split at h
        · obtain ⟨st₁, hqueue, hloop⟩ := Option.bind_eq_some_iff.mp h
          rw [ih rest hrest hloop, clientsOf_pushQueue _ _ hqueue]
        · split at h
          · cases h
          · next e' rest' => exact (ih rest' (Nat.le_of_succ_le hrest) h).trans rfl

theorem clientsOf_step {a : LogicServer.Step} (ha : ∀ p, a ≠ .package p)
    (h : st.step a = some st') : clientsOf st' = clientsOf st := by
  cases a with
  | package p => exact absurd rfl (ha p)
  | pushMessage => exact clientsOf_pushLoop _ _ le_rfl h
  | sendMultiAck =>
    obtain ⟨hnone, h⟩ | ⟨_, h⟩ := ite_eq_some h
    · cases h
      refine Prod.ext rfl (funext fun k => propext ?_)
      have hempty : st.producerLastMsgSeq = ∅ := AList.ext hnone
      show k ∈ (∅ : AList fun _ : Int => Int) ↔ k ∈ st.producerLastMsgSeq
      rw [hempty]
    · cases h
  | drainConnect =>
    obtain ⟨r, _, rfl⟩ := Option.map_eq_some_iff.mp h
    rfl
  | drainPersis =>
    obtain ⟨r, _, rfl⟩ := Option.map_eq_some_iff.mp h
    rfl
  | rehash tables =>
    obtain ⟨hsame, h⟩ | ⟨_, h⟩ := ite_eq_some h
    · cases h
      refine Prod.ext rfl (funext fun k => propext ?_)
      have hperm := hsame.2.2.2.2.2.map Sigma.fst
      exact hperm.mem_iff
    · cases h

/-! ## The invariant -/

/-- What is in `CONNECT_TO_LOGIC` or will be. -/
def requests (s : Processes) : List Block := s.toLogic.items ++ s.connectPending.map (·.1)

/-- What is in `LOGIC_TO_CONNECT` or will be. -/
def answers (s : Processes) : List Block := s.toConnect.items ++ s.logicPending.map (·.1)

/-- The connections of a block are the one that has the slot now. -/
def Owned (s : Processes) (k : Int) (conns : List Connection) : Prop :=
  ∀ x ∈ conns, x = (s.slots k).sockfd

structure Inv (s : Processes) : Prop where
  requests : ∀ b ∈ s.requests, 0 < b.clientIndex → s.Owned b.clientIndex b.asks
  answers : ∀ b ∈ s.answers, sizeofClientPackageHead ≤ b.bytes.length → 0 < b.clientIndex →
    s.Owned b.clientIndex b.conns
  buffered : ∀ k, ∀ b ∈ (s.slots k).sendBuff, s.Owned k b.conns
  subscriber : ∀ queue k, 0 < k → s.Owned k (s.subscriber queue k)
  publisher : ∀ k, 0 < k → s.Owned k (s.publisher k)
  subscribed : ∀ queue k, s.subscriber queue k ≠ [] → Subscribed s.logic queue k
  producers : ∀ k, s.publisher k ≠ [] → k ∈ s.logic.producerLastMsgSeq
  idle : ∀ k, (s.slots k).used = false → ∀ b ∈ (s.slots k).sendBuff, b.conns = []
  free : ∀ k ∈ s.freeList, 0 < k ∧ (s.slots k).used = false
  nodup : s.freeList.Nodup
  used : ∀ k, (s.slots k).used = true → 0 < k
  channel : s.logic.queueToConnect = .empty none
  written : s.Delivered

theorem inv_start (n : Nat) (capToLogic capToConnect capPersis : Option Nat) :
    Inv (start n capToLogic capToConnect capPersis) where
  requests _ h := nomatch h
  answers _ h := nomatch h
  buffered _ _ h := nomatch h
  subscriber _ _ _ _ h := nomatch h
  publisher _ _ _ h := nomatch h
  subscribed _ _ h := absurd rfl h
  producers _ h := absurd rfl h
  idle _ _ _ h := nomatch h
  free k h := by
    obtain ⟨i, _, rfl⟩ := List.mem_map.mp h
    exact ⟨by omega, rfl⟩
  nodup := List.nodup_range.map fun i j h => by omega
  used _ h := nomatch h
  channel := rfl
  written _ h := nomatch h

/-! ## The connect server -/

omit [Platform] in
theorem mem_put {q : BlockQueue} {items : List (Block × Bool)} {b : Block}
    (h : b ∈ (put q items).1.items ++ (put q items).2.map (·.1)) :
    b ∈ q.items ++ items.map (·.1) := by
  cases items with
  | nil => exact h
  | cons e rest =>
    obtain ⟨a, again⟩ := e
    rw [put] at h
    split at h
    · next q' hq =>
      rw [(BoundedFifo.enqueue_some hq).2.1, List.append_assoc] at h
      exact h
    · split at h
      · exact h
      · rw [List.mem_append] at h
        rw [List.map_cons, List.mem_append]
        exact h.imp id (List.mem_cons_of_mem _)

omit [Platform] in
theorem asks_subset {b : Block} : b.asks ⊆ b.conns := by
  intro x hx
  unfold Block.asks at hx
  split at hx
  · cases hx
  · exact hx

theorem Inv.enqueueOnce (h : s.Inv) {b : Block} (hb : b.conns = []) : (s.enqueueOnce b).Inv := by
  refine { h with requests := ?_ }
  intro b' hb' hpos
  rcases List.mem_append.mp hb' with hput | hpending
  · rcases List.mem_append.mp (mem_put (List.mem_append_left _ hput)) with hold | hnew
    · exact h.requests b' (List.mem_append_left _ hold) hpos
    · intro x hx
      have hin := asks_subset hx
      rw [List.mem_singleton.mp hnew, hb] at hin
      cases hin
  · exact h.requests b' (List.mem_append_right _ hpending) hpos

theorem Inv.tellClientExit (h : s.Inv) (k : Int) : (s.tellClientExit k).Inv := h.enqueueOnce rfl

theorem slots_setSlot (s : Processes) (k i : Int) (c : ClientSlot) :
    (s.setSlot k c).slots i = if i = k then c else s.slots i := rfl

/-- The slot still belongs to the same connection. -/
theorem Inv.setSlot (h : s.Inv) {k : Int} {c : ClientSlot} (hsock : c.sockfd = (s.slots k).sockfd)
    (hbuff : ∀ b ∈ c.sendBuff, s.Owned k b.conns)
    (hidle : c.used = false → ∀ b ∈ c.sendBuff, b.conns = [])
    (hused : c.used = true → 0 < k ∧ k ∉ s.freeList) : (s.setSlot k c).Inv := by
  have hsockfd : ∀ i, ((s.setSlot k c).slots i).sockfd = (s.slots i).sockfd := by
    intro i
    rw [slots_setSlot]
    split
    · next hi => rw [hi, hsock]
    · rfl
  have howned : ∀ i conns, (s.setSlot k c).Owned i conns ↔ s.Owned i conns := by
    intro i conns
    rw [Owned, Owned, hsockfd]
  refine { h with
    requests := ?_
    answers := ?_
    buffered := ?_
    subscriber := ?_
    publisher := ?_
    idle := ?_
    free := ?_
    used := ?_ }
  · intro b hb hpos
    exact (howned _ _).mpr (h.requests b hb hpos)
  · intro b hb hlen hpos
    exact (howned _ _).mpr (h.answers b hb hlen hpos)
  · intro i b hb
    rw [howned]
    rw [slots_setSlot] at hb
    split at hb
    · next hi => exact hi ▸ hbuff b hb
    · exact h.buffered i b hb
  · intro queue i hpos
    exact (howned _ _).mpr (h.subscriber queue i hpos)
  · intro i hpos
    exact (howned _ _).mpr (h.publisher i hpos)
  · intro i
    rw [slots_setSlot]
    split
    · exact hidle
    · exact h.idle i
  · intro i hi
    obtain ⟨hpos, hunused⟩ := h.free i hi
    rw [slots_setSlot]
    split
    · next hik =>
      refine ⟨hpos, Bool.eq_false_iff.mpr fun hc => ?_⟩
      exact (hused hc).2 (hik ▸ hi)
    · exact ⟨hpos, hunused⟩
  · intro i
    rw [slots_setSlot]
    split
    · next hik => exact fun hc => hik ▸ (hused hc).1
    · exact h.used i

theorem Inv.not_mem_free (h : s.Inv) {k : Int} (hused : (s.slots k).used = true) :
    k ∉ s.freeList := by
  intro hk
  rw [(h.free k hk).2] at hused
  cases hused

theorem Inv.clientExit (h : s.Inv) (k : Int) : (s.clientExit k).Inv := by
  unfold Processes.clientExit
  dsimp only
  split
  · exact h
  · next hused =>
    have hused : (s.slots k).used = true := not_not.mp hused
    have hset : (s.setSlot k { s.slots k with
        used := false
        sendBuff := (s.slots k).sendBuff.map fun b =>
          { bytes := List.replicate b.bytes.length 0 } }).Inv := by
      refine h.setSlot rfl ?_ ?_ ?_
      · intro b hb
        obtain ⟨_, _, rfl⟩ := List.mem_map.mp hb
        exact fun x hx => nomatch hx
      · intro _ b hb
        obtain ⟨_, _, rfl⟩ := List.mem_map.mp hb
        rfl
      · exact fun hc => nomatch hc
    refine { hset with free := ?_, nodup := ?_ }
    · intro i hi
      rcases List.mem_append.mp hi with hold | hnew
      · exact hset.free i hold
      · cases List.mem_singleton.mp hnew
        refine ⟨h.used k hused, ?_⟩
        show ((s.setSlot k _).slots k).used = false
        rw [slots_setSlot, if_pos rfl]
    · rw [List.nodup_append]
      refine ⟨h.nodup, List.nodup_singleton k, ?_⟩
      intro i hi j hj hij
      rw [List.mem_singleton.mp hj] at hij
      exact h.not_mem_free hused (hij ▸ hi)

theorem Inv.closed (h : s.Inv) (k : Int) : (s.closed k).Inv := (h.tellClientExit k).clientExit k

theorem Inv.flushed (h : s.Inv) {k : Int} (hused : (s.slots k).used = true) :
    (s.flushed k).Inv := by
  have hset : (s.setSlot k { s.slots k with sendBuff := [] }).Inv := by
    refine h.setSlot rfl (fun _ hb => nomatch hb) (fun _ _ hb => nomatch hb) ?_
    exact fun _ => ⟨h.used k hused, h.not_mem_free hused⟩
  refine { hset with written := ?_ }
  intro e he
  rcases List.mem_append.mp he with hold | hnew
  · exact h.written e hold
  · obtain ⟨b, hb, rfl⟩ := List.mem_map.mp hnew
    exact h.buffered k b hb

theorem Inv.append (h : s.Inv) {k : Int} {b : Block} (hused : (s.slots k).used = true)
    (hb : s.Owned k b.conns) : (s.append k b).Inv := by
  refine h.setSlot rfl ?_ ?_ ?_
  · intro b' hb'
    rcases List.mem_append.mp hb' with hold | hnew
    · exact h.buffered k b' hold
    · rw [List.mem_singleton.mp hnew]
      exact hb
  · intro hc
    exact nomatch hused.symm.trans hc
  · exact fun _ => ⟨h.used k hused, h.not_mem_free hused⟩

theorem Inv.dispatch (h : s.Inv) {b : Block} (sendOk : Bool)
    (hb : sizeofClientPackageHead ≤ b.bytes.length → 0 < b.clientIndex →
      s.Owned b.clientIndex b.conns) : (s.dispatch b sendOk).Inv := by
  unfold Processes.dispatch
  split
  · exact h
  · next hlen =>
    split
    · exact h.tellClientExit _
    · next hused =>
      have hused : (s.slots b.clientIndex).used = true := not_not.mp hused
      have howned := hb (Nat.le_of_not_lt hlen) (h.used _ hused)
      split
      · exact h
      · split
        · exact h.append hused howned
        · split
          · refine (h.flushed hused).append ?_ ?_
            · show ((s.setSlot b.clientIndex _).slots b.clientIndex).used = true
              rw [slots_setSlot, if_pos rfl]
              exact hused
            · intro x hx
              refine (howned x hx).trans ?_
              show _ = ((s.setSlot b.clientIndex _).slots b.clientIndex).sockfd
              rw [slots_setSlot, if_pos rfl]
          · exact h.closed _

theorem Inv.dequeueToConnect (h : s.Inv) {sendOk : Bool}
    (ht : s.dequeueToConnect sendOk = some t) : t.Inv := by
  obtain ⟨⟨b, q⟩, hr, ht⟩ := Option.bind_eq_some_iff.mp ht
  obtain ⟨_, ht⟩ | ⟨_, ht⟩ := ite_eq_some ht
  · cases ht
  · cases ht
    have hitems : s.toConnect.items = b :: q.items := BoundedFifo.dequeue_some hr
    have hanswers : s.answers = b :: (q.items ++ s.logicPending.map (·.1)) := by
      rw [Processes.answers, hitems]
      rfl
    have hrest : Inv { s with toConnect := q } := by
      refine { h with answers := ?_ }
      intro b' hb'
      exact h.answers b' (hanswers ▸ List.mem_cons_of_mem _ hb')
    exact hrest.dispatch sendOk (h.answers b (hanswers ▸ List.mem_cons_self))

theorem Inv.sendBuffered (h : s.Inv) (k : Int) (sendOk : Bool) : (s.sendBuffered k sendOk).Inv := by
  unfold Processes.sendBuffered
  split
  · next hsend => exact h.flushed hsend.2
  · exact h.closed k

theorem Inv.receive (h : s.Inv) {k : Int} {packs : List Bytes}
    (ht : s.receive k packs = some t) : t.Inv := by
  obtain ⟨_, ht⟩ | ⟨hin, ht⟩ := ite_eq_some ht
  · cases ht
  · cases ht
    have hframed := not_not.mp (not_or.mp hin).2
    refine { h with requests := ?_ }
    intro b hb hpos
    rcases List.mem_append.mp hb with hold | hnew
    · exact h.requests b (List.mem_append_left _ hold) hpos
    · obtain ⟨e, he, rfl⟩ := List.mem_map.mp hnew
      obtain ⟨pack, hpack, rfl⟩ := List.mem_map.mp he
      have hindex : (⟨pack, [(s.slots k).sockfd]⟩ : Block).clientIndex = k := (hframed pack hpack).2
      intro x hx
      rw [List.mem_singleton.mp (asks_subset hx), hindex]

/-- The slot comes to a connection for which nothing is left of earlier ones. -/
theorem Inv.accept (h : s.Inv) (hidle : s.connectPending = []) (hreuse : Reuses s .accept) :
    s.accept.Inv := by
  unfold Processes.accept
  split
  · exact h
  · next k rest hfree =>
    have hvacant : s.Vacant k := hreuse k rest hfree
    obtain ⟨hpos, hunused⟩ := h.free k (hfree ▸ List.mem_cons_self)
    have hnodup := h.nodup
    rw [hfree, List.nodup_cons] at hnodup
    generalize hc : ({ s.slots k with used := true, sockfd := s.nextConnection } : ClientSlot) = c
    have htaken : c.used = true ∧ c.sendBuff = (s.slots k).sendBuff := by
      rw [← hc]
      exact ⟨rfl, rfl⟩
    have hslot : ∀ i, i ≠ k → (s.setSlot k c).slots i = s.slots i := by
      intro i hi
      rw [slots_setSlot, if_neg hi]
    have howned : ∀ i conns, i ≠ k → s.Owned i conns → (s.setSlot k c).Owned i conns := by
      intro i conns hi hown
      rw [Owned, hslot i hi]
      exact hown
    have hnone : ∀ conns, conns = [] → (s.setSlot k c).Owned k conns := by
      rintro conns rfl x hx
      cases hx
    refine { h with
      requests := ?_
      answers := ?_
      buffered := ?_
      subscriber := ?_
      publisher := ?_
      idle := ?_
      free := ?_
      nodup := hnodup.2
      used := ?_ }
    · intro b hb hb0
      by_cases hk : b.clientIndex = k
      · rcases List.mem_append.mp hb with hold | hpending
        · rw [hk]
          exact hnone _ (if_pos (hvacant.toLogic b hold hk))
        · have hnew : b ∈ s.connectPending.map (·.1) := hpending
          rw [hidle] at hnew
          cases hnew
      · exact howned _ _ hk (h.requests b hb hb0)
    · intro b hb hlen hb0
      by_cases hk : b.clientIndex = k
      · rcases List.mem_append.mp hb with hold | hpending
        · exact absurd hk (hvacant.toConnect b hold)
        · obtain ⟨e, he, rfl⟩ := List.mem_map.mp hpending
          exact absurd hk (hvacant.logicPending e he)
      · exact howned _ _ hk (h.answers b hb hlen hb0)
    · intro i b hb
      by_cases hi : i = k
      · cases hi
        refine hnone _ (h.idle k hunused b ?_)
        have hin : b ∈ ((s.setSlot k c).slots k).sendBuff := hb
        rw [slots_setSlot, if_pos rfl, htaken.2] at hin
        exact hin
      · refine howned _ _ hi (h.buffered i b ?_)
        rw [← hslot i hi]
        exact hb
    · intro queue i hi0
      by_cases hi : i = k
      · cases hi
        refine hnone _ (not_not.mp fun hne => ?_)
        exact hvacant.subscribed queue (h.subscribed queue k hne)
      · exact howned _ _ hi (h.subscriber queue i hi0)
    · intro i hi0
      by_cases hi : i = k
      · cases hi
        exact hnone _ (not_not.mp fun hne => hvacant.producers (h.producers k hne))
      · exact howned _ _ hi (h.publisher i hi0)
    · intro i hi
      by_cases hik : i = k
      · cases hik
        have hused : ((s.setSlot k c).slots k).used = false := hi
        rw [slots_setSlot, if_pos rfl, htaken.1] at hused
        cases hused
      · intro b hb
        refine h.idle i ?_ b ?_
        · rw [← hslot i hik]
          exact hi
        · rw [← hslot i hik]
          exact hb
    · intro i hi
      have hik : i ≠ k := fun hik => hnodup.1 (hik ▸ hi)
      obtain ⟨hi0, hfalse⟩ := h.free i (hfree ▸ List.mem_cons_of_mem _ hi)
      refine ⟨hi0, ?_⟩
      show ((s.setSlot k _).slots i).used = false
      rw [hslot i hik]
      exact hfalse
    · intro i hi
      by_cases hik : i = k
      · exact hik ▸ hpos
      · refine h.used i ?_
        rw [← hslot i hik]
        exact hi

/-! ## The logic server -/

/-- The handler leaves packages for indices whose connection is the one it answers. -/
theorem Inv.handled (h : s.Inv) {conns : Int → List Connection} {st : LogicServer}
    (hsubscribed : ∀ queue k, s.subscriber queue k ≠ [] → Subscribed st queue k)
    (hproducers : ∀ k, s.publisher k ≠ [] → k ∈ st.producerLastMsgSeq)
    (hconns : ∀ pack ∈ st.queueToConnect.items,
      Addressed (fun k => 0 < k → s.Owned k (conns k)) pack) : (s.handled conns st).Inv := by
  refine { h with
    answers := ?_
    subscribed := hsubscribed
    producers := hproducers
    channel := rfl }
  intro b hb hlen hpos
  rcases List.mem_append.mp hb with hold | hnew
  · exact h.answers b (List.mem_append_left _ hold) hlen hpos
  · obtain ⟨e, he, rfl⟩ := List.mem_map.mp hnew
    obtain ⟨pack, hpack, rfl⟩ := List.mem_map.mp he
    exact hconns pack hpack hlen hpos

theorem owned_askers (h : s.Inv) {k : Int} (hpos : 0 < k) : s.Owned k (s.askers k) := by
  intro x hx
  rcases List.mem_append.mp hx with hsub | hpub
  · obtain ⟨entry, _, hin⟩ := List.mem_flatMap.mp hsub
    split at hin
    · exact h.subscriber _ k hpos x hin
    · cases hin
  · split at hpub
    · exact h.publisher k hpos x hpub
    · cases hpub

theorem addressed_askers (h : s.Inv) (pack : Bytes) :
    Addressed (fun k => 0 < k → s.Owned k (s.askers k)) pack := fun _ hpos => owned_askers h hpos

/-- What is owed after a package: nothing comes from another index. -/
theorem owned_owed {k c : Int} {before after : Bool} {old conns : List Connection}
    (hold : s.Owned k old) (hnew : k = c → s.Owned k conns)
    (hgrow : after = true → before = true ∨ k = c) :
    s.Owned k (owed before after (k = c) old conns) := by
  unfold owed
  split
  · next hafter =>
    split
    · split
      · next hmine =>
        intro x hx
        exact (List.mem_append.mp hx).elim (hold x) (hnew (of_decide_eq_true hmine) x)
      · exact hold
    · next hbefore =>
      exact hnew ((hgrow hafter).resolve_left hbefore)
  · exact fun x hx => nomatch hx

omit [Platform] in
theorem owed_ne_nil {before after mine : Bool} {old conns : List Connection}
    (h : owed before after mine old conns ≠ []) : after = true := by
  unfold owed at h
  split at h
  · next hafter => exact hafter
  · exact absurd rfl h

theorem Inv.answered (h : s.Inv) {b : Block} {c : Int} {st : LogicServer}
    (hb : 0 < c → s.Owned c b.asks)
    (hst : Concerns (fun k => k = c ∨ k ≤ 0) s.logic st) : (s.answered b c st).Inv := by
  have hmine : ∀ k, 0 < k → k = c ∨ k ≤ 0 → k = c := by
    intro k hpos hk
    exact hk.resolve_right (by omega)
  have hsubscriber : ∀ queue k, 0 < k → s.Owned k (owed (Subscribed s.logic queue k)
      (Subscribed st queue k) (k = c) (s.subscriber queue k) b.asks) := by
    intro queue k hpos
    refine owned_owed (h.subscriber queue k hpos) (fun hk => hk ▸ hb (hk ▸ hpos)) fun hafter => ?_
    rcases hst.subscribed queue k (of_decide_eq_true hafter) with hbefore | hk
    · exact Or.inl (decide_eq_true hbefore)
    · exact Or.inr (hmine k hpos hk)
  have hpublisher : ∀ k, 0 < k → s.Owned k (owed (k ∈ s.logic.producerLastMsgSeq)
      (k ∈ st.producerLastMsgSeq) (k = c) (s.publisher k) b.asks) := by
    intro k hpos
    refine owned_owed (h.publisher k hpos) (fun hk => hk ▸ hb (hk ▸ hpos)) fun hafter => ?_
    rcases hst.producers k (of_decide_eq_true hafter) with hbefore | hk
    · exact Or.inl (decide_eq_true hbefore)
    · exact Or.inr (hmine k hpos hk)
  have howed : Inv { s with
      subscriber := (s.answered b c st).subscriber
      publisher := (s.answered b c st).publisher
      logic := { st with queueToConnect := s.logic.queueToConnect } } :=
    { h with
      subscriber := hsubscriber
      publisher := hpublisher
      subscribed := fun queue k hne => of_decide_eq_true (owed_ne_nil hne)
      producers := fun k hne => of_decide_eq_true (owed_ne_nil hne) }
  have hconns : ∀ pack ∈ st.queueToConnect.items,
      Addressed (fun k => 0 < k → s.Owned k b.asks) pack := by
    have hstart : s.logic.queueToConnect.items = [] := by
      rw [h.channel]
      rfl
    obtain ⟨packs, hitems, hpacks⟩ := hst.sent
    rw [hstart] at hitems
    intro pack hpack hlen hpos
    rw [hitems] at hpack
    have hc := hmine _ hpos (hpacks pack hpack hlen)
    rw [hc]
    exact hb (hc ▸ hpos)
  exact @Inv.handled _ _ howed (fun _ => b.asks) st howed.subscribed howed.producers hconns

omit [Platform] in
/-- A package in the buffer has the header of the block that was dequeued. -/
theorem header_eq {p : Package} {b : Block} (hread : p.buf.read 0 p.len = b.bytes) :
    p.clientIndex = b.clientIndex := by
  have hge : 2 + 4 ≤ p.len := Nat.le_trans (by decide) p.len_ge
  show readInt p.buf 2 = readInt (Mem.ofBytes b.bytes) 2
  rw [← hread, readInt, readInt, Mem.read_ofBytes_read p.buf 0 hge, Nat.zero_add]

theorem Inv.turn (h : s.Inv) {a : LogicServer.Step} (ht : s.turn a = some t) : t.Inv := by
  have hother : ∀ st, (∀ p, a ≠ .package p) → s.logic.step a = some st →
      (s.handled s.askers st).Inv := by
    intro st ha hst
    have hclients := clientsOf_step ha hst
    refine h.handled ?_ ?_ fun pack _ => addressed_askers h pack
    · intro queue k hne
      have hbefore := (subscribed_iff queue k).mp (h.subscribed queue k hne)
      rw [← hclients] at hbefore
      exact (subscribed_iff queue k).mpr hbefore
    · intro k hne
      have hbefore : (clientsOf s.logic).2 k := h.producers k hne
      rw [← hclients] at hbefore
      exact hbefore
  cases a with
  | package p =>
    obtain ⟨⟨b, q⟩, hr, ht⟩ := Option.bind_eq_some_iff.mp ht
    obtain ⟨_, ht⟩ | ⟨hblock, ht⟩ := ite_eq_some ht
    · cases ht
    · obtain ⟨st, hst, rfl⟩ := Option.map_eq_some_iff.mp ht
      have hheader := header_eq (not_not.mp (not_or.mp hblock).2)
      have hrequests : s.requests = b :: (q.items ++ s.connectPending.map (·.1)) := by
        rw [Processes.requests, BoundedFifo.dequeue_some hr]
        rfl
      have hrest : Inv { s with toLogic := q } := by
        refine { h with requests := ?_ }
        intro b' hb'
        exact h.requests b' (hrequests ▸ List.mem_cons_of_mem _ hb')
      have hasks : 0 < p.clientIndex → s.Owned p.clientIndex b.asks := by
        rw [hheader]
        exact h.requests b (hrequests ▸ List.mem_cons_self)
      exact hrest.answered hasks (concerns_package (congrArg BoundedFifo.cap h.channel)
        (Or.inl rfl) (Or.inr le_rfl) (Or.inr (by decide)) hst)
  | drainConnect => cases ht
  | pushMessage =>
    obtain ⟨st, hst, rfl⟩ := Option.map_eq_some_iff.mp ht
    exact hother st (fun _ => nofun) hst
  | sendMultiAck =>
    obtain ⟨st, hst, rfl⟩ := Option.map_eq_some_iff.mp ht
    exact hother st (fun _ => nofun) hst
  | drainPersis =>
    obtain ⟨st, hst, rfl⟩ := Option.map_eq_some_iff.mp ht
    exact hother st (fun _ => nofun) hst
  | rehash tables =>
    obtain ⟨st, hst, rfl⟩ := Option.map_eq_some_iff.mp ht
    exact hother st (fun _ => nofun) hst

theorem Inv.multiAckTurn (h : s.Inv) (ht : s.multiAckTurn = some t) : t.Inv := by
  unfold Processes.multiAckTurn at ht
  split at ht
  · cases ht
  · cases ht
    next entry _ _ =>
      have hturn : (s.handled s.askers (s.logic.sendMultiAckTurn entry)).Inv :=
        h.handled h.subscribed h.producers fun pack _ => addressed_askers h pack
      exact { hturn with }

/-! ## Runs -/

theorem step_inv {a : Step} (h : s.Inv) (hreuse : Reuses s a) (ht : s.step a = some t) :
    t.Inv := by
  cases a with
  | accept =>
    obtain ⟨_, ht⟩ | ⟨hidle, ht⟩ := ite_eq_some ht
    · cases ht
    · cases ht
      exact h.accept (not_not.mp hidle) hreuse
  | receive k packs =>
    obtain ⟨_, ht⟩ | ⟨_, ht⟩ := ite_eq_some ht
    · cases ht
    · exact h.receive ht
  | close k =>
    obtain ⟨_, ht⟩ | ⟨_, ht⟩ := ite_eq_some ht
    · cases ht
    · cases ht
      exact h.closed k
  | putToLogic =>
    cases ht
    exact { h with requests := fun b hb => h.requests b (mem_put hb) }
  | dispatch sendOk =>
    obtain ⟨_, ht⟩ | ⟨_, ht⟩ := ite_eq_some ht
    · cases ht
    · exact h.dequeueToConnect ht
  | sendBuffered k sendOk =>
    obtain ⟨_, ht⟩ | ⟨_, ht⟩ := ite_eq_some ht
    · cases ht
    · cases ht
      exact h.sendBuffered k sendOk
  | turn a =>
    obtain ⟨_, ht⟩ | ⟨_, ht⟩ := ite_eq_some ht
    · cases ht
    · exact h.turn ht
  | multiAckTurn =>
    obtain ⟨_, ht⟩ | ⟨_, ht⟩ := ite_eq_some ht
    · cases ht
    · exact h.multiAckTurn ht
  | putToConnect =>
    cases ht
    exact { h with answers := fun b hb => h.answers b (mem_put hb) }

/-- As long as only vacant slots are given away, every package reaches the connection that it
is meant for. -/
theorem delivered_of_reuses {n : Nat} {capToLogic capToConnect capPersis : Option Nat}
    {as : List Step} (hrun : run (start n capToLogic capToConnect capPersis) as = some t)
    (hreuse : Runs.AllSteps step Reuses (start n capToLogic capToConnect capPersis) as) :
    t.Delivered :=
  (Runs.invariant (fun _ _ _ hi hg h => step_inv hi hg h) (inv_start _ _ _ _) hreuse hrun).written

/-! ## Vacant slots -/

theorem logic_closed (s : Processes) (k : Int) : (s.closed k).logic = s.logic := by
  unfold closed tellClientExit enqueueOnce clientExit
  dsimp only
  split <;> rfl

theorem logic_dispatch (s : Processes) (b : Block) (sendOk : Bool) :
    (s.dispatch b sendOk).logic = s.logic := by
  unfold dispatch
  split_ifs
  · rfl
  · rfl
  · rfl
  · exact logic_closed s b.clientIndex
  · rfl
  · rfl

theorem linked_handled (s : Processes) (conns : Int → List Connection) (h : Linked st) :
    Linked (s.handled conns st).logic :=
  ⟨h.unSubcribeQueues, h.subcribeQueues, h.exchanges, h.fresh⟩

theorem linked_step {a : Step} (h : Linked s.logic) (ht : s.step a = some t) : Linked t.logic := by
  have hsame : t.logic = s.logic → Linked t.logic := fun heq => heq.symm ▸ h
  have hother : ∀ a conns st, s.logic.step a = some st → Linked (s.handled conns st).logic :=
    fun a conns st hst => linked_handled s conns ((step_effects h hst).linked h)
  cases a with
  | accept =>
    obtain ⟨_, ht⟩ | ⟨_, ht⟩ := ite_eq_some ht
    · cases ht
    · cases ht
      refine hsame ?_
      unfold accept
      split <;> rfl
  | receive k packs =>
    obtain ⟨_, ht⟩ | ⟨_, ht⟩ := ite_eq_some ht
    · cases ht
    · obtain ⟨_, ht⟩ | ⟨_, ht⟩ := ite_eq_some ht
      · cases ht
      · cases ht
        exact h
  | close k =>
    obtain ⟨_, ht⟩ | ⟨_, ht⟩ := ite_eq_some ht
    · cases ht
    · cases ht
      exact hsame (logic_closed s k)
  | putToLogic =>
    cases ht
    exact h
  | dispatch sendOk =>
    obtain ⟨_, ht⟩ | ⟨_, ht⟩ := ite_eq_some ht
    · cases ht
    · obtain ⟨r, _, ht⟩ := Option.bind_eq_some_iff.mp ht
      obtain ⟨_, ht⟩ | ⟨_, ht⟩ := ite_eq_some ht
      · cases ht
      · cases ht
        exact hsame (logic_dispatch _ _ _)
  | sendBuffered k sendOk =>
    obtain ⟨_, ht⟩ | ⟨_, ht⟩ := ite_eq_some ht
    · cases ht
    · cases ht
      unfold sendBuffered
      split
      · exact h
      · exact (logic_closed s k).symm ▸ h
  | turn a =>
    obtain ⟨_, ht⟩ | ⟨_, ht⟩ := ite_eq_some ht
    · cases ht
    · cases a with
      | package p =>
        obtain ⟨r, _, ht⟩ := Option.bind_eq_some_iff.mp ht
        obtain ⟨_, ht⟩ | ⟨_, ht⟩ := ite_eq_some ht
        · cases ht
        · obtain ⟨st, hst, rfl⟩ := Option.map_eq_some_iff.mp ht
          exact hother _ (fun _ => r.1.asks) st hst
      | drainConnect => cases ht
      | pushMessage | sendMultiAck | drainPersis | rehash _ =>
        obtain ⟨st, hst, rfl⟩ := Option.map_eq_some_iff.mp ht
        exact hother _ _ st hst
  | multiAckTurn =>
    obtain ⟨_, ht⟩ | ⟨_, ht⟩ := ite_eq_some ht
    · cases ht
    · unfold multiAckTurn at ht
      split at ht
      · cases ht
      · cases ht
        exact linked_handled s s.askers ⟨h.unSubcribeQueues, h.subcribeQueues, h.exchanges, h.fresh⟩
  | putToConnect =>
    cases ht
    exact h

/-- Nothing is on its way, and no queue has subscribers. -/
theorem vacant_of_empty (hlinked : Linked s.logic) (hlogic : s.toLogic.items = [])
    (hconnect : s.toConnect.items = []) (hpending : s.logicPending = [])
    (hnone : ∀ i < s.logic.nextQueue, ∀ q ∈ s.logic.queues i, q.subscribeConsumers = [])
    (hproducers : s.logic.producerLastMsgSeq.entries = []) (k : Int) : s.Vacant k where
  toLogic b hb := by
    rw [hlogic] at hb
    cases hb
  toConnect b hb := by
    rw [hconnect] at hb
    cases hb
  logicPending e he := by
    rw [hpending] at he
    cases he
  subscribed queue h := by
    obtain ⟨q, hq, hin⟩ := h
    rw [hnone queue (hlinked.fresh queue (Option.isSome_of_eq_some hq)) q hq] at hin
    cases hin
  producers h := by
    have hkeys : k ∈ s.logic.producerLastMsgSeq.entries.map Sigma.fst := AList.mem_keys.mp h
    rw [hproducers] at hkeys
    cases hkeys

end

section Runs

attribute [local instance] Platform.plain

/-- A client makes a queue, gets the reply and leaves. -/
def firstClient : List Step :=
  .accept :: (ask 1 (.makeQueue 1 false) ++ [.dispatch true, .sendBuffered 1 true, .close 1])

/-- The next one gets its slot and asks for the same queue. -/
def nextClient : List Step :=
  .accept :: (ask 1 (.makeQueue 1 false) ++ [.dispatch true, .sendBuffered 1 true])

/-- Only the requests fit into the ring, not the notice that the first client is gone. -/
theorem delivered_twoClients :
    ∃ t, run (start 2 (some 200) none none) (firstClient ++ nextClient) = some t ∧
      t.written.map (fun e => (e.1, e.2.conns)) = [(0, [0]), (1, [1])] ∧ t.Delivered := by
  have hfirst : (run (start 2 (some 200) none none) firstClient).map (fun s =>
      decide (s.toLogic.items.length = 0 ∧ s.toConnect.items.length = 0 ∧
        s.logicPending.length = 0 ∧ s.logic.producerLastMsgSeq.entries = [] ∧
        ∀ i < s.logic.nextQueue, ∀ q ∈ s.logic.queues i, q.subscribeConsumers = [])) =
      some true := by decide +kernel
  have hwritten : (run (start 2 (some 200) none none) (firstClient ++ nextClient)).map
      (fun t => t.written.map fun e => (e.1, e.2.conns)) =
        some [(0, [0]), (1, [1])] := by decide +kernel
  obtain ⟨t, ht, hlist⟩ := Option.map_eq_some_iff.mp hwritten
  obtain ⟨s, hs, hprops⟩ := Option.map_eq_some_iff.mp hfirst
  obtain ⟨hlogic, hconnect, hpending, hproducers, hnone⟩ := of_decide_eq_true hprops
  have hvacant : ∀ k, s.Vacant k := vacant_of_empty
    (Runs.invariant_of_step (fun _ _ _ h ht => linked_step h ht) (linked_start none none) hs)
    (List.length_eq_zero_iff.mp hlogic) (List.length_eq_zero_iff.mp hconnect)
    (List.length_eq_zero_iff.mp hpending) hnone hproducers
  refine ⟨t, ht, hlist, delivered_of_reuses ht ?_⟩
  refine Runs.allSteps_append_of ⟨fun k rest _ => ?_, fun r _ => ?_⟩ hs
    ⟨fun k rest _ => hvacant k, fun r _ => ?_⟩
  · exact vacant_of_empty (linked_start none none) rfl rfl rfl
      (fun i hi => absurd hi (Nat.not_lt_zero i)) rfl k
  · refine Runs.allSteps_of_mem (fun s a ha => ?_) r
    simp only [ask, List.cons_append, List.nil_append, List.mem_cons, List.not_mem_nil,
      or_false] at ha
    rcases ha with rfl | rfl | rfl | rfl | rfl | rfl | rfl <;> trivial
  · refine Runs.allSteps_of_mem (fun s a ha => ?_) r
    simp only [ask, List.cons_append, List.nil_append, List.mem_cons, List.not_mem_nil,
      or_false] at ha
    rcases ha with rfl | rfl | rfl | rfl | rfl | rfl <;> trivial

/-- Client 1 asks for a queue and is gone when the reply comes. -/
def goneForReply : List Step :=
  .accept :: (ask 1 (.makeQueue 1 false) ++
    [.close 1, .accept, .dispatch true, .sendBuffered 1 true])

theorem reply_to_next_connection :
    ∃ t, run (start 2 none none none) goneForReply = some t ∧ ¬ t.Delivered := by
  have hwritten : (run (start 2 none none none) goneForReply).map
      (fun t => t.written.map fun e => (e.1, e.2.conns)) = some [(1, [0])] := by decide +kernel
  obtain ⟨t, ht, hlist⟩ := Option.map_eq_some_iff.mp hwritten
  refine ⟨t, ht, fun hdelivered => ?_⟩
  have hin : ((1 : Connection), ([0] : List Connection)) ∈
      t.written.map fun e => (e.1, e.2.conns) := hlist ▸ List.mem_singleton_self _
  obtain ⟨e, he, heq⟩ := List.mem_map.mp hin
  obtain ⟨hconn, hconns⟩ := Prod.mk.inj heq
  have hsame := hdelivered e he 0 (hconns ▸ List.mem_singleton_self _)
  rw [hconn] at hsame
  cases hsame

end Runs

end Wsmq.Processes
