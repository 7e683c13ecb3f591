import Wsmq.LogicServer.Conservation
import Wsmq.LogicServer.Dedup
import Wsmq.LogicServer.Integrity
import Wsmq.LogicServer.MultiAck

/-!
# Exit of a client

`OnClientExit` cancels the subscriptions of the client, and puts the messages that it has not
acknowledged back into their queues, one by one to the front.
-/

namespace Wsmq
open Lib Lib.ByteString Lib.Packing

namespace LogicServer

section Exit

variable [Platform] {st st' : LogicServer} {c : Int} {entry : Σ _ : Name, QueueId}
  {q : MessageQueue}

/-! ## One turn of the loop over the queues -/

/-- The queue `q` of the entry has become `q'`, and stays, is deleted, or changes the map. -/
inductive ExitTurn (st : LogicServer) (entry : Σ _ : Name, QueueId) (q q' : MessageQueue)
    (st' : LogicServer) : Prop
  | stays (hun : st'.unSubcribeQueues = st.unSubcribeQueues)
      (hsub : st'.subcribeQueues = st.subcribeQueues)
      (hqueues : st'.queues = (st.setQueue entry.2 q').queues)
  | deleted (hauto : q.autoDel = true) (hun : st'.unSubcribeQueues = st.unSubcribeQueues)
      (hsub : st'.subcribeQueues = st.subcribeQueues.erase entry.1)
      (hqueues : st'.queues = (st.freeQueue entry.2).queues)
  | moves (hun : st'.unSubcribeQueues = st.unSubcribeQueues.insert q.queueName entry.2)
      (hsub : st'.subcribeQueues = st.subcribeQueues.erase entry.1)
      (hqueues : st'.queues = (st.setQueue entry.2 q').queues)

theorem exitQueue_turn
    (h : (st.setQueue entry.2 (q.cancelSubscribe c)).exitQueue entry (q.cancelSubscribe c) =
      some st') : ExitTurn st entry q (q.cancelSubscribe c) st' := by
  obtain ⟨r, hsend, rfl⟩ := Option.map_eq_some_iff.mp h
  have hr := sendSubscribers_eq hsend
  split
  · dsimp only
    split
    · next hauto =>
      rw [exitAutoDelete, sendPersis_eq, detachQueue, sweepExchanges_eq, hr]
      refine .deleted hauto rfl rfl (funext fun i => ?_)
      simp only [freeQueue, setQueue, eraseSubcribe]
      split
      · rfl
      · rfl
    · rw [hr]
      exact .moves rfl rfl rfl
  · rw [hr]
    exact .stays rfl rfl rfl

/-- What every turn keeps, the loop keeps; `inv` may speak of the entries still to come. -/
theorem exitQueues_invariant (inv : List (Σ _ : Name, QueueId) → LogicServer → Prop)
    (hturn : ∀ entry rest st q st', Linked st → (∀ x ∈ rest, x.1 ≠ entry.1) →
      st.subcribeQueues.lookup entry.1 = some entry.2 → st.queues entry.2 = some q →
      inv (entry :: rest) st → ExitTurn st entry q (q.cancelSubscribe c) st' → inv rest st')
    (entries : List (Σ _ : Name, QueueId)) {st st' : LogicServer} (hl : Linked st)
    (hkeys : (entries.map Sigma.fst).Nodup)
    (hentries : ∀ e ∈ entries, st.subcribeQueues.lookup e.1 = some e.2) (hinv : inv entries st)
    (h : exitQueues c entries st = some st') : Linked st' ∧ inv [] st' := by
  induction entries generalizing st with
  | nil =>
    cases h
    exact ⟨hl, hinv⟩
  | cons e rest ih =>
    obtain ⟨hnew, hkeys⟩ := List.nodup_cons.mp hkeys
    have hne : ∀ x ∈ rest, x.1 ≠ e.1 := fun x hx he => hnew (he ▸ List.mem_map_of_mem hx)
    have hentry := hentries e List.mem_cons_self
    have hrest : ∀ x ∈ rest, st.subcribeQueues.lookup x.1 = some x.2 := fun x hx =>
      hentries x (List.mem_cons_of_mem _ hx)
    simp only [exitQueues] at h
    split at h
    · cases h
    · next q hq =>
      split at h
      · next hleft =>
        obtain ⟨st₁, hone, hloop⟩ := Option.bind_eq_some_iff.mp h
        have hsome : q.subscribeConsumers ≠ [] := by
          intro hnil
          rw [hnil] at hleft
          exact absurd hleft (Nat.not_lt_zero _)
        have hboth : Effects (fun _ => True) st st₁ ∧ _ :=
          exitQueue_effects trivial hl hentry hq hsome hone
        obtain ⟨heffects, hkeep⟩ := hboth
        refine ih (heffects.linked hl) hkeys (fun x hx => ?_)
          (hturn _ _ _ q _ hl hne hentry hq hinv (exitQueue_turn hone)) hloop
        rw [hkeep x.1 (hne x hx)]
        exact hrest x hx
      · have hset : ExitTurn st e q (q.cancelSubscribe c) (st.setQueue e.2 (q.cancelSubscribe c)) :=
          .stays rfl rfl rfl
        have hl' : Linked (st.setQueue e.2 (q.cancelSubscribe c)) :=
          hl.setQueue hq rfl (cancelSubscribe_nil q c)
        exact ih hl' hkeys hrest (hturn _ _ _ q _ hl hne hentry hq hinv hset) h

/-! ## The order of requeued messages -/

/-- What was sent to the client from the queue of this name and is not acknowledged, in the
order of sending. -/
def pending (st : LogicServer) (c : Int) (n : Name) : List SeverStoreMessage :=
  st.needAckMessageList.filter fun m => m.index = c ∧ m.queueName = n

/-- The ordinary queue `id` stands under its name in a map, with these messages. -/
structure Stands (n : Name) (id : QueueId) (ms : List SeverStoreMessage) (st : LogicServer) :
    Prop where
  find : st.findQueue n = some id
  queue : ∃ q, st.queues id = some q ∧ q.autoDel = false ∧ q.priority ≤ 0 ∧ q.messagesList = ms

variable {n : Name} {id : QueueId} {ms : List SeverStoreMessage}

theorem Linked.name_of_subcribe (hl : Linked st) (h : st.subcribeQueues.lookup n = some id)
    (hq : st.queues id = some q) : q.queueName = n := by
  obtain ⟨q₁, hq₁, hn⟩ := hl.subcribeQueues n id h
  cases hq.symm.trans hq₁
  exact hn

/-- The loop over the queues leaves it where it can be found. -/
theorem Stands.turn (h : Stands n id ms st) (hl : Linked st)
    (hentry : st.subcribeQueues.lookup entry.1 = some entry.2) (hq : st.queues entry.2 = some q)
    (ht : ExitTurn st entry q (q.cancelSubscribe c) st') : Stands n id ms st' := by
  obtain ⟨hfind, q₀, hq₀, hauto, hpriority, hms⟩ := h
  have hname := hl.name_of_subcribe hentry hq
  have hother : id ≠ entry.2 → n ≠ entry.1 := by
    rintro hne rfl
    rw [findQueue, hentry] at hfind
    exact hne (Option.some.inj hfind).symm
  have hqueues : st'.queues = (st.setQueue entry.2 (q.cancelSubscribe c)).queues →
      ∃ q, st'.queues id = some q ∧ q.autoDel = false ∧ q.priority ≤ 0 ∧ q.messagesList = ms := by
    intro hset
    rw [hset]
    by_cases hid : id = entry.2
    · subst hid
      cases hq₀.symm.trans hq
      exact ⟨_, if_pos rfl, hauto, hpriority, hms⟩
    · exact ⟨q₀, (if_neg hid).trans hq₀, hauto, hpriority, hms⟩
  cases ht with
  | stays hun hsub hset =>
    refine ⟨?_, hqueues hset⟩
    rw [findQueue, hun, hsub]
    exact hfind
  | deleted hdel hun hsub hfree =>
    have hid : id ≠ entry.2 := by
      rintro rfl
      cases hq₀.symm.trans hq
      rw [hauto] at hdel
      cases hdel
    refine ⟨?_, q₀, ?_, hauto, hpriority, hms⟩
    · rw [findQueue, hun, hsub, AList.lookup_erase_ne (hother hid)]
      exact hfind
    · rw [hfree]
      exact (if_neg hid).trans hq₀
  | moves hun hsub hset =>
    refine ⟨?_, hqueues hset⟩
    rw [findQueue, hun, hsub, hname]
    by_cases hid : id = entry.2
    · subst hid
      have hn : n = entry.1 := (hl.findQueue_name hfind hq).symm.trans hname
      rw [hn, AList.lookup_erase, AList.lookup_insert]
    · rw [AList.lookup_erase_ne (hother hid), AList.lookup_insert_ne (hother hid)]
      exact hfind

/-- Each message goes to the front, so the last one is first. -/
theorem Stands.requeue (l : List SeverStoreMessage) {st st' : LogicServer}
    {ms : List SeverStoreMessage} (h : Stands n id ms st) (hl : Linked st)
    (hrequeue : LogicServer.requeue l st = some st') :
    Stands n id ((l.filter fun m => m.queueName = n).reverse ++ ms) st' := by
  induction l generalizing st ms with
  | nil =>
    cases hrequeue
    exact h
  | cons m l ih =>
    simp only [LogicServer.requeue] at hrequeue
    split at hrequeue
    · next hnone =>
      have hne : m.queueName ≠ n := by
        rintro rfl
        rw [h.find] at hnone
        cases hnone
      rw [List.filter_cons_of_neg (by simpa using hne)]
      exact ih h hl hrequeue
    · next i hi =>
      split at hrequeue
      · cases hrequeue
      · next q hq =>
        have hadded := q.addMessageFront_added m
        have hl' : Linked (st.setQueue i (q.addMessageFront m)) :=
          hl.setQueue hq hadded.queueName fun hnil => hadded.consumers.trans hnil
        obtain ⟨hfind, q₀, hq₀, hauto, hpriority, hms⟩ := h
        by_cases hname : m.queueName = n
        · rw [hname, hfind] at hi
          cases hi
          cases hq₀.symm.trans hq
          have hfront : q.addMessageFront m = { q with messagesList := m :: q.messagesList } :=
            if_neg fun hp => absurd hp.1 (Int.not_lt.mpr hpriority)
          have hset : Stands n id (m :: ms) (st.setQueue id (q.addMessageFront m)) := by
            refine ⟨hfind, _, if_pos rfl, ?_⟩
            rw [hfront]
            exact ⟨hauto, hpriority, congrArg _ hms⟩
          have hrest := ih hset hl' hrequeue
          rw [List.filter_cons_of_pos (by simpa using hname), List.reverse_cons,
            List.append_assoc]
          exact hrest
        · have hid : id ≠ i := by
            rintro rfl
            have hn := hl.findQueue_name hi hq
            exact hname (hn.symm.trans (hl.findQueue_name hfind hq))
          have hset : Stands n id ms (st.setQueue i (q.addMessageFront m)) :=
            ⟨hfind, q₀, (if_neg hid).trans hq₀, hauto, hpriority, hms⟩
          rw [List.filter_cons_of_neg (by simpa using hname)]
          exact ih hset hl' hrequeue

/-- The messages come back in the reverse of the order of sending. -/
theorem onClientExit_reverses (hl : Linked st) (h : st.onClientExit c = some st')
    (hstands : Stands n id ms st) : Stands n id ((pending st c n).reverse ++ ms) st' := by
  obtain ⟨st₁, hqueues, hneed⟩ := Option.bind_eq_some_iff.mp h
  obtain ⟨st₂, hrequeue, rfl⟩ := Option.map_eq_some_iff.mp hneed
  have hprune : Effects (fun _ => True) st (st.pruneMsgSeqs c) := .single trivial (.producers _ _)
  obtain ⟨hl₁, hstands₁⟩ := exitQueues_invariant (fun _ => Stands n id ms)
    (fun _ _ _ _ _ hl _ hentry hq hs ht => hs.turn hl hentry hq ht) st.subcribeQueues.entries
    (hprune.linked hl) st.subcribeQueues.nodupKeys (fun _ he => AList.mem_lookup_iff.mpr he)
    ⟨hstands.find, hstands.queue⟩ hqueues
  have hneedAck : st₁.needAckMessageList = (st.pruneMsgSeqs c).needAckMessageList :=
    exitQueues_needAck _ hqueues
  have hback := hstands₁.requeue _ hl₁ hrequeue
  rw [List.filter_filter, hneedAck] at hback
  have hpending : ((st.pruneMsgSeqs c).needAckMessageList.filter fun m => m.queueName = n && m.index = c) =
      pending st c n := by
    refine List.filter_congr fun m _ => ?_
    rw [Bool.decide_and, Bool.and_comm]
  rw [hpending] at hback
  exact ⟨hback.find, hback.queue⟩

/-- The messages that wait are different ones. -/
theorem pending_nodup (hs : Sound st) (c : Int) (n : Name) : (pending st c n).Nodup := by
  have hids : (st.needAckMessageList.map (·.id)).Nodup := Multiset.coe_nodup.mp
    (hs.onePlace.single.nodup none)
  exact (List.Nodup.of_map _ hids).filter _

omit [Platform] in
theorem reverse_eq_self_iff {α : Type} {l : List α} (h : l.Nodup) :
    l.reverse = l ↔ l.length ≤ 1 := by
  cases l with
  | nil => exact iff_of_true rfl (Nat.zero_le 1)
  | cons a rest =>
    rcases rest.eq_nil_or_concat with rfl | ⟨l, b, rfl⟩
    · exact iff_of_true rfl (Nat.le_refl 1)
    · refine iff_of_false (fun heq => ?_) (by simp)
      rw [List.concat_eq_append, List.reverse_cons, List.reverse_append,
        List.reverse_singleton] at heq
      have hab : b = a := (List.cons.inj heq).1
      exact (List.nodup_cons.mp h).1 (by simp [hab])

/-- The queue has got back what was sent to the client, in the order of sending. -/
def RequeuesInOrder (st : LogicServer) (c : Int) (n : Name) (id : QueueId) (q : MessageQueue)
    (st' : LogicServer) : Prop :=
  st'.findQueue n = some id ∧
    ∃ q', st'.queues id = some q' ∧ q'.messagesList = pending st c n ++ q.messagesList

/-- The order is kept when there is at most one message. -/
theorem requeuesInOrder_iff {capConnect capPersis : Option Nat} {as : List Step}
    (hrun : run (start capConnect capPersis) as = some st) (h : st.onClientExit c = some st')
    (hfind : st.findQueue n = some id) (hq : st.queues id = some q) (hauto : q.autoDel = false)
    (hordinary : q.priority ≤ 0) :
    RequeuesInOrder st c n id q st' ↔ (pending st c n).length ≤ 1 := by
  have hs := (sound_start capConnect capPersis).run hrun
  have hstands : Stands n id q.messagesList st := ⟨hfind, q, hq, hauto, hordinary, rfl⟩
  obtain ⟨hfind', q', hq', _, _, hmessages⟩ := onClientExit_reverses hs.linked h hstands
  rw [← reverse_eq_self_iff (pending_nodup hs c n)]
  constructor
  · rintro ⟨_, q'', hq'', horder⟩
    cases hq'.symm.trans hq''
    exact List.append_cancel_right (hmessages.symm.trans horder)
  · intro hsame
    refine ⟨hfind', q', hq', ?_⟩
    rw [hmessages, hsame]

/-! ## What is left of the client -/

/-- No queue has a consumer twice. -/
def SingleConsumers (st : LogicServer) : Prop :=
  ∀ id q, st.queues id = some q → q.subscribeConsumers.Nodup

theorem SingleConsumers.setQueue (h : SingleConsumers st) {q' : MessageQueue}
    (hnodup : q'.subscribeConsumers.Nodup) (id : QueueId) :
    SingleConsumers (st.setQueue id q') := by
  intro i x hx
  by_cases hi : i = id
  · subst hi
    cases (if_pos rfl).symm.trans hx
    exact hnodup
  · exact h i x ((if_neg hi).symm.trans hx)

theorem singleConsumers_of_effect {k : Kind} (h : SingleConsumers st) (he : Effect st k st') :
    SingleConsumers st' := by
  cases he with
  | makeQueue q _ hsubs =>
    have hnew : q.subscribeConsumers.Nodup := hsubs ▸ List.nodup_nil
    exact h.setQueue hnew st.nextQueue
  | adjust queue q q' hq hsame => exact h.setQueue (hsame.nodup (h _ q hq)) queue
  | resubscribe _ queue q q' hq hsame => exact h.setQueue (hsame.nodup (h _ q hq)) queue
  | subscribe _ queue q q' hq hsame => exact h.setQueue (hsame.nodup (h _ q hq)) queue
  | clear queue q hq =>
    have hnodup : q.clearMessage.subscribeConsumers.Nodup := h _ q hq
    exact h.setQueue hnodup queue
  | free queue =>
    intro i x hx
    by_cases hi : i = queue
    · cases (if_pos hi).symm.trans hx
    · exact h i x ((if_neg hi).symm.trans hx)
  | store p c queue q q' pMsg hq hsame =>
    have hnodup := hsame.nodup (h _ q hq)
    exact h.setQueue ((MessageQueue.addMessage_added q' pMsg).consumers ▸ hnodup) queue
  | await queue q q' m m' hq hpop =>
    have hnodup : q'.subscribeConsumers.Nodup := hpop.consumers ▸ h _ q hq
    exact h.setQueue hnodup queue
  | deliver queue q q' m hq hpop =>
    have hnodup : q'.subscribeConsumers.Nodup := hpop.consumers ▸ h _ q hq
    exact h.setQueue hnodup queue
  | giveBack queue q m l hq =>
    exact h.setQueue ((MessageQueue.addMessageFront_added q m).consumers ▸ h _ q hq) queue
  | channels => exact h
  | producers => exact h
  | rehash => exact h
  | makeExchange => exact h
  | bind => exact h
  | unbind => exact h
  | dropExchange => exact h
  | unsubscribe => exact h
  | dropSubcribe => exact h
  | dropUnSubcribe => exact h
  | ack => exact h
  | forget => exact h
  | arrange => exact h

theorem singleConsumers_of_run {capConnect capPersis : Option Nat} {as : List Step}
    (hrun : run (start capConnect capPersis) as = some st) : SingleConsumers st := by
  have heffect : ∀ (a : Step) s k s', Linked s ∧ SingleConsumers s → StepKind a k →
      Effect s k s' → Linked s' ∧ SingleConsumers s' := fun _ _ _ _ hi _ he =>
    ⟨linked_of_effect hi.1 he, singleConsumers_of_effect hi.2 he⟩
  have hstep : ∀ s a s', Linked s ∧ SingleConsumers s → step s a = some s' →
      Linked s' ∧ SingleConsumers s' := fun s a s' hi hs =>
    (step_effects hi.1 hs).invariant (heffect a) hi
  have hnone : SingleConsumers (start capConnect capPersis) := fun id q hq => by cases hq
  exact (Runs.invariant_of_step hstep ⟨linked_start capConnect capPersis, hnone⟩ hrun).2

/-- Nothing that the server keeps is about client `i`. -/
structure NoTrace (st : LogicServer) (i : Int) : Prop where
  msgSeqs : ∀ s, msgSeqKey i s ∉ st.producerMsgSeqs
  lastMsgSeq : i ∉ st.producerLastMsgSeq
  subcribed : ∀ n id q, st.subcribeQueues.lookup n = some id → st.queues id = some q →
    i ∉ q.subscribeConsumers
  unSubcribed : ∀ n id q, st.unSubcribeQueues.lookup n = some id → st.queues id = some q →
    i ∉ q.subscribeConsumers
  needAck : ∀ m ∈ st.needAckMessageList, m.index ≠ i

/-- The client is out of the queues that the loop has passed. -/
structure Cleared (c : Int) (rest : List (Σ _ : Name, QueueId)) (st : LogicServer) : Prop where
  single : SingleConsumers st
  passed : ∀ n id q, (∀ x ∈ rest, x.1 ≠ n) → st.subcribeQueues.lookup n = some id →
    st.queues id = some q → c ∉ q.subscribeConsumers

theorem Cleared.turn {rest : List (Σ _ : Name, QueueId)} (h : Cleared c (entry :: rest) st)
    (hl : Linked st) (hentry : st.subcribeQueues.lookup entry.1 = some entry.2)
    (hq : st.queues entry.2 = some q) (ht : ExitTurn st entry q (q.cancelSubscribe c) st') :
    Cleared c rest st' := by
  have hnodup := h.single _ q hq
  have hout : c ∉ (q.cancelSubscribe c).subscribeConsumers := by
    rw [MessageQueue.cancelSubscribe, MessageQueue.eraseConsumer_of_nodup c hnodup]
    simp
  -- under another name stands another queue, which was passed before or is still to come
  have hpassed : (∀ id, id ≠ entry.2 → st'.queues id = st.queues id) →
      (∀ n id, st'.subcribeQueues.lookup n = some id →
        n ≠ entry.1 ∧ st.subcribeQueues.lookup n = some id ∨
          st'.queues id = some (q.cancelSubscribe c)) →
      ∀ n id x, (∀ y ∈ rest, y.1 ≠ n) → st'.subcribeQueues.lookup n = some id →
        st'.queues id = some x → c ∉ x.subscribeConsumers := by
    intro hqueues hlookup n id x hrest hid hx
    rcases hlookup n id hid with ⟨hn, hid⟩ | hset
    · have hne : id ≠ entry.2 := by
        rintro rfl
        exact hn ((hl.name_of_subcribe hid hq).symm.trans (hl.name_of_subcribe hentry hq))
      rw [hqueues id hne] at hx
      refine h.passed n id x (fun y hy => ?_) hid hx
      rcases List.mem_cons.mp hy with rfl | hy
      · exact hn.symm
      · exact hrest y hy
    · cases hset.symm.trans hx
      exact hout
  have herased : ∀ n id, (st.subcribeQueues.erase entry.1).lookup n = some id →
      n ≠ entry.1 ∧ st.subcribeQueues.lookup n = some id := by
    intro n id hid
    by_cases hn : n = entry.1
    · rw [hn, AList.lookup_erase] at hid
      cases hid
    · rw [AList.lookup_erase_ne hn] at hid
      exact ⟨hn, hid⟩
  have hset : SingleConsumers (st.setQueue entry.2 (q.cancelSubscribe c)) :=
    h.single.setQueue (hnodup.sublist (MessageQueue.eraseConsumer_sublist c _)) entry.2
  cases ht with
  | stays hun hsub hqueues =>
    refine ⟨fun i x hx => hset i x (hqueues ▸ hx), hpassed (fun i hi => ?_) fun n id hid => ?_⟩
    · rw [hqueues]
      exact if_neg hi
    · rw [hsub] at hid
      by_cases hn : n = entry.1
      · subst hn
        cases hentry.symm.trans hid
        rw [hqueues]
        exact Or.inr (if_pos rfl)
      · exact Or.inl ⟨hn, hid⟩
  | deleted hauto hun hsub hqueues =>
    refine ⟨fun i x hx => ?_, hpassed (fun i hi => ?_) fun n id hid => ?_⟩
    · rw [hqueues] at hx
      by_cases hi : i = entry.2
      · cases (if_pos hi).symm.trans hx
      · exact h.single i x ((if_neg hi).symm.trans hx)
    · rw [hqueues]
      exact if_neg hi
    · rw [hsub] at hid
      exact Or.inl (herased n id hid)
  | moves hun hsub hqueues =>
    refine ⟨fun i x hx => hset i x (hqueues ▸ hx), hpassed (fun i hi => ?_) fun n id hid => ?_⟩
    · rw [hqueues]
      exact if_neg hi
    · rw [hsub] at hid
      exact Or.inl (herased n id hid)

/-- Giving messages back changes neither the tables nor the subscribers. -/
theorem requeue_consumers (l : List SeverStoreMessage) {st st' : LogicServer}
    (h : requeue l st = some st') : st'.subcribeQueues = st.subcribeQueues ∧
      ∀ id q', st'.queues id = some q' →
        ∃ q, st.queues id = some q ∧ q'.subscribeConsumers = q.subscribeConsumers := by
  induction l generalizing st with
  | nil =>
    cases h
    exact ⟨rfl, fun id q hq => ⟨q, hq, rfl⟩⟩
  | cons m l ih =>
    simp only [requeue] at h
    split at h
    · exact ih h
    · next i _ =>
      split at h
      · cases h
      · next q hq =>
        obtain ⟨htable, hqueues⟩ := ih h
        refine ⟨htable, fun id q' hq' => ?_⟩
        obtain ⟨x, hx, hsubs⟩ := hqueues id q' hq'
        by_cases hid : id = i
        · subst hid
          cases (if_pos rfl).symm.trans hx
          exact ⟨q, hq, hsubs.trans (q.addMessageFront_added m).consumers⟩
        · exact ⟨x, (if_neg hid).symm.trans hx, hsubs⟩

/-- After the exit all is gone but the number that waits for the next batch acknowledgement. -/
theorem noTrace_iff {capConnect capPersis : Option Nat} {as : List Step}
    (hrun : run (start capConnect capPersis) as = some st) {i : Int}
    (h : st.onClientExit i = some st') : NoTrace st' i ↔ i ∉ st.producerLastMsgSeq := by
  have hview := view_onClientExit h
  obtain ⟨hseqs, hrest⟩ := Prod.mk.inj hview
  have hlast : st'.producerLastMsgSeq = st.producerLastMsgSeq := (Prod.mk.inj hrest).1
  rw [← hlast]
  refine ⟨fun hnone => hnone.lastMsgSeq, fun hout => ?_⟩
  have hl := linked_of_run hrun
  have heffects : Effects (fun _ => True) st st' := onClientExit_effects trivial trivial hl h
  have hl' := heffects.linked hl
  obtain ⟨st₁, hqueues, hneed⟩ := Option.bind_eq_some_iff.mp h
  obtain ⟨st₂, hrequeue, rfl⟩ := Option.map_eq_some_iff.mp hneed
  have hprune : Effects (fun _ => True) st (st.pruneMsgSeqs i) := .single trivial (.producers _ _)
  have hstart : Cleared i st.subcribeQueues.entries (st.pruneMsgSeqs i) := by
    have hsingle := singleConsumers_of_run hrun
    refine ⟨hsingle, fun n id q hout hid _ => ?_⟩
    exact absurd rfl (hout ⟨n, id⟩ (AList.mem_lookup_iff.mp hid))
  obtain ⟨_, hcleared⟩ := exitQueues_invariant (Cleared i)
    (fun _ _ _ _ _ hl _ hentry hq hc ht => hc.turn hl hentry hq ht) st.subcribeQueues.entries
    (hprune.linked hl) st.subcribeQueues.nodupKeys (fun _ he => AList.mem_lookup_iff.mpr he)
    hstart hqueues
  obtain ⟨htable, hsubs⟩ := requeue_consumers _ hrequeue
  refine ⟨fun s hkey => ?_, hout, fun n id q hid hq => ?_, fun n id q hid hq => ?_, fun m hm => ?_⟩
  · rw [hseqs] at hkey
    have hno := (List.mem_filter.mp hkey).2
    have hstarts : (toString i).isPrefixOf (msgSeqKey i s) = true := by
      rw [List.isPrefixOf_iff_prefix, msgSeqKey, List.append_assoc]
      exact List.prefix_append _ _
    rw [hstarts] at hno
    exact absurd hno (by decide)
  · obtain ⟨x, hx, hsame⟩ := hsubs id q hq
    rw [hsame]
    refine hcleared.passed n id x (fun _ hy => nomatch hy) ?_ hx
    rw [← htable]
    exact hid
  · obtain ⟨x, hx, _, hnil⟩ := hl'.unSubcribeQueues n id hid
    cases hx.symm.trans hq
    rw [hnil]
    exact List.not_mem_nil
  · exact of_decide_eq_true (List.mem_filter.mp hm).2

end Exit

section Runs

attribute [local instance] Platform.plain

/-- A message is published to the queue of client 1 and pushed to it. -/
def onePushed : List Step :=
  [.makeQueue 1 false, .makeExchange 1, .makeBinding 1, .publish 1 false 0 0, .subscribe 1,
    .pushMessage]

theorem requeuesInOrder_onePushed : ∃ st st' q, run (start none none) onePushed = some st ∧
    st.onClientExit 1 = some st' ∧ st.queues 0 = some q ∧
      RequeuesInOrder st 1 (ascii "q") 0 q st' := by
  have hstate : (run (start none none) onePushed).bind (fun st =>
      (st.onClientExit 1).bind fun st' => (st.queues 0).map fun q =>
        (st.findQueue (ascii "q"), q.autoDel, q.priority, (pending st 1 (ascii "q")).length)) =
      some (some 0, false, -1, 1) := by decide +kernel
  obtain ⟨st, hrun, h⟩ := Option.bind_eq_some_iff.mp hstate
  obtain ⟨st', hexit, h⟩ := Option.bind_eq_some_iff.mp h
  obtain ⟨q, hq, h⟩ := Option.map_eq_some_iff.mp h
  obtain ⟨hfind, h⟩ := Prod.mk.inj h
  obtain ⟨hauto, h⟩ := Prod.mk.inj h
  obtain ⟨hpriority, hlength⟩ := Prod.mk.inj h
  refine ⟨st, st', q, hrun, hexit, hq, ?_⟩
  exact (requeuesInOrder_iff hrun hexit hfind hq hauto (by omega)).mpr (by omega)

/-- Two messages are pushed. -/
def twoPushed : List Step :=
  [.makeQueue 1 false, .makeExchange 1, .makeBinding 1, .publish 1 false 0 0, .publish 1 false 1 0,
    .subscribe 1, .pushMessage]

/-- They come back the other way round. -/
theorem two_reversed : ∃ st st' q, run (start none none) twoPushed = some st ∧
    st.onClientExit 1 = some st' ∧ st.findQueue (ascii "q") = some 0 ∧ st.queues 0 = some q ∧
      q.autoDel = false ∧ q.priority ≤ 0 ∧ ¬ RequeuesInOrder st 1 (ascii "q") 0 q st' := by
  have hstate : (run (start none none) twoPushed).bind (fun st =>
      (st.onClientExit 1).bind fun st' => (st.queues 0).bind fun q => (st'.queues 0).map fun q' =>
        (st.findQueue (ascii "q"), q.autoDel, q.priority,
          (pending st 1 (ascii "q") ++ q.messagesList).map (·.id), q'.messagesList.map (·.id))) =
      some (some 0, false, -1, [0, 1], [1, 0]) := by decide +kernel
  obtain ⟨st, hrun, h⟩ := Option.bind_eq_some_iff.mp hstate
  obtain ⟨st', hexit, h⟩ := Option.bind_eq_some_iff.mp h
  obtain ⟨q, hq, h⟩ := Option.bind_eq_some_iff.mp h
  obtain ⟨q', hq', h⟩ := Option.map_eq_some_iff.mp h
  obtain ⟨hfind, h⟩ := Prod.mk.inj h
  obtain ⟨hauto, h⟩ := Prod.mk.inj h
  obtain ⟨hpriority, h⟩ := Prod.mk.inj h
  obtain ⟨hsent, hback⟩ := Prod.mk.inj h
  refine ⟨st, st', q, hrun, hexit, hfind, hq, hauto, by omega, ?_⟩
  rintro ⟨_, q'', hq'', horder⟩
  cases hq'.symm.trans hq''
  rw [← horder, hback] at hsent
  exact absurd hsent (by decide)

theorem noTrace_onePushed : ∃ st st', run (start none none) onePushed = some st ∧
    st.onClientExit 1 = some st' ∧ NoTrace st' 1 := by
  have hstate : (run (start none none) onePushed).bind (fun st =>
      (st.onClientExit 1).map fun st' => decide (1 ∈ st.producerLastMsgSeq)) = some false := by
    decide +kernel
  obtain ⟨st, hrun, h⟩ := Option.bind_eq_some_iff.mp hstate
  obtain ⟨st', hexit, hout⟩ := Option.map_eq_some_iff.mp h
  exact ⟨st, st', hrun, hexit, (noTrace_iff hrun hexit).mpr (of_decide_eq_false hout)⟩

/-- The number of a batch publish stays behind. -/
theorem trace_batchPublish : ∃ st st', run (start none none) batchPublish = some st ∧
    st.onClientExit 1 = some st' ∧ ¬ NoTrace st' 1 := by
  have hstate : (run (start none none) batchPublish).bind (fun st =>
      (st.onClientExit 1).map fun st' => decide (1 ∈ st'.producerLastMsgSeq)) = some true := by
    decide +kernel
  obtain ⟨st, hrun, h⟩ := Option.bind_eq_some_iff.mp hstate
  obtain ⟨st', hexit, hin⟩ := Option.map_eq_some_iff.mp h
  exact ⟨st, st', hrun, hexit, fun hnone => hnone.lastMsgSeq (of_decide_eq_true hin)⟩

end Runs

end LogicServer

end Wsmq
