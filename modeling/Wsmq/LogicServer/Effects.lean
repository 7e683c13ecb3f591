import Mathlib.Logic.Relation
import Wsmq.Lib.AssocTables
import Wsmq.LogicServer.Run

/-!
# What a step can do to the server

`Effect` lists the changes of the state that the handlers are made of, whatever the channels
hold or refuse.  Every step is a sequence of them (`LogicServer.StepEffects`), so what each of
them preserves, every run preserves.
-/

namespace Wsmq.LogicServer
open Lib Lib.ByteString

variable [Platform]

/-- A message is taken out of a queue, or out of `m_NeedAckMessageList`, or neither. -/
inductive Kind
  | sends
  | settles
  | other
  deriving DecidableEq

/-- The longest body that the client library packs with names of any length. -/
def maxBodyLength : Nat := maxClintPackageLength - 80

/-- The message goes into a package as a message. -/
structure Proper (pMsg : SeverStoreMessage) : Prop where
  body : pMsg.msgBody.length ≤ maxBodyLength
  cmdId : pMsg.cmdId = cmdClientPullMessage ∨ pMsg.cmdId = cmdServerPushMessage

/-- The queue is the same object under the same name, and no consumer comes in twice. -/
structure SameObject (q q' : MessageQueue) : Prop where
  queueName : q'.queueName = q.queueName
  messages : q'.messages = q.messages
  nodup : q.subscribeConsumers.Nodup → q'.subscribeConsumers.Nodup

inductive Effect (st : LogicServer) : Kind → LogicServer → Prop
  /-- Something was put into a channel or taken out. -/
  | channels (toConnect toPersis : ShmQueue.Fifo) :
      Effect st .other { st with queueToConnect := toConnect, queueToPersis := toPersis }
  /-- The numbers of the producers have changed. -/
  | producers (seqs : List Bytes) (last : AList fun _ : Int => Int) :
      Effect st .other { st with producerMsgSeqs := seqs, producerLastMsgSeq := last }
  | rehash (t : Tables) (hsame : SameTables t st) :
      Effect st .other
        { st with
          unSubcribeQueues := t.unSubcribeQueues
          subcribeQueues := t.subcribeQueues
          exchanges := t.exchanges
          producerMsgSeqs := t.producerMsgSeqs
          producerLastMsgSeq := t.producerLastMsgSeq }
  | makeExchange (n : Name) (e : Exchange) (hempty : e.bindingQueues = ∅) :
      Effect st .other (st.setExchanges (st.exchanges.insert n e))
  | bind (n k m : Name) (e : Exchange) (queue : QueueId) (he : st.exchanges.lookup n = some e)
      (hqueue : st.unSubcribeQueues.lookup m = some queue ∨
        st.subcribeQueues.lookup m = some queue) :
      Effect st .other (st.setExchanges (st.exchanges.replace n (e.createBinding k queue)))
  | unbind (n : Name) (e : Exchange) (queue : QueueId) (he : st.exchanges.lookup n = some e) :
      Effect st .other (st.setExchanges (st.exchanges.replace n (e.deleteBindingQueue queue)))
  | dropExchange (n : Name) : Effect st .other (st.setExchanges (st.exchanges.erase n))
  | makeQueue (q : MessageQueue) (hmessages : q.messages = [])
      (hsubs : q.subscribeConsumers = []) : Effect st .other (st.newQueue q)
  /-- A queue object changes, and gets no first subscriber. -/
  | adjust (queue : QueueId) (q q' : MessageQueue) (hq : st.queues queue = some q)
      (hsame : SameObject q q')
      (hsubs : q.subscribeConsumers = [] → q'.subscribeConsumers = []) :
      Effect st .other (st.setQueue queue q')
  /-- The same, for a queue that is not in `m_mUnSubcribeQueues`. -/
  | resubscribe (n : Name) (queue : QueueId) (q q' : MessageQueue)
      (hq : st.queues queue = some q) (hsame : SameObject q q') (hname : q.queueName = n)
      (hun : n ∉ st.unSubcribeQueues) : Effect st .other (st.setQueue queue q')
  | subscribe (n : Name) (queue : QueueId) (q q' : MessageQueue)
      (hq : st.queues queue = some q) (hsame : SameObject q q') (hname : q.queueName = n) :
      Effect st .other
        (((st.setQueue queue q').eraseUnSubcribe n).insertSubcribe n queue)
  | unsubscribe (queue : QueueId) (q : MessageQueue) (hq : st.queues queue = some q)
      (hsubs : q.subscribeConsumers = []) :
      Effect st .other (st.insertUnSubcribe q.queueName queue)
  | dropSubcribe (n : Name) : Effect st .other (st.eraseSubcribe n)
  | dropUnSubcribe (n : Name) : Effect st .other (st.eraseUnSubcribe n)
  | clear (queue : QueueId) (q : MessageQueue) (hq : st.queues queue = some q) :
      Effect st .other (st.setQueue queue q.clearMessage)
  | free (queue : QueueId) (hun : ∀ n, st.unSubcribeQueues.lookup n ≠ some queue)
      (hsub : ∀ n, st.subcribeQueues.lookup n ≠ some queue)
      (hbound : ∀ n e, st.exchanges.lookup n = some e →
        ∀ k l, e.bindingQueues.lookup k = some l → queue ∉ l) :
      Effect st .other (st.freeQueue queue)
  | store (p : Publish) (c : Int) (queue : QueueId) (q q' : MessageQueue)
      (pMsg : SeverStoreMessage) (hq : st.queues queue = some q) (hsame : SameObject q q')
      (hsubs : q'.subscribeConsumers = q.subscribeConsumers) (hid : pMsg.id = st.nextMsg)
      (hproper : Proper pMsg) :
      Effect st .other (st.addMessage p c queue q' pMsg)
  /-- A message leaves its queue and waits for an acknowledgement. -/
  | await (queue : QueueId) (q q' : MessageQueue) (m m' : SeverStoreMessage)
      (hq : st.queues queue = some q) (hpop : MessageQueue.Popped q m q') (hid : m'.id = m.id)
      (hseq : m'.msgSeq = st.ackSeqInt) (hproper : Proper m → Proper m') :
      Effect st .sends ((st.setQueue queue q').pushNeedAck m')
  /-- A message leaves its queue and is deleted. -/
  | deliver (queue : QueueId) (q q' : MessageQueue) (m : SeverStoreMessage)
      (hq : st.queues queue = some q) (hpop : MessageQueue.Popped q m q') :
      Effect st .sends ((st.setQueue queue q').record (.sentNoAck m.id))
  | ack (m : SeverStoreMessage) (l : List SeverStoreMessage) (iAckSeq : Int)
      (hperm : st.needAckMessageList.Perm (m :: l)) :
      Effect st .settles ((st.setNeedAck l).record (.acked m.id iAckSeq))
  | giveBack (queue : QueueId) (q : MessageQueue) (m : SeverStoreMessage)
      (l : List SeverStoreMessage) (hq : st.queues queue = some q)
      (hperm : st.needAckMessageList.Perm (m :: l)) :
      Effect st .settles ((st.setQueue queue (q.addMessageFront m)).setNeedAck l)
  | forget (m : SeverStoreMessage) (l : List SeverStoreMessage)
      (hperm : st.needAckMessageList.Perm (m :: l)) : Effect st .settles (st.setNeedAck l)
  | arrange (l : List SeverStoreMessage) (hperm : st.needAckMessageList.Perm l) :
      Effect st .other (st.setNeedAck l)

/-- Effects of the allowed kinds, one after the other. -/
def Effects (allowed : Kind → Prop) : LogicServer → LogicServer → Prop :=
  Relation.ReflTransGen fun st st' => ∃ k, allowed k ∧ Effect st k st'

namespace Effects

variable {allowed : Kind → Prop} {st st' st'' : LogicServer}

theorem refl (st : LogicServer) : Effects allowed st st := Relation.ReflTransGen.refl

theorem single {k : Kind} (hk : allowed k) (h : Effect st k st') : Effects allowed st st' :=
  Relation.ReflTransGen.single ⟨k, hk, h⟩

theorem trans (h : Effects allowed st st') (h' : Effects allowed st' st'') :
    Effects allowed st st'' := Relation.ReflTransGen.trans h h'

theorem mono {allowed' : Kind → Prop} (hsub : ∀ k, allowed k → allowed' k)
    (h : Effects allowed st st') : Effects allowed' st st' := by
  induction h with
  | refl => exact .refl _
  | tail _ hlast ih =>
    obtain ⟨k, hk, he⟩ := hlast
    exact ih.trans (.single (hsub k hk) he)

/-- The rule for invariants of effects. -/
theorem invariant {inv : LogicServer → Prop}
    (heffect : ∀ st k st', inv st → allowed k → Effect st k st' → inv st') (hs : inv st)
    (h : Effects allowed st st') : inv st' := by
  induction h with
  | refl => exact hs
  | tail _ hlast ih =>
    obtain ⟨k, hk, he⟩ := hlast
    exact heffect _ k _ ih hk he

end Effects

/-! ## Queues that are referred to -/

/-- Under each key stands one queue, and it is alive.  `CreateBinding` adds further queues to a
copy of the list, and `DeleteBindingQueue` relies on that. -/
def BindsLive (e : Exchange) (queues : QueueId → Option MessageQueue) : Prop :=
  ∀ k l, e.bindingQueues.lookup k = some l → ∃ queue, l = [queue] ∧ (queues queue).isSome

/-- What the tables refer to is alive and has the name it is found by. -/
structure Linked (st : LogicServer) : Prop where
  unSubcribeQueues : ∀ n queue, st.unSubcribeQueues.lookup n = some queue →
    ∃ q, st.queues queue = some q ∧ q.queueName = n ∧ q.subscribeConsumers = []
  subcribeQueues : ∀ n queue, st.subcribeQueues.lookup n = some queue →
    ∃ q, st.queues queue = some q ∧ q.queueName = n
  exchanges : ∀ n e, st.exchanges.lookup n = some e → BindsLive e st.queues
  fresh : ∀ queue, (st.queues queue).isSome → queue < st.nextQueue

variable {st st' : LogicServer} {e : Exchange} {queue : QueueId} {q q' : MessageQueue}

theorem linked_start (capConnect capPersis : Option Nat) : Linked (start capConnect capPersis) :=
  ⟨(fun _ _ h => nomatch h), (fun _ _ h => nomatch h), (fun _ _ h => nomatch h),
    (fun _ h => nomatch h)⟩

theorem BindsLive.mono {queues queues' : QueueId → Option MessageQueue} (h : BindsLive e queues)
    (hlive : ∀ i, (queues i).isSome → (queues' i).isSome) : BindsLive e queues' := by
  intro k l hl
  obtain ⟨i, hi, hq⟩ := h k l hl
  exact ⟨i, hi, hlive i hq⟩

theorem BindsLive.createBinding (h : BindsLive e st.queues) (k : Name)
    (hq : (st.queues queue).isSome) : BindsLive (e.createBinding k queue) st.queues := by
  unfold Exchange.createBinding
  split
  · exact h
  · intro k' l hl
    rcases AssocTables.lookup_insert_some hl with ⟨_, rfl⟩ | ⟨_, hold⟩
    · exact ⟨queue, rfl, hq⟩
    · exact h k' l hold

omit [Platform] in
theorem lookup_deleteBindingQueue {k : Name} {l : List QueueId}
    (hl : (e.deleteBindingQueue queue).bindingQueues.lookup k = some l) :
    e.bindingQueues.lookup k = some l ∧ l.filter (· ≠ queue) ≠ [] := by
  obtain ⟨hold, hkept⟩ := AssocTables.lookup_foldl_erase
    (fun b => b.2.filter (· ≠ queue) = []) e.bindingQueues.entries hl
  exact ⟨hold, hkept ⟨k, l⟩ (AList.mem_lookup_iff.mp hold) rfl⟩

theorem BindsLive.deleteBindingQueue {queues : QueueId → Option MessageQueue}
    (h : BindsLive e queues) : BindsLive (e.deleteBindingQueue queue) queues := by
  intro k l hl
  exact h k l (lookup_deleteBindingQueue hl).1

/-- The edited copies are worth what the list in the map would be, because it has one entry. -/
theorem BindsLive.not_mem_deleteBindingQueue {queues : QueueId → Option MessageQueue}
    (h : BindsLive e queues) {k : Name} {l : List QueueId}
    (hl : (e.deleteBindingQueue queue).bindingQueues.lookup k = some l) : queue ∉ l := by
  obtain ⟨hold, hkept⟩ := lookup_deleteBindingQueue hl
  obtain ⟨i, rfl, _⟩ := h k l hold
  intro hin
  rw [List.mem_singleton.mp hin] at hkept
  simp at hkept

/-- Some object changes, not its name, and tables refer to it as before or under its name. -/
theorem Linked.update (h : Linked st) (hq : st.queues queue = some q)
    (hname : q'.queueName = q.queueName)
    (hqueues : st'.queues = fun i => if i = queue then some q' else st.queues i)
    (hex : st'.exchanges = st.exchanges) (hnext : st'.nextQueue = st.nextQueue)
    (hun : ∀ n i, st'.unSubcribeQueues.lookup n = some i →
      st.unSubcribeQueues.lookup n = some i ∧ (i = queue → q'.subscribeConsumers = []))
    (hsub : ∀ n i, st'.subcribeQueues.lookup n = some i →
      st.subcribeQueues.lookup n = some i ∨ (i = queue ∧ n = q.queueName)) : Linked st' := by
  have hself : st'.queues queue = some q' := by
    rw [hqueues]
    exact if_pos rfl
  have hne : ∀ i, i ≠ queue → st'.queues i = st.queues i := by
    intro i hi
    rw [hqueues]
    exact if_neg hi
  have hlive : ∀ i, (st.queues i).isSome ↔ (st'.queues i).isSome := by
    intro i
    by_cases hi : i = queue
    · rw [hi, hself, hq]
      exact iff_of_true rfl rfl
    · rw [hne i hi]
  constructor
  · intro n i hi
    obtain ⟨hold, hempty⟩ := hun n i hi
    obtain ⟨q₁, hq₁, hn, hsubs⟩ := h.unSubcribeQueues n i hold
    by_cases hid : i = queue
    · subst hid
      cases hq.symm.trans hq₁
      exact ⟨q', hself, hname.trans hn, hempty rfl⟩
    · exact ⟨q₁, (hne i hid).trans hq₁, hn, hsubs⟩
  · intro n i hi
    rcases hsub n i hi with hold | ⟨rfl, rfl⟩
    · obtain ⟨q₁, hq₁, hn⟩ := h.subcribeQueues n i hold
      by_cases hid : i = queue
      · subst hid
        cases hq.symm.trans hq₁
        exact ⟨q', hself, hname.trans hn⟩
      · exact ⟨q₁, (hne i hid).trans hq₁, hn⟩
    · exact ⟨q', hself, hname⟩
  · intro n e he
    rw [hex] at he
    exact (h.exchanges n e he).mono fun i => (hlive i).mp
  · intro i hi
    rw [hnext]
    exact h.fresh i ((hlive i).mpr hi)

/-- An object that changes and keeps its name and its subscribers. -/
theorem Linked.setQueue (h : Linked st) (hq : st.queues queue = some q)
    (hname : q'.queueName = q.queueName)
    (hsubs : q.subscribeConsumers = [] → q'.subscribeConsumers = []) :
    Linked (st.setQueue queue q') := by
  refine h.update hq hname rfl rfl rfl ?_ (fun _ _ hi => Or.inl hi)
  intro n i hi
  refine ⟨hi, ?_⟩
  rintro rfl
  obtain ⟨q₁, hq₁, _, hempty⟩ := h.unSubcribeQueues n i hi
  cases hq.symm.trans hq₁
  exact hsubs hempty

/-- Only the exchanges change. -/
theorem Linked.setExchanges (h : Linked st) {exchanges : AList fun _ : Name => Exchange}
    (hex : ∀ n e, exchanges.lookup n = some e → BindsLive e st.queues) :
    Linked (st.setExchanges exchanges) :=
  ⟨h.unSubcribeQueues, h.subcribeQueues, hex, h.fresh⟩

theorem Linked.makeQueue (h : Linked st) (hsubs : q.subscribeConsumers = []) :
    Linked (st.newQueue q) := by
  have hself : (st.newQueue q).queues st.nextQueue = some q := if_pos rfl
  have hold : ∀ i q₁, st.queues i = some q₁ → (st.newQueue q).queues i = some q₁ := by
    intro i q₁ hq₁
    have hlt := h.fresh i (Option.isSome_of_eq_some hq₁)
    exact (if_neg (Nat.ne_of_lt hlt)).trans hq₁
  constructor
  · intro n i hi
    rcases AssocTables.lookup_insert_some hi with ⟨rfl, rfl⟩ | ⟨_, hi⟩
    · exact ⟨q, hself, rfl, hsubs⟩
    · obtain ⟨q₁, hq₁, hrest⟩ := h.unSubcribeQueues n i hi
      exact ⟨q₁, hold i q₁ hq₁, hrest⟩
  · intro n i hi
    obtain ⟨q₁, hq₁, hn⟩ := h.subcribeQueues n i hi
    exact ⟨q₁, hold i q₁ hq₁, hn⟩
  · intro n e he
    refine (h.exchanges n e he).mono fun i hi => ?_
    obtain ⟨q₁, hq₁⟩ := Option.isSome_iff_exists.mp hi
    exact Option.isSome_of_eq_some (hold i q₁ hq₁)
  · intro i hi
    show i < st.nextQueue + 1
    by_cases hid : i = st.nextQueue
    · rw [hid]
      exact Nat.lt_succ_self _
    · have hi' : ((st.newQueue q).queues i).isSome = (st.queues i).isSome :=
        congrArg Option.isSome (if_neg hid)
      rw [hi'] at hi
      exact Nat.lt_succ_of_lt (h.fresh i hi)

theorem Linked.free (h : Linked st) (hun : ∀ n, st.unSubcribeQueues.lookup n ≠ some queue)
    (hsub : ∀ n, st.subcribeQueues.lookup n ≠ some queue)
    (hbound : ∀ n e, st.exchanges.lookup n = some e →
      ∀ k l, e.bindingQueues.lookup k = some l → queue ∉ l) : Linked (st.freeQueue queue) := by
  have hne : ∀ i, i ≠ queue → (st.freeQueue queue).queues i = st.queues i := fun i hi => if_neg hi
  constructor
  · intro n i hi
    obtain ⟨q₁, hq₁, hrest⟩ := h.unSubcribeQueues n i hi
    have hid : i ≠ queue := by
      rintro rfl
      exact hun n hi
    exact ⟨q₁, (hne i hid).trans hq₁, hrest⟩
  · intro n i hi
    obtain ⟨q₁, hq₁, hrest⟩ := h.subcribeQueues n i hi
    have hid : i ≠ queue := by
      rintro rfl
      exact hsub n hi
    exact ⟨q₁, (hne i hid).trans hq₁, hrest⟩
  · intro n e he k l hl
    obtain ⟨i, rfl, hi⟩ := h.exchanges n e he k l hl
    have hid : i ≠ queue := by
      rintro rfl
      exact hbound n e he k [i] hl List.mem_cons_self
    exact ⟨i, rfl, by rwa [hne i hid]⟩
  · intro i hi
    by_cases hid : i = queue
    · subst hid
      have hnone : (st.freeQueue i).queues i = none := if_pos rfl
      rw [hnone] at hi
      cases hi
    · rw [hne i hid] at hi
      exact h.fresh i hi

/-- The same tables in another order. -/
theorem Linked.rehash (h : Linked st) {t : Tables} (hsame : SameTables t st) :
    Linked { st with
      unSubcribeQueues := t.unSubcribeQueues
      subcribeQueues := t.subcribeQueues
      exchanges := t.exchanges
      producerMsgSeqs := t.producerMsgSeqs
      producerLastMsgSeq := t.producerLastMsgSeq } := by
  obtain ⟨hun, hsub, _, hex, _, _⟩ := hsame
  constructor
  · intro n i hi
    have hi' : t.unSubcribeQueues.lookup n = some i := hi
    rw [AList.perm_lookup hun] at hi'
    exact h.unSubcribeQueues n i hi'
  · intro n i hi
    have hi' : t.subcribeQueues.lookup n = some i := hi
    rw [AList.perm_lookup hsub] at hi'
    exact h.subcribeQueues n i hi'
  · intro n e he k l hl
    obtain ⟨f, hf, hkey, hsame⟩ := hex ⟨n, e⟩ (AList.mem_lookup_iff.mp he)
    obtain ⟨_, _, _, _, hbind⟩ := hsame
    have hkey' : f.1 = n := hkey
    subst hkey'
    rw [AList.perm_lookup hbind] at hl
    exact h.exchanges f.1 f.2 (AList.mem_lookup_iff.mpr hf) k l hl
  · exact h.fresh

theorem linked_of_effect {k : Kind} (h : Linked st) (he : Effect st k st') : Linked st' := by
  cases he with
  | channels | producers | ack | forget | arrange =>
    exact ⟨h.unSubcribeQueues, h.subcribeQueues, h.exchanges, h.fresh⟩
  | rehash t hsame => exact h.rehash hsame
  | makeExchange n e hempty =>
    refine h.setExchanges fun n' e' he' => ?_
    rcases AssocTables.lookup_insert_some he' with ⟨_, rfl⟩ | ⟨_, hold⟩
    · intro k l hl
      rw [hempty] at hl
      cases hl
    · exact h.exchanges n' e' hold
  | bind n k m e queue hlookup hqueue =>
    have hlive : (st.queues queue).isSome := by
      rcases hqueue with hqueue | hqueue
      · obtain ⟨q, hq, _⟩ := h.unSubcribeQueues m queue hqueue
        exact Option.isSome_of_eq_some hq
      · obtain ⟨q, hq, _⟩ := h.subcribeQueues m queue hqueue
        exact Option.isSome_of_eq_some hq
    refine h.setExchanges fun n' e' he' => ?_
    have hin := AList.lookup_isSome.mp (Option.isSome_of_eq_some hlookup)
    rcases AssocTables.lookup_replace_some hin he' with ⟨_, rfl⟩ | ⟨_, hold⟩
    · exact (h.exchanges n e hlookup).createBinding k hlive
    · exact h.exchanges n' e' hold
  | unbind n e queue hlookup =>
    refine h.setExchanges fun n' e' he' => ?_
    have hin := AList.lookup_isSome.mp (Option.isSome_of_eq_some hlookup)
    rcases AssocTables.lookup_replace_some hin he' with ⟨_, rfl⟩ | ⟨_, hold⟩
    · exact (h.exchanges n e hlookup).deleteBindingQueue
    · exact h.exchanges n' e' hold
  | dropExchange n =>
    exact h.setExchanges fun n' e' he' => h.exchanges n' e' (AssocTables.lookup_erase_some he').2
  | makeQueue q _ hsubs => exact h.makeQueue hsubs
  | adjust queue q q' hq hsame hsubs => exact h.setQueue hq hsame.queueName hsubs
  | resubscribe n queue q q' hq hsame hname hun =>
    refine h.update hq hsame.queueName rfl rfl rfl ?_ (fun _ _ hi => Or.inl hi)
    intro m i hi
    refine ⟨hi, ?_⟩
    rintro rfl
    obtain ⟨q₁, hq₁, hm, _⟩ := h.unSubcribeQueues m i hi
    cases hq.symm.trans hq₁
    rw [← hname, hm] at hun
    exact absurd (AList.lookup_isSome.mp (Option.isSome_of_eq_some hi)) hun
  | subscribe n queue q q' hq hsame hname =>
    refine h.update hq hsame.queueName rfl rfl rfl ?_ ?_
    · intro m i hi
      obtain ⟨hne, hold⟩ := AssocTables.lookup_erase_some hi
      refine ⟨hold, ?_⟩
      rintro rfl
      obtain ⟨q₁, hq₁, hm, _⟩ := h.unSubcribeQueues m i hold
      cases hq.symm.trans hq₁
      exact absurd (hm.symm.trans hname) hne
    · intro m i hi
      rcases AssocTables.lookup_insert_some hi with ⟨rfl, rfl⟩ | ⟨_, hold⟩
      · exact Or.inr ⟨rfl, hname.symm⟩
      · exact Or.inl hold
  | unsubscribe queue q hq hsubs =>
    refine ⟨fun n i hi => ?_, h.subcribeQueues, h.exchanges, h.fresh⟩
    rcases AssocTables.lookup_insert_some hi with ⟨rfl, rfl⟩ | ⟨_, hold⟩
    · exact ⟨q, hq, rfl, hsubs⟩
    · exact h.unSubcribeQueues n i hold
  | dropSubcribe n =>
    exact ⟨h.unSubcribeQueues, fun m i hi => h.subcribeQueues m i
      (AssocTables.lookup_erase_some hi).2, h.exchanges, h.fresh⟩
  | dropUnSubcribe n =>
    exact ⟨fun m i hi => h.unSubcribeQueues m i (AssocTables.lookup_erase_some hi).2,
      h.subcribeQueues, h.exchanges, h.fresh⟩
  | clear queue q hq => exact h.setQueue hq rfl (fun hs => hs)
  | free queue hun hsub hbound => exact h.free hun hsub hbound
  | store p c queue q q' pMsg hq hsame hsubs _ _ =>
    have hadded := q'.addMessage_added pMsg
    have hset : Linked (st.setQueue queue (q'.addMessage pMsg)) :=
      h.setQueue hq (hadded.queueName.trans hsame.queueName)
        (fun hempty => hadded.consumers.trans (hsubs.trans hempty))
    exact ⟨hset.unSubcribeQueues, hset.subcribeQueues, hset.exchanges, hset.fresh⟩
  | await queue q q' m m' hq hpop _ _ _ =>
    have hset := h.setQueue hq hpop.queueName (fun hempty => hpop.consumers.trans hempty)
    exact ⟨hset.unSubcribeQueues, hset.subcribeQueues, hset.exchanges, hset.fresh⟩
  | deliver queue q q' m hq hpop =>
    have hset := h.setQueue hq hpop.queueName (fun hempty => hpop.consumers.trans hempty)
    exact ⟨hset.unSubcribeQueues, hset.subcribeQueues, hset.exchanges, hset.fresh⟩
  | giveBack queue q m l hq _ =>
    have hadded := q.addMessageFront_added m
    have hset := h.setQueue hq hadded.queueName (fun hempty => hadded.consumers.trans hempty)
    exact ⟨hset.unSubcribeQueues, hset.subcribeQueues, hset.exchanges, hset.fresh⟩

theorem Effects.linked {allowed : Kind → Prop} (h : Effects allowed st st') (hs : Linked st) :
    Linked st' :=
  h.invariant (fun _ _ _ hi _ he => linked_of_effect hi he) hs

end Wsmq.LogicServer
