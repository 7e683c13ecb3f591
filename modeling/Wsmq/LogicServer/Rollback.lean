import Wsmq.Lib.AssocTables
import Wsmq.LogicServer.Run

/-!
# Requests that fail

A request fails after it was found to be right only when `LOGIC_TO_PERSIS` has no room for its
packet.  By then most handlers have changed the tables.
-/

namespace Wsmq.MessageQueue

variable [Platform]

/-! ## Undoing a subscription -/

/-- Same subscribers, in the same order, and the same confirm level. -/
def SameSubscribers (q q' : MessageQueue) : Prop :=
  q'.subscribeConsumers = q.subscribeConsumers ∧ q'.confirmLevel = q.confirmLevel

omit [Platform] in
theorem eraseConsumer_eq_self_iff {c : Int} {l : List Int} : eraseConsumer c l = l ↔ c ∉ l := by
  induction l using eraseConsumer.induct c with
  | case1 => simp [eraseConsumer]
  | case2 => simp [eraseConsumer]
  | case3 d hd => simp [eraseConsumer, hd, Ne.symm hd]
  | case4 d rest ih =>
    refine iff_of_false (fun h => ?_) (by simp)
    have hlen := congrArg List.length h
    have hle := (eraseConsumer_sublist c rest).length_le
    rw [eraseConsumer, if_pos rfl] at hlen
    simp only [List.length_cons] at hlen
    omega
  | case5 d e rest hd ih =>
    rw [eraseConsumer, if_neg hd, List.cons_inj_right, ih, List.mem_cons (a := c) (b := d)]
    exact ⟨fun h => not_or.mpr ⟨Ne.symm hd, h⟩, fun h => (not_or.mp h).2⟩

omit [Platform] in
theorem eraseConsumer_append_self {c : Int} {l : List Int} (h : c ∉ l) :
    eraseConsumer c (l ++ [c]) = l := by
  induction l with
  | nil => simp [eraseConsumer]
  | cons d l ih =>
    obtain ⟨hd, hl⟩ := not_or.mp (List.mem_cons.not.mp h)
    have hcons : eraseConsumer c (d :: (l ++ [c])) = d :: eraseConsumer c (l ++ [c]) := by
      cases hrest : l ++ [c] with
      | nil => simp at hrest
      | cons e rest => rw [eraseConsumer, if_neg (Ne.symm hd)]
    rw [List.cons_append, hcons, ih hl]

/-- Cancelling undoes a subscription of somebody new who brings the level there was. -/
theorem cancel_add_same_iff (q : MessageQueue) (c : Int) (level : Nat) :
    SameSubscribers q ((q.addSubscribe c level).cancelSubscribe c) ↔
      c ∉ q.subscribeConsumers ∧
        q.confirmLevel = if q.subscribeConsumers = [] then 0 else level := by
  by_cases hc : c ∈ q.subscribeConsumers
  · refine iff_of_false (fun h => ?_) (fun h => h.1 hc)
    have hsame := h.1
    simp only [cancelSubscribe, addSubscribe, if_pos hc] at hsame
    exact eraseConsumer_eq_self_iff.mp hsame hc
  · simp only [SameSubscribers, cancelSubscribe, addSubscribe, if_neg hc,
      eraseConsumer_append_self hc, true_and, List.isEmpty_iff, and_iff_right hc]
    exact eq_comm

/-- Subscribing undoes the cancelling of whoever subscribed last, and once. -/
theorem add_cancel_same_iff (q : MessageQueue) (c : Int) :
    SameSubscribers q ((q.cancelSubscribe c).addSubscribe c q.confirmLevel) ↔
      ∃ l, q.subscribeConsumers = l ++ [c] ∧ c ∉ l := by
  have hlevel : ((q.cancelSubscribe c).addSubscribe c q.confirmLevel).confirmLevel =
      q.confirmLevel := by
    unfold addSubscribe
    split <;> rfl
  rw [SameSubscribers, and_iff_left hlevel]
  by_cases hc : c ∈ (q.cancelSubscribe c).subscribeConsumers
  · have hsubs : ((q.cancelSubscribe c).addSubscribe c q.confirmLevel).subscribeConsumers =
        eraseConsumer c q.subscribeConsumers := by
      unfold addSubscribe
      rw [if_pos hc]
      rfl
    rw [hsubs, eraseConsumer_eq_self_iff]
    refine iff_of_false (fun h => h ((eraseConsumer_sublist c _).subset hc)) ?_
    rintro ⟨l, hl, hnot⟩
    have hleft : (q.cancelSubscribe c).subscribeConsumers = l := by
      simp only [cancelSubscribe, hl, eraseConsumer_append_self hnot]
    rw [hleft] at hc
    exact hnot hc
  · have hsubs : ((q.cancelSubscribe c).addSubscribe c q.confirmLevel).subscribeConsumers =
        eraseConsumer c q.subscribeConsumers ++ [c] := by
      unfold addSubscribe
      rw [if_neg hc]
      rfl
    rw [hsubs]
    constructor
    · intro h
      exact ⟨_, h.symm, hc⟩
    · rintro ⟨l, hl, hnot⟩
      rw [hl, eraseConsumer_append_self hnot]

end Wsmq.MessageQueue

namespace Wsmq.LogicServer
open Lib Lib.ByteString Lib.Packing Lib.Fifo

section

variable [Platform] {st st' : LogicServer} {p : Package} {o : Outcome}

/-- `LOGIC_TO_PERSIS` has no room for the packet. -/
def Refuses (st : LogicServer) (bs : Bytes) : Prop :=
  ¬ Fits st.queueToPersis.cap
    (total ShmQueue.blockCost st.queueToPersis.items + ShmQueue.blockCost bs)

theorem enqueuePersis_fails_iff (st : LogicServer) (bs : Bytes) :
    (st.enqueuePersis bs).1 ≠ success ↔ st.Refuses bs := by
  by_cases hfits : Fits st.queueToPersis.cap
      (total ShmQueue.blockCost st.queueToPersis.items + ShmQueue.blockCost bs)
  · have hret : (st.enqueuePersis bs).1 = success := (ShmQueue.Fifo.call_enqueue_of_fits hfits).1
    exact iff_of_false (not_not.mpr hret) (not_not.mpr hfits)
  · have hret : (st.enqueuePersis bs).1 = ShmQueue.errShmQueueFull :=
      (ShmQueue.Fifo.call_enqueue_of_not_fits hfits).1
    rw [hret]
    exact iff_of_true (by decide) hfits

theorem sendPersis_fails_iff (st : LogicServer) (bDurable : Bool) (bs : Bytes) :
    (st.sendPersis bDurable bs).1 ≠ success ↔ bDurable = true ∧ st.Refuses bs := by
  unfold sendPersis
  split
  · next hdurable => rw [enqueuePersis_fails_iff, and_iff_right hdurable]
  · next hdurable => exact iff_of_false (fun h => h rfl) fun h => hdurable h.1

/-! ## Exchanges, queues and bindings -/

/-- The tables and all queues are as before. -/
structure Unchanged (st st' : LogicServer) : Prop where
  exchanges : st'.exchanges = st.exchanges
  unSubcribeQueues : st'.unSubcribeQueues = st.unSubcribeQueues
  subcribeQueues : st'.subcribeQueues = st.subcribeQueues
  queues : st'.queues = st.queues

theorem Unchanged.refl (st : LogicServer) : Unchanged st st := ⟨rfl, rfl, rfl, rfl⟩

theorem unchanged_sendPersis (st : LogicServer) (bDurable : Bool) (bs : Bytes) :
    Unchanged st (st.sendPersis bDurable bs).2 := by
  unfold sendPersis
  split
  · exact ⟨rfl, rfl, rfl, rfl⟩
  · exact .refl st

/-- The new exchange is in the table, and its packet is refused. -/
def ExchangeHalfMade (st : LogicServer) (buf : Mem) (iLen : Nat) : Prop :=
  readBool buf 34 = true ∧ (∀ n, readName buf 0 = some n → n ∉ st.exchanges) ∧
    st.Refuses (persisPacket cmdCreateExcnange (buf.read 0 iLen))

/-- The new queue is in the table, and its packet is refused. -/
def QueueHalfMade (st : LogicServer) (buf : Mem) (iLen : Nat) : Prop :=
  readBool buf 34 = true ∧
    (∀ n, readName buf 0 = some n → n ∉ st.unSubcribeQueues ∧ n ∉ st.subcribeQueues) ∧
    st.Refuses (persisPacket cmdCreateQueue (buf.read 0 iLen))

/-- The queue that `OnCreateBinding` finds. -/
def queueToBind (st : LogicServer) (strQueueName : Name) : Option QueueId :=
  match st.unSubcribeQueues.lookup strQueueName with
  | some queue => some queue
  | none => st.subcribeQueues.lookup strQueueName

/-- The queue is bound under a key that had no queue, and the packet with the bindings is
refused. -/
def BindingHalfMade (st : LogicServer) (buf : Mem) : Prop :=
  ∃ strExchangeName strQueueName strBindingKey pExchange queue packed,
    readName buf 0 = some strExchangeName ∧ readName buf 32 = some strQueueName ∧
    readName buf 64 = some strBindingKey ∧
    st.exchanges.lookup strExchangeName = some pExchange ∧
    st.queueToBind strQueueName = some queue ∧ pExchange.durable = true ∧
    pExchange.bindingQueues.lookup strBindingKey = none ∧
    (pExchange.createBinding strBindingKey queue).serializeBindingToString st.queues zeroed
      maxClintPackageLength = some packed ∧ st.Refuses packed.sent

/-- The queue is out of the tables, and its packet is refused. -/
def QueueHalfDeleted (st : LogicServer) (buf : Mem) (iLen : Nat) : Prop :=
  ∃ strQueueName queue q, readName buf 0 = some strQueueName ∧
    st.findQueue strQueueName = some queue ∧ st.queues queue = some q ∧ q.durable = true ∧
    st.Refuses (persisPacket cmdDeleteQueue (buf.read 0 iLen))

theorem not_mem_of_unchanged_insert {n : Name} {e : Exchange} {bDurable : Bool} {bs : Bytes}
    (h : Unchanged st ((st.setExchanges (st.exchanges.insert n e)).sendPersis bDurable bs).2) :
    n ∈ st.exchanges := by
  have hsame := h.exchanges
  rw [(unchanged_sendPersis _ _ _).exchanges] at hsame
  have hin : n ∈ st.exchanges.insert n e := (AList.mem_insert _).mpr (Or.inl rfl)
  have heq : st.exchanges.insert n e = st.exchanges := hsame
  rwa [heq] at hin

theorem createExchange_failed_iff {buf : Mem} {iLen : Nat}
    (ho : st.onCreateExchange buf iLen = some o) :
    (o.ret ≠ success → Unchanged st o.server) ↔ ¬ st.ExchangeHalfMade buf iLen := by
  obtain ⟨n, hn, rfl⟩ := onCreateExchange_some ho
  dsimp only [createExchange]
  split
  · next hin =>
    refine iff_of_true (fun h => absurd rfl h) ?_
    rintro ⟨_, hnew, _⟩
    exact hnew n hn hin
  · next hnew =>
    split
    · next hfail =>
      have hrefused := (sendPersis_fails_iff _ _ _).mp hfail
      refine iff_of_false (fun h => ?_) (not_not.mpr ⟨hrefused.1, ?_, hrefused.2⟩)
      · have hret : errLogicServerCreateExchange ≠ success := by decide
        exact hnew (not_mem_of_unchanged_insert (h hret))
      · intro m hm
        cases hn.symm.trans hm
        exact hnew
    · next hsent =>
      refine iff_of_true (fun h => absurd rfl h) ?_
      rintro ⟨hdurable, _, hfull⟩
      exact hsent ((sendPersis_fails_iff _ _ _).mpr ⟨hdurable, hfull⟩)

theorem createQueue_failed_iff {buf : Mem} {iLen : Nat}
    (ho : st.onCreateQueue buf iLen = some o) :
    (o.ret ≠ success → Unchanged st o.server) ↔ ¬ st.QueueHalfMade buf iLen := by
  obtain ⟨n, hn, rfl⟩ := onCreateQueue_some ho
  dsimp only [createQueue]
  split
  · next hin =>
    refine iff_of_true (fun h => absurd rfl h) ?_
    rintro ⟨_, hnew, _⟩
    exact hin.elim (hnew n hn).1 (hnew n hn).2
  · next hnew =>
    obtain ⟨hun, hsub⟩ := not_or.mp hnew
    split
    · next hfail =>
      have hrefused := (sendPersis_fails_iff _ _ _).mp hfail
      refine iff_of_false (fun h => hun ?_) (not_not.mpr ⟨hrefused.1, ?_, hrefused.2⟩)
      · have hret : errLogicServerCreateExchange ≠ success := by decide
        have hsame := (h hret).unSubcribeQueues
        rw [(unchanged_sendPersis _ _ _).unSubcribeQueues] at hsame
        have heq : st.unSubcribeQueues.insert n st.nextQueue = st.unSubcribeQueues := hsame
        rw [← heq]
        exact (AList.mem_insert _).mpr (Or.inl rfl)
      · intro m hm
        cases hn.symm.trans hm
        exact ⟨hun, hsub⟩
    · next hsent =>
      refine iff_of_true (fun h => absurd rfl h) ?_
      rintro ⟨hdurable, _, hfull⟩
      exact hsent ((sendPersis_fails_iff _ _ _).mpr ⟨hdurable, hfull⟩)

theorem deleteExchange_failed {buf : Mem} {iLen : Nat}
    (ho : st.onDeleteExchange buf iLen = some o) (hfail : o.ret ≠ success) :
    Unchanged st o.server := by
  obtain ⟨n, _, rfl⟩ := onDeleteExchange_some ho
  dsimp only [deleteExchange] at hfail ⊢
  split at hfail
  · exact .refl st
  · split at hfail
    · next hrefused =>
      rw [if_pos hrefused]
      exact unchanged_sendPersis _ _ _
    · exact absurd rfl hfail

theorem mem_of_findQueue {n : Name} {queue : QueueId} (h : st.findQueue n = some queue) :
    n ∈ st.unSubcribeQueues ∨ n ∈ st.subcribeQueues := by
  unfold findQueue at h
  split at h
  · next hsub => exact Or.inr (AList.lookup_isSome.mp (by rw [hsub]; rfl))
  · exact Or.inl (AList.lookup_isSome.mp (by rw [h]; rfl))

theorem deleteQueue_failed_iff {buf : Mem} {iLen : Nat}
    (ho : st.onDeleteQueue buf iLen = some o) :
    (o.ret ≠ success → Unchanged st o.server) ↔ ¬ st.QueueHalfDeleted buf iLen := by
  obtain ⟨n, hn, ho⟩ := onDeleteQueue_some ho
  dsimp only [deleteQueue] at ho
  split at ho
  · next hnone =>
    cases ho
    refine iff_of_true (fun _ => .refl st) ?_
    rintro ⟨m, queue, q, hm, hfind, _⟩
    cases hn.symm.trans hm
    cases hnone.symm.trans hfind
  · next queue hfind =>
    obtain ⟨q, hq, rfl⟩ := Option.map_eq_some_iff.mp ho
    split
    · next hfail =>
      have hrefused := (sendPersis_fails_iff _ _ _).mp hfail
      refine iff_of_false (fun h => ?_) (not_not.mpr ⟨n, queue, q, hn, hfind, hq, hrefused⟩)
      have hret : errLogicServerDeleteQueue ≠ success := by decide
      have hsame := h hret
      have hkept := unchanged_sendPersis ((st.eraseUnSubcribe n).eraseSubcribe n) q.durable
        (persisPacket cmdDeleteQueue (buf.read 0 iLen))
      have hun : st.unSubcribeQueues.erase n = st.unSubcribeQueues :=
        hkept.unSubcribeQueues.symm.trans hsame.unSubcribeQueues
      have hsub : st.subcribeQueues.erase n = st.subcribeQueues :=
        hkept.subcribeQueues.symm.trans hsame.subcribeQueues
      rcases mem_of_findQueue hfind with hin | hin
      · rw [← hun] at hin
        exact (AList.mem_erase.mp hin).1 rfl
      · rw [← hsub] at hin
        exact (AList.mem_erase.mp hin).1 rfl
    · next hsent =>
      refine iff_of_true (fun h => absurd rfl h) ?_
      rintro ⟨m, queue', q', hm, hfind', hq', hdurable, hfull⟩
      cases hn.symm.trans hm
      cases hfind.symm.trans hfind'
      cases hq.symm.trans hq'
      exact hsent ((sendPersis_fails_iff _ _ _).mpr ⟨hdurable, hfull⟩)

omit [Platform] in
theorem createBinding_eq_iff (e : Exchange) (n : Name) (queue : QueueId) :
    e.createBinding n queue = e ↔ e.bindingQueues.lookup n ≠ none := by
  unfold Exchange.createBinding
  split
  · next l hl => exact iff_of_true rfl (by rw [hl]; exact nofun)
  · next hnone =>
    refine iff_of_false (fun h => ?_) (not_not.mpr hnone)
    have hsame : e.bindingQueues.insert n [queue] = e.bindingQueues :=
      congrArg Exchange.bindingQueues h
    have hin := AList.lookup_insert (a := n) (b := [queue]) e.bindingQueues
    rw [hsame, hnone] at hin
    cases hin

omit [Platform] in
theorem createBinding_durable (e : Exchange) (n : Name) (queue : QueueId) :
    (e.createBinding n queue).durable = e.durable := by
  unfold Exchange.createBinding
  split <;> rfl

/-- The table keeps an exchange that was not changed. -/
theorem replace_unchanged_iff {n : Name} {e e' : Exchange} (he : st.exchanges.lookup n = some e) :
    st.exchanges.replace n e' = st.exchanges ↔ e' = e := by
  constructor
  · intro h
    have hin : n ∈ st.exchanges := AList.lookup_isSome.mp (by rw [he]; rfl)
    have hnew := AssocTables.lookup_replace_self (b := e') hin
    rw [h, he] at hnew
    exact (Option.some.inj hnew).symm
  · rintro rfl
    exact AssocTables.replace_of_lookup he

theorem bindQueue_failed_iff {strExchangeName strBindingKey : Name} {pExchange : Exchange}
    {queue : QueueId} (hex : st.exchanges.lookup strExchangeName = some pExchange)
    (ho : st.bindQueue strExchangeName strBindingKey pExchange queue = some o) :
    (o.ret ≠ success → Unchanged st o.server) ↔
      ¬ (pExchange.durable = true ∧ pExchange.bindingQueues.lookup strBindingKey = none ∧
        ∃ packed, (pExchange.createBinding strBindingKey queue).serializeBindingToString st.queues
          zeroed maxClintPackageLength = some packed ∧ st.Refuses packed.sent) := by
  have hret : errLogicServerCreateBinding ≠ success := by decide
  obtain ⟨r, hsend, rfl⟩ := Option.map_eq_some_iff.mp ho
  obtain ⟨hdurable, hsend⟩ | ⟨hnot, hsend⟩ := ite_eq_some hsend
  · rw [createBinding_durable] at hdurable
    obtain ⟨packed, hpacked, rfl⟩ := Option.map_eq_some_iff.mp hsend
    have hfails : ∀ packed',
        (pExchange.createBinding strBindingKey queue).serializeBindingToString st.queues zeroed
          maxClintPackageLength = some packed' → packed' = packed :=
      fun packed' h => Option.some.inj (h.symm.trans hpacked)
    split
    · next hfail =>
      have hrefused : st.Refuses packed.sent := (enqueuePersis_fails_iff _ _).mp hfail
      have hunchanged : ∀ st₁ : LogicServer, st₁ = ((st.setExchanges (st.exchanges.replace
          strExchangeName (pExchange.createBinding strBindingKey queue))).enqueuePersis
            packed.sent).2 →
          (Unchanged st st₁ ↔ pExchange.bindingQueues.lookup strBindingKey ≠ none) := by
        rintro _ rfl
        rw [← createBinding_eq_iff pExchange strBindingKey queue, ← replace_unchanged_iff hex]
        exact ⟨fun h => h.exchanges, fun h => ⟨h, rfl, rfl, rfl⟩⟩
      constructor
      · rintro h ⟨_, hnew, _⟩
        exact (hunchanged _ rfl).mp (h hret) hnew
      · intro h _
        refine (hunchanged _ rfl).mpr fun hnew => h ⟨hdurable, hnew, packed, hpacked, hrefused⟩
    · next hsent =>
      refine iff_of_true (fun h => absurd rfl h) ?_
      rintro ⟨_, _, packed', hpacked', hfull⟩
      rw [hfails packed' hpacked'] at hfull
      exact hsent ((enqueuePersis_fails_iff _ _).mpr hfull)
  · rw [createBinding_durable] at hnot
    cases hsend
    refine iff_of_true (fun h => absurd rfl h) fun h => hnot h.1

theorem createBinding_failed_iff {buf : Mem} (ho : st.onCreateBinding buf = some o) :
    (o.ret ≠ success → Unchanged st o.server) ↔ ¬ st.BindingHalfMade buf := by
  obtain ⟨strExchangeName, strQueueName, strBindingKey, hexName, hqueueName, hkey, ho⟩ :=
    onCreateBinding_some ho
  have hmade : ∀ e queue, st.exchanges.lookup strExchangeName = some e →
      st.queueToBind strQueueName = some queue → (st.BindingHalfMade buf ↔
        e.durable = true ∧ e.bindingQueues.lookup strBindingKey = none ∧
          ∃ packed, (e.createBinding strBindingKey queue).serializeBindingToString st.queues
            zeroed maxClintPackageLength = some packed ∧ st.Refuses packed.sent) := by
    intro e queue he hqueue
    constructor
    · rintro ⟨n, m, k, e', queue', packed, hn, hm, hk, he', hqueue', hdurable, hnew, hpacked⟩
      cases hexName.symm.trans hn
      cases hqueueName.symm.trans hm
      cases hkey.symm.trans hk
      cases he.symm.trans he'
      cases hqueue.symm.trans hqueue'
      exact ⟨hdurable, hnew, packed, hpacked⟩
    · rintro ⟨hdurable, hnew, packed, hpacked⟩
      exact ⟨_, _, _, e, queue, packed, hexName, hqueueName, hkey, he, hqueue, hdurable, hnew,
        hpacked⟩
  dsimp only [createBinding] at ho
  split at ho
  · next hnone =>
    cases ho
    refine iff_of_true (fun _ => .refl st) ?_
    rintro ⟨n, m, k, e, queue, packed, hn, _, _, he, _⟩
    cases hexName.symm.trans hn
    cases hnone.symm.trans he
  · next e _ he hnone =>
    cases ho
    refine iff_of_true (fun _ => .refl st) ?_
    rintro ⟨n, m, k, e, queue, packed, _, hm, _, _, hqueue, _⟩
    cases hqueueName.symm.trans hm
    have hnone' : st.queueToBind strQueueName = none := hnone
    cases hnone'.symm.trans hqueue
  · next e queue he hqueue =>
    rw [hmade e queue he hqueue]
    exact bindQueue_failed_iff he ho

/-! ## All five handlers -/

/-- The tables were changed before the packet was refused. -/
def HalfDone (st : LogicServer) (p : Package) : Prop :=
  if p.cmdId = cmdCreateExcnange then st.ExchangeHalfMade p.body p.bodyLen
  else if p.cmdId = cmdCreateQueue then st.QueueHalfMade p.body p.bodyLen
  else if p.cmdId = cmdCreateBinding then st.BindingHalfMade p.body
  else if p.cmdId = cmdDeleteQueue then st.QueueHalfDeleted p.body p.bodyLen
  else False

/-- The commands that make and delete exchanges, queues and bindings. -/
def Administers (iCmdId : Nat) : Prop :=
  iCmdId = cmdCreateExcnange ∨ iCmdId = cmdCreateQueue ∨ iCmdId = cmdCreateBinding ∨
    iCmdId = cmdDeleteExchange ∨ iCmdId = cmdDeleteQueue

/-- A failed request has no effect unless it was half done by then. -/
theorem failed_unchanged_iff (hcmd : Administers p.cmdId) (ho : st.dispatch p = some o) :
    (o.ret ≠ success → Unchanged st o.server) ↔ ¬ st.HalfDone p := by
  unfold dispatch at ho
  unfold HalfDone
  rcases hcmd with hcmd | hcmd | hcmd | hcmd | hcmd
  · rw [if_pos hcmd] at ho ⊢
    exact createExchange_failed_iff ho
  · simp only [hcmd] at ho ⊢
    exact createQueue_failed_iff ho
  · simp only [hcmd] at ho ⊢
    exact createBinding_failed_iff ho
  · simp only [hcmd] at ho ⊢
    exact iff_of_true (deleteExchange_failed ho) (fun h => h)
  · simp only [hcmd] at ho ⊢
    exact deleteQueue_failed_iff ho

/-! ## Subscriptions -/

/-- The tables are as before, and so are the subscribers of the named queue. -/
structure RolledBack (st st' : LogicServer) (strQueueName : Name) : Prop where
  unSubcribeQueues : st'.unSubcribeQueues = st.unSubcribeQueues
  subcribeQueues : st'.subcribeQueues = st.subcribeQueues
  subscribers : ∀ queue q, st.findQueue strQueueName = some queue → st.queues queue = some q →
    ∃ q', st'.queues queue = some q' ∧ q.SameSubscribers q'

/-- The opposite operation leads back: a new subscriber asks for the level that the queue
has, or the last one cancels. -/
def Invertible (st : LogicServer) (p : Package) (strQueueName : Name) : Prop :=
  ∃ queue q, st.findQueue strQueueName = some queue ∧ st.queues queue = some q ∧
    if p.cmdId = cmdCreateSubcribe then
      p.clientIndex ∉ q.subscribeConsumers ∧
        q.confirmLevel = if q.subscribeConsumers = [] then 0 else readByte p.body 32
    else ∃ l, q.subscribeConsumers = l ++ [p.clientIndex] ∧ p.clientIndex ∉ l

theorem invertible_iff {n : Name} {queue : QueueId} {q : MessageQueue}
    (hfind : st.findQueue n = some queue) (hq : st.queues queue = some q) :
    st.Invertible p n ↔
      if p.cmdId = cmdCreateSubcribe then
        p.clientIndex ∉ q.subscribeConsumers ∧
          q.confirmLevel = if q.subscribeConsumers = [] then 0 else readByte p.body 32
      else ∃ l, q.subscribeConsumers = l ++ [p.clientIndex] ∧ p.clientIndex ∉ l := by
  constructor
  · rintro ⟨queue', q', hfind', hq', hcond⟩
    cases hfind.symm.trans hfind'
    cases hq.symm.trans hq'
    exact hcond
  · intro hcond
    exact ⟨queue, q, hfind, hq, hcond⟩

/-- The reply about a refused packet. -/
def FailedText (p : Package) (strQueueName : Name) (strMsgBody : Bytes) : Prop :=
  (p.cmdId = cmdCreateSubcribe ∧ strMsgBody = reSubscribeFailed ++ strQueueName) ∨
    (p.cmdId = cmdCancelSubcribe ∧ strMsgBody = reCancelSubscribeFailed ++ strQueueName)

theorem rolledBack_setQueue_iff {n : Name} {queue : QueueId} {q q' : MessageQueue}
    (hfind : st.findQueue n = some queue) (hq : st.queues queue = some q)
    (hun : st'.unSubcribeQueues = st.unSubcribeQueues)
    (hsub : st'.subcribeQueues = st.subcribeQueues) :
    RolledBack st (st'.setQueue queue q') n ↔ q.SameSubscribers q' := by
  have hset : (st'.setQueue queue q').queues queue = some q' := if_pos rfl
  constructor
  · intro h
    obtain ⟨q₁, hq₁, hsame⟩ := h.subscribers queue q hfind hq
    cases hset.symm.trans hq₁
    exact hsame
  · intro h
    refine ⟨hun, hsub, fun queue₁ q₁ hfind₁ hq₁ => ?_⟩
    cases hfind.symm.trans hfind₁
    cases hq.symm.trans hq₁
    exact ⟨q', hset, h⟩

/-- Sending the subscribers changes no table. -/
theorem unchanged_sendSubscribers {q : MessageQueue} {bIsCreate : Bool} {r : Int × LogicServer}
    (h : st.sendSubscribers q bIsCreate = some r) : Unchanged st r.2 := by
  obtain ⟨_, h⟩ | ⟨_, h⟩ := ite_eq_some h
  · obtain ⟨packed, _, rfl⟩ := Option.map_eq_some_iff.mp h
    exact ⟨rfl, rfl, rfl, rfl⟩
  · cases h
    exact .refl st

theorem createSubscribe_rolledBack_iff {buf : Mem} {iCliIndex : Int} {n : Name}
    (hn : readName buf 0 = some n) (ho : st.onCreateSubscribe buf iCliIndex = some o)
    (hfailed : o.strMsgBody = reSubscribeFailed ++ n) :
    ∃ queue q, st.findQueue n = some queue ∧ st.queues queue = some q ∧
      (RolledBack st o.server n ↔ iCliIndex ∉ q.subscribeConsumers ∧
        q.confirmLevel = if q.subscribeConsumers = [] then 0 else readByte buf 32) := by
  obtain ⟨m, hm, ho⟩ := onCreateSubscribe_some ho
  cases hn.symm.trans hm
  dsimp only [createSubscribe] at ho
  split at ho
  · cases ho
    exact absurd (List.append_cancel_right hfailed) (by decide)
  · next queue hfind =>
    obtain ⟨q, hq, ho⟩ := Option.bind_eq_some_iff.mp ho
    obtain ⟨r, hsend, rfl⟩ := Option.map_eq_some_iff.mp ho
    have hkept := unchanged_sendSubscribers hsend
    refine ⟨queue, q, hfind, hq, ?_⟩
    split at hfailed
    · next hfail =>
      rw [if_pos hfail, rolledBack_setQueue_iff hfind hq hkept.unSubcribeQueues
        hkept.subcribeQueues]
      exact q.cancel_add_same_iff _ _
    · split at hfailed <;> exact absurd (List.append_cancel_right hfailed) (by decide)

/-- No reply after the subscription is cancelled is the one about a refused packet. -/
theorem afterCancel_ne_failed (n : Name) (queue : QueueId) (q : MessageQueue) :
    (st.afterCancel n queue q).strMsgBody ≠ reCancelSubscribeFailed ++ n := by
  have hsucceed : reCancelSubscribeSucceed ++ n ≠ reCancelSubscribeFailed ++ n :=
    fun h => absurd (List.append_cancel_right h) (by decide)
  unfold afterCancel
  dsimp only
  split
  · unfold cancelAutoDelete
    dsimp only
    split
    · intro h
      have hfirst := congrArg List.head? h
      rw [List.head?_append_of_ne_nil _ (by decide), List.head?_append_of_ne_nil _ (by decide)]
        at hfirst
      exact absurd hfirst (by decide)
    · split
      · intro h
        exact absurd (List.append_cancel_right h) (by decide)
      · exact hsucceed
  · split <;> exact hsucceed

theorem cancelSubscribe_rolledBack_iff {buf : Mem} {iCliIndex : Int} {n : Name}
    (hn : readName buf 0 = some n) (ho : st.onCancelSubscribe buf iCliIndex = some o)
    (hfailed : o.strMsgBody = reCancelSubscribeFailed ++ n) :
    ∃ queue q, st.findQueue n = some queue ∧ st.queues queue = some q ∧
      (RolledBack st o.server n ↔
        ∃ l, q.subscribeConsumers = l ++ [iCliIndex] ∧ iCliIndex ∉ l) := by
  obtain ⟨m, hm, ho⟩ := onCancelSubscribe_some ho
  cases hn.symm.trans hm
  dsimp only [LogicServer.cancelSubscribe] at ho
  obtain ⟨_, ho⟩ | ⟨_, ho⟩ := ite_eq_some ho
  · cases ho
    exact absurd (List.append_cancel_right hfailed) (by decide)
  · split at ho
    · cases ho
      exact absurd (List.append_cancel_right hfailed) (by decide)
    · next queue hlookup =>
      obtain ⟨q, hq, ho⟩ := Option.bind_eq_some_iff.mp ho
      obtain ⟨r, hsend, rfl⟩ := Option.map_eq_some_iff.mp ho
      have hkept := unchanged_sendSubscribers hsend
      have hfind : st.findQueue n = some queue := by
        unfold findQueue
        rw [hlookup]
      refine ⟨queue, q, hfind, hq, ?_⟩
      split at hfailed
      · next hfail =>
        rw [if_pos hfail, rolledBack_setQueue_iff hfind hq hkept.unSubcribeQueues
          hkept.subcribeQueues]
        exact q.add_cancel_same_iff _
      · exact absurd hfailed (afterCancel_ne_failed _ _ _)

/-- After a refused packet all is as before exactly when the opposite operation leads back. -/
theorem rolledBack_iff {n : Name} (hn : readName p.body 0 = some n) (ho : st.dispatch p = some o)
    (hfailed : FailedText p n o.strMsgBody) : RolledBack st o.server n ↔ st.Invertible p n := by
  unfold dispatch at ho
  rcases hfailed with ⟨hcmd, hfailed⟩ | ⟨hcmd, hfailed⟩
  · simp only [hcmd] at ho
    obtain ⟨queue, q, hfind, hq, hiff⟩ := createSubscribe_rolledBack_iff hn ho hfailed
    rw [hiff, invertible_iff hfind hq, if_pos hcmd]
  · simp only [hcmd] at ho
    obtain ⟨queue, q, hfind, hq, hiff⟩ := cancelSubscribe_rolledBack_iff hn ho hfailed
    have hne : ¬ p.cmdId = cmdCreateSubcribe := by
      rw [hcmd]
      decide
    rw [hiff, invertible_iff hfind hq, if_neg hne]

end

section Runs

attribute [local instance] Platform.plain

/-- Client 2 has subscribed to the queue "q", to which the exchange "e" leads. -/
def inUse : List Step := [.makeQueue 1 false, .makeExchange 1, .makeBinding 1, .subscribe 2]

/-- Client 3 binds the queue to an exchange that does not exist. -/
def bindToMissing : Package :=
  .ofBody cmdCreateBinding 3
    (image [writeName (ascii "f"), writeName (ascii "q"), writeName (ascii "k")]) (by decide)

theorem failed_binding_unchanged :
    ∃ st o, run (start none (some 100)) inUse = some st ∧ ascii "q" ∈ st.subcribeQueues ∧
      (st.exchanges.lookup (ascii "e")).map (fun e => e.bindingQueues.lookup (ascii "k")) =
        some (some [0]) ∧
      st.dispatch bindToMissing = some o ∧ o.ret ≠ success ∧ Unchanged st o.server := by
  have hcheck : (run (start none (some 100)) inUse).bind (fun st =>
      (st.dispatch bindToMissing).map fun o => decide (ascii "q" ∈ st.subcribeQueues ∧
        (st.exchanges.lookup (ascii "e")).map (fun e => e.bindingQueues.lookup (ascii "k")) =
          some (some [0]) ∧ ascii "f" ∉ st.exchanges ∧ o.ret ≠ success)) = some true := by
    decide +kernel
  obtain ⟨st, hrun, h⟩ := Option.bind_eq_some_iff.mp hcheck
  obtain ⟨o, ho, hprops⟩ := Option.map_eq_some_iff.mp h
  obtain ⟨hqueue, hbound, hmissing, hret⟩ := of_decide_eq_true hprops
  refine ⟨st, o, hrun, hqueue, hbound, ho, hret, (failed_unchanged_iff ?_ ho).mpr ?_ hret⟩
  · exact Or.inr (Or.inr (Or.inl rfl))
  · rintro ⟨n, _, _, e, _, _, hn, _, _, he, _⟩
    have hname : readName bindToMissing.body 0 = some (ascii "f") := by decide +kernel
    cases hn.symm.trans hname
    exact hmissing (AList.lookup_isSome.mp (Option.isSome_of_eq_some he))

/-- Client 3 makes the durable queue "q". -/
def queueAlone (capPersis : Option Nat) : Option LogicServer :=
  run (start none capPersis) [.makeQueue 3 true]

/-- The package in which client 3 deletes "q". -/
def deleteQueuePackage : Package :=
  .ofBody cmdDeleteQueue 3 (image [writeName (ascii "q")]) Step.length_queueName

/-- The deletion is refused, and the queue is in neither table any more. -/
theorem failed_deletion_effective :
    ∃ st o, queueAlone (some 100) = some st ∧ st.dispatch deleteQueuePackage = some o ∧
      o.ret = errLogicServerDeleteQueue ∧ ascii "q" ∈ st.unSubcribeQueues ∧
      ascii "q" ∉ o.server.unSubcribeQueues ∧ ascii "q" ∉ o.server.subcribeQueues := by
  have hcheck : ((queueAlone (some 100)).bind fun st => (st.dispatch deleteQueuePackage).map
      fun o => decide (o.ret = errLogicServerDeleteQueue ∧ ascii "q" ∈ st.unSubcribeQueues ∧
        ascii "q" ∉ o.server.unSubcribeQueues ∧ ascii "q" ∉ o.server.subcribeQueues)) =
      some true := by decide +kernel
  obtain ⟨st, hst, h⟩ := Option.bind_eq_some_iff.mp hcheck
  obtain ⟨o, ho, hprops⟩ := Option.map_eq_some_iff.mp h
  exact ⟨st, o, hst, ho, of_decide_eq_true hprops⟩

/-- Client 12 subscribes to the durable queue "q"; there is no room for another packet. -/
def oneSubscriber : Option LogicServer :=
  run (start none (some 120)) [.makeQueue 3 true, .subscribe 12]

/-- The package in which a client subscribes to "q" with confirm level 1. -/
def subscribePackage (iClientIndex : Int) : Package :=
  .ofBody cmdCreateSubcribe iClientIndex (image [writeName (ascii "q"), writeByte 1])
    Step.length_subscribe

/-- How the package is taken, and the queue before. -/
def subscribeRefused (iClientIndex : Int) :
    Option (LogicServer × Outcome × QueueId × MessageQueue) :=
  oneSubscriber.bind fun st =>
    (st.dispatch (subscribePackage iClientIndex)).bind fun o =>
      (st.findQueue (ascii "q")).bind fun queue =>
        (st.queues queue).map fun q => (st, o, queue, q)

theorem subscribeRefused_some {c : Int} {st : LogicServer} {o : Outcome} {queue : QueueId}
    {q : MessageQueue} (h : subscribeRefused c = some (st, o, queue, q)) :
    oneSubscriber = some st ∧ st.dispatch (subscribePackage c) = some o ∧
      st.findQueue (ascii "q") = some queue ∧ st.queues queue = some q := by
  obtain ⟨st', hst, h⟩ := Option.bind_eq_some_iff.mp h
  obtain ⟨o', ho, h⟩ := Option.bind_eq_some_iff.mp h
  obtain ⟨queue', hfind, h⟩ := Option.bind_eq_some_iff.mp h
  obtain ⟨q', hq, h⟩ := Option.map_eq_some_iff.mp h
  cases h
  exact ⟨hst, ho, hfind, hq⟩

/-- Client 3 is new and asks for the level that the queue has. -/
theorem second_subscriber_rolledBack :
    ∃ st o, oneSubscriber = some st ∧ st.dispatch (subscribePackage 3) = some o ∧
      o.ret = errLogicServerCreateSubscribe ∧ RolledBack st o.server (ascii "q") := by
  have hcheck : (subscribeRefused 3).map (fun r => decide (
      r.2.1.ret = errLogicServerCreateSubscribe ∧
        r.2.1.strMsgBody = reSubscribeFailed ++ ascii "q" ∧
        r.2.2.2.subscribeConsumers = [12] ∧ r.2.2.2.confirmLevel = 1)) = some true := by
    decide +kernel
  obtain ⟨⟨st, o, queue, q⟩, hrefused, hprops⟩ := Option.map_eq_some_iff.mp hcheck
  obtain ⟨hret, htext, hsubs, hlevel⟩ := of_decide_eq_true hprops
  obtain ⟨hst, ho, hfind, hq⟩ := subscribeRefused_some hrefused
  have hname : readName (subscribePackage 3).body 0 = some (ascii "q") := by decide +kernel
  have hcmd : (subscribePackage 3).cmdId = cmdCreateSubcribe := by decide +kernel
  have hindex : (subscribePackage 3).clientIndex = 3 := by decide +kernel
  have hbyte : readByte (subscribePackage 3).body 32 = 1 := by decide +kernel
  refine ⟨st, o, hst, ho, hret, (rolledBack_iff hname ho (Or.inl ⟨hcmd, htext⟩)).mpr ?_⟩
  refine ⟨queue, q, hfind, hq, ?_⟩
  rw [if_pos hcmd, hsubs, hlevel, hindex, hbyte]
  decide

/-- Client 12 subscribes again and loses the subscription that it had. -/
theorem subscription_lost_by_failure :
    ∃ st o, oneSubscriber = some st ∧ st.dispatch (subscribePackage 12) = some o ∧
      o.ret = errLogicServerCreateSubscribe ∧ o.strMsgBody = reSubscribeFailed ++ ascii "q" ∧
      ∃ queue q q', st.findQueue (ascii "q") = some queue ∧ st.queues queue = some q ∧
        q.durable = true ∧ q.subscribeConsumers = [12] ∧
        o.server.queues queue = some q' ∧ q'.subscribeConsumers = [] := by
  have hcheck : (subscribeRefused 12).bind (fun r => (r.2.1.server.queues r.2.2.1).map fun q' =>
      decide (r.2.1.ret = errLogicServerCreateSubscribe ∧
        r.2.1.strMsgBody = reSubscribeFailed ++ ascii "q" ∧ r.2.2.2.durable = true ∧
        r.2.2.2.subscribeConsumers = [12] ∧ q'.subscribeConsumers = [])) = some true := by
    decide +kernel
  obtain ⟨⟨st, o, queue, q⟩, hrefused, h⟩ := Option.bind_eq_some_iff.mp hcheck
  obtain ⟨q', hq', hprops⟩ := Option.map_eq_some_iff.mp h
  obtain ⟨hret, htext, hdurable, hsubs, hlost⟩ := of_decide_eq_true hprops
  obtain ⟨hst, ho, hfind, hq⟩ := subscribeRefused_some hrefused
  exact ⟨st, o, hst, ho, hret, htext, queue, q, q', hfind, hq, hdurable, hsubs, hq', hlost⟩

end Runs

end Wsmq.LogicServer
