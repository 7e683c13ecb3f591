import Wsmq.LogicServer.Effects
import Wsmq.LogicServer.StepRefinement

/-!
# Every step of the logic server is a sequence of effects

One lemma for each handler and `step_effects` for the whole step.
-/

namespace Wsmq.LogicServer
open Lib Lib.ByteString

variable [Platform] {allowed : Kind → Prop} {st st' : LogicServer}

/-! ## Channels -/

theorem Effects.of_channels (hother : allowed .other) {toConnect toPersis : ShmQueue.Fifo}
    (h : st' = { st with queueToConnect := toConnect, queueToPersis := toPersis }) :
    Effects allowed st st' := by
  rw [h]
  exact .single hother (.channels toConnect toPersis)

/-- A change of the state, and then of the channels. -/
theorem Effects.of_effect {k : Kind} {st₁ : LogicServer} (hother : allowed .other)
    (hk : allowed k) (h : Effect st k st₁) {toConnect toPersis : ShmQueue.Fifo}
    (hst' : st' = { st₁ with queueToConnect := toConnect, queueToPersis := toPersis }) :
    Effects allowed st st' :=
  (Effects.single hk h).trans (.of_channels hother hst')

theorem sendPersis_eq (st : LogicServer) (bDurable : Bool) (bs : Bytes) :
    (st.sendPersis bDurable bs).2 =
      { st with queueToPersis := (st.sendPersis bDurable bs).2.queueToPersis } := by
  unfold sendPersis
  split <;> rfl

theorem sendSubscribers_eq {q : MessageQueue} {bIsCreate : Bool} {r : Int × LogicServer}
    (h : st.sendSubscribers q bIsCreate = some r) :
    r.2 = { st with queueToPersis := r.2.queueToPersis } := by
  obtain ⟨_, h⟩ | ⟨_, h⟩ := ite_eq_some h
  · obtain ⟨packed, _, rfl⟩ := Option.map_eq_some_iff.mp h
    rfl
  · cases h
    rfl

theorem sendPersis_effects (hother : allowed .other) (bDurable : Bool) (bs : Bytes) :
    Effects allowed st (st.sendPersis bDurable bs).2 :=
  .of_channels hother (sendPersis_eq st bDurable bs)

/-! ## PushMessage -/

theorem ackSeqInt_setQueue (st : LogicServer) (queue : QueueId) (q : MessageQueue) :
    (st.setQueue queue q).ackSeqInt = st.ackSeqInt := by
  unfold ackSeqInt
  rfl

theorem pushOne_effects (hother : allowed .other) (hsends : allowed .sends) {queue : QueueId}
    {q q' : MessageQueue} {m : SeverStoreMessage} (hq : st.queues queue = some q)
    (hpop : MessageQueue.Popped q m q') (h : (st.setQueue queue q').pushOne q m = some st') :
    Effects allowed st st' := by
  unfold pushOne at h
  split at h
  · refine .of_effect hother hsends ?_ (enqueueConnectWait_some h)
    refine .await queue q q' m _ hq hpop ?_ ?_ ?_
    · rfl
    · simp only [ackSeqInt_setQueue]
    · exact fun hm => ⟨hm.body, Or.inr rfl⟩
  · obtain ⟨st₁, hsend, rfl⟩ := Option.map_eq_some_iff.mp h
    have hconnect := enqueueConnectWait_some hsend
    have hsent : ∀ x : SeverStoreMessage, x.id = m.id →
        (st₁.sendConsumed cmdServerPushMessage q.queueName x).record (.sentNoAck x.id) =
          { (st.setQueue queue q').record (.sentNoAck m.id) with
            queueToConnect := st₁.queueToConnect
            queueToPersis := (st₁.sendConsumed cmdServerPushMessage q.queueName x).queueToPersis } := by
      intro x hx
      rw [sendConsumed, sendPersis_eq, hx, hconnect]
      rfl
    exact .of_effect hother hsends (.deliver queue q q' m hq hpop) (hsent _ rfl)

theorem pushQueue_effects (hother : allowed .other) (hsends : allowed .sends) (queue : QueueId)
    (fuel : Nat) {st st' : LogicServer} (h : pushQueue queue fuel st = some st') :
    Effects allowed st st' := by
  induction fuel generalizing st with
  | zero =>
    cases h
    exact .refl _
  | succ fuel ih =>
    simp only [pushQueue] at h
    split at h
    · cases h
    · next q hq =>
      split at h
      · cases h
        exact .refl _
      · next m q' hpop =>
        obtain ⟨st₁, hone, hrest⟩ := Option.bind_eq_some_iff.mp h
        exact (pushOne_effects hother hsends hq (MessageQueue.popFrontMsg_some hpop) hone).trans
          (ih hrest)

/-- By induction on the number of entries left, since the loop may skip one. -/
theorem pushLoop_effects (hother : allowed .other) (hsends : allowed .sends) (k : Nat)
    (entries : List (Σ _ : Name, QueueId)) (hk : entries.length ≤ k) {st st' : LogicServer}
    (h : pushLoop entries st = some st') : Effects allowed st st' := by
  induction k generalizing entries st with
  | zero =>
    cases List.length_eq_zero_iff.mp (Nat.le_zero.mp hk)
    cases h
    exact .refl _
  | succ k ih =>
    cases entries with
    | nil =>
      cases h
      exact .refl _
    | cons e rest =>
      have hrest : rest.length ≤ k := Nat.le_of_succ_le_succ hk
      simp only [pushLoop] at h
      split at h
      · cases h
      · next q hq =>
        split at h
        · obtain ⟨st₁, hqueue, hloop⟩ := Option.bind_eq_some_iff.mp h
          exact (pushQueue_effects hother hsends _ _ hqueue).trans (ih rest hrest hloop)
        · next hidle =>
          split at h
          · cases h
          · next e' rest' =>
            have hempty : q.subscribeConsumers = [] := by
              simpa [MessageQueue.isSubscribe] using hidle
            refine .trans (.single hother (.dropSubcribe e'.1)) ?_
            refine .trans (.single hother (.unsubscribe e.2 q hq hempty)) ?_
            exact ih rest' (Nat.le_of_succ_le hrest) h

/-! ## Exchanges, queues and bindings -/

theorem onCreateExchange_effects (hother : allowed .other) {buf : Mem} {iLen : Nat} {o : Outcome}
    (h : st.onCreateExchange buf iLen = some o) : Effects allowed st o.server := by
  obtain ⟨n, _, rfl⟩ := onCreateExchange_some h
  dsimp only [createExchange]
  split
  · exact .refl _
  · have hmade : Effects allowed st (st.setExchanges (st.exchanges.insert n
        ⟨n, readUShort buf 32, readBool buf 34, readBool buf 35, ∅⟩)) :=
      .single hother (.makeExchange n _ rfl)
    split <;> exact hmade.trans (sendPersis_effects hother _ _)

theorem onCreateQueue_effects (hother : allowed .other) {buf : Mem} {iLen : Nat} {o : Outcome}
    (h : st.onCreateQueue buf iLen = some o) : Effects allowed st o.server := by
  obtain ⟨n, _, rfl⟩ := onCreateQueue_some h
  dsimp only [createQueue]
  split
  · exact .refl _
  · have hmade : Effects allowed st (st.newQueue
        { queueName := n
          priority := readShort buf 32
          durable := readBool buf 34
          autoDel := readBool buf 35 }) := by
      refine .single hother (.makeQueue _ ?_ rfl)
      simp [MessageQueue.messages, MsgHeap.items_empty]
    split <;> exact hmade.trans (sendPersis_effects hother _ _)

theorem bindQueue_effects (hother : allowed .other) {n k m : Name} {e : Exchange}
    {queue : QueueId} {o : Outcome} (he : st.exchanges.lookup n = some e)
    (hqueue : st.unSubcribeQueues.lookup m = some queue ∨
      st.subcribeQueues.lookup m = some queue)
    (h : st.bindQueue n k e queue = some o) : Effects allowed st o.server := by
  obtain ⟨r, hsend, rfl⟩ := Option.map_eq_some_iff.mp h
  have hpersis : r.2 = { st.setExchanges (st.exchanges.replace n (e.createBinding k queue)) with
      queueToPersis := r.2.queueToPersis } := by
    obtain ⟨_, hsend⟩ | ⟨_, hsend⟩ := ite_eq_some hsend
    · obtain ⟨packed, _, rfl⟩ := Option.map_eq_some_iff.mp hsend
      rfl
    · cases hsend
      rfl
  have hall : Effects allowed st r.2 :=
    .of_effect hother hother (.bind n k m e queue he hqueue) hpersis
  split <;> exact hall

theorem onCreateBinding_effects (hother : allowed .other) {buf : Mem} {o : Outcome}
    (h : st.onCreateBinding buf = some o) : Effects allowed st o.server := by
  obtain ⟨n, m, k, _, _, _, h⟩ := onCreateBinding_some h
  dsimp only [createBinding] at h
  split at h
  · cases h
    exact .refl _
  · cases h
    exact .refl _
  · next e queue he hqueue =>
    refine bindQueue_effects (m := m) hother he ?_ h
    split at hqueue
    · next hun =>
      cases hqueue
      exact Or.inl hun
    · exact Or.inr hqueue

theorem onDeleteExchange_effects (hother : allowed .other) {buf : Mem} {iLen : Nat} {o : Outcome}
    (h : st.onDeleteExchange buf iLen = some o) : Effects allowed st o.server := by
  obtain ⟨n, _, rfl⟩ := onDeleteExchange_some h
  dsimp only [deleteExchange]
  split
  · exact .refl _
  · split
    · exact sendPersis_effects hother _ _
    · exact (sendPersis_effects hother _ _).trans (.single hother (.dropExchange n))

/-! ## Publishing and pulling -/

theorem storeMessage_effects (hother : allowed .other) {p : Publish}
    (hbody : p.body.length ≤ maxBodyLength) {c : Int} {queue : QueueId}
    (h : st.storeMessage p c queue = some st') : Effects allowed st st' := by
  obtain ⟨q, hq, rfl⟩ := Option.map_eq_some_iff.mp h
  split
  · have hsent : Effects allowed st
        (st.enqueuePersis (durablePacket (durableMessage (st.newMessage p) q))).2 :=
      .of_channels hother rfl
    exact hsent.trans (.single hother (.store p c queue q _ _ hq ⟨rfl, rfl, id⟩ rfl rfl
      ⟨hbody, Or.inl rfl⟩))
  · exact .single hother (.store p c queue q q _ hq ⟨rfl, rfl, id⟩ rfl rfl ⟨hbody, Or.inl rfl⟩)

theorem storeMessages_effects (hother : allowed .other) {p : Publish}
    (hbody : p.body.length ≤ maxBodyLength) {c : Int} (queues : List QueueId)
    {st st' : LogicServer} (h : storeMessages p c queues st = some st') :
    Effects allowed st st' := by
  induction queues generalizing st with
  | nil =>
    cases h
    exact .refl _
  | cons queue rest ih =>
    obtain ⟨st₁, hone, hrest⟩ := Option.bind_eq_some_iff.mp h
    exact (storeMessage_effects hother hbody hone).trans (ih hrest)

theorem insertMsgSeq_effects (hother : allowed .other) (key : Bytes) :
    Effects allowed st (st.insertMsgSeq key) := by
  unfold insertMsgSeq
  split
  · exact .refl _
  · exact .single hother (.producers _ _)

theorem confirmPublish_effects (hother : allowed .other) (p : Publish) (c : Int) :
    Effects allowed st (st.confirmPublish p c) := by
  unfold confirmPublish
  split
  · exact .trans (.of_channels hother rfl) (insertMsgSeq_effects hother _)
  · split
    · exact .trans (.single hother (.producers _ _)) (insertMsgSeq_effects hother _)
    · exact .refl _

theorem publish_effects (hother : allowed .other) {p : Publish}
    (hbody : p.body.length ≤ maxBodyLength) {c : Int} {o : Outcome}
    (h : st.publish p c = some o) : Effects allowed st o.server := by
  unfold publish at h
  rcases ite_eq_some h with ⟨_, h⟩ | ⟨_, h⟩
  · cases h
    exact .of_channels hother rfl
  rcases ite_eq_some h with ⟨_, h⟩ | ⟨_, h⟩
  · cases h
    exact .refl _
  rcases ite_eq_some h with ⟨_, h⟩ | ⟨_, h⟩
  · cases h
    exact .refl _
  rcases ite_eq_some h with ⟨_, h⟩ | ⟨_, h⟩
  · cases h
  · obtain ⟨st₁, hstore, rfl⟩ := Option.map_eq_some_iff.mp h
    exact (storeMessages_effects hother hbody _ hstore).trans (confirmPublish_effects hother p c)

theorem onRecvMessage_effects (hother : allowed .other) (hsends : allowed .sends) {buf : Mem}
    {c : Int} {o : Outcome} (h : st.onRecvMessage buf c = some o) :
    Effects allowed st o.server := by
  obtain ⟨n, _, h⟩ := onRecvMessage_some h
  dsimp only [recvMessage] at h
  split at h
  · cases h
    exact .refl _
  · next queue _ =>
    obtain ⟨q, hq, h⟩ := Option.bind_eq_some_iff.mp h
    split at h
    · cases h
      exact .refl _
    · next m q' hpop =>
      obtain ⟨st₁, hsend, rfl⟩ := Option.map_eq_some_iff.mp h
      have hpopped := MessageQueue.popFrontMsg_some hpop
      unfold sendPulled at hsend
      dsimp only at hsend
      split at hsend
      · refine .of_effect hother hsends ?_ (enqueueConnectWait_some hsend)
        refine .await queue q q' m _ hq hpopped ?_ ?_ ?_
        · rfl
        · simp only [ackSeqInt_setQueue]
        · exact fun hm => ⟨hm.body, hm.cmdId⟩
      · have hconnect := enqueueConnectWait_some hsend
        rw [sendConsumed, sendPersis_eq] at hconnect
        exact .of_effect hother hsends (.deliver queue q q' m hq hpopped) hconnect

/-! ## Subscribing -/

theorem setQueue_setQueue (st : LogicServer) (queue : QueueId) (q q' : MessageQueue) :
    (st.setQueue queue q).setQueue queue q' = st.setQueue queue q' := by
  have hsame : (fun i => if i = queue then some q' else if i = queue then some q else
      st.queues i) = fun i => if i = queue then some q' else st.queues i := by
    funext i
    split <;> rfl
  exact congrArg (fun f => { st with queues := f }) hsame

/-- Found by a name, a queue has that name. -/
theorem Linked.findQueue_name (h : Linked st) {n : Name} {queue : QueueId} {q : MessageQueue}
    (hfind : st.findQueue n = some queue) (hq : st.queues queue = some q) : q.queueName = n := by
  unfold findQueue at hfind
  split at hfind
  · next hsub =>
    cases hfind
    obtain ⟨q₁, hq₁, hn⟩ := h.subcribeQueues n _ hsub
    cases hq.symm.trans hq₁
    exact hn
  · obtain ⟨q₁, hq₁, hn, _⟩ := h.unSubcribeQueues n queue hfind
    cases hq.symm.trans hq₁
    exact hn

theorem addSubscribe_same (q : MessageQueue) (c : Int) (level : Nat) :
    SameObject q (q.addSubscribe c level) := by
  have hnodup := fun h => MessageQueue.addSubscribe_nodup (q := q) h c level
  unfold MessageQueue.addSubscribe at hnodup ⊢
  split at hnodup
  · next h =>
    rw [if_pos h]
    exact ⟨rfl, rfl, hnodup⟩
  · next h =>
    rw [if_neg h]
    exact ⟨rfl, rfl, hnodup⟩

theorem cancelSubscribe_same (q : MessageQueue) (c : Int) :
    SameObject q (q.cancelSubscribe c) :=
  ⟨rfl, rfl, fun h => h.sublist (MessageQueue.eraseConsumer_sublist c _)⟩

theorem SameObject.trans {q q' q'' : MessageQueue} (h : SameObject q q')
    (h' : SameObject q' q'') : SameObject q q'' :=
  ⟨h'.queueName.trans h.queueName, h'.messages.trans h.messages, h'.nodup ∘ h.nodup⟩

/-- The rollback of a first subscription leaves nobody. -/
theorem cancel_add_nil (q : MessageQueue) (c : Int) (level : Nat)
    (h : q.subscribeConsumers = []) :
    ((q.addSubscribe c level).cancelSubscribe c).subscribeConsumers = [] := by
  simp [MessageQueue.addSubscribe, MessageQueue.cancelSubscribe, h, MessageQueue.eraseConsumer]

theorem subscribeQueue_effects (hother : allowed .other) (hl : Linked st) {n : Name}
    {level : Nat} {c : Int} {queue : QueueId} {q : MessageQueue} {o : Outcome}
    (hfind : st.findQueue n = some queue) (hq : st.queues queue = some q)
    (h : st.subscribeQueue n level c queue q = some o) : Effects allowed st o.server := by
  obtain ⟨r, hsend, rfl⟩ := Option.map_eq_some_iff.mp h
  have hname := hl.findQueue_name hfind hq
  have hadd := addSubscribe_same q c level
  have hr := sendSubscribers_eq hsend
  split
  · have hback : r.2.setQueue queue ((q.addSubscribe c level).cancelSubscribe c) =
        { st.setQueue queue ((q.addSubscribe c level).cancelSubscribe c) with
          queueToPersis := r.2.queueToPersis } := by
      rw [hr]
      exact congrArg (fun s : LogicServer => { s with queueToPersis := r.2.queueToPersis })
        (setQueue_setQueue st queue _ _)
    refine .of_effect hother hother ?_ hback
    exact .adjust queue q _ hq (hadd.trans (cancelSubscribe_same _ c)) (cancel_add_nil q c level)
  · split
    · have hdone : (r.2.eraseUnSubcribe n).insertSubcribe n queue =
          { ((st.setQueue queue (q.addSubscribe c level)).eraseUnSubcribe n).insertSubcribe n
              queue with queueToPersis := r.2.queueToPersis } := by
        rw [hr]
        rfl
      exact .of_effect hother hother (.subscribe n queue q _ hq hadd hname) hdone
    · next hun =>
      exact .of_effect hother hother (.resubscribe n queue q _ hq hadd hname hun) hr

theorem onCreateSubscribe_effects (hother : allowed .other) (hl : Linked st) {buf : Mem}
    {c : Int} {o : Outcome} (h : st.onCreateSubscribe buf c = some o) :
    Effects allowed st o.server := by
  obtain ⟨n, _, h⟩ := onCreateSubscribe_some h
  dsimp only [createSubscribe] at h
  split at h
  · cases h
    exact .refl _
  · next queue hfind =>
    obtain ⟨q, hq, h⟩ := Option.bind_eq_some_iff.mp h
    exact subscribeQueue_effects hother hl hfind hq h

/-! ## Deleting queues -/

/-- No key of the exchange leads to the queue. -/
def Unbound (queue : QueueId) (e : Exchange) : Prop :=
  ∀ k l, e.bindingQueues.lookup k = some l → queue ∉ l

theorem sendDeleteExchange_eq (st : LogicServer) (mode : SweepMode) (e : Exchange) :
    (st.sendDeleteExchange mode e).2 =
      { st with queueToPersis := (st.sendDeleteExchange mode e).2.queueToPersis } :=
  sendPersis_eq _ _ _

/-- The sweep changes exchanges and channels only. -/
theorem sweepExchanges_eq (mode : SweepMode) (queue : QueueId)
    (entries : List (Σ _ : Name, Exchange)) (st : LogicServer) :
    (sweepExchanges mode queue entries st).2 =
      { st with
        exchanges := (sweepExchanges mode queue entries st).2.exchanges
        queueToPersis := (sweepExchanges mode queue entries st).2.queueToPersis } := by
  induction entries generalizing st with
  | nil => rfl
  | cons e rest ih =>
    simp only [sweepExchanges]
    split
    · exact ih st
    · split
      · split
        · rw [sendDeleteExchange_eq]
          rfl
        · rw [ih, sendDeleteExchange_eq]
          rfl
      · exact ih _

section Sweep

variable {mode : SweepMode} {queue : QueueId}

omit [Platform] in
theorem unbound_of_empty {e : Exchange} (h : e.getBindingSize = 0) : Unbound queue e := by
  intro k l hl
  have hkeys : e.bindingQueues.keys = [] := List.length_eq_zero_iff.mp h
  have hin : k ∈ e.bindingQueues.keys :=
    AList.mem_keys.mp (AList.lookup_isSome.mp (Option.isSome_of_eq_some hl))
  rw [hkeys] at hin
  cases hin

/-- The entries still to come are those of the map. -/
structure Coming (st : LogicServer) (entries : List (Σ _ : Name, Exchange)) : Prop where
  nodup : (entries.map Sigma.fst).Nodup
  lookup : ∀ e ∈ entries, st.exchanges.lookup e.1 = some e.2

theorem Coming.tail {e : Σ _ : Name, Exchange} {rest : List (Σ _ : Name, Exchange)}
    (h : Coming st (e :: rest))
    (hkeep : ∀ n, n ≠ e.1 → st'.exchanges.lookup n = st.exchanges.lookup n) :
    Coming st' rest := by
  obtain ⟨hnew, hnodup⟩ := List.nodup_cons.mp h.nodup
  refine ⟨hnodup, fun x hx => ?_⟩
  have hne : x.1 ≠ e.1 := fun heq => hnew (heq ▸ List.mem_map_of_mem hx)
  rw [hkeep x.1 hne]
  exact h.lookup x (List.mem_cons_of_mem _ hx)

theorem sweepExchanges_effects (hother : allowed .other) (entries : List (Σ _ : Name, Exchange))
    {st : LogicServer} (hcoming : Coming st entries) :
    Effects allowed st (sweepExchanges mode queue entries st).2 := by
  induction entries generalizing st with
  | nil => exact .refl _
  | cons e rest ih =>
    have he := hcoming.lookup e List.mem_cons_self
    have hunbind : Effects allowed st (st.setExchanges (st.exchanges.replace e.1
        (e.2.deleteBindingQueue queue))) := .single hother (.unbind e.1 e.2 queue he)
    have hsend : ∀ x, Effects allowed st ((st.setExchanges (st.exchanges.replace e.1
        (e.2.deleteBindingQueue queue))).sendDeleteExchange mode x).2 := fun x =>
      hunbind.trans (sendPersis_effects hother _ _)
    simp only [sweepExchanges]
    split
    · exact ih (hcoming.tail fun _ _ => rfl)
    · split
      · split
        · exact hsend _
        · refine ((hsend _).trans (.single hother (.dropExchange e.1))).trans (ih ?_)
          refine hcoming.tail fun n hn => ?_
          show ((((st.setExchanges _).sendDeleteExchange mode _).2).exchanges.erase e.1).lookup n = _
          rw [AList.lookup_erase_ne hn, sendDeleteExchange_eq]
          exact AssocTables.lookup_replace_ne hn
      · refine hunbind.trans (ih ?_)
        exact hcoming.tail fun n hn => AssocTables.lookup_replace_ne hn

/-- When the sweep has come to its end, no exchange leads to the queue. -/
theorem sweepExchanges_unbound (entries : List (Σ _ : Name, Exchange)) {st : LogicServer}
    (hcoming : Coming st entries)
    (hbinds : ∀ n e, st.exchanges.lookup n = some e → BindsLive e st.queues)
    (hdone : ∀ n e, st.exchanges.lookup n = some e → n ∉ entries.map Sigma.fst →
      Unbound queue e)
    (hend : (sweepExchanges mode queue entries st).1 = none) :
    ∀ n e, (sweepExchanges mode queue entries st).2.exchanges.lookup n = some e →
      Unbound queue e := by
  induction entries generalizing st with
  | nil => exact fun n e he => hdone n e he (by simp)
  | cons x rest ih =>
    have hx := hcoming.lookup x List.mem_cons_self
    have hin : x.1 ∈ st.exchanges := AList.lookup_isSome.mp (Option.isSome_of_eq_some hx)
    have hafter : ∀ n, n ∉ rest.map Sigma.fst → n ≠ x.1 → n ∉ (x :: rest).map Sigma.fst := by
      intro n hrest hne
      simpa [hne] using hrest
    simp only [sweepExchanges] at hend ⊢
    split at hend
    · next hempty =>
      rw [if_pos hempty]
      refine ih (hcoming.tail fun _ _ => rfl) hbinds (fun n e he hn => ?_) hend
      by_cases hne : n = x.1
      · subst hne
        cases hx.symm.trans he
        exact unbound_of_empty hempty
      · exact hdone n e he (hafter n hn hne)
    · next hsome =>
      rw [if_neg hsome]
      have hbinds' : ∀ n e, (st.exchanges.replace x.1 (x.2.deleteBindingQueue queue)).lookup n =
          some e → BindsLive e st.queues := by
        intro n e he
        rcases AssocTables.lookup_replace_some hin he with ⟨_, rfl⟩ | ⟨_, hold⟩
        · exact (hbinds x.1 x.2 hx).deleteBindingQueue
        · exact hbinds n e hold
      have hdone' : ∀ n e, (st.exchanges.replace x.1 (x.2.deleteBindingQueue queue)).lookup n =
          some e → n ∉ rest.map Sigma.fst → Unbound queue e := by
        intro n e he hn
        rcases AssocTables.lookup_replace_some hin he with ⟨_, rfl⟩ | ⟨hne, hold⟩
        · exact fun k l hl => (hbinds x.1 x.2 hx).not_mem_deleteBindingQueue hl
        · exact hdone n e hold (hafter n hn hne)
      split at hend
      · next hgone =>
        rw [if_pos hgone]
        split at hend
        · cases hend
        · next hgo =>
          rw [if_neg hgo]
          refine ih ?_ ?_ ?_ hend
          · refine hcoming.tail fun n hn => ?_
            show ((((st.setExchanges _).sendDeleteExchange mode _).2).exchanges.erase x.1).lookup
              n = _
            rw [AList.lookup_erase_ne hn, sendDeleteExchange_eq]
            exact AssocTables.lookup_replace_ne hn
          · intro n e he
            have hold := (AssocTables.lookup_erase_some he).2
            rw [sendDeleteExchange_eq] at hold ⊢
            exact hbinds' n e hold
          · intro n e he hn
            have hold := (AssocTables.lookup_erase_some he).2
            rw [sendDeleteExchange_eq] at hold
            exact hdone' n e hold hn
      · next hstay =>
        rw [if_neg hstay]
        exact ih (hcoming.tail fun n hn => AssocTables.lookup_replace_ne hn) hbinds' hdone' hend

/-- Only where the answers of the persistence channel are looked at, the sweep may stop. -/
theorem sweepExchanges_end (hmode : mode ≠ .checked) (entries : List (Σ _ : Name, Exchange))
    (st : LogicServer) : (sweepExchanges mode queue entries st).1 = none := by
  induction entries generalizing st with
  | nil => rfl
  | cons e rest ih =>
    simp only [sweepExchanges]
    split
    · exact ih st
    · split
      · rw [if_neg fun h => hmode h.1]
        exact ih _
      · exact ih _

variable {q : MessageQueue}

theorem coming_entries (st : LogicServer) : Coming st st.exchanges.entries :=
  ⟨st.exchanges.nodupKeys, fun _ he => AList.mem_lookup_iff.mpr he⟩

theorem detachQueue_effects (hother : allowed .other) (hq : st.queues queue = some q) :
    Effects allowed st (st.detachQueue mode queue q).2 := by
  refine .trans (.single hother (.clear queue q hq)) ?_
  exact sweepExchanges_effects hother _ (coming_entries (st.setQueue queue q.clearMessage))

/-- A queue in neither table that no exchange leads to any more can go. -/
theorem detachQueue_free (hother : allowed .other) (hl : Linked st)
    (hq : st.queues queue = some q) (hun : ∀ n, st.unSubcribeQueues.lookup n ≠ some queue)
    (hsub : ∀ n, st.subcribeQueues.lookup n ≠ some queue)
    (hend : (st.detachQueue mode queue q).1 = none) (bDurable : Bool) (bs : Bytes) :
    Effects allowed st
      (((st.detachQueue mode queue q).2.sendPersis bDurable bs).2.freeQueue queue) := by
  have hcleared : Linked (st.setQueue queue q.clearMessage) :=
    hl.setQueue hq rfl (fun h => h)
  have hunbound := sweepExchanges_unbound _ (coming_entries (st.setQueue queue q.clearMessage))
    hcleared.exchanges
    (fun n e he hn => absurd (List.mem_map_of_mem (AList.mem_lookup_iff.mp he)) hn) hend
  have hkeep := sweepExchanges_eq mode queue st.exchanges.entries
    (st.setQueue queue q.clearMessage)
  have hsent := sendPersis_eq (st.detachQueue mode queue q).2 bDurable bs
  have hdetached : Effects allowed st ((st.detachQueue mode queue q).2.sendPersis bDurable bs).2 :=
    (detachQueue_effects hother hq).trans (sendPersis_effects hother _ _)
  refine hdetached.trans (.single hother (.free queue ?_ ?_ ?_))
  · rw [hsent, detachQueue, hkeep]
    exact hun
  · rw [hsent, detachQueue, hkeep]
    exact hsub
  · rw [hsent]
    exact hunbound

end Sweep

/-- A name that is in no table leads to no queue; other names lead to other queues. -/
theorem Linked.ne_of_erased (h : Linked st) {n : Name} {queue : QueueId} {q : MessageQueue}
    (hq : st.queues queue = some q) (hname : q.queueName = n) :
    (∀ m, (st.unSubcribeQueues.erase n).lookup m ≠ some queue) ∧
      ∀ m, (st.subcribeQueues.erase n).lookup m ≠ some queue := by
  constructor
  · intro m hm
    obtain ⟨hne, hold⟩ := AssocTables.lookup_erase_some hm
    obtain ⟨q₁, hq₁, hm, _⟩ := h.unSubcribeQueues m queue hold
    cases hq.symm.trans hq₁
    exact hne (hm.symm.trans hname)
  · intro m hm
    obtain ⟨hne, hold⟩ := AssocTables.lookup_erase_some hm
    obtain ⟨q₁, hq₁, hm⟩ := h.subcribeQueues m queue hold
    cases hq.symm.trans hq₁
    exact hne (hm.symm.trans hname)

theorem onDeleteQueue_effects (hother : allowed .other) (hl : Linked st) {buf : Mem} {iLen : Nat}
    {o : Outcome} (h : st.onDeleteQueue buf iLen = some o) : Effects allowed st o.server := by
  obtain ⟨n, _, h⟩ := onDeleteQueue_some h
  dsimp only [deleteQueue] at h
  split at h
  · cases h
    exact .refl _
  · next queue hfind =>
    obtain ⟨q, hq, rfl⟩ := Option.map_eq_some_iff.mp h
    have hname := hl.findQueue_name hfind hq
    obtain ⟨hun, hsub⟩ := hl.ne_of_erased hq hname
    have herased : Effects allowed st ((st.eraseUnSubcribe n).eraseSubcribe n) :=
      (Effects.single hother (.dropUnSubcribe n)).trans (.single hother (.dropSubcribe n))
    have hsent := herased.trans (sendPersis_effects hother q.durable
      (persisPacket cmdDeleteQueue (buf.read 0 iLen)))
    have hr := sendPersis_eq ((st.eraseUnSubcribe n).eraseSubcribe n) q.durable
      (persisPacket cmdDeleteQueue (buf.read 0 iLen))
    split
    · exact hsent
    · refine hsent.trans ?_
      have hnothing : ∀ s : LogicServer, (s.sendPersis false []).2 = s := fun s => rfl
      rw [← hnothing (detachQueue _ _ _ _).2]
      refine detachQueue_free hother (hsent.linked hl) ?_ ?_ ?_
        (sweepExchanges_end (by decide) _ _) false []
      · rw [hr]
        exact hq
      · rw [hr]
        exact hun
      · rw [hr]
        exact hsub

theorem cancelSubscribe_nil (q : MessageQueue) (c : Int) (h : q.subscribeConsumers = []) :
    (q.cancelSubscribe c).subscribeConsumers = [] := by
  simp [MessageQueue.cancelSubscribe, h, MessageQueue.eraseConsumer]

theorem cancelAutoDelete_effects (hother : allowed .other) (hl : Linked st) {n : Name}
    {queue : QueueId} {q : MessageQueue} (hq : st.queues queue = some q)
    (hun : ∀ m, st.unSubcribeQueues.lookup m ≠ some queue)
    (hsub : ∀ m, st.subcribeQueues.lookup m ≠ some queue) :
    Effects allowed st (st.cancelAutoDelete n queue q).server := by
  have hdetached : Effects allowed st (st.detachQueue .checked queue q).2 :=
    detachQueue_effects hother hq
  unfold cancelAutoDelete
  dsimp only
  split
  · exact hdetached
  · next hend =>
    split
    · exact hdetached.trans (sendPersis_effects hother _ _)
    · exact detachQueue_free hother hl hq hun hsub hend _ _

theorem cancelQueue_effects (hother : allowed .other) (hl : Linked st) {n : Name} {c : Int}
    {queue : QueueId} {q : MessageQueue} {o : Outcome} (hun : n ∉ st.unSubcribeQueues)
    (hsub : st.subcribeQueues.lookup n = some queue) (hq : st.queues queue = some q)
    (h : st.cancelQueue n c queue q = some o) : Effects allowed st o.server := by
  obtain ⟨r, hsend, rfl⟩ := Option.map_eq_some_iff.mp h
  have hname : q.queueName = n := by
    obtain ⟨q₁, hq₁, hn⟩ := hl.subcribeQueues n queue hsub
    cases hq.symm.trans hq₁
    exact hn
  have hr := sendSubscribers_eq hsend
  have hcancelled : Effects allowed st r.2 :=
    .of_effect hother hother
      (.adjust queue q (q.cancelSubscribe c) hq (cancelSubscribe_same q c)
        (cancelSubscribe_nil q c)) hr
  split
  · have hadd := addSubscribe_same (q.cancelSubscribe c) c q.confirmLevel
    have hback : r.2.setQueue queue ((q.cancelSubscribe c).addSubscribe c q.confirmLevel) =
        { st.setQueue queue ((q.cancelSubscribe c).addSubscribe c q.confirmLevel) with
          queueToPersis := r.2.queueToPersis } := by
      rw [hr]
      exact congrArg (fun s : LogicServer => { s with queueToPersis := r.2.queueToPersis })
        (setQueue_setQueue st queue _ _)
    refine .of_effect hother hother ?_ hback
    exact .resubscribe n queue q _ hq ((cancelSubscribe_same q c).trans hadd) hname hun
  · have hq' : r.2.queues queue = some (q.cancelSubscribe c) := by
      rw [hr]
      exact if_pos rfl
    have hl' := hcancelled.linked hl
    have herased : Effects allowed st (r.2.eraseSubcribe (q.cancelSubscribe c).queueName) :=
      hcancelled.trans (.single hother (.dropSubcribe _))
    obtain ⟨hun', hsub'⟩ := hl'.ne_of_erased hq' hname
    have hnot : r.2.unSubcribeQueues.erase n = r.2.unSubcribeQueues := by
      rw [hr]
      exact AList.ext (List.kerase_of_notMem_keys hun)
    rw [hnot] at hun'
    unfold afterCancel
    dsimp only
    split
    · refine herased.trans (cancelAutoDelete_effects hother (herased.linked hl) hq' hun' ?_)
      rw [← hname] at hsub'
      exact hsub'
    · split
      · next hidle =>
        have hempty : (q.cancelSubscribe c).subscribeConsumers = [] := by
          simpa [MessageQueue.isSubscribe] using hidle
        exact herased.trans (.single hother (.unsubscribe queue _ hq' hempty))
      · exact herased

theorem onCancelSubscribe_effects (hother : allowed .other) (hl : Linked st) {buf : Mem}
    {c : Int} {o : Outcome} (h : st.onCancelSubscribe buf c = some o) :
    Effects allowed st o.server := by
  obtain ⟨n, _, h⟩ := onCancelSubscribe_some h
  dsimp only [LogicServer.cancelSubscribe] at h
  rcases ite_eq_some h with ⟨_, h⟩ | ⟨hun, h⟩
  · cases h
    exact .refl _
  · split at h
    · cases h
      exact .refl _
    · next queue hsub =>
      obtain ⟨q, hq, h⟩ := Option.bind_eq_some_iff.mp h
      exact cancelQueue_effects hother hl hun hsub hq h

/-! ## Acknowledgements -/

theorem dropAcked_eq (st : LogicServer) (pMsg : SeverStoreMessage) (iAckSeq : Int) :
    st.dropAcked pMsg iAckSeq =
      { st.record (.acked pMsg.id iAckSeq) with
        queueToPersis :=
          (st.sendConsumed cmdClientAckMessage pMsg.queueName pMsg).queueToPersis } := by
  rw [dropAcked, sendConsumed, sendPersis_eq]
  rfl

theorem onClientAck_effects (hother : allowed .other) (hsettles : allowed .settles) (buf : Mem)
    (c : Int) : Effects allowed st (st.onClientAck buf c) := by
  rw [onClientAck_single]
  unfold ackSingle
  split
  · exact .refl _
  · next pMsg hfind =>
    exact .of_effect hother hsettles (.ack pMsg _ (readInt buf 1) (perm_cons_eraseP hfind))
      (dropAcked_eq _ _ _)

/-! ## Client exit -/

section Exit

variable {c : Int}

/-- What the loop over `m_mSubcribeQueues` does with an entry, and which it leaves alone. -/
theorem exitQueue_effects (hother : allowed .other) (hl : Linked st)
    {entry : Σ _ : Name, QueueId} {q : MessageQueue}
    (hentry : st.subcribeQueues.lookup entry.1 = some entry.2)
    (hq : st.queues entry.2 = some q) (hsome : q.subscribeConsumers ≠ [])
    (h : (st.setQueue entry.2 (q.cancelSubscribe c)).exitQueue entry (q.cancelSubscribe c) =
      some st') :
    Effects allowed st st' ∧
      ∀ n, n ≠ entry.1 → st'.subcribeQueues.lookup n = st.subcribeQueues.lookup n := by
  obtain ⟨r, hsend, rfl⟩ := Option.map_eq_some_iff.mp h
  obtain ⟨n, queue⟩ := entry
  have hname : q.queueName = n := by
    obtain ⟨q₁, hq₁, hn⟩ := hl.subcribeQueues n queue hentry
    cases hq.symm.trans hq₁
    exact hn
  have hr := sendSubscribers_eq hsend
  have hcancelled : Effects allowed st r.2 :=
    .of_effect hother hother
      (.adjust queue q (q.cancelSubscribe c) hq (cancelSubscribe_same q c)
        (cancelSubscribe_nil q c)) hr
  have hq' : r.2.queues queue = some (q.cancelSubscribe c) := by
    rw [hr]
    exact if_pos rfl
  have herased : Effects allowed st (r.2.eraseSubcribe n) :=
    hcancelled.trans (.single hother (.dropSubcribe n))
  have hothers : ∀ m, m ≠ n →
      (r.2.eraseSubcribe n).subcribeQueues.lookup m = st.subcribeQueues.lookup m := by
    intro m hm
    refine (AList.lookup_erase_ne hm).trans ?_
    rw [hr]
    rfl
  split
  · next hlen =>
    have hempty : (q.cancelSubscribe c).subscribeConsumers = [] := List.length_eq_zero_iff.mp hlen
    dsimp only
    split
    · have hun : ∀ m, (r.2.eraseSubcribe n).unSubcribeQueues.lookup m ≠ some queue := by
        intro m hm
        have hold : st.unSubcribeQueues.lookup m = some queue := by
          have hr' : r.2.unSubcribeQueues.lookup m = some queue := hm
          rwa [hr] at hr'
        obtain ⟨q₁, hq₁, _, hnil⟩ := hl.unSubcribeQueues m queue hold
        cases hq.symm.trans hq₁
        exact hsome hnil
      have hsub := ((hcancelled.linked hl).ne_of_erased hq' hname).2
      refine ⟨herased.trans (detachQueue_free hother (herased.linked hl) hq' hun hsub
        (sweepExchanges_end (by decide) _ _) _ _), fun m hm => ?_⟩
      rw [← hothers m hm, exitAutoDelete, freeQueue, sendPersis_eq, detachQueue, sweepExchanges_eq]
      rfl
    · exact ⟨herased.trans (.single hother (.unsubscribe queue _ hq' hempty)), hothers⟩
  · refine ⟨hcancelled, fun m hm => ?_⟩
    rw [hr]
    rfl

/-- The entries still to come stay in the map. -/
theorem exitQueues_effects (hother : allowed .other) (entries : List (Σ _ : Name, QueueId))
    {st st' : LogicServer} (hl : Linked st) (hkeys : (entries.map Sigma.fst).Nodup)
    (hentries : ∀ e ∈ entries, st.subcribeQueues.lookup e.1 = some e.2)
    (h : exitQueues c entries st = some st') : Effects allowed st st' := by
  induction entries generalizing st with
  | nil =>
    cases h
    exact .refl _
  | cons e rest ih =>
    obtain ⟨hnew, hkeys⟩ := List.nodup_cons.mp hkeys
    have hrest : ∀ x ∈ rest, x.1 ≠ e.1 ∧ st.subcribeQueues.lookup x.1 = some x.2 := fun x hx =>
      ⟨fun he => hnew (he ▸ List.mem_map_of_mem hx), hentries x (List.mem_cons_of_mem _ hx)⟩
    simp only [exitQueues] at h
    split at h
    · cases h
    · next q hq =>
      split at h
      · next hleft =>
        obtain ⟨st₁, hone, hloop⟩ := Option.bind_eq_some_iff.mp h
        have hsome : q.subscribeConsumers ≠ [] := by
          intro hnil
          rw [hnil] at hleft
          exact absurd hleft (Nat.not_lt_zero _)
        obtain ⟨heffects, hkeep⟩ := exitQueue_effects hother hl
          (hentries e List.mem_cons_self) hq hsome hone
        refine heffects.trans (ih (heffects.linked hl) hkeys (fun x hx => ?_) hloop)
        rw [hkeep x.1 (hrest x hx).1]
        exact (hrest x hx).2
      · have hadjust : Effects allowed st (st.setQueue e.2 (q.cancelSubscribe c)) :=
          .single hother (.adjust e.2 q _ hq (cancelSubscribe_same q c) (cancelSubscribe_nil q c))
        exact hadjust.trans (ih (hadjust.linked hl) hkeys (fun x hx => (hrest x hx).2) h)

/-- The messages of the client go back one by one; `kept` are the others. -/
theorem requeue_effects (hsettles : allowed .settles) (kept : List SeverStoreMessage)
    (l : List SeverStoreMessage) {st st' : LogicServer} (h : requeue l st = some st') :
    Effects allowed (st.setNeedAck (l ++ kept)) (st'.setNeedAck kept) ∧
      st'.needAckMessageList = st.needAckMessageList := by
  induction l generalizing st with
  | nil =>
    cases h
    exact ⟨.refl _, rfl⟩
  | cons m l ih =>
    simp only [requeue] at h
    split at h
    · refine ⟨.trans (.single hsettles ?_) (ih h).1, (ih h).2⟩
      exact Effect.forget m (l ++ kept) (.refl _)
    · next queue _ =>
      split at h
      · cases h
      · next q hq =>
        refine ⟨.trans (.single hsettles ?_) (ih h).1, (ih h).2⟩
        exact Effect.giveBack queue q m (l ++ kept) hq (.refl _)

theorem exitNeedAck_effects (hother : allowed .other) (hsettles : allowed .settles)
    (h : st.exitNeedAck c = some st') : Effects allowed st st' := by
  obtain ⟨st₁, hrequeue, rfl⟩ := Option.map_eq_some_iff.mp h
  have hkeep := (requeue_effects hsettles [] _ hrequeue).2
  refine .trans (.single hother (.arrange _ ?_)) (requeue_effects hsettles _ _ hrequeue).1
  rw [hkeep]
  have hsplit := List.filter_append_perm (fun m : SeverStoreMessage => decide (m.index = c))
    st.needAckMessageList
  simpa only [decide_not] using hsplit.symm

theorem onClientExit_effects (hother : allowed .other) (hsettles : allowed .settles)
    (hl : Linked st) (h : st.onClientExit c = some st') : Effects allowed st st' := by
  obtain ⟨st₁, hqueues, hneed⟩ := Option.bind_eq_some_iff.mp h
  have hprune : Effects allowed st (st.pruneMsgSeqs c) := .single hother (.producers _ _)
  have hloop : Effects allowed (st.pruneMsgSeqs c) st₁ :=
    exitQueues_effects hother _ (hprune.linked hl) st.subcribeQueues.nodupKeys
      (fun _ he => AList.mem_lookup_iff.mpr he) hqueues
  exact (hprune.trans hloop).trans (exitNeedAck_effects hother hsettles hneed)

end Exit

/-! ## The main loop -/

/-- What a step may do: only `PushMessage` and pulling send messages, and they settle none. -/
def StepKind (a : Step) (k : Kind) : Prop :=
  match k with
  | .sends => a = .pushMessage ∨ a.cmdId = some cmdCreateRecv
  | .settles => a ≠ .pushMessage ∧ a.cmdId ≠ some cmdCreateRecv
  | .other => True

omit [Platform] in
/-- A package holds no longer body. -/
theorem decodePublish_body_le {p : Package} {pub : Publish}
    (h : decodePublish p.body p.bodyLen = some pub) : pub.body.length ≤ maxBodyLength := by
  obtain ⟨n, _, h⟩ := Option.bind_eq_some_iff.mp h
  obtain ⟨k, _, rfl⟩ := Option.map_eq_some_iff.mp h
  have hlen := p.len_le
  have hbody : p.bodyLen = p.len - sizeofClientPackageHead := rfl
  have hmax : maxBodyLength = 11184 := rfl
  have hclient : maxClintPackageLength = 11264 := rfl
  have hhead : sizeofClientPackageHead = 8 := rfl
  have hoffset : publishBodyOffset = 72 := rfl
  show (Mem.read _ _ _).length ≤ _
  rw [Mem.read_length]
  omega

theorem reply_effects (hother : allowed .other) (o : Outcome) (c : Int) :
    Effects allowed o.server (reply o c) := by
  unfold reply
  split
  · exact .refl _
  · exact .of_channels hother rfl

theorem dispatch_effects {p : Package} (hl : Linked st) {o : Outcome}
    (h : st.dispatch p = some o) : Effects (StepKind (.package p)) st o.server := by
  have hother : StepKind (.package p) .other := trivial
  unfold dispatch at h
  rcases ite_eq_some h with ⟨_, h⟩ | ⟨_, h⟩
  · exact onCreateExchange_effects hother h
  rcases ite_eq_some h with ⟨_, h⟩ | ⟨_, h⟩
  · exact onCreateQueue_effects hother h
  rcases ite_eq_some h with ⟨_, h⟩ | ⟨_, h⟩
  · exact onCreateBinding_effects hother h
  rcases ite_eq_some h with ⟨_, h⟩ | ⟨_, h⟩
  · obtain ⟨pub, hdecode, hpub⟩ := Option.bind_eq_some_iff.mp h
    exact publish_effects hother (decodePublish_body_le hdecode) hpub
  rcases ite_eq_some h with ⟨hcmd, h⟩ | ⟨hpull, h⟩
  · exact onRecvMessage_effects hother (Or.inr (congrArg some hcmd)) h
  have hsettles : StepKind (.package p) .settles :=
    ⟨(fun heq => nomatch heq), fun heq => hpull (Option.some.inj heq)⟩
  rcases ite_eq_some h with ⟨_, h⟩ | ⟨_, h⟩
  · exact onCreateSubscribe_effects hother hl h
  rcases ite_eq_some h with ⟨_, h⟩ | ⟨_, h⟩
  · exact onDeleteExchange_effects hother h
  rcases ite_eq_some h with ⟨_, h⟩ | ⟨_, h⟩
  · exact onDeleteQueue_effects hother hl h
  rcases ite_eq_some h with ⟨_, h⟩ | ⟨_, h⟩
  · exact onCancelSubscribe_effects hother hl h
  rcases ite_eq_some h with ⟨_, h⟩ | ⟨_, h⟩
  · cases h
    exact onClientAck_effects hother hsettles _ _
  rcases ite_eq_some h with ⟨_, h⟩ | ⟨_, h⟩
  · obtain ⟨st₁, hexit, rfl⟩ := Option.map_eq_some_iff.mp h
    exact onClientExit_effects hother hsettles hl hexit
  · cases h
    exact .refl _

/-- Whatever the channels hold, a step is a sequence of effects. -/
theorem step_effects {a : Step} (hl : Linked st) (h : step st a = some st') :
    Effects (StepKind a) st st' := by
  have hother : StepKind a .other := trivial
  cases a with
  | package p =>
    obtain ⟨o, hproc, rfl⟩ := Option.map_eq_some_iff.mp h
    refine .trans ?_ (reply_effects hother o _)
    rcases ite_eq_some hproc with ⟨_, hproc⟩ | ⟨_, hproc⟩
    · cases hproc
      exact .refl _
    · exact dispatch_effects hl hproc
  | pushMessage => exact pushLoop_effects hother (Or.inl rfl) _ _ (Nat.le_refl _) h
  | sendMultiAck =>
    rcases ite_eq_some h with ⟨_, h⟩ | ⟨_, h⟩
    · cases h
      exact .single hother (.producers _ _)
    · cases h
  | drainConnect =>
    obtain ⟨r, _, rfl⟩ := Option.map_eq_some_iff.mp h
    exact .of_channels hother rfl
  | drainPersis =>
    obtain ⟨r, _, rfl⟩ := Option.map_eq_some_iff.mp h
    exact .of_channels hother rfl
  | rehash t =>
    rcases ite_eq_some h with ⟨hsame, h⟩ | ⟨_, h⟩
    · cases h
      exact .single hother (.rehash t hsame)
    · cases h

theorem linked_of_run {capConnect capPersis : Option Nat} {as : List Step}
    (hrun : run (start capConnect capPersis) as = some st) : Linked st :=
  Runs.invariant_of_step (fun _ _ _ hi hs => (step_effects hi hs).linked hi)
    (linked_start capConnect capPersis) hrun

end Wsmq.LogicServer
