import Wsmq.LogicServer.StepEffects

/-!
# A round of `PushMessage`

The loop erases from the map after its iterator has moved on, so a queue without subscribers
stays in the map and the queue after it is thrown out.
-/

namespace Wsmq
open Lib Lib.ByteString Lib.Packing Lib.Fifo

namespace LogicServer

section Channel

variable [Platform] {st st' : LogicServer} {f f' : ShmQueue.Fifo} {bs : Bytes}

/-- The loop of `waitConnect` on the channel alone. -/
def putPackWait (bs : Bytes) : Nat → ShmQueue.Fifo → Option ShmQueue.Fifo
  | 0, _ => none
  | fuel + 1, f =>
    let r := f.call (.enqueue bs)
    if r.1.ret = ShmQueue.errShmQueueFull then f.dequeue.bind fun d => putPackWait bs fuel d.2
    else some r.2

/-- The channel once it has accepted a package. -/
def putPack (f : ShmQueue.Fifo) (bs : Bytes) : Option ShmQueue.Fifo :=
  putPackWait bs (f.items.length + 1) f

/-- The channel once it has accepted these packages, one after the other. -/
def putPacks : List Bytes → ShmQueue.Fifo → Option ShmQueue.Fifo
  | [], f => some f
  | bs :: packs, f => (putPack f bs).bind (putPacks packs)

omit [Platform] in
theorem putPacks_append (packs packs' : List Bytes) (f : ShmQueue.Fifo) :
    putPacks (packs ++ packs') f = (putPacks packs f).bind (putPacks packs') := by
  induction packs generalizing f with
  | nil => rfl
  | cons bs packs ih =>
    simp only [List.cons_append, putPacks, Option.bind_assoc]
    exact congrArg _ (funext ih)

theorem waitConnect_eq (bs : Bytes) (fuel : Nat) (st : LogicServer) :
    waitConnect bs fuel st =
      (putPackWait bs fuel st.queueToConnect).map fun f => { st with queueToConnect := f } := by
  induction fuel generalizing st with
  | zero => rfl
  | succ fuel ih =>
    have hret : (st.enqueueConnect bs).1 = (st.queueToConnect.call (.enqueue bs)).1.ret := rfl
    rw [waitConnect, putPackWait]
    by_cases hfull : (st.queueToConnect.call (.enqueue bs)).1.ret = ShmQueue.errShmQueueFull
    · rw [if_pos (hret.trans hfull), if_pos hfull, drainConnect]
      cases st.queueToConnect.dequeue with
      | none => rfl
      | some d => exact ih { st with queueToConnect := d.2 }
    · rw [if_neg (hret ▸ hfull), if_neg hfull]
      rfl

theorem enqueueConnectWait_eq (st : LogicServer) (bs : Bytes) :
    st.enqueueConnectWait bs =
      (putPack st.queueToConnect bs).map fun f => { st with queueToConnect := f } :=
  waitConnect_eq _ _ _

omit [Platform] in
/-- Room is made until the package fits, if it fits at all. -/
theorem putPackWait_some (h : Fits f.cap (ShmQueue.blockCost bs)) {fuel : Nat}
    (hfuel : f.items.length < fuel) : ∃ f', putPackWait bs fuel f = some f' ∧ f'.cap = f.cap := by
  induction fuel generalizing f with
  | zero => cases hfuel
  | succ fuel ih =>
    unfold putPackWait
    by_cases hfits : Fits f.cap (total ShmQueue.blockCost f.items + ShmQueue.blockCost bs)
    · obtain ⟨hret, hcap, _⟩ := ShmQueue.Fifo.call_enqueue_of_fits hfits
      have hne : (f.call (.enqueue bs)).1.ret ≠ ShmQueue.errShmQueueFull := by
        rw [hret]
        decide
      dsimp only
      rw [if_neg hne]
      exact ⟨_, rfl, hcap⟩
    · obtain ⟨hret, _⟩ := ShmQueue.Fifo.call_enqueue_of_not_fits hfits
      dsimp only
      rw [if_pos hret]
      cases hitems : f.items with
      | nil =>
        rw [hitems, total_nil, Nat.zero_add] at hfits
        exact absurd h hfits
      | cons a as =>
        obtain ⟨d, hd, hcap, hrest⟩ := BoundedFifo.dequeue_cons hitems
        rw [hitems, List.length_cons] at hfuel
        have hless : d.items.length < fuel := by
          rw [hrest]
          omega
        obtain ⟨f', hf', hcap'⟩ := ih (hcap ▸ h) hless
        rw [hd, Option.bind_some]
        exact ⟨f', hf', hcap'.trans hcap⟩

omit [Platform] in
theorem putPack_some (h : Fits f.cap (ShmQueue.blockCost bs)) :
    ∃ f', putPack f bs = some f' ∧ f'.cap = f.cap := putPackWait_some h (Nat.lt_succ_self _)

end Channel

section Round

variable [Platform] {st st' : LogicServer} {q q' : MessageQueue} {id : QueueId}

/-- The package of a pushed message. -/
def pushPack (m : SeverStoreMessage) : Bytes := (m.getMessagePack zeroed maxServerPackageLength).sent

/-- `Enqueue` accepts every package of a server sooner or later. -/
def Accepting (f : ShmQueue.Fifo) : Prop :=
  ∀ bs : Bytes, bs.length ≤ maxServerPackageLength → Fits f.cap (ShmQueue.blockCost bs)

/-- The messages go out once each, each of them to one of the subscribers. -/
def Delivers (q : MessageQueue) (sent : List SeverStoreMessage) : Prop :=
  ∃ l, l.Perm q.messages ∧ List.Forall₂ (fun m m' => m'.id = m.id ∧ m'.msgBody = m.msgBody ∧
    m'.cmdId = cmdServerPushMessage ∧ m'.index ∈ q.subscribeConsumers) l sent

omit [Platform] in
theorem length_pushPack (m : SeverStoreMessage) : (pushPack m).length ≤ maxServerPackageLength := by
  rw [pushPack, Packed.sent, Mem.read_length, SeverStoreMessage.getMessagePack, pack]
  split
  · exact Nat.le_refl _
  · next hroom =>
    have hle : (m.iMsgLen : Int) ≤ maxServerPackageLength := Int.not_lt.mp hroom
    show (m.iMsgLen : Int).toNat ≤ maxServerPackageLength
    omega

/-- While `q` was emptied, `sent` went to the connect server; the rest is as it was. -/
structure Emptied (st : LogicServer) (id : QueueId) (q : MessageQueue)
    (sent : List SeverStoreMessage) (st' : LogicServer) : Prop where
  unSubcribeQueues : st'.unSubcribeQueues = st.unSubcribeQueues
  subcribeQueues : st'.subcribeQueues = st.subcribeQueues
  others : ∀ i, i ≠ id → st'.queues i = st.queues i
  self : ∃ q', st'.queues id = some q' ∧ q'.messages = [] ∧ q'.queueName = q.queueName ∧
    q'.subscribeConsumers = q.subscribeConsumers
  delivers : Delivers q sent
  channel : putPacks (sent.map pushPack) st.queueToConnect = some st'.queueToConnect
  cap : st'.queueToConnect.cap = st.queueToConnect.cap

/-- One message goes out, as soon as there is room. -/
theorem pushOne_sends (hacc : Accepting st.queueToConnect) (q : MessageQueue)
    (m : SeverStoreMessage) : ∃ m' st', st.pushOne q m = some st' ∧ m'.id = m.id ∧
      m'.msgBody = m.msgBody ∧ m'.cmdId = cmdServerPushMessage ∧ m'.index = m.index ∧
      putPack st.queueToConnect (pushPack m') = some st'.queueToConnect ∧
      st'.queueToConnect.cap = st.queueToConnect.cap ∧
      st'.unSubcribeQueues = st.unSubcribeQueues ∧ st'.subcribeQueues = st.subcribeQueues ∧
      st'.queues = st.queues := by
  unfold pushOne
  split
  · let m' : SeverStoreMessage :=
      { m with
        cmdId := cmdServerPushMessage
        confirmLevel := q.confirmLevel
        msgSeq := st.ackSeqInt
        queueName := q.queueName }
    obtain ⟨f', hput, hcap⟩ := putPack_some (hacc (pushPack m') (length_pushPack m'))
    refine ⟨m', { st.pushNeedAck m' with queueToConnect := f' }, ?_, rfl, rfl, rfl, rfl, hput, hcap,
      rfl, rfl, rfl⟩
    have hput' : putPack (st.pushNeedAck m').queueToConnect (pushPack m') = some f' := hput
    rw [sendAwaited, enqueueConnectWait_eq]
    exact congrArg (Option.map _) hput'
  · let m' : SeverStoreMessage := { m with cmdId := cmdServerPushMessage, msgSeq := -1 }
    obtain ⟨f', hput, hcap⟩ := putPack_some (hacc (pushPack m') (length_pushPack m'))
    let st₁ : LogicServer := { st with queueToConnect := f' }
    have hrest : (st₁.sendConsumed cmdServerPushMessage q.queueName m').record (.sentNoAck m'.id) =
        { st₁.record (.sentNoAck m'.id) with
          queueToPersis := (st₁.sendConsumed cmdServerPushMessage q.queueName m').queueToPersis } := by
      rw [sendConsumed, sendPersis_eq]
      rfl
    refine ⟨m', (st₁.sendConsumed cmdServerPushMessage q.queueName m').record (.sentNoAck m'.id), ?_,
      rfl, rfl, rfl, rfl, ?_, ?_, ?_, ?_, ?_⟩
    · dsimp only
      rw [enqueueConnectWait_eq]
      have hput' : putPack st.queueToConnect
          (m'.getMessagePack zeroed maxServerPackageLength).sent = some f' := hput
      rw [hput', Option.map_some, Option.map_some]
    · rw [hrest]
      exact hput
    · rw [hrest]
      exact hcap
    · rw [hrest]
      rfl
    · rw [hrest]
      rfl
    · rw [hrest]
      rfl

theorem nextPushIndex_lt {q : MessageQueue} (h : q.subscribeConsumers ≠ []) :
    q.nextPushIndex.toNat < q.subscribeConsumers.length := by
  have hpos : 0 < q.subscribeConsumers.length := List.length_pos_iff.mpr h
  unfold MessageQueue.nextPushIndex
  split <;> omega

/-- A message is taken out for one of the subscribers. -/
theorem popFrontMsg_push (hsubs : q.subscribeConsumers ≠ []) (hmsgs : q.messages ≠ []) :
    ∃ x q' c, q.popFrontMsg true = some ({ x with index := c }, q') ∧
      q.messages.Perm (x :: q'.messages) ∧ c ∈ q.subscribeConsumers ∧
      q'.queueName = q.queueName ∧ q'.subscribeConsumers = q.subscribeConsumers := by
  cases htake : q.takeFront with
  | none => exact absurd (MessageQueue.takeFront_none htake) hmsgs
  | some r =>
    obtain ⟨x, q₁⟩ := r
    obtain ⟨hperm, hname, hconsumers, _⟩ := MessageQueue.takeFront_some htake
    have hnone : (true && q.subscribeConsumers.isEmpty) ≠ true := by simpa using hsubs
    have hlt := nextPushIndex_lt hsubs
    refine ⟨x, { q₁ with pushIndex := q.nextPushIndex },
      q.subscribeConsumers.getD q.nextPushIndex.toNat 0, ?_, hperm, ?_, hname, hconsumers⟩
    · unfold MessageQueue.popFrontMsg
      rw [if_neg hnone, htake]
      rfl
    · rw [List.getD_eq_getElem _ _ hlt]
      exact List.getElem_mem hlt

theorem delivers_nil (h : q.messages = []) : Delivers q [] :=
  ⟨[], h ▸ .refl _, .nil⟩

/-- The messages of a queue with subscribers go out one after the other. -/
theorem pushQueue_empties (fuel : Nat) {st : LogicServer} {q : MessageQueue}
    (hq : st.queues id = some q) (hfuel : q.messages.length = fuel)
    (hsubs : q.subscribeConsumers ≠ []) (hacc : Accepting st.queueToConnect) :
    ∃ st' sent, pushQueue id fuel st = some st' ∧ Emptied st id q sent st' := by
  induction fuel generalizing st q with
  | zero =>
    have hnil : q.messages = [] := List.length_eq_zero_iff.mp hfuel
    exact ⟨st, [], rfl, rfl, rfl, fun _ _ => rfl, ⟨q, hq, hnil, rfl, rfl⟩, delivers_nil hnil, rfl,
      rfl⟩
  | succ fuel ih =>
    have hmsgs : q.messages ≠ [] := by
      intro hnil
      rw [hnil] at hfuel
      cases hfuel
    obtain ⟨x, q₁, c, hpop, hperm, hc, hname, hconsumers⟩ := popFrontMsg_push hsubs hmsgs
    obtain ⟨m', st₁, hone, hid, hbody, hcmd, hindex, hput, hcap, hun, hsub, hqueues⟩ :=
      @pushOne_sends _ (st.setQueue id q₁) hacc q { x with index := c }
    have hq₁ : st₁.queues id = some q₁ := by
      rw [hqueues]
      exact if_pos rfl
    have hlen : q₁.messages.length = fuel := by
      have := hperm.length_eq
      rw [hfuel, List.length_cons] at this
      exact (Nat.succ.inj this).symm
    have hacc₁ : Accepting st₁.queueToConnect := by
      intro bs hbs
      rw [hcap]
      exact hacc bs hbs
    obtain ⟨st', sent, hrest, hemptied⟩ := ih hq₁ hlen (hconsumers ▸ hsubs) hacc₁
    obtain ⟨q', hq', hnil, hname', hconsumers'⟩ := hemptied.self
    obtain ⟨l, hl, hsent⟩ := hemptied.delivers
    refine ⟨st', m' :: sent, ?_, hemptied.unSubcribeQueues.trans hun,
      hemptied.subcribeQueues.trans hsub, ?_,
      ⟨q', hq', hnil, hname'.trans hname, hconsumers'.trans hconsumers⟩, ?_, ?_,
      hemptied.cap.trans hcap⟩
    · rw [pushQueue, hq]
      dsimp only
      rw [hpop]
      dsimp only
      rw [hone, Option.bind_some, hrest]
    · intro i hi
      rw [hemptied.others i hi, hqueues]
      exact if_neg hi
    · refine ⟨x :: l, (hl.cons x).trans hperm.symm, .cons ⟨hid, hbody, hcmd, ?_⟩ ?_⟩
      · rw [hindex]
        exact hc
      · rw [← hconsumers]
        exact hsent
    · show (putPack st.queueToConnect (pushPack m')).bind (putPacks (sent.map pushPack)) = _
      have hput' : putPack st.queueToConnect (pushPack m') = some st₁.queueToConnect := hput
      rw [hput', Option.bind_some, hemptied.channel]

/-! ## The whole map -/

/-- The queue `id` is registered under `n` and nobody is subscribed to it. -/
def Idle (st : LogicServer) (n : Name) (id : QueueId) : Prop :=
  st.subcribeQueues.lookup n = some id ∧
    ∃ q, st.queues id = some q ∧ q.subscribeConsumers = []

/-- What is left of a queue once its messages are out. -/
def Drained (q q' : MessageQueue) : Prop :=
  q'.messages = [] ∧ q'.queueName = q.queueName ∧ q'.subscribeConsumers = q.subscribeConsumers

/-- The entries of the map and what is sent for each of them. -/
def SendsOf (st : LogicServer) (e : Σ _ : Name, QueueId) (ms : List SeverStoreMessage) : Prop :=
  ∃ q, st.queues e.2 = some q ∧
    if q.subscribeConsumers = [] then ms = [] else Delivers q ms

/-- A round has treated every queue as it should. -/
structure RoundDone (st st' : LogicServer) : Prop where
  subcribeQueues : ∀ n id, st'.subcribeQueues.lookup n = some id ↔
    st.subcribeQueues.lookup n = some id ∧ ¬ Idle st n id
  unSubcribeQueues : ∀ n id, st'.unSubcribeQueues.lookup n = some id ↔
    Idle st n id ∨ (st.unSubcribeQueues.lookup n = some id ∧ ∀ i, ¬ Idle st n i)
  untouched : ∀ id, (∀ n, st.subcribeQueues.lookup n = some id → Idle st n id) →
    st'.queues id = st.queues id
  drained : ∀ n id q, st.subcribeQueues.lookup n = some id → st.queues id = some q →
    q.subscribeConsumers ≠ [] → ∃ q', st'.queues id = some q' ∧ Drained q q'
  sends : ∃ sent, List.Forall₂ (SendsOf st) st.subcribeQueues.entries sent ∧
    putPacks (sent.flatten.map pushPack) st.queueToConnect = some st'.queueToConnect

/-- Entries with different keys and live queues of these names. -/
structure Entries (st : LogicServer) (entries : List (Σ _ : Name, QueueId)) : Prop where
  keys : entries.NodupKeys
  live : ∀ e ∈ entries, ∃ q, st.queues e.2 = some q ∧ q.queueName = e.1

theorem Entries.ne {e : Σ _ : Name, QueueId} {rest : List (Σ _ : Name, QueueId)}
    (h : Entries st (e :: rest)) {x : Σ _ : Name, QueueId} (hx : x ∈ rest) :
    x.1 ≠ e.1 ∧ x.2 ≠ e.2 := by
  have hkey : x.1 ≠ e.1 := by
    intro heq
    exact (List.nodupKeys_cons.mp h.keys).1 (heq ▸ List.mem_keys_of_mem hx)
  refine ⟨hkey, fun heq => hkey ?_⟩
  obtain ⟨q, hq, hname⟩ := h.live e List.mem_cons_self
  obtain ⟨q₁, hq₁, hname₁⟩ := h.live x (List.mem_cons_of_mem _ hx)
  rw [heq] at hq₁
  cases hq.symm.trans hq₁
  exact hname₁.symm.trans hname

theorem Entries.tail {e : Σ _ : Name, QueueId} {rest : List (Σ _ : Name, QueueId)}
    (h : Entries st (e :: rest)) {q : MessageQueue} {sent : List SeverStoreMessage}
    (hemptied : Emptied st e.2 q sent st') : Entries st' rest := by
  refine ⟨(List.nodupKeys_cons.mp h.keys).2, fun x hx => ?_⟩
  rw [hemptied.others _ (h.ne hx).2]
  exact h.live x (List.mem_cons_of_mem _ hx)

/-- The loop over queues that all have subscribers. -/
structure AllEmptied (st : LogicServer) (entries : List (Σ _ : Name, QueueId)) (st' : LogicServer) :
    Prop where
  unSubcribeQueues : st'.unSubcribeQueues = st.unSubcribeQueues
  subcribeQueues : st'.subcribeQueues = st.subcribeQueues
  others : ∀ i, (∀ e ∈ entries, e.2 ≠ i) → st'.queues i = st.queues i
  drained : ∀ e ∈ entries, ∀ q, st.queues e.2 = some q →
    ∃ q', st'.queues e.2 = some q' ∧ Drained q q'
  sends : ∃ sent, List.Forall₂ (SendsOf st) entries sent ∧
    putPacks (sent.flatten.map pushPack) st.queueToConnect = some st'.queueToConnect

omit [Platform] in
theorem Accepting.of_cap {f f' : ShmQueue.Fifo} (h : Accepting f) (hcap : f'.cap = f.cap) :
    Accepting f' := by
  intro bs hbs
  rw [hcap]
  exact h bs hbs

theorem isSubscribe_iff : q.isSubscribe = true ↔ q.subscribeConsumers ≠ [] := by
  simp [MessageQueue.isSubscribe]

theorem pushLoop_empties (entries : List (Σ _ : Name, QueueId)) {st : LogicServer}
    (hent : Entries st entries)
    (hsubs : ∀ e ∈ entries, ∀ q, st.queues e.2 = some q → q.subscribeConsumers ≠ [])
    (hacc : Accepting st.queueToConnect) :
    ∃ st', pushLoop entries st = some st' ∧ AllEmptied st entries st' := by
  induction entries generalizing st with
  | nil =>
    exact ⟨st, rfl, rfl, rfl, fun _ _ => rfl, (fun _ h => nomatch h), [], .nil, rfl⟩
  | cons e rest ih =>
    obtain ⟨q, hq, _⟩ := hent.live e List.mem_cons_self
    have hne := hsubs e List.mem_cons_self q hq
    obtain ⟨st₁, ms, hqueue, hemptied⟩ := pushQueue_empties _ hq rfl hne hacc
    have hold : ∀ x ∈ rest, st₁.queues x.2 = st.queues x.2 :=
      fun x hx => hemptied.others _ (hent.ne hx).2
    have hsubs₁ : ∀ x ∈ rest, ∀ q, st₁.queues x.2 = some q → q.subscribeConsumers ≠ [] := by
      intro x hx q' hq'
      rw [hold x hx] at hq'
      exact hsubs x (List.mem_cons_of_mem _ hx) q' hq'
    obtain ⟨st', hloop, hall⟩ := ih (hent.tail hemptied) hsubs₁ (hacc.of_cap hemptied.cap)
    obtain ⟨sent, hsent, hput⟩ := hall.sends
    refine ⟨st', ?_, hall.unSubcribeQueues.trans hemptied.unSubcribeQueues,
      hall.subcribeQueues.trans hemptied.subcribeQueues, ?_, ?_, ms :: sent, .cons ?_ ?_, ?_⟩
    · rw [pushLoop.eq_def]
      dsimp only
      rw [hq]
      dsimp only
      rw [if_pos (isSubscribe_iff.mpr hne), hqueue, Option.bind_some, hloop]
    · intro i hi
      rw [hall.others i fun x hx => hi x (List.mem_cons_of_mem _ hx),
        hemptied.others i (hi e List.mem_cons_self).symm]
    · intro x hx q₁ hq₁
      rcases List.mem_cons.mp hx with rfl | hx
      · cases hq.symm.trans hq₁
        obtain ⟨q', hq', hdrained⟩ := hemptied.self
        refine ⟨q', ?_, hdrained⟩
        rw [hall.others _ fun y hy => (hent.ne hy).2, hq']
      · rw [← hold x hx] at hq₁
        exact hall.drained x hx q₁ hq₁
    · exact ⟨q, hq, (if_neg hne).mpr hemptied.delivers⟩
    · have hmem := (List.forall₂_and_left rest sent).mpr ⟨fun x hx => hx, hsent⟩
      refine hmem.imp fun x ms' hx => ?_
      obtain ⟨q₁, hq₁, hms'⟩ := hx.2
      exact ⟨q₁, hold x hx.1 ▸ hq₁, hms'⟩
    · rw [List.flatten_cons, List.map_append, putPacks_append, hemptied.channel, Option.bind_some]
      exact hput

/-- Only keys that the loop still has before it are erased. -/
theorem pushLoop_lookup (k : Nat) {entries : List (Σ _ : Name, QueueId)} (hk : entries.length ≤ k)
    {st st' : LogicServer} (h : pushLoop entries st = some st') {n : Name}
    (hn : n ∉ entries.keys) : st'.subcribeQueues.lookup n = st.subcribeQueues.lookup n := by
  induction k generalizing entries st with
  | zero =>
    cases List.length_eq_zero_iff.mp (Nat.le_zero.mp hk)
    cases h
    rfl
  | succ k ih =>
    cases entries with
    | nil =>
      cases h
      rfl
    | cons e rest =>
      rw [List.keys_cons, List.mem_cons, not_or] at hn
      have hrest : rest.length ≤ k := Nat.le_of_succ_le_succ hk
      simp only [pushLoop] at h
      split at h
      · cases h
      · split at h
        · obtain ⟨st₁, hqueue, hloop⟩ := Option.bind_eq_some_iff.mp h
          rw [ih hrest hloop hn.2,
            (@pushQueue_follows _ (fun _ => True) trivial _ _ _ _ hqueue).2]
        · split at h
          · cases h
          · next e' rest' =>
            rw [List.keys_cons, List.mem_cons, not_or] at hn
            rw [ih (Nat.le_of_succ_le hrest) h hn.2.2]
            exact AList.lookup_erase_ne hn.2.1

/-- The first queue without subscribers is not taken out of the map. -/
theorem pushLoop_keeps_idle (entries : List (Σ _ : Name, QueueId)) {st : LogicServer}
    (hent : Entries st entries) (hsub : ∀ e ∈ entries, st.subcribeQueues.lookup e.1 = some e.2)
    (hacc : Accepting st.queueToConnect) (h : pushLoop entries st = some st')
    (hidle : ∃ e ∈ entries, Idle st e.1 e.2) :
    ∃ e ∈ entries, Idle st e.1 e.2 ∧ st'.subcribeQueues.lookup e.1 = some e.2 := by
  induction entries generalizing st with
  | nil =>
    obtain ⟨e, he, _⟩ := hidle
    cases he
  | cons e rest ih =>
    obtain ⟨q, hq, _⟩ := hent.live e List.mem_cons_self
    have hlookup := hsub e List.mem_cons_self
    by_cases hne : q.subscribeConsumers = []
    · refine ⟨e, List.mem_cons_self, ⟨hlookup, q, hq, hne⟩, ?_⟩
      have hnot : ¬ q.isSubscribe = true := fun hs => isSubscribe_iff.mp hs hne
      simp only [pushLoop, hq, if_neg hnot] at h
      cases rest with
      | nil => cases h
      | cons e' rest' =>
        have hkey : ∀ x ∈ e' :: rest', x.1 ≠ e.1 := fun x hx => (hent.ne hx).1
        have hrest' : e.1 ∉ rest'.keys := by
          intro hin
          obtain ⟨i, hx⟩ := List.exists_of_mem_keys hin
          exact hkey _ (List.mem_cons_of_mem _ hx) rfl
        dsimp only at h
        rw [pushLoop_lookup _ (Nat.le_refl _) h hrest', ← hlookup]
        exact AList.lookup_erase_ne (hkey e' List.mem_cons_self).symm
    · simp only [pushLoop, hq, if_pos (isSubscribe_iff.mpr hne)] at h
      obtain ⟨st₁, hqueue, hloop⟩ := Option.bind_eq_some_iff.mp h
      obtain ⟨_, ms, hqueue', hemptied⟩ := pushQueue_empties _ hq rfl hne hacc
      cases hqueue.symm.trans hqueue'
      have hsame : ∀ x ∈ rest, Idle st₁ x.1 x.2 ↔ Idle st x.1 x.2 := by
        intro x hx
        rw [Idle, Idle, hemptied.subcribeQueues, hemptied.others _ (hent.ne hx).2]
      have hidle₁ : ∃ x ∈ rest, Idle st₁ x.1 x.2 := by
        obtain ⟨x, hx, hxidle⟩ := hidle
        rcases List.mem_cons.mp hx with rfl | hx
        · obtain ⟨_, q₁, hq₁, hnil⟩ := hxidle
          cases hq.symm.trans hq₁
          exact absurd hnil hne
        · exact ⟨x, hx, (hsame x hx).mpr hxidle⟩
      have hsub₁ : ∀ x ∈ rest, st₁.subcribeQueues.lookup x.1 = some x.2 := by
        intro x hx
        rw [hemptied.subcribeQueues]
        exact hsub x (List.mem_cons_of_mem _ hx)
      obtain ⟨x, hx, hxidle, hkept⟩ :=
        ih (hent.tail hemptied) hsub₁ (hacc.of_cap hemptied.cap) hloop hidle₁
      exact ⟨x, List.mem_cons_of_mem _ hx, (hsame x hx).mp hxidle, hkept⟩

theorem roundDone_of_allEmptied (h : AllEmptied st st.subcribeQueues.entries st')
    (hnone : ∀ n id, ¬ Idle st n id) : RoundDone st st' := by
  have hentry : ∀ e ∈ st.subcribeQueues.entries, st.subcribeQueues.lookup e.1 = some e.2 :=
    fun e he => lookup_of_mem_entries he
  constructor
  · intro n id
    rw [h.subcribeQueues]
    simp [hnone]
  · intro n id
    rw [h.unSubcribeQueues]
    simp [hnone]
  · intro id hid
    exact h.others id fun e he heq => hnone e.1 id (hid e.1 (heq ▸ hentry e he))
  · intro n id q hn hq _
    exact h.drained ⟨n, id⟩ (AList.mem_lookup_iff.mp hn) q hq
  · exact h.sends

/-- The connect server makes room for every package.  Then a round does what it should exactly
when nobody is missing: no queue of `m_mSubcribeQueues` is without subscribers. -/
theorem roundDone_iff
    (hnames : ∀ n id, st.subcribeQueues.lookup n = some id →
      ∃ q, st.queues id = some q ∧ q.queueName = n)
    (hacc : Accepting st.queueToConnect) :
    (∃ st', st.pushMessage = some st' ∧ RoundDone st st') ↔
      ∀ n id q, st.subcribeQueues.lookup n = some id → st.queues id = some q →
        q.subscribeConsumers ≠ [] := by
  have hent : Entries st st.subcribeQueues.entries :=
    ⟨st.subcribeQueues.nodupKeys, fun e he => hnames e.1 e.2 (lookup_of_mem_entries he)⟩
  constructor
  · rintro ⟨st', h, hdone⟩ n id q hn hq hnil
    have hidle : ∃ e ∈ st.subcribeQueues.entries, Idle st e.1 e.2 :=
      ⟨⟨n, id⟩, AList.mem_lookup_iff.mp hn, hn, q, hq, hnil⟩
    obtain ⟨e, _, hidle', hkept⟩ :=
      pushLoop_keeps_idle _ hent (fun e he => lookup_of_mem_entries he) hacc h hidle
    exact ((hdone.subcribeQueues e.1 e.2).mp hkept).2 hidle'
  · intro hsubs
    obtain ⟨st', h, hall⟩ := pushLoop_empties _ hent
      (fun e he q hq => hsubs e.1 e.2 q (lookup_of_mem_entries he) hq) hacc
    refine ⟨st', h, roundDone_of_allEmptied hall ?_⟩
    rintro n id ⟨hn, q, hq, hnil⟩
    exact hsubs n id q hn hq hnil

end Round

section Runs

attribute [local instance] Platform.plain

theorem accepting_of_unbounded {f : ShmQueue.Fifo} (h : f.cap = none) : Accepting f := by
  intro bs _ c hc
  rw [h] at hc
  cases hc

/-- A message waits in the queue "q" of client 1. -/
def waiting : List Step :=
  [.makeQueue 1 false, .makeExchange 1, .makeBinding 1, .subscribe 1, .publish 1 false 0 0]

theorem roundDone_waiting : ∃ st, run (start none none) waiting = some st ∧
    (st.queues 0).map (fun q => (q.subscribeConsumers, q.messages.length)) = some ([1], 1) ∧
    ∃ st', st.pushMessage = some st' ∧ RoundDone st st' := by
  have hfacts : (run (start none none) waiting).map (fun st => (st.queueToConnect.cap,
      st.subcribeQueues.entries.map (fun e => e.2),
      (st.queues 0).map fun q => (q.subscribeConsumers, q.messages.length))) =
      some (none, [0], some ([1], 1)) := by decide +kernel
  obtain ⟨st, hst, hfacts⟩ := Option.map_eq_some_iff.mp hfacts
  obtain ⟨hcap, hrest⟩ := Prod.mk.inj hfacts
  obtain ⟨hids, hqueue⟩ := Prod.mk.inj hrest
  refine ⟨st, hst, hqueue, (roundDone_iff (linked_of_run hst).subcribeQueues
    (accepting_of_unbounded hcap)).mpr ?_⟩
  intro n id q hn hq hnil
  have hmem : id ∈ st.subcribeQueues.entries.map (fun e => e.2) :=
    List.mem_map_of_mem (AList.mem_lookup_iff.mp hn)
  rw [hids] at hmem
  cases List.mem_singleton.mp hmem
  rw [hq, Option.map_some, hnil] at hqueue
  cases hqueue

/-- A queue "s" with a subscriber. -/
def otherQueue : List Step :=
  [.package (.ofBody cmdCreateQueue 2
    (image [writeName (ascii "s"), writeShort (-1), writeBool false, writeBool false])
      (by decide)),
    .package (.ofBody cmdCreateSubcribe 2 (image [writeName (ascii "s"), writeByte 1])
      (by decide))]

/-- The second subscription to "q" is taken back with the first, since its packet does not fit. -/
def refused : List Step := otherQueue ++ [.makeQueue 1 true, .subscribe 1, .subscribe 1]

/-- The queue "s" is thrown out in place of "q". -/
theorem round_throws_out : ∃ st, run (start none (some 120)) refused = some st ∧
    Accepting st.queueToConnect ∧ ¬ ∃ st', st.pushMessage = some st' ∧ RoundDone st st' := by
  have hfacts : (run (start none (some 120)) refused).map (fun st => (st.queueToConnect.cap,
      st.subcribeQueues.lookup (ascii "s"), (st.queues 0).map (·.subscribeConsumers),
      st.pushMessage.map fun st' => st'.subcribeQueues.lookup (ascii "s"))) =
      some (none, some 0, some [2], some none) := by decide +kernel
  obtain ⟨st, hst, hfacts⟩ := Option.map_eq_some_iff.mp hfacts
  obtain ⟨hcap, hrest⟩ := Prod.mk.inj hfacts
  obtain ⟨hr, hrest⟩ := Prod.mk.inj hrest
  obtain ⟨hsubs, hpush⟩ := Prod.mk.inj hrest
  refine ⟨st, hst, accepting_of_unbounded hcap, ?_⟩
  rintro ⟨st', h, hdone⟩
  obtain ⟨q, hq, hq2⟩ := Option.map_eq_some_iff.mp hsubs
  have hactive : ¬ Idle st (ascii "s") 0 := by
    rintro ⟨_, q', hq', hnil⟩
    cases hq.symm.trans hq'
    rw [hnil] at hq2
    cases hq2
  rw [h, Option.map_some, (hdone.subcribeQueues _ _).mpr ⟨hr, hactive⟩] at hpush
  cases hpush

end Runs

end LogicServer

end Wsmq
