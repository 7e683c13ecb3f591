import Wsmq.LogicServer.Deeds

/-!
# Every step that deletes nothing is a sequence of changes

One lemma for each handler and `step_deeds` for the whole step.
-/

namespace Wsmq.LogicServer
open Lib Lib.ByteString Lib.Packing Lib.Files
open PersistenceServer (Order)

variable [Platform] {st st' : LogicServer} {q q' : MessageQueue} {id : QueueId}

theorem Deeds.of_does (h : Does st st') : Deeds st st' := Relation.ReflTransGen.single h

/-! ## Sending -/

theorem sent_sendPersis {bDurable : Bool} {bs : Bytes} {o : Order}
    (hc : bDurable → PersistenceServer.Carries bs o) (st : LogicServer) :
    Sent (if bDurable then [o] else []) st.queueToPersis
      (st.sendPersis bDurable bs).2.queueToPersis := by
  cases bDurable with
  | true => exact ⟨bs, hc rfl, rfl⟩
  | false => exact rfl

/-- A consumed message may be reported. -/
theorem does_consumed {n : Name} {m : SeverStoreMessage} {iCmdId : Nat} (hr : Regular st')
    (hn : IsName n) (hcmd : iCmdId = cmdCreateRecv ∨ iCmdId = cmdServerPushMessage ∨
      iCmdId = cmdClientAckMessage) (hmemory : memory st' = memory st) {s : LogicServer}
    (hfrom : s.queueToPersis = st.queueToPersis)
    (hto : st'.queueToPersis = (s.sendConsumed iCmdId n m).queueToPersis) : Does st st' := by
  have hsent := @sent_sendPersis _ m.durable _ _
    (fun _ => carries_consume hn hcmd m.durableIndex) s
  refine ⟨hr, (if m.durable then [.other] else []), ?_, ?_⟩
  · rw [hmemory]
    cases m.durable with
    | true => exact .single
    | false => exact .none
  · rw [hto, ← hfrom]
    exact hsent

/-! ## Moving messages -/

theorem Regular.await (hr : Regular st) {m : SeverStoreMessage} (hm : IsName m.queueName) :
    Regular (st.pushNeedAck m) := by
  refine ⟨hr.queues, hr.exchanges, fun x hx => ?_⟩
  rcases List.mem_append.mp hx with hx | hx
  · exact hr.pending x hx
  · cases List.mem_singleton.mp hx
    exact hm

theorem outline_names (h : outline q' = outline q) : q'.queueName = q.queueName ∧
    q'.durable = q.durable ∧ q'.durableIndex = q.durableIndex := by
  have hname := congrArg MessageQueue.queueName h
  have hdurable := congrArg MessageQueue.durable h
  have hindex := congrArg MessageQueue.durableIndex h
  exact ⟨hname, hdurable, hindex⟩

theorem Regular.setQueue_same (hr : Regular st) (hq : st.queues id = some q)
    (hsame : outline q' = outline q) : Regular (st.setQueue id q') := by
  obtain ⟨hname, hdurable, hindex⟩ := outline_names hsame
  exact hr.setQueue hq hname hdurable hindex.ge

/-- The connect channel does not matter. -/
theorem Regular.connect (hr : Regular st) {f : ShmQueue.Fifo}
    (h : st' = { st with queueToConnect := f }) : Regular st' := by
  rw [h]
  exact ⟨hr.queues, hr.exchanges, hr.pending⟩

theorem sendAwaited_does {s : LogicServer} {m : SeverStoreMessage} {iLen : Nat} (hr : Regular s)
    (hm : IsName m.queueName) (hmemory : memory s = memory st)
    (hpersis : s.queueToPersis = st.queueToPersis) (h : s.sendAwaited m iLen = some st') :
    Does st st' := by
  have hconnect := enqueueConnectWait_some h
  refine .quiet ((hr.await hm).connect hconnect) ?_ ?_
  · rw [hconnect]
    exact hmemory
  · rw [hconnect]
    exact hpersis

theorem pushOne_does {m : SeverStoreMessage} (hr : Regular st) (hq : st.queues id = some q)
    (hpop : q.popFrontMsg true = some (m, q')) (h : (st.setQueue id q').pushOne q m = some st') :
    Does st st' := by
  have hsame := outline_popFrontMsg hpop
  have hname := (hr.queues id q hq).1
  have hr' := hr.setQueue_same hq hsame
  have hmemory := memory_setQueue_same hq hsame
  unfold pushOne at h
  split at h
  · exact sendAwaited_does hr' hname hmemory rfl h
  · obtain ⟨st₁, hsend, rfl⟩ := Option.map_eq_some_iff.mp h
    have hconnect := enqueueConnectWait_some hsend
    have hr₁ := hr'.connect hconnect
    refine does_consumed ?_ hname (Or.inr (Or.inl rfl)) ?_ (s := st₁) ?_ rfl
    · rw [sendConsumed, sendPersis_eq]
      exact ⟨hr₁.queues, hr₁.exchanges, hr₁.pending⟩
    · rw [sendConsumed, sendPersis_eq, ← hmemory, hconnect]
      rfl
    · rw [hconnect]
      rfl

theorem pushQueue_deeds (id : QueueId) (fuel : Nat) (hr : Regular st)
    (h : pushQueue id fuel st = some st') : Deeds st st' := by
  induction fuel generalizing st with
  | zero =>
    cases h
    exact .refl
  | succ fuel ih =>
    simp only [pushQueue] at h
    split at h
    · cases h
    · next q hq =>
      split at h
      · cases h
        exact .refl
      · next m q' hpop =>
        obtain ⟨st₁, hone, hrest⟩ := Option.bind_eq_some_iff.mp h
        have hdoes := pushOne_does hr hq hpop hone
        exact (Deeds.of_does hdoes).trans (ih hdoes.regular hrest)

/-- By induction on the number of entries left, since the loop may skip one. -/
theorem pushLoop_deeds (k : Nat) (entries : List (Σ _ : Name, QueueId))
    (hk : entries.length ≤ k) (hr : Regular st) (h : pushLoop entries st = some st') :
    Deeds st st' := by
  induction k generalizing entries st with
  | zero =>
    cases List.length_eq_zero_iff.mp (Nat.le_zero.mp hk)
    cases h
    exact .refl
  | succ k ih =>
    cases entries with
    | nil =>
      cases h
      exact .refl
    | cons e rest =>
      have hrest : rest.length ≤ k := Nat.le_of_succ_le_succ hk
      simp only [pushLoop] at h
      split at h
      · cases h
      · next q hq =>
        split at h
        · obtain ⟨st₁, hqueue, hloop⟩ := Option.bind_eq_some_iff.mp h
          have hdeeds := pushQueue_deeds _ _ hr hqueue
          exact hdeeds.trans (ih rest hrest (hdeeds.regular hr) hloop)
        · split at h
          · cases h
          · next e' rest' =>
            have hr' : Regular ((st.eraseSubcribe e'.1).insertUnSubcribe q.queueName e.2) :=
              ⟨hr.queues, hr.exchanges, hr.pending⟩
            have hquiet : Does st ((st.eraseSubcribe e'.1).insertUnSubcribe q.queueName e.2) :=
              .quiet hr' rfl rfl
            exact (Deeds.of_does hquiet).trans (ih rest' (Nat.le_of_succ_le hrest) hr' h)

theorem onRecvMessage_deeds {buf : Mem} {c : Int} {o : Outcome} (hr : Regular st)
    (h : st.onRecvMessage buf c = some o) : Deeds st o.server := by
  obtain ⟨n, hread, h⟩ := onRecvMessage_some h
  have hn := isName_of_readName hread
  dsimp only [recvMessage] at h
  split at h
  · cases h
    exact .refl
  · next id _ =>
    obtain ⟨q, hq, h⟩ := Option.bind_eq_some_iff.mp h
    split at h
    · cases h
      exact .refl
    · next m q' hpop =>
      obtain ⟨st', hsend, rfl⟩ := Option.map_eq_some_iff.mp h
      have hsame := outline_popFrontMsg hpop
      have hr' := hr.setQueue_same hq hsame
      have hmemory := memory_setQueue_same hq hsame
      refine .of_does ?_
      unfold sendPulled at hsend
      dsimp only at hsend
      split at hsend
      · exact sendAwaited_does hr' hn hmemory rfl hsend
      · have hconnect := enqueueConnectWait_some hsend
        refine does_consumed (m := { m with index := c, msgSeq := -1 }) ?_ hn (Or.inl rfl) ?_
          (s := st.setQueue id q') rfl ?_
        · rw [hconnect, sendConsumed, sendPersis_eq]
          exact ⟨hr'.queues, hr'.exchanges, hr'.pending⟩
        · rw [hconnect, sendConsumed, sendPersis_eq, ← hmemory]
          rfl
        · rw [hconnect]
          rfl

theorem onClientAck_deeds (hr : Regular st) (buf : Mem) (c : Int) :
    Deeds st (st.onClientAck buf c) := by
  rw [onClientAck_single]
  unfold ackSingle
  split
  · exact .refl
  · next m hfind =>
    have hn := hr.pending m (List.mem_of_find?_eq_some hfind)
    refine .of_does (does_consumed (m := m) ?_ hn (Or.inr (Or.inr rfl)) ?_ (s := st.setNeedAck
      (st.needAckMessageList.eraseP fun m => m.msgSeq = readInt buf 1)) rfl rfl)
    · rw [dropAcked_eq]
      exact ⟨hr.queues, hr.exchanges, fun x hx => hr.pending x (List.mem_of_mem_eraseP hx)⟩
    · rw [dropAcked_eq]
      rfl

/-! ## Exchanges, queues and bindings -/

/-- What is asked of the packages that make something durable: all fields are there, and the
name is that of a directory. -/
def MakesPlain (buf : Mem) (iLen : Nat) : Prop :=
  readBool buf 34 → 36 ≤ iLen ∧ ∀ n, readName buf 0 = some n → Plain n

instance (buf : Mem) (iLen : Nat) : Decidable (MakesPlain buf iLen) := by
  unfold MakesPlain
  cases readName buf 0 with
  | none => exact decidable_of_iff (readBool buf 34 → 36 ≤ iLen) (by simp)
  | some n => exact decidable_of_iff (readBool buf 34 → 36 ≤ iLen ∧ Plain n) (by simp)

omit [Platform] in
theorem length_request {p : Package} : 4 + (p.body.read 0 p.bodyLen).length < 2 ^ 16 := by
  have hle := p.len_le
  have hmax : maxClintPackageLength = 11264 := rfl
  rw [Mem.read_length, Package.bodyLen]
  omega

section Request

variable {buf : Mem} {iLen : Nat} {n : Name}

omit [Platform] in
/-- The first fields of a request that is kept as it is. -/
theorem fields_request (hlen : 36 ≤ iLen) (hread : readName buf 0 = some n) :
    readName (Mem.ofBytes (buf.read 0 iLen)) 0 = some n ∧
      (Mem.ofBytes (buf.read 0 iLen)).read 32 2 = buf.read 32 2 ∧
        ∀ a < 36, Mem.ofBytes (buf.read 0 iLen) a = buf a := by
  refine ⟨readName_request (Nat.le_trans (by decide) hlen) hread, ?_, fun a ha => ?_⟩
  · rw [Mem.read_ofBytes_read _ _ (by omega), Nat.zero_add]
  · have hone := Mem.read_ofBytes_read buf 0 (n := iLen) (i := a) (k := 1) (by omega)
    simpa [Mem.read] using hone

/-- The queue is made of the fields that the persistence server keeps. -/
theorem readQueue_request (hlen : 36 ≤ iLen) (hread : readName buf 0 = some n) :
    readQueue (buf.read 0 iLen) = some
      { queueName := n
        priority := readShort buf 32
        durable := readBool buf 34
        autoDel := readBool buf 35 } := by
  obtain ⟨hname, hpriority, hcell⟩ := fields_request hlen hread
  rw [readQueue, hname, Option.map_some, readShort, hpriority, readBool, readBool,
    hcell 34 (by decide), hcell 35 (by decide)]
  rfl

omit [Platform] in
theorem readExchange_request (hlen : 36 ≤ iLen) (hread : readName buf 0 = some n) :
    readExchange (buf.read 0 iLen) =
      some ⟨n, readUShort buf 32, readBool buf 34, readBool buf 35, ∅⟩ := by
  obtain ⟨hname, htype, hcell⟩ := fields_request hlen hread
  rw [readExchange, hname, Option.map_some, readUShort, htype, readBool, readBool,
    hcell 34 (by decide), hcell 35 (by decide)]
  rfl

end Request

theorem memory_sendPersis (st : LogicServer) (bDurable : Bool) (bs : Bytes) :
    memory (st.sendPersis bDurable bs).2 = memory st := by
  rw [sendPersis_eq]
  rfl

theorem Regular.sendPersis (hr : Regular st) (bDurable : Bool) (bs : Bytes) :
    Regular (st.sendPersis bDurable bs).2 := by
  rw [sendPersis_eq]
  exact ⟨hr.queues, hr.exchanges, hr.pending⟩

theorem onCreateExchange_deeds {p : Package} {o : Outcome} (hr : Regular st)
    (hp : MakesPlain p.body p.bodyLen) (h : st.onCreateExchange p.body p.bodyLen = some o) :
    Deeds st o.server := by
  obtain ⟨n, hread, rfl⟩ := onCreateExchange_some h
  have hn := isName_of_readName hread
  dsimp only [createExchange]
  split
  · exact .refl
  · next hnew =>
    let e : Exchange := ⟨n, readUShort p.body 32, readBool p.body 34, readBool p.body 35, ∅⟩
    have hplain : e.durable → Plain n := fun hd => (hp hd).2 n hread
    have hr' : Regular (st.setExchanges (st.exchanges.insert n e)) := by
      refine ⟨hr.queues, fun m x hx => ?_, hr.pending⟩
      rcases AssocTables.lookup_insert_some hx with ⟨rfl, rfl⟩ | ⟨_, hold⟩
      · exact ⟨rfl, hn, hplain⟩
      · exact hr.exchanges m x hold
    have hcarries : e.durable → PersistenceServer.Carries (persisPacket cmdCreateExcnange
        (p.body.read 0 p.bodyLen)) (.create .exchange n (p.body.read 0 p.bodyLen)) := fun hd =>
      carries_create (k := .exchange) length_request
        (readName_request (by have hlen := (hp hd).1; exact Nat.le_trans (by decide) hlen) hread)
        (hplain hd)
    have hdoes : Does st ((st.setExchanges (st.exchanges.insert n e)).sendPersis e.durable
        (persisPacket cmdCreateExcnange (p.body.read 0 p.bodyLen))).2 := by
      refine ⟨hr'.sendPersis _ _, _, ?_,
        sent_sendPersis hcarries (st.setExchanges (st.exchanges.insert n e))⟩
      rw [memory_sendPersis]
      refine .makeExchange e _ hn hplain hnew fun hd => ?_
      have hlen := (hp hd).1
      exact ⟨by rwa [Mem.read_length], readExchange_request hlen hread⟩
    split
    · exact .of_does hdoes
    · exact .of_does hdoes

theorem onCreateQueue_deeds {p : Package} {o : Outcome} (hr : Regular st)
    (hfresh : ∀ id, (st.queues id).isSome → id < st.nextQueue)
    (hp : MakesPlain p.body p.bodyLen)
    (hnew : ∀ n, readName p.body 0 = some n → n ∉ st.unSubcribeQueues → n ∉ st.subcribeQueues →
      ∀ i q, st.queues i = some q → q.queueName ≠ n)
    (h : st.onCreateQueue p.body p.bodyLen = some o) : Deeds st o.server := by
  obtain ⟨n, hread, rfl⟩ := onCreateQueue_some h
  have hn := isName_of_readName hread
  dsimp only [createQueue]
  split
  · exact .refl
  · next hno =>
    obtain ⟨hun, hsub⟩ := not_or.mp hno
    let q : MessageQueue :=
      { queueName := n
        priority := readShort p.body 32
        durable := readBool p.body 34
        autoDel := readBool p.body 35 }
    have hplain : q.durable → Plain n := fun hd => (hp hd).2 n hread
    have hr' : Regular (st.newQueue q) := by
      refine ⟨fun i x hx => ?_, hr.exchanges, hr.pending⟩
      have hx' : (if i = st.nextQueue then some q else st.queues i) = some x := hx
      split at hx'
      · cases hx'
        exact ⟨hn, fun hd => ⟨hplain hd, Int.le_refl 0⟩⟩
      · exact hr.queues i x hx'
    have hcarries : q.durable → PersistenceServer.Carries (persisPacket cmdCreateQueue
        (p.body.read 0 p.bodyLen)) (.create .queue n (p.body.read 0 p.bodyLen)) := fun hd =>
      carries_create (k := .queue) length_request
        (readName_request (by have hlen := (hp hd).1; exact Nat.le_trans (by decide) hlen) hread)
        (hplain hd)
    have hmemory : memory (st.newQueue q) = (memory st).setQueue st.nextQueue q := by
      simp only [memory, Memory.setQueue, newQueue, Memory.mk.injEq, and_true]
      funext i
      split
      · rfl
      · rfl
    have hnone : (memory st).queues st.nextQueue = none := by
      have hlt := hfresh st.nextQueue
      cases hq : st.queues st.nextQueue with
      | none => simp [memory, hq]
      | some q =>
        rw [hq] at hlt
        exact absurd (hlt rfl) (lt_irrefl _)
    have hdoes : Does st ((st.newQueue q).sendPersis q.durable
        (persisPacket cmdCreateQueue (p.body.read 0 p.bodyLen))).2 := by
      refine ⟨hr'.sendPersis _ _, _, ?_, sent_sendPersis hcarries (st.newQueue q)⟩
      rw [memory_sendPersis, hmemory]
      refine .makeQueue st.nextQueue q _ hnone hn hplain (fun hd => ?_) rfl rfl rfl
        fun i x hx => ?_
      · have hlen := (hp hd).1
        exact ⟨by rwa [Mem.read_length], readQueue_request hlen hread⟩
      · obtain ⟨y, hy, rfl⟩ := Option.map_eq_some_iff.mp hx
        exact hnew n hread hun hsub i y hy
    split
    · exact .of_does hdoes
    · exact .of_does hdoes

omit [Platform] in
theorem durable_createBinding (e : Exchange) (k : Name) (id : QueueId) :
    (e.createBinding k id).exchangeName = e.exchangeName ∧
      (e.createBinding k id).durable = e.durable := by
  unfold Exchange.createBinding
  split
  · exact ⟨rfl, rfl⟩
  · exact ⟨rfl, rfl⟩

/-- Only the names of the bound queues go into the packet. -/
theorem bindOrder_congr {heap heap' : QueueId → Option MessageQueue}
    (h : ∀ id, (heap' id).map MessageQueue.queueName = (heap id).map MessageQueue.queueName)
    (e : Exchange) : bindOrder heap' e = bindOrder heap e := by
  simp only [bindOrder, bindingFields, Exchange.bindingFields, h]

theorem bindOrder_memory (st : LogicServer) (e : Exchange) :
    bindOrder (memory st).queues e = bindOrder st.queues e := by
  refine bindOrder_congr (fun id => ?_) e
  rw [memory, Option.map_map]
  rfl

theorem onCreateBinding_deeds (hr : Regular st) (hl : Linked st) {buf : Mem} {o : Outcome}
    (h : st.onCreateBinding buf = some o) : Deeds st o.server := by
  obtain ⟨n, m, k, _, _, _, h⟩ := onCreateBinding_some h
  dsimp only [createBinding] at h
  split at h
  · cases h
    exact .refl
  · cases h
    exact .refl
  · next e id he hid =>
    obtain ⟨q, hq⟩ : ∃ q, st.queues id = some q := by
      split at hid
      · next hun =>
        cases hid
        obtain ⟨q, hq, _⟩ := hl.unSubcribeQueues m id hun
        exact ⟨q, hq⟩
      · obtain ⟨q, hq, _⟩ := hl.subcribeQueues m id hid
        exact ⟨q, hq⟩
    obtain ⟨hname, hn, hplain⟩ := hr.exchanges n e he
    obtain ⟨hname', hdurable⟩ := durable_createBinding e k id
    obtain ⟨r, hsend, rfl⟩ := Option.map_eq_some_iff.mp h
    let s := st.setExchanges (st.exchanges.replace n (e.createBinding k id))
    have hin : n ∈ st.exchanges := AList.lookup_isSome.mp (Option.isSome_of_eq_some he)
    have hr' : Regular s := by
      refine ⟨hr.queues, fun x y hy => ?_, hr.pending⟩
      rcases AssocTables.lookup_replace_some hin hy with ⟨rfl, rfl⟩ | ⟨_, hold⟩
      · exact ⟨hname'.trans hname, hn, fun hd => hplain (hdurable ▸ hd)⟩
      · exact hr.exchanges x y hold
    have hchange : Change (st.queueToPersis.cap ≠ none) (memory st)
        (if e.durable then [bindOrder st.queues (e.createBinding k id)] else []) (memory s) := by
      subst hname
      rw [← bindOrder_memory]
      exact .bind e k id (outline q) he (congrArg (Option.map outline) hq)
    have hdoes : Does st r.2 := by
      rcases ite_eq_some hsend with ⟨hd, hsend⟩ | ⟨hd, hsend⟩
      · obtain ⟨packed, hpacked, rfl⟩ := Option.map_eq_some_iff.mp hsend
        rw [hdurable] at hd
        refine ⟨⟨hr'.queues, hr'.exchanges, hr'.pending⟩, _, hchange, ?_⟩
        rw [if_pos hd]
        refine ⟨packed.sent, carries_bindings ?_ ?_ hpacked, rfl⟩
        · rw [hname', hname]
          exact hn
        · rw [hname', hname]
          exact hplain hd
      · cases hsend
        rw [hdurable] at hd
        refine ⟨hr', _, hchange, ?_⟩
        rw [if_neg hd]
        exact rfl
    split
    · exact .of_does hdoes
    · exact .of_does hdoes

/-! ## Publishing -/

/-- Objects stay under their names, and their counters only grow. -/
theorem Change.grows {full : Prop} {m m' : Memory} {os : List Order} (h : Change full m os m')
    {q : MessageQueue} (hq : m.queues id = some q) : ∃ q', m'.queues id = some q' ∧
      q'.queueName = q.queueName ∧ q'.durable = q.durable ∧ q.durableIndex ≤ q'.durableIndex := by
  have hset : ∀ i x, (m.queues i = Option.none ∨ ∃ y, m.queues i = some y ∧ x.queueName = y.queueName ∧
      x.durable = y.durable ∧ y.durableIndex ≤ x.durableIndex) →
        ∃ q', (m.setQueue i x).queues id = some q' ∧ q'.queueName = q.queueName ∧
          q'.durable = q.durable ∧ q.durableIndex ≤ q'.durableIndex := by
    intro i x hx
    by_cases hi : id = i
    · subst hi
      rcases hx with hx | ⟨y, hy, hname, hdurable, hindex⟩
      · rw [hx] at hq
        cases hq
      · cases hq.symm.trans hy
        exact ⟨x, if_pos rfl, hname, hdurable, hindex⟩
    · exact ⟨q, (if_neg hi).trans hq, rfl, rfl, Int.le_refl _⟩
  cases h with
  | none => exact ⟨q, hq, rfl, rfl, Int.le_refl _⟩
  | single => exact ⟨q, hq, rfl, rfl, Int.le_refl _⟩
  | reorder => exact ⟨q, hq, rfl, rfl, Int.le_refl _⟩
  | makeExchange => exact ⟨q, hq, rfl, rfl, Int.le_refl _⟩
  | bind => exact ⟨q, hq, rfl, rfl, Int.le_refl _⟩
  | makeQueue i x info hi => exact hset i x (Or.inl hi)
  | draw i y hy =>
    exact hset i _ (Or.inr ⟨y, hy, rfl, rfl, Int.le_of_lt (Int.lt_succ _)⟩)
  | subscribe i y c level hy =>
    obtain ⟨hname, hdurable, hindex⟩ := y.addSubscribe_keeps c level
    exact hset i _ (Or.inr ⟨y, hy, hname, hdurable, hindex.ge⟩)
  | resubscribe hfull i y c hy =>
    exact hset i _ (Or.inr ⟨y, hy, rfl, rfl, Int.le_refl _⟩)

theorem Deeds.grows (h : Deeds st st') {q : MessageQueue} (hq : (memory st).queues id = some q) :
    ∃ q', (memory st').queues id = some q' ∧ q'.queueName = q.queueName ∧
      q'.durable = q.durable ∧ q.durableIndex ≤ q'.durableIndex := by
  induction h with
  | refl => exact ⟨q, hq, rfl, rfl, Int.le_refl _⟩
  | tail _ hlast ih =>
    obtain ⟨q₁, hq₁, hname₁, hdurable₁, hindex₁⟩ := ih
    obtain ⟨os, hchange, _⟩ := hlast.done
    obtain ⟨q₂, hq₂, hname₂, hdurable₂, hindex₂⟩ := hchange.grows hq₁
    exact ⟨q₂, hq₂, hname₂.trans hname₁, hdurable₂.trans hdurable₁, hindex₁.trans hindex₂⟩

/-- No durable counter has passed the largest `int`. -/
def Counts (st : LogicServer) : Prop :=
  ∀ id q, st.queues id = some q → q.durable → q.durableIndex < 2 ^ 31

theorem Counts.before (h : Deeds st st') (hc : Counts st') (hq : (memory st).queues id = some q)
    (hd : q.durable) : q.durableIndex < 2 ^ 31 := by
  obtain ⟨q', hq', _, hdurable, hindex⟩ := h.grows hq
  obtain ⟨x, hx, rfl⟩ := Option.map_eq_some_iff.mp hq'
  have hlt := hc id x hx (hdurable.trans hd)
  rw [outline_durableIndex] at hindex
  omega

theorem Counts.memory (hc : Counts st) (hq : (memory st).queues id = some q) (hd : q.durable) :
    q.durableIndex < 2 ^ 31 := Counts.before .refl hc hq hd

theorem Regular.storeMessage (hr : Regular st) {p : Publish} {c : Int}
    (h : st.storeMessage p c id = some st') : Regular st' := by
  obtain ⟨q, hq, rfl⟩ := Option.map_eq_some_iff.mp h
  split
  · let q' : MessageQueue := { q with durableIndex := q.durableIndex + 1 }
    have hsame := outline_addMessage q' (durableMessage (st.newMessage p) q)
    obtain ⟨hname, hdurable, hindex⟩ := outline_names hsame
    have hgrown : q.durableIndex ≤ q'.durableIndex := Int.le_of_lt (Int.lt_succ _)
    have hr' := hr.setQueue hq hname hdurable (hgrown.trans hindex.ge)
    exact ⟨hr'.queues, hr'.exchanges, hr'.pending⟩
  · have hr' := hr.setQueue_same hq (outline_addMessage q (st.newMessage p))
    exact ⟨hr'.queues, hr'.exchanges, hr'.pending⟩

theorem storeMessage_does (hr : Regular st) {p : Publish} {c : Int}
    (hpriority : FitsInt 2 p.iPriority)
    (hbody : p.body.length + publishBodyOffset ≤ maxClintPackageLength)
    (hcount : ∀ q, (memory st').queues id = some q → q.durable → q.durableIndex < 2 ^ 31)
    (h : st.storeMessage p c id = some st') : Does st st' := by
  have hr' := hr.storeMessage h
  obtain ⟨q, hq, rfl⟩ := Option.map_eq_some_iff.mp h
  obtain ⟨hn, hdisk⟩ := hr.queues id q hq
  have hold : (memory st).queues id = some (outline q) := congrArg (Option.map outline) hq
  by_cases hd : p.bDurable ∧ q.durable
  · rw [if_pos hd] at hcount hr' ⊢
    obtain ⟨hplain, hnonneg⟩ := hdisk hd.2
    let x := durableMessage (st.newMessage p) q
    let q' : MessageQueue := { q with durableIndex := q.durableIndex + 1 }
    have hmemory : memory ((st.enqueuePersis (durablePacket x)).2.addMessage p c id q' x) =
        (memory st).setQueue id { outline q with durableIndex := q.durableIndex + 1 } := by
      have hset := memory_setQueue (st.enqueuePersis (durablePacket x)).2 id (q'.addMessage x)
      rw [outline_addMessage] at hset
      exact hset
    have hindex : q.durableIndex + 1 < 2 ^ 31 := by
      refine hcount { outline q with durableIndex := q.durableIndex + 1 } ?_ hd.2
      rw [hmemory]
      exact if_pos rfl
    have hx : DurableMessage x :=
      ⟨hn.zero, hn.short, ⟨hnonneg, (Int.lt_succ q.durableIndex).trans hindex⟩, hpriority, hbody⟩
    refine ⟨hr', [.publish q.queueName q.durableIndex], ?_, durablePacket x,
      carries_publish hx hplain, rfl⟩
    rw [hmemory]
    exact .draw id (outline q) hold hd.2
  · rw [if_neg hd] at hr' ⊢
    exact .quiet hr' (memory_setQueue_same hq (outline_addMessage q (st.newMessage p))) rfl

theorem storeMessages_deeds {p : Publish} {c : Int} (hpriority : FitsInt 2 p.iPriority)
    (hbody : p.body.length + publishBodyOffset ≤ maxClintPackageLength) (ids : List QueueId)
    (hr : Regular st) (hc : Counts st') (h : storeMessages p c ids st = some st') :
    Deeds st st' := by
  induction ids generalizing st with
  | nil =>
    cases h
    exact .refl
  | cons id rest ih =>
    obtain ⟨st₁, hone, hrest⟩ := Option.bind_eq_some_iff.mp h
    have hdeeds := ih (hr.storeMessage hone) hrest
    have hdoes := storeMessage_does hr hpriority hbody
      (fun q hq hd => Counts.before hdeeds hc hq hd) hone
    exact (Deeds.of_does hdoes).trans hdeeds

/-- What a handler may do besides: the connect channel and the numbers of the producers. -/
theorem Does.aside (hr : Regular st) {f : ShmQueue.Fifo} {seqs : List Bytes}
    {last : AList fun _ : Int => Int} (h : st' = { st with
      queueToConnect := f, producerMsgSeqs := seqs, producerLastMsgSeq := last }) :
    Does st st' := by
  rw [h]
  exact .quiet ⟨hr.queues, hr.exchanges, hr.pending⟩ rfl rfl

theorem confirmPublish_does (hr : Regular st) (p : Publish) (c : Int) :
    Does st (st.confirmPublish p c) := by
  unfold confirmPublish
  split
  · unfold insertMsgSeq
    split
    · exact .aside hr rfl
    · exact .aside hr rfl
  · split
    · unfold insertMsgSeq
      split
      · exact .aside hr rfl
      · exact .aside hr rfl
    · exact .aside hr rfl

theorem onPublishMessage_deeds {p : Package} {o : Outcome} (hr : Regular st)
    (hc : Counts o.server)
    (h : st.onPublishMessage p.body p.bodyLen p.clientIndex = some o) : Deeds st o.server := by
  obtain ⟨pub, hdecode, h⟩ := Option.bind_eq_some_iff.mp h
  unfold publish at h
  rcases ite_eq_some h with ⟨_, h⟩ | ⟨_, h⟩
  · cases h
    exact .of_does (.aside hr rfl)
  rcases ite_eq_some h with ⟨_, h⟩ | ⟨_, h⟩
  · cases h
    exact .refl
  rcases ite_eq_some h with ⟨_, h⟩ | ⟨_, h⟩
  · cases h
    exact .refl
  rcases ite_eq_some h with ⟨_, h⟩ | ⟨hlen, h⟩
  · cases h
  · obtain ⟨st₁, hstore, rfl⟩ := Option.map_eq_some_iff.mp h
    have hbody := decodePublish_body hdecode (Int.not_lt.mp hlen)
    have hpriority : FitsInt 2 pub.iPriority := by
      obtain ⟨_, _, hrest⟩ := Option.bind_eq_some_iff.mp hdecode
      obtain ⟨_, _, rfl⟩ := Option.map_eq_some_iff.mp hrest
      exact fitsInt_readShort _ _
    have hqueues := queues_confirmPublish st₁ pub p.clientIndex
    have hc₁ : Counts st₁ := fun id q hq => hc id q ((congrFun hqueues id).trans hq)
    have hdeeds := storeMessages_deeds hpriority hbody _ hr hc₁ hstore
    exact hdeeds.tail (confirmPublish_does (hdeeds.regular hr) pub p.clientIndex)

/-! ## Subscribing -/

theorem outline_addSubscribe (q : MessageQueue) (c : Int) (level : Nat) :
    outline (q.addSubscribe c level) = (outline q).addSubscribe c level := by
  by_cases hc : c ∈ q.subscribeConsumers
  · have hc' : c ∈ (outline q).subscribeConsumers := hc
    rw [MessageQueue.addSubscribe, MessageQueue.addSubscribe, if_pos hc, if_pos hc']
    rfl
  · have hc' : c ∉ (outline q).subscribeConsumers := hc
    rw [MessageQueue.addSubscribe, MessageQueue.addSubscribe, if_neg hc, if_neg hc']
    rfl

theorem subscribeQueue_deeds (hr : Regular st) {n : Name} {level : Nat} {c : Int} {o : Outcome}
    (hint : FitsInt 4 c) (hbyte : level < 2 ^ 8) (hq : st.queues id = some q)
    (h : st.subscribeQueue n level c id q = some o) :
    Deeds st o.server := by
  obtain ⟨r, hsend, rfl⟩ := Option.map_eq_some_iff.mp h
  obtain ⟨hn, hdisk⟩ := hr.queues id q hq
  have hold : (memory st).queues id = some (outline q) := congrArg (Option.map outline) hq
  obtain ⟨hname, hdurable, hindex⟩ := q.addSubscribe_keeps c level
  have hr' : Regular (st.setQueue id (q.addSubscribe c level)) :=
    hr.setQueue hq hname hdurable hindex.ge
  have hmemory : memory (st.setQueue id (q.addSubscribe c level)) =
      (memory st).setQueue id ((outline q).addSubscribe c level) := by
    rw [memory_setQueue, outline_addSubscribe]
  have heq := sendSubscribers_eq hsend
  have hdoes : Does st r.2 := by
    refine ⟨?_, if q.durable then [subscribeOrder (q.addSubscribe c level)] else [], ?_, ?_⟩
    · rw [heq]
      exact ⟨hr'.queues, hr'.exchanges, hr'.pending⟩
    · have hsame : memory r.2 = memory (st.setQueue id (q.addSubscribe c level)) := by
        rw [heq]
        rfl
      have horder : subscribeOrder (q.addSubscribe c level) =
          subscribeOrder ((outline q).addSubscribe c level) := by
        rw [← outline_addSubscribe]
        rfl
      rw [hsame, hmemory, horder]
      exact .subscribe id (outline q) c level hold hint hbyte
    · rcases ite_eq_some hsend with ⟨hd, hsend⟩ | ⟨hd, hsend⟩
      · obtain ⟨packed, hpacked, rfl⟩ := Option.map_eq_some_iff.mp hsend
        rw [hdurable] at hd
        rw [if_pos hd]
        refine ⟨packed.sent, carries_subscribers ?_ ?_ hpacked, rfl⟩
        · rw [hname]
          exact hn
        · rw [hname]
          exact (hdisk hd).1
      · cases hsend
        rw [hdurable] at hd
        rw [if_neg hd]
        exact rfl
  have hq' : r.2.queues id = some (q.addSubscribe c level) := by
    rw [heq]
    exact if_pos rfl
  split
  · next hfail =>
    -- the subscription is taken back without another packet
    have hfull : r.2.queueToPersis.cap ≠ none := by
      intro hcap
      refine hfail ?_
      rcases ite_eq_some hsend with ⟨_, hsend⟩ | ⟨_, hsend⟩
      · obtain ⟨packed, _, rfl⟩ := Option.map_eq_some_iff.mp hsend
        refine enqueuePersis_ret ?_ packed.sent
        rw [← cap_enqueuePersis packed.sent]
        exact hcap
      · cases hsend
        rfl
    refine (Deeds.of_does hdoes).tail ⟨?_, [], ?_, rfl⟩
    · exact hdoes.regular.setQueue hq' rfl rfl (Int.le_refl _)
    · rw [memory_setQueue]
      exact .resubscribe hfull id (outline (q.addSubscribe c level)) c
        (congrArg (Option.map outline) hq')
  · have hquiet : ∀ s : LogicServer, s.queues = r.2.queues → s.exchanges = r.2.exchanges →
        s.needAckMessageList = r.2.needAckMessageList → s.queueToPersis = r.2.queueToPersis →
          Does r.2 s := by
      intro s hqueues hexchanges hpending hpersis
      refine .quiet ⟨?_, ?_, ?_⟩ ?_ hpersis
      · rw [hqueues]
        exact hdoes.regular.queues
      · rw [hexchanges]
        exact hdoes.regular.exchanges
      · rw [hpending]
        exact hdoes.regular.pending
      · rw [memory, memory, hqueues, hexchanges]
    split
    · exact (Deeds.of_does hdoes).tail (hquiet _ rfl rfl rfl rfl)
    · exact .of_does hdoes

theorem onCreateSubscribe_deeds (hr : Regular st) {buf : Mem} {c : Int} {o : Outcome}
    (hint : FitsInt 4 c) (h : st.onCreateSubscribe buf c = some o) : Deeds st o.server := by
  obtain ⟨n, _, h⟩ := onCreateSubscribe_some h
  dsimp only [createSubscribe] at h
  split at h
  · cases h
    exact .refl
  · obtain ⟨q, hq, h⟩ := Option.bind_eq_some_iff.mp h
    exact subscribeQueue_deeds hr hint (UInt8.toNat_lt _) hq h

/-! ## The main loop -/

/-- Nothing is deleted, and no packet is taken out of the channel. -/
def Keeps : Step → Prop
  | .package p => p.cmdId ≠ cmdDeleteExchange ∧ p.cmdId ≠ cmdDeleteQueue ∧
      p.cmdId ≠ cmdCancelSubcribe ∧ p.cmdId ≠ cmdClientExit
  | .drainPersis => False
  | _ => True

instance (a : Step) : Decidable (Keeps a) := by
  unfold Keeps
  cases a <;> infer_instance

/-- Packages that make something durable are complete, and name a directory. -/
def WellNamed : Step → Prop
  | .package p => p.cmdId = cmdCreateExcnange ∨ p.cmdId = cmdCreateQueue →
      MakesPlain p.body p.bodyLen
  | _ => True

instance (a : Step) : Decidable (WellNamed a) := by
  unfold WellNamed
  cases a <;> infer_instance

/-- A queue is not made under the name of one that is alive in neither table. -/
def MakesNew (st : LogicServer) : Step → Prop
  | .package p => p.cmdId = cmdCreateQueue → ∀ n, readName p.body 0 = some n →
      n ∉ st.unSubcribeQueues → n ∉ st.subcribeQueues →
        ∀ i q, st.queues i = some q → q.queueName ≠ n
  | _ => True

theorem reply_does (o : Outcome) (c : Int) (hr : Regular o.server) : Does o.server (reply o c) := by
  unfold reply
  split
  · exact .aside hr rfl
  · exact .aside hr rfl

theorem dispatch_deeds {p : Package} {o : Outcome} (hr : Regular st) (hl : Linked st)
    (hkeeps : Keeps (.package p)) (hnamed : WellNamed (.package p))
    (hnew : MakesNew st (.package p)) (hc : Counts o.server) (h : st.dispatch p = some o) :
    Deeds st o.server := by
  obtain ⟨hexchange, hqueue, hcancel, hexit⟩ := hkeeps
  unfold dispatch at h
  rcases ite_eq_some h with ⟨hcmd, h⟩ | ⟨_, h⟩
  · exact onCreateExchange_deeds hr (hnamed (Or.inl hcmd)) h
  rcases ite_eq_some h with ⟨hcmd, h⟩ | ⟨_, h⟩
  · exact onCreateQueue_deeds hr hl.fresh (hnamed (Or.inr hcmd)) (hnew hcmd) h
  rcases ite_eq_some h with ⟨_, h⟩ | ⟨_, h⟩
  · exact onCreateBinding_deeds hr hl h
  rcases ite_eq_some h with ⟨_, h⟩ | ⟨_, h⟩
  · exact onPublishMessage_deeds hr hc h
  rcases ite_eq_some h with ⟨_, h⟩ | ⟨_, h⟩
  · exact onRecvMessage_deeds hr h
  rcases ite_eq_some h with ⟨_, h⟩ | ⟨_, h⟩
  · exact onCreateSubscribe_deeds hr (fitsInt_readInt _ _) h
  rw [if_neg hexchange, if_neg hqueue, if_neg hcancel] at h
  rcases ite_eq_some h with ⟨_, h⟩ | ⟨_, h⟩
  · cases h
    exact onClientAck_deeds hr _ _
  rw [if_neg hexit] at h
  cases h
  exact .refl

theorem step_deeds {a : Step} (hr : Regular st) (hl : Linked st) (hkeeps : Keeps a)
    (hnamed : WellNamed a) (hnew : MakesNew st a) (hc : Counts st')
    (h : step st a = some st') : Deeds st st' := by
  cases a with
  | package p =>
    obtain ⟨o, hproc, rfl⟩ := Option.map_eq_some_iff.mp h
    have hqueues := queues_reply o p.clientIndex
    have hc' : Counts o.server := fun id q hq => hc id q ((congrFun hqueues id).trans hq)
    have hdeeds : Deeds st o.server := by
      rcases ite_eq_some hproc with ⟨_, hproc⟩ | ⟨_, hproc⟩
      · cases hproc
        exact .refl
      · exact dispatch_deeds hr hl hkeeps hnamed hnew hc' hproc
    exact hdeeds.tail (reply_does o p.clientIndex (hdeeds.regular hr))
  | pushMessage => exact pushLoop_deeds _ _ (Nat.le_refl _) hr h
  | sendMultiAck =>
    rcases ite_eq_some h with ⟨_, h⟩ | ⟨_, h⟩
    · cases h
      exact .of_does (.aside hr rfl)
    · cases h
  | drainConnect =>
    obtain ⟨r, _, rfl⟩ := Option.map_eq_some_iff.mp h
    exact .of_does (.aside hr rfl)
  | drainPersis => exact hkeeps.elim
  | rehash t =>
    rcases ite_eq_some h with ⟨hsame, h⟩ | ⟨_, h⟩
    · cases h
      obtain ⟨_, _, hkeys, hexchanges, _⟩ := hsame
      refine .of_does ⟨⟨hr.queues, fun n e he => ?_, hr.pending⟩, [],
        .reorder t.exchanges hkeys hexchanges, rfl⟩
      obtain ⟨f, hf, hname, hsame⟩ := hexchanges ⟨n, e⟩ (AList.mem_lookup_iff.mp he)
      obtain ⟨hexchange, _, hdurable, _⟩ := hsame
      obtain ⟨hf₁, hf₂, hf₃⟩ := hr.exchanges f.1 f.2 (AList.mem_lookup_iff.mpr hf)
      have hn : f.1 = n := hname
      rw [hn] at hf₁ hf₂ hf₃
      exact ⟨hexchange.trans hf₁, hf₂, fun hd => hf₃ (hdurable ▸ hd)⟩
    · cases h

end Wsmq.LogicServer
