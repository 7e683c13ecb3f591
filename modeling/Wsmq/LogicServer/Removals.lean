import Wsmq.LogicServer.Conservation
import Wsmq.LogicServer.StepDeeds

/-!
# What is deleted, and the packets about it

Subscriptions that end, queues and exchanges that go.  Together with the changes of the other
handlers, every step is a sequence of acts on what the persistence server is told about.
-/

namespace Wsmq.LogicServer
open Lib Lib.ByteString Lib.Packing Lib.Files
open PersistenceServer (Order)

variable [Platform]

/-- The object `id` is gone. -/
def Memory.freeQueue (m : Memory) (id : QueueId) : Memory :=
  { m with queues := fun i => if i = id then none else m.queues i }

/-- `silent` says that a durable exchange may go without a packet. -/
inductive Removal (silent : Prop) (m : Memory) : List Order → Memory → Prop
  | unsubscribe (id : QueueId) (q : MessageQueue) (c : Int) (hq : m.queues id = some q) :
      Removal silent m (if q.durable then [subscribeOrder (q.cancelSubscribe c)] else [])
        (m.setQueue id (q.cancelSubscribe c))
  /-- The client that exits is no subscriber of the queue. -/
  | unchanged (id : QueueId) (q : MessageQueue) (c : Int) (hq : m.queues id = some q)
      (hsame : (q.cancelSubscribe c).subscribeConsumers = q.subscribeConsumers) :
      Removal silent m [] (m.setQueue id (q.cancelSubscribe c))
  | unbind (e : Exchange) (id : QueueId) (he : m.exchanges.lookup e.exchangeName = some e) :
      Removal silent m [] { m with
        exchanges := m.exchanges.replace e.exchangeName (e.deleteBindingQueue id) }
  | dropExchange (e : Exchange) (he : m.exchanges.lookup e.exchangeName = some e) :
      Removal silent m (if e.durable then [.remove .exchange e.exchangeName] else [])
        { m with exchanges := m.exchanges.erase e.exchangeName }
  /-- The sweep of `OnDeleteQueue` tells nobody. -/
  | forgetExchange (e : Exchange) (he : m.exchanges.lookup e.exchangeName = some e)
      (hsilent : e.durable → silent) :
      Removal silent m [] { m with exchanges := m.exchanges.erase e.exchangeName }
  | dropQueue (id : QueueId) (q : MessageQueue) (hq : m.queues id = some q) :
      Removal silent m (if q.durable then [.remove .queue q.queueName] else []) (m.freeQueue id)

/-- What the persistence server is told about, and the channel that leads there. -/
abbrev Told : Type := Memory × ShmQueue.Fifo

def told (st : LogicServer) : Told := (memory st, st.queueToPersis)

/-- The names of queues and exchanges are names, and those of durable ones are names of
directories. -/
structure ProperNames (m : Memory) : Prop where
  queues : ∀ id q, m.queues id = some q → IsName q.queueName ∧
    (q.durable → Plain q.queueName ∧ 0 ≤ q.durableIndex)
  exchanges : ∀ n e, m.exchanges.lookup n = some e → e.exchangeName = n ∧ IsName n ∧
    (e.durable → Plain n)

/-- A removal with its packets. -/
def Removes (silent : Prop) (v v' : Told) : Prop :=
  ∃ os, Removal silent v.1 os v'.1 ∧ Sent os v.2 v'.2

abbrev Removals (silent : Prop) : Told → Told → Prop := Relation.ReflTransGen (Removes silent)

variable {silent : Prop} {st st' : LogicServer} {q q' : MessageQueue} {id : QueueId} {c : Int}
  {v v' : Told}

theorem Removals.single {os : List Order} {m : Memory} (h : Removal silent (memory st) os m)
    (hmemory : memory st' = m) (hsent : Sent os st.queueToPersis st'.queueToPersis) :
    Removals silent (told st) (told st') := by
  subst hmemory
  exact Relation.ReflTransGen.single ⟨os, h, hsent⟩

/-- Nothing that the persistence server is told about has changed. -/
theorem Removals.of_eq (hmemory : memory st' = memory st)
    (hpersis : st'.queueToPersis = st.queueToPersis) : Removals silent (told st) (told st') := by
  have htold : told st' = told st := Prod.ext hmemory hpersis
  rw [htold]

/-! ## Names stay names -/

theorem Removal.regular {m m' : Memory} {os : List Order} (h : Removal silent m os m')
    (hm : ProperNames m) : ProperNames m' := by
  obtain ⟨hqueues, hexchanges⟩ := hm
  have hset : ∀ i x y, m.queues i = some y → x.queueName = y.queueName → x.durable = y.durable →
      x.durableIndex = y.durableIndex → ProperNames (m.setQueue i x) := by
    intro i x y hy hname hdurable hindex
    refine ⟨fun j z hz => ?_, hexchanges⟩
    have hz' : (if j = i then some x else m.queues j) = some z := hz
    split at hz'
    · cases hz'
      rw [hname, hdurable, hindex]
      exact hqueues i y hy
    · exact hqueues j z hz'
  cases h with
  | unsubscribe id q c hq => exact hset id _ q hq rfl rfl rfl
  | unchanged id q c hq => exact hset id _ q hq rfl rfl rfl
  | unbind e id he =>
    have hin : e.exchangeName ∈ m.exchanges := AList.lookup_isSome.mp (Option.isSome_of_eq_some he)
    refine ⟨hqueues, fun n x hx => ?_⟩
    rcases AssocTables.lookup_replace_some hin hx with ⟨rfl, rfl⟩ | ⟨_, hold⟩
    · exact hexchanges e.exchangeName e he
    · exact hexchanges n x hold
  | dropExchange e he =>
    exact ⟨hqueues, fun n x hx => hexchanges n x (AssocTables.lookup_erase_some hx).2⟩
  | forgetExchange e he =>
    exact ⟨hqueues, fun n x hx => hexchanges n x (AssocTables.lookup_erase_some hx).2⟩
  | dropQueue id q hq =>
    refine ⟨fun j z hz => ?_, hexchanges⟩
    have hz' : (if j = id then Option.none else m.queues j) = some z := hz
    split at hz'
    · cases hz'
    · exact hqueues j z hz'

theorem Removals.regular (h : Removals silent v v') (hv : ProperNames v.1) :
    ProperNames v'.1 ∧ v'.2.cap = v.2.cap := by
  induction h with
  | refl => exact ⟨hv, rfl⟩
  | tail _ hlast ih =>
    obtain ⟨hnamed, hcap⟩ := ih
    obtain ⟨os, hremoval, hsent⟩ := hlast
    exact ⟨hremoval.regular hnamed, hsent.cap.trans hcap⟩

theorem Regular.named (hr : Regular st) : ProperNames (memory st) := by
  refine ⟨fun id q hq => ?_, hr.exchanges⟩
  obtain ⟨x, hx, rfl⟩ := Option.map_eq_some_iff.mp hq
  exact hr.queues id x hx

/-- Nothing waits that has not waited before. -/
theorem Removals.keeps (h : Removals silent (told st) (told st')) (hr : Regular st)
    (hpending : ∀ x ∈ st'.needAckMessageList, x ∈ st.needAckMessageList) : Regular st' := by
  obtain ⟨hqueues, hexchanges⟩ := (h.regular hr.named).1
  refine ⟨fun id q hq => ?_, hexchanges, fun x hx => hr.pending x (hpending x hx)⟩
  exact hqueues id (outline q) (congrArg (Option.map outline) hq)

/-! ## Exchanges -/

omit [Platform] in
/-- The name that a packet ends with. -/
theorem readName_whole {n : Name} (hn : IsName n) : readName (Mem.ofBytes n) 0 = some n := by
  have hpad : (Mem.ofBytes n).read 0 maxNameLength = pad maxNameLength n := by
    have hlen := pad_length hn.short.le
    refine List.ext_getElem (by rw [Mem.read_length, hlen]) fun i hi _ => ?_
    rw [Mem.read_getElem]
    simp only [Mem.ofBytes, pad, Nat.zero_add, List.getElem_append, List.getElem_replicate]
    split
    · next hlt => exact List.getD_eq_getElem _ _ hlt
    · next hge => exact List.getD_eq_default _ _ (Nat.not_lt.mp hge)
  rw [readName, hpad]
  exact cstr_pad hn.zero hn.short

omit [Platform] in
/-- A name of a directory goes out in a packet that deletes it. -/
theorem carries_removeName {k : PersistenceServer.Kind} {n : Name} (hn : IsName n)
    (hplain : Plain n) : PersistenceServer.Carries
      (persisPacket (PersistenceServer.deleteCmd k) n) (.remove k n) := by
  refine carries_remove ?_ (readName_whole hn) hplain
  have hshort := hn.short
  simp only [maxNameLength] at hshort
  omega

/-- The exchange goes, and is told of in the modes that tell. -/
theorem eraseExchange_removals {bs : Bytes} {bTold : Bool} {e : Exchange}
    (he : st.exchanges.lookup e.exchangeName = some e)
    (hsilent : bTold = false → e.durable → silent)
    (hcarries : (e.durable && bTold) →
      PersistenceServer.Carries bs (.remove .exchange e.exchangeName)) :
    Removals silent (told st) (told ((st.sendPersis (e.durable && bTold) bs).2.setExchanges
      ((st.sendPersis (e.durable && bTold) bs).2.exchanges.erase e.exchangeName))) := by
  have hsent := sent_sendPersis hcarries st
  have hmemory : memory ((st.sendPersis (e.durable && bTold) bs).2.setExchanges
      ((st.sendPersis (e.durable && bTold) bs).2.exchanges.erase e.exchangeName)) =
        { memory st with exchanges := (memory st).exchanges.erase e.exchangeName } := by
    rw [sendPersis_eq]
    rfl
  cases bTold with
  | true =>
    rw [Bool.and_true] at hsent hmemory ⊢
    exact .single (.dropExchange e he) hmemory hsent
  | false =>
    rw [Bool.and_false] at hsent hmemory ⊢
    exact .single (.forgetExchange e he (hsilent rfl)) hmemory hsent

theorem onDeleteExchange_removals {p : Package} {o : Outcome} (hcap : st.queueToPersis.cap = none)
    (hr : Regular st) (hlen : maxNameLength ≤ p.bodyLen)
    (h : st.onDeleteExchange p.body p.bodyLen = some o) :
    Removals silent (told st) (told o.server) := by
  obtain ⟨n, hread, rfl⟩ := onDeleteExchange_some h
  dsimp only [deleteExchange]
  split
  · exact .refl
  · next e he =>
    obtain ⟨hname, hn, hplain⟩ := hr.exchanges n e he
    rw [if_neg (not_not.mpr (sendPersis_ret hcap _ _))]
    have hcarries : (e.durable && true) → PersistenceServer.Carries (persisPacket cmdDeleteExchange
        (p.body.read 0 p.bodyLen)) (.remove .exchange n) := fun hd =>
      carries_remove (k := .exchange) length_request (readName_request hlen hread)
        (hplain (Bool.and_eq_true_iff.mp hd).1)
    subst hname
    have hsilent : true = false → e.durable → silent := fun h => nomatch h
    have hremovals := eraseExchange_removals he hsilent hcarries
    rwa [Bool.and_true] at hremovals

/-- The names of an entry that the sweep comes to. -/
structure EntryNamed (e : Σ _ : Name, Exchange) : Prop where
  same : e.2.exchangeName = e.1
  name : IsName e.1
  plain : e.2.durable → Plain e.1

theorem Regular.entryNamed (hr : Regular st) : ∀ e ∈ st.exchanges.entries, EntryNamed e := by
  intro e he
  obtain ⟨hsame, hname, hplain⟩ := hr.exchanges e.1 e.2 (AList.mem_lookup_iff.mpr he)
  exact ⟨hsame, hname, hplain⟩

/-- The durable exchange goes with its last queue. -/
def LeftEmpty (queue : QueueId) (e : Exchange) : Prop :=
  e.durable ∧ e.autoDel ∧ e.getBindingSize ≠ 0 ∧ (e.deleteBindingQueue queue).getBindingSize = 0

instance (queue : QueueId) (e : Exchange) : Decidable (LeftEmpty queue e) :=
  inferInstanceAs (Decidable (_ ∧ _ ∧ _ ∧ _))

theorem sweepExchanges_removals (mode : SweepMode) (queue : QueueId)
    (entries : List (Σ _ : Name, Exchange)) {st : LogicServer} (hcap : st.queueToPersis.cap = none)
    (hnamed : ∀ e ∈ entries, EntryNamed e) (hcoming : Coming st entries)
    (hsilent : mode = .silent → ∀ e ∈ entries, LeftEmpty queue e.2 → silent) :
    Removals silent (told st) (told (sweepExchanges mode queue entries st).2) := by
  induction entries generalizing st with
  | nil => exact .refl
  | cons e rest ih =>
    have he := hcoming.lookup e List.mem_cons_self
    have hnamed' : ∀ x ∈ rest, EntryNamed x := fun x hx => hnamed x (List.mem_cons_of_mem _ hx)
    have hsilent' : mode = .silent → ∀ x ∈ rest, LeftEmpty queue x.2 → silent := fun hmode x hx =>
      hsilent hmode x (List.mem_cons_of_mem _ hx)
    obtain ⟨n, e⟩ := e
    obtain ⟨hsame, hname, hplain⟩ := hnamed ⟨n, e⟩ List.mem_cons_self
    dsimp only at hsame hname hplain he
    subst hsame
    let e' := e.deleteBindingQueue queue
    let st₁ := st.setExchanges (st.exchanges.replace e.exchangeName e')
    have hunbind : Removals silent (told st) (told st₁) := .single (.unbind e queue he) rfl rfl
    simp only [sweepExchanges]
    split
    · exact ih hcap hnamed' (hcoming.tail fun _ _ => rfl) hsilent'
    · next hsome =>
      split
      · next hgone =>
        rw [if_neg fun hstop => hstop.2 (sendPersis_ret (by exact hcap) _ _)]
        have hin : e.exchangeName ∈ st.exchanges :=
          AList.lookup_isSome.mp (Option.isSome_of_eq_some he)
        have he' : st₁.exchanges.lookup e'.exchangeName = some e' :=
          AssocTables.lookup_replace_self hin
        have hforget : decide (mode ≠ .silent) = false → e'.durable → silent := by
          intro hmode hd
          have hsilently : mode = .silent := by simpa using hmode
          exact hsilent hsilently ⟨e.exchangeName, e⟩ List.mem_cons_self
            ⟨hd, hgone.2, hsome, hgone.1⟩
        have hcarries : (e'.durable && decide (mode ≠ .silent)) → PersistenceServer.Carries
            (persisPacket cmdDeleteExchange e'.exchangeName) (.remove .exchange e'.exchangeName) :=
          fun hd => carries_removeName (k := .exchange) hname
            (hplain (Bool.and_eq_true_iff.mp hd).1)
        have hdrop := eraseExchange_removals he' hforget hcarries
        refine (hunbind.trans hdrop).trans (ih ?_ hnamed' ?_ hsilent')
        · exact (cap_sendPersis _ _).trans hcap
        · refine hcoming.tail fun n hn => ?_
          show ((((st.setExchanges _).sendDeleteExchange mode _).2).exchanges.erase
            e.exchangeName).lookup n = _
          rw [AList.lookup_erase_ne hn, sendDeleteExchange_eq]
          exact AssocTables.lookup_replace_ne hn
      · refine hunbind.trans (ih hcap hnamed' ?_ hsilent')
        exact hcoming.tail fun n hn => AssocTables.lookup_replace_ne hn

/-! ## Queues -/

theorem freeQueue_removals {bs : Bytes} (hq : st.queues id = some q)
    (hcarries : q.durable → PersistenceServer.Carries bs (.remove .queue q.queueName)) :
    Removals silent (told st) (told ((st.sendPersis q.durable bs).2.freeQueue id)) := by
  have hold : (memory st).queues id = some (outline q) := congrArg (Option.map outline) hq
  refine .single (.dropQueue id (outline q) hold) ?_ (sent_sendPersis hcarries st)
  rw [sendPersis_eq]
  simp only [memory, Memory.freeQueue, freeQueue, Memory.mk.injEq, and_true]
  funext i
  split
  · rfl
  · rfl

theorem detachQueue_removals {mode : SweepMode} (hmode : mode ≠ .silent)
    (hcap : st.queueToPersis.cap = none) (hr : Regular st) (hq : st.queues id = some q) :
    Removals silent (told st) (told (st.detachQueue mode id q).2) := by
  have hclear : Removals silent (told st) (told (st.setQueue id q.clearMessage)) :=
    .of_eq (memory_setQueue_same hq rfl) rfl
  exact hclear.trans (sweepExchanges_removals mode id _ hcap hr.entryNamed (coming_entries _)
    fun h => absurd h hmode)

/-- The sweep does not look at the queues. -/
theorem sweepExchanges_freeQueue (mode : SweepMode) (id : QueueId)
    (entries : List (Σ _ : Name, Exchange)) (st : LogicServer) :
    (sweepExchanges mode id entries (st.freeQueue id)).2 =
      (sweepExchanges mode id entries st).2.freeQueue id := by
  have hsend : ∀ (s : LogicServer) (e : Exchange), (s.freeQueue id).sendDeleteExchange mode e =
      ((s.sendDeleteExchange mode e).1, (s.sendDeleteExchange mode e).2.freeQueue id) := by
    intro s e
    unfold sendDeleteExchange sendPersis
    split
    · rfl
    · rfl
  induction entries generalizing st with
  | nil => rfl
  | cons e rest ih =>
    let e' := e.2.deleteBindingQueue id
    let st₁ := st.setExchanges (st.exchanges.replace e.1 e')
    let st₂ := (st₁.sendDeleteExchange mode e').2
    have hfirst : (st.freeQueue id).setExchanges ((st.freeQueue id).exchanges.replace e.1 e') =
        st₁.freeQueue id := rfl
    simp only [sweepExchanges]
    split
    · exact ih st
    · rw [hfirst, hsend]
      split
      · split
        · rfl
        · exact ih (st₂.setExchanges (st₂.exchanges.erase e.1))
      · exact ih st₁

/-- A queue is deleted, and with it a durable exchange whose directory stays. -/
def Forgets (st : LogicServer) : Step → Prop
  | .package p => p.cmdId = cmdDeleteQueue ∧ ∃ n id, readName p.body 0 = some n ∧
      st.findQueue n = some id ∧ ∃ e ∈ st.exchanges.entries, LeftEmpty id e.2
  | _ => False

theorem onDeleteQueue_removals {p : Package} {o : Outcome} (hcap : st.queueToPersis.cap = none)
    (hr : Regular st) (hl : Linked st) (hlen : maxNameLength ≤ p.bodyLen)
    (hsilent : ∀ n id, readName p.body 0 = some n → st.findQueue n = some id →
      ∀ e ∈ st.exchanges.entries, LeftEmpty id e.2 → silent)
    (h : st.onDeleteQueue p.body p.bodyLen = some o) :
    Removals silent (told st) (told o.server) := by
  obtain ⟨n, hread, h⟩ := onDeleteQueue_some h
  dsimp only [deleteQueue] at h
  split at h
  · cases h
    exact .refl
  · next id hfind =>
    obtain ⟨q, hq, rfl⟩ := Option.map_eq_some_iff.mp h
    have hname := hl.findQueue_name hfind hq
    have hsilent := hsilent n id hread hfind
    obtain ⟨hn, hdisk⟩ := hr.queues id q hq
    have hcarries : q.durable → PersistenceServer.Carries (persisPacket cmdDeleteQueue
        (p.body.read 0 p.bodyLen)) (.remove .queue q.queueName) := by
      intro hd
      rw [hname]
      exact carries_remove (k := .queue) length_request (readName_request hlen hread)
        (hname ▸ (hdisk hd).1)
    let s := (st.eraseUnSubcribe n).eraseSubcribe n
    let r := (s.sendPersis q.durable (persisPacket cmdDeleteQueue (p.body.read 0 p.bodyLen))).2
    rw [if_neg (not_not.mpr (sendPersis_ret (by exact hcap) _ _))]
    -- the queue may as well go before the sweep
    have hdrop : Removals silent (told st) (told (r.freeQueue id)) := by
      have hq' : s.queues id = some q := hq
      exact freeQueue_removals hq' hcarries
    have hexchanges : r.exchanges = st.exchanges :=
      (congrArg LogicServer.exchanges (sendPersis_eq s q.durable _)).trans rfl
    have hsweep : Removals silent (told (r.freeQueue id))
        (told (sweepExchanges .silent id r.exchanges.entries (r.freeQueue id)).2) := by
      have hcap' : r.queueToPersis.cap = none := (cap_sendPersis _ _).trans hcap
      have hentries := hr.entryNamed
      rw [← hexchanges] at hentries hsilent
      exact sweepExchanges_removals .silent id _ hcap' hentries (coming_entries (r.freeQueue id))
        fun _ => hsilent
    have hfree : (r.setQueue id q.clearMessage).freeQueue id = r.freeQueue id := by
      simp only [freeQueue, setQueue, LogicServer.mk.injEq, true_and, and_true]
      funext i
      split
      · rfl
      · rfl
    rw [← hfree, sweepExchanges_freeQueue] at hsweep
    rw [← hfree] at hdrop
    exact hdrop.trans hsweep

/-! ## Subscriptions that end -/

theorem unsubscribe_removals {bIsCreate : Bool} {r : Int × LogicServer} (hr : Regular st)
    (hq : st.queues id = some q)
    (h : (st.setQueue id (q.cancelSubscribe c)).sendSubscribers (q.cancelSubscribe c) bIsCreate =
      some r) : Removals silent (told st) (told r.2) := by
  obtain ⟨hn, hdisk⟩ := hr.queues id q hq
  have hold : (memory st).queues id = some (outline q) := congrArg (Option.map outline) hq
  refine .single (.unsubscribe id (outline q) c hold) ?_ ?_
  · rw [sendSubscribers_eq h]
    exact memory_setQueue st id (q.cancelSubscribe c)
  · rcases ite_eq_some h with ⟨hd, h⟩ | ⟨hd, h⟩
    · obtain ⟨packed, hpacked, rfl⟩ := Option.map_eq_some_iff.mp h
      have hd' : (outline q).durable = true := hd
      rw [if_pos hd']
      have hcarries := carries_subscribers (q := q.cancelSubscribe c) hn (hdisk hd).1 hpacked
      exact ⟨packed.sent, hcarries, rfl⟩
    · cases h
      have hd' : ¬ (outline q).durable = true := hd
      rw [if_neg hd']
      exact rfl

/-- The packet about the subscribers is accepted. -/
theorem sendSubscribers_ret {bIsCreate : Bool} {r : Int × LogicServer}
    (hcap : st.queueToPersis.cap = none) (h : st.sendSubscribers q bIsCreate = some r) :
    r.1 = success ∧ r.2.queueToPersis.cap = none := by
  rcases ite_eq_some h with ⟨_, h⟩ | ⟨_, h⟩
  · obtain ⟨packed, _, rfl⟩ := Option.map_eq_some_iff.mp h
    exact ⟨enqueuePersis_ret hcap _, (cap_enqueuePersis _).trans hcap⟩
  · cases h
    exact ⟨rfl, hcap⟩

/-- A queue that deletes itself: its exchanges let go of it, and it is gone. -/
theorem autoDelete_removals {mode : SweepMode} (hmode : mode ≠ .silent)
    (hcap : st.queueToPersis.cap = none) (hr : Regular st) (hq : st.queues id = some q) :
    Removals silent (told st) (told (((st.detachQueue mode id q).2.sendPersis q.durable
      (persisPacket cmdDeleteQueue q.queueName)).2.freeQueue id)) := by
  obtain ⟨hn, hdisk⟩ := hr.queues id q hq
  have hq' : (st.detachQueue mode id q).2.queues id = some q.clearMessage := by
    rw [detachQueue, sweepExchanges_eq]
    exact if_pos rfl
  have hfree : Removals silent _ _ := freeQueue_removals hq' fun hd =>
    carries_removeName (k := .queue) hn (hdisk hd).1
  exact (detachQueue_removals hmode hcap hr hq).trans hfree

theorem Regular.unsubscribed {bIsCreate : Bool} {r : Int × LogicServer} (hr : Regular st)
    (hq : st.queues id = some q)
    (h : (st.setQueue id (q.cancelSubscribe c)).sendSubscribers (q.cancelSubscribe c) bIsCreate =
      some r) : Regular r.2 := by
  have hr' : Regular (st.setQueue id (q.cancelSubscribe c)) :=
    hr.setQueue hq rfl rfl (Int.le_refl _)
  rw [sendSubscribers_eq h]
  exact ⟨hr'.queues, hr'.exchanges, hr'.pending⟩

theorem onCancelSubscribe_removals {buf : Mem} {o : Outcome} (hcap : st.queueToPersis.cap = none)
    (hr : Regular st) (hl : Linked st) (h : st.onCancelSubscribe buf c = some o) :
    Removals silent (told st) (told o.server) := by
  obtain ⟨n, _, h⟩ := onCancelSubscribe_some h
  dsimp only [LogicServer.cancelSubscribe] at h
  rcases ite_eq_some h with ⟨_, h⟩ | ⟨_, h⟩
  · cases h
    exact .refl
  split at h
  · cases h
    exact .refl
  · next id hsub =>
    obtain ⟨q, hq, h⟩ := Option.bind_eq_some_iff.mp h
    obtain ⟨r, hsend, rfl⟩ := Option.map_eq_some_iff.mp h
    have hcap₀ : (st.setQueue id (q.cancelSubscribe c)).queueToPersis.cap = none := hcap
    obtain ⟨hret, hcap'⟩ := sendSubscribers_ret hcap₀ hsend
    have hname : q.queueName = n := by
      obtain ⟨q₁, hq₁, hn⟩ := hl.subcribeQueues n id hsub
      cases hq.symm.trans hq₁
      exact hn
    have hq' : r.2.queues id = some (q.cancelSubscribe c) := by
      rw [sendSubscribers_eq hsend]
      exact if_pos rfl
    have hr' := hr.unsubscribed hq hsend
    refine (unsubscribe_removals hr hq hsend).trans ?_
    rw [if_neg (not_not.mpr hret), afterCancel]
    subst hname
    let s := r.2.eraseSubcribe (q.cancelSubscribe c).queueName
    have herased : Removals silent (told r.2) (told s) := .of_eq rfl rfl
    split
    · have hs : Regular s := ⟨hr'.queues, hr'.exchanges, hr'.pending⟩
      have hmode : SweepMode.checked ≠ .silent := by decide
      have hgone : Removals silent (told s) _ := autoDelete_removals hmode hcap' hs hq'
      have hcleared : (s.setQueue id (q.cancelSubscribe c).clearMessage).queueToPersis.cap = none :=
        hcap'
      have hend : (s.detachQueue .checked id (q.cancelSubscribe c)).1 = none :=
        sweepExchanges_none .checked id s.exchanges.entries hcleared
      have hcap₁ : (s.detachQueue .checked id (q.cancelSubscribe c)).2.queueToPersis.cap = none :=
        (sweepExchanges_broker .checked id _ _).2.trans hcap'
      refine herased.trans ?_
      show Removals silent (told s) (told (s.cancelAutoDelete _ id (q.cancelSubscribe c)).server)
      rw [cancelAutoDelete, hend]
      dsimp only
      rw [if_neg (not_not.mpr (sendPersis_ret hcap₁ _ _))]
      exact hgone
    · split
      · exact herased
      · exact herased

/-! ## Exit of a client -/

theorem exitQueue_removals {entry : Σ _ : Name, QueueId} (hcap : st.queueToPersis.cap = none)
    (hr : Regular st) (hq : st.queues entry.2 = some q)
    (h : (st.setQueue entry.2 (q.cancelSubscribe c)).exitQueue entry (q.cancelSubscribe c) =
      some st') : Removals silent (told st) (told st') := by
  obtain ⟨r, hsend, rfl⟩ := Option.map_eq_some_iff.mp h
  have hunsubscribed : Removals silent (told st) (told r.2) := unsubscribe_removals hr hq hsend
  have hr' := hr.unsubscribed hq hsend
  have hcap₀ : (st.setQueue entry.2 (q.cancelSubscribe c)).queueToPersis.cap = none := hcap
  obtain ⟨_, hcap'⟩ := sendSubscribers_ret hcap₀ hsend
  have hq' : r.2.queues entry.2 = some (q.cancelSubscribe c) := by
    rw [sendSubscribers_eq hsend]
    exact if_pos rfl
  let s := r.2.eraseSubcribe entry.1
  have herased : Removals silent (told st) (told s) := hunsubscribed.trans (Removals.of_eq rfl rfl)
  split
  · dsimp only
    split
    · have hs : Regular s := ⟨hr'.queues, hr'.exchanges, hr'.pending⟩
      have hmode : SweepMode.unchecked ≠ .silent := by decide
      have hgone : Removals silent (told s) _ := autoDelete_removals hmode hcap' hs hq'
      exact herased.trans hgone
    · exact herased
  · exact hunsubscribed

theorem exitQueues_removals (entries : List (Σ _ : Name, QueueId)) {st st' : LogicServer}
    (hcap : st.queueToPersis.cap = none) (hr : Regular st)
    (h : exitQueues c entries st = some st') :
    Removals silent (told st) (told st') := by
  induction entries generalizing st with
  | nil =>
    cases h
    exact .refl
  | cons e rest ih =>
    simp only [exitQueues] at h
    split at h
    · cases h
    · next q hq =>
      have hold : (memory st).queues e.2 = some (outline q) := congrArg (Option.map outline) hq
      split at h
      · obtain ⟨st₁, hone, hloop⟩ := Option.bind_eq_some_iff.mp h
        have hfirst : Removals silent (told st) (told st₁) := exitQueue_removals hcap hr hq hone
        have hcap' : st₁.queueToPersis.cap = none := (hfirst.regular hr.named).2.trans hcap
        have hr' : Regular st₁ := by
          refine hfirst.keeps hr fun x hx => ?_
          rw [exitQueue_needAck hone] at hx
          exact hx
        exact hfirst.trans (ih hcap' hr' hloop)
      · next hleft =>
        have hsame := MessageQueue.eraseConsumer_eq_self hleft
        have hfirst : Removals silent (told st) (told (st.setQueue e.2 (q.cancelSubscribe c))) := by
          exact .single (.unchanged e.2 (outline q) c hold hsame) (memory_setQueue _ _ _) rfl
        exact hfirst.trans (ih hcap (hr.setQueue hq rfl rfl (Int.le_refl _)) h)

theorem outline_addMessageFront (q : MessageQueue) (m : SeverStoreMessage) :
    outline (q.addMessageFront m) = outline q := by
  unfold MessageQueue.addMessageFront
  split
  · rfl
  · rfl

theorem requeue_removals (l : List SeverStoreMessage) {st st' : LogicServer}
    (h : requeue l st = some st') : Removals silent (told st) (told st') := by
  induction l generalizing st with
  | nil =>
    cases h
    exact .refl
  | cons m l ih =>
    simp only [requeue] at h
    split at h
    · exact ih h
    · split at h
      · cases h
      · next q hq =>
        have hsame := memory_setQueue_same hq (outline_addMessageFront q m)
        exact (Removals.of_eq hsame rfl).trans (ih h)

theorem onClientExit_removals (hcap : st.queueToPersis.cap = none) (hr : Regular st)
    (h : st.onClientExit c = some st') : Removals silent (told st) (told st') := by
  obtain ⟨st₁, hqueues, hneed⟩ := Option.bind_eq_some_iff.mp h
  obtain ⟨st₂, hrequeue, rfl⟩ := Option.map_eq_some_iff.mp hneed
  have hprune : Regular (st.pruneMsgSeqs c) := ⟨hr.queues, hr.exchanges, hr.pending⟩
  have hcap₀ : (st.pruneMsgSeqs c).queueToPersis.cap = none := hcap
  have hloop : Removals silent (told (st.pruneMsgSeqs c)) (told st₁) :=
    exitQueues_removals _ hcap₀ hprune hqueues
  have hback : Removals silent (told st₁) (told st₂) := requeue_removals _ hrequeue
  exact hloop.trans hback

/-! ## What waits for an acknowledgement -/

theorem needAck_sendPersis (st : LogicServer) (bDurable : Bool) (bs : Bytes) :
    (st.sendPersis bDurable bs).2.needAckMessageList = st.needAckMessageList :=
  (congrArg LogicServer.needAckMessageList (sendPersis_eq st bDurable bs)).trans rfl

theorem needAck_onDeleteExchange {buf : Mem} {iLen : Nat} {o : Outcome}
    (h : st.onDeleteExchange buf iLen = some o) :
    o.server.needAckMessageList = st.needAckMessageList := by
  obtain ⟨n, _, rfl⟩ := onDeleteExchange_some h
  dsimp only [deleteExchange]
  split
  · rfl
  · split
    · exact needAck_sendPersis _ _ _
    · exact needAck_sendPersis _ _ _

theorem needAck_onDeleteQueue {buf : Mem} {iLen : Nat} {o : Outcome}
    (h : st.onDeleteQueue buf iLen = some o) :
    o.server.needAckMessageList = st.needAckMessageList := by
  obtain ⟨n, _, h⟩ := onDeleteQueue_some h
  dsimp only [deleteQueue] at h
  split at h
  · cases h
    rfl
  · obtain ⟨q, _, rfl⟩ := Option.map_eq_some_iff.mp h
    have hsent := needAck_sendPersis ((st.eraseUnSubcribe n).eraseSubcribe n) q.durable
      (persisPacket cmdDeleteQueue (buf.read 0 iLen))
    split
    · exact hsent
    · exact (sweepExchanges_needAck _ _ _ _).trans hsent

theorem needAck_onCancelSubscribe {buf : Mem} {o : Outcome}
    (h : st.onCancelSubscribe buf c = some o) :
    o.server.needAckMessageList = st.needAckMessageList := by
  obtain ⟨n, _, h⟩ := onCancelSubscribe_some h
  dsimp only [LogicServer.cancelSubscribe] at h
  rcases ite_eq_some h with ⟨_, h⟩ | ⟨_, h⟩
  · cases h
    rfl
  split at h
  · cases h
    rfl
  · next id _ =>
    obtain ⟨q, _, h⟩ := Option.bind_eq_some_iff.mp h
    obtain ⟨r, hsend, rfl⟩ := Option.map_eq_some_iff.mp h
    have hsent : r.2.needAckMessageList = st.needAckMessageList :=
      (congrArg LogicServer.needAckMessageList (sendSubscribers_eq hsend)).trans rfl
    split
    · exact hsent
    · unfold afterCancel
      dsimp only
      split
      · let s := r.2.eraseSubcribe q.queueName
        have hswept := (sweepExchanges_needAck .checked id s.exchanges.entries
          (s.setQueue id (q.cancelSubscribe c).clearMessage)).trans hsent
        unfold cancelAutoDelete
        dsimp only
        split
        · exact hswept
        · split
          · exact (needAck_sendPersis _ _ _).trans hswept
          · exact (needAck_sendPersis _ _ _).trans hswept
      · split
        · exact hsent
        · exact hsent

theorem requeue_needAck (l : List SeverStoreMessage) {st st' : LogicServer}
    (h : requeue l st = some st') : st'.needAckMessageList = st.needAckMessageList := by
  have heffects : Effects (fun _ => True) _ _ ∧ _ := requeue_effects trivial [] l h
  exact heffects.2

theorem needAck_onClientExit (h : st.onClientExit c = some st') :
    ∀ x ∈ st'.needAckMessageList, x ∈ st.needAckMessageList := by
  obtain ⟨st₁, hqueues, hneed⟩ := Option.bind_eq_some_iff.mp h
  obtain ⟨st₂, hrequeue, rfl⟩ := Option.map_eq_some_iff.mp hneed
  have hkept := exitQueues_needAck _ hqueues
  have hsame : st₂.needAckMessageList = st.needAckMessageList :=
    (requeue_needAck _ hrequeue).trans hkept
  intro x hx
  rw [← hsame]
  exact (List.mem_filter.mp hx).1

/-! ## The main loop -/

/-- Packages that delete something have a whole name. -/
def WholeName : Step → Prop
  | .package p => p.cmdId = cmdDeleteExchange ∨ p.cmdId = cmdDeleteQueue →
      maxNameLength ≤ p.bodyLen
  | _ => True

instance : (a : Step) → Decidable (WholeName a)
  | .package p => inferInstanceAs (Decidable (_ → maxNameLength ≤ p.bodyLen))
  | .pushMessage | .sendMultiAck | .drainConnect | .drainPersis | .rehash _ => isTrue trivial

theorem told_reply (o : Outcome) (c : Int) : told (reply o c) = told o.server := by
  unfold reply
  split
  · rfl
  · rfl

theorem dispatch_removals {p : Package} {o : Outcome} (hcap : st.queueToPersis.cap = none)
    (hr : Regular st) (hl : Linked st) (hdeletes : ¬ Keeps (.package p))
    (hwhole : WholeName (.package p)) (hsilent : Forgets st (.package p) → silent)
    (h : st.dispatch p = some o) :
    Removals silent (told st) (told o.server) ∧
      ∀ x ∈ o.server.needAckMessageList, x ∈ st.needAckMessageList := by
  have hcmd : p.cmdId = cmdDeleteExchange ∨ p.cmdId = cmdDeleteQueue ∨
      p.cmdId = cmdCancelSubcribe ∨ p.cmdId = cmdClientExit := by
    simp only [Keeps] at hdeletes
    omega
  rcases hcmd with hcmd | hcmd | hcmd | hcmd
  · have hrun : st.onDeleteExchange p.body p.bodyLen = some o := by
      (rw [← h, dispatch, hcmd]; rfl)
    exact ⟨onDeleteExchange_removals hcap hr (hwhole (Or.inl hcmd)) hrun,
      fun x hx => needAck_onDeleteExchange hrun ▸ hx⟩
  · have hrun : st.onDeleteQueue p.body p.bodyLen = some o := by
      (rw [← h, dispatch, hcmd]; rfl)
    have hforgets : ∀ n id, readName p.body 0 = some n → st.findQueue n = some id →
        ∀ e ∈ st.exchanges.entries, LeftEmpty id e.2 → silent := fun n id hn hid e he hemptied =>
      hsilent ⟨hcmd, n, id, hn, hid, e, he, hemptied⟩
    exact ⟨onDeleteQueue_removals hcap hr hl (hwhole (Or.inr hcmd)) hforgets hrun,
      fun x hx => needAck_onDeleteQueue hrun ▸ hx⟩
  · have hrun : st.onCancelSubscribe p.body p.clientIndex = some o := by
      (rw [← h, dispatch, hcmd]; rfl)
    exact ⟨onCancelSubscribe_removals hcap hr hl hrun,
      fun x hx => needAck_onCancelSubscribe hrun ▸ hx⟩
  · have hrun : (st.onClientExit p.clientIndex).map (fun s => (⟨success, [], s⟩ : Outcome)) =
        some o := by
      rw [← h, dispatch_clientExit hcmd]
    obtain ⟨st₁, hexit, rfl⟩ := Option.map_eq_some_iff.mp hrun
    exact ⟨onClientExit_removals hcap hr hexit, needAck_onClientExit hexit⟩

/-- The server's own steps change or remove. -/
theorem step_told {a : Step} (hcap : st.queueToPersis.cap = none) (hr : Regular st)
    (hl : Linked st) (hnamed : WellNamed a) (hwhole : WholeName a) (hnew : MakesNew st a)
    (hc : Counts st') (hown : a ≠ .drainPersis) (hsilent : Forgets st a → silent)
    (h : step st a = some st') :
    Regular st' ∧ (Deeds st st' ∨ Removals silent (told st) (told st')) := by
  by_cases hkeeps : Keeps a
  · have hdeeds := step_deeds hr hl hkeeps hnamed hnew hc h
    exact ⟨hdeeds.regular hr, Or.inl hdeeds⟩
  cases a with
  | package p =>
    obtain ⟨o, hproc, rfl⟩ := Option.map_eq_some_iff.mp h
    have hdone : Removals silent (told st) (told o.server) ∧
        ∀ x ∈ o.server.needAckMessageList, x ∈ st.needAckMessageList := by
      rcases ite_eq_some hproc with ⟨_, hproc⟩ | ⟨_, hproc⟩
      · cases hproc
        exact ⟨.refl, fun _ hx => hx⟩
      · exact dispatch_removals hcap hr hl hkeeps hwhole hsilent hproc
    obtain ⟨hremovals, hpending⟩ := hdone
    rw [← told_reply o p.clientIndex] at hremovals
    refine ⟨hremovals.keeps hr fun x hx => hpending x ?_, Or.inr hremovals⟩
    unfold reply at hx
    split at hx
    · exact hx
    · exact hx
  | drainPersis => exact absurd rfl hown
  | pushMessage => exact absurd trivial hkeeps
  | sendMultiAck => exact absurd trivial hkeeps
  | drainConnect => exact absurd trivial hkeeps
  | rehash t => exact absurd trivial hkeeps

end Wsmq.LogicServer
