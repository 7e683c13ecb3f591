import Wsmq.LogicServer.Init
import Wsmq.LogicServer.Orders
import Wsmq.LogicServer.StepEffects

/-!
# Queues, exchanges and the packets about them

`Memory` is what the persistence server is told about.  `Change` lists what the handlers that
delete nothing do to it, each with the packet that goes with it; every such step is a
sequence of changes.
-/

namespace Wsmq.LogicServer
open Lib Lib.ByteString Lib.Packing Lib.Files
open PersistenceServer (Order)

variable [Platform]

/-- The queue without what comes and goes with its messages. -/
def outline (q : MessageQueue) : MessageQueue := { q.clearMessage with pushIndex := -1 }

structure Memory where
  queues : QueueId → Option MessageQueue
  exchanges : AList fun _ : Name => Exchange

def memory (st : LogicServer) : Memory := ⟨fun id => (st.queues id).map outline, st.exchanges⟩

/-- The object `id` is now `q`. -/
def Memory.setQueue (m : Memory) (id : QueueId) (q : MessageQueue) : Memory :=
  { m with queues := fun i => if i = id then some q else m.queues i }

/-- `full` says that `LOGIC_TO_PERSIS` may refuse a packet. -/
inductive Change (full : Prop) (m : Memory) : List Order → Memory → Prop
  | none : Change full m [] m
  | single : Change full m [.other] m
  | reorder (exchanges : AList fun _ : Name => Exchange)
      (hkeys : exchanges.keys.Perm m.exchanges.keys)
      (hsame : ∀ e ∈ exchanges.entries, ∃ f ∈ m.exchanges.entries,
        f.1 = e.1 ∧ SameExchange e.2 f.2) :
      Change full m [] { m with exchanges := exchanges }
  | makeExchange (e : Exchange) (info : Bytes) (hname : IsName e.exchangeName)
      (hplain : e.durable → Plain e.exchangeName) (hnew : e.exchangeName ∉ m.exchanges)
      (hinfo : e.durable →
        36 ≤ info.length ∧ readExchange info = some { e with bindingQueues := ∅ }) :
      Change full m (if e.durable then [.create .exchange e.exchangeName info] else [])
        { m with exchanges := m.exchanges.insert e.exchangeName e }
  | bind (e : Exchange) (k : Name) (id : QueueId) (q : MessageQueue)
      (he : m.exchanges.lookup e.exchangeName = some e) (hq : m.queues id = some q) :
      Change full m (if e.durable then [bindOrder m.queues (e.createBinding k id)] else [])
        { m with exchanges := m.exchanges.replace e.exchangeName (e.createBinding k id) }
  | makeQueue (id : QueueId) (q : MessageQueue) (info : Bytes) (hid : m.queues id = Option.none)
      (hname : IsName q.queueName) (hplain : q.durable → Plain q.queueName)
      (hinfo : q.durable → 36 ≤ info.length ∧ readQueue info = some q)
      (hindex : q.durableIndex = 0) (hsubs : q.subscribeConsumers = [])
      (hlevel : q.confirmLevel = 0)
      (hnew : ∀ i q', m.queues i = some q' → q'.queueName ≠ q.queueName) :
      Change full m (if q.durable then [.create .queue q.queueName info] else [])
        (m.setQueue id q)
  /-- A durable message gets its index. -/
  | draw (id : QueueId) (q : MessageQueue) (hq : m.queues id = some q) (hdurable : q.durable) :
      Change full m [.publish q.queueName q.durableIndex]
        (m.setQueue id { q with durableIndex := q.durableIndex + 1 })
  | subscribe (id : QueueId) (q : MessageQueue) (c : Int) (level : Nat) (hq : m.queues id = some q)
      (hint : FitsInt 4 c) (hbyte : level < 2 ^ 8) :
      Change full m (if q.durable then [subscribeOrder (q.addSubscribe c level)] else [])
        (m.setQueue id (q.addSubscribe c level))
  /-- The packet about the subscribers was refused. -/
  | resubscribe (hfull : full) (id : QueueId) (q : MessageQueue) (c : Int)
      (hq : m.queues id = some q) : Change full m [] (m.setQueue id (q.cancelSubscribe c))

/-- The packets were put into the channel, as far as it took them. -/
def Sent : List Order → ShmQueue.Fifo → ShmQueue.Fifo → Prop
  | [], f, f' => f' = f
  | o :: os, f, f' => ∃ bs, PersistenceServer.Carries bs o ∧ Sent os (f.call (.enqueue bs)).2 f'

/-- Names are names, and those of durable objects are names of directories. -/
structure Regular (st : LogicServer) : Prop where
  queues : ∀ id q, st.queues id = some q → IsName q.queueName ∧
    (q.durable → Plain q.queueName ∧ 0 ≤ q.durableIndex)
  exchanges : ∀ n e, st.exchanges.lookup n = some e → e.exchangeName = n ∧ IsName n ∧
    (e.durable → Plain n)
  pending : ∀ x ∈ st.needAckMessageList, IsName x.queueName

/-- A change with its packet. -/
structure Does (st st' : LogicServer) : Prop where
  regular : Regular st'
  done : ∃ os, Change (st.queueToPersis.cap ≠ none) (memory st) os (memory st') ∧
    Sent os st.queueToPersis st'.queueToPersis

abbrev Deeds : LogicServer → LogicServer → Prop := Relation.ReflTransGen Does

variable {st st' : LogicServer} {q q' : MessageQueue} {id : QueueId}

@[simp] theorem outline_queueName (q : MessageQueue) : (outline q).queueName = q.queueName := rfl
@[simp] theorem outline_durable (q : MessageQueue) : (outline q).durable = q.durable := rfl
@[simp] theorem outline_durableIndex (q : MessageQueue) :
    (outline q).durableIndex = q.durableIndex := rfl

omit [Platform] in
theorem Sent.cap {os : List Order} {f f' : ShmQueue.Fifo} (h : Sent os f f') : f'.cap = f.cap := by
  induction os generalizing f with
  | nil => rw [h]
  | cons o os ih =>
    obtain ⟨bs, _, h⟩ := h
    exact (ih h).trans (ShmQueue.Fifo.call_enqueue_cap f bs)

theorem Deeds.regular (h : Deeds st st') (hr : Regular st) : Regular st' := by
  induction h with
  | refl => exact hr
  | tail _ hlast _ => exact hlast.regular

/-! ## What leaves the memory alone -/

/-- Nothing was sent, and only messages were moved. -/
theorem Does.quiet (hr : Regular st') (hmemory : memory st' = memory st)
    (hpersis : st'.queueToPersis = st.queueToPersis) : Does st st' :=
  ⟨hr, [], hmemory ▸ .none, hpersis⟩

theorem memory_setQueue (st : LogicServer) (id : QueueId) (q : MessageQueue) :
    memory (st.setQueue id q) = (memory st).setQueue id (outline q) := by
  simp only [memory, Memory.setQueue, setQueue, Memory.mk.injEq, and_true]
  funext i
  split
  · rfl
  · rfl

theorem memory_setQueue_same (hq : st.queues id = some q) (hsame : outline q' = outline q) :
    memory (st.setQueue id q') = memory st := by
  rw [memory_setQueue, hsame]
  simp only [memory, Memory.setQueue, Memory.mk.injEq, and_true]
  funext i
  split
  · next h => rw [h, hq, Option.map_some]
  · rfl

theorem outline_takeFront {m : SeverStoreMessage} (h : q.takeFront = some (m, q')) :
    outline q' = outline q := by
  unfold MessageQueue.takeFront at h
  split at h
  · cases h
    rfl
  · split at h
    · cases h
    · cases h
      rfl

theorem outline_popFrontMsg {m : SeverStoreMessage} {bPush : Bool}
    (h : q.popFrontMsg bPush = some (m, q')) : outline q' = outline q := by
  unfold MessageQueue.popFrontMsg at h
  split at h
  · cases h
  · split at h
    · cases h
    · next m' q'' htake =>
      have hsame := outline_takeFront htake
      split at h
      · cases h
        exact hsame
      · cases h
        exact hsame

theorem outline_addMessage (q : MessageQueue) (m : SeverStoreMessage) :
    outline (q.addMessage m) = outline q := by
  unfold MessageQueue.addMessage
  split
  · rfl
  · rfl

/-- Another object with the same outline keeps the names. -/
theorem Regular.setQueue (hr : Regular st) (hq : st.queues id = some q)
    (hname : q'.queueName = q.queueName) (hdurable : q'.durable = q.durable)
    (hindex : q.durableIndex ≤ q'.durableIndex) : Regular (st.setQueue id q') := by
  refine ⟨fun i x hx => ?_, hr.exchanges, hr.pending⟩
  have hx' : (if i = id then some q' else st.queues i) = some x := hx
  split at hx'
  · cases hx'
    obtain ⟨hn, hp⟩ := hr.queues id q hq
    rw [hname, hdurable]
    refine ⟨hn, fun hd => ⟨(hp hd).1, ?_⟩⟩
    have hnonneg := (hp hd).2
    omega
  · exact hr.queues i x hx'

end Wsmq.LogicServer
