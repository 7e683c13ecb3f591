import Wsmq.Lib.PriorityQueue
import Wsmq.Message

/-!
# `MessageQueue` (`logicServer/logicServer.cpp`)
-/

namespace Wsmq
open Lib Lib.ByteString Lib.Packing

/-- What the language leaves open: which of several messages of maximal priority
`std::priority_queue` gives first, and what stands in memory behind the zero byte
that ends a string. -/
class Platform where
  msgHeap : PriorityQueue SeverStoreMessage SeverStoreMessage.priority
  afterString : Bytes → Nat → UInt8

/-- One platform on which everything can be computed. -/
@[reducible] def Platform.plain : Platform := ⟨.ofList _ _, fun _ _ => 0⟩

variable [Platform]

/-- The contents of `priority_queue<SeverStoreMessage *,vector<SeverStoreMessage *>,cmp>`. -/
abbrev MsgHeap : Type := Platform.msgHeap.Heap

namespace MsgHeap

def items (h : MsgHeap) : List SeverStoreMessage := Platform.msgHeap.items h

def empty : MsgHeap := Platform.msgHeap.empty

def push (h : MsgHeap) (m : SeverStoreMessage) : MsgHeap := Platform.msgHeap.push h m

/-- `top` and `pop` together. -/
def pop (h : MsgHeap) : Option (SeverStoreMessage × MsgHeap) := Platform.msgHeap.pop h

theorem items_empty : MsgHeap.empty.items = [] := Platform.msgHeap.items_empty

theorem items_push (h : MsgHeap) (m : SeverStoreMessage) : (h.push m).items.Perm (m :: h.items) :=
  Platform.msgHeap.items_push h m

theorem pop_none {h : MsgHeap} (e : h.pop = none) : h.items = [] :=
  (Platform.msgHeap.pop_none h).mp e

theorem pop_some {h t : MsgHeap} {m : SeverStoreMessage} (e : h.pop = some (m, t)) :
    h.items.Perm (m :: t.items) := (Platform.msgHeap.pop_some e).1

end MsgHeap

/-- `WriteBuf(p, str.c_str(), sizeof(str))`: always 32 bytes, whatever the length
of the string. -/
def writeString (str : Bytes) : Field :=
  ⟨(str ++ 0 :: (List.range maxNameLength).map (Platform.afterString str)).take maxNameLength,
    maxNameLength⟩

structure MessageQueue where
  queueName : Name
  priority : Int := -1
  durable : Bool := false
  autoDel : Bool := true
  confirmLevel : Nat := 0
  messagesList : List SeverStoreMessage := []
  msgPriQueue : MsgHeap := MsgHeap.empty
  subscribeConsumers : List Int := []
  pushIndex : Int := -1
  durableIndex : Int := 0

namespace MessageQueue

def isEmpty (q : MessageQueue) : Bool := q.msgPriQueue.items.isEmpty && q.messagesList.isEmpty

def isSubscribe (q : MessageQueue) : Bool := !q.subscribeConsumers.isEmpty

/-- Everything the queue stores. -/
def messages (q : MessageQueue) : List SeverStoreMessage := q.msgPriQueue.items ++ q.messagesList

/-! ## Messages -/

/-- The first message and the queue without it. -/
def takeFront (q : MessageQueue) : Option (SeverStoreMessage × MessageQueue) :=
  match q.msgPriQueue.pop with
  | some (pFrontMsg, heap) => some (pFrontMsg, { q with msgPriQueue := heap })
  | none =>
    match q.messagesList with
    | [] => none
    | pFrontMsg :: rest => some (pFrontMsg, { q with messagesList := rest })

/-- The position in `m_vSubscribeConsumers` that the next pushed message goes to. -/
def nextPushIndex (q : MessageQueue) : Int :=
  if q.pushIndex + 1 ≥ q.subscribeConsumers.length then 0 else q.pushIndex + 1

/-- No result stands for `NULL`. -/
def popFrontMsg (q : MessageQueue) (bPush : Bool) : Option (SeverStoreMessage × MessageQueue) :=
  if bPush && q.subscribeConsumers.isEmpty then none
  else
    match q.takeFront with
    | none => none
    | some (pFrontMsg, q') =>
      if bPush then
        let index := q.subscribeConsumers.getD q.nextPushIndex.toNat 0
        some ({ pFrontMsg with index := index }, { q' with pushIndex := q.nextPushIndex })
      else some (pFrontMsg, q')

/-- Queue and message both support priorities. -/
def IsPriority (q : MessageQueue) (pMsg : SeverStoreMessage) : Prop :=
  q.priority > 0 ∧ pMsg.priority > 0

instance (q : MessageQueue) (m : SeverStoreMessage) : Decidable (q.IsPriority m) :=
  inferInstanceAs (Decidable (_ ∧ _))

/-- The message with its priority cut to the queue's. -/
def limited (q : MessageQueue) (pMsg : SeverStoreMessage) : SeverStoreMessage :=
  if pMsg.priority > q.priority then { pMsg with priority := q.priority } else pMsg

def addMessage (q : MessageQueue) (pMsg : SeverStoreMessage) : MessageQueue :=
  if q.IsPriority pMsg then { q with msgPriQueue := q.msgPriQueue.push (q.limited pMsg) }
  else { q with messagesList := q.messagesList ++ [pMsg] }

def addMessageFront (q : MessageQueue) (pMsg : SeverStoreMessage) : MessageQueue :=
  if q.IsPriority pMsg then { q with msgPriQueue := q.msgPriQueue.push (q.limited pMsg) }
  else { q with messagesList := pMsg :: q.messagesList }

def clearMessage (q : MessageQueue) : MessageQueue :=
  { q with msgPriQueue := MsgHeap.empty, messagesList := [] }

/-! ## Subscribers -/

def addSubscribe (q : MessageQueue) (iCliIndex : Int) (iConfirmLevel : Nat) : MessageQueue :=
  if iCliIndex ∈ q.subscribeConsumers then { q with confirmLevel := iConfirmLevel }
  else
    { q with
      subscribeConsumers := q.subscribeConsumers ++ [iCliIndex]
      confirmLevel := iConfirmLevel }

/-- The erasing loop: the element that moves into an erased place is not looked at. -/
def eraseConsumer (iCliIndex : Int) : List Int → List Int
  | [] => []
  | [c] => if c = iCliIndex then [] else [c]
  | c :: d :: rest =>
    if c = iCliIndex then d :: eraseConsumer iCliIndex rest
    else c :: eraseConsumer iCliIndex (d :: rest)

def cancelSubscribe (q : MessageQueue) (iCliIndex : Int) : MessageQueue :=
  let consumers := eraseConsumer iCliIndex q.subscribeConsumers
  { q with
    subscribeConsumers := consumers
    confirmLevel := if consumers.isEmpty then 0 else q.confirmLevel }

def subcribeFields (q : MessageQueue) (iLen : Nat) (bIsCreate : Bool) : List Field :=
  [writeUShort iLen, writeUShort (if bIsCreate then cmdCreateSubcribe else cmdCancelSubcribe),
    writeString q.queueName, writeByte q.confirmLevel,
    writeUShort q.subscribeConsumers.length] ++ q.subscribeConsumers.map writeInt

/-- No result when the 16-bit length lets the writes run past the buffer. -/
def serializeSubcribeToString (q : MessageQueue) (buf : Mem) (iBuffLen : Int)
    (bIsCreate : Bool) : Option Packed :=
  let iLen := ushort (2 + 2 + maxNameLength + 1 + 2 + q.subscribeConsumers.length * 4)
  if iLen > iBuffLen then some ⟨Message.error, buf, iBuffLen⟩
  else if size (q.subcribeFields iLen bIsCreate) > iBuffLen then none
  else some ⟨Message.success, place buf 0 (q.subcribeFields iLen bIsCreate), iLen⟩

/-! ## What the operations do -/

theorem takeFront_some {q q' : MessageQueue} {m : SeverStoreMessage}
    (h : q.takeFront = some (m, q')) :
    q.messages.Perm (m :: q'.messages) ∧ q'.queueName = q.queueName ∧
      q'.subscribeConsumers = q.subscribeConsumers ∧ q'.autoDel = q.autoDel := by
  unfold takeFront at h
  split at h
  · next pFrontMsg heap hpop =>
    cases h
    exact ⟨(MsgHeap.pop_some hpop).append_right _, rfl, rfl, rfl⟩
  · next hpop =>
    have hempty := MsgHeap.pop_none hpop
    split at h
    · cases h
    · next pFrontMsg rest hlist =>
      cases h
      refine ⟨?_, rfl, rfl, rfl⟩
      simp only [messages, hempty, hlist, List.nil_append]
      exact .refl _

theorem takeFront_none {q : MessageQueue} (h : q.takeFront = none) : q.messages = [] := by
  unfold takeFront at h
  split at h
  · cases h
  · next hpop =>
    split at h
    · next hlist => simp [messages, MsgHeap.pop_none hpop, hlist]
    · cases h

theorem takeFront_confirmLevel {q q' : MessageQueue} {m : SeverStoreMessage}
    (h : q.takeFront = some (m, q')) : q'.confirmLevel = q.confirmLevel := by
  unfold takeFront at h
  split at h
  · cases h
    rfl
  · split at h
    · cases h
    · cases h
      rfl

theorem popFrontMsg_false (q : MessageQueue) : q.popFrontMsg false = q.takeFront := by
  unfold popFrontMsg
  cases q.takeFront with
  | none => rfl
  | some r => rfl

/-- A popped message keeps its identity and all that concerns storage. -/
structure Popped (q : MessageQueue) (m : SeverStoreMessage) (q' : MessageQueue) : Prop where
  perm : (q.messages.map (·.id)).Perm (m.id :: q'.messages.map (·.id))
  queueName : q'.queueName = q.queueName
  consumers : q'.subscribeConsumers = q.subscribeConsumers
  autoDel : q'.autoDel = q.autoDel
  confirmLevel : q'.confirmLevel = q.confirmLevel
  taken : ∃ x ∈ q.messages, ∃ i, m = { x with index := i }
  rest : ∀ x ∈ q'.messages, x ∈ q.messages

theorem popFrontMsg_some {q q' : MessageQueue} {m : SeverStoreMessage} {bPush : Bool}
    (h : q.popFrontMsg bPush = some (m, q')) : Popped q m q' := by
  unfold popFrontMsg at h
  split at h
  · cases h
  · split at h
    · cases h
    · next pFrontMsg q₁ htake =>
      obtain ⟨hperm, hname, hsubs, hauto⟩ := takeFront_some htake
      have hids := hperm.map (·.id)
      have hlevel := takeFront_confirmLevel htake
      have hfront : pFrontMsg ∈ q.messages := hperm.mem_iff.mpr List.mem_cons_self
      have hrest : ∀ x ∈ q₁.messages, x ∈ q.messages :=
        fun x hx => hperm.mem_iff.mpr (List.mem_cons_of_mem _ hx)
      split at h
      · cases h
        exact ⟨hids, hname, hsubs, hauto, hlevel, ⟨_, hfront, _, rfl⟩, hrest⟩
      · cases h
        exact ⟨hids, hname, hsubs, hauto, hlevel, ⟨m, hfront, m.index, rfl⟩, hrest⟩

theorem Popped.length {q q' : MessageQueue} {m : SeverStoreMessage} (h : Popped q m q') :
    q.messages.length = q'.messages.length + 1 := by
  simpa using h.perm.length_eq

theorem limited_id (q : MessageQueue) (m : SeverStoreMessage) : (q.limited m).id = m.id := by
  unfold limited
  split <;> rfl

/-- Adding a message, at whichever end. -/
structure Added (q : MessageQueue) (m : SeverStoreMessage) (q' : MessageQueue) : Prop where
  perm : (q'.messages.map (·.id)).Perm (m.id :: q.messages.map (·.id))
  queueName : q'.queueName = q.queueName
  consumers : q'.subscribeConsumers = q.subscribeConsumers
  autoDel : q'.autoDel = q.autoDel

theorem push_added (q : MessageQueue) (m : SeverStoreMessage) :
    Added q m { q with msgPriQueue := q.msgPriQueue.push (q.limited m) } := by
  refine ⟨?_, rfl, rfl, rfl⟩
  rw [← q.limited_id m]
  exact ((MsgHeap.items_push _ _).append_right _).map _

theorem addMessage_added (q : MessageQueue) (m : SeverStoreMessage) :
    Added q m (q.addMessage m) := by
  unfold addMessage
  split
  · exact push_added q m
  · refine ⟨?_, rfl, rfl, rfl⟩
    simp only [messages, ← List.append_assoc]
    exact (List.perm_append_singleton _ _).map _

theorem addMessageFront_added (q : MessageQueue) (m : SeverStoreMessage) :
    Added q m (q.addMessageFront m) := by
  unfold addMessageFront
  split
  · exact push_added q m
  · exact ⟨List.perm_middle.map _, rfl, rfl, rfl⟩

theorem clearMessage_messages (q : MessageQueue) : q.clearMessage.messages = [] := by
  simp [clearMessage, messages, MsgHeap.items_empty]

theorem addSubscribe_ne_nil (q : MessageQueue) (c : Int) (level : Nat) :
    (q.addSubscribe c level).subscribeConsumers ≠ [] := by
  unfold addSubscribe
  split
  · next h => exact List.ne_nil_of_mem h
  · simp

theorem addSubscribe_keeps (q : MessageQueue) (c : Int) (level : Nat) :
    (q.addSubscribe c level).queueName = q.queueName ∧
      (q.addSubscribe c level).durable = q.durable ∧
        (q.addSubscribe c level).durableIndex = q.durableIndex := by
  unfold addSubscribe
  split
  · exact ⟨rfl, rfl, rfl⟩
  · exact ⟨rfl, rfl, rfl⟩

omit [Platform] in
theorem eraseConsumer_sublist (c : Int) (l : List Int) : (eraseConsumer c l).Sublist l := by
  induction l using eraseConsumer.induct c with
  | case1 => exact .refl _
  | case2 => simp [eraseConsumer]
  | case3 x hx =>
    rw [eraseConsumer, if_neg hx]
  | case4 d rest ih =>
    rw [eraseConsumer, if_pos rfl]
    exact (ih.cons_cons d).cons c
  | case5 x d rest hx ih =>
    rw [eraseConsumer, if_neg hx]
    exact ih.cons_cons x

omit [Platform] in
/-- With no consumer twice, the loop does what it is meant to do. -/
theorem eraseConsumer_of_nodup (c : Int) {l : List Int} (h : l.Nodup) :
    eraseConsumer c l = l.filter (· ≠ c) := by
  induction l using eraseConsumer.induct c with
  | case1 => rfl
  | case2 => simp [eraseConsumer]
  | case3 x hx => simp [eraseConsumer, hx]
  | case4 d rest ih =>
    obtain ⟨hc, hd, hrest⟩ : (¬c = d ∧ c ∉ rest) ∧ d ∉ rest ∧ rest.Nodup := by simpa using h
    rw [eraseConsumer, if_pos rfl, ih hrest]
    simp [Ne.symm hc.1]
  | case5 x d rest hx ih =>
    rw [eraseConsumer, if_neg hx, ih h.of_cons]
    simp [hx]

theorem addSubscribe_nodup {q : MessageQueue} (h : q.subscribeConsumers.Nodup) (c : Int)
    (level : Nat) : (q.addSubscribe c level).subscribeConsumers.Nodup := by
  unfold addSubscribe
  split
  · exact h
  · next hc => exact List.nodup_append.mpr ⟨h, by simp, by grind⟩

/-- Somebody else is subscribed. -/
theorem cancelSubscribe_ne_nil_iff {q : MessageQueue} (h : q.subscribeConsumers.Nodup) (c : Int) :
    (q.cancelSubscribe c).subscribeConsumers ≠ [] ↔ ∃ d ∈ q.subscribeConsumers, d ≠ c := by
  simp [cancelSubscribe, eraseConsumer_of_nodup c h]

omit [Platform] in
/-- Without a removal the list is as it was. -/
theorem eraseConsumer_eq_self {c : Int} {l : List Int}
    (h : ¬ l.length > (eraseConsumer c l).length) : eraseConsumer c l = l :=
  (eraseConsumer_sublist c l).eq_of_length_le (by omega)

end MessageQueue

end Wsmq
