import Mathlib.Data.Multiset.AddSub
import Mathlib.Data.Multiset.Count
import Mathlib.Data.Multiset.MapFold
import Mathlib.Logic.Relation

/-!
# Brokers of named queues

A broker keeps its queues in two tables, the idle ones and those with consumers,
and hands every stored message from a queue to a consumer.  `Move` lists what a
broker may do in one go; two kinds of moves are labelled, because they take a
queue out of both tables: `delete` on demand and `lose` by accident.

`Registered` holds after any moves.  `Complete` (every queue is in a table) holds
as long as nothing is lost, and `Custody` (a message is in one place) as long as
its queue is neither deleted nor lost.
-/

namespace Lib.Brokers

abbrev Id := Nat

variable {N C : Type}

structure Queue (N C : Type) where
  name : N
  consumers : List C
  autoDelete : Bool
  msgs : Multiset Id

structure Broker (N C : Type) where
  idle : N → Option Id
  active : N → Option Id
  queues : Id → Option (Queue N C)
  /-- Every queue that was ever made, with its name and whether it goes with its
  last consumer. -/
  created : Multiset (Id × N × Bool)
  /-- Messages sent and not acknowledged, with the names of their queues. -/
  awaiting : Multiset (Id × N)
  /-- Messages that have left. -/
  gone : Multiset Id
  /-- Every message that was ever stored, with its queue. -/
  stored : Multiset (Id × Id)
  nextQueue : Id
  nextMsg : Id

namespace Broker

def find (b : Broker N C) (n : N) : Option Id :=
  match b.active n with
  | some id => some id
  | none => b.idle n

/-- The queue object `id` becomes `q`. -/
def setQueue (b : Broker N C) (id : Id) (q : Option (Queue N C)) : Broker N C :=
  { b with queues := Function.update b.queues id q }

end Broker

/-- The messages in the queue `id`. -/
def Broker.held (b : Broker N C) (id : Id) : Multiset Id :=
  match b.queues id with
  | some q => q.msgs
  | none => 0

/-- How often `m` is in the queue, sent and not acknowledged, or gone. -/
def Broker.places (b : Broker N C) (id m : Id) : Nat :=
  (b.held id).count m + (b.awaiting.map Prod.fst).count m + b.gone.count m

/-- The broker before anything was made. -/
def Broker.start : Broker N C where
  idle := fun _ => none
  active := fun _ => none
  queues := fun _ => none
  created := 0
  awaiting := 0
  gone := 0
  stored := 0
  nextQueue := 0
  nextMsg := 0

/-! ## Invariants -/

/-- What is in a table is a live queue of that name, in the right table. -/
structure Registered (b : Broker N C) : Prop where
  active : ∀ n id, b.active n = some id →
    ∃ q, b.queues id = some q ∧ q.name = n ∧ q.consumers ≠ []
  idle : ∀ n id, b.idle n = some id →
    ∃ q, b.queues id = some q ∧ q.name = n ∧ q.consumers = []
  disjoint : ∀ n id, b.active n = some id → b.idle n = none
  fresh : ∀ id q, b.queues id = some q → id < b.nextQueue
  nodup : ∀ id q, b.queues id = some q → q.consumers.Nodup

/-- Every live queue is in a table under its name. -/
def Complete (b : Broker N C) : Prop :=
  ∀ id q, b.queues id = some q → b.active q.name = some id ∨ b.idle q.name = some id

/-- Identities are given once. -/
structure Fresh (b : Broker N C) : Prop where
  queue : ∀ id q, b.queues id = some q → id < b.nextQueue
  created : ∀ x ∈ b.created, x.1 < b.nextQueue
  storedQueue : ∀ x ∈ b.stored, x.2 < b.nextQueue
  stored : ∀ x ∈ b.stored, x.1 < b.nextMsg
  msgs : ∀ id q, b.queues id = some q → ∀ m ∈ q.msgs, m < b.nextMsg
  awaiting : ∀ x ∈ b.awaiting, x.1 < b.nextMsg
  gone : ∀ m ∈ b.gone, m < b.nextMsg

/-- The queue `id`, made under the name `n` to stay, is still there under its name. -/
structure Kept (b : Broker N C) (id : Id) (n : N) : Prop where
  live : ∃ q, b.queues id = some q ∧ q.name = n ∧ q.autoDelete = false
  found : b.find n = some id

/-- The message `m` of the queue `id` is in one place. -/
structure InOnePlace (b : Broker N C) (id : Id) (n : N) (m : Id) : Prop where
  one : b.places id m = 1
  named : ∀ x ∈ b.awaiting, x.1 = m → x.2 = n
  elsewhere : ∀ i, i ≠ id → m ∉ b.held i

/-- What `Move`s keep true of a queue that is neither deleted nor lost. -/
structure Custody (b : Broker N C) (id : Id) : Prop where
  registered : Registered b
  fresh : Fresh b
  kept : ∀ n, (id, n, false) ∈ b.created → Kept b id n
  onePlace : ∀ n, (id, n, false) ∈ b.created → ∀ m, (m, id) ∈ b.stored → InOnePlace b id n m

theorem registered_start : Registered (Broker.start : Broker N C) := by
  constructor <;> simp [Broker.start]

theorem complete_start : Complete (Broker.start : Broker N C) := by
  intro id q hq
  cases hq

theorem custody_start (id : Id) : Custody (Broker.start : Broker N C) id := by
  refine ⟨registered_start, ?_, ?_, ?_⟩
  · constructor <;> simp [Broker.start]
  · simp [Broker.start]
  · simp [Broker.start]

/-! ## Looking up -/

theorem find_eq_some (b : Broker N C) (n : N) (id : Id) :
    b.find n = some id ↔ b.active n = some id ∨ (b.active n = none ∧ b.idle n = some id) := by
  unfold Broker.find
  split
  · next i h => simp [h]
  · next h => simp [h]

theorem find_some {b : Broker N C} (hb : Registered b) {n : N} {id : Id}
    (h : b.find n = some id) : ∃ q, b.queues id = some q ∧ q.name = n := by
  unfold Broker.find at h
  split at h
  · next i ha =>
    cases h
    obtain ⟨q, hq, hn, _⟩ := hb.active n id ha
    exact ⟨q, hq, hn⟩
  · obtain ⟨q, hq, hn, _⟩ := hb.idle n id h
    exact ⟨q, hq, hn⟩

theorem queues_setQueue (b : Broker N C) (i id : Id) (q : Option (Queue N C)) :
    (b.setQueue i q).queues id = if id = i then q else b.queues id :=
  Function.update_apply _ _ _ _

theorem held_setQueue (b : Broker N C) (i id : Id) (q : Option (Queue N C)) :
    (b.setQueue i q).held id = if id = i then (q.map Queue.msgs).getD 0 else b.held id := by
  simp only [Broker.held, Broker.setQueue, Function.update_apply]
  by_cases h : id = i
  · simp only [h, ↓reduceIte]
    cases q <;> rfl
  · simp only [h, ↓reduceIte]

theorem held_of_some {b : Broker N C} {id : Id} {q : Queue N C} (hq : b.queues id = some q) :
    b.held id = q.msgs := by rw [Broker.held, hq]

theorem count_setQueue (b : Broker N C) (i id m : Id) (q : Option (Queue N C)) :
    ((b.setQueue i q).held id).count m =
      if id = i then ((q.map Queue.msgs).getD 0).count m else (b.held id).count m := by
  rw [held_setQueue]
  split <;> rfl

theorem count_of_same_msgs {b : Broker N C} {i : Id} {q q' : Queue N C}
    (hq : b.queues i = some q) (m : Id) (hmsgs : q'.msgs.count m = q.msgs.count m) (id : Id) :
    ((b.setQueue i (some q')).held id).count m = (b.held id).count m := by
  rw [count_setQueue]
  split
  · next h =>
    rw [h, held_of_some hq]
    exact hmsgs
  · rfl

/-- A message `x` is taken out of the queue `i`. -/
theorem count_take {b : Broker N C} {i x : Id} {q : Queue N C} {ms : Multiset Id}
    (hq : b.queues i = some q) (hx : q.msgs = x ::ₘ ms) (j m : Id) :
    ((b.setQueue i (some { q with msgs := ms })).held j).count m +
      (if j = i ∧ m = x then 1 else 0) = (b.held j).count m := by
  rw [count_setQueue]
  by_cases hj : j = i
  · simp [hj, held_of_some hq, hx, Multiset.count_cons]
  · simp [hj]

/-- A message `x` is put into the queue `i`. -/
theorem count_put {b : Broker N C} {i x : Id} {q : Queue N C} (hq : b.queues i = some q)
    (j m : Id) :
    ((b.setQueue i (some { q with msgs := x ::ₘ q.msgs })).held j).count m =
      (b.held j).count m + if j = i ∧ m = x then 1 else 0 := by
  rw [count_setQueue]
  by_cases hj : j = i
  · simp [hj, held_of_some hq, Multiset.count_cons]
  · simp [hj]

theorem Fresh.held_lt {b : Broker N C} (h : Fresh b) {id m : Id} (hm : m ∈ b.held id) :
    m < b.nextMsg := by
  unfold Broker.held at hm
  split at hm
  · next q hq => exact h.msgs id q hq m hm
  · simp at hm

/-- What a move has to leave alone for `m` to stay in one place. -/
theorem InOnePlace.of_places {b b' : Broker N C} {id m : Id} {n : N} (h : InOnePlace b id n m)
    (hone : b'.places id m = b.places id m)
    (hnamed : ∀ x ∈ b'.awaiting, x.1 = m → x ∈ b.awaiting ∨ x.2 = n)
    (helse : ∀ i, i ≠ id → (b'.held i).count m = (b.held i).count m) :
    InOnePlace b' id n m := by
  refine ⟨hone.trans h.one, fun x hx hm => ?_, fun i hi => ?_⟩
  · rcases hnamed x hx hm with hold | hn
    · exact h.named x hold hm
    · exact hn
  · rw [← Multiset.count_eq_zero, helse i hi, Multiset.count_eq_zero]
    exact h.elsewhere i hi

/-- Moves that leave `m` where it is. -/
theorem InOnePlace.stay {b b' : Broker N C} {id m : Id} {n : N} (h : InOnePlace b id n m)
    (hcount : ∀ i, (b'.held i).count m = (b.held i).count m)
    (hawaiting : b'.awaiting = b.awaiting) (hgone : b'.gone = b.gone) :
    InOnePlace b' id n m := by
  refine h.of_places ?_ (fun x hx _ => ?_) fun i _ => hcount i
  · rw [Broker.places, hcount, hawaiting, hgone, Broker.places]
  · rw [hawaiting] at hx
    exact Or.inl hx

/-- A queue that holds `m` is the one it was stored in. -/
theorem InOnePlace.owner {b : Broker N C} {id m i : Id} {n : N} (h : InOnePlace b id n m)
    {ms ms' : Multiset Id} (hheld : b.held i = ms) (hms : ms = m ::ₘ ms') : i = id := by
  by_contra hi
  exact h.elsewhere i hi (by rw [hheld, hms]; exact Multiset.mem_cons_self _ _)

/-- Only the messages of the queue `i` are forgotten. -/
theorem InOnePlace.forget {b b' : Broker N C} {id m i : Id} {n : N} (h : InOnePlace b id n m)
    (hi : i ≠ id) (hheld : b'.held = (b.setQueue i none).held)
    (hawaiting : b'.awaiting = b.awaiting) (hgone : b'.gone = b.gone) :
    InOnePlace b' id n m := by
  have hzero : (b.held i).count m = 0 := Multiset.count_eq_zero.mpr (h.elsewhere i hi)
  refine h.stay (fun j => ?_) hawaiting hgone
  rw [hheld, count_setQueue]
  split
  · next hj => rw [hj, hzero]; rfl
  · rfl

/-- A statement about the live queue `id` after the queue `i` has changed. -/
theorem exists_update (f : Id → Option (Queue N C)) (i id : Id) (q : Option (Queue N C))
    (P : Queue N C → Prop) :
    (∃ r, Function.update f i q id = some r ∧ P r) ↔
      if id = i then ∃ r, q = some r ∧ P r else ∃ r, f id = some r ∧ P r := by
  rw [Function.update_apply]
  split <;> rfl

/-- A new message is in the queue it was stored in, and nowhere else. -/
theorem inOnePlace_of_store {b : Broker N C} {id : Id} {q : Queue N C} (n : N) (hf : Fresh b)
    (hq : b.queues id = some q) :
    InOnePlace { b.setQueue id (some { q with msgs := b.nextMsg ::ₘ q.msgs }) with
      stored := (b.nextMsg, id) ::ₘ b.stored, nextMsg := b.nextMsg + 1 } id n b.nextMsg := by
  have hheld : ∀ i, (b.held i).count b.nextMsg = 0 := fun i =>
    Multiset.count_eq_zero.mpr fun hm => Nat.lt_irrefl _ (hf.held_lt hm)
  have hawait : (b.awaiting.map Prod.fst).count b.nextMsg = 0 := by
    refine Multiset.count_eq_zero.mpr fun hm => ?_
    obtain ⟨x, hx, hxm⟩ := Multiset.mem_map.mp hm
    exact Nat.lt_irrefl _ (hxm ▸ hf.awaiting x hx)
  have hgone : b.gone.count b.nextMsg = 0 :=
    Multiset.count_eq_zero.mpr fun hm => Nat.lt_irrefl _ (hf.gone _ hm)
  have hput := fun j => count_put hq (x := b.nextMsg) j b.nextMsg
  refine ⟨?_, fun x hx hxm => ?_, fun i hi => ?_⟩
  · have := hput id
    simp only [Broker.places, Broker.held, Broker.setQueue] at *
    grind
  · exact absurd (hxm ▸ hf.awaiting x hx) (Nat.lt_irrefl _)
  · have := hput i
    rw [← Multiset.count_eq_zero]
    simp only [Broker.held, Broker.setQueue] at *
    grind

/-- The tables say nothing about the messages of a queue. -/
theorem Registered.setMsgs {b : Broker N C} (hb : Registered b) {id : Id} {q : Queue N C}
    (hq : b.queues id = some q) (ms : Multiset Id) :
    Registered (b.setQueue id (some { q with msgs := ms })) := by
  have hsame : ∀ (P : Queue N C → Prop) i, (∃ r, b.queues i = some r ∧ P r) →
      (∀ r, P r → P { r with msgs := ms }) →
      ∃ r, (b.setQueue id (some { q with msgs := ms })).queues i = some r ∧ P r := by
    rintro P i ⟨r, hr, hP⟩ hkeep
    rw [Broker.setQueue, exists_update]
    split
    · next hi =>
      rw [hi, hq] at hr
      cases hr
      exact ⟨_, rfl, hkeep q hP⟩
    · exact ⟨r, hr, hP⟩
  have hold : ∀ i r, (b.setQueue id (some { q with msgs := ms })).queues i = some r →
      ∃ r', b.queues i = some r' ∧ r.consumers = r'.consumers := by
    intro i r hr
    rw [queues_setQueue] at hr
    split at hr
    · next hi =>
      cases hr
      exact ⟨q, hi ▸ hq, rfl⟩
    · exact ⟨r, hr, rfl⟩
  refine ⟨fun n i h => ?_, fun n i h => ?_, hb.disjoint, fun i r hr => ?_, fun i r hr => ?_⟩
  · exact hsame _ i (hb.active n i h) fun _ hr => hr
  · exact hsame _ i (hb.idle n i h) fun _ hr => hr
  · obtain ⟨r', hr', -⟩ := hold i r hr
    exact hb.fresh i r' hr'
  · obtain ⟨r', hr', hcons⟩ := hold i r hr
    exact hcons ▸ hb.nodup i r' hr'

theorem Fresh.mono {b : Broker N C} (hb : Fresh b) {nextQueue nextMsg : Id}
    (hqueue : b.nextQueue ≤ nextQueue) (hmsg : b.nextMsg ≤ nextMsg) :
    Fresh { b with nextQueue := nextQueue, nextMsg := nextMsg } where
  queue id q hq := (hb.queue id q hq).trans_le hqueue
  created x hx := (hb.created x hx).trans_le hqueue
  storedQueue x hx := (hb.storedQueue x hx).trans_le hqueue
  stored x hx := (hb.stored x hx).trans_le hmsg
  msgs id q hq m hm := (hb.msgs id q hq m hm).trans_le hmsg
  awaiting x hx := (hb.awaiting x hx).trans_le hmsg
  gone m hm := (hb.gone m hm).trans_le hmsg

/-- A queue may get messages that there are. -/
theorem Fresh.setQueue {b : Broker N C} (hb : Fresh b) {id : Id} {q : Option (Queue N C)}
    (hid : id < b.nextQueue) (hmsgs : ∀ q' ∈ q, ∀ m ∈ q'.msgs, m < b.nextMsg) :
    Fresh (b.setQueue id q) := by
  refine ⟨fun i r hr => ?_, hb.created, hb.storedQueue, hb.stored, fun i r hr => ?_, hb.awaiting,
    hb.gone⟩
  all_goals
    rw [queues_setQueue] at hr
    split at hr
  · next hi => exact hi ▸ hid
  · exact hb.queue i r hr
  · exact hmsgs r hr
  · exact hb.msgs i r hr

/-! ## Moves -/

inductive Label
  | keep
  | delete (id : Id)
  | lose (id : Id)

/-- A label under which no queue is taken out of both tables by accident. -/
def Label.Keeps : Label → Prop
  | .lose _ => False
  | _ => True

/-- A label that does not take the queue `id` out of the tables. -/
def Label.Spares (id : Id) : Label → Prop
  | .keep => True
  | .delete i => i ≠ id
  | .lose i => i ≠ id

variable [DecidableEq N]

inductive Move (b : Broker N C) : Label → Broker N C → Prop
  | create (n : N) (autoDelete : Bool) (hi : b.idle n = none) (ha : b.active n = none) :
      Move b .keep
        { b.setQueue b.nextQueue (some ⟨n, [], autoDelete, 0⟩) with
          idle := Function.update b.idle n (some b.nextQueue)
          created := (b.nextQueue, n, autoDelete) ::ₘ b.created
          nextQueue := b.nextQueue + 1 }
  | store (id : Id) (q : Queue N C) (hq : b.queues id = some q) :
      Move b .keep
        { b.setQueue id (some { q with msgs := b.nextMsg ::ₘ q.msgs }) with
          stored := (b.nextMsg, id) ::ₘ b.stored
          nextMsg := b.nextMsg + 1 }
  | subscribe (id : Id) (q : Queue N C) (cs : List C) (hq : b.queues id = some q)
      (hfind : b.find q.name = some id) (hcs : cs ≠ []) (hnd : cs.Nodup) :
      Move b .keep
        { b.setQueue id (some { q with consumers := cs }) with
          idle := Function.update b.idle q.name none
          active := Function.update b.active q.name (some id) }
  | leave (id : Id) (q : Queue N C) (cs : List C) (hq : b.queues id = some q)
      (hactive : b.active q.name = some id) (hcs : cs ≠ []) (hnd : cs.Nodup) :
      Move b .keep (b.setQueue id (some { q with consumers := cs }))
  | unsubscribe (id : Id) (q : Queue N C) (hq : b.queues id = some q)
      (hactive : b.active q.name = some id) :
      Move b .keep
        { b.setQueue id (some { q with consumers := [] }) with
          active := Function.update b.active q.name none
          idle := Function.update b.idle q.name (some id) }
  | autoDelete (id : Id) (q : Queue N C) (hq : b.queues id = some q)
      (hauto : q.autoDelete = true) (hactive : b.active q.name = some id) :
      Move b .keep
        { b.setQueue id none with active := Function.update b.active q.name none }
  | delete (id : Id) (q : Queue N C) (hq : b.queues id = some q)
      (hfind : b.find q.name = some id) :
      Move b (.delete id)
        { b.setQueue id none with
          active := Function.update b.active q.name none
          idle := Function.update b.idle q.name none }
  | deliver (id : Id) (q : Queue N C) (m : Id) (ms : Multiset Id) (hq : b.queues id = some q)
      (hm : q.msgs = m ::ₘ ms) :
      Move b .keep { b.setQueue id (some { q with msgs := ms }) with gone := m ::ₘ b.gone }
  | await (id : Id) (q : Queue N C) (m : Id) (ms : Multiset Id) (hq : b.queues id = some q)
      (hm : q.msgs = m ::ₘ ms) :
      Move b .keep
        { b.setQueue id (some { q with msgs := ms }) with
          awaiting := (m, q.name) ::ₘ b.awaiting }
  | ack (m : Id) (n : N) (rest : Multiset (Id × N)) (hm : b.awaiting = (m, n) ::ₘ rest) :
      Move b .keep { b with awaiting := rest, gone := m ::ₘ b.gone }
  | giveBack (m : Id) (n : N) (rest : Multiset (Id × N)) (id : Id) (q : Queue N C)
      (hm : b.awaiting = (m, n) ::ₘ rest) (hfind : b.find n = some id)
      (hq : b.queues id = some q) :
      Move b .keep
        { b.setQueue id (some { q with msgs := m ::ₘ q.msgs }) with awaiting := rest }
  | drop (m : Id) (n : N) (rest : Multiset (Id × N)) (hm : b.awaiting = (m, n) ::ₘ rest)
      (hfind : b.find n = none) : Move b .keep { b with awaiting := rest }
  | lose (id : Id) (q : Queue N C) (cs : List C) (hq : b.queues id = some q)
      (hactive : b.active q.name = some id) (hcs : cs ≠ []) (hnd : cs.Nodup) :
      Move b (.lose id)
        { b.setQueue id (some { q with consumers := cs }) with
          active := Function.update b.active q.name none }

/-- Moves with allowed labels, one after the other. -/
def Moves (allowed : Label → Prop) : Broker N C → Broker N C → Prop :=
  Relation.ReflTransGen fun b b' => ∃ l, allowed l ∧ Move b l b'

theorem Moves.single {allowed : Label → Prop} {b b' : Broker N C} {l : Label} (hl : allowed l)
    (h : Move b l b') : Moves allowed b b' :=
  Relation.ReflTransGen.single ⟨l, hl, h⟩

theorem Moves.refl (allowed : Label → Prop) (b : Broker N C) : Moves allowed b b :=
  Relation.ReflTransGen.refl

theorem Moves.trans {allowed : Label → Prop} {b c d : Broker N C} (h : Moves allowed b c)
    (h' : Moves allowed c d) : Moves allowed b d := Relation.ReflTransGen.trans h h'

theorem Moves.mono {allowed allowed' : Label → Prop} (hsub : ∀ l, allowed l → allowed' l)
    {b b' : Broker N C} (h : Moves allowed b b') : Moves allowed' b b' := by
  induction h with
  | refl => exact Moves.refl _ _
  | tail _ hlast ih =>
    obtain ⟨l, hl, hm⟩ := hlast
    exact ih.trans (Moves.single (hsub l hl) hm)

/-- The rule for invariants of moves. -/
theorem Moves.invariant {allowed : Label → Prop} {inv : Broker N C → Prop}
    (hmove : ∀ b l b', inv b → allowed l → Move b l b' → inv b') {b b' : Broker N C}
    (hb : inv b) (h : Moves allowed b b') : inv b' := by
  induction h with
  | refl => exact hb
  | tail _ hlast ih =>
    obtain ⟨l, hl, hm⟩ := hlast
    exact hmove _ l _ ih hl hm

/-! ## Moves keep the tables in order -/

theorem registered_of_move {b b' : Broker N C} {l : Label} (hb : Registered b)
    (h : Move b l b') : Registered b' := by
  have hfind : ∀ n i, b.find n = some i → ∃ q, b.queues i = some q ∧ q.name = n := fun _ _ =>
    find_some hb
  cases h with
  | ack | drop => exact ⟨hb.active, hb.idle, hb.disjoint, hb.fresh, hb.nodup⟩
  | store id q hq | deliver id q m ms hq | await id q m ms hq | giveBack m n rest id q hm hn hq =>
    have hset := hb.setMsgs hq
    exact ⟨(hset _).active, (hset _).idle, hb.disjoint, (hset _).fresh, (hset _).nodup⟩
  | create | subscribe | leave | unsubscribe | autoDelete | delete | lose =>
    obtain ⟨hactive, hidle, hdisj, hfresh, hnodup⟩ := hb
    constructor <;> simp only [Broker.setQueue, exists_update] <;>
      simp -failIfUnchanged only [Function.update_apply, Option.some.injEq, exists_eq_left'] <;>
      grind

theorem complete_of_move {b b' : Broker N C} {l : Label} (hb : Registered b)
    (hc : Complete b) (hl : l.Keeps) (h : Move b l b') : Complete b' := by
  obtain ⟨hactive, hidle, hdisj, hfresh, -⟩ := hb
  unfold Complete at hc ⊢
  cases h with
  | lose => exact absurd hl id
  | ack | drop => exact hc
  | create | store | subscribe | leave | unsubscribe | autoDelete | delete | deliver | await
  | giveBack =>
    simp only [Broker.setQueue, Function.update_apply]
    grind [Broker.find]

/-- A lost queue is alive and in neither table. -/
theorem not_complete_of_lose {b b' : Broker N C} {id : Id} (hb : Registered b)
    (h : Move b (.lose id) b') : ¬ Complete b' := by
  intro hc
  cases h with
  | lose _ q cs hq hactive hcs hnd =>
    have hidle := hb.disjoint q.name id hactive
    have hlive : (b.setQueue id (some { q with consumers := cs })).queues id =
        some { q with consumers := cs } := by simp [Broker.setQueue]
    have := hc id { q with consumers := cs } (by simpa using hlive)
    simp [Broker.setQueue, hidle] at this

/-! ## Moves keep messages -/

theorem fresh_of_move {b b' : Broker N C} {l : Label} (hb : Fresh b) (h : Move b l b') :
    Fresh b' := by
  have hset : ∀ {id : Id} {q q' : Queue N C}, b.queues id = some q →
      (∀ m ∈ q'.msgs, m < b.nextMsg) → Fresh (b.setQueue id (some q')) := fun hq hmsgs =>
    hb.setQueue (hb.queue _ _ hq) fun _ h => Option.some_inj.mp h ▸ hmsgs
  have hclear : ∀ {id : Id} {q : Queue N C}, b.queues id = some q →
      Fresh (b.setQueue id none) := fun hq =>
    hb.setQueue (hb.queue _ _ hq) fun _ h => nomatch h
  cases h with
  | create n autoDelete hi ha =>
    have hnew : Fresh (Broker.setQueue { b with nextQueue := b.nextQueue + 1 } b.nextQueue
        (some ⟨n, [], autoDelete, 0⟩)) := by
      refine (hb.mono (Nat.le_succ _) (Nat.le_refl _)).setQueue (Nat.lt_succ_self _) ?_
      rintro _ ⟨⟩ m hm
      exact absurd hm (Multiset.notMem_zero m)
    exact ⟨hnew.queue, Multiset.forall_mem_cons.mpr ⟨Nat.lt_succ_self _, hnew.created⟩,
      hnew.storedQueue, hnew.stored, hnew.msgs, hnew.awaiting, hnew.gone⟩
  | store id q hq =>
    have hid := hb.queue id q hq
    have hnew : Fresh (Broker.setQueue { b with nextMsg := b.nextMsg + 1 } id
        (some { q with msgs := b.nextMsg ::ₘ q.msgs })) := by
      refine (hb.mono (Nat.le_refl _) (Nat.le_succ _)).setQueue hid ?_
      rintro _ ⟨⟩
      exact Multiset.forall_mem_cons.mpr ⟨Nat.lt_succ_self _, fun m hm =>
        Nat.lt_succ_of_lt (hb.msgs id q hq m hm)⟩
    exact ⟨hnew.queue, hnew.created, Multiset.forall_mem_cons.mpr ⟨hid, hnew.storedQueue⟩,
      Multiset.forall_mem_cons.mpr ⟨Nat.lt_succ_self _, hnew.stored⟩, hnew.msgs, hnew.awaiting,
      hnew.gone⟩
  | subscribe id q cs hq | leave id q cs hq | unsubscribe id q hq | lose id q cs hq =>
    have hsame := fun cs => @hset id q { q with consumers := cs } hq (hb.msgs id q hq)
    exact ⟨(hsame _).queue, hb.created, hb.storedQueue, hb.stored, (hsame _).msgs, hb.awaiting,
      hb.gone⟩
  | autoDelete id q hq | delete id q hq =>
    exact ⟨(hclear hq).queue, hb.created, hb.storedQueue, hb.stored, (hclear hq).msgs,
      hb.awaiting, hb.gone⟩
  | deliver id q m ms hq hm =>
    obtain ⟨hlt, hms⟩ := Multiset.forall_mem_cons.mp (hm ▸ hb.msgs id q hq)
    have htake := @hset id q { q with msgs := ms } hq hms
    exact ⟨htake.queue, hb.created, hb.storedQueue, hb.stored, htake.msgs, hb.awaiting,
      Multiset.forall_mem_cons.mpr ⟨hlt, hb.gone⟩⟩
  | await id q m ms hq hm =>
    obtain ⟨hlt, hms⟩ := Multiset.forall_mem_cons.mp (hm ▸ hb.msgs id q hq)
    have htake := @hset id q { q with msgs := ms } hq hms
    exact ⟨htake.queue, hb.created, hb.storedQueue, hb.stored, htake.msgs,
      Multiset.forall_mem_cons.mpr ⟨hlt, hb.awaiting⟩, hb.gone⟩
  | ack m n rest hm =>
    obtain ⟨hlt, hrest⟩ := Multiset.forall_mem_cons.mp (hm ▸ hb.awaiting)
    exact ⟨hb.queue, hb.created, hb.storedQueue, hb.stored, hb.msgs, hrest,
      Multiset.forall_mem_cons.mpr ⟨hlt, hb.gone⟩⟩
  | giveBack m n rest id q hm hfind hq =>
    obtain ⟨hlt, hrest⟩ := Multiset.forall_mem_cons.mp (hm ▸ hb.awaiting)
    have hput := @hset id q { q with msgs := m ::ₘ q.msgs } hq
      (Multiset.forall_mem_cons.mpr ⟨hlt, hb.msgs id q hq⟩)
    exact ⟨hput.queue, hb.created, hb.storedQueue, hb.stored, hput.msgs, hrest, hb.gone⟩
  | drop m n rest hm =>
    obtain ⟨-, hrest⟩ := Multiset.forall_mem_cons.mp (hm ▸ hb.awaiting)
    exact ⟨hb.queue, hb.created, hb.storedQueue, hb.stored, hb.msgs, hrest, hb.gone⟩

theorem kept_of_move {b b' : Broker N C} {l : Label} {id : Id} {n : N} (hb : Registered b)
    (hk : Kept b id n) (hl : l.Spares id) (h : Move b l b') : Kept b' id n := by
  obtain ⟨⟨q₀, hq₀, hn₀, hauto₀⟩, hfound⟩ := hk
  obtain ⟨hactive, hidle, hdisj, hfresh, -⟩ := hb
  cases h with
  | ack | drop => exact ⟨⟨q₀, hq₀, hn₀, hauto₀⟩, hfound⟩
  | create | store | subscribe | leave | unsubscribe | autoDelete | delete | deliver | await
  | giveBack | lose =>
    constructor <;> simp only [Broker.setQueue, exists_update] <;>
      simp only [find_eq_some, Label.Spares, Function.update_apply] at * <;> grind

/-- A message that was stored before the move stays in one place. -/
theorem inOnePlace_of_move {b b' : Broker N C} {l : Label} {id m : Id} {n : N}
    (hf : Fresh b) (hk : Kept b id n) (hm : m < b.nextMsg) (hone : InOnePlace b id n m)
    (hl : l.Spares id) (h : Move b l b') : InOnePlace b' id n m := by
  obtain ⟨⟨q₀, hq₀, hn₀, hauto₀⟩, hfound⟩ := hk
  cases h with
  | create n' autoDelete hi ha =>
    have hnew : b.held b.nextQueue = 0 := by
      cases hq : b.queues b.nextQueue with
      | none => rw [Broker.held, hq]
      | some q => exact absurd (hf.queue _ q hq) (Nat.lt_irrefl _)
    refine hone.stay (fun i => ?_) rfl rfl
    refine (count_setQueue b b.nextQueue i m _).trans ?_
    split
    · next h => rw [h, hnew]; rfl
    · rfl
  | store i q hq =>
    have hne : m ≠ b.nextMsg := Nat.ne_of_lt hm
    exact hone.stay (count_of_same_msgs hq m (Multiset.count_cons_of_ne hne _)) rfl rfl
  | subscribe i q cs hq | leave i q cs hq | unsubscribe i q hq | lose i q cs hq =>
    exact hone.stay (count_of_same_msgs hq m rfl) rfl rfl
  | autoDelete i q hq hauto ha =>
    have hi : i ≠ id := by
      rintro rfl
      rw [hq₀] at hq
      cases hq
      rw [hauto₀] at hauto
      cases hauto
    exact hone.forget hi rfl rfl rfl
  | delete i q hq hfind => exact hone.forget hl rfl rfl rfl
  | deliver i q x ms hq hx =>
    have htake := fun j => count_take hq hx j m
    have hi : m = x → i = id := fun e => hone.owner (held_of_some hq) (e ▸ hx)
    have hgone : (x ::ₘ b.gone).count m = b.gone.count m + if m = x then 1 else 0 :=
      Multiset.count_cons _ _ _
    refine hone.of_places ?_ (fun y hy _ => Or.inl hy) fun j hj => ?_
    · have := htake id
      simp only [Broker.places, Broker.held, Broker.setQueue] at *
      grind
    · have := htake j
      simp only [Broker.held, Broker.setQueue] at *
      grind
  | await i q x ms hq hx =>
    have htake := fun j => count_take hq hx j m
    have hi : m = x → i = id := fun e => hone.owner (held_of_some hq) (e ▸ hx)
    have hawait : (((x, q.name) ::ₘ b.awaiting).map Prod.fst).count m =
        (b.awaiting.map Prod.fst).count m + if m = x then 1 else 0 := by
      rw [Multiset.map_cons, Multiset.count_cons]
    refine hone.of_places ?_ (fun y hy hym => ?_) fun j hj => ?_
    · have := htake id
      simp only [Broker.places, Broker.held, Broker.setQueue] at *
      grind
    · rcases Multiset.mem_cons.mp hy with rfl | hy
      · right
        have := hi hym.symm
        grind
      · exact Or.inl hy
    · have := htake j
      simp only [Broker.held, Broker.setQueue] at *
      grind
  | ack x n' rest hx =>
    have hawait : (b.awaiting.map Prod.fst).count m =
        (rest.map Prod.fst).count m + if m = x then 1 else 0 := by
      rw [hx, Multiset.map_cons, Multiset.count_cons]
    have hgone : (x ::ₘ b.gone).count m = b.gone.count m + if m = x then 1 else 0 :=
      Multiset.count_cons _ _ _
    refine hone.of_places ?_ (fun y hy _ => Or.inl ?_) fun j _ => rfl
    · simp only [Broker.places, Broker.held, hawait, hgone]
      omega
    · rw [hx]
      exact Multiset.mem_cons_of_mem hy
  | giveBack x n' rest i q hx hfind hq =>
    have hput := fun j => count_put hq (x := x) j m
    have hawait : (b.awaiting.map Prod.fst).count m =
        (rest.map Prod.fst).count m + if m = x then 1 else 0 := by
      rw [hx, Multiset.map_cons, Multiset.count_cons]
    have hi : m = x → i = id := by
      intro e
      have hn := hone.named (x, n') (hx ▸ Multiset.mem_cons_self _ _) e.symm
      rw [← hn, hfind] at hfound
      exact Option.some.inj hfound
    refine hone.of_places ?_ (fun y hy _ => Or.inl ?_) fun j hj => ?_
    · have := hput id
      simp only [Broker.places, Broker.held, Broker.setQueue] at *
      grind
    · rw [hx]
      exact Multiset.mem_cons_of_mem hy
    · have := hput j
      simp only [Broker.held, Broker.setQueue] at *
      grind
  | drop x n' rest hx hfind =>
    have hne : m ≠ x := by
      intro e
      have hn := hone.named (x, n') (hx ▸ Multiset.mem_cons_self _ _) e.symm
      rw [← hn, hfind] at hfound
      cases hfound
    have hawait : (b.awaiting.map Prod.fst).count m = (rest.map Prod.fst).count m := by
      rw [hx, Multiset.map_cons, Multiset.count_cons_of_ne hne]
    refine hone.of_places ?_ (fun y hy _ => Or.inl ?_) fun j _ => rfl
    · simp only [Broker.places, Broker.held, hawait]
    · rw [hx]
      exact Multiset.mem_cons_of_mem hy

/-- Tables and history that a move does not create anything in. -/
theorem Custody.of_same_history {b b' : Broker N C} {l : Label} {id : Id} (hb : Custody b id)
    (hl : l.Spares id) (h : Move b l b') (hcreated : b'.created = b.created)
    (hstored : b'.stored = b.stored) : Custody b' id := by
  have hkept : ∀ n, (id, n, false) ∈ b'.created → Kept b id n := fun n hn =>
    hb.kept n (hcreated ▸ hn)
  refine ⟨registered_of_move hb.registered h, fresh_of_move hb.fresh h,
    fun n hn => kept_of_move hb.registered (hkept n hn) hl h, fun n hn m hm => ?_⟩
  rw [hcreated] at hn
  rw [hstored] at hm
  exact inOnePlace_of_move hb.fresh (hb.kept n hn) (hb.fresh.stored _ hm)
    (hb.onePlace n hn m hm) hl h

theorem custody_of_move {b b' : Broker N C} {l : Label} {id : Id} (hb : Custody b id)
    (hl : l.Spares id) (h : Move b l b') : Custody b' id := by
  have hmove := h
  cases h with
  | create n' autoDelete hi ha =>
    refine ⟨registered_of_move hb.registered hmove, fresh_of_move hb.fresh hmove, ?_, ?_⟩
    · intro n hn
      rcases Multiset.mem_cons.mp hn with he | hold
      · cases he
        exact ⟨⟨_, Function.update_self _ _ _, rfl, rfl⟩, by simp [find_eq_some, ha, Broker.setQueue]⟩
      · exact kept_of_move hb.registered (hb.kept n hold) hl hmove
    · intro n hn m hm
      rcases Multiset.mem_cons.mp hn with he | hold
      · cases he
        exact absurd (hb.fresh.storedQueue _ hm) (Nat.lt_irrefl _)
      · exact inOnePlace_of_move hb.fresh (hb.kept n hold) (hb.fresh.stored _ hm)
          (hb.onePlace n hold m hm) hl hmove
  | store i q hq =>
    refine ⟨registered_of_move hb.registered hmove, fresh_of_move hb.fresh hmove, ?_, ?_⟩
    · exact fun n hn => kept_of_move hb.registered (hb.kept n hn) hl hmove
    · intro n hn m hm
      rcases Multiset.mem_cons.mp hm with he | hold
      · cases he
        exact inOnePlace_of_store n hb.fresh hq
      · exact inOnePlace_of_move hb.fresh (hb.kept n hn) (hb.fresh.stored _ hold)
          (hb.onePlace n hn m hold) hl hmove
  | subscribe | leave | unsubscribe | autoDelete | delete | deliver | await | ack | giveBack
  | drop | lose => exact hb.of_same_history hl hmove rfl rfl

end Lib.Brokers
