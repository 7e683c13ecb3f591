import Wsmq.Lib.Holdings
import Wsmq.LogicServer.StepEffects

/-!
# What every reachable state keeps

Whatever the channels can hold: bindings lead to queues that are alive, no message copy is in
two places, and no two pending messages have one number.
-/

namespace Wsmq.LogicServer
open Lib Lib.ByteString Lib.Packing Lib.Holdings

section

variable [Platform] {st st' : LogicServer}

/-! ## Bindings -/

omit [Platform] in
/-- What is found for a routing key stands under some key of the exchange. -/
theorem mem_findBindingQueue {e : Exchange} {strRoutingKey : Name} {queue : QueueId}
    (h : queue ∈ (e.findBindingQueue strRoutingKey).2) :
    ∃ k l, e.bindingQueues.lookup k = some l ∧ queue ∈ l := by
  have hentry : ∀ b ∈ e.bindingQueues.entries, queue ∈ b.2 →
      ∃ k l, e.bindingQueues.lookup k = some l ∧ queue ∈ l := fun b hb hin =>
    ⟨b.1, b.2, AList.mem_lookup_iff.mpr hb, hin⟩
  unfold Exchange.findBindingQueue at h
  split at h
  · split at h
    · cases h
    · next l hl => exact ⟨strRoutingKey, l, hl, h⟩
  · split at h
    · split at h
      · cases h
      · obtain ⟨b, hb, hin⟩ := List.mem_flatMap.mp h
        exact hentry b hb hin
    · split at h
      · split at h
        · cases h
        · obtain ⟨b, hb, hin⟩ := List.mem_flatMap.mp h
          exact hentry b (List.mem_of_mem_filter hb) hin
      · cases h

/-- No exchange ever refers to a queue that was deleted. -/
theorem bindings_live {capConnect capPersis : Option Nat} {as : List Step}
    (hrun : run (start capConnect capPersis) as = some st) {n : Name} {e : Exchange}
    (he : st.exchanges.lookup n = some e) :
    (∀ k l, e.bindingQueues.lookup k = some l → ∀ queue ∈ l, (st.queues queue).isSome) ∧
      ∀ strRoutingKey, ∀ queue ∈ (e.findBindingQueue strRoutingKey).2,
        (st.queues queue).isSome := by
  have hlive : ∀ k l, e.bindingQueues.lookup k = some l → ∀ queue ∈ l,
      (st.queues queue).isSome := by
    intro k l hl queue hin
    obtain ⟨i, rfl, hi⟩ := (linked_of_run hrun).exchanges n e he k l hl
    rwa [List.mem_singleton.mp hin]
  refine ⟨hlive, fun key queue hin => ?_⟩
  obtain ⟨k, l, hl, hmem⟩ := mem_findBindingQueue hin
  exact hlive k l hl queue hmem

/-! ## Message copies -/

/-- The copies in a queue object, or in `m_NeedAckMessageList`. -/
def holdings (st : LogicServer) : Option QueueId → Multiset Nat
  | some queue =>
    match st.queues queue with
    | some q => (q.messages.map (·.id) : List Nat)
    | none => 0
  | none => (st.needAckMessageList.map (·.id) : List Nat)

theorem holdings_some {queue : QueueId} {q : MessageQueue} (hq : st.queues queue = some q) :
    st.holdings (some queue) = (q.messages.map (·.id) : List Nat) := by
  simp only [holdings, hq]

theorem holdings_setQueue (st : LogicServer) (queue : QueueId) (q : MessageQueue) :
    (st.setQueue queue q).holdings =
      Function.update st.holdings (some queue) (q.messages.map (·.id) : List Nat) := by
  funext p
  cases p with
  | none => rfl
  | some i =>
    by_cases hi : i = queue
    · subst hi
      rw [Function.update_self]
      exact holdings_some (if_pos rfl)
    · rw [Function.update_of_ne fun h => hi (Option.some.inj h)]
      simp only [holdings, setQueue, if_neg hi]

theorem holdings_freeQueue (st : LogicServer) (queue : QueueId) :
    (st.freeQueue queue).holdings = Function.update st.holdings (some queue) 0 := by
  funext p
  cases p with
  | none => rfl
  | some i =>
    by_cases hi : i = queue
    · subst hi
      rw [Function.update_self]
      simp only [holdings, freeQueue, if_pos]
    · rw [Function.update_of_ne fun h => hi (Option.some.inj h)]
      simp only [holdings, freeQueue, if_neg hi]

theorem holdings_setNeedAck (st : LogicServer) (l : List SeverStoreMessage) :
    (st.setNeedAck l).holdings =
      Function.update st.holdings none (l.map (·.id) : List Nat) := by
  funext p
  cases p with
  | none => rw [Function.update_self, holdings, setNeedAck]
  | some i => rw [Function.update_of_ne (by simp)]; rfl

theorem holdings_same {queue : QueueId} {q q' : MessageQueue} (hq : st.queues queue = some q)
    (hsame : SameObject q q') : (st.setQueue queue q').holdings = st.holdings := by
  rw [holdings_setQueue, hsame.messages, ← holdings_some hq, Function.update_eq_self]

/-- One place or one copy is concerned; only sending takes a single copy out of a queue. -/
theorem transfer_of_effect {k : Kind} (hl : Linked st)
    (hheld : ∀ m, Held st.holdings m → m < st.nextMsg) (he : Effect st k st') :
    Transfer (fun m => m = st.nextMsg ∧ st'.nextMsg = m + 1) (fun p => p = none ∨ k = .sends)
      st.holdings st'.holdings := by
  cases he with
  | channels | producers | rehash | makeExchange | bind | unbind | dropExchange | unsubscribe
  | dropSubcribe | dropUnSubcribe => exact .stay
  | makeQueue q hmessages hsubs =>
    have hnone : st.holdings (some st.nextQueue) = 0 := by
      cases hq : st.queues st.nextQueue with
      | none => simp only [holdings, hq]
      | some q₁ =>
        have hlt := hl.fresh st.nextQueue (Option.isSome_of_eq_some hq)
        exact absurd hlt (Nat.lt_irrefl _)
    have hsame : (st.newQueue q).holdings = st.holdings := by
      refine (holdings_setQueue st st.nextQueue q).trans ?_
      rw [hmessages, List.map_nil, Multiset.coe_nil, ← hnone, Function.update_eq_self]
    rw [hsame]
    exact .stay
  | adjust queue q q' hq hsame =>
    rw [holdings_same hq hsame]
    exact .stay
  | resubscribe n queue q q' hq hsame =>
    rw [holdings_same hq hsame]
    exact .stay
  | subscribe n queue q q' hq hsame =>
    have hset : (((st.setQueue queue q').eraseUnSubcribe n).insertSubcribe n queue).holdings =
        st.holdings := holdings_same hq hsame
    rw [hset]
    exact .stay
  | clear queue q hq =>
    rw [holdings_setQueue, q.clearMessage_messages]
    exact .empty (some queue)
  | free queue =>
    rw [holdings_freeQueue]
    exact .empty (some queue)
  | store p c queue q q' pMsg hq hsame hsubs hid _ =>
    have hadded : ((q'.addMessage pMsg).messages.map (·.id) : Multiset Nat) =
        st.nextMsg ::ₘ st.holdings (some queue) := by
      rw [holdings_some hq, ← hsame.messages, ← hid]
      exact Multiset.coe_eq_coe.mpr (q'.addMessage_added pMsg).perm
    have hset : (st.addMessage p c queue q' pMsg).holdings =
        Function.update st.holdings (some queue) (st.nextMsg ::ₘ st.holdings (some queue)) := by
      rw [← hadded]
      exact holdings_setQueue st queue (q'.addMessage pMsg)
    rw [hset]
    exact .put _ _ ⟨rfl, rfl⟩ fun h => absurd (hheld _ h) (Nat.lt_irrefl _)
  | await queue q q' m m' hq hpop hid hseq _ =>
    have htaken : st.holdings (some queue) = m.id ::ₘ (q'.messages.map (·.id) : List Nat) := by
      rw [holdings_some hq]
      exact Multiset.coe_eq_coe.mpr hpop.perm
    have hadded : ((st.needAckMessageList ++ [m']).map (·.id) : Multiset Nat) =
        m.id ::ₘ st.holdings none := by
      rw [← hid]
      exact Multiset.coe_eq_coe.mpr ((List.perm_append_singleton m' _).map _)
    have hset : ((st.setQueue queue q').pushNeedAck m').holdings =
        Function.update (Function.update st.holdings (some queue)
          (q'.messages.map (·.id) : List Nat)) none (m.id ::ₘ st.holdings none) := by
      rw [← holdings_setQueue, ← hadded]
      exact holdings_setNeedAck (st.setQueue queue q') (st.needAckMessageList ++ [m'])
    rw [hset]
    exact .move _ _ _ _ (Or.inr rfl) htaken (by simp)
  | deliver queue q q' m hq hpop =>
    have htaken : st.holdings (some queue) = m.id ::ₘ (q'.messages.map (·.id) : List Nat) := by
      rw [holdings_some hq]
      exact Multiset.coe_eq_coe.mpr hpop.perm
    have hset : ((st.setQueue queue q').record (.sentNoAck m.id)).holdings =
        Function.update st.holdings (some queue) (q'.messages.map (·.id) : List Nat) :=
      holdings_setQueue st queue q'
    rw [hset]
    exact .take _ _ _ (Or.inr rfl) htaken
  | ack m l iAckSeq hperm =>
    have htaken : st.holdings none = m.id ::ₘ (l.map (·.id) : List Nat) :=
      Multiset.coe_eq_coe.mpr (hperm.map _)
    have hset : ((st.setNeedAck l).record (.acked m.id iAckSeq)).holdings =
        Function.update st.holdings none (l.map (·.id) : List Nat) := holdings_setNeedAck st l
    rw [hset]
    exact .take _ _ _ (Or.inl rfl) htaken
  | giveBack queue q m l hq hperm =>
    have htaken : st.holdings none = m.id ::ₘ (l.map (·.id) : List Nat) :=
      Multiset.coe_eq_coe.mpr (hperm.map _)
    have hadded : ((q.addMessageFront m).messages.map (·.id) : Multiset Nat) =
        m.id ::ₘ st.holdings (some queue) := by
      rw [holdings_some hq]
      exact Multiset.coe_eq_coe.mpr (q.addMessageFront_added m).perm
    have hset : ((st.setQueue queue (q.addMessageFront m)).setNeedAck l).holdings =
        Function.update (Function.update st.holdings none (l.map (·.id) : List Nat))
          (some queue) (m.id ::ₘ st.holdings (some queue)) := by
      rw [← hadded, Function.update_comm (by simp), ← holdings_setQueue]
      exact holdings_setNeedAck _ l
    rw [hset]
    exact .move _ _ _ _ (Or.inl rfl) htaken (by simp)
  | forget m l hperm =>
    have htaken : st.holdings none = m.id ::ₘ (l.map (·.id) : List Nat) :=
      Multiset.coe_eq_coe.mpr (hperm.map _)
    rw [holdings_setNeedAck]
    exact .take _ _ _ (Or.inl rfl) htaken
  | arrange l hperm =>
    have hsame : (l.map (·.id) : Multiset Nat) = st.holdings none :=
      Multiset.coe_eq_coe.mpr (hperm.symm.map _)
    rw [holdings_setNeedAck, hsame, Function.update_eq_self]
    exact .stay

/-- The copies deleted after they were sent or acknowledged. -/
def goneIds (st : LogicServer) : List Nat := st.history.filterMap goneOf

/-- Every copy is in one place, and those deleted are in none. -/
structure OnePlace (st : LogicServer) : Prop where
  single : Single st.holdings
  held_lt : ∀ m, Held st.holdings m → m < st.nextMsg
  gone : ∀ m ∈ st.goneIds, ¬ Held st.holdings m ∧ m < st.nextMsg

theorem nextMsg_of_effect {k : Kind} (he : Effect st k st') : st.nextMsg ≤ st'.nextMsg := by
  cases he with
  | store => exact Nat.le_succ _
  | _ => exact Nat.le_refl _

theorem goneIds_record (st : LogicServer) (e : Event) :
    (st.record e).goneIds = st.goneIds ++ (goneOf e).toList := by
  simp only [goneIds, record, List.filterMap_append]
  cases he : goneOf e <;> simp [he]

/-- What an effect deletes for good, with the copies deleted before. -/
theorem goneIds_of_effect {k : Kind} (ho : OnePlace st) (he : Effect st k st') {m : Nat}
    (hm : m ∈ st'.goneIds) :
    m ∈ st.goneIds ∨ (m < st.nextMsg ∧ ¬ Held st'.holdings m) := by
  cases he with
  | deliver queue q q' x hq hpop =>
    have htaken : st.holdings (some queue) = x.id ::ₘ (q'.messages.map (·.id) : List Nat) := by
      rw [holdings_some hq]
      exact Multiset.coe_eq_coe.mpr hpop.perm
    rw [goneIds_record] at hm
    rcases List.mem_append.mp hm with hm | hm
    · exact Or.inl hm
    · obtain rfl : m = x.id := by simpa [goneOf] using hm
      refine Or.inr ⟨ho.held_lt _ ⟨some queue, htaken ▸ Multiset.mem_cons_self _ _⟩, ?_⟩
      have hset := holdings_setQueue st queue q'
      show ¬ Held (st.setQueue queue q').holdings x.id
      rw [hset]
      exact ho.single.not_held_take htaken
  | ack x l iAckSeq hperm =>
    have htaken : st.holdings none = x.id ::ₘ (l.map (·.id) : List Nat) :=
      Multiset.coe_eq_coe.mpr (hperm.map _)
    rw [goneIds_record] at hm
    rcases List.mem_append.mp hm with hm | hm
    · exact Or.inl hm
    · obtain rfl : m = x.id := by simpa [goneOf] using hm
      refine Or.inr ⟨ho.held_lt _ ⟨none, htaken ▸ Multiset.mem_cons_self _ _⟩, ?_⟩
      show ¬ Held (st.setNeedAck l).holdings x.id
      rw [holdings_setNeedAck]
      exact ho.single.not_held_take htaken
  | makeQueue q =>
    have hrecord := goneIds_record st (.created st.nextQueue q.queueName q.autoDel)
    have hsame : (st.newQueue q).goneIds = st.goneIds ++ [] := hrecord
    rw [hsame, List.append_nil] at hm
    exact Or.inl hm
  | store p c queue q q' pMsg =>
    have hrecord := goneIds_record st (.stored c p.iMsgSeq p.confirmLevel pMsg.id queue)
    have hsame : (st.addMessage p c queue q' pMsg).goneIds = st.goneIds ++ [] := hrecord
    rw [hsame, List.append_nil] at hm
    exact Or.inl hm
  | _ => exact Or.inl hm

/-- A copy that is in no place never comes back. -/
theorem not_held_of_effect {k : Kind} (hl : Linked st) (ho : OnePlace st) (he : Effect st k st')
    {m : Nat} (hlt : m < st.nextMsg) (hm : ¬ Held st.holdings m) :
    ¬ Held st'.holdings m := by
  intro h
  rcases held_of_transfer (transfer_of_effect hl ho.held_lt he) h with hold | ⟨hfresh, _⟩
  · exact hm hold
  · omega

theorem onePlace_of_effect {k : Kind} (hl : Linked st) (ho : OnePlace st)
    (he : Effect st k st') : OnePlace st' := by
  have htransfer := transfer_of_effect hl ho.held_lt he
  have hnext := nextMsg_of_effect he
  refine ⟨single_of_transfer ho.single htransfer, fun m hm => ?_, fun m hm => ?_⟩
  · rcases held_of_transfer htransfer hm with hold | ⟨rfl, hfresh⟩
    · exact Nat.lt_of_lt_of_le (ho.held_lt m hold) hnext
    · omega
  · rcases goneIds_of_effect ho he hm with hold | ⟨hlt, hout⟩
    · obtain ⟨hout, hlt⟩ := ho.gone m hold
      exact ⟨not_held_of_effect hl ho he hlt hout, Nat.lt_of_lt_of_le hlt hnext⟩
    · exact ⟨hout, Nat.lt_of_lt_of_le hlt hnext⟩

/-- Both invariants, so that one induction serves for either. -/
structure Sound (st : LogicServer) : Prop where
  linked : Linked st
  onePlace : OnePlace st

theorem Sound.effects {allowed : Kind → Prop} (h : Sound st) (he : Effects allowed st st') :
    Sound st' := by
  refine he.invariant (fun _ _ _ hi _ he => ?_) h
  exact ⟨linked_of_effect hi.linked he, onePlace_of_effect hi.linked hi.onePlace he⟩

theorem sound_start (capConnect capPersis : Option Nat) : Sound (start capConnect capPersis) := by
  have hnone : ∀ p, (start capConnect capPersis).holdings p = 0 := by
    intro p
    cases p <;> rfl
  have hheld : ∀ m, ¬ Held (start capConnect capPersis).holdings m := by
    rintro m ⟨p, hp⟩
    rw [hnone] at hp
    exact Multiset.notMem_zero m hp
  refine ⟨linked_start _ _, ⟨fun p => ?_, fun p _ m hp => absurd ⟨p, hp⟩ (hheld m)⟩,
    fun m hm => absurd hm (hheld m), fun _ hm => nomatch hm⟩
  rw [hnone]
  exact Multiset.nodup_zero

theorem Sound.step {a : Step} (h : Sound st) (hstep : LogicServer.step st a = some st') :
    Sound st' := h.effects (step_effects h.linked hstep)

theorem Sound.run {as : List Step} (h : Sound st) (hrun : LogicServer.run st as = some st') :
    Sound st' := Runs.invariant_of_step (fun _ _ _ hi hs => hi.step hs) h hrun

/-- A copy that was made is in no place. -/
structure Away (m : Nat) (st : LogicServer) : Prop where
  sound : Sound st
  made : m < st.nextMsg
  out : ¬ Held st.holdings m

theorem Away.effect {k : Kind} {m : Nat} (h : Away m st) (he : Effect st k st') : Away m st' :=
  ⟨⟨linked_of_effect h.sound.linked he, onePlace_of_effect h.sound.linked h.sound.onePlace he⟩,
    Nat.lt_of_lt_of_le h.made (nextMsg_of_effect he),
    not_held_of_effect h.sound.linked h.sound.onePlace he h.made h.out⟩

/-- A copy that has left stays away, whatever comes. -/
theorem Away.run {as : List Step} {m : Nat} (h : Away m st)
    (hrun : LogicServer.run st as = some st') : Away m st' :=
  Runs.invariant_of_step (fun _ _ _ hi hs => (step_effects hi.sound.linked hs).invariant
    (fun _ _ _ hi _ he => hi.effect he) hi) h hrun

/-- A copy is in a queue, or in no place. -/
def InOrAway (queue : QueueId) (m : Nat) (st : LogicServer) : Prop :=
  (Sound st ∧ m ∈ st.holdings (some queue)) ∨ Away m st

/-- A step that sends nothing leaves a stored copy in its queue or deletes it. -/
theorem inOrAway_of_step {a : Step} (h : Sound st) (hstep : LogicServer.step st a = some st')
    (ha : ¬ StepKind a .sends) {queue : QueueId} {m : Nat} (hm : m ∈ st.holdings (some queue)) :
    InOrAway queue m st' := by
  refine (step_effects h.linked hstep).invariant (fun s k t hi hk he => ?_) (Or.inl ⟨h, hm⟩)
  rcases hi with ⟨hsound, hin⟩ | haway
  · have hlt := hsound.onePlace.held_lt m ⟨some queue, hin⟩
    have hsound' : Sound t :=
      ⟨linked_of_effect hsound.linked he, onePlace_of_effect hsound.linked hsound.onePlace he⟩
    have hsource : ¬ ((some queue : Option QueueId) = none ∨ k = .sends) := by
      rintro (hnone | rfl)
      · cases hnone
      · exact ha hk
    rcases mem_or_gone hsound.onePlace.single
        (transfer_of_effect hsound.linked hsound.onePlace.held_lt he) hin hsource with hin | hout
    · exact Or.inl ⟨hsound', hin⟩
    · exact Or.inr ⟨hsound', Nat.lt_of_lt_of_le hlt (nextMsg_of_effect he), hout⟩
  · exact Or.inr (haway.effect he)

/-! ## Acknowledgement numbers -/

/-- The `int` made of the `k`-th number. -/
def seqOf (k : Nat) : Int := ((k % 2 ^ 32 : Nat) : Int).bmod (2 ^ 32)

omit [Platform] in
theorem seqOf_inj {k k' : Nat} (hk : k < 2 ^ 32) (hk' : k' < 2 ^ 32) (h : seqOf k = seqOf k') :
    k = k' := by
  unfold seqOf at h
  rw [Nat.mod_eq_of_lt hk, Nat.mod_eq_of_lt hk'] at h
  have hmod := congrArg (fun x : Int => x % ((2 ^ 32 : Nat) : Int)) h
  simp only [Int.bmod_emod] at hmod
  omega

/-- `drawn` numbers have been given; until the counter wraps, those pending were given once. -/
structure Numbered (drawn : Nat) (st : LogicServer) : Prop where
  ackSeq : st.ackSeq = drawn % 2 ^ 32
  nodup : drawn ≤ 2 ^ 32 → (st.needAckMessageList.map (·.msgSeq)).Nodup
  given : drawn ≤ 2 ^ 32 → ∀ m ∈ st.needAckMessageList, ∃ k < drawn, m.msgSeq = seqOf k

variable {drawn : Nat}

/-- Messages have left the list, or were put in another order. -/
theorem Numbered.settle (h : Numbered drawn st) (gone l : List SeverStoreMessage)
    (hperm : st.needAckMessageList.Perm (gone ++ l)) (hlist : st'.needAckMessageList = l)
    (hseq : st'.ackSeq = st.ackSeq) : Numbered drawn st' := by
  subst hlist
  refine ⟨hseq.trans h.ackSeq, fun hle => ?_, fun hle m hm => ?_⟩
  · have hall := ((hperm.map (·.msgSeq)).nodup_iff).mp (h.nodup hle)
    rw [List.map_append] at hall
    exact hall.of_append_right
  · exact h.given hle m (hperm.mem_iff.mpr (List.mem_append_right _ hm))

/-- A message has been given the next number. -/
theorem Numbered.draw (h : Numbered drawn st) {m : SeverStoreMessage}
    (hm : m.msgSeq = st.ackSeqInt) (hlist : st'.needAckMessageList = st.needAckMessageList ++ [m])
    (hseq : st'.ackSeq = (st.ackSeq + 1) % 2 ^ 32) : Numbered (drawn + 1) st' := by
  have hnumber : m.msgSeq = seqOf drawn := by
    have hcounter : st.ackSeqInt = seqOf drawn := by
      unfold ackSeqInt seqOf
      rw [h.ackSeq]
    exact hm.trans hcounter
  refine ⟨?_, fun hle => ?_, fun hle x hx => ?_⟩
  · rw [hseq, h.ackSeq]
    omega
  · have hold := h.nodup (by omega)
    have hnew : seqOf drawn ∉ st.needAckMessageList.map (·.msgSeq) := by
      intro hin
      obtain ⟨x, hx, hsame⟩ := List.mem_map.mp hin
      obtain ⟨k, hk, hgiven⟩ := h.given (by omega) x hx
      have := seqOf_inj (by omega) (by omega) (hgiven.symm.trans hsame)
      omega
    rw [hlist, List.map_append]
    refine List.nodup_append.mpr ⟨hold, List.nodup_singleton _, ?_⟩
    intro a ha b hb hab
    subst hab
    rw [List.map_singleton, List.mem_singleton, hnumber] at hb
    exact hnew (hb ▸ ha)
  · rw [hlist] at hx
    rcases List.mem_append.mp hx with hx | hx
    · obtain ⟨k, hk, hgiven⟩ := h.given (by omega) x hx
      exact ⟨k, by omega, hgiven⟩
    · rw [List.mem_singleton.mp hx]
      exact ⟨drawn, by omega, hnumber⟩

/-- Sending lengthens the list by one for each number drawn. -/
theorem numbered_of_effect {k : Kind} (h : Numbered drawn st) (he : Effect st k st') :
    (k ≠ .settles → ∃ d, st'.needAckMessageList.length = st.needAckMessageList.length + d ∧
        Numbered (drawn + d) st') ∧
      (k ≠ .sends → st'.needAckMessageList.length ≤ st.needAckMessageList.length ∧
        Numbered drawn st') := by
  cases he with
  | await queue q q' m m' hq hpop hid hseq _ =>
    refine ⟨fun _ => ⟨1, ?_, ?_⟩, fun hne => absurd rfl hne⟩
    · simp [pushNeedAck, setQueue]
    · exact h.draw hseq rfl rfl
  | deliver queue q q' m =>
    exact ⟨fun _ => ⟨0, rfl, h.settle [] _ (.refl _) rfl rfl⟩, fun hne => absurd rfl hne⟩
  | ack m l iAckSeq hperm =>
    refine ⟨fun hne => absurd rfl hne, fun _ => ⟨?_, ?_⟩⟩
    · have hlen := hperm.length_eq
      rw [List.length_cons] at hlen
      show l.length ≤ _
      omega
    · exact h.settle [m] l hperm rfl rfl
  | giveBack queue q m l hq hperm =>
    refine ⟨fun hne => absurd rfl hne, fun _ => ⟨?_, ?_⟩⟩
    · have hlen := hperm.length_eq
      rw [List.length_cons] at hlen
      show l.length ≤ _
      omega
    · exact h.settle [m] l hperm rfl rfl
  | forget m l hperm =>
    refine ⟨fun hne => absurd rfl hne, fun _ => ⟨?_, ?_⟩⟩
    · have hlen := hperm.length_eq
      rw [List.length_cons] at hlen
      show l.length ≤ _
      omega
    · exact h.settle [m] l hperm rfl rfl
  | arrange l hperm =>
    have hlen : l.length = st.needAckMessageList.length := hperm.length_eq.symm
    have hkept : Numbered drawn (st.setNeedAck l) := h.settle [] l hperm rfl rfl
    exact ⟨fun _ => ⟨0, hlen, hkept⟩, fun _ => ⟨Nat.le_of_eq hlen, hkept⟩⟩
  | _ =>
    have hkept : Numbered drawn st := h
    exact ⟨fun _ => ⟨0, rfl, ⟨h.ackSeq, h.nodup, h.given⟩⟩,
      fun _ => ⟨Nat.le_refl _, ⟨h.ackSeq, h.nodup, h.given⟩⟩⟩

/-- The numbers drawn from `m_iAckSeq` along a run.  `PushMessage` and pulling take nothing out
of `m_NeedAckMessageList`, and all other steps add nothing to it. -/
def drawnDuring : LogicServer → List Step → Nat
  | _, [] => 0
  | st, a :: as =>
    match LogicServer.step st a with
    | none => 0
    | some st' =>
      (st'.needAckMessageList.length - st.needAckMessageList.length) + drawnDuring st' as

theorem numbered_of_step {a : Step} (hl : Linked st) (h : Numbered drawn st)
    (hstep : LogicServer.step st a = some st') :
    Numbered (drawn + (st'.needAckMessageList.length - st.needAckMessageList.length)) st' := by
  by_cases ha : StepKind a .sends
  · have hnot : ∀ k, StepKind a k → k ≠ .settles := by
      rintro _ hk rfl
      exact ha.elim hk.1 hk.2
    have hsent : ∃ d, st'.needAckMessageList.length = st.needAckMessageList.length + d ∧
        Numbered (drawn + d) st' := by
      refine @Effects.invariant _ _ _ _
        (fun s => ∃ d, s.needAckMessageList.length = st.needAckMessageList.length + d ∧
          Numbered (drawn + d) s)
        (fun s k t hi hk he => ?_) ⟨0, rfl, h⟩ (step_effects hl hstep)
      obtain ⟨d, hlen, hnumbered⟩ := hi
      obtain ⟨d', hlen', hnumbered'⟩ := (numbered_of_effect hnumbered he).1 (hnot k hk)
      rw [Nat.add_assoc] at hnumbered'
      exact ⟨d + d', by omega, hnumbered'⟩
    obtain ⟨d, hlen, hnumbered⟩ := hsent
    have hd : st'.needAckMessageList.length - st.needAckMessageList.length = d := by omega
    rwa [hd]
  · have hsettled : st'.needAckMessageList.length ≤ st.needAckMessageList.length ∧
        Numbered drawn st' := by
      refine @Effects.invariant _ _ _ _
        (fun s => s.needAckMessageList.length ≤ st.needAckMessageList.length ∧ Numbered drawn s)
        (fun s k t hi hk he => ?_) ⟨Nat.le_refl _, h⟩ (step_effects hl hstep)
      have hne : k ≠ .sends := by
        rintro rfl
        exact ha hk
      obtain ⟨hlen, hnumbered⟩ := (numbered_of_effect hi.2 he).2 hne
      exact ⟨Nat.le_trans hlen hi.1, hnumbered⟩
    have hd : st'.needAckMessageList.length - st.needAckMessageList.length = 0 :=
      Nat.sub_eq_zero_of_le hsettled.1
    rw [hd]
    exact hsettled.2

theorem numbered_of_run {as : List Step} (hl : Linked st) (h : Numbered drawn st)
    (hrun : LogicServer.run st as = some st') :
    Numbered (drawn + st.drawnDuring as) st' := by
  induction as generalizing st drawn with
  | nil =>
    cases hrun
    exact h
  | cons a as ih =>
    obtain ⟨st₁, hstep, hrest⟩ := Runs.run_cons_some hrun
    have hall := ih ((step_effects hl hstep).linked hl) (numbered_of_step hl h hstep) hrest
    simp only [drawnDuring, hstep]
    rwa [← Nat.add_assoc]

/-- The step deletes the copy with `ClearMessage`; only `PushMessage` and pulling take a copy
out of its queue in another way. -/
def Clears (st : LogicServer) (a : Step) (st' : LogicServer) (m : Nat) : Prop :=
  ¬ StepKind a .sends ∧
    ∃ queue, m ∈ st.holdings (some queue) ∧ m ∉ st'.holdings (some queue)

/-- No copy is in two places, none that was deleted is in any, and each pending number belongs
to one message. -/
theorem messages_in_one_place {capConnect capPersis : Option Nat} {as : List Step}
    (hrun : LogicServer.run (start capConnect capPersis) as = some st)
    (hdrawn : (start capConnect capPersis).drawnDuring as < 2 ^ 32) :
    Single st.holdings ∧
      (∀ m ∈ st.goneIds, ¬ Held st.holdings m) ∧
      (∀ pre a post st₁ st₂ m, as = pre ++ a :: post →
        LogicServer.run (start capConnect capPersis) pre = some st₁ →
        LogicServer.step st₁ a = some st₂ → Clears st₁ a st₂ m → ¬ Held st.holdings m) ∧
      (st.needAckMessageList.map (·.msgSeq)).Nodup := by
  have hsound := (sound_start capConnect capPersis).run hrun
  have hstart : Numbered 0 (start capConnect capPersis) :=
    ⟨rfl, fun _ => List.nodup_nil, fun _ m hm => nomatch hm⟩
  have hnumbered := numbered_of_run (linked_start _ _) hstart hrun
  refine ⟨hsound.onePlace.single, fun m hm => (hsound.onePlace.gone m hm).1, ?_,
    hnumbered.nodup (by omega)⟩
  rintro pre a post st₁ st₂ m rfl hpre hstep ⟨hsends, queue, hin, hout⟩
  have hsound₁ := (sound_start capConnect capPersis).run hpre
  obtain ⟨st₁', hpre', hpost⟩ := Runs.run_append_some hrun
  cases hpre.symm.trans hpre'
  obtain ⟨st₂', hstep', hrest⟩ := Runs.run_cons_some hpost
  cases hstep.symm.trans hstep'
  rcases inOrAway_of_step hsound₁ hstep hsends hin with ⟨_, hstays⟩ | haway
  · exact absurd hstays hout
  · exact (haway.run hrest).out

end

section Runs

attribute [local instance] Platform.plain

/-- A message is pulled by client 12, which leaves, and then "q" is deleted. -/
def pullAndDelete : List Step :=
  [.makeQueue 3 false, .makeExchange 3, .makeBinding 3, .publish 3 false 0 0,
    .package (.ofBody cmdCreateRecv 12 (image [writeName (ascii "q"), writeByte 2])
      (by decide)),
    .exit 12,
    .package (.ofBody cmdDeleteQueue 3 (image [writeName (ascii "q")]) Step.length_queueName)]

/-- Client 4 binds the queue "t" to the exchange "f". -/
def otherBound : List Step :=
  [.package (.ofBody cmdCreateQueue 4
      (image [writeName (ascii "t"), writeShort (-1), writeBool false, writeBool false])
      (by decide)),
    .package (.ofBody cmdCreateExcnange 4
      (image [writeName (ascii "f"), writeUShort exchangeTypeDirect, writeBool false,
        writeBool false]) (by decide)),
    .package (.ofBody cmdCreateBinding 4
      (image [writeName (ascii "f"), writeName (ascii "t"), writeName (ascii "j")]) (by decide))]

/-- The queue "q" is gone, and "t" is still bound. -/
theorem bindings_live_afterDeletion :
    ∃ st e, run (start none (some 1000)) (otherBound ++ pullAndDelete) = some st ∧
      (st.queues 1).isNone ∧ st.exchanges.lookup (ascii "f") = some e ∧
      (e.findBindingQueue (ascii "j")).2 = [0] ∧
      ∀ strRoutingKey, ∀ queue ∈ (e.findBindingQueue strRoutingKey).2,
        (st.queues queue).isSome := by
  have hcheck : ((run (start none (some 1000)) (otherBound ++ pullAndDelete)).bind fun st =>
      (st.exchanges.lookup (ascii "f")).map fun e =>
        decide ((st.queues 1).isNone ∧ (e.findBindingQueue (ascii "j")).2 = [0])) =
      some true := by decide +kernel
  obtain ⟨st, hrun, h⟩ := Option.bind_eq_some_iff.mp hcheck
  obtain ⟨e, he, hprops⟩ := Option.map_eq_some_iff.mp h
  obtain ⟨hgone, hbound⟩ := of_decide_eq_true hprops
  exact ⟨st, e, hrun, hgone, he, hbound, (bindings_live hrun he).2⟩

theorem messages_in_one_place_pulled :
    ∃ st, run (start none (some 1000)) (pullAndDelete.take 5) = some st ∧
      st.needAckMessageList.length = 1 ∧ Single st.holdings := by
  have hcheck : (run (start none (some 1000)) (pullAndDelete.take 5)).map (fun st =>
      decide (st.needAckMessageList.length = 1)) = some true := by decide +kernel
  obtain ⟨st, hrun, hlen⟩ := Option.map_eq_some_iff.mp hcheck
  exact ⟨st, hrun, of_decide_eq_true hlen,
    (messages_in_one_place hrun (by decide +kernel)).1⟩

end Runs

end Wsmq.LogicServer
