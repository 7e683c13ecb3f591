import Wsmq.Bindings
import Wsmq.LogicServer.Dedup
import Wsmq.LogicServer.StepEffects

/-!
# Copies of a published message

`FindBindingQueue` collects queues key by key.  A queue that stands under several of the keys
it selects is in the list as often, and gets a copy each time.
-/

namespace Wsmq
open Lib Lib.ByteString Lib.Packing

namespace Exchange

/-- The type of the exchange lets the binding pass. -/
def Selects (e : Exchange) (strRoutingKey strBindingKey : Name) : Prop :=
  (e.exchangeType = exchangeTypeDirect ∧ strBindingKey = strRoutingKey) ∨
    e.exchangeType = exchangeTypeFanout ∨
    (e.exchangeType = exchangeTypeTopic ∧ isFit strRoutingKey strBindingKey = true)

instance (e : Exchange) (r k : Name) : Decidable (e.Selects r k) :=
  inferInstanceAs (Decidable (_ ∨ _ ∨ _))

variable {e : Exchange} {r k : Name} {id : QueueId}

theorem selects_direct (h : e.exchangeType = exchangeTypeDirect) : e.Selects r k ↔ k = r := by
  simp [Selects, h, exchangeTypeDirect, exchangeTypeFanout, exchangeTypeTopic]

theorem selects_fanout (h : e.exchangeType = exchangeTypeFanout) : e.Selects r k :=
  Or.inr (Or.inl h)

theorem selects_topic (h : e.exchangeType = exchangeTypeTopic) :
    e.Selects r k ↔ isFit r k = true := by
  simp [Selects, h, exchangeTypeDirect, exchangeTypeFanout, exchangeTypeTopic]

/-- The list is put together from the selected keys. -/
theorem findBindingQueue_eq (e : Exchange) (r : Name) :
    (e.findBindingQueue r).2 =
      (e.bindingQueues.entries.filter fun b => e.Selects r b.1).flatMap fun b => b.2 := by
  have hsize : e.getBindingSize = 0 → e.bindingQueues.entries = [] := by
    rw [getBindingSize, AList.keys, List.keys, List.length_map]
    exact List.length_eq_zero_iff.mp
  unfold findBindingQueue
  split
  · next hdirect =>
    simp only [selects_direct hdirect]
    rw [AssocTables.filter_key _ e.bindingQueues.nodupKeys]
    cases hl : e.bindingQueues.lookup r with
    | none =>
      have hnone : e.bindingQueues.entries.dlookup r = none := hl
      rw [hnone]
      rfl
    | some l =>
      have hsome : e.bindingQueues.entries.dlookup r = some l := hl
      rw [hsome]
      exact (List.append_nil l).symm
  · split
    · next hfanout =>
      have hall : (e.bindingQueues.entries.filter fun b => e.Selects r b.1) =
          e.bindingQueues.entries :=
        List.filter_eq_self.mpr fun b _ => decide_eq_true (selects_fanout hfanout)
      rw [hall]
      split
      · next hzero =>
        rw [hsize hzero]
        rfl
      · rfl
    · split
      · next htopic =>
        simp only [selects_topic htopic, Bool.decide_eq_true]
        split
        · next hzero =>
          rw [hsize hzero]
          rfl
        · rfl
      · next hdirect hfanout htopic =>
        have hnone : (e.bindingQueues.entries.filter fun b => e.Selects r b.1) = [] := by
          refine List.filter_eq_nil_iff.mpr fun b _ => ?_
          simp [Selects, hdirect, hfanout, htopic]
        rw [hnone]
        rfl

theorem mem_findBindingQueue : id ∈ (e.findBindingQueue r).2 ↔
    ∃ k l, e.bindingQueues.lookup k = some l ∧ id ∈ l ∧ e.Selects r k := by
  rw [findBindingQueue_eq, List.mem_flatMap]
  constructor
  · rintro ⟨b, hb, hid⟩
    obtain ⟨hin, hselects⟩ := List.mem_filter.mp hb
    exact ⟨b.1, b.2, AList.mem_lookup_iff.mpr hin, hid, of_decide_eq_true hselects⟩
  · rintro ⟨k, l, hl, hid, hselects⟩
    refine ⟨⟨k, l⟩, List.mem_filter.mpr ⟨AList.mem_lookup_iff.mp hl, ?_⟩, hid⟩
    exact decide_eq_true hselects

/-- With one queue a key, a queue is in the list twice when it stands under two keys. -/
theorem nodup_findBindingQueue
    (h : ∀ k l, e.bindingQueues.lookup k = some l → ∃ id, l = [id]) :
    (e.findBindingQueue r).2.Nodup ↔
      ∀ id k l k' l', e.bindingQueues.lookup k = some l → id ∈ l → e.Selects r k →
        e.bindingQueues.lookup k' = some l' → id ∈ l' → e.Selects r k' → k = k' := by
  let fl := e.bindingQueues.entries.filter fun b => e.Selects r b.1
  have hfl : ∀ b, b ∈ fl ↔ e.bindingQueues.lookup b.1 = some b.2 ∧ e.Selects r b.1 := fun b => by
    rw [List.mem_filter, decide_eq_true_iff]
    exact and_congr_left' AList.mem_lookup_iff.symm
  rw [findBindingQueue_eq, List.nodup_flatMap]
  constructor
  · rintro ⟨_, hdisjoint⟩ id k l k' l' hl hid hk hl' hid' hk'
    by_contra hne
    have hpair : List.Disjoint l l' := by
      have hsymm : Std.Symm (Function.onFun List.Disjoint fun b : Σ _ : Name, List QueueId => b.2) :=
        ⟨fun _ _ hab _ ha hb => hab hb ha⟩
      refine hdisjoint.forall ((hfl ⟨k, l⟩).mpr ⟨hl, hk⟩) ((hfl ⟨k', l'⟩).mpr ⟨hl', hk'⟩) ?_
      intro hsame
      exact hne (congrArg Sigma.fst hsame)
    exact hpair hid hid'
  · intro hsole
    refine ⟨fun b hb => ?_, ?_⟩
    · obtain ⟨id, hid⟩ := h b.1 b.2 ((hfl b).mp hb).1
      rw [hid]
      exact List.nodup_singleton _
    · have hnodup : fl.Nodup := e.bindingQueues.nodupKeys.nodup.filter _
      refine hnodup.pairwise_of_forall_ne fun b hb b' hb' hne id hid hid' => hne ?_
      obtain ⟨hl, hk⟩ := (hfl b).mp hb
      obtain ⟨hl', hk'⟩ := (hfl b').mp hb'
      obtain ⟨k, l⟩ := b
      obtain ⟨k', l'⟩ := b'
      obtain rfl : k = k' := hsole id k l k' l' hl hid hk hl' hid' hk'
      cases hl.symm.trans hl'
      rfl

end Exchange

namespace LogicServer

section Copies

variable [Platform] {st st' : LogicServer} {p : Publish} {c : Int} {id : QueueId}

/-- The messages of `q`, and `n` copies of what was published. -/
def Copies (p : Publish) (n : Nat) (q q' : MessageQueue) : Prop :=
  ∃ copies : List SeverStoreMessage, copies.length = n ∧
    q'.messages.Perm (copies ++ q.messages) ∧
      ∀ m ∈ copies, m.msgBody = p.body ∧ m.durable = p.bDurable

/-- The queue is bound under a key that the exchange selects. -/
def Reaches (st : LogicServer) (p : Publish) (id : QueueId) : Prop :=
  ∃ e k l, st.exchanges.lookup p.strExchangeName = some e ∧ e.bindingQueues.lookup k = some l ∧
    id ∈ l ∧ e.Selects p.strRoutingKey k

/-- Each queue that the publish reaches gets one copy, and no other queue gets one. -/
def OneCopyEach (st : LogicServer) (buf : Mem) (iLen : Nat) (c : Int) (p : Publish) : Prop :=
  ∃ o, st.onPublishMessage buf iLen c = some o ∧ ∀ id q, st.queues id = some q →
    ∃ q', o.server.queues id = some q' ∧
      (Reaches st p id → Copies p 1 q q') ∧ (¬ Reaches st p id → Copies p 0 q q')

/-- No queue is bound under two of the selected keys. -/
def Sole (st : LogicServer) (p : Publish) : Prop :=
  ∀ e, st.exchanges.lookup p.strExchangeName = some e →
    ∀ id k l k' l', e.bindingQueues.lookup k = some l → id ∈ l → e.Selects p.strRoutingKey k →
      e.bindingQueues.lookup k' = some l' → id ∈ l' → e.Selects p.strRoutingKey k' → k = k'

/-! ## Storing -/

variable {q q' q'' : MessageQueue}

theorem Copies.refl (p : Publish) (q : MessageQueue) : Copies p 0 q q :=
  ⟨[], rfl, .refl _, fun _ hm => nomatch hm⟩

theorem Copies.trans {m n : Nat} (h : Copies p m q q') (h' : Copies p n q' q'') :
    Copies p (m + n) q q'' := by
  obtain ⟨cs, hlen, hperm, hcs⟩ := h
  obtain ⟨cs', hlen', hperm', hcs'⟩ := h'
  refine ⟨cs ++ cs', by rw [List.length_append, hlen, hlen'], ?_, fun x hx => ?_⟩
  · refine hperm'.trans ((hperm.append_left cs').trans ?_)
    rw [← List.append_assoc]
    exact List.perm_append_comm.append_right _
  · exact (List.mem_append.mp hx).elim (hcs x) (hcs' x)

/-- The number of new messages is the number of copies. -/
theorem Copies.length {n : Nat} (h : Copies p n q q') :
    q'.messages.length = n + q.messages.length := by
  obtain ⟨cs, rfl, hperm, _⟩ := h
  rw [hperm.length_eq, List.length_append]

theorem messages_addMessage (q : MessageQueue) (m : SeverStoreMessage) :
    (q.addMessage m).messages.Perm (m :: q.messages) ∨
      (q.addMessage m).messages.Perm (q.limited m :: q.messages) := by
  unfold MessageQueue.addMessage
  split
  · refine Or.inr ?_
    exact (MsgHeap.items_push _ _).append_right _
  · refine Or.inl ?_
    simp only [MessageQueue.messages, ← List.append_assoc]
    exact List.perm_append_singleton _ _

theorem copies_addMessage (q : MessageQueue) {m : SeverStoreMessage} (hbody : m.msgBody = p.body)
    (hdurable : m.durable = p.bDurable) : Copies p 1 q (q.addMessage m) := by
  have hlimited : (q.limited m).msgBody = p.body ∧ (q.limited m).durable = p.bDurable := by
    unfold MessageQueue.limited
    split
    · exact ⟨hbody, hdurable⟩
    · exact ⟨hbody, hdurable⟩
  rcases messages_addMessage q m with h | h
  · refine ⟨[m], rfl, h, fun x hx => ?_⟩
    rw [List.mem_singleton.mp hx]
    exact ⟨hbody, hdurable⟩
  · refine ⟨[q.limited m], rfl, h, fun x hx => ?_⟩
    rw [List.mem_singleton.mp hx]
    exact hlimited

theorem copies_storeMessage (h : st.storeMessage p c id = some st') {i : QueueId}
    (hq : st.queues i = some q) :
    ∃ q', st'.queues i = some q' ∧ Copies p (if id = i then 1 else 0) q q' := by
  obtain ⟨q₀, hq₀, rfl⟩ := Option.map_eq_some_iff.mp h
  by_cases hi : id = i
  · subst hi
    cases hq.symm.trans hq₀
    rw [if_pos rfl]
    split
    · refine ⟨_, if_pos rfl, ?_⟩
      obtain ⟨cs, hlen, hperm, hcs⟩ := copies_addMessage (p := p)
        { q with durableIndex := q.durableIndex + 1 } (m := durableMessage (st.newMessage p) q)
        rfl rfl
      exact ⟨cs, hlen, hperm, hcs⟩
    · exact ⟨_, if_pos rfl, copies_addMessage q rfl rfl⟩
  · rw [if_neg hi]
    split
    · exact ⟨q, (if_neg (Ne.symm hi)).trans hq, .refl p q⟩
    · exact ⟨q, (if_neg (Ne.symm hi)).trans hq, .refl p q⟩

/-- A queue gets as many copies as it is in the list. -/
theorem copies_storeMessages (ids : List QueueId) (h : storeMessages p c ids st = some st')
    {i : QueueId} (hq : st.queues i = some q) :
    ∃ q', st'.queues i = some q' ∧ Copies p (ids.count i) q q' := by
  induction ids generalizing st q with
  | nil =>
    cases h
    exact ⟨q, hq, .refl p q⟩
  | cons id rest ih =>
    obtain ⟨st₁, hone, hrest⟩ := Option.bind_eq_some_iff.mp h
    obtain ⟨q₁, hq₁, hcopies₁⟩ := copies_storeMessage hone hq
    obtain ⟨q', hq', hcopies⟩ := ih hrest hq₁
    refine ⟨q', hq', ?_⟩
    rw [List.count_cons, Nat.add_comm]
    have hif : (if (id == i) = true then 1 else 0) = if id = i then 1 else 0 := by
      simp only [beq_iff_eq]
    rw [hif]
    exact hcopies₁.trans hcopies

/-- Storing goes through when the queues are alive. -/
theorem storeMessages_live (ids : List QueueId) (h : ∀ i ∈ ids, (st.queues i).isSome) :
    ∃ st', storeMessages p c ids st = some st' := by
  induction ids generalizing st with
  | nil => exact ⟨st, rfl⟩
  | cons id rest ih =>
    obtain ⟨q, hq⟩ := Option.isSome_iff_exists.mp (h id List.mem_cons_self)
    have hone : ∃ st₁, st.storeMessage p c id = some st₁ := by
      rw [storeMessage, hq]
      exact ⟨_, rfl⟩
    obtain ⟨st₁, hone⟩ := hone
    have hlive : ∀ i ∈ rest, (st₁.queues i).isSome := by
      intro i hi
      obtain ⟨q', hq'⟩ := Option.isSome_iff_exists.mp (h i (List.mem_cons_of_mem _ hi))
      obtain ⟨q'', hq'', _⟩ := copies_storeMessage hone hq'
      exact Option.isSome_of_eq_some hq''
    obtain ⟨st', hrest⟩ := ih hlive
    exact ⟨st', by rw [storeMessages, hone, Option.bind_some, hrest]⟩

theorem mem_routedQueues : id ∈ st.routedQueues p ↔ Reaches st p id := by
  unfold routedQueues Reaches
  cases st.exchanges.lookup p.strExchangeName with
  | none => simp
  | some e => simp [Exchange.mem_findBindingQueue]

theorem nodup_routedQueues (hl : Linked st) : (st.routedQueues p).Nodup ↔ Sole st p := by
  unfold routedQueues Sole
  cases he : st.exchanges.lookup p.strExchangeName with
  | none => simp
  | some e =>
    have hsingle : ∀ k l, e.bindingQueues.lookup k = some l → ∃ id, l = [id] := by
      intro k l hkl
      obtain ⟨id, hid, _⟩ := hl.exchanges _ e he k l hkl
      exact ⟨id, hid⟩
    rw [Exchange.nodup_findBindingQueue hsingle]
    simp

theorem Reaches.live (hl : Linked st) (h : Reaches st p id) : (st.queues id).isSome := by
  obtain ⟨e, k, l, he, hkl, hid, _⟩ := h
  obtain ⟨id', rfl, hlive⟩ := hl.exchanges _ e he k l hkl
  rwa [List.mem_singleton.mp hid]

/-- Without a queue to go to, nothing is stored. -/
theorem publish_unrouted (h : st.routedQueues p = []) (c : Int) :
    ∃ o, st.publish p c = some o ∧ o.server.queues = st.queues := by
  unfold publish
  split
  · exact ⟨_, rfl, rfl⟩
  · split
    · exact ⟨_, rfl, rfl⟩
    · exact ⟨_, rfl, rfl⟩

theorem publish_routed (h : st.routedQueues p ≠ []) (hfresh : ¬ st.IsRepeat p c)
    (hbody : 0 ≤ p.iBodyLen) {st' : LogicServer}
    (hstore : storeMessages p c (st.routedQueues p) st = some st') :
    st.publish p c = some ⟨success, [], st'.confirmPublish p c⟩ := by
  have hexchange : p.strExchangeName ∈ st.exchanges := by
    by_contra hno
    refine h ?_
    rw [routedQueues, AList.lookup_eq_none.mpr hno]
  rw [publish, if_neg hfresh, if_neg (not_not.mpr hexchange), if_neg h, if_neg (Int.not_lt.mpr hbody),
    hstore]
  rfl

/-- In every state that is reached, and so for every order of the table, a publish adds one copy
to each queue it reaches exactly when it reaches none, or is stored and reaches none twice. -/
theorem oneCopyEach_iff {capConnect capPersis : Option Nat} {as : List Step}
    (hrun : run (start capConnect capPersis) as = some st) {buf : Mem} {iLen : Nat}
    (hp : decodePublish buf iLen = some p) (c : Int) :
    OneCopyEach st buf iLen c p ↔
      ((∃ id, Reaches st p id) → ¬ st.IsRepeat p c ∧ 0 ≤ p.iBodyLen ∧ Sole st p) := by
  have hl := linked_of_run hrun
  have hpublish : st.onPublishMessage buf iLen c = st.publish p c := by
    rw [onPublishMessage, hp, Option.bind_some]
  unfold OneCopyEach
  rw [hpublish]
  constructor
  · rintro ⟨o, ho, hcopies⟩ ⟨id, hid⟩
    obtain ⟨q, hq⟩ := Option.isSome_iff_exists.mp (hid.live hl)
    obtain ⟨q', hq', hone, _⟩ := hcopies id q hq
    have hlen := (hone hid).length
    have hrouted : st.routedQueues p ≠ [] := List.ne_nil_of_mem (mem_routedQueues.mpr hid)
    cases publish_result ho with
    | recognised hrepeat =>
      cases hq.symm.trans hq'
      omega
    | refused =>
      cases hq.symm.trans hq'
      omega
    | stored st₁ hfresh _ hbody hstore =>
      refine ⟨hfresh, hbody, (nodup_routedQueues hl).mp ?_⟩
      refine List.nodup_iff_count_eq_one.mpr fun i hi => ?_
      have hreach := mem_routedQueues.mp hi
      obtain ⟨x, hx⟩ := Option.isSome_iff_exists.mp (hreach.live hl)
      obtain ⟨x', hx', hone, _⟩ := hcopies i x hx
      obtain ⟨y, hy, hcount⟩ := copies_storeMessages _ hstore hx
      rw [queues_confirmPublish] at hx'
      cases hy.symm.trans hx'
      have hlen₁ := (hone hreach).length
      have hlen₂ := hcount.length
      omega
  · intro hcondition
    by_cases hrouted : st.routedQueues p = []
    · obtain ⟨o, ho, hqueues⟩ := publish_unrouted hrouted c
      refine ⟨o, ho, fun id q hq => ⟨q, by rw [hqueues, hq], fun hid => ?_, fun _ => .refl p q⟩⟩
      have hin := mem_routedQueues.mpr hid
      rw [hrouted] at hin
      cases hin
    · obtain ⟨id₀, hid₀⟩ := List.exists_mem_of_ne_nil _ hrouted
      obtain ⟨hfresh, hbody, hsole⟩ := hcondition ⟨id₀, mem_routedQueues.mp hid₀⟩
      obtain ⟨st', hstore⟩ := storeMessages_live (p := p) (c := c) (st.routedQueues p)
        fun i hi => (mem_routedQueues.mp hi).live hl
      refine ⟨_, publish_routed hrouted hfresh hbody hstore, fun id q hq => ?_⟩
      obtain ⟨q', hq', hcount⟩ := copies_storeMessages _ hstore hq
      refine ⟨q', by rw [queues_confirmPublish, hq'], fun hid => ?_, fun hid => ?_⟩
      · have hnodup := (nodup_routedQueues hl).mpr hsole
        rwa [List.nodup_iff_count_eq_one.mp hnodup id (mem_routedQueues.mpr hid)] at hcount
      · rwa [List.count_eq_zero.mpr fun hin => hid (mem_routedQueues.mp hin)] at hcount

end Copies

section Runs

attribute [local instance] Platform.plain

def secondQueue : Package :=
  .ofBody cmdCreateQueue 1
    (image [writeName (ascii "u"), writeShort (-1), writeBool false, writeBool false]) (by decide)

def secondBinding : Package :=
  .ofBody cmdCreateBinding 1
    (image [writeName (ascii "e"), writeName (ascii "u"), writeName (ascii "v")]) (by decide)

/-- Client 1 binds the queues "q" and "u" to the fanout exchange "e", under "k" and "v". -/
def boundOnce : List Step :=
  [.makeQueue 1 false, .makeExchange 1, .makeBinding 1, .package secondQueue] ++
    [.package secondBinding]

theorem exchanges_reply (o : Outcome) (c : Int) : (reply o c).exchanges = o.server.exchanges := by
  unfold reply
  split <;> rfl

theorem secondBinding_step {st : LogicServer} {e : Exchange}
    (he : st.exchanges.lookup (ascii "e") = some e) (hplain : e.durable = false)
    (hq : st.unSubcribeQueues.lookup (ascii "u") = some 1) :
    step st (.package secondBinding) = some (reply ⟨success, reBindingSucceed ++ ascii "v",
      st.setExchanges (st.exchanges.replace (ascii "e") (e.createBinding (ascii "v") 1))⟩ 1) := by
  have hexchange : readName secondBinding.body 0 = some (ascii "e") := by decide +kernel
  have hqueue : readName secondBinding.body 32 = some (ascii "u") := by decide +kernel
  have hkey : readName secondBinding.body 64 = some (ascii "v") := by decide +kernel
  have hcmd : secondBinding.cmdId = cmdCreateBinding := by decide +kernel
  have hlen : ¬ secondBinding.packLen > secondBinding.len := by decide +kernel
  have hindex : secondBinding.clientIndex = 1 := by decide +kernel
  have hdispatch : st.dispatch secondBinding = st.onCreateBinding secondBinding.body := by
    rw [dispatch, hcmd]
    rfl
  have hdurable : (e.createBinding (ascii "v") 1).durable = false := by
    rw [← hplain, Exchange.createBinding]
    split <;> rfl
  rw [step, processPackage, processRecvData, if_neg hlen, hdispatch, hindex, onCreateBinding,
    decodeCreateBinding, hexchange, hqueue, hkey]
  simp only [Option.bind_some, Option.map_some, createBinding, he, hq, bindQueue, sendBindings,
    hdurable]
  rfl

theorem oneCopyEach_boundOnce :
    ∃ st p, run (start none none) boundOnce = some st ∧
      decodePublish (Step.publishPackage 1 false 0 1).body
        (Step.publishPackage 1 false 0 1).bodyLen = some p ∧
      Reaches st p 0 ∧ Reaches st p 1 ∧
      OneCopyEach st (Step.publishPackage 1 false 0 1).body
        (Step.publishPackage 1 false 0 1).bodyLen 1 p := by
  have hstate : (run (start none none) [.makeQueue 1 false, .makeExchange 1, .makeBinding 1,
      .package secondQueue]).map (fun st =>
        ((st.exchanges.lookup (ascii "e")).map fun e => decide
          (e.exchangeType = exchangeTypeFanout ∧ e.durable = false ∧
            e.bindingQueues.entries = [⟨ascii "k", [0]⟩]),
          decide (st.unSubcribeQueues.lookup (ascii "u") = some 1 ∧ st.producerMsgSeqs = []))) =
      some (some true, true) := by decide +kernel
  have hpackage : (decodePublish (Step.publishPackage 1 false 0 1).body
      (Step.publishPackage 1 false 0 1).bodyLen).map (fun p =>
        (p.strExchangeName, decide (0 ≤ p.iBodyLen))) = some (ascii "e", true) := by
    decide +kernel
  obtain ⟨st, hrun, hst⟩ := Option.map_eq_some_iff.mp hstate
  obtain ⟨p, hp, hprops⟩ := Option.map_eq_some_iff.mp hpackage
  obtain ⟨htable, hrest⟩ := Prod.mk.inj hst
  obtain ⟨hqueue, hseqs⟩ := of_decide_eq_true hrest
  obtain ⟨hname, hbody⟩ := Prod.mk.inj hprops
  obtain ⟨e, he, hkind⟩ := Option.map_eq_some_iff.mp htable
  obtain ⟨htype, hplain, hentries⟩ := of_decide_eq_true hkind
  -- the second binding
  let e' := e.createBinding (ascii "v") 1
  let o : Outcome := ⟨success, reBindingSucceed ++ ascii "v",
    st.setExchanges (st.exchanges.replace (ascii "e") e')⟩
  let st' := reply o 1
  have hrun' : run (start none none) boundOnce = some st' := by
    refine (Runs.run_append _ _ _).trans (Option.bind_eq_some_iff.mpr ⟨st, hrun, ?_⟩)
    exact congrArg (fun o => o.bind some) (secondBinding_step he hplain hqueue)
  have hexchanges : st'.exchanges = st.exchanges.replace (ascii "e") e' :=
    exchanges_reply o 1
  have hseqs' : st'.producerMsgSeqs = [] := (congrArg Prod.fst (view_reply o 1)).trans hseqs
  have he' : st'.exchanges.lookup p.strExchangeName = some e' := by
    rw [hexchanges, hname]
    exact AssocTables.lookup_replace_self (AList.lookup_isSome.mp (Option.isSome_of_eq_some he))
  have hfirst : ∀ k l, e.bindingQueues.lookup k = some l → k = ascii "k" ∧ l = [0] := by
    intro k l hl
    have hin := AList.mem_lookup_iff.mp hl
    rw [hentries, List.mem_singleton] at hin
    cases hin
    exact ⟨rfl, rfl⟩
  have hlookup : ∀ k l, e'.bindingQueues.lookup k = some l →
      (k = ascii "v" ∧ l = [1]) ∨ (k = ascii "k" ∧ l = [0]) := by
    intro k l hl
    rw [Exchange.lookup_createBinding] at hl
    split at hl
    · next hk => exact Or.inl ⟨hk.1, (Option.some.inj hl).symm⟩
    · exact Or.inr (hfirst k l hl)
  have hnew : e'.bindingQueues.lookup (ascii "v") = some [1] := by
    have hout : ascii "v" ∉ e.bindingQueues := fun hin => by
      obtain ⟨l, hl⟩ := Option.isSome_iff_exists.mp (AList.lookup_isSome.mpr hin)
      exact absurd (hfirst _ l hl).1 (by decide)
    rw [Exchange.lookup_createBinding, if_pos ⟨rfl, hout⟩]
  have hold : e'.bindingQueues.lookup (ascii "k") = some [0] := by
    rw [Exchange.lookup_createBinding, if_neg fun h => absurd h.1 (by decide)]
    exact AList.mem_lookup_iff.mpr (hentries ▸ List.mem_singleton_self _)
  have hselects : ∀ r k, e'.Selects r k := by
    have htype' : e'.exchangeType = exchangeTypeFanout := by
      rw [← htype]
      unfold e' Exchange.createBinding
      split <;> rfl
    exact fun r k => Exchange.selects_fanout htype'
  refine ⟨st', p, hrun', hp, ⟨e', _, _, he', hold, List.mem_singleton_self 0, hselects _ _⟩,
    ⟨e', _, _, he', hnew, List.mem_singleton_self 1, hselects _ _⟩,
    (oneCopyEach_iff hrun' hp 1).mpr fun _ => ⟨?_, of_decide_eq_true hbody, ?_⟩⟩
  · rintro ⟨_, hin⟩
    rw [hseqs'] at hin
    cases hin
  · intro e'' he'' id k l k' l' hl hid _ hl' hid' _
    cases he'.symm.trans he''
    -- the queue tells the key
    rcases hlookup k l hl with ⟨rfl, rfl⟩ | ⟨rfl, rfl⟩
    · cases List.mem_singleton.mp hid
      rcases hlookup k' l' hl' with ⟨rfl, rfl⟩ | ⟨rfl, rfl⟩
      · rfl
      · cases List.mem_singleton.mp hid'
    · cases List.mem_singleton.mp hid
      rcases hlookup k' l' hl' with ⟨rfl, rfl⟩ | ⟨rfl, rfl⟩
      · cases List.mem_singleton.mp hid'
      · rfl

/-- A server with the queue "q", which is bound to the fanout exchange "e" under "k" and "j". -/
def boundTwice : LogicServer :=
  ((start none none).newQueue { queueName := ascii "q" }).setExchanges
    (AList.insert (ascii "e") (((Exchange.new (ascii "e") exchangeTypeFanout false
      false).createBinding (ascii "k") 0).createBinding (ascii "j") 0) ∅)

/-- It gets the message twice. -/
theorem two_copies_boundTwice :
    ∃ p, decodePublish (Step.publishPackage 1 false 0 1).body
        (Step.publishPackage 1 false 0 1).bodyLen = some p ∧
      ¬ OneCopyEach boundTwice (Step.publishPackage 1 false 0 1).body
        (Step.publishPackage 1 false 0 1).bodyLen 1 p := by
  have hcheck : (decodePublish (Step.publishPackage 1 false 0 1).body
      (Step.publishPackage 1 false 0 1).bodyLen).bind (fun p =>
        (boundTwice.publish p 1).bind fun o =>
          (o.server.queues 0).map (·.messages.length)) = some 2 := by decide +kernel
  obtain ⟨p, hp, h⟩ := Option.bind_eq_some_iff.mp hcheck
  obtain ⟨o, ho, h⟩ := Option.bind_eq_some_iff.mp h
  obtain ⟨q', hq', htwo⟩ := Option.map_eq_some_iff.mp h
  refine ⟨p, hp, ?_⟩
  rintro ⟨o', ho', hcopies⟩
  rw [onPublishMessage, hp, Option.bind_some, ho] at ho'
  cases ho'
  obtain ⟨q'', hq'', hone, hzero⟩ := hcopies 0 { queueName := ascii "q" } rfl
  cases hq'.symm.trans hq''
  have hempty : ({ queueName := ascii "q" } : MessageQueue).messages.length = 0 := rfl
  by_cases hreach : Reaches boundTwice p 0
  · have hlen := (hone hreach).length
    omega
  · have hlen := (hzero hreach).length
    omega

end Runs

end LogicServer

end Wsmq
