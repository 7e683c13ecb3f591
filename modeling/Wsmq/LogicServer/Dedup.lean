import Wsmq.LogicServer.Frame

/-!
# Confirmed publishes are routed once

`m_producerMsgSeqs` holds a text for every confirmed publish that was routed.  The
exit of a client takes out all texts that begin with the decimal form of its index,
so also those of other clients (client 1 and client 12).
-/

namespace Wsmq.LogicServer
open Lib Lib.ByteString Lib.Packing

/-! ## Decimal texts -/

theorem hash_not_mem_decimalNat (n : Nat) : (35 : UInt8) ∉ decimalNat n := by
  unfold decimalNat
  split
  · decide
  · intro h
    obtain ⟨d, hd, he⟩ := List.mem_map.mp (List.mem_reverse.mp h)
    have hlt : d < 10 := Nat.digits_lt_base (by decide) hd
    have hval : (48 + d) % 256 = 35 := by simpa using congrArg UInt8.toNat he
    omega

theorem hash_not_mem_toString (v : Int) : (35 : UInt8) ∉ toString v := by
  unfold toString
  split
  · intro h
    rcases List.mem_append.mp h with h | h
    · revert h
      decide
    · exact hash_not_mem_decimalNat _ h
  · exact hash_not_mem_decimalNat _

/-- A client index that the key begins with is one the key's own client index begins with. -/
theorem isPrefix_of_key {d c s : Int} (h : toString d <+: msgSeqKey c s) :
    toString d <+: toString c := by
  have hash : ascii "#" = [35] := by decide
  unfold msgSeqKey at h
  rw [hash] at h
  rcases List.prefix_or_prefix_of_prefix h (List.prefix_append (toString c ++ [35]) _) with hp | hp
  · rcases List.prefix_concat_iff.mp hp with he | hp
    · exact absurd (he ▸ List.mem_append_right _ List.mem_cons_self) (hash_not_mem_toString d)
    · exact hp
  · have hmem : (35 : UInt8) ∈ toString d :=
      hp.subset (List.mem_append_right _ List.mem_cons_self)
    exact absurd hmem (hash_not_mem_toString d)

section Steps

variable [Platform] {st st' : LogicServer}

/-! ## What a publish does -/

theorem mem_insertMsgSeq (key x : Bytes) :
    x ∈ (st.insertMsgSeq key).producerMsgSeqs ↔ x = key ∨ x ∈ st.producerMsgSeqs := by
  unfold insertMsgSeq
  split
  · next h =>
    refine ⟨Or.inr, ?_⟩
    rintro (rfl | hx)
    · exact h
    · exact hx
  · exact List.mem_cons

theorem publishLog_insertMsgSeq (key : Bytes) :
    (st.insertMsgSeq key).publishLog = st.publishLog := by
  unfold insertMsgSeq
  split <;> rfl

theorem publishLog_confirmPublish (st : LogicServer) (p : Publish) (c : Int) :
    (st.confirmPublish p c).publishLog = st.publishLog := by
  unfold confirmPublish
  split
  · exact publishLog_insertMsgSeq _
  · split
    · exact publishLog_insertMsgSeq _
    · rfl

theorem queues_confirmPublish (st : LogicServer) (p : Publish) (c : Int) :
    (st.confirmPublish p c).queues = st.queues := by
  unfold confirmPublish insertMsgSeq
  split
  · split
    · rfl
    · rfl
  · split
    · split
      · rfl
      · rfl
    · rfl

/-- The levels for which the number of a publish is recorded. -/
theorem mem_confirmPublish (st : LogicServer) (p : Publish) (c : Int) (x : Bytes) :
    x ∈ (st.confirmPublish p c).producerMsgSeqs ↔
      x ∈ st.producerMsgSeqs ∨
        x = msgSeqKey c p.iMsgSeq ∧
          (p.confirmLevel = producerSingleAck ∨ p.confirmLevel = producerMutilAck) := by
  unfold confirmPublish
  split
  · next h =>
    rw [mem_insertMsgSeq]
    simp [h, sendServerAck, enqueueConnect, or_comm]
  · next h =>
    split
    · next h' =>
      rw [mem_insertMsgSeq]
      simp [h', setLastMsgSeq, or_comm]
    · next h' => simp [h, h']

theorem storeMessage_view {p : Publish} {c : Int} {id : QueueId}
    (h : st.storeMessage p c id = some st') :
    st'.producerMsgSeqs = st.producerMsgSeqs ∧
      st'.producerLastMsgSeq = st.producerLastMsgSeq ∧
      st'.publishLog = st.publishLog ++ [(c, p.iMsgSeq, p.confirmLevel)] := by
  obtain ⟨q, _, rfl⟩ := Option.map_eq_some_iff.mp h
  split <;> exact ⟨rfl, rfl, List.filterMap_append⟩

theorem storeMessages_view {p : Publish} {c : Int} (queues : List QueueId)
    {st st' : LogicServer} (h : storeMessages p c queues st = some st') :
    st'.producerMsgSeqs = st.producerMsgSeqs ∧
      st'.producerLastMsgSeq = st.producerLastMsgSeq ∧
      st'.publishLog = st.publishLog ++
        List.replicate queues.length (c, p.iMsgSeq, p.confirmLevel) := by
  induction queues generalizing st with
  | nil =>
    cases h
    exact ⟨rfl, rfl, (List.append_nil _).symm⟩
  | cons id rest ih =>
    obtain ⟨st₁, hone, hrest⟩ := Option.bind_eq_some_iff.mp h
    obtain ⟨hseqs, hlast, hlog⟩ := ih hrest
    obtain ⟨hseqs₁, hlast₁, hlog₁⟩ := storeMessage_view hone
    refine ⟨hseqs.trans hseqs₁, hlast.trans hlast₁, ?_⟩
    rw [hlog, hlog₁, List.length_cons, List.replicate_succ, List.append_assoc]
    rfl

/-- What `OnPublishMessage` does about producers when it stores the message. -/
structure Stores (st : LogicServer) (p : Publish) (c : Int) (st' : LogicServer) : Prop where
  fresh : ¬ st.IsRepeat p c
  routed : st.routedQueues p ≠ []
  log : st'.publishLog = st.publishLog ++
    List.replicate (st.routedQueues p).length (c, p.iMsgSeq, p.confirmLevel)
  msgSeqs : ∀ x, x ∈ st'.producerMsgSeqs ↔
    x ∈ st.producerMsgSeqs ∨
      x = msgSeqKey c p.iMsgSeq ∧
        (p.confirmLevel = producerSingleAck ∨ p.confirmLevel = producerMutilAck)

/-- A publish is recognised as a repeat, refused with a reply, or stored. -/
inductive PublishResult (st : LogicServer) (p : Publish) (c : Int) : Outcome → Prop
  | recognised (hrepeat : st.IsRepeat p c) :
      PublishResult st p c ⟨success, [], st.sendServerAck { ackSeq := p.iMsgSeq }⟩
  | refused (text : Bytes) (hfresh : ¬ st.IsRepeat p c)
      (htext : text = reExchangeNotExist ++ p.strExchangeName ∨
        text = reFitQueueNotExist ++ p.strRoutingKey) :
      PublishResult st p c ⟨errLogicServerPublishMessage, text, st⟩
  | stored (st₁ : LogicServer) (hfresh : ¬ st.IsRepeat p c) (hrouted : st.routedQueues p ≠ [])
      (hbody : 0 ≤ p.iBodyLen) (hstore : storeMessages p c (st.routedQueues p) st = some st₁) :
      PublishResult st p c ⟨success, [], st₁.confirmPublish p c⟩

theorem publish_result {p : Publish} {c : Int} {o : Outcome} (h : st.publish p c = some o) :
    PublishResult st p c o := by
  unfold publish at h
  rcases ite_eq_some h with ⟨hrepeat, h⟩ | ⟨hfresh, h⟩
  · cases h
    exact .recognised hrepeat
  rcases ite_eq_some h with ⟨_, h⟩ | ⟨_, h⟩
  · cases h
    exact .refused _ hfresh (Or.inl rfl)
  rcases ite_eq_some h with ⟨_, h⟩ | ⟨hrouted, h⟩
  · cases h
    exact .refused _ hfresh (Or.inr rfl)
  rcases ite_eq_some h with ⟨_, h⟩ | ⟨hbody, h⟩
  · cases h
  · obtain ⟨st₁, hstore, rfl⟩ := Option.map_eq_some_iff.mp h
    exact .stored st₁ hfresh hrouted (Int.not_lt.mp hbody) hstore

theorem publish_view {p : Publish} {c : Int} {o : Outcome} (h : st.publish p c = some o) :
    o.server.producerView = st.producerView ∨ Stores st p c o.server := by
  cases publish_result h with
  | recognised => exact Or.inl rfl
  | refused => exact Or.inl rfl
  | stored st₁ hfresh hrouted _ hstore =>
    obtain ⟨hseqs, _, hlog⟩ := storeMessages_view _ hstore
    refine Or.inr ⟨hfresh, hrouted, ?_, fun x => ?_⟩
    · rw [publishLog_confirmPublish, hlog]
    · rw [mem_confirmPublish, hseqs]

/-! ## What a step does -/

/-- The exit of a client that the step processes. -/
def Step.exitOf : Step → Option Int
  | .package p => if p.packLen ≤ p.len ∧ p.cmdId = cmdClientExit then some p.clientIndex else none
  | _ => none

/-- The publish package that the step processes. -/
def Step.publishOf : Step → Option (Publish × Int)
  | .package p =>
    if p.packLen ≤ p.len ∧ p.cmdId = cmdCreatePublish then
      (decodePublish p.body p.bodyLen).map fun d => (d, p.clientIndex)
    else none
  | _ => none

/-- The server knows of the same numbers and has stored nothing more. -/
structure SameNumbers (st st' : LogicServer) : Prop where
  msgSeqs : ∀ x, x ∈ st'.producerMsgSeqs ↔ x ∈ st.producerMsgSeqs
  log : st'.publishLog = st.publishLog

theorem SameNumbers.of_view (h : st'.producerView = st.producerView) : SameNumbers st st' := by
  obtain ⟨hseqs, hrest⟩ := Prod.mk.inj h
  obtain ⟨_, hlog⟩ := Prod.mk.inj hrest
  exact ⟨fun x => by rw [hseqs], hlog⟩

/-- A step stores a published message, prunes the numbers, or does neither. -/
inductive StepEffect (st : LogicServer) (a : Step) (st' : LogicServer) : Prop
  | same (h : SameNumbers st st')
  | stores (p : Publish) (c : Int) (ha : a.publishOf = some (p, c)) (h : Stores st p c st')
  | exits (c : Int) (ha : a.exitOf = some c)
      (h : st'.producerView = (st.pruneMsgSeqs c).producerView)

theorem Stores.reply {p : Publish} {c d : Int} {o : Outcome} (h : Stores st p c o.server) :
    Stores st p c (LogicServer.reply o d) := by
  obtain ⟨hseqs, hrest⟩ := Prod.mk.inj (view_reply o d)
  obtain ⟨_, hlog⟩ := Prod.mk.inj hrest
  exact ⟨h.fresh, h.routed, hlog.trans h.log, fun x => by rw [hseqs]; exact h.msgSeqs x⟩

/-- What processing a package does about producers. -/
inductive PackageView (st : LogicServer) (p : Package) (st' : LogicServer) : Prop
  | same (h : st'.producerView = st.producerView)
  | publishes (d : Publish) (o : Outcome)
      (ha : (Step.package p).publishOf = some (d, p.clientIndex))
      (h : st.publish d p.clientIndex = some o) (hreply : st' = reply o p.clientIndex)
  | exits (ha : (Step.package p).exitOf = some p.clientIndex)
      (h : st'.producerView = (st.pruneMsgSeqs p.clientIndex).producerView)

theorem package_view {p : Package} (h : st.processPackage p = some st') :
    PackageView st p st' := by
  obtain ⟨o, hproc, rfl⟩ := Option.map_eq_some_iff.mp h
  have hsame : o.server.producerView = st.producerView →
      PackageView st p (reply o p.clientIndex) := fun hv => .same ((view_reply o _).trans hv)
  unfold processRecvData at hproc
  rcases ite_eq_some hproc with ⟨_, hproc⟩ | ⟨hlen, hproc⟩
  · cases hproc
    exact hsame rfl
  have hlen : p.packLen ≤ p.len := Nat.le_of_not_lt hlen
  unfold dispatch at hproc
  rcases ite_eq_some hproc with ⟨_, hproc⟩ | ⟨_, hproc⟩
  · exact hsame (view_onCreateExchange hproc)
  rcases ite_eq_some hproc with ⟨_, hproc⟩ | ⟨_, hproc⟩
  · exact hsame (view_onCreateQueue hproc)
  rcases ite_eq_some hproc with ⟨_, hproc⟩ | ⟨_, hproc⟩
  · exact hsame (view_onCreateBinding hproc)
  rcases ite_eq_some hproc with ⟨hcmd, hproc⟩ | ⟨_, hproc⟩
  · obtain ⟨d, hd, hproc⟩ := Option.bind_eq_some_iff.mp hproc
    refine .publishes d o ?_ hproc rfl
    rw [Step.publishOf, if_pos ⟨hlen, hcmd⟩, hd]
    rfl
  rcases ite_eq_some hproc with ⟨_, hproc⟩ | ⟨_, hproc⟩
  · exact hsame (view_onRecvMessage hproc)
  rcases ite_eq_some hproc with ⟨_, hproc⟩ | ⟨_, hproc⟩
  · exact hsame (view_onCreateSubscribe hproc)
  rcases ite_eq_some hproc with ⟨_, hproc⟩ | ⟨_, hproc⟩
  · exact hsame (view_onDeleteExchange hproc)
  rcases ite_eq_some hproc with ⟨_, hproc⟩ | ⟨_, hproc⟩
  · exact hsame (view_onDeleteQueue hproc)
  rcases ite_eq_some hproc with ⟨_, hproc⟩ | ⟨_, hproc⟩
  · exact hsame (view_onCancelSubscribe hproc)
  rcases ite_eq_some hproc with ⟨_, hproc⟩ | ⟨_, hproc⟩
  · cases hproc
    exact hsame (view_onClientAck _ _ _)
  rcases ite_eq_some hproc with ⟨hcmd, hproc⟩ | ⟨_, hproc⟩
  · obtain ⟨st₁, hexit, rfl⟩ := Option.map_eq_some_iff.mp hproc
    exact .exits (if_pos ⟨hlen, hcmd⟩) ((view_reply _ _).trans (view_onClientExit hexit))
  · cases hproc
    exact hsame rfl

theorem package_effect {p : Package} (h : st.processPackage p = some st') :
    StepEffect st (.package p) st' := by
  cases package_view h with
  | same hv => exact .same (.of_view hv)
  | publishes d o ha hpublish hreply =>
    subst hreply
    rcases publish_view hpublish with hv | hs
    · exact .same (.of_view ((view_reply o _).trans hv))
    · exact .stores d p.clientIndex ha hs.reply
  | exits ha hv => exact .exits p.clientIndex ha hv

theorem step_effect {a : Step} (h : step st a = some st') : StepEffect st a st' := by
  cases a with
  | package p => exact package_effect h
  | pushMessage => exact .same (.of_view (view_pushMessage h))
  | sendMultiAck =>
    simp only [step, sendMultiAck] at h
    split at h
    · cases h
      exact .same ⟨fun _ => Iff.rfl, rfl⟩
    · cases h
  | drainConnect => exact .same (.of_view (view_drainConnect h))
  | drainPersis =>
    obtain ⟨r, _, rfl⟩ := Option.map_eq_some_iff.mp h
    exact .same ⟨fun _ => Iff.rfl, rfl⟩
  | rehash t =>
    simp only [step, rehash] at h
    split at h
    · next hsame =>
      cases h
      exact .same ⟨fun x => hsame.2.2.2.2.1.mem_iff, rfl⟩
    · cases h

/-! ## Recorded numbers -/

/-- A number is forgotten only when a client exits with whose index its text begins. -/
theorem key_mem_of_step {a : Step} {c s : Int} (hkey : msgSeqKey c s ∈ st.producerMsgSeqs)
    (hexit : ∀ d, a.exitOf = some d → ¬ toString d <+: toString c)
    (h : step st a = some st') : msgSeqKey c s ∈ st'.producerMsgSeqs := by
  cases step_effect h with
  | same hs => exact (hs.msgSeqs _).mpr hkey
  | stores p c' _ hs => exact (hs.msgSeqs _).mpr (Or.inl hkey)
  | exits d ha hv =>
    have hseqs : st'.producerMsgSeqs = (st.pruneMsgSeqs d).producerMsgSeqs := (Prod.mk.inj hv).1
    rw [hseqs]
    refine List.mem_filter.mpr ⟨hkey, ?_⟩
    have hprefix : ¬ (toString d).isPrefixOf (msgSeqKey c s) = true := fun hp =>
      hexit d ha (isPrefix_of_key (List.isPrefixOf_iff_prefix.mp hp))
    simpa using hprefix

theorem key_mem_of_run {as : List Step} {c s : Int} {st st' : LogicServer}
    (hkey : msgSeqKey c s ∈ st.producerMsgSeqs)
    (hexit : ∀ a ∈ as, ∀ d, a.exitOf = some d → ¬ toString d <+: toString c)
    (h : run st as = some st') : msgSeqKey c s ∈ st'.producerMsgSeqs :=
  Runs.invariant (fun _ _ _ hk hg hs => key_mem_of_step hk hg hs) hkey
    (Runs.allSteps_of_mem (fun _ => hexit) st) h

/-- The step adds a message of client `c` with number `s` and this confirm level to a queue. -/
def Routes (st st' : LogicServer) (c s : Int) (confirmLevel : Nat) : Prop :=
  ∃ new, st'.publishLog = st.publishLog ++ new ∧ (c, s, confirmLevel) ∈ new

theorem stores_of_routes {a : Step} {c s : Int} {level : Nat} (h : step st a = some st')
    (hr : Routes st st' c s level) :
    ∃ p, a.publishOf = some (p, c) ∧ p.iMsgSeq = s ∧ p.confirmLevel = level ∧
      Stores st p c st' := by
  obtain ⟨new, hlog, hmem⟩ := hr
  have hnone : st'.publishLog = st.publishLog → False := by
    intro hsame
    rw [hsame] at hlog
    have hnil := List.append_right_eq_self.mp hlog.symm
    rw [hnil] at hmem
    cases hmem
  cases step_effect h with
  | same hs => exact (hnone hs.log).elim
  | exits d ha hv => exact (hnone (congrArg (fun v => v.2.2) hv)).elim
  | stores p c' ha hs =>
    rw [hs.log, List.append_cancel_left_eq] at hlog
    rw [← hlog] at hmem
    cases List.eq_of_mem_replicate hmem
    exact ⟨p, ha, rfl, rfl, hs⟩

/-- After a publish with one of the two confirm levels was routed in some state, none with
the same number from the same client is routed, as long as that client does not exit,
nor one whose decimal index begins the decimal index of that client. -/
theorem confirmed_publish_routed_once {mid : List Step} {a b : Step}
    {st₁ st₂ st₃ st₄ : LogicServer} {c s : Int} {level level' : Nat}
    (ha : step st₁ a = some st₂) (hmid : run st₂ mid = some st₃) (hb : step st₃ b = some st₄)
    (hrouted : Routes st₁ st₂ c s level)
    (hlevel : level = producerSingleAck ∨ level = producerMutilAck)
    (hself : ∀ x ∈ mid, x.exitOf ≠ some c)
    (hothers : ∀ x ∈ mid, ∀ d, x.exitOf = some d → d ≠ c → ¬ toString d <+: toString c)
    (hlevel' : 0 < level') : ¬ Routes st₃ st₄ c s level' := by
  intro hagain
  obtain ⟨p, _, hseq, hconfirm, hstores⟩ := stores_of_routes ha hrouted
  have hkey : msgSeqKey c s ∈ st₂.producerMsgSeqs := by
    refine (hstores.msgSeqs _).mpr (Or.inr ⟨by rw [hseq], ?_⟩)
    rw [hconfirm]
    exact hlevel
  have hkey : msgSeqKey c s ∈ st₃.producerMsgSeqs := by
    refine key_mem_of_run hkey (fun x hx d hd => ?_) hmid
    have hne : d ≠ c := fun he => hself x hx (he ▸ hd)
    exact hothers x hx d hd hne
  obtain ⟨p', _, hseq', hconfirm', hstores'⟩ := stores_of_routes hb hagain
  refine hstores'.fresh ⟨?_, ?_⟩
  · rw [hconfirm']
    exact hlevel'
  · rw [hseq']
    exact hkey

end Steps

section Runs

attribute [local instance] Platform.plain

/-- Client 3 makes a queue with an exchange that leads to it. -/
def setUp : List Step := [.makeQueue 3 false, .makeExchange 3, .makeBinding 3]

/-- Client 12 publishes, another client exits, client 12 publishes again. -/
def publishTwice (iClientIndex : Int) : List Step :=
  setUp ++ .publish 12 false 0 1 :: [.exit iClientIndex] ++ [.publish 12 false 0 1]

theorem routes_of_logs {s st st' : LogicServer} {as bs : List Step}
    {l : List (Int × Int × Nat)} {x : Int × Int × Nat} (h : run s as = some st)
    (h' : run s bs = some st') (hl : (run s as).map publishLog = some l)
    (hnew : (run s bs).map publishLog = some (l ++ [x])) : Routes st st' x.1 x.2.1 x.2.2 := by
  rw [h] at hl
  rw [h'] at hnew
  refine ⟨[x], ?_, List.mem_cons_self⟩
  rw [Option.some.inj hl, Option.some.inj hnew]

theorem confirmed_publish_routed_once_of_exit_3 :
    ∃ st₁ st₂ st₃ st₄, run (start none none) setUp = some st₁ ∧
      step st₁ (.publish 12 false 0 1) = some st₂ ∧ run st₂ [.exit 3] = some st₃ ∧
      step st₃ (.publish 12 false 0 1) = some st₄ ∧ Routes st₁ st₂ 12 0 1 ∧
      ¬ Routes st₃ st₄ 12 0 1 := by
  have hsome : (run (start none none) (publishTwice 3)).isSome := by decide +kernel
  obtain ⟨st₁, st₂, st₃, st₄, h₁, ha, hmid, hb, h₂, _⟩ := Runs.run_segment hsome
  have hroutes : Routes st₁ st₂ 12 0 1 :=
    routes_of_logs h₁ h₂ (l := []) (x := (12, 0, 1)) (by decide +kernel)
      (by decide +kernel)
  refine ⟨st₁, st₂, st₃, st₄, h₁, ha, hmid, hb, hroutes, ?_⟩
  exact confirmed_publish_routed_once ha hmid hb hroutes (Or.inl rfl) (by decide +kernel)
    (by
      intro x hx d hd _
      obtain rfl := List.mem_singleton.mp hx
      have hexit : Step.exitOf (.exit 3) = some 3 := by decide +kernel
      cases hexit.symm.trans hd
      decide +kernel) (by decide)

/-- The exit of client 1 makes the server forget the publish of client 12. -/
theorem exit_1_forgets_publish_of_12 :
    ∃ st₁ st₂ st₃ st₄, run (start none none) setUp = some st₁ ∧
      step st₁ (.publish 12 false 0 1) = some st₂ ∧ run st₂ [.exit 1] = some st₃ ∧
      step st₃ (.publish 12 false 0 1) = some st₄ ∧ Routes st₁ st₂ 12 0 1 ∧
      (∀ x ∈ [Step.exit 1], x.exitOf ≠ some 12) ∧ Routes st₃ st₄ 12 0 1 := by
  have hsome : (run (start none none) (publishTwice 1)).isSome := by decide +kernel
  obtain ⟨st₁, st₂, st₃, st₄, h₁, ha, hmid, hb, h₂, h₃, h₄⟩ := Runs.run_segment hsome
  refine ⟨st₁, st₂, st₃, st₄, h₁, ha, hmid, hb, ?_, by decide +kernel, ?_⟩
  · exact routes_of_logs h₁ h₂ (l := []) (x := (12, 0, 1)) (by decide +kernel)
      (by decide +kernel)
  · exact routes_of_logs h₃ h₄ (l := [(12, 0, 1)]) (x := (12, 0, 1)) (by decide +kernel)
      (by decide +kernel)

end Runs

end Wsmq.LogicServer
