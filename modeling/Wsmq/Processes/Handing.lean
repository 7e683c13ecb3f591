import Wsmq.Client.Consuming
import Wsmq.LogicServer.ClientAck
import Wsmq.LogicServer.Removals
import Wsmq.LogicServer.SentMessages
import Wsmq.Processes.Answers

/-!
# What a consumer is sent

`ConsumeMessage` and `RecvMessage` take a package for a message, whatever it is.  The first letters
of a reply are a number then, and none that a message has.
-/

namespace Wsmq
open Lib Lib.ByteString Lib.Packing Lib.Fifo

/-- A number for an acknowledgement, as long as fewer have been given. -/
def IsAckSeq (n : Int) : Prop := 0 ≤ n ∧ n < 2 ^ 30

instance : DecidablePred IsAckSeq := fun _ => inferInstanceAs (Decidable (_ ∧ _))

namespace LogicServer

/-- The package of this message. -/
def IsCopy (pack : Bytes) (m : SeverStoreMessage) : Prop :=
  TakenAs pack (m.confirmLevel % 2 ^ 8) m.msgSeq m.msgBody

theorem isCopy_sent {m : SeverStoreMessage} (h : Proper m) (hseq : FitsInt 4 m.msgSeq) :
    IsCopy (m.getMessagePack zeroed maxServerPackageLength).sent m := by
  obtain ⟨-, hpack⟩ := SeverStoreMessage.sent_isPack h.body h.cmdId
  refine ⟨Nat.mod_lt _ (by decide), hseq, m.cmdId, ?_⟩
  rwa [messageData_level]

/-- It is taken for one of these messages if its number may be that of a message. -/
def TakenAmong (new : List SeverStoreMessage) (pack : Bytes) : Prop :=
  ∃ level seq body, TakenAs pack level seq body ∧
    (IsAckSeq seq → ∃ m ∈ new, m.msgSeq = seq ∧ m.msgBody = body)

section

variable [Platform] {st st' st'' : LogicServer} {c : Int} {packs packs' : List Bytes}
  {new new' : List SeverStoreMessage}

/-- From `st` to `st'` only the packages `packs` are sent and only the messages `new` wait for an
acknowledgement from then on, as far as client `c` can tell. -/
structure Hands (c : Int) (st st' : LogicServer) (packs : List Bytes)
    (new : List SeverStoreMessage) : Prop where
  cap : st'.queueToConnect.cap = none
  items : st'.queueToConnect.items = st.queueToConnect.items ++ packs
  list : st'.needAckMessageList.Perm (st.needAckMessageList ++ new)
  ackSeq : st'.ackSeq % 2 ^ 32 = (st.ackSeq + new.length) % 2 ^ 32
  numbers : ∀ lo, st.ackSeq % 2 ^ 32 = lo % 2 ^ 32 →
    new.map (·.msgSeq) = (List.range' lo new.length).map seqOf
  copies : ∀ pack ∈ packs, GoesTo c pack → TakenAmong new pack

namespace Hands

/-- Nothing for the client is sent. -/
theorem quiet (hcap : st'.queueToConnect.cap = none)
    (hitems : st'.queueToConnect.items = st.queueToConnect.items ++ packs)
    (hpacks : ∀ pack ∈ packs, ¬ GoesTo c pack)
    (hlist : st'.needAckMessageList.Perm st.needAckMessageList) (hseq : st'.ackSeq = st.ackSeq) :
    Hands c st st' packs [] := by
  refine ⟨hcap, hitems, ?_, by rw [hseq]; rfl, fun _ _ => rfl,
    fun pack hpack hgoes => absurd hgoes (hpacks pack hpack)⟩
  rwa [List.append_nil]

/-- The channel is left alone. -/
theorem silent (hcap : st.queueToConnect.cap = none)
    (hconnect : st'.queueToConnect = st.queueToConnect)
    (hlist : st'.needAckMessageList.Perm st.needAckMessageList) (hseq : st'.ackSeq = st.ackSeq) :
    Hands c st st' [] [] :=
  .quiet (by rw [hconnect, hcap]) (by rw [hconnect, List.append_nil]) (fun _ h => nomatch h) hlist
    hseq

theorem trans (h : Hands c st st' packs new) (h' : Hands c st' st'' packs' new') :
    Hands c st st'' (packs ++ packs') (new ++ new') := by
  refine ⟨h'.cap, ?_, ?_, ?_, fun lo hlo => ?_, fun pack hpack hgoes => ?_⟩
  · rw [h'.items, h.items, List.append_assoc]
  · rw [← List.append_assoc]
    exact h'.list.trans (h.list.append_right _)
  · have hseq := h.ackSeq
    have hseq' := h'.ackSeq
    rw [List.length_append]
    omega
  · have hmid : st'.ackSeq % 2 ^ 32 = (lo + new.length) % 2 ^ 32 := by
      have hseq := h.ackSeq
      omega
    rw [List.map_append, h.numbers lo hlo, h'.numbers _ hmid, List.length_append,
      ← List.range'_append_1, List.map_append]
  · rcases List.mem_append.mp hpack with hpack | hpack
    · obtain ⟨level, seq, body, htaken, hnew⟩ := h.copies pack hpack hgoes
      refine ⟨level, seq, body, htaken, fun hseq => ?_⟩
      obtain ⟨m, hm, hsame⟩ := hnew hseq
      exact ⟨m, List.mem_append_left _ hm, hsame⟩
    · obtain ⟨level, seq, body, htaken, hnew⟩ := h'.copies pack hpack hgoes
      refine ⟨level, seq, body, htaken, fun hseq => ?_⟩
      obtain ⟨m, hm, hsame⟩ := hnew hseq
      exact ⟨m, List.mem_append_right _ hm, hsame⟩

end Hands

/-! ## Messages -/

theorem sendAwaited_hands {m : SeverStoreMessage} {iLen : Nat}
    (h : st.sendAwaited m iLen = some st') (hlen : iLen = maxServerPackageLength)
    (hcap : st.queueToConnect.cap = none) (hm : Proper m) (hseq : m.msgSeq = st.ackSeqInt) :
    ∃ packs, Hands c st st' packs [m] := by
  unfold sendAwaited at h
  obtain ⟨hcap', hitems⟩ := enqueueConnectWait_items h hcap
  have hsame := enqueueConnectWait_some h
  have hcopy := isCopy_sent hm (hseq ▸ fitsInt_ackSeqInt st)
  rw [← hlen] at hcopy
  refine ⟨_, hcap', hitems, ?_, ?_, fun lo hlo => ?_, fun pack hpack _ => ?_⟩
  · rw [hsame]
    exact .refl _
  · rw [hsame]
    exact Nat.mod_mod _ _
  · show [m.msgSeq] = [seqOf lo]
    rw [hseq, ackSeqInt_eq hlo]
  · cases List.mem_singleton.mp hpack
    exact ⟨_, _, _, hcopy, fun _ => ⟨m, List.mem_singleton_self m, rfl, rfl⟩⟩

omit [Platform] in
theorem takenAmong_unnumbered {pack : Bytes} {m : SeverStoreMessage} (hcopy : IsCopy pack m)
    (hseq : m.msgSeq = -1) : TakenAmong [] pack := by
  have hnot : ¬ IsAckSeq (-1) := by decide
  exact ⟨_, _, _, hcopy, fun hnumber => absurd (hseq ▸ hnumber) hnot⟩

/-- One package goes out that is taken for no message. -/
theorem hands_unnumbered {pack : Bytes} (hcarried : TakenAmong [] pack)
    (hcap : st'.queueToConnect.cap = none)
    (hitems : st'.queueToConnect.items = st.queueToConnect.items ++ [pack])
    (hlist : st'.needAckMessageList = st.needAckMessageList) (hsame : st'.ackSeq = st.ackSeq) :
    Hands c st st' [pack] [] := by
  refine ⟨hcap, hitems, ?_, by rw [hsame]; rfl, fun _ _ => rfl, fun b hb _ => ?_⟩
  · rw [hlist, List.append_nil]
  · cases List.mem_singleton.mp hb
    exact hcarried

theorem pushOne_hands {q : MessageQueue} {m : SeverStoreMessage} (h : st.pushOne q m = some st')
    (hcap : st.queueToConnect.cap = none) (hm : Proper m) :
    ∃ packs new, Hands c st st' packs new := by
  unfold pushOne at h
  split at h
  · obtain ⟨packs, hhands⟩ := sendAwaited_hands h rfl hcap ⟨hm.body, Or.inr rfl⟩ (by dsimp only)
    exact ⟨packs, _, hhands⟩
  · obtain ⟨st₁, hsend, rfl⟩ := Option.map_eq_some_iff.mp h
    obtain ⟨hcap', hitems⟩ := enqueueConnectWait_items hsend hcap
    have hsame := enqueueConnectWait_some hsend
    have hcopy := isCopy_sent (m := { m with cmdId := cmdServerPushMessage, msgSeq := -1 })
      ⟨hm.body, Or.inr rfl⟩ fitsInt_neg_one
    rw [sendConsumed, sendPersis_eq]
    refine ⟨_, _, hands_unnumbered (takenAmong_unnumbered hcopy rfl) hcap' hitems ?_ ?_⟩
    · rw [hsame]
      rfl
    · rw [hsame]
      rfl

theorem pushQueue_hands {queue : QueueId} {fuel : Nat} (h : pushQueue queue fuel st = some st')
    (hcap : st.queueToConnect.cap = none) (hall : AllProper st) :
    ∃ packs new, Hands c st st' packs new := by
  induction fuel generalizing st with
  | zero =>
    cases h
    exact ⟨[], [], .silent hcap rfl (.refl _) rfl⟩
  | succ fuel ih =>
    simp only [pushQueue] at h
    split at h
    · cases h
    next q hq =>
    split at h
    · cases h
      exact ⟨[], [], .silent hcap rfl (.refl _) rfl⟩
    next m q' hpop =>
    obtain ⟨st₁, hone, hrest⟩ := Option.bind_eq_some_iff.mp h
    have hpopped := MessageQueue.popFrontMsg_some hpop
    obtain ⟨hm, -⟩ := hall.popped hq hpopped
    have heffects := @pushOne_effects _ (fun _ => True) _ _ trivial trivial _ _ _ _ hq hpopped hone
    have hall₁ : AllProper st₁ := heffects.allProper hall
    have hset : Hands c st (st.setQueue queue q') [] [] := .silent hcap rfl (.refl _) rfl
    obtain ⟨packs, new, hhands⟩ := pushOne_hands (c := c) hone hcap hm
    obtain ⟨packs', new', hhands'⟩ := ih hrest hhands.cap hall₁
    exact ⟨_, _, (hset.trans hhands).trans hhands'⟩

/-- By induction on the number of entries left, since the loop may skip one. -/
theorem pushLoop_hands (k : Nat) {entries : List (Σ _ : Name, QueueId)} (hk : entries.length ≤ k)
    (h : pushLoop entries st = some st') (hcap : st.queueToConnect.cap = none)
    (hall : AllProper st) : ∃ packs new, Hands c st st' packs new := by
  induction k generalizing entries st with
  | zero =>
    cases List.length_eq_zero_iff.mp (Nat.le_zero.mp hk)
    cases h
    exact ⟨[], [], .silent hcap rfl (.refl _) rfl⟩
  | succ k ih =>
    cases entries with
    | nil =>
      cases h
      exact ⟨[], [], .silent hcap rfl (.refl _) rfl⟩
    | cons e rest =>
      have hrest : rest.length ≤ k := Nat.le_of_succ_le_succ hk
      simp only [pushLoop] at h
      split at h
      · cases h
      next q hq =>
      split at h
      · obtain ⟨st₁, hqueue, hloop⟩ := Option.bind_eq_some_iff.mp h
        have hall₁ : AllProper st₁ :=
          (@pushQueue_effects _ (fun _ => True) trivial trivial _ _ _ _ hqueue).allProper hall
        obtain ⟨packs, new, hhands⟩ := pushQueue_hands (c := c) hqueue hcap hall
        obtain ⟨packs', new', hhands'⟩ := ih hrest hloop hhands.cap hall₁
        exact ⟨_, _, hhands.trans hhands'⟩
      · split at h
        · cases h
        next e' rest' =>
        have hmove : Hands c st ((st.eraseSubcribe e'.1).insertUnSubcribe q.queueName e.2) [] [] :=
          .silent hcap rfl (.refl _) rfl
        obtain ⟨packs, new, hhands⟩ :=
          ih (Nat.le_of_succ_le hrest) h hcap ⟨hall.stored, hall.pending⟩
        exact ⟨_, _, hmove.trans hhands⟩

theorem onRecvMessage_hands {buf : Mem} {k : Int} {o : Outcome}
    (h : st.onRecvMessage buf k = some o) (hcap : st.queueToConnect.cap = none)
    (hall : AllProper st) : ∃ packs new, Hands c st o.server packs new := by
  obtain ⟨n, _, h⟩ := onRecvMessage_some h
  dsimp only [recvMessage] at h
  split at h
  · cases h
    exact ⟨[], [], .silent hcap rfl (.refl _) rfl⟩
  next queue hfind =>
  obtain ⟨q, hq, h⟩ := Option.bind_eq_some_iff.mp h
  split at h
  · cases h
    exact ⟨[], [], .silent hcap rfl (.refl _) rfl⟩
  next m q' hpop =>
  obtain ⟨st₁, hsend, rfl⟩ := Option.map_eq_some_iff.mp h
  obtain ⟨hm, -⟩ := hall.popped hq (MessageQueue.popFrontMsg_some hpop)
  have hset : Hands c st (st.setQueue queue q') [] [] := .silent hcap rfl (.refl _) rfl
  unfold sendPulled at hsend
  dsimp only at hsend
  split at hsend
  · obtain ⟨packs, hhands⟩ := sendAwaited_hands (c := c) hsend rfl hcap ⟨hm.body, hm.cmdId⟩
      (by dsimp only)
    exact ⟨_, _, hset.trans hhands⟩
  · have hcopy := isCopy_sent (m := { m with index := k, msgSeq := -1 }) ⟨hm.body, hm.cmdId⟩
      fitsInt_neg_one
    rw [sendConsumed, sendPersis_eq] at hsend
    have hsame := enqueueConnectWait_some hsend
    obtain ⟨hcap', hitems⟩ := enqueueConnectWait_items hsend hcap
    refine ⟨_, _, hands_unnumbered (takenAmong_unnumbered hcopy rfl) hcap' hitems ?_ ?_⟩
    · rw [hsame]
      rfl
    · rw [hsame]
      rfl

/-! ## Handlers that send no message -/

/-- They may put the messages in another order. -/
theorem Effects.pending_same (h : Effects (Eq Kind.other) st st') :
    st'.needAckMessageList.Perm st.needAckMessageList ∧ st'.ackSeq = st.ackSeq := by
  refine @Effects.invariant _ _ _ _ (fun s =>
    s.needAckMessageList.Perm st.needAckMessageList ∧ s.ackSeq = st.ackSeq)
    (fun s k t hi hk he => ?_) ⟨.refl _, rfl⟩ h
  cases he with
  | arrange l hperm => exact ⟨hperm.symm.trans hi.1, hi.2⟩
  | await | deliver | ack | giveBack | forget => cases hk
  | _ => exact hi

/-- Neither pulling nor acknowledging nor leaving. -/
def Keeping (iCmdId : Nat) : Prop :=
  iCmdId ≠ cmdCreateRecv ∧ iCmdId ≠ cmdClientAckMessage ∧ iCmdId ≠ cmdClientExit

theorem dispatch_keeps {p : Package} {o : Outcome} (hl : Linked st) (hcmd : Keeping p.cmdId)
    (h : st.dispatch p = some o) :
    o.server.needAckMessageList.Perm st.needAckMessageList ∧ o.server.ackSeq = st.ackSeq := by
  obtain ⟨hpull, hack, hexit⟩ := hcmd
  apply Effects.pending_same
  unfold dispatch at h
  rcases ite_eq_some h with ⟨_, h⟩ | ⟨_, h⟩
  · exact onCreateExchange_effects rfl h
  rcases ite_eq_some h with ⟨_, h⟩ | ⟨_, h⟩
  · exact onCreateQueue_effects rfl h
  rcases ite_eq_some h with ⟨_, h⟩ | ⟨_, h⟩
  · exact onCreateBinding_effects rfl h
  rcases ite_eq_some h with ⟨_, h⟩ | ⟨_, h⟩
  · obtain ⟨pub, hdecode, hpub⟩ := Option.bind_eq_some_iff.mp h
    exact publish_effects rfl (decodePublish_body_le hdecode) hpub
  rcases ite_eq_some h with ⟨h, _⟩ | ⟨_, h⟩
  · exact absurd h hpull
  rcases ite_eq_some h with ⟨_, h⟩ | ⟨_, h⟩
  · exact onCreateSubscribe_effects rfl hl h
  rcases ite_eq_some h with ⟨_, h⟩ | ⟨_, h⟩
  · exact onDeleteExchange_effects rfl h
  rcases ite_eq_some h with ⟨_, h⟩ | ⟨_, h⟩
  · exact onDeleteQueue_effects rfl hl h
  rcases ite_eq_some h with ⟨_, h⟩ | ⟨_, h⟩
  · exact onCancelSubscribe_effects rfl hl h
  rcases ite_eq_some h with ⟨h, _⟩ | ⟨_, h⟩
  · exact absurd h hack
  rcases ite_eq_some h with ⟨h, _⟩ | ⟨_, h⟩
  · exact absurd h hexit
  · cases h
    exact .refl _

/-! ## Replies -/

/-- What the replies to the requests of a consumer begin with. -/
def replyTexts : List Bytes :=
  [reExchangeExist, reDurableFailed, reCreateExchangeSuccess, reQueueExist, reCreateQueueSuccess,
    reExchangeNotExist, reQueueNotExist, reBindingFailed, reBindingSucceed, reQueueIsEmpty,
    reSubscribeFailed, reSubscribeSucceed, reDeleteExchangeFailed, reDeleteExchangeSucceed,
    reDeleteQueueFailed, reDeleteQueueSucceed]

def IsReplyText (text : Bytes) : Prop :=
  ∃ pre ∈ replyTexts, ∃ n : Name, text = pre ++ n ∧ n.length < maxNameLength

/-- The commands of a consumer's requests; `CancelSubscribe` sends `CMD_DELETE_QUEUE`. -/
def IsRequestCmd (iCmdId : Nat) : Prop :=
  iCmdId ∈ [cmdCreateExcnange, cmdCreateQueue, cmdCreateBinding, cmdCreateRecv, cmdCreateSubcribe,
    cmdDeleteExchange, cmdDeleteQueue]

section Texts

variable {pre : Bytes} {n : Name} {buf : Mem} {a iLen : Nat} {o : Outcome}

omit [Platform] in
theorem isReplyText_name (hpre : pre ∈ replyTexts) (hn : readName buf a = some n) :
    IsReplyText (pre ++ n) := ⟨pre, hpre, n, rfl, readName_length hn⟩

omit [Platform] in
theorem isReplyText_self (hpre : pre ∈ replyTexts) : IsReplyText pre :=
  ⟨pre, hpre, [], (List.append_nil _).symm, by decide⟩

theorem onCreateExchange_text (h : st.onCreateExchange buf iLen = some o) :
    IsReplyText o.strMsgBody := by
  obtain ⟨n, hn, rfl⟩ := onCreateExchange_some h
  dsimp only [createExchange]
  split
  · exact isReplyText_name (by simp [replyTexts]) hn
  · split <;> exact isReplyText_self (by simp [replyTexts])

theorem onCreateQueue_text (h : st.onCreateQueue buf iLen = some o) :
    IsReplyText o.strMsgBody := by
  obtain ⟨n, hn, rfl⟩ := onCreateQueue_some h
  dsimp only [createQueue]
  split
  · exact isReplyText_name (by simp [replyTexts]) hn
  · split <;> exact isReplyText_self (by simp [replyTexts])

theorem onCreateBinding_text (h : st.onCreateBinding buf = some o) : IsReplyText o.strMsgBody := by
  obtain ⟨strExchangeName, strQueueName, strBindingKey, hexchange, hqueue, hkey, h⟩ :=
    onCreateBinding_some h
  dsimp only [createBinding] at h
  split at h
  · cases h
    exact isReplyText_name (by simp [replyTexts]) hexchange
  · cases h
    exact isReplyText_name (by simp [replyTexts]) hqueue
  · obtain ⟨r, _, rfl⟩ := Option.map_eq_some_iff.mp h
    split <;> exact isReplyText_name (by simp [replyTexts]) hkey

theorem onRecvMessage_text {k : Int} (h : st.onRecvMessage buf k = some o) :
    o.strMsgBody = [] ∨ IsReplyText o.strMsgBody := by
  obtain ⟨n, hn, h⟩ := onRecvMessage_some h
  dsimp only [recvMessage] at h
  split at h
  · cases h
    exact Or.inr (isReplyText_name (by simp [replyTexts]) hn)
  · obtain ⟨q, _, h⟩ := Option.bind_eq_some_iff.mp h
    split at h
    · cases h
      exact Or.inr (isReplyText_name (by simp [replyTexts]) hn)
    · obtain ⟨_, _, rfl⟩ := Option.map_eq_some_iff.mp h
      exact Or.inl rfl

theorem onCreateSubscribe_text {k : Int} (h : st.onCreateSubscribe buf k = some o) :
    IsReplyText o.strMsgBody ∧ o.server.queueToConnect = st.queueToConnect := by
  obtain ⟨n, hn, h⟩ := onCreateSubscribe_some h
  dsimp only [createSubscribe] at h
  split at h
  · cases h
    exact ⟨isReplyText_name (by simp [replyTexts]) hn, rfl⟩
  · obtain ⟨q, _, h⟩ := Option.bind_eq_some_iff.mp h
    obtain ⟨r, hsend, rfl⟩ := Option.map_eq_some_iff.mp h
    have hconnect : r.2.queueToConnect = st.queueToConnect := by
      rw [sendSubscribers_eq hsend]
      rfl
    split
    · exact ⟨isReplyText_name (by simp [replyTexts]) hn, hconnect⟩
    · split <;> exact ⟨isReplyText_name (by simp [replyTexts]) hn, hconnect⟩

theorem onDeleteExchange_text (h : st.onDeleteExchange buf iLen = some o) :
    IsReplyText o.strMsgBody := by
  obtain ⟨n, hn, rfl⟩ := onDeleteExchange_some h
  dsimp only [deleteExchange]
  split
  · exact isReplyText_name (by simp [replyTexts]) hn
  · split <;> exact isReplyText_name (by simp [replyTexts]) hn

theorem onDeleteQueue_text (h : st.onDeleteQueue buf iLen = some o) :
    IsReplyText o.strMsgBody := by
  obtain ⟨n, hn, h⟩ := onDeleteQueue_some h
  dsimp only [deleteQueue] at h
  split at h
  · cases h
    exact isReplyText_name (by simp [replyTexts]) hn
  · obtain ⟨q, _, rfl⟩ := Option.map_eq_some_iff.mp h
    split <;> exact isReplyText_name (by simp [replyTexts]) hn

end Texts

omit [Platform] in
/-- No message gets the number that the letters are. -/
theorem replyTexts_number : ∀ pre ∈ replyTexts, 4 ≤ pre.length ∧ pre.length ≤ 50 ∧
    ¬ IsAckSeq (ofBeInt (pre.take 4)) := by decide

omit [Platform] in
theorem replyData_eq (bSucceed : Bool) (text : Bytes) :
    replyData bSucceed text = (if bSucceed then 1 else 0) :: (text ++ [0]) := by
  cases bSucceed <;> simp [replyData, writeBool, pad]

omit [Platform] in
theorem IsReplyText.carried {text : Bytes} {ok : Bool} (h : IsReplyText text) :
    TakenAmong [] ((⟨c, ok, text⟩ : ActReplyMessage).getMessagePack zeroed
      (text.length + sizeofClientPackageHead + 1 + 1 : Nat)).sent := by
  obtain ⟨pre, hpre, n, rfl, hn⟩ := h
  obtain ⟨hlong, hshort, hnumber⟩ := replyTexts_number pre hpre
  have hname : maxNameLength = 32 := rfl
  have hhead : sizeofClientPackageHead = 8 := rfl
  have hmax : maxClintPackageLength = 11264 := rfl
  have hpack := ActReplyMessage.sent_is (m := ⟨c, ok, pre ++ n⟩)
    (by rw [List.length_append]; omega)
  have hdata := takenAs_of_data hpack (by
    rw [replyData_eq, List.length_cons, List.length_append, List.length_append]
    omega)
  rw [replyData_eq, List.drop_succ_cons, List.drop_zero, List.append_assoc,
    List.take_append_of_le_length hlong] at hdata
  exact ⟨_, _, _, hdata, fun hseq => absurd hseq hnumber⟩

/-- The reply to a request, if there is one. -/
theorem reply_hands {o : Outcome} (hcap : o.server.queueToConnect.cap = none)
    (htext : o.strMsgBody = [] ∨ IsReplyText o.strMsgBody) :
    ∃ packs, Hands c o.server (reply o c) packs [] := by
  unfold reply
  split
  · exact ⟨[], .silent hcap rfl (.refl _) rfl⟩
  · next hsome =>
    have hcarried := @IsReplyText.carried c _ (decide (o.ret = success)) (htext.resolve_left hsome)
    obtain ⟨-, hcap', hitems⟩ := @ShmQueue.Fifo.call_enqueue_of_fits o.server.queueToConnect
      ((⟨c, decide (o.ret = success), o.strMsgBody⟩ : ActReplyMessage).getMessagePack zeroed
        (o.strMsgBody.length + sizeofClientPackageHead + 1 + 1 : Nat)).sent (by simp [hcap])
    exact ⟨_, hands_unnumbered hcarried (hcap'.trans hcap) hitems rfl rfl⟩

/-- A request of the consumer is answered. -/
theorem dispatch_hands {p : Package} {o : Outcome} (hl : Linked st) (hall : AllProper st)
    (hcap : st.queueToConnect.cap = none) (hcmd : IsRequestCmd p.cmdId)
    (h : st.dispatch p = some o) :
    (o.strMsgBody = [] ∨ IsReplyText o.strMsgBody) ∧
      ∃ packs new, Hands c st o.server packs new := by
  by_cases hpull : p.cmdId = cmdCreateRecv
  · have hrecv : st.onRecvMessage p.body p.clientIndex = some o := by
      rw [← h, dispatch, hpull]
      rfl
    exact ⟨onRecvMessage_text hrecv, onRecvMessage_hands hrecv hcap hall⟩
  have hkeeping : Keeping p.cmdId := by
    simp only [IsRequestCmd, List.mem_cons, List.not_mem_nil, or_false] at hcmd
    refine ⟨hpull, ?_, ?_⟩ <;> rintro heq <;> rw [heq] at hcmd <;> revert hcmd <;> decide
  obtain ⟨hlist, hseq⟩ := dispatch_keeps hl hkeeping h
  have hquiet : ∀ {st₁ : LogicServer}, Processes.Concerns (fun _ => False) st st₁ →
      st₁ = o.server → ∃ packs new, Hands c st o.server packs new := by
    rintro st₁ hconcerns rfl
    obtain ⟨packs, hitems, hpacks⟩ := hconcerns.sent
    exact ⟨packs, [], .quiet (hconcerns.cap.trans hcap) hitems
      (fun pack hpack hgoes => hpacks pack hpack hgoes.1) hlist hseq⟩
  simp only [IsRequestCmd, List.mem_cons, List.not_mem_nil, or_false] at hcmd
  unfold dispatch at h
  rcases ite_eq_some h with ⟨_, h⟩ | ⟨hexchange, h⟩
  · exact ⟨Or.inr (onCreateExchange_text h), hquiet (Processes.concerns_onCreateExchange h) rfl⟩
  rcases ite_eq_some h with ⟨_, h⟩ | ⟨hqueue, h⟩
  · exact ⟨Or.inr (onCreateQueue_text h), hquiet (Processes.concerns_onCreateQueue h) rfl⟩
  rcases ite_eq_some h with ⟨_, h⟩ | ⟨hbinding, h⟩
  · exact ⟨Or.inr (onCreateBinding_text h), hquiet (Processes.concerns_onCreateBinding h) rfl⟩
  rcases ite_eq_some h with ⟨heq, _⟩ | ⟨_, h⟩
  · rw [heq] at hcmd
    exact absurd hcmd (by decide)
  rcases ite_eq_some h with ⟨heq, _⟩ | ⟨_, h⟩
  · exact absurd heq hpull
  rcases ite_eq_some h with ⟨_, h⟩ | ⟨hsubscribe, h⟩
  · obtain ⟨htext, hconnect⟩ := onCreateSubscribe_text h
    exact ⟨Or.inr htext, [], [], .silent hcap hconnect hlist hseq⟩
  rcases ite_eq_some h with ⟨_, h⟩ | ⟨hdelete, h⟩
  · exact ⟨Or.inr (onDeleteExchange_text h), hquiet (Processes.concerns_onDeleteExchange h) rfl⟩
  rcases ite_eq_some h with ⟨_, h⟩ | ⟨hdelQueue, h⟩
  · exact ⟨Or.inr (onDeleteQueue_text h), hquiet (Processes.concerns_onDeleteQueue h) rfl⟩
  · rcases hcmd with heq | heq | heq | heq | heq | heq | heq <;> contradiction

/-! ## What a step does for one client -/

/-- From `st` to `st'` the packages `packs` are sent, the messages `new` wait from then on, and of
those that wait for client `c` only the ones whose number is `gone` leave. -/
structure Serves (c : Int) (gone : Int → Prop) (st st' : LogicServer) (packs : List Bytes)
    (new : List SeverStoreMessage) : Prop where
  cap : st'.queueToConnect.cap = none
  items : st'.queueToConnect.items = st.queueToConnect.items ++ packs
  kept : ∀ m ∈ st.needAckMessageList, m.index = c →
    m ∈ st'.needAckMessageList ∨ gone m.msgSeq
  only : ∀ m ∈ st'.needAckMessageList, m ∈ st.needAckMessageList ∨ m ∈ new
  isNew : ∀ m ∈ new, m ∈ st'.needAckMessageList
  grown : new.length ≤ st'.needAckMessageList.length - st.needAckMessageList.length
  numbers : ∀ lo, st.ackSeq % 2 ^ 32 = lo % 2 ^ 32 →
    new.map (·.msgSeq) = (List.range' lo new.length).map seqOf
  copies : ∀ pack ∈ packs, GoesTo c pack → TakenAmong new pack

theorem Hands.serves (h : Hands c st st' packs new) :
    Serves c (fun _ => False) st st' packs new := by
  refine ⟨h.cap, h.items, fun m hm _ => Or.inl ?_, fun m hm => ?_, fun m hm => ?_, ?_, h.numbers,
    h.copies⟩
  · exact h.list.mem_iff.mpr (List.mem_append_left _ hm)
  · exact List.mem_append.mp (h.list.mem_iff.mp hm)
  · exact h.list.mem_iff.mpr (List.mem_append_right _ hm)
  · rw [h.list.length_eq, List.length_append, Nat.add_sub_cancel_left]

/-- Messages leave the list at most, and nothing for the client is sent. -/
theorem serves_quiet {gone : Int → Prop} (hcap : st'.queueToConnect.cap = none)
    (hitems : st'.queueToConnect.items = st.queueToConnect.items ++ packs)
    (hpacks : ∀ pack ∈ packs, ¬ GoesTo c pack)
    (hkept : ∀ m ∈ st.needAckMessageList, m.index = c →
      m ∈ st'.needAckMessageList ∨ gone m.msgSeq)
    (honly : ∀ m ∈ st'.needAckMessageList, m ∈ st.needAckMessageList) :
    Serves c gone st st' packs [] := by
  refine ⟨hcap, hitems, hkept, fun m hm => Or.inl (honly m hm), fun _ hm => (nomatch hm),
    Nat.zero_le _, fun _ _ => rfl, fun pack hpack hgoes => absurd hgoes (hpacks pack hpack)⟩

theorem needAck_exit {k : Int} (h : st.onClientExit k = some st') :
    st'.needAckMessageList = st.needAckMessageList.filter fun m => ¬ m.index = k := by
  obtain ⟨st₁, hqueues, hneed⟩ := Option.bind_eq_some_iff.mp h
  obtain ⟨st₂, hrequeue, rfl⟩ := Option.map_eq_some_iff.mp hneed
  have hkept := exitQueues_needAck _ hqueues
  have hsame : st₂.needAckMessageList = st.needAckMessageList :=
    (requeue_needAck _ hrequeue).trans hkept
  exact congrArg (List.filter fun m => ¬ m.index = k) hsame

theorem mem_ackSingle {buf : Mem} {k : Int} {m : SeverStoreMessage}
    (hm : m ∈ st.needAckMessageList) :
    m ∈ (st.onClientAck buf k).needAckMessageList ∨ m.msgSeq = ackedSeq buf := by
  by_cases hseq : m.msgSeq = ackedSeq buf
  · exact Or.inr hseq
  · rw [needAck_onClientAck]
    exact Or.inl ((List.mem_eraseP_of_neg (by simpa using hseq)).mpr hm)

/-- A package of another client, which acknowledges no message of this one. -/
theorem package_serves {p : Package} (hl : Linked st) (hall : AllProper st)
    (hcap : st.queueToConnect.cap = none) (hpos : 0 < c) (hother : p.clientIndex ≠ c)
    (hack : p.cmdId = cmdClientAckMessage →
      ∀ m ∈ st.needAckMessageList, m.index = c → m.msgSeq ≠ ackedSeq p.body)
    (h : st.processPackage p = some st') :
    ∃ packs new, Serves c (fun _ => False) st st' packs new := by
  have hconcerns := Processes.concerns_package (P := (· ≠ c)) hcap hother (by omega) (by omega) h
  obtain ⟨packs, hitems, hpacks⟩ := hconcerns.sent
  have hnot : ∀ pack ∈ packs, ¬ GoesTo c pack :=
    fun pack hpack hgoes => hpacks pack hpack hgoes.1 hgoes.2.1
  have hquiet : (∀ m ∈ st.needAckMessageList, m.index = c → m ∈ st'.needAckMessageList ∨ False) →
      (∀ m ∈ st'.needAckMessageList, m ∈ st.needAckMessageList) →
      ∃ packs new, Serves c (fun _ => False) st st' packs new := fun hkept honly =>
    ⟨packs, [], serves_quiet (hconcerns.cap.trans hcap) hitems hnot hkept honly⟩
  obtain ⟨o, ho, rfl⟩ := Option.map_eq_some_iff.mp h
  have hreply := needAckMessageList_reply o p.clientIndex
  rcases ite_eq_some ho with ⟨_, ho⟩ | ⟨_, ho⟩
  · cases ho
    exact hquiet (fun m hm _ => Or.inl (hreply.symm ▸ hm)) fun m hm => hreply ▸ hm
  by_cases hpull : p.cmdId = cmdCreateRecv
  · have hrecv : st.onRecvMessage p.body p.clientIndex = some o := by
      rw [← ho, dispatch, hpull]
      rfl
    obtain ⟨packs₁, new, hhands⟩ := onRecvMessage_hands (c := c) hrecv hcap hall
    have hreplied := Processes.concerns_reply (P := (· ≠ c)) (o := o)
      (fitsInt_readInt p.buf 2) hother (by omega)
    obtain ⟨packs₂, hitems₂, hpacks₂⟩ := hreplied.sent
    have hlast : Hands c o.server (reply o p.clientIndex) packs₂ [] := by
      refine .quiet (hreplied.cap.trans hhands.cap) hitems₂
        (fun pack hpack hgoes => hpacks₂ pack hpack hgoes.1 hgoes.2.1) ?_ ?_
      · rw [hreply]
      · unfold reply
        split <;> rfl
    exact ⟨_, _, (hhands.trans hlast).serves⟩
  by_cases hacks : p.cmdId = cmdClientAckMessage
  · have hserver : o.server = st.onClientAck p.body p.clientIndex := by
      rw [dispatch, hacks] at ho
      cases ho
      rfl
    rw [hserver] at hreply
    refine hquiet (fun m hm hindex => Or.inl ?_) fun m hm => ?_
    · rw [hreply]
      exact (mem_ackSingle hm).resolve_right (hack hacks m hm hindex)
    · rw [hreply, needAck_onClientAck] at hm
      exact List.mem_of_mem_eraseP hm
  by_cases hexit : p.cmdId = cmdClientExit
  · have hserver : st.onClientExit p.clientIndex = some o.server := by
      rw [dispatch, hexit] at ho
      obtain ⟨st₁, hst₁, rfl⟩ := Option.map_eq_some_iff.mp
        (show (st.onClientExit p.clientIndex).map (fun st => (⟨success, [], st⟩ : Outcome)) =
          some o from ho)
      exact hst₁
    have hlist := needAck_exit hserver
    refine hquiet (fun m hm hindex => Or.inl ?_) fun m hm => ?_
    · rw [hreply, hlist]
      refine List.mem_filter.mpr ⟨hm, decide_eq_true ?_⟩
      rw [hindex]
      exact hother.symm
    · rw [hreply, hlist] at hm
      exact (List.mem_filter.mp hm).1
  · obtain ⟨hlist, -⟩ := dispatch_keeps hl ⟨hpull, hacks, hexit⟩ ho
    refine hquiet (fun m hm _ => Or.inl ?_) fun m hm => ?_
    · rw [hreply]
      exact hlist.mem_iff.mpr hm
    · rw [hreply] at hm
      exact hlist.mem_iff.mp hm

/-- Whatever the server does by itself, or for other clients. -/
theorem step_serves {a : Step} (hl : Linked st) (hall : AllProper st)
    (hcap : st.queueToConnect.cap = none) (hpos : 0 < c)
    (hpackage : ∀ p, a = .package p → p.clientIndex ≠ c ∧ (p.cmdId = cmdClientAckMessage →
      ∀ m ∈ st.needAckMessageList, m.index = c → m.msgSeq ≠ ackedSeq p.body))
    (hdrain : a ≠ .drainConnect) (h : LogicServer.step st a = some st') :
    ∃ packs new, Serves c (fun _ => False) st st' packs new := by
  have hsilent : st'.queueToConnect = st.queueToConnect →
      st'.needAckMessageList.Perm st.needAckMessageList → st'.ackSeq = st.ackSeq →
      ∃ packs new, Serves c (fun _ => False) st st' packs new := fun hconnect hlist hseq =>
    ⟨[], [], (Hands.silent hcap hconnect hlist hseq).serves⟩
  cases a with
  | package p =>
    obtain ⟨hother, hack⟩ := hpackage p rfl
    exact package_serves hl hall hcap hpos hother hack h
  | pushMessage =>
    obtain ⟨packs, new, hhands⟩ := pushLoop_hands (c := c) _ le_rfl h hcap hall
    exact ⟨packs, new, hhands.serves⟩
  | sendMultiAck =>
    rcases ite_eq_some h with ⟨_, h⟩ | ⟨_, h⟩
    · cases h
      exact hsilent rfl (.refl _) rfl
    · cases h
  | drainConnect => exact absurd rfl hdrain
  | drainPersis =>
    obtain ⟨r, _, rfl⟩ := Option.map_eq_some_iff.mp h
    exact hsilent rfl (.refl _) rfl
  | rehash t =>
    rcases ite_eq_some h with ⟨_, h⟩ | ⟨_, h⟩
    · cases h
      exact hsilent rfl (.refl _) rfl
    · cases h

/-- A request of the client itself. -/
theorem request_serves {p : Package} (hl : Linked st) (hall : AllProper st)
    (hcap : st.queueToConnect.cap = none) (hindex : p.clientIndex = c)
    (hcmd : IsRequestCmd p.cmdId) (h : st.processPackage p = some st') :
    ∃ packs new, Serves c (fun _ => False) st st' packs new := by
  obtain ⟨o, ho, rfl⟩ := Option.map_eq_some_iff.mp h
  rw [hindex]
  rcases ite_eq_some ho with ⟨_, ho⟩ | ⟨_, ho⟩
  · cases ho
    exact ⟨[], [], (Hands.silent hcap rfl (.refl _) rfl).serves⟩
  obtain ⟨htext, packs, new, hhands⟩ := dispatch_hands (c := c) hl hall hcap hcmd ho
  obtain ⟨packs', hreply⟩ := reply_hands (c := c) hhands.cap htext
  exact ⟨_, _, (hhands.trans hreply).serves⟩

omit [Platform] in
theorem eraseP_eq_filter_of_nodup {l : List SeverStoreMessage} {n : Int}
    (h : (l.map (·.msgSeq)).Nodup) :
    l.eraseP (fun m => m.msgSeq = n) = l.filter fun m => ¬ m.msgSeq = n := by
  induction l with
  | nil => rfl
  | cons m l ih =>
    obtain ⟨hm, hl⟩ := List.nodup_cons.mp h
    by_cases hseq : m.msgSeq = n
    · have hrest : ∀ x ∈ l, ¬ x.msgSeq = n := fun x hx hxn =>
        hm (List.mem_map.mpr ⟨x, hx, hxn.trans hseq.symm⟩)
      rw [List.eraseP_cons_of_pos (by simpa using hseq),
        List.filter_cons_of_neg (by simpa using hseq),
        List.filter_eq_self.mpr fun x hx => by simpa using hrest x hx]
    · rw [List.eraseP_cons_of_neg (by simpa using hseq),
        List.filter_cons_of_pos (by simpa using hseq), ih hl]

/-- An acknowledgement of the client itself; no two messages have its number. -/
theorem ack_serves {p : Package} (hcap : st.queueToConnect.cap = none)
    (hnodup : (st.needAckMessageList.map (·.msgSeq)).Nodup)
    (hcmd : p.cmdId = cmdClientAckMessage) (hlen : p.packLen ≤ p.len)
    (h : st.processPackage p = some st') :
    Serves c (· = ackedSeq p.body) st st' [] [] ∧
      ∀ m ∈ st'.needAckMessageList, m.msgSeq ≠ ackedSeq p.body := by
  obtain ⟨o, ho, rfl⟩ := Option.map_eq_some_iff.mp h
  rcases ite_eq_some ho with ⟨hlong, _⟩ | ⟨_, ho⟩
  · exact absurd hlong (Nat.not_lt.mpr hlen)
  rw [dispatch, hcmd] at ho
  cases ho
  show Serves c _ st (st.onClientAck p.body p.clientIndex) [] [] ∧
    ∀ m ∈ (st.onClientAck p.body p.clientIndex).needAckMessageList, m.msgSeq ≠ ackedSeq p.body
  have hconcerns := Processes.concerns_onClientAck (P := fun _ => False) st p.body p.clientIndex
  refine ⟨serves_quiet ?_ ?_ (fun _ hpack => absurd hpack List.not_mem_nil)
    (fun m hm _ => mem_ackSingle hm) fun m hm => ?_, fun m hm => ?_⟩
  · exact hconcerns.cap.trans hcap
  · rw [List.append_nil, onClientAck_single, ackSingle]
    split
    · rfl
    · rw [dropAcked_eq]
      rfl
  · rw [needAck_onClientAck] at hm
    exact List.mem_of_mem_eraseP hm
  · rw [needAck_onClientAck] at hm
    have hsame : st.needAckMessageList.eraseP (fun m => m.msgSeq = ackedSeq p.body) =
        st.needAckMessageList.filter fun m => ¬ m.msgSeq = ackedSeq p.body :=
      eraseP_eq_filter_of_nodup hnodup
    rw [hsame] at hm
    exact of_decide_eq_true (List.mem_filter.mp hm).2

end

end LogicServer

end Wsmq
