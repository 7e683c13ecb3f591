import Wsmq.Client.Window
import Wsmq.Client.Repacking

/-!
# Acknowledged publishing in the client library (`client/client.cpp`)

A producer keeps the messages it has published until they are acknowledged, and sends them
again when this takes too long.  Pointers are offsets from `m_pRecvBuff`.
-/

namespace Wsmq
open Lib Lib.ByteString Lib.Packing

namespace Client

def errClientPublishMsg : Int := -605

end Client

/-! ## Time -/

structure Timeval where
  sec : Int
  usec : Int
  deriving DecidableEq

def Timeval.micros (t : Timeval) : Int := t.sec * 1000000 + t.usec

/-- The quotient is a `long`, and goes into an `int`. -/
def iWaitTime (tNow tSaveTime : Timeval) : Int :=
  (Int.tdiv ((tNow.sec - tSaveTime.sec) * 1000000 + (tNow.usec - tSaveTime.usec)) 1000).bmod
    (2 ^ 32)

/-- The message is sent again. -/
def Due (tNow tSaveTime : Timeval) : Prop := 3 * 1000 * 1000 ≤ iWaitTime tNow tSaveTime

instance (tNow tSaveTime : Timeval) : Decidable (Due tNow tSaveTime) :=
  inferInstanceAs (Decidable (_ ≤ _))

/-! ## Producers -/

structure SavedMessage extends CreatePublishMessage where
  saveTime : Timeval

/-- A `Producer` object. -/
structure Producer where
  window : RecvWindow := {}
  iConfirmLevel : Nat := producerNoAck
  needAckMsgList : List SavedMessage := []
  /-- What `ReSendMsg` has given to `SendOnePack`, and the messages it was packed from. -/
  resent : List (SavedMessage × Bytes) := []

namespace Producer

/-- The end of the list is not reached as long as messages are due: each goes to the end with a new
time.  `later` are the readings of the clock by `SetSaveTime`, `pBuffer` what the arrays hold that
are not initialised, `sendOk` whether `SendOnePack` succeeds, and `k` counts the rounds.  Without
a result the loop has more than `n` rounds. -/
def reSendLoop (tNow : Timeval) (later : Nat → Timeval) (pBuffer : Nat → Mem)
    (sendOk : Nat → Bool) : Nat → Nat → Producer → Option (Int × Producer)
  | 0, _, _ => none
  | n + 1, k, p =>
    match p.needAckMsgList with
    | [] => some (Client.success, p)
    | oMsg :: rest =>
      if Due tNow oMsg.saveTime then
        let packed := oMsg.getMessagePack (pBuffer k) maxClintPackageLength
        let p := { p with
          needAckMsgList := rest ++ [{ oMsg with saveTime := later k }]
          resent := p.resent ++ [(oMsg, packed.sent)] }
        if sendOk k then reSendLoop tNow later pBuffer sendOk n (k + 1) p
        else some (Client.errClientPublishMsg, { p with window := p.window.closed })
      else some (Client.success, p)

def reSendMsg (tNow : Timeval) (later : Nat → Timeval) (pBuffer : Nat → Mem)
    (sendOk : Nat → Bool) (n : Nat) (p : Producer) : Option (Int × Producer) :=
  reSendLoop tNow later pBuffer sendOk n 0 { p with resent := [] }

/-! ## What a call should do -/

/-- The message has waited for three seconds. -/
def TimedOut (tNow tSaveTime : Timeval) : Prop := 3 * 1000000 ≤ tNow.micros - tSaveTime.micros

instance (tNow tSaveTime : Timeval) : Decidable (TimedOut tNow tSaveTime) :=
  inferInstanceAs (Decidable (_ ≤ _))

def Ordered (l : List SavedMessage) : Prop :=
  l.Pairwise fun m m' => m.saveTime.micros ≤ m'.saveTime.micros

/-- The messages with new times, of which the first is the one after `k` others. -/
def saved (later : Nat → Timeval) : Nat → List SavedMessage → List SavedMessage
  | _, [] => []
  | k, m :: l => { m with saveTime := later k } :: saved later (k + 1) l

/-- However the sends go, the call comes to an end, no sequence number is lost, and the messages
that were sent again are behind the others, with new times.  If all sends succeed, these are the
messages that timed out, each once and in their order, and the server reads each of them in the
bytes that were sent for it. -/
def ReSendsTimedOut (p : Producer) (tNow : Timeval) (later : Nat → Timeval)
    (pBuffer : Nat → Mem) : Prop :=
  ∀ sendOk, ∃ n ret p', p.reSendMsg tNow later pBuffer sendOk n = some (ret, p') ∧
    ((∀ k, sendOk k = true) → (p'.resent.map Prod.fst =
      p.needAckMsgList.filter fun m => TimedOut tNow m.saveTime) ∧
      ∀ r ∈ p'.resent, r.1.Publishes r.2) ∧
    (p'.needAckMsgList.map fun m => m.msgSeq).Perm (p.needAckMsgList.map fun m => m.msgSeq) ∧
    Ordered p'.needAckMsgList ∧
    ∃ kept, p.needAckMsgList = p'.resent.map Prod.fst ++ kept ∧
      p'.needAckMsgList = kept ++ saved later 0 (p'.resent.map Prod.fst)

/-- The messages with the bytes that go out for them from round `k` on. -/
def packs (pBuffer : Nat → Mem) (k : Nat) (l : List SavedMessage) :
    List (SavedMessage × Bytes) :=
  (l.zipIdx k).map fun r =>
    (r.1, (r.1.getMessagePack (pBuffer r.2) maxClintPackageLength).sent)

/-- Each message finds zero bytes behind its names in the array of its round. -/
def AllSendable (pBuffer : Nat → Mem) (l : List SavedMessage) : Prop :=
  ∀ k (m : SavedMessage), l[k]? = some m → m.Sendable (pBuffer k)

section Resend

variable {tNow tSaveTime : Timeval} {later : Nat → Timeval} {pBuffer : Nat → Mem}
  {sendOk : Nat → Bool} {n k : Nat} {ret : Int} {p p' : Producer} {l l' : List SavedMessage}

/-- A message that is due has waited for much longer than three seconds. -/
theorem Due.timedOut (h : Due tNow tSaveTime) (hle : tSaveTime.micros ≤ tNow.micros) :
    TimedOut tNow tSaveTime := by
  have hwait : (tNow.sec - tSaveTime.sec) * 1000000 + (tNow.usec - tSaveTime.usec) =
      tNow.micros - tSaveTime.micros := by
    rw [Timeval.micros, Timeval.micros]
    omega
  rw [Due, iWaitTime, hwait, Int.tdiv_eq_ediv_of_nonneg (by omega), Int.bmod_def] at h
  rw [TimedOut]
  split at h
  · omega
  · omega

theorem saved_append (later : Nat → Timeval) (k : Nat) (l : List SavedMessage)
    (m : SavedMessage) : saved later k (l ++ [m]) =
      saved later k l ++ [{ m with saveTime := later (k + l.length) }] := by
  induction l generalizing k with
  | nil => rfl
  | cons m' l ih =>
    rw [List.cons_append, saved, ih, saved, List.cons_append, List.length_cons, Nat.add_right_comm,
      Nat.add_assoc]

theorem msgSeq_saved (later : Nat → Timeval) (k : Nat) (l : List SavedMessage) :
    ((saved later k l).map fun m => m.msgSeq) = l.map fun m => m.msgSeq := by
  induction l generalizing k with
  | nil => rfl
  | cons m l ih => rw [saved, List.map_cons, List.map_cons, ih]

/-- The first message is sent again, and saved behind the others. -/
def sendAgain (p : Producer) (m : SavedMessage) (rest : List SavedMessage) (tSaveTime : Timeval)
    (pBuffer : Mem) : Producer :=
  { p with
    needAckMsgList := rest ++ [{ m with saveTime := tSaveTime }]
    resent := p.resent ++ [(m, (m.getMessagePack pBuffer maxClintPackageLength).sent)] }

theorem map_resent_sendAgain (m : SavedMessage) (l : List SavedMessage) (buf : Mem) :
    (p.sendAgain m l tSaveTime buf).resent.map Prod.fst = p.resent.map Prod.fst ++ [m] :=
  List.map_append

/-- Either the loop stops, or there is a message to send again. -/
theorem stops_or_due (tNow : Timeval) (p : Producer) :
    (∀ m ∈ p.needAckMsgList.head?, ¬ Due tNow m.saveTime) ∨
      ∃ m l, p.needAckMsgList = m :: l ∧ Due tNow m.saveTime := by
  cases hlist : p.needAckMsgList with
  | nil => exact .inl fun _ hm => nomatch hm
  | cons m l =>
    by_cases hdue : Due tNow m.saveTime
    · exact .inr ⟨m, l, rfl, hdue⟩
    · exact .inl fun m' hm => Option.some_inj.mp hm ▸ hdue

section Rounds

variable {m : SavedMessage}

theorem reSendLoop_stop (hstop : ∀ m ∈ p.needAckMsgList.head?, ¬ Due tNow m.saveTime) :
    reSendLoop tNow later pBuffer sendOk (n + 1) k p = some (Client.success, p) := by
  rw [reSendLoop]
  cases hlist : p.needAckMsgList with
  | nil => rfl
  | cons m l => exact if_neg (hstop m (by rw [hlist]; rfl))

theorem reSendLoop_next (hlist : p.needAckMsgList = m :: l) (hdue : Due tNow m.saveTime)
    (hsend : sendOk k = true) : reSendLoop tNow later pBuffer sendOk (n + 1) k p =
      reSendLoop tNow later pBuffer sendOk n (k + 1) (p.sendAgain m l (later k) (pBuffer k)) := by
  rw [reSendLoop, hlist]
  dsimp only
  rw [if_pos hdue, if_pos hsend]
  rfl

theorem reSendLoop_failed (hlist : p.needAckMsgList = m :: l) (hdue : Due tNow m.saveTime)
    (hsend : sendOk k = false) : reSendLoop tNow later pBuffer sendOk (n + 1) k p =
      some (Client.errClientPublishMsg,
        { p.sendAgain m l (later k) (pBuffer k) with window := p.window.closed }) := by
  rw [reSendLoop, hlist]
  dsimp only
  rw [if_pos hdue, hsend, if_neg Bool.false_ne_true]
  rfl

end Rounds

/-- The messages that are not due stop the loop, and so do those with new times. -/
theorem reSendLoop_spec {done : List SavedMessage}
    (hlist : p.needAckMsgList = l ++ saved later 0 done) (hk : k = done.length)
    (hresent : p.resent.map Prod.fst = done)
    (hstop : done ++ l ≠ [] → (∀ m ∈ l, Due tNow m.saveTime) → ¬ Due tNow (later 0)) :
    ∃ ret p' again kept, reSendLoop tNow later pBuffer sendOk (l.length + 1) k p =
        some (ret, p') ∧
      l = again ++ kept ∧ p'.needAckMsgList = kept ++ saved later 0 (done ++ again) ∧
      p'.resent.map Prod.fst = done ++ again ∧ (∀ m ∈ again, Due tNow m.saveTime) ∧
      ((∀ k, sendOk k = true) → ∀ m ∈ kept.head?, ¬ Due tNow m.saveTime) := by
  induction l generalizing p k done with
  | nil =>
    refine ⟨_, p, [], [], reSendLoop_stop fun m hm => ?_, rfl, ?_, ?_,
      fun _ hm => absurd hm List.not_mem_nil, fun _ _ hm => nomatch hm⟩
    · rw [hlist, List.nil_append] at hm
      cases done with
      | nil => cases hm
      | cons first done =>
        cases hm
        exact hstop (List.cons_ne_nil _ _) fun _ hm => absurd hm List.not_mem_nil
    · rw [hlist, List.append_nil]
    · rw [hresent, List.append_nil]
  | cons m l ih =>
    rcases stops_or_due tNow p with hhead | ⟨m', rest, hcons, hdue⟩
    · refine ⟨_, p, [], m :: l, reSendLoop_stop hhead, rfl, ?_, ?_,
        fun _ hm => absurd hm List.not_mem_nil, fun _ => ?_⟩
      · rw [hlist, List.append_nil]
      · rw [hresent, List.append_nil]
      · rw [hlist] at hhead
        exact hhead
    obtain ⟨rfl, rfl⟩ := List.cons.inj (hlist.symm.trans hcons)
    have hsaved : l ++ saved later 0 done ++ [{ m with saveTime := later k }] =
        l ++ saved later 0 (done ++ [m]) := by
      rw [List.append_assoc, saved_append, hk, Nat.zero_add]
    have hresent' : (p.sendAgain m (l ++ saved later 0 done) (later k)
        (pBuffer k)).resent.map Prod.fst = done ++ [m] := by
      rw [map_resent_sendAgain, hresent]
    cases hsend : sendOk k with
    | false =>
      refine ⟨_, _, [m], l, reSendLoop_failed hcons hdue hsend, rfl, hsaved, hresent',
        fun m' hm' => List.mem_singleton.mp hm' ▸ hdue, fun hall => ?_⟩
      rw [hall k] at hsend
      cases hsend
    | true =>
      have hstop' : done ++ [m] ++ l ≠ [] → (∀ m' ∈ l, Due tNow m'.saveTime) →
          ¬ Due tNow (later 0) := by
        intro _ hall
        refine hstop (by simp) fun m' hm' => ?_
        rcases List.mem_cons.mp hm' with rfl | hm'
        · exact hdue
        · exact hall m' hm'
      have hk' : k + 1 = (done ++ [m]).length := by
        rw [hk, List.length_append]
        rfl
      obtain ⟨ret, p', again, kept, hloop, hsplit, hend, hsent, hagain, hkept⟩ :=
        ih hsaved hk' hresent' hstop'
      rw [List.append_assoc] at hend hsent
      refine ⟨ret, p', m :: again, kept, (reSendLoop_next hcons hdue hsend).trans hloop,
        congrArg (m :: ·) hsplit, hend, hsent, fun m' hm' => ?_, hkept⟩
      rcases List.mem_cons.mp hm' with rfl | hm'
      · exact hdue
      · exact hagain m' hm'

/-- What goes out are the packages of the messages, each packed into the array of its round. -/
theorem reSendLoop_packs
    (h : reSendLoop tNow later pBuffer sendOk n k p = some (ret, p')) :
    ∃ again, p'.resent = p.resent ++ packs pBuffer k again := by
  induction n generalizing k p with
  | zero => cases h
  | succ n ih =>
    rcases stops_or_due tNow p with hstop | ⟨m, rest, hlist, hdue⟩
    · rw [reSendLoop_stop hstop] at h
      cases h
      exact ⟨[], (List.append_nil _).symm⟩
    cases hsend : sendOk k with
    | false =>
      rw [reSendLoop_failed hlist hdue hsend] at h
      cases h
      exact ⟨[m], rfl⟩
    | true =>
      rw [reSendLoop_next hlist hdue hsend] at h
      obtain ⟨again, hagain⟩ := ih h
      refine ⟨m :: again, hagain.trans ?_⟩
      rw [sendAgain, List.append_assoc]
      rfl

theorem map_packs (pBuffer : Nat → Mem) (k : Nat) (l : List SavedMessage) :
    (packs pBuffer k l).map Prod.fst = l := by
  rw [packs, List.map_map]
  exact List.zipIdx_map_fst k l

theorem publishes_packs_iff (pBuffer : Nat → Mem) (l : List SavedMessage) :
    (∀ r ∈ packs pBuffer 0 l, r.1.Publishes r.2) ↔ AllSendable pBuffer l := by
  constructor
  · intro h k m hm
    exact CreatePublishMessage.publishes_iff.mp
      (h _ (List.mem_map_of_mem (List.mk_mem_zipIdx_iff_getElem?.mpr hm)))
  · intro h r hr
    obtain ⟨⟨m, k⟩, hm, rfl⟩ := List.mem_map.mp hr
    exact CreatePublishMessage.publishes_of_sendable
      (h k m (List.mk_mem_zipIdx_iff_getElem?.mp hm))

/-- The server reads each of the messages exactly when all could be sent. -/
theorem publishes_resent_iff {again : List SavedMessage}
    (h : p.reSendMsg tNow later pBuffer sendOk n = some (ret, p'))
    (hagain : p'.resent.map Prod.fst = again) :
    (∀ r ∈ p'.resent, r.1.Publishes r.2) ↔ AllSendable pBuffer again := by
  obtain ⟨sent, hsent⟩ := reSendLoop_packs h
  rw [List.nil_append] at hsent
  rw [hsent, map_packs] at hagain
  rw [hsent, hagain]
  exact publishes_packs_iff pBuffer again

/-- Only what is due is sent again. -/
theorem reSendLoop_due (hp : ∀ m ∈ p.resent.map Prod.fst, Due tNow m.saveTime)
    (h : reSendLoop tNow later pBuffer sendOk n k p = some (ret, p')) :
    ∀ m ∈ p'.resent.map Prod.fst, Due tNow m.saveTime := by
  induction n generalizing k p with
  | zero => cases h
  | succ n ih =>
    rcases stops_or_due tNow p with hstop | ⟨m, rest, hlist, hdue⟩
    · rw [reSendLoop_stop hstop] at h
      cases h
      exact hp
    have hp' : ∀ m' ∈ (p.sendAgain m rest (later k) (pBuffer k)).resent.map Prod.fst,
        Due tNow m'.saveTime := by
      intro m' hm'
      rw [map_resent_sendAgain] at hm'
      rcases List.mem_append.mp hm' with hm' | hm'
      · exact hp m' hm'
      · exact List.mem_singleton.mp hm' ▸ hdue
    cases hsend : sendOk k with
    | false =>
      rw [reSendLoop_failed hlist hdue hsend] at h
      cases h
      exact hp'
    | true =>
      rw [reSendLoop_next hlist hdue hsend] at h
      exact ih hp' h

/-- Without a failed send the loop stops at a message that is not due. -/
theorem reSendLoop_head (hsend : ∀ k, sendOk k = true)
    (h : reSendLoop tNow later pBuffer sendOk n k p = some (ret, p')) :
    ∀ m ∈ p'.needAckMsgList.head?, ¬ Due tNow m.saveTime := by
  induction n generalizing k p with
  | zero => cases h
  | succ n ih =>
    rcases stops_or_due tNow p with hstop | ⟨m, rest, hlist, hdue⟩
    · rw [reSendLoop_stop hstop] at h
      cases h
      exact hstop
    · rw [reSendLoop_next hlist hdue (hsend k)] at h
      exact ih h

/-- Behind messages in order there is room for messages with times from now on. -/
theorem ordered_saved (hnow : ∀ m ∈ l, m.saveTime.micros ≤ tNow.micros)
    (hclock : ∀ k, tNow.micros ≤ (later k).micros)
    (hmono : ∀ k, (later k).micros ≤ (later (k + 1)).micros) (hl : Ordered l) (k : Nat)
    (l' : List SavedMessage) : Ordered (l ++ saved later k l') := by
  have hlater : ∀ k k', k ≤ k' → (later k).micros ≤ (later k').micros := fun k k' hle =>
    monotone_nat_of_le_succ (f := fun k => (later k).micros) hmono hle
  have htimes : ∀ (l' : List SavedMessage) k, ∀ m ∈ saved later k l',
      (later k).micros ≤ m.saveTime.micros := by
    intro l' k m hm
    induction l' generalizing k with
    | nil => cases hm
    | cons m' l' ih =>
      rcases List.mem_cons.mp hm with rfl | hm
      · exact Int.le_refl _
      · exact (hmono k).trans (ih (k + 1) hm)
  have hsaved : ∀ (l' : List SavedMessage) k, Ordered (saved later k l') := by
    intro l' k
    induction l' generalizing k with
    | nil => exact List.Pairwise.nil
    | cons m' l' ih =>
      exact List.pairwise_cons.mpr ⟨fun m hm => (hmono k).trans (htimes l' (k + 1) m hm), ih _⟩
  refine List.pairwise_append.mpr ⟨hl, hsaved l' k, fun m hm m' hm' => ?_⟩
  exact ((hnow m hm).trans (hclock k)).trans (htimes l' k m' hm')

/-- What has to be due for the call to do what it should. -/
theorem due_of_reSends (hnow : ∀ m ∈ p.needAckMsgList, m.saveTime.micros ≤ tNow.micros)
    (h : ReSendsTimedOut p tNow later pBuffer) :
    (∀ m ∈ p.needAckMsgList, TimedOut tNow m.saveTime → Due tNow m.saveTime) ∧
      (p.needAckMsgList ≠ [] → (∀ m ∈ p.needAckMsgList, Due tNow m.saveTime) →
        ¬ Due tNow (later 0)) ∧
      AllSendable pBuffer (p.needAckMsgList.filter fun m => TimedOut tNow m.saveTime) := by
  obtain ⟨n, ret, p', hloop, hall, -, -, kept, hsplit, hend⟩ := h fun _ => true
  obtain ⟨hsent, hread⟩ := hall fun _ => rfl
  refine ⟨?_, ?_, (publishes_resent_iff hloop hsent).mp hread⟩
  · intro m hm hout
    refine reSendLoop_due (fun _ hr => absurd hr List.not_mem_nil) hloop m ?_
    rw [hsent]
    exact List.mem_filter.mpr ⟨hm, decide_eq_true hout⟩
  · -- all messages have gone to the end, and the first one stands there with its new time
    intro hne hdues hnew
    have hfilter : (p.needAckMsgList.filter fun m => TimedOut tNow m.saveTime) =
        p.needAckMsgList :=
      List.filter_eq_self.mpr fun m hm => decide_eq_true (Due.timedOut (hdues m hm) (hnow m hm))
    rw [hfilter] at hsent
    have hkept : kept = [] := by
      rw [hsent] at hsplit
      exact List.append_right_eq_self.mp hsplit.symm
    have hhead := reSendLoop_head (fun _ => rfl) hloop
    rw [hend, hkept, List.nil_append, hsent] at hhead
    obtain ⟨m, rest, hlist⟩ := List.exists_cons_of_ne_nil hne
    rw [hlist, saved] at hhead
    exact hhead _ rfl hnew

/-- `ReSendMsg` compares milliseconds with three million, and loses the higher bits, and packs into
an array that is not initialised.  It does what it should if each message that timed out is due
even so, the first new time is not, and the arrays have zero bytes where the names end. -/
theorem reSendsTimedOut_iff (hlist : Ordered p.needAckMsgList)
    (hnow : ∀ m ∈ p.needAckMsgList, m.saveTime.micros ≤ tNow.micros)
    (hclock : ∀ k, tNow.micros ≤ (later k).micros)
    (hmono : ∀ k, (later k).micros ≤ (later (k + 1)).micros) :
    ReSendsTimedOut p tNow later pBuffer ↔
      (∀ m ∈ p.needAckMsgList, TimedOut tNow m.saveTime → Due tNow m.saveTime) ∧
      (p.needAckMsgList ≠ [] → (∀ m ∈ p.needAckMsgList, Due tNow m.saveTime) →
        ¬ Due tNow (later 0)) ∧
      AllSendable pBuffer (p.needAckMsgList.filter fun m => TimedOut tNow m.saveTime) := by
  refine ⟨due_of_reSends hnow, ?_⟩
  rintro ⟨hdue, hnew, hsendable⟩ sendOk
  obtain ⟨ret, p', again, kept, hloop, hsplit, hend, hsent, hagain, hkept⟩ :=
    @reSendLoop_spec tNow later pBuffer sendOk 0 { p with resent := [] } p.needAckMsgList []
      (List.append_nil _).symm rfl rfl hnew
  rw [List.nil_append] at hend hsent
  have hmem : ∀ m ∈ kept, m ∈ p.needAckMsgList := fun m hm =>
    hsplit ▸ List.mem_append_right again hm
  rw [hsplit] at hlist
  obtain ⟨-, hkeptOrdered, -⟩ := List.pairwise_append.mp hlist
  refine ⟨_, ret, p', hloop, fun hall => ?_, ?_, ?_, kept, hsent ▸ hsplit, hsent.symm ▸ hend⟩
  · suffices hfilter : p'.resent.map Prod.fst =
        p.needAckMsgList.filter fun m => TimedOut tNow m.saveTime from
      ⟨hfilter, (publishes_resent_iff hloop hfilter).mpr hsendable⟩
    -- the first message that is kept has not timed out, and no later one has
    have hin : ∀ m ∈ again, TimedOut tNow m.saveTime := fun m hm =>
      Due.timedOut (hagain m hm) (hnow m (hsplit ▸ List.mem_append_left kept hm))
    have hout : ∀ m ∈ kept, ¬ TimedOut tNow m.saveTime := by
      cases kept with
      | nil => exact fun _ hm => absurd hm List.not_mem_nil
      | cons first kept =>
        have hfirst : ¬ TimedOut tNow first.saveTime := fun ht =>
          hkept hall first rfl (hdue first (hmem first List.mem_cons_self) ht)
        intro m hm hm'
        rcases List.mem_cons.mp hm with rfl | hm
        · exact hfirst hm'
        · have hle := (List.pairwise_cons.mp hkeptOrdered).1 m hm
          rw [TimedOut] at hfirst hm'
          omega
    rw [hsent, hsplit, List.filter_append, List.filter_eq_self.mpr fun m hm =>
      decide_eq_true (hin m hm), List.filter_eq_nil_iff.mpr fun m hm => by
        simpa using hout m hm, List.append_nil]
  · rw [hend, hsplit, List.map_append, List.map_append, msgSeq_saved]
    exact List.perm_append_comm
  · rw [hend]
    exact ordered_saved (fun m hm => hnow m (hmem m hm)) hclock hmono hkeptOrdered 0 again

end Resend

section Runs

/-- A message with this number, published at this second. -/
def savedAt (msgSeq sec : Int) : SavedMessage :=
  { index := -1, exchangeName := ascii "e", routingKey := ascii "k", priority := -1,
    durable := false, msgSeq := msgSeq, confirmLevel := producerSingleAck, msgBody := ascii "b",
    saveTime := ⟨sec, 0⟩ }

/-- After an hour the first message is sent again, and the second has waited for two seconds. -/
theorem reSendsTimedOut_hour :
    ReSendsTimedOut { needAckMsgList := [savedAt 0 100, savedAt 1 3698] } ⟨3700, 0⟩
      (fun k => ⟨3700, k⟩) (fun _ a => if a = 9 ∨ a = 41 then 0 else 7) := by
  refine (reSendsTimedOut_iff ?_ ?_ (fun k => ?_) fun k => ?_).mpr ⟨?_, fun _ _ => ?_, ?_⟩
  · exact List.pairwise_pair.mpr (by decide)
  · decide
  · simp only [Timeval.micros]
    omega
  · simp only [Timeval.micros]
    omega
  · decide
  · decide
  · intro k m hm
    have hfilter : ([savedAt 0 100, savedAt 1 3698].filter fun m =>
        TimedOut ⟨3700, 0⟩ m.saveTime) = [savedAt 0 100] := rfl
    rw [hfilter] at hm
    obtain rfl := List.mem_singleton.mp (List.mem_of_getElem? hm)
    obtain rfl : k = 0 := Nat.lt_one_iff.mp (List.getElem?_eq_some_iff.mp hm).1
    exact ⟨⟨by decide, by decide, by decide, by decide⟩, by decide, by decide, rfl, rfl⟩

/-- A message that has waited for five seconds is not. -/
theorem not_reSendsTimedOut_five :
    ¬ ReSendsTimedOut { needAckMsgList := [savedAt 0 100] } ⟨105, 0⟩ (fun k => ⟨105, k⟩)
      (fun _ => zeroed) := by
  intro h
  have hdue := (due_of_reSends (by decide) h).1 _ List.mem_cons_self (by decide)
  exact absurd hdue (by decide)

end Runs

end Producer

end Wsmq
