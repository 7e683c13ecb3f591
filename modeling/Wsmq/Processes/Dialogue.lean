import Wsmq.LogicServer.Dedup
import Wsmq.Processes.Answers

/-!
# A producer and the logic server

A producer that wants each message acknowledged, the logic server with all its other clients,
and what is on its way between them.  The connect server is left out: it puts the index of the
connection into its packages and keeps their order in both directions.
-/

namespace Wsmq
open Lib Lib.ByteString Lib.Packing Lib.Fifo
open RecvWindow (Found)
open LogicServer (GoesTo IsAnswer Routes ite_eq_some)
open Processes (Subscribed)

section Model

variable [Platform]

structure Dialogue where
  /-- The index of the connection. -/
  index : Int
  producer : Producer
  /-- `m_iMsgSeq`. -/
  iMsgSeq : Int := 0
  /-- What the producer has sent and the logic server has not taken yet. -/
  toServer : List Bytes := []
  logic : LogicServer
  /-- What the connect server has given to the socket. -/
  toClient : Bytes := []
  /-- The connect server has not given the connection up. -/
  linked : Bool := true
  /-- A history variable: all messages that were put on `m_NeedAckMsgList`. -/
  published : List SavedMessage := []

namespace Dialogue

inductive Step
  | puslish (istrExName istrKey : Name) (istrMsgBody : Bytes) (iPriority : Int) (bDurable : Bool)
      (tSaveTime : Timeval) (sendOk : Bool)
  | recvServerAck (fs : List Found) (n : Nat)
  | reSend (tNow : Timeval) (later : Nat → Timeval) (pBuffer : Nat → Mem) (sendOk : Nat → Bool)
      (n : Nat)
  /-- The logic server processes the next package of the producer. -/
  | take (p : LogicServer.Package)
  /-- The logic server does something else. -/
  | logic (a : LogicServer.Step)
  /-- The connect server takes a package out of `LOGIC_TO_CONNECT`. -/
  | deliver
  /-- The connect server closes the connection. -/
  | hangUp

/-- What does not come from the connection, and is not its reader, as long as it is there. -/
def Other (s : Dialogue) : LogicServer.Step → Prop
  | .package p => s.linked → p.clientIndex ≠ s.index
  | .drainConnect => False
  | _ => True

instance (s : Dialogue) : (a : LogicServer.Step) → Decidable (Other s a)
  | .package p => inferInstanceAs (Decidable (s.linked = true → p.clientIndex ≠ s.index))
  | .drainConnect => isFalse not_false
  | .pushMessage | .sendMultiAck | .drainPersis | .rehash _ => isTrue trivial

/-- On a closed socket `send` and `recv` fail. -/
def step (s : Dialogue) : Step → Option Dialogue
  | .puslish istrExName istrKey istrMsgBody iPriority bDurable tSaveTime sendOk =>
    (s.producer.puslishMessage s.iMsgSeq istrExName istrKey istrMsgBody iPriority bDurable
      tSaveTime sendOk).map fun r =>
        { s with
          producer := r.producer
          iMsgSeq := r.iMsgSeq
          toServer := if s.linked then s.toServer ++ r.sent else []
          published := s.published ++ r.saved }
  | .recvServerAck fs n =>
    if ¬ s.producer.window.bBuild ∧ ¬ s.producer.window.HasPack then some s
    else (s.producer.recvServerAck s.toClient fs n).map fun r =>
      { s with producer := r.2.1, toClient := r.2.2.1 }
  | .reSend tNow later pBuffer sendOk n =>
    (s.producer.reSendMsg tNow later pBuffer (fun k => s.producer.window.bBuild && sendOk k)
      n).map fun r =>
        { s with
          producer := r.2
          toServer := if s.linked then s.toServer ++ r.2.resentPacks r.1 else [] }
  | .take p =>
    match s.toServer with
    | [] => none
    | pack :: rest =>
      if ¬ s.linked ∨ p.buf.read 0 p.len ≠ RecvBuff.setIndex s.index pack then none
      else (s.logic.step (.package p)).map fun st => { s with logic := st, toServer := rest }
  | .logic a =>
    if ¬ Other s a then none else (s.logic.step a).map fun st => { s with logic := st }
  | .deliver =>
    s.logic.queueToConnect.dequeue.map fun r =>
      { s with
        logic := { s.logic with queueToConnect := r.2 }
        toClient := if s.linked ∧ GoesTo s.index r.1 then s.toClient ++ r.1 else s.toClient }
  | .hangUp => some { s with linked := false, toServer := [] }

abbrev run : Dialogue → List Step → Option Dialogue := Runs.run step

/-- A new connection with the index. -/
def start (index : Int) (st : LogicServer) : Dialogue where
  index := index
  producer := { iConfirmLevel := producerSingleAck }
  logic := st

/-! ## What is kept -/

/-- The number is on `m_NeedAckMsgList`. -/
def Awaited (s : Dialogue) (iMsgSeq : Int) : Prop :=
  iMsgSeq ∈ s.producer.needAckMsgList.map fun m => m.msgSeq

/-- A message of the producer with this number was stored since `st₀`. -/
def Stored (st₀ : LogicServer) (s : Dialogue) (iMsgSeq : Int) : Prop :=
  Routes st₀ s.logic s.index iMsgSeq producerSingleAck

/-- The packages for the producer in `LOGIC_TO_CONNECT`. -/
def onTheWay (s : Dialogue) : List Bytes := s.logic.queueToConnect.items.filter (GoesTo s.index)

/-- The packages that the producer has not read. -/
structure Reading (st₀ : LogicServer) (s : Dialogue) (window : Bytes) (packs : List Bytes) :
    Prop where
  keeps : RecvWindow.Keeps s.producer.window window
  stream : window ++ s.toClient = packs.flatten
  answers : ∀ pack ∈ packs, IsAnswer st₀ s.logic s.index pack
  acked : s.linked → ∀ m ∈ s.producer.needAckMsgList, Stored st₀ s m.msgSeq →
    ∃ pack ∈ packs ++ s.onTheWay, ackNumber pack = m.msgSeq

/-- As long as the connection is there. -/
structure Link (st₀ : LogicServer) (s : Dialogue) : Prop where
  cap : s.logic.queueToConnect.cap = none
  subscribed : ∀ queue k, Subscribed s.logic queue k → FitsInt 4 k ∧ k ≠ s.index
  toServer : ∀ pack ∈ s.toServer, ∃ n < s.iMsgSeq, IsPublish pack n
  stored : ∀ n, Stored st₀ s n → n < s.iMsgSeq
  answers : ∀ pack ∈ s.onTheWay, IsAnswer st₀ s.logic s.index pack

structure Inv (st₀ : LogicServer) (s : Dialogue) : Prop where
  pos : 0 < s.index
  fits : FitsInt 4 s.index
  level : s.producer.iConfirmLevel = producerSingleAck
  seq : 0 ≤ s.iMsgSeq
  part : ¬ s.producer.window.HasPack
  log : st₀.publishLog <+: s.logic.publishLog
  packs : ∀ m ∈ s.producer.needAckMsgList, m.Packs ∧ m.msgSeq < s.iMsgSeq
  kept : ∀ m ∈ s.published, m.msgSeq < s.iMsgSeq ∧
    (s.Awaited m.msgSeq ∨ Stored st₀ s m.msgSeq ∨ m.msgSeq ∈ refusedNumbers)
  link : s.linked → Link st₀ s
  reading : s.producer.window.bBuild → ∃ window packs, Reading st₀ s window packs

variable {st₀ st st' : LogicServer} {s s' : Dialogue} {c n : Int}

/-! ## The logic server -/

section Server

variable {new : List (Int × Int × Nat)} {level : Nat}

theorem routes_append (hlog : st'.publishLog = st.publishLog ++ new)
    (h : Routes st₀ st c n level) : Routes st₀ st' c n level := by
  obtain ⟨old, hold, hmem⟩ := h
  refine ⟨old ++ new, ?_, List.mem_append_left _ hmem⟩
  rw [hlog, hold, List.append_assoc]

theorem routes_of_append (hpre : st₀.publishLog <+: st.publishLog)
    (hlog : st'.publishLog = st.publishLog ++ new) (h : Routes st₀ st' c n level) :
    Routes st₀ st c n level ∨ (c, n, level) ∈ new := by
  obtain ⟨all, hall, hmem⟩ := h
  obtain ⟨old, hold⟩ := hpre
  rw [hlog, ← hold, List.append_assoc] at hall
  rw [← List.append_cancel_left hall] at hmem
  exact (List.mem_append.mp hmem).imp (fun hin => ⟨old, hold.symm, hin⟩) id

theorem isAnswer_append {pack : Bytes} (hlog : st'.publishLog = st.publishLog ++ new)
    (h : IsAnswer st₀ st c pack) : IsAnswer st₀ st' c pack :=
  ⟨h.hasNumber, h.number.imp_left (routes_append hlog)⟩

theorem isAnswer_since {pack : Bytes} (hpre : st₀.publishLog <+: st.publishLog)
    (h : IsAnswer st st' c pack) : IsAnswer st₀ st' c pack := by
  refine ⟨h.hasNumber, h.number.imp_left ?_⟩
  rintro ⟨new, hlog, hmem⟩
  obtain ⟨old, hold⟩ := hpre
  exact ⟨old ++ new, by rw [hlog, ← hold, List.append_assoc], List.mem_append_right _ hmem⟩

/-- What the server does while the connection is there. -/
structure Serves (s : Dialogue) (st' : LogicServer) (new : List (Int × Int × Nat))
    (packs : List Bytes) : Prop where
  cap : st'.queueToConnect.cap = none
  subscribed : ∀ queue k, Subscribed st' queue k →
    Subscribed s.logic queue k ∨ FitsInt 4 k ∧ k ≠ s.index
  items : st'.queueToConnect.items = s.logic.queueToConnect.items ++ packs
  answers : ∀ pack ∈ packs, GoesTo s.index pack → IsAnswer s.logic st' s.index pack
  acked : ∀ n, (s.index, n, producerSingleAck) ∈ new →
    n < s.iMsgSeq ∧ ∃ pack ∈ packs, GoesTo s.index pack ∧ ackNumber pack = n

theorem Inv.serve {rest packs : List Bytes} (h : Inv st₀ s)
    (hlog : st'.publishLog = s.logic.publishLog ++ new)
    (hserves : s.linked → Serves s st' new packs)
    (hrest : s.linked → ∀ pack ∈ rest, ∃ n < s.iMsgSeq, IsPublish pack n) :
    Inv st₀ { s with logic := st', toServer := rest } := by
  have hway : s.linked →
      { s with logic := st', toServer := rest }.onTheWay =
        s.onTheWay ++ packs.filter (GoesTo s.index) := by
    intro hlinked
    rw [onTheWay, onTheWay, (hserves hlinked).items, List.filter_append]
  have hstored : ∀ n, Stored st₀ { s with logic := st', toServer := rest } n →
      Stored st₀ s n ∨ (s.index, n, producerSingleAck) ∈ new :=
    fun n hn => routes_of_append h.log hlog hn
  refine ⟨h.pos, h.fits, h.level, h.seq, h.part, ?_, h.packs, ?_, ?_, ?_⟩
  · rw [hlog]
    exact h.log.trans (List.prefix_append _ _)
  · intro m hm
    obtain ⟨hlt, hkept⟩ := h.kept m hm
    exact ⟨hlt, hkept.imp_right fun hrest => hrest.imp_left (routes_append hlog)⟩
  · intro hlinked
    obtain ⟨hcap, hsubscribed, -, hanswers, hacked⟩ := hserves hlinked
    have hlink := h.link hlinked
    refine ⟨hcap, fun queue k hk => ?_, hrest hlinked, fun n hn => ?_, fun pack hpack => ?_⟩
    · exact (hsubscribed queue k hk).elim (hlink.subscribed queue k) id
    · exact (hstored n hn).elim (hlink.stored n) fun hin => (hacked n hin).1
    · rw [hway hlinked] at hpack
      rcases List.mem_append.mp hpack with hold | hnew
      · exact isAnswer_append hlog (hlink.answers pack hold)
      · obtain ⟨hin, hgoes⟩ := List.mem_filter.mp hnew
        exact isAnswer_since h.log (hanswers pack hin (of_decide_eq_true hgoes))
  · intro hopen
    obtain ⟨window, unread, hkeeps, hstream, hanswers, hacked⟩ := h.reading hopen
    refine ⟨window, unread, hkeeps, hstream,
      fun pack hpack => isAnswer_append hlog (hanswers pack hpack), fun hlinked m hm hn => ?_⟩
    rw [hway hlinked, ← List.append_assoc]
    rcases hstored _ hn with hold | hnew
    · obtain ⟨pack, hpack, hnumber⟩ := hacked hlinked m hm hold
      exact ⟨pack, List.mem_append_left _ hpack, hnumber⟩
    · obtain ⟨-, pack, hpack, hgoes, hnumber⟩ := (hserves hlinked).acked _ hnew
      exact ⟨pack, List.mem_append_right _ (List.mem_filter.mpr ⟨hpack, decide_eq_true hgoes⟩),
        hnumber⟩

/-- A step of the server adds to the history only what the sender of a package publishes. -/
theorem log_of_step {a : LogicServer.Step} (h : LogicServer.step st a = some st') :
    ∃ new, st'.publishLog = st.publishLog ++ new ∧
      ∀ x ∈ new, ∃ p, a = .package p ∧ x.1 = p.clientIndex := by
  cases LogicServer.step_effect h with
  | same hsame => exact ⟨[], by rw [hsame.log, List.append_nil], fun _ hx => nomatch hx⟩
  | exits d ha hview =>
    refine ⟨[], ?_, fun _ hx => nomatch hx⟩
    rw [List.append_nil]
    exact congrArg (fun v => v.2.2) hview
  | stores d c ha hstores =>
    refine ⟨_, hstores.log, fun x hx => ?_⟩
    cases List.eq_of_mem_replicate hx
    cases a with
    | package p =>
      simp only [LogicServer.Step.publishOf] at ha
      split at ha
      · obtain ⟨d', _, heq⟩ := Option.map_eq_some_iff.mp ha
        exact ⟨p, rfl, (Prod.mk.inj heq).2.symm⟩
      · cases ha
    | _ => cases ha

theorem Inv.take {p : LogicServer.Package} (h : Inv st₀ s) (hs : s.step (.take p) = some s') :
    Inv st₀ s' := by
  unfold step at hs
  dsimp only at hs
  split at hs
  · cases hs
  next pack rest htoServer =>
  split at hs
  · cases hs
  next hguard =>
  obtain ⟨hlinked, hread⟩ := not_or.mp hguard
  have hlinked : s.linked = true := not_not.mp hlinked
  obtain ⟨st', hstep, rfl⟩ := Option.map_eq_some_iff.mp hs
  have hlink := h.link hlinked
  obtain ⟨n, hn, hpublish⟩ := hlink.toServer pack (htoServer ▸ List.mem_cons_self)
  obtain ⟨hsubscribed, hcap, ⟨k, hlog⟩, packs, hitems, hanswers, hacked⟩ :=
    LogicServer.package_answered
      (LogicServer.readsPublish_of_isPublish hpublish h.fits (not_not.mp hread)) hlink.cap h.pos
      hstep
  refine h.serve hlog (fun _ => ⟨hcap, fun queue k hk => Or.inl (hsubscribed queue k hk), hitems,
    hanswers, fun n' hn' => ?_⟩) fun _ pack' hpack' => ?_
  · cases List.eq_of_mem_replicate hn'
    exact ⟨hn, hacked ⟨_, hlog, hn'⟩⟩
  · exact hlink.toServer pack' (htoServer ▸ List.mem_cons_of_mem _ hpack')

theorem Inv.logic {a : LogicServer.Step} (h : Inv st₀ s) (hs : s.step (.logic a) = some s') :
    Inv st₀ s' := by
  obtain ⟨_, hs⟩ | ⟨hother, hs⟩ := ite_eq_some hs
  · cases hs
  have hother := not_not.mp hother
  obtain ⟨st', hstep, rfl⟩ := Option.map_eq_some_iff.mp hs
  obtain ⟨new, hlog, hsenders⟩ := log_of_step hstep
  by_cases hlinked : s.linked
  · have hlink := h.link hlinked
    have hpos := h.pos
    have hpackage : ∀ p, a = .package p → FitsInt 4 p.clientIndex ∧ p.clientIndex ≠ s.index := by
      rintro p rfl
      exact ⟨fitsInt_readInt _ _, hother hlinked⟩
    have hdrain : a ≠ .drainConnect := by
      rintro rfl
      exact hother
    obtain ⟨hsubscribed, -, hcap, packs, hitems, haddressed⟩ :=
      Processes.concerns_step (P := fun k => FitsInt 4 k ∧ k ≠ s.index) (fun _ hk => hk.1)
        ⟨by decide, by omega⟩ hlink.cap hlink.subscribed ⟨by decide, by omega⟩ hpackage hdrain hstep
    refine h.serve hlog (fun _ => ⟨hcap.trans hlink.cap, hsubscribed, hitems,
      fun pack hpack hgoes => ?_, fun n hn => ?_⟩) fun hl => (h.link hl).toServer
    · exact absurd hgoes.2.1 (haddressed pack hpack hgoes.1).2
    · obtain ⟨p, hp, hindex⟩ := hsenders _ hn
      exact absurd hindex.symm (hpackage p hp).2
  · exact @Inv.serve _ st₀ st' s new s.toServer [] h hlog (fun hl => absurd hl hlinked)
      fun hl => absurd hl hlinked

end Server

/-! ## The connection -/

theorem Inv.deliver (h : Inv st₀ s) (hs : s.step .deliver = some s') : Inv st₀ s' := by
  obtain ⟨⟨bs, q⟩, hdequeue, rfl⟩ := Option.map_eq_some_iff.mp hs
  have hitems := BoundedFifo.dequeue_some hdequeue
  have hcap := BoundedFifo.dequeue_cap hdequeue
  have hway : s.onTheWay = [bs].filter (GoesTo s.index) ++ q.items.filter (GoesTo s.index) := by
    rw [onTheWay, hitems, ← List.filter_append]
    rfl
  have hlog : ({ s.logic with queueToConnect := q } : LogicServer).publishLog =
      s.logic.publishLog ++ [] := (List.append_nil _).symm
  have hsame : ∀ pack, IsAnswer st₀ s.logic s.index pack →
      IsAnswer st₀ { s.logic with queueToConnect := q } s.index pack :=
    fun pack hpack => isAnswer_append hlog hpack
  dsimp only
  refine ⟨h.pos, h.fits, h.level, h.seq, h.part, h.log, h.packs, h.kept, fun hlinked => ?_,
    fun hopen => ?_⟩
  · have hlink := h.link hlinked
    refine ⟨hcap.trans hlink.cap, hlink.subscribed, hlink.toServer, hlink.stored,
      fun pack hpack => hsame pack (hlink.answers pack ?_)⟩
    rw [hway]
    exact List.mem_append_right _ hpack
  · obtain ⟨window, packs, hkeeps, hstream, hanswers, hacked⟩ := h.reading hopen
    by_cases hgoes : s.linked ∧ GoesTo s.index bs
    · have hfilter : [bs].filter (GoesTo s.index) = [bs] :=
        List.filter_eq_self.mpr fun b hb => by
          cases List.mem_singleton.mp hb
          exact decide_eq_true hgoes.2
      rw [hfilter] at hway
      refine ⟨window, packs ++ [bs], hkeeps, ?_, fun pack hpack => ?_, fun hlinked m hm hn => ?_⟩
      · show window ++ (if s.linked ∧ GoesTo s.index bs then s.toClient ++ bs else s.toClient) = _
        rw [if_pos hgoes, ← List.append_assoc, hstream, List.flatten_append, List.flatten_singleton]
      · rcases List.mem_append.mp hpack with hold | hnew
        · exact hsame pack (hanswers pack hold)
        · refine hsame pack ((h.link hgoes.1).answers pack ?_)
          rw [hway]
          exact List.mem_append_left _ hnew
      · have hin := hacked hlinked m hm hn
        rw [hway, ← List.append_assoc] at hin
        exact hin
    · refine ⟨window, packs, hkeeps, ?_, fun pack hpack => hsame pack (hanswers pack hpack),
        fun hlinked m hm hn => ?_⟩
      · show window ++ (if s.linked ∧ GoesTo s.index bs then s.toClient ++ bs else s.toClient) = _
        rw [if_neg hgoes, hstream]
      · have hfilter : [bs].filter (GoesTo s.index) = [] :=
          List.filter_eq_nil_iff.mpr fun b hb => by
            cases List.mem_singleton.mp hb
            exact fun hto => hgoes ⟨hlinked, of_decide_eq_true hto⟩
        have hin := hacked hlinked m hm hn
        rw [hway, hfilter] at hin
        exact hin

theorem Inv.hangUp (h : Inv st₀ s) : Inv st₀ { s with linked := false, toServer := [] } := by
  refine ⟨h.pos, h.fits, h.level, h.seq, h.part, h.log, h.packs, h.kept,
    fun hlinked => (nomatch hlinked), fun hopen => ?_⟩
  obtain ⟨window, packs, hkeeps, hstream, hanswers, -⟩ := h.reading hopen
  exact ⟨window, packs, hkeeps, hstream, hanswers, fun hlinked => nomatch hlinked⟩

/-! ## The producer -/

/-- A call that sends packages of messages on the list, and may put messages on it. -/
theorem Inv.send {p : Producer} {iMsgSeq : Int} {sent : List Bytes} {saved : List SavedMessage}
    (h : Inv st₀ s) (hsame : Producer.SameWindow s.producer p) (hseq : s.iMsgSeq ≤ iMsgSeq)
    (hlist : ∀ m ∈ p.needAckMsgList, (m.Packs ∧ m.msgSeq < iMsgSeq) ∧
      (s.Awaited m.msgSeq ∨ m.msgSeq = s.iMsgSeq))
    (hsaved : ∀ m ∈ saved, m.msgSeq < iMsgSeq ∧
      m.msgSeq ∈ p.needAckMsgList.map fun m => m.msgSeq)
    (hnumbers : ∀ n, s.Awaited n → n ∈ p.needAckMsgList.map fun m => m.msgSeq)
    (hsent : ∀ pack ∈ sent, ∃ n < iMsgSeq, IsPublish pack n) :
    Inv st₀ { s with
      producer := p
      iMsgSeq := iMsgSeq
      toServer := if s.linked then s.toServer ++ sent else []
      published := s.published ++ saved } := by
  refine ⟨h.pos, h.fits, hsame.iConfirmLevel.trans h.level, h.seq.trans hseq,
    fun hpack => h.part (hsame.hasPack hpack), h.log, fun m hm => (hlist m hm).1, fun m hm => ?_,
    fun hlinked => ?_, fun hopen => ?_⟩
  · rcases List.mem_append.mp hm with hold | hnew
    · obtain ⟨hlt, hkept⟩ := h.kept m hold
      exact ⟨Int.lt_of_lt_of_le hlt hseq, hkept.imp_left (hnumbers _)⟩
    · exact ⟨(hsaved m hnew).1, Or.inl (hsaved m hnew).2⟩
  · have hlinked : s.linked = true := hlinked
    have hlink := h.link hlinked
    refine ⟨hlink.cap, hlink.subscribed, fun pack hpack => ?_,
      fun n hn => Int.lt_of_lt_of_le (hlink.stored n hn) hseq, hlink.answers⟩
    have hpack : pack ∈ if s.linked then s.toServer ++ sent else [] := hpack
    rw [if_pos hlinked] at hpack
    rcases List.mem_append.mp hpack with hold | hnew
    · obtain ⟨n, hn, hpublish⟩ := hlink.toServer pack hold
      exact ⟨n, Int.lt_of_lt_of_le hn hseq, hpublish⟩
    · exact hsent pack hnew
  · have hwindow : p.window = s.producer.window := hsame.window hopen
    obtain ⟨window, packs, hkeeps, hstream, hanswers, hacked⟩ := h.reading (hwindow ▸ hopen)
    refine ⟨window, packs, hwindow.symm ▸ hkeeps, hstream, hanswers, fun hlinked m hm hn => ?_⟩
    rcases (hlist m hm).2 with hold | hnew
    · obtain ⟨x, hx, hxm⟩ := List.mem_map.mp hold
      have hxm : x.msgSeq = m.msgSeq := hxm
      have hin := hacked hlinked x hx (hxm.symm ▸ hn)
      rw [hxm] at hin
      exact hin
    · -- no message with a new number has been stored
      have hlt := (h.link hlinked).stored _ hn
      omega

theorem Inv.puslish {istrExName istrKey : Name} {istrMsgBody : Bytes} {iPriority : Int}
    {bDurable : Bool} {tSaveTime : Timeval} {sendOk : Bool} (h : Inv st₀ s)
    (hs : s.step (.puslish istrExName istrKey istrMsgBody iPriority bDurable tSaveTime sendOk) =
      some s') : Inv st₀ s' := by
  obtain ⟨r, hpuslish, rfl⟩ := Option.map_eq_some_iff.mp hs
  obtain ⟨hsame, hresult⟩ := Producer.puslishMessage_spec h.level h.seq hpuslish
  cases hresult with
  | saved m pack hsent hsaved hlist hseq hnext hpacks hpack =>
    have hlt : m.msgSeq < r.iMsgSeq := by omega
    have hmem : m.msgSeq ∈ r.producer.needAckMsgList.map fun m => m.msgSeq := by
      rw [hlist, List.map_append]
      exact List.mem_append_right _ (List.mem_singleton_self _)
    refine h.send hsame (by omega) (fun x hx => ?_) (fun x hx => ?_) (fun n hn => ?_)
      fun b hb => ?_
    · rw [hlist] at hx
      rcases List.mem_append.mp hx with hold | hnew
      · obtain ⟨hxpacks, hxlt⟩ := h.packs x hold
        exact ⟨⟨hxpacks, by omega⟩, Or.inl (List.mem_map_of_mem hold)⟩
      · cases List.mem_singleton.mp hnew
        exact ⟨⟨hpacks, hlt⟩, Or.inr hseq⟩
    · rw [hsaved] at hx
      cases List.mem_singleton.mp hx
      exact ⟨hlt, hmem⟩
    · rw [hlist, List.map_append]
      exact List.mem_append_left _ hn
    · rw [hsent] at hb
      cases List.mem_singleton.mp hb
      exact ⟨_, hlt, hpack⟩
  | not hsent hsaved hlist hnext =>
    refine h.send hsame hnext (fun x hx => ?_) (fun x hx => ?_) (fun n hn => ?_) fun b hb => ?_
    · rw [hlist] at hx
      obtain ⟨hxpacks, hxlt⟩ := h.packs x hx
      exact ⟨⟨hxpacks, by omega⟩, Or.inl (List.mem_map_of_mem hx)⟩
    · rw [hsaved] at hx
      cases hx
    · rw [hlist]
      exact hn
    · rw [hsent] at hb
      cases hb

theorem Inv.reSend {tNow : Timeval} {later : Nat → Timeval} {pBuffer : Nat → Mem}
    {sendOk : Nat → Bool} {k : Nat} (h : Inv st₀ s)
    (hs : s.step (.reSend tNow later pBuffer sendOk k) = some s') : Inv st₀ s' := by
  obtain ⟨⟨ret, p⟩, hresend, rfl⟩ := Option.map_eq_some_iff.mp hs
  obtain ⟨hsame, hmessages, hnumbers, hsent⟩ := Producer.reSendMsg_spec hresend
  have hlist : ∀ m ∈ p.needAckMsgList, (m.Packs ∧ m.msgSeq < s.iMsgSeq) ∧
      (s.Awaited m.msgSeq ∨ m.msgSeq = s.iMsgSeq) := by
    intro m hm
    obtain ⟨x, hx, hxm⟩ := hmessages m hm
    have hseq : x.msgSeq = m.msgSeq := congrArg CreatePublishMessage.msgSeq hxm
    obtain ⟨hpacks, hlt⟩ := h.packs x hx
    rw [hxm] at hpacks
    exact ⟨⟨hpacks, hseq ▸ hlt⟩, Or.inl (hseq ▸ List.mem_map_of_mem hx)⟩
  have hagain : ∀ pack ∈ p.resentPacks ret, ∃ n < s.iMsgSeq, IsPublish pack n := by
    intro pack hpack
    obtain ⟨m, hm, buf, rfl⟩ := hsent pack hpack
    obtain ⟨hpacks, hlt⟩ := h.packs m hm
    exact ⟨m.msgSeq, hlt, hpacks.isPublish buf⟩
  have hnone : ∀ m ∈ ([] : List SavedMessage), m.msgSeq < s.iMsgSeq ∧
      m.msgSeq ∈ p.needAckMsgList.map fun m => m.msgSeq := fun _ hm => nomatch hm
  have hkept := h.send hsame le_rfl hlist hnone (fun n hn => (hnumbers n).mpr hn) hagain
  rw [List.append_nil] at hkept
  exact hkept

/-- A message that is struck off the list has been stored, or its number has been read out of a
refusal. -/
theorem Inv.recvServerAck {fs : List Found} {k : Nat} (h : Inv st₀ s)
    (hs : s.step (.recvServerAck fs k) = some s') : Inv st₀ s' := by
  obtain ⟨_, hs⟩ | ⟨hgo, hs⟩ := ite_eq_some hs
  · cases hs
    exact h
  obtain ⟨⟨ret, p, incoming, fs'⟩, hrecv, rfl⟩ := Option.map_eq_some_iff.mp hs
  have hopen : s.producer.window.bBuild = true := by
    by_contra hclosed
    exact hgo ⟨hclosed, h.part⟩
  obtain ⟨window, packs, hkeeps, hstream, hanswers, hacked⟩ := h.reading hopen
  obtain ⟨hlevel, hreads⟩ := Producer.recvServerAck_spec h.level hkeeps
    (fun pack hpack => (hanswers pack hpack).hasNumber) hstream hrecv
  cases hreads with
  | closed hclosed hpart hlist =>
    refine ⟨h.pos, h.fits, hlevel.trans h.level, h.seq, hpart, h.log, hlist.symm ▸ h.packs, ?_, ?_,
      fun hopen => ?_⟩
    · intro m hm
      have hkept := h.kept m hm
      unfold Awaited at hkept ⊢
      rw [hlist]
      exact hkept
    · intro hlinked
      obtain ⟨hcap, hsubscribed, htoServer, hstored, hway⟩ := h.link hlinked
      exact ⟨hcap, hsubscribed, htoServer, hstored, hway⟩
    · rw [hclosed] at hopen
      cases hopen
  | read read rest window' hpacks hkeeps' hpart hstream' hlist =>
    have hmem : ∀ m, m ∈ p.needAckMsgList ↔
        m ∈ s.producer.needAckMsgList ∧ m.msgSeq ∉ read.map ackNumber := by
      intro m
      rw [hlist, List.mem_filter, decide_eq_true_iff]
    refine ⟨h.pos, h.fits, hlevel.trans h.level, h.seq, ?_, h.log, ?_, ?_, ?_, fun _ => ?_⟩
    · exact fun hpack => hpart (hkeeps'.hasPack_iff.mp hpack)
    · exact fun m hm => h.packs m ((hmem m).mp hm).1
    · intro m hm
      obtain ⟨hlt, hkept⟩ := h.kept m hm
      refine ⟨hlt, ?_⟩
      rcases hkept with hawaited | hdone
      · by_cases hread : m.msgSeq ∈ read.map ackNumber
        · obtain ⟨pack, hpack, hnumber⟩ := List.mem_map.mp hread
          have hanswer := (hanswers pack (hpacks ▸ List.mem_append_left _ hpack)).number
          rw [hnumber] at hanswer
          exact Or.inr hanswer
        · obtain ⟨x, hx, hxm⟩ := List.mem_map.mp hawaited
          have hxm : x.msgSeq = m.msgSeq := hxm
          exact Or.inl (List.mem_map.mpr ⟨x, (hmem x).mpr ⟨hx, hxm.symm ▸ hread⟩, hxm⟩)
      · exact Or.inr hdone
    · intro hlinked
      obtain ⟨hcap, hsubscribed, htoServer, hstored, hway⟩ := h.link hlinked
      exact ⟨hcap, hsubscribed, htoServer, hstored, hway⟩
    · refine ⟨window', rest, hkeeps', hstream',
        fun pack hpack => hanswers pack (hpacks ▸ List.mem_append_right _ hpack),
        fun hlinked m hm hn => ?_⟩
      obtain ⟨hold, hunread⟩ := (hmem m).mp hm
      obtain ⟨pack, hpack, hnumber⟩ := hacked hlinked m hold hn
      rw [hpacks, List.append_assoc] at hpack
      rcases List.mem_append.mp hpack with hin | hin
      · exact absurd (List.mem_map.mpr ⟨pack, hin, hnumber⟩) hunread
      · exact ⟨pack, hin, hnumber⟩

/-! ## Runs -/

theorem Inv.step {a : Step} (h : Inv st₀ s) (hs : s.step a = some s') : Inv st₀ s' := by
  cases a with
  | puslish => exact h.puslish hs
  | recvServerAck => exact h.recvServerAck hs
  | reSend => exact h.reSend hs
  | take => exact h.take hs
  | logic => exact h.logic hs
  | deliver => exact h.deliver hs
  | hangUp =>
    cases hs
    exact h.hangUp

theorem Inv.run {as : List Step} (h : Inv st₀ s) (hrun : run s as = some s') : Inv st₀ s' :=
  Runs.invariant_of_step (fun _ _ _ hi hs => Inv.step hi hs) h hrun

/-- The logic server knows nothing of the connection yet, and its channel does not fill up. -/
structure NewTo (st : LogicServer) (index : Int) : Prop where
  cap : st.queueToConnect.cap = none
  subscribed : ∀ queue k, Subscribed st queue k → FitsInt 4 k ∧ k ≠ index
  sent : ∀ pack ∈ st.queueToConnect.items, ¬ GoesTo index pack

theorem inv_start {index : Int} (hpos : 0 < index) (hfits : FitsInt 4 index)
    (h : NewTo st index) : Inv st (start index st) := by
  have hway : (start index st).onTheWay = [] :=
    List.filter_eq_nil_iff.mpr fun pack hpack hgoes => h.sent pack hpack (of_decide_eq_true hgoes)
  have hpart : ¬ ({} : RecvWindow).HasPack := by decide
  refine ⟨hpos, hfits, rfl, le_rfl, hpart, List.prefix_refl _, fun _ hm => (nomatch hm),
    fun _ hm => (nomatch hm), fun _ => ⟨h.cap, h.subscribed, fun _ hpack => (nomatch hpack),
      fun n hn => ?_, fun pack hpack => ?_⟩, fun _ => ⟨[], [], RecvWindow.keeps_fresh, rfl,
        fun _ hpack => (nomatch hpack), fun _ _ hm => nomatch hm⟩⟩
  · exact absurd hn (LogicServer.not_routes_self rfl)
  · rw [hway] at hpack
    cases hpack

/-- The connection is there, and the producer has read all answers. -/
structure AllRead (s : Dialogue) : Prop where
  linked : s.linked
  bBuild : s.producer.window.bBuild
  onTheWay : s.onTheWay = []
  toClient : s.toClient = []
  window : s.producer.window.unread = []

/-- Each published message is still on the list unless it was stored, or has one of the two numbers
that are read out of refusals.  The list of a producer that has read all answers has just the
messages that were not stored. -/
theorem published_accounted {index : Int} {as : List Step} (hpos : 0 < index)
    (hfits : FitsInt 4 index) (hnew : NewTo st₀ index)
    (hrun : run (start index st₀) as = some s) :
    ∀ m ∈ s.published,
      (s.Awaited m.msgSeq ∨ Stored st₀ s m.msgSeq ∨ m.msgSeq = 4552803 ∨ m.msgSeq = 4614516) ∧
      (AllRead s → m.msgSeq ≠ 4552803 → m.msgSeq ≠ 4614516 →
        (s.Awaited m.msgSeq ↔ ¬ Stored st₀ s m.msgSeq)) := by
  intro m hm
  have hinv := (inv_start hpos hfits hnew).run hrun
  have hkept := (hinv.kept m hm).2
  rw [refusedNumbers_eq, List.mem_pair] at hkept
  refine ⟨hkept, fun hread hexchange hqueue => ⟨fun hawaited hstored => ?_, fun hnot => ?_⟩⟩
  · obtain ⟨window, packs, hkeeps, hstream, hanswers, hacked⟩ := hinv.reading hread.bBuild
    have hwindow : window = [] := hkeeps.unread_eq.symm.trans hread.window
    have hnil : packs = [] := by
      refine eq_nil_of_flatten (fun pack hpack => (hanswers pack hpack).hasNumber) ?_
      rw [← hstream, hwindow, hread.toClient, List.append_nil]
    obtain ⟨x, hx, hxm⟩ := List.mem_map.mp hawaited
    have hxm : x.msgSeq = m.msgSeq := hxm
    obtain ⟨pack, hpack, -⟩ := hacked hread.linked x hx (hxm.symm ▸ hstored)
    rw [hnil, hread.onTheWay] at hpack
    cases hpack
  · rcases hkept with hawaited | hstored | hnumber | hnumber
    · exact hawaited
    · exact absurd hstored hnot
    · exact absurd hnumber hexchange
    · exact absurd hnumber hqueue

end Dialogue

end Model

namespace Dialogue

section Witness

attribute [local instance] Platform.plain

/-- The producer publishes "hello". -/
def hello : Step := .puslish (ascii "e") (ascii "k") (ascii "hello") (-1) false ⟨0, 0⟩ true

/-- The exchange is made between the two messages. -/
def early : List Step :=
  [hello, .take (LogicServer.Step.publishPackage 12 false 0 1)] ++ LogicServer.setUp.map .logic ++
    [hello, .take (LogicServer.Step.publishPackage 12 false 1 1), .deliver, .deliver, .deliver,
      .deliver, .deliver, .recvServerAck [.ready 200] 5]

theorem newTo_start (capPersis : Option Nat) (index : Int) :
    NewTo (LogicServer.start none capPersis) index :=
  ⟨rfl, fun _ _ ⟨_, hq, _⟩ => (nomatch hq), fun _ hpack => nomatch hpack⟩

/-- The first message was refused, and is still on the list. -/
theorem published_accounted_early :
    ∃ s, run (start 12 (LogicServer.start none none)) early = some s ∧ AllRead s ∧
      s.Awaited 0 ∧ ¬ s.Awaited 1 ∧ ¬ Stored (LogicServer.start none none) s 0 ∧
      Stored (LogicServer.start none none) s 1 := by
  have hcheck : (run (start 12 (LogicServer.start none none)) early).map (fun s =>
      decide (s.linked = true ∧ s.producer.window.bBuild = true ∧ s.onTheWay = [] ∧
        s.toClient = [] ∧ s.producer.window.unread = [] ∧
        (s.published.map fun m => m.msgSeq) = [0, 1] ∧
        (s.producer.needAckMsgList.map fun m => m.msgSeq) = [0])) = some true := by decide +kernel
  obtain ⟨s, hrun, hprops⟩ := Option.map_eq_some_iff.mp hcheck
  obtain ⟨hlinked, hopen, hway, hclient, hwindow, hpublished, hlist⟩ := of_decide_eq_true hprops
  have hread : AllRead s := ⟨hlinked, hopen, hway, hclient, hwindow⟩
  have hawaited : ∀ n, s.Awaited n ↔ n = 0 := by
    intro n
    rw [Awaited, hlist, List.mem_singleton]
  have haccount := published_accounted (by decide) (by decide) (newTo_start none 12) hrun
  obtain ⟨m, hm, hzero⟩ := List.mem_map.mp (hpublished.symm ▸ List.mem_cons_self :
    (0 : Int) ∈ s.published.map fun m => m.msgSeq)
  obtain ⟨m', hm', hone⟩ := List.mem_map.mp (hpublished.symm ▸
    List.mem_cons_of_mem _ List.mem_cons_self : (1 : Int) ∈ s.published.map fun m => m.msgSeq)
  have hfirst := (haccount m hm).2 hread (by rw [hzero]; decide) (by rw [hzero]; decide)
  have hsecond := (haccount m' hm').2 hread (by rw [hone]; decide) (by rw [hone]; decide)
  rw [hzero, hawaited] at hfirst
  rw [hone, hawaited] at hsecond
  refine ⟨s, hrun, hread, (hawaited 0).mpr rfl, ?_, hfirst.mp rfl, ?_⟩
  · rw [hawaited]
    decide
  · by_contra hnot
    exact absurd (hsecond.mpr hnot) (by decide)

end Witness

end Dialogue

end Wsmq
