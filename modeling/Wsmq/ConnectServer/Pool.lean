import Wsmq.ConnectServer
import Wsmq.ConnectServer.Receive
import Wsmq.Lib.AssocTables
import Wsmq.Lib.Runs

/-!
# The connection pool (`connectServer/clientConnect.cpp`)

The slots with their buffers and cursors, the free list and the map of online clients, and what
`ProcessEpollData` and `Run` do with them.  Of the system calls the outcome is kept;
`CONNECT_TO_LOGIC` is left out.
-/

namespace Wsmq
open Lib Lib.ByteString Lib.Packing Lib.Framing

inductive Buff
  | recvBuff
  | sendBuff
  deriving DecidableEq

/-- Where a receive cursor points. -/
structure Cursor where
  buff : Buff
  offset : Nat
  deriving DecidableEq

/-- An entry of `m_pAllClientConnect`.  The send cursors are offsets from `m_pSendBuff`. -/
structure Slot where
  index : Int
  bUsed : Bool := false
  bInMap : Bool := false
  recvBuff : Mem := zeroed
  recvHead : Cursor := ⟨.recvBuff, 0⟩
  recvTail : Cursor := ⟨.recvBuff, 0⟩
  sendBuff : Mem := zeroed
  sendHead : Nat := 0
  sendTail : Nat := 0
  /-- History variables of the connection: the bytes received, the packages cut off, and the
  bytes that wait to be sent. -/
  received : Bytes := []
  enqueued : List Bytes := []
  waiting : Bytes := []

namespace Slot

/-- `m_pRecvEnd-m_pRecvTail`; the difference of pointers into two buffers is undefined. -/
def recvBytes (c : Slot) : Option Int :=
  if c.recvTail.buff = .recvBuff then some (serverBufferSize - c.recvTail.offset) else none

/-- `recv` has returned `data`, and the packages are cut off. -/
def receive (c : Slot) (data : Bytes) : Option Slot :=
  if c.recvHead.buff = .recvBuff ∧ c.recvTail.buff = .recvBuff then
    (RecvBuff.receive c.index ⟨c.recvBuff, c.recvHead.offset, c.recvTail.offset⟩ data).map
      fun (packs, r) =>
        { c with
          recvBuff := r.recvBuff
          recvHead := ⟨.recvBuff, r.recvHead⟩
          recvTail := ⟨.recvBuff, r.recvTail⟩
          received := c.received ++ data
          enqueued := c.enqueued ++ packs }
  else none

/-- `m_pSendEnd-m_pSendTail`. -/
def freeSpace (c : Slot) : Int := serverBufferSize - c.sendTail

def append (c : Slot) (pack : Bytes) : Slot :=
  { c with
    sendBuff := c.sendBuff.write c.sendTail pack
    sendTail := c.sendTail + pack.length
    waiting := c.waiting ++ pack }

/-- What `SendDataToClient` is called with. -/
def window (c : Slot) : Bytes := c.sendBuff.read c.sendHead (c.sendTail - c.sendHead)

/-- `m_pSendTail=m_pSendBuff`, once the window is sent. -/
def resetTail (c : Slot) : Slot := { c with sendTail := 0, waiting := [] }

/-- A new connection begins. -/
def handedOut (c : Slot) : Slot :=
  { c with bUsed := true, received := [], enqueued := [], waiting := [] }

/-- `m_bInMap=true`. -/
def mapped (c : Slot) : Slot := { c with bInMap := true }

/-- What `ClientExit` leaves: the receive cursors are set to the wrong buffer, and those for
sending are not set. -/
def exited (c : Slot) : Slot :=
  { c with
    recvBuff := zeroed
    sendBuff := zeroed
    recvHead := ⟨.sendBuff, 0⟩
    recvTail := ⟨.sendBuff, 0⟩
    bInMap := false
    bUsed := false }

end Slot

structure ClientConnectManager where
  /-- `CLIENT_EPOLL_COUNT`. -/
  count : Nat
  allClientConnect : Nat → Slot
  freeList : List Nat
  onlineClient : AList fun _ : Int => Nat := ∅

namespace ClientConnectManager

/-- The constructor. -/
def new (count : Nat) : ClientConnectManager where
  count := count
  allClientConnect i := { index := i }
  freeList := List.range count

/-- The addresses of the slots, and the one after them. -/
def IsAddrValid (m : ClientConnectManager) (i : Nat) : Prop := i ≤ m.count

instance (m : ClientConnectManager) (i : Nat) : Decidable (m.IsAddrValid i) :=
  inferInstanceAs (Decidable (_ ≤ _))

def setSlot (m : ClientConnectManager) (i : Nat) (c : Slot) : ClientConnectManager :=
  { m with allClientConnect := fun j => if j = i then c else m.allClientConnect j }

def getOneFreeConnect (m : ClientConnectManager) : Option Nat × ClientConnectManager :=
  match m.freeList with
  | [] => (none, m)
  | pFront :: rest =>
    let m := { m with freeList := rest }
    if ¬ m.IsAddrValid pFront then (none, m)
    else (some pFront, m.setSlot pFront (m.allClientConnect pFront).handedOut)

def clientExit (m : ClientConnectManager) (i : Nat) : ClientConnectManager :=
  let c := m.allClientConnect i
  if ¬ c.bUsed then m
  else
    { m.setSlot i c.exited with
      onlineClient := m.onlineClient.erase c.index
      freeList := m.freeList ++ [i] }

def findClient (m : ClientConnectManager) (iIndex : Int) : Option Nat :=
  m.onlineClient.lookup iIndex

def addOnlineClient (m : ClientConnectManager) (i : Nat) : ClientConnectManager :=
  { m with onlineClient := m.onlineClient.insert (m.allClientConnect i).index i }

end ClientConnectManager

structure Connections where
  manager : ClientConnectManager
  /-- The slot of `m_iListenFd`. -/
  listener : Option Nat := none
  vSendClients : List Nat := []
  /-- `Run` is in the loop over `vSendClients`. -/
  flushing : Bool := false
  /-- A history variable: how often `GetOneFreeConnect` has given a slot. -/
  handedOut : Nat := 0

namespace Connections

inductive Step
  | init
  | accept
  /-- `recv` returns bytes for a client. -/
  | receive (i : Nat) (data : Bytes)
  /-- `recv` fails or returns nothing, or there is another event for the socket. -/
  | close (i : Nat)
  /-- A package out of `LOGIC_TO_CONNECT`, and whether `SendDataToClient` succeeds. -/
  | dispatch (pack : Bytes) (sendOk : Bool)
  /-- The next entry of `vSendClients`. -/
  | flush (sendOk : Bool)

def slot (s : Connections) (i : Nat) : Slot := s.manager.allClientConnect i

def setSlot (s : Connections) (i : Nat) (c : Slot) : Connections :=
  { s with manager := s.manager.setSlot i c }

def clientExit (s : Connections) (i : Nat) : Connections :=
  { s with manager := s.manager.clientExit i }

/-- `GetOneFreeConnect`, counted. -/
def handOut (s : Connections) : Option Nat × Connections :=
  let r := s.manager.getOneFreeConnect
  (r.1, { s with manager := r.2, handedOut := s.handedOut + if r.1.isSome then 1 else 0 })

/-- The listening socket is open. -/
def Listening (s : Connections) : Prop := ∃ i, s.listener = some i ∧ (s.slot i).bUsed

instance (s : Connections) : Decidable s.Listening :=
  match h : s.listener with
  | none => isFalse fun ⟨_, hi, _⟩ => nomatch h.symm.trans hi
  | some i => decidable_of_iff ((s.slot i).bUsed = true)
      ⟨fun hu => ⟨i, h, hu⟩, fun ⟨_, hj, hu⟩ => Option.some.inj (h.symm.trans hj) ▸ hu⟩

/-- The body of the loop of `Run` once a package is dequeued. -/
def dispatch (s : Connections) (pack : Bytes) (sendOk : Bool) : Connections :=
  let pBuff := Mem.ofBytes pack
  if pack.length < sizeofClientPackageHead then s
  else
    match s.manager.findClient (readInt pBuff 2) with
    | none => s
    | some i =>
      let c := s.slot i
      if ¬ ConnectServer.ToClient (readUShort pBuff 6) then s
      else if c.freeSpace ≥ pack.length then
        { s.setSlot i (c.append pack) with vSendClients := s.vSendClients ++ [i] }
      else if sendOk then
        { s.setSlot i (c.resetTail.append pack) with vSendClients := s.vSendClients ++ [i] }
      else s.clientExit i

/-- The body of the loop over `vSendClients`.  The socket of a slot that has exited is closed. -/
def flushClient (s : Connections) (i : Nat) (sendOk : Bool) : Connections :=
  let c := s.slot i
  if sendOk ∧ c.bUsed then s.setSlot i c.resetTail else s.clientExit i

/-- `ProcessEpollData` is over before packages are dispatched, and all of them are dispatched
before `vSendClients` is looked through. -/
def step (s : Connections) : Step → Option Connections
  | .init =>
    if s.listener.isSome then none
    else
      match s.handOut with
      | (none, _) => none
      | (some i, s) => some { s with listener := some i }
  | .accept =>
    if s.vSendClients ≠ [] ∨ ¬ s.Listening then none
    else
      match s.handOut with
      | (none, s) => some s
      | (some i, s) => some { s with
          manager := (s.manager.setSlot i (s.slot i).mapped).addOnlineClient i }
  | .receive i data =>
    if s.vSendClients ≠ [] ∨ s.listener = some i ∨ ¬ (s.slot i).bUsed then none
    else ((s.slot i).receive data).map (s.setSlot i)
  | .close i =>
    if s.vSendClients ≠ [] ∨ ¬ (s.slot i).bUsed then none else some (s.clientExit i)
  | .dispatch pack sendOk =>
    if s.flushing ∨ pack.length > maxServerPackageLength then none
    else some (s.dispatch pack sendOk)
  | .flush sendOk =>
    match s.vSendClients with
    | [] => none
    | i :: rest =>
      some ({ s with vSendClients := rest, flushing := !rest.isEmpty }.flushClient i sendOk)

abbrev run : Connections → List Step → Option Connections := Runs.run step

/-- Before `Init`. -/
def start (count : Nat) : Connections where
  manager := .new count

end Connections

/-! ## The order in which slots are given out -/

namespace ClientConnectManager

variable {m m' : ClientConnectManager} {k i : Nat} {c : Slot} {rest : List Nat}

/-- `k` slots have been given out: first each one once, and from then on those that have come
back. -/
structure Rotates (m : ClientConnectManager) (k : Nat) : Prop where
  order : ∃ old, m.freeList = List.range' k (m.count - k) ++ old ∧
    ∀ i ∈ old, i < m.count ∧ (m.allClientConnect i).recvHead.buff = .sendBuff
  nodup : m.freeList.Nodup
  free : ∀ i ∈ m.freeList, (m.allClientConnect i).bUsed = false
  new : ∀ i, k ≤ i → m.allClientConnect i = { index := i }
  inside : ∀ i, (m.allClientConnect i).bUsed → i < m.count
  online : ∀ iIndex i, m.findClient iIndex = some i →
    (m.allClientConnect i).bUsed ∧ (m.allClientConnect i).index = iIndex

theorem rotates_new (count : Nat) : Rotates (new count) 0 := by
  refine ⟨⟨[], ?_, fun i hi => nomatch hi⟩, List.nodup_range, fun _ _ => rfl, fun _ _ => rfl, ?_,
    ?_⟩
  · simp [new, List.range_eq_range']
  · intro i hi
    cases hi
  · intro iIndex i hi
    cases hi

@[simp] theorem setSlot_self (m : ClientConnectManager) (i : Nat) (c : Slot) :
    (m.setSlot i c).allClientConnect i = c := if_pos rfl

theorem setSlot_ne {j : Nat} (h : j ≠ i) :
    (m.setSlot i c).allClientConnect j = m.allClientConnect j := if_neg h

theorem setSlot_setSlot (m : ClientConnectManager) (i : Nat) (c c' : Slot) :
    (m.setSlot i c).setSlot i c' = m.setSlot i c' := by
  have hsame : (fun j => if j = i then c' else if j = i then c else m.allClientConnect j) =
      fun j => if j = i then c' else m.allClientConnect j := by
    funext j
    split <;> rfl
  exact congrArg (fun f => { m with allClientConnect := f }) hsame

theorem Rotates.inside_of_free (h : Rotates m k) (hi : i ∈ m.freeList) : i < m.count := by
  obtain ⟨old, horder, hold⟩ := h.order
  rw [horder, List.mem_append, List.mem_range'_1] at hi
  rcases hi with hi | hi
  · omega
  · exact (hold i hi).1

/-- The first slot of the list is a new one as long as there are any. -/
theorem Rotates.front (h : Rotates m k) (hfree : m.freeList = i :: rest) :
    if k < m.count then i = k else (m.allClientConnect i).recvHead.buff = .sendBuff := by
  obtain ⟨old, horder, hold⟩ := h.order
  rw [hfree] at horder
  by_cases hk : k < m.count
  · rw [if_pos hk]
    obtain ⟨d, hd⟩ := Nat.exists_eq_succ_of_ne_zero (Nat.sub_ne_zero_of_lt hk)
    rw [hd, List.range'_succ, List.cons_append] at horder
    exact (List.cons.inj horder).1
  · rw [if_neg hk]
    rw [Nat.sub_eq_zero_of_le (Nat.not_lt.mp hk), List.range'_zero, List.nil_append] at horder
    exact (hold i (horder ▸ List.mem_cons_self)).2

theorem Rotates.front_le (h : Rotates m k) (hfree : m.freeList = i :: rest) : i ≤ k := by
  have hfront := h.front hfree
  have hlt := h.inside_of_free (hfree ▸ List.mem_cons_self)
  split at hfront
  · exact Nat.le_of_eq hfront
  · omega

theorem Rotates.popped (h : Rotates m k) (hfree : m.freeList = i :: rest) :
    ∃ old, rest = List.range' (k + 1) (m.count - (k + 1)) ++ old ∧
      ∀ j ∈ old, j < m.count ∧ (m.allClientConnect j).recvHead.buff = .sendBuff := by
  obtain ⟨old, horder, hold⟩ := h.order
  rw [hfree] at horder
  by_cases hk : k < m.count
  · obtain ⟨d, hd⟩ := Nat.exists_eq_succ_of_ne_zero (Nat.sub_ne_zero_of_lt hk)
    have hd' : m.count - (k + 1) = d := by omega
    rw [hd, List.range'_succ, List.cons_append] at horder
    exact ⟨old, hd' ▸ (List.cons.inj horder).2, hold⟩
  · have hzero : m.count - (k + 1) = 0 := by omega
    rw [Nat.sub_eq_zero_of_le (Nat.not_lt.mp hk), List.range'_zero, List.nil_append] at horder
    refine ⟨rest, ?_, fun j hj => hold j (horder ▸ List.mem_cons_of_mem _ hj)⟩
    rw [hzero, List.range'_zero, List.nil_append]

theorem getOneFreeConnect_of_nil (h : m.freeList = []) : m.getOneFreeConnect = (none, m) := by
  unfold getOneFreeConnect
  rw [h]

theorem getOneFreeConnect_of_cons (hfree : m.freeList = i :: rest) (hvalid : i ≤ m.count) :
    m.getOneFreeConnect =
      (some i, { m with freeList := rest }.setSlot i (m.allClientConnect i).handedOut) := by
  unfold getOneFreeConnect
  rw [hfree]
  exact if_neg (not_not.mpr hvalid)

theorem Rotates.getOneFreeConnect (h : Rotates m k) (hfree : m.freeList = i :: rest) :
    m.getOneFreeConnect = (some i,
        { m with freeList := rest }.setSlot i (m.allClientConnect i).handedOut) ∧
      Rotates ({ m with freeList := rest }.setSlot i (m.allClientConnect i).handedOut)
        (k + 1) := by
  have hin : i ∈ m.freeList := hfree ▸ List.mem_cons_self
  have hlt := h.inside_of_free hin
  have hnodup := hfree ▸ h.nodup
  have hne : ∀ j ∈ rest, j ≠ i := fun j hj heq => (List.nodup_cons.mp hnodup).1 (heq ▸ hj)
  constructor
  · exact getOneFreeConnect_of_cons hfree (Nat.le_of_lt hlt)
  · obtain ⟨old, horder, hold⟩ := h.popped hfree
    have hrest : ∀ j ∈ old, j ∈ rest := fun j hj => horder ▸ List.mem_append_right _ hj
    refine ⟨⟨old, horder, ?_⟩, hnodup.of_cons, ?_, ?_, ?_, ?_⟩
    · intro j hj
      rw [setSlot_ne (hne j (hrest j hj))]
      exact hold j hj
    · intro j hj
      rw [setSlot_ne (hne j hj)]
      exact h.free j (hfree ▸ List.mem_cons_of_mem _ hj)
    · intro j hj
      have hji : j ≠ i := by
        have hle := h.front_le hfree
        omega
      rw [setSlot_ne hji]
      exact h.new j (Nat.le_of_succ_le hj)
    · intro j hj
      by_cases hji : j = i
      · exact hji ▸ hlt
      · rw [setSlot_ne hji] at hj
        exact h.inside j hj
    · intro iIndex j hj
      have hused := h.online iIndex j hj
      by_cases hji : j = i
      · rw [hji, h.free i hin] at hused
        exact absurd hused.1 Bool.false_ne_true
      · rw [setSlot_ne hji]
        exact hused

/-- A slot in use changes. -/
theorem Rotates.setSlot (h : Rotates m k) (hu : (m.allClientConnect i).bUsed)
    (hused : c.bUsed) (hindex : c.index = (m.allClientConnect i).index) :
    Rotates (m.setSlot i c) k := by
  obtain ⟨old, horder, hold⟩ := h.order
  have hne : ∀ j ∈ m.freeList, j ≠ i := by
    intro j hj heq
    rw [← heq, h.free j hj] at hu
    exact Bool.false_ne_true hu
  refine ⟨⟨old, horder, ?_⟩, h.nodup, ?_, ?_, ?_, ?_⟩
  · intro j hj
    have hfree : j ∈ m.freeList := horder ▸ List.mem_append_right _ hj
    rw [setSlot_ne (hne j hfree)]
    exact hold j hj
  · intro j hj
    rw [setSlot_ne (hne j hj)]
    exact h.free j hj
  · intro j hj
    have hji : j ≠ i := by
      intro heq
      rw [← heq, h.new j hj] at hu
      exact Bool.false_ne_true hu
    rw [setSlot_ne hji]
    exact h.new j hj
  · intro j hj
    by_cases hji : j = i
    · exact hji ▸ h.inside i hu
    · rw [setSlot_ne hji] at hj
      exact h.inside j hj
  · intro iIndex j hj
    have honline := h.online iIndex j hj
    by_cases hji : j = i
    · subst hji
      rw [setSlot_self]
      exact ⟨hused, hindex.trans honline.2⟩
    · rw [setSlot_ne hji]
      exact honline

theorem Rotates.addOnlineClient (h : Rotates m k) (hu : (m.allClientConnect i).bUsed) :
    Rotates (m.addOnlineClient i) k := by
  refine ⟨h.order, h.nodup, h.free, h.new, h.inside, ?_⟩
  intro iIndex j hj
  rcases AssocTables.lookup_insert_some hj with ⟨hkey, rfl⟩ | ⟨_, hold⟩
  · exact ⟨hu, hkey.symm⟩
  · exact h.online iIndex j hold

theorem clientExit_of_unused (h : (m.allClientConnect i).bUsed = false) :
    m.clientExit i = m := by
  unfold clientExit
  rw [if_pos (by rw [h]; decide)]

theorem clientExit_of_used (h : (m.allClientConnect i).bUsed) :
    m.clientExit i = { m.setSlot i (m.allClientConnect i).exited with
      onlineClient := m.onlineClient.erase (m.allClientConnect i).index
      freeList := m.freeList ++ [i] } := if_neg (not_not.mpr h)

theorem count_clientExit (m : ClientConnectManager) (i : Nat) :
    (m.clientExit i).count = m.count := by
  cases hu : (m.allClientConnect i).bUsed with
  | false => rw [clientExit_of_unused hu]
  | true =>
    rw [clientExit_of_used hu]
    rfl

/-- The slot goes to the end of the list. -/
theorem Rotates.clientExit (h : Rotates m k) (i : Nat) : Rotates (m.clientExit i) k := by
  cases hu : (m.allClientConnect i).bUsed with
  | false =>
    rw [clientExit_of_unused hu]
    exact h
  | true =>
    rw [clientExit_of_used hu]
    have hfree : i ∉ m.freeList := by
      intro hi
      rw [h.free i hi] at hu
      cases hu
    have hne : ∀ j ∈ m.freeList, j ≠ i := fun j hj heq => hfree (heq ▸ hj)
    obtain ⟨old, horder, hold⟩ := h.order
    refine ⟨⟨old ++ [i], ?_, ?_⟩, ?_, ?_, ?_, ?_, ?_⟩
    · show m.freeList ++ [i] = _
      rw [horder, List.append_assoc]
      rfl
    · intro j hj
      show j < m.count ∧ ((m.setSlot i _).allClientConnect j).recvHead.buff = _
      rcases List.mem_append.mp hj with hj | hj
      · have hin : j ∈ m.freeList := horder ▸ List.mem_append_right _ hj
        rw [setSlot_ne (hne j hin)]
        exact hold j hj
      · cases List.mem_singleton.mp hj
        rw [setSlot_self]
        exact ⟨h.inside i hu, rfl⟩
    · exact List.nodup_append.mpr ⟨h.nodup, List.nodup_singleton i, by simpa using hne⟩
    · intro j hj
      show ((m.setSlot i _).allClientConnect j).bUsed = false
      rcases List.mem_append.mp hj with hj | hj
      · rw [setSlot_ne (hne j hj)]
        exact h.free j hj
      · cases List.mem_singleton.mp hj
        rw [setSlot_self]
        rfl
    · intro j hj
      show (m.setSlot i _).allClientConnect j = _
      have hji : j ≠ i := by
        intro heq
        rw [← heq, h.new j hj] at hu
        cases hu
      rw [setSlot_ne hji]
      exact h.new j hj
    · intro j hj
      have hj : ((m.setSlot i (m.allClientConnect i).exited).allClientConnect j).bUsed := hj
      by_cases hji : j = i
      · exact hji ▸ h.inside i hu
      · rw [setSlot_ne hji] at hj
        exact h.inside j hj
    · intro iIndex j hj
      obtain ⟨hkey, hlookup⟩ := AssocTables.lookup_erase_some hj
      have honline := h.online iIndex j hlookup
      have hji : j ≠ i := fun heq => hkey (heq ▸ honline.2.symm)
      show ((m.setSlot i _).allClientConnect j).bUsed ∧
        ((m.setSlot i _).allClientConnect j).index = iIndex
      rw [setSlot_ne hji]
      exact honline

end ClientConnectManager

/-! ## The windows of a connection -/

namespace Slot

variable {c c' : Slot} {data pack : Bytes}

/-- Both windows are empty and at the start of their buffers. -/
def Clean (c : Slot) : Prop :=
  c.recvHead = ⟨.recvBuff, 0⟩ ∧ c.recvTail = ⟨.recvBuff, 0⟩ ∧ c.sendHead = 0 ∧ c.sendTail = 0

/-- Nothing but the bytes of this connection is parsed or sent. -/
structure OwnBytes (c : Slot) : Prop where
  recvBytes : ∃ n, c.recvBytes = some n ∧ 0 ≤ n ∧ n ≤ serverBufferSize
  parsed : c.enqueued = (RecvBuff.framer.drain c.received).1.map (RecvBuff.setIndex c.index)
  unread : c.recvBuff.read c.recvHead.offset (c.recvTail.offset - c.recvHead.offset) =
    (RecvBuff.framer.drain c.received).2
  window : c.window = c.waiting
  room : c.sendTail ≤ serverBufferSize

/-- The cursors of a connection in use. -/
structure Working (c : Slot) : Prop where
  recvHead : c.recvHead.buff = .recvBuff
  recvTail : c.recvTail.buff = .recvBuff
  keeps : RecvBuff.Keeps ⟨c.recvBuff, c.recvHead.offset, c.recvTail.offset⟩
    (RecvBuff.framer.drain c.received).2
  inside : c.recvTail.offset ≤ serverBufferSize
  parsed : c.enqueued = (RecvBuff.framer.drain c.received).1.map (RecvBuff.setIndex c.index)
  sendHead : c.sendHead = 0
  sendTail : c.sendTail = c.waiting.length
  sent : c.sendBuff.read 0 c.waiting.length = c.waiting
  room : c.sendTail ≤ serverBufferSize

theorem Working.ownBytes (h : Working c) : OwnBytes c := by
  refine ⟨⟨_, if_pos h.recvTail, ?_, ?_⟩, h.parsed, h.keeps.unread, ?_, ?_⟩
  · have hle := h.inside
    omega
  · omega
  · rw [window, h.sendHead, h.sendTail, Nat.sub_zero]
    exact h.sent
  · exact h.room

theorem working_new (i : Int) : Working (handedOut { index := i }) := by
  have hdrain : RecvBuff.framer.drain [] = ([], []) := Framer.drain_none Framer.size_nil
  refine ⟨rfl, rfl, ?_, Nat.zero_le _, ?_, rfl, rfl, rfl, Nat.zero_le _⟩
  · rw [handedOut, hdrain]
    exact ⟨rfl, rfl, rfl⟩
  · rw [handedOut, hdrain]
    rfl

theorem Working.receive (h : Working c) (hrecv : c.receive data = some c') : Working c' := by
  rw [Slot.receive, if_pos ⟨h.recvHead, h.recvTail⟩] at hrecv
  obtain ⟨⟨packs, r⟩, hr, rfl⟩ := Option.map_eq_some_iff.mp hrecv
  obtain ⟨hpacks, hkeeps⟩ := RecvBuff.receive_spec h.keeps hr
  have happend := Framer.drain_append (f := RecvBuff.framer) c.received data
  have hroom : data.length ≤ serverBufferSize - c.recvTail.offset := by
    unfold RecvBuff.receive at hr
    split at hr
    · cases hr
    · next hnot => exact Nat.not_lt.mp fun hlt => hnot (Or.inr hlt)
  refine ⟨rfl, rfl, ?_, ?_, ?_, h.sendHead, h.sendTail, h.sent, h.room⟩
  · rw [happend]
    exact hkeeps
  · show r.recvTail ≤ serverBufferSize
    have hle := (Framer.drain_suffix (f := RecvBuff.framer)
      ((RecvBuff.framer.drain c.received).2 ++ data)).length_le
    have htail : c.recvTail.offset = _ := h.keeps.tail
    rw [List.length_append, ← htail] at hle
    rw [hkeeps.tail]
    have hinside := h.inside
    omega
  · have hpacks : packs = _ := hpacks
    show c.enqueued ++ packs = _
    rw [happend, List.map_append, ← h.parsed, hpacks]

theorem Working.resetTail (h : Working c) : Working c.resetTail :=
  ⟨h.recvHead, h.recvTail, h.keeps, h.inside, h.parsed, h.sendHead, rfl, rfl,
    Nat.zero_le _⟩

theorem Working.append (h : Working c) (hroom : c.sendTail + pack.length ≤ serverBufferSize) :
    Working (c.append pack) := by
  refine ⟨h.recvHead, h.recvTail, h.keeps, h.inside, h.parsed, h.sendHead, ?_, ?_, hroom⟩
  · show c.sendTail + pack.length = (c.waiting ++ pack).length
    rw [List.length_append, h.sendTail]
  · show (c.sendBuff.write c.sendTail pack).read 0 (c.waiting ++ pack).length = c.waiting ++ pack
    have hold : (c.sendBuff.write c.sendTail pack).read 0 c.waiting.length = c.waiting := by
      rw [← h.sent]
      simp only [Mem.read_length]
      exact Mem.read_congr fun i hi => Mem.write_of_lt _ _ (by rw [h.sendTail]; omega)
    have hnew := Mem.read_write_same c.sendBuff c.sendTail pack
    rw [List.length_append, Mem.read_append, hold, Nat.zero_add, ← h.sendTail, hnew]

end Slot

/-! ## What a step does with the slots -/

namespace Connections

variable {s s' : Connections} {m m' : ClientConnectManager} {k : Nat} {n : Nat}

/-- A connection works on the buffers of its slot. -/
inductive Works (c : Slot) : Slot → Prop
  | receive (data : Bytes) (c' : Slot) (h : c.receive data = some c') : Works c c'
  | append (pack : Bytes) (h : c.sendTail + pack.length ≤ serverBufferSize) :
    Works c (c.append pack)
  | resetTail : Works c c.resetTail
  | mapped : Works c c.mapped

/-- The manager, and how often it has given out a slot. -/
inductive Effect : ClientConnectManager × Nat → ClientConnectManager × Nat → Prop
  | handOut (m : ClientConnectManager) (k i : Nat) (rest : List Nat)
    (hfree : m.freeList = i :: rest) : Effect (m, k)
      ({ m with freeList := rest }.setSlot i (m.allClientConnect i).handedOut, k + 1)
  | work (m : ClientConnectManager) (k i : Nat) (c : Slot) (hu : (m.allClientConnect i).bUsed)
    (h : Works (m.allClientConnect i) c) : Effect (m, k) (m.setSlot i c, k)
  | register (m : ClientConnectManager) (k i : Nat) (hu : (m.allClientConnect i).bUsed) :
    Effect (m, k) (m.addOnlineClient i, k)
  | exit (m : ClientConnectManager) (k i : Nat) : Effect (m, k) (m.clientExit i, k)

abbrev Effects := Relation.ReflTransGen Effect

theorem Works.bUsed {c c' : Slot} (h : Works c c') :
    c'.bUsed = c.bUsed ∧ c'.index = c.index := by
  cases h with
  | receive data _ h =>
    unfold Slot.receive at h
    split at h
    · obtain ⟨r, _, rfl⟩ := Option.map_eq_some_iff.mp h
      exact ⟨rfl, rfl⟩
    · cases h
  | append pack => exact ⟨rfl, rfl⟩
  | resetTail => exact ⟨rfl, rfl⟩
  | mapped => exact ⟨rfl, rfl⟩

theorem Works.working {c c' : Slot} (h : Works c c') (hw : c.Working) : c'.Working := by
  cases h with
  | receive data _ h => exact hw.receive h
  | append pack h => exact hw.append h
  | resetTail => exact hw.resetTail
  | mapped =>
    exact ⟨hw.recvHead, hw.recvTail, hw.keeps, hw.inside, hw.parsed, hw.sendHead, hw.sendTail,
      hw.sent, hw.room⟩

/-- As long as no slot has been given out twice, all connections work on their own bytes. -/
structure Sound (p : ClientConnectManager × Nat) : Prop where
  rotates : p.1.Rotates p.2
  working : p.2 ≤ p.1.count → ∀ i, (p.1.allClientConnect i).bUsed →
    (p.1.allClientConnect i).Working

theorem Effect.count {p q : ClientConnectManager × Nat} (h : Effect p q) :
    q.1.count = p.1.count := by
  cases h with
  | handOut m k i rest hfree => rfl
  | work m k i c hu h => rfl
  | register m k i hu => rfl
  | exit m k i => exact m.count_clientExit i

theorem Sound.effect {p q : ClientConnectManager × Nat} (hp : Sound p) (h : Effect p q) :
    Sound q := by
  obtain ⟨hr, hw⟩ := hp
  cases h with
  | handOut m k i rest hfree =>
    refine ⟨(hr.getOneFreeConnect hfree).2, fun hk j hj => ?_⟩
    have hfront := hr.front hfree
    have hlt : k < m.count := hk
    rw [if_pos hlt] at hfront
    subst hfront
    by_cases hji : j = i
    · subst hji
      show ((ClientConnectManager.setSlot _ _ _).allClientConnect j).Working
      rw [ClientConnectManager.setSlot_self, hr.new j (Nat.le_refl j)]
      exact Slot.working_new j
    · have hj : ((ClientConnectManager.setSlot { m with freeList := rest } i
          (m.allClientConnect i).handedOut).allClientConnect j).bUsed := hj
      show ((ClientConnectManager.setSlot _ _ _).allClientConnect j).Working
      rw [ClientConnectManager.setSlot_ne hji] at hj ⊢
      exact hw (Nat.le_of_lt hlt) j hj
  | work m k i c hu h =>
    obtain ⟨hused, hindex⟩ := h.bUsed
    refine ⟨hr.setSlot hu (hused ▸ hu) hindex, fun hk j hj => ?_⟩
    by_cases hji : j = i
    · subst hji
      show ((m.setSlot j c).allClientConnect j).Working
      rw [ClientConnectManager.setSlot_self]
      exact h.working (hw hk j hu)
    · have hj : ((m.setSlot i c).allClientConnect j).bUsed := hj
      show ((m.setSlot i c).allClientConnect j).Working
      rw [ClientConnectManager.setSlot_ne hji] at hj ⊢
      exact hw hk j hj
  | register m k i hu => exact ⟨hr.addOnlineClient hu, hw⟩
  | exit m k i =>
    refine ⟨hr.clientExit i, fun hk j hj => ?_⟩
    have hk : k ≤ m.count := m.count_clientExit i ▸ hk
    show ((m.clientExit i).allClientConnect j).Working
    have hj : ((m.clientExit i).allClientConnect j).bUsed := hj
    cases hu : (m.allClientConnect i).bUsed with
    | false =>
      rw [ClientConnectManager.clientExit_of_unused hu] at hj ⊢
      exact hw hk j hj
    | true =>
      rw [ClientConnectManager.clientExit_of_used hu] at hj ⊢
      have hj : ((m.setSlot i (m.allClientConnect i).exited).allClientConnect j).bUsed := hj
      show ((m.setSlot i _).allClientConnect j).Working
      by_cases hji : j = i
      · subst hji
        rw [ClientConnectManager.setSlot_self] at hj
        cases hj
      · rw [ClientConnectManager.setSlot_ne hji] at hj ⊢
        exact hw hk j hj

/-- The manager with the count. -/
def pool (s : Connections) : ClientConnectManager × Nat := (s.manager, s.handedOut)

theorem handOut_of_nil (h : s.manager.freeList = []) : s.handOut = (none, s) := by
  unfold handOut
  rw [ClientConnectManager.getOneFreeConnect_of_nil h]
  rfl

theorem handOut_of_front {i : Nat} {rest : List Nat} (h : s.manager.freeList = i :: rest)
    (hvalid : i ≤ s.manager.count) :
    s.handOut = (some i, { s with
      manager := { s.manager with freeList := rest }.setSlot i (s.slot i).handedOut
      handedOut := s.handedOut + 1 }) := by
  unfold handOut
  rw [ClientConnectManager.getOneFreeConnect_of_cons h hvalid]
  rfl

theorem handOut_of_cons (hr : s.manager.Rotates s.handedOut) {i : Nat} {rest : List Nat}
    (h : s.manager.freeList = i :: rest) :
    s.handOut = (some i, { s with
      manager := { s.manager with freeList := rest }.setSlot i (s.slot i).handedOut
      handedOut := s.handedOut + 1 }) :=
  handOut_of_front h (Nat.le_of_lt (hr.inside_of_free (h ▸ List.mem_cons_self)))

/-- A window is sent and begun anew. -/
theorem resetAppend_effects {i : Nat} (hu : (m.allClientConnect i).bUsed) {pack : Bytes}
    (hlen : pack.length ≤ maxServerPackageLength) :
    Effects (m, k) (m.setSlot i ((m.allClientConnect i).resetTail.append pack), k) := by
  have hself := ClientConnectManager.setSlot_self m i (m.allClientConnect i).resetTail
  have hroom : 0 + pack.length ≤ serverBufferSize := by
    unfold maxServerPackageLength at hlen
    unfold serverBufferSize
    omega
  have hused : ((m.setSlot i (m.allClientConnect i).resetTail).allClientConnect i).bUsed := by
    rw [hself]
    exact hu
  have hworks : Works ((m.setSlot i (m.allClientConnect i).resetTail).allClientConnect i)
      ((m.allClientConnect i).resetTail.append pack) := by
    rw [hself]
    exact .append pack hroom
  have hsecond := Effect.work _ k i _ hused hworks
  rw [ClientConnectManager.setSlot_setSlot] at hsecond
  exact .tail (.single (.work m k i _ hu .resetTail)) hsecond

theorem dispatch_effects (hr : s.manager.Rotates s.handedOut) {pack : Bytes}
    (hlen : pack.length ≤ maxServerPackageLength) (sendOk : Bool) :
    Effects s.pool (s.dispatch pack sendOk).pool := by
  unfold dispatch
  dsimp only
  split
  · exact .refl
  · split
    · exact .refl
    · next i hfind =>
      have hu := (hr.online _ i hfind).1
      split
      · exact .refl
      · split
        · next hroom =>
          have hroom : (s.slot i).sendTail + pack.length ≤ serverBufferSize := by
            unfold Slot.freeSpace at hroom
            omega
          exact .single (.work _ _ _ _ hu (.append pack hroom))
        · split
          · exact resetAppend_effects hu hlen
          · exact .single (.exit _ _ _)

theorem flushClient_effects (s : Connections) (i : Nat) (sendOk : Bool) :
    Effects s.pool (s.flushClient i sendOk).pool := by
  unfold flushClient
  dsimp only
  split
  · next h => exact .single (.work _ _ _ _ h.2 .resetTail)
  · exact .single (.exit _ _ _)

/-- A slot is given out, or there is none. -/
theorem handOut_cases (hr : s.manager.Rotates s.handedOut) :
    (s.manager.freeList = [] ∧ s.handOut = (none, s)) ∨
      ∃ i s₁, s.handOut = (some i, s₁) ∧ Effect s.pool s₁.pool ∧
        s₁.slot i = (s.slot i).handedOut := by
  cases hfree : s.manager.freeList with
  | nil => exact Or.inl ⟨rfl, handOut_of_nil hfree⟩
  | cons i rest =>
    exact Or.inr ⟨i, _, handOut_of_cons hr hfree, .handOut _ _ _ _ hfree,
      ClientConnectManager.setSlot_self _ _ _⟩

theorem accept_effects {i : Nat} (hu : (m.allClientConnect i).bUsed) :
    Effects (m, k) ((m.setSlot i (m.allClientConnect i).mapped).addOnlineClient i, k) := by
  have hself := ClientConnectManager.setSlot_self m i (m.allClientConnect i).mapped
  exact .tail (.single (.work m k i _ hu .mapped)) (.register _ _ _ (by rw [hself]; exact hu))

theorem step_effects (hr : s.manager.Rotates s.handedOut) {a : Step} (h : step s a = some s') :
    Effects s.pool s'.pool := by
  cases a with
  | init =>
    simp only [step] at h
    split at h
    · cases h
    · rcases handOut_cases hr with ⟨_, hnone⟩ | ⟨i, s₁, hsome, heffect, _⟩
      · rw [hnone] at h
        cases h
      · rw [hsome] at h
        cases h
        exact .single heffect
  | accept =>
    simp only [step] at h
    split at h
    · cases h
    · rcases handOut_cases hr with ⟨_, hnone⟩ | ⟨i, s₁, hsome, heffect, hslot⟩
      · rw [hnone] at h
        cases h
        exact .refl
      · rw [hsome] at h
        cases h
        have hu : (s₁.slot i).bUsed := by
          rw [hslot]
          rfl
        exact .trans (.single heffect) (accept_effects hu)
  | receive i data =>
    simp only [step] at h
    split at h
    · cases h
    · next hguard =>
      obtain ⟨c, hc, rfl⟩ := Option.map_eq_some_iff.mp h
      have hu : (s.slot i).bUsed := by
        by_contra hnot
        exact hguard (Or.inr (Or.inr hnot))
      exact .single (.work _ _ _ _ hu (.receive data c hc))
  | close i =>
    simp only [step] at h
    split at h
    · cases h
    · cases h
      exact .single (.exit _ _ _)
  | dispatch pack sendOk =>
    simp only [step] at h
    split at h
    · cases h
    · next hguard =>
      cases h
      exact dispatch_effects hr (Nat.not_lt.mp fun hlt => hguard (Or.inr hlt)) sendOk
  | flush sendOk =>
    simp only [step] at h
    split at h
    · cases h
    · next i rest _ =>
      cases h
      exact flushClient_effects { s with vSendClients := rest, flushing := !rest.isEmpty } i sendOk

theorem sound_of_effects {p q : ClientConnectManager × Nat} (hp : Sound p) (h : Effects p q) :
    Sound q ∧ q.1.count = p.1.count := by
  induction h with
  | refl => exact ⟨hp, rfl⟩
  | tail _ hlast ih => exact ⟨ih.1.effect hlast, hlast.count.trans ih.2⟩

theorem Sound.run {as : List Step} (hs : Sound s.pool) (h : run s as = some s') :
    Sound s'.pool ∧ s'.manager.count = s.manager.count := by
  have hstep : ∀ r a r', Sound r.pool ∧ r.manager.count = s.manager.count → step r a = some r' →
      Sound r'.pool ∧ r'.manager.count = s.manager.count := by
    rintro r a r' ⟨hr, hcount⟩ h
    obtain ⟨hr', hcount'⟩ := sound_of_effects hr (step_effects hr.rotates h)
    exact ⟨hr', hcount'.trans hcount⟩
  exact Runs.invariant_of_step hstep ⟨hs, rfl⟩ h

theorem sound_start (count : Nat) : Sound (start count).pool := by
  refine ⟨ClientConnectManager.rotates_new count, fun _ i hi => ?_⟩
  cases hi

/-! ## Slots that are used again -/

/-- The step asks `GetOneFreeConnect` for a slot. -/
def Step.HandsOut (a : Step) : Prop := a = .init ∨ a = .accept

/-- There is no slot to give out, or one that has not been given out before: fewer than
`CLIENT_EPOLL_COUNT` have been. -/
def Unspent (s : Connections) (a : Step) : Prop :=
  a.HandsOut → s.manager.freeList = [] ∨ s.handedOut < s.manager.count

/-- Along the run slots are clean when they are given out, and each connection parses and sends
its own bytes only. -/
structure CleanReuse (count : Nat) (as : List Step) : Prop where
  handedOut : ∀ pre a post s i s', as = pre ++ a :: post → run (start count) pre = some s →
    a.HandsOut → s.handOut = (some i, s') → (s'.slot i).Clean
  ownBytes : ∀ pre post s, as = pre ++ post → run (start count) pre = some s →
    ∀ i, (s.slot i).bUsed → (s.slot i).OwnBytes

theorem clean_iff (hr : s.manager.Rotates s.handedOut) {i : Nat}
    (h : s.handOut = (some i, s')) : (s'.slot i).Clean ↔ s.handedOut < s.manager.count := by
  cases hfree : s.manager.freeList with
  | nil =>
    rw [handOut_of_nil hfree] at h
    cases h
  | cons j rest =>
    have hfront := hr.front hfree
    rw [handOut_of_cons hr hfree] at h
    cases h
    have hself : Connections.slot { s with
        manager := { s.manager with freeList := rest }.setSlot i (s.slot i).handedOut
        handedOut := s.handedOut + 1 } i = (s.slot i).handedOut :=
      ClientConnectManager.setSlot_self _ _ _
    rw [hself]
    constructor
    · intro hclean
      by_contra hnot
      rw [if_neg hnot] at hfront
      have hhead : (s.slot i).recvHead = ⟨.recvBuff, 0⟩ := hclean.1
      have hwrong : (s.slot i).recvHead.buff = .sendBuff := hfront
      rw [hhead] at hwrong
      cases hwrong
    · intro hlt
      rw [if_pos hlt] at hfront
      have hnew : s.slot i = { index := i } := hr.new i (Nat.le_of_eq hfront.symm)
      rw [hnew]
      exact ⟨rfl, rfl, rfl, rfl⟩

theorem unspent_iff (hr : s.manager.Rotates s.handedOut) {a : Step} (ha : a.HandsOut) :
    Unspent s a ↔ ∀ i s', s.handOut = (some i, s') → (s'.slot i).Clean := by
  rcases handOut_cases hr with ⟨hnil, hnone⟩ | ⟨i, s₁, hsome, _, _⟩
  · rw [hnone]
    refine Iff.intro (fun _ i s' hi => ?_) fun _ _ => Or.inl hnil
    cases hi
  · have hne : s.manager.freeList ≠ [] := by
      intro hnil
      rw [handOut_of_nil hnil] at hsome
      cases hsome
    constructor
    · intro h j s' hj
      exact (clean_iff hr hj).mpr ((h ha).resolve_left hne)
    · intro h _
      exact Or.inr ((clean_iff hr hsome).mp (h i s₁ hsome))

theorem handedOut_dispatch (s : Connections) (pack : Bytes) (sendOk : Bool) :
    (s.dispatch pack sendOk).handedOut = s.handedOut := by
  unfold dispatch
  dsimp only
  split
  · rfl
  · split
    · rfl
    · split
      · rfl
      · split
        · rfl
        · split <;> rfl

theorem handedOut_flushClient (s : Connections) (i : Nat) (sendOk : Bool) :
    (s.flushClient i sendOk).handedOut = s.handedOut := by
  unfold flushClient
  dsimp only
  split <;> rfl

theorem handedOut_step (hr : s.manager.Rotates s.handedOut) {a : Step} (h : step s a = some s') :
    s'.handedOut = s.handedOut ∨
      (a.HandsOut ∧ s.manager.freeList ≠ [] ∧ s'.handedOut = s.handedOut + 1) := by
  cases a with
  | init =>
    simp only [step] at h
    split at h
    · cases h
    · cases hfree : s.manager.freeList with
      | nil =>
        rw [handOut_of_nil hfree] at h
        cases h
      | cons i rest =>
        rw [handOut_of_cons hr hfree] at h
        cases h
        exact Or.inr ⟨Or.inl rfl, List.cons_ne_nil _ _, rfl⟩
  | accept =>
    simp only [step] at h
    split at h
    · cases h
    · cases hfree : s.manager.freeList with
      | nil =>
        rw [handOut_of_nil hfree] at h
        cases h
        exact Or.inl rfl
      | cons i rest =>
        rw [handOut_of_cons hr hfree] at h
        cases h
        exact Or.inr ⟨Or.inr rfl, List.cons_ne_nil _ _, rfl⟩
  | receive i data =>
    simp only [step] at h
    split at h
    · cases h
    · obtain ⟨c, _, rfl⟩ := Option.map_eq_some_iff.mp h
      exact Or.inl rfl
  | close i =>
    simp only [step] at h
    split at h
    · cases h
    · cases h
      exact Or.inl rfl
  | dispatch pack sendOk =>
    simp only [step] at h
    split at h
    · cases h
    · cases h
      exact Or.inl (handedOut_dispatch s pack sendOk)
  | flush sendOk =>
    simp only [step] at h
    split at h
    · cases h
    · cases h
      exact Or.inl (handedOut_flushClient _ _ _)

/-- No slot is given out twice as long as the steps find one unspent. -/
theorem handedOut_le {as : List Step} (hrun : run (start n) as = some s)
    (hall : Runs.AllSteps step Unspent (start n) as) : s.handedOut ≤ s.manager.count := by
  have hstep : ∀ s a s', Sound s.pool ∧ s.handedOut ≤ s.manager.count → Unspent s a →
      step s a = some s' → Sound s'.pool ∧ s'.handedOut ≤ s'.manager.count := by
    rintro s a s' ⟨hs, hle⟩ hunspent h
    obtain ⟨hs', hcount⟩ := sound_of_effects hs (step_effects hs.rotates h)
    have hcount : s'.manager.count = s.manager.count := hcount
    refine ⟨hs', ?_⟩
    rw [hcount]
    rcases handedOut_step hs.rotates h with hsame | ⟨ha, hne, hmore⟩
    · rw [hsame]
      exact hle
    · rw [hmore]
      exact (hunspent ha).resolve_left hne
  exact (Runs.invariant hstep ⟨sound_start n, Nat.zero_le _⟩ hall hrun).2

/-- Slots are clean when they are given out exactly as long as none is given out for the second
time, whatever the connections do in between. -/
theorem cleanReuse_iff {count : Nat} {as : List Step} (hrun : run (start count) as = some s) :
    Runs.AllSteps step Unspent (start count) as ↔ CleanReuse count as := by
  rw [Runs.allSteps_iff_forall hrun]
  constructor
  · intro h
    constructor
    · intro pre a post s₁ i s' has hs₁ ha hi
      have hsound := ((sound_start count).run hs₁).1
      exact (unspent_iff hsound.rotates ha).mp (h pre a post s₁ has hs₁) i s' hi
    · rintro pre post s₁ rfl hs₁ i hu
      have hsound := ((sound_start count).run hs₁).1
      have hall : Runs.AllSteps step Unspent (start count) pre := by
        rw [Runs.allSteps_iff_forall hs₁]
        rintro pre' a post' r rfl hr
        exact h pre' a (post' ++ post) r (by simp) hr
      have hle := handedOut_le hs₁ hall
      exact (hsound.working hle i hu).ownBytes
  · intro h pre a post s₁ has hs₁ ha
    have hsound := ((sound_start count).run hs₁).1
    exact (unspent_iff hsound.rotates ha).mpr
      (fun i s' hi => h.handedOut pre a post s₁ i s' has hs₁ ha hi) ha

instance (a : Step) : Decidable a.HandsOut :=
  match a with
  | .init => isTrue (Or.inl rfl)
  | .accept => isTrue (Or.inr rfl)
  | .receive .. | .close _ | .dispatch .. | .flush _ => isFalse nofun

instance (s : Connections) (a : Step) : Decidable (Unspent s a) :=
  inferInstanceAs (Decidable (_ → _ ∨ _))

/-- A client connects, sends a package and a half, is sent a package, and leaves. -/
def oneClient : List Step :=
  [.init, .accept, .receive 1 [0, 9, 0, 0, 0, 0, 0, 4, 1, 0, 9], .dispatch [0, 8, 0, 0, 0, 1, 0, 12]
    true, .flush true, .close 1]

theorem cleanReuse_oneClient : CleanReuse clientEpollCount oneClient := by
  have hsome : (run (start clientEpollCount) oneClient).isSome := by decide +kernel
  obtain ⟨s, hs⟩ := Option.isSome_iff_exists.mp hsome
  exact (cleanReuse_iff hs).mp (by decide +kernel)

/-- A client that gets the slot `i` connects and leaves. -/
def visit (i : Nat) : List Step := [.accept, .close i]

/-- Somebody connects, and the first slot of the list is taken. -/
theorem step_accept (hs : Sound s.pool) (hsend : s.vSendClients = []) (hl : s.Listening) {i : Nat}
    {rest : List Nat} (hfree : s.manager.freeList = i :: rest) :
    ∃ s', step s .accept = some s' ∧ s'.vSendClients = [] ∧ s'.listener = s.listener ∧
      s'.manager.freeList = rest ∧ s'.handedOut = s.handedOut + 1 ∧ (s'.slot i).bUsed ∧
      ∀ j, j ≠ i → s'.slot j = s.slot j := by
  have hguard : ¬ (s.vSendClients ≠ [] ∨ ¬ s.Listening) := by
    rintro (hne | hnot)
    · exact hne hsend
    · exact hnot hl
  refine ⟨{ s with
      manager := (({ s.manager with freeList := rest }.setSlot i (s.slot i).handedOut).setSlot i
        (s.slot i).handedOut.mapped).addOnlineClient i
      handedOut := s.handedOut + 1 }, ?_, hsend, rfl, rfl, rfl, ?_, ?_⟩
  · simp only [step]
    rw [if_neg hguard, handOut_of_cons hs.rotates hfree]
    dsimp only [slot]
    rw [ClientConnectManager.setSlot_self]
  · have hlast := ClientConnectManager.setSlot_self
      ({ s.manager with freeList := rest }.setSlot i (s.slot i).handedOut) i
      (s.slot i).handedOut.mapped
    exact congrArg Slot.bUsed hlast
  · intro j hji
    exact (ClientConnectManager.setSlot_ne hji).trans (ClientConnectManager.setSlot_ne hji)

theorem run_visit (hs : Sound s.pool) (hsend : s.vSendClients = []) (hl : s.Listening) {i : Nat}
    {rest : List Nat} (hfree : s.manager.freeList = i :: rest) :
    ∃ s', run s (visit i) = some s' ∧ s'.vSendClients = [] ∧ s'.Listening ∧
      s'.manager.freeList = rest ++ [i] ∧ s'.handedOut = s.handedOut + 1 := by
  obtain ⟨s₁, haccept, hsend₁, hlistener, hfree₁, hcount, hused, hothers⟩ :=
    step_accept hs hsend hl hfree
  obtain ⟨j, hj, hu⟩ := hl
  have hji : j ≠ i := by
    intro heq
    have hunused := hs.rotates.free i (hfree ▸ List.mem_cons_self)
    rw [← heq] at hunused
    exact Bool.false_ne_true (hunused.symm.trans hu)
  have hclose : step s₁ (.close i) = some (s₁.clientExit i) := by
    refine if_neg ?_
    rintro (hne | hnot)
    · exact hne hsend₁
    · exact hnot hused
  have hexit : (s₁.clientExit i).manager = { s₁.manager.setSlot i (s₁.slot i).exited with
      onlineClient := s₁.manager.onlineClient.erase (s₁.slot i).index
      freeList := s₁.manager.freeList ++ [i] } := ClientConnectManager.clientExit_of_used hused
  refine ⟨s₁.clientExit i, ?_, hsend₁, ⟨j, hlistener.trans hj, ?_⟩, ?_, hcount⟩
  · show (step s .accept).bind _ = _
    rw [haccept, Option.bind_some]
    show (step s₁ (.close i)).bind _ = _
    rw [hclose]
    rfl
  · show ((s₁.clientExit i).manager.allClientConnect j).bUsed
    rw [hexit]
    show ((s₁.manager.setSlot i _).allClientConnect j).bUsed
    rw [ClientConnectManager.setSlot_ne hji]
    exact (congrArg Slot.bUsed (hothers j hji)).trans hu
  · rw [hexit, hfree₁]

/-- Visits go round the free list. -/
theorem run_visits (l : List Nat) {old : List Nat} {s : Connections} (hs : Sound s.pool)
    (hsend : s.vSendClients = []) (hl : s.Listening) (hfree : s.manager.freeList = l ++ old) :
    ∃ s', run s (l.flatMap visit) = some s' ∧ s'.vSendClients = [] ∧ s'.Listening ∧
      s'.manager.freeList = old ++ l ∧ s'.handedOut = s.handedOut + l.length := by
  induction l generalizing old s with
  | nil =>
    refine ⟨s, rfl, hsend, hl, ?_, rfl⟩
    rw [hfree, List.nil_append, List.append_nil]
  | cons i l ih =>
    obtain ⟨s₁, hrun₁, hsend₁, hl₁, hfree₁, hcount₁⟩ := run_visit hs hsend hl hfree
    have hfree₁ : s₁.manager.freeList = l ++ (old ++ [i]) := hfree₁.trans (List.append_assoc _ _ _)
    obtain ⟨s₂, hrun₂, hsend₂, hl₂, hfree₂, hcount₂⟩ := ih (hs.run hrun₁).1 hsend₁ hl₁ hfree₁
    refine ⟨s₂, ?_, hsend₂, hl₂, ?_, ?_⟩
    · have hrun₁ : Runs.run step s (visit i) = some s₁ := hrun₁
      rw [List.flatMap_cons, run, Runs.run_append, hrun₁, Option.bind_some]
      exact hrun₂
    · rw [hfree₂, List.append_assoc]
      rfl
    · rw [hcount₂, hcount₁, List.length_cons]
      omega

/-- As many clients as there are slots for come and go, and one more comes. -/
def fullTurn (count : Nat) : List Step :=
  .init :: (List.range' 1 (count - 1)).flatMap visit ++ [.accept]

theorem step_init (hs : Sound s.pool) (hl : s.listener = none) {i : Nat} {rest : List Nat}
    (hfree : s.manager.freeList = i :: rest) :
    ∃ s', step s .init = some s' ∧ s'.vSendClients = s.vSendClients ∧ s'.Listening ∧
      s'.manager.freeList = rest ∧ s'.handedOut = s.handedOut + 1 := by
  have hguard : ¬ s.listener.isSome := by
    rw [hl]
    decide
  refine ⟨{ s with
      manager := { s.manager with freeList := rest }.setSlot i (s.slot i).handedOut
      listener := some i
      handedOut := s.handedOut + 1 }, ?_, rfl, ⟨i, rfl, ?_⟩, rfl, rfl⟩
  · simp only [step]
    rw [if_neg hguard, handOut_of_cons hs.rotates hfree]
  · exact congrArg Slot.bUsed (ClientConnectManager.setSlot_self _ i (s.slot i).handedOut)

theorem freeList_start (count : Nat) :
    (start (count + 1)).manager.freeList = 0 :: List.range' 1 count :=
  List.range_eq_range'.trans List.range'_succ

/-- The last one gets a slot for the second time. -/
theorem unclean_turn (count : Nat) : (run (start (count + 2)) (fullTurn (count + 2))).isSome ∧
    ¬ CleanReuse (count + 2) (fullTurn (count + 2)) := by
  have hstart := sound_start (count + 2)
  obtain ⟨s₁, hstep, hsend₁, hl₁, hfree₁, hcount₁⟩ :=
    step_init hstart rfl (freeList_start (count + 1))
  have hrun₁ : run (start (count + 2)) [.init] = some s₁ := by
    show (step (start (count + 2)) .init).bind _ = _
    rw [hstep]
    rfl
  obtain ⟨s₂, hrun₂, hsend₂, hl₂, hfree₂, hcount₂⟩ := run_visits (List.range' 1 (count + 1))
    (hstart.run hrun₁).1 hsend₁ hl₁ (hfree₁.trans (List.append_nil _).symm)
  have hrun : Runs.run step (start (count + 2))
      (.init :: (List.range' 1 (count + 1)).flatMap visit) = some s₂ := by
    show (step (start (count + 2)) .init).bind _ = _
    rw [hstep]
    exact hrun₂
  obtain ⟨hs₂, hcount⟩ := hstart.run hrun
  have hfree₂ : s₂.manager.freeList = 1 :: List.range' 2 count := hfree₂.trans List.range'_succ
  obtain ⟨s₃, haccept, _⟩ := step_accept hs₂ hsend₂ hl₂ hfree₂
  constructor
  · show (Runs.run step _ (.init :: (List.range' 1 (count + 1)).flatMap visit ++ [.accept])).isSome
    rw [Runs.run_append, hrun, Option.bind_some]
    show ((step s₂ .accept).bind _).isSome
    rw [haccept]
    rfl
  · intro hclean
    have hhandOut := handOut_of_cons hs₂.rotates hfree₂
    have hslot := hclean.handedOut _ .accept [] s₂ 1 _ rfl hrun (Or.inr rfl) hhandOut
    have hlt := (clean_iff hs₂.rotates hhandOut).mp hslot
    have hspent : s₂.handedOut = count + 2 := by
      rw [hcount₂, hcount₁, List.length_range']
      show 0 + 1 + (count + 1) = count + 2
      omega
    rw [hspent, hcount] at hlt
    exact Nat.lt_irrefl _ hlt

theorem unclean_fullTurn : (run (start clientEpollCount) (fullTurn clientEpollCount)).isSome ∧
    ¬ CleanReuse clientEpollCount (fullTurn clientEpollCount) := unclean_turn 998

end Connections

end Wsmq
