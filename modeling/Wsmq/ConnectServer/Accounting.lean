import Wsmq.ConnectServer.Pool

/-!
# Accounting for the slots

`ClientExit` is called from five places, and for one client as often as `vSendClients` holds it.
Only the first call finds `m_bUsed` set.
-/

namespace Wsmq
open Lib

namespace ClientConnectManager

variable {m m' : ClientConnectManager} {l : Option Nat} {i j : Nat} {c : Slot} {rest : List Nat}

/-- The free list, the flags and the map agree.  The slot `l` is in use without being mapped. -/
structure Accounts (m : ClientConnectManager) (l : Option Nat) : Prop where
  index : ∀ i, (m.allClientConnect i).index = i
  nodup : m.freeList.Nodup
  free : ∀ i, i ∈ m.freeList ↔ i < m.count ∧ (m.allClientConnect i).bUsed = false
  inside : ∀ i, (m.allClientConnect i).bUsed → i < m.count
  online : ∀ iIndex i, m.findClient iIndex = some i ↔
    iIndex = i ∧ (m.allClientConnect i).bUsed ∧ l ≠ some i

theorem accounts_new (count : Nat) : Accounts (new count) none := by
  refine ⟨fun _ => rfl, List.nodup_range, fun i => ?_, fun i hi => ?_, fun iIndex i => ?_⟩
  · simp [new]
  · cases hi
  · simp [new, findClient]

theorem bUsed_setSlot (hused : c.bUsed = (m.allClientConnect i).bUsed) (j : Nat) :
    ((m.setSlot i c).allClientConnect j).bUsed = (m.allClientConnect j).bUsed := by
  by_cases hj : j = i
  · rw [hj, setSlot_self, hused]
  · rw [setSlot_ne hj]

/-- Buffers and cursors do not count. -/
theorem Accounts.setSlot (h : Accounts m l) (hused : c.bUsed = (m.allClientConnect i).bUsed)
    (hindex : c.index = (m.allClientConnect i).index) : Accounts (m.setSlot i c) l := by
  have hflag := bUsed_setSlot hused
  refine ⟨fun j => ?_, h.nodup, fun j => ?_, fun j hj => ?_, fun iIndex j => ?_⟩
  · by_cases hj : j = i
    · rw [hj, setSlot_self, hindex, h.index]
    · rw [setSlot_ne hj, h.index]
  · rw [hflag]
    exact h.free j
  · rw [hflag] at hj
    exact h.inside j hj
  · rw [hflag]
    exact h.online iIndex j

theorem Accounts.clientExit (h : Accounts m l) (i : Nat) : Accounts (m.clientExit i) l := by
  cases hu : (m.allClientConnect i).bUsed with
  | false =>
    rw [clientExit_of_unused hu]
    exact h
  | true =>
    rw [clientExit_of_used hu]
    have hfree : i ∉ m.freeList := by
      intro hi
      rw [((h.free i).mp hi).2] at hu
      cases hu
    have hself := setSlot_self m i (m.allClientConnect i).exited
    constructor
    · intro j
      show ((m.setSlot i _).allClientConnect j).index = (j : Int)
      by_cases hj : j = i
      · rw [hj, hself]
        exact h.index i
      · rw [setSlot_ne hj, h.index]
    · have hne : ∀ j ∈ m.freeList, j ≠ i := fun j hj heq => hfree (heq ▸ hj)
      exact List.nodup_append.mpr ⟨h.nodup, List.nodup_singleton i, by simpa using hne⟩
    · intro j
      show j ∈ m.freeList ++ [i] ↔ j < m.count ∧ ((m.setSlot i _).allClientConnect j).bUsed = false
      by_cases hj : j = i
      · rw [hj, hself]
        simpa using ⟨h.inside i hu, rfl⟩
      · rw [setSlot_ne hj, ← h.free j, List.mem_append, List.mem_singleton]
        simp [hj]
    · intro j hused
      have hused : ((m.setSlot i (m.allClientConnect i).exited).allClientConnect j).bUsed := hused
      by_cases hj : j = i
      · rw [hj, hself] at hused
        cases hused
      · rw [setSlot_ne hj] at hused
        exact h.inside j hused
    · intro iIndex j
      show (m.onlineClient.erase _).lookup iIndex = some j ↔
        iIndex = j ∧ ((m.setSlot i _).allClientConnect j).bUsed ∧ l ≠ some j
      rw [h.index i]
      by_cases hkey : iIndex = i
      · rw [hkey, AList.lookup_erase]
        simp only [reduceCtorEq, false_iff, not_and]
        intro heq hused
        have hj : j = i := Int.ofNat.inj heq.symm
        rw [hj, hself] at hused
        cases hused
      · have hlookup := h.online iIndex j
        rw [AList.lookup_erase_ne hkey, ← findClient, hlookup]
        refine and_congr_right fun heq => ?_
        have hj : j ≠ i := fun hj => hkey (heq.trans (congrArg Int.ofNat hj))
        rw [setSlot_ne hj]

theorem Accounts.front (h : Accounts m l) (hfree : m.freeList = i :: rest) :
    i < m.count ∧ (m.allClientConnect i).bUsed = false ∧ i ∉ rest :=
  have hi := (h.free i).mp (hfree ▸ List.mem_cons_self)
  ⟨hi.1, hi.2, (List.nodup_cons.mp (hfree ▸ h.nodup)).1⟩

theorem Accounts.getOneFreeConnect (h : Accounts m l) (hfree : m.freeList = i :: rest) :
    m.getOneFreeConnect =
      (some i, { m with freeList := rest }.setSlot i (m.allClientConnect i).handedOut) :=
  getOneFreeConnect_of_cons hfree (Nat.le_of_lt (h.front hfree).1)

/-- The first free slot is taken, and mapped or set aside. -/
theorem Accounts.taken (h : Accounts m l) (hfree : m.freeList = i :: rest)
    (hindex : c.index = (m.allClientConnect i).index) (hused : c.bUsed)
    {l' : Option Nat} {online : AList fun _ : Int => Nat}
    (honline : ∀ iIndex j, online.lookup iIndex = some j ↔
      iIndex = j ∧ ((m.allClientConnect j).bUsed ∨ j = i) ∧ l' ≠ some j) :
    Accounts { { m with freeList := rest }.setSlot i c with onlineClient := online } l' := by
  obtain ⟨hlt, hunused, hnot⟩ := h.front hfree
  have hflag : ∀ j, (({ m with freeList := rest }.setSlot i c).allClientConnect j).bUsed ↔
      (m.allClientConnect j).bUsed ∨ j = i := by
    intro j
    by_cases hj : j = i
    · rw [hj, setSlot_self]
      simp [hused]
    · rw [setSlot_ne hj]
      simp [hj]
  refine ⟨fun j => ?_, (hfree ▸ h.nodup).of_cons, fun j => ?_, fun j hj => ?_, fun iIndex j => ?_⟩
  · show (({ m with freeList := rest }.setSlot i c).allClientConnect j).index = (j : Int)
    by_cases hj : j = i
    · rw [hj, setSlot_self, hindex, h.index]
    · rw [setSlot_ne hj]
      exact h.index j
  · show j ∈ rest ↔ j < m.count ∧
      (({ m with freeList := rest }.setSlot i c).allClientConnect j).bUsed = false
    have hold := h.free j
    rw [hfree, List.mem_cons] at hold
    by_cases hj : j = i
    · rw [hj, setSlot_self, hused]
      simpa using hnot
    · rw [setSlot_ne hj]
      simpa [hj] using hold
  · rcases (hflag j).mp hj with hold | rfl
    · exact h.inside j hold
    · exact hlt
  · show online.lookup iIndex = some j ↔ iIndex = j ∧
      (({ m with freeList := rest }.setSlot i c).allClientConnect j).bUsed ∧ l' ≠ some j
    rw [honline, hflag]

/-- `Init`. -/
theorem Accounts.listen (h : Accounts m none) (hfree : m.freeList = i :: rest) :
    Accounts ({ m with freeList := rest }.setSlot i (m.allClientConnect i).handedOut) (some i) := by
  refine h.taken (c := (m.allClientConnect i).handedOut) hfree rfl rfl fun iIndex j => ?_
  have hold := h.online iIndex j
  have hunused := (h.front hfree).2.1
  rw [findClient] at hold
  rw [hold]
  by_cases hj : i = j
  · subst hj
    simp [hunused]
  · simp [hj, Ne.symm hj]

/-- `GetOneFreeConnect` and `AddOnlineClient`. -/
theorem Accounts.accept (h : Accounts m l) (hfree : m.freeList = i :: rest) (hl : l ≠ some i) :
    Accounts ((({ m with freeList := rest }.setSlot i (m.allClientConnect i).handedOut).setSlot i
      (m.allClientConnect i).handedOut.mapped).addOnlineClient i) l := by
  rw [setSlot_setSlot, addOnlineClient, setSlot_self]
  refine h.taken (c := (m.allClientConnect i).handedOut.mapped) hfree rfl rfl fun iIndex j => ?_
  have hindex : (m.allClientConnect i).handedOut.mapped.index = i := h.index i
  have hunused := (h.front hfree).2.1
  show (m.onlineClient.insert _ i).lookup iIndex = some j ↔ _
  rw [hindex]
  by_cases hkey : iIndex = i
  · rw [hkey, AList.lookup_insert]
    constructor
    · rintro ⟨⟩
      exact ⟨rfl, Or.inr rfl, hl⟩
    · rintro ⟨heq, _⟩
      exact congrArg some (Int.ofNat.inj heq)
  · have hold := h.online iIndex j
    rw [findClient] at hold
    rw [AList.lookup_insert_ne hkey, hold]
    refine and_congr_right fun heq => ?_
    have hj : j ≠ i := fun hj => hkey (heq.trans (congrArg Int.ofNat hj))
    simp [hj]

/-- What does not give a slot out. -/
inductive Keeps (m : ClientConnectManager) : ClientConnectManager → Prop
  | same : Keeps m m
  | slot (i : Nat) (c : Slot) (hused : c.bUsed = (m.allClientConnect i).bUsed)
    (hindex : c.index = (m.allClientConnect i).index) : Keeps m (m.setSlot i c)
  | exit (i : Nat) : Keeps m (m.clientExit i)

theorem Accounts.keeps (h : Accounts m l) (hm : Keeps m m') :
    Accounts m' l ∧ m'.count = m.count := by
  cases hm with
  | same => exact ⟨h, rfl⟩
  | slot i c hused hindex => exact ⟨h.setSlot hused hindex, rfl⟩
  | exit i => exact ⟨h.clientExit i, m.count_clientExit i⟩

end ClientConnectManager

namespace Connections

open ClientConnectManager (Accounts)

variable {s s' : Connections} {i j count : Nat}

/-- The slot waits to be given out, and nothing else knows it. -/
structure Free (s : Connections) (i : Nat) : Prop where
  once : s.manager.freeList.count i = 1
  unused : (s.slot i).bUsed = false
  absent : ∀ iIndex, s.manager.findClient iIndex ≠ some i
  unmapped : s.manager.findClient (s.slot i).index = none

/-- The slot belongs to a connection, which is found under its index and under no other. -/
structure Online (s : Connections) (i : Nat) : Prop where
  used : (s.slot i).bUsed
  notFree : i ∉ s.manager.freeList
  mapped : ∀ iIndex, s.manager.findClient iIndex = some i ↔ iIndex = (s.slot i).index

/-- Of the slots of the pool none is lost, and no two connections share an index. -/
structure Accounted (count : Nat) (s : Connections) : Prop where
  slots : ∀ i, i < count → s.listener ≠ some i → Free s i ∨ Online s i
  distinct : ∀ i j, (s.slot i).bUsed → (s.slot j).bUsed → (s.slot i).index = (s.slot j).index →
    i = j

/-- What is reached from the start by the steps of the server, by calls of `ClientExit` for any
slot at any time, and by any change to the buffers and cursors of a slot. -/
inductive Reached (count : Nat) : Connections → Prop
  | start : Reached count (start count)
  | step {s s' : Connections} (a : Step) (hs : Reached count s) (h : step s a = some s') :
    Reached count s'
  | exit {s : Connections} (i : Nat) (hs : Reached count s) : Reached count (s.clientExit i)
  | transfer {s : Connections} (i : Nat) (c : Slot) (hs : Reached count s)
    (hused : c.bUsed = (s.slot i).bUsed) (hindex : c.index = (s.slot i).index) :
    Reached count (s.setSlot i c)

theorem dispatch_keeps (s : Connections) (pack : Lib.ByteString.Bytes) (sendOk : Bool) :
    s.manager.Keeps (s.dispatch pack sendOk).manager ∧
      (s.dispatch pack sendOk).listener = s.listener := by
  unfold dispatch
  dsimp only
  split
  · exact ⟨.same, rfl⟩
  · split
    · exact ⟨.same, rfl⟩
    · next i _ =>
      split
      · exact ⟨.same, rfl⟩
      · split
        · exact ⟨.slot i _ rfl rfl, rfl⟩
        · split
          · exact ⟨.slot i _ rfl rfl, rfl⟩
          · exact ⟨.exit i, rfl⟩

theorem flushClient_keeps (s : Connections) (i : Nat) (sendOk : Bool) :
    s.manager.Keeps (s.flushClient i sendOk).manager ∧
      (s.flushClient i sendOk).listener = s.listener := by
  unfold flushClient
  dsimp only
  split
  · exact ⟨.slot i _ rfl rfl, rfl⟩
  · exact ⟨.exit i, rfl⟩

/-- Only `Init` and an accepted connection take a slot from the list. -/
theorem step_accounts (h : s.manager.Accounts s.listener) {a : Step} (hstep : step s a = some s') :
    s'.manager.Accounts s'.listener ∧ s'.manager.count = s.manager.count := by
  have hkeeps : ∀ {s' : Connections}, s.manager.Keeps s'.manager → s'.listener = s.listener →
      s'.manager.Accounts s'.listener ∧ s'.manager.count = s.manager.count := by
    intro s' hm hl
    rw [hl]
    exact h.keeps hm
  cases a with
  | init =>
    simp only [step] at hstep
    split at hstep
    · cases hstep
    · next hguard =>
      have hnone : s.listener = none := by simpa using hguard
      rw [hnone] at h
      cases hfree : s.manager.freeList with
      | nil =>
        rw [handOut_of_nil hfree] at hstep
        cases hstep
      | cons i rest =>
        rw [handOut_of_front hfree (Nat.le_of_lt (h.front hfree).1)] at hstep
        cases hstep
        exact ⟨h.listen hfree, rfl⟩
  | accept =>
    simp only [step] at hstep
    split at hstep
    · cases hstep
    · next hguard =>
      obtain ⟨k, hk, hused⟩ := not_not.mp fun hnot => hguard (Or.inr hnot)
      cases hfree : s.manager.freeList with
      | nil =>
        rw [handOut_of_nil hfree] at hstep
        cases hstep
        exact ⟨h, rfl⟩
      | cons i rest =>
        rw [handOut_of_front hfree (Nat.le_of_lt (h.front hfree).1)] at hstep
        cases hstep
        have hne : s.listener ≠ some i := by
          intro hi
          have hunused : (s.slot i).bUsed = false := (h.front hfree).2.1
          rw [Option.some.inj (hk.symm.trans hi), hunused] at hused
          cases hused
        dsimp only [slot]
        rw [ClientConnectManager.setSlot_self]
        exact ⟨h.accept hfree hne, rfl⟩
  | receive i data =>
    simp only [step] at hstep
    split at hstep
    · cases hstep
    · obtain ⟨c, hc, rfl⟩ := Option.map_eq_some_iff.mp hstep
      obtain ⟨hused, hindex⟩ := (Works.receive data c hc).bUsed
      exact hkeeps (.slot i c hused hindex) rfl
  | close i =>
    simp only [step] at hstep
    split at hstep
    · cases hstep
    · cases hstep
      exact hkeeps (.exit i) rfl
  | dispatch pack sendOk =>
    simp only [step] at hstep
    split at hstep
    · cases hstep
    · cases hstep
      obtain ⟨hm, hl⟩ := dispatch_keeps s pack sendOk
      exact hkeeps hm hl
  | flush sendOk =>
    simp only [step] at hstep
    split at hstep
    · cases hstep
    · next i rest _ =>
      cases hstep
      obtain ⟨hm, hl⟩ := flushClient_keeps
        { s with vSendClients := rest, flushing := !rest.isEmpty } i sendOk
      exact hkeeps hm hl

theorem Reached.accounts (h : Reached count s) :
    s.manager.Accounts s.listener ∧ s.manager.count = count := by
  induction h with
  | start => exact ⟨ClientConnectManager.accounts_new count, rfl⟩
  | step a _ hstep ih =>
    obtain ⟨haccounts, hcount⟩ := step_accounts ih.1 hstep
    exact ⟨haccounts, hcount.trans ih.2⟩
  | @exit s i _ ih => exact ⟨ih.1.clientExit i, (s.manager.count_clientExit i).trans ih.2⟩
  | transfer i c _ hused hindex ih => exact ⟨ih.1.setSlot hused hindex, ih.2⟩

/-- The whole pool is accounted for, however clients come and go and however often `ClientExit` is
called for them. -/
theorem accounted_throughout (h : Reached count s) : Accounted count s := by
  obtain ⟨haccounts, rfl⟩ := h.accounts
  constructor
  · intro i hi hl
    cases hu : (s.slot i).bUsed with
    | false =>
      have hmem : i ∈ s.manager.freeList := (haccounts.free i).mpr ⟨hi, hu⟩
      have habsent : ∀ iIndex, s.manager.findClient iIndex ≠ some i := by
        intro iIndex hfind
        have hused := ((haccounts.online iIndex i).mp hfind).2.1
        exact Bool.false_ne_true (hu.symm.trans hused)
      refine Or.inl ⟨List.count_eq_one_of_mem haccounts.nodup hmem, hu, habsent, ?_⟩
      cases hfind : s.manager.findClient (s.slot i).index with
      | none => rfl
      | some j =>
        have hj : (s.slot i).index = j := ((haccounts.online _ j).mp hfind).1
        have hij : i = j := Int.ofNat.inj ((haccounts.index i).symm.trans hj)
        rw [← hij] at hfind
        exact absurd hfind (habsent _)
    | true =>
      refine Or.inr ⟨hu, fun hmem => ?_, fun iIndex => ?_⟩
      · have hunused := ((haccounts.free i).mp hmem).2
        exact Bool.false_ne_true (hunused.symm.trans hu)
      · rw [haccounts.online, show (s.slot i).index = i from haccounts.index i]
        exact and_iff_left ⟨hu, hl⟩
  · intro i j _ _ heq
    exact Int.ofNat.inj ((haccounts.index i).symm.trans (heq.trans (haccounts.index j)))

/-- A client comes, is told to leave twice in a round, and comes back. -/
theorem accounted_twoExits : ∃ s, (run (start 2) [.init, .accept,
      .dispatch [0, 8, 0, 0, 0, 1, 0, 12] true, .dispatch [0, 8, 0, 0, 0, 1, 0, 12] true,
      .flush false, .flush false, .accept]) = some s ∧ Accounted 2 s := by
  obtain ⟨s, hs⟩ := Option.isSome_iff_exists.mp (show (run (start 2) [.init, .accept,
    .dispatch [0, 8, 0, 0, 0, 1, 0, 12] true, .dispatch [0, 8, 0, 0, 0, 1, 0, 12] true,
    .flush false, .flush false, .accept]).isSome by decide +kernel)
  refine ⟨s, hs, accounted_throughout ?_⟩
  exact Runs.invariant_of_step (fun s a s' hs h => .step a hs h) .start hs

end Connections

end Wsmq
