import Wsmq.Lib.SpinLock
import Wsmq.ShmQueue.Accesses

/-!
# The queue between processes

`m_iUsedNum` is the lock word of the queue.  Any number of processes call
`Enqueue` and `Dequeue`, and their accesses interleave in any order; a process
that is killed and started again finds the segment as it is, because `Init`
leaves the header of a segment that exists alone.
-/

namespace Wsmq.ShmQueue
open Lib Lib.ByteString Lib.RingMemory Lib.Fifo Lib.Accesses Lib.Runs Lib.SpinLock

/-- The queue with its two operations. -/
def locked : Object ShmQueue Scan Call Answer := ⟨callCode, scanCode⟩

abbrev Processes (ι : Type) : Type := State ι ShmQueue Scan Call Answer

/-! ## What has been stored and taken -/

def storedBy : Call × Answer → Option Bytes
  | (.enqueue ipDate, a) => if a.ret = success then some ipDate else none
  | (.dequeue _, _) => none

def takenBy : Call × Answer → Option Bytes
  | (.enqueue _, _) => none
  | (.dequeue _, a) => if a.ret = success then some a.opBuf else none

theorem Fifo.call_conserves (f : Fifo) (c : Call) :
    f.items ++ (storedBy (c, (f.call c).1)).toList =
      (takenBy (c, (f.call c).1)).toList ++ (f.call c).2.items := by
  cases c with
  | enqueue d =>
    unfold Fifo.call
    dsimp only
    split
    · next h => simp [storedBy, takenBy, (BoundedFifo.enqueue_some h).2.1]
    · simp [storedBy, takenBy, success, errShmQueueFull]
  | dequeue n =>
    unfold Fifo.call
    dsimp only
    split
    · next d f' h =>
      split
      · simp [storedBy, takenBy, success, errShmQueueBufSmall]
      · simp [storedBy, takenBy, BoundedFifo.dequeue_some h]
    · simp [storedBy, takenBy, success, errShmQueueEmpty]

theorem filterMap_cons_toList {α β : Type} (g : α → Option β) (a : α) (l : List α) :
    (a :: l).filterMap g = (g a).toList ++ l.filterMap g := by
  rw [List.filterMap_cons]
  cases g a <;> rfl

/-- Nothing is lost, repeated or reordered between the calls. -/
theorem Fifo.calls_conserve (f : Fifo) (cs : List Call) :
    f.items ++ (cs.zip (f.calls cs).1).filterMap storedBy =
      (cs.zip (f.calls cs).1).filterMap takenBy ++ (f.calls cs).2.items := by
  induction cs generalizing f with
  | nil => simp [Fifo.calls]
  | cons c cs ih =>
    rw [Fifo.calls, List.zip_cons_cons, filterMap_cons_toList, filterMap_cons_toList,
      ← List.append_assoc, Fifo.call_conserves, List.append_assoc, ih, List.append_assoc]

/-! ## Every run -/

section Runs

variable {ι : Type} {L : Nat}

/-- Calls one after the other answer as the list does. -/
theorem legal_refines (hpos : 1 ≤ L) (hL : L < 2 ^ 31) {rs : List (Return ι Call Answer)}
    {q q' : ShmQueue} {f : Fifo} (h : Refines L q f) (hlegal : Legal locked q rs q') :
    (f.calls (rs.map (·.op))).1 = rs.map (·.result) ∧
      Refines L q' (f.calls (rs.map (·.op))).2 := by
  induction rs generalizing q f with
  | nil =>
    cases hlegal
    exact ⟨rfl, h⟩
  | cons r rs ih =>
    obtain ⟨m, hends, hrest⟩ := hlegal
    have hlen : 0 < q.queueHead.len := by
      rw [h.items.len]
      exact hpos
    obtain ⟨m', hcall, hnext, _⟩ := call_refines h hL r.op
    obtain ⟨hresult, rfl⟩ := Prod.mk.inj (Option.some.inj
      (hcall.symm.trans ((call_ends_iff hlen).mp hends)))
    obtain ⟨hanswers, hlast⟩ := ih hnext hrest
    refine ⟨?_, hlast⟩
    rw [List.map_cons, List.map_cons, Fifo.calls, hresult, hanswers]

/-- On every ring that calls can leave, every call ends. -/
theorem locked_halts (hpos : 1 ≤ L) (hL : L < 2 ^ 31) : Halts ι locked (init L) := by
  intro rs q hlegal c
  have h := (legal_refines hpos hL (init_refines hpos) hlegal).2
  have hlen : 0 < q.queueHead.len := by
    rw [h.items.len]
    exact hpos
  obtain ⟨q', hcall, _, _⟩ := call_refines h hL c
  exact ⟨_, q', (call_ends_iff hlen).mpr hcall⟩

variable [DecidableEq ι] {s : Processes ι} {es : List (SpinLock.Event ι Call)}

/-- Whatever the interleaving and whoever is killed, at most one process is inside the queue, the
calls answer in the order of their returns as a bounded list does, and what is taken is what was
stored, in that order. -/
theorem interleaved_fifo (hpos : 1 ≤ L) (hL : L < 2 ^ 31)
    (hrun : run (step locked) (initial (init L)) es = some s) :
    let ops := s.returns.map (·.op)
    let f := (Fifo.calls (.empty (some L)) ops).2
    (∀ p p', s.Inside p → s.Inside p' → p = p') ∧
      (Fifo.calls (.empty (some L)) ops).1 = s.returns.map (·.result) ∧
      (s.returns.map fun r => (r.op, r.result)).filterMap storedBy =
        (s.returns.map fun r => (r.op, r.result)).filterMap takenBy ++ f.items ∧
      (s.shared.word = 0 → Represents L s.shared.mem f.items) := by
  obtain ⟨hheld, q, hlin⟩ := run_linear hrun
  obtain ⟨hanswers, hrefines⟩ := legal_refines hpos hL (init_refines hpos) hlin.legal
  refine ⟨hheld.unique, hanswers, ?_, fun hword => ?_⟩
  · have hconserve := Fifo.calls_conserve (.empty (some L)) (s.returns.map (·.op))
    rw [hanswers, List.zip_map'] at hconserve
    exact hconserve
  · rw [hlin.free hword]
    exact hrefines.items

/-- A writer is in the middle of its call, and a reader finds the lock taken. -/
def writerInside : List (SpinLock.Event Bool Call) :=
  [.call false (.enqueue [7]), .tryAcquire false, .call true (.dequeue 8), .access false,
    .tryAcquire true]

/-- The reader takes the block when the writer is done, while the writer comes with the next. -/
def threeCalls : List (SpinLock.Event Bool Call) :=
  writerInside ++ List.replicate 33 (.access false) ++
    [.tryRelease false, .tryAcquire true, .call false (.enqueue [8])] ++
    List.replicate 29 (.access true) ++
    [.tryAcquire false, .access true, .tryRelease true, .tryAcquire false] ++
    List.replicate 34 (.access false) ++ [.tryRelease false]

theorem interleaved_fifo_threeCalls :
    ∃ s : Processes Bool, run (step locked) (initial (init 64)) threeCalls = some s ∧
      s.returns.map (fun r => (r.proc, r.op, r.result)) =
        [(false, .enqueue [7], ⟨success, 0, []⟩), (true, .dequeue 8, ⟨success, 1, [7]⟩),
          (false, .enqueue [8], ⟨success, 0, []⟩)] ∧
      ∃ items, [[7], [8]] = [[7]] ++ items ∧ Represents 64 s.shared.mem items := by
  have hcheck : (run (step locked) (initial (init 64)) threeCalls).map (fun s : Processes Bool =>
      decide (s.returns.map (fun r => (r.proc, r.op, r.result)) =
        [(false, .enqueue [7], ⟨success, 0, []⟩), (true, .dequeue 8, ⟨success, 1, [7]⟩),
          (false, .enqueue [8], ⟨success, 0, []⟩)] ∧ s.shared.word = 0)) = some true := by
    decide +kernel
  obtain ⟨s, hrun, hprops⟩ := Option.map_eq_some_iff.mp hcheck
  obtain ⟨hreturns, hword⟩ := of_decide_eq_true hprops
  obtain ⟨-, -, hconserved, hring⟩ := interleaved_fifo (by decide) (by decide) hrun
  have hpairs : (s.returns.map fun r => (r.op, r.result)) =
      (s.returns.map fun r => (r.proc, r.op, r.result)).map Prod.snd := by
    rw [List.map_map]
    rfl
  rw [hpairs, hreturns] at hconserved
  exact ⟨s, hrun, hreturns, _, hconserved, hring hword⟩

/-- A call in progress can still return exactly when no step of the run has killed a process
inside the queue. -/
theorem pending_canReturn_iff (hpos : 1 ≤ L) (hL : L < 2 ^ 31)
    (hrun : run (step locked) (initial (init L)) es = some s) {p : ι} {c : Call}
    (hp : Pending s p c) :
    CanReturn locked s p c ↔
      AllSteps (step locked) (fun r e => ¬ KillsHolder r e) (initial (init L)) es :=
  canReturn_iff (locked_halts hpos hL) hrun hp

/-- The writer is killed inside and started again. -/
def writerKilled : List (SpinLock.Event Bool Call) := writerInside ++ [.kill false, .start false]

/-- The reader waits for good. -/
theorem pending_never_returns :
    ∃ s : Processes Bool, run (step locked) (initial (init 64)) writerKilled = some s ∧
      ¬ CanReturn locked s true (.dequeue 8) := by
  have hrun : run (step locked) (initial (init 64)) writerKilled = some _ := rfl
  refine ⟨_, hrun, ?_⟩
  rw [pending_canReturn_iff (by decide) (by decide) hrun (.inl rfl)]
  intro h
  exact (allSteps_append h rfl).2.1 ⟨_, _, rfl⟩

end Runs

end Wsmq.ShmQueue
