import Wsmq.ConnectServer
import Wsmq.ConnectServer.Receive
import Wsmq.Lib.Runs

/-!
# From the sockets through `CONNECT_TO_LOGIC` into the loop of `LogicServer::Run`

The framer lets packages of any 16-bit length through, the loop dequeues into a buffer
of `MAX_CLINT_PACKAGE_LENGTH` bytes and starts over when a block does not fit.
-/

namespace Wsmq
open Lib Lib.ByteString Lib.Packing Lib.Framing Lib.Fifo

structure ConnectToLogic where
  /-- After `ClientExit` the receive pointers of a slot point into its send buffer. -/
  recvBuffs : Int → Option RecvBuff := fun _ => some {}
  /-- Packages cut off and not enqueued yet. -/
  pending : List Bytes := []
  queue : ShmQueue.Fifo
  /-- The logic server is in the loop. -/
  inLoop : Bool := false
  iDateRecvCount : Nat := 0
  /-- A history variable: rounds of the loop so far. -/
  rounds : Nat := 0

namespace ConnectToLogic

inductive Step
  /-- `recv` returns bytes of client `iIndex`. -/
  | receive (iIndex : Int) (data : Bytes)
  | enqueue
  | exit (iIndex : Int)
  /-- A package for a client that is not online was dispatched. -/
  | tellExit (iIndex : Int)
  | beginLoop
  | round

/-- `Enqueue`, whatever it returns. -/
def enqueue (s : ConnectToLogic) (pack : Bytes) : ConnectToLogic :=
  { s with queue := (s.queue.call (.enqueue pack)).2 }

/-- A round of the loop.  `ProcessRecvData` does not touch this queue. -/
def round (s : ConnectToLogic) : ConnectToLogic :=
  let s := { s with rounds := s.rounds + 1 }
  let r := s.queue.call (.dequeue maxClintPackageLength)
  if r.1.ret = ShmQueue.errShmQueueEmpty then { s with inLoop := false }
  else if r.1.ret ≠ ShmQueue.success then s
  else { s with queue := r.2, iDateRecvCount := s.iDateRecvCount + 1 }

def step (s : ConnectToLogic) : Step → Option ConnectToLogic
  | .receive iIndex data =>
    if s.pending ≠ [] then none
    else
      (s.recvBuffs iIndex).bind fun c => (c.receive iIndex data).map fun r =>
        { s with
          recvBuffs := fun i => if i = iIndex then some r.2 else s.recvBuffs i
          pending := r.1 }
  | .enqueue =>
    match s.pending with
    | [] => none
    | pack :: rest =>
      -- Tried again as long as the ring is full.
      if (s.queue.call (.enqueue pack)).1.ret = ShmQueue.errShmQueueFull then some s
      else some { s.enqueue pack with pending := rest }
  | .exit iIndex =>
    if s.pending ≠ [] then none
    else
      some { s.enqueue (ConnectServer.exitPack iIndex) with
        recvBuffs := fun i => if i = iIndex then none else s.recvBuffs i }
  | .tellExit iIndex =>
    if s.pending ≠ [] then none else some (s.enqueue (ConnectServer.exitPack iIndex))
  | .beginLoop =>
    if s.inLoop then none else some { s with inLoop := true, iDateRecvCount := 0, rounds := 0 }
  | .round =>
    if ¬ s.inLoop then none
    else if s.iDateRecvCount < 800 then some s.round
    else some { s with inLoop := false }

abbrev run : ConnectToLogic → List Step → Option ConnectToLogic := Runs.run step

/-- The loop gets on: a round finds the queue empty or takes a block off, and each of the
rounds so far has taken one off. -/
structure Drains (s : ConnectToLogic) : Prop where
  round : (s.queue.items = [] ∧ s.round.inLoop = false) ∨
    ∃ d ds, s.queue.items = d :: ds ∧ s.round.queue.items = ds ∧
      s.round.iDateRecvCount = s.iDateRecvCount + 1
  bound : s.rounds ≤ 800
  count : s.inLoop → s.rounds = s.iDateRecvCount

/-- A package that the received bytes complete is longer than the buffer of the loop. -/
def TooLong (s : ConnectToLogic) : Step → Prop
  | .receive iIndex data => ∃ c, s.recvBuffs iIndex = some c ∧
      ∃ p ∈ (RecvBuff.framer.drain (c.unread ++ data)).1, maxClintPackageLength < p.length
  | _ => False

/-! ## Rounds -/

variable {s : ConnectToLogic}

theorem round_nil (h : s.queue.items = []) :
    s.round = { s with rounds := s.rounds + 1, inLoop := false } := by
  unfold round
  dsimp only
  rw [if_pos (ShmQueue.Fifo.call_dequeue_nil h _)]

theorem round_cons {d : Bytes} {ds : List Bytes} (h : s.queue.items = d :: ds)
    (hd : d.length ≤ maxClintPackageLength) :
    s.round.queue.items = ds ∧ s.round.iDateRecvCount = s.iDateRecvCount + 1 ∧
      s.round.rounds = s.rounds + 1 ∧ s.round.inLoop = s.inLoop ∧
      s.round.recvBuffs = s.recvBuffs ∧ s.round.pending = s.pending := by
  obtain ⟨hret, _, hitems⟩ := ShmQueue.Fifo.call_dequeue_cons h (Int.ofNat_le.mpr hd)
  unfold round
  dsimp only
  rw [if_neg (by rw [hret]; decide), if_neg (by rw [hret]; decide)]
  exact ⟨hitems, rfl, rfl, rfl, rfl, rfl⟩

/-- A block that does not fit stays where it is, and the loop goes on. -/
theorem round_small {d : Bytes} {ds : List Bytes} (h : s.queue.items = d :: ds)
    (hd : maxClintPackageLength < d.length) : s.round = { s with rounds := s.rounds + 1 } := by
  have hret := ShmQueue.Fifo.call_dequeue_small h (Int.ofNat_lt.mpr hd)
  unfold round
  dsimp only
  rw [if_neg (by rw [hret]; decide), if_pos (by rw [hret]; decide)]

/-! ## The invariant -/

structure Fitting (s : ConnectToLogic) : Prop where
  recvBuffs : ∀ i c, s.recvBuffs i = some c → ∃ bs, RecvBuff.Keeps c bs
  pending : ∀ p ∈ s.pending, p.length ≤ maxClintPackageLength
  queue : ∀ p ∈ s.queue.items, p.length ≤ maxClintPackageLength
  bound : s.rounds ≤ 800
  count : s.inLoop → s.rounds = s.iDateRecvCount

theorem Fitting.drains (h : Fitting s) : Drains s := by
  refine ⟨?_, h.bound, h.count⟩
  cases hitems : s.queue.items with
  | nil => exact .inl ⟨rfl, by rw [round_nil hitems]⟩
  | cons d ds =>
    have hd := h.queue d (by rw [hitems]; exact List.mem_cons_self)
    obtain ⟨hrest, hcount, _⟩ := round_cons hitems hd
    exact .inr ⟨d, ds, rfl, hrest, hcount⟩

theorem exitPack_length (iIndex : Int) :
    (ConnectServer.exitPack iIndex).length = maxClintPackageLength :=
  Mem.read_length _ _ _

theorem enqueue_items (s : ConnectToLogic) (pack : Bytes) :
    (s.enqueue pack).queue.items = s.queue.items ∨
      (s.enqueue pack).queue.items = s.queue.items ++ [pack] := by
  by_cases hfits : Fits s.queue.cap
      (total ShmQueue.blockCost s.queue.items + ShmQueue.blockCost pack)
  · exact .inr (ShmQueue.Fifo.call_enqueue_of_fits hfits).2.2
  · exact .inl (congrArg _ (ShmQueue.Fifo.call_enqueue_of_not_fits hfits).2)

theorem enqueue_fitting (h : Fitting s) {pack : Bytes}
    (hpack : pack.length ≤ maxClintPackageLength) : Fitting (s.enqueue pack) := by
  refine ⟨h.recvBuffs, h.pending, fun p hp => ?_, h.bound, h.count⟩
  rcases enqueue_items s pack with hitems | hitems
  · rw [hitems] at hp
    exact h.queue p hp
  · rw [hitems] at hp
    rcases List.mem_append.mp hp with hp | hp
    · exact h.queue p hp
    · rw [List.mem_singleton.mp hp]
      exact hpack

theorem setIndex_length (iIndex : Int) (p : Bytes) :
    (RecvBuff.setIndex iIndex p).length ≤ max p.length 6 := by
  have hint : (beInt 4 iIndex).length = 4 := beInt_length _ _
  rw [RecvBuff.setIndex, List.length_append, List.length_append, List.length_take, hint,
    List.length_drop]
  omega

theorem receive_fitting (h : Fitting s) {iIndex : Int} {data : Bytes} {t : ConnectToLogic}
    (hshort : ¬ s.TooLong (.receive iIndex data)) (ht : s.step (.receive iIndex data) = some t) :
    Fitting t := by
  simp only [step] at ht
  split at ht
  · cases ht
  · obtain ⟨c, hc, hmap⟩ := Option.bind_eq_some_iff.mp ht
    obtain ⟨r, hr, rfl⟩ := Option.map_eq_some_iff.mp hmap
    obtain ⟨kept, hkeep⟩ := h.recvBuffs iIndex c hc
    obtain ⟨hout, hkeep'⟩ := RecvBuff.receive_spec hkeep hr
    refine ⟨fun i c' hc' => ?_, fun p hp => ?_, h.queue, h.bound, h.count⟩
    · dsimp only at hc'
      split at hc'
      · cases hc'
        exact ⟨_, hkeep'⟩
      · exact h.recvBuffs i c' hc'
    · dsimp only at hp
      rw [hout] at hp
      obtain ⟨q, hq, rfl⟩ := List.mem_map.mp hp
      have hle : q.length ≤ maxClintPackageLength := by
        by_contra hgt
        rw [← hkeep.unread] at hq
        exact hshort ⟨c, hc, q, hq, Nat.lt_of_not_le hgt⟩
      have hsix : 6 ≤ maxClintPackageLength := by decide
      exact (setIndex_length iIndex q).trans (max_le hle hsix)

theorem step_fitting (h : Fitting s) {a : Step} {t : ConnectToLogic} (hshort : ¬ s.TooLong a)
    (ht : s.step a = some t) : Fitting t := by
  cases a with
  | receive iIndex data => exact receive_fitting h hshort ht
  | enqueue =>
    simp only [step] at ht
    split at ht
    · cases ht
    · next pack rest hpending =>
      have hmem : ∀ p ∈ pack :: rest, p.length ≤ maxClintPackageLength := by
        rw [← hpending]
        exact h.pending
      split at ht
      · cases ht
        exact h
      · cases ht
        have hnext := enqueue_fitting h (hmem pack List.mem_cons_self)
        exact ⟨hnext.recvBuffs, fun p hp => hmem p (List.mem_cons_of_mem _ hp), hnext.queue,
          hnext.bound, hnext.count⟩
  | exit iIndex =>
    simp only [step] at ht
    split at ht
    · cases ht
    · cases ht
      have hnext := enqueue_fitting h (Nat.le_of_eq (exitPack_length iIndex))
      refine ⟨fun i c hc => ?_, hnext.pending, hnext.queue, hnext.bound, hnext.count⟩
      dsimp only at hc
      split at hc
      · cases hc
      · exact h.recvBuffs i c hc
  | tellExit iIndex =>
    simp only [step] at ht
    split at ht
    · cases ht
    · cases ht
      exact enqueue_fitting h (Nat.le_of_eq (exitPack_length iIndex))
  | beginLoop =>
    simp only [step] at ht
    split at ht
    · cases ht
    · cases ht
      exact ⟨h.recvBuffs, h.pending, h.queue, Nat.zero_le _, fun _ => rfl⟩
  | round =>
    simp only [step] at ht
    split at ht
    · cases ht
    · next hin =>
      have hloop : s.inLoop := not_not.mp hin
      have hcount := h.count hloop
      split at ht
      · next hlt =>
        cases ht
        cases hitems : s.queue.items with
        | nil =>
          rw [round_nil hitems]
          refine ⟨h.recvBuffs, h.pending, h.queue, ?_, fun hfalse => nomatch hfalse⟩
          dsimp only
          omega
        | cons d ds =>
          have hall : ∀ p ∈ d :: ds, p.length ≤ maxClintPackageLength := by
            rw [← hitems]
            exact h.queue
          obtain ⟨hrest, hnum, hrounds, _, hbuffs, hpending⟩ :=
            round_cons hitems (hall d List.mem_cons_self)
          refine ⟨?_, ?_, ?_, ?_, fun _ => ?_⟩
          · rw [hbuffs]
            exact h.recvBuffs
          · rw [hpending]
            exact h.pending
          · rw [hrest]
            exact fun p hp => hall p (List.mem_cons_of_mem _ hp)
          · omega
          · omega
      · cases ht
        exact ⟨h.recvBuffs, h.pending, h.queue, h.bound, fun hfalse => nomatch hfalse⟩

theorem fitting_start (cap : Option Nat) : Fitting { queue := .empty cap } :=
  { recvBuffs := fun i c hc => by
      cases hc
      exact ⟨[], rfl, rfl, rfl⟩
    pending := fun p hp => nomatch hp
    queue := fun p hp => nomatch hp
    bound := Nat.zero_le _
    count := fun _ => rfl }

/-- As long as no client completes a package longer than the buffer, the loop gets on. -/
theorem drains_throughout {cap : Option Nat} {as : List Step} {s : ConnectToLogic}
    (hshort : Runs.AllSteps step (fun s a => ¬ s.TooLong a) { queue := .empty cap } as)
    (hrun : run { queue := .empty cap } as = some s) : Drains s :=
  (Runs.invariant (fun _ _ _ hi hg ht => step_fitting hi hg ht) (fitting_start cap) hshort
    hrun).drains

/-- A client sends a package with an empty body, another one exits, the loop runs. -/
theorem drains_throughout_small :
    ∃ s, run { queue := .empty (some 20000) } [.receive 3 [0, 8, 0, 0, 0, 0, 0, 13], .enqueue,
        .exit 4, .beginLoop, .round, .round, .round] = some s ∧ s.rounds = 3 ∧ Drains s := by
  have hrun : (run { queue := .empty (some 20000) } [.receive 3 [0, 8, 0, 0, 0, 0, 0, 13],
      .enqueue, .exit 4, .beginLoop, .round, .round, .round]).isSome := by decide +kernel
  obtain ⟨s, hs⟩ := Option.isSome_iff_exists.mp hrun
  refine ⟨s, hs, ?_, drains_throughout ?_ hs⟩
  · have hrounds : (run { queue := .empty (some 20000) } [.receive 3 [0, 8, 0, 0, 0, 0, 0, 13],
        .enqueue, .exit 4, .beginLoop, .round, .round, .round]).map (·.rounds) = some 3 := by
      decide +kernel
    rw [hs] at hrounds
    exact Option.some.inj hrounds
  · refine ⟨?_, fun t _ => ?_⟩
    · rintro ⟨c, hc, p, hp, hlong⟩
      cases hc
      have hdrain : RecvBuff.framer.drain (RecvBuff.unread {} ++ [0, 8, 0, 0, 0, 0, 0, 13]) =
          ([[0, 8, 0, 0, 0, 0, 0, 13]], []) :=
        Framer.drain_single (RecvBuff.isFrame_of_isPackage (by decide))
      rw [hdrain] at hp
      rw [List.mem_singleton.mp hp] at hlong
      exact absurd hlong (by decide)
    · exact Runs.allSteps_of_mem (fun s a ha => by
        simp only [List.mem_cons, List.not_mem_nil, or_false] at ha
        rcases ha with rfl | rfl | rfl | rfl | rfl | rfl <;> exact not_false) t

/-! ## A package that is too long -/

theorem run_rounds_small {d : Bytes} {ds : List Bytes} (hloop : s.inLoop)
    (hcount : s.iDateRecvCount < 800) (h : s.queue.items = d :: ds)
    (hd : maxClintPackageLength < d.length) (n : Nat) :
    run s (List.replicate n .round) = some { s with rounds := s.rounds + n } := by
  induction n generalizing s with
  | zero => rfl
  | succ n ih =>
    have hstep : s.step .round = some { s with rounds := s.rounds + 1 } := by
      simp only [step]
      rw [if_neg (not_not.mpr hloop), if_pos hcount, round_small h hd]
    rw [List.replicate_succ, run, Runs.run, hstep, Option.bind_some]
    have hrest := @ih { s with rounds := s.rounds + 1 } hloop hcount h
    rw [Nat.add_assoc, Nat.add_comm 1 n] at hrest
    exact hrest

/-- A client sends one package and the loop begins. -/
theorem run_receive_package {cap : Option Nat} {iIndex : Int} {data pack : Bytes} {c : RecvBuff}
    (h : RecvBuff.receive iIndex {} data = some ([pack], c))
    (hfits : Fits cap (ShmQueue.blockCost pack)) :
    ∃ s, run { queue := .empty cap } [.receive iIndex data, .enqueue, .beginLoop] = some s ∧
      s.inLoop ∧ s.iDateRecvCount = 0 ∧ s.queue.items = [pack] := by
  obtain ⟨hret, _, hitems⟩ := ShmQueue.Fifo.call_enqueue_of_fits
    (show Fits (BoundedFifo.empty cap).cap (total _ (BoundedFifo.empty cap).items +
      ShmQueue.blockCost pack) by rwa [BoundedFifo.empty, total_nil, Nat.zero_add])
  refine ⟨{ ConnectToLogic.enqueue ⟨fun i => if i = iIndex then some c else some {}, [pack],
    .empty cap, false, 0, 0⟩ pack with pending := [], inLoop := true }, ?_, rfl, rfl, hitems⟩
  have hreceive : step { queue := .empty cap } (.receive iIndex data) =
      some ⟨fun i => if i = iIndex then some c else some {}, [pack], .empty cap, false, 0, 0⟩ := by
    simp only [step]
    rw [if_neg (not_not.mpr rfl), Option.bind_some, h]
    rfl
  have henqueue : step ⟨fun i => if i = iIndex then some c else some {}, [pack], .empty cap,
      false, 0, 0⟩ .enqueue = some { ConnectToLogic.enqueue ⟨fun i => if i = iIndex then some c
        else some {}, [pack], .empty cap, false, 0, 0⟩ pack with pending := [] } := by
    simp only [step]
    rw [if_neg (by rw [hret]; decide)]
  rw [run, Runs.run, hreceive, Option.bind_some, Runs.run, henqueue]
  rfl

/-- A package of 11265 bytes. -/
def longPackage : Bytes := 44 :: 1 :: List.replicate 11263 0

theorem longPackage_length : longPackage.length = 11265 := by
  rw [longPackage, List.length_cons, List.length_cons, List.length_replicate]

theorem isPackage_longPackage : RecvBuff.IsPackage longPackage := by
  refine ⟨?_, ?_⟩
  · rw [longPackage_length]
    decide
  · rw [longPackage_length]
    rfl

theorem setIndex_longPackage_length : (RecvBuff.setIndex 3 longPackage).length = 11265 := by
  have hint : (beInt 4 3).length = 4 := beInt_length _ _
  rw [RecvBuff.setIndex, List.length_append, List.length_append, List.length_take, hint,
    List.length_drop, longPackage_length]
  rfl

theorem receive_longPackage :
    ∃ c, RecvBuff.receive 3 {} longPackage = some ([RecvBuff.setIndex 3 longPackage], c) := by
  have hfresh : RecvBuff.Keeps {} [] := ⟨rfl, rfl, rfl⟩
  have hguard : ¬ (longPackage = [] ∨ longPackage.length > serverBufferSize - 0) := by
    rw [longPackage_length]
    rintro (hnil | hlong)
    · cases hnil
    · exact absurd hlong (by decide)
  have hsome : (RecvBuff.receive 3 {} longPackage).isSome := by
    rw [RecvBuff.receive, if_neg hguard]
    rfl
  obtain ⟨r, hr⟩ := Option.isSome_iff_exists.mp hsome
  have hout := (RecvBuff.receive_spec hfresh hr).1
  rw [List.nil_append,
    Framer.drain_single (RecvBuff.isFrame_of_isPackage isPackage_longPackage)] at hout
  exact ⟨r.2, hr.trans (congrArg some (Prod.ext hout rfl))⟩

/-- Once it is in the queue, the loop neither takes it off nor ends. -/
theorem long_package_stays :
    ∃ s, run { queue := .empty (some 20000) } [.receive 3 longPackage, .enqueue, .beginLoop] =
        some s ∧ s.inLoop ∧ s.queue.items = [RecvBuff.setIndex 3 longPackage] ∧
      ∀ n, run s (List.replicate n .round) = some { s with rounds := s.rounds + n } := by
  obtain ⟨c, hreceive⟩ := receive_longPackage
  have hfits : Fits (some 20000) (ShmQueue.blockCost (RecvBuff.setIndex 3 longPackage)) := by
    rw [ShmQueue.blockCost_eq, setIndex_longPackage_length]
    decide
  obtain ⟨s, hs, hloop, hcount, hitems⟩ := run_receive_package hreceive hfits
  refine ⟨s, hs, hloop, hitems, run_rounds_small hloop (by omega) hitems ?_⟩
  rw [setIndex_longPackage_length]
  decide

end ConnectToLogic

end Wsmq
