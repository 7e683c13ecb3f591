import Wsmq.PersistenceServer.Deletion

/-!
# Cleaning up (`ClearUpFile`)

The groups of a queue are taken from the front, and a group is compared with the one before it.
The loop moves its iterator once more after each comparison.
-/

namespace Wsmq.PersistenceServer
open Lib Lib.ByteString Lib.Packing Lib.Files

/-! ## Rates -/

/-- `st_size`, if there is a file and it is not empty. -/
def statSize (files : FileSystem) (path : Bytes) : Option Nat :=
  (readFile files path).bind fun bytes => if bytes.length = 0 then none else some bytes.length

/-- The quotient that `CalculateCondsumeRate` returns. -/
structure Rate where
  iConsumeNum : Nat
  iMsgNum : Nat

def calculateCondsumeRate (files : FileSystem) (ipFile : Bytes) : Rate :=
  match statSize files (ipFile ++ extIndex) with
  | none => ⟨0, 1⟩
  | some indexFileSize =>
    match statSize files (ipFile ++ extConsume) with
    | none => ⟨0, 1⟩
    | some consumeFileSize => ⟨consumeFileSize / 4, indexFileSize / 8⟩

/-- `rate > 0.5`; so it is too for an infinite quotient, and it is not for `0.0 / 0`. -/
abbrev Rate.OverHalf (rate : Rate) : Prop := rate.iMsgNum < 2 * rate.iConsumeNum

/-- A group, the one before it, and how many groups follow. -/
structure Pair where
  queue : Name
  prev : Name
  cur : Name
  left : Nat
  deriving DecidableEq

/-- Both rates are above one half. -/
abbrev Pair.OverHalf (p : Pair) (files : FileSystem) : Prop :=
  (calculateCondsumeRate files (queueDir p.queue ++ slash :: p.prev)).OverHalf ∧
    (calculateCondsumeRate files (queueDir p.queue ++ slash :: p.cur)).OverHalf

/-! ## The scan -/

/-- The variables of the loops, and two history variables: the pairs that were compared, and the
calls of `MergeFiles` with what they returned. -/
structure Scan where
  server : PersistenceServer
  clearCount : Nat := 0
  pairs : List Pair := []
  calls : List (Pair × Option Int) := []

inductive Ended
  | returned
  /-- The end of the list was read like an element. -/
  | pastEnd
  /-- `MergeFiles` has no result. -/
  | inMerge
  deriving DecidableEq

/-- The groups are merged when it is due.  Whether they were, if there is a result. -/
def Scan.visit (x : Scan) (p : Pair) (due : Prop) [Decidable due] : Option Bool × Scan :=
  let x := { x with pairs := x.pairs ++ [p] }
  if due then
    match x.server.mergeFiles p.queue p.prev p.cur with
    | none => (none, { x with calls := x.calls ++ [(p, none)] })
    | some r =>
      let x := { x with server := r.2, calls := x.calls ++ [(p, some r.1)] }
      if r.1 = success then (some true, { x with clearCount := x.clearCount + 1 })
      else (some false, x)
  else (some false, x)

/-- Both rates are looked at. -/
def Scan.compare (x : Scan) (p : Pair) : Option Bool × Scan :=
  x.visit p (p.OverHalf x.server.files)

/-- The loop over the groups of one queue; the list begins at `itr2`. -/
def scanFiles (strQueueName : Name) : Name → List Name → Scan → Ended × Scan
  | _, [], x => (.returned, x)
  | strPrev, cur :: fileList, x =>
    if strPrev = [] then scanFiles strQueueName cur fileList x
    else
      match x.compare ⟨strQueueName, strPrev, cur, fileList.length⟩ with
      | (none, x) => (.inMerge, x)
      | (some _, x) =>
        -- merged or not, `itr2` stands at the next group, which becomes `strPrev`
        match fileList with
        | [] => (.pastEnd, x)
        | next :: fileList => scanFiles strQueueName next fileList x

/-- What follows when a loop has returned. -/
def andThen (f : Scan → Ended × Scan) : Ended × Scan → Ended × Scan
  | (.returned, x) => f x
  | r => r

/-- The loop over the queues. -/
def scanQueues : List ((_ : Name) × List Name) → Scan → Ended × Scan
  | [], x => (.returned, x)
  | b :: rest, x =>
    if x.clearCount ≠ 0 then (.returned, x)
    else andThen (scanQueues rest) (scanFiles b.1 [] b.2 x)

/-- The map is visited in some order. -/
def clearUpFile (s : PersistenceServer) : Ended × Scan :=
  scanQueues s.msgQueueList.entries { server := s }

/-! ## What is due -/

/-- The messages of a group, by their indices. -/
def groupMessages (files : FileSystem) (ipFile : Bytes) : List Int :=
  match readFile files (ipFile ++ extIndex) with
  | none => []
  | some index => (indexEntries index).map Prod.fst

/-- The messages of a group that are recorded in `.consume`, however often. -/
def consumedMessages (files : FileSystem) (ipFile : Bytes) : List Int :=
  match readFile files (ipFile ++ extConsume) with
  | none => []
  | some consume => (groupMessages files ipFile).filter (· ∈ consumeIndexSet consume)

/-- More than half of the messages of the group are consumed. -/
abbrev HalfConsumed (files : FileSystem) (ipFile : Bytes) : Prop :=
  (groupMessages files ipFile).length < 2 * (consumedMessages files ipFile).length

/-- Both groups have more than half of their messages consumed. -/
abbrev Pair.Due (p : Pair) (files : FileSystem) : Prop :=
  HalfConsumed files (queueDir p.queue ++ slash :: p.prev) ∧
    HalfConsumed files (queueDir p.queue ++ slash :: p.cur)

/-- All pairs of neighbouring groups. -/
def neighbours (strQueueName : Name) : List Name → List Pair
  | prev :: cur :: fileList =>
    ⟨strQueueName, prev, cur, fileList.length⟩ :: neighbours strQueueName (cur :: fileList)
  | _ => []

/-- What a visit does to the server. -/
def turn (s : PersistenceServer) (p : Pair) (due : Prop) [Decidable due] :
    Option (Bool × PersistenceServer) :=
  if due then (s.mergeFiles p.queue p.prev p.cur).map fun r => (decide (r.1 = success), r.2)
  else some (false, s)

section Visit

variable {s s' : PersistenceServer} {x x' : Scan} {p : Pair} {q prev cur : Name} {n : Nat}
  {due due' : Prop} [Decidable due] [Decidable due']

/-- The call of `MergeFiles`, if one is made. -/
def callOf (s : PersistenceServer) (p : Pair) (due : Prop) [Decidable due] :
    List (Pair × Option Int) :=
  if due then [(p, (s.mergeFiles p.queue p.prev p.cur).map Prod.fst)] else []

theorem callOf_of_not (h : ¬ due) : s.callOf p due = [] := if_neg h

theorem turn_of_not (h : ¬ due) : s.turn p due = some (false, s) := if_neg h

theorem turn_congr (h : due ↔ due') : s.turn p due = s.turn p due' := if_congr h rfl rfl

theorem visit_of_not (h : ¬ due) :
    x.visit p due = (some false, { x with pairs := x.pairs ++ [p] }) := by
  unfold Scan.visit
  exact if_neg h

theorem compare_of_not (h : ¬ p.OverHalf x.server.files) :
    x.compare p = (some false, { x with pairs := x.pairs ++ [p] }) := visit_of_not h

/-- A visit in terms of the server. -/
theorem visit_spec (x : Scan) (p : Pair) (due : Prop) [Decidable due] :
    (x.visit p due).1 = (x.server.turn p due).map Prod.fst ∧
      (x.visit p due).2.server = ((x.server.turn p due).map Prod.snd).getD x.server ∧
      (x.visit p due).2.pairs = x.pairs ++ [p] ∧
      (x.visit p due).2.calls = x.calls ++ x.server.callOf p due ∧
      (x.visit p due).2.clearCount = x.clearCount +
        (x.server.callOf p due).countP fun c => c.2 = some success := by
  by_cases hdue : due
  swap
  · rw [visit_of_not hdue, turn_of_not hdue, callOf_of_not hdue]
    exact ⟨rfl, rfl, rfl, (List.append_nil _).symm, rfl⟩
  unfold Scan.visit turn callOf
  rw [if_pos hdue, if_pos hdue]
  dsimp only
  rw [if_pos hdue]
  cases hmerge : x.server.mergeFiles p.queue p.prev p.cur with
  | none => exact ⟨rfl, rfl, rfl, rfl, rfl⟩
  | some r =>
    obtain ⟨ret, s'⟩ := r
    by_cases hret : ret = success
    · subst hret
      exact ⟨rfl, rfl, rfl, rfl, rfl⟩
    · simp [hret]

theorem compare_spec (x : Scan) (p : Pair) :
    (x.compare p).1 = (x.server.turn p (p.OverHalf x.server.files)).map Prod.fst ∧
      (x.compare p).2.server =
        ((x.server.turn p (p.OverHalf x.server.files)).map Prod.snd).getD x.server ∧
      (x.compare p).2.pairs = x.pairs ++ [p] ∧
      (x.compare p).2.calls = x.calls ++ x.server.callOf p (p.OverHalf x.server.files) ∧
      (x.compare p).2.clearCount = x.clearCount +
        (x.server.callOf p (p.OverHalf x.server.files)).countP fun c => c.2 = some success :=
  visit_spec x p _

end Visit

/-! ## The measure -/

section Measure

variable {files : FileSystem} {ipFile index consume : Bytes}

/-- Where every consumed message is recorded once, the sizes of the files tell how many are
consumed. -/
theorem overHalf_iff_of_tally (hindex : readFile files (ipFile ++ extIndex) = some index)
    (hconsume : readFile files (ipFile ++ extConsume) = some consume)
    (hentries : index.length ≠ 0) (hrecords : consume.length ≠ 0) (h : Tally index consume)
    (hnodup : ((indexEntries index).map Prod.fst).Nodup) :
    (calculateCondsumeRate files ipFile).OverHalf ↔ HalfConsumed files ipFile := by
  have hrate : calculateCondsumeRate files ipFile = ⟨consume.length / 4, index.length / 8⟩ := by
    unfold calculateCondsumeRate statSize
    rw [hindex, hconsume, Option.bind_some, Option.bind_some, if_neg hentries, if_neg hrecords]
  have hmessages : groupMessages files ipFile = (indexEntries index).map Prod.fst := by
    unfold groupMessages
    rw [hindex]
  have hconsumed : consumedMessages files ipFile =
      ((indexEntries index).map Prod.fst).filter (· ∈ consumeIndexSet consume) := by
    unfold consumedMessages
    rw [hconsume, hmessages]
  have hperm : (((indexEntries index).map Prod.fst).filter (· ∈ consumeIndexSet consume)).Perm
      (consumeIndexSet consume) := by
    refine (List.perm_ext_iff_of_nodup (hnodup.filter _) h.once).mpr fun k => ?_
    rw [List.mem_filter, decide_eq_true_eq]
    exact and_iff_right_of_imp fun hk => h.listed hk
  rw [Rate.OverHalf, HalfConsumed, hrate, hmessages, hconsumed, hperm.length_eq,
    indexKeys_length h.entries, consumeIndexSet_length h.records]

end Measure

/-! ## One round of the loops -/

section Rounds

variable {x x' : Scan} {q strPrev prev cur next : Name} {fileList : List Name} {merged : Bool}

/-- No group stands before the first one. -/
theorem scanFiles_empty (q cur : Name) (fileList : List Name) (x : Scan) :
    scanFiles q [] (cur :: fileList) x = scanFiles q cur fileList x := by
  rw [scanFiles, if_pos rfl]

end Rounds

/-! ## What a scan adds -/

/-- Pairs and calls come to those that are there, and the successes are counted. -/
structure Adds (x x' : Scan) (ps : List Pair) (cs : List (Pair × Option Int)) : Prop where
  pairs : x'.pairs = x.pairs ++ ps
  calls : x'.calls = x.calls ++ cs
  own : ∀ c ∈ cs, c.1 ∈ ps
  count : x'.clearCount = x.clearCount + cs.countP fun c => c.2 = some success

section Adds

variable {x x' x'' : Scan} {p : Pair} {ps ps' : List Pair} {cs cs' : List (Pair × Option Int)}
  {q strPrev : Name} {fileList : List Name} {due : Prop} [Decidable due]

theorem Adds.refl (x : Scan) : Adds x x [] [] :=
  ⟨(List.append_nil _).symm, (List.append_nil _).symm, fun _ hc => absurd hc List.not_mem_nil, rfl⟩

theorem Adds.trans (h : Adds x x' ps cs) (h' : Adds x' x'' ps' cs') :
    Adds x x'' (ps ++ ps') (cs ++ cs') := by
  refine ⟨?_, ?_, ?_, ?_⟩
  · rw [h'.pairs, h.pairs, List.append_assoc]
  · rw [h'.calls, h.calls, List.append_assoc]
  · intro c hc
    rcases List.mem_append.mp hc with hc | hc
    · exact List.mem_append_left _ (h.own c hc)
    · exact List.mem_append_right _ (h'.own c hc)
  · rw [h'.count, h.count, List.countP_append, Nat.add_assoc]

theorem callOf_pair {s : PersistenceServer} {c : Pair × Option Int} (hc : c ∈ s.callOf p due) :
    c.1 = p := by
  unfold callOf at hc
  split at hc
  · cases List.mem_singleton.mp hc
    rfl
  · cases hc

theorem visit_adds (x : Scan) (p : Pair) (due : Prop) [Decidable due] :
    Adds x (x.visit p due).2 [p] (x.server.callOf p due) := by
  obtain ⟨-, -, hpairs, hcalls, hcount⟩ := visit_spec x p due
  exact ⟨hpairs, hcalls, fun c hc => List.mem_singleton.mpr (callOf_pair hc), hcount⟩

theorem compare_adds (x : Scan) (p : Pair) :
    Adds x (x.compare p).2 [p] (x.server.callOf p (p.OverHalf x.server.files)) := visit_adds x p _

/-- The loop compares pairs of neighbours, in their order. -/
theorem scanFiles_adds (q strPrev : Name) (fileList : List Name) (x : Scan) :
    ∃ ps cs, Adds x (scanFiles q strPrev fileList x).2 ps cs ∧
      ps.Sublist (neighbours q (strPrev :: fileList)) := by
  fun_induction scanFiles q strPrev fileList x with
  | case1 strPrev x => exact ⟨[], [], Adds.refl x, List.nil_sublist _⟩
  | case2 cur fileList x ih =>
    obtain ⟨ps, cs, hadds, hsub⟩ := ih
    exact ⟨ps, cs, hadds, hsub.cons _⟩
  | case3 strPrev cur fileList x hprev x' hcompare =>
    have hadds := compare_adds x ⟨q, strPrev, cur, fileList.length⟩
    rw [hcompare] at hadds
    exact ⟨_, _, hadds, List.singleton_sublist.mpr List.mem_cons_self⟩
  | case4 strPrev cur x hprev merged x' hcompare =>
    have hadds := compare_adds x ⟨q, strPrev, cur, 0⟩
    rw [show x.compare ⟨q, strPrev, cur, 0⟩ = _ from hcompare] at hadds
    exact ⟨_, _, hadds, List.Sublist.refl _⟩
  | case5 strPrev cur x hprev merged x' next fileList hcompare ih =>
    have hadds := compare_adds x ⟨q, strPrev, cur, (next :: fileList).length⟩
    rw [hcompare] at hadds
    obtain ⟨ps, cs, hadds', hsub⟩ := ih
    exact ⟨_, _, hadds.trans hadds', (hsub.cons _).cons_cons _⟩

end Adds

/-! ## The two scans of one queue -/

/-- The same but for the pairs that were compared. -/
structure Same (x y : Scan) : Prop where
  server : x.server = y.server
  clearCount : x.clearCount = y.clearCount
  calls : x.calls = y.calls

/-- For a pair with fewer than `n` groups behind it one of the two scans alone makes a call. -/
def Differs (q : Name) (n : Nat) (x x' y y' : Scan) : Prop :=
  ∃ p ps cs ps' cs', Adds x x' ps cs ∧ Adds y y' ps' cs' ∧ p.queue = q ∧ p.left < n ∧
    ¬ (p ∈ cs.map Prod.fst ↔ p ∈ cs'.map Prod.fst)

section Queue

variable {x x' x'' y y' y'' : Scan} {p : Pair} {q prev cur next : Name} {fileList : List Name}
  {n n' : Nat} {r : Bool × PersistenceServer} {due due' : Prop} [Decidable due] [Decidable due']

theorem Same.visit (h : Same x y) (p : Pair) (hdue : due ↔ due') :
    Same (x.visit p due).2 (y.visit p due').2 := by
  obtain ⟨-, hserver, -, hcalls, hcount⟩ := visit_spec x p due
  obtain ⟨-, hserver', -, hcalls', hcount'⟩ := visit_spec y p due'
  have hcall : x.server.callOf p due = y.server.callOf p due' := by
    rw [← h.server]
    exact if_congr hdue rfl rfl
  rw [← h.server, ← turn_congr hdue] at hserver'
  refine ⟨hserver.trans hserver'.symm, ?_, ?_⟩
  · rw [hcount, hcount', h.clearCount, hcall]
  · rw [hcalls, hcalls', h.calls, hcall]

/-- What comes before does not matter. -/
theorem Differs.after {ps ps' : List Pair} {cs cs' : List (Pair × Option Int)}
    (h : Differs q n x' x'' y' y'') (hx : Adds x x' ps cs) (hy : Adds y y' ps' cs')
    (hcs : ∀ c ∈ cs, n ≤ c.1.left) (hcs' : ∀ c ∈ cs', n ≤ c.1.left) (hle : n ≤ n') :
    Differs q n' x x'' y y'' := by
  obtain ⟨p, ps₁, cs₁, ps₁', cs₁', hadds, hadds', hq, hlt, hone⟩ := h
  have hbefore : ∀ {cs : List (Pair × Option Int)}, (∀ c ∈ cs, n ≤ c.1.left) →
      p ∉ cs.map Prod.fst := by
    intro cs hcs hp
    obtain ⟨c, hc, rfl⟩ := List.mem_map.mp hp
    exact absurd hlt (Nat.not_lt.mpr (hcs c hc))
  refine ⟨p, _, _, _, _, hx.trans hadds, hy.trans hadds', hq, hlt.trans_le hle, ?_⟩
  rw [List.map_append, List.map_append, List.mem_append, List.mem_append,
    or_iff_right (hbefore hcs), or_iff_right (hbefore hcs')]
  exact hone

end Queue

/-! ## All queues -/

section Queues

variable {x y : Scan} {p : Pair} {entries : List ((_ : Name) × List Name)}

theorem scanQueues_done (h : x.clearCount ≠ 0) : scanQueues entries x = (.returned, x) := by
  cases entries with
  | nil => rfl
  | cons b rest => rw [scanQueues, if_pos h]

end Queues

/-! ## When nothing is cleaned up -/

section Quiet

variable {q strPrev : Name} {fileList : List Name} {x : Scan}
  {entries : List ((_ : Name) × List Name)}

theorem scanFiles_quiet
    (h : ∀ p ∈ neighbours q (strPrev :: fileList), ¬ p.OverHalf x.server.files) :
    (scanFiles q strPrev fileList x).2.server = x.server := by
  fun_induction scanFiles q strPrev fileList x with
  | case1 strPrev x => rfl
  | case2 cur fileList x ih => exact ih fun p hp => h p (List.mem_cons_of_mem _ hp)
  | case3 strPrev cur fileList x hprev x' hcompare =>
    rw [compare_of_not (h _ List.mem_cons_self)] at hcompare
    cases hcompare
  | case4 strPrev cur x hprev merged x' hcompare =>
    rw [compare_of_not (h _ List.mem_cons_self)] at hcompare
    cases hcompare
    rfl
  | case5 strPrev cur x hprev merged x' next fileList hcompare ih =>
    rw [compare_of_not (h _ List.mem_cons_self)] at hcompare
    cases hcompare
    exact ih fun p hp => h p (List.mem_cons_of_mem _ (List.mem_cons_of_mem _ hp))

theorem scanQueues_quiet
    (h : ∀ b ∈ entries, ∀ p ∈ neighbours b.1 b.2, ¬ p.OverHalf x.server.files) :
    (scanQueues entries x).2.server = x.server := by
  induction entries generalizing x with
  | nil => rfl
  | cons b entries ih =>
    rw [scanQueues]
    split
    · rfl
    · have hfirst : (scanFiles b.1 [] b.2 x).2.server = x.server := by
        have hpairs := h b List.mem_cons_self
        cases hlist : b.2 with
        | nil => rfl
        | cons cur fileList =>
          rw [scanFiles_empty]
          exact scanFiles_quiet (hlist ▸ hpairs)
      cases hscan : scanFiles b.1 [] b.2 x with
      | mk ended x' =>
        rw [hscan] at hfirst
        cases ended with
        | returned =>
          refine (ih fun b' hb' p hp => ?_).trans hfirst
          rw [hfirst]
          exact h b' (List.mem_cons_of_mem b hb') p hp
        | pastEnd => exact hfirst
        | inMerge => exact hfirst

end Quiet

end Wsmq.PersistenceServer
