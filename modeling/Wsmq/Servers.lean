import Wsmq.LogicServer.Reload
import Wsmq.PersistenceServer.QueueMaps

/-!
# Logic server and persistence server side by side

The two processes share `LOGIC_TO_PERSIS`.  They take their steps in any order, and the persistence
server may die and start anew between two packets.
-/

namespace Wsmq
open Lib Lib.ByteString Lib.Packing Lib.Files Lib.Outbox
open PersistenceServer (Order metadata Orderly)

/-! ## The persistence server starts anew -/

namespace PersistenceServer

variable {s s' : PersistenceServer} {n : Name}

/-- Only the map of that queue grows. -/
theorem indexFile_initQueueDir (s : PersistenceServer) (n m : Name) {l : AList fun _ : Int => Name}
    (h : (s.initQueueDir n).msgQueueIndexFile.lookup m = some l) :
    m = n ∨ ∃ l', s.msgQueueIndexFile.lookup m = some l' := by
  have hinsert : ∀ (es : List (Int × Int)) (f : Name) (s : PersistenceServer)
      (l : AList fun _ : Int => Name),
      (es.foldl (fun s e => s.insertIndex n e.1 f) s).msgQueueIndexFile.lookup m = some l →
        m = n ∨ ∃ l', s.msgQueueIndexFile.lookup m = some l' := by
    intro es f
    induction es with
    | nil => exact fun s l hl => Or.inr ⟨l, hl⟩
    | cons e es ih =>
      intro s l hl
      rcases ih _ l hl with hm | ⟨l', hl'⟩
      · exact Or.inl hm
      · rcases AssocTables.lookup_insert_some hl' with ⟨hm, _⟩ | ⟨_, hold⟩
        · exact Or.inl hm
        · exact Or.inr ⟨l', hold⟩
  have hfold : ∀ (fs : List Name) (s : PersistenceServer) (l : AList fun _ : Int => Name),
      (fs.foldl (fun s f => (s.processIndexFile n f).pushFile n f) s).msgQueueIndexFile.lookup m =
        some l → m = n ∨ ∃ l', s.msgQueueIndexFile.lookup m = some l' := by
    intro fs
    induction fs with
    | nil => exact fun s l hl => Or.inr ⟨l, hl⟩
    | cons f fs ih =>
      intro s l hl
      rcases ih _ l hl with hm | ⟨l', hl'⟩
      · exact Or.inl hm
      · have hone : (s.processIndexFile n f).msgQueueIndexFile.lookup m = some l' := hl'
        unfold processIndexFile at hone
        split at hone
        · exact Or.inr ⟨l', hone⟩
        · exact hinsert _ f s l' hone
  exact hfold _ s l h

theorem restart_orderly (h : Orderly s) : Orderly s.restart ∧ metadata s.restart = metadata s := by
  obtain ⟨hfiles, htail, _⟩ := restart_fileOf s [] 0
  refine ⟨⟨restart_sound h.sound, hfiles ▸ h.tidy, fun m l hl => ?_, fun m g hg => ?_⟩, ?_⟩
  · have hfold : ∀ (ns : List Name) (s : PersistenceServer) (l : AList fun _ : Int => Name),
        (ns.foldl initQueueDir s).msgQueueIndexFile.lookup m = some l →
          m ∈ ns ∨ ∃ l', s.msgQueueIndexFile.lookup m = some l' := by
      intro ns
      induction ns with
      | nil => exact fun s l hl => Or.inr ⟨l, hl⟩
      | cons n ns ih =>
        intro s l hl
        rcases ih _ l hl with hm | ⟨l', hl'⟩
        · exact Or.inl (List.mem_cons_of_mem _ hm)
        · rcases indexFile_initQueueDir s n m hl' with rfl | hold
          · exact Or.inl List.mem_cons_self
          · exact Or.inr hold
    rcases hfold (queueDirs s.files) _ l hl with hm | ⟨_, hl'⟩
    · exact plain_of_subDirs (k := .queue) h.sound.files hm
    · cases hl'
  · rw [htail] at hg
    cases hg
  · funext e
    simp only [metadata, hfiles]

end PersistenceServer

/-! ## Both processes -/

section Model

variable [Platform]

structure Servers where
  logic : LogicServer
  persis : PersistenceServer

namespace Servers

inductive Step
  | logic (a : LogicServer.Step)
  /-- The persistence server takes a block out of the channel and handles it. -/
  | persis
  /-- The persistence server cleans up. -/
  | clearUp
  /-- The persistence server dies and is started again. -/
  | restart

def step (s : Servers) : Step → Option Servers
  -- what is taken out of the channel is handled
  | .logic .drainPersis => none
  | .logic a => (s.logic.step a).map fun st => { s with logic := st }
  | .persis =>
    s.logic.queueToPersis.dequeue.bind fun r =>
      (s.persis.processPacket r.1).map fun p =>
        ⟨{ s.logic with queueToPersis := r.2 }, p⟩
  | .clearUp =>
    if s.persis.clearUpFile.1 = .returned then
      some { s with persis := s.persis.clearUpFile.2.server }
    else none
  | .restart => some { s with persis := s.persis.restart }

abbrev run : Servers → List Step → Option Servers := Runs.run step

/-- Before the first package. -/
def start (capConnect : Option Nat) (persis : PersistenceServer) : Servers :=
  ⟨LogicServer.start capConnect none, persis⟩

/-- Packages have whole names, no queue is made under the name of one that was lost, no counter of
durable messages passes the largest `int`, and no groups are to be merged. -/
def Usual (s : Servers) : Step → Prop
  | .logic a => LogicServer.WellNamed a ∧ LogicServer.WholeName a ∧ LogicServer.MakesNew s.logic a ∧
      ∀ st, s.logic.step a = some st → LogicServer.Counts st
  | .clearUp => ∀ b ∈ s.persis.msgQueueList.entries,
      ∀ p ∈ PersistenceServer.neighbours b.1 b.2, ¬ p.OverHalf s.persis.files
  | _ => True

/-- `OnDeleteQueue` drops a durable exchange without a packet. -/
def Forgets (s : Servers) : Step → Prop
  | .logic a => LogicServer.Forgets s.logic a
  | _ => False

variable {silent : Prop} {s s' : Servers}

/-! ## One step -/

section Steps

open LogicServer (Told told Deeds Removals Mirror)

omit [Platform] in
/-- A channel that takes everything has the packets at its end. -/
theorem sent_items {os : List Order} {f f' : ShmQueue.Fifo} (hcap : f.cap = none)
    (h : LogicServer.Sent os f f') :
    ∃ out, f'.items = f.items ++ out ∧ List.Forall₂ PersistenceServer.Carries out os := by
  induction os generalizing f with
  | nil =>
    cases h
    exact ⟨[], (List.append_nil _).symm, .nil⟩
  | cons o os ih =>
    obtain ⟨bs, hcarries, hrest⟩ := h
    have hfits : Fifo.Fits f.cap (Fifo.total ShmQueue.blockCost f.items + ShmQueue.blockCost bs) :=
      fun c hc => absurd (hcap.symm.trans hc) (by simp)
    obtain ⟨_, hcap', hitems⟩ := ShmQueue.Fifo.call_enqueue_of_fits hfits
    obtain ⟨out, hout, hall⟩ := ih (hcap'.trans hcap) hrest
    refine ⟨bs :: out, ?_, .cons hcarries hall⟩
    rw [hout, hitems, List.append_assoc]
    rfl

/-- The files follow what one process is told of. -/
def Following (silent : Prop) (v : Told) (persis : PersistenceServer) : Prop :=
  v.2.cap = none ∧ Follows PersistenceServer.Carries Order.apply (Mirror silent) v.1 v.2.items
    (metadata persis)

theorem Following.tell {v v' : Told} {persis : PersistenceServer} {os : List Order}
    (h : Following silent v persis) (hsent : LogicServer.Sent os v.2 v'.2)
    (hstep : ∀ f, Mirror silent v.1 f → Mirror silent v'.1 (os.foldl Order.apply f)) :
    Following silent v' persis := by
  obtain ⟨hcap, hfollows⟩ := h
  obtain ⟨out, hitems, hout⟩ := sent_items hcap hsent
  refine ⟨hsent.cap.trans hcap, ?_⟩
  rw [hitems]
  exact hfollows.tell hout hstep

theorem Following.deeds {st st' : LogicServer} {persis : PersistenceServer}
    (h : Following silent (told st) persis) (hdeeds : Deeds st st') :
    Following silent (told st') persis := by
  induction hdeeds with
  | refl => exact h
  | tail _ hlast ih =>
    obtain ⟨os, hchange, hsent⟩ := hlast.done
    exact ih.tell hsent fun f hf => hf.change hchange (not_not.mpr ih.1)

theorem Following.removals {v v' : Told} {persis : PersistenceServer}
    (h : Following silent v persis) (hremovals : Removals silent v v') :
    Following silent v' persis := by
  induction hremovals with
  | refl => exact h
  | tail _ hlast ih =>
    obtain ⟨os, hremoval, hsent⟩ := hlast
    exact ih.tell hsent fun f hf => hf.removal hremoval

/-- What holds before and after each step. -/
structure Invariant (silent : Prop) (s : Servers) : Prop where
  following : Following silent (told s.logic) s.persis
  regular : s.logic.Regular
  linked : s.logic.Linked
  counts : LogicServer.Counts s.logic
  orderly : Orderly s.persis

theorem Invariant.logic {a : LogicServer.Step} {st : LogicServer} (h : Invariant silent s)
    (husual : Usual s (.logic a)) (hforgets : LogicServer.Forgets s.logic a → silent)
    (hown : a ≠ .drainPersis) (hstep : s.logic.step a = some st) :
    Invariant silent { s with logic := st } := by
  obtain ⟨hnamed, hwhole, hnew, hcounts⟩ := husual
  have hcap : s.logic.queueToPersis.cap = none := h.following.1
  obtain ⟨hregular, hdone⟩ := LogicServer.step_told hcap h.regular h.linked hnamed hwhole hnew
    (hcounts st hstep) hown hforgets hstep
  have hlinked := (LogicServer.step_effects h.linked hstep).linked h.linked
  refine ⟨?_, hregular, hlinked, hcounts st hstep, h.orderly⟩
  rcases hdone with hdeeds | hremovals
  · exact h.following.deeds hdeeds
  · exact h.following.removals hremovals

/-- The oldest packet is handled, whatever it is. -/
theorem Invariant.persis (h : Invariant silent s) {bs : Bytes} {f : ShmQueue.Fifo}
    (hr : s.logic.queueToPersis.dequeue = some (bs, f)) :
    ∃ p, s.persis.processPacket bs = some p ∧
      Invariant silent ⟨{ s.logic with queueToPersis := f }, p⟩ := by
  obtain ⟨hcap, hfollows⟩ := h.following
  have hcap' := Fifo.BoundedFifo.dequeue_cap hr
  have hitems : s.logic.queueToPersis.items = bs :: f.items := Fifo.BoundedFifo.dequeue_some hr
  have hfollows' : Follows PersistenceServer.Carries Order.apply (Mirror silent) s.logic.memory
      (bs :: f.items) (metadata s.persis) := hitems ▸ hfollows
  obtain ⟨o, hcarries, hrest⟩ := hfollows'.taken
  obtain ⟨p, hrun, hobeys⟩ := PersistenceServer.processPacket_obeys h.orderly hcarries
  have hdrain : s.logic.step .drainPersis = some { s.logic with queueToPersis := f } := by
    show s.logic.queueToPersis.dequeue.map _ = _
    rw [hr]
    rfl
  have hlinked := (LogicServer.step_effects h.linked hdrain).linked h.linked
  refine ⟨p, hrun, ⟨hcap'.trans hcap, ?_⟩,
    ⟨h.regular.queues, h.regular.exchanges, h.regular.pending⟩, hlinked, h.counts,
    hobeys.orderly⟩
  rw [hobeys.written]
  exact hrest

theorem Invariant.restart (h : Invariant silent s) :
    Invariant silent { s with persis := s.persis.restart } := by
  obtain ⟨horderly, hsame⟩ := PersistenceServer.restart_orderly h.orderly
  refine ⟨⟨h.following.1, ?_⟩, h.regular, h.linked, h.counts, horderly⟩
  rw [hsame]
  exact h.following.2

theorem step_invariant {a : Step} (h : Invariant silent s) (husual : Usual s a)
    (hforgets : Forgets s a → silent) (hstep : step s a = some s') : Invariant silent s' := by
  cases a with
  | logic a =>
    by_cases hown : a = .drainPersis
    · subst hown
      cases hstep
    · have hrun : (s.logic.step a).map (fun st => { s with logic := st }) = some s' := by
        cases a <;> first | exact hstep | exact absurd rfl hown
      obtain ⟨st, hst, rfl⟩ := Option.map_eq_some_iff.mp hrun
      exact h.logic husual hforgets hown hst
  | persis =>
    obtain ⟨⟨bs, f⟩, hr, hrun⟩ := Option.bind_eq_some_iff.mp hstep
    obtain ⟨p, hp, hinv⟩ := h.persis hr
    dsimp only at hrun
    rw [hp] at hrun
    cases hrun
    exact hinv
  | clearUp =>
    rcases LogicServer.ite_eq_some hstep with ⟨_, hrun⟩ | ⟨_, hrun⟩
    · cases hrun
      have hsame : s.persis.clearUpFile.2.server = s.persis :=
        PersistenceServer.scanQueues_quiet husual
      rw [hsame]
      exact h
    · cases hrun
  | restart =>
    cases hstep
    exact h.restart

end Steps

/-! ## Runs -/

/-- No exchange goes without a packet. -/
def Remembers (s : Servers) (a : Step) : Prop := ¬ Forgets s a

theorem invariant_start {capConnect : Option Nat} {persis : PersistenceServer}
    (horderly : Orderly persis) (hempty : ∀ e, metadata persis e = none) :
    Invariant silent (start capConnect persis) := by
  have hregular : LogicServer.Regular (start capConnect persis).logic := by
    constructor
    · exact fun _ _ h => nomatch h
    · exact fun _ _ h => nomatch h
    · exact fun x hx => absurd hx List.not_mem_nil
  exact ⟨⟨rfl, [], .nil, LogicServer.mirror_start capConnect none hempty⟩, hregular,
    LogicServer.linked_start capConnect none, fun _ _ h => (nomatch h), horderly⟩

section Runs

variable {capConnect : Option Nat} {persis : PersistenceServer} {as : List Step}
  (horderly : Orderly persis) (hempty : ∀ e, metadata persis e = none)
  (husual : Runs.AllSteps step Usual (start capConnect persis) as)
  (hrun : run (start capConnect persis) as = some s)

include horderly hempty husual hrun

theorem invariant_of_run :
    Invariant (¬ Runs.AllSteps step Remembers (start capConnect persis) as) s := by
  by_cases hremembers : Runs.AllSteps step Remembers (start capConnect persis) as
  · exact Runs.invariant
      (fun _ _ _ hi hg hs => step_invariant hi hg.1 (fun hforgets => absurd hforgets hg.2) hs)
      (invariant_start horderly hempty) (Runs.allSteps_and husual hremembers) hrun
  · exact Runs.invariant (fun _ _ _ hi hg hs => step_invariant hi hg (fun _ => hremembers) hs)
      (invariant_start horderly hempty) husual hrun

/-- A logic server that starts when the channel is empty has every durable exchange, and the
durable queues to which a message was published. -/
theorem restart_of_run (hdrained : s.logic.queueToPersis.items = [])
    (hfew : ∀ id q, s.logic.queues id = some q → q.durable → LogicServer.FewSubscribers q) :
    (∀ fresh : LogicServer, fresh.subcribeQueues = ∅ → fresh.unSubcribeQueues = ∅ →
      ((fresh.onInitQueue s.persis.files).isSome ↔ ∀ id q, s.logic.queues id = some q →
        q.durable → q.durableIndex ≠ 0 → q.subscribeConsumers.length ≤ 247)) ∧
    ∀ st, s.logic.restart s.persis.files = some st → LogicServer.Restores
      (¬ Runs.AllSteps step Remembers (start capConnect persis) as) s.logic st := by
  have hinv := invariant_of_run horderly hempty husual hrun
  have hfollows := hinv.following.2
  have hitems : (LogicServer.told s.logic).2.items = [] := hdrained
  rw [hitems] at hfollows
  have hsettled : LogicServer.Settled
      (¬ Runs.AllSteps step Remembers (start capConnect persis) as) s.logic s.persis := by
    refine ⟨hfollows.drained, hinv.regular, hinv.orderly, hinv.counts, fun id q hq hd => ?_⟩
    obtain ⟨q₀, hq₀, rfl⟩ := Option.map_eq_some_iff.mp hq
    exact hfew id q₀ hq₀ hd
  refine ⟨fun fresh hsub hunsub => (hsettled.onInitQueue_isSome_iff ⟨hsub, hunsub⟩).trans ?_,
    fun st hst => hsettled.restart hst⟩
  constructor
  · intro hshort id q hq
    exact hshort id (LogicServer.outline q) (congrArg (Option.map LogicServer.outline) hq)
  · intro hshort id q hq
    obtain ⟨q₀, hq₀, rfl⟩ := Option.map_eq_some_iff.mp hq
    exact hshort id q₀ hq₀

end Runs

/-! ## A run -/

open LogicServer (WellNamed WholeName MakesNew Counts)

def MakesNewBelow (st : LogicServer) : LogicServer.Step → Prop
  | .package p => p.cmdId = cmdCreateQueue → ∀ n ∈ readName p.body 0,
      ∀ i < st.nextQueue, ∀ q ∈ st.queues i, q.queueName ≠ n
  | _ => True

instance (st : LogicServer) : (a : LogicServer.Step) → Decidable (MakesNewBelow st a)
  | .package p => inferInstanceAs (Decidable (_ → ∀ n ∈ readName p.body 0, _))
  | .pushMessage | .sendMultiAck | .drainConnect | .drainPersis | .rehash _ => isTrue trivial

def CountsBelow (st : LogicServer) : Prop :=
  ∀ i < st.nextQueue, ∀ q ∈ st.queues i, q.durable → q.durableIndex < 2 ^ 31

instance (st : LogicServer) : Decidable (CountsBelow st) := by
  unfold CountsBelow
  infer_instance

/-- `Usual`, with a look at the objects that were made. -/
def UsualBelow (s : Servers) : Step → Prop
  | .logic a => WellNamed a ∧ WholeName a ∧ MakesNewBelow s.logic a ∧
      ∀ st ∈ s.logic.step a, CountsBelow st
  | .clearUp => Usual s .clearUp
  | _ => True

instance (s : Servers) (a : Step) : Decidable (UsualBelow s a) := by
  cases a with
  | logic a => exact inferInstanceAs (Decidable (_ ∧ _ ∧ _ ∧ ∀ st ∈ s.logic.step a, _))
  | persis => exact isTrue trivial
  | clearUp => exact inferInstanceAs (Decidable (∀ b ∈ s.persis.msgQueueList.entries, _))
  | restart => exact isTrue trivial

theorem linked_step {a : Step} (h : s.logic.Linked) (hstep : step s a = some s') :
    s'.logic.Linked := by
  cases a with
  | logic a =>
    have hrun : (s.logic.step a).map (fun st => { s with logic := st }) = some s' := by
      cases a <;> first | exact hstep | cases hstep
    obtain ⟨st, hst, rfl⟩ := Option.map_eq_some_iff.mp hrun
    exact (LogicServer.step_effects h hst).linked h
  | persis =>
    obtain ⟨⟨bs, f⟩, _, hrun⟩ := Option.bind_eq_some_iff.mp hstep
    obtain ⟨p, _, rfl⟩ := Option.map_eq_some_iff.mp hrun
    exact ⟨h.unSubcribeQueues, h.subcribeQueues, h.exchanges, h.fresh⟩
  | clearUp =>
    rcases LogicServer.ite_eq_some hstep with ⟨_, hrun⟩ | ⟨_, hrun⟩
    · cases hrun
      exact h
    · cases hrun
  | restart =>
    cases hstep
    exact h

theorem usual_of_below {a : Step} (h : s.logic.Linked) (hbelow : UsualBelow s a) : Usual s a := by
  cases a with
  | logic a =>
    obtain ⟨hnamed, hwhole, hnew, hcounts⟩ := hbelow
    refine ⟨hnamed, hwhole, ?_, fun st hst i q hq => ?_⟩
    · cases a with
      | package p =>
        intro hcmd n hn _ _ i q hq
        exact hnew hcmd n hn i (h.fresh i (Option.isSome_of_eq_some hq)) q hq
      | _ => trivial
    · have hlinked := (LogicServer.step_effects h hst).linked h
      exact hcounts st hst i (hlinked.fresh i (Option.isSome_of_eq_some hq)) q hq
  | persis => trivial
  | clearUp => exact hbelow
  | restart => trivial

end Servers

end Model

namespace Servers

section Example

attribute [local instance] Platform.plain

/-- A durable queue is made, a message is published to it, someone subscribes, and the persistence
server takes the packets, cleans up and starts anew. -/
def madeAndKept : List Step :=
  [.logic (.makeQueue 1 true), .logic (.makeExchange 1), .persis, .logic (.makeBinding 1),
    .logic (.publish 12 true 0 1), .logic (.subscribe 1), .persis, .persis, .clearUp, .restart]

theorem usual_madeAndKept :
    Runs.AllSteps step Usual (start none { files := ∅ }) madeAndKept :=
  Runs.allSteps_imp (fun _ _ _ h hs => linked_step h hs) (fun _ _ h hb => usual_of_below h hb)
    (LogicServer.linked_start none none) (by decide +kernel)

theorem metadata_empty (e : PersistenceServer.Kind × Name) :
    metadata { files := ∅ } e = none := by
  have hdir := PersistenceServer.not_isDir_empty (e.1.base.child e.2) (Path.child_ne_nil _ _)
  exact congrArg (Option.map PersistenceServer.metadataOf) (folderAt_of_not_isDir hdir)

theorem restart_of_run_madeAndKept : ∃ s st, run (start none { files := ∅ }) madeAndKept = some s ∧
    s.logic.restart s.persis.files = some st ∧ LogicServer.Restores
      (¬ Runs.AllSteps step Remembers (start none { files := ∅ }) madeAndKept) s.logic st := by
  have hcheck : (run (start none { files := ∅ }) madeAndKept).map (fun s =>
      decide (s.logic.queueToPersis.items = [] ∧ (s.logic.restart s.persis.files).isSome ∧
        ∀ i < s.logic.nextQueue, ∀ q ∈ s.logic.queues i,
          4 + (LogicServer.subscribeBody q).length ≤ maxClintPackageLength)) = some true := by
    decide +kernel
  obtain ⟨s, hs, hcheck⟩ := Option.map_eq_some_iff.mp hcheck
  obtain ⟨hdrained, hrestart, hfew⟩ := of_decide_eq_true hcheck
  obtain ⟨st, hst⟩ := Option.isSome_iff_exists.mp hrestart
  have hlinked := Runs.invariant_of_step (fun _ _ _ h hs => linked_step h hs)
    (LogicServer.linked_start none none) hs
  exact ⟨s, st, hs, hst, (restart_of_run PersistenceServer.grouped_empty.orderly metadata_empty
    usual_madeAndKept hs hdrained fun id q hq _ =>
      hfew id (hlinked.fresh id (Option.isSome_of_eq_some hq)) q hq).2 st hst⟩

end Example

end Servers

end Wsmq
