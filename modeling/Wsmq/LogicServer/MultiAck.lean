import Wsmq.LogicServer.Dedup

/-!
# Rounds of batch acknowledgements

The loop of `SendMultiAck` never moves its iterator.
-/

namespace Wsmq
open Lib Lib.ByteString Lib.Packing

namespace LogicServer

section Rounds

variable [Platform] {st st' : LogicServer}

/-- The loop with the iterator at the head of `itr`, for at most so many turns. -/
def multiAckLoop (itr : List (Σ _ : Int, Int)) : Nat → LogicServer → Option LogicServer
  | 0, _ => none
  | turns + 1, st =>
    match itr with
    | [] => some { st with producerLastMsgSeq := ∅ }
    | entry :: _ => multiAckLoop itr turns (st.sendMultiAckTurn entry)

/-- The channel once every client in the map has its acknowledgement; a full channel takes none. -/
def ackedOnce (queueToConnect : ShmQueue.Fifo) (entries : List (Σ _ : Int, Int)) :
    ShmQueue.Fifo :=
  entries.foldl (fun channel entry =>
    (channel.call (.enqueue (ServerAckMessage.getMessagePack
      { index := entry.1, ackSeq := entry.2 } zeroed maxServerPackageLength).sent)).2)
    queueToConnect

/-- The loop comes to its end, with one acknowledgement for each client and an empty map. -/
def AckRound (st : LogicServer) : Prop :=
  ∃ turns st', multiAckLoop st.producerLastMsgSeq.entries turns st = some st' ∧
    st'.queueToConnect = ackedOnce st.queueToConnect st.producerLastMsgSeq.entries ∧
      st'.producerLastMsgSeq = ∅

/-- The client has published with this number and asked for a batch acknowledgement. -/
def AsksBatch (as : List Step) (c s : Int) : Prop :=
  ∃ a ∈ as, ∃ p, a.publishOf = some (p, c) ∧ p.iMsgSeq = s ∧ p.confirmLevel = producerMutilAck

theorem multiAckLoop_spins (entry : Σ _ : Int, Int) (rest : List (Σ _ : Int, Int)) (turns : Nat)
    (st : LogicServer) : multiAckLoop (entry :: rest) turns st = none := by
  induction turns generalizing st with
  | zero => rfl
  | succ turns ih => exact ih (st.sendMultiAckTurn entry)

/-- `sendMultiAck` is what the loop comes to. -/
theorem sendMultiAck_eq_some : st.sendMultiAck = some st' ↔
    ∃ turns, multiAckLoop st.producerLastMsgSeq.entries turns st = some st' := by
  unfold sendMultiAck
  cases st.producerLastMsgSeq.entries with
  | nil =>
    rw [if_pos rfl]
    constructor
    · intro h
      exact ⟨1, h⟩
    · rintro ⟨turns, h⟩
      cases turns with
      | zero => cases h
      | succ turns => exact h
  | cons entry rest =>
    rw [if_neg (List.cons_ne_nil _ _)]
    constructor
    · intro h
      cases h
    · rintro ⟨turns, h⟩
      rw [multiAckLoop_spins] at h
      cases h

theorem ackRound_of_empty (h : st.producerLastMsgSeq.entries = []) : AckRound st := by
  refine ⟨1, { st with producerLastMsgSeq := ∅ }, ?_, ?_, rfl⟩
  · rw [h]
    rfl
  · rw [h]
    rfl

theorem empty_of_ackRound (h : AckRound st) : st.producerLastMsgSeq.entries = [] := by
  obtain ⟨turns, st', hloop, _⟩ := h
  have hsend : st.sendMultiAck = some st' := sendMultiAck_eq_some.mpr ⟨turns, hloop⟩
  unfold sendMultiAck at hsend
  exact (ite_eq_some hsend).elim And.left fun h => nomatch h.2

/-! ## Numbers in the map -/

theorem lookup_lastMsgSeq_confirmPublish (st : LogicServer) (p : Publish) (c x s : Int)
    (h : (st.confirmPublish p c).producerLastMsgSeq.lookup x = some s) :
    st.producerLastMsgSeq.lookup x = some s ∨
      x = c ∧ p.iMsgSeq = s ∧ p.confirmLevel = producerMutilAck := by
  have hinsert : ∀ (st : LogicServer) (key : Bytes),
      (st.insertMsgSeq key).producerLastMsgSeq = st.producerLastMsgSeq := fun st key => by
    unfold insertMsgSeq
    split
    · rfl
    · rfl
  unfold confirmPublish at h
  split at h
  · rw [hinsert] at h
    exact Or.inl h
  · split at h
    · next hlevel =>
      rw [hinsert] at h
      by_cases hx : x = c
      · subst hx
        refine Or.inr ⟨rfl, ?_, hlevel⟩
        rw [setLastMsgSeq, AList.lookup_insert] at h
        exact Option.some.inj h
      · rw [setLastMsgSeq, AList.lookup_insert_ne hx] at h
        exact Or.inl h
    · exact Or.inl h

/-- A number gets into the map by a publish of its client. -/
theorem lastMsgSeq_of_step {a : Step} (h : step st a = some st') {c s : Int}
    (hlast : st'.producerLastMsgSeq.lookup c = some s) :
    st.producerLastMsgSeq.lookup c = some s ∨
      ∃ p, a.publishOf = some (p, c) ∧ p.iMsgSeq = s ∧ p.confirmLevel = producerMutilAck := by
  have hview : ∀ st₁ : LogicServer, st'.producerView = st₁.producerView →
      st₁.producerLastMsgSeq.lookup c = some s := fun st₁ hv => by
    rw [← (Prod.mk.inj (Prod.mk.inj hv).2).1]
    exact hlast
  cases a with
  | package pk =>
    cases package_view h with
    | same hv => exact Or.inl (hview st hv)
    | exits _ hv =>
      have hpruned := hview (st.pruneMsgSeqs pk.clientIndex) hv
      exact Or.inl hpruned
    | publishes p o ha hpublish hreply =>
      have ho := hview o.server (by rw [hreply, view_reply])
      cases publish_result hpublish with
      | recognised => exact Or.inl ho
      | refused => exact Or.inl ho
      | stored st₁ _ _ _ hstore =>
        rcases lookup_lastMsgSeq_confirmPublish st₁ p _ c s ho with hold | ⟨rfl, hseq, hlevel⟩
        · rw [(storeMessages_view _ hstore).2.1] at hold
          exact Or.inl hold
        · exact Or.inr ⟨p, ha, hseq, hlevel⟩
  | pushMessage => exact Or.inl (hview st (view_pushMessage h))
  | sendMultiAck =>
    obtain ⟨_, h⟩ | ⟨_, h⟩ := ite_eq_some h
    · cases h
      cases hlast
    · cases h
  | drainConnect => exact Or.inl (hview st (view_drainConnect h))
  | drainPersis =>
    obtain ⟨r, _, rfl⟩ := Option.map_eq_some_iff.mp h
    exact Or.inl hlast
  | rehash t =>
    obtain ⟨hsame, h⟩ | ⟨_, h⟩ := ite_eq_some h
    · cases h
      refine Or.inl ?_
      rw [← AList.perm_lookup hsame.2.2.2.2.2]
      exact hlast
    · cases h

theorem lastMsgSeq_of_run (as : List Step) {st st' : LogicServer} (h : run st as = some st')
    {c s : Int} (hlast : st'.producerLastMsgSeq.lookup c = some s) :
    st.producerLastMsgSeq.lookup c = some s ∨ AsksBatch as c s := by
  induction as generalizing st with
  | nil =>
    cases h
    exact Or.inl hlast
  | cons a as ih =>
    obtain ⟨st₁, hstep, hrest⟩ := Runs.run_cons_some h
    rcases ih hrest with hlast₁ | ⟨b, hb, hask⟩
    · rcases lastMsgSeq_of_step hstep hlast₁ with hold | hask
      · exact Or.inl hold
      · exact Or.inr ⟨a, List.mem_cons_self, hask⟩
    · exact Or.inr ⟨b, List.mem_cons_of_mem _ hb, hask⟩

/-- A round goes through, with one acknowledgement for each client, exactly when no client
waits for one.  In every run the number that waits is one that the client has published. -/
theorem ackRounds :
    (∀ st : LogicServer, AckRound st ↔ st.producerLastMsgSeq.entries = []) ∧
    ∀ (capConnect capPersis : Option Nat) (as : List Step) (st : LogicServer),
      run (start capConnect capPersis) as = some st →
        ∀ c s, st.producerLastMsgSeq.lookup c = some s → AsksBatch as c s := by
  refine ⟨fun st => ⟨empty_of_ackRound, ackRound_of_empty⟩, ?_⟩
  intro capConnect capPersis as st hrun c s hlast
  rcases lastMsgSeq_of_run as hrun hlast with hstart | hask
  · cases hstart
  · exact hask

end Rounds

section Runs

attribute [local instance] Platform.plain

/-- Client 1 publishes a message to its queue and asks for a batch acknowledgement. -/
def batchPublish : List Step :=
  [.makeQueue 1 false, .makeExchange 1, .makeBinding 1, .publish 1 false 0 producerMutilAck]

theorem batchPublish_waits : ∃ st, run (start none none) batchPublish = some st ∧
    st.producerLastMsgSeq.entries = [⟨1, 0⟩] := by
  have hstate : (run (start none none) batchPublish).map
      (fun st => st.producerLastMsgSeq.entries) = some [⟨1, 0⟩] := by decide +kernel
  exact Option.map_eq_some_iff.mp hstate

theorem asksBatch_batchPublish : AsksBatch batchPublish 1 0 := by
  obtain ⟨st, hrun, hentries⟩ := batchPublish_waits
  refine ackRounds.2 none none batchPublish st hrun 1 0 ?_
  rw [AList.lookup, hentries]
  rfl

/-- The next round does not come to its end. -/
theorem round_spins : ∃ st, run (start none none) batchPublish = some st ∧ ¬ AckRound st := by
  obtain ⟨st, hrun, hentries⟩ := batchPublish_waits
  refine ⟨st, hrun, fun h => ?_⟩
  rw [empty_of_ackRound h] at hentries
  cases hentries

end Runs

end LogicServer

end Wsmq
