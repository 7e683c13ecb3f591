import Mathlib.Data.Finset.Filter
import Mathlib.Data.Finset.Insert
import Wsmq.Exchange
import Wsmq.Lib.AssocTables
import Wsmq.Lib.Runs

/-!
# Bindings as a relation

`m_mBindingQueues` stands for the pairs of a key and a queue that were bound and not removed
since.  It does as long as no key is given a second queue: `CreateBinding` adds that one to a
copy of the list.
-/

namespace Wsmq.Exchange
open Lib Lib.ByteString

/-! ## Calls -/

inductive BindingCall
  | create (strBindingKey : Name) (msgQueue : QueueId)
  | delete (msgQueue : QueueId)

/-- An exchange and the pairs that were created and not removed since. -/
structure Bound where
  exchange : Exchange
  pairs : Finset (Name × QueueId)

/-- The pairs are a history variable: they do not depend on the exchange. -/
def bindingStep (b : Bound) : BindingCall → Option Bound
  | .create k id => some ⟨b.exchange.createBinding k id, insert (k, id) b.pairs⟩
  | .delete id =>
    some ⟨b.exchange.deleteBindingQueue id, b.pairs.filter fun p => p.2 ≠ id⟩

/-- An exchange without bindings. -/
def new (strExchangeName : Name) (iExchangeType : Nat) (bDurable bAutoDel : Bool) : Exchange :=
  ⟨strExchangeName, iExchangeType, bDurable, bAutoDel, ∅⟩

/-- The table holds the pairs, and is read so. -/
structure Represents (e : Exchange) (pairs : Finset (Name × QueueId)) : Prop where
  nonempty : ∀ k l, e.bindingQueues.lookup k = some l → l ≠ []
  nodup : ∀ k l, e.bindingQueues.lookup k = some l → l.Nodup
  mem_iff : ∀ k id, (∃ l, e.bindingQueues.lookup k = some l ∧ id ∈ l) ↔ (k, id) ∈ pairs
  find : e.exchangeType = exchangeTypeDirect → ∀ k id,
    id ∈ (e.findBindingQueue k).2 ↔ (k, id) ∈ pairs
  size : e.getBindingSize = 0 ↔ pairs = ∅

/-- No other queue is bound under the key. -/
def Sole (b : Bound) : BindingCall → Prop
  | .create k id => ∀ p ∈ b.pairs, p.1 = k → p.2 = id
  | .delete _ => True

instance (b : Bound) (a : BindingCall) : Decidable (Sole b a) := by
  cases a with
  | create k id => exact inferInstanceAs (Decidable (∀ p ∈ b.pairs, p.1 = k → p.2 = id))
  | delete id => exact isTrue trivial

/-- Under each key stands one queue. -/
def Single (e : Exchange) : Prop :=
  ∀ k l, e.bindingQueues.lookup k = some l → ∃ id, l = [id]

variable {e : Exchange} {pairs : Finset (Name × QueueId)} {k : Name} {id : QueueId}

/-! ## The table -/

theorem lookup_createBinding (e : Exchange) (k k' : Name) (id : QueueId) :
    (e.createBinding k id).bindingQueues.lookup k' =
      if k' = k ∧ k ∉ e.bindingQueues then some [id] else e.bindingQueues.lookup k' := by
  unfold createBinding
  split
  · next l hl =>
    have hin : k ∈ e.bindingQueues := AList.lookup_isSome.mp (Option.isSome_of_eq_some hl)
    rw [if_neg fun h => h.2 hin]
  · next hnone =>
    have hout : k ∉ e.bindingQueues := AList.lookup_eq_none.mp hnone
    by_cases hk : k' = k
    · subst hk
      rw [if_pos ⟨rfl, hout⟩]
      exact AList.lookup_insert _
    · rw [if_neg fun h => hk h.1]
      exact AList.lookup_insert_ne hk

theorem createBinding_single (h : Single e) (k : Name) (id : QueueId) :
    Single (e.createBinding k id) := by
  intro k' l hl
  rw [lookup_createBinding] at hl
  split at hl
  · cases hl
    exact ⟨id, rfl⟩
  · exact h k' l hl

/-- With one queue a key, the keys of that queue go. -/
theorem lookup_deleteBindingQueue (h : Single e) {k : Name} {l : List QueueId} :
    (e.deleteBindingQueue id).bindingQueues.lookup k = some l ↔
      e.bindingQueues.lookup k = some l ∧ id ∉ l := by
  have hentry : ∀ b ∈ e.bindingQueues.entries, b.2.filter (· ≠ id) = [] ↔ id ∈ b.2 := by
    intro b hb
    obtain ⟨id', hid'⟩ := h b.1 b.2 (AList.mem_lookup_iff.mpr hb)
    rw [hid', List.mem_singleton]
    by_cases hsame : id' = id
    · subst hsame
      simp
    · simp [hsame, Ne.symm hsame]
  constructor
  · intro hl
    obtain ⟨hold, hkept⟩ := AssocTables.lookup_foldl_erase
      (fun b => b.2.filter (· ≠ id) = []) e.bindingQueues.entries hl
    have hin := AList.mem_lookup_iff.mp hold
    exact ⟨hold, fun hid => hkept ⟨k, l⟩ hin rfl ((hentry ⟨k, l⟩ hin).mpr hid)⟩
  · rintro ⟨hold, hid⟩
    refine AssocTables.lookup_foldl_erase_of (fun b => b.2.filter (· ≠ id) = []) _ hold ?_
    rintro ⟨k', l'⟩ hb hk
    subst hk
    cases hold.symm.trans (AList.mem_lookup_iff.mpr hb)
    exact fun hgone => hid ((hentry _ hb).mp hgone)

theorem deleteBindingQueue_single (h : Single e) (id : QueueId) :
    Single (e.deleteBindingQueue id) := by
  intro k l hl
  exact h k l ((lookup_deleteBindingQueue h).mp hl).1

/-! ## What the table stands for -/

theorem find_direct (h : e.exchangeType = exchangeTypeDirect) (k : Name) (id : QueueId) :
    id ∈ (e.findBindingQueue k).2 ↔ ∃ l, e.bindingQueues.lookup k = some l ∧ id ∈ l := by
  unfold findBindingQueue
  rw [if_pos h]
  split
  · next hnone => simp [hnone]
  · next l hl => simp [hl]

/-- Two facts about the keys are enough. -/
theorem represents_of_single (h : Single e)
    (hmem : ∀ k id, (∃ l, e.bindingQueues.lookup k = some l ∧ id ∈ l) ↔ (k, id) ∈ pairs) :
    Represents e pairs := by
  refine ⟨fun k l hl => ?_, fun k l hl => ?_, hmem, fun hdirect k id => ?_, ?_⟩
  · obtain ⟨id, rfl⟩ := h k l hl
    exact List.cons_ne_nil _ _
  · obtain ⟨id, rfl⟩ := h k l hl
    exact List.nodup_singleton _
  · rw [find_direct hdirect, hmem]
  · rw [getBindingSize, AList.keys, List.keys, List.length_map, List.length_eq_zero_iff]
    constructor
    · intro hempty
      refine Finset.eq_empty_of_forall_notMem fun p hp => ?_
      obtain ⟨l, hl, _⟩ := (hmem p.1 p.2).mpr hp
      have hin := AList.mem_lookup_iff.mp hl
      rw [hempty] at hin
      cases hin
    · intro hempty
      refine List.eq_nil_iff_forall_not_mem.mpr fun b hb => ?_
      obtain ⟨id, hid⟩ := h b.1 b.2 (AList.mem_lookup_iff.mpr hb)
      have hin := (hmem b.1 id).mp ⟨b.2, AList.mem_lookup_iff.mpr hb, hid ▸ List.mem_singleton_self _⟩
      rw [hempty] at hin
      cases hin

/-- A second queue of the key is not in the table. -/
theorem createBinding_represents_iff (h : Single e) (hr : Represents e pairs) :
    (∀ p ∈ pairs, p.1 = k → p.2 = id) ↔
      Represents (e.createBinding k id) (insert (k, id) pairs) := by
  constructor
  · intro hsole
    refine represents_of_single (createBinding_single h k id) fun k' id' => ?_
    rw [lookup_createBinding, Finset.mem_insert, ← hr.mem_iff k' id', Prod.mk.injEq]
    by_cases hin : k ∈ e.bindingQueues
    · obtain ⟨l, hl⟩ := Option.isSome_iff_exists.mp (AList.lookup_isSome.mpr hin)
      have hbound : id ∈ l := by
        obtain ⟨id₀, rfl⟩ := h k l hl
        have hpair := (hr.mem_iff k id₀).mp ⟨_, hl, List.mem_singleton_self _⟩
        exact List.mem_singleton.mpr (hsole _ hpair rfl).symm
      rw [if_neg fun hk => hk.2 hin]
      refine ⟨Or.inr, ?_⟩
      rintro (⟨rfl, rfl⟩ | hold)
      · exact ⟨l, hl, hbound⟩
      · exact hold
    · by_cases hk : k' = k
      · subst hk
        rw [if_pos ⟨rfl, hin⟩, AList.lookup_eq_none.mpr hin]
        simp
      · rw [if_neg fun h => hk h.1]
        simp [hk]
  · rintro hnew ⟨k', id'⟩ hp rfl
    obtain ⟨l, hl, hid'⟩ := (hr.mem_iff k' id').mpr hp
    obtain ⟨l', hl', hid⟩ := (hnew.mem_iff k' id).mpr (Finset.mem_insert_self _ _)
    have hin : k' ∈ e.bindingQueues := AList.lookup_isSome.mp (Option.isSome_of_eq_some hl)
    rw [lookup_createBinding, if_neg fun hk => hk.2 hin, hl] at hl'
    cases hl'
    obtain ⟨id₀, rfl⟩ := h k' l hl
    rw [List.mem_singleton.mp hid', List.mem_singleton.mp hid]

theorem deleteBindingQueue_represents (h : Single e) (hr : Represents e pairs) :
    Represents (e.deleteBindingQueue id) (pairs.filter fun p => p.2 ≠ id) := by
  refine represents_of_single (deleteBindingQueue_single h id) fun k id' => ?_
  rw [Finset.mem_filter, ← hr.mem_iff k id']
  constructor
  · rintro ⟨l, hl, hid'⟩
    obtain ⟨hold, hid⟩ := (lookup_deleteBindingQueue h).mp hl
    refine ⟨⟨l, hold, hid'⟩, ?_⟩
    rintro rfl
    exact hid hid'
  · rintro ⟨⟨l, hl, hid'⟩, hne⟩
    refine ⟨l, (lookup_deleteBindingQueue h).mpr ⟨hl, fun hid => ?_⟩, hid'⟩
    obtain ⟨id₀, rfl⟩ := h k l hl
    exact hne ((List.mem_singleton.mp hid').trans (List.mem_singleton.mp hid).symm)

/-! ## Runs -/

variable {b b' : Bound}

theorem single_of_step {a : BindingCall} (h : Single b.exchange) (hstep : bindingStep b a = some b') :
    Single b'.exchange := by
  cases a with
  | create k id =>
    cases hstep
    exact createBinding_single h k id
  | delete id =>
    cases hstep
    exact deleteBindingQueue_single h id

/-- A call keeps the table right exactly when it gives no key a second queue. -/
theorem represents_of_step {a : BindingCall} (h : Single b.exchange)
    (hr : Represents b.exchange b.pairs) (hstep : bindingStep b a = some b') :
    Sole b a ↔ Represents b'.exchange b'.pairs := by
  cases a with
  | create k id =>
    cases hstep
    exact createBinding_represents_iff h hr
  | delete id =>
    cases hstep
    exact iff_of_true trivial (deleteBindingQueue_represents h hr)

theorem runs_total (b : Bound) (calls : List BindingCall) :
    ∃ b', Runs.run bindingStep b calls = some b' := by
  induction calls generalizing b with
  | nil => exact ⟨b, rfl⟩
  | cons a calls ih =>
    cases a with
    | create k id => exact ih ⟨b.exchange.createBinding k id, insert (k, id) b.pairs⟩
    | delete id =>
      exact ih ⟨b.exchange.deleteBindingQueue id, b.pairs.filter fun p => p.2 ≠ id⟩

/-- The table is right after every call exactly when no call gives a key a second queue. -/
theorem represents_throughout_iff (strExchangeName : Name) (iExchangeType : Nat)
    (bDurable bAutoDel : Bool) (calls : List BindingCall) :
    Runs.AllSteps bindingStep Sole ⟨new strExchangeName iExchangeType bDurable bAutoDel, ∅⟩ calls ↔
      ∀ pre post b, calls = pre ++ post →
        Runs.run bindingStep ⟨new strExchangeName iExchangeType bDurable bAutoDel, ∅⟩ pre = some b →
          Represents b.exchange b.pairs := by
  have hsingle : Single (new strExchangeName iExchangeType bDurable bAutoDel) :=
    fun k l hl => nomatch hl
  have hempty : Represents (new strExchangeName iExchangeType bDurable bAutoDel) ∅ := by
    refine represents_of_single hsingle fun k id => iff_of_false ?_ (Finset.notMem_empty _)
    rintro ⟨l, hl, _⟩
    cases hl
  obtain ⟨b', hrun⟩ :=
    runs_total ⟨new strExchangeName iExchangeType bDurable bAutoDel, ∅⟩ calls
  exact @Runs.allSteps_iff Bound BindingCall bindingStep Sole (fun b => Single b.exchange)
    (fun b => Represents b.exchange b.pairs) (fun _ _ _ hs h => single_of_step hs h)
    (fun _ _ _ hs hr h => represents_of_step hs hr h) _ _ _ hsingle hempty hrun

/-- Two queues are bound under "k"; the second is not found. -/
theorem second_queue_not_bound :
    ∃ b, Runs.run bindingStep ⟨new (ascii "e") exchangeTypeDirect false true, ∅⟩
        [.create (ascii "k") 0, .create (ascii "k") 1] = some b ∧
      (ascii "k", 1) ∈ b.pairs ∧ 1 ∉ (b.exchange.findBindingQueue (ascii "k")).2 ∧
        ¬ Represents b.exchange b.pairs := by
  refine ⟨_, rfl, by decide, by decide, fun h => ?_⟩
  exact absurd ((h.find rfl (ascii "k") 1).mpr (by decide)) (by decide)

end Wsmq.Exchange
