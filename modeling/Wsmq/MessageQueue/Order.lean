import Wsmq.MessageQueue

/-!
# The order in which a queue gives its messages

Seen from outside the two containers are one double-ended queue, out of which the messages with
a priority are taken first.
-/

namespace Wsmq
open Lib Lib.ByteString

namespace MessageQueue

inductive StoreCall
  | addMessage (pMsg : SeverStoreMessage)
  | addMessageFront (pMsg : SeverStoreMessage)
  | popFrontMsg

/-- The message that a call gives, and the queue after it. -/
def store [Platform] (q : MessageQueue) : StoreCall → Option SeverStoreMessage × MessageQueue
  | .addMessage pMsg => (none, q.addMessage pMsg)
  | .addMessageFront pMsg => (none, q.addMessageFront pMsg)
  | .popFrontMsg =>
    match q.popFrontMsg false with
    | none => (none, q)
    | some (pFrontMsg, q') => (some pFrontMsg, q')

/-- The calls with what they give, and the queue after them. -/
def storeAll [Platform] : List StoreCall → MessageQueue →
    List (StoreCall × Option SeverStoreMessage) × MessageQueue
  | [], q => ([], q)
  | call :: calls, q =>
    let r := q.store call
    let rest := storeAll calls r.2
    ((call, r.1) :: rest.1, rest.2)

/-! ## What a queue is for -/

section Deque

variable (P : Int)

/-- In a queue of priority `P` the message goes by its priority. -/
def Urgent (m : SeverStoreMessage) : Prop := P > 0 ∧ m.priority > 0

instance (m : SeverStoreMessage) : Decidable (Urgent P m) := inferInstanceAs (Decidable (_ ∧ _))

/-- The message as such a queue gives it. -/
def given (m : SeverStoreMessage) : SeverStoreMessage :=
  if Urgent P m then { m with priority := min m.priority P } else m

/-- A call on a double-ended queue with these messages, as they were added. -/
inductive Serves : List SeverStoreMessage → StoreCall → Option SeverStoreMessage →
    List SeverStoreMessage → Prop
  | back (l : List SeverStoreMessage) (m : SeverStoreMessage) :
      Serves l (.addMessage m) none (l ++ [m])
  | front (l : List SeverStoreMessage) (m : SeverStoreMessage) :
      Serves l (.addMessageFront m) none (m :: l)
  | empty : Serves [] .popFrontMsg none []
  | urgent (l l' : List SeverStoreMessage) (m : SeverStoreMessage) (hm : Urgent P m)
      (hmax : ∀ x ∈ l ++ m :: l', Urgent P x → min x.priority P ≤ min m.priority P) :
      Serves (l ++ m :: l') .popFrontMsg (some (given P m)) (l ++ l')
  | first (l : List SeverStoreMessage) (m : SeverStoreMessage) (hnone : ∀ x ∈ m :: l, ¬ Urgent P x) :
      Serves (m :: l) .popFrontMsg (some (given P m)) l

/-- Calls one after the other. -/
inductive ServesAll : List SeverStoreMessage → List (StoreCall × Option SeverStoreMessage) →
    List SeverStoreMessage → Prop
  | nil (l : List SeverStoreMessage) : ServesAll l [] l
  | cons {l l' l'' : List SeverStoreMessage} {call : StoreCall} {r : Option SeverStoreMessage}
      {rest : List (StoreCall × Option SeverStoreMessage)} (h : Serves P l call r l')
      (hrest : ServesAll l' rest l'') : ServesAll l ((call, r) :: rest) l''

/-- The message that a call adds. -/
def StoreCall.added : StoreCall → Option SeverStoreMessage
  | .addMessage m => some m
  | .addMessageFront m => some m
  | .popFrontMsg => none

variable {P : Int} {l l' : List SeverStoreMessage}

theorem Serves.conserves {call : StoreCall} {r : Option SeverStoreMessage}
    (h : Serves P l call r l') :
    ((call.added.toList ++ l).map (given P)).Perm (r.toList ++ l'.map (given P)) := by
  cases h with
  | back l m => exact (List.perm_append_singleton m l).symm.map _
  | front l m => exact .refl _
  | empty => exact .refl _
  | urgent l l' m => exact List.perm_middle.map (given P)
  | first l m => exact .refl _

/-- What was added has been popped, or is stored. -/
theorem ServesAll.conserves {trace : List (StoreCall × Option SeverStoreMessage)}
    (h : ServesAll P l trace l') :
    (((trace.filterMap fun x => x.1.added) ++ l).map (given P)).Perm
      (trace.filterMap (fun x => x.2) ++ l'.map (given P)) := by
  induction h with
  | nil l => exact .refl _
  | cons hone _ ih =>
    next l l₁ l₂ call r rest _ =>
    have hadded : ((call, r) :: rest).filterMap (fun x => x.1.added) =
        call.added.toList ++ rest.filterMap fun x => x.1.added := by
      cases call <;> rfl
    have hpopped : ((call, r) :: rest).filterMap (fun x => x.2) =
        r.toList ++ rest.filterMap fun x => x.2 := by
      cases r <;> rfl
    rw [hadded, hpopped]
    have hstep := hone.conserves
    rw [List.map_append] at hstep ih ⊢
    rw [List.map_append, List.append_assoc, List.append_assoc]
    -- the messages added later go to the front, and come back once this call is counted
    refine (List.perm_append_comm_assoc _ _ _).trans ((hstep.append_left _).trans ?_)
    exact (List.perm_append_comm_assoc _ _ _).trans (ih.append_left _)

end Deque

theorem given_of_not {P : Int} {m : SeverStoreMessage} (h : ¬ Urgent P m) : given P m = m :=
  if_neg h

theorem priority_given {P : Int} {m : SeverStoreMessage} (h : Urgent P m) :
    (given P m).priority = min m.priority P := by
  rw [given, if_pos h]

section Queue

variable [Platform] {P : Int} {q : MessageQueue} {l : List SeverStoreMessage}

/-- The queue stores these messages: urgent ones in the heap, the others in the list. -/
structure Stores (P : Int) (q : MessageQueue) (l : List SeverStoreMessage) : Prop where
  priority : q.priority = P
  list : q.messagesList = l.filter fun m => ¬ Urgent P m
  heap : q.msgPriQueue.items.Perm ((l.filter fun m => Urgent P m).map (given P))

theorem limited_eq {m : SeverStoreMessage} (h : Urgent q.priority m) :
    q.limited m = given q.priority m := by
  rw [given, if_pos h, limited]
  split
  · next hlt => rw [Int.min_eq_right (by omega)]
  · next hle => rw [Int.min_eq_left (by omega)]

theorem Stores.messages (h : Stores P q l) : q.messages.Perm (l.map (given P)) := by
  have hplain : (l.filter fun m => ¬ Urgent P m).map (given P) = l.filter fun m => ¬ Urgent P m := by
    have hsame : ∀ m ∈ l.filter fun m => ¬ Urgent P m, given P m = id m := fun m hm =>
      given_of_not (of_decide_eq_true (List.mem_filter.mp hm).2)
    exact (List.map_congr_left hsame).trans (List.map_id _)
  have hsplit := (List.filter_append_perm (fun m => decide (Urgent P m)) l).map (given P)
  simp only [List.map_append, ← decide_not] at hsplit
  rw [hplain] at hsplit
  rw [MessageQueue.messages, h.list]
  exact (h.heap.append_right _).trans hsplit

theorem addMessage_urgent {m : SeverStoreMessage} (h : Urgent q.priority m) :
    q.addMessage m = { q with msgPriQueue := q.msgPriQueue.push (given q.priority m) } := by
  rw [← limited_eq h]
  exact if_pos h

theorem addMessageFront_urgent {m : SeverStoreMessage} (h : Urgent q.priority m) :
    q.addMessageFront m = { q with msgPriQueue := q.msgPriQueue.push (given q.priority m) } := by
  rw [← limited_eq h]
  exact if_pos h

theorem Stores.addMessage (h : Stores P q l) (m : SeverStoreMessage) :
    Stores P (q.addMessage m) (l ++ [m]) := by
  obtain ⟨rfl, hlist, hheap⟩ := h
  by_cases hm : Urgent q.priority m
  · rw [addMessage_urgent hm]
    refine ⟨rfl, ?_, ?_⟩
    · rw [List.filter_append, List.filter_cons_of_neg (by simpa using hm), List.filter_nil,
        List.append_nil]
      exact hlist
    · rw [List.filter_append, List.filter_cons_of_pos (by simpa using hm), List.filter_nil,
        List.map_append]
      refine (MsgHeap.items_push _ _).trans ((hheap.cons _).trans ?_)
      exact (List.perm_append_singleton _ _).symm
  · have hadd : q.addMessage m = { q with messagesList := q.messagesList ++ [m] } := if_neg hm
    rw [hadd]
    refine ⟨rfl, ?_, ?_⟩
    · rw [List.filter_append, List.filter_cons_of_pos (by simpa using hm), List.filter_nil]
      exact congrArg (· ++ [m]) hlist
    · rw [List.filter_append, List.filter_cons_of_neg (by simpa using hm), List.filter_nil,
        List.append_nil]
      exact hheap

theorem Stores.addMessageFront (h : Stores P q l) (m : SeverStoreMessage) :
    Stores P (q.addMessageFront m) (m :: l) := by
  obtain ⟨rfl, hlist, hheap⟩ := h
  by_cases hm : Urgent q.priority m
  · rw [addMessageFront_urgent hm]
    refine ⟨rfl, ?_, ?_⟩
    · rw [List.filter_cons_of_neg (by simpa using hm)]
      exact hlist
    · rw [List.filter_cons_of_pos (by simpa using hm), List.map_cons]
      exact (MsgHeap.items_push _ _).trans (hheap.cons _)
  · have hadd : q.addMessageFront m = { q with messagesList := m :: q.messagesList } := if_neg hm
    rw [hadd]
    refine ⟨rfl, ?_, ?_⟩
    · rw [List.filter_cons_of_pos (by simpa using hm)]
      exact congrArg (m :: ·) hlist
    · rw [List.filter_cons_of_neg (by simpa using hm)]
      exact hheap

/-- The queue gives what the double-ended queue may give. -/
theorem Stores.popFrontMsg (h : Stores P q l) :
    ∃ l', Serves P l .popFrontMsg (q.store .popFrontMsg).1 l' ∧
      Stores P (q.store .popFrontMsg).2 l' := by
  obtain ⟨rfl, hlist, hheap⟩ := h
  simp only [store, popFrontMsg_false, takeFront]
  cases hpop : q.msgPriQueue.pop with
  | some r =>
    obtain ⟨x, heap⟩ := r
    obtain ⟨hperm, hmax⟩ := Platform.msgHeap.pop_some hpop
    have hx : x ∈ (l.filter fun m => Urgent q.priority m).map (given q.priority) :=
      hheap.mem_iff.mp (hperm.mem_iff.mpr List.mem_cons_self)
    obtain ⟨m, hm, rfl⟩ := List.mem_map.mp hx
    obtain ⟨hin, hurgent⟩ := List.mem_filter.mp hm
    have hurgent := of_decide_eq_true hurgent
    obtain ⟨a, b, rfl⟩ := List.append_of_mem hin
    refine ⟨a ++ b, .urgent a b m hurgent fun y hy hyu => ?_, rfl, ?_, ?_⟩
    · have hle := hmax (given q.priority y)
        (hheap.mem_iff.mpr (List.mem_map_of_mem (List.mem_filter.mpr ⟨hy, decide_eq_true hyu⟩)))
      rwa [priority_given hyu, priority_given hurgent] at hle
    · rw [List.filter_append, List.filter_cons_of_neg (by simpa using hurgent),
        ← List.filter_append] at hlist
      exact hlist
    · rw [List.filter_append, List.filter_cons_of_pos (by simpa using hurgent)] at hheap
      rw [List.filter_append]
      have hmiddle := hheap.trans (List.perm_middle.map (given q.priority))
      exact (hperm.symm.trans hmiddle).cons_inv
  | none =>
    have hnil := MsgHeap.pop_none hpop
    rw [hnil] at hheap
    have hnone : ∀ x ∈ l, ¬ Urgent q.priority x := by
      intro x hx hurgent
      have hin : x ∈ l.filter fun m => Urgent q.priority m :=
        List.mem_filter.mpr ⟨hx, decide_eq_true hurgent⟩
      exact List.not_mem_nil (hheap.mem_iff.mpr (List.mem_map_of_mem hin))
    have hall : (l.filter fun m => ¬ Urgent q.priority m) = l :=
      List.filter_eq_self.mpr fun x hx => decide_eq_true (hnone x hx)
    rw [hall] at hlist
    subst hlist
    cases hline : q.messagesList with
    | nil => exact ⟨[], .empty, rfl, hline, by rw [hnil]; exact .refl _⟩
    | cons m rest =>
      rw [hline] at hnone
      have hserves := Serves.first rest m hnone
      rw [given_of_not (hnone m List.mem_cons_self)] at hserves
      have hrest : ∀ x ∈ rest, ¬ Urgent q.priority x := fun x hx =>
        hnone x (List.mem_cons_of_mem m hx)
      refine ⟨rest, hserves, rfl, ?_, ?_⟩
      · exact (List.filter_eq_self.mpr fun x hx => decide_eq_true (hrest x hx)).symm
      · have hno : (rest.filter fun m => Urgent q.priority m) = [] :=
          List.filter_eq_nil_iff.mpr fun x hx => by simpa using hrest x hx
        rw [hnil, hno]
        exact .refl _

theorem Stores.store (h : Stores P q l) (call : StoreCall) :
    ∃ l', Serves P l call (q.store call).1 l' ∧ Stores P (q.store call).2 l' := by
  cases call with
  | addMessage m => exact ⟨l ++ [m], .back l m, h.addMessage m⟩
  | addMessageFront m => exact ⟨m :: l, .front l m, h.addMessageFront m⟩
  | popFrontMsg => exact h.popFrontMsg

theorem Stores.storeAll (calls : List StoreCall) {q : MessageQueue} {l : List SeverStoreMessage}
    (h : Stores P q l) :
    ∃ l', ServesAll P l (MessageQueue.storeAll calls q).1 l' ∧
      Stores P (MessageQueue.storeAll calls q).2 l' := by
  induction calls generalizing q l with
  | nil => exact ⟨l, .nil l, h⟩
  | cons call calls ih =>
    obtain ⟨l₁, hone, h₁⟩ := h.store call
    obtain ⟨l', hrest, h'⟩ := ih h₁
    exact ⟨l', .cons hone hrest, h'⟩

theorem calls_storeAll (calls : List StoreCall) (q : MessageQueue) :
    (MessageQueue.storeAll calls q).1.map Prod.fst = calls := by
  induction calls generalizing q with
  | nil => rfl
  | cons call calls ih => exact congrArg (call :: ·) (ih _)

/-- The constructor. -/
def make (strName : Name) (iPriority : Int) (bDurable bAutoDel : Bool) : MessageQueue where
  queueName := strName
  priority := iPriority
  durable := bDurable
  autoDel := bAutoDel

/-- A new queue of any priority serves like a double-ended queue, gives each message that was
added once or stores it, and gives nothing else. -/
theorem storeAll_serves (n : Name) (P : Int) (b a : Bool) (calls : List StoreCall) :
    ∃ l, ServesAll P [] (storeAll calls (make n P b a)).1 l ∧
      (storeAll calls (make n P b a)).2.messages.Perm (l.map (given P)) ∧
      ((calls.filterMap StoreCall.added).map (given P)).Perm
        ((storeAll calls (make n P b a)).1.filterMap (fun x => x.2) ++ l.map (given P)) := by
  have hstart : Stores P (make n P b a) [] :=
    ⟨rfl, rfl, by rw [make, MsgHeap.items_empty]; exact .refl _⟩
  obtain ⟨l, hserves, hstores⟩ := hstart.storeAll calls
  refine ⟨l, hserves, hstores.messages, ?_⟩
  have hconserves := hserves.conserves
  have hadded : (storeAll calls (make n P b a)).1.filterMap (fun x => x.1.added) =
      calls.filterMap StoreCall.added := by
    rw [← calls_storeAll calls (make n P b a), List.filterMap_map, calls_storeAll]
    rfl
  rw [List.append_nil, hadded] at hconserves
  exact hconserves

end Queue

end MessageQueue

end Wsmq
