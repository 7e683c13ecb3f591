import Wsmq.Client.Calls
import Wsmq.LogicServer.SentMessages

/-!
# Which messages a consumer takes for repeats

A consumer remembers the numbers of the messages that it has got with a level.  No number comes
twice, so it never throws a message away, unless the number -1 comes with a level.
-/

namespace Wsmq
open Lib Lib.ByteString Lib.Packing LogicServer

/-- The message packages that a `Consumer` takes in the course of its life, and the results of
the calls that have taken them.  What happens in between leaves the remembered numbers alone. -/
inductive Receives : Consumer → List Bytes → List Consumer.Taken → Prop
  | nil (c : Consumer) : Receives c [] []
  | other {c c' : Consumer} {packs : List Bytes} {ts : List Consumer.Taken}
      (hsame : c'.seqSet = c.seqSet) (hrest : Receives c' packs ts) : Receives c packs ts
  | consumeMessage {c : Consumer} {rets : List RecvRet} {sendOk : Bool} {opBuffer : Mem}
      {iopLen : Int} {t : Consumer.Taken} {pack : Bytes} {packs : List Bytes}
      {ts : List Consumer.Taken} (hbuild : c.bBuild = true) (halive : Alive rets)
      (hnext : pack <+: c.window ++ arriving rets)
      (ht : c.consumeMessage rets sendOk opBuffer iopLen = some t)
      (hrest : Receives t.consumer packs ts) : Receives c (pack :: packs) (t :: ts)
  | recvMessage {c : Consumer} {n : Name} {l : Nat} {rets : List RecvRet} {ackOk : Bool}
      {opBuffer : Mem} {iopLen : Int} {t : Consumer.Taken} {pack : Bytes} {packs : List Bytes}
      {ts : List Consumer.Taken} (hbuild : c.bBuild = true)
      (hpacks : (Call.recvMessage n l).Packs) (halive : Alive rets)
      (hnext : pack <+: c.window ++ arriving rets)
      (ht : c.recvMessage n l rets true ackOk opBuffer iopLen = some t)
      (hrest : Receives t.consumer packs ts) : Receives c (pack :: packs) (t :: ts)

section

variable {c : Consumer} {rets : List RecvRet} {ok : Bool} {opBuffer : Mem} {iopLen : Int}
  {t : Consumer.Taken} {pack : Bytes} {packs : List Bytes} {ts : List Consumer.Taken}
  {level lo hi : Nat} {seq : Int}

theorem IsMessage.consumed (h : IsMessage pack level seq) (hbuild : c.bBuild = true)
    (halive : Alive rets) (hnext : pack <+: c.window ++ arriving rets)
    (ht : c.consumeMessage rets ok opBuffer iopLen = some t) :
    Consumer.Took c rets pack level seq t := by
  obtain ⟨iCmdId, body, -, hpack⟩ := h.pack
  obtain ⟨t', ht', -, htook, -⟩ := @Consumer.consumeMessage_arrives level seq iopLen body pack
    iCmdId ok opBuffer rets c hbuild h.level_lt h.seq_fits hpack halive hnext
  cases ht.symm.trans ht'
  exact htook

theorem IsMessage.pulled {n : Name} {l : Nat} (h : IsMessage pack level seq)
    (hbuild : c.bBuild = true) (hpacks : (Call.recvMessage n l).Packs) (halive : Alive rets)
    (hnext : pack <+: c.window ++ arriving rets)
    (ht : c.recvMessage n l rets true ok opBuffer iopLen = some t) :
    Consumer.Took c rets pack level seq t := by
  obtain ⟨iCmdId, body, hcmd, hpack⟩ := h.pack
  have hreply : iCmdId ≠ cmdServerReplyMessage := by
    rcases hcmd with rfl | rfl <;> decide
  obtain ⟨t', ht', -, htook, -⟩ := @Consumer.recvMessage_arrives level seq iopLen body pack
    iCmdId ok opBuffer rets c n l hbuild hpacks h.level_lt h.seq_fits hpack hreply halive hnext
  cases ht.symm.trans ht'
  exact htook

/-- The remembered numbers were given before the number `lo`. -/
def Remembers (c : Consumer) (lo : Nat) : Prop := ∀ k ∈ c.seqSet, ∃ j < lo, k = seqOf j

theorem Remembers.mono {lo' : Nat} (h : Remembers c lo) (hle : lo ≤ lo') : Remembers c lo' := by
  intro k hk
  obtain ⟨j, hj, hk'⟩ := h k hk
  exact ⟨j, Nat.lt_of_lt_of_le hj hle, hk'⟩

theorem seqOf_ne_neg_one {j : Nat} (h : j < 2 ^ 31) : seqOf j ≠ -1 := by
  unfold seqOf
  rw [Nat.mod_eq_of_lt (by omega), Int.bmod_eq_of_le (by omega) (by omega)]
  omega

/-- One message: it is new, and what is remembered later was given before the number `lo'`. -/
theorem Consumer.Took.no_repeat (h : Consumer.Took c rets pack level seq t) (hc : Remembers c lo)
    (hnew : ∀ j < lo, seq ≠ seqOf j) {lo' : Nat} (hle : lo ≤ lo')
    (hseq : 0 < level → ∃ j < lo', seq = seqOf j) :
    t.bRepeat = false ∧ Remembers t.consumer lo' := by
  constructor
  · by_contra hrepeat
    obtain ⟨j, hj, hsame⟩ := hc seq (h.isRepeat (by simpa using hrepeat))
    exact hnew j hj hsame
  · intro k hk
    rcases h.seqSet k hk with hold | ⟨rfl, hlevel⟩
    · exact (hc.mono hle) k hold
    · exact hseq hlevel

/-- A package is next that was sent as the rest of `Emitted` says; the call takes it. -/
theorem Emitted.took (h : Emitted lo hi (pack :: packs)) (hhi : hi ≤ 2 ^ 31)
    (hmsg : CarriesMessage pack) (hc : Remembers c lo)
    (htook : ∀ level seq, IsMessage pack level seq → Consumer.Took c rets pack level seq t) :
    t.bRepeat = false ∧ ∃ lo', Remembers t.consumer lo' ∧ Emitted lo' hi packs := by
  cases h with
  | other hother _ => exact absurd hmsg hother
  | unnumbered hpack hrest =>
    have hle := hrest.le
    obtain ⟨hnew, hc'⟩ := (htook 0 (-1) hpack).no_repeat hc
      (fun j hj => (seqOf_ne_neg_one (by omega)).symm) (Nat.le_refl lo)
      (fun h => absurd h (Nat.lt_irrefl 0))
    exact ⟨hnew, lo, hc', hrest⟩
  | @numbered _ k _ level _ _ hk hpack hrest =>
    have hle := hrest.le
    have hfresh : ∀ j < lo, seqOf k ≠ seqOf j := by
      intro j hj hsame
      have := seqOf_inj (by omega) (by omega) hsame
      omega
    obtain ⟨hnew, hc'⟩ := (htook level (seqOf k) hpack).no_repeat hc hfresh
      (Nat.le_succ_of_le hk) (fun _ => ⟨k, Nat.lt_succ_self k, rfl⟩)
    exact ⟨hnew, k + 1, hc', hrest⟩

theorem Receives.no_repeat (h : Receives c packs ts) (hemitted : Emitted lo hi packs)
    (hhi : hi ≤ 2 ^ 31) (hmsg : ∀ pack ∈ packs, CarriesMessage pack) (hc : Remembers c lo) :
    ∀ t ∈ ts, t.bRepeat = false := by
  induction h generalizing lo with
  | nil c => exact fun t ht => nomatch ht
  | other hsame hrest ih =>
    apply ih hemitted hmsg
    intro k hk
    exact hc k (hsame ▸ hk)
  | consumeMessage hbuild halive hnext ht hrest ih =>
    obtain ⟨hnew, lo', hc', hemitted'⟩ := hemitted.took hhi (hmsg _ List.mem_cons_self) hc
      fun level seq hpack => hpack.consumed hbuild halive hnext ht
    intro t' ht'
    rcases List.mem_cons.mp ht' with rfl | ht'
    · exact hnew
    · exact ih hemitted' (fun p hp => hmsg p (List.mem_cons_of_mem _ hp)) hc' t' ht'
  | recvMessage hbuild hpacks halive hnext ht hrest ih =>
    obtain ⟨hnew, lo', hc', hemitted'⟩ := hemitted.took hhi (hmsg _ List.mem_cons_self) hc
      fun level seq hpack => hpack.pulled hbuild hpacks halive hnext ht
    intro t' ht'
    rcases List.mem_cons.mp ht' with rfl | ht'
    · exact hnew
    · exact ih hemitted' (fun p hp => hmsg p (List.mem_cons_of_mem _ hp)) hc' t' ht'

end

section

variable [Platform]

/-- As long as all that goes out without a number has no level, each package without a number has
level 0, and no consumer reports a repeat, whichever of the messages it gets. -/
theorem no_message_discarded {capPersis : Option Nat} {as : List Step} {st : LogicServer}
    {c : Consumer} {packs : List Bytes} {ts : List Consumer.Taken}
    (hrun : LogicServer.run (start none capPersis) as = some st)
    (hdrawn : (start none capPersis).drawnDuring as < 2 ^ 31)
    (hfresh : Runs.AllSteps LogicServer.step SendsFresh (start none capPersis) as)
    (hpacks : packs.Sublist ((start none capPersis).sentDuring as))
    (hmsg : ∀ pack ∈ packs, CarriesMessage pack) (hc : c.seqSet = [])
    (hreceives : Receives c packs ts) :
    (∀ pack ∈ (start none capPersis).sentDuring as, CarriesMessage pack → packSeq pack = -1 →
      packLevel pack = 0) ∧ ∀ t ∈ ts, t.bRepeat = false := by
  have hemitted := emitted_from_start hfresh hrun
  constructor
  · intro pack hpack hcarries hseq
    obtain ⟨level, seq, hmessage, hnumber⟩ := hemitted.mem hpack hcarries
    rw [hmessage.packSeq_eq] at hseq
    rw [hmessage.packLevel_eq]
    rcases hnumber with ⟨hlevel, _⟩ | ⟨k, _, hk, hnumber⟩
    · exact hlevel
    · rw [hnumber] at hseq
      exact absurd hseq (seqOf_ne_neg_one (Nat.lt_trans hk hdrawn))
  · refine hreceives.no_repeat (hemitted.sublist hpacks) (by omega) hmsg ?_
    intro k hk
    rw [hc] at hk
    cases hk

end

section Runs

attribute [local instance] Platform.plain

/-- Client 12 pulls a message without a level and subscribes, and two more are pushed to it. -/
def pulledAndPushed : List Step :=
  [.makeQueue 3 false, .makeExchange 3, .makeBinding 3, .publish 3 false 0 0,
    .publish 3 false 0 0, .publish 3 false 0 0,
    .package (.ofBody cmdCreateRecv 12 (image [writeName (ascii "q"), writeByte 0]) (by decide)),
    .subscribe 12, .pushMessage]

def messagePackage (iCmdId confirmLevel : Nat) (msgSeq : Int) : Bytes :=
  image (packHead 18 12 iCmdId) ++ messageData confirmLevel msgSeq (ascii "hello")

/-- The packages with the messages. -/
def arrived : List Bytes :=
  [messagePackage cmdClientPullMessage 0 (-1), messagePackage cmdServerPushMessage 1 0,
    messagePackage cmdServerPushMessage 1 1]

def waiting : Consumer := { window := arrived.flatten }

theorem no_message_discarded_three :
    ∃ t₁ t₂ t₃, waiting.consumeMessage [] true zeroed 0 = some t₁ ∧
      t₁.consumer.consumeMessage [] true zeroed 0 = some t₂ ∧
      t₂.consumer.consumeMessage [] true zeroed 0 = some t₃ ∧
      arrived.Sublist ((start none none).sentDuring pulledAndPushed) ∧
      ∀ t ∈ [t₁, t₂, t₃], t.bRepeat = false := by
  have hcheck : ((waiting.consumeMessage [] true zeroed 0).bind fun t₁ =>
      (t₁.consumer.consumeMessage [] true zeroed 0).bind fun t₂ =>
        (t₂.consumer.consumeMessage [] true zeroed 0).map fun _ =>
          decide (t₁.consumer.bBuild = true ∧ t₂.consumer.bBuild = true ∧
            t₁.consumer.window = (arrived.drop 1).flatten ∧
            t₂.consumer.window = (arrived.drop 2).flatten)) = some true := by decide +kernel
  obtain ⟨t₁, ht₁, hcheck⟩ := Option.bind_eq_some_iff.mp hcheck
  obtain ⟨t₂, ht₂, hcheck⟩ := Option.bind_eq_some_iff.mp hcheck
  obtain ⟨t₃, ht₃, hcheck⟩ := Option.map_eq_some_iff.mp hcheck
  obtain ⟨hbuild₁, hbuild₂, hwindow₁, hwindow₂⟩ := of_decide_eq_true hcheck
  have hrun : (run (start none none) pulledAndPushed).isSome = true := by decide +kernel
  obtain ⟨st, hst⟩ := Option.isSome_iff_exists.mp hrun
  have hsub : arrived.Sublist ((start none none).sentDuring pulledAndPushed) := by decide +kernel
  have hcarries : ∀ pack ∈ arrived, CarriesMessage pack := by
    unfold CarriesMessage
    decide +kernel
  have halive : Alive [] := fun _ h => nomatch h
  have hreceives : Receives waiting arrived [t₁, t₂, t₃] := by
    refine .consumeMessage rfl halive (List.prefix_append _ _) ht₁
      (.consumeMessage hbuild₁ halive ?_ ht₂ (.consumeMessage hbuild₂ halive ?_ ht₃ (.nil _)))
    · rw [hwindow₁]
      exact List.prefix_append _ _
    · rw [hwindow₂]
      exact List.prefix_append _ _
  exact ⟨t₁, t₂, t₃, ht₁, ht₂, ht₃, hsub, (no_message_discarded hst (by decide +kernel)
    (by decide +kernel) hsub hcarries rfl hreceives).2⟩

/-- Two messages go to client 12, which leaves, and then to client 13, which has subscribed
without acknowledgements. -/
def leftBehind : List Step :=
  [.makeQueue 3 false, .makeExchange 3, .makeBinding 3, .publish 3 false 0 0,
    .package (.ofBody cmdCreatePublish 3 (image [writeName (ascii "e"), writeName (ascii "k"),
      writeShort (-1), writeBool false, writeInt 0, writeByte 0, writeBody (ascii "world")])
      (by decide)),
    .subscribe 12, .pushMessage, .exit 12,
    .package (.ofBody cmdCreateSubcribe 13 (image [writeName (ascii "q"), writeByte 0])
      (by decide)),
    .pushMessage]

/-- Both come with the number -1 and the level 1, and the second is taken for the first. -/
theorem unseen_message_discarded :
    ∃ st ts c' rets', run (start none none) leftBehind = some st ∧
      (start none none).drawnDuring leftBehind < 2 ^ 31 ∧
      (∃ pack ∈ (start none none).sentDuring leftBehind, packSeq pack = -1 ∧ packLevel pack = 1) ∧
      Consumer.makeAll [(.request (.createSubscribe (ascii "q") 0), zeroed, 0),
          (.consumeMessage, zeroed, 0), (.consumeMessage, zeroed, 0)] {}
        [.recvd (onConnection st 13).flatten] = some (ts, c', rets') ∧
      ts.map (fun t => (t.bRepeat, t.opBuffer.read 0 5)) =
        [(false, [0, 0, 0, 0, 0]), (false, ascii "world"), (true, ascii "hello")] := by
  have hcheck : ((run (start none none) leftBehind).bind fun st =>
      (Consumer.makeAll [(.request (.createSubscribe (ascii "q") 0), zeroed, 0),
          (.consumeMessage, zeroed, 0), (.consumeMessage, zeroed, 0)] {}
        [.recvd (onConnection st 13).flatten]).map fun r =>
      decide (r.1.map (fun t => (t.bRepeat, t.opBuffer.read 0 5)) =
        [(false, [0, 0, 0, 0, 0]), (false, ascii "world"), (true, ascii "hello")])) =
      some true := by
    decide +kernel
  obtain ⟨st, hrun, h⟩ := Option.bind_eq_some_iff.mp hcheck
  obtain ⟨⟨ts, c', rets'⟩, hall, h⟩ := Option.map_eq_some_iff.mp h
  exact ⟨st, ts, c', rets', hrun, by decide +kernel, by decide +kernel, hall, of_decide_eq_true h⟩

end Runs

end Wsmq
