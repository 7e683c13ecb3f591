import Wsmq.Lib.Outbox
import Wsmq.LogicServer.Removals

/-!
# What the files say about queues and exchanges

`Mirror` relates the memory of the logic server to the files of the persistence server once every
packet is processed.  Every change and every removal keeps it, with the packets that go with it.
-/

namespace Wsmq.LogicServer
open Lib Lib.ByteString Lib.Packing Lib.Files Lib.Outbox
open PersistenceServer (Order Metadata metadata)

variable [Platform]

/-- The queue as `info.bin` describes it. -/
def newborn (q : MessageQueue) : MessageQueue :=
  { queueName := q.queueName, priority := q.priority, durable := q.durable, autoDel := q.autoDel }

/-- The packet about the subscribers fits into the buffer. -/
def FewSubscribers (q : MessageQueue) : Prop :=
  4 + (subscribeBody q).length ≤ maxClintPackageLength

/-- The directory of the queue. -/
structure Describes (x : Metadata) (q : MessageQueue) : Prop where
  index : 0 ≤ q.durableIndex
  info : ∃ info, x.info = some info ∧ 36 ≤ info.length ∧ readQueue info = some (newborn q)
  offset : x.offset = if q.durableIndex = 0 then none else some (beInt 4 (q.durableIndex - 1))
  subscribe : FewSubscribers q → x.subscribe = some (subscribeBody q) ∨
    x.subscribe = none ∧ q.subscribeConsumers = [] ∧ q.confirmLevel = 0

/-- The directory of the exchange, whatever it says about the bindings. -/
def DescribesExchange (x : Metadata) (e : Exchange) : Prop :=
  ∃ info, x.info = some info ∧ 36 ≤ info.length ∧
    readExchange info = some { e with bindingQueues := ∅ }

/-- Subscribers and confirm level are as their types admit; without subscribers there is none. -/
structure Fits (q : MessageQueue) : Prop where
  ids : ∀ c ∈ q.subscribeConsumers, FitsInt 4 c
  byte : q.confirmLevel < 2 ^ 8
  level : q.subscribeConsumers = [] → q.confirmLevel = 0

abbrev Disk : Type := PersistenceServer.Kind × Name → Option Metadata

/-- The directories are those of the durable queues and exchanges; `silent` says that an exchange
may have gone without a packet. -/
structure Mirror (silent : Prop) (m : Memory) (f : Disk) : Prop where
  unique : ∀ i j p q, m.queues i = some p → m.queues j = some q → p.queueName = q.queueName → i = j
  fits : ∀ i q, m.queues i = some q → Fits q
  queues : ∀ i q, m.queues i = some q → q.durable →
    ∃ x, f (.queue, q.queueName) = some x ∧ Describes x q
  queueDirs : ∀ n x, f (.queue, n) = some x →
    ∃ i q, m.queues i = some q ∧ q.queueName = n ∧ q.durable
  exchanges : ∀ n e, m.exchanges.lookup n = some e → e.exchangeName = n ∧
    (e.durable → ∃ x, f (.exchange, n) = some x ∧ DescribesExchange x e)
  exchangeInfos : ∀ n x, f (.exchange, n) = some x →
    ∃ e : Exchange, e.exchangeName = n ∧ DescribesExchange x e
  exchangeDirs : ¬ silent → ∀ n x, f (.exchange, n) = some x →
    ∃ e, m.exchanges.lookup n = some e ∧ e.durable

variable {silent full : Prop} {m m' : Memory} {f f' : Disk} {os : List Order} {id : QueueId}
  {q q' : MessageQueue}

theorem mirror_start (capConnect capPersis : Option Nat) (hf : ∀ e, f e = none) :
    Mirror silent (memory (start capConnect capPersis)) f where
  unique _ _ _ _ h := nomatch h
  fits _ _ h := nomatch h
  queues _ _ h := nomatch h
  queueDirs n x h := by
    rw [hf] at h
    cases h
  exchanges _ _ h := nomatch h
  exchangeInfos n x h := by
    rw [hf] at h
    cases h
  exchangeDirs _ n x h := by
    rw [hf] at h
    cases h

/-! ## One queue changes -/

theorem Mirror.nondurable (h : Mirror silent m f) (hq : m.queues id = some q)
    (hd : ¬ q.durable) : f (.queue, q.queueName) = none := by
  cases hx : f (.queue, q.queueName) with
  | none => rfl
  | some x =>
    obtain ⟨i, p, hp, hname, hdurable⟩ := h.queueDirs q.queueName x hx
    cases h.unique i id p q hp hq hname
    cases hp.symm.trans hq
    exact absurd hdurable hd

/-- The object at `id` changes, and with it at most the directory of its name. -/
theorem Mirror.setQueue (h : Mirror silent m f) (hq : m.queues id = some q)
    (hname : q'.queueName = q.queueName) (hdurable : q'.durable = q.durable)
    (hfits : Fits q')
    (hother : ∀ e, e ≠ (.queue, q.queueName) → f' e = f e)
    (hnone : f (.queue, q.queueName) = none → f' (.queue, q.queueName) = none)
    (hsome : ∀ x, f (.queue, q.queueName) = some x → Describes x q →
      ∃ x', f' (.queue, q.queueName) = some x' ∧ Describes x' q') :
    Mirror silent (m.setQueue id q') f' := by
  have hcases : ∀ i p, (m.setQueue id q').queues i = some p →
      (i = id ∧ p = q') ∨ (i ≠ id ∧ m.queues i = some p) := by
    intro i p hp
    have hp' : (if i = id then some q' else m.queues i) = some p := hp
    split at hp'
    · next hi => exact Or.inl ⟨hi, (Option.some.inj hp').symm⟩
    · next hi => exact Or.inr ⟨hi, hp'⟩
  have hold : ∀ i p, (m.setQueue id q').queues i = some p →
      ∃ p₀, m.queues i = some p₀ ∧ p.queueName = p₀.queueName := by
    intro i p hp
    rcases hcases i p hp with ⟨rfl, rfl⟩ | ⟨_, hp⟩
    · exact ⟨q, hq, hname⟩
    · exact ⟨p, hp, rfl⟩
  constructor
  · intro i j p p' hp hp' hsame
    obtain ⟨p₀, hp₀, hn⟩ := hold i p hp
    obtain ⟨p₁, hp₁, hn'⟩ := hold j p' hp'
    exact h.unique i j p₀ p₁ hp₀ hp₁ (hn.symm.trans (hsame.trans hn'))
  · intro i p hp
    rcases hcases i p hp with ⟨rfl, rfl⟩ | ⟨_, hp⟩
    · exact hfits
    · exact h.fits i p hp
  · intro i p hp hd
    rcases hcases i p hp with ⟨rfl, rfl⟩ | ⟨hi, hp⟩
    · rw [hdurable] at hd
      obtain ⟨x, hx, hdescribes⟩ := h.queues i q hq hd
      rw [hname]
      exact hsome x hx hdescribes
    · have hne : (PersistenceServer.Kind.queue, p.queueName) ≠ (.queue, q.queueName) := fun he =>
        hi (h.unique i id p q hp hq (congrArg Prod.snd he))
      rw [hother _ hne]
      exact h.queues i p hp hd
  · intro n x hx
    by_cases hn : n = q.queueName
    · subst hn
      cases hold : f (.queue, q.queueName) with
      | none => exact absurd (hx.symm.trans (hnone hold)) (by simp)
      | some y =>
        obtain ⟨i, p, hp, hpn, hd⟩ := h.queueDirs _ y hold
        cases h.unique i id p q hp hq hpn
        cases hp.symm.trans hq
        exact ⟨id, q', if_pos rfl, hname, hdurable.trans hd⟩
    · rw [hother _ fun he => hn (congrArg Prod.snd he)] at hx
      obtain ⟨i, p, hp, hpn, hd⟩ := h.queueDirs n x hx
      have hi : i ≠ id := by
        rintro rfl
        cases hp.symm.trans hq
        exact hn hpn.symm
      exact ⟨i, p, (if_neg hi).trans hp, hpn, hd⟩
  · intro n e he
    rw [hother _ (by simp)]
    exact h.exchanges n e he
  · intro n x hx
    rw [hother _ (by simp)] at hx
    exact h.exchangeInfos n x hx
  · intro hsilent n x hx
    rw [hother _ (by simp)] at hx
    exact h.exchangeDirs hsilent n x hx

theorem newborn_names (h : newborn q' = newborn q) :
    q'.queueName = q.queueName ∧ q'.durable = q.durable := by
  have hname := congrArg MessageQueue.queueName h
  have hdurable := congrArg MessageQueue.durable h
  exact ⟨hname, hdurable⟩

/-- The subscribers change, and the persistence server is told of them all. -/
theorem Mirror.resubscribe (h : Mirror silent m f) (hq : m.queues id = some q)
    (hnewborn : newborn q' = newborn q) (hindex : q'.durableIndex = q.durableIndex)
    (hfits : Fits q') :
    Mirror silent (m.setQueue id q')
      ((if q.durable then [subscribeOrder q'] else []).foldl Order.apply f) := by
  obtain ⟨hname, hdurable⟩ := newborn_names hnewborn
  by_cases hd : q.durable
  · rw [if_pos hd, List.foldl_cons, List.foldl_nil, subscribeOrder]
    split
    · refine h.setQueue hq hname hdurable hfits (fun e he => ?_) (fun hnone => ?_)
        fun x hx hdescribes => ?_
      · rw [Order.apply, hname, Function.update_of_ne he]
      · rw [Order.apply, hname, Function.update_self, hnone]
        rfl
      · rw [Order.apply, hname, Function.update_self, hx]
        obtain ⟨hpos, hinfo, hoffset, _⟩ := hdescribes
        refine ⟨_, rfl, hindex ▸ hpos, hnewborn ▸ hinfo, hindex ▸ hoffset, fun _ => Or.inl rfl⟩
    · next hmany =>
      refine h.setQueue hq hname hdurable hfits (fun _ _ => rfl) (fun hn => hn)
        fun x hx hdescribes => ?_
      obtain ⟨hpos, hinfo, hoffset, _⟩ := hdescribes
      exact ⟨x, hx, hindex ▸ hpos, hnewborn ▸ hinfo, hindex ▸ hoffset, fun hfew =>
        absurd hfew hmany⟩
  · rw [if_neg hd]
    have hnone := h.nondurable hq hd
    refine h.setQueue hq hname hdurable hfits (fun _ _ => rfl) (fun hn => hn) fun x hx _ => ?_
    exact absurd (hnone.symm.trans hx) (by simp)

theorem Mirror.unchanged (h : Mirror silent m f) {c : Int} (hq : m.queues id = some q)
    (hsame : (q.cancelSubscribe c).subscribeConsumers = q.subscribeConsumers) :
    Mirror silent (m.setQueue id (q.cancelSubscribe c)) f := by
  have hlist : MessageQueue.eraseConsumer c q.subscribeConsumers = q.subscribeConsumers := hsame
  have hlevel : (if q.subscribeConsumers.isEmpty then 0 else q.confirmLevel) = q.confirmLevel := by
    split
    · next hempty => exact ((h.fits id q hq).level (List.isEmpty_iff.mp hempty)).symm
    · rfl
  have hkept : q.cancelSubscribe c = q := by
    simp only [MessageQueue.cancelSubscribe, hlist, hlevel]
  rw [hkept]
  exact h.setQueue hq rfl rfl (h.fits id q hq) (fun _ _ => rfl) (fun hn => hn)
    fun x hx hdescribes => ⟨x, hx, hdescribes⟩

/-- The index of a message is kept, and the next one will be larger. -/
theorem Mirror.draw (h : Mirror silent m f) (hq : m.queues id = some q) :
    Mirror silent (m.setQueue id { q with durableIndex := q.durableIndex + 1 })
      ((Order.publish q.queueName q.durableIndex).apply f) := by
  have hfits := h.fits id q hq
  refine h.setQueue hq rfl rfl ⟨hfits.ids, hfits.byte, hfits.level⟩ (fun e he => ?_)
    (fun hnone => ?_) fun x hx hdescribes => ?_
  · rw [Order.apply, Function.update_of_ne he]
  · rw [Order.apply, Function.update_self, hnone]
    rfl
  · rw [Order.apply, Function.update_self, hx]
    obtain ⟨hpos, hinfo, hoffset, hsubscribe⟩ := hdescribes
    refine ⟨_, rfl, Int.le_add_one hpos, hinfo, ?_, hsubscribe⟩
    have hne : q.durableIndex + 1 ≠ 0 := by omega
    rw [if_neg hne, Int.add_sub_cancel]

/-! ## Queues come and go -/

theorem Mirror.makeQueue (h : Mirror silent m f) {info : Bytes} (hid : m.queues id = none)
    (hinfo : q.durable → 36 ≤ info.length ∧ readQueue info = some (newborn q))
    (hindex : q.durableIndex = 0) (hsubs : q.subscribeConsumers = []) (hlevel : q.confirmLevel = 0)
    (hnew : ∀ i p, m.queues i = some p → p.queueName ≠ q.queueName) :
    Mirror silent (m.setQueue id q)
      ((if q.durable then [Order.create .queue q.queueName info] else []).foldl Order.apply f) := by
  have hcases : ∀ i p, (m.setQueue id q).queues i = some p →
      (i = id ∧ p = q) ∨ (i ≠ id ∧ m.queues i = some p) := by
    intro i p hp
    have hp' : (if i = id then some q else m.queues i) = some p := hp
    split at hp'
    · next hi => exact Or.inl ⟨hi, (Option.some.inj hp').symm⟩
    · next hi => exact Or.inr ⟨hi, hp'⟩
  have hnone : f (.queue, q.queueName) = none := by
    cases hx : f (.queue, q.queueName) with
    | none => rfl
    | some x =>
      obtain ⟨i, p, hp, hname, _⟩ := h.queueDirs _ x hx
      exact absurd hname (hnew i p hp)
  let f' := (if q.durable then [Order.create .queue q.queueName info] else []).foldl Order.apply f
  have hother : ∀ e, e ≠ (.queue, q.queueName) → f' e = f e := by
    intro e he
    by_cases hd : q.durable
    · simp only [f', if_pos hd, List.foldl_cons, List.foldl_nil, Order.apply,
        Function.update_of_ne he]
    · simp only [f', if_neg hd, List.foldl_nil]
  have hself : f' (.queue, q.queueName) =
      if q.durable then some { info := some info } else none := by
    by_cases hd : q.durable
    · simp only [f', if_pos hd, List.foldl_cons, List.foldl_nil, Order.apply,
        Function.update_self, hnone, Option.getD_none]
    · simp only [f', if_neg hd, List.foldl_nil, hnone]
  change Mirror silent (m.setQueue id q) f'
  constructor
  · intro i j p p' hp hp' hsame
    rcases hcases i p hp with ⟨rfl, rfl⟩ | ⟨_, hold⟩
    · rcases hcases j p' hp' with ⟨rfl, rfl⟩ | ⟨_, hold'⟩
      · rfl
      · exact absurd hsame.symm (hnew j p' hold')
    · rcases hcases j p' hp' with ⟨rfl, rfl⟩ | ⟨_, hold'⟩
      · exact absurd hsame (hnew i p hold)
      · exact h.unique i j p p' hold hold' hsame
  · intro i p hp
    rcases hcases i p hp with ⟨rfl, rfl⟩ | ⟨_, hp⟩
    · exact ⟨fun c hc => absurd hc (hsubs ▸ List.not_mem_nil), hlevel ▸ by decide, fun _ => hlevel⟩
    · exact h.fits i p hp
  · intro i p hp hd
    rcases hcases i p hp with ⟨rfl, rfl⟩ | ⟨_, hp⟩
    · obtain ⟨hlong, hread⟩ := hinfo hd
      refine ⟨{ info := some info }, by rw [hself, if_pos hd], hindex.ge, ⟨info, rfl, hlong, hread⟩,
        ?_, fun _ => Or.inr ⟨rfl, hsubs, hlevel⟩⟩
      rw [if_pos hindex]
    · rw [hother _ fun he => hnew i p hp (congrArg Prod.snd he)]
      exact h.queues i p hp hd
  · intro n x hx
    by_cases hn : n = q.queueName
    · subst hn
      rw [hself] at hx
      by_cases hd : q.durable
      · exact ⟨id, q, if_pos rfl, rfl, hd⟩
      · rw [if_neg hd] at hx
        cases hx
    · rw [hother _ fun he => hn (congrArg Prod.snd he)] at hx
      obtain ⟨i, p, hp, hpn, hd⟩ := h.queueDirs n x hx
      have hi : i ≠ id := by
        rintro rfl
        cases hid.symm.trans hp
      exact ⟨i, p, (if_neg hi).trans hp, hpn, hd⟩
  · intro n e he
    rw [hother _ (by simp)]
    exact h.exchanges n e he
  · intro n x hx
    rw [hother _ (by simp)] at hx
    exact h.exchangeInfos n x hx
  · intro hsilent n x hx
    rw [hother _ (by simp)] at hx
    exact h.exchangeDirs hsilent n x hx

theorem Mirror.dropQueue (h : Mirror silent m f) (hq : m.queues id = some q) :
    Mirror silent (m.freeQueue id)
      ((if q.durable then [Order.remove .queue q.queueName] else []).foldl Order.apply f) := by
  have hcases : ∀ i p, (m.freeQueue id).queues i = some p → i ≠ id ∧ m.queues i = some p := by
    intro i p hp
    have hp' : (if i = id then none else m.queues i) = some p := hp
    split at hp'
    · cases hp'
    · next hi => exact ⟨hi, hp'⟩
  let f' := (if q.durable then [Order.remove .queue q.queueName] else []).foldl Order.apply f
  have hother : ∀ e, e ≠ (.queue, q.queueName) → f' e = f e := by
    intro e he
    by_cases hd : q.durable
    · simp only [f', if_pos hd, List.foldl_cons, List.foldl_nil, Order.apply,
        Function.update_of_ne he]
    · simp only [f', if_neg hd, List.foldl_nil]
  have hself : f' (.queue, q.queueName) = none := by
    by_cases hd : q.durable
    · simp only [f', if_pos hd, List.foldl_cons, List.foldl_nil, Order.apply,
        Function.update_self]
    · simp only [f', if_neg hd, List.foldl_nil, h.nondurable hq hd]
  change Mirror silent (m.freeQueue id) f'
  constructor
  · intro i j p p' hp hp'
    exact h.unique i j p p' (hcases i p hp).2 (hcases j p' hp').2
  · intro i p hp
    exact h.fits i p (hcases i p hp).2
  · intro i p hp hd
    obtain ⟨hi, hp⟩ := hcases i p hp
    have hne : (PersistenceServer.Kind.queue, p.queueName) ≠ (.queue, q.queueName) := fun he =>
      hi (h.unique i id p q hp hq (congrArg Prod.snd he))
    rw [hother _ hne]
    exact h.queues i p hp hd
  · intro n x hx
    by_cases hn : n = q.queueName
    · subst hn
      cases hself.symm.trans hx
    · rw [hother _ fun he => hn (congrArg Prod.snd he)] at hx
      obtain ⟨i, p, hp, hpn, hd⟩ := h.queueDirs n x hx
      have hi : i ≠ id := by
        rintro rfl
        cases hp.symm.trans hq
        exact hn hpn.symm
      exact ⟨i, p, (if_neg hi).trans hp, hpn, hd⟩
  · intro n e he
    rw [hother _ (by simp)]
    exact h.exchanges n e he
  · intro n x hx
    rw [hother _ (by simp)] at hx
    exact h.exchangeInfos n x hx
  · intro hsilent n x hx
    rw [hother _ (by simp)] at hx
    exact h.exchangeDirs hsilent n x hx

/-! ## Exchanges come and go -/

/-- Only exchanges change, and their directories. -/
theorem Mirror.setExchanges (h : Mirror silent m f)
    {exchanges : AList fun _ : Name => Exchange} (hqueues : ∀ n, f' (.queue, n) = f (.queue, n))
    (hexchanges : ∀ n e, exchanges.lookup n = some e → e.exchangeName = n ∧
      (e.durable → ∃ x, f' (.exchange, n) = some x ∧ DescribesExchange x e))
    (hinfos : ∀ n x, f' (.exchange, n) = some x →
      ∃ e : Exchange, e.exchangeName = n ∧ DescribesExchange x e)
    (hdirs : ¬ silent → ∀ n x, f' (.exchange, n) = some x →
      ∃ e, exchanges.lookup n = some e ∧ e.durable) :
    Mirror silent { m with exchanges := exchanges } f' := by
  refine ⟨h.unique, h.fits, fun i q hq hd => ?_, fun n x hx => ?_, hexchanges, hinfos, hdirs⟩
  · rw [hqueues]
    exact h.queues i q hq hd
  · rw [hqueues] at hx
    exact h.queueDirs n x hx

omit [Platform] in
/-- What is bound is not described. -/
theorem DescribesExchange.congr {x x' : Metadata} {e e' : Exchange} (h : DescribesExchange x e)
    (hinfo : x'.info = x.info)
    (hsame : ({ e' with bindingQueues := ∅ } : Exchange) = { e with bindingQueues := ∅ }) :
    DescribesExchange x' e' := by
  obtain ⟨info, hx, hlong, hread⟩ := h
  exact ⟨info, hinfo.trans hx, hlong, hsame ▸ hread⟩

/-- The exchange of that name is another one now, and its directory keeps `info.bin`. -/
theorem Mirror.replace (h : Mirror silent m f) {e e' : Exchange}
    (he : m.exchanges.lookup e.exchangeName = some e)
    (hsame : ({ e' with bindingQueues := ∅ } : Exchange) = { e with bindingQueues := ∅ })
    (hother : ∀ d, d ≠ (.exchange, e.exchangeName) → f' d = f d)
    (hself : (f' (.exchange, e.exchangeName)).map Metadata.info =
      (f (.exchange, e.exchangeName)).map Metadata.info) :
    Mirror silent { m with exchanges := m.exchanges.replace e.exchangeName e' } f' := by
  have hin : e.exchangeName ∈ m.exchanges := AList.lookup_isSome.mp (Option.isSome_of_eq_some he)
  have hname := congrArg Exchange.exchangeName hsame
  have hdurable := congrArg Exchange.durable hsame
  dsimp only at hname hdurable
  refine h.setExchanges (fun n => hother _ (by simp)) (fun n y hy => ?_) (fun n x hx => ?_)
    fun hsilent n x hx => ?_
  · rcases AssocTables.lookup_replace_some hin hy with ⟨rfl, rfl⟩ | ⟨hn, hold⟩
    · refine ⟨hname, fun hd => ?_⟩
      obtain ⟨x, hx, hdescribes⟩ := (h.exchanges _ e he).2 (hdurable ▸ hd)
      rw [hx, Option.map_some] at hself
      obtain ⟨x', hx', hinfo⟩ := Option.map_eq_some_iff.mp hself
      exact ⟨x', hx', hdescribes.congr hinfo hsame⟩
    · rw [hother _ fun hd => hn (congrArg Prod.snd hd)]
      exact h.exchanges n y hold
  · by_cases hn : n = e.exchangeName
    · subst hn
      rw [hx, Option.map_some] at hself
      obtain ⟨y, hy, hinfo⟩ := Option.map_eq_some_iff.mp hself.symm
      obtain ⟨e₀, hname₀, hdescribes⟩ := h.exchangeInfos _ y hy
      exact ⟨e₀, hname₀, hdescribes.congr hinfo.symm rfl⟩
    · rw [hother _ fun hd => hn (congrArg Prod.snd hd)] at hx
      exact h.exchangeInfos n x hx
  · by_cases hn : n = e.exchangeName
    · subst hn
      rw [hx, Option.map_some] at hself
      obtain ⟨y, hy, _⟩ := Option.map_eq_some_iff.mp hself.symm
      obtain ⟨e₀, he₀, hd⟩ := h.exchangeDirs hsilent _ y hy
      cases he.symm.trans he₀
      exact ⟨e', AssocTables.lookup_replace_self hin, hdurable ▸ hd⟩
    · rw [hother _ fun hd => hn (congrArg Prod.snd hd)] at hx
      obtain ⟨e₀, he₀, hd⟩ := h.exchangeDirs hsilent n x hx
      exact ⟨e₀, (AssocTables.lookup_replace_ne hn).trans he₀, hd⟩

theorem Mirror.makeExchange (h : Mirror silent m f) {e : Exchange} {info : Bytes}
    (hinfo : e.durable →
      36 ≤ info.length ∧ readExchange info = some { e with bindingQueues := ∅ })
    (hnew : e.exchangeName ∉ m.exchanges) :
    Mirror silent { m with exchanges := m.exchanges.insert e.exchangeName e }
      ((if e.durable then [Order.create .exchange e.exchangeName info] else []).foldl
        Order.apply f) := by
  by_cases hd : e.durable
  · rw [if_pos hd, List.foldl_cons, List.foldl_nil, Order.apply]
    obtain ⟨hlong, hread⟩ := hinfo hd
    refine h.setExchanges (fun n => Function.update_of_ne (by simp) _ _) (fun n y hy => ?_)
      (fun n x hx => ?_) fun hsilent n x hx => ?_
    · rcases AssocTables.lookup_insert_some hy with ⟨rfl, rfl⟩ | ⟨hn, hold⟩
      · refine ⟨rfl, fun _ => ⟨_, Function.update_self _ _ _, info, rfl, hlong, hread⟩⟩
      · rw [Function.update_of_ne fun he => hn (congrArg Prod.snd he)]
        exact h.exchanges n y hold
    · by_cases hn : n = e.exchangeName
      · subst hn
        rw [Function.update_self] at hx
        cases hx
        exact ⟨e, rfl, info, rfl, hlong, hread⟩
      · rw [Function.update_of_ne fun he => hn (congrArg Prod.snd he)] at hx
        exact h.exchangeInfos n x hx
    · by_cases hn : n = e.exchangeName
      · subst hn
        exact ⟨e, AList.lookup_insert _, hd⟩
      · rw [Function.update_of_ne fun he => hn (congrArg Prod.snd he)] at hx
        obtain ⟨e₀, he₀, hd₀⟩ := h.exchangeDirs hsilent n x hx
        exact ⟨e₀, (AList.lookup_insert_ne hn).trans he₀, hd₀⟩
  · rw [if_neg hd]
    refine h.setExchanges (fun _ => rfl) (fun n y hy => ?_) h.exchangeInfos fun hsilent n x hx => ?_
    · rcases AssocTables.lookup_insert_some hy with ⟨rfl, rfl⟩ | ⟨_, hold⟩
      · exact ⟨rfl, fun hd' => absurd hd' hd⟩
      · exact h.exchanges n y hold
    · obtain ⟨e₀, he₀, hd₀⟩ := h.exchangeDirs hsilent n x hx
      have hn : n ≠ e.exchangeName := by
        rintro rfl
        exact hnew (AList.lookup_isSome.mp (Option.isSome_of_eq_some he₀))
      exact ⟨e₀, (AList.lookup_insert_ne hn).trans he₀, hd₀⟩

/-- The exchange goes without a packet. -/
theorem Mirror.forgetExchange (h : Mirror silent m f) {e : Exchange}
    (he : m.exchanges.lookup e.exchangeName = some e) (hforget : e.durable → silent) :
    Mirror silent { m with exchanges := m.exchanges.erase e.exchangeName } f := by
  refine h.setExchanges (fun _ => rfl) (fun n y hy => ?_) h.exchangeInfos fun hsilent n x hx => ?_
  · exact h.exchanges n y (AssocTables.lookup_erase_some hy).2
  · obtain ⟨e₀, he₀, hd₀⟩ := h.exchangeDirs hsilent n x hx
    have hn : n ≠ e.exchangeName := by
      rintro rfl
      cases he.symm.trans he₀
      exact hsilent (hforget hd₀)
    exact ⟨e₀, (AList.lookup_erase_ne hn).trans he₀, hd₀⟩

theorem Mirror.dropExchange (h : Mirror silent m f) {e : Exchange}
    (he : m.exchanges.lookup e.exchangeName = some e) :
    Mirror silent { m with exchanges := m.exchanges.erase e.exchangeName }
      ((if e.durable then [Order.remove .exchange e.exchangeName] else []).foldl
        Order.apply f) := by
  by_cases hd : e.durable
  · rw [if_pos hd, List.foldl_cons, List.foldl_nil, Order.apply]
    refine h.setExchanges (fun n => Function.update_of_ne (by simp) _ _) (fun n y hy => ?_)
      (fun n x hx => ?_) fun hsilent n x hx => ?_
    · obtain ⟨hn, hold⟩ := AssocTables.lookup_erase_some hy
      rw [Function.update_of_ne fun he => hn (congrArg Prod.snd he)]
      exact h.exchanges n y hold
    · by_cases hn : n = e.exchangeName
      · subst hn
        rw [Function.update_self] at hx
        cases hx
      · rw [Function.update_of_ne fun he => hn (congrArg Prod.snd he)] at hx
        exact h.exchangeInfos n x hx
    · by_cases hn : n = e.exchangeName
      · subst hn
        rw [Function.update_self] at hx
        cases hx
      · rw [Function.update_of_ne fun he => hn (congrArg Prod.snd he)] at hx
        obtain ⟨e₀, he₀, hd₀⟩ := h.exchangeDirs hsilent n x hx
        exact ⟨e₀, (AList.lookup_erase_ne hn).trans he₀, hd₀⟩
  · rw [if_neg hd]
    exact h.forgetExchange he fun hd' => absurd hd' hd

/-- The table of the exchanges gets another order. -/
theorem Mirror.reorder (h : Mirror silent m f) {exchanges : AList fun _ : Name => Exchange}
    (hkeys : exchanges.keys.Perm m.exchanges.keys)
    (hsame : ∀ e ∈ exchanges.entries, ∃ g ∈ m.exchanges.entries,
      g.1 = e.1 ∧ SameExchange e.2 g.2) :
    Mirror silent { m with exchanges := exchanges } f := by
  have hold : ∀ n e, exchanges.lookup n = some e →
      ∃ g, m.exchanges.lookup n = some g ∧ SameExchange e g := by
    intro n e he
    obtain ⟨g, hg, hkey, hsame⟩ := hsame ⟨n, e⟩ (AList.mem_lookup_iff.mp he)
    obtain ⟨k, g⟩ := g
    dsimp only at hkey
    subst hkey
    exact ⟨g, AList.mem_lookup_iff.mpr hg, hsame⟩
  refine h.setExchanges (fun _ => rfl) (fun n e he => ?_) h.exchangeInfos fun hsilent n x hx => ?_
  · obtain ⟨g, hg, hname, htype, hdurable, hauto, _⟩ := hold n e he
    obtain ⟨hgn, hdir⟩ := h.exchanges n g hg
    refine ⟨hname.trans hgn, fun hd => ?_⟩
    obtain ⟨x, hx, hdescribes⟩ := hdir (hdurable ▸ hd)
    refine ⟨x, hx, hdescribes.congr rfl ?_⟩
    rw [hname, htype, hdurable, hauto]
  · obtain ⟨g, hg, hd⟩ := h.exchangeDirs hsilent n x hx
    have hin : n ∈ exchanges := by
      rw [AList.mem_keys, hkeys.mem_iff, ← AList.mem_keys]
      exact AList.lookup_isSome.mp (Option.isSome_of_eq_some hg)
    obtain ⟨e, he⟩ := Option.isSome_iff_exists.mp (AList.lookup_isSome.mpr hin)
    obtain ⟨g', hg', _, _, hdurable, _⟩ := hold n e he
    cases hg.symm.trans hg'
    exact ⟨e, he, hdurable.trans hd⟩

theorem Mirror.bind (h : Mirror silent m f) {e : Exchange} {k : Name}
    (he : m.exchanges.lookup e.exchangeName = some e) :
    Mirror silent { m with exchanges := m.exchanges.replace e.exchangeName (e.createBinding k id) }
      ((if e.durable then [bindOrder m.queues (e.createBinding k id)] else []).foldl
        Order.apply f) := by
  have hsame : ({ e.createBinding k id with bindingQueues := ∅ } : Exchange) =
      { e with bindingQueues := ∅ } := by
    unfold Exchange.createBinding
    split
    · rfl
    · rfl
  obtain ⟨hname, _⟩ := durable_createBinding e k id
  by_cases hd : e.durable
  · rw [if_pos hd, List.foldl_cons, List.foldl_nil]
    have hquiet : Mirror silent
        { m with exchanges := m.exchanges.replace e.exchangeName (e.createBinding k id) } f :=
      h.replace he hsame (fun _ _ => rfl) rfl
    unfold bindOrder
    split
    · exact hquiet
    · split
      · rw [hname]
        refine h.replace he hsame (fun d hne => Function.update_of_ne hne _ _) ?_
        rw [Order.apply, Function.update_self, Option.map_map]
        rfl
      · exact hquiet
  · rw [if_neg hd]
    exact h.replace he hsame (fun _ _ => rfl) rfl

/-! ## Changes and removals -/

theorem newborn_of_readQueue {info : Bytes} (h : readQueue info = some q) : newborn q = q := by
  obtain ⟨n, _, rfl⟩ := Option.map_eq_some_iff.mp h
  rfl

theorem newborn_addSubscribe (q : MessageQueue) (c : Int) (level : Nat) :
    newborn (q.addSubscribe c level) = newborn q := by
  unfold MessageQueue.addSubscribe
  split
  · rfl
  · rfl

theorem Fits.addSubscribe (h : Fits q) {c : Int} {level : Nat} (hint : FitsInt 4 c)
    (hbyte : level < 2 ^ 8) : Fits (q.addSubscribe c level) := by
  unfold MessageQueue.addSubscribe
  split
  · next hin => exact ⟨h.ids, hbyte, fun hnil => absurd hnil (List.ne_nil_of_mem hin)⟩
  · refine ⟨fun d hd => ?_, hbyte, fun hnil => ?_⟩
    · rcases List.mem_append.mp hd with hd | hd
      · exact h.ids d hd
      · cases List.mem_singleton.mp hd
        exact hint
    · exact absurd hnil (List.append_ne_nil_of_right_ne_nil _ (List.cons_ne_nil _ _))

theorem Fits.cancelSubscribe (h : Fits q) (c : Int) : Fits (q.cancelSubscribe c) := by
  constructor
  · intro d hd
    exact h.ids d ((MessageQueue.eraseConsumer_sublist c q.subscribeConsumers).subset hd)
  · show (if _ then 0 else q.confirmLevel) < 2 ^ 8
    split
    · decide
    · exact h.byte
  · intro hnil
    have hempty : (MessageQueue.eraseConsumer c q.subscribeConsumers).isEmpty = true :=
      List.isEmpty_iff.mpr hnil
    exact if_pos hempty

theorem Mirror.change (h : Mirror silent m f) (hc : Change full m os m') (hfull : ¬ full) :
    Mirror silent m' (os.foldl Order.apply f) := by
  cases hc with
  | none => exact h
  | single => exact h
  | reorder exchanges hkeys hsame => exact h.reorder hkeys hsame
  | makeExchange e info hname hplain hnew hinfo => exact h.makeExchange hinfo hnew
  | bind e k id q he hq => exact h.bind he
  | makeQueue id q info hid hname hplain hinfo hindex hsubs hlevel hnew =>
    refine h.makeQueue hid (fun hd => ?_) hindex hsubs hlevel hnew
    obtain ⟨hlong, hread⟩ := hinfo hd
    exact ⟨hlong, (newborn_of_readQueue hread).symm ▸ hread⟩
  | draw id q hq hdurable => exact h.draw hq
  | subscribe id q c level hq hint hbyte =>
    exact h.resubscribe hq (newborn_addSubscribe q c level) (q.addSubscribe_keeps c level).2.2
      ((h.fits id q hq).addSubscribe hint hbyte)
  | resubscribe hf => exact absurd hf hfull

theorem Mirror.removal (h : Mirror silent m f) (hc : Removal silent m os m') :
    Mirror silent m' (os.foldl Order.apply f) := by
  cases hc with
  | unsubscribe id q c hq =>
    exact h.resubscribe hq rfl rfl ((h.fits id q hq).cancelSubscribe c)
  | unchanged id q c hq hsame => exact h.unchanged hq hsame
  | unbind e id he => exact h.replace he rfl (fun _ _ => rfl) rfl
  | dropExchange e he => exact h.dropExchange he
  | forgetExchange e he hsilent => exact h.forgetExchange he hsilent
  | dropQueue id q hq => exact h.dropQueue hq

end Wsmq.LogicServer
