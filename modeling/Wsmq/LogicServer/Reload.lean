import Wsmq.LogicServer.Mirror
import Wsmq.LogicServer.Rebinding
import Wsmq.LogicServer.Subscriptions

/-!
# The start over mirrored files

`Mirror` says what the directories hold; `OnInit` reads them again.  A queue comes back if a
message was published to it, with its first subscriber; an exchange always does.
-/

namespace Wsmq.LogicServer
open Lib Lib.ByteString Lib.Packing Lib.Files
open PersistenceServer (Metadata metadata infoFile offsetFile subscribeFile bindingFile)

variable [Platform]

/-- The queue as it comes back. -/
def restored (q : MessageQueue) : MessageQueue :=
  { newborn q with
    confirmLevel := q.confirmLevel
    subscribeConsumers := q.subscribeConsumers.take 1
    durableIndex := q.durableIndex }

variable {persis : PersistenceServer} {x : Metadata} {q : MessageQueue} {e : Exchange} {n : Name}
  {k : PersistenceServer.Kind} {st st' : LogicServer} {files : FileSystem}

/-! ## One directory -/

omit [Platform] in
/-- The four files that are read. -/
theorem dirFile_metadata (hs : PersistenceServer.Stands persis.files k n)
    (hx : metadata persis (k, n) = some x) :
    dirFile persis.files k n infoFile = x.info ∧ dirFile persis.files k n offsetFile = x.offset ∧
      dirFile persis.files k n subscribeFile = x.subscribe := by
  obtain ⟨F, hF, rfl⟩ := Option.map_eq_some_iff.mp hx
  have hfile : ∀ f, Plain f → dirFile persis.files k n f = F f := fun f hf =>
    (dirFile_stands hs hf).trans (folderAt_some hF f)
  exact ⟨hfile infoFile (by decide), hfile offsetFile (by decide), hfile subscribeFile (by decide)⟩

/-- The offset file leads to the next index. -/
theorem readOffset_next (hindex : 0 < q.durableIndex) (hint : q.durableIndex < 2 ^ 31) :
    readInt (Mem.ofBytes (beInt 4 (q.durableIndex - 1))) 0 + 1 = q.durableIndex := by
  have hfits : FitsInt 4 (q.durableIndex - 1) := by
    unfold FitsInt
    omega
  have hread : (Mem.ofBytes (beInt 4 (q.durableIndex - 1))).read 0 4 =
      beInt 4 (q.durableIndex - 1) := by
    have hholds := holds_ofBytes (beInt 4 (q.durableIndex - 1))
    rwa [Holds, beInt_length] at hholds
  rw [readInt, hread, ofBeInt_beInt hfits, Int.sub_add_cancel]

/-- A described queue is read back, but for its other subscribers. -/
theorem readQueueDir_described (hs : PersistenceServer.Stands persis.files .queue q.queueName)
    (hn : IsName q.queueName) (hx : metadata persis (.queue, q.queueName) = some x)
    (hd : Describes x q) (hfits : Fits q) (hfew : FewSubscribers q)
    (hint : q.durableIndex < 2 ^ 31) :
    readQueueDir persis.files q.queueName =
      if q.durableIndex = 0 then some none
      else if 247 < q.subscribeConsumers.length then none
      else some (some (if q.subscribeConsumers = [] then some q.queueName else none,
        restored q)) := by
  obtain ⟨hpos, ⟨info, hinfo, hlong, hread⟩, hoffset, hsubscribe⟩ := hd
  obtain ⟨hfile, hfile', hfile''⟩ := dirFile_metadata hs hx
  have hshort : ¬ info.length < maxNameLength + 2 + 1 + 1 := Nat.not_lt.mpr hlong
  rw [readQueueDir, queueFile_eq, hfile, hinfo]
  dsimp only
  rw [if_neg hshort, hread, Option.bind_some, queueFile_eq, hfile', hoffset]
  by_cases hzero : q.durableIndex = 0
  · rw [if_pos hzero, if_pos hzero]
  rw [if_neg hzero, if_neg hzero]
  dsimp only
  rw [if_neg (by rw [beInt_length]; omega), readOffset_next (by omega) hint, queueFile_eq, hfile'']
  rcases hsubscribe hfew with hsome | ⟨hnone, hempty, hlevel⟩
  · have hlen : 4 + (subscribeBody q).length ≤ maxClintPackageLength := hfew
    have hstorable : Storable q := by
      refine ⟨?_, hfits.ids, hfits.byte⟩
      have hbody := length_subscribeBody q
      have hmax : maxClintPackageLength = 11264 := rfl
      omega
    rw [hsome, readSubscribers_body hn hstorable rfl, apply_ite (Option.map some)]
    rfl
  · rw [hnone, hempty, if_neg (by decide), if_pos rfl, readSubscribers, Option.map_some, restored,
      hempty, hlevel]
    rfl

/-- The exchange without what is bound to it. -/
def unbound (e : Exchange) : Exchange := { e with bindingQueues := ∅ }

omit [Platform] in
theorem unbound_createBinding (e : Exchange) (key : Name) (id : QueueId) :
    unbound (e.createBinding key id) = unbound e := by
  unfold Exchange.createBinding
  split
  · rfl
  · rfl

theorem bindQueues_unbound {pTemp : Mem} {key : Name} {pos m : Nat} {e e' : Exchange}
    (h : st.bindQueues pTemp key pos m e = some e') : unbound e' = unbound e := by
  induction m generalizing pos e with
  | zero =>
    cases h
    rfl
  | succ m ih =>
    obtain ⟨strQueueName, _, hrest⟩ := Option.bind_eq_some_iff.mp h
    refine (ih hrest).trans ?_
    split
    · rfl
    · exact unbound_createBinding e key _

theorem readBindings_unbound {file : Bytes} {pos m : Nat} {e e' : Exchange}
    (h : st.readBindings file pos m e = some e') : unbound e' = unbound e := by
  induction m generalizing pos e with
  | zero =>
    cases h
    rfl
  | succ m ih =>
    obtain ⟨bRead, _, h⟩ := Option.bind_eq_some_iff.mp h
    rcases ite_eq_some h with ⟨_, h⟩ | ⟨_, h⟩
    · cases h
      rfl
    obtain ⟨key, _, h⟩ := Option.bind_eq_some_iff.mp h
    obtain ⟨bRead', _, h⟩ := Option.bind_eq_some_iff.mp h
    rcases ite_eq_some h with ⟨_, h⟩ | ⟨_, h⟩
    · cases h
      rfl
    obtain ⟨e₁, hbind, hrest⟩ := Option.bind_eq_some_iff.mp h
    exact (ih hrest).trans (bindQueues_unbound hbind)

theorem restoreBindings_unbound {binding : Option Bytes} {e e' : Exchange}
    (h : st.restoreBindings binding e = some e') : unbound e' = unbound e := by
  cases binding with
  | none =>
    cases h
    rfl
  | some file =>
    rcases ite_eq_some h with ⟨_, h⟩ | ⟨_, h⟩
    · cases h
      rfl
    · exact readBindings_unbound h

/-- A described exchange is read back, whatever is bound to it. -/
theorem readExchangeDir_described
    (hs : PersistenceServer.Stands persis.files .exchange e.exchangeName)
    (hx : metadata persis (.exchange, e.exchangeName) = some x) (hd : DescribesExchange x e)
    {o : Option (Name × Exchange)} (h : st.readExchangeDir persis.files e.exchangeName = some o) :
    ∃ e', o = some (e.exchangeName, e') ∧ unbound e' = unbound e := by
  obtain ⟨info, hinfo, hlong, hread⟩ := hd
  obtain ⟨hfile, -, -⟩ := dirFile_metadata hs hx
  have hshort : ¬ info.length < maxNameLength + 2 + 1 + 1 := Nat.not_lt.mpr hlong
  rw [readExchangeDir, exchangeFile_eq, hfile, hinfo] at h
  dsimp only at h
  rw [if_neg hshort, hread, Option.bind_some] at h
  obtain ⟨e', hrestore, rfl⟩ := Option.map_eq_some_iff.mp h
  have hkept := restoreBindings_unbound hrestore
  exact ⟨e', rfl, hkept⟩

/-! ## The queues -/

/-- The queue of a name. -/
def queueNamed (st : LogicServer) (n : Name) : Option MessageQueue :=
  (st.findQueue n).bind st.queues

theorem Lists.queueNamed {o : Option (Option Name × MessageQueue)} (h : Lists st n o) :
    st.queueNamed n = o.map Prod.snd := by
  cases o with
  | none =>
    obtain ⟨hsub, hunsub⟩ := h
    rw [LogicServer.queueNamed, findQueue, hsub, hunsub]
    rfl
  | some r =>
    obtain ⟨id, _, hq, hsub, hunsub⟩ := h
    have hfind : st.findQueue n = some id := by
      rw [findQueue, hsub, hunsub]
      split
      · next heq =>
        split at heq
        · cases heq
          rfl
        · cases heq
      · next heq =>
        split at heq
        · cases heq
        · next hkey => rw [if_neg hkey]
    rw [LogicServer.queueNamed, hfind, Option.bind_some, hq]
    rfl

/-- All packets are processed, and the files say what there is. -/
structure Settled (silent : Prop) (st : LogicServer) (persis : PersistenceServer) : Prop where
  mirror : Mirror silent (memory st) (metadata persis)
  regular : st.Regular
  orderly : PersistenceServer.Orderly persis
  counts : Counts st
  few : ∀ id q, (memory st).queues id = some q → q.durable → FewSubscribers q

variable {silent : Prop} {id : QueueId} {d : Name} {fresh : LogicServer}

omit [Platform] in
theorem stands_of_metadata (h : PersistenceServer.Orderly persis) (hn : Plain n)
    (hx : metadata persis (k, n) = some x) :
    PersistenceServer.Stands persis.files k n ∧ n ∈ PersistenceServer.subDirs persis.files k := by
  obtain ⟨F, hF, -⟩ := Option.map_eq_some_iff.mp hx
  have hdir := isDir_of_folderAt hF
  have hstands := h.tidy.stands hn hdir
  exact ⟨hstands, PersistenceServer.mem_subDirs.mpr ⟨hstands.base, hdir⟩⟩

omit [Platform] in
theorem metadata_of_mem (hd : d ∈ PersistenceServer.subDirs persis.files k) :
    ∃ x, metadata persis (k, d) = some x := by
  have hdir := (PersistenceServer.mem_subDirs.mp hd).2
  exact ⟨_, congrArg (Option.map PersistenceServer.metadataOf) (folderAt_of_isDir hdir)⟩

/-- What is read in the directory of a queue. -/
def readBack (q : MessageQueue) : Option (Option (Option Name × MessageQueue)) :=
  if q.durableIndex = 0 then some none
  else if 247 < q.subscribeConsumers.length then none
  else some (some (if q.subscribeConsumers = [] then some q.queueName else none, restored q))

/-- The directory of a durable queue is read. -/
theorem Settled.reads (h : Settled silent st persis) (hq : (memory st).queues id = some q)
    (hd : q.durable) : q.queueName ∈ queueDirs persis.files ∧
      readQueueDir persis.files q.queueName = readBack q := by
  obtain ⟨x, hx, hdescribes⟩ := h.mirror.queues id q hq hd
  obtain ⟨q₀, hq₀, rfl⟩ := Option.map_eq_some_iff.mp hq
  obtain ⟨hname, hplain⟩ := h.regular.queues id q₀ hq₀
  obtain ⟨hstands, hin⟩ := stands_of_metadata h.orderly (hplain hd).1 hx
  exact ⟨hin, readQueueDir_described hstands hname hx hdescribes (h.mirror.fits id _ hq)
    (h.few id _ hq hd) (h.counts id q₀ hq₀ hd)⟩

/-- Every directory belongs to a durable queue. -/
theorem Settled.owner (h : Settled silent st persis) (hd : d ∈ queueDirs persis.files) :
    ∃ id q, (memory st).queues id = some q ∧ q.queueName = d ∧ q.durable := by
  obtain ⟨x, hx⟩ := metadata_of_mem (k := .queue) hd
  exact h.mirror.queueDirs d x hx

theorem Settled.readable (h : Settled silent st persis) (hd : d ∈ queueDirs persis.files)
    (hread : (readQueueDir persis.files d).isSome) : Named persis.files d := by
  obtain ⟨id, q, hq, rfl, hdurable⟩ := h.owner hd
  obtain ⟨-, heq⟩ := h.reads hq hdurable
  obtain ⟨o, ho⟩ := Option.isSome_iff_exists.mp hread
  refine ⟨o, ho, fun r hr => ?_⟩
  rw [heq, readBack] at ho
  cases hr
  rcases ite_eq_some ho with ⟨_, ho⟩ | ⟨_, ho⟩
  · cases ho
  rcases ite_eq_some ho with ⟨_, ho⟩ | ⟨_, ho⟩
  · cases ho
  cases ho
  refine ⟨rfl, ?_⟩
  dsimp only
  split
  · exact Or.inr rfl
  · exact Or.inl rfl

/-- Only a list of more than 247 subscribers is longer than the buffer. -/
theorem Settled.onInitQueue_isSome_iff (h : Settled silent st persis)
    (hempty : fresh.subcribeQueues = ∅ ∧ fresh.unSubcribeQueues = ∅) :
    (fresh.onInitQueue persis.files).isSome ↔ ∀ id q, (memory st).queues id = some q →
      q.durable → q.durableIndex ≠ 0 → q.subscribeConsumers.length ≤ 247 := by
  rw [onInitQueue, initQueueDirs_eq]
  constructor
  · intro hsome id q hq hd hindex
    obtain ⟨st', hinit⟩ := Option.isSome_iff_exists.mp hsome
    obtain ⟨hin, heq⟩ := h.reads hq hd
    have hread := Loading.load_reads hinit _ hin
    by_contra hmany
    rw [heq, readBack, if_neg hindex, if_pos (Nat.lt_of_not_le hmany)] at hread
    cases hread
  · intro hshort
    obtain ⟨st', hinit, -⟩ := Loading.load_lists register_registers
      (PersistenceServer.nodup_subDirs persis.files .queue)
      (fun d hd => h.readable hd (by
        obtain ⟨id, q, hq, rfl, hdurable⟩ := h.owner hd
        rw [(h.reads hq hdurable).2, readBack]
        split
        · rfl
        · next hindex =>
          rw [if_neg (Nat.not_lt.mpr (hshort id q hq hdurable hindex))]
          rfl))
      fun d _ => lists_vacant hempty d
    exact Option.isSome_of_eq_some hinit

/-- The queues that are there afterwards are those to which a message was published. -/
theorem Settled.onInitQueue_queues (h : Settled silent st persis)
    (hempty : fresh.subcribeQueues = ∅ ∧ fresh.unSubcribeQueues = ∅)
    (hinit : fresh.onInitQueue persis.files = some st') (n : Name) (q' : MessageQueue) :
    st'.queueNamed n = some q' ↔ ∃ id q, (memory st).queues id = some q ∧ q.queueName = n ∧
      q.durable ∧ q.durableIndex ≠ 0 ∧ restored q = q' := by
  rw [onInitQueue, initQueueDirs_eq] at hinit
  have hreads := Loading.load_reads hinit
  obtain ⟨st'', hinit', hlists, hothers⟩ := Loading.load_lists register_registers
    (PersistenceServer.nodup_subDirs persis.files .queue)
    (fun d hd => h.readable hd (hreads d hd)) fun d _ => lists_vacant hempty d
  cases hinit.symm.trans hinit'
  constructor
  · intro hn
    by_cases hin : n ∈ queueDirs persis.files
    · obtain ⟨id, q, hq, rfl, hd⟩ := h.owner hin
      obtain ⟨o, ho⟩ := Option.isSome_iff_exists.mp (hreads _ hin)
      have hnamed := (hlists _ hin o ho).queueNamed
      rw [hn] at hnamed
      rw [(h.reads hq hd).2, readBack] at ho
      rcases ite_eq_some ho with ⟨_, ho⟩ | ⟨hindex, ho⟩
      · cases ho
        cases hnamed
      rcases ite_eq_some ho with ⟨_, ho⟩ | ⟨_, ho⟩
      · cases ho
      · cases ho
        cases hnamed
        exact ⟨id, q, hq, rfl, hd, hindex, rfl⟩
    · have hvacant := (hothers n hin none (lists_vacant hempty n)).queueNamed
      rw [hn] at hvacant
      cases hvacant
  · rintro ⟨id, q, hq, rfl, hd, hindex, rfl⟩
    obtain ⟨hin, heq⟩ := h.reads hq hd
    obtain ⟨o, ho⟩ := Option.isSome_iff_exists.mp (hreads _ hin)
    rw [(hlists _ hin o ho).queueNamed]
    rw [heq, readBack, if_neg hindex] at ho
    rcases ite_eq_some ho with ⟨_, ho⟩ | ⟨_, ho⟩
    · cases ho
    · cases ho
      rfl

/-! ## The exchanges -/

/-- The directory of an exchange is read. -/
theorem Settled.reads_exchange (h : Settled silent st persis)
    (hd : d ∈ exchangeDirs persis.files) : ∃ x e, metadata persis (.exchange, d) = some x ∧
      DescribesExchange x e ∧
        ∀ {srv : LogicServer} {o}, srv.readExchangeDir persis.files d = some o →
          ∃ e', o = some (d, e') ∧ unbound e' = unbound e := by
  obtain ⟨x, hx⟩ := metadata_of_mem (k := .exchange) hd
  obtain ⟨e, rfl, hdescribes⟩ := h.mirror.exchangeInfos d x hx
  have hplain := PersistenceServer.plain_of_subDirs (k := .exchange) h.orderly.sound.files hd
  obtain ⟨hstands, -⟩ := stands_of_metadata h.orderly hplain hx
  exact ⟨x, e, hx, hdescribes, fun ho => readExchangeDir_described hstands hx hdescribes ho⟩

omit [Platform] in
theorem DescribesExchange.unique {e e' : Exchange} (h : DescribesExchange x e)
    (h' : DescribesExchange x e') : unbound e = unbound e' := by
  obtain ⟨info, hinfo, -, hread⟩ := h
  obtain ⟨info', hinfo', -, hread'⟩ := h'
  cases hinfo.symm.trans hinfo'
  exact Option.some.inj (hread.symm.trans hread')

/-- Every durable exchange is there afterwards, and without silent ends no other. -/
theorem Settled.onInitExchange_exchanges (h : Settled silent st persis)
    (hempty : fresh.exchanges = ∅) (hinit : fresh.onInitExchange persis.files = some st') :
    (∀ n e, st.exchanges.lookup n = some e → e.durable →
      ∃ e', st'.exchanges.lookup n = some e' ∧ unbound e' = unbound e) ∧
    (¬ silent → ∀ n e', st'.exchanges.lookup n = some e' →
      ∃ e, st.exchanges.lookup n = some e ∧ e.durable) := by
  have hvacant : ∀ d, Holding fresh d none := by
    intro d
    rw [Holding, hempty]
    rfl
  rw [onInitExchange, initExchangeDirs_eq rfl] at hinit
  have hreads := Loading.load_reads hinit
  have hread : ∀ d ∈ exchangeDirs persis.files, ∃ o,
      fresh.readExchangeDir persis.files d = some o ∧ ∀ r ∈ o, r.1 = d := by
    intro d hd
    obtain ⟨o, ho⟩ := Option.isSome_iff_exists.mp (hreads d hd)
    obtain ⟨x, e, -, -, hown⟩ := h.reads_exchange hd
    obtain ⟨e', rfl, -⟩ := hown ho
    refine ⟨_, ho, fun r hr => ?_⟩
    cases hr
    rfl
  obtain ⟨st'', hinit', hlists, hothers⟩ := Loading.load_lists addExchange_registers
    (PersistenceServer.nodup_subDirs persis.files .exchange) hread fun d _ => hvacant d
  cases hinit.symm.trans hinit'
  constructor
  · intro n e he hd
    obtain ⟨rfl, hdir⟩ := h.mirror.exchanges n e he
    obtain ⟨x, hx, hdescribes⟩ := hdir hd
    have hplain := (h.regular.exchanges _ e he).2.2 hd
    have hin := (stands_of_metadata h.orderly hplain hx).2
    obtain ⟨o, ho⟩ := Option.isSome_iff_exists.mp (hreads _ hin)
    obtain ⟨x', e₀, hx', hdescribes', hown⟩ := h.reads_exchange hin
    cases hx.symm.trans hx'
    obtain ⟨e', rfl, hsame⟩ := hown ho
    exact ⟨e', hlists _ hin _ ho, hsame.trans (hdescribes'.unique hdescribes)⟩
  · intro hsilent n e' he'
    by_cases hin : n ∈ exchangeDirs persis.files
    · obtain ⟨x, hx⟩ := metadata_of_mem (k := .exchange) hin
      exact h.mirror.exchangeDirs hsilent n x hx
    · have hnone := hothers n hin none (hvacant n)
      cases he'.symm.trans hnone

theorem onInitExchange_queueNamed (h : st.onInitExchange files = some st') :
    st'.queueNamed = st.queueNamed := by
  have hkeeps : ∀ (st₁ : LogicServer) (o : Option (Name × Exchange)),
      st₁.queueNamed = st.queueNamed → (addExchange st₁ o).queueNamed = st.queueNamed := by
    intro st₁ o h₁
    cases o with
    | none => exact h₁
    | some r => exact h₁
  rw [onInitExchange, initExchangeDirs_eq rfl] at h
  have hkept := Loading.load_keeps hkeeps rfl h
  exact hkept

theorem onInitQueue_exchanges (h : st.onInitQueue files = some st') :
    st'.exchanges = st.exchanges := by
  have hkeeps : ∀ (st₁ : LogicServer) (o : Option (Option Name × MessageQueue)),
      st₁.exchanges = st.exchanges → (register st₁ o).exchanges = st.exchanges := by
    intro st₁ o h₁
    match o with
    | none => exact h₁
    | some (none, q) => exact h₁
    | some (some key, q) => exact h₁
  rw [onInitQueue, initQueueDirs_eq] at h
  have hkept := Loading.load_keeps hkeeps rfl h
  exact hkept

/-! ## The messages -/

/-- What the start does with messages leaves the rest alone. -/
structure AddsMessages (st st' : LogicServer) : Prop where
  memory : memory st' = memory st
  findQueue : st'.findQueue = st.findQueue

theorem AddsMessages.trans {st₁ st₂ st₃ : LogicServer} (h : AddsMessages st₁ st₂)
    (h' : AddsMessages st₂ st₃) : AddsMessages st₁ st₃ :=
  ⟨h'.memory.trans h.memory, h'.findQueue.trans h.findQueue⟩

theorem processEntry_adds {pData : Bytes} {iDataPos : Int} {r : Int × LogicServer}
    (h : st.processEntry pData iDataPos = some r) : AddsMessages st r.2 := by
  rcases ite_eq_some h with ⟨_, h⟩ | ⟨_, h⟩
  · cases h
  obtain ⟨strQueueName, _, h⟩ := Option.bind_eq_some_iff.mp h
  split at h
  · cases h
    exact ⟨rfl, rfl⟩
  · next queue hfind =>
    obtain ⟨q, hq, h⟩ := Option.bind_eq_some_iff.mp h
    obtain ⟨pMsg, _, rfl⟩ := Option.map_eq_some_iff.mp h
    exact ⟨memory_setQueue_same hq (outline_addMessage q pMsg), rfl⟩

theorem processEntries_adds {pData : Bytes} {consumed : List Int} {es : List (Int × Int)}
    {r : Int × LogicServer} (h : processEntries pData consumed es st = some r) :
    AddsMessages st r.2 := by
  induction es generalizing st with
  | nil =>
    cases h
    exact ⟨rfl, rfl⟩
  | cons entry es ih =>
    rcases ite_eq_some h with ⟨_, h⟩ | ⟨_, h⟩
    · exact ih h
    obtain ⟨r₁, hfirst, h⟩ := Option.bind_eq_some_iff.mp h
    have hadds := processEntry_adds hfirst
    rcases ite_eq_some h with ⟨_, h⟩ | ⟨_, h⟩
    · cases h
      exact hadds
    · exact hadds.trans (ih h)

theorem processDurableMsgFile_adds {ipFile : Bytes} {r : Int × LogicServer}
    (h : st.processDurableMsgFile files ipFile = some r) : AddsMessages st r.2 := by
  unfold processDurableMsgFile at h
  split at h
  · rcases ite_eq_some h with ⟨_, h⟩ | ⟨_, h⟩
    · cases h
      exact ⟨rfl, rfl⟩
    · exact processEntries_adds h
  · cases h
    exact ⟨rfl, rfl⟩

theorem processMsgFiles_adds {sub_path : Bytes} {fs : List Name}
    (h : processMsgFiles files sub_path fs st = some st') : AddsMessages st st' := by
  induction fs generalizing st with
  | nil =>
    cases h
    exact ⟨rfl, rfl⟩
  | cons f fs ih =>
    obtain ⟨r, hfirst, h⟩ := Option.bind_eq_some_iff.mp h
    have hadds := processDurableMsgFile_adds hfirst
    rcases ite_eq_some h with ⟨_, h⟩ | ⟨_, h⟩
    · cases h
      exact hadds
    · exact hadds.trans (ih h)

theorem onInitMsg_adds (h : st.onInitMsg files = some st') : AddsMessages st st' := by
  have hdirs : ∀ (ds : List Name) (st : LogicServer), initMsgDirs files ds st = some st' →
      AddsMessages st st' := by
    intro ds
    induction ds with
    | nil =>
      intro st h
      cases h
      exact ⟨rfl, rfl⟩
    | cons d ds ih =>
      intro st h
      obtain ⟨st₁, hfirst, h⟩ := Option.bind_eq_some_iff.mp h
      exact (processMsgFiles_adds hfirst).trans (ih st₁ h)
  exact hdirs _ _ h

theorem AddsMessages.queueNamed (h : AddsMessages st st') (n : Name) :
    (st'.queueNamed n).map outline = (st.queueNamed n).map outline := by
  have hqueues : ∀ id, (st'.queues id).map outline = (st.queues id).map outline :=
    congrFun (congrArg Memory.queues h.memory)
  rw [LogicServer.queueNamed, LogicServer.queueNamed, h.findQueue]
  cases st.findQueue n with
  | none => rfl
  | some id => exact hqueues id

/-! ## The start -/

/-- What `st'` has of what `st` had. -/
structure Restores (silent : Prop) (st st' : LogicServer) : Prop where
  queues : ∀ n o, (st'.queueNamed n).map outline = some o ↔
    ∃ id q, st.queues id = some q ∧ q.queueName = n ∧ q.durable ∧ q.durableIndex ≠ 0 ∧
      o = restored q
  exchanges : ∀ n e, st.exchanges.lookup n = some e → e.durable →
    ∃ e', st'.exchanges.lookup n = some e' ∧ unbound e' = unbound e
  noOther : ¬ silent → ∀ n e', st'.exchanges.lookup n = some e' →
    ∃ e, st.exchanges.lookup n = some e ∧ e.durable

theorem Settled.restart (h : Settled silent st persis)
    (hrestart : st.restart persis.files = some st') : Restores silent st st' := by
  obtain ⟨st₁, hqueues, hrest⟩ := Option.bind_eq_some_iff.mp hrestart
  obtain ⟨st₂, hexchanges, hmsg⟩ := Option.bind_eq_some_iff.mp hrest
  have hadds := onInitMsg_adds hmsg
  have hback := h.onInitQueue_queues ⟨rfl, rfl⟩ hqueues
  obtain ⟨hthere, hnone⟩ := h.onInitExchange_exchanges (onInitQueue_exchanges hqueues) hexchanges
  have hsame : st'.exchanges = st₂.exchanges := congrArg Memory.exchanges hadds.memory
  refine ⟨fun n o => ?_, fun n e he hd => ?_, fun hsilent n e' he' => ?_⟩
  · rw [hadds.queueNamed, onInitExchange_queueNamed hexchanges, Option.map_eq_some_iff]
    constructor
    · rintro ⟨q', hq', rfl⟩
      obtain ⟨id, q, hq, hname, hd, hindex, rfl⟩ := (hback n q').mp hq'
      obtain ⟨q₀, hq₀, rfl⟩ := Option.map_eq_some_iff.mp hq
      exact ⟨id, q₀, hq₀, hname, hd, hindex, rfl⟩
    · rintro ⟨id, q, hq, hname, hd, hindex, rfl⟩
      have hq' : (memory st).queues id = some (outline q) := congrArg (Option.map outline) hq
      exact ⟨_, (hback n _).mpr ⟨id, outline q, hq', hname, hd, hindex, rfl⟩, rfl⟩
  · rw [hsame]
    exact hthere n e he hd
  · rw [hsame] at he'
    exact hnone hsilent n e' he'

end Wsmq.LogicServer
