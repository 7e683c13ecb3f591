import Wsmq.Bindings
import Wsmq.Lib.Loading
import Wsmq.LogicServer.Storing

/-!
# Bindings across a restart

All keys of an exchange go into `binding.bin`, from which `OnInitExchange` reads them one after
the other into one buffer.
-/

namespace Wsmq.LogicServer
open Lib Lib.ByteString Lib.Packing Lib.Files
open PersistenceServer (infoFile bindingFile)

section Model

variable [Platform]

/-! ## The keys in the file -/

/-- Key and queue of one binding as they are written. -/
def keyFields (b : Name × Name) : List Field :=
  [writeString b.1, writeUShort 1, writeString b.2]

/-- The binding is made if the queue exists. -/
def rebind (st : LogicServer) (pExchange : Exchange) (b : Name × Name) : Exchange :=
  match st.findQueue b.2 with
  | none => pExchange
  | some queue => pExchange.createBinding b.1 queue

section Keys

variable {st : LogicServer} {b : Name × Name} {bs : List (Name × Name)} {pre post : List Field}

theorem keyFields_fit (b : Name × Name) : ∀ f ∈ keyFields b, f.Fits := by
  intro f hf
  simp only [keyFields, List.mem_cons, List.not_mem_nil, or_false] at hf
  rcases hf with rfl | rfl | rfl
  · exact writeString_fits _
  · exact (be_length _ _).le
  · exact writeString_fits _

theorem keysFields_fit (bs : List (Name × Name)) : ∀ f ∈ bs.flatMap keyFields, f.Fits := by
  intro f hf
  obtain ⟨b, _, hf⟩ := List.mem_flatMap.mp hf
  exact keyFields_fit b f hf

theorem size_keysFields (bs : List (Name × Name)) : size (bs.flatMap keyFields) = 66 * bs.length := by
  induction bs with
  | nil => rfl
  | cons b bs ih =>
    have hkey : size (keyFields b) = 66 := rfl
    rw [List.flatMap_cons, size_append, ih, hkey, List.length_cons]
    omega

/-- A binding is read where it is written. -/
theorem read_key {m : Mem} (hkey : IsName b.1) (hqueue : IsName b.2)
    (h : Holds m 0 (image (pre ++ keyFields b ++ post)))
    (hf : ∀ f ∈ pre ++ keyFields b ++ post, f.Fits) :
    readName m (size pre) = some b.1 ∧ readUShort m (size pre + maxNameLength) = 1 ∧
      readName m (size pre + (maxNameLength + 2)) = some b.2 := by
  rw [List.append_assoc] at h hf
  have hsplit₁ : pre ++ (keyFields b ++ post) =
      (pre ++ [writeString b.1]) ++ writeUShort 1 :: writeString b.2 :: post := by
    simp [keyFields]
  have hsplit₂ : pre ++ (keyFields b ++ post) =
      (pre ++ [writeString b.1, writeUShort 1]) ++ writeString b.2 :: post := by
    simp [keyFields]
  refine ⟨?_, ?_, ?_⟩
  · have hread := readName_string hkey h hf
    rwa [Nat.zero_add] at hread
  · rw [hsplit₁] at h hf
    have hread := readUShort_field _ h hf (by decide)
    rwa [Nat.zero_add, size_append] at hread
  · rw [hsplit₂] at h hf
    have hread := readName_string hqueue h hf
    rwa [Nat.zero_add, size_append] at hread

omit [Platform] in
/-- An item that the file has is read, or does not fit into the buffer. -/
theorem fread_whole {file : Bytes} {pos n : Nat} (hn : 0 < n) (hle : pos + n ≤ file.length) :
    fread file pos n = if 1024 < pos + n then none else some true := by
  rw [fread, Nat.min_eq_left hle, decide_eq_true ⟨hn, hle⟩]
  rfl

/-- The loop reads every key, or reaches the end of the buffer. -/
theorem readBindings_keys (hnames : ∀ b ∈ bs, IsName b.1 ∧ IsName b.2)
    (hpre : ∀ f ∈ pre, f.Fits) (hpos : size pre ≤ 1024) (pExchange : Exchange) :
    st.readBindings (image (pre ++ bs.flatMap keyFields)) (size pre) bs.length pExchange =
      if 1024 < size pre + 66 * bs.length then none
      else some (bs.foldl st.rebind pExchange) := by
  induction bs generalizing pre pExchange with
  | nil => rw [List.length_nil, if_neg (by omega)]; rfl
  | cons b bs ih =>
    obtain ⟨hkey, hqueue⟩ := hnames b List.mem_cons_self
    have hbuffer : maxRdwrFileBuffSize = 1024 := rfl
    have hfield : maxNameLength = 32 := rfl
    have hfits : ∀ f ∈ pre ++ (b :: bs).flatMap keyFields, f.Fits := by
      intro f hf
      rcases List.mem_append.mp hf with hf | hf
      · exact hpre f hf
      · exact keysFields_fit _ f hf
    have hlen : (image (pre ++ (b :: bs).flatMap keyFields)).length =
        size pre + 66 * (bs.length + 1) := by
      rw [image_length hfits, size_append, size_keysFields, List.length_cons]
    have hsplit : pre ++ (b :: bs).flatMap keyFields =
        pre ++ keyFields b ++ bs.flatMap keyFields := by
      rw [List.append_assoc, List.flatMap_cons]
    have hholds := holds_ofBytes (image (pre ++ (b :: bs).flatMap keyFields))
    rw [hsplit] at hholds hfits
    obtain ⟨hreadKey, hreadNum, hreadQueue⟩ := read_key hkey hqueue hholds hfits
    rw [← hsplit] at hreadKey hreadNum hreadQueue
    have hbind : st.bindQueues (Mem.ofBytes (image (pre ++ (b :: bs).flatMap keyFields))) b.1
        (size pre + (maxNameLength + 2)) 1 pExchange = some (st.rebind pExchange b) := by
      rw [bindQueues, hreadQueue, Option.bind_some, bindQueues]
      rfl
    rw [List.length_cons, readBindings, fread_whole (by decide) (by omega)]
    by_cases hshort : 1024 < size pre + (maxNameLength + 2)
    · rw [if_pos hshort, if_pos (by omega)]
      rfl
    rw [if_neg hshort, Option.bind_some, if_neg (by decide), hreadKey, Option.bind_some, hreadNum]
    dsimp only
    rw [fread_whole (by decide) (by omega)]
    by_cases hlong : 1024 < size pre + (maxNameLength + 2) + maxNameLength * 1
    · rw [if_pos hlong, if_pos (by omega)]
      rfl
    rw [if_neg hlong, Option.bind_some, if_neg (by decide), hbind, Option.bind_some]
    have hnext := @ih (pre ++ keyFields b)
      (fun b' hb' => hnames b' (List.mem_cons_of_mem _ hb'))
      (fun f hf => (List.mem_append.mp hf).elim (hpre f) (keyFields_fit b f))
      (by rw [size_append]; exact Nat.not_lt.mp hlong) (st.rebind pExchange b)
    rw [size_append] at hnext
    have hkeySize : size (keyFields b) = 66 := rfl
    rw [List.append_assoc, ← List.flatMap_cons, hkeySize] at hnext
    refine (congrArg (fun pos => st.readBindings _ pos bs.length _) ?_).trans (hnext.trans ?_)
    · omega
    · rw [show size pre + 66 + 66 * bs.length = size pre + 66 * (bs.length + 1) by omega]
      rfl

/-- What has been bound in the end, when every queue exists and no key comes twice. -/
theorem lookup_foldl_rebind (hnodup : (bs.map Prod.fst).Nodup)
    (hfound : ∀ b ∈ bs, (st.findQueue b.2).isSome) {pExchange : Exchange}
    (hnew : ∀ b ∈ bs, b.1 ∉ pExchange.bindingQueues) :
    (∀ b ∈ bs, (bs.foldl st.rebind pExchange).bindingQueues.lookup b.1 =
      (st.findQueue b.2).map fun queue => [queue]) ∧
    ∀ k ∉ bs.map Prod.fst, (bs.foldl st.rebind pExchange).bindingQueues.lookup k =
      pExchange.bindingQueues.lookup k := by
  induction bs generalizing pExchange with
  | nil => exact ⟨fun b hb => absurd hb List.not_mem_nil, fun _ _ => rfl⟩
  | cons b bs ih =>
    obtain ⟨hfirst, hnodup⟩ := List.nodup_cons.mp hnodup
    obtain ⟨queue, hqueue⟩ := Option.isSome_iff_exists.mp (hfound b List.mem_cons_self)
    have hrebind : st.rebind pExchange b = pExchange.createBinding b.1 queue := by
      rw [rebind, hqueue]
    have hlookup : ∀ k, (st.rebind pExchange b).bindingQueues.lookup k =
        if k = b.1 then some [queue] else pExchange.bindingQueues.lookup k := by
      intro k
      rw [hrebind, Exchange.lookup_createBinding]
      exact if_congr (and_iff_left (hnew b List.mem_cons_self)) rfl rfl
    have hnew' : ∀ b' ∈ bs, b'.1 ∉ (st.rebind pExchange b).bindingQueues := by
      intro b' hb'
      have hne : b'.1 ≠ b.1 := fun hsame => hfirst (List.mem_map.mpr ⟨b', hb', hsame⟩)
      rw [← AList.lookup_eq_none, hlookup, if_neg hne, AList.lookup_eq_none]
      exact hnew b' (List.mem_cons_of_mem _ hb')
    obtain ⟨hkeys, hothers⟩ := ih hnodup (fun b' hb' => hfound b' (List.mem_cons_of_mem _ hb'))
      hnew'
    constructor
    · intro b' hb'
      rcases List.mem_cons.mp hb' with rfl | hb'
      · rw [List.foldl_cons, hothers _ hfirst, hlookup, if_pos rfl, hqueue]
        rfl
      · exact hkeys b' hb'
    · intro k hk
      rw [List.map_cons] at hk
      rw [List.foldl_cons, hothers k (List.not_mem_of_not_mem_cons hk), hlookup,
        if_neg (List.ne_of_not_mem_cons hk)]

end Keys

/-! ## The packet -/

section Packet

variable {heap : QueueId → Option MessageQueue} {e : Exchange} {bs : List (Name × Name)}

/-- The pairs of `m_mBindingQueues` by the names of the queues. -/
def KeysOf (heap : QueueId → Option MessageQueue) (e : Exchange) (bs : List (Name × Name)) : Prop :=
  List.Forall₂ (fun entry b => entry.1 = b.1 ∧
    ∃ id q, entry.2 = [id] ∧ heap id = some q ∧ q.queueName = b.2) e.bindingQueues.entries bs

theorem exists_keysOf (hsingle : Exchange.Single e)
    (hlive : ∀ b ∈ e.bindingQueues.entries, ∀ id ∈ b.2, (heap id).isSome) :
    ∃ bs, KeysOf heap e bs := by
  have hentry : ∀ entry ∈ e.bindingQueues.entries, ∃ id q, entry.2 = [id] ∧ heap id = some q := by
    intro entry hin
    obtain ⟨id, hid⟩ := hsingle entry.1 entry.2 (AList.mem_lookup_iff.mpr hin)
    obtain ⟨q, hq⟩ := Option.isSome_iff_exists.mp
      (hlive entry hin id (hid ▸ List.mem_singleton_self id))
    exact ⟨id, q, hid, hq⟩
  unfold KeysOf
  generalize e.bindingQueues.entries = entries at hentry
  induction entries with
  | nil => exact ⟨[], .nil⟩
  | cons entry entries ih =>
    obtain ⟨id, q, hid, hq⟩ := hentry entry List.mem_cons_self
    obtain ⟨bs, hbs⟩ := ih fun entry' hin => hentry entry' (List.mem_cons_of_mem _ hin)
    exact ⟨(entry.1, q.queueName) :: bs, .cons ⟨rfl, id, q, hid, hq, rfl⟩ hbs⟩

/-- The fields behind length and command. -/
def bindFields (e : Exchange) (bs : List (Name × Name)) : List Field :=
  [writeName e.exchangeName, writeUShort bs.length] ++ bs.flatMap keyFields

theorem KeysOf.mapM (h : KeysOf heap e bs) : (e.bindingQueues.entries.mapM fun b =>
    Exchange.bindingFields heap b.1 b.2) = some (bs.map keyFields) := by
  unfold KeysOf at h
  generalize e.bindingQueues.entries = entries at h
  induction h with
  | nil => rfl
  | cons hb _ ih =>
    obtain ⟨hkey, id, q, hid, hq, hname⟩ := hb
    rw [List.mapM_cons, ih, hid, Exchange.bindingFields, List.mapM_cons, hq]
    simp [keyFields, hkey, hname]

theorem KeysOf.length (h : KeysOf heap e bs) : e.getBindingSize = bs.length := by
  rw [Exchange.getBindingSize, AList.keys, List.keys, List.length_map]
  exact List.Forall₂.length_eq h

theorem KeysOf.bindingFields (h : KeysOf heap e bs) :
    LogicServer.bindingFields heap e = some (bindFields e bs) := by
  rw [LogicServer.bindingFields, h.mapM, h.length, Option.map_some, bindFields, List.flatMap_def]

theorem bindFields_fit (hn : IsName e.exchangeName) (bs : List (Name × Name)) :
    ∀ f ∈ bindFields e bs, f.Fits := by
  intro f hf
  rcases List.mem_append.mp hf with hf | hf
  · simp only [List.mem_cons, List.not_mem_nil, or_false] at hf
    rcases hf with rfl | rfl
    · exact hn.short.le
    · exact (be_length _ _).le
  · exact keysFields_fit bs f hf

theorem size_bindFields (e : Exchange) (bs : List (Name × Name)) :
    size (bindFields e bs) = 34 + 66 * bs.length := by
  rw [bindFields, size_append, size_keysFields]
  rfl

/-- The first length is the size of the packet, cut to sixteen bits. -/
theorem KeysOf.serialize (h : KeysOf heap e bs) (hn : IsName e.exchangeName) :
    e.serializeBindingToString heap zeroed maxClintPackageLength =
      if ushort (38 + 66 * bs.length) > maxClintPackageLength then
        some ⟨Exchange.error, zeroed, maxClintPackageLength⟩
      else if 38 + 66 * bs.length > maxClintPackageLength then none
      else some ⟨Exchange.success, place zeroed 0 (writeUShort (ushort (38 + 66 * bs.length)) ::
        writeUShort cmdCreateBinding :: bindFields e bs), ushort (38 + 66 * bs.length)⟩ := by
  have hsum := (fits_bindingFields hn h.bindingFields).2
  rw [size_bindFields] at hsum
  have hlen : 4 + (34 + 66 * bs.length) = 38 + 66 * bs.length := by omega
  have hsize : ∀ iLen, size (writeUShort iLen :: writeUShort cmdCreateBinding ::
      bindFields e bs) = 38 + 66 * bs.length := by
    intro iLen
    rw [size_cons, size_cons, size_bindFields]
    simp only [writeUShort]
    omega
  unfold Exchange.serializeBindingToString
  dsimp only
  rw [hsum, hlen, h.mapM, h.length]
  refine if_congr Int.ofNat_lt rfl ?_
  have hfields : [writeUShort (ushort (38 + 66 * bs.length)), writeUShort cmdCreateBinding,
      writeName e.exchangeName, writeUShort bs.length] ++ (bs.map keyFields).flatten =
        writeUShort (ushort (38 + 66 * bs.length)) :: writeUShort cmdCreateBinding ::
          bindFields e bs := by
    rw [← List.flatMap_def]
    rfl
  show (if (size ([writeUShort (ushort (38 + 66 * bs.length)), writeUShort cmdCreateBinding,
    writeName e.exchangeName, writeUShort bs.length] ++ (bs.map keyFields).flatten) : Int) >
      maxClintPackageLength then none else _) = _
  rw [hfields, hsize]
  exact if_congr Int.ofNat_lt rfl rfl

/-- Up to 170 keys fit into the packet. -/
theorem KeysOf.carries (h : KeysOf heap e bs) (hn : IsName e.exchangeName)
    (hplain : Plain e.exchangeName) (hfew : bs.length ≤ 170) :
    ∃ packed, e.serializeBindingToString heap zeroed maxClintPackageLength = some packed ∧
      PersistenceServer.Carries packed.sent (.bind e.exchangeName (image (bindFields e bs))) := by
  have hmax : maxClintPackageLength = 11264 := rfl
  have hlen : ushort (38 + 66 * bs.length) = 38 + 66 * bs.length := Nat.mod_eq_of_lt (by omega)
  have hserialize := h.serialize hn
  rw [hlen, if_neg (by omega), if_neg (by omega)] at hserialize
  have hcarries := carries_bindings hn hplain hserialize
  have horder : bindOrder heap e = .bind e.exchangeName (image (bindFields e bs)) := by
    rw [bindOrder, h.bindingFields]
    dsimp only
    rw [image_length (bindFields_fit hn bs), size_bindFields, if_pos (by omega)]
  rw [horder] at hcarries
  exact ⟨_, hserialize, hcarries⟩

/-- With more keys there is no packet, or the zeros of the buffer. -/
theorem KeysOf.too_long (h : KeysOf heap e bs) (hn : IsName e.exchangeName)
    (hmany : 170 < bs.length) {packed : Packed}
    (hpacked : e.serializeBindingToString heap zeroed maxClintPackageLength = some packed) :
    packed.sent = zeroed.read 0 maxClintPackageLength := by
  have hmax : maxClintPackageLength = 11264 := rfl
  rw [h.serialize hn] at hpacked
  split at hpacked
  · cases hpacked
    rfl
  · rw [if_pos (by omega)] at hpacked
    cases hpacked

end Packet

/-! ## All directories -/

/-- What is read in one directory: no exchange, or an exchange and its key. -/
def readExchangeDir (st : LogicServer) (files : FileSystem) (d_name : Name) :
    Option (Option (Name × Exchange)) :=
  match exchangeFile files d_name infoFile with
  | none => some none
  | some info =>
    if info.length < maxNameLength + 2 + 1 + 1 then some none
    else
      (readExchange info).bind fun pExchange =>
        (st.restoreBindings (exchangeFile files d_name bindingFile) pExchange).map fun e =>
          some (pExchange.exchangeName, e)

def addExchange (st : LogicServer) : Option (Name × Exchange) → LogicServer
  | none => st
  | some r => st.setExchanges (st.exchanges.insert r.1 r.2)

/-- What the map has under a name. -/
def Holding (st : LogicServer) (d : Name) (o : Option (Name × Exchange)) : Prop :=
  st.exchanges.lookup d = o.map Prod.snd

section Directories

variable {st st' : LogicServer} {files files' : FileSystem} {d : Name}

theorem bindQueues_congr (h : st'.findQueue = st.findQueue) (pTemp : Mem) (key : Name) (pos n : Nat)
    (pExchange : Exchange) :
    st'.bindQueues pTemp key pos n pExchange = st.bindQueues pTemp key pos n pExchange := by
  induction n generalizing pos pExchange with
  | zero => rfl
  | succ n ih =>
    rw [bindQueues, bindQueues, h]
    exact congrArg (Option.bind _) (funext fun _ => ih _ _)

theorem readBindings_congr (h : st'.findQueue = st.findQueue) (file : Bytes) (pos n : Nat)
    (pExchange : Exchange) :
    st'.readBindings file pos n pExchange = st.readBindings file pos n pExchange := by
  induction n generalizing pos pExchange with
  | zero => rfl
  | succ n ih =>
    have hnext : ∀ pos, readBindings st' file pos n = readBindings st file pos n :=
      fun pos => funext (ih pos)
    simp only [readBindings, bindQueues_congr h, hnext]

/-- The bindings are read with the queues that are there. -/
theorem readExchangeDir_congr (h : st'.findQueue = st.findQueue) (files : FileSystem) (d : Name) :
    st'.readExchangeDir files d = st.readExchangeDir files d := by
  have hrestore : st'.restoreBindings = st.restoreBindings := by
    funext binding pExchange
    cases binding with
    | none => rfl
    | some file => exact if_congr Iff.rfl rfl (readBindings_congr h file _ _ _)
  rw [readExchangeDir, readExchangeDir, hrestore]

theorem initExchangeDir_eq (st : LogicServer) (files : FileSystem) (d : Name) :
    st.initExchangeDir files d = (st.readExchangeDir files d).map st.addExchange := by
  unfold initExchangeDir readExchangeDir
  cases exchangeFile files d infoFile with
  | none => rfl
  | some info =>
    dsimp only
    split
    · rfl
    · rw [Option.map_bind]
      refine congrArg (Option.bind _) (funext fun pExchange => ?_)
      rw [Function.comp_apply, Option.map_map]
      rfl

theorem findQueue_addExchange (st : LogicServer) (o : Option (Name × Exchange)) :
    (st.addExchange o).findQueue = st.findQueue := by
  cases o with
  | none => rfl
  | some r => rfl

theorem initExchangeDirs_eq (h : st'.findQueue = st.findQueue) (files : FileSystem)
    (dirs : List Name) : st'.initExchangeDirs files dirs =
      Loading.load (st.readExchangeDir files) addExchange dirs st' := by
  induction dirs generalizing st' with
  | nil => rfl
  | cons d dirs ih =>
    rw [initExchangeDirs, initExchangeDir_eq, Loading.load, Option.bind_map,
      readExchangeDir_congr h]
    exact congrArg (Option.bind _) (funext fun o => ih ((findQueue_addExchange _ o).trans h))

theorem addExchange_registers : Loading.Registers addExchange
    (fun d o => ∀ r ∈ o, r.1 = d) Holding none := by
  constructor
  · intro st d o hname hvacant
    cases o with
    | none => exact hvacant
    | some r =>
      cases hname r rfl
      exact AList.lookup_insert _
  · intro st d e o o' hne hname h
    cases o with
    | none => exact h
    | some r =>
      cases hname r rfl
      exact (AList.lookup_insert_ne hne).trans h

end Directories

/-! ## The restart -/

/-- A durable exchange after calls of `OnCreateBinding`; its queues are there again. -/
structure BoundExchange (heap : QueueId → Option MessageQueue) (st : LogicServer)
    (files : FileSystem) (e : Exchange) : Prop where
  created : Created files .exchange e.exchangeName
  calls : ∃ iExchangeType bAutoDel calls b, Runs.run Exchange.bindingStep
    ⟨Exchange.new e.exchangeName iExchangeType true bAutoDel, ∅⟩ calls = some b ∧ b.exchange = e
  keys : ∀ b ∈ e.bindingQueues.entries, IsName b.1
  queues : ∀ b ∈ e.bindingQueues.entries, ∀ id ∈ b.2, ∃ q, heap id = some q ∧
    IsName q.queueName ∧ (st.findQueue q.queueName).isSome

/-- Each key has the queues of the old names. -/
def Rebound (heap : QueueId → Option MessageQueue) (st : LogicServer) (e : Exchange) : Prop :=
  ∃ e', st.exchanges.lookup e.exchangeName = some e' ∧
    ∀ key, e'.bindingQueues.lookup key = (e.bindingQueues.lookup key).map fun queues =>
      queues.filterMap fun id => (heap id).bind fun q => st.findQueue q.queueName

/-- What is in `binding.bin`. -/
def bindingBytes (heap : QueueId → Option MessageQueue) (e : Exchange) : Bytes :=
  image ((LogicServer.bindingFields heap e).getD [])

section Bound

variable {heap : QueueId → Option MessageQueue} {st : LogicServer} {files : FileSystem}
  {e : Exchange} {bs : List (Name × Name)}

theorem KeysOf.map_fst (h : KeysOf heap e bs) : bs.map Prod.fst = e.bindingQueues.keys := by
  unfold KeysOf at h
  rw [AList.keys, List.keys]
  generalize e.bindingQueues.entries = entries at h
  induction h with
  | nil => rfl
  | cons hb _ ih => rw [List.map_cons, List.map_cons, ih, hb.1]

/-- A pair comes from the table. -/
theorem KeysOf.exists_entry (h : KeysOf heap e bs) {b : Name × Name} (hb : b ∈ bs) :
    ∃ id q, e.bindingQueues.lookup b.1 = some [id] ∧ heap id = some q ∧ q.queueName = b.2 := by
  have hentry : ∃ entry ∈ e.bindingQueues.entries, entry.1 = b.1 ∧
      ∃ id q, entry.2 = [id] ∧ heap id = some q ∧ q.queueName = b.2 := by
    unfold KeysOf at h
    generalize e.bindingQueues.entries = entries at h
    induction h with
    | nil => cases hb
    | cons hfirst _ ih =>
      rcases List.mem_cons.mp hb with rfl | hb
      · exact ⟨_, List.mem_cons_self, hfirst⟩
      · obtain ⟨entry, hin, hentry⟩ := ih hb
        exact ⟨entry, List.mem_cons_of_mem _ hin, hentry⟩
  obtain ⟨entry, hin, hkey, id, q, hid, hq, hname⟩ := hentry
  refine ⟨id, q, ?_, hq, hname⟩
  rw [← hkey, ← hid]
  exact AList.mem_lookup_iff.mpr hin

theorem BoundExchange.exists_keysOf (h : BoundExchange heap st files e) :
    ∃ bs, KeysOf heap e bs ∧ ∀ b ∈ bs, IsName b.1 ∧ IsName b.2 ∧ (st.findQueue b.2).isSome := by
  have hsingle : Exchange.Single e := by
    obtain ⟨iExchangeType, bAutoDel, calls, b, hrun, hb⟩ := h.calls
    rw [← hb]
    refine Runs.invariant_of_step (fun _ _ _ h hstep => Exchange.single_of_step h hstep) ?_ hrun
    intro k l hl
    cases hl
  obtain ⟨bs, hbs⟩ := LogicServer.exists_keysOf hsingle fun b hb id hid => by
    obtain ⟨q, hq, -⟩ := h.queues b hb id hid
    exact Option.isSome_of_eq_some hq
  refine ⟨bs, hbs, ?_⟩
  intro b hb
  obtain ⟨id, q, hlookup, hq, hname⟩ := hbs.exists_entry hb
  have hentry := AList.mem_lookup_iff.mp hlookup
  obtain ⟨q', hq', hisName, hfound⟩ := h.queues _ hentry id (List.mem_singleton_self id)
  cases hq.symm.trans hq'
  rw [hname] at hisName hfound
  exact ⟨h.keys _ hentry, hisName, hfound⟩

/-- What is read in the directory of an exchange: a key too many is read past the buffer. -/
theorem readExchangeDir_bound (h : Created files .exchange e.exchangeName)
    (hkeys : KeysOf heap e bs) (hnames : ∀ b ∈ bs, IsName b.1 ∧ IsName b.2)
    (hshort : bs.length < 2 ^ 16)
    (hfile : exchangeFile files e.exchangeName bindingFile = some (bindingBytes heap e)) :
    ∃ pExchange, pExchange.bindingQueues = ∅ ∧ st.readExchangeDir files e.exchangeName =
      if 15 < bs.length then none
      else some (some (e.exchangeName, bs.foldl st.rebind pExchange)) := by
  obtain ⟨info, hinfo, hlong, hname⟩ := h.info
  let pExchange : Exchange :=
    { exchangeName := e.exchangeName
      exchangeType := readUShort (Mem.ofBytes info) 32
      durable := readBool (Mem.ofBytes info) 34
      autoDel := readBool (Mem.ofBytes info) 35 }
  have hfits := bindFields_fit h.isName bs
  have hbytes : bindingBytes heap e = image (bindFields e bs) := by
    rw [bindingBytes, hkeys.bindingFields, Option.getD_some]
  have hlen : (image (bindFields e bs)).length = 34 + 66 * bs.length := by
    rw [image_length hfits, size_bindFields]
  have hnum : readUShort (Mem.ofBytes (image (bindFields e bs))) 32 = bs.length := by
    have hread := @readUShort_field _ 0 [writeName e.exchangeName] (bs.flatMap keyFields) bs.length
      (holds_ofBytes (image (bindFields e bs))) hfits hshort
    exact hread
  have hfirst : ∀ f ∈ [writeName e.exchangeName, writeUShort bs.length], f.Fits :=
    fun f hf => hfits f (List.mem_append_left _ hf)
  have hbindings : st.restoreBindings (some (bindingBytes heap e)) pExchange =
      if 15 < bs.length then none else some (bs.foldl st.rebind pExchange) := by
    have hfield : maxNameLength = 32 := rfl
    rw [hbytes, restoreBindings, if_neg (by omega), hnum]
    refine (readBindings_keys hnames hfirst (show 34 ≤ 1024 by decide) pExchange).trans
      (if_congr ?_ rfl rfl)
    show 1024 < 34 + 66 * bs.length ↔ 15 < bs.length
    omega
  refine ⟨pExchange, rfl, ?_⟩
  rw [readExchangeDir, hfile, exchangeFile_eq, hinfo]
  dsimp only
  rw [if_neg (Nat.not_lt.mpr hlong), readExchange, hname, Option.map_some, Option.bind_some]
  refine (congrArg (Option.map _) hbindings).trans ?_
  rw [apply_ite (Option.map _)]
  rfl

/-- The keys that were read are those of the old exchange. -/
theorem rebound_of_keys (hkeys : KeysOf heap e bs) (hfound : ∀ b ∈ bs, (st.findQueue b.2).isSome)
    {pExchange : Exchange} (hnew : pExchange.bindingQueues = ∅) (key : Name) :
    (bs.foldl st.rebind pExchange).bindingQueues.lookup key =
      (e.bindingQueues.lookup key).map fun queues =>
        queues.filterMap fun id => (heap id).bind fun q => st.findQueue q.queueName := by
  have hnodup : (bs.map Prod.fst).Nodup := by
    rw [hkeys.map_fst]
    exact e.bindingQueues.nodupKeys
  have hvacant : ∀ b ∈ bs, b.1 ∉ pExchange.bindingQueues := by
    intro b _
    rw [hnew]
    exact AList.notMem_empty _
  obtain ⟨hbound, hothers⟩ := lookup_foldl_rebind hnodup hfound hvacant
  by_cases hin : key ∈ bs.map Prod.fst
  · obtain ⟨b, hb, rfl⟩ := List.mem_map.mp hin
    obtain ⟨id, q, hlookup, hq, hname⟩ := hkeys.exists_entry hb
    obtain ⟨queue, hqueue⟩ := Option.isSome_iff_exists.mp (hfound b hb)
    rw [hbound b hb, hlookup, hqueue, Option.map_some, Option.map_some, List.filterMap_cons,
      hq, Option.bind_some, hname, hqueue]
    rfl
  · have hnone : e.bindingQueues.lookup key = none := by
      rw [AList.lookup_eq_none]
      intro hkey
      rw [hkeys.map_fst] at hin
      exact hin (AList.mem_keys.mp hkey)
    rw [hothers key hin, hnew, hnone]
    rfl

end Bound

section Restart

variable {heap : QueueId → Option MessageQueue} {st : LogicServer} {s : PersistenceServer}
  {es : List Exchange}

/-- Every directory of an exchange belongs to `es`, or is read without a fault. -/
structure Restartable (heap : QueueId → Option MessageQueue) (st : LogicServer)
    (s : PersistenceServer) (es : List Exchange) : Prop where
  bound : ∀ e ∈ es, BoundExchange heap st s.files e
  names : (es.map Exchange.exchangeName).Nodup
  others : ∀ d ∈ exchangeDirs s.files, (∀ e ∈ es, e.exchangeName ≠ d) →
    PersistenceServer.Stands s.files .exchange d ∧
      ∃ o, st.readExchangeDir s.files d = some o ∧ ∀ r ∈ o, r.1 = d
  empty : st.exchanges = ∅

/-- `SerializeBindingToString` as `OnCreateBinding` calls it. -/
def serializeBindings (heap : QueueId → Option MessageQueue) (e : Exchange) : Option Packed :=
  e.serializeBindingToString heap zeroed maxClintPackageLength

/-- What `OnInitExchange` finds. -/
abbrev BindingsStored (heap : QueueId → Option MessageQueue) (es : List Exchange)
    (files files' : FileSystem) : Prop :=
  Stored .exchange bindingFile Exchange.exchangeName (bindingBytes heap) es files files'

/-- The packets are accepted, and the server that starts has every key with its queues. -/
def BindingsSurvive (heap : QueueId → Option MessageQueue) (es : List Exchange)
    (s : PersistenceServer) (st : LogicServer) : Prop :=
  ∃ s' st', storeAll (serializeBindings heap) es s = some s' ∧
    st.onInitExchange s'.files = some st' ∧ ∀ e ∈ es, Rebound heap st' e

theorem Restartable.stored (h : Restartable heap st s es)
    (hfew : ∀ e ∈ es, e.getBindingSize ≤ 170) :
    ∃ s', storeAll (serializeBindings heap) es s = some s' ∧
      BindingsStored heap es s.files s'.files := by
  refine storeAll_stored (by decide) h.names (fun e he => (h.bound e he).created.stands) ?_
  intro e he
  obtain ⟨bs, hkeys, -⟩ := (h.bound e he).exists_keysOf
  have hcreated := (h.bound e he).created
  obtain ⟨packed, hpacked, hcarries⟩ := hkeys.carries hcreated.isName hcreated.stands.plain
    (hkeys.length ▸ hfew e he)
  refine ⟨packed, hpacked, fun s => ?_⟩
  rw [acceptPacket_bind hcarries, bindingBytes, hkeys.bindingFields, Option.getD_some]

/-- Only packets that fit are accepted. -/
theorem Restartable.accepted (h : Restartable heap st s es) {s' : PersistenceServer}
    (hstore : storeAll (serializeBindings heap) es s = some s') :
    ∀ e ∈ es, e.getBindingSize ≤ 170 := by
  intro e he
  obtain ⟨packed, hpacked, s₀, haccept⟩ := storeAll_accepts hstore e he
  obtain ⟨bs, hkeys, -⟩ := (h.bound e he).exists_keysOf
  by_contra hmany
  rw [hkeys.length] at hmany
  rw [hkeys.too_long (h.bound e he).created.isName (Nat.lt_of_not_le hmany) hpacked,
    acceptPacket_zeroed] at haccept
  cases haccept

section Reading

variable {files : FileSystem} (h : Restartable heap st s es)
  (hstored : BindingsStored heap es s.files files)

include h hstored

/-- What is read in the directory of an exchange. -/
theorem Restartable.reads {e : Exchange} (he : e ∈ es) (hfew : e.getBindingSize ≤ 170) :
    ∃ pExchange, st.readExchangeDir files e.exchangeName =
      (if 15 < e.getBindingSize then none else some (some (e.exchangeName, pExchange))) ∧
        ∀ key, pExchange.bindingQueues.lookup key =
          (e.bindingQueues.lookup key).map fun queues =>
            queues.filterMap fun id => (heap id).bind fun q => st.findQueue q.queueName := by
  obtain ⟨bs, hkeys, hnames⟩ := (h.bound e he).exists_keysOf
  have hcreated : Created files .exchange e.exchangeName :=
    hstored.created (h.bound e he).created (by decide)
  have hfile : exchangeFile files e.exchangeName bindingFile = some (bindingBytes heap e) := by
    rw [exchangeFile_eq, dirFile_stands hcreated.stands (by decide)]
    exact hstored.stored e he
  rw [hkeys.length] at hfew
  obtain ⟨pExchange, hnew, hread⟩ := @readExchangeDir_bound _ heap st files e bs hcreated hkeys
    (fun b hb => ⟨(hnames b hb).1, (hnames b hb).2.1⟩) (by omega) hfile
  refine ⟨bs.foldl st.rebind pExchange, ?_, ?_⟩
  · rw [hread, hkeys.length]
  · exact rebound_of_keys hkeys (fun b hb => (hnames b hb).2.2) hnew

/-- A directory of another exchange is read as before. -/
theorem Restartable.reads_other {d : Name} (hd : d ∈ exchangeDirs files)
    (hforeign : ∀ e ∈ es, e.exchangeName ≠ d) :
    ∃ o, st.readExchangeDir files d = some o ∧ ∀ r ∈ o, r.1 = d := by
  obtain ⟨hstands, o, ho, hname⟩ := h.others d (hstored.listed.mp hd) hforeign
  have hfile : ∀ f, Plain f → exchangeFile files d f = exchangeFile s.files d f :=
    fun f hf => dirFile_congr hstands hstored.dirs hf (hstored.foreign hforeign f)
  refine ⟨o, ?_, hname⟩
  rw [← ho, readExchangeDir, readExchangeDir, hfile infoFile (by decide),
    hfile bindingFile (by decide)]

end Reading

theorem Restartable.vacant (h : Restartable heap st s es) (d : Name) : Holding st d none := by
  rw [Holding, h.empty]
  rfl

/-- With a sixteenth key `OnInitExchange` reads past its buffer. -/
theorem BindingsSurvive.few (h : Restartable heap st s es)
    (hsurvive : BindingsSurvive heap es s st) : ∀ e ∈ es, e.getBindingSize ≤ 15 := by
  obtain ⟨s', st', hstore, hinit, -⟩ := hsurvive
  have haccepted := h.accepted hstore
  obtain ⟨s'', hstore', hstored⟩ := h.stored haccepted
  cases hstore.symm.trans hstore'
  intro e he
  rw [onInitExchange, initExchangeDirs_eq rfl] at hinit
  have hcreated : Created s'.files .exchange e.exchangeName :=
    hstored.created (h.bound e he).created (by decide)
  have hread := Loading.load_reads hinit e.exchangeName hcreated.listed
  obtain ⟨pExchange, heq, -⟩ := h.reads hstored he (haccepted e he)
  by_contra hmany
  rw [heq, if_pos (Nat.lt_of_not_le hmany)] at hread
  cases hread

theorem bindingsSurvive_of_few (h : Restartable heap st s es)
    (hfew : ∀ e ∈ es, e.getBindingSize ≤ 15) : BindingsSurvive heap es s st := by
  have haccepted : ∀ e ∈ es, e.getBindingSize ≤ 170 :=
    fun e he => (hfew e he).trans (by decide)
  obtain ⟨s', hstore, hstored⟩ := h.stored haccepted
  have hreads : ∀ e ∈ es, ∃ pExchange, st.readExchangeDir s'.files e.exchangeName =
      some (some (e.exchangeName, pExchange)) ∧
        ∀ key, pExchange.bindingQueues.lookup key =
          (e.bindingQueues.lookup key).map fun queues =>
            queues.filterMap fun id => (heap id).bind fun q => st.findQueue q.queueName := by
    intro e he
    obtain ⟨pExchange, hread, hkeys⟩ := h.reads hstored he (haccepted e he)
    rw [if_neg (Nat.not_lt.mpr (hfew e he))] at hread
    exact ⟨pExchange, hread, hkeys⟩
  have hread : ∀ d ∈ exchangeDirs s'.files, ∃ o, st.readExchangeDir s'.files d = some o ∧
      ∀ r ∈ o, r.1 = d := by
    intro d hd
    by_cases hown : ∃ e ∈ es, e.exchangeName = d
    · obtain ⟨e, he, rfl⟩ := hown
      obtain ⟨pExchange, hread, -⟩ := hreads e he
      refine ⟨_, hread, ?_⟩
      intro r hr
      cases hr
      rfl
    · exact h.reads_other hstored hd fun e he hsame => hown ⟨e, he, hsame⟩
  obtain ⟨st', hinit, hlists, -⟩ := Loading.load_lists addExchange_registers
    (PersistenceServer.nodup_subDirs s'.files .exchange) hread fun d _ => h.vacant d
  refine ⟨s', st', hstore, (initExchangeDirs_eq rfl _ _).trans hinit, ?_⟩
  intro e he
  have hcreated : Created s'.files .exchange e.exchangeName :=
    hstored.created (h.bound e he).created (by decide)
  obtain ⟨pExchange, hread, hkeys⟩ := hreads e he
  have hkeeps : ∀ st₁ o, findQueue st₁ = st.findQueue →
      (addExchange st₁ o).findQueue = st.findQueue :=
    fun st₁ o h₁ => (findQueue_addExchange st₁ o).trans h₁
  have hqueues := Loading.load_keeps hkeeps rfl hinit
  refine ⟨pExchange, hlists _ hcreated.listed _ hread, ?_⟩
  simp only [hqueues]
  exact hkeys

/-- Bindings survive if no exchange has more than fifteen keys. -/
theorem bindings_survive_iff (h : Restartable heap st s es) :
    BindingsSurvive heap es s st ↔ ∀ e ∈ es, e.getBindingSize ≤ 15 :=
  ⟨BindingsSurvive.few h, bindingsSurvive_of_few h⟩

end Restart

end Model

section Runs

attribute [local instance] Platform.plain

/-- The directory of one exchange. -/
def exchangeDir (e : Name) : FileSystem :=
  AList.insert (PersistenceServer.Kind.exchange.base.child e) .dir
    (AList.insert PersistenceServer.Kind.exchange.base .dir ∅)

theorem stands_exchangeDir {e : Name} (he : Plain e) :
    PersistenceServer.Stands (exchangeDir e) .exchange e := by
  refine ⟨he, Or.inr ?_, Or.inr (AList.lookup_insert _), ?_⟩
  · rw [exchangeDir, AList.lookup_insert_ne (PersistenceServer.child_ne_base _ _ e).symm,
      AList.lookup_insert]
  · rintro f (hnil | hdir)
    · exact Path.child_ne_nil _ _ hnil
    · rw [exchangeDir, AList.lookup_insert_ne (PersistenceServer.file_ne_dir _ _ e e f),
        AList.lookup_insert_ne (PersistenceServer.file_ne_base _ _ e f)] at hdir
      cases hdir

/-- `info.bin` of a durable exchange. -/
def exchangeInfo : Bytes := image [writeName [101], writeUShort 1, writeBool true, writeBool false]

def oneExchange : FileSystem :=
  put (exchangeDir [101]) ((PersistenceServer.Kind.exchange.base.child [101]).child infoFile) exchangeInfo

theorem created_oneExchange : Created oneExchange .exchange [101] := by
  have hstands : PersistenceServer.Stands (exchangeDir [101]) .exchange [101] :=
    stands_exchangeDir (by decide)
  have hdirs := sameDirs_put (hstands.file infoFile) exchangeInfo
  exact ⟨hstands.congr hdirs, exchangeInfo, by decide +kernel, by decide, by decide⟩

/-- Keys of one letter. -/
def letters (n : Nat) : List Name := (List.range n).map fun i => [(97 + i).toUInt8]

/-- The exchange under whose keys one queue was bound. -/
def exchangeWith (n : Nat) : Exchange :=
  (letters n).foldl (fun e key => e.createBinding key 0)
    (Exchange.new [101] exchangeTypeDirect true false)

/-- One queue. -/
def oneHeap : QueueId → Option MessageQueue := fun _ => some { queueName := [113] }

theorem run_creates (keys : List Name) (b : Exchange.Bound) :
    ∃ b', Runs.run Exchange.bindingStep b (keys.map fun key => .create key 0) = some b' ∧
      b'.exchange = keys.foldl (fun e key => e.createBinding key 0) b.exchange := by
  induction keys generalizing b with
  | nil => exact ⟨b, rfl, rfl⟩
  | cons key keys ih => exact ih ⟨b.exchange.createBinding key 0, insert (key, 0) b.pairs⟩

theorem restartable_exchangeWith {n : Nat} (hname : (exchangeWith n).exchangeName = [101])
    (hkeys : ∀ key ∈ (exchangeWith n).bindingQueues.keys, IsName key) :
    Restartable oneHeap ((start none none).insertUnSubcribe [113] 0) { files := oneExchange }
      [exchangeWith n] := by
  refine ⟨?_, List.nodup_singleton _, ?_, rfl⟩
  · intro e he
    cases List.mem_singleton.mp he
    obtain ⟨b, hrun, hb⟩ := run_creates (letters n)
      ⟨Exchange.new [101] exchangeTypeDirect true false, ∅⟩
    refine ⟨?_, ⟨exchangeTypeDirect, false, (letters n).map fun key => .create key 0, b, ?_, hb⟩,
      fun b hb => hkeys b.1 (List.mem_map_of_mem hb), ?_⟩
    · rw [hname]
      exact created_oneExchange
    · rw [hname]
      exact hrun
    · intro b _ id _
      exact ⟨_, rfl, by decide, by decide⟩
  · intro d hd hother
    have honly : exchangeDirs oneExchange = [[101]] := by decide
    rw [honly] at hd
    exact absurd (hname.trans (List.mem_singleton.mp hd).symm) (hother _ List.mem_cons_self)

/-- Two keys come back. -/
theorem bindings_survive_two : BindingsSurvive oneHeap [exchangeWith 2] { files := oneExchange }
    ((start none none).insertUnSubcribe [113] 0) := by
  refine (bindings_survive_iff (restartable_exchangeWith (by decide) (by decide))).mpr ?_
  intro e he
  cases List.mem_singleton.mp he
  decide

/-- Of sixteen keys the last one is read past the buffer. -/
theorem sixteenth_key_past_buffer :
    Restartable oneHeap ((start none none).insertUnSubcribe [113] 0) { files := oneExchange }
        [exchangeWith 16] ∧
      ¬ BindingsSurvive oneHeap [exchangeWith 16] { files := oneExchange }
        ((start none none).insertUnSubcribe [113] 0) := by
  have hready := @restartable_exchangeWith 16 (by decide) (by decide)
  refine ⟨hready, ?_⟩
  intro hsurvive
  have hfew := BindingsSurvive.few hready hsurvive _ List.mem_cons_self
  exact absurd hfew (by decide)

end Runs

end Wsmq.LogicServer
