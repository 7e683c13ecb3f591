import Wsmq.ConnectServer

/-!
# A round of `ConnectServer::Run` over `LOGIC_TO_CONNECT`

Packages are gathered in the send windows, a window is sent early when it is short, and
every window that a package went into is sent at the end of the round.
-/

namespace Wsmq
open Lib.ByteString Lib.Packing

/-- What `poll` returns for a socket. -/
inductive PollRet
  /-- `EINTR` or `EAGAIN`. -/
  | again
  | failed
  /-- With `POLLOUT`. -/
  | writable
  deriving DecidableEq

/-- What `send` returns. -/
inductive SendRet
  /-- `EWOULDBLOCK`, `EAGAIN` or `EINTR`. -/
  | again
  | failed
  | sent (iLen : Nat)
  deriving DecidableEq

/-- `send` took something. -/
def SendRet.Took : SendRet → Prop
  | .sent iLen => 0 < iLen
  | _ => False

instance : DecidablePred SendRet.Took
  | .sent _ => inferInstanceAs (Decidable (0 < _))
  | .again | .failed => .isFalse nofun

/-- What the system calls of a round return, in the order in which they are made. -/
structure SysCalls where
  polls : List PollRet
  sends : List SendRet

namespace FuncTool

structure Sent where
  /-- `SUCCESS` and not `ERROR`. -/
  ok : Bool
  /-- What the socket took. -/
  taken : Bytes
  /-- What the `send` calls after this return. -/
  sends : List SendRet

/-- `Sendn`; without a result the loop goes on for longer than `sends`. -/
def sendn : List SendRet → Bytes → Option Sent
  | sends, [] => some ⟨true, [], sends⟩
  | [], _ :: _ => none
  | .again :: sends, data@(_ :: _) => sendn sends data
  | .failed :: sends, _ :: _ => some ⟨false, [], sends⟩
  | .sent 0 :: sends, _ :: _ => some ⟨false, [], sends⟩
  | .sent (n + 1) :: sends, data@(_ :: _) =>
    (sendn sends (data.drop (n + 1))).map fun r => { r with taken := data.take (n + 1) ++ r.taken }

end FuncTool

namespace ConnectServer

/-- The loop of `SendDataToClient` around `poll`: whether the socket can be written. -/
def waitWritable : List PollRet → Option (Bool × List PollRet)
  | [] => none
  | .again :: polls => waitWritable polls
  | .failed :: polls => some (false, polls)
  | .writable :: polls => some (true, polls)

/-- `SendDataToClient` with the whole window. -/
def sendDataToClient (calls : SysCalls) (c : ClientConnect) :
    Option (Bool × ClientConnect × SysCalls) :=
  match waitWritable calls.polls with
  | none => none
  | some (false, polls) => some (false, c, { calls with polls := polls })
  | some (true, polls) => (FuncTool.sendn calls.sends c.sendBuff).map fun r =>
      (r.ok, { c with socket := c.socket ++ r.taken }, ⟨polls, r.sends⟩)

/-- `m_pSendTail=m_pSendBuff`. -/
def resetTail (c : ClientConnect) : ClientConnect := { c with sendBuff := [] }

/-- The other side has closed. -/
def closed (s : ConnectServer) (c : ClientConnect) : ConnectServer :=
  (s.tellClientExit c.index).clientExit c.index

structure Batch where
  server : ConnectServer
  /-- The slots of the connections, once a package. -/
  vSendClients : List Int := []
  calls : SysCalls

namespace Batch

/-- The body of the loop once a package is dequeued. -/
def takePack (b : Batch) (pack : Bytes) : Option Batch :=
  let pBuff := Mem.ofBytes pack
  if pack.length < sizeofClientPackageHead then some b
  else
    let iClientIndex := readInt pBuff 2
    match b.server.findClient iClientIndex with
    | none => some { b with server := b.server.tellClientExit iClientIndex }
    | some c =>
      if ¬ ToClient (readUShort pBuff 6) then some b
      else if c.freeSpace ≥ pack.length then
        some { b with
          server := b.server.setClient (c.append pack) iClientIndex
          vSendClients := b.vSendClients ++ [iClientIndex] }
      else
        (sendDataToClient b.calls c).map fun (ok, c', calls) =>
          if ok then
            { server := b.server.setClient ((resetTail c').append pack) iClientIndex
              vSendClients := b.vSendClients ++ [iClientIndex]
              calls := calls }
          else { b with server := b.server.closed c, calls := calls }

/-- The body of the loop over `vSendClients`.  The socket of a connection that has been
closed since is closed, too, and `SendDataToClient` fails. -/
def flushClient (b : Batch) (iIndex : Int) : Option Batch :=
  match b.server.findClient iIndex with
  | none => some { b with server := b.server.tellClientExit iIndex }
  | some c =>
    (sendDataToClient b.calls c).map fun (ok, c', calls) =>
      if ok then { b with server := b.server.setClient (resetTail c') iIndex, calls := calls }
      else { b with server := b.server.closed c, calls := calls }

end Batch

/-- The round over the packages `packs`; without a result one of the loops around the system
calls goes on for longer than `calls`. -/
def round (s : ConnectServer) (calls : SysCalls) (packs : List Bytes) : Option Batch :=
  (packs.foldlM Batch.takePack { server := s, calls := calls }).bind fun b =>
    b.vSendClients.foldlM Batch.flushClient b

end ConnectServer

/-! ## System calls that succeed -/

namespace SysCalls

/-- No call fails. -/
structure Succeed (calls : SysCalls) : Prop where
  polls : .failed ∉ calls.polls
  sends : ∀ r ∈ calls.sends, r ≠ .again → r.Took

/-- The returns go on for `n` more windows. -/
structure Enough (calls : SysCalls) (n : Nat) : Prop where
  polls : n ≤ calls.polls.countP (· = .writable)
  sends : n * serverBufferSize ≤ calls.sends.countP SendRet.Took

end SysCalls

namespace FuncTool

/-- `Sendn` hands over all bytes or fails. -/
theorem sendn_taken {sends : List SendRet} {data : Bytes} {r : Sent}
    (h : sendn sends data = some r) (hok : r.ok = true) : r.taken = data := by
  induction sends generalizing data r with
  | nil =>
    cases data with
    | nil =>
      simp only [sendn, Option.some.injEq] at h
      rw [← h]
    | cons b bs => simp [sendn] at h
  | cons ret sends ih =>
    cases data with
    | nil =>
      simp only [sendn, Option.some.injEq] at h
      rw [← h]
    | cons b bs =>
      match ret with
      | .again => exact ih h hok
      | .failed | .sent 0 =>
        simp only [sendn, Option.some.injEq] at h
        simp [← h] at hok
      | .sent (n + 1) =>
        obtain ⟨r', hr', rfl⟩ := Option.map_eq_some_iff.mp h
        show (b :: bs).take (n + 1) ++ r'.taken = b :: bs
        rw [ih hr' hok, List.take_append_drop]

theorem sendn_succeeds {sends : List SendRet} (hs : ∀ r ∈ sends, r ≠ .again → r.Took)
    {data : Bytes} {r : Sent} (h : sendn sends data = some r) :
    r.ok = true ∧ ∀ ret ∈ r.sends, ret ≠ .again → ret.Took := by
  induction sends generalizing data r with
  | nil =>
    cases data with
    | nil =>
      simp only [sendn, Option.some.injEq] at h
      rw [← h]
      exact ⟨rfl, hs⟩
    | cons b bs => simp [sendn] at h
  | cons ret sends ih =>
    have hrest : ∀ r ∈ sends, r ≠ .again → r.Took := fun r hr => hs r (List.mem_cons_of_mem _ hr)
    cases data with
    | nil =>
      simp only [sendn, Option.some.injEq] at h
      rw [← h]
      exact ⟨rfl, hs⟩
    | cons b bs =>
      match ret, hs ret List.mem_cons_self with
      | .again, _ => exact ih hrest h
      | .failed, hret => exact (hret nofun).elim
      | .sent 0, hret => exact absurd (hret nofun) (Nat.lt_irrefl 0)
      | .sent (n + 1), _ =>
        obtain ⟨r', hr', rfl⟩ := Option.map_eq_some_iff.mp h
        have hr'' := ih hrest hr'
        exact hr''

/-- Every `send` takes a byte at least. -/
theorem sendn_ends {sends : List SendRet} (hs : ∀ r ∈ sends, r ≠ .again → r.Took) {data : Bytes}
    (hcount : data.length ≤ sends.countP SendRet.Took) :
    ∃ r, sendn sends data = some r ∧
      sends.countP SendRet.Took ≤ r.sends.countP SendRet.Took + data.length := by
  induction sends generalizing data with
  | nil =>
    have hdata : data = [] := List.length_eq_zero_iff.mp (Nat.le_zero.mp hcount)
    subst hdata
    exact ⟨_, rfl, Nat.le_refl _⟩
  | cons ret sends ih =>
    have hrest : ∀ r ∈ sends, r ≠ .again → r.Took := fun r hr => hs r (List.mem_cons_of_mem _ hr)
    cases data with
    | nil => exact ⟨_, rfl, Nat.le_refl _⟩
    | cons b bs =>
      match ret, hs ret List.mem_cons_self with
      | .again, _ =>
        rw [List.countP_cons_of_neg (by decide)] at hcount ⊢
        exact ih hrest hcount
      | .failed, hret => exact (hret nofun).elim
      | .sent 0, hret => exact absurd (hret nofun) (Nat.lt_irrefl 0)
      | .sent (n + 1), hret =>
        rw [List.countP_cons_of_pos (by simpa using hret nofun)] at hcount ⊢
        have hdrop : ((b :: bs).drop (n + 1)).length ≤ bs.length := by simp
        obtain ⟨r, hr, hle⟩ := @ih hrest ((b :: bs).drop (n + 1))
          (by simp only [List.length_cons] at hcount; omega)
        refine ⟨_, by rw [sendn, hr, Option.map_some], ?_⟩
        simp only [List.length_cons]
        omega

end FuncTool

namespace ConnectServer

theorem waitWritable_succeeds {polls polls' : List PollRet} {ok : Bool} (hp : .failed ∉ polls)
    (h : waitWritable polls = some (ok, polls')) : ok = true ∧ .failed ∉ polls' := by
  induction polls with
  | nil => simp [waitWritable] at h
  | cons ret polls ih =>
    have hrest : .failed ∉ polls := fun hmem => hp (List.mem_cons_of_mem _ hmem)
    cases ret with
    | again => exact ih hrest h
    | failed => exact (hp List.mem_cons_self).elim
    | writable =>
      simp only [waitWritable, Option.some.injEq, Prod.mk.injEq] at h
      obtain ⟨rfl, rfl⟩ := h
      exact ⟨rfl, hrest⟩

theorem waitWritable_ends {polls : List PollRet} {n : Nat} (hp : .failed ∉ polls)
    (hcount : n + 1 ≤ polls.countP (· = .writable)) :
    ∃ polls', waitWritable polls = some (true, polls') ∧
      n ≤ polls'.countP (· = .writable) := by
  induction polls with
  | nil => simp at hcount
  | cons ret polls ih =>
    have hrest : .failed ∉ polls := fun hmem => hp (List.mem_cons_of_mem _ hmem)
    cases ret with
    | again =>
      rw [List.countP_cons_of_neg (by decide)] at hcount
      exact ih hrest hcount
    | failed => exact (hp List.mem_cons_self).elim
    | writable =>
      rw [List.countP_cons_of_pos (by decide)] at hcount
      exact ⟨polls, rfl, Nat.le_of_succ_le_succ hcount⟩

/-! ## One window -/

variable {calls calls' : SysCalls} {c c' : ClientConnect} {ok : Bool}

theorem resetTail_sent (hsocket : c'.socket = c.socket ++ c.sendBuff) (hindex : c'.index = c.index) :
    resetTail c' = c.flushed := by
  simp only [resetTail, ClientConnect.flushed, hsocket, hindex]

/-- When `SendDataToClient` succeeds, the socket took the window. -/
theorem sendDataToClient_flushes (h : sendDataToClient calls c = some (true, c', calls')) :
    resetTail c' = c.flushed := by
  unfold sendDataToClient at h
  split at h
  · cases h
  · simp at h
  · obtain ⟨r, hr, heq⟩ := Option.map_eq_some_iff.mp h
    simp only [Prod.mk.injEq] at heq
    obtain ⟨hok, rfl, rfl⟩ := heq
    exact resetTail_sent (by rw [FuncTool.sendn_taken hr hok]) rfl

theorem sendDataToClient_succeeds (hs : calls.Succeed)
    (h : sendDataToClient calls c = some (ok, c', calls')) : ok = true ∧ calls'.Succeed := by
  unfold sendDataToClient at h
  split at h
  · cases h
  · rename_i hwait
    exact absurd (waitWritable_succeeds hs.polls hwait).1 (by simp)
  · rename_i hwait
    obtain ⟨r, hr, heq⟩ := Option.map_eq_some_iff.mp h
    simp only [Prod.mk.injEq] at heq
    obtain ⟨rfl, rfl, rfl⟩ := heq
    obtain ⟨hok, hsends⟩ := FuncTool.sendn_succeeds hs.sends hr
    exact ⟨hok, (waitWritable_succeeds hs.polls hwait).2, hsends⟩

theorem sendDataToClient_ends {n : Nat} (hs : calls.Succeed) (he : calls.Enough (n + 1))
    (hlen : c.sendBuff.length ≤ serverBufferSize) :
    ∃ ok c' calls', sendDataToClient calls c = some (ok, c', calls') ∧ calls'.Enough n := by
  obtain ⟨polls, hwait, hpolls⟩ := waitWritable_ends hs.polls he.polls
  have hsends := he.sends
  rw [Nat.succ_mul] at hsends
  obtain ⟨r, hr, hle⟩ := FuncTool.sendn_ends hs.sends (Nat.le_trans hlen
    (Nat.le_trans (Nat.le_add_left _ _) hsends))
  refine ⟨r.ok, _, ⟨polls, r.sends⟩, by rw [sendDataToClient, hwait]; dsimp only; rw [hr]; rfl,
    hpolls, ?_⟩
  show n * serverBufferSize ≤ r.sends.countP SendRet.Took
  omega

namespace Batch

variable {s : ConnectServer} {b b' : Batch} {pack : Bytes} {iIndex : Int} {n : Nat}

/-- What the body does with a package for a client whose socket does not fail. -/
theorem takePack_succeeds (h : b.takePack pack = some b') (hs : b.calls.Succeed)
    (hlen : sizeofClientPackageHead ≤ pack.length) (hmax : pack.length ≤ serverBufferSize)
    (hindex : readInt (Mem.ofBytes pack) 2 = iIndex) (hc : b.server.findClient iIndex = some c) :
    (¬ ToClient (readUShort (Mem.ofBytes pack) 6) ∧ b' = b) ∨
      (ToClient (readUShort (Mem.ofBytes pack) 6) ∧ b'.calls.Succeed ∧
        b'.vSendClients = b.vSendClients ++ [iIndex] ∧
        ∃ c', b'.server = b.server.setClient c' iIndex ∧ c'.index = c.index ∧
          c'.stream = c.stream ++ pack ∧ c'.sendBuff.length ≤ serverBufferSize) := by
  unfold takePack at h
  dsimp only at h
  rw [if_neg (Nat.not_lt.mpr hlen), hindex, hc] at h
  dsimp only at h
  split at h
  · rename_i hcmd
    cases h
    exact .inl ⟨hcmd, rfl⟩
  · rename_i hcmd
    refine .inr ⟨not_not.mp hcmd, ?_⟩
    split at h
    · rename_i hfree
      cases h
      refine ⟨hs, rfl, _, rfl, rfl, (List.append_assoc _ _ _).symm, ?_⟩
      simp only [ClientConnect.freeSpace, ClientConnect.append, List.length_append] at hfree ⊢
      omega
    · obtain ⟨⟨ok, c', calls⟩, hsend, rfl⟩ := Option.map_eq_some_iff.mp h
      obtain ⟨rfl, hcalls⟩ := sendDataToClient_succeeds hs hsend
      refine ⟨hcalls, rfl, (resetTail c').append pack, rfl, ?_, ?_, by simpa [resetTail,
        ClientConnect.append] using hmax⟩
      · rw [sendDataToClient_flushes hsend]
        rfl
      · rw [sendDataToClient_flushes hsend]
        simp [ClientConnect.stream, ClientConnect.append, ClientConnect.flushed]

theorem takePack_ends (hs : b.calls.Succeed) (he : b.calls.Enough (n + 1))
    (hwindow : ∀ c, b.server.findClient (readInt (Mem.ofBytes pack) 2) = some c →
      c.sendBuff.length ≤ serverBufferSize) :
    ∃ b', b.takePack pack = some b' ∧ b'.calls.Enough n ∧
      b'.vSendClients.length ≤ b.vSendClients.length + 1 := by
  have hmono : b.calls.Enough n :=
    ⟨Nat.le_of_succ_le he.polls, Nat.le_trans (Nat.mul_le_mul_right _ (Nat.le_succ n)) he.sends⟩
  unfold takePack
  dsimp only
  split
  · exact ⟨b, rfl, hmono, Nat.le_succ _⟩
  · split
    · exact ⟨_, rfl, hmono, Nat.le_succ _⟩
    · rename_i c hc
      split
      · exact ⟨b, rfl, hmono, Nat.le_succ _⟩
      · split
        · exact ⟨_, rfl, hmono, by simp⟩
        · obtain ⟨ok, c', calls', hsend, hcalls⟩ :=
            sendDataToClient_ends hs he (hwindow c hc)
          rw [hsend, Option.map_some]
          cases ok with
          | true => exact ⟨_, rfl, hcalls, by simp⟩
          | false => exact ⟨_, rfl, hcalls, Nat.le_succ _⟩

theorem flushClient_succeeds (h : b.flushClient iIndex = some b') (hs : b.calls.Succeed)
    (hc : b.server.findClient iIndex = some c) :
    b'.calls.Succeed ∧ b'.vSendClients = b.vSendClients ∧
      b'.server = b.server.setClient c.flushed iIndex := by
  unfold flushClient at h
  rw [hc] at h
  dsimp only at h
  obtain ⟨⟨ok, c', calls⟩, hsend, rfl⟩ := Option.map_eq_some_iff.mp h
  obtain ⟨rfl, hcalls⟩ := sendDataToClient_succeeds hs hsend
  refine ⟨hcalls, rfl, ?_⟩
  show b.server.setClient (resetTail c') iIndex = _
  rw [sendDataToClient_flushes hsend]

theorem flushClient_ends (hs : b.calls.Succeed) (he : b.calls.Enough (n + 1))
    (hc : b.server.findClient iIndex = some c) (hwindow : c.sendBuff.length ≤ serverBufferSize) :
    ∃ b', b.flushClient iIndex = some b' ∧ b'.calls.Enough n := by
  obtain ⟨ok, c', calls', hsend, hcalls⟩ := sendDataToClient_ends hs he hwindow
  unfold flushClient
  rw [hc]
  dsimp only
  rw [hsend, Option.map_some]
  cases ok with
  | true => exact ⟨_, rfl, hcalls⟩
  | false => exact ⟨_, rfl, hcalls⟩

end Batch

/-! ## The packages of a client -/

/-- A package that is passed on to client `iIndex`. -/
def Forwards (iIndex : Int) (pack : Bytes) : Prop :=
  readInt (Mem.ofBytes pack) 2 = iIndex ∧ ToClient (readUShort (Mem.ofBytes pack) 6)

instance (iIndex : Int) : DecidablePred (Forwards iIndex) :=
  fun _ => inferInstanceAs (Decidable (_ ∧ _))

def forwarded (packs : List Bytes) (iIndex : Int) : Bytes :=
  (packs.filter (Forwards iIndex)).flatten

@[simp] theorem forwarded_nil (iIndex : Int) : forwarded [] iIndex = [] := rfl

theorem forwarded_snoc_pos {iIndex : Int} {pack : Bytes} (h : Forwards iIndex pack)
    (packs : List Bytes) : forwarded (packs ++ [pack]) iIndex = forwarded packs iIndex ++ pack := by
  simp [forwarded, List.filter_append, h]

theorem forwarded_snoc_neg {iIndex : Int} {pack : Bytes} (h : ¬ Forwards iIndex pack)
    (packs : List Bytes) : forwarded (packs ++ [pack]) iIndex = forwarded packs iIndex := by
  simp [forwarded, List.filter_append, h]

theorem findClient_setClient (s : ConnectServer) (c : ClientConnect) (iIndex i : Int) :
    (s.setClient c iIndex).findClient i = if i = iIndex then some c else s.findClient i := by
  unfold findClient setClient
  split
  · rename_i hi
    rw [hi]
    exact AList.lookup_insert s.onlineClient
  · rename_i hi
    exact AList.lookup_insert_ne hi

/-! ## The two loops -/

/-- A package of the round: it fits the buffers, and the window of its client is empty when
the round begins. -/
structure Sendable (s : ConnectServer) (pack : Bytes) : Prop where
  min : sizeofClientPackageHead ≤ pack.length
  max : pack.length ≤ maxServerPackageLength
  client : ∃ c, s.findClient (readInt (Mem.ofBytes pack) 2) = some c ∧ c.sendBuff = []

/-- Where the first loop has got to after `packs`. -/
structure Batched (s : ConnectServer) (packs : List Bytes) (b : Batch) : Prop where
  calls : b.calls.Succeed
  unknown : ∀ i, s.findClient i = none → b.server.findClient i = none
  client : ∀ i c, s.findClient i = some c → ∃ c', b.server.findClient i = some c' ∧
    c'.index = c.index ∧ c'.stream = c.stream ++ forwarded packs i ∧
    (c' = c ∨ i ∈ b.vSendClients ∧ c'.sendBuff.length ≤ serverBufferSize)
  waiting : ∀ i ∈ b.vSendClients, ∃ c, s.findClient i = some c ∧ c.sendBuff = []

/-- Where the second loop has got to, started from `b`, when `rest` is still to come. -/
structure Flushed (b : Batch) (rest : List Int) (b' : Batch) : Prop where
  calls : b'.calls.Succeed
  unknown : ∀ i, b.server.findClient i = none → b'.server.findClient i = none
  client : ∀ i c, b.server.findClient i = some c →
    b'.server.findClient i = some c.flushed ∧ i ∈ b.vSendClients ∨
      b'.server.findClient i = some c ∧ (i ∈ b.vSendClients → i ∈ rest)

variable {s : ConnectServer} {b b' : Batch} {packs rest : List Bytes} {pack : Bytes} {n : Nat}

theorem Batched.refl (hs : calls.Succeed) : Batched s [] { server := s, calls := calls } where
  calls := hs
  unknown _ h := h
  client i c hc := ⟨c, hc, rfl, by simp, .inl rfl⟩
  waiting _ h := nomatch h

theorem Batched.window (h : Batched s packs b) (hp : Sendable s pack) :
    ∃ c, b.server.findClient (readInt (Mem.ofBytes pack) 2) = some c ∧
      c.sendBuff.length ≤ serverBufferSize := by
  obtain ⟨c, hc, hempty⟩ := hp.client
  obtain ⟨c', hc', -, -, hsame⟩ := h.client _ c hc
  refine ⟨c', hc', ?_⟩
  rcases hsame with rfl | ⟨-, hle⟩
  · rw [hempty]
    exact Nat.zero_le _
  · exact hle

theorem Batched.takePack (h : Batched s packs b) (hp : Sendable s pack)
    (htake : b.takePack pack = some b') : Batched s (packs ++ [pack]) b' := by
  obtain ⟨c, hc, -⟩ := h.window hp
  have hmax : pack.length ≤ serverBufferSize := Nat.le_trans hp.max (by decide)
  rcases Batch.takePack_succeeds htake h.calls hp.min hmax rfl hc with
    ⟨hcmd, rfl⟩ | ⟨hcmd, hcalls, hwait, c', hserver, hindex, hstream, hlen⟩
  · have hneg : ∀ i, ¬ Forwards i pack := fun i hf => hcmd hf.2
    refine ⟨h.calls, h.unknown, fun i c₀ hc₀ => ?_, h.waiting⟩
    rw [forwarded_snoc_neg (hneg i)]
    exact h.client i c₀ hc₀
  · have hfind : ∀ i, b'.server.findClient i =
        if i = readInt (Mem.ofBytes pack) 2 then some c' else b.server.findClient i := by
      intro i
      rw [hserver, findClient_setClient]
    refine ⟨hcalls, fun i hi => ?_, fun i c₀ hc₀ => ?_, fun i hi => ?_⟩
    · have hne : i ≠ readInt (Mem.ofBytes pack) 2 := by
        rintro rfl
        rw [h.unknown _ hi] at hc
        cases hc
      rw [hfind, if_neg hne]
      exact h.unknown i hi
    · obtain ⟨c₁, hc₁, hindex₁, hstream₁, hsame⟩ := h.client i c₀ hc₀
      rw [hwait]
      by_cases hi : i = readInt (Mem.ofBytes pack) 2
      · subst hi
        obtain rfl : c = c₁ := Option.some_inj.mp (hc.symm.trans hc₁)
        refine ⟨c', by rw [hfind, if_pos rfl], hindex.trans hindex₁, ?_, .inr ⟨by simp, hlen⟩⟩
        rw [hstream, hstream₁, forwarded_snoc_pos ⟨rfl, hcmd⟩, List.append_assoc]
      · refine ⟨c₁, by rw [hfind, if_neg hi, hc₁], hindex₁, ?_, ?_⟩
        · rw [hstream₁, forwarded_snoc_neg fun hf => hi hf.1.symm]
        · exact hsame.imp_right fun hin => ⟨List.mem_append_left _ hin.1, hin.2⟩
    · rw [hwait, List.mem_append, List.mem_singleton] at hi
      rcases hi with hi | rfl
      · exact h.waiting i hi
      · exact hp.client

theorem Batched.takePacks (h : Batched s packs b) (hp : ∀ p ∈ rest, Sendable s p)
    (htake : rest.foldlM Batch.takePack b = some b') : Batched s (packs ++ rest) b' := by
  induction rest generalizing b packs with
  | nil =>
    cases htake
    rwa [List.append_nil]
  | cons pack rest ih =>
    rw [List.foldlM_cons] at htake
    obtain ⟨b₁, hb₁, htake⟩ := Option.bind_eq_some_iff.mp htake
    have hstep := h.takePack (hp pack List.mem_cons_self) hb₁
    have hrest := ih hstep (fun p hmem => hp p (List.mem_cons_of_mem _ hmem)) htake
    rwa [List.append_assoc] at hrest

theorem Batched.takePacks_ends (h : Batched s packs b) (hp : ∀ p ∈ rest, Sendable s p)
    (he : b.calls.Enough (n + rest.length)) :
    ∃ b', rest.foldlM Batch.takePack b = some b' ∧ b'.calls.Enough n ∧
      b'.vSendClients.length ≤ b.vSendClients.length + rest.length := by
  induction rest generalizing b packs with
  | nil => exact ⟨b, rfl, he, Nat.le_refl _⟩
  | cons pack rest ih =>
    have hpack := hp pack List.mem_cons_self
    obtain ⟨c, hc, hwindow⟩ := h.window hpack
    obtain ⟨b₁, hb₁, hcalls, hlen⟩ := Batch.takePack_ends h.calls he
      fun c' hc' => Option.some_inj.mp (hc.symm.trans hc') ▸ hwindow
    obtain ⟨b', hb', hcalls', hlen'⟩ := ih (h.takePack hpack hb₁)
      (fun p hmem => hp p (List.mem_cons_of_mem _ hmem)) hcalls
    refine ⟨b', ?_, hcalls', ?_⟩
    · rw [List.foldlM_cons, hb₁]
      exact hb'
    · rw [List.length_cons]
      omega

theorem flushed_flushed (c : ClientConnect) : c.flushed.flushed = c.flushed := by
  simp [ClientConnect.flushed]

theorem Flushed.refl (hs : b.calls.Succeed) : Flushed b b.vSendClients b where
  calls := hs
  unknown _ h := h
  client _ _ h := .inr ⟨h, id⟩

theorem Flushed.flushClient {i : Int} {rest : List Int} {b₁ : Batch} (h : Flushed b (i :: rest) b₁)
    (hi : i ∈ b.vSendClients) {c : ClientConnect} (hc : b.server.findClient i = some c)
    (hflush : b₁.flushClient i = some b') : Flushed b rest b' := by
  have hnow : ∃ c₁, b₁.server.findClient i = some c₁ ∧ c₁.flushed = c.flushed := by
    rcases h.client i c hc with ⟨hc₁, -⟩ | ⟨hc₁, -⟩
    · exact ⟨_, hc₁, flushed_flushed c⟩
    · exact ⟨c, hc₁, rfl⟩
  obtain ⟨c₁, hc₁, heq⟩ := hnow
  obtain ⟨hcalls, -, hserver⟩ := Batch.flushClient_succeeds hflush h.calls hc₁
  have hfind : ∀ j, b'.server.findClient j =
      if j = i then some c.flushed else b₁.server.findClient j := by
    intro j
    rw [hserver, findClient_setClient, heq]
  refine ⟨hcalls, fun j hj => ?_, fun j c₀ hc₀ => ?_⟩
  · have hne : j ≠ i := by
      rintro rfl
      rw [hc] at hj
      cases hj
    rw [hfind, if_neg hne]
    exact h.unknown j hj
  · by_cases hj : j = i
    · subst hj
      obtain rfl : c = c₀ := Option.some_inj.mp (hc.symm.trans hc₀)
      exact .inl ⟨by rw [hfind, if_pos rfl], hi⟩
    · rw [hfind, if_neg hj]
      refine (h.client j c₀ hc₀).imp_right fun hrest => ⟨hrest.1, fun hmem => ?_⟩
      exact (List.mem_cons.mp (hrest.2 hmem)).resolve_left hj

theorem Flushed.flushClients {rest : List Int} {b₁ : Batch} (h : Flushed b rest b₁)
    (hrest : ∀ i ∈ rest, i ∈ b.vSendClients ∧ (b.server.findClient i).isSome)
    (hflush : rest.foldlM Batch.flushClient b₁ = some b') : Flushed b [] b' := by
  induction rest generalizing b₁ with
  | nil =>
    cases hflush
    exact h
  | cons i rest ih =>
    rw [List.foldlM_cons] at hflush
    obtain ⟨b₂, hb₂, hflush⟩ := Option.bind_eq_some_iff.mp hflush
    obtain ⟨hi, hsome⟩ := hrest i List.mem_cons_self
    obtain ⟨c, hc⟩ := Option.isSome_iff_exists.mp hsome
    exact ih (h.flushClient hi hc hb₂) (fun j hj => hrest j (List.mem_cons_of_mem _ hj)) hflush

theorem Flushed.flushClients_ends {rest : List Int} {b₁ : Batch} (h : Flushed b rest b₁)
    (hrest : ∀ i ∈ rest, i ∈ b.vSendClients ∧
      ∃ c, b.server.findClient i = some c ∧ c.sendBuff.length ≤ serverBufferSize)
    (he : b₁.calls.Enough rest.length) :
    ∃ b', rest.foldlM Batch.flushClient b₁ = some b' := by
  induction rest generalizing b₁ with
  | nil => exact ⟨b₁, rfl⟩
  | cons i rest ih =>
    obtain ⟨hi, c, hc, hwindow⟩ := hrest i List.mem_cons_self
    have hnow : ∃ c₁, b₁.server.findClient i = some c₁ ∧
        c₁.sendBuff.length ≤ serverBufferSize := by
      rcases h.client i c hc with ⟨hc₁, -⟩ | ⟨hc₁, -⟩
      · exact ⟨_, hc₁, Nat.zero_le _⟩
      · exact ⟨c, hc₁, hwindow⟩
    obtain ⟨c₁, hc₁, hwindow₁⟩ := hnow
    obtain ⟨b₂, hb₂, hcalls⟩ := Batch.flushClient_ends h.calls he hc₁ hwindow₁
    obtain ⟨b', hb'⟩ := ih (h.flushClient hi hc hb₂)
      (fun j hj => hrest j (List.mem_cons_of_mem _ hj)) hcalls
    refine ⟨b', ?_⟩
    rw [List.foldlM_cons, hb₂]
    exact hb'

/-! ## The round -/

theorem Batched.waits (h : Batched s packs b) {i : Int} (hi : i ∈ b.vSendClients) :
    ∃ c, b.server.findClient i = some c ∧ c.sendBuff.length ≤ serverBufferSize := by
  obtain ⟨c, hc, hempty⟩ := h.waiting i hi
  obtain ⟨c', hc', -, -, hsame⟩ := h.client i c hc
  refine ⟨c', hc', ?_⟩
  rcases hsame with rfl | ⟨-, hle⟩
  · rw [hempty]
    exact Nat.zero_le _
  · exact hle

/-- The socket of a client has taken its packages, and nothing else has changed. -/
theorem Batched.flushed (h : Batched s packs b) (hf : Flushed b [] b') (i : Int) :
    b'.server.findClient i =
      (s.findClient i).map fun c => { c with socket := c.socket ++ forwarded packs i } := by
  cases hs : s.findClient i with
  | none => exact hf.unknown i (h.unknown i hs)
  | some c =>
    obtain ⟨c', hc', hindex, hstream, hsame⟩ := h.client i c hs
    rw [Option.map_some]
    rcases hf.client i c' hc' with ⟨hb', hi⟩ | ⟨hb', hi⟩
    · obtain ⟨c₀, hc₀, hempty⟩ := h.waiting i hi
      obtain rfl : c = c₀ := Option.some_inj.mp (hs.symm.trans hc₀)
      rw [hb']
      have hsocket : c'.socket ++ c'.sendBuff = c.socket ++ forwarded packs i := by
        simpa only [ClientConnect.stream, hempty, List.append_nil] using hstream
      simp only [ClientConnect.flushed, hindex, hsocket, hempty]
    · have hmem : i ∉ b.vSendClients := fun hmem => List.not_mem_nil (hi hmem)
      obtain rfl := hsame.resolve_right fun hin => hmem hin.1
      rw [hb', List.self_eq_append_right.mp hstream, List.append_nil]

/-- By the end of a round each socket has taken the packages for its client, in order, and the
windows are empty; and the round ends, as every `send` takes something. -/
theorem round_delivers {s : ConnectServer} {calls : SysCalls} {packs : List Bytes}
    (hs : calls.Succeed) (hp : ∀ p ∈ packs, Sendable s p) :
    (∀ b, s.round calls packs = some b → ∀ i c, s.findClient i = some c → c.sendBuff = [] →
      b.server.findClient i =
        some { c with socket := c.socket ++ forwarded packs i, sendBuff := [] }) ∧
    (calls.Enough (2 * packs.length) → (s.round calls packs).isSome) := by
  have hstart : Batched s [] { server := s, calls := calls } := Batched.refl hs
  constructor
  · intro b hround i c hc hempty
    obtain ⟨b₁, hb₁, hflush⟩ := Option.bind_eq_some_iff.mp hround
    have hbatch : Batched s packs b₁ := hstart.takePacks hp hb₁
    have hwaits : ∀ j ∈ b₁.vSendClients, j ∈ b₁.vSendClients ∧
        (b₁.server.findClient j).isSome := by
      intro j hj
      obtain ⟨c, hc, -⟩ := hbatch.waits hj
      exact ⟨hj, Option.isSome_of_eq_some hc⟩
    rw [hbatch.flushed ((Flushed.refl hbatch.calls).flushClients hwaits hflush) i, hc,
      Option.map_some, hempty]
  · intro he
    rw [Nat.two_mul] at he
    obtain ⟨b₁, hb₁, hcalls, hlen⟩ := hstart.takePacks_ends hp he
    have hbatch : Batched s packs b₁ := hstart.takePacks hp hb₁
    rw [List.length_nil, Nat.zero_add] at hlen
    have henough : b₁.calls.Enough b₁.vSendClients.length :=
      ⟨Nat.le_trans hlen hcalls.polls, Nat.le_trans (Nat.mul_le_mul_right _ hlen) hcalls.sends⟩
    obtain ⟨b, hb⟩ := (Flushed.refl hbatch.calls).flushClients_ends
      (fun j hj => ⟨hj, hbatch.waits hj⟩) henough
    exact Option.isSome_of_eq_some (show s.round calls packs = some b by
      unfold round
      rw [hb₁]
      exact hb)

/-- Two clients, and calls that take one byte at a time. -/
def twoClients : ConnectServer where
  onlineClient := ((∅ : AList fun _ : Int => ClientConnect).insert 1 { index := 1 }).insert 2
    { index := 2 }
  queueToLogicLayer := .empty none

def byteByByte : SysCalls where
  polls := .again :: List.replicate 6 .writable
  sends := List.replicate (6 * serverBufferSize) (.sent 1)

theorem round_delivers_twoClients : ∃ b, twoClients.round byteByByte
      [[0, 8, 0, 0, 0, 2, 0, 11], [0, 8, 0, 0, 0, 1, 0, 13], [0, 9, 0, 0, 0, 2, 0, 14, 7]] = some b ∧
    b.server.findClient 2 = some ⟨2, [], [0, 8, 0, 0, 0, 2, 0, 11, 0, 9, 0, 0, 0, 2, 0, 14, 7]⟩ := by
  have hfirst : twoClients.findClient 1 = some ⟨1, [], []⟩ := rfl
  have hsecond : twoClients.findClient 2 = some ⟨2, [], []⟩ := rfl
  have hp : ∀ p ∈ ([[0, 8, 0, 0, 0, 2, 0, 11], [0, 8, 0, 0, 0, 1, 0, 13],
      [0, 9, 0, 0, 0, 2, 0, 14, 7]] : List Bytes), Sendable twoClients p := by
    have hindices : ∀ p ∈ ([[0, 8, 0, 0, 0, 2, 0, 11], [0, 8, 0, 0, 0, 1, 0, 13],
        [0, 9, 0, 0, 0, 2, 0, 14, 7]] : List Bytes), (8 ≤ p.length ∧ p.length ≤ 11264) ∧
          (readInt (Mem.ofBytes p) 2 = 1 ∨ readInt (Mem.ofBytes p) 2 = 2) := by decide +kernel
    intro p hmem
    obtain ⟨⟨hmin, hmax⟩, hindex⟩ := hindices p hmem
    refine ⟨hmin, hmax, ?_⟩
    rcases hindex with hindex | hindex
    · rw [hindex]
      exact ⟨_, hfirst, rfl⟩
    · rw [hindex]
      exact ⟨_, hsecond, rfl⟩
  have hs : byteByByte.Succeed := by
    refine ⟨by decide, fun r hr _ => ?_⟩
    rw [List.eq_of_mem_replicate hr]
    exact Nat.one_pos
  have he : byteByByte.Enough (2 * 3) := by
    refine ⟨by decide, ?_⟩
    rw [byteByByte, List.countP_replicate, if_pos (by decide)]
  obtain ⟨hdelivered, hends⟩ := round_delivers hs hp
  obtain ⟨b, hb⟩ := Option.isSome_iff_exists.mp (hends he)
  refine ⟨b, hb, ?_⟩
  have hforwarded : forwarded [[0, 8, 0, 0, 0, 2, 0, 11], [0, 8, 0, 0, 0, 1, 0, 13],
      [0, 9, 0, 0, 0, 2, 0, 14, 7]] 2 =
        [0, 8, 0, 0, 0, 2, 0, 11, 0, 9, 0, 0, 0, 2, 0, 14, 7] := by decide +kernel
  rw [hdelivered b hb 2 _ hsecond rfl, hforwarded]
  rfl

end ConnectServer

end Wsmq
