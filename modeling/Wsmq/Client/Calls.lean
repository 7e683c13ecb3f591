import Wsmq.Client.Payload

/-!
# Calls and pushed messages on one connection

A call that has sent a request takes the next package for the reply to it, and so does
`ConsumeMessage` for a pushed message.  Both get their own as long as the server has pushed
nothing before a reply.
-/

namespace Wsmq
open Lib Lib.ByteString Lib.Packing

namespace Call

/-- `Consumer::CreateSubscribe` and `Consumer::CancelSubscribe` do not look at what
`SendOnePack` returns. -/
def ignoresSend : Call → Bool
  | createSubscribe .. => true
  | cancelSubscribe .. => true
  | _ => false

end Call

namespace Consumer

/-- The calls but `RecvMessage`: send, take the next package and look at its flag. -/
def requestCall (c : Consumer) (call : Call) (rets : List RecvRet) (sendOk : Bool)
    (opBuffer : Mem) (iopLen : Int) : Option Taken :=
  if ¬ c.bBuild then some ⟨Client.errClientBuildConnect, false, opBuffer, iopLen, c, rets⟩
  else if (call.request.getMessagePack zeroed maxClintPackageLength).ret ≠ Message.success then
    some ⟨call.error, false, opBuffer, iopLen, c, rets⟩
  else if ¬ sendOk ∧ ¬ call.ignoresSend then
    some ⟨call.error, false, opBuffer, iopLen, c.closed, rets⟩
  else
    ((if sendOk then c.sendRequest call else c).recvOnePack rets).bind fun (pack, c, rets) =>
      match pack with
      | none => some ⟨call.error, false, opBuffer, iopLen, c, rets⟩
      | some (iReplyType, data) =>
        if iReplyType ≠ cmdServerReplyMessage then
          some ⟨call.error, false, opBuffer, iopLen, c, rets⟩
        else
          let bSucceed := readBool (zeroed.write 0 data) 0
          some ⟨if bSucceed then Client.success else call.error, false, opBuffer, iopLen, c, rets⟩

end Consumer

/-- What a program with a `Consumer` calls. -/
inductive ConsumerCall
  | request (call : Call)
  | consumeMessage

namespace ConsumerCall

/-- The requests among the calls. -/
def requests (calls : List ConsumerCall) : List Call :=
  calls.filterMap fun | request call => some call | consumeMessage => none

end ConsumerCall

namespace Consumer

/-- One call on a connection that takes what is sent. -/
def make (c : Consumer) (call : ConsumerCall) (rets : List RecvRet) (opBuffer : Mem)
    (iopLen : Int) : Option Taken :=
  match call with
  | .request (.recvMessage n l) => c.recvMessage n l rets true true opBuffer iopLen
  | .request call => c.requestCall call rets true opBuffer iopLen
  | .consumeMessage => c.consumeMessage rets true opBuffer iopLen

/-- Calls one after the other, each with the buffer that it is given. -/
def makeAll : List (ConsumerCall × Mem × Int) → Consumer → List RecvRet →
    Option (List Taken × Consumer × List RecvRet)
  | [], c, rets => some ([], c, rets)
  | (call, opBuffer, iopLen) :: calls, c, rets =>
    (c.make call rets opBuffer iopLen).bind fun t =>
      (makeAll calls t.consumer t.rets).map fun r => (t :: r.1, r.2)

end Consumer

/-! ## What the server sends to one client -/

/-- The data of a reply; `m_iMsgLen` counts one byte more than is written. -/
def replyData (bSucceed : Bool) (strMsgBody : Bytes) : Bytes :=
  image [writeBool bSucceed, ⟨strMsgBody, strMsgBody.length + 1⟩]

theorem fits_replyData (ok : Bool) (body : Bytes) :
    ∀ f ∈ [writeBool ok, ⟨body, body.length + 1⟩], f.Fits := by
  simp [Field.Fits, writeBool]

inductive Sent
  /-- The reply to a request. -/
  | answer (bSucceed : Bool) (strMsgBody : Bytes)
  /-- The message that answers `RecvMessage`. -/
  | pulled (confirmLevel : Nat) (iMsgSeq : Int) (body : Bytes)
  | pushed (confirmLevel : Nat) (iMsgSeq : Int) (body : Bytes)
  deriving DecidableEq

namespace Sent

def isPushed : Sent → Bool
  | pushed .. => true
  | _ => false

/-- The package is this one. -/
def Is (pack : Bytes) : Sent → Prop
  | answer ok body => IsPack pack cmdServerReplyMessage (replyData ok body)
  | pulled level seq body => level < 2 ^ 8 ∧ FitsInt 4 seq ∧
      ∃ iCmdId, iCmdId ≠ cmdServerReplyMessage ∧ IsPack pack iCmdId (messageData level seq body)
  | pushed level seq body => level < 2 ^ 8 ∧ FitsInt 4 seq ∧
      IsPack pack cmdServerPushMessage (messageData level seq body)

/-- The server answers the call in this way. -/
def Answers (call : Call) : Sent → Prop
  | answer ok _ => ∀ n l, call = .recvMessage n l → ok = false
  | pulled .. => ∃ n l, call = .recvMessage n l
  | pushed .. => False

end Sent

/-- The call has returned the message, if only as one that was received before. -/
structure Gives (body : Bytes) (t : Consumer.Taken) : Prop where
  iopLen : t.iopLen = body.length
  body : t.opBuffer.read 0 body.length = body
  ret : t.ret = Client.success ∨ t.bRepeat = true

/-- The call has returned what this answer says. -/
def Carries (call : Call) (t : Consumer.Taken) : Sent → Prop
  | .answer ok _ => t.ret = if ok then Client.success else call.error
  | .pulled _ _ body => Gives body t
  | .pushed .. => False

/-- The call was a `ConsumeMessage` that has returned this pushed message. -/
def Consumes (t : Consumer.Taken) : Sent → Prop
  | .pushed _ _ body => Gives body t
  | _ => False

variable {c : Consumer} {call : Call} {s : Sent} {pack : Bytes} {rets : List RecvRet}
  {opBuffer : Mem} {iopLen : Int}

theorem readBool_replyData (ok : Bool) (body : Bytes) :
    readBool (zeroed.write 0 (replyData ok body)) 0 = ok :=
  readBool_field (a := 0) [] (Mem.read_write_same _ _ _) (fits_replyData ok body)

/-- A reply of the logic server, in the buffer that is made for it. -/
theorem ActReplyMessage.sent_is {m : ActReplyMessage}
    (h : sizeofClientPackageHead + 1 + m.msgBody.length + 1 ≤
      maxClintPackageLength - sizeofClientPackageHead) :
    (Sent.answer m.bSucceed m.msgBody).Is (m.getMessagePack zeroed
      ((m.msgBody.length + sizeofClientPackageHead + 1 + 1 : Nat) : Int)).sent := by
  have hmod : m.iMsgLen = sizeofClientPackageHead + 1 + m.msgBody.length + 1 :=
    Nat.mod_eq_of_lt (Nat.lt_of_le_of_lt h (by decide))
  have hsize : size [writeBool m.bSucceed, ⟨m.msgBody, m.msgBody.length + 1⟩] =
      1 + (m.msgBody.length + 1) := by
    simp only [size_cons, size_nil, writeBool, Nat.add_zero]
  have hlen : m.iMsgLen = sizeofClientPackageHead +
      size [writeBool m.bSucceed, ⟨m.msgBody, m.msgBody.length + 1⟩] := by
    rw [hmod, hsize]
    omega
  have hroom : ¬ ((m.msgBody.length + sizeofClientPackageHead + 1 + 1 : Nat) : Int) < m.iMsgLen := by
    omega
  have hsent : (m.getMessagePack zeroed
      ((m.msgBody.length + sizeofClientPackageHead + 1 + 1 : Nat) : Int)).sent =
      image (packHead m.iMsgLen m.index cmdServerReplyMessage ++
        [writeBool m.bSucceed, ⟨m.msgBody, m.msgBody.length + 1⟩]) := by
    -- the memory is the same, whatever the last field advances by
    have hplace : m.getMessagePack zeroed
        ((m.msgBody.length + sizeofClientPackageHead + 1 + 1 : Nat) : Int) =
        pack zeroed ((m.msgBody.length + sizeofClientPackageHead + 1 + 1 : Nat) : Int) m.iMsgLen
          (packHead m.iMsgLen m.index cmdServerReplyMessage ++
            [writeBool m.bSucceed, ⟨m.msgBody, m.msgBody.length + 1⟩]) := rfl
    rw [hplace, pack_sent hroom ?_ ?_]
    · rw [size_append, hlen]
      rfl
    · intro f hf
      rcases List.mem_append.mp hf with hf | hf
      · exact fits_packHead _ _ _ f hf
      · exact fits_replyData _ _ f hf
  rw [hsent]
  exact isPack_image (fits_replyData _ _) hlen (by rw [hsize]; omega) (hmod ▸ h) (by decide)

/-- The call has taken the package off the stream of an open connection. -/
structure Advances (c : Consumer) (rets : List RecvRet) (pack : Bytes) (t : Consumer.Taken) :
    Prop where
  bBuild : t.consumer.bBuild = true
  stream : t.consumer.window ++ arriving t.rets = (c.window ++ arriving rets).drop pack.length
  alive : Alive t.rets

theorem requestCall_answered {ok : Bool} {body : Bytes} (hbuild : c.bBuild = true)
    (hpacks : call.Packs) (hpack : IsPack pack cmdServerReplyMessage (replyData ok body))
    (halive : Alive rets) (hnext : pack <+: c.window ++ arriving rets) :
    ∃ t, c.requestCall call rets true opBuffer iopLen = some t ∧
      Carries call t (.answer ok body) ∧ Advances c rets pack t := by
  obtain ⟨window, rets', hrecv, hrest, halive'⟩ := @recvOnePack_arrives _ _ _ _
    (c.sendRequest call) hpack halive hnext
  refine ⟨⟨if ok then Client.success else call.error, false, opBuffer, iopLen,
    { c.sendRequest call with window := window }, rets'⟩, ?_, rfl, hbuild, hrest, halive'⟩
  unfold Call.Packs at hpacks
  rw [Consumer.requestCall, if_neg (not_not.mpr hbuild), if_neg (not_not.mpr hpacks),
    if_neg (fun h => h.1 rfl), if_pos rfl, hrecv, Option.bind_some]
  dsimp only
  rw [if_neg (not_not.mpr rfl), readBool_replyData]

theorem recvMessage_answered {n : Name} {l : Nat} {ok : Bool} {body : Bytes}
    (hbuild : c.bBuild = true) (hpacks : (Call.recvMessage n l).Packs)
    (hpack : IsPack pack cmdServerReplyMessage (replyData ok body))
    (halive : Alive rets) (hnext : pack <+: c.window ++ arriving rets) :
    ∃ t, c.recvMessage n l rets true true opBuffer iopLen = some t ∧
      t.ret = (Call.recvMessage n l).error ∧ Advances c rets pack t := by
  obtain ⟨window, rets', hrecv, hrest, halive'⟩ := @recvOnePack_arrives _ _ _ _
    (c.sendRequest (.recvMessage n l)) hpack halive hnext
  refine ⟨⟨Client.errClientRevMsg, false, opBuffer.write 0 (replyData ok body),
    (replyData ok body).length, { c.sendRequest (.recvMessage n l) with window := window }, rets'⟩,
    ?_, rfl, hbuild, hrest, halive'⟩
  unfold Call.Packs at hpacks
  rw [Consumer.recvMessage]
  dsimp only
  rw [if_neg (not_not.mpr hbuild), if_neg (not_not.mpr hpacks), if_neg (fun h => h rfl),
    Consumer.takePulled, hrecv, Option.bind_some]
  dsimp only
  rw [if_pos rfl]

theorem HandsOver.gives {seq : Int} {body : Bytes} {t : Consumer.Taken}
    (h : HandsOver body opBuffer t) (haccepts : Consumer.Accepts c seq t.verdict) :
    Gives body t := ⟨h.iopLen, h.body, haccepts.ret⟩

theorem Consumer.Took.advances {level : Nat} {seq : Int} {t : Consumer.Taken}
    (h : Consumer.Took c rets pack level seq t) (hbuild : c.bBuild = true)
    (haccepts : Consumer.Accepts c seq t.verdict) : Advances c rets pack t :=
  ⟨haccepts.bBuild.trans hbuild, h.stream, h.alive⟩

/-- A request whose answer is next. -/
theorem make_request (hbuild : c.bBuild = true) (hpacks : call.Packs) (hanswers : s.Answers call)
    (his : s.Is pack) (halive : Alive rets) (hnext : pack <+: c.window ++ arriving rets) :
    ∃ t, c.make (.request call) rets opBuffer iopLen = some t ∧ Carries call t s ∧
      Advances c rets pack t := by
  cases s with
  | answer ok body =>
    cases call with
    | recvMessage n l =>
      obtain ⟨t, ht, hret, hadv⟩ := @recvMessage_answered c pack rets opBuffer iopLen n l ok body
        hbuild hpacks his halive hnext
      refine ⟨t, ht, ?_, hadv⟩
      rw [Carries, hanswers n l rfl]
      exact hret
    | _ => exact requestCall_answered hbuild hpacks his halive hnext
  | pulled level seq body =>
    obtain ⟨n, l, rfl⟩ := hanswers
    obtain ⟨hlevel, hseq, iCmdId, hcmd, hpack⟩ := his
    obtain ⟨t, ht, hover, htook, haccepts⟩ := @Consumer.recvMessage_arrives level seq iopLen body
      pack iCmdId true opBuffer rets c n l hbuild hpacks hlevel hseq hpack hcmd halive hnext
    exact ⟨t, ht, hover.gives (haccepts rfl), htook.advances hbuild (haccepts rfl)⟩
  | pushed level seq body => exact hanswers.elim

/-- `ConsumeMessage` when a pushed message is next. -/
theorem make_consumeMessage (hbuild : c.bBuild = true) (hpushed : s.isPushed = true)
    (his : s.Is pack) (halive : Alive rets) (hnext : pack <+: c.window ++ arriving rets) :
    ∃ t, c.make .consumeMessage rets opBuffer iopLen = some t ∧ Consumes t s ∧
      Advances c rets pack t := by
  cases s with
  | answer ok body => cases hpushed
  | pulled level seq body => cases hpushed
  | pushed level seq body =>
    obtain ⟨hlevel, hseq, hpack⟩ := his
    obtain ⟨t, ht, hover, htook, haccepts⟩ := @Consumer.consumeMessage_arrives level seq iopLen
      body pack _ true opBuffer rets c hbuild hlevel hseq hpack halive hnext
    exact ⟨t, ht, hover.gives (haccepts rfl), htook.advances hbuild (haccepts rfl)⟩

/-! ## Runs of calls -/

/-- The results of the requests, each with its call. -/
def requested (calls : List ConsumerCall) (ts : List Consumer.Taken) :
    List (Call × Consumer.Taken) :=
  (calls.zip ts).filterMap fun
    | (.request call, t) => some (call, t)
    | (.consumeMessage, _) => none

/-- The results of `ConsumeMessage`. -/
def consumed (calls : List ConsumerCall) (ts : List Consumer.Taken) : List Consumer.Taken :=
  (calls.zip ts).filterMap fun
    | (.request _, _) => none
    | (.consumeMessage, t) => some t

/-- The answers on the stream, and the pushed messages. -/
def answersOf (stream : List Sent) : List Sent := stream.filter fun s => !s.isPushed

def pushedOf (stream : List Sent) : List Sent := stream.filter fun s => s.isPushed

section Streams

variable (stream : List Sent)

theorem answersOf_answer (hs : s.isPushed = false) :
    answersOf (s :: stream) = s :: answersOf stream :=
  List.filter_cons_of_pos (by simp [hs])

theorem answersOf_pushed (hs : s.isPushed = true) : answersOf (s :: stream) = answersOf stream :=
  List.filter_cons_of_neg (by simp [hs])

theorem pushedOf_answer (hs : s.isPushed = false) : pushedOf (s :: stream) = pushedOf stream :=
  List.filter_cons_of_neg (by simp [hs])

theorem pushedOf_pushed (hs : s.isPushed = true) :
    pushedOf (s :: stream) = s :: pushedOf stream :=
  List.filter_cons_of_pos hs

end Streams

/-- What the server keeps to: its answers come in the order of the requests, and none comes
before its request; a call is made when the ones before have each taken a package. -/
structure Serves (calls : List ConsumerCall) (stream : List Sent) : Prop where
  answers : List.Forall₂ (fun call s => Sent.Answers call s) (ConsumerCall.requests calls)
    ((answersOf stream).take (ConsumerCall.requests calls).length)
  caused : ∀ k, (answersOf (stream.take k)).length ≤
    (ConsumerCall.requests (calls.take k)).length

/-- Each request has returned what the answer to it says, and the pushed messages that were
taken are those that `ConsumeMessage` has returned, in order. -/
structure OwnPackages (calls : List ConsumerCall) (stream : List Sent)
    (ts : List Consumer.Taken) : Prop where
  requests : List.Forall₂ (fun r s => Carries r.1 r.2 s) (requested calls ts)
    ((answersOf stream).take (requested calls ts).length)
  pushed : List.Forall₂ Consumes (consumed calls ts) (pushedOf (stream.take calls.length))

/-- Whenever a request waits for its answer, no pushed message is next. -/
def NoneEarly (calls : List ConsumerCall) (stream : List Sent) : Prop :=
  ∀ (k : Nat) (call : Call) (s : Sent), calls[k]? = some (.request call) → stream[k]? = some s →
    s.isPushed = false

namespace Serves

variable {calls : List ConsumerCall} {stream : List Sent}

theorem request_tail (h : Serves (.request call :: calls) (s :: stream))
    (hs : s.isPushed = false) : s.Answers call ∧ Serves calls stream := by
  have hfirst := h.answers
  rw [answersOf_answer stream hs] at hfirst
  obtain ⟨hcall, hrest⟩ := List.forall₂_cons.mp hfirst
  refine ⟨hcall, hrest, fun k => ?_⟩
  have hk := h.caused (k + 1)
  rw [List.take_succ_cons, answersOf_answer _ hs] at hk
  exact Nat.le_of_succ_le_succ hk

/-- All requests so far are answered, so the next package was pushed. -/
theorem consume_tail (h : Serves (.consumeMessage :: calls) (s :: stream)) :
    s.isPushed = true ∧ Serves calls stream := by
  have hs : s.isPushed = true := by
    by_contra hs
    have hone := h.caused 1
    rw [List.take_succ_cons, answersOf_answer _ (Bool.eq_false_of_not_eq_true hs)] at hone
    exact Nat.not_succ_le_zero _ hone
  have hall := h.answers
  rw [answersOf_pushed stream hs] at hall
  refine ⟨hs, hall, fun k => ?_⟩
  have hk := h.caused (k + 1)
  rw [List.take_succ_cons, answersOf_pushed _ hs] at hk
  exact hk

end Serves

theorem NoneEarly.tail {call : ConsumerCall} {calls : List ConsumerCall} {stream : List Sent}
    (h : NoneEarly (call :: calls) (s :: stream)) : NoneEarly calls stream :=
  fun k => h (k + 1)

namespace OwnPackages

variable {calls : List ConsumerCall} {stream : List Sent} {ts : List Consumer.Taken}
  {t : Consumer.Taken}

theorem request (h : OwnPackages calls stream ts) (hs : s.isPushed = false)
    (hcarries : Carries call t s) :
    OwnPackages (.request call :: calls) (s :: stream) (t :: ts) := by
  constructor
  · rw [answersOf_answer stream hs]
    exact .cons hcarries h.requests
  · rw [List.length_cons, List.take_succ_cons, pushedOf_answer _ hs]
    exact h.pushed

theorem consume (h : OwnPackages calls stream ts) (hs : s.isPushed = true)
    (hconsumes : Consumes t s) :
    OwnPackages (.consumeMessage :: calls) (s :: stream) (t :: ts) := by
  constructor
  · rw [answersOf_pushed stream hs]
    exact h.requests
  · rw [List.length_cons, List.take_succ_cons, pushedOf_pushed _ hs]
    exact .cons hconsumes h.pushed

end OwnPackages

/-- Calls take their own packages when none is pushed before the answer to a request. -/
theorem calls_own_packages {calls : List (ConsumerCall × Mem × Int)}
    {stream : List (Sent × Bytes)} (hbuild : c.bBuild = true) (halive : Alive rets)
    (hstream : ∀ e ∈ stream, e.1.Is e.2)
    (harrive : c.window ++ arriving rets = (stream.map (·.2)).flatten)
    (hlen : calls.length ≤ stream.length)
    (hpacks : ∀ call ∈ ConsumerCall.requests (calls.map (·.1)), call.Packs)
    (hserves : Serves (calls.map (·.1)) (stream.map (·.1)))
    (hearly : NoneEarly (calls.map (·.1)) (stream.map (·.1))) :
    ∃ ts c' rets', Consumer.makeAll calls c rets = some (ts, c', rets') ∧
      OwnPackages (calls.map (·.1)) (stream.map (·.1)) ts ∧
      c'.window ++ arriving rets' = ((stream.drop calls.length).map (·.2)).flatten := by
  induction calls generalizing c rets stream with
  | nil => exact ⟨[], c, rets, rfl, ⟨.nil, .nil⟩, harrive⟩
  | cons e calls ih =>
    obtain ⟨call, opBuffer, iopLen⟩ := e
    cases stream with
    | nil => exact absurd hlen (Nat.not_succ_le_zero _)
    | cons x stream =>
      obtain ⟨s, pack⟩ := x
      have hnext : pack <+: c.window ++ arriving rets := by
        rw [harrive]
        exact List.prefix_append _ _
      have his := hstream (s, pack) List.mem_cons_self
      have hrest : ∀ e ∈ stream, e.1.Is e.2 := fun e he => hstream e (List.mem_cons_of_mem _ he)
      have hlater : ∀ {t : Consumer.Taken}, Advances c rets pack t →
          t.consumer.window ++ arriving t.rets = (stream.map (·.2)).flatten := by
        intro t hadv
        rw [hadv.stream, harrive]
        exact List.drop_left
      cases call with
      | request call =>
        have hs : s.isPushed = false := hearly 0 call s rfl rfl
        obtain ⟨hanswers, hserves'⟩ := hserves.request_tail hs
        obtain ⟨t, ht, hcarries, hadv⟩ := @make_request c call s pack rets opBuffer iopLen hbuild
          (hpacks call List.mem_cons_self) hanswers his halive hnext
        obtain ⟨ts, c', rets', hall, hown, hwindow⟩ := ih hadv.bBuild hadv.alive hrest (hlater hadv)
          (Nat.le_of_succ_le_succ hlen) (fun d hd => hpacks d (List.mem_cons_of_mem _ hd)) hserves'
          hearly.tail
        refine ⟨t :: ts, c', rets', ?_, hown.request hs hcarries, hwindow⟩
        rw [Consumer.makeAll, ht, Option.bind_some, hall, Option.map_some]
      | consumeMessage =>
        obtain ⟨hs, hserves'⟩ := hserves.consume_tail
        obtain ⟨t, ht, hconsumes, hadv⟩ := @make_consumeMessage c s pack rets opBuffer iopLen hbuild
          hs his halive hnext
        obtain ⟨ts, c', rets', hall, hown, hwindow⟩ := ih hadv.bBuild hadv.alive hrest (hlater hadv)
          (Nat.le_of_succ_le_succ hlen) hpacks hserves' hearly.tail
        refine ⟨t :: ts, c', rets', ?_, hown.consume hs hconsumes, hwindow⟩
        rw [Consumer.makeAll, ht, Option.bind_some, hall, Option.map_some]

section Runs

open LogicServer

attribute [local instance] Platform.plain

instance (pack : Bytes) (iCmdId : Nat) (data : Bytes) : Decidable (IsPack pack iCmdId data) :=
  decidable_of_iff (readUShort (Mem.ofBytes pack) 0 = pack.length ∧
      readUShort (Mem.ofBytes pack) 6 = iCmdId ∧ pack.drop sizeofClientPackageHead = data ∧
      sizeofClientPackageHead < pack.length ∧
      pack.length ≤ maxClintPackageLength - sizeofClientPackageHead)
    ⟨fun ⟨h₁, h₂, h₃, h₄, h₅⟩ => ⟨h₁, h₂, h₃, h₄, h₅⟩,
      fun ⟨h₁, h₂, h₃, h₄, h₅⟩ => ⟨h₁, h₂, h₃, h₄, h₅⟩⟩

/-- What the connect server passes on to the client. -/
def onConnection (st : LogicServer) (iClientIndex : Int) : List Bytes :=
  st.queueToConnect.items.filter fun pack => readInt (Mem.ofBytes pack) 2 = iClientIndex

instance (rets : List RecvRet) : Decidable (Alive rets) :=
  inferInstanceAs (Decidable (∀ ret ∈ rets, _))

instance (call : Call) : Decidable call.Packs := inferInstanceAs (Decidable (_ = _))

def subscribeCall (name : String) : ConsumerCall × Mem × Int :=
  (.request (.createSubscribe (ascii name) 1), zeroed, 0)

/-- The reply and a message, as they are sent to client 12. -/
def replyThenMessage : List (Sent × Bytes) :=
  [(.answer true (ascii "ok"),
      image (packHead 12 12 cmdServerReplyMessage ++ [writeBool true, ⟨ascii "ok", 3⟩])),
    (.pushed 1 0 (ascii "hello"),
      image (packHead 18 12 cmdServerPushMessage) ++ messageData 1 0 (ascii "hello"))]

theorem calls_own_packages_one :
    ∃ ts c' rets', Consumer.makeAll [subscribeCall "q", (.consumeMessage, zeroed, 0)] {}
        [.recvd (replyThenMessage.map (·.2)).flatten] = some (ts, c', rets') ∧
      OwnPackages [.request (.createSubscribe (ascii "q") 1), .consumeMessage]
        [.answer true (ascii "ok"), .pushed 1 0 (ascii "hello")] ts := by
  have hstream : ∀ e ∈ replyThenMessage, e.1.Is e.2 := by
    intro e he
    rcases List.mem_cons.mp he with rfl | he
    · show IsPack _ _ _
      decide +kernel
    · rw [List.mem_singleton.mp he]
      refine ⟨by decide, by unfold FitsInt; decide, ?_⟩
      decide +kernel
  have hserves : Serves [.request (.createSubscribe (ascii "q") 1), .consumeMessage]
      [.answer true (ascii "ok"), .pushed 1 0 (ascii "hello")] := by
    refine ⟨.cons (fun _ _ h => nomatch h) .nil, fun k => ?_⟩
    match k with
    | 0 | 1 | 2 | k + 3 => exact Nat.le_refl _
  have hearly : NoneEarly [.request (.createSubscribe (ascii "q") 1), .consumeMessage]
      [.answer true (ascii "ok"), .pushed 1 0 (ascii "hello")] := by
    intro k call s hcall hs
    match k with
    | 0 =>
      cases hs
      rfl
    | 1 | k + 2 => cases hcall
  obtain ⟨ts, c', rets', hall, hown, -⟩ := @calls_own_packages {}
    [.recvd (replyThenMessage.map (·.2)).flatten]
    [subscribeCall "q", (.consumeMessage, zeroed, 0)] replyThenMessage rfl (by decide +kernel)
    hstream (List.append_nil _) (Nat.le_refl _) (by decide +kernel) hserves hearly
  exact ⟨ts, c', rets', hall, hown⟩

/-- Client 12 subscribes to "q", where a message waits, and then to "r". -/
def subscribeTwice : List Step :=
  [.makeQueue 3 false,
    .package (.ofBody cmdCreateQueue 3
      (image [writeName (ascii "r"), writeShort (-1), writeBool false, writeBool false])
      (by decide)),
    .makeExchange 3, .makeBinding 3, .publish 3 false 0 0, .subscribe 12, .pushMessage,
    .package (.ofBody cmdCreateSubcribe 12 (image [writeName (ascii "r"), writeByte 1])
      (by decide))]

/-- The message comes between the two replies. -/
def pushedBetween : List Sent :=
  [.answer true (reSubscribeSucceed ++ ascii "q"), .pushed 1 0 (ascii "hello"),
    .answer true (reSubscribeSucceed ++ ascii "r")]

/-- The second call reports a failure, and the message is lost. -/
theorem subscribe_takes_message :
    ∃ st ts c' rets', run (start none none) subscribeTwice = some st ∧
      List.Forall₂ (fun s pack => Sent.Is pack s) pushedBetween (onConnection st 12) ∧
      Serves [.request (.createSubscribe (ascii "q") 1), .request (.createSubscribe (ascii "r") 1),
        .consumeMessage] pushedBetween ∧
      Consumer.makeAll [subscribeCall "q", subscribeCall "r", (.consumeMessage, zeroed, 0)] {}
        [.recvd (onConnection st 12).flatten] = some (ts, c', rets') ∧
      ¬ OwnPackages [.request (.createSubscribe (ascii "q") 1),
        .request (.createSubscribe (ascii "r") 1), .consumeMessage] pushedBetween ts := by
  have hcheck : ((run (start none none) subscribeTwice).bind fun st =>
      (Consumer.makeAll [subscribeCall "q", subscribeCall "r", (.consumeMessage, zeroed, 0)] {}
        [.recvd (onConnection st 12).flatten]).map fun r =>
      decide ((onConnection st 12).length = 3 ∧
        IsPack ((onConnection st 12).getD 0 []) cmdServerReplyMessage
          (replyData true (reSubscribeSucceed ++ ascii "q")) ∧
        IsPack ((onConnection st 12).getD 1 []) cmdServerPushMessage
          (messageData 1 0 (ascii "hello")) ∧
        IsPack ((onConnection st 12).getD 2 []) cmdServerReplyMessage
          (replyData true (reSubscribeSucceed ++ ascii "r")) ∧
        r.1.map (·.ret) = [0, Client.errClientCreateSubscribe, 0])) = some true := by
    decide +kernel
  obtain ⟨st, hrun, h⟩ := Option.bind_eq_some_iff.mp hcheck
  obtain ⟨⟨ts, c', rets'⟩, hall, h⟩ := Option.map_eq_some_iff.mp h
  obtain ⟨hlen, hfirst, hsecond, hthird, hrets⟩ := of_decide_eq_true h
  refine ⟨st, ts, c', rets', hrun, ?_, ⟨?_, fun k => ?_⟩, hall, fun hown => ?_⟩
  · match hitems : onConnection st 12, hlen with
    | [p₁, p₂, p₃], _ =>
      rw [hitems] at hfirst hsecond hthird
      exact .cons hfirst (.cons ⟨by decide, by unfold FitsInt; decide, hsecond⟩ (.cons hthird .nil))
  · exact .cons (fun _ _ h => nomatch h) (.cons (fun _ _ h => nomatch h) .nil)
  · match k with
    | 0 | 2 => exact Nat.le_of_ble_eq_true rfl
    | 1 | 3 | k + 4 => exact Nat.le_refl _
  · obtain ⟨t₁, ts₁, rfl, -, hrets₁⟩ := List.map_eq_cons_iff.mp hrets
    obtain ⟨t₂, ts₂, rfl, hret, hrets₂⟩ := List.map_eq_cons_iff.mp hrets₁
    obtain ⟨t₃, ts₃, rfl, -, hrets₃⟩ := List.map_eq_cons_iff.mp hrets₂
    cases List.map_eq_nil_iff.mp hrets₃
    have hcarries := (List.forall₂_cons.mp (List.forall₂_cons.mp hown.requests).2).1
    have hsuccess : t₂.ret = Client.success := hcarries
    rw [hret] at hsuccess
    exact absurd hsuccess (by decide)

end Runs

end Wsmq
