import Wsmq.LogicServer.RoundTrip

/-!
# Calls of the client library (`client/client.cpp`)

Each call packs a message, sends it and takes the next package from the connection.
-/

namespace Wsmq
open Lib Lib.ByteString Lib.Packing

namespace Client

def success : Int := 0
def errClientCreateExchange : Int := -602
def errClientCreateQueue : Int := -603
def errClientCreateBinding : Int := -604
def errClientRevMsg : Int := -606
def errClientCreateSubscribe : Int := -608
def errClientDeleteExchange : Int := -611
def errClientDeleteQueue : Int := -612

end Client

/-- The calls that wait for what the server answers. -/
inductive Call
  | createExchange (istrName : Name) (iExchangeType : Nat) (ibDurable ibAutoDel : Bool)
  | createQueue (istrName : Name) (iPriority : Int) (ibDurable ibAutoDel : Bool)
  | createBinding (istrExName istrQueueName istrKey : Name)
  | deleteExchange (istrName : Name)
  | deleteQueue (istrName : Name)
  | createSubscribe (istrQueueName : Name) (iConfirmLevel : Nat)
  | cancelSubscribe (istrName : Name)
  | recvMessage (istrQueueName : Name) (iConfirmLevel : Nat)

namespace Call

/-- The message `oMsg` that the call packs. -/
def request : Call → Request
  | createExchange n t d a =>
    .createExchange { exchangeName := n, exchangeType := t, durable := d, autoDel := a }
  | createQueue n p d a =>
    .createQueue { queueName := n, priority := p, durable := d, autoDel := a }
  | createBinding e q k =>
    .createBinding { exchangeName := e, queueName := q, bindingKey := k }
  | deleteExchange n => .deleteExchange { exchangeName := n }
  | deleteQueue n => .deleteQueue { queueName := n }
  | createSubscribe n l => .createSubscribe { queueName := n, confirmLevel := l }
  -- `Consumer::CancelSubscribe` packs a `DeleteQueueMessage` as well
  | cancelSubscribe n => .deleteQueue { queueName := n }
  | recvMessage n l => .createRecv { queueName := n, confirmLevel := l }

/-- What the call returns when it fails. -/
def error : Call → Int
  | createExchange .. => Client.errClientCreateExchange
  | createQueue .. => Client.errClientCreateQueue
  | createBinding .. => Client.errClientCreateBinding
  | deleteExchange .. => Client.errClientDeleteExchange
  | deleteQueue .. => Client.errClientDeleteQueue
  | createSubscribe .. => Client.errClientCreateSubscribe
  | cancelSubscribe .. => Client.errClientCreateSubscribe
  | recvMessage .. => Client.errClientRevMsg

/-- The request gets through the checks of its encoder. -/
def Packs (call : Call) : Prop :=
  (call.request.getMessagePack zeroed maxClintPackageLength).ret = Message.success

end Call

end Wsmq
