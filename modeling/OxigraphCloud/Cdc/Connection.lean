import OxigraphCloud.Server.Changelog
import OxigraphCloud.Primitives.Run

-- The connection of a subscriber to the notification server, from the subscription to the broadcast
-- channel on.
namespace Cdc

inductive ChannelType
  | webSocketChannel2023
  | streamingHTTPChannel2023
  deriving DecidableEq

-- A message to a subscriber. A notification is the formatted form of a batch of events.
inductive Message
  | notification (events : List ChangeEvent)
  | error (text : String)
  | ping
  deriving DecidableEq

def laggedText (n : ℕ) : String := "Lagged: missed " ++ toString n ++ " events"

inductive Mode
  | waiting
  | collecting (batch : List ChangeEvent)
  | sending (message : Message)
  | ended
  deriving DecidableEq

structure Connection where
  -- The broadcast events that the receiver has not got yet.
  rx       : List ChangeEvent
  mode     : Mode
  messages : List Message
  deriving DecidableEq

-- What can happen next: the sender broadcasts an event; `recv` returns the oldest event, reports
-- that the `n` oldest events have been dropped, or that the channel is closed; a timer runs out
-- (the keepalive or the window of a batch); the message in transit is sent or cannot be sent.
inductive Action
  | broadcast (event : ChangeEvent)
  | recv
  | lagged (n : ℕ)
  | closed
  | timeout
  | sent (ok : Bool)
  deriving DecidableEq

namespace Connection

def start : Connection := { rx := [], mode := .waiting, messages := [] }

-- The loop that collects a batch ends at 100 events.
def collect (batch : List ChangeEvent) : Mode :=
  if batch.length < 100 then .collecting batch else .sending (.notification batch)

def canLag (conn : Connection) (n : ℕ) : Prop := 0 < n ∧ n ≤ conn.rx.length

instance (conn : Connection) (n : ℕ) : Decidable (conn.canLag n) :=
  inferInstanceAs <| Decidable (_ ∧ _)

def finishSending (conn : Connection) (message : Message) (ok : Bool) : Connection :=
  if ok then
    { conn with mode := .waiting, messages := conn.messages ++ [message] }
  else
    { conn with mode := .ended }

-- An action that is not possible in a state changes nothing.
def handleWebsocket (conn : Connection) (action : Action) : Connection :=
  match conn.mode, action with
  | _, .broadcast event => { conn with rx := conn.rx ++ [event] }
  | .waiting, .recv =>
    match conn.rx with
    | []          => conn
    | event :: rx => { conn with rx := rx, mode := collect [event] }
  | .waiting, .lagged n =>
    if conn.canLag n then
      { conn with rx := conn.rx.drop n, mode := .sending (.error (laggedText n)) }
    else
      conn
  | .waiting, .closed  => if conn.rx.isEmpty then { conn with mode := .ended } else conn
  | .waiting, .timeout => { conn with mode := .sending .ping }
  | .collecting batch, .recv =>
    match conn.rx with
    | []          => conn
    | event :: rx => { conn with rx := rx, mode := collect (batch ++ [event]) }
  -- `Ok(Err(_)) | Err(_) => break`
  | .collecting batch, .lagged n =>
    if conn.canLag n then
      { conn with rx := conn.rx.drop n, mode := .sending (.notification batch) }
    else
      conn
  | .collecting batch, .closed  =>
    if conn.rx.isEmpty then { conn with mode := .sending (.notification batch) } else conn
  | .collecting batch, .timeout => { conn with mode := .sending (.notification batch) }
  | .sending message, .sent ok  => conn.finishSending message ok
  | _, _ => conn

def sseHandler (conn : Connection) (action : Action) : Connection :=
  match conn.mode, action with
  | _, .broadcast event => { conn with rx := conn.rx ++ [event] }
  | .waiting, .recv =>
    match conn.rx with
    | []          => conn
    | event :: rx => { conn with rx := rx, mode := .sending (.notification [event]) }
  -- `Err(_) => None`
  | .waiting, .lagged n => if conn.canLag n then { conn with rx := conn.rx.drop n } else conn
  | .waiting, .closed   => if conn.rx.isEmpty then { conn with mode := .ended } else conn
  | .waiting, .timeout  => { conn with mode := .sending .ping }
  | .sending message, .sent ok => conn.finishSending message ok
  | _, _ => conn

def step : ChannelType → Connection → Action → Connection
  | .webSocketChannel2023     => handleWebsocket
  | .streamingHTTPChannel2023 => sseHandler

end Connection

end Cdc
