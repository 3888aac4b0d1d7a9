import WireCall.Client

/-!
# A schedule for the client

What a client does between two events from outside, in one order of its steps: a call that is issued
is registered and written at once, a close is carried out at once, and then all responses that have
arrived are read before the loop notices that it has been asked to end.
-/

namespace WireCall

namespace Client

/-- Takes a step if it is possible. -/
def attempt (c : Client) (a : Action) : Client := (c.step a).getD c

/-- Takes the steps that are possible, one after another. -/
def attemptAll (c : Client) (actions : List Action) : Client := actions.foldl attempt c

/-- The bytes that no response has been made of. -/
def waitingBytes (c : Client) : Nat :=
  c.reader.source.unread.length + c.reader.decoder.buffered

/-- Reads responses as long as they come. -/
def readAll : (fuel : Nat) → Client → Client
  | 0, c => c
  | fuel + 1, c =>
    let after := c.attempt .read
    if after.waitingBytes < c.waitingBytes then readAll fuel after else after

/-- Does everything that can be done. -/
def settle (c : Client) : Client :=
  (readAll (c.waitingBytes + 1) c).attemptAll [.noticeClose, .terminate]

/-- The state at rest after an action. -/
def act (c : Client) (a : Action) : Client := (c.attempt a).settle

/-- Issues a call and writes it. -/
def go (c : Client) (method : String) (argument : Datum) : Client :=
  (c.attemptAll [.issue method argument, .register c.calls.length, .write]).settle

/-- Closes the client. -/
def shutDown (c : Client) : Client := (c.attemptAll [.close, .finishClose]).settle

end Client

end WireCall
