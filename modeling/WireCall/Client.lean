import WireCall.CallError
import WireCall.Message.Reader
import WireCall.Message.Writer
import WireCall.Text.Quoted

/-!
# The client

Any number of calls can be under way on one client at the same time. A call first encodes its
argument and then waits for the right to write. When it has that right it is *registered*: it takes
the next number and is entered into the table of pending calls. Only then its frame is written, and
the right is passed on. A loop of its own reads the responses and completes the call whose number a
response bears.

The client comes to its end when it is closed or given up, when the stream ends or fails, and when a
frame cannot be written; all calls that are still pending then fail.

As for the server, `Client.step` says for each action whether it is possible now and what it leads
to, and everything that can happen to a client is a sequence of actions. Calls are named by the
order in which they were issued; the list of calls and the list of completions only grow.
-/

namespace WireCall

/-- A call: the method it names and how far it has come. -/
structure Call where
  method : String
  /-- the number under which the call is registered; 0 if it is not -/
  seq : UInt64 := 0
  /-- the encoded argument, as long as the call waits for the right to write -/
  waiting : Option Bytes := none
  deriving DecidableEq

/-- A call described in one line. -/
def Call.describe (c : Call) : String :=
  "Call \x7b seq: " ++ toString c.seq.toNat ++ ", service_method: " ++ Text.quoted c.method
    ++ " \x7d"

/-- The loop that reads the responses. -/
inductive Receiving where
  | reading
  /-- reading has stopped, and the pending calls have not been told -/
  | ending (reason : CallError)
  | ended

/-- A client. -/
structure Client where
  reader : Reader
  writer : Writer
  /-- the number that the next call will get -/
  nextSeq : UInt64 := 1
  /-- the calls that are registered and not completed, each under its number -/
  pending : List (UInt64 × Nat) := []
  /-- the client has been closed or given up -/
  closing : Bool := false
  /-- the connection has failed, or its loop has ended -/
  lost : Bool := false
  /-- the loop has been asked to end and has not noticed -/
  closeRequested : Bool := false
  receiving : Receiving := .reading
  /-- all calls there have been, in the order in which they were issued -/
  calls : List Call := []
  /-- all completions there have been: the call, and its encoded reply or its error -/
  completions : List (Nat × Except CallError Bytes) := []
  /-- the registered call that has the right to write, with its encoded argument -/
  holder : Option (Nat × Bytes) := none
  /-- a close has been granted and waits for the right to write -/
  closeWaiting : Bool := false
  /-- the results of all closes there have been -/
  closes : List (Except CallError Unit) := []

/-- The single steps of a client. Calls are named by their numbers in the order of their issue.

A caller always waits until its request has been written. One that gives its call up before that is
left out: it would never get the right to write, or break its own request off. Giving up the wait
for the response is no step, as the client goes on without it. -/
inductive Client.Action where
  /-- a call is issued, and its argument encoded -/
  | issue (method : String) (argument : Datum)
  /-- a call gets the right to write -/
  | register (n : Nat)
  /-- the call with the right to write writes its frame -/
  | write
  /-- some bytes of the server arrive -/
  | receive (piece : Bytes)
  /-- the stream of the server ends -/
  | hangUp (e : Ending)
  /-- the loop reads the next response, as far as it has arrived -/
  | read
  /-- the loop ends because it has been asked to -/
  | noticeClose
  /-- the loop tells the pending calls and closes the stream -/
  | terminate
  /-- the client is closed -/
  | close
  /-- a close that was granted closes the stream -/
  | finishClose
  /-- the client is given up without being closed -/
  | abandon

namespace Client

/-- The client after the negotiation line has been sent, or why that failed. -/
def connect (o : Options) (source : Source) (sink : Sink) : Except CallError Client × Sink :=
  match Negotiation.send o sink with
  | (.error e, sink) => (.error (.wire e), sink)
  | (.ok (), sink) =>
    (.ok { reader := .make o.codec [] source, writer := { codec := o.codec, sink } }, sink)

/-- The codec of the connection. -/
def codec (c : Client) : Codec := c.writer.codec

/-- Whether calls can still be issued. -/
def isAvailable (c : Client) : Bool := !c.closing && !c.lost

/-- How many calls wait for a response. -/
def pendingCount (c : Client) : Nat := c.pending.length

/-- How a call was completed, if it has been. -/
def result? (c : Client) (n : Nat) : Option (Except CallError Bytes) :=
  (c.completions.find? fun p => p.1 = n).map Prod.snd

/-- The place of the first of the given calls that was completed, if one of them has been. -/
def finished? (c : Client) (calls : List Nat) : Option (Fin calls.length) :=
  c.completions.findSome? fun p => calls.finIdxOf? p.1

/-- What the caller makes of a completion: the reply is decoded only now. -/
def decodeReply (c : Codec) (s : Shape) : Except CallError Bytes → Except CallError s.Value
  | .ok body => (c.decode s body).mapError .decodeReply
  | .error e => .error e

/-! ## Completion -/

/-- Completes a call. -/
def complete (c : Client) (n : Nat) (r : Except CallError Bytes) : Client :=
  { c with completions := c.completions ++ [(n, r)] }

/-- How a pending call fails when the connection comes to its end for the given reason. -/
def teardownError : CallError → CallError
  | .shutdown => .shutdown
  | reason => .connectionClosed reason.message

/-- Fails all calls of a table. -/
def failAll (c : Client) (table : List (UInt64 × Nat)) (reason : CallError) : Client :=
  { c with
    completions := c.completions ++ table.map fun p => (p.2, .error (teardownError reason)) }

/-- The call that is pending under a number. -/
def pending? (c : Client) (seq : UInt64) : Option Nat :=
  (c.pending.find? fun p => p.1 = seq).map Prod.snd

/-- The table without the given number. -/
def without (table : List (UInt64 × Nat)) (seq : UInt64) : List (UInt64 × Nat) :=
  table.filter fun p => p.1 ≠ seq

/-! ## Steps of a call -/

/-- Issues a call. One whose argument cannot be encoded is completed at once. -/
def issue (c : Client) (method : String) (argument : Datum) : Client :=
  match c.codec.encode argument.shape argument.value with
  | .ok body => { c with calls := c.calls ++ [⟨method, 0, some body⟩] }
  | .error e =>
    let after : Client := { c with calls := c.calls ++ [⟨method, 0, none⟩] }
    after.complete c.calls.length (.error (.encodeArguments e))

/-- Gives a call the right to write and registers it, unless the client has come to its end. -/
def register (c : Client) (n : Nat) : Option Client :=
  match c.holder, c.calls[n]? with
  | none, some ⟨method, _, some body⟩ =>
    if c.closing ∨ c.lost then
      some (complete { c with calls := c.calls.set n ⟨method, 0, none⟩ } n (.error .shutdown))
    else
      some { c with
        calls := c.calls.set n ⟨method, c.nextSeq, none⟩
        nextSeq := c.nextSeq + 1
        pending := without c.pending c.nextSeq ++ [(c.nextSeq, n)]
        holder := some (n, body) }
  | _, _ => none

/-- Brings the client to its end after the frame of a call could not be written. That call gets the
error itself, and every other pending call fails as it does where the connection is lost. -/
def abort (c : Client) (seq : UInt64) (e : WireError) : Client :=
  let after := failAll { c with lost := true, closeRequested := true, pending := [] }
    (without c.pending seq) (.wire e)
  match c.pending? seq with
  | some n => after.complete n (.error (.wire e))
  | none => after

/-- Writes the frame of the call that has the right to. -/
def write (c : Client) : Option Client :=
  match c.holder with
  | none => none
  | some (n, body) =>
    match c.calls[n]? with
    | none => none
    | some call =>
      match c.writer.writeEncoded ⟨call.method, call.seq, ""⟩ body with
      | (.ok (), writer) => some { c with writer, holder := none }
      | (.error e, writer) => some (abort { c with writer, holder := none } call.seq e)

/-! ## Steps of the loop -/

/-- Takes a response to the call whose number it bears. -/
def deliver (c : Client) (h : Header) (r : Reader) : Client :=
  match c.pending? h.seq with
  | none => { c with reader := r.discardBody }
  | some n =>
    let after := { c with pending := without c.pending h.seq }
    if h.isError then
      complete { after with reader := r.discardBody } n (.error (.server h.error))
    else
      let (body, r) := r.takeBody
      complete { after with reader := r } n (body.mapError .decodeReply)

/-- Reads the next response, as far as it has arrived. -/
def read (c : Client) : Option Client :=
  match c.receiving with
  | .reading =>
    match c.reader.readHeader with
    | (.waits, reader) => some { c with reader }
    | (.failed e, reader) => some { c with reader, receiving := .ending (.wire e) }
    | (.got h, reader) => some (c.deliver h reader)
  | _ => none

/-- Ends the loop because it has been asked to. -/
def noticeClose (c : Client) : Option Client :=
  match c.receiving, c.closeRequested with
  | .reading, true => some { c with receiving := .ending .shutdown, closeRequested := false }
  | _, _ => none

/-- Fails all pending calls and closes the stream. -/
def terminate (c : Client) : Option Client :=
  match c.receiving, c.holder with
  | .ending reason, none =>
    some (failAll
      { c with
        lost := true
        pending := []
        receiving := .ended
        writer := c.writer.close.2 }
      c.pending reason)
  | _, _ => none

/-! ## Closing -/

/-- Closes the client, unless it has come to its end already. -/
def close (c : Client) : Client :=
  if c.closing ∨ c.lost then { c with closes := c.closes ++ [.error .alreadyShutdown] }
  else { c with closing := true, closeRequested := true, closeWaiting := true }

/-- Closes the stream for a close that was granted. -/
def finishClose (c : Client) : Option Client :=
  match c.closeWaiting, c.holder with
  | true, none =>
    let (r, writer) := c.writer.close
    some { c with writer, closeWaiting := false, closes := c.closes ++ [r.mapError .wire] }
  | _, _ => none

/-- Gives the client up. -/
def abandon (c : Client) : Client :=
  if c.closing then c else { c with closing := true, closeRequested := true }

/-! ## All steps -/

/-- What an action leads to, if it is possible. -/
def step (c : Client) : Action → Option Client
  | .issue method argument => some (c.issue method argument)
  | .register n => c.register n
  | .write => c.write
  | .receive piece => some { c with reader := c.reader.arrive piece }
  | .hangUp e => some { c with reader := c.reader.finish e }
  | .read => c.read
  | .noticeClose => c.noticeClose
  | .terminate => c.terminate
  | .close => some c.close
  | .finishClose => c.finishClose
  | .abandon => some c.abandon

/-- What a sequence of actions leads to, if all of them are possible one after another. -/
def run (c : Client) (actions : List Action) : Option Client := actions.foldlM step c

end Client

end WireCall
