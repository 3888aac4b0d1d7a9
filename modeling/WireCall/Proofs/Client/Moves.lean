import WireCall.Client
import WireCall.Proofs.Message.Reader

/-!
# What a step does to a client

`Client.Move` lists everything that a client can do, with what has to hold for it and what it leads
to. There is one case for each way through an action, and the actions do nothing else
(`Client.step_eq_some_iff`). What is kept by every step, or is counted or remembered of it, is
derived from these cases.
-/

namespace WireCall

/-- How a response completes its call. -/
def Message.outcome (m : Header × Bytes) : Except CallError Bytes :=
  if m.1.isError then .error (.server m.1.error) else .ok m.2

namespace Client

/-- **What can happen to a client**, by its actions. -/
inductive Move (c : Client) : Action → Client → Prop
  | issues {method : String} {argument : Datum} {body : Bytes}
      (hencode : c.codec.encode argument.shape argument.value = .ok body) :
      Move c (.issue method argument) { c with calls := c.calls ++ [⟨method, 0, some body⟩] }
  /-- a call whose argument cannot be encoded is completed at once -/
  | misissues {method : String} {argument : Datum} {e : WireError}
      (hencode : c.codec.encode argument.shape argument.value = .error e) :
      Move c (.issue method argument)
        (complete { c with calls := c.calls ++ [⟨method, 0, none⟩] } c.calls.length
          (.error (.encodeArguments e)))
  | registers {n : Nat} {method : String} {seq : UInt64} {body : Bytes} (hidle : c.holder = none)
      (hcall : c.calls[n]? = some ⟨method, seq, some body⟩) (hclosing : c.closing = false)
      (hlost : c.lost = false) :
      Move c (.register n) { c with
        calls := c.calls.set n ⟨method, c.nextSeq, none⟩
        nextSeq := c.nextSeq + 1
        pending := without c.pending c.nextSeq ++ [(c.nextSeq, n)]
        holder := some (n, body) }
  /-- a call that comes too late is completed without a number -/
  | refuses {n : Nat} {method : String} {seq : UInt64} {body : Bytes} (hidle : c.holder = none)
      (hcall : c.calls[n]? = some ⟨method, seq, some body⟩)
      (hover : c.closing = true ∨ c.lost = true) :
      Move c (.register n)
        (complete { c with calls := c.calls.set n ⟨method, 0, none⟩ } n (.error .shutdown))
  | writes {n : Nat} {body : Bytes} {call : Call} {writer : Writer}
      (hholder : c.holder = some (n, body)) (hcall : c.calls[n]? = some call)
      (hwrite : c.writer.writeEncoded ⟨call.method, call.seq, ""⟩ body = (.ok (), writer)) :
      Move c .write { c with writer, holder := none }
  /-- the request cannot be written -/
  | breaks {n : Nat} {body : Bytes} {call : Call} {writer : Writer} {e : WireError}
      (hholder : c.holder = some (n, body)) (hcall : c.calls[n]? = some call)
      (hwrite : c.writer.writeEncoded ⟨call.method, call.seq, ""⟩ body = (.error e, writer)) :
      Move c .write (abort { c with writer, holder := none } call.seq e)
  | arrives {piece : Bytes} : Move c (.receive piece) { c with reader := c.reader.arrive piece }
  | ends {e : Ending} : Move c (.hangUp e) { c with reader := c.reader.finish e }
  | waits {reader : Reader} (hreading : c.receiving = .reading)
      (hread : c.reader.readHeader = (.waits, reader)) : Move c .read { c with reader }
  | fails {e : WireError} {reader : Reader} (hreading : c.receiving = .reading)
      (hread : c.reader.readHeader = (.failed e, reader)) :
      Move c .read { c with reader, receiving := .ending (.wire e) }
  /-- a response completes the call that is pending under its number -/
  | hears {h : Header} {body : Bytes} {reader : Reader} {n : Nat}
      (hreading : c.receiving = .reading) (hread : c.reader.readHeader = (.got h, reader))
      (hbody : reader.pending = some body) (hpending : c.pending? h.seq = some n) :
      Move c .read
        (complete { c with
          pending := without c.pending h.seq
          reader := { reader with pending := none } } n (Message.outcome (h, body)))
  /-- no call is pending under the number of a response -/
  | ignores {h : Header} {body : Bytes} {reader : Reader} (hreading : c.receiving = .reading)
      (hread : c.reader.readHeader = (.got h, reader)) (hbody : reader.pending = some body)
      (hpending : c.pending? h.seq = none) :
      Move c .read { c with reader := { reader with pending := none } }
  | notices (hreading : c.receiving = .reading) (hasked : c.closeRequested = true) :
      Move c .noticeClose { c with receiving := .ending .shutdown, closeRequested := false }
  | tells {reason : CallError} (hending : c.receiving = .ending reason) (hidle : c.holder = none) :
      Move c .terminate
        (failAll { c with
          lost := true
          pending := []
          receiving := .ended
          writer := c.writer.close.2 } c.pending reason)
  | grants (hclosing : c.closing = false) (hlost : c.lost = false) :
      Move c .close { c with closing := true, closeRequested := true, closeWaiting := true }
  /-- a close that comes too late -/
  | declines (hover : c.closing = true ∨ c.lost = true) :
      Move c .close { c with closes := c.closes ++ [.error .alreadyShutdown] }
  | finishes (hwaits : c.closeWaiting = true) (hidle : c.holder = none) :
      Move c .finishClose { c with
        writer := c.writer.close.2
        closeWaiting := false
        closes := c.closes ++ [c.writer.close.1.mapError .wire] }
  | abandons (hclosing : c.closing = false) :
      Move c .abandon { c with closing := true, closeRequested := true }
  /-- a client that has been closed is given up -/
  | still (hclosing : c.closing = true) : Move c .abandon c

variable {c c' : Client}

/-! ## Every step is a move -/

theorem deliver_eq {h : Header} {body : Bytes} {reader : Reader} {n : Nat}
    (hpending : c.pending? h.seq = some n) (hbody : reader.pending = some body) :
    c.deliver h reader =
      complete { c with
        pending := without c.pending h.seq
        reader := { reader with pending := none } } n (Message.outcome (h, body)) := by
  simp only [deliver, hpending, Message.outcome]
  cases h.isError with
  | true => rfl
  | false =>
    simp only [Reader.takeBody, hbody, Bool.false_eq_true, if_false]
    rfl

theorem move_of_register {n : Nat} (hstep : c.register n = some c') :
    Move c (.register n) c' := by
  simp only [register] at hstep
  split at hstep
  · rename_i hidle hcall
    split at hstep
    · rename_i hover
      obtain rfl := Option.some.inj hstep
      exact .refuses hidle hcall hover
    · rename_i hopen
      obtain rfl := Option.some.inj hstep
      rw [not_or, Bool.not_eq_true, Bool.not_eq_true] at hopen
      exact .registers hidle hcall hopen.1 hopen.2
  · cases hstep

theorem move_of_write (hstep : c.write = some c') : Move c .write c' := by
  simp only [write] at hstep
  split at hstep
  · cases hstep
  rename_i n body hholder
  split at hstep
  · cases hstep
  rename_i call hcall
  split at hstep
  · rename_i writer hwrite
    obtain rfl := Option.some.inj hstep
    exact .writes hholder hcall hwrite
  · rename_i e writer hwrite
    obtain rfl := Option.some.inj hstep
    exact .breaks hholder hcall hwrite

theorem move_of_read (hstep : c.read = some c') : Move c .read c' := by
  simp only [read] at hstep
  split at hstep
  · rename_i hreading
    split at hstep
    · rename_i reader hread
      obtain rfl := Option.some.inj hstep
      exact .waits hreading hread
    · rename_i e reader hread
      obtain rfl := Option.some.inj hstep
      exact .fails hreading hread
    · rename_i h reader hread
      obtain rfl := Option.some.inj hstep
      obtain ⟨body, -, hbody, -, -⟩ := Reader.readHeader_got hread
      cases hpending : c.pending? h.seq with
      | none =>
        simp only [deliver, hpending]
        exact .ignores hreading hread hbody hpending
      | some n =>
        rw [deliver_eq hpending hbody]
        exact .hears hreading hread hbody hpending
  · cases hstep

/-- **Every step is a move.** -/
theorem move_of_step {a : Action} (hstep : c.step a = some c') : Move c a c' := by
  cases a with
  | issue method argument =>
    obtain rfl := Option.some.inj hstep
    rw [issue]
    split
    · rename_i hencode
      exact .issues hencode
    · rename_i hencode
      exact .misissues hencode
  | register n => exact move_of_register hstep
  | write => exact move_of_write hstep
  | receive piece =>
    obtain rfl := Option.some.inj hstep
    exact .arrives
  | hangUp e =>
    obtain rfl := Option.some.inj hstep
    exact .ends
  | read => exact move_of_read hstep
  | noticeClose =>
    simp only [step, noticeClose] at hstep
    split at hstep
    · rename_i hreading hasked
      obtain rfl := Option.some.inj hstep
      exact .notices hreading hasked
    · cases hstep
  | terminate =>
    simp only [step, terminate] at hstep
    split at hstep
    · rename_i reason hending hidle
      obtain rfl := Option.some.inj hstep
      exact .tells hending hidle
    · cases hstep
  | close =>
    obtain rfl := Option.some.inj hstep
    rw [close]
    split
    · rename_i hover
      exact .declines hover
    · rename_i hopen
      rw [not_or, Bool.not_eq_true, Bool.not_eq_true] at hopen
      exact .grants hopen.1 hopen.2
  | finishClose =>
    simp only [step, finishClose] at hstep
    split at hstep
    · rename_i hwaits hidle
      obtain rfl := Option.some.inj hstep
      exact .finishes hwaits hidle
    · cases hstep
  | abandon =>
    obtain rfl := Option.some.inj hstep
    rw [abandon]
    split
    · rename_i hclosing
      exact .still hclosing
    · rename_i hopen
      exact .abandons (Bool.not_eq_true _ ▸ hopen)

/-- **Every move is possible**, as it says. -/
theorem Move.step {a : Action} (h : Move c a c') : c.step a = some c' := by
  cases h with
  | issues hencode | misissues hencode => simp only [Client.step, issue, hencode]
  | registers hidle hcall hclosing hlost =>
    simp [Client.step, register, hidle, hcall, hclosing, hlost]
  | refuses hidle hcall hover => simp only [Client.step, register, hidle, hcall, if_pos hover]
  | writes hholder hcall hwrite | breaks hholder hcall hwrite =>
    simp only [Client.step, write, hholder, hcall, hwrite]
  | arrives | ends => rfl
  | waits hreading hread | fails hreading hread => simp only [Client.step, read, hreading, hread]
  | hears hreading hread hbody hpending =>
    simp only [Client.step, read, hreading, hread, deliver_eq hpending hbody]
  | ignores hreading hread _ hpending =>
    simp only [Client.step, read, hreading, hread, deliver, hpending, Reader.discardBody]
  | notices hreading hasked => simp only [Client.step, noticeClose, hreading, hasked]
  | tells hending hidle => simp only [Client.step, terminate, hending, hidle]
  | grants hclosing hlost => simp [Client.step, close, hclosing, hlost]
  | declines hover => simp only [Client.step, close, if_pos hover]
  | finishes hwaits hidle => simp only [Client.step, finishClose, hwaits, hidle]
  | abandons hclosing => simp [Client.step, abandon, hclosing]
  | still hclosing => simp [Client.step, abandon, hclosing]

/-- **The steps of a client are its moves.** -/
theorem step_eq_some_iff {a : Action} : c.step a = some c' ↔ Move c a c' :=
  ⟨move_of_step, Move.step⟩

/-- What is lost when a request cannot be written: all pending calls are completed. -/
theorem exists_abort (c : Client) (seq : UInt64) (e : WireError) :
    ∃ failed, c.abort seq e = { c with
      lost := true
      closeRequested := true
      pending := []
      completions := c.completions ++ failed } := by
  simp only [abort, failAll]
  split
  · simp only [complete, List.append_assoc]
    exact ⟨_, rfl⟩
  · exact ⟨_, rfl⟩

end Client

end WireCall
