import Mathlib.Data.List.Induction
import WireCall.Proofs.Message.Writer

/-!
# A writer contains the faults of its stream

A writer is given orders, one after another: messages to write, with their bodies as bytes or as
values, and to close (`Writer.Order`). Its stream may answer in any way. As long as the writer is
open an order has one of four effects (`Writer.Obeys`); once it is closed, none has any
(`Writer.obey_of_closed`). So a fault reaches no further than the message in which it strikes: the
stream has taken the frames of the messages before it, whole, and a part of that one frame, and
nothing more is ever asked of the stream than to be shut down, once (`Writer.faults_contained`).
-/

namespace WireCall

/-- A message that is given to a writer. -/
inductive Outgoing where
  /-- its body is encoded already -/
  | encoded (h : Header) (body : Bytes)
  | value (h : Header) (d : Datum)

namespace Outgoing

/-- The frame of a message, or why there is none. -/
def frame (c : Codec) : Outgoing → Except WireError Bytes
  | .encoded h body => Message.encodeRaw c h body
  | .value h d => Message.encode c h d

/-- The bytes of a message; one that has no frame has none. -/
def bytes (c : Codec) (m : Outgoing) : Bytes :=
  match m.frame c with
  | .ok b => b
  | .error _ => []

theorem bytes_of_frame {c : Codec} {m : Outgoing} {frame : Bytes} (h : m.frame c = .ok frame) :
    m.bytes c = frame := by
  rw [bytes, h]

/-- A message that has no frame is no fault of the stream. -/
theorem ofStream_of_frame {c : Codec} {m : Outgoing} {e : WireError} (h : m.frame c = .error e) :
    e.ofStream = false := by
  cases m with
  | encoded h' body => exact Message.ofStream_of_encodeRaw h
  | value h' d =>
    rw [frame, Message.encode] at h
    cases hbody : c.encode d.shape d.value with
    | error e₁ =>
      rw [hbody] at h
      obtain rfl := Except.error.inj h
      exact Codec.ofStream_of_encode hbody
    | ok body =>
      rw [hbody] at h
      exact Message.ofStream_of_encodeRaw h

end Outgoing

namespace Writer

/-! ## Orders -/

/-- What a writer is asked to do. -/
inductive Order where
  | write (m : Outgoing)
  | close

/-- Does what the writer is asked to do. -/
def obey (w : Writer) : Order → Except WireError Unit × Writer
  | .write (.encoded h body) => w.writeEncoded h body
  | .write (.value h d) => w.writeMessage h d
  | .close => w.close

/-- The writer behind some orders. -/
def after (w : Writer) (orders : List Order) : Writer := orders.foldl (fun w o => (w.obey o).2) w

/-- Some orders, each with the answer to it. -/
def answers (w : Writer) : List Order → List (Order × Except WireError Unit)
  | [] => []
  | o :: orders => (o, (w.obey o).1) :: answers (w.obey o).2 orders

/-- The frames of the messages that were written with success. -/
def frames (c : Codec) (log : List (Order × Except WireError Unit)) : Bytes :=
  log.flatMap fun
    | (.write m, .ok ()) => m.bytes c
    | _ => []

/-- The first message in which the stream failed, if there is one. -/
def broken? (log : List (Order × Except WireError Unit)) : Option Outgoing :=
  log.findSome? fun
    | (.write m, .error (.io _)) => some m
    | _ => none

/-- Whether an order with such an answer closes a writer: it was to close, or the stream failed. -/
def closes : Order × Except WireError Unit → Bool
  | (.close, _) | (.write _, .error (.io _)) => true
  | _ => false

/-- The answer of a writer that is closed. -/
def refusal (c : Codec) : Order → Except WireError Unit
  | .write m =>
    match m.frame c with
    | .ok _ => .error .writerClosed
    | .error e => .error e
  | .close => .ok ()

/-! ## One order -/

variable {w : Writer} {o : Order}

/-- Both ways of writing a message write its frame. -/
theorem obey_write (w : Writer) (m : Outgoing) :
    w.obey (.write m) =
      match m.frame w.codec with
      | .error e => (.error e, w)
      | .ok frame => w.writeFrame frame := by
  cases m <;> rfl

/-- **A message that has no frame** leaves the writer as it is. -/
theorem obey_misfit {m : Outgoing} {e : WireError} (h : m.frame w.codec = .error e) :
    w.obey (.write m) = (.error e, w) := by
  rw [obey_write, h]

/-- **A writer that is closed does nothing more.** -/
theorem obey_of_closed (hclosed : w.closed = true) (o : Order) :
    w.obey o = (refusal w.codec o, w) := by
  cases o with
  | close => simp only [obey, close, hclosed, if_true, refusal]
  | write m =>
    rw [obey_write, refusal]
    cases m.frame w.codec with
    | error e => rfl
    | ok frame => simp only [writeFrame, hclosed, if_true]

/-- **What becomes of an order** that is given to an open writer: the answer, and the writer behind
it. -/
inductive Obeys (w : Writer) : Order → Except WireError Unit × Writer → Prop
  /-- the message has no frame -/
  | misfit {m : Outgoing} {e : WireError} (hframe : m.frame w.codec = .error e) :
      Obeys w (.write m) (.error e, w)
  | written {m : Outgoing} {frame : Bytes} {s : Sink} (hframe : m.frame w.codec = .ok frame)
      (htaken : s.taken = w.sink.taken ++ frame) (hshutdowns : s.shutdowns = w.sink.shutdowns) :
      Obeys w (.write m) (.ok (), { codec := w.codec, sink := s })
  /-- the stream fails in the message, and is shut down -/
  | broken {m : Outgoing} {frame part : Bytes} {e : IoError} {s : Sink}
      (hframe : m.frame w.codec = .ok frame) (hpart : part <+: frame)
      (htaken : s.taken = w.sink.taken ++ part) (hshutdowns : s.shutdowns = w.sink.shutdowns + 1) :
      Obeys w (.write m) (.error (.io e), { codec := w.codec, sink := s, closed := true })
  | closed {r : Except WireError Unit} {s : Sink} (htaken : s.taken = w.sink.taken)
      (hshutdowns : s.shutdowns = w.sink.shutdowns + 1) :
      Obeys w .close (r, { codec := w.codec, sink := s, closed := true })

theorem obeys_of_open (hopen : w.closed = false) (o : Order) : w.Obeys o (w.obey o) := by
  cases o with
  | close =>
    obtain ⟨r, s, hclose, htaken, hshutdowns⟩ := close_of_open hopen
    rw [obey, hclose]
    exact .closed htaken hshutdowns
  | write m =>
    cases hframe : m.frame w.codec with
    | error e =>
      rw [obey_misfit hframe]
      exact .misfit hframe
    | ok frame =>
      obtain ⟨n, htaken, hshutdowns⟩ := Sink.taken_send_front frame w.sink
      simp only [obey_write, hframe, writeFrame, hopen, Bool.false_eq_true, if_false]
      cases hsend : w.sink.send frame with
      | mk r s =>
      rw [hsend] at htaken hshutdowns
      cases r with
      | ok u => exact .written hframe (Sink.taken_send hsend) hshutdowns
      | error e =>
        -- the writer is closed at once
        obtain ⟨r, s', hclose, htaken', hshutdowns'⟩ :=
          close_of_open (w := { codec := w.codec, sink := s }) rfl
        simp only [hclose]
        exact .broken hframe (List.take_prefix n frame) (htaken'.trans htaken)
          (hshutdowns'.trans (congrArg (· + 1) hshutdowns))

/-! ## Orders one after another -/

variable {log more : List (Order × Except WireError Unit)}

theorem frames_append (c : Codec) : frames c (log ++ more) = frames c log ++ frames c more :=
  List.flatMap_append

theorem broken?_append : broken? (log ++ more) = (broken? log).or (broken? more) :=
  List.findSome?_append

theorem after_append (w : Writer) (orders more : List Order) :
    w.after (orders ++ more) = (w.after orders).after more :=
  List.foldl_append

theorem answers_append (w : Writer) (orders more : List Order) :
    w.answers (orders ++ more) = w.answers orders ++ (w.after orders).answers more := by
  induction orders generalizing w with
  | nil => rfl
  | cons o orders ih => exact congrArg _ (ih (w.obey o).2)

/-- A message that has no frame is nothing to the stream. -/
theorem quiet_misfit {c : Codec} {m : Outgoing} {e : WireError} (h : m.frame c = .error e) :
    frames c [(.write m, .error e)] = [] ∧ broken? [(.write m, .error e)] = none ∧
      closes (.write m, .error e) = false := by
  cases e with
  | io e' => cases Outgoing.ofStream_of_frame h
  | _ => exact ⟨rfl, rfl, rfl⟩

/-- What is refused is nothing to the stream. -/
theorem quiet_refusal (c : Codec) (o : Order) :
    frames c [(o, refusal c o)] = [] ∧ broken? [(o, refusal c o)] = none := by
  cases o with
  | close => exact ⟨rfl, rfl⟩
  | write m =>
    cases hframe : m.frame c with
    | ok frame =>
      simp only [refusal, hframe]
      exact ⟨rfl, rfl⟩
    | error e =>
      obtain ⟨hframes, hbroken, -⟩ := quiet_misfit hframe
      simp only [refusal, hframe]
      exact ⟨hframes, hbroken⟩

/-- **How a writer stands** behind some orders with their answers. -/
inductive Stands (c : Codec) (start : Sink) (log : List (Order × Except WireError Unit)) :
    Writer → Prop
  /-- all that was written is in the stream -/
  | usable {s : Sink} (htaken : s.taken = start.taken ++ frames c log)
      (hbroken : broken? log = none) (hcloses : log.any closes = false)
      (hshutdowns : s.shutdowns = start.shutdowns) :
      Stands c start log { codec := c, sink := s }
  /-- it has been closed, perhaps for a message in which the stream failed -/
  | closed {s : Sink} {part : Bytes} (htaken : s.taken = start.taken ++ frames c log ++ part)
      (hpart : part <+: (broken? log).elim [] (Outgoing.bytes c)) (hcloses : log.any closes = true)
      (hshutdowns : s.shutdowns = start.shutdowns + 1) :
      Stands c start log { codec := c, sink := s, closed := true }

variable {c : Codec} {start : Sink}

/-- An order takes a writer from one standing to the next. -/
theorem Stands.obey (h : Stands c start log w) (o : Order) :
    Stands c start (log ++ [(o, (w.obey o).1)]) (w.obey o).2 := by
  cases h with
  | @usable s htaken hbroken hcloses hshutdowns =>
    have hobeys := obeys_of_open (w := { codec := c, sink := s }) rfl o
    generalize Writer.obey _ o = out at hobeys ⊢
    cases hobeys with
    | misfit hframe =>
      obtain ⟨hframes, hbroken', hgoes⟩ := quiet_misfit hframe
      refine .usable ?_ ?_ ?_ hshutdowns
      · rw [frames_append, hframes, List.append_nil, htaken]
      · rw [broken?_append, hbroken, hbroken', Option.or_none]
      · rw [List.any_append, hcloses, List.any_cons, hgoes]
        rfl
    | @written m frame s' hframe htaken' hshutdowns' =>
      refine .usable ?_ ?_ ?_ (hshutdowns'.trans hshutdowns)
      · rw [htaken', htaken, frames_append, List.append_assoc]
        congr 2
        simp only [frames, List.flatMap_singleton]
        exact (Outgoing.bytes_of_frame hframe).symm
      · rw [broken?_append, hbroken]
        rfl
      · rw [List.any_append, hcloses]
        rfl
    | @broken m frame part e s' hframe hpart htaken' hshutdowns' =>
      have hnone : frames c [(.write m, .error (.io e))] = [] := rfl
      have htaken'' : s'.taken = start.taken ++ frames c (log ++ [(.write m, .error (.io e))]) ++
          part := by
        rw [htaken', htaken, frames_append, hnone, List.append_nil]
      refine .closed htaken'' ?_ ?_ (hshutdowns'.trans (congrArg (· + 1) hshutdowns))
      · rw [broken?_append, hbroken]
        rw [← Outgoing.bytes_of_frame hframe] at hpart
        exact hpart
      · rw [List.any_append]
        exact Bool.or_true _
    | @closed r s' htaken' hshutdowns' =>
      have htaken'' : s'.taken = start.taken ++ frames c (log ++ [(.close, r)]) ++ [] := by
        rw [htaken', htaken, frames_append, List.append_nil]
        exact congrArg _ (List.append_nil _).symm
      refine .closed htaken'' List.nil_prefix ?_ (hshutdowns'.trans (congrArg (· + 1) hshutdowns))
      rw [List.any_append]
      exact Bool.or_true _
  | @closed s part htaken hpart hcloses hshutdowns =>
    rw [obey_of_closed rfl]
    obtain ⟨hframes, hbroken⟩ := quiet_refusal c o
    have htaken' : s.taken = start.taken ++ frames c (log ++ [(o, refusal c o)]) ++ part := by
      rw [frames_append, hframes, List.append_nil, htaken]
    refine .closed htaken' ?_ ?_ hshutdowns
    · rw [broken?_append, hbroken, Option.or_none]
      exact hpart
    · rw [List.any_append, hcloses, Bool.true_or]

/-- **A writer stands as the answers to its orders say**, whatever its stream does. -/
theorem stands_after (c : Codec) (start : Sink) (orders : List Order) :
    Stands c start (answers { codec := c, sink := start } orders)
      (after { codec := c, sink := start } orders) := by
  induction orders using List.reverseRecOn with
  | nil => exact .usable (List.append_nil _).symm rfl rfl rfl
  | append_singleton orders o ih =>
    rw [answers_append, after_append]
    exact ih.obey o

/-- Orders behind the closing of a writer have no effect, and are all refused. -/
theorem after_of_closed (hclosed : w.closed = true) (orders : List Order) :
    w.after orders = w ∧ w.answers orders = orders.map fun o => (o, refusal w.codec o) := by
  induction orders with
  | nil => exact ⟨rfl, rfl⟩
  | cons o orders ih =>
    simp only [after, List.foldl_cons, answers, obey_of_closed hclosed o, List.map_cons]
    exact ⟨ih.1, congrArg _ ih.2⟩

/-! ## The main statement -/

/-- **A fault is contained.** Give a new writer any orders, on a stream that answers in any way:

- the stream has taken the frames of just those messages that were written with success, in their
  order, and behind them a part of the frame in which it failed first;
- the writer is closed just if it was told to, or the stream failed in a message;
- the stream has been shut down once if the writer is closed, and not at all if it is open;
- once the writer is closed it stays so, and nothing further reaches the stream: each later order is
  refused, a message that has no frame for that reason;
- a message that has no frame changes neither the writer nor the stream. -/
theorem faults_contained (c : Codec) (s : Sink) (orders : List Order) :
    let w : Writer := { codec := c, sink := s }
    (∃ part, (w.after orders).sink.taken = s.taken ++ frames c (w.answers orders) ++ part ∧
      part <+: (broken? (w.answers orders)).elim [] (Outgoing.bytes c)) ∧
    (w.after orders).closed = (w.answers orders).any closes ∧
    (w.after orders).sink.shutdowns = s.shutdowns + (if (w.after orders).closed then 1 else 0) ∧
    ((w.after orders).closed = true → ∀ later, w.after (orders ++ later) = w.after orders ∧
      w.answers (orders ++ later) = w.answers orders ++ later.map fun o => (o, refusal c o)) ∧
    ∀ m e, m.frame c = .error e →
      (w.after orders).obey (.write m) = (.error e, w.after orders) := by
  intro w
  have hstands : Stands c s (w.answers orders) (w.after orders) := stands_after c s orders
  have hcodec : (w.after orders).codec = c := by
    generalize w.after orders = w' at hstands ⊢
    cases hstands <;> rfl
  refine ⟨?_, ?_, ?_, ?_, ?_⟩
  · generalize w.after orders = w' at hstands ⊢
    cases hstands with
    | usable htaken => exact ⟨[], by rw [htaken, List.append_nil], List.nil_prefix⟩
    | closed htaken hpart => exact ⟨_, htaken, hpart⟩
  · generalize w.after orders = w' at hstands ⊢
    cases hstands with
    | usable _ _ hcloses => exact hcloses.symm
    | closed _ _ hcloses => exact hcloses.symm
  · generalize w.after orders = w' at hstands ⊢
    cases hstands with
    | usable _ _ _ hshutdowns => exact hshutdowns
    | closed _ _ _ hshutdowns => exact hshutdowns
  · intro hclosed later
    obtain ⟨hafter, hanswers⟩ := after_of_closed hclosed later
    rw [after_append, answers_append, hanswers, hcodec]
    exact ⟨hafter, rfl⟩
  · intro m e hframe
    exact obey_misfit (hcodec.symm ▸ hframe)

/-- A stream that takes forty bytes, at most eight at a time, and then fails. -/
def fortyBytes : SinkBehaviour where
  write _ taken _ := if taken < 40 then .takes (min 8 (40 - taken)) else .fails .broken
  flush _ := none
  shutdown _ := none

/-- A message of twenty-nine bytes, one that cannot be encoded, the first one again, in which the
stream fails, and two orders more. -/
def overForty : List Order :=
  [.write (.encoded ⟨"Foo.Sum", 1, ""⟩ [7]), .write (.value .blank ⟨.unwritable "why", ()⟩),
    .write (.encoded ⟨"Foo.Sum", 1, ""⟩ [7]), .close, .write (.encoded ⟨"Foo.Sum", 1, ""⟩ [7])]

theorem faults_contained_over_forty :
    let w : Writer := { codec := .compact, sink := { behaviour := fortyBytes } }
    let m : Outgoing := .encoded ⟨"Foo.Sum", 1, ""⟩ [7]
    (∃ part, (w.after overForty).sink.taken = m.bytes .compact ++ part ∧
      part <+: m.bytes .compact ∧ part.length = 11) ∧
    (w.after overForty).closed = true ∧ (w.after overForty).sink.shutdowns = 1 ∧
    (∀ later, w.after (overForty ++ later) = w.after overForty) ∧
    ∃ e, (w.after overForty).obey (.write (.value .blank ⟨.unwritable "why", ()⟩)) =
      (.error e, w.after overForty) := by
  intro w m
  obtain ⟨⟨part, htaken, hpart⟩, hclosed, hshutdowns, hlater, hmisfit⟩ :=
    faults_contained .compact { behaviour := fortyBytes } overForty
  have hframes : frames .compact (w.answers overForty) = m.bytes .compact := by decide +kernel
  have hbroken : (broken? (w.answers overForty)).elim [] (Outgoing.bytes .compact) =
      m.bytes .compact := by decide +kernel
  have hlength : (w.after overForty).sink.taken.length = 40 := by decide +kernel
  have hwhole : (m.bytes .compact).length = 29 := by decide +kernel
  have hcloses : (w.answers overForty).any closes = true := by decide +kernel
  rw [hcloses] at hclosed
  rw [hclosed, if_pos rfl] at hshutdowns
  replace htaken : (w.after overForty).sink.taken = m.bytes .compact ++ part := by
    rw [← hframes]
    exact htaken
  refine ⟨⟨part, htaken, hbroken ▸ hpart, ?_⟩, hclosed, hshutdowns,
    fun later => (hlater hclosed later).1, _, hmisfit _ _ rfl⟩
  rw [htaken, List.length_append, hwhole] at hlength
  omega

end Writer

end WireCall
