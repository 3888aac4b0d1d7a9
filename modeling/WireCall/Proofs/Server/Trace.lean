import Mathlib.Data.List.Nodup
import WireCall.Proofs.Message.Writer
import WireCall.Proofs.Run
import WireCall.Proofs.Server.Moves

/-!
# What a connection owes to what has happened on it

The events on a connection determine how it stands (`Serving.Traced`), as long as its stream accepts
everything. What has been written is the responses, one after another (`Serving.Speaks`). The
requests are the messages that have arrived, and reading goes on unless the stream has ended, a
message is no good, a response did not go into a frame or a shutdown was heard of (`Serving.Hears`).
And each task has come as far as the calls made for it and the responses given for it say
(`Serving.Works`).

Every move keeps this (`Serving.Traced.move`).
-/

namespace WireCall

/-- The message of a response. -/
def Response.message (r : Response) : Header × Bytes := (r.header, r.body)

namespace Serving

/-! ## Reading the events -/

/-- The bytes that have arrived. -/
def input (log : List Event) : Bytes :=
  log.flatMap fun
    | .arrived piece => piece
    | _ => []

/-- The requests that have been read, with their bodies. -/
def requests (log : List Event) : List (Request × Bytes) :=
  log.filterMap fun
    | .asked request body => some (request, body)
    | _ => none

/-- The messages of the requests that have been read. -/
def questions (log : List Event) : List (Header × Bytes) :=
  (requests log).map fun q => (q.1.header, q.2)

/-- The responses that have been handed to the writer, each with the number of its task. -/
def answers (log : List Event) : List (Nat × Response) :=
  log.filterMap fun
    | .answered t r => some (t, r)
    | _ => none

/-- The responses of one task. -/
def answersOf (log : List Event) (t : Nat) : List Response :=
  ((answers log).filter fun a => a.1 = t).map Prod.snd

/-- The calls made for one task, each with the memory that its handler found. -/
def invocations (log : List Event) (t : Nat) : List (Prepared × Nat) :=
  log.filterMap fun
    | .invoked u p memory => if u = t then some (p, memory) else none
    | _ => none

/-- What is written for the events on a connection. -/
def written (codec : Codec) (log : List Event) : Bytes :=
  (answers log).flatMap fun a => Message.bytes codec a.2.message

section Append

variable (log ev : List Event)

@[simp]
theorem input_append : input (log ++ ev) = input log ++ input ev := List.flatMap_append

@[simp]
theorem requests_append : requests (log ++ ev) = requests log ++ requests ev :=
  List.filterMap_append

@[simp]
theorem questions_append : questions (log ++ ev) = questions log ++ questions ev := by
  simp [questions]

@[simp]
theorem answers_append : answers (log ++ ev) = answers log ++ answers ev := List.filterMap_append

@[simp]
theorem written_append (codec : Codec) :
    written codec (log ++ ev) = written codec log ++ written codec ev := by
  simp [written]

@[simp]
theorem answersOf_append (t : Nat) :
    answersOf (log ++ ev) t = answersOf log t ++ answersOf ev t := by
  simp [answersOf]

@[simp]
theorem invocations_append (t : Nat) :
    invocations (log ++ ev) t = invocations log t ++ invocations ev t := List.filterMap_append

end Append

theorem mem_answersOf {log : List Event} {t : Nat} {r : Response} :
    r ∈ answersOf log t ↔ (t, r) ∈ answers log := by
  simp only [answersOf, List.mem_map, List.mem_filter, decide_eq_true_eq]
  constructor
  · rintro ⟨⟨u, r'⟩, ⟨hmem, rfl⟩, rfl⟩
    exact hmem
  · intro hmem
    exact ⟨(t, r), ⟨hmem, rfl⟩, rfl⟩

theorem count_answers (log : List Event) (t : Nat) :
    ((answers log).map Prod.fst).count t = (answersOf log t).length := by
  rw [List.count, List.countP_map, List.countP_eq_length_filter, answersOf, List.length_map]
  rfl

/-! ## The writer -/

/-- **What has been written** is the responses, of which those are missing that went into no
frame. -/
structure Speaks (codec : Codec) (before : Bytes) (log : List Event) (w : Writer) : Prop where
  codec_eq : w.codec = codec
  isOpen : w.Open
  taken : w.sink.taken = before ++ written codec log

variable {registry : Registry} {codec : Codec} {start before : Bytes} {log ev : List Event}
  {c c' : Serving}

theorem Speaks.quiet {w : Writer} (h : Speaks codec before log w) (hev : answers ev = []) :
    Speaks codec before (log ++ ev) w where
  codec_eq := h.codec_eq
  isOpen := h.isOpen
  taken := by
    have hnone : written codec ev = [] := by rw [written, hev, List.flatMap_nil]
    rw [written_append, hnone, List.append_nil, h.taken]

/-- Whether some response did not go into a frame. -/
def Misfits (codec : Codec) (log : List Event) : Prop :=
  ∃ a ∈ answers log, ¬ Message.Fits codec a.2.message

theorem Speaks.responds {w w' : Writer} {t : Nat} {r : Response} (h : Speaks codec before log w)
    (hwrite : w.writeEncoded r.header r.body = (.ok (), w')) :
    Speaks codec before (log ++ [.answered t r]) w' := by
  obtain ⟨rfl, hopen, htaken⟩ := h
  by_cases hfits : Message.Fits w.codec r.message
  · obtain ⟨w'', hw'', hopen', hcodec, htaken', -⟩ := Writer.writeEncoded_of_fits hopen hfits
    obtain rfl : w' = w'' := (Prod.mk.inj (hwrite.symm.trans hw'')).2
    refine ⟨hcodec, hopen', ?_⟩
    rw [htaken', htaken]
    simp [written, answers]
  · obtain ⟨e, he⟩ := Writer.writeEncoded_of_not_fits hfits
    cases (Prod.mk.inj (hwrite.symm.trans he)).1

theorem Speaks.breaks {w w' : Writer} {t : Nat} {r : Response} {e : WireError}
    (h : Speaks codec before log w) (hwrite : w.writeEncoded r.header r.body = (.error e, w')) :
    Speaks codec before (log ++ [.answered t r]) w' ∧ ¬ Message.Fits codec r.message := by
  obtain ⟨rfl, hopen, htaken⟩ := h
  by_cases hfits : Message.Fits w.codec r.message
  · obtain ⟨w'', hw'', -⟩ := Writer.writeEncoded_of_fits hopen hfits
    cases (Prod.mk.inj (hwrite.symm.trans hw'')).1
  · obtain ⟨e', he⟩ := Writer.writeEncoded_of_not_fits hfits
    obtain rfl : w' = w := (Prod.mk.inj (hwrite.symm.trans he)).2
    refine ⟨⟨rfl, hopen, ?_⟩, hfits⟩
    rw [htaken]
    simp [written, answers, Message.bytes_of_not_fits hfits]

theorem Speaks.move (h : Speaks codec before log c.writer) (hmove : Move registry c ev c') :
    Speaks codec before (log ++ ev) c'.writer := by
  cases hmove with
  | responds _ hwrite => exact h.responds hwrite
  | breaks _ hwrite => exact (h.breaks hwrite).1
  | _ => exact h.quiet rfl

/-! ## The reader -/

/-- Whether the messages are all there will be in the stream. -/
def Ends (codec : Codec) (bytes : Bytes) (ending : Option Ending)
    (messages : List (Header × Bytes)) : Prop :=
  Message.parse codec bytes = messages ∧
    (ending.isSome ∨ ∀ t, Message.parse codec (bytes ++ t) = messages)

/-- **What is read** is what has arrived. -/
structure Hears (codec : Codec) (start : Bytes) (log : List Event) (c : Serving) : Prop where
  codec_eq : c.reader.codec = codec
  splits : ∃ last, Message.Splits codec (start ++ input log) (questions log) last
  reading : c.reading = true →
    Message.Splits codec (start ++ input log) (questions log) c.reader.bytes
  stopped : c.reading = false →
    Ends codec (start ++ input log) c.reader.source.ending (questions log) ∨ Misfits codec log ∨
      .signalled ∈ log
  failed : c.writeFailed = true → Misfits codec log
  heard : c.signalled = true → .signalled ∈ log

theorem Misfits.append (h : Misfits codec log) (ev : List Event) : Misfits codec (log ++ ev) := by
  obtain ⟨a, ha, hfits⟩ := h
  exact ⟨a, by rw [answers_append]; exact List.mem_append_left _ ha, hfits⟩

theorem Misfits.of_answered {r : Response} (h : ¬ Message.Fits codec r.message) (log : List Event)
    (t : Nat) : Misfits codec (log ++ [.answered t r]) := by
  refine ⟨(t, r), ?_, h⟩
  rw [answers_append]
  exact List.mem_append_right _ List.mem_cons_self

/-- What neither arrives nor is read leaves the reader alone. -/
theorem Hears.quiet (h : Hears codec start log c) (hinput : input ev = [])
    (hrequests : requests ev = []) (hreader : c'.reader = c.reader)
    (hreading : c'.reading = c.reading)
    (hfailed : c'.writeFailed = true → Misfits codec (log ++ ev))
    (hheard : c'.signalled = true → .signalled ∈ log ++ ev) : Hears codec start (log ++ ev) c' := by
  have hquestions : questions (log ++ ev) = questions log := by
    rw [questions_append, questions, questions, hrequests, List.map_nil, List.append_nil]
  have hinput' : input (log ++ ev) = input log := by
    rw [input_append, hinput, List.append_nil]
  refine ⟨hreader ▸ h.codec_eq, ?_, ?_, ?_, hfailed, hheard⟩
  · rw [hquestions, hinput']
    exact h.splits
  · rw [hreader, hreading, hquestions, hinput']
    exact h.reading
  · intro hstopped
    rw [hreader, hquestions, hinput']
    rcases h.stopped (hreading ▸ hstopped) with hends | hmisfits | hsignalled
    · exact .inl hends
    · exact .inr (.inl (hmisfits.append ev))
    · exact .inr (.inr (List.mem_append_left _ hsignalled))

/-- Where a reader is stuck, there are no messages but those before. -/
theorem Ends.of_stuck {bytes : Bytes} {messages : List (Header × Bytes)} {r : Reader}
    (hsplits : Message.Splits r.codec bytes messages r.bytes) (hstuck : r.Stuck) :
    Ends r.codec bytes r.source.ending messages := by
  have hnone : ∀ {b}, Message.next? r.codec b = none → messages ++ Message.parse r.codec b =
      messages := by
    intro b hb
    rw [Message.parse_of_none hb, List.append_nil]
  refine ⟨by rw [hsplits.parse_eq, hnone hstuck.next?_eq_none], ?_⟩
  rcases hstuck with hnever | ⟨-, hended⟩
  · right
    intro t
    rw [(hsplits.append t).parse_eq, hnone (hnever t)]
  · exact .inl hended

theorem Ends.arrive {bytes : Bytes} {messages : List (Header × Bytes)}
    (h : Ends codec bytes none messages) (t : Bytes) : Ends codec (bytes ++ t) none messages := by
  obtain ⟨-, hended | hnever⟩ := h
  · cases hended
  · refine ⟨hnever t, .inr fun u => ?_⟩
    rw [List.append_assoc]
    exact hnever _

/-- What arrives stands behind what has arrived. -/
theorem Hears.arrives (h : Hears codec start log c) (hopen : c.reader.source.ending = none)
    (piece : Bytes) :
    Hears codec start (log ++ [.arrived piece]) { c with reader := c.reader.arrive piece } := by
  have hinput : start ++ input (log ++ [.arrived piece]) = start ++ input log ++ piece := by
    simp [input]
  have hbytes : (c.reader.arrive piece).bytes = c.reader.bytes ++ piece := by
    simp [Reader.bytes_arrive, hopen]
  have hquestions : questions (log ++ [.arrived piece]) = questions log := by
    rw [questions_append]
    exact List.append_nil _
  refine ⟨h.codec_eq, ?_, ?_, ?_, ?_, ?_⟩
  · rw [hinput, hquestions]
    obtain ⟨last, hsplits⟩ := h.splits
    exact ⟨_, hsplits.append piece⟩
  · intro hr
    rw [hinput, hquestions]
    exact hbytes ▸ (h.reading hr).append piece
  · intro hr
    rw [hinput, hquestions, Reader.ending_arrive, hopen]
    rcases h.stopped hr with hends | hmisfits | hsignalled
    · exact .inl ((hopen ▸ hends).arrive piece)
    · exact .inr (.inl (hmisfits.append _))
    · exact .inr (.inr (List.mem_append_left _ hsignalled))
  · intro hf
    exact (h.failed hf).append _
  · intro hs
    exact List.mem_append_left _ (h.heard hs)

/-- Nothing arrives any more. -/
theorem Hears.ends (h : Hears codec start log c) (e : Ending) :
    Hears codec start (log ++ [.ended e]) { c with reader := c.reader.finish e } := by
  have hinput : input (log ++ [.ended e]) = input log := by
    rw [input_append]
    exact List.append_nil _
  have hquestions : questions (log ++ [.ended e]) = questions log := by
    rw [questions_append]
    exact List.append_nil _
  refine ⟨h.codec_eq, ?_, ?_, ?_, ?_, ?_⟩
  · rw [hinput, hquestions]
    exact h.splits
  · intro hr
    rw [hinput, hquestions, Reader.bytes_finish]
    exact h.reading hr
  · intro hr
    rw [hinput, hquestions]
    rcases h.stopped hr with hends | hmisfits | hsignalled
    · exact .inl ⟨hends.1, .inl (Reader.ending_finish _ e)⟩
    · exact .inr (.inl (hmisfits.append _))
    · exact .inr (.inr (List.mem_append_left _ hsignalled))
  · intro hf
    exact (h.failed hf).append _
  · intro hs
    exact List.mem_append_left _ (h.heard hs)

/-- The next request is read. -/
theorem Hears.asks (h : Hears codec start log c) (hreading : c.reading = true) {hd : Header}
    {body : Bytes} {reader : Reader} (hread : c.reader.readHeader = (.got hd, reader))
    (hbody : reader.pending = some body) (call : Except ServeError Prepared)
    (tasks : List Task) :
    Hears codec start (log ++ [.asked ⟨hd, call⟩ body])
      { c with reader := { reader with pending := none }, tasks } := by
  obtain ⟨body', hnext, hbody', hcodec, -⟩ := Reader.readHeader_got hread
  obtain rfl := Option.some.inj (hbody'.symm.trans hbody)
  have hsplits := (h.reading hreading).snoc (h.codec_eq ▸ hnext)
  rw [← List.append_nil (input log)] at hsplits
  refine ⟨hcodec.trans h.codec_eq, ?_, ?_, ?_, ?_, ?_⟩
  · rw [questions_append, input_append]
    exact ⟨_, hsplits⟩
  · intro _
    rw [questions_append, input_append]
    exact hsplits
  · intro hr
    rw [hreading] at hr
    cases hr
  · intro hf
    exact (h.failed hf).append _
  · intro hs
    exact List.mem_append_left _ (h.heard hs)

theorem Hears.move (h : Hears codec start log c) (hspeaks : Speaks codec before log c.writer)
    (hmove : Move registry c ev c') : Hears codec start (log ++ ev) c' := by
  have hfailed := fun hf => (h.failed hf).append ev
  have hheard := fun hs => List.mem_append_left ev (h.heard hs)
  cases hmove with
  | arrives hopen => exact h.arrives hopen _
  | ends => exact h.ends _
  | asks hreading hread hbody => exact h.asks hreading hread hbody _ _
  | waits hreading hread =>
    rw [List.append_nil] at hfailed hheard ⊢
    obtain ⟨-, hbytes, hcodec, -, -⟩ := Reader.readHeader_waits hread
    refine ⟨hcodec.trans h.codec_eq, h.splits, ?_, ?_, hfailed, hheard⟩
    · intro hr
      exact hbytes ▸ h.reading hr
    · intro hr
      rw [hreading] at hr
      cases hr
  | fails hreading hread =>
    rw [List.append_nil] at hfailed hheard ⊢
    obtain ⟨hstuck, hcodec, hending⟩ := Reader.readHeader_failed hread
    refine ⟨hcodec.trans h.codec_eq, h.splits, nofun, fun _ => .inl ?_, hfailed, hheard⟩
    have hsplits := h.reading hreading
    rw [← h.codec_eq] at hsplits ⊢
    exact hending ▸ Ends.of_stuck hsplits hstuck
  | noticesFailure hreading hf =>
    rw [List.append_nil]
    exact ⟨h.codec_eq, h.splits, nofun, fun _ => .inr (.inl (h.failed hf)), nofun, h.heard⟩
  | noticesShutdown hreading hs =>
    rw [List.append_nil]
    exact ⟨h.codec_eq, h.splits, nofun, fun _ => .inr (.inr (h.heard hs)), h.failed, nofun⟩
  | signals => exact h.quiet rfl rfl rfl rfl hfailed fun _ => by simp
  | breaks _ hwrite =>
    rename_i t _ _ _ _
    have hfits := (hspeaks.breaks (t := t) hwrite).2
    exact h.quiet rfl rfl rfl rfl (fun _ => .of_answered hfits log t) hheard
  | _ => exact h.quiet rfl rfl rfl rfl hfailed hheard

/-! ## The tasks -/

/-- What the call of a request has come to, and the calls made for it: none if it cannot be called,
and otherwise one, which is the call that the request stands for. -/
def Concludes (codec : Codec) (calls : List (Prepared × Nat)) (r : Request)
    (result : Except String Bytes) : Prop :=
  match r.call with
  | .error e => calls = [] ∧ result = .error e.message
  | .ok p => ∃ memory, calls = [(p, memory)] ∧ result = p.result codec r.header.method memory

/-- **How far a task has come** by the calls made for it and the responses given for it. -/
def Follows (codec : Codec) (calls : List (Prepared × Nat)) (given : List Response) (r : Request) :
    Task → Prop
  | .waiting r' => r' = r ∧ calls = [] ∧ given = []
  | .sleeping h _ result => h = r.header ∧ Concludes codec calls r result ∧ given = []
  | .responding response =>
    (∃ result, Concludes codec calls r result ∧ response = .make codec r.header result) ∧ given = []
  | .finished =>
    ∃ result, Concludes codec calls r result ∧ given = [.make codec r.header result]

/-- **The tasks** are those of the requests, and each has come as far as the events say. -/
structure Works (codec : Codec) (log : List Event) (tasks : List Task) : Prop where
  length : tasks.length = (requests log).length
  follows : ∀ {t : Nat} {q : Request × Bytes} {task : Task}, (requests log)[t]? = some q →
    tasks[t]? = some task → Follows codec (invocations log t) (answersOf log t) q.1 task
  later : ∀ t, tasks.length ≤ t → invocations log t = [] ∧ answersOf log t = []

variable {tasks : List Task}

theorem Works.quiet (h : Works codec log tasks) (hrequests : requests ev = [])
    (hev : ∀ t, invocations ev t = [] ∧ answersOf ev t = []) : Works codec (log ++ ev) tasks where
  length := by rw [requests_append, hrequests, List.append_nil, h.length]
  follows := by
    intro t q task hq htask
    rw [requests_append, hrequests, List.append_nil] at hq
    rw [invocations_append, answersOf_append, (hev t).1, (hev t).2, List.append_nil,
      List.append_nil]
    exact h.follows hq htask
  later := by
    intro t ht
    rw [invocations_append, answersOf_append, (hev t).1, (hev t).2, List.append_nil,
      List.append_nil]
    exact h.later t ht

/-- A request starts a task for which nothing has happened. -/
theorem Works.asks (h : Works codec log tasks) (r : Request) (body : Bytes) :
    Works codec (log ++ [.asked r body]) (tasks ++ [.waiting r]) := by
  have hrequests : requests (log ++ [.asked r body]) = requests log ++ [(r, body)] := by
    rw [requests_append]
    rfl
  have hcalls : ∀ t, invocations (log ++ [.asked r body]) t = invocations log t := by
    intro t
    rw [invocations_append]
    exact List.append_nil _
  have hgiven : ∀ t, answersOf (log ++ [.asked r body]) t = answersOf log t := by
    intro t
    rw [answersOf_append]
    exact List.append_nil _
  refine ⟨by rw [hrequests, List.length_append, List.length_append, h.length]; rfl, ?_, ?_⟩
  · intro t q task hq htask
    rw [hcalls, hgiven]
    rw [hrequests] at hq
    rcases getElem?_of_concat htask with htask | ⟨rfl, rfl⟩
    · rcases getElem?_of_concat hq with hq | ⟨rfl, -⟩
      · exact h.follows hq htask
      · have := (List.getElem?_eq_some_iff.mp htask).1
        rw [h.length] at this
        exact absurd this (Nat.lt_irrefl _)
    · rw [h.length, List.getElem?_concat_length] at hq
      obtain rfl := Option.some.inj hq
      exact ⟨rfl, h.later tasks.length (Nat.le_refl _)⟩
  · intro t ht
    rw [hcalls, hgiven]
    rw [List.length_append] at ht
    exact h.later t (by omega)

/-- One task gets further, by events that are about no other one. -/
theorem Works.advance (h : Works codec log tasks) {t : Nat} {old new : Task}
    (htask : tasks[t]? = some old) (hrequests : requests ev = [])
    (hother : ∀ u, u ≠ t → invocations ev u = [] ∧ answersOf ev u = [])
    (hnew : ∀ r, Follows codec (invocations log t) (answersOf log t) r old →
      Follows codec (invocations log t ++ invocations ev t) (answersOf log t ++ answersOf ev t) r
        new) :
    Works codec (log ++ ev) (tasks.set t new) := by
  have hlt := (List.getElem?_eq_some_iff.mp htask).1
  refine ⟨?_, ?_, ?_⟩
  · rw [List.length_set, requests_append, hrequests, List.append_nil, h.length]
  · intro u q task hq hu
    rw [requests_append, hrequests, List.append_nil] at hq
    rw [invocations_append, answersOf_append]
    rcases getElem?_of_set hu with ⟨rfl, rfl⟩ | ⟨hut, hu⟩
    · exact hnew q.1 (h.follows hq htask)
    · rw [(hother u hut).1, (hother u hut).2, List.append_nil, List.append_nil]
      exact h.follows hq hu
  · intro u hu
    rw [List.length_set] at hu
    have hut : u ≠ t := by omega
    rw [invocations_append, answersOf_append, (hother u hut).1, (hother u hut).2, List.append_nil,
      List.append_nil]
    exact h.later u hu

theorem invocations_answered (t u : Nat) (r : Response) : invocations [.answered t r] u = [] := rfl

theorem answersOf_answered_self (t : Nat) (r : Response) : answersOf [.answered t r] t = [r] := by
  simp [answersOf, answers]

theorem answersOf_answered_ne {t u : Nat} (h : u ≠ t) (r : Response) :
    answersOf [.answered t r] u = [] := by
  simp [answersOf, answers, Ne.symm h]

theorem invocations_invoked_self (t : Nat) (p : Prepared) (memory : Nat) :
    invocations [.invoked t p memory] t = [(p, memory)] := by
  simp [invocations]

theorem invocations_invoked_ne {t u : Nat} (h : u ≠ t) (p : Prepared) (memory : Nat) :
    invocations [.invoked t p memory] u = [] := by
  simp [invocations, Ne.symm h]

/-- A response that is given finishes its task. -/
theorem Works.gives (h : Works codec log tasks) {t : Nat} {r : Response}
    (htask : tasks[t]? = some (.responding r)) :
    Works codec (log ++ [.answered t r]) (tasks.set t .finished) := by
  refine h.advance htask rfl (fun u hu => ⟨rfl, answersOf_answered_ne hu r⟩) ?_
  rintro q ⟨⟨result, hresult, rfl⟩, hgiven⟩
  refine ⟨result, ?_, ?_⟩
  · rw [invocations_answered, List.append_nil]
    exact hresult
  · rw [hgiven, answersOf_answered_self, List.nil_append]

theorem Works.move (h : Works codec log c.tasks) (hcodec : c.writer.codec = codec)
    (hmove : Move registry c ev c') : Works codec (log ++ ev) c'.tasks := by
  subst hcodec
  cases hmove with
  | asks => exact h.asks _ _
  | refuses htask =>
    refine h.advance htask rfl (fun _ _ => ⟨rfl, rfl⟩) ?_
    rintro r ⟨rfl, hcalls, hgiven⟩
    rw [hcalls, hgiven]
    exact ⟨⟨_, ⟨rfl, rfl⟩, rfl⟩, rfl⟩
  | calls htask =>
    rename_i t _ p
    refine h.advance htask rfl (fun u hu => ⟨invocations_invoked_ne hu _ _, rfl⟩) ?_
    rintro r ⟨rfl, hcalls, hgiven⟩
    rw [hcalls, hgiven, invocations_invoked_self]
    exact ⟨⟨_, ⟨_, rfl, rfl⟩, rfl⟩, rfl⟩
  | sleeps htask =>
    refine h.advance htask rfl (fun u hu => ⟨invocations_invoked_ne hu _ _, rfl⟩) ?_
    rintro r ⟨rfl, hcalls, hgiven⟩
    rw [hcalls, hgiven, invocations_invoked_self]
    exact ⟨rfl, ⟨_, rfl, rfl⟩, rfl⟩
  | wakes htask =>
    refine h.advance htask rfl (fun _ _ => ⟨rfl, rfl⟩) ?_
    rintro r ⟨rfl, hresult, hgiven⟩
    rw [hgiven]
    exact ⟨⟨_, by rwa [show invocations [] _ = [] from rfl, List.append_nil], rfl⟩, rfl⟩
  | responds htask => exact h.gives htask
  | breaks htask => exact h.gives htask
  | _ => exact h.quiet rfl fun _ => ⟨rfl, rfl⟩

/-- A finished task has given one response. -/
theorem Works.finished (h : Works codec log tasks)
    (hfinished : tasks.all Task.isFinished) {t : Nat} {q : Request × Bytes}
    (hq : (requests log)[t]? = some q) :
    ∃ result, Concludes codec (invocations log t) q.1 result ∧
      answersOf log t = [.make codec q.1.header result] := by
  have hlt : t < tasks.length := h.length ▸ (List.getElem?_eq_some_iff.mp hq).1
  have htask := List.getElem?_eq_getElem hlt
  have hdone := List.all_eq_true.mp hfinished _ (List.getElem_mem hlt)
  have hfollows := h.follows hq htask
  revert hdone hfollows
  cases tasks[t] with
  | finished => exact fun _ h => h
  | _ => exact fun h => by cases h

theorem Concludes.calls {calls : List (Prepared × Nat)} {r : Request} {result : Except String Bytes}
    (h : Concludes codec calls r result) :
    calls = [] ∨ ∃ p memory, r.call = .ok p ∧ calls = [(p, memory)] := by
  unfold Concludes at h
  split at h
  · exact .inl h.1
  · rename_i p hp
    obtain ⟨memory, hcalls, -⟩ := h
    exact .inr ⟨p, memory, hp, hcalls⟩

/-- For a task no response has been given, or one. -/
theorem Follows.given {calls : List (Prepared × Nat)} {given : List Response} {r : Request}
    {task : Task} (h : Follows codec calls given r task) :
    given = [] ∨
      ∃ result, Concludes codec calls r result ∧ given = [.make codec r.header result] := by
  cases task with
  | waiting r' => exact .inl h.2.2
  | sleeping h' due result => exact .inl h.2.2
  | responding r' => exact .inl h.2
  | finished => exact .inr h

/-- For a task no call has been made, or one, which is the call that its request stands for. -/
theorem Follows.calls {calls : List (Prepared × Nat)} {given : List Response} {r : Request}
    {task : Task} (h : Follows codec calls given r task) :
    calls = [] ∨ ∃ p memory, r.call = .ok p ∧ calls = [(p, memory)] := by
  cases task with
  | waiting r' => exact .inl h.2.1
  | sleeping h' due result => exact h.2.1.calls
  | responding r' =>
    obtain ⟨⟨result, hresult, -⟩, -⟩ := h
    exact hresult.calls
  | finished =>
    obtain ⟨result, hresult, -⟩ := h
    exact hresult.calls

/-- What there is for a task is what there is for its request. -/
theorem Works.at (h : Works codec log tasks) (t : Nat) :
    (invocations log t = [] ∧ answersOf log t = []) ∨
      ∃ q task, (requests log)[t]? = some q ∧
        Follows codec (invocations log t) (answersOf log t) q.1 task := by
  rcases Nat.lt_or_ge t tasks.length with hlt | hge
  · have hq := List.getElem?_eq_getElem (h.length ▸ hlt : t < (requests log).length)
    exact .inr ⟨_, _, hq, h.follows hq (List.getElem?_eq_getElem hlt)⟩
  · exact .inl (h.later t hge)

/-- A response that has been given is that of a request, with what its call has come to. -/
theorem Works.answered (h : Works codec log tasks) {t : Nat} {r : Response}
    (hmem : (t, r) ∈ answers log) :
    ∃ q result, (requests log)[t]? = some q ∧ Concludes codec (invocations log t) q.1 result ∧
      r = .make codec q.1.header result := by
  rw [← mem_answersOf] at hmem
  rcases h.at t with ⟨-, hnone⟩ | ⟨q, task, hq, hfollows⟩
  · rw [hnone] at hmem
    cases hmem
  · rcases hfollows.given with hnone | ⟨result, hresult, hone⟩
    · rw [hnone] at hmem
      cases hmem
    · rw [hone] at hmem
      exact ⟨q, result, hq, hresult, List.mem_singleton.mp hmem⟩

/-- **No task answers twice.** -/
theorem Works.once (h : Works codec log tasks) : ((answers log).map Prod.fst).Nodup := by
  rw [List.nodup_iff_count_le_one]
  intro t
  rw [count_answers]
  rcases h.at t with ⟨-, hnone⟩ | ⟨q, task, -, hfollows⟩
  · rw [hnone]
    exact Nat.zero_le 1
  · rcases hfollows.given with hnone | ⟨result, -, hone⟩
    · rw [hnone]
      exact Nat.zero_le 1
    · rw [hone]
      exact Nat.le_refl 1

/-! ## The connection -/

/-- **How a connection stands** after the events on it: `start` is what had arrived before, and
`before` what had been written. -/
structure Traced (codec : Codec) (start before : Bytes) (log : List Event) (c : Serving) :
    Prop where
  speaks : Speaks codec before log c.writer
  hears : Hears codec start log c
  works : Works codec log c.tasks

/-- **Every move** leaves the connection as the events say. -/
theorem Traced.move (h : Traced codec start before log c) (hmove : Move registry c ev c') :
    Traced codec start before (log ++ ev) c' where
  speaks := h.speaks.move hmove
  hears := h.hears.move h.speaks hmove
  works := h.works.move h.speaks.codec_eq hmove

/-- A connection that has just been negotiated. -/
theorem Traced.init {rest : Bytes} {source : Source} (sink : Sink)
    (haccepts : sink.behaviour.Accepts) :
    Traced codec (rest ++ source.unread) sink.taken []
      { reader := .make codec rest source, writer := { codec, sink } } where
  speaks := ⟨rfl, ⟨rfl, haccepts⟩, by simp [written, answers]⟩
  hears := by
    have hsplits : Message.Splits codec (rest ++ source.unread ++ input []) (questions [])
        (rest ++ source.unread) := by
      rw [show input [] = [] from rfl, List.append_nil]
      exact .nil _
    exact ⟨rfl, ⟨_, hsplits⟩, fun _ => hsplits, nofun, nofun, nofun⟩
  works := ⟨rfl, by simp, fun _ _ => ⟨rfl, rfl⟩⟩

end Serving

end WireCall
