import WireCall.Proofs.Server.Answering

/-!
# What a connection has written when its stream may fail

The stream of a connection may fail in the middle of any frame. What it has taken then is a
*transcript* of the responses (`Serving.Transcript`): complete frames of some of them, and behind
those at most a part of the frame of one more. Every front of a transcript is one too, so this holds
at each moment inside a write as well.

A writer *utters* the responses (`Serving.Utters`): it has written the frames of all that go into
one, or a *fault* of the stream has closed it, and then a transcript is all there will ever be. No
two tasks answer the same request, and each response *responds* to its own one
(`Serving.Responds`). `Server.responses_written` says this of every run.
-/

namespace WireCall

namespace Response

/-- The unit value has an encoding. -/
theorem encode_unit (c : Codec) : c.encode .unit () = .ok (unitBody c) := by
  cases c <;> rfl

end Response

namespace Serving

variable {codec : Codec} {log ev : List Event} {responses : List (Nat × Response)} {sink : Sink}
  {past : List IoError} {w : Writer} {c c' : Serving} {registry : Registry}

/-! ## Transcripts -/

/-- The frames of some responses, one behind the other. -/
def frames (codec : Codec) (given : List (Nat × Response)) : Bytes :=
  given.flatMap fun a => Message.bytes codec a.2.message

theorem written_eq (codec : Codec) (log : List Event) :
    written codec log = frames codec (answers log) := rfl

/-- **Complete frames of some responses**, in their order, and behind them at most a part of the
frame of one more. -/
inductive Transcript (codec : Codec) (responses : List (Nat × Response)) : Bytes → Prop
  | whole {given : List (Nat × Response)} (hgiven : given.Sublist responses)
      (hfit : ∀ a ∈ given, Message.Fits codec a.2.message) :
      Transcript codec responses (frames codec given)
  | torn {given : List (Nat × Response)} {a : Nat × Response} {part : Bytes}
      (hgiven : (given ++ [a]).Sublist responses)
      (hfit : ∀ b ∈ given ++ [a], Message.Fits codec b.2.message)
      (hpart : part <+: Message.bytes codec a.2.message)
      (hless : part ≠ Message.bytes codec a.2.message) :
      Transcript codec responses (frames codec given ++ part)

/-- The front of some frames is a transcript. -/
theorem Transcript.of_front {given : List (Nat × Response)} {seen : Bytes}
    (hgiven : given.Sublist responses) (hfit : ∀ a ∈ given, Message.Fits codec a.2.message)
    (hseen : seen <+: frames codec given) : Transcript codec responses seen := by
  rcases front_flatMap hseen with
    ⟨done, rest, rfl, rfl⟩ | ⟨done, a, rest, part, rfl, hpart, hless, rfl⟩
  · refine .whole ((List.sublist_append_left _ _).trans hgiven) ?_
    intro a ha
    exact hfit a (List.mem_append_left _ ha)
  · have hdone : (done ++ [a]).Sublist (done ++ a :: rest) := by
      rw [← List.singleton_append (l := rest), ← List.append_assoc]
      exact List.sublist_append_left _ _
    exact .torn (hdone.trans hgiven) (fun b hb => hfit b (hdone.subset hb)) hpart hless

/-- A transcript is the front of some frames. -/
theorem Transcript.exists_front {seen : Bytes} (h : Transcript codec responses seen) :
    ∃ given, given.Sublist responses ∧ (∀ a ∈ given, Message.Fits codec a.2.message) ∧
      seen <+: frames codec given := by
  cases h with
  | whole hgiven hfit => exact ⟨_, hgiven, hfit, List.prefix_rfl⟩
  | torn hgiven hfit hpart =>
    refine ⟨_, hgiven, hfit, ?_⟩
    rw [frames, frames, List.flatMap_append, List.flatMap_singleton]
    exact (List.prefix_append_right_inj _).mpr hpart

/-- Every front of a transcript is one. -/
theorem Transcript.front {seen seen' : Bytes} (h : Transcript codec responses seen)
    (hfront : seen' <+: seen) : Transcript codec responses seen' := by
  obtain ⟨given, hgiven, hfit, hseen⟩ := h.exists_front
  exact .of_front hgiven hfit (hfront.trans hseen)

/-- More responses do no harm to a transcript. -/
theorem Transcript.append {seen : Bytes} (h : Transcript codec responses seen)
    (more : List (Nat × Response)) : Transcript codec (responses ++ more) seen := by
  obtain ⟨given, hgiven, hfit, hseen⟩ := h.exists_front
  exact .of_front (hgiven.trans (List.sublist_append_left _ _)) hfit hseen

/-- The frames of some responses are those of the ones that have a frame. -/
theorem frames_filter (codec : Codec) (given : List (Nat × Response)) :
    frames codec given = frames codec (given.filter fun a => Message.Fits codec a.2.message) := by
  induction given with
  | nil => rfl
  | cons a given ih =>
    rw [frames, List.flatMap_cons]
    by_cases hfits : Message.Fits codec a.2.message
    · rw [List.filter_cons_of_pos (by simpa using hfits), frames, List.flatMap_cons]
      exact congrArg _ ih
    · rw [List.filter_cons_of_neg (by simpa using hfits), Message.bytes_of_not_fits hfits,
        List.nil_append]
      exact ih

theorem Transcript.of_frames (codec : Codec) (responses : List (Nat × Response)) :
    Transcript codec responses (frames codec responses) := by
  rw [frames_filter]
  exact .whole List.filter_sublist fun a ha => of_decide_eq_true (List.mem_filter.mp ha).2

/-- What is written for all responses, and a part of the frame of one more, is a transcript. -/
theorem Transcript.of_torn {a : Nat × Response} {part : Bytes}
    (hfits : Message.Fits codec a.2.message) (hpart : part <+: Message.bytes codec a.2.message) :
    Transcript codec (responses ++ [a]) (frames codec responses ++ part) := by
  have hgiven : ((responses.filter fun b => Message.Fits codec b.2.message) ++ [a]).Sublist
      (responses ++ [a]) := List.filter_sublist.append (List.Sublist.refl _)
  refine .of_front hgiven ?_ ?_
  · intro b hb
    rcases List.mem_append.mp hb with hb | hb
    · exact of_decide_eq_true (List.mem_filter.mp hb).2
    · rwa [List.mem_singleton.mp hb]
  · rw [frames_filter, frames, frames, List.flatMap_append, List.flatMap_singleton]
    exact (List.prefix_append_right_inj _).mpr hpart

/-! ## Writers on a stream that may fail -/

/-- **What a writer has uttered** of the responses in the log since its stream was as `sink`. -/
inductive Utters (codec : Codec) (sink : Sink) (log : List Event) (w : Writer) :
    List IoError → Prop
  /-- no fault has happened, and everything has been written that goes into a frame -/
  | intact (hcodec : w.codec = codec) (hopen : w.closed = false)
      (htaken : w.sink.taken = sink.taken ++ written codec log)
      (hshutdowns : w.sink.shutdowns = sink.shutdowns) : Utters codec sink log w []
  /-- a fault has closed the writer -/
  | broken {past : List IoError} {seen : Bytes} (hpast : past ≠ [])
      (hcodec : w.codec = codec) (hclosed : w.closed = true)
      (htaken : w.sink.taken = sink.taken ++ seen)
      (hseen : Transcript codec (answers log) seen) : Utters codec sink log w past

theorem Utters.codec_eq (h : Utters codec sink log w past) : w.codec = codec := by
  cases h with
  | intact hcodec => exact hcodec
  | broken _ hcodec => exact hcodec

/-- What is no response leaves the writer alone. -/
theorem Utters.quiet (h : Utters codec sink log w past) (hev : answers ev = []) :
    Utters codec sink (log ++ ev) w past := by
  cases h with
  | intact hcodec hopen htaken hshutdowns =>
    refine .intact hcodec hopen ?_ hshutdowns
    rw [written_eq, answers_append, hev, List.append_nil]
    exact htaken
  | broken hpast hcodec hclosed htaken hseen =>
    refine .broken hpast hcodec hclosed htaken ?_
    rw [answers_append]
    exact hseen.append _

/-- **A response is handed to a writer.** -/
theorem Utters.answer (h : Utters codec sink log w past) (t : Nat) (r : Response) :
    Utters codec sink (log ++ [.answered t r]) (w.writeEncoded r.header r.body).2
      (past ++ w.faults r.message) := by
  obtain rfl := h.codec_eq
  have hanswers : answers (log ++ [.answered t r]) = answers log ++ [(t, r)] := answers_append _ _
  have hfate : w.Fate r.message (w.faults r.message) (w.writeEncoded r.header r.body).2 :=
    w.fate_writeEncoded r.message
  generalize (w.writeEncoded r.header r.body).2 = w' at hfate ⊢
  generalize w.faults r.message = fault at hfate ⊢
  cases h with
  | intact _ hopen htaken hshutdowns =>
    have hwritten : w.sink.taken ++ Message.bytes w.codec r.message =
        sink.taken ++ written w.codec (log ++ [.answered t r]) := by
      rw [htaken, written_append, List.append_assoc]
      simp [written, answers]
    cases hfate with
    | misfit hmisfit =>
      rw [Message.bytes_of_not_fits hmisfit, List.append_nil] at hwritten
      exact .intact rfl hopen hwritten hshutdowns
    | refused _ hclosed => cases hopen.symm.trans hclosed
    | written _ _ hopen' hcodec htaken' hshutdowns' =>
      exact .intact hcodec hopen' (htaken'.trans hwritten) (hshutdowns'.trans hshutdowns)
    | @broken e w' part hfits _ hclosed hcodec hpart htaken' =>
      have hseen : w'.sink.taken = sink.taken ++ (frames w.codec (answers log) ++ part) := by
        rw [htaken', htaken, List.append_assoc]
        rfl
      refine .broken (List.cons_ne_nil _ _) hcodec hclosed hseen ?_
      rw [hanswers]
      exact .of_torn hfits hpart
  | broken hpast _ hclosed htaken hseen =>
    -- a closed writer writes nothing, whatever the response is
    replace hseen := hseen.append [(t, r)]
    rw [← hanswers] at hseen
    cases hfate with
    | misfit =>
      rw [List.append_nil]
      exact .broken hpast rfl hclosed htaken hseen
    | refused =>
      rw [List.append_nil]
      exact .broken hpast rfl hclosed htaken hseen
    | written _ hopen => cases hopen.symm.trans hclosed
    | broken _ hopen => cases hopen.symm.trans hclosed

/-- The faults of the stream when the responses among the events are written. -/
def faults (c : Serving) (ev : List Event) : List IoError :=
  (answers ev).flatMap fun a => c.writer.faults a.2.message

theorem append_faults (c : Serving) (past : List IoError) (hev : answers ev = []) :
    past ++ c.faults ev = past := by
  rw [faults, hev, List.flatMap_nil, List.append_nil]

theorem faults_answered (c : Serving) (t : Nat) (r : Response) :
    c.faults [.answered t r] = c.writer.faults r.message :=
  List.append_nil _

/-- **Every move** utters the responses among its events. -/
theorem Utters.move (h : Utters codec sink log c.writer past) (hmove : Move registry c ev c') :
    Utters codec sink (log ++ ev) c'.writer (past ++ c.faults ev) := by
  have answered : ∀ {t : Nat} {r : Response} {result : Except WireError Unit × Writer},
      c.writer.writeEncoded r.header r.body = result →
      Utters codec sink (log ++ [.answered t r]) result.2 (past ++ c.faults [.answered t r]) := by
    rintro t r result rfl
    rw [faults_answered]
    exact h.answer t r
  cases hmove with
  | responds _ hwrite => exact answered hwrite
  | breaks _ hwrite => exact answered hwrite
  | _ =>
    rw [append_faults c past rfl]
    exact h.quiet rfl

/-- A writer that is closed stays as it is. -/
theorem Move.writer_of_closed (hmove : Move registry c ev c') (hclosed : c.writer.closed = true) :
    c'.writer = c.writer := by
  have answered : ∀ {r : Response} {result : Except WireError Unit × Writer},
      c.writer.writeEncoded r.header r.body = result → result.2 = c.writer := by
    rintro r result rfl
    exact Writer.writeEncoded_of_closed hclosed r.message
  cases hmove with
  | responds _ hwrite => exact answered hwrite
  | breaks _ hwrite => exact answered hwrite
  | _ => rfl

/-! ## What a response says -/

/-- **A response responds to its request**: it has the header of the request and the reply to its
call, or that header with the text of the failure and the unit value. -/
inductive Responds (codec : Codec) (log : List Event) : Nat × Response → Prop
  | reply {t : Nat} {q : Request × Bytes} {body : Bytes} (hq : (requests log)[t]? = some q)
      (hresult : Concludes codec (invocations log t) q.1 (.ok body)) :
      Responds codec log (t, ⟨q.1.header, body⟩)
  | failure {t : Nat} {q : Request × Bytes} {why : String} {body : Bytes}
      (hq : (requests log)[t]? = some q)
      (hresult : Concludes codec (invocations log t) q.1 (.error why))
      (hbody : codec.encode .unit () = .ok body) :
      Responds codec log (t, ⟨q.1.header.withError why, body⟩)

theorem Works.responds {tasks : List Task} (h : Works codec log tasks) {a : Nat × Response}
    (ha : a ∈ answers log) : Responds codec log a := by
  obtain ⟨t, r⟩ := a
  obtain ⟨q, result, hq, hresult, rfl⟩ := h.answered ha
  cases result with
  | ok body => exact .reply hq hresult
  | error why => exact .failure hq hresult (Response.encode_unit codec)

end Serving

namespace Server

open Serving

variable {s s₀ s₁ s' : Server} {i : Nat} {codec : Codec} {sink : Sink} {log : List Event}
  {past : List IoError}

/-! ## Runs -/

/-- The faults of the stream of a connection in one step. -/
def faultsIn (i : Nat) (s : Server) (a : Action) : List IoError :=
  match s.serving? i with
  | some c => c.faults (s.events i a)
  | none => []

/-- **The faults of the stream of a connection** in a run: the writes and flushes that failed. -/
def faults (i : Nat) (s : Server) (actions : List Action) : List IoError :=
  Run.log step (faultsIn i) s actions

/-- **What a connection has delivered** that has been under service. -/
def Delivers (codec : Codec) (sink : Sink) (log : List Event) (past : List IoError) :
    Server → Nat → Prop :=
  Lasts (fun c => Utters codec sink log c.writer past ∧ Works codec log c.tasks)
    (fun c' => ∃ c : Serving, c' = { c with writer := c.writer.close.2 } ∧
      c.tasks.all Task.isFinished ∧ Utters codec sink log c.writer past ∧
      Works codec log c.tasks)

theorem Delivers.step (h : Delivers codec sink log past s i) {a : Action}
    (hstep : s.step a = some s') :
    Delivers codec sink (log ++ s.events i a) (past ++ s.faultsIn i a) s' i := by
  refine Lasts.step h hstep ?_ ?_ ?_
  · rintro c c' hc ⟨hutters, hworks⟩ hmove
    simp only [faultsIn, hc]
    exact ⟨hutters.move hmove, hworks.move hutters.codec_eq hmove⟩
  · rintro c hc ⟨hutters, hworks⟩ - hfinished hevents
    simp only [faultsIn, hc]
    rw [hevents, append_faults c past rfl, List.append_nil]
    exact ⟨c, rfl, hfinished, hutters, hworks⟩
  · rintro c' hnone hserved
    simp only [events, faultsIn, hnone, List.append_nil]
    exact hserved

/-- **A connection delivers what its history says**, whatever its stream does. -/
theorem delivers_of_run {rest : Bytes} {source : Source} {actions : List Action}
    (hc : s₀.serving? i = some { reader := .make codec rest source, writer := { codec, sink } })
    (hrun : s₀.run actions = some s) :
    Delivers codec sink (s₀.history i actions) (s₀.faults i actions) s i := by
  refine Run.induct
    (P := fun as s => Delivers codec sink (s₀.history i as) (s₀.faults i as) s i)
    (.serving hc ⟨.intact rfl rfl (List.append_nil _).symm rfl,
      ⟨rfl, by simp, fun _ _ => ⟨rfl, rfl⟩⟩⟩) ?_ actions s hrun
  intro as m a s' hm hdelivers hstep
  rw [history, faults, Run.log_concat hm hstep, Run.log_concat hm hstep]
  exact hdelivers.step hstep

/-- What has been written is a transcript, and without a fault it is all there is to write. -/
theorem Delivers.output (h : Delivers codec sink log past s i) :
    ∃ out, s.output i = sink.taken ++ out ∧ Transcript codec (answers log) out ∧
      (past = [] → out = frames codec (answers log)) := by
  have utters : ∀ {w : Writer}, Utters codec sink log w past →
      ∃ out, w.sink.taken = sink.taken ++ out ∧ Transcript codec (answers log) out ∧
        (past = [] → out = frames codec (answers log)) := by
    rintro w hutters
    cases hutters with
    | intact _ _ htaken => exact ⟨_, htaken, .of_frames _ _, fun _ => rfl⟩
    | broken hpast _ _ htaken hseen => exact ⟨_, htaken, hseen, fun h => absurd h hpast⟩
  cases h with
  | serving hc h =>
    rw [Server.output, serving?_eq_some.mp hc]
    exact utters h.1
  | served hc h =>
    obtain ⟨c, rfl, -, hutters, -⟩ := h
    obtain ⟨out, htaken, hout⟩ := utters hutters
    rw [Server.output, hc]
    exact ⟨out, (taken_close _).trans htaken, hout⟩

theorem Delivers.works (h : Delivers codec sink log past s i) :
    ∃ tasks, Works codec log tasks := by
  cases h with
  | serving _ h => exact ⟨_, h.2⟩
  | served _ h =>
    obtain ⟨c, -, -, -, hworks⟩ := h
    exact ⟨_, hworks⟩

/-- **A connection is silent** if its writer is closed, or if it has been served. What it has
written is there then. -/
def Silent (out : Bytes) : Server → Nat → Prop :=
  Lasts (fun c => c.writer.closed = true ∧ c.writer.sink.taken = out)
    (fun c => c.writer.sink.taken = out)

theorem Silent.output {out : Bytes} (h : Silent out s i) : s.output i = out := by
  cases h with
  | serving hc h =>
    rw [Server.output, serving?_eq_some.mp hc]
    exact h.2
  | served hc h =>
    rw [Server.output, hc]
    exact h

/-- A silent connection stays silent, and writes nothing. -/
theorem Silent.run {out : Bytes} (h : Silent out s i) {actions : List Action}
    (hrun : s.run actions = some s') : Silent out s' i := by
  refine Run.keeps (P := fun s => Silent out s i) ?_ h hrun
  intro s a s' hsilent hstep
  refine Lasts.step hsilent hstep ?_ ?_ (fun _ _ hout => hout)
  · rintro c c' - ⟨hclosed, hout⟩ hmove
    rw [hmove.writer_of_closed hclosed]
    exact ⟨hclosed, hout⟩
  · rintro c - ⟨-, hout⟩ - - -
    exact (taken_close _).trans hout

/-- A fault silences a connection. -/
theorem Delivers.silent (h : Delivers codec sink log past s i) (hpast : past ≠ []) :
    Silent (s.output i) s i := by
  cases h with
  | serving hc h =>
    rw [Server.output, serving?_eq_some.mp hc]
    cases h.1 with
    | intact => exact absurd rfl hpast
    | broken _ _ hclosed => exact .serving hc ⟨hclosed, rfl⟩
  | served hc =>
    rw [Server.output, hc]
    exact .served hc rfl

/-! ## The main statement -/

/-- **The responses that a connection writes.** On a connection that has just been negotiated,
whatever its stream does and whatever else happens: what it has written is a transcript of the
responses, at each moment, also inside a write; without a fault of the stream it is the frames of
all of them, and after a fault nothing is written any more. No two responses are those of one
request, and each responds to its request. -/
theorem responses_written {rest : Bytes} {source : Source} {actions : List Action}
    (hc : s₀.serving? i = some { reader := .make codec rest source, writer := { codec, sink } })
    (hrun : s₀.run actions = some s) :
    (∃ out, s.output i = sink.taken ++ out ∧
      (∀ seen, seen <+: out → Transcript codec (answers (s₀.history i actions)) seen) ∧
      (s₀.faults i actions = [] → out = frames codec (answers (s₀.history i actions)))) ∧
    (∀ before after s₁, actions = before ++ after → s₀.run before = some s₁ →
      s₀.faults i before ≠ [] → s.output i = s₁.output i) ∧
    ((answers (s₀.history i actions)).map Prod.fst).Nodup ∧
    ∀ a ∈ answers (s₀.history i actions), Responds codec (s₀.history i actions) a := by
  have hdelivers := delivers_of_run hc hrun
  obtain ⟨out, hout, htranscript, hall⟩ := hdelivers.output
  obtain ⟨tasks, hworks⟩ := hdelivers.works
  refine ⟨⟨out, hout, fun seen => htranscript.front, hall⟩, ?_, hworks.once, ?_⟩
  · rintro before after s₁ rfl hbefore hfaults
    obtain ⟨m, hm, hafter⟩ := Run.append_eq_some.mp hrun
    obtain rfl := Option.some.inj (hbefore.symm.trans hm)
    exact (((delivers_of_run hc hbefore).silent hfaults).run hafter).output
  · intro a ha
    exact hworks.responds ha

/-- A stream that takes five bytes in its first write, and then fails in everything. -/
def cutOff : SinkBehaviour where
  write calls _ _ := if calls = 0 then .takes 5 else .fails .broken
  flush _ := some .broken
  shutdown _ := some .broken

/-- A server of the demo service with two requests on a stream that is cut off. -/
def servingCutOff : Server where
  registry := offering Demo.service
  connections :=
    [.serving
      { reader := .make .compact (sumRequest ++ sumRequest) {}
        writer := { codec := .compact, sink := { behaviour := cutOff } } }]

/-- Both requests are read and called, and the second response is written first. -/
def overtaking : List Action :=
  [.read 0, .read 0, .call 0 0, .call 0 1, .respond 0 1, .respond 0 0]

theorem responses_written_cut_off :
    ∃ s s₁ out, servingCutOff.run overtaking = some s ∧ s.output 0 = out ∧ out.length = 5 ∧
      Transcript .compact (answers (servingCutOff.history 0 overtaking)) out ∧
      servingCutOff.run (overtaking.take 5) = some s₁ ∧ s.output 0 = s₁.output 0 ∧
      (answers (servingCutOff.history 0 overtaking)).map Prod.fst = [1, 0] ∧
      ∀ a ∈ answers (servingCutOff.history 0 overtaking),
        Responds .compact (servingCutOff.history 0 overtaking) a := by
  have hlength : (servingCutOff.run overtaking).any (fun s => (s.output 0).length = 5) = true := by
    decide +kernel
  have hbefore : (servingCutOff.run (overtaking.take 5)).isSome = true := by decide +kernel
  have hfaults : servingCutOff.faults 0 (overtaking.take 5) = [.broken] := by decide +kernel
  have hanswers : (answers (servingCutOff.history 0 overtaking)).map Prod.fst = [1, 0] := by
    decide +kernel
  obtain ⟨s, hrun, hs⟩ := (Option.any_eq_true _ _).mp hlength
  obtain ⟨s₁, hrun₁⟩ := Option.isSome_iff_exists.mp hbefore
  obtain ⟨⟨out, hout, hfronts, -⟩, hsilent, -, hresponds⟩ := responses_written (i := 0) rfl hrun
  replace hout : s.output 0 = out := hout
  have hsame := hsilent _ (overtaking.drop 5) s₁ rfl hrun₁ (by simp [hfaults])
  exact ⟨s, s₁, out, hrun, hout, hout ▸ of_decide_eq_true hs, hfronts out List.prefix_rfl, hrun₁,
    hsame, hanswers, hresponds⟩

/-- A request for the sum of one and two whose header bears an error text. -/
def sumRequestWithError : Bytes := Message.bytes .compact (⟨"Foo.Sum", 7, "no"⟩, [2, 4])

/-- The error text of a request stands in its response too, also where the call has not failed: the
sum is the body, and no error is counted. -/
theorem error_of_request_repeated :
    ∃ s, (having (offering Demo.service) sumRequestWithError).run answeringOne = some s ∧
      s.stats.errorsTotal = 0 ∧
      (Codec.encode .compact (.integer .w64) (3 : BitVec 64)).toOption = some [6] ∧
      s.output 0 = Message.bytes .compact (⟨"Foo.Sum", 7, "no"⟩, [6]) := by
  have hchecks : ((having (offering Demo.service) sumRequestWithError).run answeringOne).any
      (fun s => s.stats.errorsTotal = 0 ∧
        s.output 0 = Message.bytes .compact (⟨"Foo.Sum", 7, "no"⟩, [6])) = true := by
    decide +kernel
  obtain ⟨s, hrun, hs⟩ := (Option.any_eq_true _ _).mp hchecks
  obtain ⟨herrors, houtput⟩ := of_decide_eq_true hs
  exact ⟨s, hrun, herrors, by decide +kernel, houtput⟩

end Server

end WireCall
