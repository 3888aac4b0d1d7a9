import Mathlib.Data.List.Nodup
import Mathlib.Data.List.Perm.Basic
import WireCall.Demo
import WireCall.Network
import WireCall.Proofs.Server.History

/-!
# Every request is answered once

A connection *rests* (`Server.Rests`) when all of its tasks are finished and nothing more can be
read from it. It always can come to rest, by steps of the server alone (`Server.exists_rests`), and
then each request has been answered by one response (`Serving.Traced.perm_answers`).

That response may be too long for a frame. Then nothing at all is written for it, and the requests
behind it are not read any more. `Server.answered_iff_fit` says that this is the only way for a
request to go without its response.
-/

namespace WireCall

/-- What of a message tells which call it belongs to. -/
def Message.key (m : Header × Bytes) : String × UInt64 := (m.1.method, m.1.seq)

/-- How many steps a task has before it at most. -/
def Task.work : Task → Nat
  | .waiting _ => 3
  | .sleeping _ _ _ => 2
  | .responding _ => 1
  | .finished => 0

/-- How many steps some tasks have before them at most. -/
def Task.totalWork : List Task → Nat
  | [] => 0
  | task :: tasks => task.work + totalWork tasks

theorem Task.totalWork_concat (tasks : List Task) (task : Task) :
    totalWork (tasks ++ [task]) = totalWork tasks + task.work := by
  induction tasks with
  | nil => exact (Nat.zero_add _).symm
  | cons head tasks ih => rw [List.cons_append, totalWork, ih, totalWork, Nat.add_assoc]

/-- A step of one task leaves less to do. -/
theorem Task.totalWork_set_lt {tasks : List Task} {t : Nat} {old new : Task}
    (htask : tasks[t]? = some old) (hless : new.work < old.work) :
    totalWork (tasks.set t new) < totalWork tasks := by
  induction tasks generalizing t with
  | nil => cases htask
  | cons head tasks ih =>
    cases t with
    | zero =>
      obtain rfl := Option.some.inj htask
      exact Nat.add_lt_add_right hless _
    | succ t => exact Nat.add_lt_add_left (ih (by simpa using htask)) _

namespace Serving

variable {codec : Codec} {start before : Bytes} {log : List Event} {c : Serving}

/-! ## Responses and requests -/

/-- A response bears the method and the number of its request. -/
theorem key_make (c : Codec) (h : Header) (result : Except String Bytes) (body : Bytes) :
    Message.key (Response.make c h result).message = Message.key (h, body) := by
  cases result <;> rfl

/-- Where all tasks are finished, each of them has answered once. -/
theorem Works.perm_range {tasks : List Task} (h : Works codec log tasks)
    (hfinished : tasks.all Task.isFinished) :
    ((answers log).map Prod.fst).Perm (List.range tasks.length) := by
  rw [List.perm_iff_count]
  intro t
  rw [count_answers]
  rcases Nat.lt_or_ge t tasks.length with hlt | hge
  · have hq := List.getElem?_eq_getElem (h.length ▸ hlt : t < (requests log).length)
    obtain ⟨result, -, hone⟩ := h.finished hfinished hq
    rw [hone, List.count_eq_one_of_mem List.nodup_range (List.mem_range.mpr hlt)]
    rfl
  · rw [(h.later t hge).2, List.count_eq_zero_of_not_mem]
    · rfl
    · rw [List.mem_range]
      omega

/-- **Where all tasks are finished**, the responses are those to the requests, one to each. -/
theorem Traced.perm_answers (h : Traced codec start before log c)
    (hfinished : c.tasks.all Task.isFinished) :
    ((answers log).map fun a => Message.key a.2.message).Perm
      ((questions log).map Message.key) := by
  -- each response has the key of the request at the place of its task
  have hkey : ∀ a ∈ answers log,
      some (Message.key a.2.message) = ((questions log).map Message.key)[a.1]? := by
    rintro ⟨t, r⟩ ha
    have hmem : r ∈ answersOf log t := mem_answersOf.mpr ha
    rcases Nat.lt_or_ge t (requests log).length with hlt | hge
    · have hq : (requests log)[t]? = some (requests log)[t] := List.getElem?_eq_getElem hlt
      obtain ⟨result, -, hone⟩ := h.works.finished hfinished hq
      rw [hone] at hmem
      obtain rfl := List.mem_singleton.mp hmem
      simp only [questions, List.map_map, List.getElem?_map, hq, Option.map_some,
        Function.comp_apply]
      rw [key_make _ _ _ (requests log)[t].2]
    · rw [(h.works.later t (h.works.length ▸ hge)).2] at hmem
      cases hmem
  have hlength : c.tasks.length = ((questions log).map Message.key).length := by
    rw [List.length_map, questions, List.length_map, h.works.length]
  have hsome : ((answers log).map fun a => Message.key a.2.message).map some =
      ((answers log).map Prod.fst).map fun t => ((questions log).map Message.key)[t]? := by
    rw [List.map_map, List.map_map]
    exact List.map_congr_left hkey
  have hrange : (List.range c.tasks.length).map (fun t => ((questions log).map Message.key)[t]?) =
      ((questions log).map Message.key).map some := by
    rw [hlength]
    apply List.ext_getElem (by simp)
    intro t h₁ h₂
    simp at h₁
    simp [h₁]
  refine (List.map_perm_map_iff fun _ _ => Option.some.inj).mp ?_
  rw [hsome, ← hrange]
  exact (h.works.perm_range hfinished).map _

end Serving

namespace Server

open Serving

variable {s s' : Server} {i : Nat} {c : Serving}

/-! ## Coming to rest -/

/-- Whether nothing is left to do for a connection until more of the client arrives. -/
structure AtRest (c : Serving) : Prop where
  finished : c.tasks.all Task.isFinished
  waits : c.reading = true → c.reader.Waits

/-- **A connection rests** if it is served, or has been, and nothing is left to do for it. -/
def Rests (s : Server) (i : Nat) : Prop :=
  ∃ c, (s.connections[i]? = some (.serving c) ∨ s.connections[i]? = some (.served c)) ∧ AtRest c

/-- How many steps a connection has before it at most. -/
def work (c : Serving) : Nat :=
  Task.totalWork c.tasks + if c.reading then 4 * c.reader.bytes.length + 1 else 0

/-- Some task is not finished. -/
theorem exists_unfinished {tasks : List Task} (h : ¬ tasks.all Task.isFinished) :
    ∃ (t : Nat) (task : Task), tasks[t]? = some task ∧ task.isFinished = false := by
  obtain ⟨task, hmem, hunfinished⟩ : ∃ task ∈ tasks, task.isFinished = false := by
    simpa using h
  obtain ⟨t, ht⟩ := List.getElem?_of_mem hmem
  exact ⟨t, task, ht, hunfinished⟩

/-- Steps that the server takes by itself and that are no shutdown. -/
def Proceeds (actions : List Action) : Prop := ∀ a ∈ actions, a.isOwn ∧ a ≠ .shutdown

/-- Whether the server can by itself bring a connection nearer to its rest. -/
def Advances (s : Server) (i : Nat) (c : Serving) : Prop :=
  ∃ more s' c', s.run more = some s' ∧ Proceeds more ∧ s'.serving? i = some c' ∧ work c' < work c

theorem Advances.of_step {a : Action} {c' : Serving} (hown : a.isOwn) (hshutdown : a ≠ .shutdown)
    (hstep : s.step a = some s') (hc' : s'.serving? i = some c') (hwork : work c' < work c) :
    s.Advances i c := by
  refine ⟨[a], s', c', ?_, by simpa [Proceeds] using ⟨hown, hshutdown⟩, hc', hwork⟩
  simp only [run, List.foldlM_cons, List.foldlM_nil, hstep]
  rfl

theorem work_setTask_lt {t : Nat} {old new : Task} {writer : Writer} {failed : Bool}
    (htask : c.tasks[t]? = some old) (hless : new.work < old.work) :
    work { c with writer, writeFailed := failed, tasks := c.tasks.set t new } < work c := by
  have := Task.totalWork_set_lt htask hless
  simp only [work]
  omega

/-- A task that is not finished gets further. -/
theorem advances_task (hc : s.serving? i = some c) {t : Nat} {task : Task}
    (htask : c.tasks[t]? = some task) (hunfinished : task.isFinished = false) :
    s.Advances i c := by
  cases task with
  | waiting r =>
    obtain ⟨h, call⟩ := r
    cases call with
    | error e =>
      refine .of_step (a := .call i t) rfl (by simp) ?_
        (serves_conclude hc t h (.error e.message) s.registry) ?_
      · simp only [step, Server.call, hc, htask]
      · exact work_setTask_lt htask (Nat.lt_succ_of_lt (Nat.lt_succ_self 1))
    | ok p =>
      by_cases hdelay : (s.registry.invoke p).2.delay = 0
      · refine .of_step (a := .call i t) rfl (by simp) ?_
          (serves_conclude hc t h
            (p.method.answer c.writer.codec h.method (s.registry.invoke p).2.outcome)
            (s.registry.invoke p).1) ?_
        · simp only [step, Server.call, hc, htask, if_pos hdelay]
        · exact work_setTask_lt htask (Nat.lt_succ_of_lt (Nat.lt_succ_self 1))
      · refine .of_step (a := .call i t) rfl (by simp) ?_
          (serving?_setServing (s := { s with registry := (s.registry.invoke p).1 }) hc
            { c with tasks := c.tasks.set t (.sleeping h (s.now + (s.registry.invoke p).2.delay)
              (p.method.answer c.writer.codec h.method (s.registry.invoke p).2.outcome)) }) ?_
        · simp only [step, Server.call, hc, htask, if_neg hdelay, setTask]
        · exact work_setTask_lt htask (Nat.lt_succ_self 2)
  | sleeping h due result =>
    -- time passes until the handler is due
    have hc' : Server.serving? { s with now := s.now + due } i = some c := hc
    refine ⟨[.pass due, .wake i t], _, _, ?_, by simp [Proceeds, Action.isOwn],
      serves_conclude hc' t h result s.registry, ?_⟩
    · have hpass : s.step (.pass due) = some { s with now := s.now + due } := rfl
      simp only [run, List.foldlM_cons, List.foldlM_nil, hpass, Option.bind_eq_bind,
        Option.bind_some]
      simp only [step, wake, hc', htask, if_pos (Nat.le_add_left due s.now), Option.bind_some]
      rfl
    · exact work_setTask_lt htask (Nat.lt_succ_self 1)
  | responding r =>
    cases hwrite : c.writer.writeEncoded r.header r.body with
    | mk result writer =>
    cases result with
    | ok _ =>
      refine .of_step (a := .respond i t) rfl (by simp) ?_ (serving?_setServing hc
        { c with writer, tasks := c.tasks.set t .finished }) ?_
      · simp only [step, respond, hc, htask, hwrite, setTask]
      · exact work_setTask_lt htask Nat.one_pos
    | error e =>
      refine .of_step (a := .respond i t) rfl (by simp) ?_ (serving?_setServing hc
        { c with writer, writeFailed := true, tasks := c.tasks.set t .finished }) ?_
      · simp only [step, respond, hc, htask, hwrite, setTask]
      · exact work_setTask_lt htask Nat.one_pos
  | finished => cases hunfinished

/-- A request that has arrived is read, and waits for its call. -/
theorem step_read_of_next? (hc : s.serving? i = some c) (hreading : c.reading = true) {h : Header}
    {body rest : Bytes}
    (hnext : Message.next? c.reader.codec c.reader.bytes = some ((h, body), rest)) :
    ∃ reader s', s.step (.read i) = some s' ∧ reader.bytes = rest ∧ s'.registry = s.registry ∧
      s'.serving? i = some
        { c with
          reader
          tasks := c.tasks ++
            [.waiting ⟨h, s.registry.prepare c.reader.codec h.method body⟩] } := by
  obtain ⟨reader, hread, rfl, hbody, hcodec⟩ := Reader.readHeader_of_next? hnext
  have hrequest := Request.read_eq s.registry h hbody
  refine ⟨{ reader with pending := none }, (s.setServing i _).countRequest, ?_, rfl, rfl,
    serving?_setServing hc _⟩
  simp only [step, Server.read, hc, hreading, hread, if_true, hrequest, hcodec]

/-- A connection that does not wait for more bytes reads on. -/
theorem advances_read (hc : s.serving? i = some c) (hreading : c.reading = true)
    (hwaits : ¬ c.reader.Waits) : s.Advances i c := by
  cases hread : c.reader.readHeader with
  | mk outcome reader =>
  cases outcome with
  | waits => exact absurd ⟨reader, hread⟩ hwaits
  | failed e =>
    refine .of_step (a := .read i) rfl (by simp) ?_ (serving?_setServing hc
      { c with reader, reading := false }) ?_
    · simp only [step, Server.read, hc, hreading, hread, if_true]
    · simp only [work, hreading, if_true, Bool.false_eq_true, if_false]
      omega
  | got h =>
    obtain ⟨body, hnext, -, -, -⟩ := Reader.readHeader_got hread
    have hless := Message.length_lt_of_next? hnext
    obtain ⟨reader', s', hstep, hbytes, -, hc'⟩ := step_read_of_next? hc hreading hnext
    refine .of_step (a := .read i) rfl (by simp) hstep hc' ?_
    simp only [work, hreading, if_true, hbytes, Task.totalWork_concat, Task.work]
    omega

/-- **A connection can always come to rest**, by steps of the server alone. -/
theorem exists_rests (hc : s.serving? i = some c) :
    ∃ more s', s.run more = some s' ∧ Proceeds more ∧ s'.Rests i := by
  induction hwork : work c using Nat.strongRecOn generalizing s c with
  | ind n ih =>
    subst hwork
    have onward : s.Advances i c →
        ∃ more s', s.run more = some s' ∧ Proceeds more ∧ s'.Rests i := by
      rintro ⟨more, s', c', hrun, hown, hc', hless⟩
      obtain ⟨more', s'', hrun', hown', hrests⟩ := ih _ hless hc' rfl
      refine ⟨more ++ more', s'', Run.append_eq_some.mpr ⟨s', hrun, hrun'⟩, ?_, hrests⟩
      intro a ha
      exact (List.mem_append.mp ha).elim (hown a) (hown' a)
    by_cases hfinished : c.tasks.all Task.isFinished
    · by_cases hreading : c.reading = true
      · by_cases hwaits : c.reader.Waits
        · exact ⟨[], s, rfl, nofun, c, .inl (serving?_eq_some.mp hc), hfinished, fun _ => hwaits⟩
        · exact onward (advances_read hc hreading hwaits)
      · exact ⟨[], s, rfl, nofun, c, .inl (serving?_eq_some.mp hc), hfinished,
          fun h => absurd h hreading⟩
    · obtain ⟨t, task, htask, hunfinished⟩ := exists_unfinished hfinished
      exact onward (advances_task hc htask hunfinished)

/-! ## What has been written -/

/-- What a connection has written. -/
def output (s : Server) (i : Nat) : Bytes :=
  match s.connections[i]?.bind Connection.sink? with
  | some sink => sink.taken
  | none => []

theorem taken_close (w : Writer) : w.close.2.sink.taken = w.sink.taken := w.close_snd.2.2

variable {codec : Codec} {start before : Bytes} {log : List Event}

theorem Stands.output_eq (h : Stands codec start before log s i) :
    s.output i = before ++ written codec log := by
  cases h with
  | serving hc htraced =>
    rw [output, serving?_eq_some.mp hc]
    exact htraced.speaks.taken
  | served hc _ _ htraced =>
    rw [output, hc]
    exact (taken_close _).trans htraced.speaks.taken

/-- The messages in what is written are the responses that went into a frame. -/
theorem parse_written (codec : Codec) (log : List Event) :
    Message.parse codec (written codec log) =
      ((answers log).map fun a => a.2.message).filter fun m => Message.Fits codec m := by
  rw [← Message.parse_flatMap, List.flatMap_map]
  rfl

/-- Where nothing is left to do, all messages that have arrived are requests that were read, unless
some response did not go into a frame. -/
theorem parse_input (h : Traced codec start before log c) (hrest : AtRest c)
    (hsignalled : .signalled ∉ log) (hfit : ∀ a ∈ answers log, Message.Fits codec a.2.message) :
    Message.parse codec (start ++ input log) = questions log := by
  by_cases hreading : c.reading = true
  · have hnone := (hrest.waits hreading).next?_eq_none
    rw [h.hears.codec_eq] at hnone
    rw [(h.hears.reading hreading).parse_eq, Message.parse_of_none hnone, List.append_nil]
  · rcases h.hears.stopped (by simpa using hreading) with hends | ⟨a, ha, hmisfit⟩ | hmem
    · exact hends.1
    · exact absurd (hfit a ha) hmisfit
    · exact absurd hmem hsignalled

/-- At rest, the responses written are those to all requests just if each went into a frame. -/
theorem perm_iff_fit (h : Traced codec start before log c) (hrest : AtRest c)
    (hsignalled : .signalled ∉ log) :
    ((Message.parse codec (written codec log)).map Message.key).Perm
        ((Message.parse codec (start ++ input log)).map Message.key) ↔
      ∀ a ∈ answers log, Message.Fits codec a.2.message := by
  have hperm := h.perm_answers hrest.finished
  constructor
  · intro hall a ha
    -- a response that was not written leaves too few of them
    apply Decidable.byContradiction
    intro hmisfit
    have hfewer : (Message.parse codec (written codec log)).length < (answers log).length := by
      rw [parse_written]
      refine Nat.lt_of_lt_of_eq (List.length_filter_lt_length_iff_exists.mpr ?_) (List.length_map _)
      exact ⟨_, List.mem_map_of_mem ha, by simpa using hmisfit⟩
    have hread : (questions log).length ≤ (Message.parse codec (start ++ input log)).length := by
      obtain ⟨last, hsplits⟩ := h.hears.splits
      rw [hsplits.parse_eq, List.length_append]
      exact Nat.le_add_right _ _
    have h₁ := hall.length_eq
    have h₂ := hperm.length_eq
    rw [List.length_map, List.length_map] at h₁ h₂
    omega
  · intro hfit
    have hwritten : Message.parse codec (written codec log) =
        (answers log).map fun a => a.2.message := by
      rw [parse_written, List.filter_eq_self]
      intro m hm
      obtain ⟨a, ha, rfl⟩ := List.mem_map.mp hm
      exact decide_eq_true (hfit a ha)
    rw [parse_input h hrest hsignalled hfit, hwritten, List.map_map]
    exact hperm

theorem exists_rests_of_stands (h : Stands codec start before log s i) :
    ∃ more s', s.run more = some s' ∧ Proceeds more ∧ s'.Rests i := by
  cases h with
  | serving hc => exact exists_rests hc
  | served hc hstopped hfinished =>
    exact ⟨[], s, rfl, nofun, _, .inr hc, hfinished, fun h => absurd (hstopped.symm.trans h) nofun⟩

theorem Stands.perm_iff_fit (h : Stands codec start before log s i) (hrests : s.Rests i)
    (hsignalled : .signalled ∉ log) :
    ((Message.parse codec (written codec log)).map Message.key).Perm
        ((Message.parse codec (start ++ input log)).map Message.key) ↔
      ∀ a ∈ answers log, Message.Fits codec a.2.message := by
  obtain ⟨c', hconn, hrest⟩ := hrests
  cases h with
  | serving hc htraced =>
    rw [serving?_eq_some.mp hc] at hconn
    rcases hconn with hconn | hconn
    · obtain rfl := Connection.serving.inj (Option.some.inj hconn)
      exact Server.perm_iff_fit htraced hrest hsignalled
    · cases Option.some.inj hconn
  | served hc hstopped hfinished htraced =>
    refine Server.perm_iff_fit htraced ⟨hfinished, ?_⟩ hsignalled
    intro h
    rw [hstopped] at h
    cases h

/-! ## The main statement -/

/-- **Every request is answered by one response, as long as the responses go into frames.** On a
connection that has just been negotiated, whose stream accepts everything, and on a server that is
not shut down, whatever else happens: the connection can come to rest; and when it rests, the
messages written are one for each message of the whole input, with its method and its number, just
if each response that was handed to the writer goes into a frame. -/
theorem answered_iff_fit {s₀ s : Server} {i : Nat} {codec : Codec} {rest : Bytes} {source : Source}
    {sink : Sink} {actions : List Action}
    (hc : s₀.serving? i = some { reader := .make codec rest source, writer := { codec, sink } })
    (haccepts : sink.behaviour.Accepts) (hrun : s₀.run actions = some s)
    (hshutdown : ∀ a ∈ actions, a ≠ .shutdown) :
    (∃ more s', s.run more = some s' ∧ Proceeds more ∧ s'.Rests i) ∧
    ∃ output, s.output i = sink.taken ++ output ∧
      (s.Rests i →
        (((Message.parse codec output).map Message.key).Perm
            ((Message.parse codec
              (rest ++ source.unread ++ input (s₀.history i actions))).map Message.key) ↔
          ∀ a ∈ answers (s₀.history i actions), Message.Fits codec a.2.message)) := by
  have hstands := traced_of_run hc (.init sink haccepts) hrun
  refine ⟨exists_rests_of_stands hstands, _, hstands.output_eq, fun hrests => ?_⟩
  exact hstands.perm_iff_fit hrests (not_signalled hshutdown)

/-! ## A response that goes into no frame -/

/-- The registry of one service. -/
def offering (service : Service) : Registry := (Registry.register {} service).toOption.getD {}

/-- A server with one connection on which the given bytes have arrived. -/
def having (registry : Registry) (bytes : Bytes) : Server where
  registry
  connections :=
    [.serving
      { reader := .make .compact bytes {}
        writer := { codec := .compact, sink := { behaviour := .faithful } } }]

/-- A request for the sum of one and two. -/
def sumRequest : Bytes := Message.bytes .compact (⟨"Foo.Sum", 7, ""⟩, [2, 4])

/-- A server of the demo service on which that request has arrived. -/
def summing : Server := having (offering Demo.service) sumRequest

/-- The only request of the first connection is read, called and answered. -/
def answeringOne : List Action := [.read 0, .call 0 0, .respond 0 0]

theorem answered_iff_fit_sum :
    ∃ s output, summing.run answeringOne = some s ∧ s.output 0 = output ∧
      ((Message.parse .compact output).map Message.key).Perm
        ((Message.parse .compact sumRequest).map Message.key) := by
  have hrests : (summing.run answeringOne).any (fun s =>
      (s.serving? 0).any fun c => c.tasks.all Task.isFinished && c.reader.Waits) = true := by
    decide +kernel
  have hfit : ∀ a ∈ answers (summing.history 0 answeringOne),
      Message.Fits .compact a.2.message := by decide +kernel
  have hinput : sumRequest ++ Source.unread {} ++ input (summing.history 0 answeringOne) =
      sumRequest := by decide +kernel
  obtain ⟨s, hrun, hs⟩ := (Option.any_eq_true _ _).mp hrests
  obtain ⟨c, hc, hc'⟩ := (Option.any_eq_true _ _).mp hs
  rw [Bool.and_eq_true, decide_eq_true_eq] at hc'
  obtain ⟨-, output, houtput, hiff⟩ := answered_iff_fit (i := 0) rfl SinkBehaviour.accepts_faithful
    hrun (by simp [answeringOne])
  have hperm := (hiff ⟨c, .inl (serving?_eq_some.mp hc), hc'.1, fun _ => hc'.2⟩).mpr hfit
  rw [hinput] at hperm
  exact ⟨s, output, hrun, houtput, hperm⟩

/-- Two requests, one behind the other. -/
def twoRequests : Bytes :=
  [(⟨"Calc.Fail", 1, ""⟩, []), (⟨"Calc.Fail", 2, ""⟩, [])].flatMap (Message.bytes .compact)

/-- A failure whose text goes into no frame leaves its request without a response, and the request
behind it too. -/
theorem unanswered_of_long {registry : Registry} {p : Prepared} {why : String}
    (hprepare : registry.prepare .compact "Calc.Fail" [] = .ok p)
    (hplan : (registry.invoke p).2 = { outcome := .fails why })
    (hlong : Frame.maxHeader < (Bytes.ofText why).length) :
    ∃ s, (having registry twoRequests).run
        [.read 0, .call 0 0, .respond 0 0, .noticeFailure 0] = some s ∧ s.Rests 0 ∧
      s.output 0 = [] := by
  have hfits : Message.Fits .compact (⟨"Calc.Fail", 1, ""⟩, []) := by decide +kernel
  have hnext : Message.next? .compact (Reader.make .compact twoRequests {}).bytes =
      some ((⟨"Calc.Fail", 1, ""⟩, []), Message.bytes .compact (⟨"Calc.Fail", 2, ""⟩, [])) := by
    simp only [Reader.bytes, Reader.make, Source.unread, List.flatten_nil, List.append_nil,
      twoRequests, List.flatMap_cons, List.flatMap_nil]
    exact Message.next?_bytes hfits _
  obtain ⟨e, hwrite⟩ := Writer.writeEncoded_of_not_fits
    (w := { codec := .compact, sink := { behaviour := .faithful } })
    (m := (Response.make .compact ⟨"Calc.Fail", 1, ""⟩ (.error why)).message)
    (Message.not_fits_of_long (.inr hlong))
  have hc : (having registry twoRequests).serving? 0 = some
      { reader := .make .compact twoRequests {}
        writer := { codec := .compact, sink := { behaviour := .faithful } } } := rfl
  -- the request is read
  obtain ⟨reader, s₁, hstep₁, -, hregistry, hc₁⟩ := step_read_of_next? hc rfl hnext
  replace hregistry : s₁.registry = registry := hregistry
  replace hc₁ : s₁.serving? 0 = some
      { reader
        writer := { codec := .compact, sink := { behaviour := .faithful } }
        tasks := [.waiting ⟨⟨"Calc.Fail", 1, ""⟩, .ok p⟩] } := by
    rw [hc₁, ← hprepare]
    rfl
  -- its handler fails at once
  obtain ⟨s₂, hstep₂, hc₂⟩ : ∃ s₂, s₁.step (.call 0 0) = some s₂ ∧
      s₂.serving? 0 = some
        { reader
          writer := { codec := .compact, sink := { behaviour := .faithful } }
          tasks := [.responding (.make .compact ⟨"Calc.Fail", 1, ""⟩ (.error why))] } := by
    refine ⟨_, ?_, serves_conclude hc₁ 0 ⟨"Calc.Fail", 1, ""⟩ (.error why)
      (registry.invoke p).1⟩
    simp only [step, Server.call, hc₁, List.getElem?_cons_zero, hregistry, hplan, if_true]
    rfl
  -- its response cannot be written
  obtain ⟨s₃, hstep₃, hc₃⟩ : ∃ s₃, s₂.step (.respond 0 0) = some s₃ ∧
      s₃.serving? 0 = some
        { reader
          writer := { codec := .compact, sink := { behaviour := .faithful } }
          tasks := [.finished]
          writeFailed := true } := by
    refine ⟨_, ?_, serving?_setServing hc₂ _⟩
    simp only [step, respond, hc₂, List.getElem?_cons_zero]
    simp only [Response.message] at hwrite
    rw [hwrite]
    rfl
  -- reading stops for it
  obtain ⟨s₄, hstep₄, hc₄⟩ : ∃ s₄, s₃.step (.noticeFailure 0) = some s₄ ∧
      s₄.serving? 0 = some
        { reader
          writer := { codec := .compact, sink := { behaviour := .faithful } }
          tasks := [.finished]
          reading := false } := by
    refine ⟨_, ?_, serving?_setServing hc₃ _⟩
    simp only [step, noticeFailure, hc₃, and_self, if_true]
  refine ⟨s₄, ?_, ⟨_, .inl (serving?_eq_some.mp hc₄), rfl, by simp⟩, ?_⟩
  · simp only [run, List.foldlM_cons, List.foldlM_nil, hstep₁, hstep₂, hstep₃, hstep₄,
      Option.bind_eq_bind, Option.bind_some]
    rfl
  · rw [output, serving?_eq_some.mp hc₄]
    rfl

/-- A text of 65536 letters, one more than go into a header. -/
def longText : String := String.ofList (List.replicate 65536 'x')

/-- A method that fails with a text that goes into no frame. -/
def wordyMethod : Method :=
  .make "Fail" ⟨"()", .unit⟩ ⟨"()", .unit⟩ fun _ => { outcome := .fails longText }

/-- A service with a method that fails with a text that goes into no frame. -/
def wordy : Registry := offering ((Service.named "Calc").method wordyMethod)

theorem length_longText : (Bytes.ofText longText).length = 65536 :=
  Bytes.length_ofText_replicate 65536

/-- Neither of two requests is answered when the handler of the first fails with a long text. -/
theorem long_failure_unanswered :
    ∃ s, (having wordy twoRequests).run
        [.read 0, .call 0 0, .respond 0 0, .noticeFailure 0] = some s ∧ s.Rests 0 ∧
      s.output 0 = [] ∧
      (Message.parse .compact twoRequests).map Message.key =
        [("Calc.Fail", 1), ("Calc.Fail", 2)] := by
  have hprepare : wordy.prepare .compact "Calc.Fail" [] = .ok ⟨"Calc", wordyMethod, ()⟩ := rfl
  have hplan : (wordy.invoke ⟨"Calc", wordyMethod, ()⟩).2 = { outcome := .fails longText } := rfl
  have hlong : Frame.maxHeader < (Bytes.ofText longText).length :=
    Nat.lt_of_lt_of_eq (Nat.lt_succ_self 65535) length_longText.symm
  obtain ⟨s, hrun, hrests, houtput⟩ := unanswered_of_long hprepare hplan hlong
  refine ⟨s, hrun, hrests, houtput, ?_⟩
  rw [twoRequests, Message.parse_flatMap]
  decide +kernel

end Server

end WireCall
