import WireCall.Proofs.Registry.Published
import WireCall.Proofs.Server.Records

/-!
# What a server counts of its requests

A counter of the server goes up by a fixed amount with every request, every error and every call
(`Server.Counter`). What has happened on a connection says how much of this is due to it
(`Server.Counter.due`): an error is due as soon as it is certain, which is when the request is read
that cannot be called, or when the call is made that is going to fail. It is counted later, when the
task of the request comes to it; until then it is outstanding (`Server.Counter.outstanding`).

Each step of the server keeps the balance: the counter goes up by as much as becomes due to the
connection that the step is about, or is not outstanding any more (`Server.Counter.keeps_own`), and
for the other connections nothing changes (`Server.Counter.keeps_other`).
-/

namespace WireCall

open Serving (Event)

/-- Whether a call comes to nothing: the handler fails or breaks off, or its reply cannot be
encoded. -/
def Prepared.isFailure (p : Prepared) (c : Codec) (memory : Nat) : Bool :=
  match (p.plan memory).outcome with
  | .replies a => !(c.encode p.method.reply.shape a).isOk
  | .fails _ | .panics => true

/-- A call comes to nothing just if there is a text instead of a reply. -/
theorem Prepared.isOk_result (p : Prepared) (c : Codec) (request : String) (memory : Nat) :
    (p.result c request memory).isOk = !p.isFailure c memory := by
  simp only [result, isFailure]
  cases (p.plan memory).outcome with
  | replies a =>
    simp only [Method.answer]
    cases c.encode p.method.reply.shape a <;> rfl
  | fails | panics => rfl

namespace Server

/-- **A counter of the server**: when it shows a number, and by how much it goes up. -/
structure Counter where
  Shows : Stats → Registry → Nat → Prop
  perRequest : Nat
  perError : Nat
  perCall : Prepared → Nat
  shows_request {stats : Stats} {r : Registry} {n : Nat} (h : Shows stats r n) :
    Shows { stats with requestsTotal := stats.requestsTotal + 1 } r (n + perRequest)
  shows_error {stats : Stats} {r : Registry} {n : Nat} (h : Shows stats r n) :
    Shows { stats with errorsTotal := stats.errorsTotal + 1 } r (n + perError)
  shows_call {stats : Stats} {r : Registry} {n : Nat} (h : Shows stats r n) (p : Prepared) :
    Shows stats (r.invoke p).1 (n + perCall p)
  /-- what is counted of the connections does not matter -/
  shows_connections {stats : Stats} {r : Registry} {n : Nat} (h : Shows stats r n)
    (total active : UInt64) :
    Shows { stats with connectionsTotal := total, connectionsActive := active } r n

namespace Counter

variable (k : Counter)

/-! ## What is due -/

/-- What is due to something that may have failed. -/
def perResult {ε α : Type} (result : Except ε α) : Nat := if result.isOk then 0 else k.perError

/-- What is due to a request. -/
def perAsked (r : Request) : Nat := k.perRequest + k.perResult r.call

/-- What is due to a call, whose handler finds the given memory. -/
def perInvoked (c : Codec) (call : Prepared × Nat) : Nat :=
  k.perCall call.1 + if call.1.isFailure c call.2 then k.perError else 0

/-- What is due to the events on a connection. -/
def perLog (c : Codec) (log : List Event) : Nat :=
  (log.map fun e => e.ofRequest k.perAsked + e.ofCall (k.perInvoked c)).sum

/-- **What is due to a connection.** -/
def due (log : List Event) : Connection → Nat
  | .serving c | .served c => k.perLog c.writer.codec log
  | .refused _ _ => k.perError
  | _ => 0

/-- What has not been counted for a task. -/
def perTask : Task → Nat
  | .waiting r => k.perResult r.call
  | .sleeping _ _ result => k.perResult result
  | _ => 0

/-- What has not been counted for some tasks. -/
def perTasks (tasks : List Task) : Nat := (tasks.map k.perTask).sum

/-- **What has not been counted for a connection.** -/
def outstanding : Connection → Nat
  | .serving c => k.perTasks c.tasks
  | _ => 0

@[simp]
theorem perResult_error {ε α : Type} (e : ε) :
    k.perResult (.error e : Except ε α) = k.perError := rfl

@[simp]
theorem perResult_ok {ε α : Type} (a : α) : k.perResult (.ok a : Except ε α) = 0 := rfl

theorem perInvoked_eq (c : Codec) (request : String) (p : Prepared) (memory : Nat) :
    k.perInvoked c (p, memory) = k.perCall p + k.perResult (p.result c request memory) := by
  rw [perInvoked, perResult, p.isOk_result]
  cases p.isFailure c memory <;> rfl

theorem perLog_append (c : Codec) (log ev : List Event) :
    k.perLog c (log ++ ev) = k.perLog c log + k.perLog c ev := by
  rw [perLog, List.map_append, List.sum_append]
  rfl

theorem perTasks_concat (tasks : List Task) (task : Task) :
    k.perTasks (tasks ++ [task]) = k.perTasks tasks + k.perTask task := by
  rw [perTasks, List.map_append, List.sum_append]
  exact congrArg _ (Nat.add_zero _)

theorem perTasks_set {tasks : List Task} {t : Nat} {old : Task} (htask : tasks[t]? = some old)
    (new : Task) :
    k.perTasks (tasks.set t new) + k.perTask old = k.perTasks tasks + k.perTask new := by
  induction tasks generalizing t with
  | nil => cases htask
  | cons task tasks ih =>
    cases t with
    | zero =>
      obtain rfl := Option.some.inj htask
      simp only [List.set_cons_zero, perTasks, List.map_cons, List.sum_cons]
      omega
    | succ t =>
      have := ih (t := t) (by simpa using htask)
      simp only [perTasks] at this
      simp only [List.set_cons_succ, perTasks, List.map_cons, List.sum_cons]
      omega

theorem perTasks_finished {tasks : List Task} (h : tasks.all Task.isFinished) :
    k.perTasks tasks = 0 := by
  refine List.sum_eq_zero ?_
  rintro x hx
  obtain ⟨task, htask, rfl⟩ := List.mem_map.mp hx
  have hfinished := List.all_eq_true.mp h task htask
  cases task with
  | finished => rfl
  | _ => cases hfinished

/-! ## The balance of one connection -/

variable {k} {s s' : Server} {i n n' : Nat} {a : Action} {c c' : Serving} {log : List Event}

/-- What is due to a connection, if there is one of this number. -/
def dueAt (k : Counter) (s : Server) (i : Nat) (log : List Event) : Nat :=
  s.connections[i]?.elim 0 (k.due log)

/-- What has not been counted for it. -/
def outstandingAt (k : Counter) (s : Server) (i : Nat) : Nat :=
  s.connections[i]?.elim 0 k.outstanding

theorem dueAt_eq {conn : Connection} (hconn : s.connections[i]? = some conn) :
    k.dueAt s i log = k.due log conn := by
  rw [dueAt, hconn, Option.elim_some]

theorem outstandingAt_eq {conn : Connection} (hconn : s.connections[i]? = some conn) :
    k.outstandingAt s i = k.outstanding conn := by
  rw [outstandingAt, hconn, Option.elim_some]

/-- **A step keeps the balance of a connection**, on which the events so far are in the log: by as
much as the counter goes up, more is due to the connection or less is outstanding. -/
def Keeps (k : Counter) (s : Server) (i n : Nat) (log : List Event) (a : Action) (s' : Server) :
    Prop :=
  ∃ n', k.Shows s'.stats s'.registry n' ∧
    n' + k.outstandingAt s' i + k.dueAt s i log =
      n + k.outstandingAt s i + k.dueAt s' i (log ++ s.events i a)

theorem Keeps.goesOn {conn conn' : Connection} (hconn : s.connections[i]? = some conn)
    (hconn' : s'.connections[i]? = some conn') (hn : k.Shows s'.stats s'.registry n')
    (heq : n' + k.outstanding conn' + k.due log conn =
      n + k.outstanding conn + k.due (log ++ s.events i a) conn') : k.Keeps s i n log a s' := by
  refine ⟨n', hn, ?_⟩
  rw [dueAt_eq hconn, dueAt_eq hconn', outstandingAt_eq hconn, outstandingAt_eq hconn']
  exact heq

/-- A connection under service stays so. -/
theorem Keeps.serving (hc : s.serving? i = some c) (hc' : s'.serving? i = some c')
    (hcodec : c'.writer.codec = c.writer.codec) (hn : k.Shows s'.stats s'.registry n')
    (heq : n' + k.perTasks c'.tasks =
      n + k.perTasks c.tasks + k.perLog c.writer.codec (s.events i a)) :
    k.Keeps s i n log a s' := by
  refine .goesOn (serving?_eq_some.mp hc) (serving?_eq_some.mp hc') hn ?_
  simp only [due, outstanding, hcodec, perLog_append]
  omega

/-- A task comes to its result, and a failure is counted. -/
theorem shows_conclude (hn : k.Shows s.stats s.registry n) (i : Nat) (c : Serving) (t : Nat)
    (h : Header) (result : Except String Bytes) :
    k.Shows (s.conclude i c t h result).stats (s.conclude i c t h result).registry
      (n + k.perResult result) := by
  cases result with
  | ok body => exact hn
  | error why => exact k.shows_error hn

section Serving

variable (hc : s.serving? i = some c) (hn : k.Shows s.stats s.registry n)
include hc hn

theorem keeps_read (hstep : s.read i = some s') : k.Keeps s i n log (.read i) s' := by
  have hevents : s.events i (.read i) = s.ownEvents c (.read i) := events_own hc rfl
  simp only [read, hc] at hstep
  split at hstep
  · split at hstep
    · rename_i hread
      obtain rfl := Option.some.inj hstep
      simp only [ownEvents, hread] at hevents
      exact .serving hc (serving?_setServing hc _) rfl hn (by rw [hevents]; rfl)
    · rename_i hread
      obtain rfl := Option.some.inj hstep
      simp only [ownEvents, hread] at hevents
      exact .serving hc (serving?_setServing hc _) rfl hn (by rw [hevents]; rfl)
    · rename_i h reader hread
      obtain rfl := Option.some.inj hstep
      obtain ⟨body, -, hbody, -, -⟩ := Reader.readHeader_got hread
      simp only [ownEvents, hread, hbody] at hevents
      rw [Request.read_eq _ _ hbody]
      refine .serving hc (serving?_setServing hc _) rfl (k.shows_request hn) ?_
      have hasked : k.perLog c.writer.codec (s.events i (.read i)) =
          k.perAsked ⟨h, s.registry.prepare reader.codec h.method body⟩ := by
        rw [hevents]
        rfl
      rw [hasked, perTasks_concat]
      simp only [perAsked, perTask]
      omega
  · cases hstep

theorem keeps_call {t : Nat} (hstep : s.call i t = some s') :
    k.Keeps s i n log (.call i t) s' := by
  have hevents : s.events i (.call i t) = s.ownEvents c (.call i t) := events_own hc rfl
  simp only [call, hc] at hstep
  split at hstep
  · rename_i h e htask
    obtain rfl := Option.some.inj hstep
    simp only [ownEvents, htask] at hevents
    refine .serving hc (serves_conclude hc t h _ s.registry) rfl (shows_conclude hn ..) ?_
    have hset : k.perTasks (c.tasks.set t (.responding (.make c.writer.codec h
        (.error e.message)))) + k.perError = k.perTasks c.tasks := k.perTasks_set htask _
    rw [hevents, ← hset, perResult_error]
    exact (Nat.add_right_comm ..).trans (Nat.add_assoc ..)
  · rename_i h p htask
    have hset : ∀ task, k.perTasks (c.tasks.set t task) = k.perTasks c.tasks + k.perTask task :=
      k.perTasks_set htask
    have hinvoked : k.perLog c.writer.codec (s.events i (.call i t)) = k.perCall p +
        k.perResult (p.method.answer c.writer.codec h.method (s.registry.invoke p).2.outcome) := by
      simp only [ownEvents, htask] at hevents
      rw [hevents]
      exact (Nat.zero_add _).trans (k.perInvoked_eq ..)
    have hcall := k.shows_call hn p
    split at hstep
    · obtain rfl := Option.some.inj hstep
      refine .serving hc (serves_conclude hc ..) rfl (shows_conclude hcall ..) ?_
      rw [hinvoked]
      simp only [hset, perTask]
      omega
    · obtain rfl := Option.some.inj hstep
      refine .serving hc (serving?_setServing (s := { s with registry := _ }) hc _) rfl hcall ?_
      rw [hinvoked]
      simp only [hset, perTask]
      omega
  · cases hstep

theorem keeps_wake {t : Nat} (hstep : s.wake i t = some s') :
    k.Keeps s i n log (.wake i t) s' := by
  have hevents : s.events i (.wake i t) = [] := events_own hc rfl
  simp only [wake, hc] at hstep
  split at hstep
  · rename_i h due result htask
    split at hstep
    · obtain rfl := Option.some.inj hstep
      refine .serving hc (serves_conclude hc t h _ s.registry) rfl (shows_conclude hn ..) ?_
      have hset : k.perTasks (c.tasks.set t (.responding (.make c.writer.codec h result))) +
          k.perResult result = k.perTasks c.tasks := k.perTasks_set htask _
      rw [hevents, ← hset]
      exact (Nat.add_right_comm ..).trans (Nat.add_assoc ..)
    · cases hstep
  · cases hstep

theorem keeps_respond {t : Nat} (hstep : s.respond i t = some s') :
    k.Keeps s i n log (.respond i t) s' := by
  have hevents : s.events i (.respond i t) = s.ownEvents c (.respond i t) := events_own hc rfl
  simp only [respond, hc] at hstep
  split at hstep
  · rename_i r htask
    simp only [ownEvents, htask] at hevents
    have hset : k.perTasks (c.tasks.set t .finished) = k.perTasks c.tasks :=
      k.perTasks_set htask _
    have hcodec := c.writer.codec_writeEncoded (r.header, r.body)
    split at hstep
    all_goals
      rename_i hwrite
      obtain rfl := Option.some.inj hstep
      rw [hwrite] at hcodec
      refine .serving hc (serving?_setServing hc _) hcodec hn ?_
      rw [hevents, ← hset]
      rfl
  · cases hstep

theorem keeps_notice (hstep : s.noticeFailure i = some s' ∨ s.noticeShutdown i = some s')
    (hevents : s.events i a = []) : k.Keeps s i n log a s' := by
  rcases hstep with hstep | hstep
  · simp only [noticeFailure, hc] at hstep
    split at hstep
    · obtain rfl := Option.some.inj hstep
      exact .serving hc (serving?_setServing hc _) rfl hn (by rw [hevents]; rfl)
    · cases hstep
  · simp only [noticeShutdown, hc] at hstep
    split at hstep
    · obtain rfl := Option.some.inj hstep
      exact .serving hc (serving?_setServing hc _) rfl hn (by rw [hevents]; rfl)
    · cases hstep

theorem keeps_close (hstep : s.close i = some s') : k.Keeps s i n log (.close i) s' := by
  have hevents : s.events i (.close i) = [] := events_own hc rfl
  have hconn := serving?_eq_some.mp hc
  simp only [close, hc] at hstep
  split at hstep
  · rename_i hdone
    obtain rfl := Option.some.inj hstep
    refine .goesOn hconn (connections_setConnection_self hconn _) (k.shows_connections hn _ _) ?_
    simp only [hevents, List.append_nil, due, outstanding, k.perTasks_finished hdone.2,
      c.writer.close_snd.1]
  · cases hstep

end Serving

/-- The steps of a connection before its messages are read. -/
theorem keeps_opening (hn : k.Shows s.stats s.registry n) (hrecorded : s.Recorded i log)
    (ha : a = .accept i ∨ a = .serve i ∨ a = .negotiate i ∨ a = .expire i)
    (hstep : s.step a = some s') : k.Keeps s i n log a s' := by
  rcases ha with rfl | rfl | rfl | rfl
  · simp only [step, accept] at hstep
    split at hstep
    · rename_i hconn
      split at hstep
      all_goals
        obtain rfl := Option.some.inj hstep
        exact .goesOn hconn (connections_setConnection_self hconn _) hn rfl
    · cases hstep
  · simp only [step] at hstep
    split at hstep
    · rename_i hconn
      obtain rfl := Option.some.inj hstep
      exact .goesOn hconn (connections_setConnection_self hconn _) (k.shows_connections hn _ _) rfl
    · cases hstep
  · simp only [step, negotiate] at hstep
    split at hstep
    · rename_i hconn
      split at hstep
      · obtain rfl := Option.some.inj hstep
        exact .goesOn hconn (connections_setConnection_self hconn _) hn rfl
      · obtain rfl := Option.some.inj hstep
        exact .goesOn hconn (connections_setConnection_self hconn _)
          (k.shows_connections (k.shows_error hn) _ _) rfl
      · obtain rfl := Option.some.inj hstep
        have hnone : s.serving? i = none := by simp only [serving?, hconn]
        refine .goesOn hconn (connections_setConnection_self hconn _) hn ?_
        rw [events_of_not_served hnone, hrecorded.eq_nil_of_opening hconn rfl]
        rfl
    · cases hstep
  · simp only [step, expire] at hstep
    split at hstep
    · rename_i hconn
      repeat' split at hstep
      all_goals cases hstep
      exact .goesOn hconn (connections_setConnection_self hconn _)
        (k.shows_connections (k.shows_error hn) _ _) rfl
    · cases hstep

/-- What reaches the stream of a connection. -/
theorem keeps_reaches (hn : k.Shows s.stats s.registry n) (f : Source → Source)
    (hstep : s' = { s with connections := s.connections.modify i (.mapSource f) })
    (hevents : ∀ c, k.perLog c (s.events i a) = 0) : k.Keeps s i n log a s' := by
  subst hstep
  refine ⟨n, hn, ?_⟩
  simp only [dueAt, outstandingAt, List.getElem?_modify_eq]
  cases s.connections[i]? with
  | none => rfl
  | some conn =>
    cases conn <;> simp only [Option.map_eq_map, Option.map_some, Option.elim_some,
      Connection.mapSource, due, outstanding, perLog_append, hevents, Nat.add_zero]

/-- **A step about a connection** keeps its balance. -/
theorem keeps_own (hn : k.Shows s.stats s.registry n) (hrecorded : s.Recorded i log)
    (ha : a.connection? = some i) (hstep : s.step a = some s') : k.Keeps s i n log a s' := by
  cases a with
  | receive j piece =>
    cases ha
    refine keeps_reaches hn _ (Option.some.inj hstep).symm fun codec => ?_
    simp only [events, ownEvents]
    repeat' split
    all_goals rfl
  | hangUp j e =>
    cases ha
    refine keeps_reaches hn _ (Option.some.inj hstep).symm fun codec => ?_
    simp only [events, ownEvents]
    repeat' split
    all_goals rfl
  | accept j => cases ha; exact keeps_opening hn hrecorded (.inl rfl) hstep
  | serve j => cases ha; exact keeps_opening hn hrecorded (.inr (.inl rfl)) hstep
  | negotiate j => cases ha; exact keeps_opening hn hrecorded (.inr (.inr (.inl rfl))) hstep
  | expire j => cases ha; exact keeps_opening hn hrecorded (.inr (.inr (.inr rfl))) hstep
  | read j =>
    cases ha
    obtain ⟨c, hc⟩ := exists_serving (i := i) hstep fun hnone => by simp only [step, read, hnone]
    exact keeps_read hc hn hstep
  | noticeFailure j =>
    cases ha
    obtain ⟨c, hc⟩ := exists_serving (i := i) hstep fun hnone => by
      simp only [step, noticeFailure, hnone]
    exact keeps_notice hc hn (.inl hstep) (events_own hc rfl)
  | noticeShutdown j =>
    cases ha
    obtain ⟨c, hc⟩ := exists_serving (i := i) hstep fun hnone => by
      simp only [step, noticeShutdown, hnone]
    exact keeps_notice hc hn (.inr hstep) (events_own hc rfl)
  | call j t =>
    cases ha
    obtain ⟨c, hc⟩ := exists_serving (i := i) hstep fun hnone => by simp only [step, call, hnone]
    exact keeps_call hc hn hstep
  | wake j t =>
    cases ha
    obtain ⟨c, hc⟩ := exists_serving (i := i) hstep fun hnone => by simp only [step, wake, hnone]
    exact keeps_wake hc hn hstep
  | respond j t =>
    cases ha
    obtain ⟨c, hc⟩ := exists_serving (i := i) hstep fun hnone => by simp only [step, respond, hnone]
    exact keeps_respond hc hn hstep
  | close j =>
    cases ha
    obtain ⟨c, hc⟩ := exists_serving (i := i) hstep fun hnone => by simp only [step, close, hnone]
    exact keeps_close hc hn hstep
  | _ => cases ha

/-- **Any other step** leaves the balance as it is. -/
theorem keeps_other (hstep : s.step a = some s') (ha : a.connection? ≠ some i) (log : List Event) :
    k.outstandingAt s' i = k.outstandingAt s i ∧
      k.dueAt s' i (log ++ s.events i a) = k.dueAt s i log := by
  by_cases hshutdown : a = .shutdown
  · subst hshutdown
    obtain rfl := Option.some.inj hstep
    simp only [dueAt, outstandingAt, List.getElem?_map]
    cases hconn : s.connections[i]? with
    | none => exact ⟨rfl, rfl⟩
    | some conn =>
      cases conn with
      | serving c =>
        refine ⟨rfl, ?_⟩
        simp only [events, serving?, hconn, Option.map_some, Option.elim_some, Connection.signal,
          due, perLog_append]
        rfl
      | _ =>
        simp only [events, serving?, hconn, List.append_nil]
        exact ⟨rfl, rfl⟩
  · rw [events_other ha hshutdown, List.append_nil, dueAt, dueAt, outstandingAt, outstandingAt]
    cases hconn : s.connections[i]? with
    | some conn =>
      rw [connections_step_ne hstep ha hshutdown hconn]
      exact ⟨rfl, rfl⟩
    | none =>
      cases hconn' : s'.connections[i]? with
      | none => exact ⟨rfl, rfl⟩
      | some conn =>
        -- nothing is due to a connection that has just come
        rcases connection_new hstep hconn hconn' with ⟨sink, rfl⟩ | ⟨deadline, sink, rfl⟩
        · exact ⟨rfl, rfl⟩
        · exact ⟨rfl, rfl⟩

end Counter

end Server

end WireCall
