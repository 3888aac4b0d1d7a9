import WireCall.Proofs.Client.Settling

/-!
# What a client writes when its stream may fail

A call gets its number and the right to write in one step, and passes the right on only when its
request has been handed to the writer. So the requests are written in the order of their numbers,
and no number is left out. Every step *handles* the requests in one of a few ways
(`Client.Handling`): it leaves them alone, or a call is issued, refused or given the right to write,
or its request is written or breaks off.

What the stream has taken behind the line that opens the connection is a *script* of the requests
(`Client.Script`): whole frames of the first of them, and behind those at most a part of the next
one. A request that breaks off is the last one, as the client is lost then and gives the right to
write to nobody (`Client.Utters`). The main statement is `Client.requests_written`.

The numbers have 64 bits and go round, so a client that makes more calls than there are numbers
writes a number a second time (`Client.number_written_twice`).
-/

namespace WireCall

namespace Writer

/-- Whatever becomes of a message that is given to a writer, the stream takes a front of its
frame. -/
theorem front_writeEncoded (w : Writer) (m : Header × Bytes) :
    (w.writeEncoded m.1 m.2).2.codec = w.codec ∧
      ∃ part, part <+: Message.bytes w.codec m ∧
        (w.writeEncoded m.1 m.2).2.sink.taken = w.sink.taken ++ part := by
  have hfate := w.fate_writeEncoded m
  generalize w.faults m = fault at hfate
  generalize (w.writeEncoded m.1 m.2).2 = w' at hfate ⊢
  cases hfate with
  | misfit => exact ⟨rfl, [], List.nil_prefix, (List.append_nil _).symm⟩
  | refused => exact ⟨rfl, [], List.nil_prefix, (List.append_nil _).symm⟩
  | written _ _ _ hcodec htaken => exact ⟨hcodec, _, List.prefix_rfl, htaken⟩
  | broken _ _ _ hcodec hpart htaken => exact ⟨hcodec, _, hpart, htaken⟩

end Writer

/-- The request of a call. -/
def Call.request (call : Call) (body : Bytes) : Header × Bytes :=
  (⟨call.method, call.seq, ""⟩, body)

namespace Client

variable {c c' : Client} {codec : Codec} {start : Bytes} {log ev : List Event}
  {past fault : List WireError} {requests : List (Header × Bytes)}

/-! ## Scripts -/

/-- **Whole frames of the first requests**, in their order, and behind them at most a part of the
frame of the next one. -/
inductive Script (codec : Codec) (requests : List (Header × Bytes)) : Bytes → Prop
  | whole {done rest : List (Header × Bytes)} (hrequests : requests = done ++ rest)
      (hfit : ∀ m ∈ done, Message.Fits codec m) :
      Script codec requests (done.flatMap (Message.bytes codec))
  | torn {done rest : List (Header × Bytes)} {m : Header × Bytes} {part : Bytes}
      (hrequests : requests = done ++ m :: rest) (hfit : ∀ m' ∈ done, Message.Fits codec m')
      (hfits : Message.Fits codec m) (hpart : part <+: Message.bytes codec m)
      (hless : part ≠ Message.bytes codec m) :
      Script codec requests (done.flatMap (Message.bytes codec) ++ part)

/-- All frames of some requests, of which only the last one may have none. -/
theorem Script.of_all (hfit : ∀ m ∈ requests.dropLast, Message.Fits codec m) :
    Script codec requests (requests.flatMap (Message.bytes codec)) := by
  rcases List.eq_nil_or_concat requests with rfl | ⟨front, last, rfl⟩
  · have hnone : ∀ m ∈ ([] : List (Header × Bytes)), Message.Fits codec m := nofun
    exact .whole rfl hnone
  · rw [List.concat_eq_append] at hfit ⊢
    rw [List.dropLast_concat] at hfit
    by_cases hlast : Message.Fits codec last
    · apply Script.whole (List.append_nil _).symm
      intro m hm
      rcases List.mem_append.mp hm with hm | hm
      · exact hfit m hm
      · rwa [List.mem_singleton.mp hm]
    · rw [List.flatMap_append, List.flatMap_singleton, Message.bytes_of_not_fits hlast,
        List.append_nil]
      exact .whole rfl hfit

/-- Every front of these frames is a script. -/
theorem Script.of_front {seen : Bytes} (hfit : ∀ m ∈ requests.dropLast, Message.Fits codec m)
    (hseen : seen <+: requests.flatMap (Message.bytes codec)) : Script codec requests seen := by
  have before : ∀ {done rest : List (Header × Bytes)}, requests = done ++ rest → rest ≠ [] →
      ∀ m ∈ done, Message.Fits codec m := by
    rintro done rest rfl hrest m hm
    apply hfit
    rw [List.dropLast_append_of_ne_nil hrest]
    exact List.mem_append_left _ hm
  rcases front_flatMap hseen with
    ⟨done, rest, hrequests, rfl⟩ | ⟨done, m, rest, part, hrequests, hpart, hless, rfl⟩
  · by_cases hrest : rest = []
    · rw [hrest, List.append_nil] at hrequests
      rw [← hrequests]
      exact .of_all hfit
    · exact .whole hrequests (before hrequests hrest)
  · refine .torn hrequests (before hrequests (List.cons_ne_nil _ _)) ?_ hpart hless
    -- there is something of its frame that is missing
    apply Classical.byContradiction
    intro hmisfit
    rw [Message.bytes_of_not_fits hmisfit] at hpart hless
    exact hless (List.prefix_nil.mp hpart)

/-! ## How a step handles the requests -/

/-- What of a client decides which requests it writes, and what its stream has taken. -/
structure Desk where
  calls : List Call
  nextSeq : UInt64
  holder : Option (Nat × Bytes)
  codec : Codec
  taken : Bytes

def desk (c : Client) : Desk where
  calls := c.calls
  nextSeq := c.nextSeq
  holder := c.holder
  codec := c.writer.codec
  taken := c.writer.sink.taken

/-- Why requests could not be written. -/
def unwritten (is : List Incident) : List WireError :=
  is.filterMap fun
    | .unwritten _ e => some e
    | _ => none

@[simp]
theorem unwritten_append (is is' : List Incident) :
    unwritten (is ++ is') = unwritten is ++ unwritten is' := List.filterMap_append

/-- **How a step handles the requests**, which events that leaves, and why a request could not be
written. -/
inductive Handling (c c' : Client) : List Event → List WireError → Prop
  | still {ev : List Event} (hissues : issues ev = []) (hsent : sent ev = [])
      (hdesk : c'.desk = c.desk) : Handling c c' ev []
  /-- a call is issued, and waits only with an encoded argument -/
  | issues {method : String} {argument : Datum} {call : Call} (hmethod : call.method = method)
      (hencoded : ∀ body, call.waiting = some body →
        c.writer.codec.encode argument.shape argument.value = .ok body)
      (hdesk : c'.desk = { c.desk with calls := c.calls ++ [call] }) :
      Handling c c' [.issued method argument] []
  /-- a call that waits comes too late -/
  | refuses {n : Nat} {method : String} {seq : UInt64} {body : Bytes}
      (hcall : c.calls[n]? = some ⟨method, seq, some body⟩)
      (hdesk : c'.desk = { c.desk with calls := c.calls.set n ⟨method, 0, none⟩ }) :
      Handling c c' [] []
  /-- a call that waits gets the next number and the right to write -/
  | registers {n : Nat} {method : String} {seq : UInt64} {body : Bytes}
      (hcall : c.calls[n]? = some ⟨method, seq, some body⟩) (hidle : c.holder = none)
      (hopen : c.lost = false)
      (hdesk : c'.desk = { c.desk with
        calls := c.calls.set n ⟨method, c.nextSeq, none⟩
        nextSeq := c.nextSeq + 1
        holder := some (n, body) }) : Handling c c' [] []
  /-- the request of the call with the right to write is written -/
  | writes {n : Nat} {body : Bytes} {call : Call} (hholder : c.holder = some (n, body))
      (hcall : c.calls[n]? = some call) (hfits : Message.Fits c.writer.codec (call.request body))
      (hdesk : c'.desk = { c.desk with
        holder := none
        taken := c.desk.taken ++ Message.bytes c.writer.codec (call.request body) }) :
      Handling c c' [.sent (call.request body)] []
  /-- the request breaks off, and the client is lost -/
  | breaks {n : Nat} {body part : Bytes} {call : Call} {e : WireError}
      (hholder : c.holder = some (n, body)) (hcall : c.calls[n]? = some call)
      (hpart : part <+: Message.bytes c.writer.codec (call.request body)) (hlost : c'.lost = true)
      (hdesk : c'.desk = { c.desk with holder := none, taken := c.desk.taken ++ part }) :
      Handling c c' [.sent (call.request body)] [e]

/-- **Every step handles the requests** in one of these ways. -/
theorem handling_of_step {a : Action} (hstep : c.step a = some c') :
    Handling c c' (c.events a) (unwritten (c.incident a)) := by
  obtain ⟨hcodec, -, htaken⟩ := c.writer.close_snd
  cases move_of_step hstep with
  | @issues method argument body hencode =>
    have hencoded : ∀ b, (Call.mk method 0 (some body)).waiting = some b →
        c.writer.codec.encode argument.shape argument.value = .ok b := by
      rintro _ ⟨⟩
      exact hencode
    exact .issues rfl hencoded rfl
  | @misissues method argument =>
    have hencoded : ∀ b, (Call.mk method 0 none).waiting = some b →
        c.writer.codec.encode argument.shape argument.value = .ok b := nofun
    exact .issues rfl hencoded rfl
  | registers hidle hcall hclosing hlost =>
    rw [incident_register hclosing hlost]
    exact .registers hcall hidle hlost rfl
  | refuses _ hcall hover =>
    simp only [incident, if_pos hover]
    exact .refuses hcall rfl
  | @writes n body call writer hholder hcall hwrite =>
    simp only [events, incident, hholder, hcall, hwrite]
    obtain ⟨hfits, hsame, hwhole⟩ := Writer.taken_writeEncoded hwrite
    apply Handling.writes hholder hcall hfits
    simp only [desk, hsame, hwhole, Call.request]
  | @breaks n body call writer e hholder hcall hwrite =>
    rw [incident_write hholder hcall hwrite]
    simp only [events, hholder, hcall]
    obtain ⟨hsame, part, hpart, hfront⟩ := c.writer.front_writeEncoded (call.request body)
    simp only [Call.request, hwrite] at hsame hpart hfront
    obtain ⟨failed, habort⟩ := exists_abort { c with writer, holder := none } call.seq e
    rw [habort]
    exact .breaks hholder hcall hpart rfl (by simp only [desk, hsame, hfront])
  | waits _ hread | fails _ hread =>
    simp only [events, incident, hread]
    exact .still rfl rfl rfl
  | hears _ hread hbody | ignores _ hread hbody =>
    rw [events_read hread hbody, incident_read hread hbody]
    exact .still rfl rfl rfl
  | tells hending =>
    simp only [incident, hending]
    exact .still rfl rfl (by simp only [failAll, desk, hcodec, htaken])
  | finishes => exact .still rfl rfl (by simp only [desk, hcodec, htaken])
  | _ => exact .still rfl rfl rfl

/-! ## The order of the requests -/

/-- **The calls are those that have been issued**, however the requests are handled. -/
theorem Issued.handled (h : Issued codec log c) (hcodec : c.writer.codec = codec)
    (hhandling : Handling c c' ev fault) : Issued codec (log ++ ev) c' := by
  -- a call that has waited keeps its method
  have relabelled : ∀ {n : Nat} {call call' : Call}, c.calls[n]? = some call →
      c'.calls = c.calls.set n call' → call'.method = call.method → call'.waiting = none →
      Issued codec (log ++ []) c' := by
    intro n call call' hcall hcalls hmethod hwaiting
    rw [List.append_nil]
    refine ⟨?_, ?_⟩
    · rw [hcalls, List.length_set]
      exact h.length
    · intro m a ha
      rw [hcalls] at ha
      rcases getElem?_of_set ha with ⟨rfl, rfl⟩ | ⟨-, ha⟩
      · obtain ⟨argument, hissued, -⟩ := h.argument hcall
        refine ⟨argument, hmethod ▸ hissued, ?_⟩
        rw [hwaiting]
        nofun
      · exact h.argument ha
  cases hhandling with
  | still hissues _ hdesk => exact h.quiet hissues (congrArg Desk.calls hdesk)
  | @issues method argument call hmethod hencoded hdesk =>
    have hcalls : c'.calls = c.calls ++ [call] := congrArg Desk.calls hdesk
    have hlog : issues (log ++ [.issued method argument]) = issues log ++ [(method, argument)] :=
      issues_append _ _
    refine ⟨?_, ?_⟩
    · rw [hcalls, hlog, List.length_append, List.length_append, h.length]
      rfl
    · intro n a ha
      rw [hlog]
      rcases getElem?_of_concat (hcalls ▸ ha) with ha | ⟨rfl, rfl⟩
      · obtain ⟨x, hx, hencode⟩ := h.argument ha
        exact ⟨x, List.getElem?_append_left (List.getElem?_eq_some_iff.mp hx).1 ▸ hx, hencode⟩
      · refine ⟨argument, ?_, hcodec ▸ hencoded⟩
        rw [h.length, List.getElem?_concat_length, hmethod]
  | @refuses n method _ _ hcall hdesk =>
    have hcalls : c'.calls = c.calls.set n ⟨method, 0, none⟩ := congrArg Desk.calls hdesk
    exact relabelled hcall hcalls rfl rfl
  | @registers n method _ _ hcall _ _ hdesk =>
    have hcalls : c'.calls = c.calls.set n ⟨method, c.nextSeq, none⟩ := congrArg Desk.calls hdesk
    exact relabelled hcall hcalls rfl rfl
  | writes _ _ _ hdesk => exact h.quiet rfl (congrArg Desk.calls hdesk)
  | breaks _ _ _ _ hdesk => exact h.quiet rfl (congrArg Desk.calls hdesk)

/-- How many numbers have been given out, by the requests. -/
def given (log : List Event) (c : Client) : Nat :=
  (sent log).length + if c.holder.isSome then 1 else 0

/-- The request at a place is that of a call, and its number is the one after that place. -/
def Placed (codec : Codec) (log : List Event) (c : Client) (t n : Nat) (m : Header × Bytes) :
    Prop :=
  m.1.seq = UInt64.ofNat (t + 1) ∧ Asks codec log c n m.1.seq.toNat m

/-- **What is handed to the writer**: the requests of the calls, each at its place, and the next one
is that of the call with the right to write. -/
structure Sends (codec : Codec) (log : List Event) (c : Client) : Prop where
  codec_eq : c.writer.codec = codec
  issued : Issued codec log c
  next : c.nextSeq = UInt64.ofNat (given log c + 1)
  /-- a call has one number at most -/
  few : given log c ≤ c.calls.countP fun call => call.waiting.isNone
  placed : ∀ {t : Nat} {m : Header × Bytes}, (sent log)[t]? = some m →
    ∃ n, Placed codec log c t n m
  holder : ∀ {n : Nat} {body : Bytes}, c.holder = some (n, body) →
    ∃ h, Placed codec log c (sent log).length n (h, body)

theorem Placed.later {t n : Nat} {m : Header × Bytes} (h : Placed codec log c t n m)
    (hlater : Later c c') (ev : List Event) : Placed codec (log ++ ev) c' t n m :=
  ⟨h.1, h.2.later hlater ev⟩

/-- A client that has just been connected has been given no call. -/
theorem Sends.init (r : Reader) (w : Writer) : Sends w.codec [] { reader := r, writer := w } where
  codec_eq := rfl
  issued := ⟨rfl, fun h => by simp at h⟩
  next := rfl
  few := Nat.zero_le _
  placed := fun h => by simp [sent] at h
  holder := nofun

/-- Nothing is handed to the writer, and the same call has the right to write. -/
theorem Sends.quiet (h : Sends codec log c) (hlater : Later c c')
    (hissued : Issued codec (log ++ ev) c') (hsent : sent ev = [])
    (hcodec : c'.writer.codec = c.writer.codec) (hnext : c'.nextSeq = c.nextSeq)
    (hholder : c'.holder = c.holder)
    (hfew : (c.calls.countP fun call => call.waiting.isNone) ≤
      c'.calls.countP fun call => call.waiting.isNone) :
    Sends codec (log ++ ev) c' := by
  have hlog : sent (log ++ ev) = sent log := by rw [sent_append, hsent, List.append_nil]
  have hgiven : given (log ++ ev) c' = given log c := by rw [given, given, hlog, hholder]
  refine ⟨hcodec.trans h.codec_eq, hissued, ?_, ?_, ?_, ?_⟩
  · rw [hnext, hgiven]
    exact h.next
  · rw [hgiven]
    exact Nat.le_trans h.few hfew
  · intro t m hm
    obtain ⟨n, hn⟩ := h.placed (hlog ▸ hm)
    exact ⟨n, hn.later hlater ev⟩
  · intro n body hbody
    obtain ⟨hd, hhd⟩ := h.holder (hholder ▸ hbody)
    rw [hlog]
    exact ⟨hd, hhd.later hlater ev⟩

/-- The call with the right to write hands its request to the writer, and gives the right back. -/
theorem Sends.send (h : Sends codec log c) (hlater : Later c c') {n : Nat} {body : Bytes}
    {call : Call} (hcall : c.calls[n]? = some call) (hholder : c.holder = some (n, body))
    (hissued : Issued codec (log ++ [.sent (call.request body)]) c')
    (hcodec : c'.writer.codec = c.writer.codec) (hnext : c'.nextSeq = c.nextSeq)
    (hcalls : c'.calls = c.calls) (hidle : c'.holder = none) :
    Sends codec (log ++ [.sent (call.request body)]) c' := by
  have hlog : sent (log ++ [.sent (call.request body)]) = sent log ++ [call.request body] :=
    sent_append _ _
  have hgiven : given (log ++ [.sent (call.request body)]) c' = given log c := by
    rw [given, given, hlog, hidle, hholder]
    simp
  refine ⟨hcodec.trans h.codec_eq, hissued, ?_, ?_, ?_, ?_⟩
  · rw [hnext, hgiven]
    exact h.next
  · rw [hgiven, hcalls]
    exact h.few
  · intro t m hm
    rw [hlog] at hm
    rcases getElem?_of_concat hm with hm | ⟨rfl, rfl⟩
    · obtain ⟨k, hk⟩ := h.placed hm
      exact ⟨k, hk.later hlater _⟩
    · obtain ⟨hd, hplaced⟩ := h.holder hholder
      obtain ⟨call', hcall', -, -, hheader⟩ := hplaced.2.call
      obtain rfl := Option.some.inj (hcall'.symm.trans hcall)
      obtain rfl : hd = ⟨call'.method, call'.seq, ""⟩ := hheader
      exact ⟨n, hplaced.later hlater _⟩
  · intro k body' hbody'
    rw [hidle] at hbody'
    cases hbody'

/-- A call gets the next number and the right to write. -/
theorem Sends.register (h : Sends codec log c) (hlater : Later c c') {n : Nat} {method : String}
    {seq : UInt64} {body : Bytes} (hcall : c.calls[n]? = some ⟨method, seq, some body⟩)
    (hidle : c.holder = none) (hissued : Issued codec (log ++ []) c')
    (hcodec : c'.writer.codec = c.writer.codec) (hnext : c'.nextSeq = c.nextSeq + 1)
    (hcalls : c'.calls = c.calls.set n ⟨method, c.nextSeq, none⟩)
    (hholder : c'.holder = some (n, body)) : Sends codec (log ++ []) c' := by
  obtain ⟨hlt, hget⟩ := List.getElem?_eq_some_iff.mp hcall
  have hgiven : given log c = (sent log).length := by rw [given, hidle]; rfl
  have hgiven' : given log c' = given log c + 1 := by rw [hgiven, given, hholder]; rfl
  refine ⟨hcodec.trans h.codec_eq, hissued, ?_, ?_, ?_, ?_⟩
  · rw [List.append_nil, hgiven', hnext, h.next]
    simp
  · rw [List.append_nil, hgiven', hcalls, List.countP_set hlt, hget]
    simpa using h.few
  · intro t m hm
    rw [List.append_nil] at hm
    obtain ⟨k, hk⟩ := h.placed hm
    exact ⟨k, hk.later hlater []⟩
  · intro k body' hbody'
    obtain ⟨rfl, rfl⟩ : n = k ∧ body = body' := by
      simpa using Option.some.inj (hholder.symm.trans hbody')
    obtain ⟨argument, hargument, hencode⟩ := h.issued.argument hcall
    rw [List.append_nil]
    refine ⟨⟨method, c.nextSeq, ""⟩, ?_, ⟨⟨method, c.nextSeq, none⟩, ?_, rfl, rfl, rfl⟩, argument,
      hargument, hencode body rfl⟩
    · rw [← hgiven]
      exact h.next
    · rw [hcalls, List.getElem?_set_self hlt]

/-- **Every step keeps the requests at their places.** -/
theorem Sends.handled (h : Sends codec log c) (hlater : Later c c')
    (hhandling : Handling c c' ev fault) : Sends codec (log ++ ev) c' := by
  have hissued := h.issued.handled h.codec_eq hhandling
  cases hhandling with
  | still _ hsent hdesk =>
    have hcalls : c'.calls = c.calls := congrArg Desk.calls hdesk
    apply h.quiet hlater hissued hsent (congrArg Desk.codec hdesk) (congrArg Desk.nextSeq hdesk)
      (congrArg Desk.holder hdesk)
    rw [hcalls]
  | @issues _ _ call _ _ hdesk =>
    have hcalls : c'.calls = c.calls ++ [call] := congrArg Desk.calls hdesk
    apply h.quiet hlater hissued rfl (congrArg Desk.codec hdesk) (congrArg Desk.nextSeq hdesk)
      (congrArg Desk.holder hdesk)
    rw [hcalls, List.countP_append]
    exact Nat.le_add_right _ _
  | @refuses n method _ _ hcall hdesk =>
    have hcalls : c'.calls = c.calls.set n ⟨method, 0, none⟩ := congrArg Desk.calls hdesk
    obtain ⟨hlt, hget⟩ := List.getElem?_eq_some_iff.mp hcall
    apply h.quiet hlater hissued rfl (congrArg Desk.codec hdesk) (congrArg Desk.nextSeq hdesk)
      (congrArg Desk.holder hdesk)
    rw [hcalls, List.countP_set hlt, hget]
    simp
  | registers hcall hidle _ hdesk =>
    exact h.register hlater hcall hidle hissued (congrArg Desk.codec hdesk)
      (congrArg Desk.nextSeq hdesk) (congrArg Desk.calls hdesk) (congrArg Desk.holder hdesk)
  | writes hholder hcall _ hdesk =>
    exact h.send hlater hcall hholder hissued (congrArg Desk.codec hdesk)
      (congrArg Desk.nextSeq hdesk) (congrArg Desk.calls hdesk) (congrArg Desk.holder hdesk)
  | breaks hholder hcall _ _ hdesk =>
    exact h.send hlater hcall hholder hissued (congrArg Desk.codec hdesk)
      (congrArg Desk.nextSeq hdesk) (congrArg Desk.calls hdesk) (congrArg Desk.holder hdesk)

/-! ## What the stream has taken -/

/-- **What the stream has taken** of the requests: all of them, or, after one could not be written,
a front of them, and then the client is lost and no call has the right to write. -/
inductive Utters (codec : Codec) (start : Bytes) (requests : List (Header × Bytes)) (c : Client) :
    List WireError → Prop
  | intact (hfit : ∀ m ∈ requests, Message.Fits codec m)
      (htaken : c.writer.sink.taken = start ++ requests.flatMap (Message.bytes codec)) :
      Utters codec start requests c []
  | broken {past : List WireError} {out : Bytes} (hpast : past ≠ []) (hlost : c.lost = true)
      (hidle : c.holder = none) (hfit : ∀ m ∈ requests.dropLast, Message.Fits codec m)
      (hfront : out <+: requests.flatMap (Message.bytes codec))
      (htaken : c.writer.sink.taken = start ++ out) : Utters codec start requests c past

/-- Nothing is written. -/
theorem Utters.quiet (h : Utters codec start requests c past) (hlater : Later c c')
    (hholder : c.lost = true → c'.holder = c.holder)
    (htaken : c'.writer.sink.taken = c.writer.sink.taken) :
    Utters codec start requests c' past := by
  cases h with
  | intact hfit h => exact .intact hfit (htaken.trans h)
  | broken hpast hlost hidle hfit hfront h =>
    exact .broken hpast (hlater.lost hlost) ((hholder hlost).trans hidle) hfit hfront
      (htaken.trans h)

theorem Utters.handled (h : Utters codec start (sent log) c past) (hcodec : c.writer.codec = codec)
    (hlater : Later c c') (hhandling : Handling c c' ev fault) :
    Utters codec start (sent (log ++ ev)) c' (past ++ fault) := by
  have quiet : sent ev = [] → fault = [] → (c.lost = true → c'.holder = c.holder) →
      c'.writer.sink.taken = c.writer.sink.taken →
      Utters codec start (sent (log ++ ev)) c' (past ++ fault) := by
    rintro hsent rfl hholder htaken
    rw [sent_append, hsent, List.append_nil, List.append_nil]
    exact h.quiet hlater hholder htaken
  cases hhandling with
  | still _ hsent hdesk =>
    exact quiet hsent rfl (fun _ => congrArg Desk.holder hdesk) (congrArg Desk.taken hdesk)
  | issues _ _ hdesk | refuses _ hdesk =>
    exact quiet rfl rfl (fun _ => congrArg Desk.holder hdesk) (congrArg Desk.taken hdesk)
  | registers _ _ hopen hdesk =>
    refine quiet rfl rfl ?_ (congrArg Desk.taken hdesk)
    rw [hopen]
    nofun
  | @writes n body call hholder _ hfits hdesk =>
    rw [hcodec] at hfits hdesk
    cases h with
    | broken _ _ hidle =>
      rw [hidle] at hholder
      cases hholder
    | intact hfit htaken =>
      rw [sent_append]
      refine .intact ?_ ?_
      · intro m hm
        rcases List.mem_append.mp hm with hm | hm
        · exact hfit m hm
        · rwa [List.mem_singleton.mp hm]
      · have htaken' : c'.writer.sink.taken = _ := congrArg Desk.taken hdesk
        rw [htaken', List.flatMap_append, ← List.append_assoc, ← htaken]
        simp [desk, sent]
  | @breaks n body part call e hholder _ hpart hlost hdesk =>
    rw [hcodec] at hpart
    cases h with
    | broken _ _ hidle =>
      rw [hidle] at hholder
      cases hholder
    | intact hfit htaken =>
      have htaken' : c'.writer.sink.taken =
          start ++ ((sent log).flatMap (Message.bytes codec) ++ part) := by
        rw [← List.append_assoc, ← htaken]
        exact congrArg Desk.taken hdesk
      rw [sent_append]
      refine .broken (List.cons_ne_nil _ _) hlost (congrArg Desk.holder hdesk) ?_ ?_ htaken'
      · rw [show sent [Event.sent (call.request body)] = [call.request body] from rfl,
          List.dropLast_concat]
        exact hfit
      · rw [List.flatMap_append, List.prefix_append_right_inj]
        simpa [sent] using hpart

/-- A lost client with no call that has the right to write does not write. -/
theorem Handling.silent (h : Handling c c' ev fault) (hlost : c.lost = true)
    (hidle : c.holder = none) :
    c'.holder = none ∧ c'.writer.sink.taken = c.writer.sink.taken := by
  cases h with
  | still _ _ hdesk | issues _ _ hdesk | refuses _ hdesk =>
    exact ⟨(congrArg Desk.holder hdesk).trans hidle, congrArg Desk.taken hdesk⟩
  | registers _ _ hopen =>
    rw [hlost] at hopen
    cases hopen
  | writes hholder | breaks hholder =>
    rw [hidle] at hholder
    cases hholder

/-- After a request that has broken off nothing is written any more. -/
theorem taken_of_broken (hlost : c.lost = true) (hidle : c.holder = none) {actions : List Action}
    (hrun : c.run actions = some c') : c'.writer.sink.taken = c.writer.sink.taken := by
  suffices h : (c'.lost = true ∧ c'.holder = none) ∧
      c'.writer.sink.taken = c.writer.sink.taken from h.2
  refine Run.keeps (P := fun c' => (c'.lost = true ∧ c'.holder = none) ∧
    c'.writer.sink.taken = c.writer.sink.taken) ?_ ⟨⟨hlost, hidle⟩, rfl⟩ hrun
  rintro m a m' ⟨⟨hlost, hidle⟩, htaken⟩ hstep
  obtain ⟨hidle', htaken'⟩ := (handling_of_step hstep).silent hlost hidle
  exact ⟨⟨(Later.step hstep).lost hlost, hidle'⟩, htaken'.trans htaken⟩

/-! ## The main statement -/

/-- What happens to a client in a run, one event after another. -/
def history (c : Client) (actions : List Action) : List Event := Run.log step events c actions

/-- Whether an action writes a request. -/
def Action.isWrite : Action → Bool
  | .write => true
  | _ => false

/-- Each write hands one request to the writer. -/
theorem length_sent {actions : List Action} (hrun : c.run actions = some c') :
    (sent (c.history actions)).length = actions.countP Action.isWrite := by
  refine Run.induct (P := fun as _ => (sent (c.history as)).length = as.countP Action.isWrite)
    rfl ?_ actions c' hrun
  intro as m a c' hm ih hstep
  have hone : (sent (m.events a)).length = [a].countP Action.isWrite := by
    cases move_of_step hstep with
    | writes hholder hcall | breaks hholder hcall =>
      simp only [events, hholder, hcall]
      rfl
    | waits _ hread | fails _ hread =>
      simp only [events, hread]
      rfl
    | hears _ hread hbody | ignores _ hread hbody =>
      rw [events_read hread hbody]
      rfl
    | _ => rfl
  rw [history, Run.log_concat hm hstep, sent_append, List.length_append, List.countP_append, hone]
  exact congrArg (· + _) ih

theorem countP_rounds (n : Nat) : (rounds n).countP Action.isWrite = n := by
  induction n with
  | zero => rfl
  | succ n ih =>
    rw [rounds, List.countP_append, ih]
    rfl

/-- A client that has just been connected has written the line that opens the connection. -/
theorem taken_of_connect {o : Options} {source : Source} {sink sink' : Sink}
    (hconnect : connect o source sink = (.ok c, sink')) :
    ∃ r line, c = { reader := r, writer := { codec := o.codec, sink := sink' } } ∧
      o.toLine = .ok line ∧ sink'.taken = sink.taken ++ line := by
  simp only [connect, Negotiation.send] at hconnect
  cases hline : o.toLine with
  | error e => simp [hline] at hconnect
  | ok line =>
    cases hsend : sink.send line with
    | mk result sink₁ =>
    cases result with
    | error e => simp [hline, hsend] at hconnect
    | ok u =>
      obtain ⟨rfl, rfl⟩ : _ = c ∧ sink₁ = sink' := by simpa [hline, hsend] using hconnect
      exact ⟨_, line, rfl, rfl, Sink.taken_send hsend⟩

theorem sends_of_run {o : Options} {source : Source} {sink sink' : Sink} {c₀ : Client}
    {actions : List Action} (hconnect : connect o source sink = (.ok c₀, sink'))
    (hrun : c₀.run actions = some c) :
    Sends o.codec (c₀.history actions) c ∧
      Utters o.codec sink'.taken (sent (c₀.history actions)) c
        (unwritten (c₀.incidents actions)) := by
  obtain ⟨r, line, rfl, -, -⟩ := taken_of_connect hconnect
  refine Run.induct (P := fun as c => Sends o.codec (history _ as) c ∧
    Utters o.codec sink'.taken (sent (history _ as)) c (unwritten (incidents _ as))) ?_ ?_
    actions c hrun
  · exact ⟨Sends.init r { codec := o.codec, sink := sink' },
      .intact nofun (List.append_nil _).symm⟩
  · rintro as m a c' hm ⟨hsends, hutters⟩ hstep
    have hhandling := handling_of_step hstep
    simp only [history, incidents, Run.log_concat hm hstep, unwritten_append]
    exact ⟨hsends.handled (Later.step hstep) hhandling,
      hutters.handled hsends.codec_eq (Later.step hstep) hhandling⟩

theorem Utters.script (h : Utters codec start requests c past) :
    ∃ out, c.writer.sink.taken = start ++ out ∧
      (∀ seen, seen <+: out → Script codec requests seen) ∧
      (past = [] → out = requests.flatMap (Message.bytes codec)) := by
  cases h with
  | intact hfit htaken =>
    refine ⟨_, htaken, ?_, fun _ => rfl⟩
    intro seen hseen
    exact .of_front (fun m hm => hfit m (List.dropLast_subset _ hm)) hseen
  | broken hpast _ _ hfit hfront htaken =>
    refine ⟨_, htaken, ?_, fun h => absurd h hpast⟩
    intro seen hseen
    exact .of_front hfit (hseen.trans hfront)

theorem Utters.lost (h : Utters codec start requests c past) (hpast : past ≠ []) :
    c.lost = true ∧ c.holder = none := by
  cases h with
  | intact => exact absurd rfl hpast
  | broken _ hlost hidle => exact ⟨hlost, hidle⟩

/-- As long as there are fewer calls than numbers, a request bears the number of its place. -/
theorem Sends.toNat_seq (h : Sends codec log c) (hfew : c.calls.length < numbers) {t : Nat}
    {m : Header × Bytes} (hm : (sent log)[t]? = some m) : m.1.seq.toNat = t + 1 := by
  obtain ⟨n, hseq, -⟩ := h.placed hm
  have hlt : t < (sent log).length := (List.getElem?_eq_some_iff.mp hm).1
  have hgiven : (sent log).length ≤ given log c := Nat.le_add_right _ _
  have hcalls : given log c ≤ c.calls.length := Nat.le_trans h.few List.countP_le_length
  rw [hseq]
  apply UInt64.toNat_ofNat_of_lt'
  exact Nat.lt_of_le_of_lt (by omega) hfew

/-- So the numbers of the requests are 1, 2, 3 and so on. -/
theorem Sends.seqs (h : Sends codec log c) (hfew : c.calls.length < numbers) :
    (sent log).map (fun m => m.1.seq.toNat) = List.range' 1 (sent log).length := by
  apply List.ext_getElem?
  intro t
  rw [List.getElem?_map]
  cases hm : (sent log)[t]? with
  | none =>
    have hge : (sent log).length ≤ t := List.getElem?_eq_none_iff.mp hm
    rw [List.getElem?_eq_none (by rwa [List.length_range'])]
    rfl
  | some m =>
    rw [List.getElem?_range' (List.getElem?_eq_some_iff.mp hm).1, Option.map_some,
      h.toNat_seq hfew hm, Nat.one_mul, Nat.add_comm]

/-- **The requests that a client writes**, whatever is called, closed, given up or heard, and
whatever its stream does:

- the stream has taken the line that opens the connection, and behind it a script of the requests,
  at each moment, also inside a write; as long as every request can be written these are the frames
  of all of them, and after one that cannot, nothing is written any more;
- the requests bear the numbers from 1 on, one after another, and each is that of a call: it names
  its method, and its body is the encoded argument;
- as long as there are fewer calls than numbers no number comes back, and the number of a request is
  that of no other call.

The callers wait until their requests have been written. One that gives its call up while it has the
right to write is not among the steps (`Client.Action`): it would break its request off without the
client being lost, and the next request would follow behind the part. -/
theorem requests_written {o : Options} {source : Source} {sink sink' : Sink} {c₀ : Client}
    {actions : List Action} (hconnect : connect o source sink = (.ok c₀, sink'))
    (hrun : c₀.run actions = some c) :
    (∃ line out, o.toLine = .ok line ∧ c.writer.sink.taken = sink.taken ++ line ++ out ∧
      (∀ seen, seen <+: out → Script o.codec (sent (c₀.history actions)) seen) ∧
      (unwritten (c₀.incidents actions) = [] →
        out = (sent (c₀.history actions)).flatMap (Message.bytes o.codec))) ∧
    (∀ before after c₁, actions = before ++ after → c₀.run before = some c₁ →
      unwritten (c₀.incidents before) ≠ [] → c.writer.sink.taken = c₁.writer.sink.taken) ∧
    (∀ t m, (sent (c₀.history actions))[t]? = some m → m.1.seq = UInt64.ofNat (t + 1) ∧
      ∃ n, Asks o.codec (c₀.history actions) c n m.1.seq.toNat m) ∧
    (c.calls.length < numbers →
      (sent (c₀.history actions)).map (fun m => m.1.seq.toNat) =
        List.range' 1 (sent (c₀.history actions)).length ∧
      ∀ m ∈ sent (c₀.history actions), ∃! n : Nat, c.calls[n]?.map Call.seq = some m.1.seq) := by
  obtain ⟨hsends, hutters⟩ := sends_of_run hconnect hrun
  obtain ⟨r, line, hinit, hline, htaken⟩ := taken_of_connect hconnect
  refine ⟨?_, ?_, ?_, ?_⟩
  · obtain ⟨out, hout, hscript, hall⟩ := hutters.script
    exact ⟨line, out, hline, htaken ▸ hout, hscript, hall⟩
  · rintro before after c₁ rfl hbefore hbroken
    obtain ⟨m, hm, hafter⟩ := Run.append_eq_some.mp hrun
    obtain rfl := Option.some.inj (hbefore.symm.trans hm)
    obtain ⟨hlost, hidle⟩ := (sends_of_run hconnect hbefore).2.lost hbroken
    exact taken_of_broken hlost hidle hafter
  · intro t m hm
    obtain ⟨n, hseq, hasks⟩ := hsends.placed hm
    exact ⟨hseq, n, hasks⟩
  · intro hfew
    refine ⟨hsends.seqs hfew, ?_⟩
    intro m hm
    obtain ⟨t, ht⟩ := List.mem_iff_getElem?.mp hm
    obtain ⟨n, -, hasks⟩ := hsends.placed ht
    obtain ⟨call, hcall, -, hnumber, -⟩ := hasks.call
    have hbooks : c.Coherent := by
      subst hinit
      exact (Coherent.init _ _).run hrun hfew
    have hseq : call.seq = m.1.seq := UInt64.toNat_inj.mp hnumber
    have hnonzero : call.seq ≠ 0 := by
      rintro hzero
      have := hsends.toNat_seq hfew ht
      rw [← hseq, hzero] at this
      cases this
    refine ⟨n, by simp [hcall, hseq], ?_⟩
    intro k hk
    obtain ⟨a, ha, haseq⟩ := Option.map_eq_some_iff.mp hk
    exact hbooks.distinct ha hcall (by rw [haseq, ← hseq]; exact hnonzero) (haseq.trans hseq.symm)

/-- A stream that takes two messages, and breaks off inside the third one. -/
def breakingOff : SinkBehaviour where
  write calls _ offered :=
    if calls < 2 then .takes offered else if calls = 2 then .takes 5 else .fails .broken
  flush _ := none
  shutdown _ := none

/-- The second call gets the right to write first, and the request of the first one breaks off. -/
def overtaken : List Action :=
  [.issue "Calc.Unit" ⟨.unit, ()⟩, .issue "Calc.Unit" ⟨.unit, ()⟩, .register 1, .write,
    .register 0, .write]

/-- A third call comes too late, and the client is closed. -/
def tooLate : List Action :=
  [.issue "Calc.Unit" ⟨.unit, ()⟩, .register 2, .close, .noticeClose, .terminate]

theorem requests_written_broken_off :
    ∃ c₀ sink c c₁ line out, connect .default {} { behaviour := breakingOff } = (.ok c₀, sink) ∧
      c₀.run (overtaken ++ tooLate) = some c ∧ c₀.run overtaken = some c₁ ∧
      Options.toLine .default = .ok line ∧ c.writer.sink.taken = line ++ out ∧ out.length = 35 ∧
      Script .compact (sent (c₀.history (overtaken ++ tooLate))) out ∧
      c.writer.sink.taken = c₁.writer.sink.taken ∧
      (sent (c₀.history (overtaken ++ tooLate))).map (fun m => m.1.seq.toNat) = [1, 2] ∧
      ∀ m ∈ sent (c₀.history (overtaken ++ tooLate)),
        ∃! n : Nat, c.calls[n]?.map Call.seq = some m.1.seq := by
  have hends : ((connect .default {} { behaviour := breakingOff }).1.toOption.bind (run · [])).any
      (fun c₀ => decide (unwritten (c₀.incidents overtaken) ≠ [] ∧
        (sent (c₀.history (overtaken ++ tooLate))).length = 2) &&
      (c₀.run (overtaken ++ tooLate)).any fun c =>
        decide (c.calls.length = 3 ∧ c.writer.sink.taken.length = 94)) = true := by
    decide +kernel
  have hopening : (Options.toLine .default).toOption.any (fun line => line.length = 59) = true := by
    decide +kernel
  obtain ⟨c₀, sink, c₀', hconnect, hrun₀, hchecks⟩ := exists_run hends
  obtain rfl := Option.some.inj hrun₀
  rw [Bool.and_eq_true, decide_eq_true_eq] at hchecks
  obtain ⟨⟨hbroken, hsent⟩, hruns⟩ := hchecks
  obtain ⟨c, hrun, hc⟩ := (Option.any_eq_true _ _).mp hruns
  obtain ⟨hcalls, hlength⟩ := of_decide_eq_true hc
  obtain ⟨c₁, hrun₁, -⟩ := Run.append_eq_some.mp hrun
  obtain ⟨⟨line, out, hline, htaken, hscript, -⟩, hbefore, -, hfew⟩ :=
    requests_written hconnect hrun
  replace htaken : c.writer.sink.taken = line ++ out := htaken
  obtain ⟨hseqs, hcalled⟩ := hfew (by rw [hcalls]; decide)
  rw [hline] at hopening
  refine ⟨c₀, sink, c, c₁, line, out, hconnect, hrun, hrun₁, hline, htaken, ?_,
    hscript out List.prefix_rfl, hbefore _ _ c₁ rfl hrun₁ hbroken, ?_, hcalled⟩
  · rw [htaken, List.length_append, of_decide_eq_true hopening] at hlength
    omega
  · rw [hseqs, hsent]
    rfl

/-- **Numbers may come back.** With one call more than there are numbers, all of them written, the
request of the last call but one bears the number 0, and that of the last one the number of the
first. -/
theorem number_written_twice :
    ∃ c₀ sink c requests, connect .default {} { behaviour := .faithful } = (.ok c₀, sink) ∧
      c₀.run (rounds (numbers + 1)) = some c ∧
      sent (c₀.history (rounds (numbers + 1))) = requests ∧
      c.writer.sink.taken = sink.taken ++ requests.flatMap (Message.bytes .compact) ∧
      (requests.map fun m => m.1.seq)[numbers - 1]? = some 0 ∧
      ¬ (requests.map fun m => m.1.seq).Nodup ∧
      ¬ (requests.map fun m => m.1.seq).Pairwise (· < ·) := by
  obtain ⟨c₀, sink, c, hconnect, hrun, h⟩ := exists_rounds (numbers + 1)
  obtain ⟨hsends, hutters⟩ := sends_of_run hconnect hrun
  generalize hrequests : sent (c₀.history (rounds (numbers + 1))) = requests at hutters
  generalize unwritten (c₀.incidents (rounds (numbers + 1))) = past at hutters
  have hlength : requests.length = numbers + 1 := by
    rw [← hrequests, length_sent hrun, countP_rounds]
  have hseq : ∀ t, t < numbers + 1 →
      (requests.map fun m => m.1.seq)[t]? = some (UInt64.ofNat (t + 1)) := by
    intro t ht
    obtain ⟨m, hm⟩ : ∃ m, requests[t]? = some m :=
      ⟨_, List.getElem?_eq_getElem (Nat.lt_of_lt_of_eq ht hlength.symm)⟩
    obtain ⟨n, hplaced, -⟩ := hsends.placed (hrequests ▸ hm)
    rw [List.getElem?_map, hm, Option.map_some, hplaced]
  have htwice : ¬ (requests.map fun m => m.1.seq).Nodup := by
    rw [List.nodup_iff_getElem?_ne_getElem?]
    intro hdistinct
    refine hdistinct 0 numbers (by decide +kernel) ?_ ?_
    · rw [List.length_map, hlength]
      exact Nat.lt_succ_self _
    · rw [hseq 0 (by decide +kernel), hseq numbers (Nat.lt_succ_self _)]
      decide +kernel
  refine ⟨c₀, sink, c, requests, hconnect, hrun, hrequests, ?_, ?_, htwice, ?_⟩
  · cases hutters with
    | intact _ htaken => exact htaken
    | broken _ hlost => exact absurd (h.lost.symm.trans hlost) Bool.false_ne_true
  · rw [hseq (numbers - 1) (by decide +kernel)]
    decide +kernel
  · intro hincreasing
    exact htwice (hincreasing.imp fun hlt => UInt64.ne_of_lt hlt)

end Client

end WireCall
