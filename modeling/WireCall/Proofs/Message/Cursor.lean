import WireCall.Proofs.Frame.Consumption
import WireCall.Proofs.Message.Reader

/-!
# A reader is a cursor over the frames of its stream

Whatever is done with a reader, and however its stream arrives meanwhile (`Reader.Operation`), the
frames that it has obtained are those at the front of the stream, and the others are ahead
(`Reader.frames_after`). A frame counts as obtained also if its header cannot be decoded: the next
read goes on behind it. The body of a frame is there from the moment its header has been read up to
the next operation of the reader (`Reader.pending_after`), and it makes no difference for the
headers what is done with the bodies (`Reader.readHeader_after`).
-/

namespace WireCall

/-- What is wrong with an encoded value has nothing to do with where it comes from. -/
theorem Codec.decode_ne_noPendingBody (c : Codec) (s : Shape) (b : Bytes) :
    c.decode s b ≠ .error .noPendingBody := by
  intro h
  cases c with
  | compact | json =>
    rw [decode] at h
    obtain ⟨e, -, he⟩ := exists_of_mapError h
    cases he

namespace Reader

/-! ## Reading one header -/

variable {r r' : Reader} {f : Frame}

/-- What looking for a frame leaves of the bytes is what decoding leaves of them. -/
theorem rest_takeFrame (d : Decoder) (s : Source) :
    (takeFrame d s).2.1.buffer ++ (takeFrame d s).2.2.unread =
      (Frame.decode (d.buffer ++ s.unread)).2 := by
  fun_induction takeFrame d s with
  | case1 d s f d' hnext =>
    rw [Frame.decode_append_some (Decoder.decode_of_next hnext)]
  | case2 d s e d' hnext =>
    have hdecode := Decoder.decode_of_next hnext
    rw [Frame.decode_append (by rw [hdecode]; simp), hdecode]
  | case3 d s d' hnext b s' hread _ ih =>
    obtain ⟨-, -, hsplit, -⟩ := Source.read_bytes (by decide) hread
    rw [ih, Decoder.extend, Frame.rest_of_decode_none (Decoder.decode_of_next hnext), hsplit,
      List.append_assoc]
  | case4 d s d' hnext e s' hread =>
    have hdecode := Decoder.decode_of_next hnext
    obtain ⟨hunread, hunread', -, -⟩ := Source.read_ended hread
    rw [hunread, hunread', List.append_nil, List.append_nil, hdecode]
  | case5 d s d' hnext s' hread =>
    have hdecode := Decoder.decode_of_next hnext
    obtain ⟨hunread, hunread', -, -⟩ := Source.read_waits hread
    rw [hunread, hunread', List.append_nil, List.append_nil, hdecode]

/-- The frame that the next read obtains, if it obtains one. -/
def frame? (r : Reader) : Option Frame :=
  match (takeFrame r.decoder r.source).1 with
  | .got f => some f
  | _ => none

theorem frame?_eq (r : Reader) : r.frame? = Frame.given? (Frame.decode r.bytes).1 := by
  have htakes := takes_takeFrame r.decoder r.source
  rw [frame?, bytes]
  generalize takeFrame r.decoder r.source = out at htakes
  obtain ⟨outcome, d, s⟩ := out
  cases htakes with
  | got hframe => rw [hframe]; rfl
  | refused hframe => rw [hframe]; rfl
  | ended hframe => rw [hframe]; rfl
  | waits hframe => rw [hframe]; rfl

/-- What a read makes of the frame that it has obtained. -/
def heading (c : Codec) (f : Frame) : Reading Header :=
  match Header.decode c f.header with
  | .ok h => .got h
  | .error e => .failed e

theorem readHeader_of_frame (h : r.frame? = some f) : r.readHeader.1 = heading r.codec f := by
  rw [frame?] at h
  rw [readHeader, heading]
  generalize takeFrame r.decoder r.source = out at h
  obtain ⟨outcome, d, s⟩ := out
  cases outcome with
  | got f' =>
    obtain rfl := Option.some.inj h
    cases hheader : Header.decode r.codec f'.header <;> simp only [hheader]
  | failed e => cases h
  | waits => cases h

/-- A read leaves what looking for a frame leaves, and maybe a body. -/
theorem exists_pending (r : Reader) : ∃ pending, r.readHeader.2 =
    { r with
      decoder := (takeFrame r.decoder r.source).2.1
      source := (takeFrame r.decoder r.source).2.2
      pending } := by
  rw [readHeader]
  generalize takeFrame r.decoder r.source = out
  obtain ⟨outcome, d, s⟩ := out
  cases outcome with
  | got f =>
    cases hheader : Header.decode r.codec f.header with
    | ok h => exact ⟨some f.body, by simp only [hheader]⟩
    | error e => exact ⟨none, by simp only [hheader]⟩
  | failed e => exact ⟨none, rfl⟩
  | waits => exact ⟨none, rfl⟩

theorem bytes_readHeader (r : Reader) : r.readHeader.2.bytes = (Frame.decode r.bytes).2 := by
  obtain ⟨pending, hread⟩ := r.exists_pending
  rw [hread]
  exact rest_takeFrame r.decoder r.source

@[simp]
theorem codec_readHeader (r : Reader) : r.readHeader.2.codec = r.codec := by
  obtain ⟨pending, hread⟩ := r.exists_pending
  rw [hread]

/-- The body that is pending behind a read. -/
theorem pending_readHeader {body : Bytes} : r.readHeader.2.pending = some body ↔
    ∃ f h, r.frame? = some f ∧ Header.decode r.codec f.header = .ok h ∧ f.body = body := by
  rw [frame?, readHeader]
  generalize takeFrame r.decoder r.source = out
  obtain ⟨outcome, d, s⟩ := out
  cases outcome with
  | got f => cases hheader : Header.decode r.codec f.header <;> simp [hheader]
  | failed e => simp
  | waits => simp

/-! ## Operations -/

/-- **What is done with a reader**, and what happens to its stream meanwhile. -/
inductive Operation where
  | header
  | body (s : Shape)
  | take
  | discard
  | arrive (piece : Bytes)
  | finish (e : Ending)

namespace Operation

/-- Whether the operation is about the pending body. -/
def isBody : Operation → Bool
  | .body _ | .take | .discard => true
  | _ => false

/-- Whether the operation is none of the reader, but something that happens to its stream. -/
def isArrival : Operation → Bool
  | .arrive _ | .finish _ => true
  | _ => false

end Operation

/-- The reader after an operation. -/
def perform (r : Reader) : Operation → Reader
  | .header => r.readHeader.2
  | .body s => (r.readBody s).2
  | .take => r.takeBody.2
  | .discard => r.discardBody
  | .arrive piece => r.arrive piece
  | .finish e => r.finish e

/-- The reader after some operations. -/
def after (r : Reader) (ops : List Operation) : Reader := ops.foldl perform r

/-- The bytes that an operation brings. -/
def brought (r : Reader) : Operation → Bytes
  | .arrive piece => if r.source.ending.isSome then [] else piece
  | _ => []

/-- The frames that an operation obtains. -/
def gained (r : Reader) : Operation → List Frame
  | .header => r.frame?.toList
  | _ => []

/-- The bytes that arrive during some operations. -/
def arriving (r : Reader) : List Operation → Bytes
  | [] => []
  | op :: ops => r.brought op ++ arriving (r.perform op) ops

/-- The frames that some operations obtain, one after another. -/
def obtained (r : Reader) : List Operation → List Frame
  | [] => []
  | op :: ops => r.gained op ++ obtained (r.perform op) ops

variable {op : Operation} {ops : List Operation}

theorem after_concat (r : Reader) (ops : List Operation) (op : Operation) :
    r.after (ops ++ [op]) = (r.after ops).perform op := by
  rw [after, List.foldl_concat]
  rfl

/-- What is done with the body, in the end it has been used up or was not there. -/
theorem perform_of_isBody (hop : op.isBody = true) (r : Reader) : r.perform op = r.discardBody := by
  have htake : r.takeBody.2 = r.discardBody := by
    obtain ⟨codec, source, decoder, pending⟩ := r
    cases pending <;> rfl
  cases op with
  | body s =>
    rw [perform, readBody, ← htake]
    split <;> rename_i heq <;> rw [heq]
  | take => exact htake
  | discard => rfl
  | header | arrive piece | finish e => cases hop

@[simp]
theorem codec_perform (r : Reader) (op : Operation) : (r.perform op).codec = r.codec := by
  cases op with
  | header => exact r.codec_readHeader
  | body s => rw [perform_of_isBody rfl]; rfl
  | take => rw [perform_of_isBody rfl]; rfl
  | discard => rfl
  | arrive piece => rfl
  | finish e => rfl

@[simp]
theorem codec_after (r : Reader) (ops : List Operation) : (r.after ops).codec = r.codec := by
  induction ops generalizing r with
  | nil => rfl
  | cons op ops ih => exact (ih (r.perform op)).trans (r.codec_perform op)

/-! ## The frames of the stream -/

/-- **One operation**: the frames ahead are the one that it obtains, if it obtains one, and those
that are ahead then. -/
theorem frames_perform (r : Reader) (op : Operation) (t : Bytes) :
    Frame.frames (r.bytes ++ (r.brought op ++ t)) =
      r.gained op ++ Frame.frames ((r.perform op).bytes ++ t) := by
  have idle : ∀ {r' : Reader}, r'.bytes = r.bytes →
      Frame.frames (r.bytes ++ ([] ++ t)) = [] ++ Frame.frames (r'.bytes ++ t) := by
    intro r' hbytes
    rw [hbytes]
    rfl
  cases op with
  | header =>
    rw [perform, bytes_readHeader, gained, frame?_eq]
    exact Frame.frames_append r.bytes t
  | arrive piece =>
    rw [perform, bytes_arrive, List.append_assoc]
    rfl
  | finish e => exact idle (bytes_finish r e)
  | body s =>
    rw [perform_of_isBody rfl]
    exact idle rfl
  | take =>
    rw [perform_of_isBody rfl]
    exact idle rfl
  | discard => exact idle rfl

/-- **The frames of a stream** are those that some operations obtain from its front, and those that
are ahead then, whatever arrives later. -/
theorem frames_after (r : Reader) (ops : List Operation) (t : Bytes) :
    Frame.frames (r.bytes ++ r.arriving ops ++ t) =
      r.obtained ops ++ Frame.frames ((r.after ops).bytes ++ t) := by
  induction ops generalizing r with
  | nil =>
    rw [arriving, List.append_nil]
    rfl
  | cons op ops ih =>
    rw [arriving, obtained, List.append_assoc, List.append_assoc, frames_perform,
      ← List.append_assoc (r.perform op).bytes, ih, List.append_assoc]
    rfl

/-- The next frame stands in the stream behind those that have been obtained. -/
theorem getElem?_obtained (hframe : (r.after ops).frame? = some f) (t : Bytes) :
    (Frame.frames (r.bytes ++ r.arriving ops ++ t))[(r.obtained ops).length]? = some f := by
  rw [frame?_eq] at hframe
  rw [frames_after, List.getElem?_append_right (Nat.le_refl _), Nat.sub_self, Frame.frames_append,
    hframe]
  rfl

/-! ## Bodies -/

/-- **A body is there.** The last header was read from the given frame, and only the stream has been
going on since. -/
def Behind (r : Reader) (ops : List Operation) (f : Frame) : Prop :=
  ∃ before idle h, ops = before ++ .header :: idle ∧ (∀ op ∈ idle, op.isArrival = true) ∧
    (r.after before).frame? = some f ∧ Header.decode r.codec f.header = .ok h

theorem behind_concat_header : r.Behind (ops ++ [.header]) f ↔
    (r.after ops).frame? = some f ∧ ∃ h, Header.decode r.codec f.header = .ok h := by
  constructor
  · rintro ⟨before, idle, h, hops, hidle, hframe, hheader⟩
    rcases List.eq_nil_or_concat idle with rfl | ⟨idle, op, rfl⟩
    · obtain ⟨rfl, -⟩ := List.append_inj' hops rfl
      exact ⟨hframe, h, hheader⟩
    · rw [List.concat_eq_append, ← List.cons_append, ← List.append_assoc] at hops
      obtain ⟨-, hop⟩ := List.append_inj' hops rfl
      cases hop
      cases hidle .header (by simp)
  · rintro ⟨hframe, h, hheader⟩
    exact ⟨ops, [], h, rfl, by simp, hframe, hheader⟩

theorem behind_concat (hop : op ≠ .header) :
    r.Behind (ops ++ [op]) f ↔ op.isArrival = true ∧ r.Behind ops f := by
  constructor
  · rintro ⟨before, idle, h, hops, hidle, hframe, hheader⟩
    rcases List.eq_nil_or_concat idle with rfl | ⟨idle, op', rfl⟩
    · obtain ⟨-, hlast⟩ := List.append_inj' hops rfl
      exact absurd (List.singleton_inj.mp hlast) hop
    · rw [List.concat_eq_append, ← List.cons_append, ← List.append_assoc] at hops
      obtain ⟨rfl, hlast⟩ := List.append_inj' hops rfl
      obtain rfl := List.singleton_inj.mp hlast
      refine ⟨hidle _ (by simp), before, idle, h, rfl, ?_, hframe, hheader⟩
      intro op' hop'
      exact hidle op' (by simp [hop'])
  · rintro ⟨harrival, before, idle, h, rfl, hidle, hframe, hheader⟩
    refine ⟨before, idle ++ [op], h, by simp, ?_, hframe, hheader⟩
    intro op' hop'
    rcases List.mem_append.mp hop' with hop' | hop'
    · exact hidle op' hop'
    · rw [List.mem_singleton.mp hop']
      exact harrival

/-- **The pending body** is that of the frame whose header was read last, as long as nothing has
been done since. -/
theorem pending_after (hr : r.pending = none) {body : Bytes} :
    (r.after ops).pending = some body ↔ ∃ f, r.Behind ops f ∧ f.body = body := by
  induction ops using List.reverseRecOn generalizing body with
  | nil =>
    constructor
    · intro h
      cases hr.symm.trans h
    · rintro ⟨f, ⟨before, idle, h, hops, -⟩, -⟩
      cases before <;> cases hops
  | append_singleton ops op ih =>
    rw [after_concat]
    -- a body is used up by any operation on it, and stays while the stream goes on
    have used : op.isBody = true →
        (((r.after ops).perform op).pending = some body ↔
          ∃ f, r.Behind (ops ++ [op]) f ∧ f.body = body) := by
      intro hop
      have hpending : ((r.after ops).perform op).pending = none := by
        rw [perform_of_isBody hop]
        rfl
      rw [hpending]
      constructor
      · exact nofun
      · rintro ⟨f, hbehind, -⟩
        rw [behind_concat (by rintro rfl; cases hop)] at hbehind
        cases op <;> simp [Operation.isBody, Operation.isArrival] at hop hbehind
    cases op with
    | header =>
      rw [perform, pending_readHeader, codec_after]
      constructor
      · rintro ⟨f, h, hframe, hheader, hbody⟩
        exact ⟨f, behind_concat_header.mpr ⟨hframe, h, hheader⟩, hbody⟩
      · rintro ⟨f, hbehind, hbody⟩
        obtain ⟨hframe, h, hheader⟩ := behind_concat_header.mp hbehind
        exact ⟨f, h, hframe, hheader, hbody⟩
    | arrive piece =>
      have hop : Operation.arrive piece ≠ .header := nofun
      simp only [behind_concat hop, Operation.isArrival, true_and]
      exact ih
    | finish e =>
      have hop : Operation.finish e ≠ .header := nofun
      simp only [behind_concat hop, Operation.isArrival, true_and]
      exact ih
    | body s => exact used rfl
    | take => exact used rfl
    | discard => exact used rfl

/-! ## Bodies and headers -/

/-- The pending body has no part in what an operation does to the rest of a reader. -/
theorem discardBody_perform (hop : op.isBody = false) (hsame : r.discardBody = r'.discardBody) :
    (r.perform op).discardBody = (r'.perform op).discardBody := by
  obtain ⟨codec, source, decoder, pending⟩ := r
  obtain ⟨codec', source', decoder', pending'⟩ := r'
  simp only [discardBody, mk.injEq, and_true] at hsame
  obtain ⟨rfl, rfl, rfl⟩ := hsame
  cases op with
  | header => rfl
  | arrive piece => rfl
  | finish e => rfl
  | body s => cases hop
  | take => cases hop
  | discard => cases hop

/-- What is done with the bodies can be left out, up to the pending body. -/
theorem discardBody_after (ops : List Operation) (hsame : r.discardBody = r'.discardBody) :
    (r.after ops).discardBody = (r'.after (ops.filter fun op => !op.isBody)).discardBody := by
  induction ops generalizing r r' with
  | nil => exact hsame
  | cons op ops ih =>
    cases hop : op.isBody with
    | true =>
      rw [List.filter_cons_of_neg (by simp [hop])]
      refine ih (r := r.perform op) ?_
      rw [perform_of_isBody hop]
      exact hsame
    | false =>
      rw [List.filter_cons_of_pos (by simp [hop])]
      show ((r.perform op).after ops).discardBody = ((r'.perform op).after _).discardBody
      exact ih (discardBody_perform hop hsame)

/-- **It makes no difference for the headers what is done with the bodies.** -/
theorem readHeader_after (r : Reader) (ops : List Operation) :
    (r.after ops).readHeader = (r.after (ops.filter fun op => !op.isBody)).readHeader :=
  calc (r.after ops).readHeader = (r.after ops).discardBody.readHeader := rfl
    _ = (r.after (ops.filter fun op => !op.isBody)).discardBody.readHeader :=
        congrArg readHeader (discardBody_after ops rfl)
    _ = (r.after (ops.filter fun op => !op.isBody)).readHeader := rfl

/-! ## All of it -/

/-- **What it means to follow the frames of a stream**, for a reader on which some operations have
been performed. -/
structure Follows (r : Reader) (ops : List Operation) : Prop where
  /-- the frames obtained are those at the front of the stream, and the others are ahead -/
  frames : ∀ t, Frame.frames (r.bytes ++ r.arriving ops ++ t) =
    r.obtained ops ++ Frame.frames ((r.after ops).bytes ++ t)
  /-- a frame is obtained where there is one -/
  obtains : ∀ f, (r.after ops).frame? = some f ↔
    (Frame.decode (r.after ops).bytes).1 = .ok (some f)
  /-- it is the next one of the stream, and its header is given, or why it cannot be decoded -/
  header : ∀ f, (r.after ops).frame? = some f → (r.after ops).readHeader.1 = heading r.codec f ∧
    ∀ t, (Frame.frames (r.bytes ++ r.arriving ops ++ t))[(r.obtained ops).length]? = some f
  /-- where none is obtained, there is no header -/
  without : (r.after ops).frame? = none → ∀ h, (r.after ops).readHeader.1 ≠ .got h
  /-- a body is taken where there is one, and it is the one of its frame -/
  taken : ∀ body, (r.after ops).takeBody.1 = .ok body ↔ ∃ f, r.Behind ops f ∧ f.body = body
  read : ∀ s f, r.Behind ops f → ((r.after ops).readBody s).1 = r.codec.decode s f.body
  /-- a body is missing where there is none -/
  untaken : (r.after ops).takeBody.1 = .error .noPendingBody ↔ ¬ ∃ f, r.Behind ops f
  unread : ∀ s, ((r.after ops).readBody s).1 = .error .noPendingBody ↔ ¬ ∃ f, r.Behind ops f
  /-- no operation on a body changes what is read later -/
  indifferent : ∀ ops' : List Operation,
    (ops'.filter fun op => !op.isBody) = (ops.filter fun op => !op.isBody) →
    (r.after ops').readHeader.1 = (r.after ops).readHeader.1

theorem readHeader_ne_got (hnone : r.frame? = none) (h : Header) : r.readHeader.1 ≠ .got h := by
  intro hgot
  have hread : r.readHeader = (.got h, r.readHeader.2) := Prod.ext hgot rfl
  obtain ⟨body, hnext, -⟩ := readHeader_got hread
  obtain ⟨f, hframe, -⟩ := Message.next?_eq_some.mp hnext
  rw [frame?_eq, hframe] at hnone
  cases hnone

theorem fst_takeBody (r : Reader) :
    r.takeBody.1 = match r.pending with
      | some body => .ok body
      | none => .error .noPendingBody := by
  obtain ⟨codec, source, decoder, pending⟩ := r
  cases pending <;> rfl

theorem fst_readBody (r : Reader) (s : Shape) :
    (r.readBody s).1 = match r.pending with
      | some body => r.codec.decode s body
      | none => .error .noPendingBody := by
  obtain ⟨codec, source, decoder, pending⟩ := r
  cases pending <;> rfl

/-- **A reader follows the frames of its stream**, whatever is done with it. -/
theorem follows (hr : r.pending = none) (ops : List Operation) : r.Follows ops := by
  have hpending : ∀ {body : Bytes}, (r.after ops).pending = some body ↔
      ∃ f, r.Behind ops f ∧ f.body = body := pending_after hr
  have hmissing : (r.after ops).pending = none ↔ ¬ ∃ f, r.Behind ops f := by
    constructor
    · rintro hnone ⟨f, hbehind⟩
      cases hnone.symm.trans (hpending.mpr ⟨f, hbehind, rfl⟩)
    · intro hnot
      apply Option.eq_none_iff_forall_ne_some.mpr
      intro body hsome
      obtain ⟨f, hbehind, -⟩ := hpending.mp hsome
      exact hnot ⟨f, hbehind⟩
  refine ⟨frames_after r ops, ?_, ?_, readHeader_ne_got, ?_, ?_, ?_, ?_, ?_⟩
  · intro f
    rw [frame?_eq]
    generalize (Frame.decode (r.after ops).bytes).1 = answer
    cases answer with
    | error e => simp [Frame.given?]
    | ok f? => simp [Frame.given?]
  · intro f hframe
    refine ⟨?_, getElem?_obtained hframe⟩
    rw [readHeader_of_frame hframe, codec_after]
  · intro body
    rw [← hpending, fst_takeBody]
    cases (r.after ops).pending <;> simp
  · intro s f hbehind
    rw [fst_readBody, hpending.mpr ⟨f, hbehind, rfl⟩, codec_after]
  · rw [← hmissing, fst_takeBody]
    cases (r.after ops).pending <;> simp
  · intro s
    rw [← hmissing, fst_readBody]
    cases (r.after ops).pending with
    | none => simp
    | some body => simpa using Codec.decode_ne_noPendingBody _ s body
  · intro ops' hsame
    rw [readHeader_after r ops', hsame, ← readHeader_after]

end Reader

end WireCall
