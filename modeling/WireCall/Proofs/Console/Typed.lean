import Mathlib.Data.List.Forall2
import Mathlib.Data.List.TakeWhile
import WireCall.Console

/-!
# Calls that are typed in

A call can be typed in with the word `call` in front, in capitals or not and in full or not, or
without it. Behind each word there is a gap, which may be any blanks. What is done about such a line
is said by `Console.exchange`, and depends neither on the word nor on the gaps
(`Console.answer_call`): the method is the one that is named, and the argument is the text behind it
without the blanks around it. A method is never taken for a command, as no command has a dot.
-/

namespace WireCall

namespace Text

/-! ## Trimmed texts -/

/-- Whether a text is made of blanks, or empty. -/
def AllBlank (cs : List Char) : Prop := ∀ c ∈ cs, isBlank c = true

instance : DecidablePred AllBlank := fun cs => List.decidableBAll (fun c => isBlank c = true) cs

theorem allBlank_nil : AllBlank [] := List.forall_mem_nil _

/-- Whether a text has no blanks. -/
def IsWord (cs : List Char) : Prop := ∀ c ∈ cs, isBlank c = false

instance : DecidablePred IsWord := fun cs => List.decidableBAll (fun c => isBlank c = false) cs

/-- **A text with nothing to trim**, and not an empty one. -/
structure Bare (cs : List Char) : Prop where
  first : ∃ c rest, cs = c :: rest ∧ isBlank c = false
  last : ∃ front c, cs = front ++ [c] ∧ isBlank c = false

variable {cs front text back : List Char}

/-- What starts with a word and ends with a bare text is bare. -/
theorem Bare.append (h : Bare text) {word : List Char} (hne : word ≠ [])
    (hword : IsWord word) (between : List Char) :
    Bare (word ++ (between ++ text)) := by
  obtain ⟨c, rest, rfl⟩ := List.exists_cons_of_ne_nil hne
  obtain ⟨front, last, rfl, hlast⟩ := h.last
  refine ⟨⟨c, _, rfl, hword c List.mem_cons_self⟩, c :: rest ++ (between ++ front), last, ?_, hlast⟩
  simp only [List.append_assoc]

/-- **Trimming leaves a bare text** of which only blanks have been taken away. -/
theorem trimmed_of_bare (hfront : AllBlank front) (h : Bare text) (hback : AllBlank back) :
    trimmed (front ++ (text ++ back)) = text := by
  obtain ⟨c, rest, hcons, hc⟩ := h.first
  obtain ⟨most, last, hlast, hblank⟩ := h.last
  have hthere : trimmedFront (text ++ back) = text ++ back := by
    rw [hcons, List.cons_append, trimmedFront_of_not_blank _ hc]
  have hreverse : text.reverse = last :: most.reverse := by
    rw [hlast, List.reverse_append]
    rfl
  have hbackward : AllBlank back.reverse := fun c hc => hback c (List.mem_reverse.mp hc)
  rw [trimmed, trimmedFront_append _ hfront, hthere, trimmedBack, List.reverse_append,
    trimmedFront_append _ hbackward, hreverse, trimmedFront_of_not_blank _ hblank, ← hreverse,
    List.reverse_reverse]

/-- Some blanks, and then something else. -/
theorem exists_first (h : ¬ AllBlank cs) :
    ∃ front c rest, cs = front ++ c :: rest ∧ AllBlank front ∧ isBlank c = false := by
  have hfound : (cs.find? fun c => !isBlank c).isSome := by
    simpa [List.find?_isSome, AllBlank] using h
  obtain ⟨c, hc⟩ := Option.isSome_iff_exists.mp hfound
  obtain ⟨hc, front, rest, hsplit, hfront⟩ := List.find?_eq_some_iff_append.mp hc
  exact ⟨front, c, rest, hsplit, by simpa [AllBlank] using hfront, by simpa using hc⟩

/-- **A text that is not blank** is a bare one with blanks around it. -/
theorem exists_bare (h : ¬ AllBlank cs) :
    ∃ front text back, cs = front ++ (text ++ back) ∧ AllBlank front ∧ Bare text ∧
      AllBlank back := by
  obtain ⟨front, c, rest, rfl, hfront, hc⟩ := exists_first h
  have hthere : ¬ AllBlank (c :: rest).reverse := fun hblank =>
    Bool.false_ne_true (hc.symm.trans (hblank c (by simp)))
  obtain ⟨back, d, most, hreverse, hback, hd⟩ := exists_first hthere
  have hsplit : c :: rest = most.reverse ++ [d] ++ back.reverse := by
    rw [← List.reverse_reverse (c :: rest), hreverse]
    simp
  have hfirst : ∃ rest', most.reverse ++ [d] = c :: rest' := by
    cases hmost : most.reverse ++ [d] with
    | nil => simp at hmost
    | cons x rest' =>
      rw [hmost] at hsplit
      exact ⟨rest', by rw [(List.cons.inj hsplit).1]⟩
  obtain ⟨rest', hfirst⟩ := hfirst
  refine ⟨front, most.reverse ++ [d], back.reverse, by rw [hsplit], hfront,
    ⟨⟨c, rest', hfirst, hc⟩, _, d, rfl, hd⟩, ?_⟩
  exact fun x hx => hback x (List.mem_reverse.mp hx)

/-! ## Gaps -/

/-- Whether a text can stand between two words. -/
structure IsGap (cs : List Char) : Prop where
  ne_nil : cs ≠ []
  blank : AllBlank cs

instance : DecidablePred IsGap := fun cs =>
  decidable_of_iff (cs ≠ [] ∧ AllBlank cs) ⟨fun h => ⟨h.1, h.2⟩, fun h => ⟨h.ne_nil, h.blank⟩⟩

variable {gap word : List Char}

theorem IsGap.append (h : IsGap gap) (hfront : AllBlank front) : IsGap (gap ++ front) := by
  refine ⟨List.append_ne_nil_of_left_ne_nil h.ne_nil front, ?_⟩
  exact List.forall_mem_append.mpr ⟨h.blank, hfront⟩

/-- **A word is cut off** at the gap behind it, of which some blanks may be left. -/
theorem IsGap.splitBlank? (h : IsGap gap) (hword : IsWord word) (rest : List Char) :
    ∃ tail, AllBlank tail ∧
      splitBlank? (word ++ (gap ++ rest)) = some (word, tail ++ rest) := by
  obtain ⟨c, tail, rfl⟩ := List.exists_cons_of_ne_nil h.ne_nil
  obtain ⟨hc, htail⟩ := List.forall_mem_cons.mp h.blank
  exact ⟨tail, htail, splitBlank?_append (tail ++ rest) hword hc⟩

end Text

namespace Console

open Text (AllBlank Bare IsGap IsWord isBlank)

namespace Typed

variable {front text back gap word method : List Char}

/-! ## The words of a line -/

/-- The argument that stands behind a gap. -/
theorem argument_of_bare (hfront : AllBlank front) (h : Bare text) :
    argument (front ++ text) = .ofText text := by
  have htrimmed : Text.trimmed (front ++ text) = text := by
    simpa using Text.trimmed_of_bare hfront h Text.allBlank_nil
  obtain ⟨c, rest, hcons, -⟩ := h.first
  rw [argument, htrimmed, hcons]

/-- **The first word of a line** is what stands in front of the first gap. -/
theorem ofLine?_words (hne : word ≠ []) (hword : IsWord word) (hgap : IsGap gap) (h : Bare text)
    (hback : AllBlank back) :
    ofLine? (String.ofList (word ++ (gap ++ (text ++ back)))) = some (ofWords word text) := by
  have hline : Text.trimmed (word ++ (gap ++ (text ++ back))) = word ++ (gap ++ text) := by
    have := Text.trimmed_of_bare Text.allBlank_nil (h.append hne hword gap) hback
    simpa using this
  obtain ⟨tail, htail, hsplit⟩ := hgap.splitBlank? hword text
  have hrest : Text.trimmed (tail ++ text) = text := by
    simpa using Text.trimmed_of_bare htail h Text.allBlank_nil
  rw [ofLine?, String.toList_ofList, hline]
  split
  · rename_i hnone
    exact absurd (List.append_eq_nil_iff.mp hnone).1 hne
  · simp only [hsplit, hrest]

/-! ## Commands -/

/-- Whether a word is a name of which some letters may be capitals. -/
def Capitalises (word name : List Char) : Prop :=
  List.Forall₂ (fun c d => c = d ∨ c = d.toUpper) word name

/-- Whether a character is a small letter and can be capitalised. -/
def IsSmall (d : Char) : Prop :=
  d.toLower = d ∧ d.toUpper.toLower = d ∧ isBlank d = false ∧ isBlank d.toUpper = false

instance : DecidablePred IsSmall := fun _ => inferInstanceAs (Decidable (_ ∧ _ ∧ _ ∧ _))

theorem Capitalises.lower {name : List Char} (h : Capitalises word name)
    (hname : ∀ d ∈ name, IsSmall d) :
    word.map Char.toLower = name ∧ IsWord word := by
  induction h with
  | nil => exact ⟨rfl, List.forall_mem_nil _⟩
  | @cons c d word name hc _ ih =>
    obtain ⟨⟨hsmall, hcapital, hblank, hblank'⟩, hname⟩ := List.forall_mem_cons.mp hname
    obtain ⟨hmap, hword⟩ := ih hname
    rw [List.map_cons, hmap, IsWord, List.forall_mem_cons]
    rcases hc with rfl | rfl
    · exact ⟨by rw [hsmall], hblank, hword⟩
    · exact ⟨by rw [hcapital], hblank', hword⟩

/-- **The word for a call**, in full or not, and in capitals or not. -/
def IsCallWord (word : List Char) : Prop :=
  Capitalises word "call".toList ∨ Capitalises word "c".toList

theorem IsCallWord.lower (h : IsCallWord word) :
    (word.map Char.toLower = "call".toList ∨ word.map Char.toLower = "c".toList) ∧
      IsWord word := by
  have hsmall : IsSmall 'c' ∧ IsSmall 'a' ∧ IsSmall 'l' := by decide
  rcases h with h | h
  · obtain ⟨hlower, hword⟩ := h.lower (by simp [hsmall])
    exact ⟨.inl hlower, hword⟩
  · obtain ⟨hlower, hword⟩ := h.lower (by simp [hsmall])
    exact ⟨.inr hlower, hword⟩

theorem IsCallWord.builtin? (h : IsCallWord word) (rest : List Char) :
    builtin? word rest = some (callOf rest) := by
  rcases h.lower.1 with hlower | hlower
  · simp only [Typed.builtin?, hlower, String.ofList_toList]
  · simp only [Typed.builtin?, hlower, String.ofList_toList]

/-- **A word with a dot is no command.** -/
theorem builtin?_eq_none (hdot : '.' ∈ word) (rest : List Char) : builtin? word rest = none := by
  have hlower : '.' ∈ (String.ofList (word.map Char.toLower)).toList := by
    rw [String.toList_ofList]
    exact List.mem_map.mpr ⟨'.', hdot, by decide⟩
  rw [builtin?]
  split
  any_goals
    rename_i heq
    rw [heq] at hlower
    exact absurd hlower (by decide)
  rfl

/-! ## The two forms of a call -/

variable {gap' : List Char}

theorem ofWords_method (hdot : '.' ∈ method) (h : Bare text) :
    ofWords method text = .call (String.ofList method) (.ofText text) := by
  rw [ofWords, builtin?_eq_none hdot]
  exact (if_pos hdot).trans (congrArg _ (argument_of_bare Text.allBlank_nil h))

/-- **A method in front** is called with the argument behind it. -/
theorem ofLine?_method (hmethod : IsWord method) (hdot : '.' ∈ method) (hgap : IsGap gap)
    (hfront : AllBlank front) (h : Bare text) (hback : AllBlank back) :
    ofLine? (String.ofList (method ++ (gap ++ (front ++ (text ++ back))))) =
      some (.call (String.ofList method) (.ofText text)) := by
  rw [← List.append_assoc gap, ofLine?_words (List.ne_nil_of_mem hdot) hmethod
    (hgap.append hfront) h hback, ofWords_method hdot h]

/-- **A method behind the word for a call** is called with the argument behind it. -/
theorem ofLine?_call (hword : IsCallWord word) (hgap : IsGap gap) (hmethod : IsWord method)
    (hdot : '.' ∈ method) (hgap' : IsGap gap') (hfront : AllBlank front) (h : Bare text)
    (hback : AllBlank back) :
    ofLine? (String.ofList
        (word ++ (gap ++ (method ++ (gap' ++ (front ++ (text ++ back))))))) =
      some (.call (String.ofList method) (.ofText text)) := by
  have hne : word ≠ [] := by
    rintro rfl
    rcases hword.lower.1 with hlower | hlower <;> simp at hlower
  -- what stands behind the word has nothing to trim in front, and at its end what the text has
  have hbare : Bare (method ++ (gap' ++ front ++ text)) :=
    h.append (List.ne_nil_of_mem hdot) hmethod _
  have hline : word ++ (gap ++ (method ++ (gap' ++ (front ++ (text ++ back))))) =
      word ++ (gap ++ (method ++ (gap' ++ front ++ text) ++ back)) := by
    simp only [List.append_assoc]
  obtain ⟨tail, htail, hsplit⟩ := (hgap'.append hfront).splitBlank? hmethod text
  rw [hline, ofLine?_words hne hword.lower.2 hgap hbare hback, ofWords, hword.builtin?, callOf,
    hsplit]
  simp only [argument_of_bare htail h]

end Typed

/-! ## What is done about a call -/

section Exchange

variable {m : Type → Type} [Monad m]

/-- The bytes of an argument, which are in a file if there is an at sign in front. -/
def argumentBytes (h : Host m) : List Char → m (Except Failure Bytes)
  | '@' :: path => do return (← h.readFile (String.ofList path)).mapError .io
  | text => pure (.ok (Bytes.ofText (String.ofList text)))

/-- What is put out about a call. -/
def outcomeText : Except Failure Json → String
  | .ok reply => prettyText reply ++ "\n\n"
  | .error e => "Error: " ++ e.message ++ "\n\n"

/-- **What is done about a call** with an argument in the given text: the value is read, the method
is called with it, and the reply, or what has gone wrong, is put out. -/
def exchange (h : Host m) (s : Session m) (codec : Codec) (method : String) (text : List Char) :
    m Bool := do
  let bytes ← argumentBytes h text
  let outcome ← match bytes.bind parse with
    | .error e => pure (.error e)
    | .ok value => do
      let reply ← s.call method ⟨.json, value⟩
      pure ((Client.decodeReply codec .json reply).mapError .call)
  h.print (outcomeText outcome)
  goesOn h s

variable [LawfulMonad m] (h : Host m) (s : Session m) (codec : Codec)

theorem load_ofText (text : List Char) :
    load h (.ofText text) = (fun bytes => bytes.bind parse) <$> argumentBytes h text := by
  unfold argumentBytes Argument.ofText
  split
  · simp only [load, map_bind, map_pure]
    refine bind_congr fun file => ?_
    cases file <;> simp [Except.bind, Except.mapError]
  · simp [load, Except.bind]

theorem answer_of_call {line method : String} {text : List Char}
    (hline : Typed.ofLine? line = some (.call method (.ofText text))) :
    answer h s codec line = exchange h s codec method text := by
  simp only [answer, hline, execute, call, load_ofText, exchange, bind_assoc, bind_map_left]
  refine bind_congr fun bytes => ?_
  cases bytes.bind parse with
  | error e => simp [Except.map, outcomeText]
  | ok value =>
    simp only [bind_assoc]
    refine bind_congr fun reply => ?_
    cases Client.decodeReply codec .json reply <;>
      simp [Except.map, Except.mapError, outcomeText, Failure.message]

/-- **The two forms of a call agree.** Let a line be made of a word for a call, a method and an
argument, with any gaps between them. The method has a dot and no blanks, and the argument is not
blank. Then on any host and session the same is done about the line as if the word and a gap were
left out: the method is called with what remains of the argument if the blanks at its ends are taken
away, or with what is in the file of that name. The method is never taken for a command. -/
theorem answer_call (word method argument gap gap' gap'' : String)
    (hword : Typed.IsCallWord word.toList) (hmethod : IsWord method.toList)
    (hdot : '.' ∈ method.toList) (hargument : ¬ AllBlank argument.toList) (hgap : IsGap gap.toList)
    (hgap' : IsGap gap'.toList) (hgap'' : IsGap gap''.toList) :
    answer h s codec (word ++ gap ++ method ++ gap' ++ argument) =
        answer h s codec (method ++ gap'' ++ argument) ∧
      (∃ front text back, argument.toList = front ++ (text ++ back) ∧ AllBlank front ∧
        Bare text ∧ AllBlank back ∧
        answer h s codec (method ++ gap'' ++ argument) = exchange h s codec method text) ∧
      ∀ rest, Typed.builtin? method.toList rest = none := by
  obtain ⟨front, text, back, hsplit, hfront, hbare, hback⟩ := Text.exists_bare hargument
  have hcall := Typed.ofLine?_call hword hgap hmethod hdot hgap' hfront hbare hback
  have hplain := Typed.ofLine?_method hmethod hdot hgap'' hfront hbare hback
  rw [← hsplit, String.ofList_toList] at hcall hplain
  have hlong : String.ofList (word.toList ++ (gap.toList ++ (method.toList ++ (gap'.toList ++
      argument.toList)))) = word ++ gap ++ method ++ gap' ++ argument :=
    String.toList_inj.mp (by simp)
  have hshort : String.ofList (method.toList ++ (gap''.toList ++ argument.toList)) =
      method ++ gap'' ++ argument :=
    String.toList_inj.mp (by simp)
  rw [hlong] at hcall
  rw [hshort] at hplain
  have hexchange := answer_of_call h s codec hplain
  refine ⟨(answer_of_call h s codec hcall).trans hexchange.symm, ?_, Typed.builtin?_eq_none hdot⟩
  exact ⟨front, text, back, hsplit, hfront, hbare, hback, hexchange⟩

end Exchange

/-- What is noted: the methods that are called and the texts that are printed, in their order, and
the arguments of the calls. -/
structure Notes where
  said : List String := []
  arguments : List Bytes := []

/-- A session that replies to a call with its argument and notes the method. -/
def echoing : Session (StateM Notes) where
  go method argument := do
    let notes ← get
    let text := (Codec.json.encode argument.shape argument.value).toOption.getD []
    set ({ said := notes.said ++ [method], arguments := notes.arguments ++ [text] } : Notes)
    return notes.arguments.length
  done n := do return .ok ((← get).arguments.getD n [])
  first _ := pure none
  isAvailable := pure true
  pendingCount := pure 0
  close := pure (.ok ())

/-- A host that notes what is printed; the same text is in all files. -/
def noting : Host (StateM Notes) where
  dial _ _ := pure (.ok echoing)
  readFile _ := pure (.ok (Bytes.ofText "[1,  \"a  b\"]\n"))
  eachLine _ := pure true
  print text := modify fun notes => { notes with said := notes.said ++ [text] }
  clock := pure 0

/-- Whether the dialogue goes on behind a line, and what is called and printed. -/
def noted (line : String) : Bool × List String :=
  ((answer noting echoing .json line).run {}).map id Notes.said

/-- An argument that is typed in, and one that is in a file, with unusual blanks. -/
theorem answer_call_echoed :
    noted "CaLL\u2003Foo.Sum\t\u00a0[1,  \"a  b\"]\u3000" =
        (true, ["Foo.Sum", "[\n  1,\n  \"a  b\"\n]\n\n"]) ∧
      noted "C  Foo.Sum\u2028 @a b " = (true, ["Foo.Sum", "[\n  1,\n  \"a  b\"\n]\n\n"]) := by
  have hfirst := answer_call noting echoing .json "CaLL" "Foo.Sum" "[1,  \"a  b\"]\u3000" "\u2003"
    "\t\u00a0" " " (.inl (by simp [Typed.Capitalises])) (by decide) (by decide) (by decide)
    (by decide) (by decide) (by decide)
  have hsecond := answer_call noting echoing .json "C" "Foo.Sum" "@a b " "  " "\u2028 " "\t"
    (.inr (by simp [Typed.Capitalises])) (by decide) (by decide) (by decide) (by decide)
    (by decide) (by decide)
  refine ⟨(congrArg (fun answered => (StateT.run answered {}).map id Notes.said) hfirst.1).trans ?_,
    (congrArg (fun answered => (StateT.run answered {}).map id Notes.said) hsecond.1).trans ?_⟩
  · decide +kernel
  · decide +kernel

end Console

end WireCall
