import WireCall.Json.Skip
import WireCall.Proofs.Json.Grammar

/-!
# A value is passed over exactly

The automaton that passes over a value stops right behind it, however deep it nests and whatever is
in it (`Json.Scan.skipValue_append`). What carries the proof is that with any brackets open, the
value takes the automaton from the mode in front of a value to the one behind it.
-/

namespace WireCall

namespace Json

namespace Skip

variable {stack : List Bracket} {top : Bracket} {mode : Mode} {b rest : Bytes}

/-! ## Single steps -/

theorem run_go {mode' : Mode} {stack' : List Bracket} {c : UInt8}
    (h : step mode stack c = .go mode' stack') (rest : Bytes) :
    run mode stack (c :: rest) = run mode' stack' rest := by
  rw [run, h]

/-- Behind the whole value nothing is taken. -/
theorem run_after_nil (rest : Bytes) : run .after [] rest = .ok rest := by
  cases rest <;> rfl

/-- A byte that ends a value leads behind it. -/
theorem run_complete {below : List Bracket} {c : UInt8} (h : step mode stack c = complete below)
    (rest : Bytes) : run mode stack (c :: rest) = run .after below rest := by
  rw [run, h]
  cases below with
  | nil => exact (run_after_nil rest).symm
  | cons => rfl

/-- Bytes that leave the automaton as it is. -/
theorem run_stay (h : ∀ c ∈ b, step mode stack c = .go mode stack) (rest : Bytes) :
    run mode stack (b ++ rest) = run mode stack rest := by
  induction b with
  | nil => rfl
  | cons c b ih =>
    rw [List.cons_append, run_go (h c List.mem_cons_self)]
    exact ih fun d hd => h d (List.mem_cons_of_mem c hd)

/-- Whether blanks may stand where the automaton is. -/
def Mode.takesBlanks : Mode → List Bracket → Bool
  | .value, _ | .name, _ | .colon, _ => true
  | .opened, _ :: _ | .after, _ :: _ => true
  | _, _ => false

theorem run_blanks (hmode : mode.takesBlanks stack = true) (hb : Blanks b) (rest : Bytes) :
    run mode stack (b ++ rest) = run mode stack rest := by
  refine run_stay (fun c hc => ?_) rest
  have hblank := hb c hc
  cases mode with
  | value | name | colon => simp [step, startValue, startName, hblank]
  | opened | after =>
    cases stack with
    | nil => cases hmode
    | cons top below => simp [step, afterValue, hblank]
  | _ => cases hmode

/-! ## Literals and numbers -/

theorem run_literal (hb : b ≠ []) (rest : Bytes) :
    run (.literal b) stack (b ++ rest) = run .after stack rest := by
  induction b with
  | nil => exact absurd rfl hb
  | cons c b ih =>
    cases b with
    | nil => exact run_complete (by simp [step]) rest
    | cons d b => exact (run_go (by simp [step]) _).trans (ih (List.cons_ne_nil d b))

/-- Whether a number may end where the automaton is. -/
def Mode.mayEnd : Mode → Bool
  | .zero | .integer | .fraction | .exponentDigits => true
  | _ => false

/-- Where a number may end, it ends in front of what does not go on like a number. -/
theorem run_stops (hmode : mode.mayEnd = true) (hrest : Stops rest) :
    run mode stack rest = run .after stack rest := by
  cases rest with
  | nil =>
    cases mode with
    | zero | integer | fraction | exponentDigits => rfl
    | _ => cases hmode
  | cons c rest =>
    obtain ⟨hdigit, hpoint, hsmall, hlarge⟩ := hrest c rfl
    have hstep : step mode stack c = step .after stack c := by
      cases mode with
      | zero | integer | fraction | exponentDigits =>
        simp [step, hdigit, hpoint, hsmall, hlarge]
      | _ => cases hmode
    rw [run, hstep, run]

/-- A digit first, and then any more of them. -/
theorem run_digits {m : Mode} {c : UInt8} {more : Bytes} (hfirst : step mode stack c = .go m stack)
    (hmore : ∀ d, isDigit d = true → step m stack d = .go m stack) (hdigits : AreDigits more)
    (rest : Bytes) : run mode stack (c :: (more ++ rest)) = run m stack rest :=
  (run_go hfirst _).trans (run_stay (fun d hd => hmore d (hdigits d hd)) rest)

/-- An exponent, if there is one, ends a number. -/
theorem run_exponent (hmode : mode = .zero ∨ mode = .integer ∨ mode = .fraction)
    (hb : IsExponent b) (hrest : Stops rest) :
    run mode stack (b ++ rest) = run .after stack rest := by
  cases hb with
  | none => exact run_stops (by rcases hmode with rfl | rfl | rfl <;> rfl) hrest
  | @some letter sign digits hletter hsign hsome hdigits =>
    obtain ⟨c, more, rfl⟩ := List.exists_cons_of_ne_nil hsome
    have hc : isDigit c = true := hdigits c List.mem_cons_self
    have hopen : step mode stack letter = .go .exponent stack := by
      rcases hmode with rfl | rfl | rfl <;> rcases hletter with rfl | rfl <;> rfl
    have hdigits' : ∀ m, (m = .exponent ∨ m = .exponentSign) →
        run m stack (c :: (more ++ rest)) = run .after stack rest := by
      intro m hm
      have hfirst : step m stack c = .go .exponentDigits stack := by
        have hplus : c ≠ 0x2b := ne_of_isDigit hc rfl
        have hminus : c ≠ 0x2d := ne_of_isDigit hc rfl
        rcases hm with rfl | rfl <;> simp [step, hc, hplus, hminus]
      rw [run_digits hfirst (fun d hd => by simp [step, hd])
        fun d hd => hdigits d (List.mem_cons_of_mem c hd)]
      exact run_stops rfl hrest
    rw [List.cons_append, run_go hopen]
    rcases hsign with rfl | rfl | rfl
    · exact hdigits' _ (.inl rfl)
    · exact (run_go rfl _).trans (hdigits' _ (.inr rfl))
    · exact (run_go rfl _).trans (hdigits' _ (.inr rfl))

/-- A fraction and an exponent, if there are any, end a number. -/
theorem run_fraction {fraction exponent : Bytes} (hmode : mode = .zero ∨ mode = .integer)
    (hfraction : IsFraction fraction) (hexponent : IsExponent exponent) (hrest : Stops rest) :
    run mode stack (fraction ++ (exponent ++ rest)) = run .after stack rest := by
  cases hfraction with
  | none => exact run_exponent (hmode.imp_right .inl) hexponent hrest
  | @some digits hsome hdigits =>
    obtain ⟨c, more, rfl⟩ := List.exists_cons_of_ne_nil hsome
    have hc : isDigit c = true := hdigits c List.mem_cons_self
    have hopen : step mode stack 0x2e = .go .point stack := by
      rcases hmode with rfl | rfl <;> rfl
    have hfirst : step .point stack c = .go .fraction stack := by simp [step, hc]
    rw [List.cons_append, run_go hopen, List.cons_append,
      run_digits hfirst (fun d hd => by simp [step, hd])
        fun d hd => hdigits d (List.mem_cons_of_mem c hd)]
    exact run_exponent (.inr (.inr rfl)) hexponent hrest

/-- A number is passed over. -/
theorem run_number (hb : IsNumber b) (hrest : Stops rest) :
    run .value stack (b ++ rest) = run .after stack rest := by
  obtain @⟨sign, whole, fraction, exponent, hsign, hwhole, hfraction, hexponent⟩ := hb
  have hwhole' : ∀ m, (m = .value ∨ m = .minus) →
      run m stack (whole ++ (fraction ++ (exponent ++ rest))) = run .after stack rest := by
    intro m hm
    cases hwhole with
    | zero =>
      have hopen : step m stack 0x30 = .go .zero stack := by rcases hm with rfl | rfl <;> rfl
      exact (run_go hopen _).trans (run_fraction (.inl rfl) hfraction hexponent hrest)
    | @digits c more hdigit hzero hmore =>
      have hopen : step m stack c = .go .integer stack := by
        have hletters : c ≠ 0x6e ∧ c ≠ 0x74 ∧ c ≠ 0x66 ∧ c ≠ 0x2d := by
          refine ⟨?_, ?_, ?_, ?_⟩ <;> exact ne_of_isDigit hdigit rfl
        rcases hm with rfl | rfl <;>
          simp [step, startValue, isBlank_of_isDigit hdigit, hletters, hzero, hdigit]
      rw [List.cons_append, run_digits hopen (fun d hd => by simp [step, hd]) hmore]
      exact run_fraction (.inr rfl) hfraction hexponent hrest
  simp only [List.append_assoc]
  rcases hsign with rfl | rfl
  · exact hwhole' _ (.inl rfl)
  · exact (run_go rfl _).trans (hwhole' _ (.inr rfl))

/-! ## Texts -/

/-- What may stand between quotes leaves the automaton between them. -/
theorem run_inside {w : Bytes} (h : Inside w) (isName : Bool) (rest : Bytes) :
    run (.text isName) stack (w ++ rest) = run (.text isName) stack rest := by
  induction h with
  | nil => rfl
  | plain hquote hbackslash hcontrol _ ih =>
    exact (run_go (by simp [step, hquote, hbackslash, hcontrol]) _).trans ih
  | @escape e w he _ ih =>
    have hletter : e ≠ 0x75 := by
      rintro rfl
      cases he
    exact (run_go rfl _).trans ((run_go (by simp [step, hletter, he]) _).trans ih)
  | @unicode x₁ x₂ x₃ x₄ w hx _ ih =>
    have hdigits : (hexValue? x₁).isSome ∧ (hexValue? x₂).isSome ∧ (hexValue? x₃).isSome ∧
        (hexValue? x₄).isSome := by
      unfold hexQuad? at hx
      split at hx
      · rename_i h₁ h₂ h₃ h₄
        simp [h₁, h₂, h₃, h₄]
      · cases hx
    obtain ⟨h₁, h₂, h₃, h₄⟩ := hdigits
    have hhex : ∀ left x t, (hexValue? x).isSome →
        run (.hex isName (left + 2) true) stack (x :: t) =
          run (.hex isName (left + 1) true) stack t := fun left x t hx =>
      run_go (by simp [step, hx]) t
    have hlast : run (.hex isName 1 true) stack (x₄ :: (w ++ rest)) =
        run (.text isName) stack (w ++ rest) := run_go (by simp [step, h₄]) _
    have hopen : step (.escape isName) stack 0x75 = .go (.hex isName 4 true) stack := rfl
    have hfour : ∀ t, run (.hex isName 4 true) stack (x₁ :: x₂ :: x₃ :: x₄ :: t) =
        run (.hex isName 1 true) stack (x₄ :: t) := fun t =>
      ((hhex 2 _ _ h₁).trans (hhex 1 _ _ h₂)).trans (hhex 0 _ _ h₃)
    exact (run_go rfl _).trans ((run_go hopen _).trans ((hfour _).trans (hlast.trans ih)))

theorem run_text {w : Bytes} (h : Inside w) (rest : Bytes) :
    run .value stack (enclosed w ++ rest) = run .after stack rest := by
  rw [enclosed, List.cons_append, List.append_assoc, run_go rfl, run_inside h]
  exact run_complete rfl rest

/-- The name of a member leads to the colon behind it. -/
theorem run_name (hmode : mode = .opened ∨ mode = .name) {w : Bytes} (h : Inside w) (rest : Bytes) :
    run mode (.object :: stack) (enclosed w ++ rest) = run .colon (.object :: stack) rest := by
  have hopen : step mode (.object :: stack) 0x22 = .go (.text true) (.object :: stack) := by
    rcases hmode with rfl | rfl <;> rfl
  rw [enclosed, List.cons_append, List.append_assoc, run_go hopen, run_inside h]
  exact run_go rfl rest

/-! ## Lists and objects -/

/-- **A text is passed** if it leads from in front of a value behind it. -/
def Passes (b : Bytes) : Prop :=
  ∀ stack rest, Stops rest → run .value stack (b ++ rest) = run .after stack rest

variable {α : Type} {text : α → Bytes} {l : List α} {close : UInt8} {blanks : Bytes}

/-- Behind an element or a member stands none of what goes on like a number. -/
theorem stops_more (hclose : top.isClose close = true) (hblanks : Blanks blanks) (rest : Bytes) :
    Stops (l.flatMap (fun a => 0x2c :: text a) ++ (blanks ++ close :: rest)) := by
  cases l with
  | nil =>
    rw [List.flatMap_nil, List.nil_append]
    refine Stops.of_blanks hblanks ?_
    cases top <;> obtain rfl := of_decide_eq_true hclose <;>
      exact Stops.cons (by decide) (by decide) (by decide) (by decide) rest
  | cons a l => exact Stops.cons (by decide) (by decide) (by decide) (by decide) _

/-- Elements or members behind the first one, up to the end of the list or the object. -/
theorem run_more (hcomma : step .after (top :: stack) 0x2c = .go mode (top :: stack))
    (hclose : top.isClose close = true) (hblanks : Blanks blanks)
    (hitem : ∀ a ∈ l, ∀ rest, Stops rest →
      run mode (top :: stack) (text a ++ rest) = run .after (top :: stack) rest) (rest : Bytes) :
    run .after (top :: stack) (l.flatMap (fun a => 0x2c :: text a) ++ (blanks ++ close :: rest)) =
      run .after stack rest := by
  induction l with
  | nil =>
    refine (run_blanks rfl hblanks _).trans (run_complete ?_ rest)
    cases top <;> obtain rfl := of_decide_eq_true hclose <;> rfl
  | cons a l ih =>
    rw [List.flatMap_cons, List.cons_append, List.cons_append, run_go hcomma, List.append_assoc,
      hitem a List.mem_cons_self _ (stops_more hclose hblanks rest)]
    exact ih fun b hb => hitem b (List.mem_cons_of_mem a hb)

/-- What is inside of a list or an object is passed with its end. -/
theorem run_opened (hcomma : step .after (top :: stack) 0x2c = .go mode (top :: stack))
    (hclose : top.isClose close = true) (hblanks : Blanks blanks)
    (hitem : ∀ a ∈ l, ∀ m, (m = .opened ∨ m = mode) → ∀ rest, Stops rest →
      run m (top :: stack) (text a ++ rest) = run .after (top :: stack) rest) (rest : Bytes) :
    run .opened (top :: stack) (joinComma (l.map text) ++ (blanks ++ close :: rest)) =
      run .after stack rest := by
  cases l with
  | nil =>
    refine (run_blanks rfl hblanks _).trans (run_complete ?_ rest)
    cases top <;> obtain rfl := of_decide_eq_true hclose <;> rfl
  | cons a l =>
    rw [joinComma_cons, List.append_assoc,
      hitem a List.mem_cons_self _ (.inl rfl) _ (stops_more hclose hblanks rest)]
    exact run_more hcomma hclose hblanks
      (fun b hb => hitem b (List.mem_cons_of_mem a hb) _ (.inr rfl)) rest

/-- A value between blanks is passed inside of a list or an object. -/
theorem run_padded {p : Padded} (hp : Passes p.value) (hrest : Stops rest) :
    run .value (top :: stack) (p.text ++ rest) = run .after (top :: stack) rest := by
  rw [Padded.text, List.append_assoc, List.append_assoc, run_blanks rfl p.blanks_front,
    hp _ _ (Stops.of_blanks p.blanks_back hrest), run_blanks rfl p.blanks_back]

/-- The first element of a list is passed as the others are. -/
theorem run_first {p : Padded} (h : IsValue p.value) (hp : Passes p.value) (hrest : Stops rest) :
    run .opened (.list :: stack) (p.text ++ rest) = run .after (.list :: stack) rest := by
  obtain ⟨c, more, hcons, hblank, hclose⟩ := h.exists_cons
  have hstart : step .opened (.list :: stack) c = step .value (.list :: stack) c := by
    simp [step, hblank, Bracket.isClose, hclose]
  have hsame : ∀ t, run .opened (.list :: stack) (p.value ++ t) =
      run .value (.list :: stack) (p.value ++ t) := by
    intro t
    rw [hcons, List.cons_append, run, hstart, run]
  rw [Padded.text, List.append_assoc, List.append_assoc, run_blanks rfl p.blanks_front, hsame,
    hp _ _ (Stops.of_blanks p.blanks_back hrest), run_blanks rfl p.blanks_back]

theorem run_member (hmode : mode = .opened ∨ mode = .name) {m : Member}
    (hm : Passes m.value.value) (hrest : Stops rest) :
    run mode (.object :: stack) (m.text ++ rest) = run .after (.object :: stack) rest := by
  have hblanks : mode.takesBlanks (.object :: stack) = true := by
    rcases hmode with rfl | rfl <;> rfl
  rw [Member.text, List.append_assoc, List.append_assoc, List.append_assoc,
    run_blanks hblanks m.blanks_before, run_name hmode m.inside, run_blanks rfl m.blanks_between,
    List.cons_append, run_go rfl, run_padded hm hrest]

/-! ## All values -/

/-- **Every value is passed**, by induction on how it is built up. -/
theorem passes {b : Bytes} (h : IsValue b) : Passes b := by
  induction h with
  | null => exact fun stack rest _ => (run_go rfl _).trans (run_literal (by simp) rest)
  | bool x =>
    intro stack rest _
    cases x with
    | false => exact (run_go rfl _).trans (run_literal (by simp) rest)
    | true => exact (run_go rfl _).trans (run_literal (by simp) rest)
  | number h => exact fun stack rest hrest => run_number h hrest
  | text h => exact fun stack rest _ => run_text h rest
  | @list items blanks hblanks hitems ih =>
    intro stack rest _
    rw [arrayText, List.cons_append, List.append_assoc, List.append_assoc, run_go rfl]
    have hcomma : step .after (.list :: stack) 0x2c = .go .value (.list :: stack) := rfl
    refine run_opened hcomma rfl hblanks ?_ rest
    rintro p hp m (rfl | rfl) rest hrest
    · exact run_first (hitems p hp) (ih p hp) hrest
    · exact run_padded (ih p hp) hrest
  | @object members blanks hblanks hmembers ih =>
    intro stack rest _
    rw [memberText, List.cons_append, List.append_assoc, List.append_assoc, run_go rfl]
    have hcomma : step .after (.object :: stack) 0x2c = .go .name (.object :: stack) := rfl
    exact run_opened hcomma rfl hblanks
      (fun m hm mode hmode rest hrest => run_member hmode (ih m hm) hrest) rest

end Skip

/-- **A value is passed over exactly**, with the blanks in front of it and whatever follows it. -/
theorem Scan.skipValue_append {front b rest : Bytes} (hfront : Blanks front) (h : IsValue b)
    (hrest : Stops rest) : Scan.skipValue (front ++ (b ++ rest)) = .ok ((), rest) := by
  rw [Scan.skipValue, Skip.run_blanks rfl hfront, Skip.passes h [] rest hrest, Skip.run_after_nil]

end Json

end WireCall
