/-!
# Blanks

The characters that leave a place empty: the white space of Unicode. A text is *trimmed* of the
blanks at both of its ends, and cut in two at the first blank in it.

Cutting finds a first word again (`splitBlank?_append`), and blanks in front of a text make no
difference when it is trimmed (`trimmedFront_append`).
-/

namespace WireCall

namespace Text

/-- Whether a character leaves a place empty. -/
def isBlank (c : Char) : Bool :=
  let n := c.toNat
  (0x09 ≤ n && n ≤ 0x0d) || n = 0x20 || n = 0x85 || n = 0xa0 || n = 0x1680
    || (0x2000 ≤ n && n ≤ 0x200a) || n = 0x2028 || n = 0x2029 || n = 0x202f || n = 0x205f
    || n = 0x3000

/-- A text without the blanks in front. -/
def trimmedFront (cs : List Char) : List Char := cs.dropWhile isBlank

/-- A text without the blanks at its end. -/
def trimmedBack (cs : List Char) : List Char := (trimmedFront cs.reverse).reverse

/-- A text without the blanks at both ends. -/
def trimmed (cs : List Char) : List Char := trimmedBack (trimmedFront cs)

/-- What stands before and behind the first blank. -/
def splitBlank? : List Char → Option (List Char × List Char)
  | [] => none
  | c :: rest =>
    if isBlank c then some ([], rest)
    else (splitBlank? rest).map fun p => (c :: p.1, p.2)

/-- A word is cut off again, whatever follows the blank behind it. -/
theorem splitBlank?_append {word : List Char} {c : Char} (rest : List Char)
    (hword : ∀ d ∈ word, isBlank d = false) (hc : isBlank c = true) :
    splitBlank? (word ++ c :: rest) = some (word, rest) := by
  induction word with
  | nil => simp [splitBlank?, hc]
  | cons d word ih =>
    simp only [List.mem_cons, forall_eq_or_imp] at hword
    simp [splitBlank?, hword.1, ih hword.2]

theorem trimmedFront_of_not_blank {c : Char} (rest : List Char) (hc : isBlank c = false) :
    trimmedFront (c :: rest) = c :: rest := by
  simp [trimmedFront, hc]

/-- Blanks in front make no difference. -/
theorem trimmedFront_append {blanks : List Char} (cs : List Char)
    (h : ∀ d ∈ blanks, isBlank d = true) :
    trimmedFront (blanks ++ cs) = trimmedFront cs := by
  induction blanks with
  | nil => rfl
  | cons d blanks ih =>
    simp only [List.mem_cons, forall_eq_or_imp] at h
    simpa [trimmedFront, h.1] using ih h.2

end Text

end WireCall
