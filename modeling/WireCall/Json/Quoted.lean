import WireCall.Json.Scan

/-!
# Quoted text in JSON

Between its quotes a text is written byte by byte: the quote, the backslash and the control
characters by an escape, everything else as it is. Reading accepts all escapes of the format. The
bytes between the quotes must be UTF-8, which is looked at once the closing quote is there; where
they are not, the first byte that starts no character is the place of the failure.
-/

namespace WireCall

namespace Json

/-! ## Writing -/

/-- The digit of a number below sixteen, in lower case. -/
def hexDigit (n : Nat) : UInt8 := UInt8.ofNat (if n < 10 then 0x30 + n else 0x57 + n)

/-- How a byte is written between quotes. -/
def quoteByte (c : UInt8) : Bytes :=
  if c = 0x22 then [0x5c, 0x22]
  else if c = 0x5c then [0x5c, 0x5c]
  else if c = 0x08 then [0x5c, 0x62]
  else if c = 0x0c then [0x5c, 0x66]
  else if c = 0x0a then [0x5c, 0x6e]
  else if c = 0x0d then [0x5c, 0x72]
  else if c = 0x09 then [0x5c, 0x74]
  else if c < 0x20 then
    [0x5c, 0x75, 0x30, 0x30, hexDigit (c.toNat / 16), hexDigit (c.toNat % 16)]
  else [c]

/-- A text with its quotes. -/
def quote (s : String) : Bytes :=
  0x22 :: ((Bytes.ofText s).flatMap quoteByte ++ [0x22])

/-! ## Reading -/

/-- The value of a hexadecimal digit, of either case. -/
def hexValue? (c : UInt8) : Option Nat :=
  if 0x30 ≤ c ∧ c ≤ 0x39 then some (c.toNat - 0x30)
  else if 0x61 ≤ c ∧ c ≤ 0x66 then some (c.toNat - 0x57)
  else if 0x41 ≤ c ∧ c ≤ 0x46 then some (c.toNat - 0x37)
  else none

/-- The number that four hexadecimal digits spell. -/
def hexQuad? (a b c d : UInt8) : Option Nat :=
  match hexValue? a, hexValue? b, hexValue? c, hexValue? d with
  | some a, some b, some c, some d => some (((a * 16 + b) * 16 + c) * 16 + d)
  | _, _, _, _ => none

/-- The byte that a letter stands for behind a backslash. -/
def escape? (c : UInt8) : Option UInt8 :=
  if c = 0x22 then some 0x22
  else if c = 0x5c then some 0x5c
  else if c = 0x2f then some 0x2f
  else if c = 0x62 then some 0x08
  else if c = 0x66 then some 0x0c
  else if c = 0x6e then some 0x0a
  else if c = 0x72 then some 0x0d
  else if c = 0x74 then some 0x09
  else none

/-- The code units that start a surrogate pair. -/
def isLeading (n : Nat) : Bool := 0xD800 ≤ n && n < 0xDC00

/-- The code units that end a surrogate pair. -/
def isTrailing (n : Nat) : Bool := 0xDC00 ≤ n && n < 0xE000

/-- The UTF-8 bytes of a code point. -/
def codePoint (n : Nat) : Bytes := String.utf8EncodeChar (Char.ofNat n)

/-- Reads the bytes of a text up to its closing quote; `acc` holds the bytes before, the last one
first. -/
def readBytes (acc : Bytes) : Bytes → Except Failure (Bytes × Bytes)
  | [] => .error ⟨.endInText, [], true⟩
  | c :: rest =>
    if c = 0x22 then .ok (acc.reverse, rest)
    else if c = 0x5c then
      match rest with
      | [] => .error ⟨.endInText, [], true⟩
      | e :: rest =>
        if e = 0x75 then
          match rest with
          | h₁ :: h₂ :: h₃ :: h₄ :: rest =>
            match hexQuad? h₁ h₂ h₃ h₄ with
            | none => .error ⟨.invalidEscape, rest, true⟩
            | some n =>
              if isTrailing n then .error ⟨.loneSurrogate, rest, true⟩
              else if isLeading n then
                -- the other half of the pair has to follow at once
                match rest with
                | [] => .error ⟨.endInText, [], true⟩
                | b :: rest =>
                  if b = 0x5c then
                    match rest with
                    | [] => .error ⟨.endInText, [], true⟩
                    | u :: rest =>
                      if u = 0x75 then
                        match rest with
                        | l₁ :: l₂ :: l₃ :: l₄ :: rest =>
                          match hexQuad? l₁ l₂ l₃ l₄ with
                          | none => .error ⟨.invalidEscape, rest, true⟩
                          | some m =>
                            if isTrailing m then
                              readBytes
                                ((codePoint ((n - 0xD800) * 0x400 + (m - 0xDC00) + 0x10000)).reverse
                                  ++ acc) rest
                            else .error ⟨.loneSurrogate, rest, true⟩
                        | _ => .error ⟨.endInText, [], true⟩
                      else .error ⟨.endOfHexEscape, rest, true⟩
                  else .error ⟨.endOfHexEscape, rest, true⟩
              else readBytes ((codePoint n).reverse ++ acc) rest
          | _ => .error ⟨.endInText, [], true⟩
        else
          match escape? e with
          | some b => readBytes (b :: acc) rest
          | none => .error ⟨.invalidEscape, rest, true⟩
    else if c < 0x20 then .error ⟨.controlCharacter, rest, true⟩
    else readBytes (c :: acc) rest

/-- Reads a text behind its opening quote. -/
def Scan.text : Scan String := fun s =>
  match readBytes [] s with
  | .error f => .error f
  | .ok (b, rest) =>
    match Bytes.toText? b with
    | some t => .ok (t, rest)
    | none => .error ⟨.invalidUnicode, (Bytes.dropText s).tail, true⟩

end Json

end WireCall
