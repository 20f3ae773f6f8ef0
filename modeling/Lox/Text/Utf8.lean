/-
  Decoding of UTF-8, and of the ends of lines.

  A byte sequence is refused at the first place where no
  well-formed sequence of one to four bytes stands. In the
  text, a carriage return, alone or before a line feed, ends
  a line like a line feed.

  Key definitions include:
    * `wellFormed?`
    * `decodeUtf8`
    * `unifyNewlines`
-/

------------------------------------------------------------
-- Well-Formed Sequences
------------------------------------------------------------

namespace Lox.Text

/- Whether a byte continues a sequence. -/
def isContinuation (b : UInt8) : Bool :=
  0x80 ≤ b && b ≤ 0xBF

/- The six bits that a continuation byte adds to a code. -/
def extend (code : Nat) (b : UInt8) : Nat :=
  code * 64 + b.toNat % 64

/-
  The character whose sequence begins a list of bytes, and the
  bytes after it. A sequence must be the shortest of its
  character, and surrogates have none.
-/
def wellFormed? : List UInt8 → Option (Char × List UInt8)
  | [] => none
  | a :: rest =>
      if a < 0x80 then some (Char.ofNat a.toNat, rest)
      else if a < 0xC2 then none
      else if a < 0xE0 then
        match rest with
        | b :: rest =>
            if isContinuation b then
              some (Char.ofNat (extend (a.toNat % 32) b), rest)
            else none
        | [] => none
      else if a < 0xF0 then
        match rest with
        | b :: c :: rest =>
            let code := extend (extend (a.toNat % 16) b) c
            if isContinuation b && isContinuation c &&
                0x800 ≤ code && !(0xD800 ≤ code && code < 0xE000)
            then some (Char.ofNat code, rest)
            else none
        | _ => none
      else if a < 0xF5 then
        match rest with
        | b :: c :: d :: rest =>
            let code :=
              extend (extend (extend (a.toNat % 8) b) c) d
            if isContinuation b && isContinuation c &&
                isContinuation d &&
                0x10000 ≤ code && code < 0x110000
            then some (Char.ofNat code, rest)
            else none
        | _ => none
      else none

end Lox.Text

------------------------------------------------------------
-- Decoding
------------------------------------------------------------

namespace Lox.Text

/-
  Decodes bytes behind some characters that have been decoded
  already, of which the last stands first; `offset` bytes are
  behind them. The number `steps` bounds the characters that
  can follow.
-/
def decodeFrom :
    (steps offset : Nat) → (decoded : List Char) →
    List UInt8 → Except Nat (List Char)
  | _, _, decoded, [] => .ok decoded.reverse
  | 0, offset, _, _ => .error offset
  | steps + 1, offset, decoded, bytes =>
      match wellFormed? bytes with
      | none => .error offset
      | some (c, rest) =>
          decodeFrom steps (offset + (Char.utf8Size c))
            (c :: decoded) rest

/-
  The text that bytes spell, or the place of the first byte
  that belongs to no well-formed sequence.
-/
def decodeUtf8 (bytes : List UInt8) : Except Nat (List Char) :=
  decodeFrom bytes.length 0 [] bytes

/- The text with a line feed at the end of every line. -/
def unifyNewlines : List Char → List Char
  | [] => []
  | '\r' :: '\n' :: rest => '\n' :: unifyNewlines rest
  | '\r' :: rest => '\n' :: unifyNewlines rest
  | c :: rest => c :: unifyNewlines rest

end Lox.Text
