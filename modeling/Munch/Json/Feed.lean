/-!
# Bytes as characters

JSON text arrives as bytes. `decodeUtf8` splits bytes into characters, one `none` for each byte
that belongs to none. A `Feed` delivers bytes and may break off before it has reported their end.
-/

namespace Munch.Json

/-- The characters of `bytes` from index `i` on; a byte that starts no character counts alone. -/
def charsFrom (bytes : ByteArray) (i : Nat) : List (Option Char) :=
  if i < bytes.size then
    match bytes.utf8DecodeChar? i with
    | some c => some c :: charsFrom bytes (i + c.utf8Size)
    | none => none :: charsFrom bytes (i + 1)
  else []
termination_by bytes.size - i
decreasing_by
  · have := c.utf8Size_pos
    omega
  · omega

/-- The characters of a byte sequence. -/
def decodeUtf8 (bytes : ByteArray) : List (Option Char) := charsFrom bytes 0

/-- A supply of bytes. -/
structure Feed where
  bytes : ByteArray
  /-- If given, the supply fails once it has delivered this many bytes. -/
  failsAfter : Option Nat := none

/-- The characters delivered; `none` if the supply fails before it reports its end. -/
def Feed.chars? (feed : Feed) : Option (List (Option Char)) :=
  if feed.failsAfter.any (· ≤ feed.bytes.size) then none else some (decodeUtf8 feed.bytes)

end Munch.Json
