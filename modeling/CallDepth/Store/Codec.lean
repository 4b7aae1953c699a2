import CallDepth.Bytes

/-!
# Codecs

How the values of one kind are kept in files.
-/

namespace CallDepth

structure Codec (α : Type) where
  encode : α → Bytes
  /-- The value that a file holds, or why it holds none. -/
  decode : Bytes → Except String α
  /-- Whether a value is worth keeping. -/
  isStorable : α → Bool

end CallDepth
