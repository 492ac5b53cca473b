import UniqueId.Uuid.Basic

/-!
# The sixteen bytes of an identifier

The binary form is the high word and then the low word, each most significant byte first. Any
sixteen bytes are an identifier: reading checks no version and no variant.
-/

namespace UniqueId.Uuid

/-- The sixteen bytes of an identifier. -/
def toBytes (u : Uuid) : Bytes :=
  Word.toBytes u.high ++ Word.toBytes u.low

/-- The identifier in the first sixteen bytes of a run. -/
def ofBytes (bs : Bytes) : Uuid :=
  ⟨Word.ofBytes bs, Word.ofBytes (bs.drop 8)⟩

@[simp] theorem length_toBytes (u : Uuid) : u.toBytes.length = size := by
  simp [toBytes, size]

/-- **Round trip**: an identifier is read back from its bytes. -/
@[simp] theorem ofBytes_toBytes (u : Uuid) : ofBytes u.toBytes = u := by
  rw [ofBytes, toBytes, Word.ofBytes_toBytes_append, List.drop_left' (Word.length_toBytes u.high),
    Word.ofBytes_toBytes]

end UniqueId.Uuid
