/-!
# Runs of bytes

Texts and buffers are both finite runs of bytes; nothing in this library assumes a character
encoding. Two operations carry the whole theory of buffers:

* **`window`** reads a fixed number of bytes from an offset;
* **`splice`** overwrites the bytes from an offset and moves nothing else.

A window just spliced reads back what was written (`window_splice`), and every index outside it
keeps its byte (`getElem?_splice_of_lt`, `getElem?_splice_of_le`).
-/

namespace UniqueId

/-- A finite run of bytes. -/
abbrev Bytes := List UInt8

namespace Bytes

/-! ### Texts as bytes -/

/-- The bytes of a literal written in ASCII, one byte a character. -/
def ascii (s : String) : Bytes :=
  s.toList.map fun c => c.toNat.toUInt8

theorem ascii_append (s t : String) : ascii (s ++ t) = ascii s ++ ascii t := by
  simp only [ascii, String.toList_append, List.map_append]

/-- The bytes in front of the first NUL; all of them if there is none. -/
def untilNul (bs : Bytes) : Bytes :=
  bs.takeWhile (· != 0)

@[simp] theorem untilNul_nil : untilNul [] = [] := rfl

theorem untilNul_cons (b : UInt8) (bs : Bytes) :
    untilNul (b :: bs) = if b = 0 then [] else b :: untilNul bs := by
  by_cases h : b = 0 <;> simp [untilNul, h]

/-- A text without a NUL is its own reading up to a NUL. -/
theorem untilNul_eq_self {bs : Bytes} (h : 0 ∉ bs) : untilNul bs = bs := by
  induction bs with
  | nil => rfl
  | cons b bs ih =>
    simp only [List.mem_cons, not_or] at h
    rw [untilNul_cons, if_neg (Ne.symm h.1), ih h.2]

theorem zero_notMem_untilNul (bs : Bytes) : 0 ∉ untilNul bs := by
  induction bs with
  | nil => simp
  | cons b bs ih =>
    rw [untilNul_cons]
    split
    · simp
    · next h => simpa [Ne.symm h] using ih

/-- What a reading up to a NUL leaves out begins with the NUL. -/
theorem exists_eq_untilNul_append (bs : Bytes) :
    ∃ rest, bs = untilNul bs ++ rest ∧ (rest = [] ∨ rest.head? = some 0) := by
  induction bs with
  | nil => exact ⟨[], rfl, .inl rfl⟩
  | cons b bs ih =>
    rw [untilNul_cons]
    by_cases hb : b = 0
    · exact ⟨b :: bs, by rw [if_pos hb, List.nil_append], .inr (by rw [hb, List.head?_cons])⟩
    · obtain ⟨rest, hbs, hrest⟩ := ih
      exact ⟨rest, by rw [if_neg hb, List.cons_append, ← hbs], hrest⟩

/-! ### Windows -/

/-- The `size` bytes from `offset` on, fewer if the run ends before. -/
def window (bs : Bytes) (offset size : Nat) : Bytes :=
  (bs.drop offset).take size

/-- The run with the bytes from `offset` on replaced by `new`, byte for byte. -/
def splice (bs : Bytes) (offset : Nat) (new : Bytes) : Bytes :=
  bs.take offset ++ new ++ bs.drop (offset + new.length)

theorem length_window {bs : Bytes} {offset size : Nat} (h : offset + size ≤ bs.length) :
    (bs.window offset size).length = size := by
  simp only [window, List.length_take, List.length_drop]
  omega

theorem getElem?_window (bs : Bytes) (offset size k : Nat) :
    (bs.window offset size)[k]? = if k < size then bs[offset + k]? else none := by
  simp only [window, List.getElem?_take, List.getElem?_drop]

theorem length_splice {bs new : Bytes} {offset : Nat} (h : offset + new.length ≤ bs.length) :
    (bs.splice offset new).length = bs.length := by
  simp only [splice, List.length_append, List.length_take, List.length_drop]
  omega

/-- Below the offset nothing changes. -/
theorem getElem?_splice_of_lt {bs new : Bytes} {offset k : Nat}
    (h : offset + new.length ≤ bs.length) (hk : k < offset) :
    (bs.splice offset new)[k]? = bs[k]? := by
  rw [splice, List.append_assoc, List.getElem?_append_left (by rw [List.length_take]; omega),
    List.getElem?_take, if_pos hk]

/-- Inside the window the new bytes stand. -/
theorem getElem?_splice_of_mem {bs new : Bytes} {offset k : Nat}
    (h : offset + new.length ≤ bs.length) (hlo : offset ≤ k) (hhi : k < offset + new.length) :
    (bs.splice offset new)[k]? = new[k - offset]? := by
  have hlen : (bs.take offset).length = offset := by rw [List.length_take]; omega
  rw [splice, List.append_assoc, List.getElem?_append_right (by omega), hlen,
    List.getElem?_append_left (by omega)]

/-- Past the window nothing changes. -/
theorem getElem?_splice_of_le {bs new : Bytes} {offset k : Nat}
    (h : offset + new.length ≤ bs.length) (hk : offset + new.length ≤ k) :
    (bs.splice offset new)[k]? = bs[k]? := by
  have hlen : (bs.take offset ++ new).length = offset + new.length := by
    rw [List.length_append, List.length_take]; omega
  rw [splice, List.getElem?_append_right (by omega), hlen, List.getElem?_drop]
  congr 1
  omega

/-- **Read after write**: the window just spliced holds the bytes written. -/
theorem window_splice {bs new : Bytes} {offset : Nat} (h : offset + new.length ≤ bs.length) :
    (bs.splice offset new).window offset new.length = new := by
  apply List.ext_getElem?
  intro k
  rw [getElem?_window]
  split
  · next hk => rw [getElem?_splice_of_mem h (by omega) (by omega), Nat.add_sub_cancel_left]
  · next hk => rw [List.getElem?_eq_none (by omega)]

end Bytes

end UniqueId
