import UniqueId.Proofs.Positional
import UniqueId.Text.Canonical

/-!
# Canonical texts and their digits

The canonical form is a condition on every index at once. `FitsFrom` is that condition on a run of
bytes that begins at some index, so it can be followed along the run: it is what an induction over
a text, from the left, may assume of the bytes that remain.

* `canonical_iff_forall`: the form spelled out, index by index.
* `length_digits_of_fitsFrom`: in a run that fits, the places alone decide how many digits there
  are; a canonical text has 32 (`Canonical.length_digits`).
* `map_hexDigit?_unhyphenated`: what is left when the hyphens are dropped are these digits.
* `digits_eq_iff_map_fold_eq`: two runs that fit the same places hold the same digits exactly if
  they are equal up to letter case.
-/

namespace UniqueId.Text

open Numeral (hexDigit? isHexDigit value)

/-! ### Runs that fit -/

/-- A run of bytes **fits from** an index if each of its bytes may stand in a canonical text
where it stands when the run begins at that index. -/
def FitsFrom (i : Nat) : Bytes → Prop
  | [] => True
  | b :: rest => admits i b ∧ FitsFrom (i + 1) rest

theorem fitsFrom_iff {i : Nat} {bs : Bytes} :
    FitsFrom i bs ↔ ∀ k (h : k < bs.length), admits (i + k) bs[k] := by
  induction bs generalizing i with
  | nil => exact iff_of_true trivial fun k h => absurd h (Nat.not_lt_zero k)
  | cons b rest ih =>
    rw [FitsFrom, ih]
    constructor
    · rintro ⟨hb, hrest⟩ k hk
      cases k with
      | zero => exact hb
      | succ k =>
        have := hrest k (Nat.lt_of_succ_lt_succ hk)
        rwa [Nat.add_right_comm] at this
    · intro h
      refine ⟨h 0 (Nat.succ_pos _), fun k hk => ?_⟩
      have := h (k + 1) (Nat.succ_lt_succ hk)
      rwa [← Nat.add_assoc, Nat.add_right_comm] at this

theorem fitsFrom_append {i : Nat} {bs cs : Bytes} :
    FitsFrom i (bs ++ cs) ↔ FitsFrom i bs ∧ FitsFrom (i + bs.length) cs := by
  induction bs generalizing i with
  | nil => exact (iff_of_eq (true_and _)).symm
  | cons b rest ih =>
    rw [List.cons_append, FitsFrom, FitsFrom, ih, and_assoc, List.length_cons,
      Nat.add_right_comm i, Nat.add_assoc i]

theorem canonical_iff_fitsFrom {text : Bytes} :
    Canonical text ↔ text.length = canonicalLength ∧ FitsFrom 0 text := by
  rw [fitsFrom_iff]
  simp only [Nat.zero_add]
  exact ⟨fun h => ⟨h.length_eq, h.admits_getElem⟩, fun h => ⟨h.1, h.2⟩⟩

theorem Canonical.fitsFrom {text : Bytes} (h : Canonical text) : FitsFrom 0 text :=
  (canonical_iff_fitsFrom.mp h).2

theorem admits_of_isHyphenIndex {i : Nat} (hi : isHyphenIndex i) (b : UInt8) :
    admits i b ↔ b = hyphen := by
  rw [admits, if_pos hi, beq_iff_eq]

theorem admits_of_not_isHyphenIndex {i : Nat} (hi : ¬ isHyphenIndex i) (b : UInt8) :
    admits i b ↔ isHexDigit b := by
  rw [admits, if_neg hi]

theorem isHyphenIndex_iff {i : Nat} : isHyphenIndex i ↔ i ∈ [8, 13, 18, 23] := by
  simp [isHyphenIndex, or_assoc]

/-- Nothing but hyphens and digits stands in a canonical text. -/
theorem Canonical.eq_hyphen_or_isHexDigit {text : Bytes} (h : Canonical text) {b : UInt8}
    (hb : b ∈ text) : b = hyphen ∨ isHexDigit b := by
  obtain ⟨i, hi, rfl⟩ := List.mem_iff_getElem.mp hb
  have hadmits := h.admits_getElem i hi
  by_cases hplace : isHyphenIndex i
  · exact .inl ((admits_of_isHyphenIndex hplace _).mp hadmits)
  · exact .inr ((admits_of_not_isHyphenIndex hplace _).mp hadmits)

/-- A run of digits fits wherever no hyphen is due. -/
theorem fitsFrom_of_forall_isHexDigit {i : Nat} {bs : Bytes}
    (hplaces : ∀ k < bs.length, ¬ isHyphenIndex (i + k)) (hbs : ∀ b ∈ bs, isHexDigit b) :
    FitsFrom i bs :=
  fitsFrom_iff.mpr fun k hk =>
    (admits_of_not_isHyphenIndex (hplaces k hk) _).mpr (hbs _ (List.getElem_mem hk))

/-- The canonical form spelled out: the hyphens stand at their four indexes and nowhere else, and
digits everywhere else. -/
theorem canonical_iff_forall {text : Bytes} :
    Canonical text ↔ text.length = 36 ∧ ∀ i (h : i < text.length),
      (text[i] = hyphen ↔ i ∈ [8, 13, 18, 23]) ∧ (i ∉ [8, 13, 18, 23] → isHexDigit text[i]) := by
  have hadmits : ∀ i b, admits i b ↔
      (b = hyphen ↔ i ∈ [8, 13, 18, 23]) ∧ (i ∉ [8, 13, 18, 23] → isHexDigit b) := by
    intro i b
    rw [← isHyphenIndex_iff]
    by_cases hi : isHyphenIndex i
    · simp [admits_of_isHyphenIndex hi, hi]
    · have hhyphen : isHexDigit b → b ≠ hyphen := by rintro hb rfl; exact absurd hb (by decide)
      simpa [admits_of_not_isHyphenIndex hi, hi] using hhyphen
  constructor
  · rintro ⟨hlen, hall⟩
    exact ⟨hlen, fun i h => (hadmits i _).mp (hall i h)⟩
  · rintro ⟨hlen, hall⟩
    exact ⟨hlen, fun i h => (hadmits i _).mpr (hall i h)⟩

/-! ### Digits of a run that fits -/

@[simp] theorem hexDigit?_hyphen : hexDigit? hyphen = none := by decide

theorem digits_cons (b : UInt8) (bs : Bytes) :
    digits (b :: bs) = (hexDigit? b).toList ++ digits bs := by
  rw [digits, List.filterMap_cons]
  cases hexDigit? b <;> rfl

theorem digits_append (bs cs : Bytes) : digits (bs ++ cs) = digits bs ++ digits cs :=
  List.filterMap_append

theorem lt_of_mem_digits {bs : Bytes} {d : Nat} (h : d ∈ digits bs) : d < 16 := by
  obtain ⟨b, -, hb⟩ := List.mem_filterMap.mp h
  exact Numeral.hexDigit?_lt hb

/-- The number of digits among the places from `i` to `i + n`. -/
def digitPlaces (i n : Nat) : Nat :=
  (List.range' i n).countP fun j => !isHyphenIndex j

theorem length_digits_of_fitsFrom {i : Nat} {bs : Bytes} (h : FitsFrom i bs) :
    (digits bs).length = digitPlaces i bs.length := by
  induction bs generalizing i with
  | nil => rfl
  | cons b rest ih =>
    obtain ⟨hb, hrest⟩ := h
    rw [digits_cons, List.length_append, ih hrest, List.length_cons, digitPlaces, digitPlaces,
      List.range'_succ, List.countP_cons, Nat.add_comm]
    by_cases hi : isHyphenIndex i
    · rw [(admits_of_isHyphenIndex hi b).mp hb]
      simp [hi]
    · obtain ⟨d, hd⟩ := Numeral.isHexDigit_iff_exists.mp ((admits_of_not_isHyphenIndex hi b).mp hb)
      simp [hi, hd]

theorem Canonical.length_digits {text : Bytes} (h : Canonical text) :
    (digits text).length = 32 := by
  rw [length_digits_of_fitsFrom h.fitsFrom, h.length_eq]
  decide

/-- The number that a canonical text denotes fits 128 bits. -/
theorem Canonical.value_digits_lt {text : Bytes} (h : Canonical text) :
    value 16 (digits text) < 2 ^ 128 := by
  have hlt : value 16 (digits text) < 16 ^ (digits text).length :=
    Numeral.value_lt (by norm_num) fun _ => lt_of_mem_digits
  rwa [h.length_digits] at hlt

/-- A text with its hyphens dropped. -/
def unhyphenated (text : Bytes) : Bytes :=
  text.filter (· ≠ hyphen)

/-- Apart from the hyphens, a run that fits consists of digits. -/
theorem map_hexDigit?_unhyphenated {i : Nat} {bs : Bytes} (h : FitsFrom i bs) :
    (unhyphenated bs).map hexDigit? = (digits bs).map some := by
  induction bs generalizing i with
  | nil => rfl
  | cons b rest ih =>
    obtain ⟨hb, hrest⟩ := h
    rw [digits_cons, List.map_append, ← ih hrest, unhyphenated, unhyphenated, List.filter_cons]
    by_cases hhyphen : b = hyphen
    · simp [hhyphen]
    · have hi : ¬ isHyphenIndex i := fun hi => hhyphen ((admits_of_isHyphenIndex hi b).mp hb)
      obtain ⟨d, hd⟩ := Numeral.isHexDigit_iff_exists.mp ((admits_of_not_isHyphenIndex hi b).mp hb)
      simp [hhyphen, hd]

/-! ### Letter case -/

theorem digits_map_fold (letters : LetterCase) (bs : Bytes) :
    digits (bs.map letters.fold) = digits bs := by
  rw [digits, List.filterMap_map, digits]
  congr 1
  funext b
  exact Numeral.hexDigit?_fold letters b

/-- **Equal digits, equal up to case.** Where two runs fit the same places, only the letter case
of their digits is left to differ. -/
theorem map_fold_eq_of_digits_eq (letters : LetterCase) {i : Nat} {bs cs : Bytes}
    (hbs : FitsFrom i bs) (hcs : FitsFrom i cs) (hlen : bs.length = cs.length)
    (h : digits bs = digits cs) : bs.map letters.fold = cs.map letters.fold := by
  induction bs generalizing i cs with
  | nil => rw [List.eq_nil_of_length_eq_zero hlen.symm]
  | cons b bs ih =>
    obtain ⟨c, cs, rfl⟩ := List.exists_cons_of_length_eq_add_one hlen.symm
    obtain ⟨hb, hbs⟩ := hbs
    obtain ⟨hc, hcs⟩ := hcs
    have hlen : bs.length = cs.length := Nat.succ.inj hlen
    rw [digits_cons, digits_cons] at h
    rw [List.map_cons, List.map_cons]
    by_cases hi : isHyphenIndex i
    · rw [(admits_of_isHyphenIndex hi b).mp hb, (admits_of_isHyphenIndex hi c).mp hc] at h ⊢
      rw [ih hbs hcs hlen (by simpa using h)]
    · obtain ⟨d, hd⟩ := Numeral.isHexDigit_iff_exists.mp ((admits_of_not_isHyphenIndex hi b).mp hb)
      obtain ⟨e, he⟩ := Numeral.isHexDigit_iff_exists.mp ((admits_of_not_isHyphenIndex hi c).mp hc)
      rw [hd, he] at h
      obtain ⟨rfl, hrest⟩ := List.cons.inj h
      rw [ih hbs hcs hlen hrest, ← Numeral.digitByte_of_hexDigit? letters hd,
        ← Numeral.digitByte_of_hexDigit? letters he]

theorem digits_eq_iff_map_fold_eq (letters : LetterCase) {i : Nat} {bs cs : Bytes}
    (hbs : FitsFrom i bs) (hcs : FitsFrom i cs) (hlen : bs.length = cs.length) :
    digits bs = digits cs ↔ bs.map letters.fold = cs.map letters.fold := by
  refine ⟨map_fold_eq_of_digits_eq letters hbs hcs hlen, fun h => ?_⟩
  rw [← digits_map_fold letters bs, h, digits_map_fold]

end UniqueId.Text
