import Mathlib.Order.Bounds.Basic
import UniqueId.Proofs.Text.Reading
import UniqueId.Proofs.Text.Writing

/-!
# Where a text goes wrong

A run of bytes is **viable** if some canonical text begins with it. A text that is refused has a
longest viable prefix, and the fault is reported at its end:

* `readCharacters_eq_error`: the walk stops at the first byte that may not stand where it stands.
* `viable_iff`: a run is viable if it has at most 36 bytes and each may stand where it stands. So
  the walk is over exactly when what it has passed is the longest viable prefix.
* `exists_isGreatest_of_not_canonical`: which fault is reported is decided by the end of the longest
  viable prefix and by the byte behind it (`faultAt`). The length is at fault only where there is no
  such byte, or where 36 bytes stand in front of it.
-/

namespace UniqueId

/-! ### Kinds of messages -/

/-- **Messages tell faults apart**: the kind of a character fault is what its message opens with,
and no other message opens so. -/
theorem CharacterFault.message_prefix_iff {kind : CharacterFault} {fault : TextFault} :
    kind.message <+: fault.message ↔ ∃ i b, fault = .character kind i b := by
  constructor
  · rintro ⟨rest, hrest⟩
    -- the first letters differ already
    have hhead : fault.message.head? = kind.message.head? := by
      rw [← hrest]
      cases kind <;> rfl
    cases fault with
    | character kind' i b =>
      have hhead' : kind'.message.head? = kind.message.head? := by
        rw [← hhead]
        cases kind' <;> rfl
      have hkind : kind' = kind := by
        revert hhead'
        cases kind' <;> cases kind <;> decide
      exact ⟨i, b, by rw [hkind]⟩
    | wrongLength length next =>
      have hupper : (TextFault.wrongLength length next).message.head? = some 85 := rfl
      rw [hupper] at hhead
      cases kind <;> exact absurd hhead (by decide)
    | missing => cases kind <;> exact absurd hhead (by decide)
  · rintro ⟨i, b, rfl⟩
    simp only [TextFault.message, List.append_assoc]
    exact List.prefix_append _ _

/-- The message about the length, which it shows. -/
theorem TextFault.message_wrongLength (length : Nat) (next : Option UInt8) :
    (wrongLength length next).message =
      Bytes.ascii ("UUID has to be represented by the standard 36-char representation (got "
        ++ toString length ++ " chars)") := by
  rw [message, Numeral.decimal_eq_ascii, Bytes.ascii_append, Bytes.ascii_append]

namespace Text

/-! ### The walk, where it stops -/

/-- How a byte breaks the form at an index where it may not stand. -/
def faultKind (i : Nat) (b : UInt8) : CharacterFault :=
  if isHyphenIndex i then .expectedHyphen else if b = hyphen then .misplacedHyphen else .nonHex

theorem readCharacter_eq_error {i : Nat} {b : UInt8} (h : ¬ admits i b) :
    readCharacter i b = .error (faultKind i b) := by
  rw [readCharacter, faultKind]
  by_cases hi : isHyphenIndex i
  · rw [admits_of_isHyphenIndex hi] at h
    rw [if_pos hi, if_pos hi, if_neg h]
  · rw [admits_of_not_isHyphenIndex hi, ← Numeral.hexDigit?_isSome, Bool.not_eq_true,
      Option.isSome_eq_false_iff, Option.isNone_iff_eq_none] at h
    rw [if_neg hi, if_neg hi, h]
    split <;> rfl

/-- A run that fits is passed, and what stands behind it is read as from there. -/
theorem readCharacters_append {i : Nat} {read : Uuid} {passed : Bytes} (h : FitsFrom i passed)
    (bs : Bytes) :
    readCharacters i read (passed ++ bs) =
      readCharacters (i + passed.length) ((digits passed).foldl Uuid.push read) bs := by
  induction passed generalizing i read with
  | nil => rfl
  | cons b passed ih =>
    obtain ⟨hb, hpassed⟩ := h
    rw [List.cons_append, readCharacters, digits_cons, List.foldl_append, List.length_cons,
      Nat.add_comm passed.length 1, ← Nat.add_assoc]
    cases hchar : readCharacter i b with
    | error kind => exact absurd hb (not_admits_of_readCharacter_eq_error hchar)
    | ok digit? =>
      rw [← eq_hexDigit?_of_readCharacter_eq_ok hchar]
      cases digit? with
      | none => exact ih hpassed
      | some digit => exact ih hpassed

/-- **The walk stops** at the first byte that may not stand where it stands. -/
theorem readCharacters_eq_error {i : Nat} {read : Uuid} {passed : Bytes} {b : UInt8}
    (hpassed : FitsFrom i passed) (hb : ¬ admits (i + passed.length) b) (rest : Bytes) :
    readCharacters i read (passed ++ b :: rest) =
      .error (.character (faultKind (i + passed.length) b) (i + passed.length) b) := by
  rw [readCharacters_append hpassed, readCharacters, readCharacter_eq_error hb]

/-- A run that does not fit has a first byte that may not stand where it stands. -/
theorem exists_not_admits_of_not_fitsFrom {i : Nat} {bs : Bytes} (h : ¬ FitsFrom i bs) :
    ∃ passed b rest, bs = passed ++ b :: rest ∧ FitsFrom i passed ∧
      ¬ admits (i + passed.length) b := by
  induction bs generalizing i with
  | nil => exact absurd trivial h
  | cons b bs ih =>
    by_cases hb : admits i b
    · obtain ⟨passed, c, rest, rfl, hpassed, hc⟩ := ih fun hbs => h ⟨hb, hbs⟩
      refine ⟨b :: passed, c, rest, rfl, ⟨hb, hpassed⟩, ?_⟩
      rwa [List.length_cons, Nat.add_comm passed.length 1, ← Nat.add_assoc]
    · exact ⟨[], b, bs, rfl, trivial, hb⟩

/-! ### Viable prefixes -/

/-- **Viable**: some canonical text begins with these bytes. -/
def Viable (bs : Bytes) : Prop :=
  ∃ text, Canonical text ∧ bs <+: text

/-- The lengths of the prefixes of a text that are viable. -/
def viableLengths (text : Bytes) : Set Nat :=
  {n | ∃ bs, bs <+: text ∧ Viable bs ∧ bs.length = n}

theorem fitsFrom_of_isPrefix {i : Nat} {bs cs : Bytes} (h : FitsFrom i cs) (hbs : bs <+: cs) :
    FitsFrom i bs := by
  obtain ⟨rest, rfl⟩ := hbs
  exact (fitsFrom_append.mp h).1

/-- A run that fits can be continued as long as there are places left, by the end of any canonical
text. -/
theorem viable_iff {bs : Bytes} :
    Viable bs ↔ bs.length ≤ canonicalLength ∧ FitsFrom 0 bs := by
  constructor
  · rintro ⟨text, htext, hbs⟩
    exact ⟨htext.length_eq ▸ hbs.length_le, fitsFrom_of_isPrefix htext.fitsFrom hbs⟩
  · rintro ⟨hlen, hfits⟩
    let model := Uuid.nil.toText .lower
    have hmodel : Canonical model := Uuid.canonical_toText .lower Uuid.nil
    have htake : (model.take bs.length).length = bs.length := by
      rw [List.length_take, hmodel.length_eq, Nat.min_eq_left hlen]
    have hend : FitsFrom bs.length (model.drop bs.length) := by
      have hsplit := hmodel.fitsFrom
      rw [← List.take_append_drop bs.length model, fitsFrom_append, htake, Nat.zero_add] at hsplit
      exact hsplit.2
    refine ⟨bs ++ model.drop bs.length, canonical_iff_fitsFrom.mpr ⟨?_, ?_⟩, List.prefix_append _ _⟩
    · rw [List.length_append, List.length_drop, hmodel.length_eq]
      omega
    · rw [fitsFrom_append, Nat.zero_add]
      exact ⟨hfits, hend⟩

/-- Where a byte may not stand, the longest viable prefix ends in front of it. -/
theorem isGreatest_viableLengths_of_not_admits {passed rest : Bytes} {b : UInt8}
    (hlen : passed.length ≤ canonicalLength) (hfits : FitsFrom 0 passed)
    (hb : ¬ admits passed.length b) :
    IsGreatest (viableLengths (passed ++ b :: rest)) passed.length := by
  refine ⟨⟨passed, List.prefix_append _ _, viable_iff.mpr ⟨hlen, hfits⟩, rfl⟩, ?_⟩
  rintro n ⟨bs, hbs, hviable, rfl⟩
  by_contra hlong
  have hfirst : passed ++ [b] <+: passed ++ b :: rest := by
    rw [List.prefix_append_right_inj]
    exact ⟨rest, rfl⟩
  have hover : passed ++ [b] <+: bs := by
    refine List.prefix_of_prefix_length_le hfirst hbs ?_
    rw [List.length_append, List.length_singleton]
    omega
  have hfits' := fitsFrom_of_isPrefix (viable_iff.mp hviable).2 hover
  rw [fitsFrom_append, Nat.zero_add] at hfits'
  exact hb hfits'.2.1

/-- Where all of the first 36 bytes may stand, the longest viable prefix is what there is of
them. -/
theorem isGreatest_viableLengths_of_fitsFrom {text : Bytes}
    (h : FitsFrom 0 (text.take canonicalLength)) :
    IsGreatest (viableLengths text) (min text.length canonicalLength) := by
  have hlen : (text.take canonicalLength).length = min text.length canonicalLength := by
    rw [List.length_take, Nat.min_comm]
  refine ⟨⟨_, List.take_prefix _ _, viable_iff.mpr ⟨?_, h⟩, hlen⟩, ?_⟩
  · rw [hlen]
    exact Nat.min_le_right _ _
  · rintro n ⟨bs, hbs, hviable, rfl⟩
    exact le_min hbs.length_le (viable_iff.mp hviable).1

/-! ### The fault that is reported -/

/-- The fault of a text whose longest viable prefix ends at an index. -/
def faultAt (text : Bytes) (n : Nat) : TextFault :=
  if h : n < text.length ∧ n < canonicalLength then .character (faultKind n text[n]) n text[n]
  else .wrongLength text.length text[canonicalLength]?

theorem faultAt_of_lt {text : Bytes} {n : Nat} (h : n < text.length) (hn : n < canonicalLength) :
    faultAt text n = .character (faultKind n text[n]) n text[n] :=
  dif_pos ⟨h, hn⟩

theorem faultAt_of_eq {text : Bytes} {n : Nat}
    (h : n = min text.length canonicalLength) :
    faultAt text n = .wrongLength text.length text[canonicalLength]? :=
  dif_neg (by omega)

/-- A viable prefix ends inside the text, and among its first 36 bytes. -/
theorem le_of_mem_viableLengths {text : Bytes} {n : Nat} (h : n ∈ viableLengths text) :
    n ≤ min text.length canonicalLength := by
  obtain ⟨bs, hbs, hviable, rfl⟩ := h
  exact le_min hbs.length_le (viable_iff.mp hviable).1

/-- It names the place that it is decided by. -/
theorem position?_faultAt {text : Bytes} {n : Nat} (h : n ≤ min text.length canonicalLength) :
    (faultAt text n).position? = some n := by
  obtain hlt | heq := Nat.lt_or_eq_of_le h
  · rw [faultAt_of_lt (by omega) (by omega), TextFault.position?]
  · rw [faultAt_of_eq heq, TextFault.position?, heq]
    rfl

/-- It shows the byte there, and NUL if the text ends there. -/
theorem byte_faultAt {text : Bytes} {n : Nat} (h : n ≤ min text.length canonicalLength) :
    (faultAt text n).byte = text[n]?.getD 0 := by
  obtain hlt | heq := Nat.lt_or_eq_of_le h
  · have hlen : n < text.length := by omega
    rw [faultAt_of_lt hlen (by omega), TextFault.byte, List.getElem?_eq_getElem hlen,
      Option.getD_some]
  · rw [faultAt_of_eq heq, TextFault.byte]
    obtain hshort | hlong := Nat.lt_or_ge canonicalLength text.length
    · rw [heq, Nat.min_eq_right hshort.le]
    · rw [heq, Nat.min_eq_left hlong, List.getElem?_eq_none hlong,
        List.getElem?_eq_none (Nat.le_refl _)]

/-- Among the first 36 bytes, a byte that may not stand where it stands is reported, whatever
stands behind it. -/
theorem parse_eq_error_of_not_admits {passed : Bytes} {b : UInt8}
    (hlen : passed.length < canonicalLength) (hpassed : FitsFrom 0 passed)
    (hb : ¬ admits passed.length b) (rest : Bytes) :
    parse (passed ++ b :: rest) =
      .error (.character (faultKind passed.length b) passed.length b) := by
  obtain ⟨left, hleft⟩ : ∃ left, canonicalLength = passed.length + (left + 1) :=
    ⟨canonicalLength - passed.length - 1, by omega⟩
  have htake : (passed ++ b :: rest).take canonicalLength = passed ++ b :: rest.take left := by
    rw [hleft, List.take_length_add_append, List.take_succ_cons]
  rw [parse, htake, readCharacters_eq_error hpassed (by rwa [Nat.zero_add]), Nat.zero_add]

/-- The length is looked at last. -/
theorem parse_eq_error_of_fitsFrom {text : Bytes} (h : FitsFrom 0 (text.take canonicalLength))
    (hlen : text.length ≠ canonicalLength) :
    parse text = .error (.wrongLength text.length text[canonicalLength]?) := by
  rw [parse, readCharacters_eq_ok_iff.mpr ⟨h, rfl⟩]
  exact if_neg hlen

/-- A text goes wrong at one of its first 36 bytes, or all of these may stand where they stand. -/
theorem exists_not_admits_or_fitsFrom (text : Bytes) :
    (∃ passed b rest, text = passed ++ b :: rest ∧ passed.length < canonicalLength ∧
      FitsFrom 0 passed ∧ ¬ admits passed.length b) ∨
    FitsFrom 0 (text.take canonicalLength) := by
  refine or_iff_not_imp_right.mpr fun h => ?_
  obtain ⟨passed, b, rest, htake, hpassed, hb⟩ := exists_not_admits_of_not_fitsFrom h
  rw [Nat.zero_add] at hb
  refine ⟨passed, b, rest ++ text.drop canonicalLength, ?_, ?_, hpassed, hb⟩
  · rw [← List.cons_append, ← List.append_assoc, ← htake, List.take_append_drop]
  · have hlen := congrArg List.length htake
    rw [List.length_take, List.length_append, List.length_cons] at hlen
    omega

/-- **Refusals.** A text that is not canonical is refused with the fault that the end of its
longest viable prefix decides. -/
theorem exists_isGreatest_of_not_canonical {text : Bytes} (h : ¬ Canonical text) :
    ∃ n, IsGreatest (viableLengths text) n ∧ parse text = .error (faultAt text n) := by
  obtain ⟨passed, b, rest, rfl, hlen, hpassed, hb⟩ | hfits := exists_not_admits_or_fitsFrom text
  · refine ⟨_, isGreatest_viableLengths_of_not_admits hlen.le hpassed hb, ?_⟩
    have hbyte : passed.length < (passed ++ b :: rest).length := by
      rw [List.length_append, List.length_cons]
      omega
    have hget : (passed ++ b :: rest)[passed.length] = b := by simp
    rw [parse_eq_error_of_not_admits hlen hpassed hb, faultAt_of_lt hbyte hlen, hget]
  · have hlen : text.length ≠ canonicalLength := by
      intro hlen
      rw [List.take_of_length_le hlen.le] at hfits
      exact h (canonical_iff_fitsFrom.mpr ⟨hlen, hfits⟩)
    refine ⟨_, isGreatest_viableLengths_of_fitsFrom hfits, ?_⟩
    rw [parse_eq_error_of_fitsFrom hfits hlen, faultAt_of_eq (by omega)]

/-! ### What the fault tells -/

/-- The message opens with a kind of character fault exactly if there is a character at fault,
and that character is at fault in this way. -/
theorem message_prefix_faultAt_iff (kind : CharacterFault) {text : Bytes} {n : Nat} {p : Prop}
    (h : n ≤ min text.length canonicalLength)
    (hkind : ∀ b, text[n]? = some b → (faultKind n b = kind ↔ p)) :
    kind.message <+: (faultAt text n).message ↔
      ¬ (n = text.length ∨ n = canonicalLength) ∧ p := by
  rw [CharacterFault.message_prefix_iff]
  obtain hlt | heq := Nat.lt_or_eq_of_le h
  · have hlen : n < text.length := by omega
    have hend : ¬ (n = text.length ∨ n = canonicalLength) := by omega
    rw [faultAt_of_lt hlen (by omega), ← hkind _ (List.getElem?_eq_getElem hlen)]
    constructor
    · rintro ⟨i, b, hfault⟩
      exact ⟨hend, (TextFault.character.inj hfault).1⟩
    · rintro ⟨-, rfl⟩
      exact ⟨n, text[n], rfl⟩
  · rw [faultAt_of_eq heq]
    exact iff_of_false (by simp) fun hat => hat.1 (by omega)

/-- The message is the one about the length if the end of the text, or of a canonical one, is
reached. -/
theorem message_faultAt_eq_iff {text : Bytes} {n : Nat} (h : n ≤ min text.length canonicalLength)
    (next : Option UInt8) :
    (faultAt text n).message = (TextFault.wrongLength text.length next).message ↔
      n = text.length ∨ n = canonicalLength := by
  constructor
  · intro hmessage
    by_contra hlt
    have hlen : n < text.length := by omega
    have hprefix : (faultKind n text[n]).message <+: (faultAt text n).message := by
      rw [CharacterFault.message_prefix_iff, faultAt_of_lt hlen (by omega)]
      exact ⟨n, text[n], rfl⟩
    rw [hmessage, CharacterFault.message_prefix_iff] at hprefix
    obtain ⟨i, b, hfault⟩ := hprefix
    contradiction
  · intro hend
    rw [faultAt_of_eq (by omega)]
    rfl

theorem faultKind_eq_iff {i : Nat} {b : UInt8} :
    (faultKind i b = .expectedHyphen ↔ i ∈ [8, 13, 18, 23]) ∧
      (faultKind i b = .misplacedHyphen ↔ i ∉ [8, 13, 18, 23] ∧ b = hyphen) ∧
        (faultKind i b = .nonHex ↔ i ∉ [8, 13, 18, 23] ∧ b ≠ hyphen) := by
  rw [← isHyphenIndex_iff, faultKind]
  by_cases hi : isHyphenIndex i
  · simp [hi]
  · by_cases hb : b = hyphen
    · simp [hi, hb]
    · simp [hi, hb]

/-- **Bytes come before the length**: if one of the first 36 bytes may not stand where it stands,
a byte is reported. -/
theorem exists_eq_character_of_parse_eq_error {text : Bytes} {fault : TextFault}
    (h : parse text = .error fault)
    (hwrong : ∃ i, ∃ hi : i < text.length, i < canonicalLength ∧ ¬ admits i text[i]) :
    ∃ kind i b, fault = .character kind i b := by
  obtain ⟨passed, b, rest, rfl, hlen, hpassed, hb⟩ | hfits := exists_not_admits_or_fitsFrom text
  · rw [parse_eq_error_of_not_admits hlen hpassed hb] at h
    exact ⟨_, _, _, (Except.error.inj h).symm⟩
  · obtain ⟨i, hi, hplace, hnot⟩ := hwrong
    have hadmits := fitsFrom_iff.mp hfits i (by rw [List.length_take]; omega)
    rw [Nat.zero_add, List.getElem_take] at hadmits
    exact absurd hadmits hnot

/-- **Nothing behind the byte counts**: a text with a character at fault is refused in the same
way whatever stands behind that character. -/
theorem parse_take_append {text : Bytes} {kind : CharacterFault} {i : Nat} {b : UInt8}
    (h : parse text = .error (.character kind i b)) (rest : Bytes) :
    parse (text.take (i + 1) ++ rest) = .error (.character kind i b) := by
  obtain ⟨passed, c, tail, rfl, hlen, hpassed, hc⟩ | hfits := exists_not_admits_or_fitsFrom text
  · rw [parse_eq_error_of_not_admits hlen hpassed hc] at h
    obtain ⟨rfl, rfl, rfl⟩ := TextFault.character.inj (Except.error.inj h)
    rw [List.take_length_add_append, List.take_succ_cons, List.take_zero, List.append_assoc,
      List.singleton_append, parse_eq_error_of_not_admits hlen hpassed hc]
  · by_cases hlen : text.length = canonicalLength
    · rw [List.take_of_length_le hlen.le] at hfits
      rw [parse_eq_ok_of_canonical (canonical_iff_fitsFrom.mpr ⟨hlen, hfits⟩)] at h
      contradiction
    · rw [parse_eq_error_of_fitsFrom hfits hlen] at h
      exact absurd (Except.error.inj h) (by simp)

/-- **The end of the longest viable prefix is reported.** A text that is refused is refused at the
length of its longest prefix that some canonical text begins with. The fault shows the byte there,
and NUL where the text ends. Its message is the one about the length exactly if that place is the
end of the text or comes after 36 bytes; otherwise the place tells whether a hyphen was expected,
and the byte whether a hyphen is misplaced. A byte that is wrong among the first 36 goes before a
wrong length, and what stands behind the byte reported has no effect. -/
theorem parse_reports_viable_end {text : Bytes} {fault : TextFault}
    (h : parse text = .error fault) :
    ∃ n, IsGreatest (viableLengths text) n ∧ fault.position? = some n ∧
      (∀ hn : n < text.length, fault.byte = text[n]) ∧ (n = text.length → fault.byte = 0) ∧
      (fault.codePoint = fault.byte.toNat ∧ fault.codePoint ≤ 255) ∧
      (fault.message =
          Bytes.ascii ("UUID has to be represented by the standard 36-char representation (got "
            ++ toString text.length ++ " chars)") ↔
        n = text.length ∨ n = 36) ∧
      (Bytes.ascii "Expected hyphen" <+: fault.message ↔
        ¬ (n = text.length ∨ n = 36) ∧ n ∈ [8, 13, 18, 23]) ∧
      (Bytes.ascii "Misplaced hyphen" <+: fault.message ↔
        ¬ (n = text.length ∨ n = 36) ∧ n ∉ [8, 13, 18, 23] ∧ text[n]? = some hyphen) ∧
      (Bytes.ascii "Non-hex character" <+: fault.message ↔
        ¬ (n = text.length ∨ n = 36) ∧ n ∉ [8, 13, 18, 23] ∧ text[n]? ≠ some hyphen) ∧
      ((∃ i, ∃ hi : i < text.length, i < 36 ∧ ¬ admits i text[i]) →
        ∃ kind i b, fault = .character kind i b) ∧
      ∀ kind i b, fault = .character kind i b →
        ∀ rest, parse (text.take (i + 1) ++ rest) = .error fault := by
  obtain ⟨n, hn, hfault⟩ :=
    exists_isGreatest_of_not_canonical (exists_parse_eq_error_iff.mp ⟨fault, h⟩)
  obtain rfl : fault = faultAt text n := Except.error.inj (h.symm.trans hfault)
  have hle := le_of_mem_viableLengths hn.1
  have hbyte := byte_faultAt hle
  refine ⟨n, hn, position?_faultAt hle, ?_, ?_, ⟨rfl, ?_⟩, ?_, ?_, ?_, ?_,
    exists_eq_character_of_parse_eq_error h, ?_⟩
  · intro hlen
    rw [hbyte, List.getElem?_eq_getElem hlen, Option.getD_some]
  · intro hlen
    rw [hbyte, List.getElem?_eq_none hlen.ge, Option.getD_none]
  · exact Nat.le_of_lt_succ (faultAt text n).byte.toNat_lt
  · rw [← TextFault.message_wrongLength _ none]
    exact message_faultAt_eq_iff hle none
  · exact message_prefix_faultAt_iff .expectedHyphen hle fun b _ => faultKind_eq_iff.1
  · refine message_prefix_faultAt_iff .misplacedHyphen hle fun b hb => ?_
    rw [hb, Option.some.injEq]
    exact faultKind_eq_iff.2.1
  · refine message_prefix_faultAt_iff .nonHex hle fun b hb => ?_
    rw [hb, ne_eq, Option.some.injEq]
    exact faultKind_eq_iff.2.2
  · intro kind i b hkind rest
    rw [hkind] at h ⊢
    exact parse_take_append h rest

/-- A digit is left out, so a hyphen comes one place too early. It is reported, and not the length;
and it is reported just so when the text ends behind it. A text that ends in front of it has only
its length to be reported. -/
theorem parse_reports_viable_end_of_early_hyphen :
    let text := Bytes.ascii "0011223-4455-4677-8899-aabbccddeeff"
    let short := Bytes.ascii "0011223"
    let early : TextFault := .character .misplacedHyphen 7 hyphen
    let tooShort : TextFault := .wrongLength 7 none
    parse text = .error early ∧ IsGreatest (viableLengths text) 7 ∧ text.length = 35 ∧
      early.message = Bytes.ascii "Misplaced hyphen at #7: '-' (value 0x2d)" ∧
      Bytes.ascii "Misplaced hyphen" <+: early.message ∧
      parse (short ++ Bytes.ascii "-") = .error early ∧
      parse short = .error tooShort ∧ IsGreatest (viableLengths short) 7 ∧
      tooShort.message = Bytes.ascii
        "UUID has to be represented by the standard 36-char representation (got 7 chars)" := by
  intro text short early tooShort
  have hparse : parse text = .error early := by decide
  have hshort : parse short = .error tooShort := by decide
  obtain ⟨n, hn, hposition, -, -, -, -, -, hmisplaced, -, -, hbehind⟩ :=
    parse_reports_viable_end hparse
  obtain rfl : 7 = n := Option.some.inj hposition
  obtain ⟨m, hm, hend, -, -, -, hlength, -⟩ := parse_reports_viable_end hshort
  obtain rfl : 7 = m := Option.some.inj hend
  have hseven : short.length = 7 := by decide
  rw [hseven] at hlength
  exact ⟨hparse, hn, by decide, by decide, hmisplaced.mpr (by decide), hbehind _ _ _ rfl [], hshort,
    hm, (hlength.mpr (.inl rfl)).trans (by decide)⟩

end Text

end UniqueId
