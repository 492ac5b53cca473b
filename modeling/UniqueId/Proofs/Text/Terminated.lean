import UniqueId.Proofs.Text.Faults

/-!
# Texts that end at a NUL

A run of bytes can be read as a whole, or as a text that ends at its first NUL. The two readings
differ only where a NUL makes them differ (`parseUntilNul_agrees_up_to_nul`).

* **Places.** No viable run holds a NUL, so the longest viable prefix is the same for both readings
  (`viableLengths_untilNul`), and with it the place that a fault names.
* **Bytes.** Where that place is the first NUL, the one reading shows the NUL as the byte at fault,
  and the other shows a NUL because the text ends there (`Bytes.getD_getElem?_untilNul`).
* **Messages** tell the readings apart, also when they are read up to a NUL themselves
  (`tfae_faultAt_untilNul`).
-/

namespace UniqueId

/-! ### Up to the first NUL -/

namespace Bytes

variable {bs cs : Bytes} {n : Nat}

theorem untilNul_eq_take (bs : Bytes) : bs.untilNul = bs.take (bs.idxOf 0) := by
  induction bs with
  | nil => rfl
  | cons b bs ih =>
    rw [untilNul_cons, List.idxOf_cons]
    by_cases hb : b = 0
    · simp [hb]
    · rw [if_neg hb, ih, beq_false_of_ne hb, cond_false, List.take_succ_cons]

theorem length_untilNul (bs : Bytes) : bs.untilNul.length = bs.idxOf 0 := by
  rw [untilNul_eq_take, List.length_take, Nat.min_eq_left List.idxOf_le_length]

theorem untilNul_append (h : 0 ∉ bs) : (bs ++ cs).untilNul = bs ++ cs.untilNul := by
  rw [untilNul_eq_take, untilNul_eq_take, List.idxOf_append_of_notMem h,
    List.take_length_add_append]

/-- A run that holds no NUL is over before the first one. -/
theorem isPrefix_untilNul_iff (h : 0 ∉ bs) : bs <+: cs.untilNul ↔ bs <+: cs := by
  rw [untilNul_eq_take, List.prefix_take_iff, and_iff_left_iff_imp]
  rintro ⟨rest, rfl⟩
  rw [List.idxOf_append_of_notMem h]
  exact Nat.le_add_right _ _

/-- Where the text ends, a NUL is read as it stands there or in place of nothing. -/
theorem getD_getElem?_untilNul (h : n ≤ bs.idxOf 0) : bs.untilNul[n]?.getD 0 = bs[n]?.getD 0 := by
  rw [untilNul_eq_take, List.getElem?_take]
  obtain hlt | rfl := Nat.lt_or_eq_of_le h
  · rw [if_pos hlt]
  · rw [if_neg (Nat.lt_irrefl _), Option.getD_none]
    by_cases hmem : 0 ∈ bs
    · rw [List.getElem?_eq_getElem (List.idxOf_lt_length_of_mem hmem), List.getElem_idxOf]
      rfl
    · rw [List.idxOf_eq_length hmem, List.getElem?_eq_none (Nat.le_refl _)]
      rfl

end Bytes

/-! ### Messages up to the first NUL -/

/-- What a message opens with is not cut off. -/
theorem CharacterFault.message_prefix_shortMessage_iff (kind : CharacterFault) (fault : Fault) :
    kind.message <+: fault.shortMessage ↔ kind.message <+: fault.message :=
  Bytes.isPrefix_untilNul_iff (by cases kind <;> decide)

namespace TextFault

variable {fault : TextFault} {l : Nat} {next : Option UInt8}

/-- A message about the length holds no NUL. -/
theorem shortMessage_wrongLength (l : Nat) (next : Option UInt8) :
    (Fault.text (.wrongLength l next)).shortMessage = (wrongLength l next).message := by
  have hdecimal : 0 ∉ Numeral.decimal l := Numeral.notMem_decimal (by decide) l
  refine Bytes.untilNul_eq_self ?_
  simp only [Fault.message, message, List.mem_append, hdecimal, or_false]
  decide

/-- **Messages about the length** tell it, and differ from all others. -/
theorem shortMessage_eq_wrongLength_iff :
    (Fault.text fault).shortMessage = (Fault.text (.wrongLength l next)).shortMessage ↔
      ∃ next', fault = .wrongLength l next' := by
  constructor
  · intro h
    cases fault with
    | character kind i b =>
      -- the kind that it opens with would open a message about the length
      have hopens : kind.message <+: (character kind i b).message :=
        CharacterFault.message_prefix_iff.mpr ⟨i, b, rfl⟩
      rw [← Fault.message, ← CharacterFault.message_prefix_shortMessage_iff, h,
        CharacterFault.message_prefix_shortMessage_iff, Fault.message,
        CharacterFault.message_prefix_iff] at hopens
      obtain ⟨i, b, hfault⟩ := hopens
      contradiction
    | wrongLength l' next' =>
      rw [shortMessage_wrongLength, shortMessage_wrongLength, message, message,
        List.append_left_inj, List.append_right_inj] at h
      obtain rfl := (Numeral.numeral_inj (by decide) (by decide)).mp h
      exact ⟨next', rfl⟩
    | missing =>
      -- they open with the same word, and the next one differs
      rw [shortMessage_wrongLength] at h
      have hletter : (wrongLength l next).message[5]? = some 104 := rfl
      rw [← h] at hletter
      exact absurd hletter (by decide)
  · rintro ⟨next', rfl⟩
    rw [shortMessage_wrongLength, shortMessage_wrongLength]
    rfl

end TextFault

namespace Text

/-! ### One end for both readings -/

/-- Nothing viable holds a NUL. -/
theorem Viable.zero_notMem {bs : Bytes} (h : Viable bs) : 0 ∉ bs := by
  obtain ⟨text, htext, hbs⟩ := h
  intro hmem
  obtain hzero | hzero := htext.eq_hyphen_or_isHexDigit (hbs.subset hmem)
  · exact absurd hzero (by decide)
  · exact absurd hzero (by decide)

theorem Canonical.zero_notMem {text : Bytes} (h : Canonical text) : 0 ∉ text :=
  Viable.zero_notMem ⟨text, h, List.prefix_rfl⟩

/-- **The same prefixes are viable**, whether a text ends at its first NUL or goes on. -/
theorem viableLengths_untilNul (text : Bytes) :
    viableLengths text.untilNul = viableLengths text := by
  ext n
  simp only [viableLengths, Set.mem_ofPred_eq]
  refine exists_congr fun bs => and_congr_left fun h => ?_
  exact Bytes.isPrefix_untilNul_iff h.1.zero_notMem

variable {text : Bytes} {n : Nat}

/-- A fault about the length of the whole is none about what stands in front of a NUL. -/
theorem faultAt_ne_wrongLength (h : 0 ∈ text) (next : Option UInt8) :
    faultAt text n ≠ .wrongLength text.untilNul.length next := by
  have hlt : text.idxOf 0 < text.length := List.idxOf_lt_length_of_mem h
  rw [faultAt, Bytes.length_untilNul]
  split
  · simp
  · intro heq
    obtain ⟨hlen, -⟩ := TextFault.wrongLength.inj heq
    omega

/-- **Messages tell the readings apart** where the longest viable prefix ends at a NUL, or after
36 bytes. In front of that, the readings report the same fault. -/
theorem tfae_faultAt_untilNul (h : 0 ∈ text) (hle : n ≤ min text.untilNul.length canonicalLength) :
    [faultAt text n = faultAt text.untilNul n,
      (faultAt text n).message = (faultAt text.untilNul n).message,
      (Fault.text (faultAt text n)).shortMessage =
        (Fault.text (faultAt text.untilNul n)).shortMessage,
      n < canonicalLength ∧ n < text.idxOf 0].TFAE := by
  tfae_have 1 → 2 := congrArg TextFault.message
  tfae_have 2 → 3 := congrArg Bytes.untilNul
  tfae_have 3 → 4 := by
    intro hshort
    rw [← Bytes.length_untilNul]
    by_contra hend
    -- the text that ends at the NUL is at its end, or too long
    rw [faultAt_of_eq (by omega : n = min text.untilNul.length canonicalLength),
      TextFault.shortMessage_eq_wrongLength_iff] at hshort
    obtain ⟨next, hfault⟩ := hshort
    exact faultAt_ne_wrongLength h next hfault
  tfae_have 4 → 1 := by
    rintro ⟨hn, hlt⟩
    have hlen : n < text.length := hlt.trans_le List.idxOf_le_length
    have hlen' : n < text.untilNul.length := by rwa [Bytes.length_untilNul]
    have hget : text.untilNul[n] = text[n] := by
      simp only [Bytes.untilNul_eq_take, List.getElem_take]
    rw [faultAt_of_lt hlen hn, faultAt_of_lt hlen' hn, hget]
  tfae_finish

/-- **Only a NUL makes the readings differ.** A text without a NUL is read the same as a whole and
as a text that ends at its first NUL. A text with a NUL is always refused as a whole; up to its
first NUL, it is read exactly if what stands in front of that is canonical, and then the NUL comes
after 36 bytes. Where both readings refuse a text, they name the same place and show the same byte;
the messages, whole or up to a NUL of their own, are the same exactly if that place is in front of
the first NUL and among the first 36. -/
theorem parseUntilNul_agrees_up_to_nul (text : Bytes) :
    (0 ∉ text → parseUntilNul (some text) = parse text) ∧
    (0 ∈ text →
      (∃ fault, parse text = .error fault) ∧
      ((∃ u, parseUntilNul (some text) = .ok u) ↔ Canonical (text.take (text.idxOf 0))) ∧
      ((∃ u, parseUntilNul (some text) = .ok u) → text.idxOf 0 = 36) ∧
      ∀ f g, parse text = .error f → parseUntilNul (some text) = .error g →
        ∃ n, f.position? = some n ∧ g.position? = some n ∧ f.byte = g.byte ∧
          f.codePoint = g.codePoint ∧
          (f.message = g.message ↔ n < 36 ∧ n < text.idxOf 0) ∧
          ((Fault.text f).shortMessage = (Fault.text g).shortMessage ↔
            n < 36 ∧ n < text.idxOf 0)) := by
  refine ⟨fun h => ?_, fun h => ⟨?_, ?_, ?_, fun f g hf hg => ?_⟩⟩
  · rw [parseUntilNul, Bytes.untilNul_eq_self h]
  · exact exists_parse_eq_error_iff.mpr fun hcanonical => hcanonical.zero_notMem h
  · rw [← Bytes.untilNul_eq_take]
    exact exists_parse_eq_ok_iff
  · intro hok
    rw [← Bytes.length_untilNul]
    exact (exists_parse_eq_ok_iff.mp hok).length_eq
  · obtain ⟨n, hn, hfault⟩ :=
      exists_isGreatest_of_not_canonical (exists_parse_eq_error_iff.mp ⟨f, hf⟩)
    obtain ⟨m, hm, hfault'⟩ :=
      exists_isGreatest_of_not_canonical (exists_parse_eq_error_iff.mp ⟨g, hg⟩)
    -- there is one longest viable prefix, and each fault is the one at its end
    obtain rfl : m = n := (viableLengths_untilNul text ▸ hm).unique hn
    obtain rfl : f = faultAt text m := Except.error.inj (hf.symm.trans hfault)
    obtain rfl : g = faultAt text.untilNul m := Except.error.inj (hg.symm.trans hfault')
    have hle := le_of_mem_viableLengths hn.1
    have hle' := le_of_mem_viableLengths hm.1
    have hbyte : (faultAt text m).byte = (faultAt text.untilNul m).byte := by
      rw [byte_faultAt hle, byte_faultAt hle', Bytes.getD_getElem?_untilNul]
      rw [← Bytes.length_untilNul]
      omega
    have hmessages := tfae_faultAt_untilNul h hle'
    exact ⟨m, position?_faultAt hle, position?_faultAt hle', hbyte, congrArg UInt8.toNat hbyte,
      hmessages.out 1 3, hmessages.out 2 3⟩

/-- A NUL in place of the first hyphen: for the one reading a byte that is no hyphen, for the other
the end of a text that is too short. Behind a canonical text, a NUL is too much for the one reading
only. -/
theorem parseUntilNul_agrees_up_to_nul_of_early :
    let plain := Bytes.ascii "00112233-4455"
    let early := Bytes.ascii "00112233" ++ [0]
    let late := Bytes.ascii "00112233-4455-6677-8899-aabbccddeeff" ++ [0]
    (0 ∉ plain ∧ parseUntilNul (some plain) = parse plain) ∧
      (0 ∈ early ∧ parse early = .error (.character .expectedHyphen 8 0) ∧
        parseUntilNul (some early) = .error (.wrongLength 8 none) ∧
        (TextFault.character .expectedHyphen 8 0).message ≠
          (TextFault.wrongLength 8 none).message) ∧
      0 ∈ late ∧ (∃ fault, parse late = .error fault) ∧
      (∃ u, parseUntilNul (some late) = .ok u) ∧ late.idxOf 0 = 36 := by
  intro plain early late
  have hplain : 0 ∉ plain := by decide
  have hearly : 0 ∈ early := by decide
  have hlate : 0 ∈ late := by decide
  have hwhole : parse early = .error (.character .expectedHyphen 8 0) := by decide
  have hcut : parseUntilNul (some early) = .error (.wrongLength 8 none) := by decide
  obtain ⟨n, hposition, -, -, -, hmessage, -⟩ :=
    ((parseUntilNul_agrees_up_to_nul early).2 hearly).2.2.2 _ _ hwhole hcut
  obtain rfl : 8 = n := Option.some.inj hposition
  obtain ⟨hrefused, hread, hplace, -⟩ := (parseUntilNul_agrees_up_to_nul late).2 hlate
  have hok := hread.mpr (by decide)
  refine ⟨⟨hplain, (parseUntilNul_agrees_up_to_nul plain).1 hplain⟩,
    ⟨hearly, hwhole, hcut, hmessage.not.mpr (by decide)⟩, hlate, hrefused, hok, hplace hok⟩

end Text

end UniqueId
