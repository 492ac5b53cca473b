import UniqueId.Proofs.Text.Terminated

/-!
# Messages are unambiguous

A message quotes the byte at fault raw, and is read up to its first NUL. So the byte can be a quote,
a figure or a line break, and if it is a NUL it takes with it all that the message says behind it.
Still nothing is lost (`TextFault.shortMessage_eq_iff`), because the message is read from the left:

* what it opens with is the kind of the fault (`CharacterFault.message_prefix_shortMessage_iff`);
* then comes the place, in figures that end at a colon (`TextFault.opening_append_inj`);
* then comes the byte, and if there is nothing, the byte was the NUL that ends the reading
  (`Bytes.eq_of_untilNul_cons_eq`).

What stands behind the byte is not needed. Faults about the length are told apart by the length
(`TextFault.shortMessage_eq_wrongLength_iff`); of the byte behind the first 36 their messages say
nothing.
-/

namespace UniqueId

/-- The first byte is told from what stands in front of the first NUL, even if it is that NUL. -/
theorem Bytes.eq_of_untilNul_cons_eq {b c : UInt8} {bs cs : Bytes}
    (h : untilNul (b :: bs) = untilNul (c :: cs)) : b = c := by
  have hfirst : ∀ (b : UInt8) (bs : Bytes), (untilNul (b :: bs))[0]?.getD 0 = b := fun b bs =>
    getD_getElem?_untilNul (Nat.zero_le _)
  rw [← hfirst b bs, h, hfirst]

namespace TextFault

variable {fault f g : TextFault} {kind : CharacterFault} {i j : Nat} {b : UInt8} {bs cs : Bytes}

/-! ### Reading from the left -/

/-- What the message of a character fault says in front of the byte. -/
def opening (kind : CharacterFault) (i : Nat) : Bytes :=
  kind.message ++ Bytes.ascii " at #" ++ Numeral.decimal i ++ Bytes.ascii ": '"

theorem message_character (kind : CharacterFault) (i : Nat) (b : UInt8) :
    (character kind i b).message = opening kind i ++ b :: (Bytes.ascii "' (value 0x"
      ++ Numeral.numeral .lower 16 b.toNat ++ Bytes.ascii ")") := by
  rw [message, opening]
  simp only [List.append_assoc, List.cons_append, List.nil_append]

theorem zero_notMem_opening (kind : CharacterFault) (i : Nat) : 0 ∉ opening kind i := by
  have hdecimal : 0 ∉ Numeral.decimal i := Numeral.notMem_decimal (by decide) i
  simp only [opening, List.mem_append, hdecimal, or_false]
  cases kind <;> decide

/-- The place is told from the figures in front of the colon. -/
theorem opening_append_inj :
    opening kind i ++ bs = opening kind j ++ cs ↔ i = j ∧ bs = cs := by
  have hcolon : Bytes.ascii ": '" = [58, 32, 39] := by decide
  simp only [opening, Numeral.decimal, hcolon, List.append_assoc, List.append_right_inj,
    List.cons_append]
  rw [Numeral.numeral_append_cons_inj (by decide) (by decide) (by decide) (by decide)]
  simp only [List.nil_append, List.cons.injEq, true_and]

/-! ### Short messages -/

/-- **Messages about a character** tell its kind, its place and its byte, and differ from all
others. -/
theorem shortMessage_eq_character_iff :
    (Fault.text fault).shortMessage = (Fault.text (.character kind i b)).shortMessage ↔
      fault = .character kind i b := by
  refine ⟨fun h => ?_, fun h => by rw [h]⟩
  have hopens : kind.message <+: (character kind i b).message :=
    CharacterFault.message_prefix_iff.mpr ⟨i, b, rfl⟩
  rw [← Fault.message, ← CharacterFault.message_prefix_shortMessage_iff, ← h,
    CharacterFault.message_prefix_shortMessage_iff, Fault.message,
    CharacterFault.message_prefix_iff] at hopens
  obtain ⟨j, c, rfl⟩ := hopens
  rw [Fault.shortMessage, Fault.shortMessage, Fault.message, Fault.message, message_character,
    message_character, Bytes.untilNul_append (zero_notMem_opening kind j),
    Bytes.untilNul_append (zero_notMem_opening kind i), opening_append_inj] at h
  obtain ⟨rfl, hbyte⟩ := h
  rw [Bytes.eq_of_untilNul_cons_eq hbyte]

/-- **Reading up to a NUL loses nothing.** -/
theorem shortMessage_eq_iff :
    (Fault.text f).shortMessage = (Fault.text g).shortMessage ↔ f.message = g.message := by
  refine ⟨fun h => ?_, congrArg Bytes.untilNul⟩
  cases g with
  | character kind i b => rw [shortMessage_eq_character_iff.mp h]
  | wrongLength length next =>
    obtain ⟨next', rfl⟩ := shortMessage_eq_wrongLength_iff.mp h
    rfl
  | missing =>
    cases f with
    | character kind i b => exact absurd (shortMessage_eq_character_iff.mp h.symm) (by simp)
    | wrongLength length next =>
      obtain ⟨next', hnext⟩ := shortMessage_eq_wrongLength_iff.mp h.symm
      contradiction
    | missing => rfl

end TextFault

namespace Text

variable {text s t : Bytes} {f g : TextFault}

/-! ### Texts that are refused -/

/-- A fault of a text is about the byte at its place, or about the length of the text. -/
theorem eq_character_or_wrongLength_of_parse_eq_error (h : parse text = .error f) :
    (∃ kind i b, f = .character kind i b ∧ text[i]? = some b) ∨
      ∃ next, f = .wrongLength text.length next := by
  obtain ⟨n, hn, hfault⟩ :=
    exists_isGreatest_of_not_canonical (exists_parse_eq_error_iff.mp ⟨f, h⟩)
  obtain rfl : f = faultAt text n := Except.error.inj (h.symm.trans hfault)
  obtain hlt | heq := Nat.lt_or_eq_of_le (le_of_mem_viableLengths hn.1)
  · have hlen : n < text.length := by omega
    rw [faultAt_of_lt hlen (by omega)]
    exact .inl ⟨_, n, _, rfl, List.getElem?_eq_getElem hlen⟩
  · rw [faultAt_of_eq heq]
    exact .inr ⟨_, rfl⟩

/-- **Messages are unambiguous**, also when they are read up to their first NUL. Two texts that are
refused are refused with one message exactly if both have a wrong length, and the same one; or a
character of each is at fault, in the same way, at the same place, and it is the same byte. Reading
the whole messages tells no more. -/
theorem shortMessage_unambiguous (hs : parse s = .error f) (ht : parse t = .error g) :
    ((Fault.text f).shortMessage = (Fault.text g).shortMessage ↔
      (∃ m n, f = .wrongLength s.length m ∧ g = .wrongLength t.length n ∧
        s.length = t.length) ∨
      ∃ kind i b, f = .character kind i b ∧ g = .character kind i b ∧
        s[i]? = some b ∧ t[i]? = some b) ∧
    ((Fault.text f).shortMessage = (Fault.text g).shortMessage ↔ f.message = g.message) := by
  refine ⟨⟨fun h => ?_, ?_⟩, TextFault.shortMessage_eq_iff⟩
  · obtain ⟨kind, i, b, rfl, hb⟩ | ⟨n, rfl⟩ := eq_character_or_wrongLength_of_parse_eq_error ht
    · obtain rfl := TextFault.shortMessage_eq_character_iff.mp h
      obtain ⟨_, _, _, hfault, hb'⟩ | ⟨_, hfault⟩ :=
        eq_character_or_wrongLength_of_parse_eq_error hs
      · obtain ⟨rfl, rfl, rfl⟩ := TextFault.character.inj hfault
        exact .inr ⟨kind, i, b, rfl, rfl, hb', hb⟩
      · contradiction
    · obtain ⟨m, rfl⟩ := TextFault.shortMessage_eq_wrongLength_iff.mp h
      obtain ⟨_, _, _, hfault, _⟩ | ⟨_, hfault⟩ :=
        eq_character_or_wrongLength_of_parse_eq_error hs
      · contradiction
      · obtain ⟨hlen, -⟩ := TextFault.wrongLength.inj hfault
        exact .inl ⟨m, n, by rw [hlen], rfl, hlen.symm⟩
  · rintro (⟨m, n, rfl, rfl, hlen⟩ | ⟨kind, i, b, rfl, rfl, -, -⟩)
    · rw [TextFault.shortMessage_eq_wrongLength_iff, hlen]
      exact ⟨m, rfl⟩
    · rfl

/-- A NUL and a quote at the beginning of a text: the message about the former is cut off where the
message about the latter goes on. Another text that begins with a NUL is refused in the same
words. -/
theorem shortMessage_unambiguous_of_cut :
    let cut := [0]
    let quote := Bytes.ascii "'"
    let long := 0 :: Bytes.ascii "0112233-4455-6677-8899-aabbccddeeff"
    (parse cut = .error (.character .nonHex 0 0) ∧
      parse quote = .error (.character .nonHex 0 39) ∧
      parse long = .error (.character .nonHex 0 0)) ∧
      (Fault.text (.character .nonHex 0 0)).shortMessage <+:
        (Fault.text (.character .nonHex 0 39)).shortMessage ∧
      (Fault.text (.character .nonHex 0 0)).shortMessage ≠
        (Fault.text (.character .nonHex 0 39)).shortMessage ∧
      cut.length ≠ long.length ∧ cut[0]? = some 0 ∧ long[0]? = some 0 := by
  intro cut quote long
  have hcut : parse cut = .error (.character .nonHex 0 0) := by decide
  have hquote : parse quote = .error (.character .nonHex 0 39) := by decide
  have hlong : parse long = .error (.character .nonHex 0 0) := by decide
  have hdiffer := (shortMessage_unambiguous hcut hquote).1.not.mpr (by simp)
  obtain ⟨m, n, hfault, -⟩ | ⟨kind, i, b, hfault, -, hfirst, hsecond⟩ :=
    (shortMessage_unambiguous hcut hlong).1.mp rfl
  · contradiction
  · obtain ⟨-, rfl, rfl⟩ := TextFault.character.inj hfault
    exact ⟨⟨hcut, hquote, hlong⟩, by decide, hdiffer, by decide, hfirst, hsecond⟩

end Text

end UniqueId
