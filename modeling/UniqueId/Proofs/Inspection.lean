import UniqueId.Inspection
import UniqueId.Proofs.Session
import UniqueId.Proofs.Text.RoundTrip

/-!
# What an inspection finds

An inspection ends in a fault only if the text does, for the padded buffer has room. Otherwise all
that it finds is about the identifier of the text: its bytes stand between the padding, its kind and
its time are told, and the text comes back in lower case (`Inspection.ofText_eq`).
-/

namespace UniqueId

/-- A run of bytes written into padding leaves the padding before and behind it. -/
theorem Bytes.splice_replicate (new : Bytes) (before after : Nat) (b : UInt8) :
    splice (List.replicate (before + new.length + after) b) before new =
      List.replicate before b ++ new ++ List.replicate after b := by
  have hbefore : min before (before + new.length + after) = before := by omega
  have hafter : before + new.length + after - (before + new.length) = after := by omega
  rw [splice, List.take_replicate, List.drop_replicate, hbefore, hafter]

namespace Inspection

variable {text : Bytes} {padding : Nat}

/-- The padding before an identifier is written into it. -/
def blank (padding : Nat) : Bytes :=
  List.replicate (padding + Uuid.size + trailing) paddingByte

section Room

variable (h : padding + Uuid.size + trailing < 2 ^ 63)

include h

theorem toInt_ofNat_padding : (Int64.ofNat padding).toInt = padding :=
  Int64.toInt_ofNat_of_lt (by omega)

/-- The padded buffer has room for an identifier. -/
theorem inReach_blank : (Region.ofGrowable (blank padding)).InReach (Int64.ofNat padding) := by
  have hpadding := toInt_ofNat_padding h
  have hblank : Region.ofGrowable (blank padding) = Region.ofBytes (blank padding) := rfl
  have hlength :
      (Region.ofBytes (blank padding)).length.toNat = padding + Uuid.size + trailing := by
    rw [Region.ofBytes, blank, List.length_replicate, UInt64.toNat_ofNat']
    omega
  rw [hblank]
  refine ⟨rfl, by omega, ?_⟩
  rw [hpadding, hlength, Uuid.size]
  omega

theorem contents_write_blank (u : Uuid) :
    ((Region.ofGrowable (blank padding)).write (Int64.ofNat padding) u).contents =
      List.replicate padding paddingByte ++ u.toBytes ++ List.replicate trailing paddingByte := by
  have hoffset : (Int64.ofNat padding).toNatClampNeg = padding := by
    rw [← Int64.toNat_toInt, toInt_ofNat_padding h, Int.toNat_natCast]
  rw [Region.contents_write, Region.contents_ofGrowable, hoffset, blank, ← u.length_toBytes,
    Bytes.splice_replicate]

/-- **An inspection finds the identifier of the text**, as long as the padding is not longer than
any memory. -/
theorem ofText_eq (text : Bytes) :
    ofText padding text = ((Text.parse text).mapError .text).map fun u =>
      { uuid := u
        wire := List.replicate padding 0xEE ++ u.toBytes ++ [0xEE, 0xEE]
        kind := u.kind?
        timestamp := u.kind?.elim 0 u.timestampAs
        text := text.map LetterCase.lower.fold } := by
  have hreach := inReach_blank h
  rw [ofText]
  cases hparse : Text.parse text with
  | error fault => rfl
  | ok u =>
    have hencode := Region.encode_of_inReach hreach u
    have hdecode := Region.decode_write_self hreach (Region.backed_ofGrowable _) u
    have htimestamp : u.timestampWithCode (u.kind?.map Kind.code) =
        .ok (u.kind?.elim 0 u.timestampAs) := u.timestamp_eq_ok
    have hwire := contents_write_blank h u
    have htext := Text.toText_of_parse_eq_ok .lower hparse
    rw [blank] at hencode hdecode hwire
    simp only [Except.mapError, bind, Except.bind, hencode, hdecode, htimestamp, hwire, htext]
    rfl

end Room

end Inspection

end UniqueId
