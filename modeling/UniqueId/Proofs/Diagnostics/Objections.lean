import UniqueId.Proofs.Diagnostics.Course
import UniqueId.Proofs.Text.Reading
import UniqueId.Proofs.Uuid.Codes

/-!
# What components object to

An operation fails because of an argument, and whether it does can be told from the argument: a
component **objects** to a text that is not canonical, to a place out of reach, or to a code out of
its range (`Component.Objects`). An operation ends in a fault of a component exactly if this
component objects to it (`Component.objects_iff`); so it is never left open which component speaks,
not even where two of them look.
-/

namespace UniqueId

variable {α β : Type}

/-- **Objections.** A component finds an argument of an operation unfit. -/
inductive Component.Objects : Component → Operation → Prop where
  | parse {text : Bytes} (h : ¬ Text.Canonical text) : Objects .stringCodec (.parse text)
  | parseMissing : Objects .stringCodec (.parseUntilNul none)
  | parseUntilNul {text : Bytes} (h : ¬ Text.Canonical text.untilNul) :
    Objects .stringCodec (.parseUntilNul (some text))
  | check {region : Region} {offset : Int64} (h : ¬ region.InReach offset) :
    Objects .byteCodec (.check region offset)
  | decode {region : Region} {offset : Int64} (h : ¬ region.InReach offset) :
    Objects .byteCodec (.decode region offset)
  | encode {region : Region} {offset : Int64} {u : Uuid} (h : ¬ region.InReach offset) :
    Objects .byteCodec (.encode region offset u)
  /-- The place comes before the code. -/
  | stampPlace {region : Region} {offset : Int64} {code : Int32} (h : ¬ region.InReach offset) :
    Objects .byteCodec (.stampRegion region offset code)
  | stampCode {region : Region} {offset : Int64} {code : Int32} (h : region.InReach offset)
    (hcode : code.toInt < 0 ∨ 15 < code.toInt) :
    Objects .versionTagger (.stampRegion region offset code)
  | stampHigh {code : Int32} {high : UInt64} (h : code.toInt < 0 ∨ 15 < code.toInt) :
    Objects .versionTagger (.stampHigh code high)
  | stamp {code : Int32} {u : Uuid} (h : code.toInt < 0 ∨ 15 < code.toInt) :
    Objects .versionTagger (.stamp code u)
  | timestampWithCode {code : Int32} {u : Uuid} (h : code.toInt < 0 ∨ 8 < code.toInt) :
    Objects .timestampExtractor (.timestampWithCode (some code) u)

/-! ### Checks that fail -/

theorem Region.exists_check_eq_error_iff {region : Region} {offset : Int64} :
    (∃ fault, region.check offset = .error fault) ↔ ¬ region.InReach offset := by
  rw [← check_eq_ok_iff]
  cases region.check offset with
  | ok a => simp
  | error fault => simp

theorem exists_versionOfCode_eq_error_iff {code : Int32} :
    (∃ fault, versionOfCode code = .error fault) ↔ code.toInt < 0 ∨ 15 < code.toInt := by
  simp [versionOfCode_eq_error_iff]

/-- Stamping in memory fails at the check of the place, or behind it at the code. -/
theorem Region.stamp_eq_error_iff {region : Region} {offset : Int64} {code : Int32}
    {fault : ArgumentFault} :
    region.stamp offset code = .error fault ↔
      region.check offset = .error fault ∨
        region.check offset = .ok () ∧ versionOfCode code = .error fault := by
  rw [stamp]
  cases region.check offset with
  | error f => simp
  | ok _ => cases versionOfCode code <;> simp [Except.map]

/-- How an operation made from a check fails. -/
theorem map_mapError_eq_error_iff {ε : Type} {r : Except ε α} {toFault : ε → Fault} {g : α → β}
    {fault : Fault} :
    (r.mapError toFault).map g = .error fault ↔ ∃ f, r = .error f ∧ fault = toFault f := by
  cases r with
  | ok a =>
    refine iff_of_false (fun h => ?_) (by simp)
    contradiction
  | error f =>
    constructor
    · intro h
      exact ⟨f, rfl, (Except.error.inj h).symm⟩
    · rintro ⟨f', hf, rfl⟩
      obtain rfl := Except.error.inj hf
      rfl

theorem map_eq_error_iff {ε : Type} {r : Except ε α} {g : α → β} {f : ε} :
    r.map g = .error f ↔ r = .error f := by
  cases r with
  | ok a => simp [Except.map]
  | error f => simp [Except.map]

/-! ### Operations that fail -/

namespace Component

variable {op : Operation} {fault : ArgumentFault}

/-- Whoever fails at the check of a place fails to the component that checks it. -/
theorem objects_of_check_eq_error {region : Region} {offset : Int64}
    (h : region.check offset = .error fault)
    (hop : ¬ region.InReach offset → byteCodec.Objects op) :
    (Fault.argument fault).component.Objects op := by
  rw [Fault.component, Region.component_of_check_eq_error h]
  exact hop (Region.exists_check_eq_error_iff.mp ⟨fault, h⟩)

/-- Whoever fails at the check of a code for the version field fails to the component that checks
it. -/
theorem objects_of_versionOfCode_eq_error {code : Int32} (h : versionOfCode code = .error fault)
    (hop : code.toInt < 0 ∨ 15 < code.toInt → versionTagger.Objects op) :
    (Fault.argument fault).component.Objects op := by
  rw [Fault.component, component_of_versionOfCode_eq_error h]
  exact hop (exists_versionOfCode_eq_error_iff.mp ⟨fault, h⟩)

/-- An operation fails only to an objection, and the component that objects is the one that finds
the fault. -/
theorem objects_of_run_eq_error {fault : Fault} (h : op.run = .error fault) :
    fault.component.Objects op := by
  cases op with
  | parse text =>
    obtain ⟨f, hf, rfl⟩ := map_mapError_eq_error_iff.mp h
    exact .parse (Text.exists_parse_eq_error_iff.mp ⟨f, hf⟩)
  | parseUntilNul text =>
    obtain ⟨f, hf, rfl⟩ := map_mapError_eq_error_iff.mp h
    cases text with
    | none => exact .parseMissing
    | some text => exact .parseUntilNul (Text.exists_parse_eq_error_iff.mp ⟨f, hf⟩)
  | isCanonical text => contradiction
  | toText letters u => contradiction
  | check region offset =>
    obtain ⟨f, hf, rfl⟩ := map_mapError_eq_error_iff.mp h
    exact objects_of_check_eq_error hf .check
  | decode region offset =>
    obtain ⟨f, hf, rfl⟩ := map_mapError_eq_error_iff.mp h
    exact objects_of_check_eq_error (map_eq_error_iff.mp hf) .decode
  | encode region offset u =>
    obtain ⟨f, hf, rfl⟩ := map_mapError_eq_error_iff.mp h
    exact objects_of_check_eq_error (map_eq_error_iff.mp hf) .encode
  | toBytes u => contradiction
  | kind u => contradiction
  | stampHigh code high =>
    obtain ⟨f, hf, rfl⟩ := map_mapError_eq_error_iff.mp h
    exact objects_of_versionOfCode_eq_error (map_eq_error_iff.mp hf) .stampHigh
  | stampLow low => contradiction
  | stamp code u =>
    obtain ⟨f, hf, rfl⟩ := map_mapError_eq_error_iff.mp h
    exact objects_of_versionOfCode_eq_error (map_eq_error_iff.mp hf) .stamp
  | stampRegion region offset code =>
    obtain ⟨f, hf, rfl⟩ := map_mapError_eq_error_iff.mp h
    obtain hplace | ⟨hplace, hcode⟩ := Region.stamp_eq_error_iff.mp hf
    · exact objects_of_check_eq_error hplace .stampPlace
    · have hreach := Region.check_eq_ok_iff.mp hplace
      exact objects_of_versionOfCode_eq_error hcode (.stampCode hreach)
  | timestampWithCode code u =>
    obtain ⟨f, hf, rfl⟩ := map_mapError_eq_error_iff.mp h
    obtain ⟨c, rfl, hforeign, rfl⟩ := Uuid.timestampWithCode_eq_error_iff.mp hf
    exact .timestampWithCode hforeign
  | timestamp u =>
    -- an identifier's own kind has a code of its own
    obtain ⟨f, hf, rfl⟩ := map_mapError_eq_error_iff.mp h
    rw [Uuid.timestamp_eq_ok] at hf
    contradiction

/-- An objection makes the operation fail. -/
theorem exists_run_eq_error_of_objects {component : Component} (h : component.Objects op) :
    ∃ fault, op.run = .error fault ∧ fault.component = component := by
  have hplace : ∀ {region : Region} {offset : Int64}, ¬ region.InReach offset →
      ∃ f, region.check offset = .error f ∧ f.component = .byteCodec := by
    intro region offset hfar
    obtain ⟨f, hf⟩ := Region.exists_check_eq_error_iff.mpr hfar
    exact ⟨f, hf, Region.component_of_check_eq_error hf⟩
  have hversion : ∀ {code : Int32}, code.toInt < 0 ∨ 15 < code.toInt →
      ∃ f, versionOfCode code = .error f ∧ f.component = .versionTagger := by
    intro code hwide
    obtain ⟨f, hf⟩ := exists_versionOfCode_eq_error_iff.mpr hwide
    exact ⟨f, hf, component_of_versionOfCode_eq_error hf⟩
  cases h with
  | parse h =>
    obtain ⟨f, hf⟩ := Text.exists_parse_eq_error_iff.mpr h
    exact ⟨.text f, map_mapError_eq_error_iff.mpr ⟨f, hf, rfl⟩, rfl⟩
  | parseMissing => exact ⟨.text .missing, rfl, rfl⟩
  | parseUntilNul h =>
    obtain ⟨f, hf⟩ := Text.exists_parse_eq_error_iff.mpr h
    exact ⟨.text f, map_mapError_eq_error_iff.mpr ⟨f, hf, rfl⟩, rfl⟩
  | check h =>
    obtain ⟨f, hf, hcomponent⟩ := hplace h
    exact ⟨.argument f, map_mapError_eq_error_iff.mpr ⟨f, hf, rfl⟩, hcomponent⟩
  | decode h =>
    obtain ⟨f, hf, hcomponent⟩ := hplace h
    exact ⟨.argument f, map_mapError_eq_error_iff.mpr ⟨f, map_eq_error_iff.mpr hf, rfl⟩, hcomponent⟩
  | encode h =>
    obtain ⟨f, hf, hcomponent⟩ := hplace h
    exact ⟨.argument f, map_mapError_eq_error_iff.mpr ⟨f, map_eq_error_iff.mpr hf, rfl⟩, hcomponent⟩
  | stampPlace h =>
    obtain ⟨f, hf, hcomponent⟩ := hplace h
    refine ⟨.argument f, map_mapError_eq_error_iff.mpr ⟨f, ?_, rfl⟩, hcomponent⟩
    exact Region.stamp_eq_error_iff.mpr (.inl hf)
  | stampCode h hcode =>
    obtain ⟨f, hf, hcomponent⟩ := hversion hcode
    refine ⟨.argument f, map_mapError_eq_error_iff.mpr ⟨f, ?_, rfl⟩, hcomponent⟩
    exact Region.stamp_eq_error_iff.mpr (.inr ⟨Region.check_eq_ok_iff.mpr h, hf⟩)
  | stampHigh h =>
    obtain ⟨f, hf, hcomponent⟩ := hversion h
    exact ⟨.argument f, map_mapError_eq_error_iff.mpr ⟨f, map_eq_error_iff.mpr hf, rfl⟩, hcomponent⟩
  | stamp h =>
    obtain ⟨f, hf, hcomponent⟩ := hversion h
    exact ⟨.argument f, map_mapError_eq_error_iff.mpr ⟨f, map_eq_error_iff.mpr hf, rfl⟩, hcomponent⟩
  | @timestampWithCode code u h =>
    refine ⟨.argument (.unknownKind code), map_mapError_eq_error_iff.mpr ⟨_, ?_, rfl⟩, rfl⟩
    exact Uuid.timestampWithCode_eq_error_iff.mpr ⟨code, rfl, h, rfl⟩

/-- **A component speaks exactly if it objects.** -/
theorem objects_iff {component : Component} :
    component.Objects op ↔ ∃ fault, op.run = .error fault ∧ fault.component = component := by
  constructor
  · exact exists_run_eq_error_of_objects
  · rintro ⟨fault, hfault, rfl⟩
    exact objects_of_run_eq_error hfault

end Component

end UniqueId
