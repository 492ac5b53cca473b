import Mathlib.Data.List.Infix
import UniqueId.Log.Entry
import UniqueId.Proofs.Stream.Identifier

/-!
# Formats taken apart at their placeholders

A format is a run of **parts** with placeholders between them. No two placeholders overlap, so there
is one way only to take a format apart into parts that hold none (`parts_eq_iff`), and looking for
placeholders from left to right finds it. A message is then the parts of its format, with the texts
of the arguments between them as long as there are any and placeholders after
(`substitute_eq_fill`).

* **Texts** are those that arguments leave on a fresh stream. Streams are opened and closed along
  the way: a stream takes bytes of the format, one by one, until an argument has been inserted, and
  what follows goes to the next (`compose`). A byte changes no setting of a fresh stream, so every
  argument finds its stream fresh (`compose_fresh`).
* **Formats put together** have the parts of both, unless a placeholder comes about where they meet
  (`substitute_append`).
-/

namespace UniqueId.Log

/-! ### What a format begins with -/

/-- **Induction along a format**: it is empty, or begins with a placeholder, or begins with a byte
that opens none. -/
@[elab_as_elim]
theorem placeholder_induction {motive : Bytes → Prop} (nil : motive [])
    (placeholder : ∀ format, motive format → motive (placeholder ++ format))
    (cons : ∀ b format, ¬ (b = openBrace ∧ format.head? = some closeBrace) → motive format →
      motive (b :: format))
    (format : Bytes) : motive format := by
  induction h : format.length using Nat.strongRecOn generalizing format with
  | ind n ih =>
    subst h
    match format with
    | [] => exact nil
    | [b] => exact cons b [] (by simp) nil
    | b :: c :: format =>
      by_cases hb : b = openBrace ∧ c = closeBrace
      · obtain ⟨rfl, rfl⟩ := hb
        exact placeholder format (ih _ (by simp) format rfl)
      · exact cons b (c :: format) (by simpa using hb) (ih _ (by simp) _ rfl)

/-! ### Parts -/

/-- A format taken apart at its placeholders. -/
structure Parts where
  /-- What stands before the first placeholder. -/
  first : Bytes
  /-- What stands behind each placeholder, up to the next one. -/
  rest : List Bytes
deriving DecidableEq, Repr

/-- Takes a format apart, looking for placeholders from left to right. -/
def parts : Bytes → Parts
  | b :: c :: format =>
    if b = openBrace ∧ c = closeBrace then ⟨[], (parts format).first :: (parts format).rest⟩
    else { parts (c :: format) with first := b :: (parts (c :: format)).first }
  | format => ⟨format, []⟩

theorem parts_placeholder (format : Bytes) :
    parts (placeholder ++ format) = ⟨[], (parts format).first :: (parts format).rest⟩ := by
  simp [placeholder, parts]

theorem parts_cons {b : UInt8} {format : Bytes}
    (h : ¬ (b = openBrace ∧ format.head? = some closeBrace)) :
    parts (b :: format) = { parts format with first := b :: (parts format).first } := by
  cases format with
  | nil => rfl
  | cons c format => rw [parts, if_neg (by simpa using h)]

namespace Parts

/-- Puts parts together: with texts between them as long as there are any, and with placeholders
after. -/
def fill (p : Parts) (texts : List Bytes) : Bytes :=
  p.first ++ (List.zipWith (· ++ ·) texts p.rest).flatten
    ++ ((p.rest.drop texts.length).map (placeholder ++ ·)).flatten

/-- Parts are **clean** if no placeholder is left in any of them. -/
def Clean (p : Parts) : Prop :=
  ∀ part ∈ p.first :: p.rest, ¬ placeholder <:+: part

theorem fill_cons (first part : Bytes) (rest : List Bytes) (text : Bytes) (texts : List Bytes) :
    fill ⟨first, part :: rest⟩ (text :: texts) = first ++ text ++ fill ⟨part, rest⟩ texts := by
  simp [fill]

theorem fill_nil (first part : Bytes) (rest : List Bytes) :
    fill ⟨first, part :: rest⟩ [] = first ++ placeholder ++ fill ⟨part, rest⟩ [] := by
  simp [fill]

theorem fill_first_cons (b : UInt8) (p : Parts) (texts : List Bytes) :
    fill { p with first := b :: p.first } texts = b :: p.fill texts := by
  simp [fill]

/-- There is room for as many texts as there are placeholders. -/
theorem fill_take (p : Parts) (texts : List Bytes) :
    p.fill (texts.take p.rest.length) = p.fill texts := by
  obtain ⟨first, rest⟩ := p
  induction rest generalizing first texts with
  | nil => simp [fill]
  | cons part rest ih =>
    cases texts with
    | nil => rfl
    | cons text texts =>
      rw [List.length_cons, List.take_succ_cons, fill_cons, fill_cons, ih]

end Parts

/-- Put together with placeholders, the parts of a format are the format. -/
theorem fill_parts (format : Bytes) : (parts format).fill [] = format := by
  induction format using placeholder_induction with
  | nil => rfl
  | placeholder format ih => rw [parts_placeholder, Parts.fill_nil, ih, List.nil_append]
  | cons b format h ih => rw [parts_cons h, Parts.fill_first_cons, ih]

/-- **A message is the parts of its format, with the texts between them.** -/
theorem substitute_eq_fill (format : Bytes) (texts : List Bytes) :
    substitute format texts = (parts format).fill texts := by
  induction format using placeholder_induction generalizing texts with
  | nil =>
    unfold substitute
    simp [parts, Parts.fill]
  | placeholder format ih =>
    cases texts with
    | nil => rw [substitute_nil, fill_parts]
    | cons text texts =>
      rw [substitute_placeholder, ih, parts_placeholder, Parts.fill_cons, List.nil_append]
  | cons b format h ih => rw [substitute_cons h, ih, parts_cons h, Parts.fill_first_cons]

/-! ### One way only -/

/-- A part that holds no placeholder goes before what is found behind it, unless the two make one
where they meet. -/
theorem parts_append {part rest : Bytes} (h : ¬ placeholder <:+: part)
    (hrest : rest.head? ≠ some closeBrace) :
    parts (part ++ rest) = { parts rest with first := part ++ (parts rest).first } := by
  induction part with
  | nil => rfl
  | cons b part ih =>
    rw [List.infix_cons_iff, not_or] at h
    -- the byte behind is in the part, or is the first of the rest where the part ends
    have hopens : ¬ (b = openBrace ∧ (part ++ rest).head? = some closeBrace) := by
      rintro ⟨rfl, hhead⟩
      cases part with
      | nil => exact hrest hhead
      | cons c part =>
        obtain rfl : c = closeBrace := by simpa using hhead
        exact h.1 ⟨part, rfl⟩
    rw [List.cons_append, parts_cons hopens, ih h.2, List.cons_append]

/-- Clean parts are found again. -/
theorem parts_fill {p : Parts} (h : p.Clean) : parts (p.fill []) = p := by
  obtain ⟨first, rest⟩ := p
  have hfirst : ¬ placeholder <:+: first := h first List.mem_cons_self
  induction rest generalizing first with
  | nil =>
    have hnil : ([] : Bytes).head? ≠ some closeBrace := by simp
    simpa [Parts.fill, parts] using parts_append hfirst hnil
  | cons part rest ih =>
    have hrest : Parts.Clean ⟨part, rest⟩ := fun q hq => h q (List.mem_cons_of_mem _ hq)
    have hopens (format : Bytes) : (placeholder ++ format).head? ≠ some closeBrace := by
      simp only [placeholder, List.cons_append, List.head?_cons]
      decide
    rw [Parts.fill_nil, List.append_assoc, parts_append hfirst (hopens _), parts_placeholder,
      ih part hrest (hrest part List.mem_cons_self), List.append_nil]

/-- What is found first is what the format begins with. -/
theorem isPrefix_first_parts (format : Bytes) : (parts format).first <+: format := by
  conv_rhs => rw [← fill_parts format, Parts.fill]
  exact ⟨_, (List.append_assoc _ _ _).symm⟩

/-- What is found is clean. -/
theorem clean_parts (format : Bytes) : (parts format).Clean := by
  induction format using placeholder_induction with
  | nil => simp [Parts.Clean, parts, placeholder]
  | placeholder format ih =>
    rw [parts_placeholder, Parts.Clean, List.forall_mem_cons]
    exact ⟨by simp [placeholder], ih⟩
  | cons b format h ih =>
    rw [Parts.Clean, List.forall_mem_cons] at ih
    rw [parts_cons h, Parts.Clean, List.forall_mem_cons]
    refine ⟨fun hinfix => ?_, ih.2⟩
    obtain hprefix | hinfix := List.infix_cons_iff.mp hinfix
    · -- the first two bytes would be those of the format
      obtain ⟨hb, hfirst⟩ := List.cons_prefix_cons.mp hprefix
      obtain ⟨rest, hrest⟩ := hfirst.trans (isPrefix_first_parts format)
      exact h ⟨hb.symm, by rw [← hrest]; rfl⟩
    · exact ih.1 hinfix

/-- **One way only**: clean parts are those of a format exactly if they put it together. -/
theorem parts_eq_iff {format : Bytes} {p : Parts} :
    parts format = p ↔ p.fill [] = format ∧ p.Clean := by
  constructor
  · rintro rfl
    exact ⟨fill_parts format, clean_parts format⟩
  · rintro ⟨rfl, hclean⟩
    exact parts_fill hclean

/-! ### Formats put together -/

/-- **Formats put together** take the arguments of the first, then those of the second, unless a
placeholder comes about where they meet. -/
theorem substitute_append {f g : Bytes} {xs : List Bytes}
    (hmeet : ¬ (f.getLast? = some openBrace ∧ g.head? = some closeBrace))
    (hxs : xs.length = (parts f).rest.length) (ys : List Bytes) :
    substitute (f ++ g) (xs ++ ys) = substitute f xs ++ substitute g ys := by
  induction f using placeholder_induction generalizing xs with
  | nil =>
    obtain rfl : xs = [] := List.length_eq_zero_iff.mp hxs
    rw [substitute_nil, List.nil_append, List.nil_append, List.nil_append]
  | placeholder f ih =>
    rw [parts_placeholder] at hxs
    obtain ⟨x, xs, rfl⟩ := List.exists_cons_of_length_eq_add_one hxs
    have hmeet' : ¬ (f.getLast? = some openBrace ∧ g.head? = some closeBrace) := fun hfg =>
      hmeet ⟨by rw [List.getLast?_append, hfg.1, Option.some_or], hfg.2⟩
    rw [List.append_assoc, List.cons_append, substitute_placeholder, substitute_placeholder,
      ih hmeet' (by simpa using hxs), List.append_assoc]
  | cons b f h ih =>
    rw [parts_cons h] at hxs
    have hmeet' : ¬ (f.getLast? = some openBrace ∧ g.head? = some closeBrace) := fun hfg =>
      hmeet ⟨by rw [List.getLast?_cons, hfg.1, Option.getD_some], hfg.2⟩
    -- what stands behind the byte is in the first format, or the second where that one ends
    have hopens : ¬ (b = openBrace ∧ (f ++ g).head? = some closeBrace) := by
      cases f with
      | nil => simpa using hmeet
      | cons c f => exact h
    rw [List.cons_append, substitute_cons hopens, substitute_cons h, ih hmeet' hxs,
      List.cons_append]

/-! ### Streams on the way -/

/-- The text of a signed number on a stream. In bases other than ten there is no sign, and the
number stands for the word that holds it. -/
def signedNumber (s : Stream.Format) (i : Int64) : Bytes :=
  if s.flags.base = .decimal ∧ i < 0 then
    s.field (Bytes.ascii "-") (Numeral.decimal i.toInt.natAbs)
  else s.number i.toUInt64

/-- An argument inserted into a stream: the text, and the settings after it. -/
def Argument.insert (a : Argument) (s : Stream.Format) : Bytes × Stream.Format :=
  match a with
  | text t => s.apply (.text t)
  | int i => (signedNumber s i, { s with width := 0 })
  | nat n => s.apply (.number n)
  | bool b => s.apply (.number (if b then 1 else 0))
  | byte b => s.apply (.text [b])
  | uuid u => s.insertUuid u

/-- The message composed on streams. The first stream takes the format byte by byte; at a
placeholder it takes a value and is done, and a fresh stream goes on with the format behind. Where
the format is exhausted no more values are taken, and where no value is left the rest of the format
is copied. A value is anything that writes a text and changes the settings as the settings
decide. -/
def compose (s : Stream.Format) : Bytes → List (Stream.Format → Bytes × Stream.Format) → Bytes
  | format, [] => format
  | [], _ :: _ => []
  | [b], _ :: _ => (s.apply (.text [b])).1
  | b :: c :: format, value :: values =>
    if b = openBrace ∧ c = closeBrace then (value s).1 ++ compose {} format values
    else (s.apply (.text [b])).1 ++ compose (s.apply (.text [b])).2 (c :: format) (value :: values)

/-- A fresh stream writes texts as they are. -/
theorem text_fresh (t : Bytes) : ({} : Stream.Format).text t = t :=
  Stream.Format.text_of_width_eq_zero t rfl

/-- A fresh stream writes numbers in decimal. -/
theorem number_fresh (n : UInt64) : ({} : Stream.Format).number n = Numeral.decimal n.toNat := by
  rw [Stream.Format.number, Stream.Format.field_of_width_le (Int.natCast_nonneg _)]
  rfl

theorem signedNumber_fresh (i : Int64) :
    signedNumber {} i = Numeral.signedDecimal i.toInt := by
  by_cases hneg : i < 0
  · obtain ⟨n, hn⟩ := Int.eq_negSucc_of_lt_zero (Int64.lt_iff_toInt_lt.mp hneg)
    rw [signedNumber, if_pos ⟨rfl, hneg⟩,
      Stream.Format.field_of_width_le (Int.natCast_nonneg _), hn]
    rfl
  · have hle : 0 ≤ i := Int64.not_lt.mp hneg
    rw [signedNumber, if_neg (fun h => hneg h.2), number_fresh, Int64.toNat_toUInt64_of_le hle,
      Int64.toInt_eq_toNatClampNeg hle]
    rfl

/-- **An argument's text** is the one it leaves on a fresh stream. -/
theorem Argument.insert_fresh (a : Argument) : (a.insert {}).1 = a.render := by
  cases a with
  | text t => exact text_fresh t
  | int i => exact signedNumber_fresh i
  | nat n => exact number_fresh n
  | bool b => cases b <;> decide
  | byte b => exact text_fresh [b]
  | uuid u => exact Stream.Format.fresh_insertUuid .lower u

/-- A byte of the format stands as it is on a fresh stream, and leaves it fresh. -/
theorem apply_byte_fresh (b : UInt8) : ({} : Stream.Format).apply (.text [b]) = ([b], {}) :=
  Prod.ext (text_fresh [b]) rfl

variable (value : Stream.Format → Bytes × Stream.Format)
  (values : List (Stream.Format → Bytes × Stream.Format))

theorem compose_placeholder (s : Stream.Format) (format : Bytes) :
    compose s (placeholder ++ format) (value :: values) =
      (value s).1 ++ compose {} format values := by
  simp [placeholder, compose]

theorem compose_cons (s : Stream.Format) {b : UInt8} {format : Bytes}
    (h : ¬ (b = openBrace ∧ format.head? = some closeBrace)) :
    compose s (b :: format) (value :: values) =
      (s.apply (.text [b])).1 ++ compose (s.apply (.text [b])).2 format (value :: values) := by
  cases format with
  | nil => simp [compose]
  | cons c format => rw [compose, if_neg (by simpa using h)]

/-- **Streams are of no account**: every value finds its stream fresh. -/
theorem compose_fresh (format : Bytes) :
    compose {} format values = substitute format (values.map fun value => (value {}).1) := by
  induction format using placeholder_induction generalizing values with
  | nil => cases values <;> rfl
  | placeholder format ih =>
    cases values with
    | nil => rw [List.map_nil, substitute_nil, compose]
    | cons value values =>
      rw [compose_placeholder, ih, List.map_cons, substitute_placeholder]
  | cons b format h ih =>
    cases values with
    | nil => rw [List.map_nil, substitute_nil, compose]
    | cons value values =>
      -- the stream that took the byte is fresh again, so the hypothesis applies to it
      rw [compose_cons _ _ _ h, apply_byte_fresh, ih, substitute_cons h]
      rfl

/-! ### Messages -/

namespace Entry

theorem message_of_zero_notMem (e : Entry) (h : 0 ∉ e.format) :
    e.message = substitute e.format (e.arguments.map fun a => (a.insert {}).1) := by
  rw [message, Bytes.untilNul_eq_self h]
  simp only [Argument.insert_fresh]

/-- **A message is its format with the arguments in place of the placeholders.** There is one way
only to take a format apart so that its parts hold no placeholder and are the format again when put
together with placeholders; looking for placeholders from left to right finds it. Composed on
streams, whatever the values are and whatever settings they leave behind, a message consists of the
parts with texts between them, those that the values leave on fresh streams, as long as there are
values, and with placeholders after. Such is the message of an entry, where surplus arguments have
no effect. The message of two formats put together, the first with as many arguments as it has
placeholders, is the messages of both put together, unless a placeholder comes about where the
formats meet. -/
theorem message_fills_placeholders :
    (∀ (format : Bytes) (p : Parts), parts format = p ↔ p.fill [] = format ∧ p.Clean) ∧
    (∀ (format : Bytes) (values : List (Stream.Format → Bytes × Stream.Format)),
      compose {} format values = (parts format).fill (values.map fun value => (value {}).1)) ∧
    (∀ e : Entry, 0 ∉ e.format →
      e.message = compose {} e.format (e.arguments.map Argument.insert) ∧
      e.message = (parts e.format).fill (e.arguments.map fun a => (a.insert {}).1) ∧
      e.message = { e with arguments := e.arguments.take (parts e.format).rest.length }.message) ∧
    ∀ (e : Entry) (f g : Bytes) (xs ys : List Argument), 0 ∉ f → 0 ∉ g →
      ¬ (f.getLast? = some openBrace ∧ g.head? = some closeBrace) →
      xs.length = (parts f).rest.length →
      { e with format := f ++ g, arguments := xs ++ ys }.message =
        { e with format := f, arguments := xs }.message ++
          { e with format := g, arguments := ys }.message := by
  refine ⟨fun format p => parts_eq_iff, fun format values => ?_, fun e he => ⟨?_, ?_, ?_⟩,
    fun e f g xs ys hf hg hmeet hxs => ?_⟩
  · rw [compose_fresh, substitute_eq_fill]
  · rw [message_of_zero_notMem e he, compose_fresh, List.map_map]
    rfl
  · rw [message_of_zero_notMem e he, substitute_eq_fill]
  · let count := (parts e.format).rest.length
    have htake := message_of_zero_notMem { e with arguments := e.arguments.take count } he
    rw [htake, List.map_take, substitute_eq_fill, Parts.fill_take, ← substitute_eq_fill,
      message_of_zero_notMem e he]
  · have hfg : 0 ∉ f ++ g := by simp [hf, hg]
    rw [message_of_zero_notMem _ hfg, message_of_zero_notMem _ hf, message_of_zero_notMem _ hg,
      List.map_append]
    exact substitute_append hmeet (by simpa using hxs) _

/-- Braces around a placeholder, and one in front of the next, make no placeholder; nor do those
of an argument's text. The last placeholder stands, since no argument is left. -/
theorem message_fills_placeholders_of_braces :
    let f := Bytes.ascii "\x7b\x7b\x7d\x7d\x7b"
    let g := Bytes.ascii "\x7b\x7d \x7b\x7d"
    let xs : List Argument := [.uuid Uuid.max]
    let ys : List Argument := [.text placeholder]
    let e : Entry := ⟨Level.info.code, [], f ++ g, xs ++ ys⟩
    0 ∉ f ∧ 0 ∉ g ∧ ¬ (f.getLast? = some openBrace ∧ g.head? = some closeBrace) ∧
      xs.length = (parts f).rest.length ∧ 0 ∉ e.format ∧
      e.message = (parts e.format).fill (e.arguments.map fun a => (a.insert {}).1) ∧
      e.message = Bytes.ascii "\x7bffffffff-ffff-ffff-ffff-ffffffffffff\x7d\x7b" ++
        Bytes.ascii "\x7b\x7d \x7b\x7d" := by
  intro f g xs ys e
  obtain ⟨-, -, hmessage, happend⟩ := message_fills_placeholders
  have hf : 0 ∉ f := by decide
  have hg : 0 ∉ g := by decide
  have hmeet : ¬ (f.getLast? = some openBrace ∧ g.head? = some closeBrace) := by decide
  have hxs : xs.length = (parts f).rest.length := by decide
  have he : 0 ∉ e.format := by decide
  refine ⟨hf, hg, hmeet, hxs, he, (hmessage e he).2.1, ?_⟩
  rw [happend e f g xs ys hf hg hmeet hxs]
  decide

end Entry

end UniqueId.Log
