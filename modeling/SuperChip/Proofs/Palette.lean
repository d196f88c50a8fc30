import SuperChip.Proofs.Memory
import SuperChip.Proofs.Numerals
import SuperChip.Window.Screen

/-!
# Which palettes are read

A palette is meant to be one or two colours of six hexadecimal digits each.  All such palettes are
read, and the colours are the numbers that the digits show.  But every number of six characters is
taken for a colour, and a number may have blanks, a sign, a mark and underscores beside its digits,
and digits of other scripts.  What is read is therefore described by two grammars, the one that is
meant and the wider one, and they differ exactly by these characters.

A negative number has no components, so a window cannot be opened with a palette that has one.
-/

namespace SuperChip

/-- The faults that blame a palette. -/
def Fault.BlamesPalette (f : Fault) : Prop :=
  f = .colourCount ∨ f = .colourLength ∨ f = .colourDigits

namespace Window

/-- A digit of base sixteen. -/
def IsHexDigit (c : Char) : Prop :=
  ('0' ≤ c ∧ c ≤ '9') ∨ ('a' ≤ c ∧ c ≤ 'f') ∨ ('A' ≤ c ∧ c ≤ 'F')

instance (c : Char) : Decidable (IsHexDigit c) := inferInstanceAs (Decidable (_ ∨ _))

/-- A character of ASCII that may not stand in a number beside its digits. -/
def IsPlain (c : Char) : Prop := c.toNat < 0x80 ∧ c.toNat ∉ Text.marks

instance (c : Char) : Decidable (IsPlain c) := inferInstanceAs (Decidable (_ ∧ _))

/-- A field shows a colour by six digits, small or capital. -/
structure SixDigits (field : List Char) (n : Int) : Prop where
  /-- There are six characters. -/
  length : field.length = 6
  /-- They are digits. -/
  digits : ∀ c ∈ field, IsHexDigit c
  /-- The number is the one that is shown with these digits, all of them small. -/
  shown : Numeral.hexChars 6 n = field.map Char.toLower

/-- A field of six characters is the text of a number in base sixteen. -/
structure SixCharacters (field : List Char) (n : Int) : Prop where
  /-- There are six characters. -/
  length : field.length = 6
  /-- They are the text of the number. -/
  literal : Numeral.Literal Numeral.Hexadecimal field n

/-- Fields show a palette, whose colours are shown in a given way. -/
inductive Palette.Written (Colour : List Char → Int → Prop) : List (List Char) → Palette → Prop
  /-- The background; the foreground is the usual one. -/
  | one {field : List Char} {n : Int} (h : Colour field n) :
    Palette.Written Colour [field] { background := n }
  /-- The background and the foreground. -/
  | two {field field' : List Char} {n n' : Int} (h : Colour field n) (h' : Colour field' n') :
    Palette.Written Colour [field, field'] { background := n, foreground := n' }

/-- Both colours of a palette have components. -/
def Palette.HasComponents (palette : Palette) : Prop :=
  ∃ off on, Rgb.ofInt palette.background = .ok off ∧ Rgb.ofInt palette.foreground = .ok on

variable {c : Char} {d : Nat} {s field : List Char} {ds : List Nat} {n : Int} {f : Fault}
  {palette : Palette} {text : String}

/-! ## Digits -/

/-- What holds of all characters of ASCII holds of each of them. -/
theorem forall_ascii {P : Char → Prop} (h : ∀ k < 0x80, P (Char.ofNat k)) :
    ∀ c : Char, c.toNat < 0x80 → P c := by
  intro c hc
  have hk := h c.toNat hc
  rwa [Char.ofNat_toNat] at hk

/-- Whether all characters are digits can be found out by looking at each. -/
theorem forall_isHexDigit (h : s.all (fun c ↦ decide (IsHexDigit c)) = true) :
    ∀ c ∈ s, IsHexDigit c := by
  simpa using h

/-- A digit of a number that is plain is a digit of base sixteen. -/
theorem isHexDigit_of_hexValue? (h : Numeral.hexValue? c = some d) (hc : IsPlain c) :
    IsHexDigit c ∧ c.toLower = Nat.digitChar d := by
  have hall : ∀ c : Char, c.toNat < 0x80 → ∀ d ∈ Numeral.hexValue? c,
      IsHexDigit c ∧ c.toLower = Nat.digitChar d :=
    forall_ascii (by decide +kernel)
  exact hall c hc.1 d h

/-- Digits of base sixteen are digits of numbers, and plain. -/
theorem IsHexDigit.exists_hexValue? (h : IsHexDigit c) :
    (∃ d, Numeral.hexValue? c = some d) ∧ IsPlain c := by
  have hascii : c.toNat < 0x80 := by
    rcases h with ⟨-, h⟩ | ⟨-, h⟩ | ⟨-, h⟩
    · exact Nat.lt_of_le_of_lt h (by decide)
    · exact Nat.lt_of_le_of_lt h (by decide)
    · exact Nat.lt_of_le_of_lt h (by decide)
  have hall : ∀ c : Char, c.toNat < 0x80 → IsHexDigit c → (Numeral.hexValue? c).isSome = true :=
    forall_ascii (by decide +kernel)
  obtain ⟨d, hd⟩ := Option.isSome_iff_exists.mp (hall c hascii h)
  exact ⟨⟨d, hd⟩, hascii, Numeral.not_mem_marks_of_hexValue? hd⟩

/-- The plain characters that spell digits are those digits. -/
theorem map_toLower_of_spells (h : Numeral.Spells Numeral.hexValue? s ds)
    (hs : ∀ c ∈ s, IsPlain c) :
    (∀ c ∈ s, IsHexDigit c) ∧ s.map Char.toLower = ds.map Nat.digitChar := by
  induction h with
  | one h =>
    obtain ⟨hdigit, hlower⟩ := isHexDigit_of_hexValue? h (hs _ List.mem_cons_self)
    simpa using ⟨hdigit, hlower⟩
  | next h _ ih =>
    rw [List.forall_mem_cons] at hs
    obtain ⟨hdigit, hlower⟩ := isHexDigit_of_hexValue? h hs.1
    obtain ⟨hdigits, hmap⟩ := ih hs.2
    rw [List.forall_mem_cons, List.map_cons, List.map_cons, hlower, hmap]
    exact ⟨⟨hdigit, hdigits⟩, rfl⟩
  | spaced h _ ih =>
    have hspace := hs '_' (List.mem_cons_of_mem _ List.mem_cons_self)
    exact absurd hspace (by decide)

/-- Digits of base sixteen spell digits. -/
theorem exists_spells (hs : s ≠ []) (hc : ∀ c ∈ s, IsHexDigit c) :
    ∃ ds, Numeral.Spells Numeral.hexValue? s ds := by
  induction s with
  | nil => exact absurd rfl hs
  | cons c s ih =>
    rw [List.forall_mem_cons] at hc
    obtain ⟨⟨d, hd⟩, -⟩ := hc.1.exists_hexValue?
    by_cases hnil : s = []
    · rw [hnil]
      exact ⟨[d], .one hd⟩
    · obtain ⟨ds, hds⟩ := ih hnil hc.2
      exact ⟨d :: ds, .next hd hds⟩

/-! ## Colours -/

/-- A colour is read exactly if it is the text of a number of six characters. -/
theorem colour_eq_ok_iff : Palette.colour field = .ok n ↔ SixCharacters field n := by
  rw [Palette.colour]
  constructor
  · intro h
    split at h
    case isTrue hl =>
      split at h
      case h_1 i hi =>
        cases h
        exact ⟨hl, Numeral.readHex?_eq_some_iff.mp hi⟩
      case h_2 => cases h
    case isFalse => cases h
  · rintro ⟨hl, hn⟩
    rw [if_pos hl, Numeral.readHex?_eq_some_iff.mpr hn]

/-- A colour that is not read is blamed. -/
theorem blamesPalette_of_colour (h : Palette.colour field = .error f) : f.BlamesPalette := by
  rw [Palette.colour] at h
  split at h
  · split at h
    · cases h
    · cases h
      exact .inr (.inr rfl)
  · cases h
    exact .inr (.inl rfl)

/-- Six plain characters that spell digits show the number with these digits, and no other. -/
theorem hexChars_eq_map_toLower_iff (h : Numeral.Spells Numeral.hexValue? s ds)
    (hs : ∀ c ∈ s, IsPlain c) (hl : s.length = 6) :
    Numeral.hexChars 6 n = s.map Char.toLower ↔ n = (Nat.ofDigits 16 ds.reverse : Nat) := by
  have hmap := (map_toLower_of_spells h hs).2
  have hlength : ds.length = 6 := by
    rw [← List.length_map Nat.digitChar, ← hmap, List.length_map, hl]
  have hne : ds ≠ [] := List.length_pos_iff.mp (by rw [hlength]; decide)
  have hshown := Numeral.hexChars_ofDigits (h.forall_lt fun _ _ ↦ Numeral.hexValue?_lt) hne
  rw [hmap, ← hshown, hlength]
  constructor
  · exact Numeral.hexChars_inj
  · rintro rfl
    rfl

/-- Six digits spell the number that they show. -/
theorem SixDigits.exists_spells (h : SixDigits field n) :
    ∃ ds, Numeral.Spells Numeral.hexValue? field ds ∧ n = (Nat.ofDigits 16 ds.reverse : Nat) := by
  have hne : field ≠ [] := List.length_pos_iff.mp (by rw [h.length]; decide)
  obtain ⟨ds, hds⟩ := Window.exists_spells hne h.digits
  have hplain : ∀ c ∈ field, IsPlain c := fun c hc ↦ (h.digits c hc).exists_hexValue?.2
  exact ⟨ds, hds, (hexChars_eq_map_toLower_iff hds hplain h.length).mp h.shown⟩

/-- Six digits do not show a negative number. -/
theorem SixDigits.nonneg (h : SixDigits field n) : 0 ≤ n := by
  obtain ⟨ds, -, rfl⟩ := h.exists_spells
  exact Int.natCast_nonneg _

/-- Six digits are the text of a number of six characters. -/
theorem SixDigits.sixCharacters (h : SixDigits field n) : SixCharacters field n := by
  obtain ⟨ds, hds, rfl⟩ := h.exists_spells
  have hblank : Text.Blank [] := by simp [Text.Blank]
  have hliteral := Numeral.Literal.signed hblank hblank .none
    (Numeral.Hexadecimal.digits .none hds)
  rw [List.nil_append, List.nil_append, List.nil_append, List.append_nil] at hliteral
  exact ⟨h.length, hliteral⟩

theorem not_isPlain_of_isBlank (h : Text.isBlank c = true) : ¬ IsPlain c :=
  fun hc ↦ hc.2 (Text.mem_marks_of_isBlank h)

theorem eq_nil_of_blank (hb : Text.Blank s) (hs : ∀ c ∈ s, IsPlain c) : s = [] := by
  rw [List.eq_nil_iff_forall_not_mem]
  exact fun c hc ↦ not_isPlain_of_isBlank (hb c hc) (hs c hc)

/-- The text of a number that is plain has nothing beside its digits. -/
theorem exists_spells_of_literal (h : Numeral.Literal Numeral.Hexadecimal s n)
    (hs : ∀ c ∈ s, IsPlain c) :
    ∃ ds, Numeral.Spells Numeral.hexValue? s ds ∧ n = (Nat.ofDigits 16 ds.reverse : Nat) := by
  obtain ⟨hb, ha, hsign, hm, hds⟩ := h
  simp only [List.forall_mem_append] at hs
  obtain ⟨⟨hbefore, hsigned, hmarked, -⟩, hafter⟩ := hs
  rw [eq_nil_of_blank hb hbefore, eq_nil_of_blank ha hafter]
  -- A sign and the letter of a mark are not plain.
  cases hsign with
  | plus => exact absurd (hsigned _ List.mem_cons_self) (by decide)
  | minus => exact absurd (hsigned _ List.mem_cons_self) (by decide)
  | none =>
    have hletter : ∀ x, x = 'x' ∨ x = 'X' → ¬ IsPlain x := by
      rintro x (rfl | rfl) <;> decide
    cases hm with
    | marked _ hx => exact absurd (hmarked _ (by simp)) (hletter _ hx)
    | spaced _ hx => exact absurd (hmarked _ (by simp)) (hletter _ hx)
    | none =>
      simp only [List.nil_append, List.append_nil]
      exact ⟨_, hds, rfl⟩

/-- The text of a number of six characters is one of six digits exactly if all of them are plain. -/
theorem SixCharacters.sixDigits_iff (h : SixCharacters field n) :
    SixDigits field n ↔ ∀ c ∈ field, IsPlain c := by
  constructor
  · intro hd c hc
    exact (hd.digits c hc).exists_hexValue?.2
  · intro hplain
    obtain ⟨ds, hds, hn⟩ := exists_spells_of_literal h.literal hplain
    exact ⟨h.length, (map_toLower_of_spells hds hplain).1,
      (hexChars_eq_map_toLower_iff hds hplain h.length).mpr hn⟩

/-- A number of six characters has a magnitude of at most six digits. -/
theorem SixCharacters.natAbs_lt (h : SixCharacters field n) : n.natAbs < 0x1000000 := by
  obtain ⟨hl, hb, ha, hsign, hm, hds⟩ := h
  rename_i ds
  have hsmall : Nat.ofDigits 16 ds.reverse < 16 ^ ds.length := by
    rw [← List.length_reverse]
    apply Nat.ofDigits_lt_base_pow_length (by decide)
    exact fun d hd ↦ hds.forall_lt (fun _ _ ↦ Numeral.hexValue?_lt) d (List.mem_reverse.mp hd)
  have hlength : ds.length ≤ 6 := by
    have hle := hds.length_le
    simp only [List.length_append] at hl
    omega
  have hpow : 16 ^ ds.length ≤ 16 ^ 6 := Nat.pow_le_pow_right (by decide) hlength
  have habs : ∀ (negative : Bool) (n : Nat), (Numeral.withSign negative n).natAbs = n := by
    intro negative n
    cases negative <;> simp [Numeral.withSign]
  rw [habs]
  omega

/-- A number of that magnitude has components exactly if it is not negative. -/
theorem exists_ofInt_iff (h : n.natAbs < 0x1000000) : (∃ rgb, Rgb.ofInt n = .ok rgb) ↔ 0 ≤ n := by
  rw [Rgb.ofInt]
  constructor
  · rintro ⟨rgb, hrgb⟩
    split at hrgb
    case isTrue hn => exact hn.1
    case isFalse => cases hrgb
  · intro hn
    rw [if_pos ⟨hn, by omega⟩]
    exact ⟨_, rfl⟩

/-! ## Whole palettes -/

namespace Palette

variable {Colour Colour' : List Char → Int → Prop} {fields : List (List Char)}

/-- Fields show a palette also in another way, if they show their colours in it. -/
theorem Written.mono (h : Written Colour fields palette)
    (himp : ∀ field ∈ fields, ∀ n, Colour field n → Colour' field n) :
    Written Colour' fields palette := by
  cases h with
  | one h => exact .one (himp _ (by simp) _ h)
  | two h h' => exact .two (himp _ (by simp) _ h) (himp _ (by simp) _ h')

/-- A palette is read if there are one or two fields, and their colours are read. -/
theorem parse_eq_ok_iff_written : parse (.value text) = .ok palette ↔
    Written (fun field n ↦ colour field = .ok n) (Text.fields ',' text.toList) palette := by
  rw [parse]
  constructor
  · intro h
    split at h
    case h_1 field hs =>
      obtain ⟨n, hn, h⟩ := exists_of_bind_ok h
      cases h
      rw [hs]
      exact .one hn
    case h_2 field field' hs =>
      obtain ⟨n, hn, h⟩ := exists_of_bind_ok h
      obtain ⟨n', hn', h⟩ := exists_of_bind_ok h
      cases h
      rw [hs]
      exact .two hn hn'
    case h_3 => cases h
  · intro h
    generalize Text.fields ',' text.toList = fields at h
    cases h with
    | one h => simp only [h]; rfl
    | two h h' => simp only [h, h']; rfl

/-- A palette is read exactly if each of its colours is the text of a number of six characters. -/
theorem parse_eq_ok_iff : parse (.value text) = .ok palette ↔
    Written SixCharacters (Text.fields ',' text.toList) palette := by
  rw [parse_eq_ok_iff_written]
  constructor
  · exact fun h ↦ h.mono fun _ _ _ ↦ colour_eq_ok_iff.mp
  · exact fun h ↦ h.mono fun _ _ _ ↦ colour_eq_ok_iff.mpr

/-- A palette that is not read is blamed. -/
theorem blamesPalette_of_parse (h : parse (.value text) = .error f) : f.BlamesPalette := by
  rw [parse] at h
  split at h
  case h_1 =>
    rcases error_of_bind_error h with h | ⟨n, -, h⟩
    · exact blamesPalette_of_colour h
    · cases h
  case h_2 =>
    rcases error_of_bind_error h with h | ⟨n, -, h⟩
    · exact blamesPalette_of_colour h
    · rcases error_of_bind_error h with h | ⟨n', -, h⟩
      · exact blamesPalette_of_colour h
      · cases h
  case h_3 =>
    cases h
    exact .inl rfl

/-- A palette that is read is the one that is meant exactly if all its characters are plain. -/
theorem Written.sixDigits_iff (h : Written SixCharacters fields palette) :
    Written SixDigits fields palette ↔ ∀ field ∈ fields, ∀ c ∈ field, IsPlain c := by
  constructor
  · intro hd
    have hplain : ∀ field n, SixDigits field n → ∀ c ∈ field, IsPlain c :=
      fun field n hf ↦ hf.sixCharacters.sixDigits_iff.mp hf
    cases hd with
    | one hd => simpa using hplain _ _ hd
    | two hd hd' => simpa using ⟨hplain _ _ hd, hplain _ _ hd'⟩
  · exact fun hplain ↦ h.mono fun field hf n hn ↦ hn.sixDigits_iff.mpr (hplain field hf)

/-- A palette that is read has components exactly if no colour is negative. -/
theorem Written.hasComponents_iff (h : Written SixCharacters fields palette) :
    palette.HasComponents ↔ 0 ≤ palette.background ∧ 0 ≤ palette.foreground := by
  have hsmall : palette.background.natAbs < 0x1000000 ∧ palette.foreground.natAbs < 0x1000000 := by
    cases h with
    | one h =>
      have husual : (0xDDDDDD : Int).natAbs < 0x1000000 := by decide
      exact ⟨h.natAbs_lt, husual⟩
    | two h h' => exact ⟨h.natAbs_lt, h'.natAbs_lt⟩
  rw [HasComponents, ← exists_ofInt_iff hsmall.1, ← exists_ofInt_iff hsmall.2]
  exact exists_and_exists_comm.symm

/-- The colours of a palette that is meant are not negative. -/
theorem Written.nonneg (h : Written SixDigits fields palette) :
    0 ≤ palette.background ∧ 0 ≤ palette.foreground := by
  cases h with
  | one h =>
    have husual : (0 : Int) ≤ 0xDDDDDD := by decide
    exact ⟨h.nonneg, husual⟩
  | two h h' => exact ⟨h.nonneg, h'.nonneg⟩

/-- A window is not opened with a palette that has a colour without components. -/
theorem create_eq_colourOutOfRange (h : parse (.value text) = .ok palette)
    (hc : ¬ palette.HasComponents) (width smoothing : Choice Int) (title : String) :
    Screen.create width smoothing (.value text) title = .error .colourOutOfRange := by
  have hof : ∀ n, (∃ rgb, Rgb.ofInt n = .ok rgb) ∨ Rgb.ofInt n = .error .colourOutOfRange := by
    intro n
    rw [Rgb.ofInt]
    split
    · exact .inl ⟨_, rfl⟩
    · exact .inr rfl
  rw [Screen.create, h]
  rcases hof palette.background with ⟨off, hoff⟩ | hoff
  · rcases hof palette.foreground with ⟨on, hon⟩ | hon
    · exact absurd ⟨off, on, hoff, hon⟩ hc
    · simp [hoff, hon, bind, Except.bind]
  · simp [hoff, bind, Except.bind]

/-- All palettes that are meant are read, and their colours have components.  What is read besides
them is a palette with characters that are not plain; its colours have components exactly if none is
negative, and otherwise no window is opened with it.  All other texts are blamed. -/
theorem palettes_read (text : String) :
    (∀ palette, Written SixDigits (Text.fields ',' text.toList) palette →
      parse (.value text) = .ok palette ∧ palette.HasComponents) ∧
    (∀ palette, parse (.value text) = .ok palette ↔
      Written SixCharacters (Text.fields ',' text.toList) palette) ∧
    (∀ palette, parse (.value text) = .ok palette →
      (Written SixDigits (Text.fields ',' text.toList) palette ↔
        ∀ field ∈ Text.fields ',' text.toList, ∀ c ∈ field, IsPlain c) ∧
      (palette.HasComponents ↔ 0 ≤ palette.background ∧ 0 ≤ palette.foreground) ∧
      (¬ palette.HasComponents → ∀ width smoothing title,
        Screen.create width smoothing (.value text) title = .error .colourOutOfRange)) ∧
    (∀ f, parse (.value text) = .error f → f.BlamesPalette) := by
  refine ⟨?_, fun _ ↦ parse_eq_ok_iff, ?_, fun _ ↦ blamesPalette_of_parse⟩
  · intro palette h
    have hwide := h.mono fun _ _ _ ↦ SixDigits.sixCharacters
    exact ⟨parse_eq_ok_iff.mpr hwide, hwide.hasComponents_iff.mpr h.nonneg⟩
  · intro palette h
    have hwide := parse_eq_ok_iff.mp h
    exact ⟨hwide.sixDigits_iff, hwide.hasComponents_iff, create_eq_colourOutOfRange h⟩

/-- Two colours in capital and small letters are a palette that is meant.  One with a mark is read
as well, and so is a negative one, but no window is opened with that. -/
theorem palettes_read_letters :
    (parse (.value "ABCDEF,00ff7f") = .ok { background := 0xABCDEF, foreground := 0x00FF7F } ∧
      HasComponents { background := 0xABCDEF, foreground := 0x00FF7F }) ∧
    (parse (.value "0x12_4") = .ok { background := 0x124 } ∧
      ¬ Written SixDigits ["0x12_4".toList] { background := 0x124 }) ∧
    ∀ width smoothing title, Screen.create width smoothing (.value "-12345,FFFFFF") title =
      .error .colourOutOfRange := by
  refine ⟨?_, ⟨rfl, ?_⟩, ?_⟩
  · apply (palettes_read "ABCDEF,00ff7f").1
    exact .two ⟨rfl, forall_isHexDigit rfl, rfl⟩ ⟨rfl, forall_isHexDigit rfl, rfl⟩
  · intro h
    have hplain := ((palettes_read "0x12_4").2.2.1 { background := 0x124 } rfl).1.mp h
    exact absurd (hplain _ List.mem_cons_self '_' (by decide)) (by decide)
  · have hread := (palettes_read "-12345,FFFFFF").2.2.1
      { background := -0x12345, foreground := 0xFFFFFF } rfl
    apply hread.2.2
    rw [hread.2.1]
    decide

/-- A palette whose first colour is a minus and five digits is read, though it is none that is
meant, and that colour has no components. -/
theorem minus_read_as_digit :
    parse (.value "-12345,FFFFFF") = .ok { background := -0x12345, foreground := 0xFFFFFF } ∧
    (¬ ∃ palette, Written SixDigits (Text.fields ',' "-12345,FFFFFF".toList) palette) ∧
    Rgb.ofInt (-0x12345) = .error .colourOutOfRange := by
  refine ⟨rfl, ?_, rfl⟩
  have hfields : Text.fields ',' "-12345,FFFFFF".toList =
    ["-12345".toList, "FFFFFF".toList] := rfl
  rw [hfields]
  rintro ⟨palette, h⟩
  cases h with
  | two h _ => exact absurd (h.digits '-' (by decide)) (by decide)

end Palette

end Window
end SuperChip
