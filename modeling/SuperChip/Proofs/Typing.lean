import SuperChip.Proofs.Keymaps
import SuperChip.Terminal.Typing

/-!
# Which listed characters can be typed

A keymap of characters is read with all letters made small, of whatever alphabet.  What is typed is
made small in ASCII only, since codes above that range may be those of function keys.  So a listed
character presses its key when it is typed, if it is one of ASCII or its own lower-case form.  Any
other listed character is found in the keymap under its lower-case form only.  No letter has that
character as its lower-case form, so the character itself presses nothing.
-/

namespace SuperChip

namespace Text

/-! ## Lower-case forms -/

namespace CaseRun

variable {r r' : CaseRun} {code : Nat}

/-- The lower-case form of the first code point of the run. -/
def low (r : CaseRun) : Nat := (r.first + r.shift).toNat

/-- The lower-case form of the last code point of the run. -/
def high (r : CaseRun) : Nat := (r.last + r.shift).toNat

/-- The lower-case forms of the letters of a run lie before or behind another run, or in the gaps
between its letters. -/
def misses (r r' : CaseRun) : Bool :=
  r.high < r'.first || r'.last < r.low ||
    (r'.stride == 2 && (r.stride == 2 || r.first == r.last) && (r.low + r'.first) % 2 == 1)

theorem covers_iff :
    r.covers code = true ↔
      r.first ≤ code ∧ code ≤ r.last ∧ (code - r.first) % r.stride = 0 := by
  simp [covers, and_assoc]

/-- A run that is missed by another does not cover the lower-case form of a letter there. -/
theorem not_covers_of_misses (hs : 0 ≤ r.first + r.shift) (h : r.misses r' = true)
    (hc : r.covers code = true) : r'.covers ((code : Int) + r.shift).toNat = false := by
  rw [covers_iff] at hc
  obtain ⟨hl, hu, hd⟩ := hc
  rw [← Bool.not_eq_true, covers_iff]
  rintro ⟨hl', hu', hd'⟩
  simp only [misses, Bool.or_eq_true, Bool.and_eq_true, decide_eq_true_eq, beq_iff_eq] at h
  rcases h with (h | h) | ⟨⟨h', h⟩, hp⟩
  · rw [high] at h
    omega
  · rw [low] at h
    omega
  · rw [h'] at hd'
    rw [low] at hp
    rcases h with h | h
    · rw [h] at hd
      omega
    · omega

end CaseRun

/-- No run has a letter among the lower-case forms. -/
theorem misses_caseRuns : (caseRuns.all fun r ↦ caseRuns.all r.misses) = true := by
  decide +kernel

theorem shift_caseRuns : ∀ r ∈ caseRuns, 0 ≤ r.first + r.shift := by
  decide +kernel

/-- A lower-case form has no other lower-case form. -/
theorem lowerCase_lowerCase (code : Nat) : lowerCase (lowerCase code) = lowerCase code := by
  cases hr : caseRuns.find? (·.covers code) with
  | none =>
    have hn : lowerCase code = code := by rw [lowerCase, hr]
    rw [hn, hn]
  | some r =>
    have hl : lowerCase code = ((code : Int) + r.shift).toNat := by rw [lowerCase, hr]
    have hm := List.mem_of_find?_eq_some hr
    have hc := List.find?_some (p := (CaseRun.covers · code)) hr
    have hn : caseRuns.find? (·.covers (lowerCase code)) = none := by
      rw [List.find?_eq_none]
      intro r' hm'
      have h := List.all_eq_true.mp (List.all_eq_true.mp misses_caseRuns r hm) r' hm'
      rw [hl, CaseRun.not_covers_of_misses (shift_caseRuns r hm) h hc]
      exact Bool.false_ne_true
    rw [lowerCase.eq_def (lowerCase code), hn]

/-- The first run is that of the capitals of ASCII, and all others lie beyond. -/
theorem le_first_of_mem_tail : ∀ r ∈ caseRuns.tail, 0x80 ≤ r.first := by
  decide +kernel

/-- In ASCII, the lower-case form of a code point is the small letter. -/
theorem lowerCase_eq_smallLetter {code : Nat} (h : code < 0x80) :
    (lowerCase code : Int) = Terminal.smallLetter code := by
  have ht : caseRuns.tail.find? (·.covers code) = none := by
    rw [List.find?_eq_none]
    intro r hr hc
    have hf := le_first_of_mem_tail r hr
    have hl := (CaseRun.covers_iff.mp hc).1
    omega
  have hr : caseRuns = ⟨0x41, 0x5a, 1, 32⟩ :: caseRuns.tail := rfl
  rw [lowerCase, hr, List.find?_cons, ht, Terminal.smallLetter]
  by_cases hc : 65 ≤ code ∧ code ≤ 90
  · rw [CaseRun.covers_iff.mpr ⟨hc.1, hc.2, Nat.mod_one _⟩, if_pos (by omega)]
    have hp : 0 ≤ (code : Int) + 32 := by omega
    exact Int.toNat_of_nonneg hp
  · have hn : CaseRun.covers ⟨0x41, 0x5a, 1, 32⟩ code = false := by
      rw [← Bool.not_eq_true, CaseRun.covers_iff]
      exact fun h ↦ hc ⟨h.1, h.2.1⟩
    rw [hn, if_neg (by omega)]

end Text

/-! ## Keymaps of characters -/

namespace Keymap

variable {keymap : Keymap} {code code' : Int} {k : Key}

/-- The code that a text lists for a key. -/
def listed? (text : String) (k : Key) : Option Int :=
  (Text.fields ',' text.toList)[k.val]?.bind Numeral.readDecimal?

/-- A character that can be in a keymap is a code point, and it is found under its lower-case
form. -/
theorem foldCase_eq_ok (h : foldCase code = .ok code') :
    0 ≤ code ∧ code' = Text.lowerCase code.toNat := by
  rw [foldCase] at h
  split at h
  · cases h
  · split at h
    · cases h
    · split at h
      · cases h
      · cases h
        exact ⟨by omega, rfl⟩

/-- A keymap has the characters of some fields, and no others. -/
structure HoldsFields (fields : List (List Char × Key)) (keymap : Keymap) : Prop where
  /-- Each field gives a character that is found. -/
  found : ∀ field k, (field, k) ∈ fields →
    ∃ code code', Numeral.readDecimal? field = some code ∧ foldCase code = .ok code' ∧
      keymap.key? code' = some k
  /-- What is found is the lower-case form of a character. -/
  folded : ∀ code' k, keymap.key? code' = some k → ∃ code, foldCase code = .ok code'

/-- A keymap that was read from a text has the characters of its fields, and no others. -/
theorem holdsFields_of_parse {text : String} (h : parse true text = .ok keymap) :
    HoldsFields ((Text.fields ',' text.toList).zip (List.finRange 16)) keymap ∧
      (Text.fields ',' text.toList).length = 16 := by
  obtain ⟨hl, -⟩ := exists_of_parse_eq_ok h
  obtain ⟨hn, hentries⟩ := entries_of_parse h
  refine ⟨⟨?_, ?_⟩, hl⟩
  · intro field k hm
    have hmem : (codeOf true field, k) ∈ keymap.entries.map fun e ↦ (.ok e.1, e.2) := by
      rw [← hentries]
      exact List.mem_map_of_mem hm
    obtain ⟨e, he, heq⟩ := List.mem_map.mp hmem
    obtain ⟨hc, rfl⟩ := Prod.mk.inj heq
    obtain ⟨code, hr, hf⟩ := codeOf_eq_ok_iff.mp hc.symm
    exact ⟨code, e.1, hr, hf, (key?_eq_some_iff hn).mpr he⟩
  · intro code k hk
    have hmem : ((Except.ok code : Except Fault Int), k) ∈
        keymap.entries.map fun e ↦ (Except.ok e.1, e.2) :=
      List.mem_map_of_mem ((key?_eq_some_iff hn).mp hk)
    rw [← hentries] at hmem
    obtain ⟨e, -, heq⟩ := List.mem_map.mp hmem
    obtain ⟨listed, -, hf⟩ := codeOf_eq_ok_iff.mp (Prod.mk.inj heq).1
    exact ⟨listed, hf⟩

/-- A listed character is found under its lower-case form. -/
theorem key?_of_listed {text : String} (h : parse true text = .ok keymap)
    (hc : listed? text k = some code) :
    0 ≤ code ∧ keymap.key? (Text.lowerCase code.toNat) = some k := by
  obtain ⟨hk, hl⟩ := holdsFields_of_parse h
  obtain ⟨field, hf, hr⟩ := Option.bind_eq_some_iff.mp hc
  have hm : (field, k) ∈ (Text.fields ',' text.toList).zip (List.finRange 16) := by
    rw [List.mem_iff_getElem?]
    refine ⟨k.val, ?_⟩
    rw [List.getElem?_zip_eq_some]
    refine ⟨hf, ?_⟩
    simp
  obtain ⟨code₁, code', hr₁, hf₁, hk₁⟩ := hk.found field k hm
  cases hr.symm.trans hr₁
  obtain ⟨hn, rfl⟩ := foldCase_eq_ok hf₁
  exact ⟨hn, hk₁⟩

/-- What is found in a keymap of characters is its own lower-case form. -/
theorem lowerCase_of_key? {text : String} (h : parse true text = .ok keymap)
    (hk : keymap.key? code = some k) : Text.lowerCase code.toNat = code := by
  obtain ⟨listed, hf⟩ := (holdsFields_of_parse h).1.folded code k hk
  obtain ⟨-, rfl⟩ := foldCase_eq_ok hf
  rw [Int.toNat_natCast, Text.lowerCase_lowerCase]

end Keymap

/-! ## Typing -/

namespace Terminal

variable {keymap : Keymap} {text : String} {k : Key} {char capacity : Int} {queue : List Int}

/-- A listed character that is no control, nor has one as its lower-case form, presses its key when
it is typed, if it is a character of ASCII or its own lower-case form.  Otherwise it presses
nothing. -/
theorem read_listed (h : Keymap.parse true text = .ok keymap)
    (hc : Keymap.listed? text k = some char) (ho : Control.ofChar? char = none)
    (ho' : Control.ofChar? (Text.lowerCase char.toNat) = none)
    (hq : isFull capacity queue = false) :
    read keymap capacity queue char =
      .goesOn (if char < 0x80 ∨ Text.lowerCase char.toNat = char then queue ++ [(k.val : Int)]
        else queue) := by
  obtain ⟨hn, hk⟩ := Keymap.key?_of_listed h hc
  by_cases hs : char < 0x80 ∨ Text.lowerCase char.toNat = char
  · -- The two ways of making letters small agree.
    have he : smallLetter char = Text.lowerCase char.toNat := by
      by_cases ha : char < 0x80
      · rw [Text.lowerCase_eq_smallLetter (by omega), Int.toNat_of_nonneg hn]
      · rw [smallLetter_of_le (by omega), hs.resolve_left ha]
    have hr : request? keymap char = some (.key k) := by
      rw [request?, if_neg (by omega), he, ho', hk]
      rfl
    have hp : put? capacity queue k.val = some (queue ++ [(k.val : Int)]) := by
      rw [put?, hq]
      rfl
    simp only [read, hr, hp, if_pos hs]
    rfl
  · -- What is looked up is not its own lower-case form, so it cannot be found.
    obtain ⟨ha, hl⟩ := not_or.mp hs
    have he : keymap.key? char = none := by
      rw [Option.eq_none_iff_forall_ne_some]
      intro k' hk'
      exact hl (Keymap.lowerCase_of_key? h hk')
    have hr : request? keymap char = none := by
      rw [request?, if_neg (by omega), smallLetter_of_le (by omega), ho, he]
      rfl
    rw [read, hr, if_neg hs]

/-- A keymap that lists an accented capital for key zero and a capital of ASCII for the last key. -/
def accented : String := "192,49,50,51,113,119,101,97,115,100,122,99,52,114,102,88"

/-- What the keymap above is read as. -/
def accentedKeymap : Keymap :=
  ⟨[224, 49, 50, 51, 113, 119, 101, 97, 115, 100, 122, 99, 52, 114, 102, 120].zip
    (List.finRange 16)⟩

theorem parse_accented : Keymap.parse true accented = .ok accentedKeymap := by
  rfl

/-- A listed capital of ASCII presses its key. -/
theorem read_listed_capital : read accentedKeymap 16 [0] 88 = .goesOn [0, 15] := by
  have hlisted : Keymap.listed? accented 15 = some 88 := by decide +kernel
  have hcontrol : Control.ofChar? (Text.lowerCase 88) = none := by decide +kernel
  have hroom : isFull 16 [0] = false := rfl
  have h := read_listed parse_accented hlisted rfl hcontrol hroom
  rwa [if_pos (.inl (by decide))] at h

/-- A listed accented capital presses nothing, although there is room in the queue. -/
theorem accented_capital_presses_nothing :
    Keymap.parse true accented = .ok accentedKeymap ∧ Keymap.listed? accented 0 = some 192 ∧
      Control.ofChar? 192 = none ∧ Control.ofChar? (Text.lowerCase 192) = none ∧
      isFull 16 [] = false ∧ read accentedKeymap 16 [] 192 = .goesOn [] :=
  ⟨parse_accented, by decide +kernel⟩

end Terminal

end SuperChip
