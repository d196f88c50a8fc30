import Mathlib.Data.List.Induction
import Mathlib.Data.Nat.Digits.Lemmas
import SuperChip.Numeral.Hex
import SuperChip.Numeral.Reader

/-!
# What is read as an integer

An integer is read from blanks, a sign, the text of a magnitude, and blanks again.  A magnitude is
spelled by digits, between which single underscores may stand; in base sixteen a mark may come
before them.  `Literal` says this as a grammar, and a text is read exactly if the grammar has it.

What is shown is read again: the decimal text of an integer, if it is not too long, and the
hexadecimal text, whatever its width.
-/

namespace SuperChip

namespace Text

/-- A text of blanks. -/
def Blank (s : List Char) : Prop := ∀ c ∈ s, isBlank c = true

variable {s before body after : List Char} {c : Char} {d : Nat}

/-- Blanks before a character that is none are dropped. -/
theorem dropWhile_isBlank (hb : Blank before) (hs : s ≠ []) (hc : ∀ c ∈ s, isBlank c = false) :
    (before ++ (s ++ after)).dropWhile isBlank = s ++ after := by
  rw [List.dropWhile_append_of_pos hb]
  obtain ⟨c, s, rfl⟩ := List.exists_cons_of_ne_nil hs
  apply List.dropWhile_cons_of_neg
  rw [hc c List.mem_cons_self]
  exact Bool.false_ne_true

/-- Blanks are trimmed from the ends of what has none. -/
theorem trim_eq (hb : Blank before) (ha : Blank after) (hs : body ≠ [])
    (hc : ∀ c ∈ body, isBlank c = false) : trim (before ++ body ++ after) = body := by
  have hb' : (before ++ (body ++ after)).dropWhile isBlank = body ++ after :=
    dropWhile_isBlank hb hs hc
  have ha' : (after.reverse ++ (body.reverse ++ [])).dropWhile isBlank = body.reverse ++ [] := by
    apply dropWhile_isBlank
    · exact fun c hm ↦ ha c (List.mem_reverse.mp hm)
    · simpa using hs
    · exact fun c hm ↦ hc c (List.mem_reverse.mp hm)
  rw [List.append_nil] at ha'
  rw [trim, List.append_assoc, hb', List.reverse_append, ha', List.reverse_reverse]

/-- What is trimmed away is blank. -/
theorem exists_trim (s : List Char) :
    ∃ before after, Blank before ∧ Blank after ∧ s = before ++ trim s ++ after := by
  refine ⟨s.takeWhile isBlank,
    ((s.dropWhile isBlank).reverse.takeWhile isBlank).reverse, ?_, ?_, ?_⟩
  · exact fun c hc ↦ List.all_eq_true.mp List.all_takeWhile c hc
  · intro c hc
    exact List.all_eq_true.mp List.all_takeWhile c (List.mem_reverse.mp hc)
  · rw [trim, List.append_assoc, ← List.reverse_append, List.takeWhile_append_dropWhile,
      List.reverse_reverse, List.takeWhile_append_dropWhile]

/-- The codes of characters that may stand in a number beside its digits: the blanks, the two signs,
the underscore, and the letter of the mark of a hexadecimal number. -/
def marks : List Nat := [9, 10, 11, 12, 13, 32] ++ wideBlanks ++ [43, 45, 88, 95, 120]

/-- A blank is one of these characters. -/
theorem mem_marks_of_isBlank (h : isBlank c = true) : c.toNat ∈ marks := by
  rw [isBlank, Bool.or_eq_true, List.contains_iff_mem] at h
  rcases h with h | h
  · simp only [isAsciiBlank, Bool.or_eq_true, Bool.and_eq_true, decide_eq_true_eq, beq_iff_eq] at h
    rcases h with h | rfl
    · have hc : c.toNat ∈ [9, 10, 11, 12, 13] := by
        simp only [List.mem_cons, List.not_mem_nil]
        omega
      exact List.mem_append_left _ (List.mem_append_left _ (List.mem_append_left [32] hc))
    · decide
  · exact List.mem_append_left _ (List.mem_append_right _ h)

/-- No run of digits has a mark in it. -/
theorem not_mem_run_of_mem_marks :
    ∀ z ∈ zeros, ∀ code ∈ marks, ¬ (z ≤ code ∧ code < z + 10) := by
  decide +kernel

/-- A digit is no mark. -/
theorem not_mem_marks_of_digitValue? (h : digitValue? c = some d) : c.toNat ∉ marks := by
  obtain ⟨z, hz, -⟩ := Option.map_eq_some_iff.mp h
  intro hm
  have hrun := List.find?_some hz
  rw [decide_eq_true_eq] at hrun
  exact not_mem_run_of_mem_marks z (List.mem_of_find?_eq_some hz) _ hm hrun

end Text

namespace Numeral

open Text

/-! ## Digits -/

/-- A text spells digits, the most significant one first.  Single underscores may stand between
them. -/
inductive Spells (value? : Char → Option Nat) : List Char → List Nat → Prop
  /-- One digit. -/
  | one {c : Char} {d : Nat} (h : value? c = some d) : Spells value? [c] [d]
  /-- A digit and more digits. -/
  | next {c : Char} {d : Nat} {s : List Char} {ds : List Nat}
    (h : value? c = some d) (hs : Spells value? s ds) :
    Spells value? (c :: s) (d :: ds)
  /-- A digit, an underscore, and more digits. -/
  | spaced {c : Char} {d : Nat} {s : List Char} {ds : List Nat}
    (h : value? c = some d) (hs : Spells value? s ds) :
    Spells value? (c :: '_' :: s) (d :: ds)

variable {value? : Char → Option Nat} {s body : List Char} {ds : List Nat} {c : Char} {d n : Nat}

/-- A digit of a hexadecimal number is no mark. -/
theorem not_mem_marks_of_hexValue? (h : hexValue? c = some d) : c.toNat ∉ marks := by
  have hletters : ∀ code ∈ marks, ¬ (97 ≤ code ∧ code ≤ 102) ∧ ¬ (65 ≤ code ∧ code ≤ 70) := by
    decide
  rw [hexValue?] at h
  split at h
  case isTrue hc => exact fun hm ↦ (hletters _ hm).1 hc
  case isFalse =>
    split at h
    case isTrue hc => exact fun hm ↦ (hletters _ hm).2 hc
    case isFalse => exact not_mem_marks_of_digitValue? h

/-- Digits are spelled by at least one character. -/
theorem Spells.ne_nil (h : Spells value? s ds) : s ≠ [] := by
  cases h <;> simp

/-- A digit of a hexadecimal number has a value below sixteen. -/
theorem hexValue?_lt (h : hexValue? c = some d) : d < 16 := by
  rw [hexValue?] at h
  split at h
  case isTrue hc =>
    cases h
    have hu : c.toNat ≤ 102 := hc.2
    have ha : 'a'.toNat = 97 := rfl
    omega
  case isFalse =>
    split at h
    case isTrue hc =>
      cases h
      have hu : c.toNat ≤ 70 := hc.2
      have ha : 'A'.toNat = 65 := rfl
      omega
    case isFalse => exact Nat.lt_trans (digitValue?_lt h) (by decide)

/-- The digits that are spelled are small if all digits are. -/
theorem Spells.forall_lt {base : Nat} (h : Spells value? s ds)
    (hdigit : ∀ c d, value? c = some d → d < base) : ∀ d ∈ ds, d < base := by
  induction h with
  | one h => simpa using hdigit _ _ h
  | next h _ ih => simpa using ⟨hdigit _ _ h, ih⟩
  | spaced h _ ih => simpa using ⟨hdigit _ _ h, ih⟩

/-- There are no more digits than characters. -/
theorem Spells.length_le (h : Spells value? s ds) : ds.length ≤ s.length := by
  induction h with
  | one h => exact Nat.le_refl 1
  | next h hs ih => exact Nat.succ_le_succ ih
  | spaced h hs ih => exact Nat.le_succ_of_le (Nat.succ_le_succ ih)

/-- What holds of digits and underscores holds of the characters that spell digits. -/
theorem Spells.forall_mem {P : Char → Prop} (h : Spells value? s ds)
    (hdigit : ∀ c d, value? c = some d → P c) (hspace : P '_') : ∀ c ∈ s, P c := by
  induction h with
  | one h => simpa using hdigit _ _ h
  | next h hs ih => simpa using ⟨hdigit _ _ h, ih⟩
  | spaced h hs ih => simpa using ⟨hdigit _ _ h, hspace, ih⟩

/-- Digits are read exactly if they are spelled. -/
theorem readDigits?_eq_some_iff (hspace : value? '_' = none) :
    readDigits? value? s = some ds ↔ Spells value? s ds := by
  -- No spelling starts with an underscore, so one after a digit belongs to that digit.
  have hstart : ∀ s ds, ¬ Spells value? ('_' :: s) ds := by
    intro s ds h
    cases h with
    | one h | next h _ | spaced h _ => simp [hspace] at h
  fun_induction readDigits? value? s generalizing ds with
  | case1 => exact ⟨nofun, fun h ↦ absurd rfl h.ne_nil⟩
  | case2 c =>
    constructor
    · intro h
      obtain ⟨d, hd, rfl⟩ := Option.map_eq_some_iff.mp h
      exact .one hd
    · intro h
      cases h with
      | one h => rw [h]; rfl
      | next h hs => exact absurd rfl hs.ne_nil
  | case3 c rest ih =>
    constructor
    · intro h
      obtain ⟨d, hd, h⟩ := Option.bind_eq_some_iff.mp h
      obtain ⟨ds, hds, h⟩ := Option.bind_eq_some_iff.mp h
      cases h
      exact .spaced hd (ih.mp hds)
    · intro h
      cases h with
      | next h hs => exact absurd hs (hstart _ _)
      | spaced h hs => rw [h, ih.mpr hs]; rfl
  | case4 c rest hone hspaced ih =>
    constructor
    · intro h
      obtain ⟨d, hd, h⟩ := Option.bind_eq_some_iff.mp h
      obtain ⟨ds, hds, h⟩ := Option.bind_eq_some_iff.mp h
      cases h
      exact .next hd (ih.mp hds)
    · intro h
      cases h with
      | one h => exact absurd rfl hone
      | next h hs => rw [h, ih.mpr hs]; rfl
      | spaced h hs => exact absurd rfl (hspaced _)

/-- The number with given digits, written with the digits of least significance first. -/
theorem ofDigits_eq (base : Nat) (ds : List Nat) :
    ofDigits base ds = Nat.ofDigits base ds.reverse := by
  induction ds using List.reverseRecOn with
  | nil => rfl
  | append_singleton ds d ih =>
    rw [List.reverse_append, List.reverse_singleton, List.singleton_append, Nat.ofDigits_cons, ← ih,
      ofDigits, List.foldl_append, ofDigits]
    simp only [List.foldl_cons, List.foldl_nil]
    ring

/-! ## Magnitudes -/

/-- The text of a decimal magnitude: not too many digits. -/
inductive Decimal : List Char → Nat → Prop
  /-- Digits. -/
  | digits {s : List Char} {ds : List Nat} (hs : Spells digitValue? s ds)
    (hl : ds.length ≤ maxDecimalDigits) : Decimal s (Nat.ofDigits 10 ds.reverse)

/-- The mark that may stand before a hexadecimal magnitude. -/
inductive HexMark : List Char → Prop
  /-- No mark. -/
  | none : HexMark []
  /-- A zero and a letter. -/
  | marked {z x : Char} (hz : digitValue? z = some 0) (hx : x = 'x' ∨ x = 'X') : HexMark [z, x]
  /-- A zero, a letter and an underscore. -/
  | spaced {z x : Char} (hz : digitValue? z = some 0) (hx : x = 'x' ∨ x = 'X') :
    HexMark [z, x, '_']

/-- The text of a hexadecimal magnitude. -/
inductive Hexadecimal : List Char → Nat → Prop
  /-- A mark and digits. -/
  | digits {mark s : List Char} {ds : List Nat} (hm : HexMark mark) (hs : Spells hexValue? s ds) :
    Hexadecimal (mark ++ s) (Nat.ofDigits 16 ds.reverse)

/-- Reads a decimal magnitude. -/
def decimal? (s : List Char) : Option Nat :=
  (readDigits? digitValue? s).bind fun ds ↦
    if ds.length ≤ maxDecimalDigits then some (ofDigits 10 ds) else none

/-- Reads a hexadecimal magnitude. -/
def hexadecimal? (s : List Char) : Option Nat :=
  (readDigits? hexValue? (dropHexMark s)).map (ofDigits 16)

/-- Decimal magnitudes are read exactly as the grammar has them. -/
theorem decimal?_eq_some_iff : decimal? s = some n ↔ Decimal s n := by
  rw [decimal?, Option.bind_eq_some_iff]
  constructor
  · rintro ⟨ds, hds, h⟩
    split at h
    case isTrue hl =>
      cases h
      rw [ofDigits_eq]
      exact .digits ((readDigits?_eq_some_iff (by decide)).mp hds) hl
    case isFalse => cases h
  · rintro ⟨hs, hl⟩
    refine ⟨_, (readDigits?_eq_some_iff (by decide)).mpr hs, ?_⟩
    rw [if_pos hl, ofDigits_eq]

/-- What is dropped is a mark. -/
theorem exists_dropHexMark (s : List Char) : ∃ mark, HexMark mark ∧ s = mark ++ dropHexMark s := by
  unfold dropHexMark
  split
  · split
    case isTrue h =>
      split
      · exact ⟨_, .spaced h.1 h.2, rfl⟩
      · exact ⟨_, .marked h.1 h.2, rfl⟩
    case isFalse => exact ⟨_, .none, rfl⟩
  · exact ⟨_, .none, rfl⟩

/-- The letter of a mark is no digit. -/
theorem hexValue?_eq_none_of_mark (hc : c = 'x' ∨ c = 'X') : hexValue? c = none := by
  rcases hc with rfl | rfl <;> decide

/-- A mark before digits is dropped, and nothing else. -/
theorem dropHexMark_append {mark : List Char} (hm : HexMark mark) (hs : Spells hexValue? s ds) :
    dropHexMark (mark ++ s) = s := by
  have hstart : ∀ rest, s ≠ '_' :: rest := by
    rintro rest rfl
    have hspace : hexValue? '_' = none := by decide
    cases hs with
    | one h | next h _ | spaced h _ => simp [hspace] at h
  have hletter : ∀ c ∈ s, c ≠ 'x' ∧ c ≠ 'X' := by
    refine hs.forall_mem ?_ (by decide)
    intro c d hc
    refine ⟨?_, ?_⟩
    · rintro rfl
      simp [hexValue?_eq_none_of_mark] at hc
    · rintro rfl
      simp [hexValue?_eq_none_of_mark] at hc
  cases hm with
  | none =>
    rw [List.nil_append]
    unfold dropHexMark
    split
    case h_1 z x rest =>
      apply if_neg
      rintro ⟨-, rfl | rfl⟩
      · exact (hletter 'x' (by simp)).1 rfl
      · exact (hletter 'X' (by simp)).2 rfl
    case h_2 => rfl
  | marked hz hx =>
    rw [List.cons_append, List.singleton_append, dropHexMark, if_pos ⟨hz, hx⟩]
    exact fun rest h ↦ hstart rest h
  | spaced hz hx =>
    simp only [List.cons_append, List.nil_append]
    rw [dropHexMark, if_pos ⟨hz, hx⟩]

/-- Hexadecimal magnitudes are read exactly as the grammar has them. -/
theorem hexadecimal?_eq_some_iff : hexadecimal? s = some n ↔ Hexadecimal s n := by
  rw [hexadecimal?, Option.map_eq_some_iff]
  constructor
  · rintro ⟨ds, hds, rfl⟩
    obtain ⟨mark, hm, hs⟩ := exists_dropHexMark s
    rw [hs, ofDigits_eq]
    exact .digits hm ((readDigits?_eq_some_iff (by decide)).mp hds)
  · rintro ⟨hm, hs⟩
    refine ⟨_, ?_, ofDigits_eq _ _⟩
    rw [dropHexMark_append hm hs, readDigits?_eq_some_iff (by decide)]
    exact hs

/-! ## Integers -/

/-- The text of a sign, and whether it is that of negative numbers. -/
inductive Sign : List Char → Bool → Prop
  /-- No sign. -/
  | none : Sign [] false
  /-- A plus. -/
  | plus : Sign ['+'] false
  /-- A minus. -/
  | minus : Sign ['-'] true

/-- The text of an integer whose magnitude is written in a given way. -/
inductive Literal (magnitude : List Char → Nat → Prop) : List Char → Int → Prop
  /-- A sign and a magnitude, with blanks around them. -/
  | signed {before sign body after : List Char} {negative : Bool} {n : Nat} (hb : Blank before)
    (ha : Blank after) (hs : Sign sign negative) (hn : magnitude body n) :
    Literal magnitude (before ++ (sign ++ body) ++ after) (withSign negative n)

/-- Reads an integer whose magnitude is read in a given way. -/
def readSigned? (read? : List Char → Option Nat) (s : List Char) : Option Int :=
  (read? (splitSign (trim s)).2).map (withSign (splitSign (trim s)).1)

/-- A text that has a character, and neither blanks nor signs. -/
def Bare (s : List Char) : Prop := s ≠ [] ∧ ∀ c ∈ s, isBlank c = false ∧ c ≠ '-' ∧ c ≠ '+'

theorem exists_splitSign (s : List Char) :
    ∃ sign, Sign sign (splitSign s).1 ∧ s = sign ++ (splitSign s).2 := by
  unfold splitSign
  split
  · exact ⟨_, .minus, rfl⟩
  · exact ⟨_, .plus, rfl⟩
  · exact ⟨_, .none, rfl⟩

theorem splitSign_append {sign : List Char} {negative : Bool} (hs : Sign sign negative)
    (hb : Bare body) : splitSign (sign ++ body) = (negative, body) := by
  cases hs with
  | none =>
    rw [List.nil_append]
    unfold splitSign
    split
    · exact absurd rfl (hb.2 '-' List.mem_cons_self).2.1
    · exact absurd rfl (hb.2 '+' List.mem_cons_self).2.2
    · rfl
  | plus | minus => rfl

/-- Integers are read exactly as the grammar has them, if their magnitudes are, and are bare. -/
theorem readSigned?_eq_some_iff {read? : List Char → Option Nat}
    {magnitude : List Char → Nat → Prop} {i : Int}
    (hread : ∀ body n, read? body = some n ↔ magnitude body n)
    (hbare : ∀ body n, magnitude body n → Bare body) :
    readSigned? read? s = some i ↔ Literal magnitude s i := by
  rw [readSigned?, Option.map_eq_some_iff]
  constructor
  · rintro ⟨n, hn, rfl⟩
    obtain ⟨before, after, hb, ha, hs⟩ := exists_trim s
    obtain ⟨sign, hsign, ht⟩ := exists_splitSign (trim s)
    have hl := Literal.signed hb ha hsign ((hread _ _).mp hn)
    rwa [← ht, ← hs] at hl
  · rintro ⟨hb, ha, hsign, hn⟩
    rename_i before sign body after negative n
    have hbody := hbare body n hn
    have hc : ∀ c ∈ sign ++ body, isBlank c = false := by
      intro c hc
      rcases List.mem_append.mp hc with hc | hc
      · cases hsign with
        | none => cases hc
        | plus | minus =>
          rw [List.mem_singleton.mp hc]
          rfl
      · exact (hbody.2 c hc).1
    have ht : trim (before ++ (sign ++ body) ++ after) = sign ++ body :=
      trim_eq hb ha (fun h ↦ hbody.1 (List.append_eq_nil_iff.mp h).2) hc
    rw [ht, splitSign_append hsign hbody]
    exact ⟨n, (hread _ _).mpr hn, rfl⟩

/-- What is no mark is neither a blank nor a sign. -/
theorem bare_of_not_mem_marks (hc : c.toNat ∉ marks) : isBlank c = false ∧ c ≠ '-' ∧ c ≠ '+' := by
  refine ⟨?_, ?_, ?_⟩
  · exact Bool.eq_false_iff.mpr fun h ↦ hc (mem_marks_of_isBlank h)
  · rintro rfl
    exact hc (by decide)
  · rintro rfl
    exact hc (by decide)

/-- The spelling of digits is bare, if none of them is a mark. -/
theorem Spells.bare (h : Spells value? s ds)
    (hdigit : ∀ c d, value? c = some d → c.toNat ∉ marks) : Bare s :=
  ⟨h.ne_nil, h.forall_mem (fun c d hc ↦ bare_of_not_mem_marks (hdigit c d hc)) (by decide)⟩

/-- Decimal integers are read exactly as the grammar has them. -/
theorem readDecimal?_eq_some_iff {i : Int} : readDecimal? s = some i ↔ Literal Decimal s i := by
  have hread : readDecimal? s = readSigned? decimal? s := by
    rw [readDecimal?, readSigned?, decimal?]
    obtain ⟨negative, body⟩ := splitSign (trim s)
    cases hds : readDigits? digitValue? body with
    | none => simp [hds]
    | some ds => by_cases hl : ds.length ≤ maxDecimalDigits <;> simp [hds, hl]
  rw [hread]
  apply readSigned?_eq_some_iff fun _ _ ↦ decimal?_eq_some_iff
  rintro body n ⟨hs, -⟩
  exact hs.bare fun _ _ ↦ not_mem_marks_of_digitValue?

/-- Hexadecimal integers are read exactly as the grammar has them. -/
theorem readHex?_eq_some_iff {i : Int} : readHex? s = some i ↔ Literal Hexadecimal s i := by
  have hread : readHex? s = readSigned? hexadecimal? s := by
    rw [readHex?, readSigned?, hexadecimal?]
    obtain ⟨negative, body⟩ := splitSign (trim s)
    cases hds : readDigits? hexValue? (dropHexMark body) <;> simp [hds]
  rw [hread]
  apply readSigned?_eq_some_iff fun _ _ ↦ hexadecimal?_eq_some_iff
  rintro body n ⟨hm, hs⟩
  have hbare := hs.bare fun _ _ ↦ not_mem_marks_of_hexValue?
  have hletter : ∀ x : Char, x = 'x' ∨ x = 'X' → isBlank x = false ∧ x ≠ '-' ∧ x ≠ '+' := by
    rintro x (rfl | rfl) <;> decide
  cases hm with
  | none => exact hbare
  | marked hz hx =>
    have hzero := bare_of_not_mem_marks (not_mem_marks_of_digitValue? hz)
    exact ⟨nofun, by simpa using ⟨hzero, hletter _ hx, hbare.2⟩⟩
  | spaced hz hx =>
    have hzero := bare_of_not_mem_marks (not_mem_marks_of_digitValue? hz)
    have hspace : isBlank '_' = false ∧ '_' ≠ '-' ∧ '_' ≠ '+' := by decide
    refine ⟨nofun, ?_⟩
    simp only [List.cons_append, List.nil_append, List.forall_mem_cons]
    exact ⟨hzero, hletter _ hx, hspace, hbare.2⟩

/-! ## What is shown is read again -/

theorem hexValue?_digitChar : ∀ d < 16, hexValue? (Nat.digitChar d) = some d := by
  decide +kernel

theorem digitValue?_digitChar : ∀ d < 10, digitValue? (Nat.digitChar d) = some d := by
  decide +kernel

/-- The characters of digits spell them, if they have their values. -/
theorem spells_map {base : Nat} (hv : ∀ d < base, value? (Nat.digitChar d) = some d)
    (hd : ∀ d ∈ ds, d < base) (hs : ds ≠ []) : Spells value? (ds.map Nat.digitChar) ds := by
  induction ds with
  | nil => exact absurd rfl hs
  | cons d ds ih =>
    have hhead := hv d (hd d List.mem_cons_self)
    by_cases hnil : ds = []
    · rw [hnil]
      exact .one hhead
    · exact .next hhead (ih (fun e he ↦ hd e (List.mem_cons_of_mem d he)) hnil)

/-- A number is shown by the characters of its digits. -/
theorem exists_toDigits_eq {base : Nat} (hb : 1 < base) (n : Nat) :
    ∃ ds : List Nat, Nat.toDigits base n = ds.map Nat.digitChar ∧ (∀ d ∈ ds, d < base) ∧
      Nat.ofDigits base ds.reverse = n := by
  induction n using Nat.strong_induction_on with
  | _ n ih =>
    rw [Nat.toDigits_eq_if hb]
    split
    case isTrue hn => exact ⟨[n], rfl, by simpa using hn, by simp⟩
    case isFalse hn =>
      obtain ⟨ds, hds, hlt, hvalue⟩ := ih (n / base) (Nat.div_lt_self (by omega) hb)
      refine ⟨ds ++ [n % base], by simp [hds], ?_, ?_⟩
      · intro d hd
        rcases List.mem_append.mp hd with hd | hd
        · exact hlt d hd
        · rw [List.mem_singleton.mp hd]
          exact Nat.mod_lt n (by omega)
      · rw [List.reverse_append, List.reverse_singleton, List.singleton_append,
          Nat.ofDigits_cons, hvalue]
        exact Nat.mod_add_div n base

/-- The sign with which a number is shown. -/
def signOf (i : Int) : List Char := if i < 0 then ['-'] else []

theorem sign_signOf (i : Int) : Sign (signOf i) (decide (i < 0)) := by
  rw [signOf]
  split
  case isTrue h => simpa [h] using Sign.minus
  case isFalse h => simpa [h] using Sign.none

theorem withSign_natAbs (i : Int) : withSign (decide (i < 0)) i.natAbs = i := by
  rw [withSign]
  split
  case isTrue h =>
    rw [decide_eq_true_eq] at h
    omega
  case isFalse h =>
    rw [decide_eq_true_eq] at h
    omega

/-- A sign and a magnitude are the text of an integer. -/
theorem literal_signOf {magnitude : List Char → Nat → Prop} {i : Int}
    (h : magnitude body i.natAbs) : Literal magnitude (signOf i ++ body) i := by
  have hblank : Blank [] := nofun
  have hl := Literal.signed hblank hblank (sign_signOf i) h
  rwa [List.nil_append, List.append_nil, withSign_natAbs] at hl

/-- The decimal text of an integer is its sign and its digits. -/
theorem toList_toString (i : Int) :
    (toString i).toList = signOf i ++ Nat.toDigits 10 i.natAbs := by
  rw [Int.toString_eq_repr, Int.repr_eq_if, signOf]
  split
  case isTrue h =>
    have hn : i.toNat = i.natAbs := by omega
    rw [if_neg (by omega), Nat.toList_repr, hn, List.nil_append]
  case isFalse h =>
    have hn : (-i).toNat = i.natAbs := by omega
    rw [if_pos (by omega), String.toList_append, Nat.toList_repr, hn]
    rfl

/-- An integer is read from its decimal text, if that has not too many digits. -/
theorem readDecimal?_toString {i : Int} (h : i.natAbs < 10 ^ maxDecimalDigits) :
    readDecimal? (toString i).toList = some i := by
  obtain ⟨ds, hds, hlt, hvalue⟩ := exists_toDigits_eq (show 1 < 10 by decide) i.natAbs
  have hne : ds ≠ [] := by
    rintro rfl
    exact Nat.toDigits_ne_nil hds
  have hl : ds.length ≤ maxDecimalDigits := by
    rw [← List.length_map Nat.digitChar, ← hds]
    exact (Nat.length_toDigits_le_iff (by decide) (by decide)).mpr h
  have hm := Decimal.digits (spells_map digitValue?_digitChar hlt hne) hl
  rw [hvalue, ← hds] at hm
  rw [readDecimal?_eq_some_iff, toList_toString]
  exact literal_signOf hm

/-- The hexadecimal text of an integer is its sign and the characters of its digits. -/
theorem exists_hexChars_eq (width : Nat) (i : Int) :
    ∃ ds : List Nat, hexChars width i = signOf i ++ ds.map Nat.digitChar ∧ ds ≠ [] ∧
      (∀ d ∈ ds, d < 16) ∧ Nat.ofDigits 16 ds.reverse = i.natAbs := by
  obtain ⟨ds, hds, hlt, hvalue⟩ := exists_toDigits_eq (show 1 < 16 by decide) i.natAbs
  have hne : ds ≠ [] := by
    rintro rfl
    exact Nat.toDigits_ne_nil hds
  -- The zeros that fill up the field are digits as well.
  refine ⟨List.replicate (width - (signOf i).length - ds.length) 0 ++ ds, ?_, ?_, ?_, ?_⟩
  · rw [hexChars, hexDigits, hds, List.map_append, List.map_replicate, List.length_map,
      List.append_assoc]
    rfl
  · exact fun h ↦ hne (List.append_eq_nil_iff.mp h).2
  · intro d hd
    rcases List.mem_append.mp hd with hd | hd
    · rw [List.eq_of_mem_replicate hd]
      decide
    · exact hlt d hd
  · rw [List.reverse_append, List.reverse_replicate, Nat.ofDigits_append_replicate_zero, hvalue]

/-- An integer is read from its hexadecimal text of any width. -/
theorem readHex?_hexChars (width : Nat) (i : Int) : readHex? (hexChars width i) = some i := by
  obtain ⟨ds, hds, hne, hlt, hvalue⟩ := exists_hexChars_eq width i
  have hm := Hexadecimal.digits .none (spells_map hexValue?_digitChar hlt hne)
  rw [hvalue, List.nil_append] at hm
  rw [readHex?_eq_some_iff, hds]
  exact literal_signOf hm

/-- Different integers have different hexadecimal texts. -/
theorem hexChars_inj {width width' : Nat} {i j : Int} (h : hexChars width i = hexChars width' j) :
    i = j := by
  have hread := readHex?_hexChars width i
  rw [h, readHex?_hexChars] at hread
  exact (Option.some.inj hread).symm

/-- Digits are the hexadecimal text, as long as they are many, of the number that they make up. -/
theorem hexChars_ofDigits (hlt : ∀ d ∈ ds, d < 16) (hs : ds ≠ []) :
    hexChars ds.length (Nat.ofDigits 16 ds.reverse : Nat) = ds.map Nat.digitChar := by
  obtain ⟨es, hes, -, helt, hvalue⟩ :=
    exists_hexChars_eq ds.length (Nat.ofDigits 16 ds.reverse : Nat)
  have hsign : signOf (Nat.ofDigits 16 ds.reverse : Nat) = [] := if_neg (by omega)
  have hsmall : Nat.ofDigits 16 ds.reverse < 16 ^ ds.length := by
    rw [← List.length_reverse]
    exact Nat.ofDigits_lt_base_pow_length (by decide) fun d hd ↦ hlt d (List.mem_reverse.mp hd)
  rw [hsign, List.nil_append] at hes
  have hl : es.length = ds.length := by
    rw [← List.length_map Nat.digitChar, ← hes]
    exact length_hexChars (List.length_pos_iff.mpr hs) hsmall
  -- Two numerals of one length with one value have the same digits.
  have hsame : es.reverse = ds.reverse := by
    refine Nat.ofDigits_inj_of_len_eq (b := 16) (by decide) (by simpa using hl) ?_ ?_ hvalue
    · exact fun d hd ↦ helt d (List.mem_reverse.mp hd)
    · exact fun d hd ↦ hlt d (List.mem_reverse.mp hd)
  rw [hes, List.reverse_inj.mp hsame]

end Numeral
end SuperChip
