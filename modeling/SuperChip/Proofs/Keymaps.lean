import Mathlib.Data.List.FinRange
import SuperChip.Keymap
import SuperChip.Proofs.Memory
import SuperChip.Proofs.Numerals

/-!
# Which keymaps are read

A keymap is read field by field.  The reading stops at the first field that is no integer, gives no
character where characters are wanted, or gives a code that an earlier field has given.  If it comes
to its end, each key has one code, and no two keys have the same.

A keymap of key codes is blamed for whatever is wrong with it.  One of characters is not: if a field
is an integer that is no character, or one whose small letter is more than one character, then that
is reported as it was met.

A keymap that is written, each code in decimal, is read again.
-/

namespace SuperChip

/-- The faults that blame a keymap. -/
def Fault.BlamesKeymap (f : Fault) : Prop := f = .keyCount ∨ f = .keyNotInteger ∨ f = .keyRepeated

namespace Keymap

/-- The codes of a keymap, in the order of its keys. -/
def codes (keymap : Keymap) : List Int := keymap.entries.map Prod.fst

/-- The code that a field gives. -/
def codeOf (characters : Bool) (field : List Char) : Except Fault Int :=
  match Numeral.readDecimal? field with
  | none => .error .keyNotInteger
  | some code => if characters then foldCase code else .ok code

/-- Adds the codes that fields give for keys, one after the other. -/
def insertFields (characters : Bool) (fields : List (List Char)) (keys : List Key)
    (keymap : Keymap) : Except Fault Keymap :=
  (fields.zip keys).foldlM
    (fun keymap entry ↦ keymap.insertField characters entry.1 entry.2) keymap

/-- A code that is not a character with one small letter, and what is wrong with it. -/
inductive NoCharacter : Int → Fault → Prop
  /-- A code beyond 32 bits with a sign. -/
  | tooLarge {code : Int} (h : code < -0x80000000 ∨ 0x80000000 ≤ code) :
    NoCharacter code .numberTooLarge
  /-- A code below or beyond the characters. -/
  | notCodePoint {code : Int} (hl : -0x80000000 ≤ code) (hu : code < 0x80000000)
    (h : code < 0 ∨ 0x10FFFF < code) : NoCharacter code .notCodePoint
  /-- The dotted capital I. -/
  | expands : NoCharacter 0x130 .letterExpands

/-- Why a field is not added to a keymap with some codes. -/
inductive Refused (characters : Bool) (codes : List Int) (field : List Char) : Fault → Prop
  /-- It gives no code. -/
  | noCode {f : Fault} (h : codeOf characters field = .error f) : Refused characters codes field f
  /-- It gives a code that is there already. -/
  | repeated {code : Int} (h : codeOf characters field = .ok code) (hm : code ∈ codes) :
    Refused characters codes field .keyRepeated

variable {characters : Bool} {keymap keymap' : Keymap} {code : Int} {k : Key} {field : List Char}
  {fields : List (List Char)} {keys : List Key} {f : Fault} {text : String}

/-! ## One field -/

theorem key?_eq_none_iff : keymap.key? code = none ↔ code ∉ keymap.codes := by
  rw [key?, List.lookup_eq_none_iff, codes, List.mem_map]
  constructor
  · rintro h ⟨e, he, rfl⟩
    simpa using h e he
  · intro h e he
    rw [bne_iff_ne]
    rintro rfl
    exact h ⟨e, he, rfl⟩

theorem insertField_eq :
    keymap.insertField characters field k = codeOf characters field >>= (keymap.insert · k) := by
  rw [insertField, codeOf]
  cases Numeral.readDecimal? field with
  | none => rfl
  | some code => cases characters <;> rfl

theorem insert_of_mem (h : code ∈ keymap.codes) : keymap.insert code k = .error .keyRepeated := by
  rw [insert]
  cases hk : keymap.key? code with
  | none => exact absurd h (key?_eq_none_iff.mp hk)
  | some k' => rfl

theorem insert_of_not_mem (h : code ∉ keymap.codes) :
    keymap.insert code k = .ok ⟨keymap.entries ++ [(code, k)]⟩ := by
  rw [insert, key?_eq_none_iff.mpr h]

/-- A field is added if it gives a code that is new. -/
theorem insertField_eq_ok_iff : keymap.insertField characters field k = .ok keymap' ↔
    ∃ code, codeOf characters field = .ok code ∧ code ∉ keymap.codes ∧
      keymap' = ⟨keymap.entries ++ [(code, k)]⟩ := by
  rw [insertField_eq]
  cases codeOf characters field with
  | error f => simp [bind, Except.bind]
  | ok code =>
    change keymap.insert code k = _ ↔ _
    by_cases h : code ∈ keymap.codes
    · simp [insert_of_mem h, h]
    · simp [insert_of_not_mem h, h, eq_comm]

/-- A field that is not added is refused for a reason. -/
theorem insertField_eq_error_iff :
    keymap.insertField characters field k = .error f ↔
      Refused characters keymap.codes field f := by
  rw [insertField_eq]
  cases hc : codeOf characters field with
  | error g =>
    constructor
    · rintro ⟨⟩
      exact .noCode hc
    · rintro (h | ⟨h, -⟩)
      · cases hc.symm.trans h
        rfl
      · cases hc.symm.trans h
  | ok code =>
    change keymap.insert code k = _ ↔ _
    by_cases h : code ∈ keymap.codes
    · rw [insert_of_mem h]
      constructor
      · rintro ⟨⟩
        exact .repeated hc h
      · rintro (h | -)
        · cases hc.symm.trans h
        · rfl
    · rw [insert_of_not_mem h]
      constructor
      · rintro ⟨⟩
      · rintro (h' | ⟨h', hm⟩)
        · cases hc.symm.trans h'
        · cases hc.symm.trans h'
          exact absurd hm h

/-! ## All fields -/

theorem codes_append (keymap : Keymap) (code : Int) (k : Key) :
    codes ⟨keymap.entries ++ [(code, k)]⟩ = keymap.codes ++ [code] := by
  simp [codes]

theorem not_mem_of_nodup_append {codes codes' : List Int} (h : (codes ++ code :: codes').Nodup) :
    code ∉ codes :=
  fun hm ↦ (List.nodup_append'.mp h).2.2 hm List.mem_cons_self

theorem insertFields_cons :
    insertFields characters (field :: fields) (k :: keys) keymap =
      keymap.insertField characters field k >>= insertFields characters fields keys := by
  rw [insertFields, List.zip_cons_cons, List.foldlM_cons]
  rfl

theorem exists_of_map_codeOf_cons {codes : List Int}
    (h : (field :: fields).map (codeOf characters) = codes.map .ok) :
    ∃ code codes', codes = code :: codes' ∧ codeOf characters field = .ok code ∧
      fields.map (codeOf characters) = codes'.map .ok := by
  obtain ⟨code, codes', rfl, hc, hcodes⟩ := List.map_eq_cons_iff.mp h.symm
  exact ⟨code, codes', rfl, hc.symm, hcodes.symm⟩

/-- Fields that give different codes are added if the codes are new, whatever comes after them. -/
theorem insertFields_append {before : List (List Char)} {keys' : List Key} {codes : List Int}
    (hcodes : before.map (codeOf characters) = codes.map .ok)
    (hn : (keymap.codes ++ codes).Nodup) (hl : before.length = keys.length) :
    insertFields characters (before ++ fields) (keys ++ keys') keymap =
      insertFields characters fields keys' ⟨keymap.entries ++ codes.zip keys⟩ := by
  induction before generalizing codes keys keymap with
  | nil =>
    rw [List.length_nil, eq_comm, List.length_eq_zero_iff] at hl
    rw [List.map_nil, eq_comm, List.map_eq_nil_iff] at hcodes
    simp [hl, hcodes]
  | cons field before ih =>
    cases keys with
    | nil => cases hl
    | cons k keys =>
      obtain ⟨code, codes, rfl, hc, hcodes⟩ := exists_of_map_codeOf_cons hcodes
      have hnew := not_mem_of_nodup_append hn
      rw [List.append_cons, ← codes_append keymap code k] at hn
      rw [List.cons_append, List.cons_append, insertFields_cons,
        insertField_eq_ok_iff.mpr ⟨code, hc, hnew, rfl⟩]
      have hrest := ih hcodes hn (Nat.succ_inj.mp hl)
      rwa [List.append_assoc] at hrest

/-- Fields that give different codes are added if the codes are new. -/
theorem insertFields_eq_ok {codes : List Int}
    (hcodes : fields.map (codeOf characters) = codes.map .ok)
    (hn : (keymap.codes ++ codes).Nodup) (hl : fields.length = keys.length) :
    insertFields characters fields keys keymap =
      .ok ⟨keymap.entries ++ codes.zip keys⟩ := by
  have happend : insertFields characters (fields ++ []) (keys ++ []) keymap = _ :=
    insertFields_append hcodes hn hl
  rwa [List.append_nil, List.append_nil] at happend

/-- Fields are not added if one of them is refused, when the codes of those before it are there. -/
theorem insertFields_eq_error {before after : List (List Char)} {codes : List Int}
    (hcodes : before.map (codeOf characters) = codes.map .ok)
    (hn : (keymap.codes ++ codes).Nodup) (hr : Refused characters (keymap.codes ++ codes) field f)
    (hl : (before ++ field :: after).length = keys.length) :
    insertFields characters (before ++ field :: after) keys keymap = .error f := by
  rw [List.length_append, List.length_cons] at hl
  have hlt : before.length < keys.length := by omega
  have htake : before.length = (keys.take before.length).length := by
    rw [List.length_take_of_le hlt.le]
  have hlength : codes.length = (keys.take before.length).length := by
    rw [← htake, ← List.length_map Except.ok, ← hcodes, List.length_map]
  -- When the field is met, the keymap has the codes of the fields before it.
  have hadded : Keymap.codes ⟨keymap.entries ++ codes.zip (keys.take before.length)⟩ =
      keymap.codes ++ codes := by
    rw [Keymap.codes, List.map_append, List.map_fst_zip hlength.le]
    rfl
  rw [← List.take_append_drop before.length keys, List.drop_eq_getElem_cons hlt,
    insertFields_append hcodes hn htake, insertFields_cons,
    insertField_eq_error_iff.mpr (by rwa [hadded])]
  rfl

/-- Either all fields give different codes that are new, or there is a first one that is refused. -/
theorem codes_or_refused {codes : List Int} (hk : codes.Nodup) (characters : Bool)
    (fields : List (List Char)) :
    (∃ codes', fields.map (codeOf characters) = codes'.map .ok ∧ (codes ++ codes').Nodup) ∨
    ∃ before field after codes' f, fields = before ++ field :: after ∧
      before.map (codeOf characters) = codes'.map .ok ∧ (codes ++ codes').Nodup ∧
      Refused characters (codes ++ codes') field f := by
  -- The codes that are there grow with each field that is not refused.
  induction fields generalizing codes with
  | nil => exact .inl ⟨[], rfl, by rwa [List.append_nil]⟩
  | cons field fields ih =>
    by_cases hf : ∃ f, Refused characters codes field f
    · obtain ⟨f, hf⟩ := hf
      exact .inr ⟨[], field, fields, [], f, rfl, rfl, by rwa [List.append_nil],
        by rwa [List.append_nil]⟩
    · cases hc : codeOf characters field with
      | error f => exact absurd ⟨f, .noCode hc⟩ hf
      | ok code =>
        have hnew : code ∉ codes := fun hm ↦ hf ⟨_, .repeated hc hm⟩
        have hk' : (codes ++ [code]).Nodup := by
          rw [← List.concat_eq_append]
          exact hk.concat hnew
        rcases ih hk' with ⟨codes', hcodes, hn⟩ |
          ⟨before, field', after, codes', f, rfl, hcodes, hn, hr⟩
        · rw [List.append_assoc] at hn
          exact .inl ⟨code :: codes', by rw [List.map_cons, hc, hcodes]; rfl, hn⟩
        · rw [List.append_assoc] at hn hr
          exact .inr ⟨field :: before, field', after, code :: codes', f, rfl,
            by rw [List.map_cons, hc, hcodes]; rfl, hn, hr⟩

/-! ## Whole keymaps -/

theorem parse_eq : parse characters text =
    if (Text.fields ',' text.toList).length = 16 then
      insertFields characters (Text.fields ',' text.toList) (List.finRange 16) ⟨[]⟩
    else .error .keyCount :=
  rfl

/-- A keymap is read if it has sixteen fields that give different codes. -/
theorem parse_eq_ok {codes : List Int} (hl : (Text.fields ',' text.toList).length = 16)
    (hcodes : (Text.fields ',' text.toList).map (codeOf characters) = codes.map .ok)
    (hn : codes.Nodup) :
    parse characters text = .ok ⟨codes.zip (List.finRange 16)⟩ := by
  rw [parse_eq, if_pos hl]
  exact insertFields_eq_ok hcodes hn (by rw [hl, List.length_finRange])

/-- A keymap is not read if one of its fields is refused. -/
theorem parse_eq_error {before after : List (List Char)} {codes : List Int}
    (hl : (Text.fields ',' text.toList).length = 16)
    (hs : Text.fields ',' text.toList = before ++ field :: after)
    (hcodes : before.map (codeOf characters) = codes.map .ok) (hn : codes.Nodup)
    (hr : Refused characters codes field f) : parse characters text = .error f := by
  rw [parse_eq, if_pos hl, hs]
  exact insertFields_eq_error hcodes hn hr (by rw [← hs, hl, List.length_finRange])

/-- A keymap that is read has sixteen fields that give different codes. -/
theorem exists_of_parse_eq_ok (h : parse characters text = .ok keymap) :
    (Text.fields ',' text.toList).length = 16 ∧ ∃ codes : List Int,
      (Text.fields ',' text.toList).map (codeOf characters) = codes.map .ok ∧
        codes.Nodup ∧ keymap = ⟨codes.zip (List.finRange 16)⟩ := by
  by_cases hl : (Text.fields ',' text.toList).length = 16
  · rcases codes_or_refused .nil characters (Text.fields ',' text.toList) with
      ⟨codes, hcodes, hn⟩ | ⟨before, field, after, codes, f, hs, hcodes, hn, hr⟩
    · cases h.symm.trans (parse_eq_ok hl hcodes hn)
      exact ⟨hl, codes, hcodes, hn, rfl⟩
    · cases h.symm.trans (parse_eq_error hl hs hcodes hn hr)
  · rw [parse_eq, if_neg hl] at h
    cases h

/-- A keymap is not read exactly if it has another number of fields, or one of its fields is
refused. -/
theorem parse_eq_error_iff : parse characters text = .error f ↔
    ((Text.fields ',' text.toList).length ≠ 16 ∧ f = .keyCount) ∨
      ((Text.fields ',' text.toList).length = 16 ∧ ∃ before field after codes,
        Text.fields ',' text.toList = before ++ field :: after ∧
        before.map (codeOf characters) = codes.map .ok ∧
        codes.Nodup ∧ Refused characters codes field f) := by
  constructor
  · intro h
    by_cases hl : (Text.fields ',' text.toList).length = 16
    · rcases codes_or_refused .nil characters (Text.fields ',' text.toList) with
        ⟨codes, hcodes, hn⟩ | ⟨before, field, after, codes, f', hs, hcodes, hn, hr⟩
      · cases h.symm.trans (parse_eq_ok hl hcodes hn)
      · cases h.symm.trans (parse_eq_error hl hs hcodes hn hr)
        exact .inr ⟨hl, before, field, after, codes, hs, hcodes, hn, hr⟩
    · rw [parse_eq, if_neg hl] at h
      cases h
      exact .inl ⟨hl, rfl⟩
  · rintro (⟨hl, rfl⟩ | ⟨hl, before, field, after, codes, hs, hcodes, hn, hr⟩)
    · exact if_neg hl
    · exact parse_eq_error hl hs hcodes hn hr

/-- The entries of a keymap that is read are the codes that its fields give, with their keys. -/
theorem entries_of_parse (h : parse characters text = .ok keymap) : keymap.codes.Nodup ∧
    ((Text.fields ',' text.toList).zip (List.finRange 16)).map
      (fun e ↦ (codeOf characters e.1, e.2)) = keymap.entries.map fun e ↦ (.ok e.1, e.2) := by
  obtain ⟨hl, codes, hcodes, hn, rfl⟩ := exists_of_parse_eq_ok h
  have hlength : codes.length = (List.finRange 16).length := by
    rw [← List.length_map Except.ok, ← hcodes, List.length_map, hl, List.length_finRange]
  constructor
  · rwa [Keymap.codes, List.map_fst_zip hlength.le]
  · have hzip : (codes.map (Except.ok : Int → Except Fault Int)).zip (List.finRange 16) = _ :=
      List.zip_map_left
    rw [← hcodes, List.zip_map_left] at hzip
    exact hzip

/-- In a keymap without repetitions, a code presses the key that it stands with. -/
theorem key?_eq_some_iff (hk : keymap.codes.Nodup) :
    keymap.key? code = some k ↔ (code, k) ∈ keymap.entries := by
  rw [key?, List.lookup_eq_some_iff]
  constructor
  · rintro ⟨before, after, hs, -⟩
    rw [hs]
    exact List.mem_append_right _ List.mem_cons_self
  · intro hm
    obtain ⟨before, after, hs⟩ := List.append_of_mem hm
    refine ⟨before, after, hs, ?_⟩
    intro e he
    rw [codes, hs, List.map_append, List.map_cons] at hk
    have hne := not_mem_of_nodup_append hk
    rw [bne_iff_ne]
    rintro rfl
    exact hne (List.mem_map.mpr ⟨e, he, rfl⟩)

/-- A field gives a character if it is an integer that is one. -/
theorem codeOf_eq_ok_iff : codeOf true field = .ok code ↔
    ∃ listed, Numeral.readDecimal? field = some listed ∧ foldCase listed = .ok code := by
  rw [codeOf]
  cases Numeral.readDecimal? field with
  | none => simp
  | some listed => simp

/-- A code is refused as a character exactly if it is none. -/
theorem foldCase_eq_error_iff : foldCase code = .error f ↔ NoCharacter code f := by
  constructor
  · intro h
    rw [foldCase] at h
    split at h
    case isTrue hc =>
      cases h
      exact .tooLarge hc
    case isFalse hc =>
      split at h
      case isTrue hp =>
        cases h
        exact .notCodePoint (by omega) (by omega) hp
      case isFalse hp =>
        split at h
        case isTrue he =>
          cases h
          have hcode : code = 0x130 := by
            rw [Text.expandingLetter] at he
            omega
          rw [hcode]
          exact .expands
        case isFalse => cases h
  · rintro (h | ⟨hl, hu, h⟩ | -)
    · rw [foldCase, if_pos h]
    · rw [foldCase, if_neg (by omega), if_pos h]
    · rfl

theorem NoCharacter.not_blamesKeymap (h : NoCharacter code f) : ¬ f.BlamesKeymap := by
  cases h <;> simp [Fault.BlamesKeymap]

/-- A field is refused without blame for the keymap exactly if a character is wanted and it is an
integer that is none. -/
theorem refused_and_not_blamesKeymap_iff {codes : List Int} :
    Refused characters codes field f ∧ ¬ f.BlamesKeymap ↔
      characters = true ∧ ∃ code, Numeral.readDecimal? field = some code ∧ NoCharacter code f := by
  constructor
  · rintro ⟨h | -, hf⟩
    · rw [codeOf] at h
      cases hr : Numeral.readDecimal? field with
      | none =>
        rw [hr] at h
        cases h
        exact absurd (.inr (.inl rfl)) hf
      | some code =>
        rw [hr] at h
        cases characters with
        | false => cases h
        | true => exact ⟨rfl, code, rfl, foldCase_eq_error_iff.mp h⟩
    · exact absurd (.inr (.inr rfl)) hf
  · rintro ⟨rfl, code, hr, hc⟩
    refine ⟨.noCode ?_, hc.not_blamesKeymap⟩
    rw [codeOf, hr]
    exact foldCase_eq_error_iff.mpr hc

/-- A keymap that is read has one code for each key, and no code twice.  One that is not read is
blamed for it, unless characters are wanted and a field is an integer that is no character with one
small letter, while the fields before it are such characters and differ. -/
theorem bad_keymaps_blamed (characters : Bool) (text : String) :
    (∀ keymap, parse characters text = .ok keymap →
      keymap.codes.Nodup ∧ keymap.entries.map Prod.snd = List.finRange 16) ∧
    (∀ f, (parse characters text = .error f ∧ ¬ f.BlamesKeymap) ↔
      characters = true ∧ (Text.fields ',' text.toList).length = 16 ∧
        ∃ before field after, ∃ codes : List Int, ∃ code,
          Text.fields ',' text.toList = before ++ field :: after ∧
          before.map (codeOf characters) = codes.map .ok ∧
          codes.Nodup ∧ Numeral.readDecimal? field = some code ∧ NoCharacter code f) := by
  constructor
  · intro keymap h
    obtain ⟨hl, -⟩ := exists_of_parse_eq_ok h
    obtain ⟨hn, hentries⟩ := entries_of_parse h
    have hkeys := congrArg (List.map Prod.snd) hentries
    rw [List.map_map, List.map_map] at hkeys
    refine ⟨hn, hkeys.symm.trans (List.map_snd_zip ?_)⟩
    rw [hl, List.length_finRange]
  · intro f
    rw [parse_eq_error_iff]
    constructor
    · rintro ⟨⟨-, rfl⟩ | ⟨hl, before, field, after, codes, hs, hcodes, hn, hr⟩, hf⟩
      · exact absurd (.inl rfl) hf
      · obtain ⟨hc, code, hread, hno⟩ := refused_and_not_blamesKeymap_iff.mp ⟨hr, hf⟩
        exact ⟨hc, hl, before, field, after, codes, code, hs, hcodes, hn, hread, hno⟩
    · rintro ⟨hc, hl, before, field, after, codes, code, hs, hcodes, hn, hread, hno⟩
      obtain ⟨hr, hf⟩ := refused_and_not_blamesKeymap_iff.mpr ⟨hc, code, hread, hno⟩
      exact ⟨.inr ⟨hl, before, field, after, codes, hs, hcodes, hn, hr⟩, hf⟩

/-- The keymap for which no other is given is read as characters.  One that begins with the same
character and the dotted capital I is not, and is not blamed for it. -/
theorem bad_keymaps_blamed_standard :
    (∃ keymap, parse true standard = .ok keymap ∧
      keymap.codes.Nodup ∧ keymap.entries.map Prod.snd = List.finRange 16) ∧
    parse true "120,304,50,51,113,119,101,97,115,100,122,99,52,114,102,118" =
      .error .letterExpands := by
  have hread : (parse true standard).toOption.isSome = true := by decide +kernel
  constructor
  · cases h : parse true standard with
    | error f => simp [h, Except.toOption] at hread
    | ok keymap => exact ⟨keymap, rfl, (bad_keymaps_blamed true standard).1 keymap h⟩
  · refine (((bad_keymaps_blamed true _).2 .letterExpands).mpr ⟨rfl, rfl, ?_⟩).1
    have hfirst : codeOf true "120".toList = .ok 120 := by decide +kernel
    exact ⟨["120".toList], "304".toList, _, [120], 304, rfl, congrArg (List.cons · []) hfirst,
      List.nodup_singleton 120, rfl, .expands⟩

/-- A keymap of characters with a negative code is not blamed for it. -/
theorem negative_character_not_blamed :
    parse true "-1,49,50,51,113,119,101,97,115,100,122,99,52,114,102,118" =
      .error .notCodePoint ∧ ¬ Fault.notCodePoint.BlamesKeymap := by
  constructor
  · rfl
  · have hno : NoCharacter (-1) .notCodePoint := .notCodePoint (by decide) (by decide) (by decide)
    exact hno.not_blamesKeymap

/-! ## Writing -/

/-- The text of a keymap with some codes. -/
def write (codes : List Int) : String := ",".intercalate (codes.map toString)

theorem not_mem_toList_toString (code : Int) : ',' ∉ (toString code).toList := by
  rw [Numeral.toList_toString, List.mem_append]
  rintro (h | h)
  · rw [Numeral.signOf] at h
    split at h
    · cases List.mem_singleton.mp h
    · cases h
  · exact absurd (Nat.isDigit_of_mem_toDigits (by decide) (by decide) h) (by decide)

/-- The fields of a keymap that is written are the decimal texts of its codes. -/
theorem fields_write {codes : List Int} (hc : codes ≠ []) :
    Text.fields ',' (write codes).toList = codes.map fun code ↦ (toString code).toList := by
  rw [write, String.toList_intercalate, List.map_map, Text.fields_eq_splitOn]
  apply List.splitOn_intercalate
  · rintro s hs
    obtain ⟨code, -, rfl⟩ := List.mem_map.mp hs
    exact not_mem_toList_toString code
  · simpa using hc

/-- The fields of a keymap that is written give its codes. -/
theorem map_codeOf_write {codes : List Int}
    (h : ∀ code ∈ codes, code.natAbs < 10 ^ Numeral.maxDecimalDigits) :
    (codes.map fun code ↦ (toString code).toList).map (codeOf false) = codes.map .ok := by
  rw [List.map_map, List.map_inj_left]
  intro code hc
  rw [Function.comp_apply, codeOf, Numeral.readDecimal?_toString (h code hc)]
  rfl

/-- A keymap is blamed for a repetition if all its fields give codes, but two of them the same. -/
theorem parse_eq_keyRepeated {codes : List Int} (hl : (Text.fields ',' text.toList).length = 16)
    (hcodes : (Text.fields ',' text.toList).map (codeOf characters) = codes.map .ok)
    (hn : ¬ codes.Nodup) : parse characters text = .error .keyRepeated := by
  cases hp : parse characters text with
  | ok keymap =>
    obtain ⟨-, codes', hcodes', hn', -⟩ := exists_of_parse_eq_ok hp
    have hsame : codes = codes' :=
      List.map_injective_iff.mpr (fun _ _ ↦ Except.ok.inj) (hcodes.symm.trans hcodes')
    exact absurd (hsame ▸ hn') hn
  | error f =>
    obtain ⟨hl', -⟩ | ⟨-, before, field, after, codes', hs, -, -, hr⟩ := parse_eq_error_iff.mp hp
    · exact absurd hl hl'
    · cases hr with
      | repeated => rfl
      | noCode hc =>
        have hm : codeOf characters field ∈ codes.map Except.ok := by
          rw [← hcodes, hs]
          exact List.mem_map_of_mem (List.mem_append_right _ List.mem_cons_self)
        obtain ⟨code, -, hok⟩ := List.mem_map.mp hm
        cases hc.symm.trans hok.symm

/-- The codes that are written, each with its key. -/
theorem zip_finRange (codes : Key → Int) :
    (List.ofFn codes).zip (List.finRange 16) = List.ofFn fun k ↦ (codes k, k) := by
  rw [List.ofFn_eq_map, List.ofFn_eq_map, List.map_prod_right_eq_zip]

/-- A keymap of key codes that is written is read again if its codes differ, and then each code
presses the key that it was written for, and no other code presses one.  If two codes are the same,
the keymap is blamed.  One that does not have sixteen fields is blamed whatever they are. -/
theorem parse_write (codes : Key → Int)
    (hdigits : ∀ k, (codes k).natAbs < 10 ^ Numeral.maxDecimalDigits) :
    (Function.Injective codes → ∃ keymap, parse false (write (List.ofFn codes)) = .ok keymap ∧
      keymap.entries = List.ofFn (fun k ↦ (codes k, k)) ∧
      ∀ code k, keymap.key? code = some k ↔ codes k = code) ∧
    (¬ Function.Injective codes →
      parse false (write (List.ofFn codes)) = .error .keyRepeated) ∧
    (∀ characters text, (Text.fields ',' text.toList).length ≠ 16 →
      parse characters text = .error .keyCount) := by
  have hne : List.ofFn codes ≠ [] := by simp
  have hfields := fields_write hne
  have hcodes := map_codeOf_write (List.forall_mem_ofFn_iff.mpr hdigits)
  have hlength : (Text.fields ',' (write (List.ofFn codes)).toList).length = 16 := by
    rw [hfields, List.length_map, List.length_ofFn]
  rw [← hfields] at hcodes
  refine ⟨?_, ?_, ?_⟩
  · intro hinj
    have hn : (List.ofFn codes).Nodup := List.nodup_ofFn.mpr hinj
    have hentries := zip_finRange codes
    refine ⟨_, parse_eq_ok hlength hcodes hn, hentries, ?_⟩
    intro code k
    rw [key?_eq_some_iff (by rw [Keymap.codes, hentries, List.map_ofFn]; exact hn), hentries,
      List.mem_ofFn]
    constructor
    · rintro ⟨k', h⟩
      cases h
      rfl
    · rintro rfl
      exact ⟨k, rfl⟩
  · intro hinj
    exact parse_eq_keyRepeated hlength hcodes fun hn ↦ hinj (List.nodup_ofFn.mp hn)
  · intro characters text hl
    exact if_neg hl

/-- Codes of thirty digits, one of them negative, are written and read again.  Sixteen times the
same code is refused, and so is a keymap of two fields. -/
theorem parse_write_far :
    (∃ keymap, parse false (write (List.ofFn fun k : Key ↦ 10 ^ 30 * (k : Int) - 7)) = .ok keymap ∧
      keymap.key? (-7) = some 0 ∧ keymap.key? (10 ^ 30 - 7) = some 1 ∧ keymap.key? 7 = none) ∧
    parse false (write (List.ofFn fun _ : Key ↦ -7)) = .error .keyRepeated ∧
    parse true "120,304" = .error .keyCount := by
  refine ⟨?_, ?_, ?_⟩
  · have hinj : Function.Injective fun k : Key ↦ 10 ^ 30 * (k : Int) - 7 := by
      intro k k' h
      simpa [Fin.ext_iff] using h
    obtain ⟨keymap, hread, -, hkeys⟩ :=
      (parse_write (fun k : Key ↦ 10 ^ 30 * (k : Int) - 7) (by decide +kernel)).1 hinj
    refine ⟨keymap, hread, (hkeys _ _).mpr (by simp), (hkeys _ _).mpr (by simp), ?_⟩
    rw [Option.eq_none_iff_forall_ne_some]
    intro k h
    have hcode := (hkeys _ _).mp h
    omega
  · apply (parse_write (fun _ : Key ↦ -7) (by decide +kernel)).2.1
    intro hinj
    exact absurd (hinj (show (-7 : Int) = -7 from rfl) : (0 : Key) = 1) (by decide)
  · exact (parse_write (fun _ : Key ↦ -7) (by decide +kernel)).2.2 true "120,304" (by decide)

end Keymap
end SuperChip
