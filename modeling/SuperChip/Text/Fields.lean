/-!
# Fields

A text cut into fields at each place where a mark stands, such as a comma.  A text without the mark
is one field, and the empty text is one empty field.
-/

namespace SuperChip.Text

/-- The fields of a text. -/
def fields (mark : Char) : List Char → List (List Char)
  | [] => [[]]
  | c :: rest =>
    if c = mark then [] :: fields mark rest
    else
      match fields mark rest with
      | [] => [[c]]
      | field :: others => (c :: field) :: others

/-- A mark begins a new field. -/
@[simp] theorem fields_mark (mark : Char) (rest : List Char) :
    fields mark (mark :: rest) = [] :: fields mark rest := by simp [fields]

/-- A text has at least one field. -/
theorem fields_ne_nil (mark : Char) (s : List Char) : fields mark s ≠ [] := by
  fun_induction fields mark s <;> simp

/-- The fields are the parts that a list is split into at an element. -/
theorem fields_eq_splitOn (mark : Char) (s : List Char) : fields mark s = s.splitOn mark := by
  induction s with
  | nil => rfl
  | cons c s ih =>
    rw [fields, List.splitOn_cons_eq_if_modifyHead, ← ih]
    by_cases hc : c = mark
    · rw [if_pos hc, if_pos (by simpa using hc)]
    · rw [if_neg hc, if_neg (by simpa using hc)]
      cases hf : fields mark s with
      | nil => exact absurd hf (fields_ne_nil mark s)
      | cons field others => rfl

/-- There is one field more than there are marks. -/
theorem length_fields (mark : Char) (s : List Char) :
    (fields mark s).length = s.count mark + 1 := by
  fun_induction fields mark s with
  | case1 => rfl
  | case2 rest ih => simp [ih]
  | case3 c rest hc he => exact absurd he (fields_ne_nil mark rest)
  | case4 c rest hc field others he ih =>
    rw [he] at ih
    simpa [hc] using ih

end SuperChip.Text
