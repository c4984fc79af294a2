import LeoMem.Lib.Text

/-!
# Files of `key=value` lines

A record is written one line a field and read back line by line into a record that
starts out with its defaults. A line without `=` is skipped. A file that is read while it
is being written is cut somewhere: between two lines, inside a key, or inside a value.
-/

namespace LeoMem.Lib

/-- One line `key=value`. -/
def keyValueLine (key : String) (value : Text) : Text := key.toList ++ '=' :: value ++ ['\n']

/-- The file that holds `fields`. -/
def fileOf (fields : List (String × Text)) : Text := fields.flatMap fun field => keyValueLine field.1 field.2

@[simp] theorem fileOf_nil : fileOf [] = [] := rfl

@[simp] theorem fileOf_cons (field : String × Text) (fields : List (String × Text)) :
    fileOf (field :: fields) = keyValueLine field.1 field.2 ++ fileOf fields := List.flatMap_cons

@[simp] theorem fileOf_append (fields more : List (String × Text)) :
    fileOf (fields ++ more) = fileOf fields ++ fileOf more := List.flatMap_append

/-- The key holds no separator, and neither part a line end. -/
structure PlainField (field : String × Text) : Prop where
  bare : '=' ∉ field.1.toList
  oneLine : '\n' ∉ field.1.toList
  plain : '\n' ∉ field.2

section Reading
variable {ε σ : Type} (put : σ → Text → Text → Except ε σ)

/-- The body of a reader's loop: a line with a separator is handed on as key and value. -/
def readLine (s : σ) (line : Text) : Except ε σ :=
  match splitAt '=' line with
  | none => .ok s
  | some (key, value) => put s key value

/-- The reader's loop. -/
def readLines (text : Text) (s : σ) : Except ε σ := (getLines text).foldlM (readLine put) s

/-- What the loop does with `fields`, were they handed to it as such. -/
def putFields (fields : List (String × Text)) (s : σ) : Except ε σ :=
  fields.foldlM (fun s field => put s field.1.toList field.2) s

variable {put}

variable {fields : List (String × Text)}

theorem readLine_field {key : Text} (bare : '=' ∉ key) (value : Text) (s : σ) :
    readLine put s (key ++ '=' :: value) = put s key value := by
  rw [readLine, splitAt_append bare]

theorem readLine_keyless {line : Text} (bare : '=' ∉ line) (s : σ) : readLine put s line = .ok s := by
  rw [readLine, splitAt_eq_none bare]

/-- A reader meets a printed line as its key and value, and goes on with the rest. -/
theorem readLines_line {field : String × Text} (plain : PlainField field) (rest : Text) (s : σ) :
    readLines put (keyValueLine field.1 field.2 ++ rest) s =
      put s field.1.toList field.2 >>= readLines put rest := by
  have whole : '\n' ∉ field.1.toList ++ '=' :: field.2 := by simp [plain.oneLine, plain.plain]
  have lines : getLines (keyValueLine field.1 field.2 ++ rest) =
      (field.1.toList ++ '=' :: field.2) :: getLines rest := by
    rw [keyValueLine, List.append_assoc (field.1.toList ++ '=' :: field.2), List.singleton_append,
      getLines_append whole]
  rw [readLines, lines, List.foldlM_cons, readLine_field plain.bare]
  rfl

/-- Whole lines are read one field after the other. -/
theorem readLines_fileOf (plain : ∀ field ∈ fields, PlainField field) (rest : Text) (s : σ) :
    readLines put (fileOf fields ++ rest) s = putFields put fields s >>= readLines put rest := by
  induction fields generalizing s with
  | nil => rfl
  | cons field fields ih =>
    obtain ⟨head, tail⟩ := List.forall_mem_cons.mp plain
    rw [fileOf_cons, List.append_assoc, readLines_line head, putFields, List.foldlM_cons, bind_assoc]
    exact congrArg _ (funext fun s => ih tail s)

theorem readLines_whole (plain : ∀ field ∈ fields, PlainField field) (s : σ) :
    readLines put (fileOf fields) s = putFields put fields s := by
  have read : readLines put (fileOf fields ++ []) s = putFields put fields s >>= readLines put [] :=
    readLines_fileOf plain [] s
  rw [List.append_nil] at read
  rw [read]
  exact bind_pure _

/-- A last line without its end is still read. -/
theorem readLines_cut_value (plain : ∀ field ∈ fields, PlainField field) {key : String} {value : Text}
    (line : PlainField (key, value)) (s : σ) :
    readLines put (fileOf fields ++ (key.toList ++ '=' :: value)) s = putFields put (fields ++ [(key, value)]) s := by
  have whole : '\n' ∉ key.toList ++ '=' :: value := by simp [line.oneLine, line.plain]
  have last (s : σ) : readLines put (key.toList ++ '=' :: value) s = putFields put [(key, value)] s := by
    rw [readLines, getLines_last whole (by simp), List.foldlM_cons, readLine_field line.bare]
    rfl
  rw [readLines_fileOf plain, funext last, putFields, putFields, List.foldlM_append]
  rfl

/-- A last line cut before its separator is skipped. -/
theorem readLines_cut_key (plain : ∀ field ∈ fields, PlainField field) {cut : Text} (bare : '=' ∉ cut)
    (oneLine : '\n' ∉ cut) (s : σ) : readLines put (fileOf fields ++ cut) s = putFields put fields s := by
  have skip (s : σ) : readLines put cut s = .ok s := by
    by_cases filled : cut = []
    · rw [filled]
      rfl
    · rw [readLines, getLines_last oneLine filled, List.foldlM_cons, readLine_keyless bare]
      rfl
  rw [readLines_fileOf plain, funext skip]
  exact bind_pure _

end Reading

/-! ### Cutting a file -/

/-- The file is cut inside the line of the field at `k`, before or after its separator. -/
inductive CutAt (fields : List (String × Text)) (k : Nat) (field : String × Text) : Text → Prop where
  | key {cut : Text} : cut <+: field.1.toList → CutAt fields k field (fileOf (fields.take k) ++ cut)
  | value {cut : Text} : cut <+: field.2 →
      CutAt fields k field (fileOf (fields.take k) ++ (field.1.toList ++ '=' :: cut))

theorem prefix_append_split {α : Type} {text front back : List α} (cut : text <+: front ++ back) :
    text <+: front ∨ ∃ rest, text = front ++ rest ∧ rest <+: back := by
  rcases List.prefix_or_prefix_of_prefix cut (List.prefix_append front back) with within | ⟨rest, rfl⟩
  · exact .inl within
  · exact .inr ⟨rest, rfl, (List.prefix_append_right_inj front).mp cut⟩

/-- A line cut short is cut in its key or in its value. -/
theorem prefix_keyValueLine {key : String} {value text : Text} (front : text <+: keyValueLine key value) :
    text = keyValueLine key value ∨ text <+: key.toList ∨ ∃ cut, cut <+: value ∧ text = key.toList ++ '=' :: cut := by
  rw [keyValueLine, List.prefix_concat_iff] at front
  rcases front with whole | short
  · exact .inl whole
  · rcases prefix_append_split short with within | ⟨rest, rfl, later⟩
    · exact .inr (.inl within)
    · rcases List.prefix_cons_iff.mp later with rfl | ⟨cut, rfl, inValue⟩
      · exact .inr (.inl (by simp))
      · exact .inr (.inr ⟨cut, inValue, rfl⟩)

variable {fields : List (String × Text)}

theorem CutAt.cons {k : Nat} {field : String × Text} {text : Text} (cut : CutAt fields k field text) (first : String × Text) :
    CutAt (first :: fields) (k + 1) field (keyValueLine first.1 first.2 ++ text) := by
  have before : fileOf ((first :: fields).take (k + 1)) = keyValueLine first.1 first.2 ++ fileOf (fields.take k) := by
    rw [List.take_succ_cons, fileOf_cons]
  cases cut with
  | key short =>
    rw [← List.append_assoc, ← before]
    exact .key short
  | value short =>
    rw [← List.append_assoc, ← before]
    exact .value short

/-- A file cut short is cut inside one line. -/
theorem cutAt_of_prefix {text : Text} (front : text <+: fileOf fields) :
    text = fileOf fields ∨ ∃ k field, fields[k]? = some field ∧ CutAt fields k field text := by
  induction fields generalizing text with
  | nil => exact .inl (List.prefix_nil.mp front)
  | cons first fields ih =>
    have later {rest : Text} (front : rest <+: fileOf fields) :
        keyValueLine first.1 first.2 ++ rest = fileOf (first :: fields) ∨
          ∃ k field, (first :: fields)[k]? = some field ∧
            CutAt (first :: fields) k field (keyValueLine first.1 first.2 ++ rest) := by
      rcases ih front with rfl | ⟨k, field, here, cut⟩
      · exact .inl rfl
      · exact .inr ⟨k + 1, field, here, cut.cons first⟩
    rw [fileOf_cons] at front
    rcases prefix_append_split front with within | ⟨rest, rfl, beyond⟩
    · rcases prefix_keyValueLine within with rfl | inKey | ⟨cut, inValue, rfl⟩
      · have whole := later (List.nil_prefix (l := fileOf fields))
        rwa [List.append_nil] at whole
      · exact .inr ⟨0, first, rfl, .key inKey⟩
      · exact .inr ⟨0, first, rfl, .value inValue⟩
    · exact later beyond

theorem fileOf_take_succ {k : Nat} {field : String × Text} (here : fields[k]? = some field) :
    fileOf (fields.take (k + 1)) = fileOf (fields.take k) ++ keyValueLine field.1 field.2 := by
  rw [List.take_add_one, here, fileOf_append, Option.toList_some, fileOf_cons, fileOf_nil, List.append_nil]

theorem fileOf_prefix {fields more : List (String × Text)} (front : fields <+: more) : fileOf fields <+: fileOf more := by
  obtain ⟨rest, rfl⟩ := front
  rw [fileOf_append]
  exact List.prefix_append _ _

theorem fileOf_take_front (fields : List (String × Text)) {j k : Nat} (le : j ≤ k) :
    fileOf (fields.take j) <+: fileOf (fields.take k) := by
  have front := List.take_prefix j (fields.take k)
  rw [List.take_take, Nat.min_eq_left le] at front
  exact fileOf_prefix front

/-- A file does not end in a separator unless its last line was cut there. -/
theorem getLast?_fileOf_ne (fields : List (String × Text)) : (fileOf fields).getLast? ≠ some '=' := by
  rcases List.eq_nil_or_concat' fields with rfl | ⟨front, last, rfl⟩
  · simp
  · rw [fileOf_append, fileOf_cons, fileOf_nil, List.append_nil, keyValueLine, ← List.append_assoc,
      List.getLast?_concat]
    decide

theorem getLast?_append_ne {text cut : Text} (before : text.getLast? ≠ some '=') (bare : '=' ∉ cut) :
    (text ++ cut).getLast? ≠ some '=' := by
  intro last
  rw [List.getLast?_append] at last
  rcases Option.or_eq_some_iff.mp last with within | ⟨-, earlier⟩
  · exact bare (List.mem_of_getLast? within)
  · exact before earlier

end LeoMem.Lib
