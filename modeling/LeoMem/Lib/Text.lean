import Mathlib.Algebra.Group.Int.Defs
import Mathlib.Algebra.Group.Nat.Defs
import Mathlib.Data.Char
import Mathlib.Data.List.Lex
import Mathlib.Data.List.Sort
import Mathlib.Data.List.TakeWhile

/-!
# Text of numbers and lines

A text is its list of characters. Numbers are printed in decimal and read back the
way `std::stoi`, `std::stoul` and `std::stoull` do: leading blanks and a sign are
skipped, the longest run of digits counts, the rest is ignored, and a text without
digits or a value outside the type is an error. A file is read line by line as
`std::getline` does, and a line is cut at a separator.
-/

namespace LeoMem.Lib

abbrev Text := List Char

/-- What `operator<<` prints for an unsigned value. -/
def decimal (n : Nat) : Text := Nat.toDigits 10 n

/-- What `operator<<` prints for a signed value. -/
def decimalInt : Int → Text
  | .ofNat n => decimal n
  | .negSucc n => '-' :: decimal (n + 1)

variable {c sep : Char}

theorem isDigit_of_mem_decimal {n : Nat} (member : c ∈ decimal n) : c.isDigit = true :=
  Nat.isDigit_of_mem_toDigits (by decide) (by decide) member

theorem decimal_ne_nil (n : Nat) : decimal n ≠ [] := Nat.toDigits_ne_nil

theorem decimal_injective : Function.Injective decimal := fun m n same => by
  rw [← Nat.ofDigitChars_ten_toDigits (n := m), ← Nat.ofDigitChars_ten_toDigits (n := n)]
  exact congrArg (Nat.ofDigitChars 10 · 0) same

/-- A character that is no digit is in no printed number. -/
theorem not_mem_decimal {n : Nat} (other : c.isDigit = false) : c ∉ decimal n := fun member => by
  rw [isDigit_of_mem_decimal member] at other
  cases other

theorem not_mem_decimalInt {i : Int} (other : c.isDigit = false) (unsigned : c ≠ '-') : c ∉ decimalInt i := by
  cases i with
  | ofNat n => exact not_mem_decimal other
  | negSucc n => exact List.not_mem_cons_of_ne_of_not_mem unsigned (not_mem_decimal other)

/-- A number cut short is a smaller number. -/
theorem decimal_prefix {n : Nat} {cut : Text} (front : cut <+: decimal n) (filled : cut ≠ []) :
    ∃ k ≤ n, cut = decimal k := by
  induction n using Nat.strongRecOn with
  | ind n ih =>
    by_cases single : n < 10
    · have one : decimal n = [] ++ [n.digitChar] := Nat.toDigits_of_lt_base single
      rw [one, List.prefix_concat_iff, ← one] at front
      rcases front with whole | none
      · exact ⟨n, le_refl n, whole⟩
      · exact absurd (List.prefix_nil.mp none) filled
    · have last : decimal n = decimal (n / 10) ++ [(n % 10).digitChar] :=
        Nat.toDigits_of_base_le (by decide) (Nat.le_of_not_lt single)
      rw [last, List.prefix_concat_iff, ← last] at front
      rcases front with whole | shorter
      · exact ⟨n, le_refl n, whole⟩
      · obtain ⟨k, le, eq⟩ := ih (n / 10) (by omega) shorter
        exact ⟨k, by omega, eq⟩

/-! ### Reading numbers -/

/-- `isspace` in the default locale. -/
def isSpace (c : Char) : Bool := c ∈ [' ', '\t', '\n', '\x0b', '\x0c', '\r']

/-- Sign and magnitude at the head of a text, if a number is there. -/
def scanNumber (text : Text) : Option (Bool × Nat) :=
  let magnitude (negative : Bool) (rest : Text) :=
    let digits := rest.takeWhile Char.isDigit
    if digits.isEmpty then none else some (negative, Nat.ofDigitChars 10 digits 0)
  match text.dropWhile isSpace with
  | '-' :: rest => magnitude true rest
  | '+' :: rest => magnitude false rest
  | rest => magnitude false rest

/-- The exceptions of `std::stoi` and its siblings. -/
inductive NumberError where
  | invalidArgument
  | outOfRange
  deriving DecidableEq, Repr

/-- `std::stoull`, and `std::stoul` where `unsigned long` has 64 bits: a minus sign
negates the word. -/
def stoull (text : Text) : Except NumberError UInt64 :=
  match scanNumber text with
  | none => .error .invalidArgument
  | some (negative, n) =>
    if n < 2 ^ 64 then .ok (if negative then -UInt64.ofNat n else UInt64.ofNat n) else .error .outOfRange

/-- `std::stoi` with a 32-bit `int`. -/
def stoi (text : Text) : Except NumberError Int :=
  match scanNumber text with
  | none => .error .invalidArgument
  | some (negative, n) =>
    let value : Int := if negative then -n else n
    if -2 ^ 31 ≤ value ∧ value < 2 ^ 31 then .ok value else .error .outOfRange

theorem takeWhile_decimal (n : Nat) : (decimal n).takeWhile Char.isDigit = decimal n :=
  List.takeWhile_eq_self_iff.mpr fun _ member => isDigit_of_mem_decimal member

theorem not_isSpace_of_isDigit (digit : c.isDigit = true) : isSpace c = false := by
  by_contra space
  simp only [isSpace, Bool.not_eq_false, List.mem_cons, decide_eq_true_eq] at space
  rcases space with rfl | rfl | rfl | rfl | rfl | rfl | none
  all_goals first | exact absurd digit (by decide) | simp at none

/-- A printed number starts with a digit. -/
theorem decimal_cons (n : Nat) : ∃ c rest, decimal n = c :: rest ∧ c.isDigit = true := by
  obtain ⟨c, rest, eq⟩ := List.exists_cons_of_ne_nil (decimal_ne_nil n)
  exact ⟨c, rest, eq, isDigit_of_mem_decimal (eq ▸ List.mem_cons_self)⟩

theorem scanNumber_decimal (n : Nat) : scanNumber (decimal n) = some (false, n) := by
  obtain ⟨c, rest, eq, digit⟩ := decimal_cons n
  have keep : (decimal n).dropWhile isSpace = decimal n := by
    rw [eq, List.dropWhile_cons_of_neg (by simp [not_isSpace_of_isDigit digit])]
  have minus : c ≠ '-' := by rintro rfl; cases digit
  have plus : c ≠ '+' := by rintro rfl; cases digit
  have value : Nat.ofDigitChars 10 (decimal n) 0 = n := Nat.ofDigitChars_ten_toDigits
  rw [scanNumber, keep]
  split
  case h_1 text => exact absurd (List.cons.inj (eq.symm.trans text)).1 minus
  case h_2 text => exact absurd (List.cons.inj (eq.symm.trans text)).1 plus
  case h_3 => simp [takeWhile_decimal, value, decimal_ne_nil]

theorem scanNumber_decimalInt (i : Int) : scanNumber (decimalInt i) = some (decide (i < 0), i.natAbs) := by
  cases i with
  | ofNat n => rw [decimalInt, scanNumber_decimal]; simp
  | negSucc n =>
    have value : Nat.ofDigitChars 10 (decimal (n + 1)) 0 = n + 1 := Nat.ofDigitChars_ten_toDigits
    have keep : ('-' :: decimal (n + 1)).dropWhile isSpace = '-' :: decimal (n + 1) :=
      List.dropWhile_cons_of_neg (by decide)
    simp [scanNumber, decimalInt, keep, takeWhile_decimal, value, decimal_ne_nil, Int.negSucc_lt_zero]

theorem stoull_decimal (n : UInt64) : stoull (decimal n.toNat) = .ok n := by
  simp [stoull, scanNumber_decimal, n.toNat_lt]

theorem stoi_decimalInt {i : Int} (low : -2 ^ 31 ≤ i) (high : i < 2 ^ 31) : stoi (decimalInt i) = .ok i := by
  have value : (if decide (i < 0) = true then -(i.natAbs : Int) else i.natAbs) = i := by
    split
    · rename_i negative
      have below : i < 0 := of_decide_eq_true negative
      omega
    · rename_i positive
      have above : ¬ i < 0 := fun below => positive (decide_eq_true below)
      omega
  simp only [stoi, scanNumber_decimalInt, value]
  exact if_pos ⟨low, high⟩

/-! ### Lines and separators -/

/-- The pieces `std::getline` hands out with the delimiter `sep`. -/
def getDelimited (sep : Char) : Text → List Text
  | [] => []
  | c :: rest =>
    if c = sep then [] :: getDelimited sep rest
    else
      match getDelimited sep rest with
      | [] => [[c]]
      | piece :: pieces => (c :: piece) :: pieces

theorem getDelimited_append {piece : Text} (whole : sep ∉ piece) (rest : Text) :
    getDelimited sep (piece ++ sep :: rest) = piece :: getDelimited sep rest := by
  induction piece with
  | nil => simp [getDelimited]
  | cons c piece ih =>
    obtain ⟨head, tail⟩ := not_or.mp (mt List.mem_cons.mpr whole)
    simp [getDelimited, ih tail, Ne.symm head]

/-- The last piece needs no delimiter, but an empty one is not handed out. -/
theorem getDelimited_last {piece : Text} (whole : sep ∉ piece) (filled : piece ≠ []) : getDelimited sep piece = [piece] := by
  induction piece with
  | nil => exact absurd rfl filled
  | cons c piece ih =>
    obtain ⟨head, tail⟩ := not_or.mp (mt List.mem_cons.mpr whole)
    cases piece with
    | nil => simp [getDelimited, Ne.symm head]
    | cons d piece => rw [getDelimited, if_neg (Ne.symm head), ih tail (by simp)]

/-- The lines `std::getline` hands out until it fails. -/
def getLines (text : Text) : List Text := getDelimited '\n' text

theorem getLines_append {line : Text} (whole : '\n' ∉ line) (rest : Text) :
    getLines (line ++ '\n' :: rest) = line :: getLines rest := getDelimited_append whole rest

theorem getLines_last {line : Text} (whole : '\n' ∉ line) (filled : line ≠ []) : getLines line = [line] :=
  getDelimited_last whole filled

/-- The text before and after the first `sep`, if there is one: `find` and `substr`. -/
def splitAt (sep : Char) : Text → Option (Text × Text)
  | [] => none
  | c :: rest => if c = sep then some ([], rest) else (splitAt sep rest).map fun p => (c :: p.1, p.2)

theorem splitAt_append {key : Text} (bare : sep ∉ key) (value : Text) :
    splitAt sep (key ++ sep :: value) = some (key, value) := by
  induction key with
  | nil => simp [splitAt]
  | cons c key ih =>
    obtain ⟨head, tail⟩ := not_or.mp (mt List.mem_cons.mpr bare)
    simp [splitAt, ih tail, Ne.symm head]

theorem splitAt_eq_none {text : Text} (bare : sep ∉ text) : splitAt sep text = none := by
  induction text with
  | nil => rfl
  | cons c text ih =>
    obtain ⟨head, tail⟩ := not_or.mp (mt List.mem_cons.mpr bare)
    simp [splitAt, ih tail, Ne.symm head]

/-! ### Texts in order -/

/-- The value of a digit. -/
def digitValue (c : Char) : Nat := c.toNat - '0'.toNat

theorem ofDigitChars_cons (c : Char) (l : Text) :
    Nat.ofDigitChars 10 (c :: l) 0 = 10 ^ l.length * digitValue c + Nat.ofDigitChars 10 l 0 := by
  rw [Nat.ofDigitChars_cons, Nat.ofDigitChars_eq_ofDigitChars_zero, digitValue]
  simp

theorem digitValue_le (digit : c.isDigit = true) : digitValue c ≤ 9 := by
  have ⟨_, high⟩ := Char.isDigit_iff_toNat.mp digit
  have nine : '9'.toNat = '0'.toNat + 9 := by decide
  rw [digitValue]
  omega

theorem lt_of_digitValue_lt {c d : Char} (lt : digitValue c < digitValue d) : c < d := by
  have values : c.toNat < d.toNat := by
    simp only [digitValue] at lt
    omega
  exact Char.lt_def.mpr (UInt32.lt_iff_toNat_lt.mpr values)

theorem eq_of_digitValue_eq {c d : Char} (left : c.isDigit = true) (right : d.isDigit = true)
    (eq : digitValue c = digitValue d) : c = d := by
  have ⟨lowLeft, _⟩ := Char.isDigit_iff_toNat.mp left
  have ⟨lowRight, _⟩ := Char.isDigit_iff_toNat.mp right
  have values : c.toNat = d.toNat := by
    simp only [digitValue] at eq
    omega
  exact Char.toNat_inj.mp values

theorem ofDigitChars_lt {l : Text} (digits : ∀ c ∈ l, c.isDigit = true) : Nat.ofDigitChars 10 l 0 < 10 ^ l.length := by
  induction l with
  | nil => simp [Nat.ofDigitChars_nil]
  | cons c l ih =>
    obtain ⟨head, tail⟩ := List.forall_mem_cons.mp digits
    have scaled : 10 ^ l.length * digitValue c ≤ 10 ^ l.length * 9 := Nat.mul_le_mul_left _ (digitValue_le head)
    have rest := ih tail
    rw [ofDigitChars_cons, List.length_cons, Nat.pow_succ]
    omega

theorem lt_of_ofDigitChars_lt {l m : Text} (left : ∀ c ∈ l, c.isDigit = true) (right : ∀ c ∈ m, c.isDigit = true)
    (length : l.length = m.length) (lt : Nat.ofDigitChars 10 l 0 < Nat.ofDigitChars 10 m 0) (rest : Text) :
    l ++ rest < m ++ rest := by
  induction l generalizing m with
  | nil =>
    obtain rfl := List.length_eq_zero_iff.mp length.symm
    exact absurd lt (lt_irrefl _)
  | cons c l ih =>
    obtain ⟨d, m, rfl⟩ := List.exists_cons_of_length_eq_add_one length.symm
    obtain ⟨digit, leftTail⟩ := List.forall_mem_cons.mp left
    obtain ⟨digit', rightTail⟩ := List.forall_mem_cons.mp right
    have same : l.length = m.length := by simpa using length
    rw [ofDigitChars_cons, ofDigitChars_cons, same] at lt
    have bound := ofDigitChars_lt rightTail
    rw [List.cons_append, List.cons_append, List.cons_lt_cons_iff]
    -- the first digits decide unless they agree
    rcases Nat.lt_trichotomy (digitValue c) (digitValue d) with less | equal | greater
    · exact .inl (lt_of_digitValue_lt less)
    · rw [equal] at lt
      exact .inr ⟨eq_of_digitValue_eq digit digit' equal, ih leftTail rightTail same (by omega)⟩
    · have scaled : 10 ^ m.length * (digitValue d + 1) ≤ 10 ^ m.length * digitValue c :=
        Nat.mul_le_mul_left _ greater
      rw [Nat.mul_succ] at scaled
      omega

/-- Among numbers printed with equally many digits, the order of the texts is the order of
the numbers. -/
theorem decimal_lt_of_length {m n : Nat} (length : (decimal m).length = (decimal n).length) (lt : m < n)
    (rest : Text) : decimal m ++ rest < decimal n ++ rest := by
  refine lt_of_ofDigitChars_lt (fun _ => isDigit_of_mem_decimal) (fun _ => isDigit_of_mem_decimal) length ?_ rest
  simpa only [decimal, Nat.ofDigitChars_ten_toDigits] using lt

/-- What a list selects from its front comes before what it leaves. -/
theorem filter_append_filter_not {α : Type} {p : α → Bool} {l : List α}
    (lower : l.Pairwise fun a b => p b = true → p a = true) : l.filter p ++ l.filter (fun a => !p a) = l := by
  induction l with
  | nil => rfl
  | cons a l ih =>
    obtain ⟨head, tail⟩ := List.pairwise_cons.mp lower
    by_cases here : p a = true
    · simp [here, ih tail]
    · have none : l.filter p = [] := List.filter_eq_nil_iff.mpr fun b member taken => here (head b member taken)
      have all : l.filter (fun a => !p a) = l :=
        List.filter_eq_self.mpr fun b member => by simpa using fun taken => here (head b member taken)
      simp [here, none, all]

/-- The first elements of a sorted list are closed downwards. -/
theorem mem_take_of_lt {α : Type} [LinearOrder α] {l : List α} (sorted : l.Pairwise (· < ·)) {k : Nat} {a b : α}
    (member : a ∈ l) (taken : b ∈ l.take k) (lt : a < b) : a ∈ l.take k := by
  rw [← List.take_append_drop k l] at member sorted
  rcases List.mem_append.mp member with front | back
  · exact front
  · exact absurd ((List.pairwise_append.mp sorted).2.2 b taken a back) (not_lt.mpr lt.le)

end LeoMem.Lib
