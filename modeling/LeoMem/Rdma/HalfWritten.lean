import LeoMem.Rdma.Codec
import Mathlib.Tactic.IntervalCases

/-!
# A control file read while it is written

`WriteControlMessageFile` writes the file of a message in place, so
`DrainControlMessages` may read any prefix of it. The parser takes what it finds: a
number cut short counts as the shorter number, and a field it does not reach keeps its
default. Only a file without a target, or one that stops right after a `=`, is turned
down.
-/

namespace LeoMem
open Lib

/-- What the reader holds after the first `k` lines: the other fields have their
defaults. -/
def ControlMessage.readUpTo (message : ControlMessage) (k : Nat) : ControlMessage :=
  let blank : ControlMessage := {}
  { opcode := if 0 < k then message.opcode else blank.opcode
    sourceNode := if 1 < k then message.sourceNode else blank.sourceNode
    targetNode := if 2 < k then message.targetNode else blank.targetNode
    requestId := if 3 < k then message.requestId else blank.requestId
    firstBlock :=
      { regionId := if 4 < k then message.firstBlock.regionId else blank.firstBlock.regionId
        blockIndex := if 5 < k then message.firstBlock.blockIndex else blank.firstBlock.blockIndex }
    lastBlock :=
      { regionId := if 6 < k then message.lastBlock.regionId else blank.lastBlock.regionId
        blockIndex := if 7 < k then message.lastBlock.blockIndex else blank.lastBlock.blockIndex }
    version := if 8 < k then message.version else blank.version
    mode := if 9 < k then message.mode else blank.mode }

theorem length_messageFields (message : ControlMessage) : (messageFields message).length = 10 := rfl

variable {cut : Text} {field : String × Text} {k : Nat} {message : ControlMessage}

theorem messageFields_readUpTo (message : ControlMessage) (bound : k ≤ 10) :
    messageFields (message.readUpTo k) = (messageFields message).take k ++ (messageFields {}).drop k := by
  interval_cases k <;> rfl

/-- The first `k` lines are read into their own places. -/
theorem putFields_take (message : ControlMessage) (bound : k ≤ 10) :
    putFields parseField ((messageFields message).take k) {} = .ok (message.readUpTo k) := by
  interval_cases k
  all_goals
    simp only [putFields, messageFields, List.take_succ_cons, List.take_zero, List.foldlM_cons, List.foldlM_nil,
      parseField_message, bind, Except.bind]
    rfl

theorem messageFields_injective : Function.Injective messageFields := fun first second same => by
  have read := parseFields_message first {}
  rw [same, parseFields_message] at read
  exact (Except.ok.inj read).symm

/-- A message is complete after `k` lines when the others hold its defaults. -/
theorem readUpTo_eq_iff {message other : ControlMessage} (bound : k ≤ 10) :
    message.readUpTo k = other ↔
      (messageFields message).take k = (messageFields other).take k ∧
        (messageFields other).drop k = (messageFields {}).drop k := by
  have long (m : ControlMessage) : ((messageFields m).take k).length = k := by
    rw [List.length_take, length_messageFields]
    omega
  rw [← messageFields_injective.eq_iff, messageFields_readUpTo message bound]
  constructor
  · intro same
    rw [← List.take_append_drop k (messageFields other)] at same
    obtain ⟨front, back⟩ := List.append_inj same (by rw [long, long])
    exact ⟨front, back.symm⟩
  · rintro ⟨front, back⟩
    rw [front, ← back, List.take_append_drop]

/-- Without its target a message is not taken. -/
theorem readUpTo_addressed (addressed : message.Addressed) (k : Nat) : (message.readUpTo k).Addressed ↔ 2 < k := by
  constructor
  · intro whole
    by_contra early
    have target : (message.readUpTo k).targetNode = kInvalidNodeId := if_neg early
    exact whole.2 target
  · intro late
    have source : (message.readUpTo k).sourceNode = message.sourceNode := if_pos (by omega)
    have target : (message.readUpTo k).targetNode = message.targetNode := if_pos late
    exact ⟨source ▸ addressed.1, target ▸ addressed.2⟩

/-! ### A number cut short -/

theorem cut_word {n : UInt64} (short : cut <+: decimal n.toNat) (filled : cut ≠ []) :
    ∃ k : UInt64, cut = decimal k.toNat := by
  obtain ⟨k, le, eq⟩ := decimal_prefix short filled
  refine ⟨UInt64.ofNat k, ?_⟩
  rw [UInt64.toNat_ofNat_of_lt' (lt_of_le_of_lt le n.toNat_lt), eq]

theorem cut_id {n : UInt16} (short : cut <+: decimal n.toNat) (filled : cut ≠ []) : ∃ k ≤ n, cut = decimal k.toNat := by
  obtain ⟨k, le, eq⟩ := decimal_prefix short filled
  have value : (UInt16.ofNat k).toNat = k := UInt16.toNat_ofNat_of_lt' (lt_of_le_of_lt le n.toNat_lt)
  refine ⟨UInt16.ofNat k, ?_, ?_⟩
  · rw [UInt16.le_iff_toNat_le, value]
    exact le
  · rw [value, eq]

/-- A node id cut short is still one. -/
theorem valid_of_le {n k : NodeId} (valid : n ≠ kInvalidNodeId) (le : k ≤ n) : k ≠ kInvalidNodeId := by
  rintro rfl
  have top : n ≤ kInvalidNodeId := by
    rw [UInt16.le_iff_toNat_le]
    have := n.toNat_lt
    have value : kInvalidNodeId.toNat = 65535 := rfl
    omega
  exact valid (UInt16.le_antisymm top le)

/-- An enumerator has one digit: it is there or it is not. -/
theorem cut_digit {c : Char} (short : cut <+: [c]) (filled : cut ≠ []) : cut = [c] := by
  rcases List.prefix_concat_iff.mp (show cut <+: [] ++ [c] from short) with whole | none
  · exact whole
  · exact absurd (List.prefix_nil.mp none) filled

theorem decimalInt_opcode (opcode : ControlOpcode) : ∃ c, decimalInt opcode.toInt = [c] := by
  cases opcode <;> exact ⟨_, rfl⟩

theorem decimalInt_mode (mode : CoherenceMode) : ∃ c, decimalInt mode.toInt = [c] := by
  cases mode <;> exact ⟨_, rfl⟩

/-- A cut value is the value of another message between nodes that agrees with this
one on the lines before. -/
theorem exists_cut_message (addressed : message.Addressed) (here : (messageFields message)[k]? = some field)
    (short : cut <+: field.2) (filled : cut ≠ []) :
    ∃ other : ControlMessage, other.Addressed ∧
      (messageFields other).take (k + 1) = (messageFields message).take k ++ [(field.1, cut)] := by
  have bound : k < 10 := (List.getElem?_eq_some_iff.mp here).1
  interval_cases k
  all_goals obtain rfl := Option.some.inj here
  · obtain ⟨c, digit⟩ := decimalInt_opcode message.opcode
    obtain rfl := cut_digit (digit ▸ short) filled
    exact ⟨message, addressed, by rw [← digit]; rfl⟩
  · obtain ⟨n, le, rfl⟩ := cut_id short filled
    exact ⟨{ message with sourceNode := n }, ⟨valid_of_le addressed.1 le, addressed.2⟩, rfl⟩
  · obtain ⟨n, le, rfl⟩ := cut_id short filled
    exact ⟨{ message with targetNode := n }, ⟨addressed.1, valid_of_le addressed.2 le⟩, rfl⟩
  · obtain ⟨n, rfl⟩ := cut_word short filled
    exact ⟨{ message with requestId := n }, addressed, rfl⟩
  · obtain ⟨n, -, rfl⟩ := cut_id short filled
    exact ⟨{ message with firstBlock := { message.firstBlock with regionId := n } }, addressed, rfl⟩
  · obtain ⟨n, rfl⟩ := cut_word short filled
    exact ⟨{ message with firstBlock := { message.firstBlock with blockIndex := n } }, addressed, rfl⟩
  · obtain ⟨n, -, rfl⟩ := cut_id short filled
    exact ⟨{ message with lastBlock := { message.lastBlock with regionId := n } }, addressed, rfl⟩
  · obtain ⟨n, rfl⟩ := cut_word short filled
    exact ⟨{ message with lastBlock := { message.lastBlock with blockIndex := n } }, addressed, rfl⟩
  · obtain ⟨n, rfl⟩ := cut_word short filled
    exact ⟨{ message with version := n }, addressed, rfl⟩
  · obtain ⟨c, digit⟩ := decimalInt_mode message.mode
    obtain rfl := cut_digit (digit ▸ short) filled
    exact ⟨message, addressed, by rw [← digit]; rfl⟩

/-- A key without a value throws. -/
theorem parseField_empty (here : (messageFields message)[k]? = some field) (msg : ControlMessage) :
    parseField msg field.1.toList [] = .error (.number .invalidArgument) := by
  have bound : k < 10 := (List.getElem?_eq_some_iff.mp here).1
  have word : parseWord [] = .error (.number .invalidArgument) := rfl
  have id : parseId [] = .error (.number .invalidArgument) := rfl
  have enumerator {ε : Type} (ofInt? : Int → Option ε) :
      parseEnum ofInt? [] = .error (.number .invalidArgument) := rfl
  interval_cases k
  all_goals
    obtain rfl := Option.some.inj here
    simp only [parseField, word, id, enumerator]
    rfl

/-! ### What the reader takes -/

theorem parse_some_iff {text : Text} {read : ControlMessage} (lines : readLines parseField text {} = .ok read)
    (message : ControlMessage) :
    parseControlMessage text = .ok (some message) ↔ read.Addressed ∧ read = message := by
  rw [parseControlMessage, lines]
  by_cases addressed : read.sourceNode = kInvalidNodeId ∨ read.targetNode = kInvalidNodeId
  · have lost : ¬ read.Addressed := fun whole => addressed.elim whole.1 whole.2
    simp [bind, Except.bind, addressed, pure, Except.pure, lost]
  · have whole : read.Addressed := not_or.mp addressed
    simp [bind, Except.bind, addressed, pure, Except.pure, whole]

/-- The reader takes no message other than `message` from `text`. -/
def NeverMistaken (message : ControlMessage) (text : Text) : Prop :=
  ∀ read, parseControlMessage text = .ok (some read) → read = message

theorem neverMistaken_iff {message other : ControlMessage} (addressed : other.Addressed) {text : Text} (bound : k ≤ 10)
    (lines : readLines parseField text {} = .ok (other.readUpTo k)) :
    NeverMistaken message text ↔
      (2 < k → (messageFields other).take k = (messageFields message).take k ∧
        (messageFields message).drop k = (messageFields {}).drop k) := by
  rw [← readUpTo_eq_iff bound, ← readUpTo_addressed addressed k]
  constructor
  · intro safe whole
    exact safe _ ((parse_some_iff lines _).mpr ⟨whole, rfl⟩)
  · intro same read parsed
    obtain ⟨whole, rfl⟩ := (parse_some_iff lines read).mp parsed
    exact same whole

theorem take_plain (message : ControlMessage) (k : Nat) :
    ∀ field ∈ (messageFields message).take k, PlainField field :=
  fun field member => messageFields_plain message field (List.mem_of_mem_take member)

/-- Cut before a `=`, the file says what its whole lines say. -/
theorem neverMistaken_key (addressed : message.Addressed) (here : (messageFields message)[k]? = some field)
    (short : cut <+: field.1.toList) :
    NeverMistaken message (fileOf ((messageFields message).take k) ++ cut) ↔
      (2 < k → (messageFields message).drop k = (messageFields {}).drop k) := by
  have plain := messageFields_plain message field (List.mem_of_getElem? here)
  have bound : k < 10 := (List.getElem?_eq_some_iff.mp here).1
  have lines : readLines parseField (fileOf ((messageFields message).take k) ++ cut) {} = .ok (message.readUpTo k) := by
    rw [readLines_cut_key (take_plain message k) (fun member => plain.bare (short.subset member))
      (fun member => plain.oneLine (short.subset member)), putFields_take message bound.le]
  rw [neverMistaken_iff addressed bound.le lines]
  simp

/-- Cut after a digit, it says what the shorter number says. -/
theorem neverMistaken_value (addressed : message.Addressed) (here : (messageFields message)[k]? = some field)
    (short : cut <+: field.2) (filled : cut ≠ []) :
    NeverMistaken message (fileOf ((messageFields message).take k) ++ (field.1.toList ++ '=' :: cut)) ↔
      (1 < k → cut = field.2 ∧ (messageFields message).drop (k + 1) = (messageFields {}).drop (k + 1)) := by
  have plain := messageFields_plain message field (List.mem_of_getElem? here)
  have bound : k < 10 := (List.getElem?_eq_some_iff.mp here).1
  obtain ⟨other, known, front⟩ := exists_cut_message addressed here short filled
  have last : PlainField (field.1, cut) :=
    ⟨plain.bare, plain.oneLine, fun member => plain.plain (short.subset member)⟩
  have lines : readLines parseField (fileOf ((messageFields message).take k) ++ (field.1.toList ++ '=' :: cut)) {} =
      .ok (other.readUpTo (k + 1)) := by
    rw [readLines_cut_value (take_plain message k) last, ← front, putFields_take other bound]
  have whole : (messageFields message).take (k + 1) = (messageFields message).take k ++ [field] := by
    rw [List.take_add_one, here]
    rfl
  rw [neverMistaken_iff known bound lines, front, whole, Nat.succ_lt_succ_iff]
  simp [Prod.ext_iff]

/-- Cut right after a `=`, it is turned down. -/
theorem neverMistaken_empty (here : (messageFields message)[k]? = some field) :
    NeverMistaken message (fileOf ((messageFields message).take k) ++ (field.1.toList ++ ['='])) := by
  have plain := messageFields_plain message field (List.mem_of_getElem? here)
  have bound : k < 10 := (List.getElem?_eq_some_iff.mp here).1
  have last : PlainField (field.1, []) := ⟨plain.bare, plain.oneLine, List.not_mem_nil⟩
  have lines : readLines parseField (fileOf ((messageFields message).take k) ++ (field.1.toList ++ ['='])) {} =
      .error (.number .invalidArgument) := by
    rw [readLines_cut_value (take_plain message k) last, putFields, List.foldlM_append]
    have front := putFields_take message bound.le
    rw [putFields] at front
    rw [front]
    show (parseField (message.readUpTo k) field.1.toList [] >>= pure) = _
    rw [parseField_empty here]
    rfl
  intro read parsed
  rw [parseControlMessage, lines] at parsed
  cases parsed

/-! ### Where a cut does no harm -/

/-- The file up to where the target gets its first digit. -/
def targetStart (message : ControlMessage) : Text :=
  fileOf ((messageFields message).take 2) ++ "target_node=".toList

/-- `text` ends before the target's first digit, or right after a `=`, or holds the
values of the first `k` fields in full and the others are at their defaults. -/
def CutSafely (message : ControlMessage) (text : Text) : Prop :=
  text <+: targetStart message ∨ text.getLast? = some '=' ∨
    ∃ k ≤ 10, (messageFields message).drop k = (messageFields {}).drop k ∧
      (fileOf ((messageFields message).take k)).dropLast <+: text

section Lengths
variable {message : ControlMessage} {k : Nat} {field : String × Text}

theorem target_here (message : ControlMessage) :
    (messageFields message)[2]? = some ("target_node", decimal message.targetNode.toNat) := rfl

theorem length_fileOf_take_succ (here : (messageFields message)[k]? = some field) :
    (fileOf ((messageFields message).take (k + 1))).length =
      (fileOf ((messageFields message).take k)).length + field.1.toList.length + field.2.length + 2 := by
  rw [fileOf_take_succ here, List.length_append, keyValueLine]
  simp
  omega

theorem length_fileOf_take_le (message : ControlMessage) {j k : Nat} (le : j ≤ k) :
    (fileOf ((messageFields message).take j)).length ≤ (fileOf ((messageFields message).take k)).length :=
  (fileOf_take_front _ le).length_le

theorem length_targetStart (message : ControlMessage) :
    (targetStart message).length = (fileOf ((messageFields message).take 2)).length + 12 := by
  rw [targetStart, List.length_append]
  rfl

/-- The target's first digit comes before the third line ends. -/
theorem length_targetStart_lt (message : ControlMessage) :
    (targetStart message).length + 1 < (fileOf ((messageFields message).take 3)).length := by
  have line := length_fileOf_take_succ (target_here message)
  have digits : 0 < (decimal message.targetNode.toNat).length := List.length_pos_of_ne_nil (decimal_ne_nil _)
  have key : "target_node".toList.length = 11 := rfl
  simp only [key] at line
  show _ < (fileOf ((messageFields message).take (2 + 1))).length
  rw [length_targetStart]
  omega

theorem targetStart_front (message : ControlMessage) : targetStart message <+: fileOf (messageFields message) := by
  have front : fileOf ((messageFields message).take 2) ++ keyValueLine "target_node" (decimal message.targetNode.toNat) <+:
      fileOf (messageFields message) := by
    have line := fileOf_take_succ (target_here message)
    rw [← line]
    exact fileOf_prefix (List.take_prefix _ _)
  refine List.IsPrefix.trans ?_ front
  rw [targetStart, List.prefix_append_right_inj]
  exact ⟨decimal message.targetNode.toNat ++ ['\n'], rfl⟩

theorem CutSafely.drop_of_key (here : (messageFields message)[k]? = some field) (short : cut <+: field.1.toList)
    (safe : CutSafely message (fileOf ((messageFields message).take k) ++ cut)) (late : 2 < k) :
    (messageFields message).drop k = (messageFields {}).drop k := by
  have line := length_fileOf_take_succ here
  have plain := messageFields_plain message field (List.mem_of_getElem? here)
  rcases safe with early | separator | ⟨j, -, rest, reached⟩
  · have short := early.length_le
    have third := length_fileOf_take_le message (show 3 ≤ k from late)
    have start := length_targetStart_lt message
    rw [List.length_append] at short
    omega
  · exact absurd separator (getLast?_append_ne (getLast?_fileOf_ne _) fun member => plain.bare (short.subset member))
  · have short := short.length_le
    have reach := reached.length_le
    rw [List.length_dropLast, List.length_append] at reach
    have before : j ≤ k := by
      by_contra after
      have beyond := length_fileOf_take_le message (show k + 1 ≤ j by omega)
      omega
    rw [← Nat.add_sub_cancel' before, ← List.drop_drop, ← List.drop_drop, rest]

/-- A default has one digit, except for the nodes. -/
theorem default_digit {k : Nat} {field : String × Text} (here : (messageFields {})[k]? = some field)
    (late : 2 < k) : ∃ c, field.2 = [c] := by
  have bound : k < 10 := (List.getElem?_eq_some_iff.mp here).1
  interval_cases k
  all_goals
    obtain rfl := Option.some.inj here
    exact ⟨_, rfl⟩

/-- What is left of a default cut after a digit is the default. -/
theorem cut_default (addressed : message.Addressed) (here : (messageFields message)[k]? = some field)
    (short : cut <+: field.2) (filled : cut ≠ []) (late : 1 < k)
    (rest : (messageFields message).drop k = (messageFields {}).drop k) : cut = field.2 := by
  have same : (messageFields {})[k]? = some field := by
    have head := congrArg (fun fields => fields[0]?) rest
    simpa [List.getElem?_drop, here] using head.symm
  by_cases target : k = 2
  · subst target
    have invalid := (target_here message).symm.trans (here.trans same.symm)
    have value := (Prod.ext_iff.mp (Option.some.inj invalid)).2
    exact absurd (UInt16.toNat_inj.mp (decimal_injective value)) addressed.2
  · obtain ⟨c, digit⟩ := default_digit same (by omega)
    rw [digit] at short ⊢
    exact cut_digit short filled

theorem CutSafely.whole_of_value (addressed : message.Addressed) (here : (messageFields message)[k]? = some field)
    (short : cut <+: field.2) (filled : cut ≠ []) (bare : '=' ∉ field.2)
    (safe : CutSafely message (fileOf ((messageFields message).take k) ++ (field.1.toList ++ '=' :: cut))) (late : 1 < k) :
    cut = field.2 ∧ (messageFields message).drop (k + 1) = (messageFields {}).drop (k + 1) := by
  have line := length_fileOf_take_succ here
  have digits := List.length_pos_of_ne_nil filled
  rcases safe with early | separator | ⟨j, last, rest, reached⟩
  · have length := early.length_le
    have start := length_targetStart message
    simp only [List.length_append, List.length_cons] at length
    by_cases target : k = 2
    · subst target
      obtain rfl := Option.some.inj ((target_here message).symm.trans here)
      have key : "target_node".toList.length = 11 := rfl
      simp only [key] at length
      omega
    · have third := length_fileOf_take_le message (show 3 ≤ k by omega)
      have start := length_targetStart_lt message
      omega
  · have split : fileOf ((messageFields message).take k) ++ (field.1.toList ++ '=' :: cut) =
        (fileOf ((messageFields message).take k) ++ field.1.toList ++ ['=']) ++ cut := by simp
    rw [split, List.getLast?_append_of_ne_nil _ filled] at separator
    exact absurd (short.subset (List.mem_of_getLast? separator)) bare
  · have reach := reached.length_le
    simp only [List.length_dropLast, List.length_append, List.length_cons] at reach
    have within := short.length_le
    have before : j ≤ k + 1 := by
      by_contra after
      have next : k + 1 < (messageFields message).length := by
        rw [length_messageFields]
        omega
      have following := length_fileOf_take_succ (List.getElem?_eq_getElem next)
      have beyond := length_fileOf_take_le message (show k + 1 + 1 ≤ j by omega)
      omega
    by_cases inside : j ≤ k
    · have rest : (messageFields message).drop k = (messageFields {}).drop k := by
        rw [← Nat.add_sub_cancel' inside, ← List.drop_drop, ← List.drop_drop, rest]
      refine ⟨cut_default addressed here short filled late rest, ?_⟩
      rw [← List.drop_drop, ← List.drop_drop, rest]
    · obtain rfl : j = k + 1 := by omega
      exact ⟨short.eq_of_length (by omega), rest⟩

end Lengths

theorem value_bare (message : ControlMessage) : ∀ field ∈ messageFields message, '=' ∉ field.2 := by
  have number (n : Nat) : '=' ∉ decimal n := not_mem_decimal (by decide)
  have enumerator (i : Int) : '=' ∉ decimalInt i := not_mem_decimalInt (by decide) (by decide)
  simp [messageFields, number, enumerator]

/-- The file ends before the target's first digit. -/
theorem prefix_targetStart {text : Text} (front : text <+: fileOf (messageFields message))
    (short : text.length ≤ (targetStart message).length) : text <+: targetStart message :=
  List.prefix_of_prefix_length_le front (targetStart_front message) short

theorem cutSafely_key (here : (messageFields message)[k]? = some field) (short : cut <+: field.1.toList)
    (front : fileOf ((messageFields message).take k) ++ cut <+: fileOf (messageFields message)) :
    CutSafely message (fileOf ((messageFields message).take k) ++ cut) ↔
      (2 < k → (messageFields message).drop k = (messageFields {}).drop k) := by
  refine ⟨fun safe late => safe.drop_of_key here short late, fun rest => ?_⟩
  have bound : k < 10 := (List.getElem?_eq_some_iff.mp here).1
  have line := length_fileOf_take_succ here
  have within := short.length_le
  have start := length_targetStart message
  by_cases late : 2 < k
  · refine .inr (.inr ⟨k, bound.le, rest late, ?_⟩)
    exact (List.dropLast_prefix _).trans (List.prefix_append _ _)
  · refine .inl (prefix_targetStart front ?_)
    rw [List.length_append]
    by_cases target : k = 2
    · subst target
      obtain rfl := Option.some.inj ((target_here message).symm.trans here)
      have key : "target_node".toList.length = 11 := rfl
      simp only [key] at within
      omega
    · have second := length_fileOf_take_le message (show k + 1 ≤ 2 by omega)
      omega

theorem cutSafely_value (addressed : message.Addressed) (here : (messageFields message)[k]? = some field)
    (short : cut <+: field.2) (filled : cut ≠ [])
    (front : fileOf ((messageFields message).take k) ++ (field.1.toList ++ '=' :: cut) <+: fileOf (messageFields message)) :
    CutSafely message (fileOf ((messageFields message).take k) ++ (field.1.toList ++ '=' :: cut)) ↔
      (1 < k → cut = field.2 ∧ (messageFields message).drop (k + 1) = (messageFields {}).drop (k + 1)) := by
  have bare := value_bare message field (List.mem_of_getElem? here)
  refine ⟨fun safe late => safe.whole_of_value addressed here short filled bare late, fun rest => ?_⟩
  have bound : k < 10 := (List.getElem?_eq_some_iff.mp here).1
  by_cases late : 1 < k
  · obtain ⟨rfl, others⟩ := rest late
    have whole : (fileOf ((messageFields message).take (k + 1))).dropLast =
        fileOf ((messageFields message).take k) ++ (field.1.toList ++ '=' :: field.2) := by
      rw [fileOf_take_succ here, keyValueLine, ← List.append_assoc, List.dropLast_concat]
    exact .inr (.inr ⟨k + 1, bound, others, whole ▸ List.prefix_rfl⟩)
  · refine .inl (prefix_targetStart front ?_)
    have line := length_fileOf_take_succ here
    have second := length_fileOf_take_le message (show k + 1 ≤ 2 by omega)
    have start := length_targetStart message
    have within := short.length_le
    simp only [List.length_append, List.length_cons]
    omega

/-- Which prefixes of a message's file are harmless: the reader either turns the prefix
down or takes `message` from it, and no other message, exactly when the prefix ends before
the target's first digit or right after a `=`, or holds every value that is not a
default. -/
theorem half_written_message_iff {message : ControlMessage} (addressed : message.Addressed) {text : Text}
    (front : text <+: formatControlMessage message) :
    (∀ read, parseControlMessage text = .ok (some read) → read = message) ↔ CutSafely message text := by
  show NeverMistaken message text ↔ _
  rw [formatControlMessage_eq] at front
  rcases cutAt_of_prefix front with rfl | ⟨k, field, here, cut⟩
  · refine ⟨fun _ => .inr (.inr ⟨10, le_refl 10, rfl, List.dropLast_prefix _⟩), fun _ read parsed => ?_⟩
    rw [← formatControlMessage_eq, parseControlMessage_format addressed] at parsed
    exact (Option.some.inj (Except.ok.inj parsed)).symm
  · -- a cut in a key drops a whole field, a cut in a value shortens it
    cases cut with
    | key short => rw [neverMistaken_key addressed here short, cutSafely_key here short front]
    | @value cut short =>
      by_cases filled : cut = []
      · subst filled
        refine ⟨fun _ => .inr (.inl ?_), fun _ => neverMistaken_empty here⟩
        rw [← List.append_assoc, List.getLast?_concat]
      · rw [neverMistaken_value addressed here short filled, cutSafely_value addressed here short filled front]

/-- A request from node 1 to node 12. -/
def transferToTwelve : ControlMessage where
  opcode := .kOwnerTransfer
  sourceNode := 1
  targetNode := 12
  requestId := 34
  lastBlock := { blockIndex := 5 }
  version := 6

/-- Its file, cut between the two digits of the target. -/
def cutInTarget : Text := targetStart transferToTwelve ++ ['1']

/-- Read at that moment, the file is a request to node 1 without a number. -/
theorem cutInTarget_mistaken :
    transferToTwelve.Addressed ∧ cutInTarget <+: formatControlMessage transferToTwelve ∧
      parseControlMessage cutInTarget = .ok (some { opcode := .kOwnerTransfer, sourceNode := 1, targetNode := 1 }) ∧
      ({ opcode := .kOwnerTransfer, sourceNode := 1, targetNode := 1 } : ControlMessage) ≠ transferToTwelve := by
  refine ⟨⟨by decide, by decide⟩, ?_, ?_, by decide⟩
  · decide +kernel
  · decide +kernel

theorem cut_before_target_safe :
    transferToTwelve.Addressed ∧ targetStart transferToTwelve <+: formatControlMessage transferToTwelve ∧
      ∀ read, parseControlMessage (targetStart transferToTwelve) = .ok (some read) → read = transferToTwelve := by
  have addressed : transferToTwelve.Addressed := ⟨by decide, by decide⟩
  have front : targetStart transferToTwelve <+: formatControlMessage transferToTwelve := by decide +kernel
  exact ⟨addressed, front, (half_written_message_iff addressed front).mpr (.inl List.prefix_rfl)⟩

end LeoMem
