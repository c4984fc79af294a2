import LeoMem.Control
import LeoMem.Lib.Fields
import Mathlib.Data.Set.Function

/-!
# Control messages as text

`FormatControlMessage` and `ParseControlMessage` of `transport/rdma_transport.cc`: a
control message travels as a file of `key=value` lines. A reader takes the lines in
any order and skips those without `=` or with an unknown key. A number it cannot read
throws.

An opcode or a mode outside its enumeration, which the source's cast would keep, is
an error of its own here.
-/

namespace LeoMem
open Lib

/-- `static_cast<int>(opcode)`. -/
def ControlOpcode.toInt : ControlOpcode → Int
  | .kInvalidateRange => 0
  | .kOwnerTransfer => 1
  | .kInvalidateAck => 2
  | .kOwnerTransferAck => 3

/-- `static_cast<ControlOpcode>(value)` where `value` is an enumerator's. -/
def ControlOpcode.ofInt? : Int → Option ControlOpcode
  | 0 => some .kInvalidateRange
  | 1 => some .kOwnerTransfer
  | 2 => some .kInvalidateAck
  | 3 => some .kOwnerTransferAck
  | _ => none

/-- `static_cast<CoherenceMode>(value)` where `value` is an enumerator's. -/
def CoherenceMode.ofInt? : Int → Option CoherenceMode
  | 0 => some .kWI
  | 1 => some .kSI
  | 2 => some .kAdaptive
  | _ => none

@[simp] theorem ControlOpcode.ofInt?_toInt (opcode : ControlOpcode) : ofInt? opcode.toInt = some opcode := by
  cases opcode <;> rfl

@[simp] theorem CoherenceMode.ofInt?_toInt (mode : CoherenceMode) : ofInt? mode.toInt = some mode := by
  cases mode <;> rfl

def formatControlMessage (message : ControlMessage) : Text :=
  keyValueLine "opcode" (decimalInt message.opcode.toInt) ++
  keyValueLine "source_node" (decimal message.sourceNode.toNat) ++
  keyValueLine "target_node" (decimal message.targetNode.toNat) ++
  keyValueLine "request_id" (decimal message.requestId.toNat) ++
  keyValueLine "first_region" (decimal message.firstBlock.regionId.toNat) ++
  keyValueLine "first_block" (decimal message.firstBlock.blockIndex.toNat) ++
  keyValueLine "last_region" (decimal message.lastBlock.regionId.toNat) ++
  keyValueLine "last_block" (decimal message.lastBlock.blockIndex.toNat) ++
  keyValueLine "version" (decimal message.version.toNat) ++
  keyValueLine "mode" (decimalInt message.mode.toInt)

inductive ParseError where
  | number (error : NumberError)
  | enumerator (value : Int)
  deriving DecidableEq, Repr

/-- A 64-bit field. -/
def parseWord (value : Text) : Except ParseError UInt64 := (stoull value).mapError .number

/-- A node or region id: `stoul` and a cast to 16 bits. -/
def parseId (value : Text) : Except ParseError UInt16 := (parseWord value).map UInt64.toUInt16

/-- An enumerator: `stoi` and a cast. -/
def parseEnum {ε : Type} (ofInt? : Int → Option ε) (value : Text) : Except ParseError ε := do
  let n ← (stoi value).mapError .number
  match ofInt? n with
  | some e => .ok e
  | none => .error (.enumerator n)

/-- The body of the loop over the lines, for one with a `=`. -/
def parseField (msg : ControlMessage) (key value : Text) : Except ParseError ControlMessage :=
  if key = "opcode".toList then return { msg with opcode := ← parseEnum ControlOpcode.ofInt? value }
  else if key = "source_node".toList then return { msg with sourceNode := ← parseId value }
  else if key = "target_node".toList then return { msg with targetNode := ← parseId value }
  else if key = "request_id".toList then return { msg with requestId := ← parseWord value }
  else if key = "first_region".toList then
    return { msg with firstBlock := { msg.firstBlock with regionId := ← parseId value } }
  else if key = "first_block".toList then
    return { msg with firstBlock := { msg.firstBlock with blockIndex := ← parseWord value } }
  else if key = "last_region".toList then
    return { msg with lastBlock := { msg.lastBlock with regionId := ← parseId value } }
  else if key = "last_block".toList then
    return { msg with lastBlock := { msg.lastBlock with blockIndex := ← parseWord value } }
  else if key = "version".toList then return { msg with version := ← parseWord value }
  else if key = "mode".toList then return { msg with mode := ← parseEnum CoherenceMode.ofInt? value }
  else return msg

/-- `none` where the source returns `false`; an error where it throws. -/
def parseControlMessage (text : Text) : Except ParseError (Option ControlMessage) := do
  let msg ← readLines parseField text {}
  if msg.sourceNode = kInvalidNodeId ∨ msg.targetNode = kInvalidNodeId then return none
  return some msg

/-! ### Reading back what was written -/

theorem parseWord_decimal (n : UInt64) : parseWord (decimal n.toNat) = .ok n := by
  rw [parseWord, stoull_decimal]
  rfl

theorem parseId_decimal (n : UInt16) : parseId (decimal n.toNat) = .ok n := by
  have wide : n.toNat = n.toUInt64.toNat := by simp
  rw [parseId, wide, parseWord_decimal]
  simp [Except.map]

theorem parseEnum_decimalInt {ε : Type} {ofInt? : Int → Option ε} {i : Int} {e : ε} (low : -2 ^ 31 ≤ i)
    (high : i < 2 ^ 31) (known : ofInt? i = some e) : parseEnum ofInt? (decimalInt i) = .ok e := by
  simp [parseEnum, stoi_decimalInt low high, known, Except.mapError, bind, Except.bind]

theorem parseEnum_opcode (opcode : ControlOpcode) :
    parseEnum ControlOpcode.ofInt? (decimalInt opcode.toInt) = .ok opcode :=
  parseEnum_decimalInt (by cases opcode <;> decide) (by cases opcode <;> decide) (by simp)

theorem parseEnum_mode (mode : CoherenceMode) :
    parseEnum CoherenceMode.ofInt? (decimalInt mode.toInt) = .ok mode :=
  parseEnum_decimalInt (by cases mode <;> decide) (by cases mode <;> decide) (by simp)

/-- The lines of a message as keys and values. -/
def messageFields (message : ControlMessage) : List (String × Text) :=
  [("opcode", decimalInt message.opcode.toInt),
   ("source_node", decimal message.sourceNode.toNat),
   ("target_node", decimal message.targetNode.toNat),
   ("request_id", decimal message.requestId.toNat),
   ("first_region", decimal message.firstBlock.regionId.toNat),
   ("first_block", decimal message.firstBlock.blockIndex.toNat),
   ("last_region", decimal message.lastBlock.regionId.toNat),
   ("last_block", decimal message.lastBlock.blockIndex.toNat),
   ("version", decimal message.version.toNat),
   ("mode", decimalInt message.mode.toInt)]

theorem formatControlMessage_eq (message : ControlMessage) :
    formatControlMessage message = fileOf (messageFields message) := by
  simp [formatControlMessage, messageFields]

/-- No key holds a separator and no value a line end. -/
theorem messageFields_plain (message : ControlMessage) : ∀ field ∈ messageFields message, PlainField field := by
  have number (n : Nat) : '\n' ∉ decimal n := not_mem_decimal (by decide)
  have enumerator (i : Int) : '\n' ∉ decimalInt i := not_mem_decimalInt (by decide) (by decide)
  have plain : ∀ field ∈ messageFields message, '=' ∉ field.1.toList ∧ '\n' ∉ field.1.toList ∧ '\n' ∉ field.2 := by
    simp [messageFields, number, enumerator]
  intro field member
  obtain ⟨bare, oneLine, value⟩ := plain field member
  exact ⟨bare, oneLine, value⟩

/-- The keys are told apart: a field is read into its own place. -/
theorem parseField_message (message msg : ControlMessage) :
    parseField msg "opcode".toList (decimalInt message.opcode.toInt) = .ok { msg with opcode := message.opcode } ∧
    parseField msg "source_node".toList (decimal message.sourceNode.toNat) =
      .ok { msg with sourceNode := message.sourceNode } ∧
    parseField msg "target_node".toList (decimal message.targetNode.toNat) =
      .ok { msg with targetNode := message.targetNode } ∧
    parseField msg "request_id".toList (decimal message.requestId.toNat) = .ok { msg with requestId := message.requestId } ∧
    parseField msg "first_region".toList (decimal message.firstBlock.regionId.toNat) =
      .ok { msg with firstBlock := { msg.firstBlock with regionId := message.firstBlock.regionId } } ∧
    parseField msg "first_block".toList (decimal message.firstBlock.blockIndex.toNat) =
      .ok { msg with firstBlock := { msg.firstBlock with blockIndex := message.firstBlock.blockIndex } } ∧
    parseField msg "last_region".toList (decimal message.lastBlock.regionId.toNat) =
      .ok { msg with lastBlock := { msg.lastBlock with regionId := message.lastBlock.regionId } } ∧
    parseField msg "last_block".toList (decimal message.lastBlock.blockIndex.toNat) =
      .ok { msg with lastBlock := { msg.lastBlock with blockIndex := message.lastBlock.blockIndex } } ∧
    parseField msg "version".toList (decimal message.version.toNat) = .ok { msg with version := message.version } ∧
    parseField msg "mode".toList (decimalInt message.mode.toInt) = .ok { msg with mode := message.mode } := by
  refine ⟨?_, ?_, ?_, ?_, ?_, ?_, ?_, ?_, ?_, ?_⟩
  all_goals
    simp only [parseField, parseEnum_opcode, parseEnum_mode, parseId_decimal, parseWord_decimal]
    rfl

/-- Every field of a message is read back, whatever the reader started from. -/
theorem parseFields_message (message msg : ControlMessage) :
    putFields parseField (messageFields message) msg = .ok message := by
  simp only [putFields, messageFields, List.foldlM_cons, List.foldlM_nil, parseField_message, bind, Except.bind]
  rfl

/-- Both ends are nodes. -/
def ControlMessage.Addressed (message : ControlMessage) : Prop :=
  message.sourceNode ≠ kInvalidNodeId ∧ message.targetNode ≠ kInvalidNodeId

theorem parseControlMessage_format {message : ControlMessage} (addressed : message.Addressed) :
    parseControlMessage (formatControlMessage message) = .ok (some message) := by
  rw [parseControlMessage, formatControlMessage_eq, readLines_whole (messageFields_plain message), parseFields_message]
  simp [bind, Except.bind, addressed.1, addressed.2, pure, Except.pure]

/-- A message between nodes is read back as it was written, so no two of them have
the same text. -/
theorem control_text_round_trip :
    (∀ message : ControlMessage, message.Addressed →
      parseControlMessage (formatControlMessage message) = .ok (some message)) ∧
    Set.InjOn formatControlMessage {message | message.Addressed} := by
  refine ⟨fun message addressed => parseControlMessage_format addressed, ?_⟩
  intro first firstAddressed second secondAddressed sameText
  have read : Except.ok (some first) = Except.ok (ε := ParseError) (some second) := by
    rw [← parseControlMessage_format firstAddressed, ← parseControlMessage_format secondAddressed, sameText]
  injection read with same
  injection same

/-- The largest value of every field. -/
def widestMessage : ControlMessage where
  opcode := .kOwnerTransferAck
  sourceNode := 0xfffe
  targetNode := 0xfffe
  requestId := 0xffffffffffffffff
  firstBlock := { regionId := 0xffff, blockIndex := 0xffffffffffffffff }
  lastBlock := { regionId := 0xffff, blockIndex := 0xffffffffffffffff }
  version := 0xffffffffffffffff
  mode := .kAdaptive

theorem widestMessage_round_trip :
    widestMessage.Addressed ∧
    parseControlMessage (formatControlMessage widestMessage) = .ok (some widestMessage) := by
  have addressed : widestMessage.Addressed := ⟨by decide, by decide⟩
  exact ⟨addressed, control_text_round_trip.1 widestMessage addressed⟩

end LeoMem
