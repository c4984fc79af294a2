import LeoMem.Rdma.Codec

/-!
# Connection parameters as text

`FormatExchangeInfo` and `ParseExchangeInfo` of `transport/rdma_transport.cc`: each node
writes a file with what its peers need to connect a queue pair to it, and reads theirs.
The file has the same `key=value` lines as a control message; the 16 bytes of the GID
are one value, printed in decimal and separated by colons.
-/

namespace LeoMem
open Lib

structure PeerExchangeInfo where
  nodeId : NodeId := kInvalidNodeId
  qpn : UInt32 := 0
  psn : UInt32 := 0
  lid : UInt16 := 0
  remoteAddr : UInt64 := 0
  rkey : UInt32 := 0
  length : UInt64 := 0
  hasGid : Bool := false
  gidRaw : Vector UInt8 16 := Vector.replicate 16 0
  deriving DecidableEq, Repr

/-- The loop over `gid_raw`: a colon before every byte but the first. -/
def formatGid (gid : Vector UInt8 16) : Text :=
  gid.toList.zipIdx.flatMap fun entry => (if entry.2 ≠ 0 then [':'] else []) ++ decimal entry.1.toNat

def formatExchangeInfo (info : PeerExchangeInfo) : Text :=
  keyValueLine "node_id" (decimal info.nodeId.toNat) ++
  keyValueLine "qpn" (decimal info.qpn.toNat) ++
  keyValueLine "psn" (decimal info.psn.toNat) ++
  keyValueLine "lid" (decimal info.lid.toNat) ++
  keyValueLine "remote_addr" (decimal info.remoteAddr.toNat) ++
  keyValueLine "rkey" (decimal info.rkey.toNat) ++
  keyValueLine "length" (decimal info.length.toNat) ++
  keyValueLine "has_gid" (if info.hasGid then "1".toList else "0".toList) ++
  keyValueLine "gid" (formatGid info.gidRaw)

/-- A 32-bit field: `stoul` and a cast. -/
def parseHalfWord (value : Text) : Except ParseError UInt32 := (parseWord value).map UInt64.toUInt32

/-- A byte of the GID: `stoul` and a cast. -/
def parseByte (value : Text) : Except ParseError UInt8 := (parseWord value).map UInt64.toUInt8

/-- The loop over the bytes of the GID, the next one going to `idx`; what follows the
sixteenth is left. -/
def parseGidBytes (gid : Vector UInt8 16) (idx : Nat) : List Text → Except ParseError (Vector UInt8 16)
  | [] => .ok gid
  | byte :: bytes =>
    if room : idx < 16 then do
      let value ← parseByte byte
      parseGidBytes (gid.set idx value room) (idx + 1) bytes
    else .ok gid

def parseExchangeField (parsed : PeerExchangeInfo) (key value : Text) : Except ParseError PeerExchangeInfo :=
  if key = "node_id".toList then return { parsed with nodeId := ← parseId value }
  else if key = "qpn".toList then return { parsed with qpn := ← parseHalfWord value }
  else if key = "psn".toList then return { parsed with psn := ← parseHalfWord value }
  else if key = "lid".toList then return { parsed with lid := ← parseId value }
  else if key = "remote_addr".toList then return { parsed with remoteAddr := ← parseWord value }
  else if key = "rkey".toList then return { parsed with rkey := ← parseHalfWord value }
  else if key = "length".toList then return { parsed with length := ← parseWord value }
  else if key = "has_gid".toList then return { parsed with hasGid := value = "1".toList }
  else if key = "gid".toList then
    return { parsed with gidRaw := ← parseGidBytes parsed.gidRaw 0 (getDelimited ':' value) }
  else return parsed

/-- `none` where the source returns `false`; an error where it throws. -/
def parseExchangeInfo (text : Text) : Except ParseError (Option PeerExchangeInfo) := do
  let parsed ← readLines parseExchangeField text {}
  if parsed.nodeId = kInvalidNodeId ∨ parsed.qpn = 0 then return none
  return some parsed

/-! ### The GID -/

theorem parseHalfWord_decimal (n : UInt32) : parseHalfWord (decimal n.toNat) = .ok n := by
  have wide : n.toNat = n.toUInt64.toNat := by simp
  rw [parseHalfWord, wide, parseWord_decimal]
  simp [Except.map]

theorem parseByte_decimal (n : UInt8) : parseByte (decimal n.toNat) = .ok n := by
  have wide : n.toNat = n.toUInt64.toNat := by simp
  rw [parseByte, wide, parseWord_decimal]
  simp [Except.map]

/-- The bytes after the first, each with its colon. -/
def laterBytes (bytes : List UInt8) : Text := bytes.flatMap fun byte => ':' :: decimal byte.toNat

theorem zipIdx_laterBytes (bytes : List UInt8) {start : Nat} (later : start ≠ 0) :
    (bytes.zipIdx start).flatMap (fun entry => (if entry.2 ≠ 0 then [':'] else []) ++ decimal entry.1.toNat) =
      laterBytes bytes := by
  induction bytes generalizing start with
  | nil => rfl
  | cons byte bytes ih =>
    rw [List.zipIdx_cons, List.flatMap_cons, ih (Nat.succ_ne_zero start), if_pos later]
    rfl

theorem formatGid_cons {gid : Vector UInt8 16} {byte : UInt8} {bytes : List UInt8}
    (list : gid.toList = byte :: bytes) : formatGid gid = decimal byte.toNat ++ laterBytes bytes := by
  rw [formatGid, list, List.zipIdx_cons, List.flatMap_cons, zipIdx_laterBytes bytes Nat.one_ne_zero]
  rfl

/-- Splitting at the colons gives the printed bytes back. -/
theorem getDelimited_gid (byte : UInt8) (bytes : List UInt8) :
    getDelimited ':' (decimal byte.toNat ++ laterBytes bytes) =
      (byte :: bytes).map fun byte => decimal byte.toNat := by
  have bare (byte : UInt8) : ':' ∉ decimal byte.toNat := not_mem_decimal (by decide)
  induction bytes generalizing byte with
  | nil =>
    rw [laterBytes, List.flatMap_nil, List.append_nil, getDelimited_last (bare byte) (decimal_ne_nil _)]
    rfl
  | cons next bytes ih =>
    have more : laterBytes (next :: bytes) = ':' :: (decimal next.toNat ++ laterBytes bytes) := List.flatMap_cons
    rw [more, getDelimited_append (bare byte), ih next]
    rfl

/-- Printed bytes are read into the places they came from. -/
theorem parseGidBytes_decimal {bytes : List UInt8} {idx : Nat} (fits : idx + bytes.length = 16)
    (gid : Vector UInt8 16) :
    ∃ read, parseGidBytes gid idx (bytes.map fun byte => decimal byte.toNat) = .ok read ∧
      read.toList = gid.toList.take idx ++ bytes := by
  induction bytes generalizing gid idx with
  | nil =>
    refine ⟨gid, rfl, ?_⟩
    rw [List.append_nil, List.take_of_length_le]
    rw [Vector.length_toList]
    exact fits.ge
  | cons byte bytes ih =>
    rw [List.length_cons] at fits
    have room : idx < 16 := by omega
    obtain ⟨read, run, list⟩ := ih (show idx + 1 + bytes.length = 16 by omega) (gid.set idx byte room)
    refine ⟨read, ?_, ?_⟩
    · rw [List.map_cons, parseGidBytes, dif_pos room, parseByte_decimal]
      exact run
    · rw [list, Vector.toList_set, List.take_succ_eq_append_getElem (by simpa using room), List.getElem_set_self,
        List.take_set_of_le (le_refl idx), List.append_assoc, List.singleton_append]

theorem parseGidBytes_format (gid start : Vector UInt8 16) :
    parseGidBytes start 0 (getDelimited ':' (formatGid gid)) = .ok gid := by
  obtain ⟨byte, bytes, list⟩ : ∃ byte bytes, gid.toList = byte :: bytes :=
    List.exists_cons_of_length_eq_add_one (n := 15) (by simp)
  have sixteen : 0 + (byte :: bytes).length = 16 := by
    rw [← list]
    simp
  obtain ⟨read, run, same⟩ := parseGidBytes_decimal sixteen start
  rw [formatGid_cons list, getDelimited_gid, run]
  rw [List.take_zero, List.nil_append, ← list] at same
  exact congrArg _ (Vector.toList_inj.mp same)

theorem formatGid_plain (gid : Vector UInt8 16) : '\n' ∉ formatGid gid := by
  intro member
  obtain ⟨entry, -, within⟩ := List.mem_flatMap.mp member
  rcases List.mem_append.mp within with colon | digit
  · split at colon <;> simp at colon
  · exact not_mem_decimal (by decide) digit

/-! ### The whole file -/

/-- The lines of the file as keys and values. -/
def exchangeFields (info : PeerExchangeInfo) : List (String × Text) :=
  [("node_id", decimal info.nodeId.toNat),
   ("qpn", decimal info.qpn.toNat),
   ("psn", decimal info.psn.toNat),
   ("lid", decimal info.lid.toNat),
   ("remote_addr", decimal info.remoteAddr.toNat),
   ("rkey", decimal info.rkey.toNat),
   ("length", decimal info.length.toNat),
   ("has_gid", if info.hasGid then "1".toList else "0".toList),
   ("gid", formatGid info.gidRaw)]

theorem formatExchangeInfo_eq (info : PeerExchangeInfo) :
    formatExchangeInfo info = fileOf (exchangeFields info) := by
  simp [formatExchangeInfo, exchangeFields]

theorem exchangeFields_plain (info : PeerExchangeInfo) : ∀ field ∈ exchangeFields info, PlainField field := by
  have number (n : Nat) : '\n' ∉ decimal n := not_mem_decimal (by decide)
  have flag : '\n' ∉ (if info.hasGid then ['1'] else ['0']) := by split <;> decide
  have plain : ∀ field ∈ exchangeFields info, '=' ∉ field.1.toList ∧ '\n' ∉ field.1.toList ∧ '\n' ∉ field.2 := by
    simp [exchangeFields, number, flag, formatGid_plain]
  intro field member
  obtain ⟨bare, oneLine, value⟩ := plain field member
  exact ⟨bare, oneLine, value⟩

/-- The keys are told apart: a field is read into its own place. -/
theorem parseExchangeField_info (info parsed : PeerExchangeInfo) :
    parseExchangeField parsed "node_id".toList (decimal info.nodeId.toNat) = .ok { parsed with nodeId := info.nodeId } ∧
    parseExchangeField parsed "qpn".toList (decimal info.qpn.toNat) = .ok { parsed with qpn := info.qpn } ∧
    parseExchangeField parsed "psn".toList (decimal info.psn.toNat) = .ok { parsed with psn := info.psn } ∧
    parseExchangeField parsed "lid".toList (decimal info.lid.toNat) = .ok { parsed with lid := info.lid } ∧
    parseExchangeField parsed "remote_addr".toList (decimal info.remoteAddr.toNat) =
      .ok { parsed with remoteAddr := info.remoteAddr } ∧
    parseExchangeField parsed "rkey".toList (decimal info.rkey.toNat) = .ok { parsed with rkey := info.rkey } ∧
    parseExchangeField parsed "length".toList (decimal info.length.toNat) = .ok { parsed with length := info.length } ∧
    parseExchangeField parsed "has_gid".toList (if info.hasGid then "1".toList else "0".toList) =
      .ok { parsed with hasGid := info.hasGid } ∧
    parseExchangeField parsed "gid".toList (formatGid info.gidRaw) = .ok { parsed with gidRaw := info.gidRaw } := by
  have flag : decide ((if info.hasGid then "1".toList else "0".toList) = "1".toList) = info.hasGid := by
    cases info.hasGid <;> rfl
  refine ⟨?_, ?_, ?_, ?_, ?_, ?_, ?_, ?_, ?_⟩
  all_goals
    simp only [parseExchangeField, parseId_decimal, parseHalfWord_decimal, parseWord_decimal, parseGidBytes_format, flag]
    rfl

/-- Every field is read back, whatever the reader started from. -/
theorem putFields_exchange (info parsed : PeerExchangeInfo) :
    putFields parseExchangeField (exchangeFields info) parsed = .ok info := by
  simp only [putFields, exchangeFields, List.foldlM_cons, List.foldlM_nil, parseExchangeField_info, bind, Except.bind]
  rfl

/-- A peer reads from the file of a node exactly what that node wrote. -/
theorem exchange_text_round_trip {info : PeerExchangeInfo} (node : info.nodeId ≠ kInvalidNodeId)
    (pair : info.qpn ≠ 0) : parseExchangeInfo (formatExchangeInfo info) = .ok (some info) := by
  rw [parseExchangeInfo, formatExchangeInfo_eq, readLines_whole (exchangeFields_plain info), putFields_exchange]
  simp [bind, Except.bind, node, pair, pure, Except.pure]

/-- The largest value of every field, and bytes of one, two and three digits. -/
def widestExchange : PeerExchangeInfo where
  nodeId := 0xfffe
  qpn := 0xffffffff
  psn := 0xffffffff
  lid := 0xffff
  remoteAddr := 0xffffffffffffffff
  rkey := 0xffffffff
  length := 0xffffffffffffffff
  hasGid := true
  gidRaw := #v[0xfe, 0x80, 0, 0, 0, 0, 0, 0, 2, 21, 0xff, 0xff, 99, 100, 9, 10]

theorem widestExchange_round_trip :
    (widestExchange.nodeId ≠ kInvalidNodeId ∧ widestExchange.qpn ≠ 0) ∧
    parseExchangeInfo (formatExchangeInfo widestExchange) = .ok (some widestExchange) := by
  have node : widestExchange.nodeId ≠ kInvalidNodeId := by decide
  have pair : widestExchange.qpn ≠ 0 := by decide
  exact ⟨⟨node, pair⟩, exchange_text_round_trip node pair⟩

end LeoMem
