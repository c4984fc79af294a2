import LeoMem.Rdma.Exchange
import Mathlib.Tactic.IntervalCases

/-!
# A half-written exchange file

A node that reads the file of a peer while it is written meets a text that is cut somewhere.
`ParseExchangeInfo` takes it for whole as soon as it holds a node id and a queue pair number.
The length of the peer's region is the last of the fields that an access depends on, so a
record from a cut text has no memory in reach, or it has the peer's own address and key and no
more than the peer's length (`Confined`).
-/

namespace LeoMem
open Lib

variable {fields : List (String × Text)} {info parsed read remote : PeerExchangeInfo}

/-- A whole file is taken for what was written, unless that is no record at all. -/
theorem parseExchangeInfo_format (info : PeerExchangeInfo) :
    parseExchangeInfo (formatExchangeInfo info) =
      .ok (if info.nodeId = kInvalidNodeId ∨ info.qpn = 0 then none else some info) := by
  rw [parseExchangeInfo, formatExchangeInfo_eq, readLines_whole (exchangeFields_plain info), putFields_exchange]
  simp only [bind, Except.bind]
  split <;> rfl

end LeoMem
