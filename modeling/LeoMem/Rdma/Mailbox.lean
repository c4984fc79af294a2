import LeoMem.Cluster.Model
import LeoMem.Rdma.Codec

/-!
# The control mailbox of the RDMA transport

`PostControlMessage` writes a control message to a file of the shared `control`
directory, named after its target, its source and a counter of the posting node.
`DrainControlMessages` takes the files addressed to its node in the order of their
names. Files are created and removed at once, and no process restarts.

A source's messages come out in the order they went in as long as no drain takes a
file whose name sorts before that of an older one. Names hold the counter in decimal
without leading zeros, so this fails at the tenth message.
-/

namespace LeoMem
open Lib

def controlFileName (target source : NodeId) (seq : UInt64) : Text :=
  "to_".toList ++ (decimal target.toNat ++ ("_from_".toList ++ (decimal source.toNat ++ ("_".toList ++
    (decimal seq.toNat ++ ".txt".toList)))))

/-- The `control` directory and the `control_sequence_` of every node. -/
structure ControlDir where
  files : HashMap Text Text := ∅
  sequence : NodeId → UInt64 := fun _ => 0

namespace ControlDir

def writeControlMessageFile (cfg : Config) (message : ControlMessage) (dir : ControlDir) : Status × ControlDir :=
  let seq := dir.sequence cfg.nodeId + 1
  (.kOk,
    { files :=
        dir.files.insert (controlFileName message.targetNode message.sourceNode seq) (formatControlMessage message)
      sequence := Function.update dir.sequence cfg.nodeId seq })

def postControlMessage (cfg : Config) (message : ControlMessage) (dir : ControlDir) : Status × ControlDir :=
  if cfg.rdmaEnableControlPath = false then (.kUnimplemented, dir)
  else if PeerTransport.connected cfg message.targetNode = false then (.kNotFound, dir)
  else writeControlMessageFile cfg message dir

/-- The names with a node's prefix, sorted. -/
def waitingNames (node : NodeId) (dir : ControlDir) : List Text :=
  (dir.files.keys.filter fun name => ("to_".toList ++ decimal node.toNat ++ "_".toList).isPrefixOf name).insertionSort
    (· ≤ ·)

/-- The loop over the sorted files. A file that is gone is passed over, one without
valid ends is removed, and one that cannot be read throws. -/
def drainLoop (limit : Nat) :
    List Text → List ControlMessage → HashMap Text Text → Except ParseError (List ControlMessage) × HashMap Text Text
  | [], messages, files => (.ok messages, files)
  | name :: names, messages, files =>
    if messages.length ≥ limit then (.ok messages, files)
    else
      match files.lookup name with
      | none => drainLoop limit names messages files
      | some content =>
        match parseControlMessage content with
        | .error e => (.error e, files)
        | .ok none => drainLoop limit names messages (files.erase name)
        | .ok (some msg) => drainLoop limit names (messages ++ [msg]) (files.erase name)

def drainControlMessages (cfg : Config) (maxMessages : UInt64) (dir : ControlDir) :
    Except ParseError (Status × List ControlMessage) × ControlDir :=
  if cfg.rdmaEnableControlPath = false then (.ok (.kUnimplemented, []), dir)
  else
    let r := drainLoop (max 1 maxMessages.toNat) (dir.waitingNames cfg.nodeId) [] dir.files
    (r.1.map fun messages => (.kOk, messages), { dir with files := r.2 })

end ControlDir

/-! ## Runs of all nodes -/

inductive MailboxCall where
  /-- A message of `node`, which the call enters as its source. -/
  | post (node : NodeId) (message : ControlMessage)
  | drain (node : NodeId) (maxMessages : UInt64)

inductive MailboxAnswer where
  | posted (status : Status)
  | drained (status : Status) (messages : List ControlMessage)
  | thrown (error : ParseError)
  deriving DecidableEq

/-- The caller is a node, and what it posts names it as the source. -/
def MailboxCall.Proper : MailboxCall → Prop
  | .post node message => node ≠ kInvalidNodeId ∧ message.sourceNode = node
  | .drain node _ => node ≠ kInvalidNodeId

instance : DecidablePred MailboxCall.Proper
  | .post node message => inferInstanceAs (Decidable (node ≠ kInvalidNodeId ∧ message.sourceNode = node))
  | .drain node _ => inferInstanceAs (Decidable (node ≠ kInvalidNodeId))

def mailboxStep (cfg : ClusterConfig) (dir : ControlDir) : MailboxCall → MailboxAnswer × ControlDir
  | .post node message =>
    let r := dir.postControlMessage (cfg.node node) message
    (.posted r.1, r.2)
  | .drain node maxMessages =>
    match dir.drainControlMessages (cfg.node node) maxMessages with
    | (.ok (status, messages), dir) => (.drained status messages, dir)
    | (.error e, dir) => (.thrown e, dir)

abbrev MailboxEvents := List (MailboxCall × MailboxAnswer)

/-- What `source` has posted to `target`, in order. -/
def postedTo (source target : NodeId) (events : MailboxEvents) : List ControlMessage :=
  events.filterMap fun
    | (.post node message, .posted .kOk) =>
      if node = source ∧ message.targetNode = target then some message else none
    | _ => none

/-- What `node` has drained, in order. -/
def drainedBy (node : NodeId) (events : MailboxEvents) : List ControlMessage :=
  events.flatMap fun
    | (.drain caller _, .drained _ messages) => if caller = node then messages else []
    | _ => []

/-- What `node` has drained of `source`'s messages. -/
def drainedFrom (source node : NodeId) (events : MailboxEvents) : List ControlMessage :=
  (drainedBy node events).filter (·.sourceNode = source)

/-- A reliable queue from each source to each target. -/
structure ReliableFifo (events : MailboxEvents) : Prop where
  /-- A node drains what is addressed to it. -/
  targeted : ∀ node, ∀ message ∈ drainedBy node events, message.targetNode = node
  /-- What it has drained of a source is what that source posted to it first, each message once. -/
  ordered : ∀ source node, drainedFrom source node events <+: postedTo source node events
  /-- A drain stops short of its limit only when nothing is left. -/
  emptied : ∀ before node maxMessages messages after,
    events = before ++ (.drain node maxMessages, .drained .kOk messages) :: after →
    messages.length < max 1 maxMessages.toNat →
    ∀ source, drainedFrom source node (before ++ [(.drain node maxMessages, .drained .kOk messages)]) =
      postedTo source node before
  /-- No drain throws. -/
  returns : ∀ call error, (call, MailboxAnswer.thrown error) ∉ events

/-- No file the call takes sorts before an older one of the same source, and no counter wraps. -/
def InTurn (dir : ControlDir) : MailboxCall → Prop
  | .post node _ => dir.sequence node + 1 ≠ 0
  | .drain node maxMessages =>
    ∀ source older newer,
      controlFileName node source older ∈ dir.waitingNames node →
      controlFileName node source newer ∈ (dir.waitingNames node).take (max 1 maxMessages.toNat) →
      older < newer →
      controlFileName node source older < controlFileName node source newer

/-! ### File names -/

theorem controlFileName_eq (target source : NodeId) (seq : UInt64) :
    controlFileName target source seq =
      "to_".toList ++ (decimal target.toNat ++ '_' :: ("from_".toList ++ (decimal source.toNat ++ '_' ::
        (decimal seq.toNat ++ ".txt".toList)))) := rfl

/-- Numbers are told apart by the separator that follows them. -/
theorem decimal_append_inj {sep : Char} (other : sep.isDigit = false) {m n : Nat} {rest rest' : Text}
    (eq : decimal m ++ sep :: rest = decimal n ++ sep :: rest') : m = n ∧ rest = rest' := by
  have split := congrArg (splitAt sep) eq
  rw [splitAt_append (not_mem_decimal other), splitAt_append (not_mem_decimal other)] at split
  obtain ⟨numbers, rests⟩ := Prod.mk.inj (Option.some.inj split)
  exact ⟨decimal_injective numbers, rests⟩

/-- A name has a node's prefix exactly when it is addressed to the node. -/
theorem prefix_controlFileName_iff {node target source : NodeId} {seq : UInt64} :
    "to_".toList ++ decimal node.toNat ++ "_".toList <+: controlFileName target source seq ↔ node = target := by
  rw [controlFileName_eq]
  constructor
  · rintro ⟨rest, eq⟩
    rw [List.append_assoc, List.append_assoc, List.append_cancel_left_eq] at eq
    exact UInt16.toNat_inj.mp (decimal_append_inj (by decide) eq).1
  · rintro rfl
    refine ⟨"from_".toList ++ (decimal source.toNat ++ '_' :: (decimal seq.toNat ++ ".txt".toList)), ?_⟩
    rw [List.append_assoc, List.append_assoc]
    rfl

theorem controlFileName_inj {target target' source source' : NodeId} {seq seq' : UInt64}
    (eq : controlFileName target source seq = controlFileName target' source' seq') :
    target = target' ∧ source = source' ∧ seq = seq' := by
  rw [controlFileName_eq, controlFileName_eq, List.append_cancel_left_eq] at eq
  obtain ⟨targets, rest⟩ := decimal_append_inj (by decide) eq
  rw [List.append_cancel_left_eq] at rest
  obtain ⟨sources, rest⟩ := decimal_append_inj (by decide) rest
  have numbers : decimal seq.toNat ++ '.' :: "txt".toList = decimal seq'.toNat ++ '.' :: "txt".toList := rest
  exact ⟨UInt16.toNat_inj.mp targets, UInt16.toNat_inj.mp sources,
    UInt64.toNat_inj.mp (decimal_append_inj (by decide) numbers).1⟩

/-- Counters of equally many digits sort as numbers. -/
theorem controlFileName_lt {target source : NodeId} {older newer : UInt64}
    (length : (decimal older.toNat).length = (decimal newer.toNat).length) (lt : older < newer) :
    controlFileName target source older < controlFileName target source newer := by
  rw [controlFileName_eq, controlFileName_eq]
  refine List.append_left_lt (List.append_left_lt (List.cons_lt_cons_iff.mpr (.inr ⟨rfl, ?_⟩)))
  refine List.append_left_lt (List.append_left_lt (List.cons_lt_cons_iff.mpr (.inr ⟨rfl, ?_⟩)))
  exact decimal_lt_of_length length (UInt64.lt_iff_toNat_lt.mp lt) _

/-! ### The directory as queues -/

/-- The messages on their way from each source to each target, with their numbers. -/
abbrev MailQueues := NodeId → NodeId → List (UInt64 × ControlMessage)

/-- The files are those of the queues, numbered upwards. -/
structure Mirrors (dir : ControlDir) (queues : MailQueues) : Prop where
  file : ∀ name content, dir.files.lookup name = some content ↔
    ∃ source target, ∃ e ∈ queues source target,
      name = controlFileName target source e.1 ∧ content = formatControlMessage e.2
  ends : ∀ source target, ∀ e ∈ queues source target,
    e.2.sourceNode = source ∧ e.2.targetNode = target ∧ e.2.Addressed
  rising : ∀ source target, (queues source target).Pairwise (·.1 < ·.1)
  counted : ∀ source target, ∀ e ∈ queues source target, e.1 ≤ dir.sequence source

theorem mirrors_init : Mirrors {} fun _ _ => [] where
  file := by simp
  ends := by simp
  rising := by simp
  counted := by simp

/-- A message at the end of its queue. -/
def MailQueues.push (queues : MailQueues) (seq : UInt64) (message : ControlMessage) : MailQueues := fun source target =>
  if source = message.sourceNode ∧ target = message.targetNode then queues source target ++ [(seq, message)]
  else queues source target

theorem MailQueues.mem_push {queues : MailQueues} {seq : UInt64} {message : ControlMessage} {source target : NodeId}
    {e : UInt64 × ControlMessage} :
    e ∈ queues.push seq message source target ↔ e ∈ queues source target ∨
      (source = message.sourceNode ∧ target = message.targetNode) ∧ e = (seq, message) := by
  unfold push
  split <;> simp_all

theorem lt_succ_of_le {a b : UInt64} (le : a ≤ b) (unwrapped : b + 1 ≠ 0) : a < b + 1 := by
  have bound := b.toNat_lt
  have nonzero : (b + 1).toNat ≠ 0 := fun zero => unwrapped (UInt64.toNat_inj.mp zero)
  rw [UInt64.le_iff_toNat_le] at le
  rw [UInt64.toNat_add] at nonzero
  rw [UInt64.lt_iff_toNat_lt, UInt64.toNat_add]
  simp only [UInt64.reduceToNat] at nonzero ⊢
  omega

/-- A new file has a name of its own and the largest number of its source. -/
theorem Mirrors.post {dir : ControlDir} {queues : MailQueues} (mirrors : Mirrors dir queues) (cfg : Config)
    {message : ControlMessage} (own : message.sourceNode = cfg.nodeId) (addressed : message.Addressed)
    (unwrapped : dir.sequence cfg.nodeId + 1 ≠ 0) :
    Mirrors (dir.writeControlMessageFile cfg message).2 (queues.push (dir.sequence cfg.nodeId + 1) message) := by
  have newest (target : NodeId) (e : UInt64 × ControlMessage) (member : e ∈ queues cfg.nodeId target) :
      e.1 < dir.sequence cfg.nodeId + 1 := lt_succ_of_le (mirrors.counted _ _ e member) unwrapped
  refine ⟨fun name content => ?_, fun source target e member => ?_, fun source target => ?_,
    fun source target e member => ?_⟩
  · simp only [ControlDir.writeControlMessageFile, HashMap.lookup_insert_if, MailQueues.mem_push]
    split
    · rename_i here
      subst here
      constructor
      · rintro ⟨⟩
        exact ⟨_, _, _, .inr ⟨⟨rfl, rfl⟩, rfl⟩, rfl, rfl⟩
      · rintro ⟨source, target, e, member | ⟨⟨rfl, rfl⟩, rfl⟩, name, rfl⟩
        · obtain ⟨rfl, rfl, number⟩ := controlFileName_inj name
          rw [own] at member
          exact absurd number (UInt64.ne_of_lt (newest _ e member)).symm
        · rfl
    · rename_i elsewhere
      rw [mirrors.file]
      constructor
      · rintro ⟨source, target, e, member, name, content⟩
        exact ⟨source, target, e, .inl member, name, content⟩
      · rintro ⟨source, target, e, member | ⟨⟨rfl, rfl⟩, rfl⟩, name, content⟩
        · exact ⟨source, target, e, member, name, content⟩
        · exact absurd name elsewhere
  · rcases MailQueues.mem_push.mp member with old | ⟨⟨rfl, rfl⟩, rfl⟩
    · exact mirrors.ends source target e old
    · exact ⟨rfl, rfl, addressed⟩
  · unfold MailQueues.push
    split
    · rename_i here
      refine List.pairwise_append.mpr ⟨mirrors.rising source target, List.pairwise_singleton _ _, ?_⟩
      intro e member last lastMember
      rw [List.mem_singleton.mp lastMember]
      exact newest target e (own ▸ here.1 ▸ member)
    · exact mirrors.rising source target
  · simp only [ControlDir.writeControlMessageFile]
    rcases MailQueues.mem_push.mp member with old | ⟨⟨rfl, rfl⟩, rfl⟩
    · by_cases same : source = cfg.nodeId
      · subst same
        rw [Function.update_self]
        exact UInt64.le_of_lt (newest target e old)
      · rw [Function.update_of_ne same]
        exact mirrors.counted source target e old
    · rw [own, Function.update_self]
      exact UInt64.le_refl _

/-! ### Draining -/

/-- The message in a file, where there is one. -/
def fileMessage (files : HashMap Text Text) (name : Text) : Option ControlMessage := do
  let content ← files.lookup name
  (← (parseControlMessage content).toOption)

/-- The files without the named ones. -/
def removeFiles (names : List Text) (files : HashMap Text Text) : HashMap Text Text :=
  names.foldl (fun files name => files.erase name) files

theorem lookup_removeFiles (names : List Text) (files : HashMap Text Text) (name : Text) :
    (removeFiles names files).lookup name = if name ∈ names then none else files.lookup name := by
  induction names generalizing files with
  | nil => rfl
  | cons first names ih =>
    rw [removeFiles, List.foldl_cons, ← removeFiles, ih, HashMap.lookup_erase_if]
    by_cases here : name = first <;> simp [here]

/-- Where every file holds a message, the loop takes the first ones up to the limit. -/
theorem drainLoop_eq {limit : Nat} {message : Text → ControlMessage} {names : List Text} {files : HashMap Text Text}
    (nodup : names.Nodup) (readable : ∀ name ∈ names, fileMessage files name = some (message name))
    {messages : List ControlMessage} (room : messages.length ≤ limit) :
    ControlDir.drainLoop limit names messages files =
      (.ok (messages ++ (names.take (limit - messages.length)).map message),
        removeFiles (names.take (limit - messages.length)) files) := by
  induction names generalizing messages files with
  | nil => simp [ControlDir.drainLoop, removeFiles]
  | cons name names ih =>
    obtain ⟨fresh, nodup⟩ := List.nodup_cons.mp nodup
    obtain ⟨head, tail⟩ := List.forall_mem_cons.mp readable
    rw [ControlDir.drainLoop]
    split
    · rename_i full
      have none : limit - messages.length = 0 := by omega
      simp [none, removeFiles]
    · rename_i more
      -- erasing this file leaves the others readable
      have others : ∀ other ∈ names, fileMessage (files.erase name) other = some (message other) := by
        intro other member
        have apart : other ≠ name := fun same => fresh (same ▸ member)
        rw [← tail other member, fileMessage, fileMessage, HashMap.lookup_erase_if, if_neg apart]
      have next := ih nodup others (show (messages ++ [message name]).length ≤ limit by simp; omega)
      have count : limit - messages.length = limit - (messages ++ [message name]).length + 1 := by simp; omega
      simp only [fileMessage] at head
      split
      · simp_all
      · rename_i content found
        rw [found] at head
        split
        · simp_all [Except.toOption]
        · simp_all [Except.toOption]
        · rename_i msg parsed
          obtain rfl : msg = message name := by simpa [parsed, Except.toOption] using head
          rw [next, count, List.take_succ_cons]
          simp [removeFiles]

section
variable {dir : ControlDir} {queues : MailQueues}

variable {maxMessages : UInt64} {node : NodeId}

theorem Mirrors.mem_waitingNames (mirrors : Mirrors dir queues) {name : Text} :
    name ∈ dir.waitingNames node ↔ ∃ source, ∃ e ∈ queues source node, name = controlFileName node source e.1 := by
  rw [ControlDir.waitingNames, (List.perm_insertionSort _ _).mem_iff, List.mem_filter, List.isPrefixOf_iff_prefix]
  constructor
  · rintro ⟨key, addressed⟩
    obtain ⟨content, found⟩ := Option.isSome_iff_exists.mp (AList.lookup_isSome.mpr (AList.mem_keys.mpr key))
    obtain ⟨source, target, e, member, rfl, -⟩ := (mirrors.file name content).mp found
    obtain rfl := prefix_controlFileName_iff.mp addressed
    exact ⟨source, e, member, rfl⟩
  · rintro ⟨source, e, member, rfl⟩
    have found := (mirrors.file _ _).mpr ⟨source, node, e, member, rfl, rfl⟩
    exact ⟨AList.mem_keys.mp (AList.lookup_isSome.mp (Option.isSome_of_eq_some found)),
      prefix_controlFileName_iff.mpr rfl⟩

theorem sorted_waitingNames (dir : ControlDir) (node : NodeId) : (dir.waitingNames node).Pairwise (· < ·) := by
  have nodup : (dir.waitingNames node).Nodup :=
    (List.perm_insertionSort _ _).nodup_iff.mpr (dir.files.keys_nodup.filter _)
  exact ((List.pairwise_insertionSort _ _).and nodup).imp fun order => lt_of_le_of_ne order.1 order.2

theorem Mirrors.fileMessage_eq (mirrors : Mirrors dir queues) {source target : NodeId} {e : UInt64 × ControlMessage}
    (member : e ∈ queues source target) :
    fileMessage dir.files (controlFileName target source e.1) = some e.2 := by
  have found := (mirrors.file _ _).mpr ⟨source, target, e, member, rfl, rfl⟩
  have parsed := parseControlMessage_format (mirrors.ends source target e member).2.2
  simp [fileMessage, found, parsed, Except.toOption]

/-- The names a drain with this limit takes. -/
def takenNames (dir : ControlDir) (node : NodeId) (limit : Nat) : List Text := (dir.waitingNames node).take limit

/-- The entries of a queue whose files are taken. -/
def takenFrom (queues : MailQueues) (names : List Text) (source node : NodeId) : List (UInt64 × ControlMessage) :=
  (queues source node).filter fun e => decide (controlFileName node source e.1 ∈ names)

/-- The queues without the taken files of `node`. -/
def MailQueues.remove (queues : MailQueues) (names : List Text) (node : NodeId) : MailQueues := fun source target =>
  if target = node then (queues source target).filter fun e => !decide (controlFileName target source e.1 ∈ names)
  else queues source target

def nameMessage (dir : ControlDir) (name : Text) : ControlMessage := (fileMessage dir.files name).getD {}

theorem Mirrors.nameMessage_eq (mirrors : Mirrors dir queues) {source target : NodeId} {e : UInt64 × ControlMessage}
    (member : e ∈ queues source target) : nameMessage dir (controlFileName target source e.1) = e.2 := by
  rw [nameMessage, mirrors.fileMessage_eq member]
  rfl

theorem Mirrors.drainControlMessages_eq (mirrors : Mirrors dir queues) {cfg : Config}
    (enabled : cfg.rdmaEnableControlPath = true) (maxMessages : UInt64) :
    dir.drainControlMessages cfg maxMessages =
      (.ok (.kOk, (takenNames dir cfg.nodeId (max 1 maxMessages.toNat)).map (nameMessage dir)),
        { dir with files := removeFiles (takenNames dir cfg.nodeId (max 1 maxMessages.toNat)) dir.files }) := by
  have nodup : (dir.waitingNames cfg.nodeId).Nodup := (sorted_waitingNames dir cfg.nodeId).imp ne_of_lt
  have readable : ∀ name ∈ dir.waitingNames cfg.nodeId, fileMessage dir.files name = some (nameMessage dir name) := by
    intro name member
    obtain ⟨source, e, queued, rfl⟩ := mirrors.mem_waitingNames.mp member
    rw [mirrors.nameMessage_eq queued, mirrors.fileMessage_eq queued]
  simp [ControlDir.drainControlMessages, enabled, drainLoop_eq nodup readable, takenNames, Except.map]

/-- What a drain that keeps the turns takes from a queue is its front. -/
theorem Mirrors.takenFrom_append (mirrors : Mirrors dir queues) (turn : InTurn dir (.drain node maxMessages))
    (source : NodeId) :
    takenFrom queues (takenNames dir node (max 1 maxMessages.toNat)) source node ++
      queues.remove (takenNames dir node (max 1 maxMessages.toNat)) node source node = queues source node := by
  rw [MailQueues.remove, if_pos rfl]
  refine filter_append_filter_not ((mirrors.rising source node).imp_of_mem ?_)
  intro older newer olderQueued newerQueued lt taken
  have waits := mirrors.mem_waitingNames.mpr ⟨source, older, olderQueued, rfl⟩
  have taken := of_decide_eq_true taken
  exact decide_eq_true (mem_take_of_lt (sorted_waitingNames dir node) waits taken (turn _ _ _ waits taken lt))

/-- The names taken from one source, in the order they are taken. -/
theorem Mirrors.takenNames_filter (mirrors : Mirrors dir queues) (turn : InTurn dir (.drain node maxMessages))
    (source : NodeId) :
    (takenNames dir node (max 1 maxMessages.toNat)).filter (fun name => (nameMessage dir name).sourceNode = source) =
      (takenFrom queues (takenNames dir node (max 1 maxMessages.toNat)) source node).map
        fun e => controlFileName node source e.1 := by
  have sorted := (sorted_waitingNames dir node).sublist (List.take_sublist (max 1 maxMessages.toNat) _)
  have left := sorted.filter fun name => (nameMessage dir name).sourceNode = source
  have right : ((takenFrom queues (takenNames dir node (max 1 maxMessages.toNat)) source node).map
      fun e => controlFileName node source e.1).Pairwise (· < ·) := by
    refine List.pairwise_map.mpr (((mirrors.rising source node).filter _).imp_of_mem ?_)
    intro older newer olderTaken newerTaken lt
    obtain ⟨olderQueued, -⟩ := List.mem_filter.mp olderTaken
    obtain ⟨-, taken⟩ := List.mem_filter.mp newerTaken
    exact turn _ _ _ (mirrors.mem_waitingNames.mpr ⟨source, older, olderQueued, rfl⟩) (of_decide_eq_true taken) lt
  have members (name : Text) :
      name ∈ (takenNames dir node (max 1 maxMessages.toNat)).filter
          (fun name => (nameMessage dir name).sourceNode = source) ↔
        name ∈ (takenFrom queues (takenNames dir node (max 1 maxMessages.toNat)) source node).map
          fun e => controlFileName node source e.1 := by
    simp only [List.mem_filter, List.mem_map, takenFrom, decide_eq_true_eq]
    constructor
    · rintro ⟨taken, from_⟩
      obtain ⟨origin, e, queued, rfl⟩ := mirrors.mem_waitingNames.mp (List.mem_of_mem_take taken)
      rw [mirrors.nameMessage_eq queued, (mirrors.ends _ _ _ queued).1] at from_
      subst from_
      exact ⟨e, ⟨queued, taken⟩, rfl⟩
    · rintro ⟨e, ⟨queued, taken⟩, rfl⟩
      refine ⟨taken, ?_⟩
      rw [mirrors.nameMessage_eq queued, (mirrors.ends _ _ _ queued).1]
  refine List.Perm.eq_of_pairwise' (r := (· ≤ ·)) (left.imp le_of_lt) (right.imp le_of_lt) ?_
  exact (List.perm_ext_iff_of_nodup (left.imp ne_of_lt) (right.imp ne_of_lt)).mpr members

/-- The messages of one source that a drain returns are those at the front of its queue. -/
theorem Mirrors.drained_filter (mirrors : Mirrors dir queues) (turn : InTurn dir (.drain node maxMessages))
    (source : NodeId) :
    ((takenNames dir node (max 1 maxMessages.toNat)).map (nameMessage dir)).filter (·.sourceNode = source) =
      (takenFrom queues (takenNames dir node (max 1 maxMessages.toNat)) source node).map (·.2) := by
  rw [List.filter_map]
  simp only [Function.comp_def]
  rw [mirrors.takenNames_filter turn source, List.map_map]
  refine List.map_congr_left fun e member => ?_
  exact mirrors.nameMessage_eq (List.mem_filter.mp member).1

theorem Mirrors.drain (mirrors : Mirrors dir queues) (node : NodeId) (limit : Nat) :
    Mirrors { dir with files := removeFiles (takenNames dir node limit) dir.files }
      (queues.remove (takenNames dir node limit) node) := by
  have mem {source target : NodeId} {e : UInt64 × ControlMessage} :
      e ∈ queues.remove (takenNames dir node limit) node source target ↔
        e ∈ queues source target ∧ controlFileName target source e.1 ∉ takenNames dir node limit := by
    unfold MailQueues.remove
    split
    · simp
    · rename_i other
      refine ⟨fun member => ⟨member, fun taken => ?_⟩, And.left⟩
      obtain ⟨origin, e', _, same⟩ := mirrors.mem_waitingNames.mp (List.mem_of_mem_take taken)
      exact other (controlFileName_inj same).1
  refine ⟨fun name content => ?_, fun source target e member => mirrors.ends _ _ e (mem.mp member).1,
    fun source target => ?_, fun source target e member => mirrors.counted _ _ e (mem.mp member).1⟩
  · rw [lookup_removeFiles]
    simp only [mem]
    split
    · rename_i taken
      simp only [reduceCtorEq, false_iff]
      rintro ⟨source, target, e, ⟨_, kept⟩, rfl, _⟩
      exact kept taken
    · rename_i kept
      rw [mirrors.file]
      constructor
      · rintro ⟨source, target, e, member, rfl, content⟩
        exact ⟨source, target, e, ⟨member, kept⟩, rfl, content⟩
      · rintro ⟨source, target, e, ⟨member, _⟩, name, content⟩
        exact ⟨source, target, e, member, name, content⟩
  · unfold MailQueues.remove
    split
    · exact (mirrors.rising source target).filter _
    · exact mirrors.rising source target

end

/-! ### Histories -/

/-- The history and the directory: what was posted and not yet drained waits in the queues. -/
structure MailHistory (events : MailboxEvents) (dir : ControlDir) (queues : MailQueues) : Prop where
  mirrors : Mirrors dir queues
  balance : ∀ source node,
    drainedFrom source node events ++ (queues source node).map (·.2) = postedTo source node events
  fifo : ReliableFifo events

section
variable {events : MailboxEvents} {dir : ControlDir} {queues : MailQueues}

variable {call : MailboxCall}

theorem ReliableFifo.snoc (fifo : ReliableFifo events) {answer : MailboxAnswer}
    (targeted : ∀ node, ∀ message ∈ drainedBy node [(call, answer)], message.targetNode = node) (ordered : ∀ source node,
      drainedFrom source node (events ++ [(call, answer)]) <+: postedTo source node (events ++ [(call, answer)]))
    (emptied : ∀ node maxMessages messages, call = .drain node maxMessages → answer = .drained .kOk messages →
      messages.length < max 1 maxMessages.toNat →
      ∀ source, drainedFrom source node (events ++ [(call, answer)]) = postedTo source node events)
    (returns : ∀ error, answer ≠ .thrown error) : ReliableFifo (events ++ [(call, answer)]) := by
  refine ⟨fun node message member => ?_, ordered, ?_, fun call' error member => ?_⟩
  · rw [drainedBy, List.flatMap_append, List.mem_append] at member
    exact member.elim (fifo.targeted node message) (targeted node message)
  · intro before node maxMessages messages after split short source
    rcases List.eq_nil_or_concat after with rfl | ⟨rest, last, rfl⟩
    · obtain ⟨rfl, same⟩ := List.append_inj' split rfl
      obtain ⟨rfl, rfl⟩ := Prod.mk.inj (List.cons.inj same).1
      exact emptied node maxMessages messages rfl rfl short source
    · rw [List.concat_eq_append, ← List.cons_append, ← List.append_assoc] at split
      obtain ⟨earlier, -⟩ := List.append_inj' split rfl
      exact fifo.emptied before node maxMessages messages rest earlier short source
  · rcases List.mem_append.mp member with old | new
    · exact fifo.returns call' error old
    · simp only [List.mem_singleton, Prod.mk.injEq] at new
      exact returns error new.2.symm

/-- A call that neither posts nor drains anything changes nothing. -/
theorem MailHistory.refused (history : MailHistory events dir queues) {answer : MailboxAnswer}
    (posts : ∀ source node, postedTo source node [(call, answer)] = [])
    (drains : ∀ node, drainedBy node [(call, answer)] = []) (failed : ∀ messages, answer ≠ .drained .kOk messages)
    (returns : ∀ error, answer ≠ .thrown error) : MailHistory (events ++ [(call, answer)]) dir queues := by
  have posted (source node : NodeId) : postedTo source node (events ++ [(call, answer)]) = postedTo source node events := by
    rw [postedTo, List.filterMap_append, ← postedTo, ← postedTo, posts, List.append_nil]
  have drained (source node : NodeId) :
      drainedFrom source node (events ++ [(call, answer)]) = drainedFrom source node events := by
    rw [drainedFrom, drainedBy, List.flatMap_append, ← drainedBy, ← drainedBy, drains, List.append_nil, drainedFrom]
  refine ⟨history.mirrors, fun source node => ?_, history.fifo.snoc ?_ ?_ ?_ returns⟩
  · rw [posted, drained, history.balance]
  · simp [drains]
  · intro source node
    rw [posted, drained]
    exact history.fifo.ordered source node
  · intro node maxMessages messages _ ok
    exact absurd ok (failed messages)

theorem connected_ne_invalid {config : Config} {node : NodeId} (connected : PeerTransport.connected config node = true) :
    node ≠ kInvalidNodeId := by
  rintro rfl
  simp only [PeerTransport.connected, Bool.and_eq_true, decide_eq_true_eq, UInt16.lt_iff_toNat_lt] at connected
  have bound := config.nrNodes.toNat_lt
  have top : kInvalidNodeId.toNat = 65535 := rfl
  omega

theorem mem_takenNames_of_short (mirrors : Mirrors dir queues) {node source : NodeId} {limit : Nat}
    (short : (takenNames dir node limit).length < limit) {e : UInt64 × ControlMessage}
    (queued : e ∈ queues source node) : controlFileName node source e.1 ∈ takenNames dir node limit := by
  have all : takenNames dir node limit = dir.waitingNames node := by
    refine List.take_of_length_le ?_
    simp only [takenNames, List.length_take] at short
    omega
  rw [all]
  exact mirrors.mem_waitingNames.mpr ⟨source, e, queued, rfl⟩

/-- A drain that keeps the turns moves the fronts of its queues into the history. -/
theorem MailHistory.drain (history : MailHistory events dir queues) {node : NodeId} {maxMessages : UInt64}
    (turn : InTurn dir (.drain node maxMessages)) {names : List Text}
    (taken : names = takenNames dir node (max 1 maxMessages.toNat)) :
    MailHistory (events ++ [(.drain node maxMessages, .drained .kOk (names.map (nameMessage dir)))])
      { dir with files := removeFiles names dir.files } (queues.remove names node) := by
  subst taken
  have mirrors := history.mirrors
  have balance (source target : NodeId) :
      drainedFrom source target (events ++ [(.drain node maxMessages,
            .drained .kOk ((takenNames dir node (max 1 maxMessages.toNat)).map (nameMessage dir)))]) ++
          (queues.remove (takenNames dir node (max 1 maxMessages.toNat)) node source target).map (·.2) =
        postedTo source target events := by
    rw [← history.balance source target, drainedFrom, drainedBy, List.flatMap_append, ← drainedBy, List.filter_append,
      ← drainedFrom, List.append_assoc]
    congr 1
    by_cases here : target = node
    · subst here
      rw [← mirrors.takenFrom_append turn source, List.map_append, ← mirrors.drained_filter turn source]
      simp
    · simp [Ne.symm here, MailQueues.remove, here]
  have posted (source target : NodeId) (messages : List ControlMessage) :
      postedTo source target (events ++ [(.drain node maxMessages, .drained .kOk messages)]) =
        postedTo source target events := by simp [postedTo]
  refine ⟨mirrors.drain node _, fun source target => ?_, history.fifo.snoc ?_ (fun source target => ?_) ?_ (by simp)⟩
  · rw [posted, balance]
  · intro target message member
    simp only [drainedBy, List.flatMap_cons, List.flatMap_nil, List.append_nil] at member
    split at member
    · rename_i here
      obtain ⟨name, taken, rfl⟩ := List.mem_map.mp member
      obtain ⟨source, e, queued, rfl⟩ := mirrors.mem_waitingNames.mp (List.mem_of_mem_take taken)
      rw [mirrors.nameMessage_eq queued, (mirrors.ends _ _ _ queued).2.1, here]
    · simp at member
  · rw [posted]
    exact ⟨_, balance source target⟩
  · rintro _ _ messages ⟨⟩ ⟨⟩ short source
    rw [List.length_map] at short
    have none : queues.remove (takenNames dir node (max 1 maxMessages.toNat)) node source node = [] := by
      rw [MailQueues.remove, if_pos rfl, List.filter_eq_nil_iff]
      intro e queued
      simp [mem_takenNames_of_short mirrors short queued]
    have rest := balance source node
    rw [none] at rest
    simpa using rest

theorem MailHistory.step (history : MailHistory events dir queues) (cfg : ClusterConfig) (proper : call.Proper)
    (turn : InTurn dir call) :
    ∃ queues', MailHistory (events ++ [(call, (mailboxStep cfg dir call).1)]) (mailboxStep cfg dir call).2 queues' := by
  cases call with
  | post node message =>
    obtain ⟨isNode, own⟩ := proper
    simp only [mailboxStep, ControlDir.postControlMessage]
    split
    · exact ⟨queues, history.refused (by simp [postedTo]) (by simp [drainedBy]) (by simp) (by simp)⟩
    split
    · exact ⟨queues, history.refused (by simp [postedTo]) (by simp [drainedBy]) (by simp) (by simp)⟩
    rename_i reachable
    have addressed : message.Addressed :=
      ⟨own ▸ isNode, connected_ne_invalid (by simpa using reachable)⟩
    have mirrors := history.mirrors.post (cfg.node node) (own.trans (cfg.own node).symm) addressed
      (by rw [cfg.own]; exact turn)
    have balance (source target : NodeId) :
        drainedFrom source target (events ++ [(.post node message, .posted .kOk)]) ++
            (queues.push (dir.sequence (cfg.node node).nodeId + 1) message source target).map (·.2) =
          postedTo source target (events ++ [(.post node message, .posted .kOk)]) := by
      have drained : drainedFrom source target (events ++ [(.post node message, .posted .kOk)]) =
          drainedFrom source target events := by simp [drainedFrom, drainedBy]
      rw [drained, postedTo, List.filterMap_append, ← postedTo, ← history.balance source target, List.append_assoc]
      congr 1
      simp only [MailQueues.push, own, eq_comm (a := source), eq_comm (a := target)]
      by_cases here : node = source ∧ message.targetNode = target <;> simp [here]
    refine ⟨_, mirrors, balance, history.fifo.snoc (by simp [drainedBy]) (fun source target => ?_) (by simp)
      (by simp [ControlDir.writeControlMessageFile])⟩
    exact ⟨_, balance source target⟩
  | drain node maxMessages =>
    simp only [mailboxStep]
    cases enabled : (cfg.node node).rdmaEnableControlPath with
    | false =>
      rw [ControlDir.drainControlMessages, if_pos enabled]
      exact ⟨queues, history.refused (by simp [postedTo]) (by simp [drainedBy]) (by simp) (by simp)⟩
    | true =>
      rw [history.mirrors.drainControlMessages_eq enabled]
      exact ⟨_, history.drain turn (by rw [cfg.own])⟩

theorem mailHistory_init : MailHistory [] {} fun _ _ => [] where
  mirrors := mirrors_init
  balance := by simp [drainedFrom, drainedBy, postedTo]
  fifo := ⟨by simp [drainedBy], by simp [drainedFrom, drainedBy], by simp, by simp⟩

end

/-- As long as every drain takes the files in turn, the mailbox is a reliable queue from
each source to each target. -/
theorem mailbox_fifo (cfg : ClusterConfig) (calls : List MailboxCall) (proper : ∀ call ∈ calls, call.Proper)
    (turns : Along (mailboxStep cfg) InTurn {} calls) : ReliableFifo (trace (mailboxStep cfg) {} calls) := by
  have guarded : Along (mailboxStep cfg) (fun dir call => call.Proper ∧ InTurn dir call) {} calls :=
    (along_of_inputs proper _).and turns
  obtain ⟨queues, history⟩ := trace_invariant (J := fun events dir => ∃ queues, MailHistory events dir queues)
    (fun events dir call guard ⟨queues, history⟩ => history.step cfg guard.1 guard.2) guarded
    ⟨fun _ _ => [], mailHistory_init⟩
  exact history.fifo

/-- Counters of equally many digits keep the turns. -/
theorem Mirrors.inTurn_of_length {dir : ControlDir} {queues : MailQueues} (mirrors : Mirrors dir queues)
    {node : NodeId} {maxMessages : UInt64}
    (same : ∀ source, ∀ e ∈ queues source node, ∀ e' ∈ queues source node,
      (decimal e.1.toNat).length = (decimal e'.1.toNat).length) : InTurn dir (.drain node maxMessages) := by
  intro source older newer olderWaits newerTaken lt
  obtain ⟨source', e, queued, name⟩ := mirrors.mem_waitingNames.mp olderWaits
  obtain ⟨source'', e', queued', name'⟩ := mirrors.mem_waitingNames.mp (List.mem_of_mem_take newerTaken)
  obtain ⟨-, rfl, rfl⟩ := controlFileName_inj name
  obtain ⟨-, rfl, rfl⟩ := controlFileName_inj name'
  exact controlFileName_lt (same _ e queued e' queued') lt

theorem sequence_mailboxStep (cfg : ClusterConfig) (dir : ControlDir) (call : MailboxCall) (source : NodeId) :
    ((mailboxStep cfg dir call).2.sequence source).toNat ≤ (dir.sequence source).toNat + 1 := by
  cases call with
  | post node message =>
    simp only [mailboxStep, ControlDir.postControlMessage]
    split
    · exact Nat.le_succ _
    split
    · exact Nat.le_succ _
    simp only [ControlDir.writeControlMessageFile, Function.update_apply]
    split
    · rename_i here
      rw [← here, UInt64.toNat_add]
      exact Nat.mod_le _ _
    · exact Nat.le_succ _
  | drain node maxMessages =>
    have kept : ((dir.drainControlMessages (cfg.node node) maxMessages).2).sequence = dir.sequence := by
      unfold ControlDir.drainControlMessages
      split <;> rfl
    have result : (mailboxStep cfg dir (.drain node maxMessages)).2 =
        (dir.drainControlMessages (cfg.node node) maxMessages).2 := by
      simp only [mailboxStep]
      split <;> simp_all
    rw [result, kept]
    exact Nat.le_succ _

/-- Runs of fewer than ten calls keep the turns. -/
theorem MailHistory.inTurn_of_few {cfg : ClusterConfig} {events : MailboxEvents} {dir : ControlDir}
    {queues : MailQueues} (history : MailHistory events dir queues) {calls : List MailboxCall}
    (few : ∀ source, (dir.sequence source).toNat + calls.length < 10) (proper : ∀ call ∈ calls, call.Proper) :
    Along (mailboxStep cfg) InTurn dir calls := by
  induction calls generalizing events dir queues with
  | nil => trivial
  | cons call calls ih =>
    have oneDigit (source target : NodeId) (e : UInt64 × ControlMessage) (queued : e ∈ queues source target) :
        (decimal e.1.toNat).length = 1 := by
      have counted := UInt64.le_iff_toNat_le.mp (history.mirrors.counted source target e queued)
      have small := few source
      rw [decimal, Nat.toDigits_of_lt_base (by omega), List.length_singleton]
    have turn : InTurn dir call := by
      cases call with
      | post node message =>
        intro wrapped
        have small := few node
        have zero := congrArg UInt64.toNat wrapped
        rw [UInt64.toNat_add] at zero
        simp only [UInt64.reduceToNat] at zero
        omega
      | drain node maxMessages =>
        refine history.mirrors.inTurn_of_length fun source e queued e' queued' => ?_
        rw [oneDigit _ _ e queued, oneDigit _ _ e' queued']
    obtain ⟨queues', next⟩ := history.step cfg (proper call List.mem_cons_self) turn
    refine ⟨turn, ih next (fun source => ?_) fun other member => proper other (List.mem_cons_of_mem _ member)⟩
    have grown := sequence_mailboxStep cfg dir call source
    have small := few source
    rw [List.length_cons] at small
    omega

/-- Three nodes with their own ids. -/
def mailCluster : ClusterConfig := ⟨fun n => { nodeId := n, nrNodes := 3 }, fun _ => rfl⟩

/-- An invalidation of `source` for `target` under a request id. -/
def mailMessage (source target : NodeId) (requestId : UInt64) : ControlMessage :=
  { sourceNode := source, targetNode := target, requestId := requestId }

/-- Two sources post to one node, which drains one message and then the rest. -/
def threeMessages : List MailboxCall :=
  [.post 0 (mailMessage 0 2 1), .post 0 (mailMessage 0 2 2), .post 1 (mailMessage 1 2 1), .drain 2 1, .drain 2 64]

theorem threeMessages_fifo :
    ReliableFifo (trace (mailboxStep mailCluster) {} threeMessages) ∧
    drainedBy 2 (trace (mailboxStep mailCluster) {} threeMessages) =
      [mailMessage 0 2 1, mailMessage 0 2 2, mailMessage 1 2 1] := by
  have proper : ∀ call ∈ threeMessages, call.Proper := by decide
  refine ⟨mailbox_fifo mailCluster threeMessages proper ?_, by decide +kernel⟩
  exact mailHistory_init.inTurn_of_few (by simp [threeMessages]) proper

/-- One node posts ten messages to another, which then drains two. -/
def tenMessages : List MailboxCall :=
  ((List.range 10).map fun k => .post 0 (mailMessage 0 1 (UInt64.ofNat (k + 1)))) ++ [.drain 1 2]

/-- The tenth message overtakes the second: `to_1_from_0_10.txt` sorts before `to_1_from_0_2.txt`. -/
theorem tenMessages_overtaken :
    (∀ call ∈ tenMessages, call.Proper) ∧
    drainedBy 1 (trace (mailboxStep mailCluster) {} tenMessages) = [mailMessage 0 1 1, mailMessage 0 1 10] ∧
    ¬ReliableFifo (trace (mailboxStep mailCluster) {} tenMessages) := by
  refine ⟨by decide, by decide +kernel, fun fifo => ?_⟩
  exact absurd (fifo.ordered 0 1) (by decide +kernel)

end LeoMem
