import LeoMem.Api.Simulate
import LeoMem.Lib.Run

/-!
# Transports with extra state

A proof may follow a run with more state in the transport than the program has, such as
where each message came from. `TransportHom f` says that forgetting it with `f` commutes
with every operation of the transport. The two transports then simulate each other
whatever a call drains and posts (`TransportHom.sim`), so forgetting commutes with every
call of the API (`exec_map`): the extra state changes no answer and no other part of the
node.
-/

namespace LeoMem
open Lib RuntimeContext

/-- `f` commutes with the operations of the two transports. -/
structure TransportHom {ω ω' : Type} [Transport ω] [Transport ω'] (f : ω → ω') : Prop where
  read : ∀ cfg d addr size w, Transport.read cfg d addr size (f w) =
    ((Transport.read cfg d addr size w).1, f (Transport.read cfg d addr size w).2)
  write : ∀ cfg d addr buf w, Transport.write cfg d addr buf (f w) =
    ((Transport.write cfg d addr buf w).1, f (Transport.write cfg d addr buf w).2)
  batchWrite : ∀ cfg d requests w, Transport.batchWrite cfg d requests (f w) =
    ((Transport.batchWrite cfg d requests w).1, f (Transport.batchWrite cfg d requests w).2)
  fence : ∀ cfg w, Transport.fence cfg (f w) = ((Transport.fence cfg w).1, f (Transport.fence cfg w).2)
  post : ∀ cfg msg w, Transport.postControlMessage cfg msg (f w) =
    ((Transport.postControlMessage cfg msg w).1, f (Transport.postControlMessage cfg msg w).2)
  drain : ∀ cfg n w, Transport.drainControlMessages cfg n (f w) =
    ((Transport.drainControlMessages cfg n w).1, f (Transport.drainControlMessages cfg n w).2)

section
variable {ω ω' : Type} {f : ω → ω'}

/-- A node over the image of its transport. -/
def mapTransport (f : ω → ω') (ctx : RuntimeContext ω) : RuntimeContext ω' := ctx.withTransport (f ctx.transport)

/-- The image of what a call gives. -/
abbrev mapResult {ρ : Type} (f : ω → ω') (r : ρ × RuntimeContext ω) : ρ × RuntimeContext ω' := (r.1, mapTransport f r.2)

/-- Both nodes take the same branch. -/
theorem map_ite {ρ : Type} {c : Prop} [Decidable c] {a b : ρ × RuntimeContext ω} {a' b' : ρ × RuntimeContext ω'}
    (yes : c → mapResult f a = a') (no : ¬c → mapResult f b = b') :
    mapResult f (if c then a else b) = if c then a' else b' := by
  by_cases h : c
  · rw [if_pos h, if_pos h, yes h]
  · rw [if_neg h, if_neg h, no h]

/-- What a call may still drain and post has no part in it. -/
abbrev IsImage (f : ω → ω') (_ _ : Nat) (w : ω) (w' : ω') : Prop := f w = w'

theorem alike_image (f : ω → ω') (ctx : RuntimeContext ω) {d p : Nat} :
    Alike ctx.config (fun _ => True) (IsImage f) d p ctx (f ctx.transport) := ⟨rfl, fun _ _ _ => trivial, rfl⟩

theorem AlikeResult.image {ρ : Type} {cfg : Config} {d p : Nat} {r : ρ × RuntimeContext ω} {r' : ρ × RuntimeContext ω'}
    (alike : AlikeResult cfg (fun _ => True) (IsImage f) d p r r') : mapResult f r = r' := by
  obtain ⟨w', same, after⟩ := alike
  have image : f r.2.transport = w' := after.rel
  rw [same, ← image]
  rfl

variable [Transport ω] [Transport ω'] (hom : TransportHom f)
include hom

/-- The image of the transport answers any node's calls as the transport does. -/
theorem TransportHom.sim (cfg : Config) : TransportSim cfg (fun _ => True) (IsImage f) where
  own _ _ := trivial
  fewer _ _ _ _ same := same
  read _ _ a addr size w w' same := by simp only [← same, hom.read, IsImage, true_and]
  write _ _ a addr buf w w' same := by simp only [← same, hom.write, IsImage, true_and]
  batchWrite _ _ a requests w w' same := by simp only [← same, hom.batchWrite, IsImage, true_and]
  fence _ _ w w' same := by simp only [← same, hom.fence, IsImage, true_and]
  post _ _ msg w w' _ same := by simp only [← same, hom.post, IsImage, true_and]
  drain _ _ w w' same := by simp only [← same, hom.drain, IsImage, true_and]

variable (ord : IterOrder) (ctx : RuntimeContext ω) (addr : GlobalAddr) (size : UInt64)

theorem map_processPendingControlMessages :
    mapResult f (processPendingControlMessages ord ctx) = processPendingControlMessages ord (mapTransport f ctx) :=
  (alike_processPendingControlMessages (hom.sim _) ord (d := 0) (p := 0) (alike_image f ctx)).image

theorem map_drainControl : mapResult f (drainControl ord ctx) = drainControl ord (mapTransport f ctx) :=
  (alike_drainControl (hom.sim _) ord (d := 0) (p := 0) (alike_image f ctx)).image

theorem map_openAccess : mapResult f (openAccess ord ctx addr size) = openAccess ord (mapTransport f ctx) addr size :=
  (alike_openAccess (hom.sim _) ord addr size (d := 0) (p := 0) (alike_image f ctx)).image

theorem map_lmRead : mapResult f (lmRead ord ctx addr size) = lmRead ord (mapTransport f ctx) addr size :=
  (alike_lmRead (hom.sim _) ord addr size (d := 0) (p := 0) (alike_image f ctx)).image

/-- Every call of the API commutes with the image of the transport. -/
theorem exec_map (i : Invocation) : mapResult f (exec ctx i) = exec (mapTransport f ctx) i :=
  (exec_alike (hom.sim _) i (d := 0) (p := 0) (alike_image f ctx)).image

/-- **Every run** commutes with the image of the transport. -/
theorem run_map (calls : List Invocation) :
    (run exec ctx calls).1 = (run exec (mapTransport f ctx) calls).1 ∧
      mapTransport f (run exec ctx calls).2 = (run exec (mapTransport f ctx) calls).2 := by
  have always : Along exec (fun _ _ => True) ctx calls := along_of_inputs (fun _ _ => trivial) _
  refine run_simulation (R := fun c c' => mapTransport f c = c') (fun c c' i _ same => ?_) always rfl
  rw [← same, ← exec_map hom]
  exact ⟨rfl, rfl⟩

/-- A measure that the image of the transport keeps has the same sum over both runs. -/
theorem tally_map {measure : RuntimeContext ω → Invocation → Nat} {measure' : RuntimeContext ω' → Invocation → Nat}
    (kept : ∀ c i, measure c i = measure' (mapTransport f c) i) (ctx : RuntimeContext ω) (calls : List Invocation) :
    tally exec measure ctx calls = tally exec measure' (mapTransport f ctx) calls := by
  refine tally_simulation (R := fun c c' => mapTransport f c = c') (fun c c' i same => ?_) rfl calls
  rw [← same, ← exec_map hom]
  exact ⟨kept c i, rfl⟩

end
end LeoMem
