import Sidetable.Module.Parse
import Sidetable.Proofs.Reading

/-!
# Readers stay inside their bytes

Whether it succeeds or fails, a read stops at the cursor that it got or at one moved over bytes that
were there. This holds of every reader, from single bytes up to whole modules.
-/
namespace Sidetable

def Cursor.Ahead (c c' : Cursor) : Prop :=
  ∃ n ≤ c.rest.length, c' = c.advance n

namespace Cursor.Ahead

variable {c c' c'' : Cursor}

theorem refl (c : Cursor) : c.Ahead c :=
  ⟨0, Nat.zero_le _, rfl⟩

theorem advance {n : Nat} (h : n ≤ c.rest.length) : c.Ahead (c.advance n) :=
  ⟨n, h, rfl⟩

theorem trans (h : c.Ahead c') (h' : c'.Ahead c'') : c.Ahead c'' := by
  obtain ⟨n, hn, rfl⟩ := h
  obtain ⟨m, hm, rfl⟩ := h'
  simp only [Cursor.advance, List.length_drop] at hm
  refine ⟨n + m, by omega, ?_⟩
  simp [Cursor.advance, Nat.add_assoc]

theorem cons {b : UInt8} {rest : List UInt8} (h : c.rest = b :: rest) :
    c.Ahead { pos := c.pos + 1, rest } := by
  refine ⟨1, ?_, ?_⟩
  · simp [h]
  · simp [Cursor.advance, h]

end Cursor.Ahead

namespace Read

variable {α β : Type}

def stop : EStateM.Result Fault Cursor α → Cursor
  | .ok _ c => c
  | .error _ c => c

def Stays (r : Read α) : Prop :=
  ∀ c : Cursor, c.Ahead (stop (r c))

theorem stays_pure (a : α) : Stays (pure a) :=
  fun c => .refl c

theorem stays_fail (cause : Fault.Cause) : Stays (fail cause : Read α) :=
  fun c => .refl c

theorem stays_failHere (cause : Fault.Cause) : Stays (failHere cause : Read α) :=
  fun c => .refl c

theorem stays_bind {r : Read α} {f : α → Read β} (h : Stays r) (next : ∀ a, Stays (f a)) :
    Stays (r >>= f) := by
  intro c
  have first := h c
  simp only [bind, EStateM.bind]
  cases done : r c with
  | error e c' =>
    rw [done] at first
    exact first
  | ok a c' =>
    rw [done] at first
    exact first.trans (next a c')

theorem stays_ite {p : Prop} [Decidable p] {r s : Read α} (h : Stays r) (h' : Stays s) :
    Stays (if p then r else s) := by
  split
  · exact h
  · exact h'

theorem stays_guard {p : Prop} [Decidable p] {cause : Fault.Cause} {r : Read α} (next : Stays r) :
    Stays (do
      if p then fail cause
      r) :=
  stays_ite (stays_bind (stays_fail cause) fun _ => next) next

theorem stays_within {r : Read α} (place : Fault.Place) (h : Stays r) : Stays (within place r) := by
  intro c
  have inner := h c
  unfold within
  cases done : r c <;> rw [done] at inner <;> exact inner

theorem stays_inPart {r : Read α} (name : String) (h : Stays r) : Stays (inPart name r) := by
  intro c
  have inner := h c
  unfold inPart
  cases done : r c <;> rw [done] at inner <;> exact inner

theorem stays_onBytes (bytes : List UInt8) (r : Read α) : Stays (onBytes bytes r) := by
  intro c
  unfold onBytes
  split <;> exact .refl c

theorem stays_position : Stays position :=
  fun c => .refl c

theorem stays_remaining : Stays remaining :=
  fun c => .refl c

theorem stays_get : Stays get :=
  fun c => .refl c

theorem stays_byte : Stays byte := by
  intro c
  unfold byte
  split
  · exact .refl c
  · rename_i b rest eq
    exact .cons eq

theorem stays_digit : Stays digit := by
  intro c
  unfold digit
  split
  · exact .refl c
  · rename_i b rest eq
    exact .cons eq

theorem stays_bytes (n : Int) : Stays (bytes n) := by
  intro c
  unfold bytes
  split
  · rename_i room
    rw [Bool.and_eq_true] at room
    exact .advance (Cursor.has_iff.mp room.2)
  · exact .refl c

theorem stays_natural (more n : Nat) (bits : UInt64) : Stays (natural more n bits) := by
  induction more generalizing n bits with
  | zero => exact stays_failHere _
  | succ more ih => exact stays_bind stays_digit fun b => stays_ite (stays_pure _) (ih _ _)

theorem stays_integer (more n : Nat) (bits : UInt64) : Stays (integer more n bits) := by
  induction more generalizing n bits with
  | zero => exact stays_failHere _
  | succ more ih =>
    exact stays_bind stays_digit fun b =>
      stays_ite (ih _ _) (stays_ite (stays_pure _) (stays_pure _))

theorem stays_u32 : Stays u32 :=
  stays_bind (stays_natural 5 0 0) fun _ => stays_ite (stays_pure _) (stays_failHere _)

theorem stays_u64 : Stays u64 :=
  stays_natural 10 0 0

theorem stays_s64 : Stays s64 :=
  stays_integer 10 0 0

theorem stays_name : Stays name := by
  refine stays_bind stays_u32 fun n => stays_bind (stays_bytes _) fun raw => ?_
  split
  · exact stays_pure _
  · exact stays_failHere _

theorem stays_u32le : Stays u32le :=
  stays_bind (stays_bytes 4) fun _ => stays_pure _

/-! ## Instructions -/

theorem stays_number {decode : List UInt8 → Except Fault.Cause (α × Nat)}
    (h : Leb128.Bounded decode) : Stays (Instr.number decode) := by
  intro c
  unfold Instr.number
  split
  · rename_i v n found
    exact .advance (h _ _ _ found)
  · exact .refl c

theorem stays_index : Stays Instr.index :=
  stays_number Leb128.bounded_u32

theorem stays_fixed (n : Nat) : Stays (Instr.fixed n) := by
  intro c
  unfold Instr.fixed
  split
  · rename_i room
    exact .advance (Cursor.has_iff.mp room)
  · exact .refl c

theorem stays_times {r : Read α} (h : Stays r) (n : Nat) : Stays (Instr.times r n) := by
  induction n with
  | zero => exact stays_pure _
  | succ n ih => exact stays_bind h fun _ => stays_bind ih fun _ => stays_pure _

theorem stays_heapValType : Stays Instr.valType := by
  refine stays_bind stays_byte fun b => stays_ite ?_ (stays_pure _)
  exact stays_bind (stays_number Leb128.bounded_s33) fun _ => stays_pure _

theorem stays_memory : Stays Instr.memory := by
  have rest (align mem : UInt32) : Stays (do
      let offset ← Instr.number Leb128.decodeU64
      return Immediate.memory offset align mem) :=
    stays_bind (stays_number Leb128.bounded_u64) fun _ => stays_pure _
  refine stays_bind stays_index fun align => ?_
  dsimp only
  split
  · exact stays_bind (stays_pure _) fun _ => rest _ _
  · exact stays_bind stays_index fun _ => stays_bind (stays_pure _) fun _ => rest _ _

theorem stays_operands (size start : Nat) (op : UInt8) : Stays (Instr.operands size start op) := by
  have one {γ δ : Type} {r : Read γ} (f : γ → δ) (h : Stays r) : Stays (do return f (← r)) :=
    stays_bind h fun _ => stays_pure _
  unfold Instr.operands
  cases Immediate.Kind.ofOpcode op with
  | none => exact stays_pure _
  | block | heap => exact one _ (stays_number Leb128.bounded_s33)
  | i32 => exact one _ (stays_number Leb128.bounded_s32)
  | i64 => exact one _ (stays_number Leb128.bounded_s64)
  | f32 => exact one _ (stays_fixed 4)
  | f64 => exact one _ (stays_fixed 8)
  | labels =>
    refine stays_bind stays_index fun count => stays_guard ?_
    exact stays_bind (stays_times stays_index _) fun _ => one _ stays_index
  | indirect => exact stays_bind stays_index fun _ => one _ stays_index
  | memory => exact one _ stays_memory
  | types =>
    exact stays_bind stays_index fun count => stays_guard (one _ (stays_times stays_heapValType _))
  | misc =>
    refine stays_bind stays_index fun sub => ?_
    split
    · exact stays_pure _
    · exact one _ (stays_times stays_index _)
    · exact stays_fail _
  | foreignFamily => exact stays_bind stays_index fun _ => stays_fail _
  | unsupported => exact stays_fail _
  | _ => exact one _ stays_index

theorem stays_instr (size : Nat) : Stays (Instr.read size) :=
  stays_bind stays_position fun _ => stays_bind stays_byte fun _ =>
    stays_bind (stays_within _ (stays_operands _ _ _)) fun _ => stays_bind stays_position fun _ =>
      stays_pure _

theorem stays_skipExpr (size fuel : Nat) : Stays (Instr.skipExpr size fuel) := by
  induction fuel with
  | zero => exact stays_fail _
  | succ fuel ih => exact stays_bind (stays_instr size) fun i => stays_ite (stays_pure _) ih

/-! ## Modules -/

theorem stays_entries {r : Read α} (h : Stays r) (i n : Nat) : Stays (entries r i n) := by
  induction n generalizing i with
  | zero => exact stays_pure _
  | succ n ih =>
    exact stays_bind (stays_within _ h) fun _ => stays_bind (ih _) fun _ => stays_pure _

theorem stays_vector {r : Read α} (h : Stays r) : Stays (vector r) :=
  stays_bind stays_u32 fun _ => stays_bind stays_get fun _ => stays_guard (stays_entries h _ _)

theorem stays_valType : Stays valType := by
  refine stays_bind stays_byte fun b => stays_ite (stays_pure _) (stays_ite ?_ (stays_fail _))
  exact stays_bind stays_s64 fun _ => stays_pure _

theorem stays_funcType : Stays funcType := by
  refine stays_bind stays_byte fun form => stays_guard ?_
  exact stays_bind (stays_vector stays_valType) fun _ =>
    stays_bind (stays_vector stays_valType) fun _ => stays_pure _

theorem stays_limits : Stays limits := by
  refine stays_bind stays_byte fun flags => stays_bind stays_u64 fun min =>
    stays_ite (stays_pure _) ?_
  exact stays_bind stays_u64 fun max => stays_guard (stays_pure _)

theorem stays_tableType : Stays tableType :=
  stays_bind stays_valType fun _ => stays_guard (stays_bind stays_limits fun _ => stays_pure _)

theorem stays_globalType : Stays globalType :=
  stays_bind stays_valType fun _ => stays_bind stays_byte fun _ => stays_guard (stays_pure _)

theorem stays_tagType : Stays tagType :=
  stays_bind stays_byte fun _ => stays_bind stays_u32 fun _ => stays_pure _

theorem stays_importDesc (kind : UInt8) : Stays (importDesc kind) := by
  unfold importDesc
  split
  · exact stays_bind stays_u32 fun _ => stays_pure _
  · exact stays_bind stays_tableType fun _ => stays_pure _
  · exact stays_bind stays_limits fun _ => stays_pure _
  · exact stays_bind stays_globalType fun _ => stays_pure _
  · exact stays_bind stays_tagType fun _ => stays_pure _
  · exact stays_fail _

theorem stays_importItem : Stays importItem :=
  stays_bind stays_name fun _ => stays_bind stays_name fun _ => stays_bind stays_byte fun kind =>
    stays_bind (stays_importDesc kind) fun _ => stays_pure _

theorem stays_exportItem : Stays exportItem :=
  stays_bind stays_name fun _ => stays_bind stays_byte fun _ =>
    stays_guard (stays_bind stays_u32 fun _ => stays_pure _)

/-- A constant expression ends where its instructions do, which is inside the bytes they were read
from. -/
theorem stays_initExpr : Stays initExpr := by
  intro c
  unfold initExpr
  have inner := stays_skipExpr c.rest.length (c.rest.length + 1) (.ofBytes c.rest)
  dsimp only
  split
  · rename_i stop done
    rw [done] at inner
    obtain ⟨n, inside, rfl⟩ := inner
    refine .advance ?_
    simpa [Cursor.advance, Cursor.ofBytes] using inside
  · exact .refl c

theorem stays_global : Stays global :=
  stays_bind stays_globalType fun _ => stays_bind stays_initExpr fun _ => stays_pure _

theorem stays_localRun : Stays localRun :=
  stays_bind stays_u32 fun _ => stays_bind stays_valType fun _ => stays_pure _

theorem stays_localRuns : Stays localRuns :=
  stays_bind (stays_within _ (stays_vector stays_localRun)) fun _ => stays_guard (stays_pure _)

theorem stays_funcBody : Stays funcBody :=
  stays_bind stays_u32 fun _ => stays_bind (stays_bytes _) fun _ =>
    stays_bind (stays_onBytes _ _) fun _ => stays_pure _

theorem stays_section (id : UInt8) : Stays (Section.read id) := by
  have one {γ δ : Type} {r : Read γ} (f : γ → δ) (h : Stays r) : Stays (do return f (← r)) :=
    stays_bind h fun _ => stays_pure _
  unfold Section.read
  split
  · exact stays_bind stays_name fun _ => one _ stays_remaining
  · exact one _ (stays_vector stays_funcType)
  · exact one _ (stays_vector stays_importItem)
  · exact one _ (stays_vector stays_u32)
  · exact one _ (stays_vector stays_tableType)
  · exact one _ (stays_vector stays_limits)
  · exact one _ (stays_vector stays_global)
  · exact one _ (stays_vector stays_exportItem)
  · exact one _ stays_u32
  · exact one _ stays_u32
  · exact one _ (stays_vector stays_funcBody)
  · exact one _ stays_u32
  · exact one _ stays_u32
  · exact one _ (stays_vector stays_tagType)
  · exact stays_fail _

theorem stays_readRank (last : Nat) : Stays (Module.readRank last) :=
  stays_bind (stays_inPart _ stays_byte) fun _ =>
    stays_ite (stays_pure _) (stays_guard (stays_pure _))

theorem stays_readSection (last : Nat) : Stays (Module.readSection last) :=
  stays_bind (stays_readRank last) fun _ => stays_bind (stays_inPart _ stays_u32) fun _ =>
    stays_bind (stays_inPart _ (stays_bytes _)) fun _ =>
      stays_bind (stays_within _ (stays_onBytes _ _)) fun _ => stays_pure _

theorem stays_readSections (fuel last : Nat) (m : Module) :
    Stays (Module.readSections fuel last m) := by
  induction fuel generalizing last m with
  | zero => exact stays_pure _
  | succ fuel ih =>
    refine stays_bind stays_remaining fun rest => stays_ite (stays_pure _) ?_
    exact stays_bind (stays_readSection last) fun _ => ih _ _

theorem stays_module : Stays Module.read := by
  refine stays_bind ?_ fun _ => stays_bind stays_remaining fun _ => ?_
  · exact stays_bind (stays_inPart _ stays_u32le) fun _ =>
      stays_guard
        (stays_bind (stays_inPart _ stays_u32le) fun _ => stays_ite (stays_fail _) (stays_pure _))
  · exact stays_bind (stays_readSections _ _ _) fun _ => stays_guard (stays_pure _)

end Read
end Sidetable
