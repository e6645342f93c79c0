import Sidetable.Instr
import Mathlib.Data.List.Nodup

/-!
# Nesting of control structures

Which control structures are open in front of an instruction, from the opcodes alone. A structure
that is closed is not opened again, so at most one instruction closes it.
-/
namespace Sidetable

/-- A control structure of a body: the function, or what the instruction with the given number
opens. -/
inductive Region where
  | function
  | opened (k : Nat)
  deriving DecidableEq, Repr

namespace Instr

def opens (i : Instr) : Bool :=
  i.opcode = 0x02 || i.opcode = 0x03 || i.opcode = 0x04 || i.opcode = 0x06

def shuts (i : Instr) : Bool :=
  i.opcode = 0x0b || i.opcode = 0x18

end Instr

variable {code : List Instr.Located}

def enclosing (code : List Instr.Located) : Nat → List Region
  | 0 => [.function]
  | k + 1 =>
    match code[k]? with
    | none => enclosing code k
    | some i =>
      if i.opens then .opened k :: enclosing code k
      else if i.shuts then (enclosing code k).tail
      else enclosing code k

structure Closes (code : List Instr.Located) (r : Region) (c : Nat) (i : Instr.Located) : Prop where
  found : code[c]? = some i
  shuts : i.shuts
  innermost : (enclosing code c).head? = some r

/-- Instruction `e` is an `else` right inside the structure. -/
structure ElseOf (code : List Instr.Located) (r : Region) (e : Nat) (i : Instr.Located) : Prop where
  found : code[e]? = some i
  opcode : i.opcode = 0x05
  innermost : (enclosing code e).head? = some r

namespace Instr

theorem not_opens_of_shuts {i : Instr} (h : i.shuts) : i.opens = false := by
  simp only [shuts, Bool.or_eq_true, decide_eq_true_eq] at h
  rcases h with eq | eq <;> simp [opens, eq]

end Instr

section Enclosing

variable {k : Nat} {i : Instr.Located} (found : code[k]? = some i)
include found

theorem enclosing_of_found :
    enclosing code (k + 1) =
      if i.opens then .opened k :: enclosing code k
      else if i.shuts then (enclosing code k).tail else enclosing code k := by
  rw [enclosing, found]

theorem enclosing_of_opens (h : i.opens) :
    enclosing code (k + 1) = .opened k :: enclosing code k := by
  rw [enclosing_of_found found, if_pos h]

theorem enclosing_of_shuts (h : i.shuts) : enclosing code (k + 1) = (enclosing code k).tail := by
  simp [enclosing_of_found found, h, Instr.not_opens_of_shuts h]

theorem enclosing_of_inner (opens : i.opens = false) (shuts : i.shuts = false) :
    enclosing code (k + 1) = enclosing code k := by
  simp [enclosing_of_found found, opens, shuts]

end Enclosing

theorem enclosing_succ (code : List Instr.Located) (k : Nat) :
    enclosing code (k + 1) = .opened k :: enclosing code k ∨
    enclosing code (k + 1) = (enclosing code k).tail ∨
    enclosing code (k + 1) = enclosing code k := by
  rw [enclosing]
  split
  · exact .inr (.inr rfl)
  · split
    · exact .inl rfl
    · split
      · exact .inr (.inl rfl)
      · exact .inr (.inr rfl)

theorem lt_of_mem_enclosing {j k : Nat} (h : .opened j ∈ enclosing code k) : j < k := by
  induction k with
  | zero => cases List.mem_singleton.mp h
  | succ k ih =>
    rcases enclosing_succ code k with eq | eq | eq <;> rw [eq] at h
    · rcases List.mem_cons.mp h with same | h
      · cases same
        exact Nat.lt_succ_self j
      · exact Nat.lt_succ_of_lt (ih h)
    · exact Nat.lt_succ_of_lt (ih (List.mem_of_mem_tail h))
    · exact Nat.lt_succ_of_lt (ih h)

theorem enclosing_nodup (code : List Instr.Located) (k : Nat) : (enclosing code k).Nodup := by
  induction k with
  | zero => exact List.nodup_singleton _
  | succ k ih =>
    rcases enclosing_succ code k with eq | eq | eq <;> rw [eq]
    · exact List.nodup_cons.mpr ⟨fun h => Nat.lt_irrefl k (lt_of_mem_enclosing h), ih⟩
    · exact ih.tail
    · exact ih

theorem not_mem_enclosing {r : Region} {k k' : Nat} (before : ∀ j, r = .opened j → j < k)
    (h : r ∉ enclosing code k) (le : k ≤ k') : r ∉ enclosing code k' := by
  induction le with
  | refl => exact h
  | step le ih =>
    rename_i m
    rcases enclosing_succ code m with eq | eq | eq <;> rw [eq]
    · intro mem
      rcases List.mem_cons.mp mem with same | mem
      · exact Nat.lt_irrefl m (Nat.lt_of_lt_of_le (before m same) le)
      · exact ih mem
    · exact fun mem => ih (List.mem_of_mem_tail mem)
    · exact ih

namespace Closes

variable {r : Region} {c c' : Nat} {i i' : Instr.Located}

theorem mem (h : Closes code r c i) : r ∈ enclosing code c :=
  List.mem_of_mem_head? h.innermost

theorem enclosing_eq (h : Closes code r c i) : enclosing code c = r :: enclosing code (c + 1) := by
  have ⟨rest, split⟩ : ∃ rest, enclosing code c = r :: rest := by
    simpa [List.head?_eq_some_iff] using h.innermost
  rw [enclosing_of_shuts h.found h.shuts, split, List.tail_cons]

theorem not_mem (h : Closes code r c i) {k : Nat} (after : c < k) : r ∉ enclosing code k := by
  refine not_mem_enclosing ?_ ?_ after
  · rintro j rfl
    exact Nat.lt_succ_of_lt (lt_of_mem_enclosing h.mem)
  · have := enclosing_nodup code c
    rw [h.enclosing_eq] at this
    exact (List.nodup_cons.mp this).1

theorem index_eq (h : Closes code r c i) (h' : Closes code r c' i') : c = c' := by
  rcases Nat.lt_trichotomy c c' with before | equal | after
  · exact absurd h'.mem (h.not_mem before)
  · exact equal
  · exact absurd h.mem (h'.not_mem after)

end Closes
end Sidetable
