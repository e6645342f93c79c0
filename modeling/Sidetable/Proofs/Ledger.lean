import Sidetable.Generator
import Mathlib.Algebra.GroupWithZero.Nat
import Mathlib.Logic.Function.Basic
import Mathlib.Data.List.Nodup

/-!
# Cells and ledgers

A ledger describes the bytes of a side table as a list of cells: numbers that are final when they
are written, and target words that are filled in later. Writing a target word changes that word
only.
-/
namespace Sidetable

namespace LittleEndian

theorem decode_encode (width v : Nat) : decode (encode width v) = v % 256 ^ width := by
  induction width generalizing v with
  | zero => simp [encode, decode, Nat.mod_one]
  | succ width ih =>
    rw [encode, decode, ih, UInt8.toNat_ofNat', Nat.pow_add_one 256 width,
      Nat.mul_comm (256 ^ width) 256]
    exact (Nat.mod_mul).symm

end LittleEndian

open LittleEndian (encode)

inductive Cell where
  /-- a little-endian number, kept modulo its width in bytes -/
  | num (width value : Nat)
  | target
  deriving DecidableEq, Repr

def Target.bytes (t : Target) : List UInt8 :=
  encode 4 t.pc.toNat ++ encode 4 t.mc.toNat

@[simp] theorem Target.length_bytes (t : Target) : t.bytes.length = 8 := by
  simp [Target.bytes]

def Target.unset : Target := ⟨0, 0⟩

namespace Cell

def size : Cell → Nat
  | num width _ => width
  | target => 8

def sizes (cells : List Cell) : Nat :=
  (cells.map size).sum

def write (word : Nat → Target) : Nat → List Cell → List UInt8
  | _, [] => []
  | pos, num width v :: rest => encode width v ++ write word (pos + width) rest
  | pos, target :: rest => (word pos).bytes ++ write word (pos + 8) rest

def words : Nat → List Cell → List Nat
  | _, [] => []
  | pos, num width _ :: rest => words (pos + width) rest
  | pos, target :: rest => pos :: words (pos + 8) rest

def blank (cells : List Cell) : List UInt8 :=
  write (fun _ => .unset) 0 cells

@[simp] theorem sizes_nil : sizes [] = 0 := rfl

@[simp] theorem sizes_cons (c : Cell) (cells : List Cell) :
    sizes (c :: cells) = c.size + sizes cells := by
  simp [sizes]

@[simp] theorem sizes_append (a b : List Cell) : sizes (a ++ b) = sizes a + sizes b := by
  simp [sizes]

@[simp] theorem length_write (word : Nat → Target) (pos : Nat) (cells : List Cell) :
    (write word pos cells).length = sizes cells := by
  induction cells generalizing pos with
  | nil => rfl
  | cons c rest ih => cases c <;> simp [write, ih, size]

theorem write_append (word : Nat → Target) (pos : Nat) (a b : List Cell) :
    write word pos (a ++ b) = write word pos a ++ write word (pos + sizes a) b := by
  induction a generalizing pos with
  | nil => rfl
  | cons c rest ih => cases c <;> simp [write, ih, size, Nat.add_assoc]

theorem words_append (pos : Nat) (a b : List Cell) :
    words pos (a ++ b) = words pos a ++ words (pos + sizes a) b := by
  induction a generalizing pos with
  | nil => rfl
  | cons c rest ih => cases c <;> simp [words, ih, size, Nat.add_assoc]

theorem words_bounds {pos p : Nat} {cells : List Cell} (h : p ∈ words pos cells) :
    pos ≤ p ∧ p + 8 ≤ pos + sizes cells := by
  induction cells generalizing pos with
  | nil => simp [words] at h
  | cons c rest ih =>
    cases c with
    | num width v =>
      have := ih h
      simp only [sizes_cons, size]
      omega
    | target =>
      simp only [sizes_cons, size]
      rcases List.mem_cons.mp h with rfl | h
      · omega
      · have := ih h
        omega

theorem words_apart (pos : Nat) (cells : List Cell) :
    (words pos cells).Pairwise fun p q => p + 8 ≤ q := by
  induction cells generalizing pos with
  | nil => exact .nil
  | cons c rest ih =>
    cases c with
    | num width v => exact ih _
    | target => exact List.pairwise_cons.mpr ⟨fun q h => (words_bounds h).1, ih _⟩

theorem words_nodup (pos : Nat) (cells : List Cell) : (words pos cells).Nodup := by
  refine (words_apart pos cells).imp fun {p q} apart => ?_
  omega

/-- Only the contents of its own target words show in the bytes. -/
theorem write_congr {f g : Nat → Target} {pos : Nat} {cells : List Cell}
    (h : ∀ p ∈ words pos cells, f p = g p) : write f pos cells = write g pos cells := by
  induction cells generalizing pos with
  | nil => rfl
  | cons c rest ih =>
    cases c with
    | num width v =>
      rw [write, write, ih h]
    | target =>
      rw [write, write, h pos List.mem_cons_self, ih fun p hp => h p (List.mem_cons_of_mem _ hp)]

theorem write_unset {word : Nat → Target} {pos : Nat} (cells : List Cell)
    (h : ∀ p, pos ≤ p → word p = .unset) : write word pos cells = blank cells := by
  have shift : ∀ a b, write (fun _ => Target.unset) a cells = write (fun _ => .unset) b cells := by
    induction cells with
    | nil => intro a b; rfl
    | cons c rest ih =>
      intro a b
      cases c <;> simp only [write] <;> rw [ih]
  rw [blank, shift 0 pos]
  exact write_congr fun p hp => h p (words_bounds hp).1

/-- A target word splits the cells into those before it and those after it. -/
theorem split_at_word {pos p : Nat} {cells : List Cell} (h : p ∈ words pos cells) :
    ∃ before after, cells = before ++ target :: after ∧ p = pos + sizes before := by
  induction cells generalizing pos with
  | nil => simp [words] at h
  | cons c rest ih =>
    cases c with
    | num width v =>
      obtain ⟨before, after, rfl, hp⟩ := ih h
      exact ⟨num width v :: before, after, rfl, by simp [hp, size, Nat.add_assoc]⟩
    | target =>
      rcases List.mem_cons.mp h with rfl | h
      · exact ⟨[], rest, rfl, rfl⟩
      · obtain ⟨before, after, rfl, hp⟩ := ih h
        exact ⟨target :: before, after, rfl, by simp [hp, size, Nat.add_assoc]⟩

theorem read_word {word : Nat → Target} {p : Nat} {cells : List Cell} (h : p ∈ words 0 cells) :
    ((write word 0 cells).drop p).take 8 = (word p).bytes := by
  obtain ⟨before, after, rfl, hp⟩ := split_at_word h
  rw [Nat.zero_add] at hp
  rw [write_append, write, Nat.zero_add, ← hp, List.drop_left' (by simp [hp]),
    List.take_left' (by simp)]

/-- Overwriting a target word amounts to another content of that word. -/
theorem overwrite_word {word : Nat → Target} {p : Nat} {cells : List Cell} (t : Target)
    (h : p ∈ words 0 cells) :
    (write word 0 cells).take p ++ t.bytes ++ (write word 0 cells).drop (p + 8) =
      write (Function.update word p t) 0 cells := by
  obtain ⟨before, after, rfl, hp⟩ := split_at_word h
  rw [Nat.zero_add] at hp
  have inner : write (Function.update word p t) 0 before = write word 0 before := by
    refine write_congr fun q hq => Function.update_of_ne ?_ _ _
    have := words_bounds hq
    omega
  have outer : write (Function.update word p t) (p + 8) after = write word (p + 8) after := by
    refine write_congr fun q hq => Function.update_of_ne ?_ _ _
    have := words_bounds hq
    omega
  have ends : (write word 0 before ++ (word p).bytes).length = p + 8 := by
    simp [hp]
  rw [write_append, write_append, write, write, Nat.zero_add, ← hp, inner, outer,
    Function.update_self, List.take_left' (by simp [hp]), ← List.append_assoc (write word 0 before),
    List.drop_left' ends, List.append_assoc]

end Cell

structure Ledger where
  cells : List Cell := []
  word : Nat → Target := fun _ => .unset

namespace Ledger

def bytes (l : Ledger) : List UInt8 :=
  Cell.write l.word 0 l.cells

def size (l : Ledger) : Nat :=
  Cell.sizes l.cells

def words (l : Ledger) : List Nat :=
  Cell.words 0 l.cells

def add (l : Ledger) (cells : List Cell) : Ledger :=
  { l with cells := l.cells ++ cells }

def assign (l : Ledger) (offs : List UInt32) (t : Target) : Ledger :=
  { l with word := fun p => if p ∈ offs.map UInt32.toNat then t else l.word p }

@[simp] theorem length_bytes (l : Ledger) : l.bytes.length = l.size :=
  Cell.length_write _ _ _

@[simp] theorem size_add (l : Ledger) (cells : List Cell) :
    (l.add cells).size = l.size + Cell.sizes cells :=
  Cell.sizes_append _ _

@[simp] theorem size_assign (l : Ledger) (offs : List UInt32) (t : Target) :
    (l.assign offs t).size = l.size :=
  rfl

@[simp] theorem word_add (l : Ledger) (cells : List Cell) : (l.add cells).word = l.word :=
  rfl

@[simp] theorem add_nil (l : Ledger) : l.add [] = l := by
  simp [add]

theorem add_add (l : Ledger) (a b : List Cell) : (l.add a).add b = l.add (a ++ b) := by
  simp [add]

@[simp] theorem assign_nil (l : Ledger) (t : Target) : l.assign [] t = l := by
  simp [assign]

theorem assign_cons (l : Ledger) (off : UInt32) (offs : List UInt32) (t : Target) :
    (l.assign [off] t).assign offs t = l.assign (off :: offs) t := by
  simp only [assign, mk.injEq, true_and]
  funext p
  by_cases hp : p = off.toNat
  · simp [hp]
  · simp [hp]

theorem word_assign_of_mem {l : Ledger} {offs : List UInt32} {t : Target} {off : UInt32}
    (h : off ∈ offs) : (l.assign offs t).word off.toNat = t :=
  if_pos (List.mem_map_of_mem h)

theorem word_assign_of_not_mem {l : Ledger} {offs : List UInt32} {t : Target} {p : Nat}
    (h : ∀ off ∈ offs, off.toNat ≠ p) : (l.assign offs t).word p = l.word p := by
  refine if_neg fun hp => ?_
  obtain ⟨off, hoff, rfl⟩ := List.mem_map.mp hp
  exact h off hoff rfl

theorem words_add (l : Ledger) (cells : List Cell) :
    (l.add cells).words = l.words ++ Cell.words l.size cells := by
  simp [words, add, Cell.words_append, size]

theorem bytes_add {l : Ledger} (cells : List Cell) (h : ∀ p, l.size ≤ p → l.word p = .unset) :
    (l.add cells).bytes = l.bytes ++ Cell.blank cells := by
  have tail : Cell.write l.word (Cell.sizes l.cells) cells = Cell.blank cells :=
    Cell.write_unset cells h
  rw [bytes, bytes, word_add, add, Cell.write_append, Nat.zero_add, tail]

theorem bytes_assign {l : Ledger} {off : UInt32} (t : Target) (h : off.toNat ∈ l.words) :
    (l.assign [off] t).bytes =
      l.bytes.take off.toNat ++ t.bytes ++ l.bytes.drop (off.toNat + 8) := by
  rw [bytes, bytes, Cell.overwrite_word t h]
  congr 1
  funext p
  by_cases hp : p = off.toNat
  · simp [assign, hp]
  · simp [assign, hp]

end Ledger

theorem Target.decode_bytes (t : Target) :
    LittleEndian.decode (t.bytes.take 4) = t.pc.toNat ∧
    LittleEndian.decode (t.bytes.drop 4) = t.mc.toNat := by
  have hp := t.pc.toNat_lt
  have hm := t.mc.toNat_lt
  rw [Target.bytes, List.take_left' (by simp), List.drop_left' (by simp),
    LittleEndian.decode_encode, LittleEndian.decode_encode]
  omega

theorem Metadata.get_of_le {m : Metadata} {width p : Nat} (h : p + width ≤ m.bytes.length) :
    m.get? width p = some (LittleEndian.decode ((m.bytes.drop p).take width)) := by
  unfold Metadata.get? Metadata.size
  split
  · rename_i outside
    simp only [Bool.or_eq_true, decide_eq_true_eq] at outside
    omega
  · rfl

/-- A target word of a finished table reads back as what was last written into it. -/
theorem Metadata.target_of_word {m : Metadata} {l : Ledger} {p : Nat} (hm : m.bytes = l.bytes)
    (hp : p ∈ l.words) : m.target? p = some (l.word p) := by
  have word : (m.bytes.drop p).take 8 = (l.word p).bytes := by
    rw [hm]
    exact Cell.read_word hp
  have inside : p + 8 ≤ m.bytes.length := by
    rw [hm, l.length_bytes]
    have := (Cell.words_bounds hp).2
    rwa [Nat.zero_add] at this
  have low : m.get? 4 p = some (l.word p).pc.toNat := by
    rw [Metadata.get_of_le (by omega), ← (l.word p).decode_bytes.1, ← word, List.take_take]
    rfl
  have high : m.get? 4 ((p : Int) + 4) = some (l.word p).mc.toNat := by
    have : m.get? 4 ((p + 4 : Nat) : Int) = _ := Metadata.get_of_le (by omega)
    rw [← (l.word p).decode_bytes.2, ← word, List.drop_take, List.drop_drop]
    exact this
  simp [Metadata.target?, low, high]

end Sidetable
