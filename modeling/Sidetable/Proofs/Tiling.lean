import Sidetable.Proofs.Bounds
import Sidetable.Proofs.Spelling

/-!
# Instructions tile the code

Reading at an offset depends on the bytes of the instruction there and on no others. Whether it
succeeds or fails, it moves over one byte at least and not beyond the end. So reading on from
wherever the last read stopped comes to the end, and instructions that were decoded leave no byte
out and share none.
-/
namespace Sidetable

def Cursor.into (code : List UInt8) (s : Nat) : Cursor :=
  { pos := s, rest := code.drop s }

namespace Instr

open Read

/-- Where the last of `n` reads stops, each going on where the one before it stopped, also after a
failure. -/
def after (size : Nat) : Nat → Cursor → Cursor
  | 0, c => c
  | n + 1, c => after size n (stop (read size c))

/-- Reading at offset `s` of `code` moves on inside the code, and what is found there does not
depend on the rest of it. -/
structure Progresses (code : List UInt8) (s : Nat) : Prop where
  found : ∀ i c, read code.length (.into code s) = .ok i c →
    i.start = s ∧ s < i.stop ∧ i.stop ≤ code.length ∧ c = .into code i.stop
  elsewhere : ∀ i c, read code.length (.into code s) = .ok i c →
    ∀ other : List UInt8, (∀ k, s ≤ k → k < i.stop → other[k]? = code[k]?) →
      read other.length (.into other s) = .ok i (.into other i.stop)
  failed : s < code.length → ∀ f c, read code.length (.into code s) = .error f c →
    ∃ e, s < e ∧ e ≤ code.length ∧ c = .into code e
  ends : ∃ n ≤ code.length - s, after code.length n (.into code s) = .into code code.length ∧
    ∀ k < n, (after code.length k (.into code s)).pos < code.length

variable {code other used rest : List UInt8} {s size fuel : Nat} {i : Located} {is : List Located}
    {c : Cursor}

/-! ## One read -/

theorem read_into (h : read code.length (.into code s) = .ok i c) :
    ∃ used, used ≠ [] ∧ Spells used i.toInstr ∧ code.drop s = used ++ code.drop i.stop ∧
      i.start = s ∧ i.stop = s + used.length ∧ c = .into code i.stop := by
  obtain ⟨used, front, behind, spells, some⟩ := finds_read code.length (.into code s) i c h
  obtain ⟨start, stop, -⟩ := read_ok h
  have split : code.drop s = used ++ c.rest := congrArg Cursor.rest front
  have place : i.stop = s + used.length := by
    rw [stop, behind]
    rfl
  have left : c.rest = code.drop i.stop := by
    rw [place, ← List.drop_drop, split, List.drop_left]
  refine ⟨used, some, spells, left ▸ split, start, place, ?_⟩
  rw [behind, left, place]
  rfl

theorem drop_congr (front : code.drop s = used ++ rest)
    (same : ∀ k, s ≤ k → k < s + used.length → other[k]? = code[k]?) :
    other.drop s = used ++ other.drop (s + used.length) := by
  have taken : (other.drop s).take used.length = used := by
    apply List.ext_getElem?
    intro k
    by_cases inside : k < used.length
    · rw [List.getElem?_take_of_lt inside, List.getElem?_drop, same (s + k) (by omega) (by omega),
        ← List.getElem?_drop, front, List.getElem?_append_left inside]
    · rw [List.getElem?_eq_none (by rw [List.length_take]; omega), List.getElem?_eq_none (by omega)]
  calc other.drop s = (other.drop s).take used.length ++ (other.drop s).drop used.length :=
        (List.take_append_drop _ _).symm
    _ = used ++ other.drop (s + used.length) := by rw [taken, List.drop_drop]

theorem read_elsewhere (h : read code.length (.into code s) = .ok i c)
    (same : ∀ k, s ≤ k → k < i.stop → other[k]? = code[k]?) :
    read other.length (.into other s) = .ok i (.into other i.stop) := by
  obtain ⟨used, -, spells, front, start, stop, -⟩ := read_into h
  have split := drop_congr front (fun k low high => same k low (stop ▸ high))
  have room : used.length ≤ other.length := by
    have length := congrArg List.length split
    rw [List.length_append, List.length_drop] at length
    omega
  have again := spells other.length s (other.drop (s + used.length)) room
  rw [← split, ← stop] at again
  rw [Cursor.into, again]
  subst start
  rfl

/-- The opcode is passed even where its operands cannot be read. -/
theorem stop_read (inside : s < code.length) (size : Nat) :
    ∃ e, s < e ∧ e ≤ code.length ∧ stop (read size (.into code s)) = .into code e := by
  have operands (op : UInt8) : Cursor.Ahead ⟨s + 1, code.drop (s + 1)⟩
      (stop (read size ⟨s, op :: code.drop (s + 1)⟩)) :=
    stays_bind (stays_within _ (stays_operands size s op))
      (fun _ => stays_bind stays_position fun _ => stays_pure _) _
  obtain ⟨n, room, stops⟩ := operands code[s]
  rw [List.length_drop] at room
  refine ⟨s + 1 + n, by omega, by omega, ?_⟩
  rw [Cursor.into, List.drop_eq_getElem_cons inside, stops, Cursor.advance, List.drop_drop]
  rfl

/-! ## Reading on -/

theorem after_ends (inside : s ≤ code.length) :
    ∃ n ≤ code.length - s, after code.length n (.into code s) = .into code code.length ∧
      ∀ k < n, (after code.length k (.into code s)).pos < code.length := by
  induction left : code.length - s using Nat.strong_induction_on generalizing s with
  | _ left ih =>
    by_cases more : s < code.length
    · obtain ⟨e, later, fits, stops⟩ := stop_read more code.length
      obtain ⟨n, few, done, before⟩ := ih (code.length - e) (by omega) fits rfl
      refine ⟨n + 1, by omega, by rw [after, stops, done], ?_⟩
      intro k below
      cases k with
      | zero => exact more
      | succ k =>
        rw [after, stops]
        exact before k (by omega)
    · obtain rfl : s = code.length := by omega
      exact ⟨0, Nat.zero_le _, rfl, fun k below => absurd below (Nat.not_lt_zero k)⟩

theorem readAll_covers (h : readAll size fuel c = .ok is) (enough : c.rest.length ≤ fuel)
    (k : Nat) : (∃ i ∈ is, i.start ≤ k ∧ k < i.stop) ↔ c.pos ≤ k ∧ k < c.pos + c.rest.length := by
  induction fuel generalizing c is with
  | zero =>
    obtain rfl := Except.ok.inj h
    simp only [List.not_mem_nil, false_and, exists_false, false_iff]
    omega
  | succ fuel ih =>
    rcases readAll_succ h with ⟨none, rfl⟩ | ⟨-, i, next, rest, first, others, rfl⟩
    · have none : c.rest.length = 0 := by simpa using none
      simp only [List.not_mem_nil, false_and, exists_false, false_iff]
      omega
    · obtain ⟨start, stop, moved, leads, -⟩ := read_ok first
      have same := leads.stop
      simp only [List.mem_cons, exists_eq_or_imp, ih others (by omega), start, stop]
      omega

/-- Reading is local, moves on at every offset, and what decodes is covered by its instructions. -/
theorem instructions_tile (code : List UInt8) :
    (∀ s ≤ code.length, Progresses code s) ∧
      ∀ is, decodeAll code = .ok is →
        Laid 0 is ∧ ∀ k, (∃ i ∈ is, i.start ≤ k ∧ k < i.stop) ↔ k < code.length := by
  constructor
  · intro s inside
    constructor
    · intro i c h
      obtain ⟨used, some, -, front, start, stop, after⟩ := read_into h
      have length := congrArg List.length front
      have pos := List.length_pos_iff.mpr some
      rw [List.length_append, List.length_drop, List.length_drop] at length
      exact ⟨start, by omega, by omega, after⟩
    · intro i c h other same
      exact read_elsewhere h same
    · intro more f c h
      obtain ⟨e, later, fits, stops⟩ := stop_read more code.length
      rw [h] at stops
      exact ⟨e, later, fits, stops⟩
    · exact after_ends inside
  · intro is h
    refine ⟨(readAll_ok h).1, fun k => ?_⟩
    have covers := readAll_covers h le_rfl k
    simpa [Cursor.ofBytes] using covers

/-- A constant between different instructions, and a load that breaks off after a padded
alignment. -/
theorem instructions_tile_cut :
    let code : List UInt8 := [0x01, 0x41, 0xe8, 0x07, 0x28, 0x82, 0x00, 0x80]
    let other : List UInt8 := [0x0f, 0x41, 0xe8, 0x07, 0x0b]
    let const : Located := { opcode := 0x41, imm := .i32 1000, start := 1, stop := 4 }
    (read code.length (.into code 1) = .ok const (.into code 4) ∧
      read other.length (.into other 1) = .ok const (.into other 4)) ∧
    (∃ f e, read code.length (.into code 4) = .error f (.into code e) ∧ 4 < e ∧ e ≤ 8) ∧
    (∃ n ≤ 4, after code.length n (.into code 4) = .into code 8) ∧
    ∃ is, decodeAll other = .ok is ∧ Laid 0 is ∧
      ∀ k, (∃ i ∈ is, i.start ≤ k ∧ k < i.stop) ↔ k < 5 := by
  intro code other const
  have found : read code.length (.into code 1) = .ok const (.into code 4) := rfl
  have same (k : Nat) (low : 1 ≤ k) (high : k < 4) : other[k]? = code[k]? := by
    obtain rfl | rfl | rfl : k = 1 ∨ k = 2 ∨ k = 3 := by omega
    all_goals rfl
  have step := (instructions_tile code).1
  obtain ⟨f, broken⟩ : ∃ f, read code.length (.into code 4) = .error f (.into code 7) := ⟨_, rfl⟩
  obtain ⟨e, later, fits, stops⟩ := (step 4 (by decide)).failed (by decide) f _ broken
  obtain ⟨n, few, done, -⟩ := (step 4 (by decide)).ends
  have decoded : decodeAll other = .ok [{ opcode := 0x0f, start := 0, stop := 1 }, const,
      { opcode := 0x0b, start := 4, stop := 5 }] := by
    decide +kernel
  refine ⟨⟨found, (step 1 (by decide)).elsewhere const _ found other same⟩, ⟨f, e, ?_, later, fits⟩,
    ⟨n, few, done⟩, _, decoded, (instructions_tile other).2 _ decoded⟩
  rw [broken, stops]

end Instr
end Sidetable
