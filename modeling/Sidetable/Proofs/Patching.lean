import Sidetable.Proofs.Ledger

/-!
# Patching the buffer

Positions of the buffer do not wrap below its largest size, so a target word of its ledger can
always be written, and writing it changes the ledger in that word only.
-/
namespace Sidetable

open LittleEndian (encode)

namespace Buffer

theorem patch_append (data : Array UInt8) (p : Nat) (a b : List UInt8) :
    patch data p (a ++ b) = patch (patch data p a) (p + a.length) b := by
  induction a generalizing data p with
  | nil => rfl
  | cons v rest ih =>
    rw [List.cons_append, patch, patch, ih, List.length_cons, Nat.add_assoc, Nat.add_comm 1]

theorem toList_patch {data : Array UInt8} {p : Nat} {list : List UInt8}
    (h : p + list.length ≤ data.size) :
    (patch data p list).toList =
      data.toList.take p ++ list ++ data.toList.drop (p + list.length) := by
  induction list generalizing data p with
  | nil => simp [patch]
  | cons v rest ih =>
    rw [List.length_cons] at h
    have inside : p < data.toList.length := by rw [Array.length_toList]; omega
    have front : (data.toList.set p v).take (p + 1) = data.toList.take p ++ [v] := by
      rw [List.take_add_one, List.take_set_of_le (Nat.le_refl p), List.getElem?_set_self inside]
      rfl
    rw [patch, ih (by rw [Array.size_setIfInBounds]; omega), Array.toList_setIfInBounds, front,
      List.drop_set_of_lt (by omega), List.length_cons]
    simp [Nat.add_comm, Nat.add_left_comm]

/-- Bytes that were allocated can be reached; nothing wraps below the largest size. -/
theorem span_ofNat {b : Buffer} {off : UInt32} {k width : Nat} (h : off.toNat + k + width ≤ b.size)
    (bound : b.size ≤ maxSize) : b.span off (Int64.ofNat k) width = .ok (off.toNat + k) := by
  have small : maxSize < 2 ^ 63 := by decide
  have toInt : ∀ n, n ≤ b.size → (Int64.ofNat n).toInt = n := fun n hn =>
    Int64.toInt_ofNat_of_lt (by omega)
  have sum : Int64.ofNat off.toNat + Int64.ofNat k = Int64.ofNat (off.toNat + k) :=
    (Int64.ofNat_add _ _).symm
  have stop :
      Int64.ofNat (off.toNat + k) + Int64.ofNat width = Int64.ofNat (off.toNat + k + width) :=
    (Int64.ofNat_add _ _).symm
  unfold span
  simp only [sum, stop, Int64.lt_iff_toInt_lt, toInt _ h, toInt k (by omega),
    toInt _ (Nat.le_refl _), toInt (off.toNat + k) (by omega)]
  rw [if_neg, if_neg, Int.toNat_natCast]
  · simp
    omega
  · simp
    omega

def retarget (b : Buffer) (off : UInt32) (t : Target) : Buffer :=
  { b with data := patch b.data off.toNat t.bytes }

theorem put_ofNat {b : Buffer} {off : UInt32} {k width : Nat} (v : Nat)
    (h : off.toNat + k + width ≤ b.size) (bound : b.size ≤ maxSize) :
    b.put width off (Int64.ofNat k) v =
      .ok { b with data := patch b.data (off.toNat + k) (encode width v) } := by
  rw [put, span_ofNat h bound]
  rfl

theorem putTarget_eq {b : Buffer} {off : UInt32} (t : Target) (h : off.toNat + 8 ≤ b.size)
    (bound : b.size ≤ maxSize) : b.putTarget off t = (b.retarget off t, none) := by
  have low : b.put 4 off (Int64.ofNat 0) t.pc.toNat = _ := put_ofNat _ (by omega) bound
  have high : Buffer.put { b with data := patch b.data off.toNat (encode 4 t.pc.toNat) } 4 off
      (Int64.ofNat 4) t.mc.toNat = _ :=
    put_ofNat _ (by simpa [size, size_patch] using h) (by simpa [size, size_patch] using bound)
  unfold putTarget
  rw [show (0 : Int64) = Int64.ofNat 0 from rfl, low]
  simp only [Nat.add_zero, show (4 : Int64) = Int64.ofNat 4 from rfl, high]
  simp [retarget, Target.bytes, patch_append]

theorem bytes_retarget {b : Buffer} {off : UInt32} (t : Target) (h : off.toNat + 8 ≤ b.size) :
    (b.retarget off t).bytes =
      b.bytes.take off.toNat ++ t.bytes ++ b.bytes.drop (off.toNat + 8) := by
  rw [bytes, retarget, toList_patch (by simpa [size] using h), Target.length_bytes]
  rfl

/-- Writes the numbers of an entry at `off`, from its byte `k` on, each where it belongs. Target
words are written later. -/
def fill (b : Buffer) (off : UInt32) : Nat → List Cell → Except Breach Buffer
  | _, [] => .ok b
  | k, .num width v :: rest => do
    let b ← b.put width off (Int64.ofNat k) v
    b.fill off (k + width) rest
  | k, .target :: rest => b.fill off (k + 8) rest

theorem fill_ok {b : Buffer} {off : UInt32} {k : Nat} {front : List UInt8} {cells : List Cell}
    (bytes : b.bytes = front ++ List.replicate (Cell.sizes cells) 0)
    (length : front.length = off.toNat + k) (bound : b.size ≤ maxSize) (pos : Nat) :
    ∃ b', b.fill off k cells = .ok b' ∧ b'.bytes = front ++ Cell.write (fun _ => .unset) pos cells ∧
      b'.limit = b.limit := by
  induction cells generalizing b k front pos with
  | nil => exact ⟨b, rfl, by simpa [Cell.write] using bytes, rfl⟩
  | cons c rest ih =>
    have size : b.size = off.toNat + k + (c.size + Cell.sizes rest) := by
      rw [Buffer.size, ← Array.length_toList, ← Buffer.bytes, bytes]
      simp [length]
    cases c with
    | num width v =>
      simp only [Cell.size] at size
      let b₁ : Buffer := { b with data := patch b.data (off.toNat + k) (encode width v) }
      have put : b.put width off (Int64.ofNat k) v = .ok b₁ := put_ofNat v (by omega) bound
      have inside : off.toNat + k + (encode width v).length ≤ b.data.size := by
        change _ ≤ b.size
        simp [size]
      have patched :
          b₁.bytes = (front ++ encode width v) ++ List.replicate (Cell.sizes rest) 0 := by
        rw [Buffer.bytes, toList_patch inside, ← Buffer.bytes, bytes, ← length]
        simp [Cell.size, List.drop_append]
      have bound₁ : b₁.size ≤ maxSize := by simpa [Buffer.size, b₁, size_patch] using bound
      have here : (front ++ encode width v).length = off.toNat + (k + width) := by
        simp [length, Nat.add_assoc]
      obtain ⟨b', filled, written, limit⟩ := ih patched here bound₁ (pos + width)
      refine ⟨b', ?_, by simpa [Cell.write] using written, limit⟩
      rw [fill, put]
      exact filled
    | target =>
      have zeros :
          b.bytes = (front ++ Target.unset.bytes) ++ List.replicate (Cell.sizes rest) 0 := by
        rw [bytes, Cell.sizes_cons, List.append_assoc, List.replicate_add]
        rfl
      have here : (front ++ Target.unset.bytes).length = off.toNat + (k + 8) := by
        simp [length, Nat.add_assoc]
      obtain ⟨b', filled, written, limit⟩ := ih zeros here bound (pos + 8)
      exact ⟨b', filled, by simpa [Cell.write] using written, limit⟩

/-- To append an entry is to allocate its bytes and to fill them. -/
theorem append_eq_fill {b b' : Buffer} {cells : List Cell}
    (h : b.append (Cell.blank cells) = .ok b') :
    ∃ a, b.allocate (Int64.ofNat (Cell.sizes cells)) = .ok a ∧
      a.fill (UInt32.ofNat b.size) 0 cells = .ok b' := by
  unfold append at h
  split at h
  · rename_i admitted
    obtain rfl := Except.ok.inj h
    rw [Cell.blank, Cell.length_write] at admitted
    have bound : b.size + Cell.sizes cells ≤ maxSize := by
      simp only [admits, Bool.and_eq_true, decide_eq_true_eq] at admitted
      exact admitted.1
    have small : maxSize < UInt32.size := by decide
    have word : UInt32.size = 2 ^ 32 := rfl
    have count : (Int64.ofNat (Cell.sizes cells)).toInt = Cell.sizes cells :=
      Int64.toInt_ofNat_of_lt (by omega)
    let a : Buffer := { b with data := b.data ++ Array.replicate (Cell.sizes cells) 0 }
    have allocated : b.allocate (Int64.ofNat (Cell.sizes cells)) = .ok a := by
      have positive : ¬ Int64.ofNat (Cell.sizes cells) < 0 := by
        rw [Int64.lt_iff_toInt_lt, count]
        simp
      rw [allocate, if_neg positive, count, Int.toNat_natCast, if_pos admitted]
    have length : b.bytes.length = (UInt32.ofNat b.size).toNat + 0 := by
      rw [UInt32.toNat_ofNat_of_lt' (by omega)]
      rfl
    have zeros : a.bytes = b.bytes ++ List.replicate (Cell.sizes cells) 0 := by
      simp [a, Buffer.bytes]
    have fits : a.size ≤ maxSize := by simpa [a, Buffer.size] using bound
    obtain ⟨c, filled, written, limit⟩ := fill_ok zeros length fits 0
    refine ⟨a, allocated, filled.trans (congrArg Except.ok ?_)⟩
    obtain ⟨data, limit'⟩ := c
    simp only [a, Buffer.mk.injEq] at limit ⊢
    refine ⟨?_, limit⟩
    rw [← Array.toList_inj]
    simpa [Buffer.bytes, Cell.blank] using written
  · cases h

/-- The bytes are those of the ledger, whose words beyond the end are unset. -/
structure Holds (b : Buffer) (l : Ledger) : Prop where
  bytes : b.bytes = l.bytes
  bound : l.size ≤ maxSize
  unset : ∀ p, l.size ≤ p → l.word p = .unset

namespace Holds

variable {b b' : Buffer} {l : Ledger} {off : UInt32}

theorem size (h : b.Holds l) : b.size = l.size := by
  rw [← l.length_bytes, ← h.bytes, Buffer.bytes, Array.length_toList]
  rfl

theorem append {cells : List Cell} (h : b.Holds l) (ha : b.append (Cell.blank cells) = .ok b') :
    b'.Holds (l.add cells) := by
  unfold Buffer.append at ha
  split at ha
  · rename_i admitted
    obtain rfl := Except.ok.inj ha
    refine ⟨?_, ?_, fun p hp => h.unset p ?_⟩
    · rw [Ledger.bytes_add cells h.unset, ← h.bytes]
      simp [Buffer.bytes]
    · simp only [admits, Bool.and_eq_true, decide_eq_true_eq, h.size, Cell.blank,
        Cell.length_write] at admitted
      rw [Ledger.size_add]
      exact admitted.1
    · rw [Ledger.size_add] at hp
      omega
  · cases ha

theorem retarget (h : b.Holds l) (t : Target) (hoff : off.toNat ∈ l.words) :
    b.putTarget off t = (b.retarget off t, none) ∧ (b.retarget off t).Holds (l.assign [off] t) := by
  have inside : off.toNat + 8 ≤ l.size := by
    have := (Cell.words_bounds hoff).2
    rwa [Nat.zero_add] at this
  rw [← h.size] at inside
  refine ⟨putTarget_eq t inside (h.size ▸ h.bound), ?_, h.bound, fun p hp => ?_⟩
  · rw [bytes_retarget t inside, Ledger.bytes_assign t hoff, h.bytes]
  · rw [Ledger.size_assign] at hp
    rw [Ledger.word_assign_of_not_mem, h.unset p hp]
    intro o ho
    rw [List.mem_singleton.mp ho]
    have := h.size
    omega

end Holds
end Buffer
end Sidetable
