import Sidetable.Instr.Decode
import Sidetable.Proofs.Groups

/-!
# Reading goes forward

A read that succeeds moves the cursor over bytes that were there, and an instruction that is read
has the immediate that its opcode calls for. The instructions of a body lie one after the other.
-/
namespace Sidetable

structure Cursor.Leads (c c' : Cursor) : Prop where
  pos : c.pos ≤ c'.pos
  stop : c'.pos + c'.rest.length = c.pos + c.rest.length

namespace Cursor.Leads

variable {c c' c'' : Cursor}

theorem refl (c : Cursor) : c.Leads c :=
  ⟨Nat.le_refl _, rfl⟩

theorem trans (h : c.Leads c') (h' : c'.Leads c'') : c.Leads c'' :=
  ⟨Nat.le_trans h.pos h'.pos, h'.stop.trans h.stop⟩

theorem advance {n : Nat} (h : n ≤ c.rest.length) : c.Leads (c.advance n) := by
  constructor <;> simp only [Cursor.advance, List.length_drop] <;> omega

end Cursor.Leads

namespace Leb128

theorem length_group {limit : Nat} {bytes g : List UInt8} (h : group limit bytes = .ok g) :
    g.length ≤ bytes.length := by
  induction limit generalizing bytes g with
  | zero => cases bytes <;> simp [group] at h
  | succ limit ih =>
    cases bytes with
    | nil => simp [group] at h
    | cons c rest =>
      simp only [group] at h
      split at h
      · cases hg : group limit rest with
        | error cause => simp [hg, Except.map] at h
        | ok tail =>
          obtain rfl : c :: tail = g := by simpa [hg, Except.map] using h
          simpa using ih hg
      · obtain rfl := Except.ok.inj h
        simp

def Bounded {α : Type} (decode : List UInt8 → Except Fault.Cause (α × Nat)) : Prop :=
  ∀ bytes v n, decode bytes = .ok (v, n) → n ≤ bytes.length

theorem bounded_group {α : Type} (limit : Nat) (value : List UInt8 → α) :
    Bounded fun bytes => do
      let g ← group limit bytes
      return (value g, g.length) := by
  intro bytes v n h
  cases hg : group limit bytes with
  | error cause => simp [hg, bind, Except.bind] at h
  | ok g =>
    simp only [hg, bind, Except.bind, pure, Except.pure, Except.ok.injEq, Prod.mk.injEq] at h
    exact h.2 ▸ length_group hg

theorem Bounded.check {α β : Type} {decode : List UInt8 → Except Fault.Cause (α × Nat)}
    {check : α × Nat → Except Fault.Cause (β × Nat)} (h : Bounded decode)
    (keeps : ∀ v n w m, check (v, n) = .ok (w, m) → n = m) :
    Bounded fun bytes => decode bytes >>= check := by
  intro bytes w m done
  cases hd : decode bytes with
  | error cause => simp [hd, bind, Except.bind] at done
  | ok pair =>
    simp only [hd, bind, Except.bind] at done
    exact keeps pair.1 pair.2 w m done ▸ h bytes pair.1 pair.2 hd

theorem bounded_u32 : Bounded decodeU32 := by
  intro bytes v n h
  rw [decodeU32_eq] at h
  split at h
  · cases h
  · exact bounded_group 5 (fun g => UInt32.ofNat (unsigned g)) bytes v n h

theorem bounded_u64 : Bounded decodeU64 := by
  simpa only [Bounded, ← decodeU64_eq] using bounded_group 10 fun g => UInt64.ofNat (unsigned g)

theorem bounded_s64 : Bounded decodeS64 := by
  simpa only [Bounded, ← decodeS64_eq] using bounded_group 10 fun g => Int64.ofInt (signed g)

theorem bounded_s32 : Bounded decodeS32 :=
  bounded_s64.check fun v n w m h => by
    dsimp only at h
    split at h
    · cases h
    · exact (Prod.mk.inj (Except.ok.inj h)).2

theorem bounded_s33 : Bounded decodeS33 :=
  bounded_s64.check fun v n w m h => by
    dsimp only at h
    split at h
    · cases h
    · exact (Prod.mk.inj (Except.ok.inj h)).2

end Leb128

namespace Read

variable {α β : Type}

def Yields (r : Read α) (P : α → Prop) : Prop :=
  ∀ c a c', r c = .ok a c' → c.Leads c' ∧ P a

theorem bind_ok {r : Read α} {f : α → Read β} {c c'' : Cursor} {b : β} :
    (r >>= f) c = .ok b c'' ↔ ∃ a c', r c = .ok a c' ∧ f a c' = .ok b c'' := by
  simp only [bind, EStateM.bind]
  cases r c with
  | ok a c' => simp [and_assoc]
  | error f c' => simp

theorem yields_pure {P : α → Prop} {a : α} (h : P a) : Yields (pure a) P := by
  rintro c b c' ⟨⟩
  exact ⟨.refl c, h⟩

theorem yields_bind {r : Read α} {f : α → Read β} {P : α → Prop} {Q : β → Prop} (h : Yields r P)
    (next : ∀ a, P a → Yields (f a) Q) : Yields (r >>= f) Q := by
  intro c b c'' done
  obtain ⟨a, c', first, second⟩ := bind_ok.mp done
  obtain ⟨leads, ha⟩ := h c a c' first
  obtain ⟨leads', hb⟩ := next a ha c' b c'' second
  exact ⟨leads.trans leads', hb⟩

theorem yields_fail {P : α → Prop} (cause : Fault.Cause) : Yields (fail cause) P := by
  rintro c a c' ⟨⟩

theorem yields_number {decode : List UInt8 → Except Fault.Cause (α × Nat)}
    (h : Leb128.Bounded decode) : Yields (Instr.number decode) fun _ => True := by
  intro c a c' done
  unfold Instr.number at done
  split at done
  · rename_i v n hd
    cases done
    exact ⟨.advance (h _ _ _ hd), trivial⟩
  · cases done

theorem yields_index : Yields Instr.index fun _ => True :=
  yields_number Leb128.bounded_u32

theorem yields_byte : Yields byte fun _ => True := by
  intro c a c' done
  unfold byte at done
  split at done
  · cases done
  · rename_i b rest hr
    cases done
    refine ⟨⟨Nat.le_succ _, ?_⟩, trivial⟩
    simp only [hr, List.length_cons]
    omega

theorem yields_fixed (n : Nat) : Yields (Instr.fixed n) fun _ => True := by
  intro c a c' done
  unfold Instr.fixed at done
  split at done
  · rename_i room
    cases done
    exact ⟨.advance (Cursor.has_iff.mp room), trivial⟩
  · cases done

theorem yields_times {r : Read α} (h : Yields r fun _ => True) (n : Nat) :
    Yields (Instr.times r n) fun list => list.length = n := by
  induction n with
  | zero => exact yields_pure rfl
  | succ n ih =>
    refine yields_bind h fun a _ => yields_bind ih fun rest length => yields_pure ?_
    rw [List.length_cons, length]

theorem yields_valType : Yields Instr.valType fun _ => True := by
  refine yields_bind yields_byte fun b _ => ?_
  dsimp only
  split
  · exact yields_bind (yields_number Leb128.bounded_s33) fun _ _ => yields_pure trivial
  · exact yields_pure trivial

theorem yields_memory : Yields Instr.memory fun imm =>
      ∃ offset align mem, imm = .memory offset align mem := by
  have rest (align mem : UInt32) : Yields (do
      let offset ← Instr.number Leb128.decodeU64
      return Immediate.memory offset align mem)
        fun imm => ∃ offset align mem, imm = .memory offset align mem :=
    yields_bind (yields_number Leb128.bounded_u64) fun offset _ =>
      yields_pure ⟨offset, align, mem, rfl⟩
  refine yields_bind yields_index fun align _ => ?_
  dsimp only
  split
  · exact yields_bind (yields_pure trivial) fun _ (_ : True) => rest _ _
  · exact yields_bind yields_index fun _ _ => yields_bind (yields_pure trivial) fun _ (_ : True) =>
      rest _ _

end Read

/-- The kind that calls for an immediate; one of the instructions behind `0xfc` calls for none as
well. -/
def Immediate.kind : Immediate → Immediate.Kind
  | .none => .none
  | .block _ => .block
  | .label _ => .label
  | .labels _ _ => .labels
  | .func _ => .func
  | .indirect _ _ => .indirect
  | .typeIndex _ => .typeIndex
  | .tag _ => .tag
  | .localIndex _ => .localIndex
  | .globalIndex _ => .globalIndex
  | .tableIndex _ => .tableIndex
  | .memory _ _ _ => .memory
  | .memoryIndex _ => .memoryIndex
  | .i32 _ => .i32
  | .i64 _ => .i64
  | .f32 _ => .f32
  | .f64 _ => .f64
  | .heap _ => .heap
  | .funcRef _ => .funcRef
  | .types _ => .types
  | .operands _ => .misc
  | .foreign _ => .unsupported

def Immediate.Suits (sub : UInt32) (kind : Immediate.Kind) (imm : Immediate) : Prop :=
  kind = imm.kind ∨ kind = .misc ∧ imm = .none ∧ Opcode.miscOperands sub = some 0

namespace Instr

def Fits (i : Instr) : Prop :=
  i.imm.Suits i.sub (.ofOpcode i.opcode)

open Read in
theorem yields_operands (size start : Nat) (op : UInt8) :
    Yields (operands size start op) fun r => r.2.Suits r.1 (.ofOpcode op) := by
  have one {α : Type} {r : Read α} (imm : α → Immediate) (kind : Immediate.Kind)
      (h : Yields r fun _ => True) (suits : ∀ a, kind = (imm a).kind) :
      Yields (do return ((0 : UInt32), imm (← r))) fun r => r.2.Suits r.1 kind :=
    yields_bind h fun a _ => yields_pure (.inl (suits a))
  unfold operands
  cases Immediate.Kind.ofOpcode op with
  | none => exact yields_pure (.inl rfl)
  | block =>
    exact one (fun v => .block v.toInt32) .block (yields_number Leb128.bounded_s33) fun _ => rfl
  | label => exact one .label .label yields_index fun _ => rfl
  | labels =>
    refine yields_bind yields_index fun count _ => ?_
    have list := yields_times yields_index count.toNat
    dsimp only
    split
    · exact yields_bind (yields_fail _) fun _ (_ : True) => yields_bind list fun _ _ =>
        yields_bind yields_index fun _ _ => yields_pure (.inl rfl)
    · exact yields_bind list fun _ _ => yields_bind yields_index fun _ _ => yields_pure (.inl rfl)
  | func => exact one .func .func yields_index fun _ => rfl
  | indirect =>
    exact yields_bind yields_index fun type _ =>
      one (.indirect type) .indirect yields_index fun _ => rfl
  | typeIndex => exact one .typeIndex .typeIndex yields_index fun _ => rfl
  | tag => exact one .tag .tag yields_index fun _ => rfl
  | localIndex => exact one .localIndex .localIndex yields_index fun _ => rfl
  | globalIndex => exact one .globalIndex .globalIndex yields_index fun _ => rfl
  | tableIndex => exact one .tableIndex .tableIndex yields_index fun _ => rfl
  | memory =>
    refine yields_bind yields_memory fun imm h => yields_pure ?_
    obtain ⟨offset, align, mem, rfl⟩ := h
    exact .inl rfl
  | memoryIndex => exact one .memoryIndex .memoryIndex yields_index fun _ => rfl
  | i32 => exact one .i32 .i32 (yields_number Leb128.bounded_s32) fun _ => rfl
  | i64 => exact one .i64 .i64 (yields_number Leb128.bounded_s64) fun _ => rfl
  | f32 => exact one (fun n => .f32 (UInt32.ofNat n)) .f32 (yields_fixed 4) fun _ => rfl
  | f64 => exact one (fun n => .f64 (UInt64.ofNat n)) .f64 (yields_fixed 8) fun _ => rfl
  | heap => exact one .heap .heap (yields_number Leb128.bounded_s33) fun _ => rfl
  | funcRef => exact one .funcRef .funcRef yields_index fun _ => rfl
  | types =>
    refine yields_bind yields_index fun count _ => ?_
    have list := yields_times yields_valType count.toNat
    dsimp only
    split
    · exact yields_bind (yields_fail _) fun _ (_ : True) => yields_bind list fun _ _ =>
        yields_pure (.inl rfl)
    · exact yields_bind list fun _ _ => yields_pure (.inl rfl)
  | misc =>
    refine yields_bind yields_index fun sub _ => ?_
    split
    · exact yields_pure (.inr ⟨rfl, rfl, ‹_›⟩)
    · exact yields_bind (yields_times yields_index _) fun _ _ => yields_pure (.inl rfl)
    · exact yields_fail _
  | foreignFamily => exact yields_bind yields_index fun _ _ => yields_fail _
  | unsupported => exact yields_fail _

/-- An instruction lies where the cursor was, takes at least its opcode, and fits. -/
theorem read_ok {size : Nat} {c next : Cursor} {i : Located} (h : read size c = .ok i next) :
    i.start = c.pos ∧ i.stop = next.pos ∧ c.pos < next.pos ∧ c.Leads next ∧ i.Fits ∧
      (i.opcode = 0x0b → i.stop = i.start + 1) := by
  obtain ⟨start, c₀, ⟨⟩, h⟩ := Read.bind_ok.mp h
  obtain ⟨op, c₁, byte, h⟩ := Read.bind_ok.mp h
  obtain ⟨⟨sub, imm⟩, c₂, within, h⟩ := Read.bind_ok.mp h
  obtain ⟨stop, c₃, ⟨⟩, ⟨⟩⟩ := Read.bind_ok.mp h
  have first : c₁.pos = c.pos + 1 := by
    unfold Read.byte at byte
    split at byte
    · cases byte
    · cases byte
      rfl
  have rest : operands size c.pos op c₁ = .ok (sub, imm) next := by
    unfold Read.within at within
    split at within
    · rename_i done
      cases within
      exact done
    · cases within
  have ⟨leads, fits⟩ := yields_operands size c.pos op _ _ _ rest
  have ahead := (Read.yields_byte _ _ _ byte).1.trans leads
  refine ⟨rfl, rfl, ?_, ahead, fits, fun bare => ?_⟩
  · have := leads.pos
    omega
  · obtain rfl : op = 0x0b := bare
    cases rest
    exact first

/-- Instructions that lie one after the other, from `pos` on. -/
def Laid : Nat → List Located → Prop
  | _, [] => True
  | pos, i :: rest => i.start = pos ∧ pos < i.stop ∧ Laid i.stop rest

theorem readAll_succ {size fuel : Nat} {c : Cursor} {is : List Located}
    (h : readAll size (fuel + 1) c = .ok is) :
    (c.rest.isEmpty ∧ is = []) ∨ (¬ c.rest.isEmpty ∧ ∃ i next rest, read size c = .ok i next ∧
      readAll size fuel next = .ok rest ∧ is = i :: rest) := by
  rw [readAll] at h
  split at h
  · rename_i none
    exact .inl ⟨none, (Except.ok.inj h).symm⟩
  · rename_i some
    split at h
    · rename_i i next first
      cases others : readAll size fuel next with
      | error f => simp [others, Except.map] at h
      | ok rest =>
        obtain rfl : i :: rest = is := by simpa [others, Except.map] using h
        exact .inr ⟨some, i, next, rest, first, others, rfl⟩
    · cases h

theorem readAll_ok {size fuel : Nat} {c : Cursor} {is : List Located}
    (h : readAll size fuel c = .ok is) :
    Laid c.pos is ∧ ∀ i ∈ is, i.stop ≤ c.pos + c.rest.length ∧ i.Fits ∧
      (i.opcode = 0x0b → i.stop = i.start + 1) := by
  induction fuel generalizing c is with
  | zero =>
    obtain rfl := Except.ok.inj h
    exact ⟨trivial, by simp⟩
  | succ fuel ih =>
    rcases readAll_succ h with ⟨-, rfl⟩ | ⟨-, i, next, rest, first, others, rfl⟩
    · exact ⟨trivial, by simp⟩
    · obtain ⟨start, stop, more, leads, fits, bare⟩ := read_ok first
      obtain ⟨laid, each⟩ := ih others
      refine ⟨⟨start, by omega, by rwa [stop]⟩, fun e he => ?_⟩
      have same := leads.stop
      rcases List.mem_cons.mp he with rfl | he
      · exact ⟨by omega, fits, bare⟩
      · rw [← same]
        exact each e he

namespace Laid

variable {pos k : Nat} {is : List Located} {i i' : Located}

theorem start_eq (h : Laid pos is) (hi : is[0]? = some i) : i.start = pos := by
  cases is with
  | nil => simp at hi
  | cons a rest =>
    obtain rfl : a = i := by simpa using hi
    exact h.1

theorem start_lt_stop (h : Laid pos is) (hi : is[k]? = some i) :
    pos ≤ i.start ∧ i.start < i.stop := by
  induction is generalizing pos k with
  | nil => simp at hi
  | cons a rest ih =>
    obtain ⟨start, more, tail⟩ := h
    cases k with
    | zero =>
      obtain rfl : a = i := by simpa using hi
      omega
    | succ k =>
      have := ih tail (by simpa using hi)
      omega

theorem stop_eq (h : Laid pos is) (hi : is[k]? = some i) (hi' : is[k + 1]? = some i') :
    i'.start = i.stop := by
  induction is generalizing pos k with
  | nil => simp at hi
  | cons a rest ih =>
    obtain ⟨start, more, tail⟩ := h
    cases k with
    | zero =>
      obtain rfl : a = i := by simpa using hi
      exact tail.start_eq (by simpa using hi')
    | succ k => exact ih tail (by simpa using hi) (by simpa using hi')

theorem stop_le (h : Laid pos is) (hi : is[k]? = some i) {k' : Nat} (hi' : is[k']? = some i')
    (before : k < k') : i.stop ≤ i'.start := by
  induction is generalizing pos k k' with
  | nil => simp at hi
  | cons a rest ih =>
    obtain ⟨start, more, tail⟩ := h
    obtain ⟨k', rfl⟩ : ∃ n, k' = n + 1 := ⟨k' - 1, by omega⟩
    rw [List.getElem?_cons_succ] at hi'
    cases k with
    | zero =>
      obtain rfl : a = i := by simpa using hi
      exact (tail.start_lt_stop hi').1
    | succ k => exact ih tail (by simpa using hi) hi' (by omega)

theorem index_eq (h : Laid pos is) (hi : is[k]? = some i) {k' : Nat} (hi' : is[k']? = some i')
    (same : i.start = i'.start) : k = k' := by
  have first := (h.start_lt_stop hi).2
  have second := (h.start_lt_stop hi').2
  rcases Nat.lt_trichotomy k k' with before | equal | after
  · have := h.stop_le hi hi' before
    omega
  · exact equal
  · have := h.stop_le hi' hi after
    omega

end Laid
end Instr
end Sidetable
