import Sidetable.Proofs.BlockTypes
import Sidetable.Proofs.Comparison

/-!
# Padded immediates

An immediate may be written in more bytes than it needs. Two bodies that decode to the same
instructions are both accepted or neither is, and their side tables are the same but for lengths of
instructions and for offsets into the code, which name the same instructions.
-/
namespace Sidetable

namespace Job

variable {j j' : Job} {b b' : FuncBody} {k n : Nat} {i i' : Instr.Located}
    {is is' : List Instr.Located}
  {md md' : Metadata}

def Names (j : Job) (pc n : Nat) : Prop :=
  ∃ i, j.code[n]? = some i ∧ pc = (i.start - j.base) % 2 ^ 32

section Offsets

variable (laid : Instr.Laid j.base j.code) (found : j.code[k]? = some i)
include laid found

theorem names_after (more : k + 1 < j.code.length) : j.Names (j.after i).toNat (k + 1) := by
  have next : j.code[k + 1]? = some j.code[k + 1] := List.getElem?_eq_getElem more
  refine ⟨_, next, ?_⟩
  rw [toNat_after laid found, laid.stop_eq found next]

theorem names_end (bare : i.stop = i.start + 1) : j.Names (j.after i - 1).toNat k := by
  have inside := laid.start_lt_stop found
  refine ⟨i, found, ?_⟩
  rw [after, toNat_ofNat_sub_one (by rw [← base]; omega), bare]
  rfl

end Offsets

theorem Accepted.end_last (h : j.Accepted md) (found : j.code[k]? = some i)
    (last : k + 1 = j.code.length) : i.opcode = 0x0b := by
  obtain ⟨inside, -, turn⟩ := h.turn found
  have none : (j.walk (k + 1)).shapes = [] := by
    rw [last, Walk.shapes, (accepted_walk h).2.2.1]
    rfl
  cases turn with
  | skip d d' _ _ shapes _ _ _ => exact absurd (shapes.symm.trans none) inside
  | within _ _ _ shapes _ _ => exact absurd (shapes.symm.trans none) inside
  | enter o _ _ _ _ _ _ _ shapes _ => simp [none] at shapes
  | otherwise _ _ _ _ _ _ shapes' _ => simp [none] at shapes'
  | handle _ _ _ _ _ _ _ _ _ _ shapes' _ => simp [none] at shapes'
  | close _ _ _ _ opcode _ _ _ _ _ _ => exact opcode
  | delegate _ _ _ _ _ _ inner _ shapes' _ => exact absurd (shapes'.symm.trans none) inner

def NameOne (j j' : Job) (pc pc' : UInt32) : Prop :=
  ∃ n, j.Names pc.toNat n ∧ j'.Names pc'.toNat n

theorem Siblings.carries (siblings : j.Siblings j')
    (reads : j.body.decode = .ok j.code) (reads' : j'.body.decode = .ok j'.code)
    (same : j'.code.map Instr.Located.toInstr = j.code.map Instr.Located.toInstr) :
    Carries (NameOne j j') j j' id where
  siblings := siblings
  reads := reads
  reads' := reads'
  first := rfl
  last := by simpa using (congrArg List.length same).symm
  same k i found := by
    obtain ⟨laid, each⟩ := Instr.readAll_ok reads
    obtain ⟨laid', each'⟩ := Instr.readAll_ok reads'
    have lengths : j'.code.length = j.code.length := by simpa using congrArg List.length same
    have here : (j'.code.map Instr.Located.toInstr)[k]? = some i.toInstr := by
      rw [same, List.getElem?_map, found]
      rfl
    rw [List.getElem?_map] at here
    obtain ⟨i', found', eq⟩ := Option.map_eq_some_iff.mp here
    refine ⟨i', found', eq, fun _ more => ?_, fun opcode => ?_⟩
    · exact ⟨k + 1, names_after laid found more, names_after laid' found' (by rwa [lengths])⟩
    · refine ⟨k, names_end laid found ?_, names_end laid' found' ?_⟩
      · exact (each i (List.mem_of_getElem? found)).2.2 opcode
      · exact (each' i' (List.mem_of_getElem? found')).2.2 (eq ▸ opcode)
  gap k _ _ := ⟨Nat.lt_succ_self k, .inl rfl⟩

/-- Tables of the same size, whose entries stand at the same places and differ in offsets into the
code and lengths of instructions only. Corresponding offsets name the same instruction. -/
structure SameLayout (j j' : Job) (md md' : Metadata) : Prop where
  size : md'.size = md.size
  entries : ∀ k ≤ j.code.length, j'.mc k = j.mc k
  bytes : ∀ p, ¬ j.InField offsetFields p → ¬ j.InField lengthFields p →
    md'.bytes[p]? = md.bytes[p]?
  resumes : ∀ k i, j.code[k]? = some i → j.skips k = false → ∀ f ∈ resumeFields i.toInstr, ∃ pc pc',
    md.get? f.2 (j.mc k + f.1 : Nat) = some pc ∧ md'.get? f.2 (j.mc k + f.1 : Nat) = some pc' ∧
      j.Names pc (k + 1) ∧ j'.Names pc' (k + 1)
  targets : ∀ k i, j.code[k]? = some i → j.skips k = false → ∀ off ∈ targetOffsets i.toInstr,
    ∃ t t' n, md.target? (j.mc k + off : Nat) = some t ∧
      md'.target? (j.mc k + off : Nat) = some t' ∧ t'.mc = t.mc ∧
      j.Names t.pc.toNat n ∧ j'.Names t'.pc.toNat n

theorem Carries.sameLayout (carries : Carries (NameOne j j') j j' id) (accepted : j.Accepted md)
    (accepted' : j'.Accepted md') : SameLayout j j' md md' := by
  have laid := (Instr.readAll_ok carries.reads).1
  have laid' := (Instr.readAll_ok carries.reads').1
  have lengths : j'.code.length = j.code.length := carries.last.symm
  have frees : Frees j j' id fun p => j.InField offsetFields p ∨ j.InField lengthFields p := by
    intro k i i' found _ reached
    refine ⟨fun f mem p low high => .inl ?_, fun off mem p low high => .inl ?_,
      .inr fun f mem p low high => .inr ?_⟩
    · exact covers_resume found reached mem p low high
    · exact covers_target found reached mem p low high
    · exact covers_inField found reached mem p low high
  obtain ⟨size, bytes⟩ := carries.bytes accepted accepted' frees
  refine ⟨size, fun k le => carries.mc accepted le, fun p offset length => ?_, ?_, ?_⟩
  · exact bytes p fun either => either.elim offset length
  · intro k i found reached f mem
    have inside : k < j.code.length := (List.getElem?_eq_some_iff.mp found).1
    obtain ⟨i', found', same, -⟩ := carries.same k i found
    have reached' : j'.skips k = false := (carries.skips accepted inside).trans reached
    have more : k + 1 < j.code.length := by
      refine Nat.lt_of_le_of_ne inside fun last => ?_
      have opcode := accepted.end_last found last
      simp [resumeFields, opcode] at mem
    have resume' : md'.get? f.2 (j'.mc k + f.1 : Nat) = _ :=
      accepted'.resumes found' reached' (same ▸ mem)
    rw [show j'.mc k = j.mc k from carries.mc accepted (Nat.le_of_lt inside)] at resume'
    exact ⟨_, _, accepted.resumes found reached mem, resume', names_after laid found more,
      names_after laid' found' (by rwa [lengths])⟩
  · intro k i found reached off mem
    obtain ⟨t, t', target, target', ⟨n, name, name'⟩, mc⟩ :=
      carries.targets accepted accepted' found reached mem
    exact ⟨t, t', n, target, target', mc, name, name'⟩

/-- Two bodies that decode to the same instructions, however these are written, are both accepted or
neither is. Their side tables have one layout: they agree on everything but lengths of instructions
and offsets into the code, and corresponding offsets name the same instruction. -/
theorem encodings_share_layout (j : Job) {b b' : FuncBody} {is is' : List Instr.Located}
    (decoded : b.decode = .ok is) (decoded' : b'.decode = .ok is')
    (same : is'.map Instr.Located.toInstr = is.map Instr.Located.toInstr)
    (locals : b'.numLocals = b.numLocals) :
    ((∃ md, (j.withBody b).Accepted md) ↔ ∃ md', (j.withBody b').Accepted md') ∧
      ∀ md md', (j.withBody b).Accepted md → (j.withBody b').Accepted md' →
        SameLayout (j.withBody b) (j.withBody b') md md' := by
  by_cases found : (j.mod.bodyOf j.func).isSome
  · obtain ⟨code, reads⟩ := code_withBody found decoded
    obtain ⟨code', reads'⟩ := code_withBody found decoded'
    have carries := (siblings_withBody found locals).carries (code ▸ reads) (code' ▸ reads')
      (by rw [code, code', same])
    exact ⟨carries.accepted_iff, fun md md' => carries.sameLayout⟩
  · have refused (b : FuncBody) : ∀ md, ¬ (j.withBody b).Accepted md :=
      fun md accepted => found (found_of_withBody accepted)
    refine ⟨?_, fun md md' accepted => absurd accepted (refused b md)⟩
    exact iff_of_false (not_exists.mpr (refused b)) (not_exists.mpr (refused b'))

def padded : FuncBody where
  body := some [
    0x80, 0x00,                                            -- no locals
    0x02, 0xc0, 0x7f, 0x03, 0x40,                          -- block, loop
    0x20, 0x80, 0x00, 0x04, 0x40,                          -- local.get 0, if
    0x20, 0x00, 0x0e, 0x82, 0x00, 0x00, 0x81, 0x80, 0x00, 0x02, -- local.get 0, br_table 0 1 2
    0x41, 0x87, 0x80, 0x00, 0x05,                          -- i32.const 7, else
    0x20, 0x00, 0x0d, 0x81, 0x00,                          -- local.get 0, br_if 1
    0x0b, 0x0b, 0x0b,                                      -- end, end, end
    0x06, 0x40, 0x0c, 0x00, 0x18, 0x80, 0x00,              -- try, br 0, delegate 0
    0x20, 0x00, 0x04, 0x40, 0x0b,                          -- local.get 0, if, end
    0x20, 0x00, 0x0b]                                      -- local.get 0, end
  codeOffset := 2

def paddedTable : Metadata :=
  { sampleTable with
    bytes := [
      3, 0, 0, 0, 0, 0, 0, 0,   5, 0, 0, 0, 0, 0, 0, 0,   0, 0, 0, 0, 3, 0, 0, 0,
      25, 0, 0, 0, 112, 0, 0, 0,
      10, 0, 0, 0, 0, 0, 0, 0,  0, 0, 0, 0, 2, 0, 0, 0,   3, 0, 0, 0, 0, 0, 0, 0,
      30, 0, 0, 0, 136, 0, 0, 0,
      0, 0, 0, 0, 20, 0, 0, 0,  5, 0, 0, 0, 16, 0, 0, 0,  0, 0, 0, 0, 20, 0, 0, 0,
      32, 0, 0, 0, 136, 0, 0, 0,
      0, 0, 0, 0, 20, 0, 0, 0,  30, 0, 0, 0, 136, 0, 0, 0,  0, 0, 0, 0, 2, 0, 0, 0,
      5, 0, 0, 0, 16, 0, 0, 0,
      0, 0, 0, 0, 30, 0, 0, 0,  40, 0, 0, 0, 152, 0, 0, 0,  0, 0, 0, 0, 37, 0, 0, 0,
      0, 0, 0, 0, 2, 0, 0, 0,
      45, 0, 0, 0, 176, 0, 0, 0,  44, 0, 0, 0, 0, 0, 0, 0,  0, 0, 0, 0, 2, 0, 0, 0,
      8, 0, 127, 0, 0, 0, 0, 0]
    bytecodeOffset := 2
    bytecodeLength := 50 }

theorem encodings_share_layout_padded : padded.bytes.length = sample.body.bytes.length + 10 ∧
    (sample.withBody sample.body).Accepted sampleTable ∧
    (sample.withBody padded).Accepted paddedTable ∧
    SameLayout (sample.withBody sample.body) (sample.withBody padded) sampleTable paddedTable := by
  have accepted : (sample.withBody sample.body).Accepted sampleTable := by decide +kernel
  have accepted' : (sample.withBody padded).Accepted paddedTable := by decide +kernel
  have decoded : sample.body.decode = .ok (sample.withBody sample.body).code := by decide +kernel
  have decoded' : padded.decode = .ok (sample.withBody padded).code := by decide +kernel
  exact ⟨by decide +kernel, accepted, accepted',
    (encodings_share_layout sample decoded decoded' (by decide +kernel) (by decide +kernel)).2 _ _
    accepted accepted'⟩

end Job
end Sidetable
