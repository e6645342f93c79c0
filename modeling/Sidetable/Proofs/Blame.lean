import Sidetable.Proofs.Constancy
import Sidetable.Proofs.Safety
import Sidetable.Proofs.Tiling

/-!
# What an error points at

A function that is refused was walked up to some instruction, and the error names the function and
the place of that instruction. There the bytes cannot be decoded, or the instruction is rejected, or
the function has ended already, or the body ends too early.
-/
namespace Sidetable

open Fault (Cause)

def Fault.Cause.Opens (pos : Nat) (cause : Cause) : Prop :=
  ∀ op sub pos', cause = .unsupportedOpcode op sub pos' → pos' = pos

/-! ## Opcodes that are not supported -/

namespace Leb128

def FailsPlainly {α : Type} (decode : List UInt8 → Except Cause α) : Prop :=
  ∀ bytes cause, decode bytes = .error cause → cause = .unexpectedEnd ∨ cause = .overflow

theorem FailsPlainly.bind {α β : Type} {decode : List UInt8 → Except Cause α}
    {f : α → Except Cause β}
    (h : FailsPlainly decode) (more : ∀ a cause, f a = .error cause → cause = .overflow) :
    FailsPlainly fun bytes => decode bytes >>= f := by
  intro bytes cause failed
  cases first : decode bytes with
  | error cause' =>
    simp only [first] at failed
    cases failed
    exact h bytes cause first
  | ok a =>
    simp only [first] at failed
    exact .inr (more a cause failed)

theorem failsPlainly_gather (more n : Nat) (bits : UInt64) : FailsPlainly (gather more n bits) := by
  intro bytes cause failed
  induction bytes generalizing more n bits with
  | nil =>
    cases more <;> cases failed <;> exact .inl rfl
  | cons c rest ih =>
    cases more with
    | zero =>
      cases failed
      exact .inr rfl
    | succ more =>
      simp only [gather] at failed
      split at failed
      · cases failed
      · exact ih _ _ _ failed

theorem failsPlainly_u32 : FailsPlainly decodeU32 := by
  intro bytes cause failed
  unfold decodeU32 at failed
  split at failed
  · cases failed
    exact .inr rfl
  · exact (failsPlainly_gather 5 0 0).bind (by rintro _ _ ⟨⟩) bytes cause failed

theorem failsPlainly_u64 : FailsPlainly decodeU64 :=
  (failsPlainly_gather 10 0 0).bind fun _ _ => nofun

theorem failsPlainly_s64 : FailsPlainly decodeS64 :=
  (failsPlainly_gather 10 0 0).bind fun _ _ => nofun

theorem failsPlainly_s32 : FailsPlainly decodeS32 := by
  refine failsPlainly_s64.bind fun a cause failed => ?_
  dsimp only at failed
  split at failed
  · exact (Except.error.inj failed).symm
  · cases failed

theorem failsPlainly_s33 : FailsPlainly decodeS33 := by
  refine failsPlainly_s64.bind fun a cause failed => ?_
  dsimp only at failed
  split at failed
  · exact (Except.error.inj failed).symm
  · cases failed

end Leb128

namespace Read

variable {α β : Type} {r : Read α} {f : α → Read β} {pos : Nat}

def Blames (pos : Nat) (r : Read α) : Prop :=
  ∀ c f c', r c = .error f c' → f.cause.Opens pos

theorem blames_pure (a : α) : Blames pos (pure a) := by
  rintro c f c' ⟨⟩

theorem blames_fail {cause : Cause} (h : cause.Opens pos) : Blames pos (fail cause : Read α) := by
  rintro c f c' ⟨⟩
  exact h

theorem blames_bind (h : Blames pos r) (next : ∀ a, Blames pos (f a)) : Blames pos (r >>= f) := by
  intro c e c'' failed
  simp only [bind, EStateM.bind] at failed
  cases first : r c with
  | error e' c' =>
    rw [first] at failed
    cases failed
    exact h c _ _ first
  | ok a c' =>
    rw [first] at failed
    exact next a c' e c'' failed

theorem blames_map (g : α → β) (h : Blames pos r) : Blames pos (do return g (← r)) :=
  blames_bind h fun _ => blames_pure _

theorem blames_guard {p : Prop} [Decidable p] {cause : Cause} (h : cause.Opens pos)
    (next : Blames pos r) :
    Blames pos (do
      if p then fail cause
      r) := by
  by_cases fails : p
  · rw [if_pos fails]
    exact blames_bind (blames_fail h) fun _ => next
  · rw [if_neg fails]
    exact next

theorem blames_within (place : Fault.Place) (h : Blames pos r) : Blames pos (within place r) := by
  intro c f c' failed
  unfold within at failed
  split at failed
  · cases failed
  · rename_i found
    cases failed
    have inner := h c _ _ found
    exact inner

theorem blames_position : Blames pos position := by
  rintro c f c' ⟨⟩

theorem blames_byte : Blames pos byte := by
  intro c f c' failed
  unfold byte at failed
  split at failed
  · cases failed
    exact nofun
  · cases failed

theorem blames_number {decode : List UInt8 → Except Cause (α × Nat)}
    (h : Leb128.FailsPlainly decode) : Blames pos (Instr.number decode) := by
  intro c f c' failed
  unfold Instr.number at failed
  split at failed
  · cases failed
  · rename_i cause found
    cases failed
    rcases h _ _ found with rfl | rfl <;> exact nofun

theorem blames_index : Blames pos Instr.index :=
  blames_number Leb128.failsPlainly_u32

theorem blames_fixed (n : Nat) : Blames pos (Instr.fixed n) := by
  intro c f c' failed
  unfold Instr.fixed at failed
  split at failed
  · cases failed
  · cases failed
    exact nofun

theorem blames_times (h : Blames pos r) (n : Nat) : Blames pos (Instr.times r n) := by
  induction n with
  | zero => exact blames_pure _
  | succ n ih => exact blames_bind h fun _ => blames_map _ ih

theorem blames_valType : Blames pos Instr.valType := by
  refine blames_bind blames_byte fun b => ?_
  dsimp only
  split
  · exact blames_bind (blames_number Leb128.failsPlainly_s33) fun _ => blames_pure _
  · exact blames_pure _

theorem blames_memory : Blames pos Instr.memory := by
  have rest (align mem : UInt32) : Blames pos (do
      let offset ← Instr.number Leb128.decodeU64
      return Immediate.memory offset align mem) :=
      blames_map _ (blames_number Leb128.failsPlainly_u64)
  refine blames_bind blames_index fun align => ?_
  dsimp only
  split
  · exact blames_bind (blames_pure _) fun _ => rest _ _
  · exact blames_bind blames_index fun _ => blames_bind (blames_pure _) fun _ => rest _ _

theorem blames_operands (size start : Nat) (op : UInt8) :
    Blames start (Instr.operands size start op) := by
  have own (sub : UInt32) : (Cause.unsupportedOpcode op sub start).Opens start := by
    rintro _ _ _ ⟨⟩
    rfl
  unfold Instr.operands
  cases Immediate.Kind.ofOpcode op with
  | none => exact blames_pure _
  | block | heap => exact blames_map _ (blames_number Leb128.failsPlainly_s33)
  | i32 => exact blames_map _ (blames_number Leb128.failsPlainly_s32)
  | i64 => exact blames_map _ (blames_number Leb128.failsPlainly_s64)
  | f32 => exact blames_map _ (blames_fixed 4)
  | f64 => exact blames_map _ (blames_fixed 8)
  | labels =>
    refine blames_bind blames_index fun count => blames_guard nofun ?_
    exact blames_bind (blames_times blames_index _) fun _ => blames_map _ blames_index
  | indirect => exact blames_bind blames_index fun _ => blames_map _ blames_index
  | memory => exact blames_map _ blames_memory
  | types =>
    exact blames_bind blames_index fun count =>
      blames_guard nofun (blames_map _ (blames_times blames_valType _))
  | misc =>
    refine blames_bind blames_index fun sub => ?_
    split
    · exact blames_pure _
    · exact blames_map _ (blames_times blames_index _)
    · exact blames_fail (own sub)
  | foreignFamily => exact blames_bind blames_index fun sub => blames_fail (own sub)
  | unsupported => exact blames_fail (own 0)
  | _ => exact blames_map _ blames_index

/-- A read that starts by noting its position blames what stands there. -/
theorem opens_of_position {next : Nat → Read α} {c stop : Cursor} {e : Fault}
    (h : ∀ pos, Blames pos (next pos))
    (failed : (position >>= next) c = .error e stop) : e.cause.Opens c.pos :=
  h c.pos c e stop failed

end Read

open Read in
/-- An opcode that is not supported is that of the instruction to be read. -/
theorem Instr.opens_of_read {size : Nat} {c stop : Cursor} {f : Fault}
    (h : Instr.read size c = .error f stop) : f.cause.Opens c.pos := by
  unfold Instr.read at h
  refine opens_of_position (fun pos => ?_) h
  refine blames_bind blames_byte fun op =>
    blames_bind (blames_within _ (blames_operands _ _ _)) fun _ => ?_
  exact blames_map _ blames_position

/-! ## Runs that are refused -/

namespace Walk

variable {code : List UInt8} {w w' : Walk} {s e fuel count : Nat} {is : List Instr.Located}
    {v : Verdict}

/-- The instructions `is` stand one after the other from offset `s` to offset `e`; each finds a
frame open and succeeds. -/
inductive Passes (code : List UInt8) : Walk → Nat → List Instr.Located → Walk → Nat → Prop where
  | nil (w : Walk) (s : Nat) : Passes code w s [] w s
  | cons {w mid w' : Walk} {s e : Nat} {i : Instr.Located} {is : List Instr.Located} {c : Cursor}
      (inside : w.frames ≠ []) (read : Instr.read code.length (.into code s) = .ok i c)
      (done : (w.moveTo i).step i.toInstr = .done mid) (rest : Passes code mid i.stop is w' e) :
      Passes code w s (i :: is) w' e

/-- Why the walk goes no further at offset `s`, and what is said of it. -/
inductive Stops (code : List UInt8) (w : Walk) (s : Nat) (d : Diagnostic)
    (cause : Option Problem) : Prop where
  | undecodable (f : Fault) (c : Cursor) (more : s < code.length) (inside : w.frames ≠ [])
      (failed : Instr.read code.length (.into code s) = .error f c)
      (known : ∀ op sub pos, f.cause ≠ .unsupportedOpcode op sub pos)
      (phase : d.phase = .decode) (kind : d.kind = .invalidData) (told : cause = some (.fault f))
  | unsupported (f : Fault) (c : Cursor) (op : UInt8) (sub : UInt32) (more : s < code.length)
      (inside : w.frames ≠ []) (failed : Instr.read code.length (.into code s) = .error f c)
      (opcode : f.cause = .unsupportedOpcode op sub s)
      (phase : d.phase = .compile) (kind : d.kind = .unsupported)
      (named : d.opcode = Opcode.name op sub) (told : cause = some (.fault f))
  | rejected (i : Instr.Located) (c : Cursor) (after : Walk) (why : Rejection)
      (more : s < code.length)
      (inside : w.frames ≠ []) (read : Instr.read code.length (.into code s) = .ok i c)
      (failed : (w.moveTo i).step i.toInstr = .failed after why) (phase : d.phase = .compile)
      (kind : d.kind = why.kind) (named : d.opcode = i.name) (told : d.detail = why.detail)
  /-- the function has ended already; what follows it is not decoded -/
  | trailing (more : s < code.length) (closed : w.frames = []) (phase : d.phase = .compile)
      (kind : d.kind = .invalidData)
  /-- the body ends and frames are open -/
  | unterminated (last : s = code.length) (inside : w.frames ≠ []) (phase : d.phase = .compile)
      (kind : d.kind = .invalidData)

/-- The verdict is an error that names the function of the walk and the offset where the walk
stops. -/
def Blamed (code : List UInt8) (w : Walk) (s : Nat) (v : Verdict) : Prop :=
  ∃ error d cause is w' e, v = .refused error ∧ error.problem.first? = some (d, cause) ∧
    d.path = [Diagnostic.funcPath w.gen.func] ∧ d.offset = some (UInt32.ofNat e) ∧ e ≤ code.length ∧
    w.Passes code s is w' e ∧ w'.Stops code e d cause

theorem blamed_next {i : Instr.Located} {c : Cursor} (inside : w.frames ≠ [])
    (read : Instr.read code.length (.into code s) = .ok i c)
    (done : (w.moveTo i).step i.toInstr = .done w')
    (rest : w'.Blamed code i.stop v) : w.Blamed code s v := by
  have same := keeps_step (w.moveTo i) i.toInstr w' (by rw [done]; rfl)
  obtain ⟨error, d, cause, is, last, e, refused, first, path, offset, bound, passes, stops⟩ := rest
  rw [same.func] at path
  exact ⟨error, d, cause, i :: is, last, e, refused, first, path, offset, bound,
    .cons inside read done passes, stops⟩

theorem blamed_here {error : CompileError} {d : Diagnostic} {cause : Option Problem}
    (first : error.problem.first? = some (d, cause))
    (path : d.path = [Diagnostic.funcPath w.gen.func])
    (offset : d.offset = some (UInt32.ofNat s)) (bound : s ≤ code.length)
    (stops : w.Stops code s d cause) : w.Blamed code s (.refused error) :=
  ⟨error, d, cause, [], w, s, rfl, first, path, offset, bound, .nil w s, stops⟩

theorem Paired.blamed_finish (paired : w.Paired)
    (fails : ∀ md, (w.finish code.length count).verdict ≠ .accepted md) :
    w.Blamed code code.length (w.finish code.length count).verdict := by
  unfold finish at fails ⊢
  by_cases closed : w.frames.isEmpty
  · have finished := paired.ended (by simpa [shapes] using closed)
    rw [if_pos closed, Generator.finalize, if_pos finished] at fails
    exact absurd rfl (fails _)
  · rw [if_neg closed]
    exact blamed_here rfl rfl rfl le_rfl (.unterminated rfl (by simpa using closed) rfl rfl)

theorem blamed_undecodable {f : Fault} {c : Cursor} (more : s < code.length)
    (inside : w.frames ≠ []) (failed : Instr.read code.length (.into code s) = .error f c) :
    w.Blamed code s (.refused (.undecodable w.gen.func s f)) := by
  have opens := Instr.opens_of_read failed
  cases cause : f.cause with
  | unsupportedOpcode op sub pos =>
    obtain rfl : pos = s := opens op sub pos cause
    refine blamed_here (by simp only [CompileError.problem, cause]; rfl) rfl rfl more.le ?_
    exact .unsupported f c op sub more inside failed cause rfl rfl rfl rfl
  | _ =>
    refine blamed_here (by simp only [CompileError.problem, cause]; rfl) rfl rfl more.le ?_
    exact .undecodable f c more inside failed (by simp [cause]) rfl rfl rfl

/-- A run that does not accept stops at an offset, and the error points there. -/
theorem Paired.blamed_run (paired : w.Paired) (bound : s ≤ code.length)
    (enough : code.length - s ≤ fuel)
    (fails : ∀ md, (run code.length fuel count w (.into code s)).verdict ≠ .accepted md) :
    w.Blamed code s (run code.length fuel count w (.into code s)).verdict := by
  induction fuel generalizing w s count with
  | zero =>
    obtain rfl : s = code.length := by omega
    exact paired.blamed_finish fails
  | succ fuel ih =>
    unfold run at fails ⊢
    by_cases none : (Cursor.into code s).rest.isEmpty
    · obtain rfl : s = code.length := by
        have : code.length ≤ s := by simpa [Cursor.into] using none
        omega
      rw [if_pos none] at fails ⊢
      exact paired.blamed_finish fails
    · have more : s < code.length := by simpa [Cursor.into] using none
      rw [if_neg none] at fails ⊢
      by_cases closed : w.frames.isEmpty
      · rw [if_pos closed]
        exact blamed_here rfl rfl rfl bound (.trailing more (by simpa using closed) rfl rfl)
      · have inside : w.frames ≠ [] := by simpa using closed
        rw [if_neg closed] at fails ⊢
        cases read : Instr.read code.length (.into code s) with
        | error f c => exact blamed_undecodable more inside read
        | ok i c =>
          rw [read] at fails
          have fits := (Instr.read_ok read).2.2.2.2.1
          have safe := (paired.moveTo i).safe_step inside fits (Instr.complete_of_read read)
          obtain ⟨used, some, -, split, start, stop, rfl⟩ := Instr.read_into read
          dsimp only at fails ⊢
          cases walked : (w.moveTo i).step i.toInstr with
          | breach b => exact absurd walked (safe b)
          | failed after why =>
            have same := keeps_step (w.moveTo i) i.toInstr after (by rw [walked]; rfl)
            have path := congrArg (fun func => [Diagnostic.funcPath func]) same.func
            refine blamed_here rfl path (by rw [start]) bound ?_
            exact .rejected i _ after why more inside read walked rfl rfl rfl rfl
          | done after =>
            rw [walked] at fails
            have long : i.stop ≤ code.length ∧ s < i.stop := by
              have := congrArg List.length split
              have := List.length_pos_iff.mpr some
              simp only [List.length_drop, List.length_append] at *
              omega
            have nested : (w.moveTo i).shapes ≠ [] := by simpa [shapes, Walk.moveTo] using inside
            have turned := (paired.moveTo i).turn nested (step_turn fits walked).2
            exact blamed_next inside read walked (ih turned long.1 (by omega) fails)

end Walk

namespace Job

/-- A function that is not accepted is refused by an error that names it, and the walk stops at the
offset that the error gives. -/
theorem refusals_point_at_stop (j : Job) (found : (j.mod.bodyOf j.func).isSome)
    (typed : (j.mod.funcType j.func).isSome) (inside : j.base ≤ j.body.bytes.length)
    (short : j.body.bytes.length < 2 ^ 31) (fails : ∀ md, ¬ j.Accepted md) :
    ∃ error d cause o is w, (j.mod.compileFunction j.cfg false j.func).verdict = .refused error ∧
      error.problem.first? = some (d, cause) ∧ d.path = [Diagnostic.funcPath j.func] ∧
      d.offset = some o ∧ o.toNat ≤ j.body.bytes.length ∧
      j.start.Passes j.body.bytes j.base is w o.toNat ∧ w.Stops j.body.bytes o.toNat d cause := by
  have run := compile_eq_run found typed
  have refused : ∀ md, (Walk.run j.body.bytes.length j.body.cursor.rest.length 0 j.start
      (.into j.body.bytes j.base)).verdict ≠ .accepted md := by
    intro md accepted
    refine fails md ?_
    rw [Accepted, run]
    exact accepted
  obtain ⟨error, d, cause, is, w, e, verdict, first, path, offset, bound, passes, stops⟩ :=
    (Walk.Paired.start j).blamed_run inside (List.length_drop.symm.le) refused
  have small : e < UInt32.size := bound.trans_lt (short.trans (by decide))
  have place : (UInt32.ofNat e).toNat = e := UInt32.toNat_ofNat_of_lt' small
  rw [gen_start] at path
  refine ⟨error, d, cause, UInt32.ofNat e, is, w, ?_, first, path, offset, ?_⟩
  · rw [run]
    exact verdict
  · rw [place]
    exact ⟨bound, passes, stops⟩

/-- An opcode that is not supported, behind a branch in code that is not reached. -/
theorem refusals_point_at_stop_dead :
    let j : Job := {
      mod := {
        types := [⟨[], []⟩], funcs := [0]
        code := [⟨[], some [0, 0x02, 0x40, 0x0c, 0, 0x41, 5, 0xfb, 1, 0x0b, 0x0b], [], 1⟩] }
      cfg := {}, func := 0 }
    (j.mod.bodyOf j.func).isSome ∧ (j.mod.funcType j.func).isSome ∧ j.base ≤ j.body.bytes.length ∧
      j.body.bytes.length < 2 ^ 31 ∧ (∀ md, ¬ j.Accepted md) ∧
      ∃ d cause is w, d.path = [Diagnostic.funcPath 0] ∧ d.offset = some 7 ∧
        j.start.Passes j.body.bytes 1 is w 7 ∧ w.Stops j.body.bytes 7 d cause := by
  intro j
  have verdict : (j.mod.compileFunction j.cfg false j.func).verdict =
      .refused (.undecodable 0 7 ⟨[.instruction 0xfb 7], .unsupportedOpcode 0xfb 1 7⟩) := by
        decide +kernel
  have fails : ∀ md, ¬ j.Accepted md := by
    intro md accepted
    rw [Accepted, verdict] at accepted
    cases accepted
  have found : (j.mod.bodyOf j.func).isSome := by decide
  have typed : (j.mod.funcType j.func).isSome := by decide
  have inside : j.base ≤ j.body.bytes.length := by decide
  refine ⟨found, typed, inside, by decide, fails, ?_⟩
  obtain ⟨error, d, cause, o, is, w, refused, first, path, offset, -, passes, stops⟩ :=
    refusals_point_at_stop j found typed inside (by decide) fails
  obtain rfl := Verdict.refused.inj (verdict.symm.trans refused)
  obtain rfl : o = 7 := by
    obtain ⟨rfl, -⟩ := Prod.mk.inj (Option.some.inj first)
    exact (Option.some.inj offset).symm
  have base : j.base = 1 := by decide
  rw [base] at passes
  exact ⟨d, cause, is, w, path, offset, passes, stops⟩

end Job
end Sidetable
