import Sidetable.Proofs.BlockTypes
import Sidetable.Proofs.Chunks
import Sidetable.Proofs.Comparison
import Sidetable.Proofs.Constancy
import Sidetable.Proofs.Tiling

/-!
# Bodies and what their tables say of them

Reading a module, walking a body and generating its table each count offsets and locals on their
own. For a body that was read and accepted the counts agree: the instructions fill the body up to
the `end` of the function, the table tells where they start, how long the body is and how many
locals there are, and every offset into the code that the table holds is one where an instruction
starts or the body ends.
-/
namespace Sidetable

/-! ## Bodies that were read -/

/-- The body is as long as a size can say, its instructions start inside it, and it declares few
locals. -/
structure FuncBody.Framed (b : FuncBody) : Prop where
  short : b.bytes.length < 2 ^ 32
  inside : b.codeOffset.toNat ≤ b.bytes.length
  locals : b.numLocals ≤ Read.maxLocals

namespace Read

variable {c stop : Cursor}

theorem localRuns_le {runs : List LocalRun} (h : localRuns c = .ok runs stop) :
    LocalRun.total runs ≤ maxLocals := by
  obtain ⟨all, c₁, -, h⟩ := bind_ok.mp h
  by_cases many : maxLocals < LocalRun.total all
  · simp only [if_pos many] at h
    cases h
  · simp only [if_neg many] at h
    cases h
    exact Nat.not_lt.mp many

theorem framed_funcBody {b : FuncBody} (h : funcBody c = .ok b stop) : b.Framed := by
  obtain ⟨size, c₁, -, h⟩ := bind_ok.mp h
  obtain ⟨raw, c₂, taken, h⟩ := bind_ok.mp h
  obtain ⟨⟨runs, offset⟩, c₃, header, h⟩ := bind_ok.mp h
  cases h
  obtain ⟨-, -, -, -, length⟩ := finds_bytes size.toNat c₁ raw c₂ taken
  have short : raw.length < 2 ^ 32 := length ▸ size.toNat_lt
  obtain ⟨-, -, -, -, c₄, header⟩ := finds_onBytes raw _ c₂ _ stop header
  obtain ⟨all, c₅, declared, rest⟩ := bind_ok.mp header
  cases rest
  have ahead := stays_localRuns (.ofBytes raw)
  rw [declared] at ahead
  obtain ⟨n, le, rfl⟩ := ahead
  refine ⟨short, ?_, localRuns_le declared⟩
  have start : ((Cursor.ofBytes raw).advance n).pos = n := Nat.zero_add n
  rw [start, UInt32.toNat_ofNat_of_lt' (le.trans_lt short)]
  exact le

end Read

theorem Module.framed_of_parse {b : List UInt8} {m : Module} (h : Module.parse b = .ok m) :
    ∀ body ∈ m.code, body.Framed := by
  refine parse_induction (P := fun m => ∀ body ∈ m.code, body.Framed)
    (fun _ member => nomatch member) ?_ h
  intro m s framed read
  obtain ⟨id, c, stop, read⟩ := read
  have items := Section.items_of_read read
  cases s with
  | code bodies =>
    obtain ⟨stop, items⟩ := items
    exact Read.each_of_vector (fun _ _ _ => Read.framed_funcBody) items
  | _ => exact framed

theorem Job.framed_of_parse {b : List UInt8} {j : Job} {md : Metadata}
    (h : Module.parse b = .ok j.mod) (accepted : j.Accepted md) : j.body.Framed := by
  obtain ⟨body, found⟩ := Option.isSome_iff_exists.mp (accepted_found accepted).1
  have same : j.body = body := by
    rw [Job.body, found]
    rfl
  rw [Module.bodyOf] at found
  split at found
  · cases found
  · rw [same]
    exact Module.framed_of_parse h body (List.mem_of_getElem? found)

/-! ## How deep the code is nested -/

def Instr.depthAfter (i : Instr) (depth : Nat) : Nat :=
  if i.opens then depth + 1 else if i.shuts then depth - 1 else depth

theorem length_enclosing_succ {code : List Instr.Located} {k : Nat} {i : Instr.Located}
    (found : code[k]? = some i) :
    (enclosing code (k + 1)).length = i.depthAfter (enclosing code k).length := by
  rw [Instr.depthAfter, enclosing, found]
  dsimp only
  split
  · rfl
  · split
    · exact List.length_tail
    · rfl

namespace Walk

variable {w w' : Walk} {i : Instr}

def depth (w : Walk) : Nat :=
  w.shapes.length + w.dead.getD 0

theorem Turn.depth (turn : w.Turn i w') : w'.depth = i.depthAfter w.depth := by
  unfold Walk.depth Instr.depthAfter
  cases turn with
  | skip d d' _ _ shapes dead dead' nested =>
    rw [shapes, dead, dead']
    simp only [Option.getD_some]
    split at nested
    · rw [if_pos ‹_›, nested, Nat.add_assoc]
    · rw [if_neg ‹_›]
      split at nested
      · rw [if_pos ‹_›]
        omega
      · rw [if_neg ‹_›, nested]
  | within live own _ shapes _ dead =>
    obtain ⟨opens, shuts, -⟩ := Instr.of_not_structural own
    have zero : w'.dead.getD 0 = 0 := by
      rw [dead]
      split <;> rfl
    simp [opens, shuts, shapes, live, zero]
  | enter o type sig live opcode _ _ _ shapes dead =>
    have opens : i.opens := by cases o <;> simp [Instr.opens, opcode, Opener.opcode]
    simp [opens, shapes, live, dead]
  | otherwise sig rest opcode live shapes _ shapes' dead =>
    have inner : i.opens = false ∧ i.shuts = false := by simp [Instr.opens, Instr.shuts, opcode]
    simp [inner, shapes, shapes', live, dead]
  | handle kind last handler sig rest opcode live _ shapes _ shapes' dead =>
    have inner : i.opens = false ∧ i.shuts = false := by
      rcases opcode with opcode | opcode <;> simp [Instr.opens, Instr.shuts, opcode]
    simp [inner, shapes, shapes', live, dead]
  | close kind sig rest mid opcode live shapes _ _ shapes' dead =>
    have outer : i.opens = false ∧ i.shuts := by simp [Instr.opens, Instr.shuts, opcode]
    simp [outer, shapes, shapes', live, dead]
  | delegate d sig rest opcode live shapes _ _ shapes' dead =>
    have outer : i.opens = false ∧ i.shuts := by simp [Instr.opens, Instr.shuts, opcode]
    simp [outer, shapes, shapes', live, dead]

theorem Turn.of_last (turn : w.Turn i w') (inside : w.shapes ≠ []) (none : w'.shapes = []) :
    i.opcode = 0x0b ∧ w.dead.getD 0 = 0 ∧ ∃ shape mid, w.shapes = [shape] ∧
      (if shape.1 = .cond false then w.gen.apply .otherwise = .done mid else mid = w.gen) ∧
      mid.apply .close = .done w'.gen := by
  cases turn with
  | skip _ _ _ _ shapes => exact absurd (shapes.symm.trans none) inside
  | within _ _ _ shapes => exact absurd (shapes.symm.trans none) inside
  | enter _ _ _ _ _ _ _ _ shapes => simp [shapes] at none
  | otherwise _ _ _ _ _ _ shapes' => simp [shapes'] at none
  | handle _ _ _ _ _ _ _ _ _ _ shapes' => simp [shapes'] at none
  | close kind sig rest mid opcode live shapes completed done shapes' =>
    obtain rfl := shapes'.symm.trans none
    exact ⟨opcode, live, _, mid, shapes, completed, done⟩
  | delegate _ _ rest _ _ _ inner _ shapes' => exact absurd (shapes'.symm.trans none) inner

end Walk

namespace Job

variable {j : Job} {md : Metadata} {k : Nat} {i : Instr.Located}

theorem Accepted.fits (accepted : j.Accepted md) (found : j.code[k]? = some i) : i.Fits :=
  ((Instr.readAll_ok (accepted_walk accepted).1).2 i (List.mem_of_getElem? found)).2.1

/-- What holds at the start and over every instruction holds to the end. -/
theorem along_code {P : Nat → Prop} (first : P 0)
    (next : ∀ k i, j.code[k]? = some i → P k → P (k + 1)) (le : k ≤ j.code.length) : P k := by
  induction k with
  | zero => exact first
  | succ k ih =>
    exact next k _ (List.getElem?_eq_getElem (Nat.lt_of_succ_le le)) (ih (Nat.le_of_succ_le le))

/-- The structures that the opcodes open are those that the walk counts. -/
theorem Accepted.depth (accepted : j.Accepted md) (le : k ≤ j.code.length) :
    (enclosing j.code k).length = (j.walk k).depth := by
  refine along_code (P := fun k => (enclosing j.code k).length = (j.walk k).depth) rfl
    (fun k i found same => ?_) le
  rw [length_enclosing_succ found, same, (accepted.turn found).2.2.depth]
  rfl

theorem Accepted.root (accepted : j.Accepted md) (le : k ≤ j.code.length) :
    (j.walk k).shapes ≠ [] → (enclosing j.code k).getLast? = some .function := by
  refine along_code
    (P := fun k => (j.walk k).shapes ≠ [] → (enclosing j.code k).getLast? = some .function)
    (fun _ => rfl) (fun k i found before inside => ?_) le
  have last := before (accepted.turn found).1
  have more : (enclosing j.code (k + 1)).length ≠ 0 := by
    rw [accepted.depth (List.getElem?_eq_some_iff.mp found).1]
    exact Nat.ne_of_gt (Nat.add_pos_left (List.length_pos_iff.mpr inside) _)
  rcases enclosing_succ j.code k with eq | eq | eq
  · rw [eq, List.getLast?_cons, last]
    rfl
  · rw [eq, List.length_tail] at more
    rw [eq, List.getLast?_tail, if_neg (by omega), last]
  · rw [eq, last]

end Job

/-! ## The end of the function -/

namespace Generator

variable {g g' : Generator} {l : Ledger} {md : Metadata}

theorem Records.length_of_close {s : Scope} {rest : List Scope} (records : g.Records l)
    (top : g.scopes = s :: rest) (kind : s.kind = .toplevel) (done : g.apply .close = .done g') :
    g'.bytecodeLength = g.site.stop := by
  have plan := (records.did done).plan
  have site : g'.site = g.site := (congrArg Generator.site plan : g'.plan.site = g.plan.site)
  simp only [Generator.apply, Generator.close, top, kind] at done
  obtain ⟨m, -, more⟩ := Outcome.andThen_done.mp done
  obtain ⟨n, emitted, last⟩ := Outcome.andThen_done.mp more
  obtain rfl := Outcome.done.inj last
  obtain ⟨-, rfl⟩ := emit_eq_done.mp emitted
  exact congrArg Site.stop site

theorem counts_of_finalize (h : g.finalize = .ok md) : md.bytecodeOffset = g.bytecodeOffset ∧
    md.bytecodeLength = g.bytecodeLength ∧ md.numLocals = g.numLocals := by
  unfold finalize at h
  split at h
  · obtain rfl := Except.ok.inj h
    exact ⟨rfl, rfl, rfl⟩
  · cases h

end Generator

namespace Job

variable {j : Job} {md : Metadata} {k : Nat} {i : Instr.Located}

/-- The last instruction is the `end` that closes the function. -/
theorem Accepted.ends_function (accepted : j.Accepted md) : ∃ front last, j.code = front ++ [last] ∧
    last.opcode = 0x0b ∧ Closes j.code .function front.length last ∧
      md.bytecodeLength = UInt32.ofNat last.stop := by
  obtain ⟨-, -, closed, final⟩ := accepted_walk accepted
  rcases List.eq_nil_or_concat' j.code with none | ⟨front, last, split⟩
  · rw [none] at closed
    cases closed
  have found : j.code[front.length]? = some last := by simp [split]
  have length : j.code.length = front.length + 1 := by simp [split]
  rw [length] at closed final
  have before : front.length ≤ j.code.length := by omega
  have inside := (accepted.turn found).1
  have paired := (accepted.paired before).2
  have none : (j.walk (front.length + 1)).shapes = [] := by rw [Walk.shapes, closed, List.map_nil]
  obtain ⟨opcode, live, shape, mid, shapes, completed, done⟩ :=
    (accepted.turn found).2.2.of_last inside none
  have shapes : (j.walk front.length).shapes = [shape] := shapes
  have function : shape.1 = .function := paired.root shape (by simp [shapes])
  refine ⟨front, last, split, opcode, ⟨found, by simp [Instr.shuts, opcode], ?_⟩, ?_⟩
  · have one : (enclosing j.code front.length).length = 1 := by
      rw [accepted.depth before, Walk.depth, shapes]
      exact congrArg _ live
    obtain ⟨r, eq⟩ := List.length_eq_one_iff.mp one
    have root := accepted.root before inside
    rw [eq] at root ⊢
    exact root
  · rw [if_neg (by rw [function]; decide)] at completed
    obtain ⟨l, records⟩ := (paired.moveTo last).recorded
    obtain ⟨s, rest, pairs, -, scopes⟩ := List.forall₂_cons_left_iff.mp (shapes ▸ paired.scopes)
    have kind : s.kind = .toplevel := by rw [pairs.kind, function]; rfl
    rw [completed] at done
    rw [(Generator.counts_of_finalize final).2.1, records.length_of_close scopes kind done]
    rfl

theorem Accepted.stop_last (accepted : j.Accepted md) (framed : j.body.Framed)
    {front : List Instr.Located} {last : Instr.Located} (split : j.code = front ++ [last]) :
    last.stop = j.body.bytes.length := by
  have reads := (accepted_walk accepted).1
  have laid := code_laid accepted
  have found : j.code[front.length]? = some last := by simp [split]
  have whole : j.body.cursor.pos + j.body.cursor.rest.length = j.body.bytes.length := by
    have := framed.inside
    simp only [FuncBody.cursor, List.length_drop]
    omega
  have bound := ((Instr.readAll_ok reads).2 last (List.mem_of_getElem? found)).1
  obtain ⟨low, some⟩ := laid.start_lt_stop found
  obtain ⟨i, member, -, beyond⟩ :=
    (Instr.readAll_covers reads le_rfl (j.body.bytes.length - 1)).mpr (by
    have : j.base = j.body.cursor.pos := rfl
    omega)
  obtain ⟨k, found'⟩ := List.getElem?_of_mem member
  have le : k ≤ front.length := by
    have := (List.getElem?_eq_some_iff.mp found').1
    simp only [split, List.length_append, List.length_singleton] at this
    omega
  rcases le.eq_or_lt with rfl | before
  · obtain rfl := Option.some.inj (found.symm.trans found')
    omega
  · have := laid.stop_le found' found before
    omega

end Job

/-! ## Locals -/

theorem Walk.local_lt {w w' : Walk} {i : Instr} {index : UInt32} (fits : i.Fits)
    (live : w.dead = none) (names : i.imm = .localIndex index) (done : w.step i = .done w') :
    index.toNat < w.numLocals := by
  have plain : i.action = .plain := by
    have marks := Immediate.Kind.marks_ofOpcode i.opcode
    obtain ⟨opcode, sub, imm⟩ := i
    cases names
    rcases fits with kind | ⟨-, none, -⟩
    · rw [kind] at marks
      rcases marks with eq | eq | eq <;> cases eq <;> rfl
    · cases none
  simp only [Walk.step, live, stepLive, plain, Walk.plain] at done
  split at done
  · cases done
  · obtain ⟨m, popped, rest⟩ := Outcome.andThen_done.mp done
    obtain ⟨n, named, -⟩ := Outcome.andThen_done.mp rest
    obtain ⟨f, others, frames, rfl⟩ := pop_done popped
    simp only [Walk.operands, names] at named
    split at named
    · cases named
    · rename_i inside
      exact Nat.not_le.mp inside

namespace Job

variable {j : Job} {md : Metadata} {k : Nat} {i : Instr.Located}

def numLocals (j : Job) : Nat :=
  j.sig.params.length + j.body.numLocals

theorem Accepted.walk_numLocals (accepted : j.Accepted md) (le : k ≤ j.code.length) :
    (j.walk k).numLocals = j.numLocals := by
  refine along_code (P := fun k => (j.walk k).numLocals = j.numLocals) rfl
    (fun k i found same => ?_) le
  have kept := Walk.keeps_step ((j.walk k).moveTo i) i.toInstr (j.walk (k + 1))
    (by rw [(step_done accepted found).2]; rfl)
  exact kept.numLocals.trans same

theorem Accepted.gen_numLocals (accepted : j.Accepted md) (le : k ≤ j.code.length) :
    (j.walk k).gen.numLocals = UInt32.ofNat j.numLocals := by
  refine along_code (P := fun k => (j.walk k).gen.numLocals = UInt32.ofNat j.numLocals) ?_ ?_ le
  · rw [walk_zero, gen_start]
    rfl
  · intro k i found same
    have before := (accepted.paired (List.getElem?_eq_some_iff.mp found).1.le).2
    have plan := Walk.step_plan (before.moveTo i) (accepted.fits found) (step_done accepted found).2
    exact (congrArg Generator.numLocals plan : (j.walk (k + 1)).gen.plan.numLocals = _).trans same

/-! ## Offsets into the code -/

def Boundary (j : Job) (offset : Nat) : Prop :=
  offset = j.body.bytes.length ∨ ∃ i ∈ j.code, i.start = offset

def Starts (j : Job) (pc : UInt32) : Prop :=
  ∃ i ∈ j.code, pc = UInt32.ofNat i.start - j.body.codeOffset

/-- Instructions are followed by instructions, and an `end` takes one byte. -/
theorem Accepted.carries_starts (accepted : j.Accepted md) :
    Carries (fun pc _ => j.Starts pc) j j id where
  siblings := ⟨⟨_, rfl⟩, rfl, rfl, rfl, rfl⟩
  reads := (accepted_walk accepted).1
  reads' := (accepted_walk accepted).1
  first := rfl
  last := rfl
  same k i found := by
    refine ⟨i, found, rfl, fun _ more => ?_, fun opcode => ?_⟩
    · have next : j.code[k + 1]? = some j.code[k + 1] := List.getElem?_eq_getElem more
      refine ⟨j.code[k + 1], List.getElem_mem more, ?_⟩
      rw [Job.after, (code_laid accepted).stop_eq found next]
    · have member := List.mem_of_getElem? found
      have one := ((Instr.readAll_ok (accepted_walk accepted).1).2 i member).2.2 opcode
      refine ⟨i, member, ?_⟩
      rw [Job.after, one, UInt32.ofNat_add, UInt32.ofNat_one]
      grind
  gap k _ _ := ⟨Nat.lt_succ_self k, .inl rfl⟩

/-- An instruction lies behind the locals and inside the body. -/
theorem Accepted.place (accepted : j.Accepted md) (framed : j.body.Framed)
    (found : j.code[k]? = some i) :
    j.base ≤ i.start ∧ i.start < i.stop ∧ i.stop ≤ j.body.bytes.length := by
  obtain ⟨low, some⟩ := (code_laid accepted).start_lt_stop found
  have bound := ((Instr.readAll_ok (accepted_walk accepted).1).2 i (List.mem_of_getElem? found)).1
  have := framed.inside
  simp only [FuncBody.cursor, List.length_drop] at bound
  exact ⟨low, some, by omega⟩

theorem Accepted.boundary_stop (accepted : j.Accepted md) (framed : j.body.Framed)
    (found : j.code[k]? = some i) : j.Boundary i.stop := by
  by_cases more : k + 1 < j.code.length
  · have next : j.code[k + 1]? = some j.code[k + 1] := List.getElem?_eq_getElem more
    exact .inr ⟨j.code[k + 1], List.getElem_mem more, (code_laid accepted).stop_eq found next⟩
  · obtain ⟨front, last, split, -⟩ := accepted.ends_function
    have inside := (List.getElem?_eq_some_iff.mp found).1
    have here : j.code[front.length]? = some last := by simp [split]
    obtain rfl : k = front.length := by
      simp only [split, List.length_append, List.length_singleton] at more inside
      omega
    obtain rfl := Option.some.inj (found.symm.trans here)
    exact .inl (accepted.stop_last framed split)

structure Agrees (j : Job) (md : Metadata) : Prop where
  /-- the instructions fill the body, and the last of them closes the function -/
  whole : ∃ front last, j.body.decode = .ok (front ++ [last]) ∧
    Instr.Laid j.base (front ++ [last]) ∧ last.opcode = 0x0b ∧ last.stop = j.body.bytes.length ∧
    Closes (front ++ [last]) .function front.length last
  offset : md.bytecodeOffset = j.body.codeOffset
  length : md.bytecodeLength.toNat = j.body.bytes.length
  declared : j.body.numLocals ≤ 50000
  locals : md.numLocals = UInt32.ofNat j.numLocals
  unwrapped : j.sig.params.length < 2 ^ 31 → md.numLocals.toNat = j.numLocals
  /-- a local that is named in code that is reached is one of them -/
  named : ∀ k i index, j.code[k]? = some i → (j.walk k).dead = none → i.imm = .localIndex index →
    index.toNat < j.numLocals
  /-- entries of `block`, `loop` and `if`, and where branches and calls go on -/
  resumes : ∀ k i, j.code[k]? = some i → j.skips k = false → ∀ f ∈ resumeFields i.toInstr,
    ∃ pc, md.get? f.2 (j.mc k + f.1 : Nat) = some pc ∧ md.bytecodeOffset.toNat + pc = i.stop ∧
    j.Boundary i.stop
  /-- targets of branches, of `if` and of `else` -/
  targets : ∀ k i, j.code[k]? = some i → j.skips k = false → ∀ off ∈ targetOffsets i.toInstr,
    ∃ t, md.target? (j.mc k + off : Nat) = some t ∧
      ∃ i' ∈ j.code, i'.start = md.bytecodeOffset.toNat + t.pc.toNat ∧
      i'.start < j.body.bytes.length

theorem Accepted.agrees (accepted : j.Accepted md) (framed : j.body.Framed) : j.Agrees md := by
  have final := (accepted_walk accepted).2.2.2
  obtain ⟨fromGen, -, locals⟩ := Generator.counts_of_finalize final
  obtain ⟨l, l', abreast⟩ :=
    Abreast.of_accepted accepted.carries (.inl ⟨md, accepted⟩) (Nat.le_refl _)
  have offset : md.bytecodeOffset = j.body.codeOffset := fromGen.trans abreast.offset
  have counted : md.numLocals = UInt32.ofNat j.numLocals :=
    locals.trans (accepted.gen_numLocals le_rfl)
  obtain ⟨front, last, split, opcode, closes, length⟩ := accepted.ends_function
  have stop := accepted.stop_last framed split
  constructor
  · refine ⟨front, last, ?_, ?_, opcode, stop, ?_⟩
    · rw [← split]
      exact (accepted_walk accepted).1
    · rw [← split]
      exact code_laid accepted
    · rwa [← split]
  · exact offset
  · rw [length, stop]
    exact UInt32.toNat_ofNat_of_lt' framed.short
  · exact framed.locals
  · exact counted
  · intro few
    have := framed.locals
    rw [counted]
    exact UInt32.toNat_ofNat_of_lt'
      (by unfold numLocals UInt32.size; unfold Read.maxLocals at this; omega)
  · intro k i index found live names
    have inside := (List.getElem?_eq_some_iff.mp found).1.le
    have here : index.toNat < ((j.walk k).moveTo i).numLocals :=
      Walk.local_lt (accepted.fits found) live names (step_done accepted found).2
    rwa [← accepted.walk_numLocals inside]
  · intro k i found reached f member
    have place := accepted.place framed found
    refine ⟨_, accepted.resumes found reached member, ?_, accepted.boundary_stop framed found⟩
    have := framed.short
    rw [offset, toNat_after (code_laid accepted) found, ← base, Nat.mod_eq_of_lt (by omega)]
    omega
  · intro k i found reached off member
    obtain ⟨t, -, held, -, ⟨i', inside, starts⟩, -⟩ :=
      accepted.carries_starts.targets accepted accepted found reached member
    obtain ⟨k', found'⟩ := List.getElem?_of_mem inside
    have place := accepted.place framed found'
    refine ⟨t, held, i', inside, ?_, by omega⟩
    have := framed.short
    rw [starts, offset, toNat_ofNat_sub place.1, ← base, Nat.mod_eq_of_lt (by omega)]
    omega

/-- The table of a function that was read and accepted agrees with its body. -/
theorem tables_agree_with_bodies {b : List UInt8} {j : Job} {md : Metadata}
    (parsed : Module.parse b = .ok j.mod) (accepted : j.Accepted md) : j.Agrees md :=
  accepted.agrees (framed_of_parse parsed accepted)

/-- A parameter and two more locals, and a branch out of a block to its `end`. -/
theorem tables_agree_with_bodies_sample :
    let b : List UInt8 := [0, 0x61, 0x73, 0x6d, 1, 0, 0, 0, 1, 5, 1, 0x60, 1, 0x7f, 0, 3, 2, 1, 0,
      10, 13, 1, 11, 1, 2, 0x7f, 0x02, 0x40, 0x20, 1, 0x0d, 0, 0x0b, 0x0b]
    let j : Job := {
      mod := {
        types := [⟨[.i32], []⟩], funcs := [0]
        code := [⟨[⟨2, .i32⟩], some [1, 2, 0x7f, 0x02, 0x40, 0x20, 1, 0x0d, 0, 0x0b, 0x0b],
          [0x02, 0x40, 0x20, 1, 0x0d, 0, 0x0b, 0x0b], 3⟩] }
      cfg := {}, func := 0 }
    let md : Metadata := {
      bytes := [2, 0, 0, 0, 0, 0, 0, 0, 16, 0, 0, 0, 2, 0, 0, 0, 6, 0, 0, 0, 32, 0, 0, 0,
        0, 0, 0, 0, 6, 0, 0, 0, 8, 0, 0, 0, 0, 0, 0, 0]
      locations := [0], returns := [], func := 0, numLocals := 3, numArgs := 1,
      numArgsOnStack := 0, localBase := 15
      bytecodeOffset := 3, bytecodeLength := 11 }
    Module.parse b = .ok j.mod ∧ j.Accepted md ∧ j.Agrees md := by
  intro b j md
  have parsed : Module.parse b = .ok j.mod := by decide +kernel
  have accepted : j.Accepted md := by decide +kernel
  exact ⟨parsed, accepted, tables_agree_with_bodies parsed accepted⟩

end Job
end Sidetable
