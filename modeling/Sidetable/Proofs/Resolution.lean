import Sidetable.Proofs.Stream

/-!
# Target words hold what they stand for

A target word waits for a structure until it is settled, and is settled once. When the function has
been closed nothing waits, so every word of the finished side table holds the place that it stands
for.
-/
namespace Sidetable

variable {j : Job} {k : Nat} {i : Instr.Located} {levels levels' : List Level} {l l' : Ledger}
    {md : Metadata}

def Kept (j : Job) (k : Nat) (levels : List Level) (l : Ledger) : Prop :=
  ∀ k' < k, ∀ pos aim r, j.Promises k' pos aim r →
    (∃ t, j.Meets r aim t.spot ∧ j.Reached t.spot ∧ (j.walk k).gen.Settled l pos t) ∨
      ∃ L ∈ levels, L.region = r ∧ ∃ off ∈ L.waits aim, off.toNat = pos

theorem Kept.step (h : Kept j k levels l) (passes : Passes j k levels l levels' l') :
    Kept j (k + 1) levels' l' := by
  intro k' before pos aim r promises
  rcases Nat.lt_or_eq_of_le (Nat.le_of_lt_succ before) with old | rfl
  · rcases h k' old pos aim r promises with
      ⟨t, meets, reached, settled⟩ | ⟨L, mem, rfl, off, waits, rfl⟩
    · exact .inl ⟨t, meets, reached, passes.keeps pos t settled⟩
    · rcases passes.waits L mem aim off waits with ⟨L', mem', region, waits'⟩ | settled
      · exact .inr ⟨L', mem', region, off, waits', rfl⟩
      · exact .inl settled
  · exact .inr (passes.fresh pos aim r promises)

namespace Job.Accepted

variable (h : j.Accepted md) (short : j.body.bytes.length < 2 ^ 31)
include h short

theorem kept (le : k ≤ j.code.length) : ∃ levels l, Stands j k levels l ∧ Kept j k levels l := by
  -- `Stands` is carried along, since it is what a step needs
  induction k with
  | zero => exact ⟨_, _, .start j, fun k' before => absurd before (Nat.not_lt_zero k')⟩
  | succ k ih =>
    obtain ⟨levels, l, st, kept⟩ := ih (Nat.le_of_succ_le le)
    have here := at_of_accepted h short (List.getElem?_eq_getElem (Nat.lt_of_succ_le le))
    obtain ⟨levels', l', st', passes⟩ := st.step here
    exact ⟨levels', l', st', kept.step passes⟩

/-- Every target word of the finished side table holds the place that it stands for. -/
theorem promise_met {pos : Nat} {aim : Aim} {r : Region} (promises : j.Promises k pos aim r) :
    ∃ spot, md.jump? pos = some spot ∧ j.Meets r aim spot ∧ j.Reached spot := by
  have inside : k < j.code.length := by
    have found : ∃ i, j.code[k]? = some i := by
      cases promises with
      | branch found _ _ _ => exact ⟨_, found⟩
      | otherwise divides _ => exact ⟨_, divides.found⟩
      | cond found _ _ => exact ⟨_, found⟩
    obtain ⟨i, found⟩ := found
    exact (List.getElem?_eq_some_iff.mp found).1
  obtain ⟨levels, l, st, kept⟩ := h.kept short (Nat.le_refl _)
  obtain ⟨-, -, closed, -⟩ := accepted_walk h
  rcases kept k inside pos aim r promises with ⟨t, meets, reached, settled⟩ | ⟨L, mem, _⟩
  · refine ⟨t.spot, ?_, meets, reached⟩
    have bytes : md.bytes = l.bytes := (finalize_bytes h).trans st.records.holds.bytes
    rw [Metadata.jump?, Metadata.target_of_word bytes settled.word, settled.target]
    rfl
  · have none := st.shapes
    rw [Walk.shapes, closed] at none
    rw [List.map_eq_nil_iff.mp none] at mem
    cases mem

theorem label_names {d : UInt32} (found : j.code[k]? = some i) (reached : j.skips k = false)
    (label : d ∈ i.labels) : ∃ r, (enclosing j.code k)[d.toNat]? = some r := by
  have here := at_of_accepted h short found
  have inside : k < j.code.length := (List.getElem?_eq_some_iff.mp found).1
  obtain ⟨levels, l, st⟩ := h.stands short (Nat.le_of_lt inside)
  rw [skips_eq found] at reached
  obtain ⟨live, bound⟩ := here.turn.of_label reached label
  have live : (j.walk k).dead = none := live
  have length : (j.walk k).shapes.length = (enclosing j.code k).length := by
    rw [← st.regions_live (by rw [live]; rfl), ← st.shapes, List.length_map, List.length_map]
  exact ⟨_, List.getElem?_eq_getElem (length ▸ bound)⟩

/-- What is right inside a structure that was reached is not deep in unreachable code. -/
theorem live_inside {m : Nat} (le : m ≤ j.code.length) (reached : j.skips k = false)
    (innermost : (enclosing j.code m).head? = some (.opened k)) : (j.walk m).dead.getD 0 = 0 := by
  obtain ⟨levels, l, st⟩ := h.stands short le
  obtain ⟨rest, split⟩ := List.head?_eq_some_iff.mp innermost
  cases dead : (j.walk m).dead.getD 0 with
  | zero => rfl
  | succ d =>
    have buried := st.buried (.opened k)
    rw [dead, split, List.take_succ_cons] at buried
    obtain ⟨o, same, skipped⟩ := buried List.mem_cons_self
    rw [Region.opened.inj same, skipped] at reached
    cases reached

theorem else_first {m : Nat} {a : Instr.Located} (reached : j.skips k = false)
    (divides : ElseOf j.code (.opened k) m a) :
    j.skips m = false ∧ ∀ e < m, ∀ i', ¬ ElseOf j.code (.opened k) e i' := by
  have inside : m < j.code.length := (List.getElem?_eq_some_iff.mp divides.found).1
  have live := h.live_inside short (Nat.le_of_lt inside) reached divides.innermost
  have here := at_of_accepted h short divides.found
  have not_skipped := here.not_skipped live (.inr (by simp [Instr.divides, divides.opcode]))
  refine ⟨not_skipped, fun e before i' earlier => ?_⟩
  obtain ⟨levels, l, st⟩ := h.stands short (Nat.le_of_lt inside)
  rw [skips_eq divides.found] at not_skipped
  obtain ⟨-, sig, rest, shapes⟩ := here.turn.of_else not_skipped divides.opcode
  obtain ⟨L, inner, rfl, kind, -⟩ := st.top shapes
  have region := Option.some.inj ((st.innermost live).symm.trans divides.innermost)
  have := (st.divided L List.mem_cons_self false kind).mpr ⟨e, before, i', region ▸ earlier⟩
  cases this

theorem else_unique {m m' : Nat} {a a' : Instr.Located} (reached : j.skips k = false)
    (divides : ElseOf j.code (.opened k) m a) (divides' : ElseOf j.code (.opened k) m' a') :
    m = m' ∧ a = a' := by
  have same : m = m' := by
    rcases Nat.lt_trichotomy m m' with lt | eq | gt
    · exact absurd divides ((h.else_first short reached divides').2 m lt a)
    · exact eq
    · exact absurd divides' ((h.else_first short reached divides).2 m' gt a')
  subst same
  exact ⟨rfl, Option.some.inj (divides.found.symm.trans divides'.found)⟩

end Job.Accepted

namespace Job

theorem Lands.of_cond {spot : Nat × Nat} (lands : j.Lands (.opened k) spot)
    (found : j.code[k]? = some i) (opcode : i.opcode = 0x04) :
    ∃ c e, Closes j.code (.opened k) c e ∧ e.opcode = 0x0b ∧ spot = (e.start - j.base, j.mc c) := by
  cases lands with
  | loop region found' opcode' =>
    cases region
    obtain rfl := Option.some.inj (found.symm.trans found')
    simp [opcode] at opcode'
  | exit _ closes ends => exact ⟨_, _, closes, ends, rfl⟩
  | delegated attempt _ _ => simp [openedBy, found, opcode] at attempt

/-- Every branch entry starts with the place where a branch to the structure that its label names
lands. -/
theorem branch_targets_land (accepted : j.Accepted md) (short : j.body.bytes.length < 2 ^ 31)
    (found : j.code[k]? = some i) (reached : j.skips k = false) {n : Nat} {d : UInt32}
    (label : i.labels[n]? = some d) :
    ∃ r spot, (enclosing j.code k)[d.toNat]? = some r ∧
      md.jump? (j.mc k + labelOffset i.toInstr n) = some spot ∧
      ∀ other, j.Lands r other ↔ other = spot := by
  obtain ⟨r, names⟩ := accepted.label_names short found reached (List.mem_of_getElem? label)
  obtain ⟨spot, jump, lands, -⟩ := accepted.promise_met short (.branch found reached label names)
  refine ⟨r, spot, names, jump, fun other => ⟨fun h => h.unique lands, ?_⟩⟩
  rintro rfl
  exact lands

/-- The branch table of the sample, to its loop. -/
theorem branch_targets_land_sample :
    let i : Instr.Located := { opcode := 0x0e, imm := .labels [0, 1] 2, start := 11, stop := 16 }
    sample.Accepted sampleTable ∧ sample.code[5]? = some i ∧ sample.skips 5 = false ∧
    i.labels[1]? = some 1 ∧
      ∃ r spot, (enclosing sample.code 5)[1]? = some r ∧
        sampleTable.jump? (sample.mc 5 + labelOffset i.toInstr 1) = some spot ∧
        ∀ other, sample.Lands r other ↔ other = spot := by
  intro i
  have accepted : sample.Accepted sampleTable := by decide +kernel
  have found : sample.code[5]? = some i := by decide +kernel
  have reached : sample.skips 5 = false := by decide +kernel
  have label : i.labels[1]? = some 1 := by decide
  exact ⟨accepted, found, reached, label,
    branch_targets_land accepted (by decide) found reached label⟩

/-- The condition of an `if` that fails leads after its `else`, and the end of its first part to its
`end`; without `else` it leads after the `end`. -/
theorem conditional_edges_meet (accepted : j.Accepted md) (short : j.body.bytes.length < 2 ^ 31)
    (found : j.code[k]? = some i) (reached : j.skips k = false) (opcode : i.opcode = 0x04) :
    ∃ c e, Closes j.code (.opened k) c e ∧ e.opcode = 0x0b ∧
      (∀ m a, ElseOf j.code (.opened k) m a → j.mc (m + 1) = j.mc m + 8 ∧
        md.jump? (j.mc k) = some (a.stop - j.base, j.mc (m + 1)) ∧
        md.jump? (j.mc m) = some (e.start - j.base, j.mc c)) ∧
      ((∀ m a, ¬ ElseOf j.code (.opened k) m a) →
        md.jump? (j.mc k) = some (e.stop - j.base, j.mc c)) := by
  obtain ⟨spot, edge, skirts, -⟩ := accepted.promise_met short (.cond found reached opcode)
  cases skirts with
  | @explicit m a divides =>
    have not_skipped := (accepted.else_first short reached divides).1
    obtain ⟨spot, jump, lands, -⟩ := accepted.promise_met short (.otherwise divides not_skipped)
    obtain ⟨c, e, closes, ends, rfl⟩ := lands.of_cond found opcode
    refine ⟨c, e, closes, ends, fun m' a' divides' => ?_, fun none => absurd divides (none m a)⟩
    obtain ⟨rfl, rfl⟩ := accepted.else_unique short reached divides divides'
    refine ⟨?_, edge, jump⟩
    rw [accepted.mc_succ short divides.found not_skipped]
    simp [Setting.entry, divides.opcode, Cell.size]
  | implied undivided closes ends =>
    exact ⟨_, _, closes, ends, fun m a divides => absurd divides (undivided m a), fun _ => edge⟩

/-- The conditional of the sample whose first part ends in code that is not reached. -/
theorem conditional_edges_meet_sample :
    let i : Instr.Located := { opcode := 0x04, imm := .block (-64), start := 7, stop := 9 }
    sample.Accepted sampleTable ∧ sample.code[3]? = some i ∧ sample.skips 3 = false ∧
    i.opcode = 0x04 ∧
      ∃ c e, Closes sample.code (.opened 3) c e ∧ e.opcode = 0x0b ∧
        (∀ m a, ElseOf sample.code (.opened 3) m a → sample.mc (m + 1) = sample.mc m + 8 ∧
          sampleTable.jump? (sample.mc 3) = some (a.stop - sample.base, sample.mc (m + 1)) ∧
          sampleTable.jump? (sample.mc m) = some (e.start - sample.base, sample.mc c)) ∧
        ((∀ m a, ¬ ElseOf sample.code (.opened 3) m a) →
          sampleTable.jump? (sample.mc 3) = some (e.stop - sample.base, sample.mc c)) := by
  intro i
  have accepted : sample.Accepted sampleTable := by decide +kernel
  have found : sample.code[3]? = some i := by decide +kernel
  have reached : sample.skips 3 = false := by decide +kernel
  exact ⟨accepted, found, reached, rfl,
    conditional_edges_meet accepted (by decide) found reached rfl⟩

end Job
end Sidetable
