import Sidetable.Proofs.Growth

/-!
# Mistakes of the caller

A call that the generator does not allow is a breach, and `Misuse` names them all. None is an access
to the buffer: what an operation overwrites was allocated.
-/
namespace Sidetable
namespace Generator

variable {g g' : Generator} {l : Ledger} {op : Op} {e : AllocationError} {b : Breach}

def Op.needsScope : Op → Bool
  | .otherwise | .close | .handle _ | .delegate _ => true
  | _ => false

def Op.labels : Op → List UInt32
  | .branch d _ => [d]
  | .branchTable ds d _ => ds ++ [d]
  | _ => []

def Op.height : Op → Int
  | .branch _ height => height
  | .branchTable _ _ height => height
  | _ => 0

def Op.global? : Op → Option UInt32
  | .globalGet index => some index
  | .globalSet index => some index
  | _ => none

inductive BadLabel (scopes : List Scope) (height : Int) (d : UInt32) : Breach → Prop where
  | depth (outside : scopes.length ≤ d.toNat) :
      BadLabel scopes height d (.labelDepth d scopes.length)
  | operands (s : Scope) (found : scopes[d.toNat]? = some s) (few : height < s.branchArity) :
      BadLabel scopes height d (.branchOperands height s.kind s.branchArity)

/-- A call that the generator does not allow, and what its caller is told. -/
inductive Misuse (g : Generator) : Op → Breach → Prop where
  | noScope {op : Op} (needs : op.needsScope) (none : g.scopes = []) : Misuse g op .outOfRange
  | elseIn {s : Scope} {rest : List Scope} (top : g.scopes = s :: rest)
      (wrong : s.kind ≠ .cond ∨ s.pending = none) : Misuse g .otherwise (.elseIn s.kind)
  | catchIn {s : Scope} {rest : List Scope} (handler : Handler) (top : g.scopes = s :: rest)
      (wrong : s.kind ≠ .attempt ∧ s.kind ≠ .handler) : Misuse g (.handle handler) (.catchIn s.kind)
  | delegateIn {s : Scope} {rest : List Scope} (depth : UInt32) (top : g.scopes = s :: rest)
      (wrong : s.kind ≠ .attempt) : Misuse g (.delegate depth) (.delegateIn s.kind)
  | label {op : Op} {d : UInt32} {b : Breach} (label : d ∈ op.labels)
      (bad : BadLabel g.scopes op.height d b) :
      Misuse g op b
  | globalIndex {op : Op} {index : UInt32} (names : op.global? = some index)
      (outside : g.globals.length ≤ index.toNat) : Misuse g op (.globalIndex index g.globals.length)

theorem patch_not_breach {off : UInt32} {t : Target} (hold : g.buffer.Holds l)
    (word : off.toNat ∈ l.words) : g.patch off t ≠ .breach b := by
  rw [Generator.patch, (hold.retarget t word).1]
  simp

theorem otherwise_breach (hold : g.buffer.Holds l)
    (words : ∀ off ∈ g.settles .otherwise, off.toNat ∈ l.words)
    (h : g.otherwise = .breach b) : g.Misuse .otherwise b := by
  cases scopes : g.scopes with
  | nil =>
    simp only [otherwise, scopes, List.head?_nil] at h
    obtain rfl := Outcome.breach.inj h
    exact .noScope rfl scopes
  | cons s rest =>
    simp only [otherwise, scopes, List.head?_cons] at h
    split at h
    · rename_i p kind pending
      have word := words p (by simp [settles, scopes, pending])
      split at h
      · rcases Outcome.andThen_breach.mp h with first | ⟨m, -, last⟩
        · exact absurd first (patch_not_breach hold word)
        · cases last
      · rcases Outcome.andThen_breach.mp h with first | ⟨m, -, more⟩
        · exact absurd first (patch_not_breach hold word)
        · rcases Outcome.andThen_breach.mp more with second | ⟨n, -, last⟩
          · exact absurd second emit_not_breach
          · cases last
    · rename_i wrong
      obtain rfl := Outcome.breach.inj h
      refine .elseIn scopes ?_
      by_contra both
      rw [not_or, not_not] at both
      obtain ⟨p, pending⟩ := Option.ne_none_iff_exists'.mp both.2
      exact wrong p both.1 pending

theorem close_breach (hold : g.buffer.Holds l)
    (words : ∀ off ∈ g.settles .close, off.toNat ∈ l.words)
    (h : g.close = .breach b) : g.Misuse .close b := by
  cases scopes : g.scopes with
  | nil =>
    simp only [close, scopes] at h
    obtain rfl := Outcome.breach.inj h
    exact .noScope rfl scopes
  | cons s rest =>
    have resolves (t : Target) : Generator.resolve { g with scopes := rest } s t ≠ .breach b := by
      obtain ⟨c, log, done, -⟩ := resolve_done (g := { g with scopes := rest }) s t hold
        (fun off waits => words off (by simpa [settles, scopes] using waits))
      rw [done]
      simp
    simp only [close, scopes] at h
    split at h
    · exact absurd h (resolves _)
    · rcases Outcome.andThen_breach.mp h with first | ⟨m, -, more⟩
      · exact absurd first (resolves _)
      · rcases Outcome.andThen_breach.mp more with second | ⟨n, -, last⟩
        · exact absurd second emit_not_breach
        · cases last
    · exact absurd h (resolves _)

theorem delegate_breach {depth : UInt32} (hold : g.buffer.Holds l)
    (words : ∀ off ∈ g.settles (.delegate depth), off.toNat ∈ l.words)
    (h : g.delegate depth = .breach b) : g.Misuse (.delegate depth) b := by
  cases scopes : g.scopes with
  | nil =>
    simp only [delegate, scopes] at h
    obtain rfl := Outcome.breach.inj h
    exact .noScope rfl scopes
  | cons s rest =>
    simp only [delegate, scopes] at h
    split at h
    · obtain ⟨c, log, done, -⟩ := resolve_done (g := { g with
        scopes := rest, log := g.log.push (.delegate g.func depth s.awaiting.length) }) s
        { pc := g.pc, mc := g.mc } hold
          (fun off waits => words off (by simpa [settles, scopes] using waits))
      rw [done] at h
      cases h
    · rename_i wrong
      obtain rfl := Outcome.breach.inj h
      exact .delegateIn depth scopes wrong

theorem handle_breach {handler : Handler} (h : g.handle handler = .breach b) :
    g.Misuse (.handle handler) b := by
  cases scopes : g.scopes with
  | nil =>
    simp only [handle, scopes, List.head?_nil] at h
    obtain rfl := Outcome.breach.inj h
    exact .noScope rfl scopes
  | cons s rest =>
    simp only [handle, scopes, List.head?_cons] at h
    split at h
    · cases h
    · cases h
    · rename_i attempt handler
      obtain rfl := Outcome.breach.inj h
      exact .catchIn _ scopes ⟨attempt, handler⟩

theorem branch_breach {d : UInt32} {height : Int} (h : g.branch d height = .breach b) :
    BadLabel g.scopes height d b := by
  unfold branch scopeAt at h
  cases found : g.scopes[d.toNat]? with
  | none =>
    simp only [found] at h
    obtain rfl := Outcome.breach.inj h
    exact .depth (List.getElem?_eq_none_iff.mp found)
  | some s =>
    simp only [found] at h
    split at h
    · rename_i few
      obtain rfl := Outcome.breach.inj h
      exact .operands s found few
    · rcases Outcome.andThen_breach.mp h with first | ⟨m, -, last⟩
      · exact absurd first emit_not_breach
      · cases last

theorem BadLabel.of_await {scopes : List Scope} {d off : UInt32} {n : Nat} {height : Int}
    (bad : BadLabel (scopes.modify n (·.await off)) height d b) : BadLabel scopes height d b := by
  cases bad with
  | depth outside =>
    rw [List.length_modify] at outside ⊢
    exact .depth outside
  | operands s found few =>
    rw [List.getElem?_modify] at found
    obtain ⟨old, there, rfl⟩ := Option.map_eq_some_iff.mp found
    have kind : (if n = d.toNat then old.await off else old).kind = old.kind := by split <;> rfl
    have arity : (if n = d.toNat then old.await off else old).branchArity = old.branchArity := by
      split <;> rfl
    rw [kind, arity]
    rw [arity] at few
    exact .operands old there few

theorem branches_breach {ds : List UInt32} {height : Int} (hold : g.buffer.Holds l)
    (h : g.branches height ds = .breach b) : ∃ d ∈ ds, BadLabel g.scopes height d b := by
  induction ds generalizing g l with
  | nil => cases h
  | cons d rest ih =>
    rcases Outcome.andThen_breach.mp h with first | ⟨m, done, more⟩
    · exact ⟨d, List.mem_cons_self, branch_breach first⟩
    · obtain ⟨-, c, rfl, held⟩ := branch_done done hold
      obtain ⟨e, mem, bad⟩ := ih held more
      exact ⟨e, List.mem_cons_of_mem _ mem, bad.of_await⟩

theorem callData_not_breach {callee : FuncType} : g.callData callee ≠ .breach b := by
  intro h
  rcases Outcome.andThen_breach.mp h with first | ⟨m, -, more⟩
  · exact emit_not_breach first
  · rcases Outcome.andThen_breach.mp more with second | ⟨n, -, third⟩
    · exact emit_not_breach second
    · exact emit_not_breach third

theorem global_breach {entry : GlobalInfo → List UInt8} {index : UInt32}
    (names : op.global? = some index) (h : (match g.globals[index.toNat]? with
      | some info => g.emit (entry info)
      | none =>
        .breach (.globalIndex index g.globals.length) : Emission) = .breach b) : g.Misuse op b := by
  split at h
  · exact absurd h emit_not_breach
  · rename_i none
    obtain rfl := Outcome.breach.inj h
    exact .globalIndex names (List.getElem?_eq_none_iff.mp none)

/-- What an operation overwrites was allocated, so that a breach is a mistake of the caller. -/
theorem Records.breach (records : g.Records l) (h : g.apply op = .breach b) : g.Misuse op b := by
  have words : ∀ off ∈ g.settles op, off.toNat ∈ l.words := fun off settles =>
    records.tracked off (settles_subset op off settles)
  cases op with
  | otherwise => exact otherwise_breach records.holds words h
  | close => exact close_breach records.holds words h
  | delegate depth => exact delegate_breach records.holds words h
  | handle handler => exact handle_breach h
  | branch d height => exact .label (List.mem_singleton.mpr rfl) (branch_breach h)
  | branchTable ds d height =>
    rcases Outcome.andThen_breach.mp h with first | ⟨m, done, more⟩
    · exact absurd first emit_not_breach
    · rw [raw_cells] at done
      obtain ⟨c, rfl, held⟩ := emit_done done records.holds
      obtain ⟨e, mem, bad⟩ := branches_breach held more
      exact .label mem bad
  | globalGet index => exact global_breach rfl h
  | globalSet index => exact global_breach rfl h
  | loop sig =>
    rcases Outcome.andThen_breach.mp h with first | ⟨m, -, last⟩
    · exact absurd first emit_not_breach
    · cases last
  | cond sig =>
    rcases Outcome.andThen_breach.mp h with first | ⟨m, -, more⟩
    · exact absurd first emit_not_breach
    · exact absurd more emit_not_breach
  | call func callee | callIndirect table type callee =>
    rcases Outcome.andThen_breach.mp h with first | ⟨m, -, more⟩
    · exact absurd first emit_not_breach
    · exact absurd more callData_not_breach
  | localTee index =>
    rcases Outcome.andThen_breach.mp h with first | ⟨m, -, more⟩
    · exact absurd first emit_not_breach
    · exact absurd more emit_not_breach
  | addLocals count | startCode | attempt sig => cases h
  | _ => exact absurd h emit_not_breach

end Generator
end Sidetable
