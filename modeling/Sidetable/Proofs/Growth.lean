import Sidetable.Proofs.Conservation

/-!
# How the buffer grows

A call to the generator may fail after it has changed something. Whether it succeeds or fails, the
buffer grows at its end and within its limit, and only the end of the function finishes the table.
-/
namespace Sidetable

namespace Outcome

variable {σ τ ε δ : Type} {o : Outcome σ ε} {next : σ → Outcome σ ε} {s' : σ} {e : ε} {b : Breach}

def state? : Outcome σ ε → Option σ
  | done s => some s
  | failed s _ => some s
  | breach _ => none

theorem state_iff : o.state? = some s' ↔ o = .done s' ∨ ∃ e, o = .failed s' e := by
  cases o <;> simp [state?]

theorem done_andThen (s : σ) : (done s).andThen next = next s :=
  rfl

@[simp] theorem andThen_id : o.andThen (fun s => .done s) = o := by
  cases o <;> rfl

theorem andThen_failed : o.andThen next = .failed s' e ↔
    o = .failed s' e ∨ ∃ s, o = .done s ∧ next s = .failed s' e := by
  cases o <;> simp [andThen]

theorem andThen_breach : o.andThen next = .breach b ↔
    o = .breach b ∨ ∃ s, o = .done s ∧ next s = .breach b := by
  cases o <;> simp [andThen]

theorem andThen_state : (o.andThen next).state? = some s' ↔
    (∃ e, o = .failed s' e) ∨ ∃ s, o = .done s ∧ (next s).state? = some s' := by
  cases o <;> simp [andThen, state?]

theorem map_breach {state : σ → τ} {error : ε → δ} :
    o.map state error = .breach b ↔ o = .breach b := by
  cases o <;> simp [map]

end Outcome

theorem Buffer.put_kept {c c' : Buffer} {width : Nat} {off : UInt32} {rel : Int64} {v : Nat}
    (h : c.put width off rel v = .ok c') : c'.limit = c.limit ∧ c'.size = c.size := by
  unfold put at h
  cases found : c.span off rel width with
  | error b => simp [found, bind, Except.bind] at h
  | ok p =>
    simp only [found, bind, Except.bind, pure, Except.pure, Except.ok.injEq] at h
    obtain rfl := h
    exact ⟨rfl, size_patch _ _ _⟩

namespace Generator

variable {g g' : Generator} {l : Ledger} {op : Op} {e : AllocationError} {b : Breach}

def room (g : Generator) (n : Nat) : Bool :=
  g.buffer.admits (g.size + n)

theorem room_mono {n m : Nat} (le : n ≤ m) (h : g.room m) : g.room n := by
  simp only [room, Buffer.admits, Bool.and_eq_true, Bool.or_eq_true, decide_eq_true_eq] at h ⊢
  refine ⟨by omega, h.2.imp_right fun cap => ?_⟩
  omega

theorem emit_failed {entry : List UInt8} :
    g.emit entry = .failed g' e ↔ g' = g ∧ e = .refused entry.length ∧ ¬ g.room entry.length := by
  unfold emit Buffer.append room size
  by_cases h : g.buffer.admits (g.buffer.size + entry.length) <;> simp [h, eq_comm]

theorem emit_not_breach {entry : List UInt8} : g.emit entry ≠ .breach b := by
  unfold emit
  split <;> simp

structure Grew (g g' : Generator) : Prop where
  limit : g'.buffer.limit = g.buffer.limit
  size : g.size ≤ g'.size
  fits : g.buffer.admits g.size → g'.buffer.admits g'.size
  finished : g'.finished = g.finished
  func : g'.func = g.func

namespace Grew

theorem of_size (limit : g'.buffer.limit = g.buffer.limit) (size : g'.size = g.size)
    (finished : g'.finished = g.finished) (func : g'.func = g.func) : g.Grew g' := by
  refine ⟨limit, Nat.le_of_eq size.symm, fun fits => ?_, finished, func⟩
  simpa only [Buffer.admits, limit, size] using fits

theorem refl (g : Generator) : g.Grew g :=
  of_size rfl rfl rfl rfl

theorem trans {g'' : Generator} (h : g.Grew g') (h' : g'.Grew g'') : g.Grew g'' :=
  ⟨h'.limit.trans h.limit, Nat.le_trans h.size h'.size, h'.fits ∘ h.fits,
    h'.finished.trans h.finished, h'.func.trans h.func⟩

theorem emit {entry : List UInt8} (h : (g.emit entry).state? = some g') : g.Grew g' := by
  rcases Outcome.state_iff.mp h with done | ⟨e, failed⟩
  · obtain ⟨admitted, rfl⟩ := emit_eq_done.mp done
    refine ⟨rfl, ?_, fun _ => ?_, rfl, rfl⟩
    · simp [Generator.size, Buffer.size]
    · have size :
          Generator.size { g with
          buffer := { g.buffer with data := g.buffer.data ++ entry.toArray } } =
          g.size + entry.length := by simp [Generator.size, Buffer.size]
      rw [size]
      exact admitted
  · obtain ⟨rfl, -⟩ := emit_failed.mp failed
    exact refl g'

theorem andThen {o : Emission} {next : Generator → Emission} (h : (o.andThen next).state? = some g')
    (first : ∀ m, o.state? = some m → g.Grew m)
    (second : ∀ m, (next m).state? = some g' → m.Grew g') : g.Grew g' := by
  rcases Outcome.andThen_state.mp h with ⟨e, failed⟩ | ⟨m, done, rest⟩
  · exact first g' (by rw [failed]; rfl)
  · exact (first m (by rw [done]; rfl)).trans (second m rest)

theorem done (h : (Outcome.done g' : Emission).state? = some g) : g'.Grew g := by
  obtain rfl := Option.some.inj h
  exact refl g'

theorem patch {off : UInt32} {t : Target} (h : (g.patch off t).state? = some g') : g.Grew g' := by
  unfold Generator.patch at h
  split at h
  · rename_i c put
    obtain rfl := Option.some.inj h
    unfold Buffer.putTarget at put
    split at put
    · cases put
    · rename_i c₁ first
      split at put
      · cases put
      · rename_i c₂ second
        obtain rfl : c₂ = c := (Prod.mk.inj put).1
        obtain ⟨limit, size⟩ := Buffer.put_kept first
        obtain ⟨limit', size'⟩ := Buffer.put_kept second
        exact of_size (limit'.trans limit) (size'.trans size) rfl rfl
  · cases h

theorem patchAll {t : Target} {offs : List UInt32} (h : (g.patchAll t offs).state? = some g') :
    g.Grew g' := by
  induction offs generalizing g with
  | nil => exact done h
  | cons off rest ih => exact andThen h (fun _ => patch) fun _ => ih

theorem resolve {s : Scope} {t : Target} (h : (g.resolve s t).state? = some g') : g.Grew g' := by
  refine andThen h (fun _ => patchAll) fun m last => ?_
  obtain rfl := Option.some.inj last
  exact of_size rfl rfl rfl rfl

theorem branch {d : UInt32} {height : Int} (h : (g.branch d height).state? = some g') :
    g.Grew g' := by
  unfold Generator.branch at h
  split at h
  · cases h
  · dsimp only at h
    split at h
    · cases h
    · refine andThen h (fun _ => emit) fun m last => ?_
      obtain rfl := Option.some.inj last
      exact of_size rfl rfl rfl rfl

theorem branches {ds : List UInt32} {height : Int} (h : (g.branches height ds).state? = some g') :
    g.Grew g' := by
  induction ds generalizing g with
  | nil => exact done h
  | cons d rest ih => exact andThen h (fun _ => branch) fun _ => ih

theorem callData {callee : FuncType} (h : (g.callData callee).state? = some g') : g.Grew g' :=
  andThen h (fun _ => emit) fun _ rest => andThen rest (fun _ => emit) fun _ => emit

theorem block {sig : FuncType} (h : (g.block sig).state? = some g') : g.Grew g' := by
  have pushed : g.Grew (g.push { kind := .block, sig }) := of_size rfl rfl rfl rfl
  exact pushed.trans (emit h)

theorem loop {sig : FuncType} (h : (g.loop sig).state? = some g') : g.Grew g' := by
  refine andThen h (fun _ => emit) fun m last => ?_
  obtain rfl := Option.some.inj last
  exact of_size rfl rfl rfl rfl

theorem cond {sig : FuncType} (h : (g.cond sig).state? = some g') : g.Grew g' := by
  refine andThen h (fun _ => emit) fun m last => ?_
  have pushed : m.Grew (m.push { kind := .cond, sig, pending := some g.mc }) :=
    of_size rfl rfl rfl rfl
  exact pushed.trans (emit last)

theorem otherwise (h : g.otherwise.state? = some g') : g.Grew g' := by
  unfold Generator.otherwise at h
  split at h
  · cases h
  · dsimp only at h
    split at h
    · split at h
      · refine andThen h (fun _ => patch) fun m last => ?_
        obtain rfl := Option.some.inj last
        exact of_size rfl rfl rfl rfl
      · refine andThen h (fun _ => patch) fun m rest => ?_
        refine andThen rest (fun n emitted => ?_) fun n last => ?_
        · have converted : ∀ s, m.Grew (m.setTop s) := fun s => of_size rfl rfl rfl rfl
          exact (converted _).trans (emit emitted)
        · obtain rfl := Option.some.inj last
          exact of_size rfl rfl rfl rfl
    · cases h

theorem handle {handler : Handler} (h : (g.handle handler).state? = some g') : g.Grew g' := by
  unfold Generator.handle at h
  split at h
  · cases h
  · split at h
    case h_3 => cases h
    all_goals
      obtain rfl := Option.some.inj h
      exact of_size rfl rfl rfl rfl

theorem delegate {depth : UInt32} (h : (g.delegate depth).state? = some g') : g.Grew g' := by
  unfold Generator.delegate at h
  split at h
  · cases h
  · rename_i s rest _
    split at h
    · have popped : g.Grew { g with
          scopes := rest, log := g.log.push (.delegate g.func depth s.awaiting.length) } :=
          of_size rfl rfl rfl rfl
      exact popped.trans (resolve h)
    · cases h

theorem globals {entry : GlobalInfo → List UInt8} {index : UInt32}
    (h : (match g.globals[index.toNat]? with
      | some info => g.emit (entry info)
      | none =>
        .breach (.globalIndex index g.globals.length) : Emission).state? = some g') :
        g.Grew g' := by
  split at h
  · exact emit h
  · cases h

end Grew

def Finishes (g : Generator) (op : Op) (g' : Generator) : Prop :=
  op = .close ∧ g.apply op = .done g' ∧ g'.finished ∧ ∃ s rest, g.scopes = s :: rest ∧
    s.kind = .toplevel

theorem close_grew (h : g.close.state? = some g') :
    ∃ mid, g.Grew mid ∧ (g' = mid ∨ g.Finishes .close g' ∧ g' = { mid with finished := true }) := by
  cases scopes : g.scopes with
  | nil =>
    simp only [close, scopes] at h
    cases h
  | cons s rest =>
    have popped : g.Grew { g with scopes := rest } := .of_size rfl rfl rfl rfl
    by_cases kind : s.kind = .toplevel
    · simp only [close, scopes, kind] at h
      rcases Outcome.andThen_state.mp h with ⟨e, failed⟩ | ⟨m, resolved, more⟩
      · exact ⟨g', popped.trans (.resolve (by rw [failed]; rfl)), .inl rfl⟩
      · have first : g.Grew m := popped.trans (.resolve (by rw [resolved]; rfl))
        have second : m.Grew { m with bytecodeLength := m.site.stop } := .of_size rfl rfl rfl rfl
        rcases Outcome.andThen_state.mp more with ⟨e, failed⟩ | ⟨n, emitted, last⟩
        · exact ⟨g', (first.trans second).trans (.emit (by rw [failed]; rfl)), .inl rfl⟩
        · obtain rfl := Option.some.inj last
          refine ⟨n, (first.trans second).trans (.emit (by rw [emitted]; rfl)),
            .inr ⟨⟨rfl, ?_, rfl, ?_⟩, rfl⟩⟩
          · simp [apply, close, scopes, kind, resolved, emitted, Outcome.andThen]
          · exact ⟨s, rest, scopes, kind⟩
    · simp only [close, scopes] at h
      split at h
      · exact ⟨g', popped.trans (.resolve h), .inl rfl⟩
      · exact absurd ‹_› kind
      · exact ⟨g', popped.trans (.resolve h), .inl rfl⟩

/-- Every call lets the buffer grow, and only the end of the function finishes the table. -/
theorem apply_grew (h : (g.apply op).state? = some g') :
    ∃ mid, g.Grew mid ∧ (g' = mid ∨ g.Finishes op g' ∧ g' = { mid with finished := true }) := by
  have grew : g.Grew g' → ∃ mid, g.Grew mid ∧
      (g' = mid ∨ g.Finishes op g' ∧ g' = { mid with finished := true }) :=
    fun grew => ⟨g', grew, .inl rfl⟩
  cases op with
  | close => exact close_grew h
  | addLocals count | startCode | attempt sig =>
    obtain rfl := Option.some.inj h
    exact grew (.of_size rfl rfl rfl rfl)
  | block sig => exact grew (.block h)
  | loop sig => exact grew (.loop h)
  | cond sig => exact grew (.cond h)
  | otherwise => exact grew (.otherwise h)
  | handle handler => exact grew (.handle h)
  | delegate depth => exact grew (.delegate h)
  | branch d height => exact grew (.branch h)
  | branchTable ds d height => exact grew (.andThen h (fun _ => .emit) fun _ => .branches)
  | call func callee => exact grew (.andThen h (fun _ => .emit) fun _ => .callData)
  | callIndirect table type callee => exact grew (.andThen h (fun _ => .emit) fun _ => .callData)
  | localTee index => exact grew (.andThen h (fun _ => .emit) fun _ => .emit)
  | globalGet index => exact grew (.globals h)
  | globalSet index => exact grew (.globals h)
  | localSlot index => exact grew (.emit h)
  | value v => exact grew (.emit h)
  | pair a b => exact grew (.emit h)
  | i64Const v => exact grew (.emit h)
  | select => exact grew (.emit h)

end Generator
end Sidetable
