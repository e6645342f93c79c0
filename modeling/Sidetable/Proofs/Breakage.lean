import Sidetable.Proofs.Contract

/-!
# Calls that break off

When the buffer may not grow, a call fails in front of the part of its entry that has no room. What
it did before stays: words that it settled are written, and scopes that it opened or closed are as
they are. `Stops` lists where each operation can break off, and the target words are conserved all
the same.
-/
namespace Sidetable

theorem Cell.sizes_flatten_mod {chunks : List (List Cell)} (h : ∀ c ∈ chunks, sizes c % 8 = 0) :
    sizes chunks.flatten % 8 = 0 := by
  induction chunks with
  | nil => rfl
  | cons c rest ih =>
    have first := h c List.mem_cons_self
    have others := ih fun c mem => h c (List.mem_cons_of_mem _ mem)
    rw [List.flatten_cons, sizes_append]
    omega

namespace Generator

variable {g g' : Generator} {l : Ledger} {op : Op} {e : AllocationError} {b : Breach}

theorem emit_room {c : List Cell} (h : g.emit (Cell.blank c) = .done g') (n : Nat) :
    g'.room n = g.room (Cell.sizes c + n) := by
  obtain ⟨-, rfl⟩ := emit_eq_done.mp h
  have size :
      Generator.size { g with
      buffer := { g.buffer with data := g.buffer.data ++ (Cell.blank c).toArray } } =
      g.size + Cell.sizes c := by simp [Generator.size, Buffer.size, Cell.blank]
  rw [room, room, size, Nat.add_assoc]
  rfl

def emitAll (g : Generator) : List (List Cell) → Emission
  | [] => .done g
  | c :: rest => (g.emit (Cell.blank c)).andThen fun g => g.emitAll rest

theorem emitAll_failed {chunks : List (List Cell)} (hold : g.buffer.Holds l)
    (h : g.emitAll chunks = .failed g' e) :
    ∃ front c back buffer, chunks = front ++ c :: back ∧ g' = { g with buffer } ∧
      buffer.Holds (l.add front.flatten) ∧ ¬ g.room (Cell.sizes (front.flatten ++ c)) := by
  induction chunks generalizing g l with
  | nil => cases h
  | cons c rest ih =>
    rcases Outcome.andThen_failed.mp h with failed | ⟨m, done, more⟩
    · obtain ⟨rfl, -, full⟩ := emit_failed.mp failed
      refine ⟨[], c, rest, g'.buffer, rfl, rfl, by simpa using hold, ?_⟩
      simpa [Cell.blank] using full
    · have room := emit_room done
      obtain ⟨buffer, rfl, held⟩ := emit_done done hold
      obtain ⟨front, c', back, buffer', rfl, rfl, held', full⟩ := ih held more
      refine ⟨c :: front, c', back, buffer', rfl, rfl, ?_, ?_⟩
      · rwa [List.flatten_cons, ← Ledger.add_add]
      · rw [room] at full
        simpa [Nat.add_assoc] using full

/-- How far an operation comes when the buffer may not grow: the cells that it has appended and the
scopes that it leaves. -/
inductive Stops (g : Generator) : Op → List Cell → List Scope → Prop where
  /-- among cells without target words, where one of their parts ends -/
  | midway {op : Op} {part : List Cell} (settles : g.settles op = []) (front : part <+: g.cells op)
      (wordless : Cell.target ∉ part) (whole : Cell.sizes part % 8 = 0) : Stops g op part g.scopes
  /-- in front of the entry, with the scope already open -/
  | block (sig : FuncType) : Stops g (.block sig) [] (g.scopesAfter (.block sig))
  /-- between the two words of the entry -/
  | cond (sig : FuncType) : Stops g (.cond sig) [.target] (g.scopesAfter (.cond sig))
  /-- in front of the entry, with the false edge already resolved -/
  | otherwise {s : Scope} {rest : List Scope} {p : UInt32} (top : g.scopes = s :: rest)
      (pending : s.pending = some p) : Stops g .otherwise [] (s.convert .block .none :: rest)
  /-- in front of the description of the results -/
  | close {s : Scope} {rest : List Scope} (top : g.scopes = s :: rest) : Stops g .close [] rest
  /-- in front of one of the branches -/
  | branchTable {ds part : List UInt32} {d : UInt32} (height : Int) (front : part <+: ds ++ [d])
      (inside : ∀ e ∈ part, e.toNat < g.scopes.length) :
      Stops g (.branchTable ds d height)
        (.num 8 (ds.length + 1) :: part.flatMap (g.setting height.toNat).branch)
        (Scope.awaitAll (g.size + 8) g.scopes part)

def BreaksOff (g : Generator) (op : Op) (g' : Generator) (l : Ledger) : Prop :=
  ¬ g.room (Cell.sizes (g.cells op)) ∧ ∃ part, g.Stops op part g'.scopes ∧
    g'.buffer.Holds (g.draft op part l)

theorem breaksOff_of_holds {part : List Cell} (full : ¬ g.room (Cell.sizes (g.cells op)))
    (stops : g.Stops op part g'.scopes) (settles : g.settles op = [])
    (held : g'.buffer.Holds (l.add part)) : g.BreaksOff op g' l :=
  ⟨full, part, stops, by rwa [draft, settles, Ledger.assign_nil]⟩

theorem breaksOff_of_emit {first rest : List Cell} (hold : g.buffer.Holds l)
    (h : g.emit (Cell.blank first) = .failed g' e) (cells : g.cells op = first ++ rest)
    (settles : g.settles op = []) : g.BreaksOff op g' l := by
  obtain ⟨rfl, -, full⟩ := emit_failed.mp h
  rw [Cell.blank, Cell.length_write] at full
  have none : g'.Stops op [] g'.scopes := .midway settles ⟨_, rfl⟩ (by simp) rfl
  refine breaksOff_of_holds (fun room => full (room_mono ?_ room)) none settles
    (by rwa [Ledger.add_nil])
  rw [cells, Cell.sizes_append]
  omega

theorem block_stops {sig : FuncType} (hold : g.buffer.Holds l) (h : g.block sig = .failed g' e) :
    g.BreaksOff (.block sig) g' l := by
  rw [block, raw_cells] at h
  obtain ⟨rfl, -, full⟩ := emit_failed.mp h
  exact breaksOff_of_holds full (.block sig) rfl (by rwa [Ledger.add_nil])

theorem loop_stops {sig : FuncType} (hold : g.buffer.Holds l) (h : g.loop sig = .failed g' e) :
    g.BreaksOff (.loop sig) g' l := by
  rw [loop, raw_cells] at h
  rcases Outcome.andThen_failed.mp h with first | ⟨m, -, last⟩
  · exact breaksOff_of_emit hold first (List.append_nil _).symm rfl
  · cases last

theorem cond_stops {sig : FuncType} (hold : g.buffer.Holds l) (h : g.cond sig = .failed g' e) :
    g.BreaksOff (.cond sig) g' l := by
  rw [cond, raw_cells, placeholder_cells] at h
  rcases Outcome.andThen_failed.mp h with first | ⟨m, done, second⟩
  · exact breaksOff_of_emit hold first rfl rfl
  · have room := emit_room done 8
    obtain ⟨buffer, rfl, held⟩ := emit_done done hold
    obtain ⟨rfl, -, full⟩ := emit_failed.mp second
    exact breaksOff_of_holds (fun all => full (room.trans all)) (.cond sig) rfl held

theorem Grew.room_eq {k : Nat} (h : g.Grew g') (size : g'.size = g.size + k) (n : Nat) :
    g'.room n = g.room (k + n) := by
  rw [room, room, size, Buffer.admits, Buffer.admits, h.limit, Nat.add_assoc]

theorem otherwise_stops (hold : g.buffer.Holds l)
    (words : ∀ off ∈ g.settles .otherwise, off.toNat ∈ l.words)
    (h : g.otherwise = .failed g' e) : g.BreaksOff .otherwise g' l := by
  cases scopes : g.scopes with
  | nil =>
    simp only [otherwise, scopes, List.head?_nil] at h
    cases h
  | cons s rest =>
    simp only [otherwise, scopes, List.head?_cons] at h
    split at h
    · rename_i p kind pending
      have settled : g.settles .otherwise = [p] := by simp [settles, scopes, pending]
      have word := words p (by simp [settled])
      split at h
      · rcases Outcome.andThen_failed.mp h with first | ⟨m, -, last⟩
        · rw [Generator.patch, (hold.retarget _ word).1] at first
          cases first
        · cases last
      · rename_i explicit
        have target : g.goal .otherwise = { pc := g.pc, mc := g.mc + 8 } := by simp [goal, explicit]
        rcases Outcome.andThen_failed.mp h with first | ⟨m, done, more⟩
        · rw [Generator.patch, (hold.retarget _ word).1] at first
          cases first
        · have grew : g.Grew m := .patch (by rw [done]; rfl)
          obtain ⟨buffer, rfl, held⟩ := patch_done done hold word
          rcases Outcome.andThen_failed.mp more with second | ⟨n, -, last⟩
          · obtain ⟨rfl, -, full⟩ := emit_failed.mp second
            have same := grew.room_eq (k := 0) (held.size.trans hold.size.symm) 8
            refine ⟨fun all => full (same.trans ?_), [], ?_, ?_⟩
            · simpa [cells, explicit, Cell.size] using all
            · simpa [setTop, scopes] using Stops.otherwise scopes pending
            · rwa [draft, settled, target, Ledger.add_nil]
          · cases last
    · cases h

theorem close_stops (hold : g.buffer.Holds l)
    (words : ∀ off ∈ g.settles .close, off.toNat ∈ l.words)
    (h : g.close = .failed g' e) : g.BreaksOff .close g' l := by
  cases scopes : g.scopes with
  | nil =>
    simp only [close, scopes] at h
    cases h
  | cons s rest =>
    have settled : g.settles .close = s.waiting := by simp [settles, scopes]
    rw [settled] at words
    have resolved (t : Target) : ∃ buffer log, Generator.resolve { g with scopes := rest } s t =
        .done { g with scopes := rest, buffer, log } ∧ buffer.Holds (l.assign s.waiting t) :=
      resolve_done (g := { g with scopes := rest }) s t hold words
    simp only [close, scopes] at h
    split at h
    · obtain ⟨buffer, log, done, -⟩ := resolved (s.entry.getD { pc := 0, mc := 0 })
      rw [done] at h
      cases h
    · rename_i kind
      have target : g.goal .close = { pc := g.pc - 1, mc := g.mc } := by simp [goal, scopes, kind]
      have cells : g.cells .close = Cell.returnData s.branchTypes := by
        simp [Generator.cells, setting, scopes, kind]
      obtain ⟨buffer, log, done, held⟩ := resolved { pc := g.pc - 1, mc := g.mc }
      have grew := Grew.resolve (g := { g with scopes := rest }) (by rw [done]; rfl)
      rw [done, Outcome.done_andThen] at h
      rcases Outcome.andThen_failed.mp h with emitted | ⟨n, -, last⟩
      · rw [← Cell.blank_returnData] at emitted
        obtain ⟨rfl, -, full⟩ := emit_failed.mp emitted
        rw [Cell.blank, Cell.length_write] at full
        have same := grew.room_eq (k := 0) (held.size.trans hold.size.symm)
        refine ⟨fun all => full ((same _).trans ?_), [], .close scopes, ?_⟩
        · rwa [cells, ← Nat.zero_add (Cell.sizes _)] at all
        · rwa [draft, settled, target, Ledger.add_nil]
      · cases last
    · obtain ⟨buffer, log, done, -⟩ := resolved { pc := g.pc - 1, mc := g.mc }
      rw [done] at h
      cases h

theorem branch_failed {d : UInt32} {height : Int} (h : g.branch d height = .failed g' e) :
    g' = g ∧ ¬ g.room 16 := by
  cases found : g.scopes[d.toNat]? with
  | none =>
    simp only [branch, scopeAt, found] at h
    cases h
  | some s =>
    simp only [branch, scopeAt, found] at h
    split at h
    · cases h
    · rcases Outcome.andThen_failed.mp h with first | ⟨m, -, last⟩
      · obtain ⟨same, -, full⟩ := emit_failed.mp first
        exact ⟨same, by simpa [Entry.branch, Entry.placeholder] using full⟩
      · cases last

theorem branches_failed {ds : List UInt32} {height : Int} (hold : g.buffer.Holds l)
    (h : g.branches height ds = .failed g' e) :
    ∃ front buffer, front <+: ds ∧ (∀ d ∈ front, d.toNat < g.scopes.length) ∧
      g' = { g with buffer, scopes := Scope.awaitAll g.size g.scopes front } ∧
      buffer.Holds (l.add (front.flatMap (g.setting height.toNat).branch)) ∧
      ¬ g.room (16 * ds.length) := by
  induction ds generalizing g l with
  | nil => cases h
  | cons d rest ih =>
    rcases Outcome.andThen_failed.mp h with first | ⟨m, done, more⟩
    · obtain ⟨rfl, full⟩ := branch_failed first
      refine ⟨[], g'.buffer, ⟨_, rfl⟩, by simp, rfl, by simpa using hold,
        fun room => full (room_mono ?_ room)⟩
      simp only [List.length_cons]
      omega
    · have grew : g.Grew m := .branch (by rw [done]; rfl)
      obtain ⟨inside, buffer, rfl, held⟩ := branch_done done hold
      obtain ⟨front, buffer', split, others, rfl, held', full⟩ := ih held more
      have size : buffer.size = g.size + 16 := by
        rw [held.size, Ledger.size_add, Setting.sizes_branch, ← hold.size]
        rfl
      refine ⟨d :: front, buffer', List.cons_prefix_cons.mpr ⟨rfl, split⟩, ?_, ?_, ?_, ?_⟩
      · refine List.forall_mem_cons.mpr ⟨inside, ?_⟩
        simpa using others
      · simp [Scope.awaitAll, Generator.size, size, mc]
      · rwa [setting_await, Ledger.add_add] at held'
      · rw [grew.room_eq size] at full
        rwa [List.length_cons, Nat.mul_succ, Nat.add_comm]

theorem branchTable_stops {ds : List UInt32} {d : UInt32} {height : Int} (hold : g.buffer.Holds l)
    (h : g.branchTable ds d height = .failed g' e) :
    g.BreaksOff (.branchTable ds d height) g' l := by
  rw [branchTable, raw_cells] at h
  rcases Outcome.andThen_failed.mp h with first | ⟨m, done, more⟩
  · exact breaksOff_of_emit hold first rfl rfl
  · have room := emit_room done
    obtain ⟨buffer, rfl, held⟩ := emit_done done hold
    obtain ⟨front, buffer', split, inside, rfl, held', full⟩ := branches_failed held more
    have size : buffer.size = g.size + 8 := by
      rw [held.size, Ledger.size_add, ← hold.size]
      rfl
    have stops : g.Stops (.branchTable ds d height) _ _ := .branchTable height split inside
    rw [← size] at stops
    rw [Ledger.add_add] at held'
    refine breaksOff_of_holds ?_ stops rfl held'
    rw [room] at full
    rwa [cells, Cell.sizes_cons, Setting.sizes_branches]

theorem localTee_stops {index : UInt32} (hold : g.buffer.Holds l)
    (h : g.localTee index = .failed g' e) : g.BreaksOff (.localTee index) g' l := by
  rcases Outcome.andThen_failed.mp h with first | ⟨m, done, second⟩
  · rw [localSlot, value_entry] at first
    exact breaksOff_of_emit hold first rfl rfl
  · rw [localSlot, value_entry] at done second
    have room := emit_room done
    obtain ⟨buffer, rfl, held⟩ := emit_done done hold
    obtain ⟨rfl, -, full⟩ := emit_failed.mp second
    rw [Cell.blank, Cell.length_write, room] at full
    have stops : g.Stops (.localTee index) _ g.scopes :=
      .midway rfl ⟨_, rfl⟩ (by simp [Setting.localSlot, Setting.value])
        (by simp [Setting.localSlot, Setting.value, Cell.size])
    exact breaksOff_of_holds full stops rfl held

def callChunks (r : Registers) (callee : FuncType) : List (List Cell) :=
  [Cell.registers (Arguments.depths callee.params (Arguments.inGpr r callee.params)) ++
      Cell.registers (Arguments.depths callee.params (Arguments.inFpr r callee.params)),
    Cell.stackArguments callee.params.length
    (Arguments.depths callee.params (Arguments.onStack r callee.params)),
    Cell.returnData callee.results]

theorem callData_eq (callee : FuncType) :
    g.callData callee = g.emitAll (callChunks g.registers callee) := by
  simp only [callData, callChunks, emitAll, Cell.blank_region, Cell.blank_tail,
    Cell.blank_returnData, Outcome.andThen_id]

theorem callChunks_mod {r : Registers} (callee : FuncType) {part : List Cell}
    (h : part ∈ callChunks r callee) : Cell.sizes part % 8 = 0 := by
  simp only [callChunks, List.mem_cons, List.not_mem_nil, or_false] at h
  rcases h with rfl | rfl | rfl
  · rw [Cell.sizes_append, Cell.sizes_registers, Cell.sizes_registers]
  · rw [Cell.sizes_stackArguments, Entry.roundUp_mod]
  · rw [Cell.sizes_returnData, Entry.roundUp_mod]

/-- A call may break off behind its header or behind any part of its call data. -/
theorem call_stops {header : List Cell} {callee : FuncType} (hold : g.buffer.Holds l)
    (h : (g.emit (Cell.blank header)).andThen (fun g => g.callData callee) = .failed g' e)
    (cells : g.cells op = header ++ Cell.callData g.registers callee) (settles : g.settles op = [])
    (wordless : Cell.target ∉ header) (aligned : Cell.sizes header % 8 = 0) :
    g.BreaksOff op g' l := by
  rcases Outcome.andThen_failed.mp h with first | ⟨m, done, more⟩
  · exact breaksOff_of_emit hold first cells settles
  · have room := emit_room done
    obtain ⟨buffer, rfl, held⟩ := emit_done done hold
    rw [callData_eq] at more
    obtain ⟨front, c, back, buffer', split, rfl, held', full⟩ := emitAll_failed held more
    have whole : Cell.callData g.registers callee = front.flatten ++ (c ++ back.flatten) := by
      have := congrArg List.flatten split
      simpa [Cell.callData, callChunks] using this
    have stops : g.Stops op (header ++ front.flatten) g.scopes := by
      refine .midway settles ⟨c ++ back.flatten, by rw [cells, whole, List.append_assoc]⟩
        (fun mem => ?_) ?_
      · rcases List.mem_append.mp mem with mem | mem
        · exact wordless mem
        · exact Cell.target_not_mem_callData g.registers callee (whole ▸ List.mem_append_left _ mem)
      · have chunks := Cell.sizes_flatten_mod fun part mem =>
          callChunks_mod callee (split ▸ List.mem_append_left _ mem)
        rw [Cell.sizes_append]
        omega
    rw [Ledger.add_add] at held'
    refine breaksOff_of_holds (fun all => full ?_) stops settles held'
    rw [room]
    refine room_mono ?_ all
    simp only [cells, whole, Cell.sizes_append]
    omega

theorem handle_not_failed {handler : Handler} : g.handle handler ≠ .failed g' e := by
  unfold handle
  split
  · simp
  · split <;> simp

theorem delegate_not_failed {depth : UInt32} (hold : g.buffer.Holds l)
    (words : ∀ off ∈ g.settles (.delegate depth), off.toNat ∈ l.words) :
    g.delegate depth ≠ .failed g' e := by
  cases scopes : g.scopes with
  | nil => simp [delegate, scopes]
  | cons s rest =>
    obtain ⟨buffer, log, done, -⟩ := resolve_done (g := { g with
      scopes := rest, log := g.log.push (.delegate g.func depth s.awaiting.length) }) s
      { pc := g.pc, mc := g.mc } hold
        (fun off waits => words off (by simpa [settles, scopes] using waits))
    simp only [delegate, scopes, done]
    split <;> simp

theorem Records.failed (records : g.Records l) (h : g.apply op = .failed g' e) :
    g.BreaksOff op g' l := by
  have words : ∀ off ∈ g.settles op, off.toNat ∈ l.words := fun off settles =>
    records.tracked off (settles_subset op off settles)
  have hold := records.holds
  cases op with
  | addLocals count | startCode | attempt sig => cases h
  | block sig => exact block_stops hold h
  | loop sig => exact loop_stops hold h
  | cond sig => exact cond_stops hold h
  | otherwise => exact otherwise_stops hold words h
  | close => exact close_stops hold words h
  | handle handler => exact absurd h handle_not_failed
  | delegate depth => exact absurd h (delegate_not_failed hold words)
  | branch d height =>
    obtain ⟨rfl, full⟩ := branch_failed h
    have stops : g'.Stops (.branch d height) [] g'.scopes := .midway rfl ⟨_, rfl⟩ (by simp) rfl
    exact breaksOff_of_holds full stops rfl (by rwa [Ledger.add_nil])
  | branchTable ds d height => exact branchTable_stops hold h
  | call func callee =>
    rw [Generator.apply, call, call_entry] at h
    exact call_stops hold h rfl rfl (by simp) (by simp [Cell.size])
  | callIndirect table type callee =>
    rw [Generator.apply, callIndirect, callIndirect_entry] at h
    exact call_stops hold h rfl rfl (by simp) (by simp [Cell.size])
  | localTee index => exact localTee_stops hold h
  | globalGet index =>
    cases found : g.globals[index.toNat]? with
    | none =>
      simp only [Generator.apply, globalGet, found] at h
      cases h
    | some info =>
      rw [Generator.apply, globalGet_entry found] at h
      exact breaksOff_of_emit hold h (List.append_nil _).symm rfl
  | globalSet index =>
    cases found : g.globals[index.toNat]? with
    | none =>
      simp only [Generator.apply, globalSet, found] at h
      cases h
    | some info =>
      rw [Generator.apply, globalSet_entry found] at h
      exact breaksOff_of_emit hold h (List.append_nil _).symm rfl
  | localSlot _ | value _ | pair _ _ | i64Const _ | select =>
    rw [apply_of_appends rfl] at h
    exact breaksOff_of_emit hold h (List.append_nil _).symm rfl

namespace Stops

variable {part : List Cell} {after : List Scope}

theorem front (stops : g.Stops op part after) : part <+: g.cells op := by
  cases stops with
  | midway settles front wordless whole => exact front
  | block sig | otherwise top pending | close top => exact ⟨_, rfl⟩
  | cond sig => exact ⟨[.num 8 g.pc.toNat], rfl⟩
  | branchTable height front inside =>
    obtain ⟨more, split⟩ := front
    rw [cells, ← split, List.flatMap_append]
    exact ⟨_, rfl⟩

theorem aligned (stops : g.Stops op part after) : Cell.sizes part % 8 = 0 := by
  cases stops with
  | midway settles front wordless whole => exact whole
  | block sig | cond sig | otherwise top pending | close top => rfl
  | branchTable height front inside =>
    rw [Cell.sizes_cons, Setting.sizes_branches, Cell.size]
    omega

theorem conserves (stops : g.Stops op part after) : (g.settles op ++ Scope.outstanding after).Perm
    (Scope.outstanding g.scopes ++ (Cell.words g.size part).map UInt32.ofNat) := by
  cases stops with
  | midway settles front wordless whole =>
    rw [settles, Cell.words_of_not_mem wordless, List.nil_append, List.map_nil, List.append_nil]
  | block sig => simp [settles, scopesAfter, Scope.outstanding, Scope.waiting, Cell.words]
  | cond sig =>
    simp only [settles, scopesAfter, Scope.outstanding, List.flatMap_cons, List.nil_append,
      Scope.waiting, Cell.words, Option.toList_some, List.map_cons, List.map_nil, List.append_nil,
      mc]
    exact List.perm_append_comm
  | otherwise top pending =>
    simp [settles, top, pending, Scope.outstanding, Scope.waiting, Scope.convert, Cell.words]
  | close top => simp [settles, top, Scope.outstanding, Cell.words]
  | branchTable height front inside =>
    have := Scope.outstanding_awaitAll (g.size + 8) inside
    simpa only [settles, Cell.words, Setting.words_branches, List.nil_append] using this

theorem pends (stops : g.Stops op part after) (h : ∀ s ∈ g.scopes, s.Pends) :
    ∀ s ∈ after, s.Pends := by
  cases stops with
  | midway settles front wordless whole => exact h
  | block sig | cond sig => exact apply_pends h
  | otherwise top pending =>
    intro s mem
    rcases List.mem_cons.mp mem with rfl | mem
    · simp [Scope.Pends, Scope.convert]
    · exact h s (by simp [top, mem])
  | close top => exact fun s mem => h s (by simp [top, mem])
  | branchTable height front inside => exact Scope.pends_awaitAll h

end Stops

/-- A call that breaks nothing succeeds where there is room for its entry. -/
theorem Records.succeeds (records : g.Records l) (safe : ∀ b, g.apply op ≠ .breach b)
    (room : g.room (Cell.sizes (g.cells op))) : ∃ g', g.apply op = .done g' := by
  cases h : g.apply op with
  | done g' => exact ⟨g', rfl⟩
  | failed g' e => exact absurd room (records.failed h).1
  | breach b => exact absurd h (safe b)

end Generator
end Sidetable
