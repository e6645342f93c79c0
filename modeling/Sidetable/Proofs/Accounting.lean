import Sidetable.Proofs.Breakage

/-!
# Accounts of target words

A generator may be driven by any calls at any positions, and calls may break off. Along the way a
ledger records what the buffer holds, and a list the words that were written. The words that are not
written yet are those that wait for an open scope; when the function is closed none is left.
-/
namespace Sidetable

namespace Cell

def within : Nat → List Cell → List Cell
  | _, [] => []
  | n, c :: rest => if c.size ≤ n then c :: within (n - c.size) rest else []

theorem within_of_front {part cells : List Cell} (front : part <+: cells)
    (pos : ∀ c ∈ cells, 0 < c.size) : within (sizes part) cells = part := by
  obtain ⟨rest, rfl⟩ := front
  induction part with
  | nil =>
    cases rest with
    | nil => rfl
    | cons c rest =>
      have := pos c (by simp)
      rw [List.nil_append, within, sizes_nil, if_neg (by omega)]
  | cons c part ih =>
    have inner := ih fun d mem => pos d (List.mem_cons_of_mem _ mem)
    rw [List.cons_append, within, sizes_cons, if_pos (Nat.le_add_right _ _),
      Nat.add_sub_cancel_left, inner]

theorem size_pos_returnData (results : List ValType) : ∀ c ∈ returnData results, 0 < c.size := by
  intro c mem
  simp only [returnData, zeros, List.mem_append, List.mem_cons, List.mem_map,
    List.mem_replicate] at mem
  rcases mem with (rfl | ⟨t, -, rfl⟩) | ⟨-, rfl⟩ <;> simp [size]

theorem size_pos_callData (r : Registers) (callee : FuncType) :
    ∀ c ∈ callData r callee, 0 < c.size := by
  intro c mem
  simp only [callData, registers, stackArguments, zeros, List.mem_append, List.mem_cons,
    List.mem_map, List.mem_replicate, List.not_mem_nil, or_false] at mem
  rcases mem with ((⟨_, -, rfl⟩ | ⟨_, -, rfl⟩) | ((rfl | rfl | rfl) | ⟨_, -, rfl⟩) | ⟨-, rfl⟩) | mem
  case inr => exact size_pos_returnData callee.results c mem
  all_goals simp [size]

end Cell

namespace Scope

def Rooted (scopes : List Scope) : Prop :=
  (scopes.map Scope.kind).Pairwise fun kind _ => kind ≠ .toplevel

theorem kinds_awaitAll (pos : Nat) (scopes : List Scope) (ds : List UInt32) :
    (awaitAll pos scopes ds).map Scope.kind = scopes.map Scope.kind := by
  induction ds generalizing pos scopes with
  | nil => rfl
  | cons d rest ih =>
    rw [awaitAll, ih]
    refine List.ext_getElem? fun n => ?_
    rw [List.getElem?_map, List.getElem?_map, List.getElem?_modify]
    cases scopes[n]? with
    | none => rfl
    | some s => by_cases same : d.toNat = n <;> simp [same, await]

theorem Rooted.cons {s : Scope} {scopes : List Scope} (h : Rooted scopes)
    (kind : s.kind ≠ .toplevel) : Rooted (s :: scopes) :=
  List.pairwise_cons.mpr ⟨fun _ _ => kind, h⟩

theorem Rooted.tail {scopes : List Scope} (h : Rooted scopes) : Rooted scopes.tail := by
  cases scopes with
  | nil => exact h
  | cons s rest => exact (List.pairwise_cons.mp h).2

end Scope

namespace Generator

variable {g g' : Generator} {l : Ledger} {op : Op} {b : Breach}

theorem size_pos_cells (op : Op) : ∀ c ∈ g.cells op, 0 < c.size := by
  intro c mem
  have branch (height : Nat) (d : UInt32) (mem : c ∈ (g.setting height).branch d) : 0 < c.size := by
    simp only [Setting.branch, List.mem_cons, List.not_mem_nil, or_false] at mem
    rcases mem with rfl | rfl | rfl | rfl <;> simp [Cell.size]
  cases op with
  | close =>
    cases final : (g.setting 0).final with
    | none => simp [cells, final] at mem
    | some results => exact Cell.size_pos_returnData results c (by simpa [cells, final] using mem)
  | branch d height => exact branch _ d mem
  | branchTable ds d height =>
    rcases List.mem_cons.mp mem with rfl | mem
    · simp [Cell.size]
    · obtain ⟨e, -, mem⟩ := List.mem_flatMap.mp mem
      exact branch _ e mem
  | call func callee =>
    rcases List.mem_append.mp mem with mem | mem
    · simp only [List.mem_cons, List.not_mem_nil, or_false] at mem
      rcases mem with rfl | rfl <;> simp [Cell.size]
    · exact Cell.size_pos_callData g.registers callee c mem
  | callIndirect table type callee =>
    rcases List.mem_append.mp mem with mem | mem
    · simp only [List.mem_cons, List.not_mem_nil, or_false] at mem
      rcases mem with rfl | rfl | rfl | rfl <;> simp [Cell.size]
    · exact Cell.size_pos_callData g.registers callee c mem
  | otherwise =>
    by_cases implied : g.site.opcode = endOpcode <;> simp_all [cells, Cell.size]
  | addLocals _ | startCode | attempt _ | handle _ | delegate _ => cases mem
  | localTee index =>
    simp only [cells, Setting.localSlot, Setting.value, List.mem_append, List.mem_cons,
      List.not_mem_nil, or_false] at mem
    rcases mem with (rfl | rfl) | rfl | rfl <;> simp [Cell.size]
  | _ =>
    simp only [cells, Setting.localSlot, Setting.value, Setting.globalGet, Setting.globalSet,
      List.mem_cons, List.not_mem_nil, or_false] at mem
    rcases mem with rfl | rfl | rfl | rfl <;> simp [Cell.size]

theorem sizes_cells_mod (op : Op) : Cell.sizes (g.cells op) % 8 = 0 := by
  cases op with
  | close =>
    cases final : (g.setting 0).final with
    | none => simp [cells, final]
    | some results => simp [cells, final, Cell.sizes_returnData, Entry.roundUp_mod]
  | branchTable ds d height =>
    rw [cells, Cell.sizes_cons, Setting.sizes_branches, Cell.size]
    omega
  | call func callee | callIndirect table type callee =>
    have whole := callSize_mod g.registers (some callee)
    simp only [cells, Cell.sizes_append, Cell.sizes_cons, Cell.sizes_nil, Cell.size,
      Cell.sizes_callData]
    omega
  | otherwise => by_cases implied : g.site.opcode = endOpcode <;> simp [cells, implied, Cell.size]
  | branch d height => rw [cells, Setting.sizes_branch]
  | _ =>
    simp [cells, Cell.size, Setting.localSlot, Setting.value, Setting.globalGet, Setting.globalSet]

theorem words_cells_mod (op : Op) {pos p : Nat} (start : pos % 8 = 0)
    (word : p ∈ Cell.words pos (g.cells op)) : p % 8 = 0 := by
  cases op with
  | cond sig =>
    obtain rfl : p = pos := by simpa [cells, Cell.words] using word
    exact start
  | otherwise =>
    by_cases implied : g.site.opcode = endOpcode
    · simp [cells, implied, Cell.words] at word
    · obtain rfl : p = pos := by simpa [cells, implied, Cell.words] using word
      exact start
  | branch d height =>
    obtain rfl : p = pos := by simpa [cells, Setting.branch, Cell.words] using word
    exact start
  | branchTable ds d height =>
    rw [cells, Cell.words, Setting.words_branches] at word
    obtain ⟨n, -, rfl⟩ := List.mem_map.mp word
    omega
  | _ =>
    rw [Cell.words_of_not_mem (target_not_mem_cells rfl)] at word
    cases word

theorem rooted_scopesAfter (op : Op) (h : Scope.Rooted g.scopes) :
    Scope.Rooted (g.scopesAfter op) := by
  cases op with
  | block sig | loop sig | cond sig | attempt sig => exact h.cons (by simp)
  | close | delegate depth => exact h.tail
  | otherwise | handle handler =>
    have inner := h.tail
    cases scopes : g.scopes with
    | nil => simp [scopesAfter, scopes, Scope.Rooted]
    | cons s rest =>
      rw [scopes] at inner
      simp only [scopesAfter, scopes]
      exact inner.cons (by simp [Scope.convert])
  | branch d height | branchTable ds d height =>
    rwa [Scope.Rooted, scopesAfter, Scope.kinds_awaitAll]
  | _ => exact h

theorem Stops.rooted {part : List Cell} {after : List Scope} (stops : g.Stops op part after)
    (h : Scope.Rooted g.scopes) : Scope.Rooted after := by
  cases stops with
  | midway settles front wordless whole => exact h
  | block sig | cond sig => exact rooted_scopesAfter _ h
  | otherwise top pending =>
    have inner := h.tail
    rw [top] at inner
    exact inner.cons (by simp [Scope.convert])
  | close top =>
    have inner := h.tail
    rwa [top] at inner
  | branchTable height front inside => rwa [Scope.Rooted, Scope.kinds_awaitAll]

/-! ## Histories -/

/-- A generator after calls at any positions, what its table records, and the words that the calls
have written, the oldest first. A call may fail; one that is a breach ends the history. -/
inductive Driven (cfg : Config) (globals : List GlobalInfo) (func : UInt32) (sig : FuncType) :
    Generator → Ledger → List UInt32 → Prop where
  | start (site : Site) : Driven cfg globals func sig (start cfg globals func sig site) {} []
  | call {g g' : Generator} {l : Ledger} {written : List UInt32}
      (driven : Driven cfg globals func sig g l written)
      (site : Site) (op : Op) (ends : ((g.moveTo site).apply op).state? = some g') :
      Driven cfg globals func sig g'
        ((g.moveTo site).draft op (Cell.within (g'.size - g.size) ((g.moveTo site).cells op)) l)
        (written ++ (g.moveTo site).settles op)

structure Balanced (cfg : Config) (g : Generator) (l : Ledger) (written : List UInt32) : Prop where
  records : g.Records l
  limit : g.buffer.limit = cfg.maxSize
  fits : g.buffer.admits g.size
  whole : l.size % 8 = 0
  aligned : ∀ p ∈ l.words, p % 8 = 0
  balance : ((written ++ Scope.outstanding g.scopes).map UInt32.toNat).Perm l.words
  blank : ∀ p ∈ l.words, p ∉ written.map UInt32.toNat → l.word p = .unset
  rooted : Scope.Rooted g.scopes

variable {cfg : Config} {globals : List GlobalInfo} {func : UInt32} {sig : FuncType}
    {written : List UInt32}

theorem balanced_start (site : Site) : Balanced cfg (start cfg globals func sig site) {} [] where
  records :=
    ⟨⟨rfl, Nat.zero_le _, fun _ _ => rfl⟩, by simp [start, Scope.outstanding, Scope.waiting],
    by simp [start, Scope.outstanding, Scope.waiting], by simp [start, Scope.Pends]⟩
  limit := rfl
  fits := by
    have low : cfg.maxSize ≤ 0 ∨ (0 : Int) ≤ cfg.maxSize.toInt := by
      rw [Int64.le_iff_toInt_le, Int64.toInt_zero]
      omega
    have zero : (start cfg globals func sig site).size = 0 := rfl
    simp only [zero, Buffer.admits, Bool.and_eq_true, Bool.or_eq_true, decide_eq_true_eq]
    exact ⟨Nat.zero_le _, low⟩
  whole := rfl
  aligned := by simp [Ledger.words, Cell.words]
  balance := by simp [start, Scope.outstanding, Scope.waiting, Ledger.words, Cell.words]
  blank := by simp [Ledger.words, Cell.words]
  rooted := by simp [start, Scope.Rooted]

namespace Balanced

theorem moveTo (h : Balanced cfg g l written) (site : Site) :
    Balanced cfg (g.moveTo site) l written :=
  ⟨h.records.moveTo site, h.limit, h.fits, h.whole, h.aligned, h.balance, h.blank, h.rooted⟩

/-- However a call ends, it has appended whole words, and the scopes stay rooted. -/
theorem part (h : Balanced cfg g l written) (ends : (g.apply op).state? = some g') :
    ∃ part, part <+: g.cells op ∧ g.Leaves op part g' l ∧ Cell.sizes part % 8 = 0 ∧
      Scope.Rooted g'.scopes := by
  rcases Outcome.state_iff.mp ends with done | ⟨e, failed⟩
  · refine ⟨g.cells op, List.prefix_rfl, h.records.leaves done, sizes_cells_mod op, ?_⟩
    rw [(h.records.did done).scopes]
    exact rooted_scopesAfter op h.rooted
  · obtain ⟨-, part, stops, held⟩ := h.records.failed failed
    exact ⟨part, stops.front, ⟨held, stops.conserves, stops.pends h.records.pends⟩, stops.aligned,
      stops.rooted h.rooted⟩

theorem within_eq {part : List Cell} (h : Balanced cfg g l written) (leaves : g.Leaves op part g' l)
    (front : part <+: g.cells op) : Cell.within (g'.size - g.size) (g.cells op) = part := by
  have size : g'.size = g.size + Cell.sizes part := by
    rw [Generator.size, leaves.holds.size, size_draft, ← h.records.holds.size]
    rfl
  rw [size, Nat.add_sub_cancel_left]
  exact Cell.within_of_front front (size_pos_cells op)

/-- Words that were written or wait, together with the new ones, are written now or wait after the
call. -/
theorem balance_part {part : List Cell} (h : Balanced cfg g l written)
    (leaves : g.Leaves op part g' l) :
    (((written ++ g.settles op) ++ Scope.outstanding g'.scopes).map UInt32.toNat).Perm
      (g.draft op part l).words := by
  have size : g.size = l.size := h.records.holds.size
  have fresh :
      ((Cell.words g.size part).map UInt32.ofNat).map UInt32.toNat = Cell.words l.size part := by
    rw [List.map_map, ← size]
    exact (List.map_congr_left fun p word => (leaves.new_word h.records word).2.1).trans
      (List.map_id _)
  rw [words_draft, List.append_assoc, List.map_append]
  refine ((leaves.conserves.map UInt32.toNat).append_left _).trans ?_
  rw [List.map_append, fresh, ← List.append_assoc, ← List.map_append]
  exact h.balance.append_right _

theorem step (h : Balanced cfg g l written) (ends : (g.apply op).state? = some g') :
    Balanced cfg g' (g.draft op (Cell.within (g'.size - g.size) (g.cells op)) l)
      (written ++ g.settles op) := by
  obtain ⟨part, front, leaves, whole, rooted⟩ := h.part ends
  have size : g.size = l.size := h.records.holds.size
  have grew :
      g'.buffer.limit = g.buffer.limit ∧ (g.buffer.admits g.size → g'.buffer.admits g'.size) := by
    obtain ⟨mid, grew, rfl | ⟨-, rfl⟩⟩ := apply_grew ends <;> exact ⟨grew.limit, grew.fits⟩
  rw [h.within_eq leaves front]
  have words : (g.draft op part l).words = l.words ++ Cell.words l.size part := words_draft
  refine ⟨leaves.records h.records, grew.1.trans h.limit, grew.2 h.fits, ?_, ?_,
    h.balance_part leaves, ?_, rooted⟩
  · have := h.whole
    rw [size_draft]
    omega
  · intro p word
    rw [words] at word
    rcases List.mem_append.mp word with old | new
    · exact h.aligned p old
    · obtain ⟨rest, split⟩ := front
      refine words_cells_mod (g := g) op h.whole ?_
      rw [← split, Cell.words_append]
      exact List.mem_append_left _ new
  · intro p word open_
    rw [List.map_append, List.mem_append, not_or] at open_
    have same : (g.draft op part l).word p = l.word p := by
      refine Ledger.word_assign_of_not_mem fun off settles eq => open_.2 ?_
      exact List.mem_map.mpr ⟨off, settles, eq⟩
    rw [same]
    rw [words] at word
    rcases List.mem_append.mp word with old | new
    · exact h.blank p old open_.1
    · exact h.records.holds.unset p (Cell.words_bounds new).1

end Balanced

theorem Driven.balanced (driven : Driven cfg globals func sig g l written) :
    Balanced cfg g l written := by
  induction driven with
  | start site => exact balanced_start site
  | call driven site op ends ih => exact (ih.moveTo site).step ends

/-! ## The accounts -/

/-- The target words of a table, those that were written and those that wait. -/
structure Accounted (cfg : Config) (g : Generator) (l : Ledger) (written : List UInt32) : Prop where
  bytes : g.buffer.bytes = l.bytes
  whole : g.size % 8 = 0
  capped : g.size ≤ Buffer.maxSize ∧ (0 < cfg.maxSize → (g.size : Int) ≤ cfg.maxSize.toInt)
  placed : ∀ p ∈ l.words, p % 8 = 0 ∧ p + 8 ≤ g.size
  unwritten : (l.words.filter fun p => p ∉ written.map UInt32.toNat).Perm
    ((Scope.outstanding g.scopes).map UInt32.toNat)
  /-- no word waits for two scopes, or twice for one -/
  apart : (Scope.outstanding g.scopes).Nodup
  once : written.Nodup
  known : ∀ off ∈ written, off.toNat ∈ l.words
  blank : ∀ p ∈ l.words, p ∉ written.map UInt32.toNat → l.word p = .unset

structure Continues (g : Generator) (l : Ledger) (written : List UInt32) (op : Op)
    (g' : Generator) : Prop where
  grows : g.size ≤ g'.size
  /-- it writes the words that it settles, and then appends -/
  writes : ∃ buffer part, part <+: g.cells op ∧
    patchAll (g.goal op) g (g.settles op) = .done { g with buffer } ∧
    g'.buffer.bytes = buffer.bytes ++ Cell.blank part
  /-- where it finishes the table, every word has been written once -/
  completes : g.finished = false → g'.finished → op = .close ∧ g'.scopes = [] ∧
    ((written ++ g.settles op).map UInt32.toNat).Perm
      (g.draft op (Cell.within (g'.size - g.size) (g.cells op)) l).words

theorem Misuse.not_access (h : g.Misuse op b) (width : Nat) (pos : Int64) (size : Nat) :
    b ≠ .access width pos size := by
  rintro rfl
  cases h with
  | label mem bad => cases bad

namespace Balanced

variable (h : Balanced cfg g l written)
include h

theorem nodup : ((written ++ Scope.outstanding g.scopes).map UInt32.toNat).Nodup :=
  h.balance.nodup_iff.mpr (Cell.words_nodup 0 l.cells)

theorem unwritten : (l.words.filter fun p => p ∉ written.map UInt32.toNat).Perm
    ((Scope.outstanding g.scopes).map UInt32.toNat) := by
  have nodup := h.nodup
  rw [List.map_append, List.nodup_append] at nodup
  have gone : (written.map UInt32.toNat).filter (fun p => p ∉ written.map UInt32.toNat) = [] := by
    rw [List.filter_eq_nil_iff]
    intro p mem
    simpa using mem
  have kept :
      ((Scope.outstanding g.scopes).map UInt32.toNat).filter
      (fun p => p ∉ written.map UInt32.toNat) =
      (Scope.outstanding g.scopes).map UInt32.toNat := by
    rw [List.filter_eq_self]
    intro p mem
    rw [decide_eq_true_eq]
    exact fun old => nodup.2.2 p old p mem rfl
  have split := h.balance.filter fun p => p ∉ written.map UInt32.toNat
  rw [List.map_append, List.filter_append, gone, kept, List.nil_append] at split
  exact split.symm

theorem accounted : Accounted cfg g l written := by
  have size : g.size = l.size := h.records.holds.size
  have fits := h.fits
  simp only [Buffer.admits, h.limit, Bool.and_eq_true, Bool.or_eq_true, decide_eq_true_eq] at fits
  refine ⟨h.records.holds.bytes, size ▸ h.whole, ⟨fits.1, fun cap => ?_⟩, ?_, h.unwritten,
    h.records.nodup, ?_, ?_, h.blank⟩
  · rcases fits.2 with none | cap'
    · rw [Int64.le_iff_toInt_le] at none
      rw [Int64.lt_iff_toInt_lt] at cap
      omega
    · exact cap'
  · intro p word
    have inside := (Cell.words_bounds word).2
    rw [Nat.zero_add] at inside
    exact ⟨h.aligned p word, size ▸ inside⟩
  · have nodup := h.nodup.of_map
    exact nodup.of_append_left
  · intro off mem
    exact h.balance.subset (List.mem_map_of_mem (List.mem_append_left _ mem))

theorem continues (ends : (g.apply op).state? = some g') : g.Continues l written op g' := by
  obtain ⟨part, front, leaves, -, -⟩ := h.part ends
  have after := h.step ends
  refine ⟨?_, ?_, ?_⟩
  · obtain ⟨mid, grew, rfl | ⟨-, rfl⟩⟩ := apply_grew ends <;> exact grew.size
  · have words : ∀ off ∈ g.settles op, off.toNat ∈ l.words := fun off settles =>
      h.records.tracked off (settles_subset op off settles)
    obtain ⟨buffer, done, held⟩ := patchAll_done (g.goal op) h.records.holds words
    refine ⟨buffer, part, front, done, ?_⟩
    rw [leaves.holds.bytes, draft, Ledger.bytes_add part held.unset, held.bytes]
  · intro unfinished finished
    obtain ⟨mid, grew, rfl | ⟨⟨rfl, done, -, s, rest, scopes, kind⟩, -⟩⟩ := apply_grew ends
    · rw [grew.finished, unfinished] at finished
      cases finished
    · have bottom : rest = [] := by
        have rooted := h.rooted
        rw [Scope.Rooted, scopes, List.map_cons, List.pairwise_cons] at rooted
        cases rest with
        | nil => rfl
        | cons t more => exact absurd kind (rooted.1 t.kind (by simp))
      have closed : g'.scopes = [] := by
        rw [(h.records.did done).scopes, scopesAfter, scopes, List.tail_cons, bottom]
      have balance := after.balance
      rw [closed, Scope.outstanding, List.flatMap_nil, List.append_nil] at balance
      exact ⟨rfl, closed, balance⟩

end Balanced

theorem target_words_accounted (driven : Driven cfg globals func sig g l written) :
    Accounted cfg g l written ∧ ∀ site op,
      (∀ b, (g.moveTo site).apply op = .breach b →
        (g.moveTo site).Misuse op b ∧ ∀ width pos size, b ≠ .access width pos size) ∧
      ∀ g', ((g.moveTo site).apply op).state? = some g' →
        (g.moveTo site).Continues l written op g' := by
  have balanced := driven.balanced
  refine ⟨balanced.accounted, fun site op => ⟨fun b breach => ?_, fun g' ends => ?_⟩⟩
  · have misuse := (balanced.moveTo site).records.breach breach
    exact ⟨misuse, misuse.not_access⟩
  · exact (balanced.moveTo site).continues ends

/-- A conditional whose branch has no room any more, and its end. -/
theorem target_words_accounted_full : ∃ g l written,
    Driven { maxSize := 24 } [] 0 ⟨[], []⟩ g l written ∧ l.words = [0, 16] ∧ written = [0, 16] ∧
      Accounted { maxSize := 24 } g l written := by
  have start : Driven { maxSize := 24 } [] 0 ⟨[], []⟩ _ _ _ := .start {}
  have opened := start.call { start := 1, stop := 3, opcode := 0x04 } (.cond ⟨[], []⟩) rfl
  have divided := opened.call { start := 3, stop := 4, opcode := 0x05 } .otherwise rfl
  have refused := divided.call { start := 4, stop := 6, opcode := 0x0c } (.branch 0 0) rfl
  have closed := refused.call { start := 6, stop := 7, opcode := 0x0b } .close rfl
  exact ⟨_, _, _, closed, rfl, rfl, (target_words_accounted closed).1⟩

end Generator
end Sidetable
