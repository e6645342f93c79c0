import Sidetable.Proofs.Comparison
import Sidetable.Proofs.Spelling

/-!
# Inserting code that is not reached

Behind an instruction that leaves for good the walk passes over everything that opens and closes its
own structures, whatever it asks for. Inserting such code changes neither whether the function is
accepted nor the side table, but for offsets into the code behind the place of insertion, which move
by the bytes that were inserted.
-/
namespace Sidetable

namespace Instr

def Located.shift (d : Nat) (i : Located) : Located :=
  { i with start := i.start + d, stop := i.stop + d }

abbrev Text := List (List UInt8 × Instr)

namespace Text

variable {text more : Text} {size fuel pos : Nat} {c : Cursor} {rest : List UInt8}
    {is : List Located}

def bytes (text : Text) : List UInt8 :=
  text.flatMap Prod.fst

def Spelled (text : Text) : Prop :=
  ∀ word ∈ text, Spells word.1 word.2 ∧ word.1 ≠ []

def located : Nat → Text → List Located
  | _, [] => []
  | pos, (used, i) :: rest =>
    { i with start := pos, stop := pos + used.length } :: located (pos + used.length) rest

theorem bytes_append (text more : Text) : bytes (text ++ more) = bytes text ++ bytes more := by
  simp [bytes]

theorem located_append (pos : Nat) (text more : Text) :
    located pos (text ++ more) = located pos text ++ located (pos + (bytes text).length) more := by
  induction text generalizing pos with
  | nil => rfl
  | cons word rest ih =>
    obtain ⟨used, i⟩ := word
    simp [located, ih, bytes, Nat.add_assoc]

theorem length_located (pos : Nat) (text : Text) : (located pos text).length = text.length := by
  induction text generalizing pos with
  | nil => rfl
  | cons word rest ih => simp [located, ih]

theorem located_shift (pos d : Nat) (text : Text) :
    located (pos + d) text = (located pos text).map (Located.shift d) := by
  induction text generalizing pos with
  | nil => rfl
  | cons word rest ih =>
    obtain ⟨used, i⟩ := word
    simp only [located, List.map_cons, ← ih, Nat.add_right_comm pos d used.length, Located.shift]

theorem toInstr_located (pos pos' : Nat) (text : Text) :
    (located pos text).map Located.toInstr = (located pos' text).map Located.toInstr := by
  induction text generalizing pos pos' with
  | nil => rfl
  | cons word rest ih =>
    simp only [located, List.map_cons]
    rw [ih]

theorem located_stop {front : List Located} {t : Located} (h : located pos text = front ++ [t]) :
    t.stop = pos + (bytes text).length := by
  induction text generalizing pos front with
  | nil => simp [located] at h
  | cons word others ih =>
    obtain ⟨used, i⟩ := word
    have split : bytes ((used, i) :: others) = used ++ bytes others := rfl
    rw [split, List.length_append, ← Nat.add_assoc]
    rw [located] at h
    cases front with
    | nil =>
      obtain ⟨rfl, none⟩ := List.cons.inj h
      have empty : others = [] := by simpa [length_located] using congrArg List.length none
      rw [empty]
      rfl
    | cons first front => exact ih (List.cons.inj h).2

theorem spelled_append : Spelled (text ++ more) ↔ Spelled text ∧ Spelled more :=
  List.forall_mem_append

theorem Spelled.length_le (spelled : Spelled text) : text.length ≤ (bytes text).length := by
  induction text with
  | nil => exact Nat.le_refl 0
  | cons word rest ih =>
    have first := List.length_pos_iff.mpr (spelled word List.mem_cons_self).2
    have others := ih fun w mem => spelled w (List.mem_cons_of_mem _ mem)
    simp only [bytes, List.flatMap_cons, List.length_append, List.length_cons] at others ⊢
    omega

/-- Reading goes through a text and on to what stands behind it. -/
theorem Spelled.readAll (spelled : Spelled text) (room : (bytes text).length ≤ size) :
    Instr.readAll size (text.length + fuel) ⟨pos, bytes text ++ rest⟩ =
      (Instr.readAll size fuel ⟨pos + (bytes text).length, rest⟩).map (located pos text ++ ·) := by
  induction text generalizing pos with
  | nil =>
    simp only [bytes, located, List.flatMap_nil, List.nil_append, List.length_nil, Nat.zero_add,
      Nat.add_zero]
    cases Instr.readAll size fuel ⟨pos, rest⟩ <;> rfl
  | cons word others ih =>
    obtain ⟨used, i⟩ := word
    obtain ⟨spells, some⟩ := spelled (used, i) List.mem_cons_self
    have split : bytes ((used, i) :: others) = used ++ bytes others := rfl
    rw [split, List.length_append] at room
    have first :
        Instr.readAll size (others.length + fuel + 1) ⟨pos, used ++ (bytes others ++ rest)⟩ = _ :=
      readAll_spelled spells some (by omega)
    rw [split, List.length_cons, Nat.add_right_comm, List.append_assoc, first,
      ih (fun w mem => spelled w (List.mem_cons_of_mem _ mem)) (by omega), List.length_append,
      Nat.add_assoc]
    cases Instr.readAll size fuel ⟨pos + (used.length + (bytes others).length), rest⟩ <;> rfl

theorem of_readAll (h : Instr.readAll size fuel c = .ok is) :
    ∃ text rest, Spelled text ∧ c.rest = bytes text ++ rest ∧
    is = located c.pos text ∧ (rest = [] ∨ text.length = fuel) := by
  induction fuel generalizing c is with
  | zero =>
    obtain rfl := Except.ok.inj h
    exact ⟨[], c.rest, by simp [Spelled], rfl, rfl, .inr rfl⟩
  | succ fuel ih =>
    rcases readAll_succ h with ⟨none, rfl⟩ | ⟨-, i, next, others, first, more, rfl⟩
    · exact ⟨[], [], by simp [Spelled], by simpa [bytes] using none, rfl, .inl rfl⟩
    · obtain ⟨used, front, behind, spells, some⟩ := finds_read size c i next first
      obtain ⟨start, stop, -⟩ := read_ok first
      obtain ⟨text, rest, spelled, eq, rfl, ends⟩ := ih more
      have place : next.pos = c.pos + used.length := by rw [behind]
      have here : i = { i.toInstr with start := c.pos, stop := c.pos + used.length } := by
        rw [← place, ← start, ← stop]
      refine ⟨(used, i.toInstr) :: text, rest, ?_, ?_, ?_, ?_⟩
      · exact List.forall_mem_cons.mpr ⟨⟨spells, some⟩, spelled⟩
      · rw [front]
        simp [bytes, eq]
      · rw [located, ← here, ← place]
      · exact ends.imp_right (congrArg Nat.succ)

theorem of_decode (h : Instr.readAll size fuel c = .ok is) (enough : c.rest.length ≤ fuel) :
    ∃ text, Spelled text ∧ c.rest = bytes text ∧ is = located c.pos text := by
  obtain ⟨text, rest, spelled, eq, located, ends⟩ := of_readAll h
  have none : rest = [] := by
    rcases ends with none | full
    · exact none
    · have := spelled.length_le
      have length := congrArg List.length eq
      rw [List.length_append] at length
      exact List.eq_nil_of_length_eq_zero (by omega)
  subst none
  exact ⟨text, spelled, by simpa using eq, located⟩

theorem Spelled.decode (spelled : Spelled text) (room : (bytes text).length ≤ size)
    (enough : text.length ≤ fuel) :
    Instr.readAll size fuel ⟨pos, bytes text⟩ = .ok (located pos text) := by
  obtain ⟨more, rfl⟩ := Nat.exists_eq_add_of_le enough
  have whole : Instr.readAll size (text.length + more) ⟨pos, bytes text ++ []⟩ = _ :=
    spelled.readAll room
  rw [List.append_nil, readAll_nil] at whole
  rw [whole]
  simp [Except.map]

/-- If all can be read that starts with a text, the rest is a text. -/
theorem Spelled.behind (spelled : Spelled text) (room : (bytes text).length ≤ size)
    (h : Instr.readAll size fuel ⟨pos, bytes text ++ rest⟩ = .ok is)
    (enough : (bytes text ++ rest).length ≤ fuel) : ∃ more, Spelled more ∧ rest = bytes more := by
  have short := spelled.length_le
  rw [List.length_append] at enough
  obtain ⟨left, rfl⟩ := Nat.exists_eq_add_of_le (show text.length ≤ fuel by omega)
  rw [spelled.readAll room] at h
  cases others : Instr.readAll size left ⟨pos + (bytes text).length, rest⟩ with
  | error f =>
    rw [others] at h
    cases h
  | ok found =>
    obtain ⟨more, spelled', eq, -⟩ := of_decode others (show rest.length ≤ left by omega)
    exact ⟨more, spelled', eq⟩

end Text
end Instr

namespace FuncBody

variable {b : FuncBody} {text : Instr.Text} {pos : Nat} {is : List Instr.Located}
    {front tail rest : List UInt8}

theorem length_rest_le (b : FuncBody) : b.cursor.rest.length ≤ b.bytes.length := by
  rw [cursor, List.length_drop]
  omega

theorem decode_text (spelled : text.Spelled) (place : b.cursor = ⟨pos, text.bytes⟩) :
    b.decode = .ok (text.located pos) := by
  have room := b.length_rest_le
  rw [place] at room
  rw [decode, place]
  exact spelled.decode room spelled.length_le

/-- If a body decodes that starts with a text, the rest is a text. -/
theorem text_behind (spelled : text.Spelled) (code : b.cursor.rest = text.bytes ++ rest)
    (h : b.decode = .ok is) : ∃ more : Instr.Text, more.Spelled ∧ rest = more.bytes := by
  have place : b.cursor = ⟨b.cursor.pos, text.bytes ++ rest⟩ := by rw [← code]
  have room := b.length_rest_le
  rw [code, List.length_append] at room
  rw [decode, place] at h
  exact spelled.behind (by omega) h (Nat.le_refl _)

def insert (b : FuncBody) (pos : Nat) (more : List UInt8) : FuncBody :=
  let bytes := b.bytes.take pos ++ more ++ b.bytes.drop pos
  { b with body := some bytes, code := bytes.drop b.codeOffset.toNat }

/-- Where the code of the body goes on behind `front`, the inserted bytes stand. -/
theorem cursor_insert (code : b.cursor.rest = front ++ tail)
    (some : front ≠ []) (more : List UInt8) :
    (b.insert (b.codeOffset.toNat + front.length) more).cursor =
      ⟨b.codeOffset.toNat, front ++ more ++ tail⟩ := by
  have rest : b.bytes.drop b.codeOffset.toNat = front ++ tail := code
  have inside : b.codeOffset.toNat ≤ b.bytes.length := by
    have length := congrArg List.length rest
    have := List.length_pos_iff.mpr some
    rw [List.length_drop, List.length_append] at length
    omega
  have before : b.bytes.take (b.codeOffset.toNat + front.length) =
      b.bytes.take b.codeOffset.toNat ++ front := by
    rw [List.take_add, rest, List.take_left]
  have behind : b.bytes.drop (b.codeOffset.toNat + front.length) = tail := by
    rw [← List.drop_drop, rest, List.drop_left]
  have bytes : (b.insert (b.codeOffset.toNat + front.length) more).bytes =
      b.bytes.take b.codeOffset.toNat ++ (front ++ more ++ tail) := by
    simp only [insert, FuncBody.bytes, Option.getD_some] at before behind ⊢
    rw [before, behind]
    simp only [List.append_assoc]
  rw [cursor, bytes]
  exact congrArg (Cursor.mk _) (List.drop_left' (List.length_take_of_le inside))

end FuncBody

namespace Job

variable {j j' : Job} {front dead rest : List Instr.Located} {t i : Instr.Located} {d k : Nat}
    {md md' : Metadata}

def moved (e d pc : Nat) : Nat :=
  if e ≤ pc then pc + d else pc

theorem toNat_after_small (low : j.base < i.stop) (short : i.stop < 2 ^ 32) :
    (j.after i).toNat = i.stop - j.base ∧ (j.after i - 1).toNat = i.stop - 1 - j.base := by
  rw [base] at low ⊢
  rw [after, toNat_ofNat_sub_one low, toNat_ofNat_sub (Nat.le_of_lt low)]
  omega

/-- The code of the second job is that of the first with `dead` behind the instruction `t`, which
leaves for good. What stands behind it is `d` bytes further on. -/
structure Inserts (j j' : Job) (front : List Instr.Located) (t : Instr.Located)
    (dead : List Instr.Located) (d : Nat) : Prop where
  siblings : j.Siblings j'
  offset : j'.body.codeOffset = j.body.codeOffset
  reads : j.body.decode = .ok j.code
  reads' : j'.body.decode = .ok j'.code
  code : ∃ rest, j.code = front ++ [t] ++ rest ∧
    j'.code = front ++ [t] ++ dead ++ rest.map (Instr.Located.shift d)
  live : (front.foldl Walk.next j.start).dead = none
  leaves : t.falls = false
  balanced : Instr.Balanced (dead.map Instr.Located.toInstr)
  short : ∀ i ∈ j'.code, i.stop < 2 ^ 32

namespace Inserts

variable (inserts : Inserts j j' front t dead d)
include inserts

theorem base_eq : j'.base = j.base := by
  rw [base, base, inserts.offset]

theorem laid : Instr.Laid j.base j.code :=
  (Instr.readAll_ok inserts.reads).1

theorem found_leaving : j.code[front.length]? = some t := by
  obtain ⟨rest, code, -⟩ := inserts.code
  rw [code]
  simp

def place (front dead : List Instr.Located) (k : Nat) : Nat :=
  if k ≤ front.length then k else k + dead.length

theorem found (found : j.code[k]? = some i) :
    j'.code[place front dead k]? = some (if k ≤ front.length then i else i.shift d) := by
  obtain ⟨rest, code, code'⟩ := inserts.code
  have before : (front ++ [t]).length = front.length + 1 := by simp
  rw [code] at found
  rw [code', place]
  by_cases early : k ≤ front.length
  · rw [List.getElem?_append_left (by omega)] at found
    rw [if_pos early, if_pos early, List.append_assoc, List.getElem?_append_left (by omega), found]
  · rw [List.getElem?_append_right (by omega), before] at found
    have skipped : (front ++ [t] ++ dead).length = front.length + 1 + dead.length := by
      rw [List.length_append, before]
    have index : k + dead.length - (front.length + 1 + dead.length) = k - (front.length + 1) := by
      omega
    rw [if_neg early, if_neg early, List.getElem?_append_right (by omega), skipped, index,
      List.getElem?_map, found]
    rfl

/-- What is in front of the insertion ends in front of it, and what is behind it starts behind
it. -/
theorem apart (found : j.code[k]? = some i) : j.base ≤ i.start ∧ i.start < i.stop ∧
    (k < front.length → i.stop ≤ t.start) ∧ (front.length < k → t.stop ≤ i.start) := by
  have laid := inserts.laid
  obtain ⟨low, high⟩ := laid.start_lt_stop found
  exact ⟨low, high, laid.stop_le found inserts.found_leaving,
    laid.stop_le inserts.found_leaving found⟩

/-- Offsets after the instruction, and of an `end`, in both jobs. -/
theorem offsets (found : j.code[k]? = some i) :
    ((j.after i).toNat = i.stop - j.base ∧ (j.after i - 1).toNat = i.stop - 1 - j.base) ∧
      (j'.after (if k ≤ front.length then i else i.shift d)).toNat =
        (if k ≤ front.length then i.stop else i.stop + d) - j.base ∧
      (j'.after (if k ≤ front.length then i else i.shift d) - 1).toNat =
        (if k ≤ front.length then i.stop else i.stop + d) - 1 - j.base := by
  obtain ⟨low, high, -⟩ := inserts.apart found
  have stop : (if k ≤ front.length then i else i.shift d).stop = if k ≤
      front.length then i.stop else i.stop + d := by
    split <;> rfl
  have short := inserts.short _ (List.mem_of_getElem? (inserts.found found))
  have later : i.stop ≤ (if k ≤ front.length then i else i.shift d).stop := by
    rw [stop]
    split <;> omega
  rw [← stop, ← inserts.base_eq]
  refine ⟨?_, toNat_after_small (by rw [inserts.base_eq]; omega) short⟩
  rw [inserts.base_eq]
  exact toNat_after_small (by omega) (by omega)

/-- The offset after an instruction moves if the instruction stands behind the insertion. -/
theorem resume_moved (found : j.code[k]? = some i) :
    (j'.after (if k ≤ front.length then i else i.shift d)).toNat =
    if t.stop - j.base ≤ i.start - j.base then (j.after i).toNat + d else (j.after i).toNat := by
  obtain ⟨low, high, early, late⟩ := inserts.apart found
  obtain ⟨⟨here, -⟩, there, -⟩ := inserts.offsets found
  have leaving := (inserts.apart inserts.found_leaving).2.1
  rw [here, there]
  by_cases before : k ≤ front.length
  · have start : i.start ≤ t.start := by
      rcases Nat.lt_or_eq_of_le before with lt | rfl
      · have := early lt
        omega
      · rw [Option.some.inj (found.symm.trans inserts.found_leaving)]
    rw [if_pos before, if_neg (by omega)]
  · have start := late (Nat.lt_of_not_le before)
    rw [if_neg before, if_pos (by omega)]
    omega

/-- Offsets that targets hold: where a structure is entered, and where an `end` stands. -/
theorem targets_moved (found : j.code[k]? = some i) (other : i ≠ t) :
    (j'.after (if k ≤ front.length then i else i.shift d)).toNat =
        moved (t.stop - j.base) d (j.after i).toNat ∧
      (j'.after (if k ≤ front.length then i else i.shift d) - 1).toNat =
        moved (t.stop - j.base) d (j.after i - 1).toNat := by
  obtain ⟨low, high, early, late⟩ := inserts.apart found
  obtain ⟨⟨here, here'⟩, there, there'⟩ := inserts.offsets found
  have leaving := (inserts.apart inserts.found_leaving).2.1
  rw [here, here', there, there', moved, moved]
  by_cases before : k ≤ front.length
  · -- `t` ends where the insertion starts, so its own end would move although `t` does not
    have apart : k < front.length := by
      refine Nat.lt_of_le_of_ne before fun eq => other ?_
      rw [eq] at found
      exact Option.some.inj (found.symm.trans inserts.found_leaving)
    have stop := early apart
    rw [if_pos before, if_neg (by omega), if_neg (by omega)]
    exact ⟨rfl, rfl⟩
  · have start := late (Nat.lt_of_not_le before)
    rw [if_neg before, if_pos (by omega), if_pos (by omega)]
    omega

theorem carries :
    Carries (fun pc pc' => pc'.toNat = moved (t.stop - j.base) d pc.toNat) j j'
      (place front dead) where
  siblings := inserts.siblings
  reads := inserts.reads
  reads' := inserts.reads'
  first := by simp [place]
  last := by
    obtain ⟨rest, code, code'⟩ := inserts.code
    rw [place, code, code', if_neg (by simp)]
    simp
    omega
  same k i found := by
    refine ⟨_, inserts.found found, by split <;> rfl, fun structural _ => ?_, fun opcode => ?_⟩
    · refine (inserts.targets_moved found ?_).1
      rintro rfl
      simp [Instr.not_structural_of_leaving inserts.leaves] at structural
    · refine (inserts.targets_moved found ?_).2
      rintro rfl
      have leaves := inserts.leaves
      simp [Instr.falls, opcode] at leaves
  gap k i found := by
    obtain ⟨rest, code, code'⟩ := inserts.code
    rcases Nat.lt_trichotomy k front.length with lt | rfl | gt
    · rw [place, place, if_pos (by omega), if_pos (by omega)]
      exact ⟨Nat.lt_succ_self k, .inl rfl⟩
    · have between : j'.between (front.length + 1) (front.length + 1 + dead.length) = dead := by
        have before : (front ++ [t]).length = front.length + 1 := by simp
        rw [Job.between, code', List.take_left' (by rw [List.length_append, before]),
          List.drop_left' before]
      rw [place, place, if_pos (Nat.le_refl _), if_neg (by omega), between]
      refine ⟨by omega, .inr ⟨?_, ?_, inserts.balanced⟩⟩
      · rw [walk, code, List.append_assoc, List.take_left]
        exact inserts.live
      · rw [Option.some.inj (found.symm.trans inserts.found_leaving)]
        exact inserts.leaves
    · rw [place, place, if_neg (by omega), if_neg (by omega)]
      exact ⟨by omega, .inl (by omega)⟩

end Inserts

/-- The second table is the first, but for offsets into the code: those of targets move by `d` from
`e` on, and those that say where the code goes on move with their instructions. -/
structure Shifted (j : Job) (e d : Nat) (md md' : Metadata) : Prop where
  size : md'.size = md.size
  bytes : ∀ p, ¬ j.InField offsetFields p → md'.bytes[p]? = md.bytes[p]?
  resumes : ∀ k i, j.code[k]? = some i → j.skips k = false → ∀ f ∈ resumeFields i.toInstr, ∃ pc,
    md.get? f.2 (j.mc k + f.1 : Nat) = some pc ∧
      md'.get? f.2 (j.mc k + f.1 : Nat) = some (if e ≤ i.start - j.base then pc + d else pc)
  targets : ∀ k i, j.code[k]? = some i → j.skips k = false → ∀ off ∈ targetOffsets i.toInstr,
    ∃ t t', md.target? (j.mc k + off : Nat) = some t ∧ md'.target? (j.mc k + off : Nat) = some t' ∧
      t'.mc = t.mc ∧ t'.pc.toNat = if e ≤ t.pc.toNat then t.pc.toNat + d else t.pc.toNat

theorem ofNat_shift_sub (a b d : Nat) :
    UInt32.ofNat (a + d) - UInt32.ofNat (b + d) = UInt32.ofNat a - UInt32.ofNat b := by
  rw [← UInt32.toNat_inj, UInt32.toNat_sub, UInt32.toNat_sub]
  simp only [UInt32.toNat_ofNat']
  omega

theorem Inserts.shifted (inserts : Inserts j j' front t dead d) (accepted : j.Accepted md)
    (accepted' : j'.Accepted md') : j.Shifted (t.stop - j.base) d md md' := by
  have carries := inserts.carries
  have frees : Frees j j' (Inserts.place front dead) (j.InField offsetFields) := by
    intro k i i' found found' reached
    refine ⟨fun f mem => covers_resume found reached mem,
      fun off mem => covers_target found reached mem, .inl ?_⟩
    obtain rfl := Option.some.inj ((inserts.found found).symm.trans found')
    split
    · rfl
    · exact ofNat_shift_sub _ _ d
  obtain ⟨size, bytes⟩ := carries.bytes accepted accepted' frees
  refine ⟨size, bytes, fun k i found reached f mem => ?_, fun k i found reached off mem => ?_⟩
  · have inside : k < j.code.length := (List.getElem?_eq_some_iff.mp found).1
    have reached' := (carries.skips accepted inside).trans reached
    have resume :=
      accepted'.resumes (inserts.found found) reached' (f := f) (by split <;> exact mem)
    rw [carries.mc accepted (Nat.le_of_lt inside), inserts.resume_moved found] at resume
    exact ⟨_, accepted.resumes found reached mem, resume⟩
  · obtain ⟨t, t', target, target', pair⟩ := carries.targets accepted accepted' found reached mem
    exact ⟨t, t', target, target', pair.mc, pair.pc⟩

section
open Instr.Text

variable {before more behind : Instr.Text} {seq tail : List UInt8}

theorem bytes_ne_nil (spelled : Spelled before) (reads : front ++ [t] = located j.base before) :
    bytes before ≠ [] := by
  intro none
  have length := spelled.length_le
  rw [none, List.length_nil, ← length_located j.base, ← reads, List.length_append] at length
  simp at length

/-- What is inserted behind the last instruction of a text stands behind that text. -/
theorem cursor_insert_stop (spelled : Spelled before)
    (body : j.body.cursor.rest = bytes before ++ tail)
    (reads : front ++ [t] = located j.base before) (seq : List UInt8) :
    (j.body.insert t.stop seq).cursor = ⟨j.base, bytes before ++ seq ++ tail⟩ := by
  rw [located_stop reads.symm]
  exact FuncBody.cursor_insert body (bytes_ne_nil spelled reads) seq

/-- Between two texts of a body another text may be inserted, if the first ends with an instruction
that leaves for good and the inserted one is balanced. -/
theorem inserts_of_texts (found : (j.mod.bodyOf j.func).isSome) (spelled : Spelled before)
    (spelled' : Spelled more) (spelled'' : Spelled behind)
    (body : j.body.cursor.rest = bytes before ++ bytes behind)
    (reads : front ++ [t] = located j.base before)
    (live : (front.foldl Walk.next j.start).dead = none) (leaves : t.falls = false)
    (balanced : Instr.Balanced ((located 0 more).map Instr.Located.toInstr))
    (short : (j.body.insert t.stop (bytes more)).bytes.length < 2 ^ 31) :
    Inserts j (j.withBody (j.body.insert t.stop (bytes more))) front t (located t.stop more)
      (bytes more).length := by
  have stop : t.stop = j.base + (bytes before).length := located_stop reads.symm
  have cursor :
      (j.body.insert t.stop (bytes more)).cursor = ⟨j.base, bytes (before ++ more ++ behind)⟩ := by
    rw [bytes_append, bytes_append]
    exact cursor_insert_stop spelled body reads _
  have decode : j.body.decode = .ok (located j.base (before ++ behind)) := by
    refine FuncBody.decode_text (spelled_append.mpr ⟨spelled, spelled''⟩) ?_
    rw [bytes_append, ← body]
    rfl
  have decode' : (j.body.insert t.stop (bytes more)).decode =
      .ok (located j.base (before ++ more ++ behind)) :=
    FuncBody.decode_text (spelled_append.mpr ⟨spelled_append.mpr ⟨spelled, spelled'⟩, spelled''⟩)
      cursor
  have code : j.code = located j.base (before ++ behind) := by
    have reads : j.code = j.body.decode.toOption.getD [] := rfl
    rw [reads, decode]
    rfl
  obtain ⟨code', reads'⟩ := code_withBody found decode'
  refine ⟨siblings_of_locals found rfl, ?_, ?_, ?_, ?_, live, leaves, ?_, ?_⟩
  · rw [body_withBody found]
    rfl
  · rw [decode, code]
  · rw [reads', code']
  · refine ⟨located t.stop behind, ?_, ?_⟩
    · rw [code, located_append, ← reads, stop]
    · rw [code', located_append, located_append, ← reads, ← located_shift, stop, bytes_append,
        List.length_append, Nat.add_assoc]
  · rwa [toInstr_located t.stop 0]
  · intro i mem
    rw [code'] at mem
    have stop := ((Instr.readAll_ok decode').2 i mem).1
    have offset := (j.body.insert t.stop (bytes more)).codeOffset.toNat_lt
    simp only [FuncBody.cursor, List.length_drop] at stop
    omega

/-- Dead code is inert. Behind a live instruction that leaves for good, code that opens and closes
its own structures may be inserted, whatever else it asks for: the function is accepted as before,
and its side table is the same but for offsets into the code, which move with the code behind the
insertion. -/
theorem dead_code_inert (j : Job) {is : List Instr.Located}
    (reads : Instr.readAll j.body.bytes.length (front.length + 1) j.body.cursor =
      .ok (front ++ [t]))
    (live : (front.foldl Walk.next j.start).dead = none) (leaves : t.falls = false)
    (decoded : Instr.decodeAll seq = .ok is)
    (balanced : Instr.Balanced (is.map Instr.Located.toInstr))
    (short : (j.body.insert t.stop seq).bytes.length < 2 ^ 31) :
    ((∃ md, j.Accepted md) ↔ ∃ md', (j.withBody (j.body.insert t.stop seq)).Accepted md') ∧
      ∀ md md', j.Accepted md → (j.withBody (j.body.insert t.stop seq)).Accepted md' →
        j.Shifted (t.stop - j.base) seq.length md md' := by
  obtain ⟨before, tail, spelled, body, place, -⟩ := of_readAll reads
  obtain ⟨more, spelled', rfl, rfl⟩ := of_decode decoded (Nat.le_refl _)
  have found : (j.mod.bodyOf j.func).isSome := by
    by_contra none
    rw [Bool.not_eq_true, Option.isSome_eq_false_iff, Option.isNone_iff_eq_none] at none
    rw [Job.body, none] at body
    exact bytes_ne_nil spelled place (List.append_eq_nil_iff.mp body.symm).1
  by_cases readable : ∃ behind : Instr.Text, behind.Spelled ∧ tail = behind.bytes
  · obtain ⟨behind, spelled'', rfl⟩ := readable
    have inserts :=
      inserts_of_texts found spelled spelled' spelled'' body place live leaves balanced short
    exact ⟨inserts.carries.accepted_iff, fun md md' => inserts.shifted⟩
  · have refused : ∀ md, ¬ j.Accepted md := by
      intro md accepted
      exact readable (FuncBody.text_behind spelled body (accepted_walk accepted).1)
    have refused' : ∀ md, ¬ (j.withBody (j.body.insert t.stop (bytes more))).Accepted md := by
      intro md accepted
      have decoded := (accepted_walk accepted).1
      rw [body_withBody found] at decoded
      refine readable (FuncBody.text_behind (spelled_append.mpr ⟨spelled, spelled'⟩) ?_ decoded)
      rw [bytes_append, cursor_insert_stop spelled body place]
    refine ⟨?_, fun md md' accepted => absurd accepted (refused md)⟩
    exact iff_of_false (not_exists.mpr refused) (not_exists.mpr refused')

def stray : List UInt8 := [
  0x1a, 0x14, 0x63,                          -- drop, call_ref 99
  0x02, 0xe3, 0x00, 0x0c, 0x63,              -- block of type 99, br 99
  0x06, 0x40, 0x18, 0x63,                    -- try, delegate 99
  0x04, 0x40, 0x05, 0x0b, 0x0b,              -- if, else, end, end
  0x20, 0x63]                                -- local.get 99

def strayTable : Metadata :=
  { sampleTable with
    bytes := [
      2, 0, 0, 0, 0, 0, 0, 0,   4, 0, 0, 0, 0, 0, 0, 0,   0, 0, 0, 0, 2, 0, 0, 0,
      37, 0, 0, 0, 112, 0, 0, 0,
      8, 0, 0, 0, 0, 0, 0, 0,   0, 0, 0, 0, 2, 0, 0, 0,   3, 0, 0, 0, 0, 0, 0, 0,
      41, 0, 0, 0, 136, 0, 0, 0,
      0, 0, 0, 0, 15, 0, 0, 0,  4, 0, 0, 0, 16, 0, 0, 0,  0, 0, 0, 0, 15, 0, 0, 0,
      43, 0, 0, 0, 136, 0, 0, 0,
      0, 0, 0, 0, 15, 0, 0, 0,  41, 0, 0, 0, 136, 0, 0, 0,  0, 0, 0, 0, 2, 0, 0, 0,
      4, 0, 0, 0, 16, 0, 0, 0,
      0, 0, 0, 0, 41, 0, 0, 0,  50, 0, 0, 0, 152, 0, 0, 0,  0, 0, 0, 0, 48, 0, 0, 0,
      0, 0, 0, 0, 2, 0, 0, 0,
      55, 0, 0, 0, 176, 0, 0, 0,  54, 0, 0, 0, 0, 0, 0, 0,  0, 0, 0, 0, 2, 0, 0, 0,
      8, 0, 127, 0, 0, 0, 0, 0]
    bytecodeLength := 59 }

theorem dead_code_inert_stray : sample.Accepted sampleTable ∧
    (sample.withBody (sample.body.insert 16 stray)).Accepted strayTable ∧
      sample.Shifted (16 - sample.base) stray.length sampleTable strayTable := by
  have accepted : sample.Accepted sampleTable := by decide +kernel
  have accepted' : (sample.withBody (sample.body.insert 16 stray)).Accepted strayTable := by
    decide +kernel
  have reads :
      Instr.readAll sample.body.bytes.length ((sample.code.take 5).length + 1) sample.body.cursor =
      .ok (sample.code.take 5 ++
        [{ opcode := 0x0e, imm := .labels [0, 1] 2, start := 11, stop := 16 }]) := by
    decide +kernel
  have decoded : Instr.decodeAll stray = .ok ((Instr.decodeAll stray).toOption.getD []) := by
    decide +kernel
  exact ⟨accepted, accepted',
    (dead_code_inert sample reads (by decide +kernel) (by decide) decoded (by decide +kernel)
    (by decide +kernel)).2 _ _ accepted accepted'⟩

end
end Job
end Sidetable
