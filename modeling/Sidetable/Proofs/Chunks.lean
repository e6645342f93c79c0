import Sidetable.Proofs.Reencoding
import Mathlib.Data.List.Nodup
import Mathlib.Data.List.Sort

/-!
# The chunks of a binary

A binary is its header and one chunk for each section. Its bytes determine the chunks, and what it
is read as depends on the chunks alone: on the order of their numbers and on what each payload is
read as. So the chunk of a custom section may stand between any two others.
-/
namespace Sidetable

/-- A section as it stands in a binary. Its size may be padded. -/
structure Chunk where
  id : UInt8
  /-- the bytes that spell the length of the payload -/
  size : List UInt8
  payload : List UInt8
  spelled : Leb128.decodeU32 size = .ok (UInt32.ofNat payload.length, size.length)
  short : payload.length < 2 ^ 32

namespace Section

def custom? : Section → Option Custom
  | custom c => some c
  | _ => none

def canonical : List UInt8 :=
  [1, 2, 3, 4, 5, 13, 6, 7, 8, 9, 12, 10, 11]

def Below (a b : UInt8) : Prop :=
  rank a < rank b

instance : DecidableRel Below :=
  fun a b => inferInstanceAs (Decidable (rank a < rank b))

instance : Std.Irrefl Below :=
  ⟨fun a => Nat.lt_irrefl (rank a)⟩

instance : Std.Antisymm Below :=
  ⟨fun _ _ h h' => absurd h (Nat.lt_asymm h')⟩

theorem mem_canonical_of_read {id : UInt8} {c stop : Cursor} {s : Section} (nonzero : id ≠ 0)
    (h : Section.read id c = .ok s stop) : id ∈ canonical := by
  unfold Section.read at h
  split at h <;> first | exact absurd rfl nonzero | decide | cases h

end Section

namespace Chunk

def bytes (c : Chunk) : List UInt8 :=
  c.id :: (c.size ++ c.payload)

def join (chunks : List Chunk) : List UInt8 :=
  chunks.flatMap bytes

def contents (c : Chunk) : Option Section :=
  match Section.read c.id (.ofBytes c.payload) with
  | .ok s _ => some s
  | .error _ _ => none

def custom? (c : Chunk) : Option Custom :=
  c.contents.bind Section.custom?

/-- The chunk is a custom section: a name after its length, which may be padded, and any data. -/
def Holds (c : Chunk) (x : Custom) : Prop :=
  c.id = 0 ∧ ∃ count,
    Leb128.decodeU32 count = .ok (UInt32.ofNat x.name.toUTF8.toList.length, count.length) ∧
    c.payload = count ++ (x.name.toUTF8.toList ++ x.data)

def ids (chunks : List Chunk) : List UInt8 :=
  (chunks.map id).filter (· ≠ 0)

def rankAfter (last : Nat) (c : Chunk) : Nat :=
  if c.id = 0 then last else Section.rank c.id

def Ranked : Nat → List Chunk → Prop
  | _, [] => True
  | last, c :: rest => (c.id ≠ 0 → last < Section.rank c.id) ∧ Ranked (c.rankAfter last) rest

variable {c d : Chunk} {chunks front back : List Chunk} {last : Nat} {s : Section} {x : Custom}

@[simp] theorem join_nil : join [] = [] :=
  rfl

@[simp] theorem join_cons (c : Chunk) (rest : List Chunk) :
    join (c :: rest) = c.bytes ++ join rest :=
  rfl

@[simp] theorem join_append (front back : List Chunk) :
    join (front ++ back) = join front ++ join back :=
  List.flatMap_append

theorem contents_eq_some :
    c.contents = some s ↔ ∃ stop, Section.read c.id (.ofBytes c.payload) = .ok s stop := by
  unfold contents
  split
  · rename_i t stop read
    simp [read]
  · rename_i f stop read
    simp [read]

/-! ## One chunk -/

theorem decode_front {used : List UInt8} {n : UInt32}
    (h : Leb128.decodeU32 used = .ok (n, used.length))
    (rest : List UInt8) : Leb128.decodeU32 (used ++ rest) = .ok (n, used.length) := by
  obtain ⟨g, front, length, -, again⟩ := Leb128.settled_u32 used n used.length h
  obtain rfl := front.eq_of_length length.symm
  exact again rest

theorem toNat_size (c : Chunk) : (UInt32.ofNat c.payload.length).toNat = c.payload.length :=
  UInt32.toNat_ofNat_of_lt' c.short

theorem bytes_ne_nil (c : Chunk) : c.bytes ≠ [] :=
  List.cons_ne_nil _ _

theorem bytes_append_inj {rest rest' : List UInt8} (same : c.bytes ++ rest = d.bytes ++ rest') :
    c = d ∧ rest = rest' := by
  obtain ⟨id, size, payload, spelled, short⟩ := c
  obtain ⟨id', size', payload', spelled', short'⟩ := d
  simp only [bytes, List.cons_append, List.append_assoc, List.cons.injEq] at same
  obtain ⟨rfl, same⟩ := same
  have first := decode_front spelled (payload ++ rest)
  have second := decode_front spelled' (payload' ++ rest')
  rw [same, second] at first
  obtain ⟨number, length⟩ := Prod.mk.inj (Except.ok.inj first)
  obtain ⟨rfl, left⟩ := List.append_inj same length.symm
  have long : payload'.length = payload.length := by
    rw [← UInt32.toNat_ofNat_of_lt' short, ← number, UInt32.toNat_ofNat_of_lt' short']
  obtain ⟨rfl, rfl⟩ := List.append_inj left long.symm
  exact ⟨rfl, rfl⟩

/-- Chunks at the front of a binary are the first of its chunks. -/
theorem join_front {rest : List UInt8} (same : join chunks = join front ++ rest) :
    ∃ back, chunks = front ++ back ∧ rest = join back := by
  induction front generalizing chunks with
  | nil => exact ⟨chunks, rfl, same.symm⟩
  | cons d front ih =>
    cases chunks with
    | nil => exact absurd (List.append_eq_nil_iff.mp same.symm).1 (by simp [bytes])
    | cons c others =>
      rw [join_cons, join_cons, List.append_assoc] at same
      obtain ⟨rfl, more⟩ := bytes_append_inj same
      obtain ⟨back, rfl, left⟩ := ih more
      exact ⟨back, rfl, left⟩

theorem join_inj (same : join chunks = join front) : chunks = front := by
  have whole : join chunks = join front ++ [] := by rw [same, List.append_nil]
  obtain ⟨back, split, none⟩ := join_front whole
  cases back with
  | nil => rw [split, List.append_nil]
  | cons c rest => simp [bytes] at none

open Read Sidetable.Module in
theorem takes_bytes (above : c.id ≠ 0 → last < Section.rank c.id) (read : c.contents = some s) :
    Takes (readSection last) c.bytes (s, c.rankAfter last) := by
  obtain ⟨stop, read⟩ := contents_eq_some.mp read
  exact takes_section above (agrees_u32.takes (decode_front c.spelled)) c.toNat_size read

open Read Sidetable.Module in
theorem finds_bytes (last : Nat) : Finds (readSection last) fun used p =>
    ∃ c : Chunk, used = c.bytes ∧ (c.id ≠ 0 → last < Section.rank c.id) ∧ c.contents = some p.1 ∧
      p.2 = c.rankAfter last := by
  refine finds_bind (finds_readRank last) fun u₁ p rank => ?_
  refine finds_bind ((agrees_u32.finds Leb128.settled_u32).inPart _) fun u₂ size number => ?_
  refine finds_bind ((Read.finds_bytes size.toNat).inPart _) fun u₃ payload found => ?_
  refine finds_bind ((finds_onBytes payload _).within _) fun u₄ s read => finds_pure ?_
  obtain ⟨rfl, above, after⟩ := rank
  obtain ⟨rfl, length⟩ := found
  obtain ⟨rfl, stop, read⟩ := read
  have spelled := number.2 []
  rw [List.append_nil, ← UInt32.ofNat_toNat (x := size), ← length] at spelled
  refine ⟨⟨p.1, u₂, u₃, spelled, length ▸ size.toNat_lt⟩, by simp [bytes], above, ?_, after⟩
  exact contents_eq_some.mpr ⟨stop, read⟩

/-! ## Custom sections -/

open Read in
theorem Holds.contents (holds : c.Holds x) : c.contents = some (.custom x) := by
  obtain ⟨zero, count, spelled, payload⟩ := holds
  have short : x.name.toUTF8.toList.length < 0x100000000 := by
    have := c.short
    rw [payload, List.length_append, List.length_append] at this
    omega
  refine contents_eq_some.mpr ⟨⟨0 + (count ++ x.name.toUTF8.toList).length, x.data⟩, ?_⟩
  have name :=
    takes_name_of (agrees_u32.takes (decode_front spelled)) (UInt32.toNat_ofNat_of_lt' short)
  rw [zero, payload, ← List.append_assoc]
  exact bind_ok.mpr ⟨x.name, _, name 0 x.data, rfl⟩

/-- A custom section does not count for the order of the others. -/
theorem ranked_insert (zero : c.id = 0) :
    Ranked last (front ++ c :: back) ↔ Ranked last (front ++ back) := by
  induction front generalizing last with
  | nil =>
    have same : c.rankAfter last = last := if_pos zero
    simp only [List.nil_append, Ranked, zero, same]
    simp
  | cons d front ih =>
    simp only [List.cons_append, Ranked, ih]

theorem ids_cons (c : Chunk) (rest : List Chunk) :
    ids (c :: rest) = if c.id = 0 then ids rest else c.id :: ids rest := by
  by_cases zero : c.id = 0
  · simp [ids, zero]
  · simp [ids, zero]

theorem Ranked.pairwise (ranked : Ranked last chunks) :
    (∀ i ∈ ids chunks, last < Section.rank i) ∧ (ids chunks).Pairwise Section.Below := by
  induction chunks generalizing last with
  | nil => simp [ids]
  | cons c rest ih =>
    obtain ⟨above, ranked⟩ := ranked
    obtain ⟨high, sorted⟩ := ih ranked
    rw [ids_cons]
    by_cases zero : c.id = 0
    · rw [rankAfter, if_pos zero] at high
      rw [if_pos zero]
      exact ⟨high, sorted⟩
    · rw [rankAfter, if_neg zero] at high
      rw [if_neg zero]
      constructor
      · intro i member
        rcases List.mem_cons.mp member with rfl | later
        · exact above zero
        · exact (above zero).trans (high i later)
      · exact List.pairwise_cons.mpr ⟨high, sorted⟩

def Reads (chunks : List Chunk) (sections : List Section) : Prop :=
  List.Forall₂ (fun c s => c.contents = some s) chunks sections

theorem reads_append {sections : List Section} : Reads (front ++ back) sections ↔
    ∃ before after, sections = before ++ after ∧ Reads front before ∧ Reads back after := by
  constructor
  · intro reads
    induction front generalizing sections with
    | nil => exact ⟨[], sections, rfl, .nil, reads⟩
    | cons c front ih =>
      cases reads with
      | cons first others =>
        obtain ⟨before, after, rfl, one, two⟩ := ih others
        exact ⟨_ :: before, after, rfl, .cons first one, two⟩
  · rintro ⟨before, after, rfl, one, two⟩
    exact List.rel_append one two

theorem Reads.filterMap_custom {sections : List Section} (reads : Reads chunks sections) :
    chunks.filterMap custom? = sections.filterMap Section.custom? := by
  induction reads with
  | nil => rfl
  | cons first _ ih =>
    simp only [List.filterMap_cons, custom?, first, Option.bind_some]
    rw [← ih]

theorem Reads.ids_subset {sections : List Section} (reads : Reads chunks sections) :
    ids chunks ⊆ Section.canonical := by
  intro i member
  obtain ⟨inside, nonzero⟩ := List.mem_filter.mp member
  obtain ⟨c, there, rfl⟩ := List.mem_map.mp inside
  obtain ⟨k, bound, rfl⟩ := List.getElem_of_mem there
  obtain ⟨stop, read⟩ := contents_eq_some.mp (reads.get bound (reads.length_eq ▸ bound))
  exact Section.mem_canonical_of_read (of_decide_eq_true nonzero) read

/-- Sections in increasing rank, each of which can be read, are in the order of a binary. -/
theorem Reads.ids_sublist {sections : List Section} (reads : Reads chunks sections)
    (ranked : Ranked last chunks) : (ids chunks).Sublist Section.canonical := by
  have sorted := ranked.pairwise.2
  have distinct := sorted.nodup
  exact List.sublist_of_subperm_of_pairwise (List.subperm_of_subset distinct reads.ids_subset)
    sorted (by decide)

end Chunk

namespace Section

/-- Every section but a custom one leaves the custom sections alone, and no section reads them. -/
theorem addTo_customs (m : Module) (s : Section) (list : List Custom) :
    Section.addTo { m with customs := list } s =
      { Section.addTo m s with customs := list ++ s.custom?.toList } := by
  cases s <;> simp [addTo, custom?]

theorem foldl_customs (sections : List Section) (m : Module) (list : List Custom) :
    sections.foldl Section.addTo { m with customs := list } =
      { sections.foldl Section.addTo m with customs := list ++ sections.filterMap custom? } := by
  induction sections generalizing m list with
  | nil => simp
  | cons s rest ih =>
    rw [List.foldl_cons, addTo_customs, ih, List.foldl_cons]
    cases h : s.custom? <;> simp [h]

theorem customs_foldl (sections : List Section) (m : Module) :
    (sections.foldl Section.addTo m).customs = m.customs ++ sections.filterMap custom? := by
  have := foldl_customs sections m m.customs
  exact congrArg Module.customs this

theorem foldl_insert (before after : List Section) (m : Module) (x : Custom) :
    (before ++ custom x :: after).foldl Section.addTo m =
      { (before ++ after).foldl Section.addTo m with
        customs := m.customs ++ before.filterMap custom? ++ x :: after.filterMap custom? } := by
  have first := customs_foldl before m
  rw [List.foldl_append, List.foldl_cons, List.foldl_append]
  have step := foldl_customs after (before.foldl Section.addTo m)
    ((before.foldl Section.addTo m).customs ++ [x])
  rw [first] at step
  have same : Section.addTo (before.foldl Section.addTo m) (custom x) =
      { before.foldl Section.addTo m with
        customs := m.customs ++ before.filterMap custom? ++ [x] } := by
    rw [addTo, first]
  rw [same, step]
  simp

end Section

namespace Read

variable {α : Type} {r : Read α} {P : α → Prop} {c stop : Cursor} {list : List α}

theorem each_of_entries (each : ∀ c a stop, r c = .ok a stop → P a) {i n : Nat}
    (h : entries r i n c = .ok list stop) : ∀ a ∈ list, P a := by
  induction n generalizing i c list with
  | zero =>
    cases h
    intro a member
    cases member
  | succ n ih =>
    obtain ⟨a, c₁, first, h⟩ := bind_ok.mp h
    obtain ⟨rest, c₂, others, h⟩ := bind_ok.mp h
    cases h
    refine List.forall_mem_cons.mpr ⟨?_, ih others⟩
    unfold Read.within at first
    split at first
    · rename_i found
      cases first
      exact each _ _ _ found
    · cases first

theorem each_of_vector (each : ∀ c a stop, r c = .ok a stop → P a)
    (h : vector r c = .ok list stop) : ∀ a ∈ list, P a := by
  obtain ⟨count, c₁, -, h⟩ := bind_ok.mp h
  obtain ⟨here, c₂, -, h⟩ := bind_ok.mp h
  by_cases room : (!here.has count.toNat) = true
  · rw [if_pos room] at h
    cases h
  · rw [if_neg room] at h
    exact each_of_entries each h

end Read

def Section.Items (c : Cursor) : Section → Prop
  | imports list => ∃ stop, Read.vector Read.importItem c = .ok list stop
  | code list => ∃ stop, Read.vector Read.funcBody c = .ok list stop
  | _ => True

open Read in
theorem Section.items_of_read {id : UInt8} {c stop : Cursor} {s : Section}
    (h : Section.read id c = .ok s stop) : s.Items c := by
  unfold Section.read at h
  split at h
  case h_1 =>
    obtain ⟨name, c₁, -, h⟩ := bind_ok.mp h
    obtain ⟨data, c₂, -, h⟩ := bind_ok.mp h
    cases h
    exact trivial
  case h_15 => cases h
  case h_3 | h_11 =>
    obtain ⟨list, c₁, read, h⟩ := bind_ok.mp h
    cases h
    exact ⟨stop, read⟩
  all_goals
    obtain ⟨a, c₁, -, h⟩ := bind_ok.mp h
    cases h
    exact trivial

/-! ## Whole binaries -/

namespace Module

open Read
open Sidetable.Chunk (join Ranked Reads)

variable {chunks : List Chunk} {sections : List Section} {fuel last pos : Nat} {m m' : Module}

theorem readSections_join (ranked : Ranked last chunks) (reads : Reads chunks sections)
    (enough : (join chunks).length ≤ fuel) (m : Module) (pos : Nat) : ∃ stop,
      readSections fuel last m ⟨pos, join chunks⟩ = .ok (sections.foldl Section.addTo m) stop := by
  induction reads generalizing fuel last m pos with
  | nil => exact ⟨_, readSections_nil fuel last pos⟩
  | @cons c s chunks sections first _ ih =>
    obtain ⟨above, ranked⟩ := ranked
    have positive := List.length_pos_iff.mpr c.bytes_ne_nil
    rw [Chunk.join_cons, List.length_append] at enough
    obtain ⟨fuel, rfl⟩ : ∃ n, fuel = n + 1 := ⟨fuel - 1, by omega⟩
    have left : (join chunks).length ≤ fuel := by omega
    obtain ⟨stop, rest⟩ := ih ranked left (s.addTo m) (pos + c.bytes.length)
    refine ⟨stop, ?_⟩
    have one := Chunk.takes_bytes above first pos (join chunks)
    rw [Chunk.join_cons, readSections_succ (by simp [c.bytes_ne_nil]) one]
    exact rest

theorem readSections_chunks {c stop : Cursor} (enough : c.rest.length ≤ fuel)
    (h : readSections fuel last m c = .ok m' stop) :
    ∃ chunks sections, c.rest = join chunks ∧ Ranked last chunks ∧ Reads chunks sections ∧
      m' = sections.foldl Section.addTo m := by
  induction fuel generalizing last m c with
  | zero =>
    cases h
    exact ⟨[], [], List.eq_nil_of_length_eq_zero (by omega), trivial, .nil, rfl⟩
  | succ fuel ih =>
    obtain ⟨unread, c₁, ⟨⟩, h⟩ := bind_ok.mp h
    by_cases none : c.rest.isEmpty
    · rw [if_pos none] at h
      cases h
      exact ⟨[], [], List.isEmpty_iff.mp none, trivial, .nil, rfl⟩
    · rw [if_neg none] at h
      obtain ⟨⟨s, last'⟩, next, first, h⟩ := bind_ok.mp h
      obtain ⟨used, front, -, d, rfl, above, contents, rfl⟩ := Chunk.finds_bytes last c _ next first
      have split : c.rest = d.bytes ++ next.rest := congrArg Cursor.rest front
      have positive := List.length_pos_iff.mpr d.bytes_ne_nil
      rw [split, List.length_append] at enough
      obtain ⟨chunks, sections, rest, ranked, reads, rfl⟩ := ih (by omega) h
      exact ⟨d :: chunks, s :: sections, by rw [split, rest]; rfl, ⟨above, ranked⟩,
        .cons contents reads, rfl⟩

def header : List UInt8 :=
  Field.encodeAll [.u32le magic, .u32le version]

theorem parse_iff {b : List UInt8} :
    parse b = .ok m ↔ ∃ chunks sections, b = header ++ join chunks ∧
    Ranked 0 chunks ∧ Reads chunks sections ∧ m = sections.foldl Section.addTo {} ∧
    m.code.length = m.funcs.length := by
  have parsed : parse b = .ok m ↔ ∃ stop, Module.read (.ofBytes b) = .ok m stop := by
    unfold parse
    split
    · rename_i m' stop read
      simp [read]
    · rename_i f stop read
      simp [read]
  rw [parsed]
  constructor
  · rintro ⟨stop, h⟩
    obtain ⟨_, c, first, h⟩ := bind_ok.mp h
    obtain ⟨_, _, ⟨⟩, h⟩ := bind_ok.mp h
    obtain ⟨m', c', all, h⟩ := bind_ok.mp h
    obtain ⟨used, front, -, rfl⟩ := finds_header _ _ _ first
    obtain ⟨chunks, sections, rest, ranked, reads, rfl⟩ := readSections_chunks le_rfl all
    by_cases paired :
      (sections.foldl Section.addTo {}).code.length ≠ (sections.foldl Section.addTo {}).funcs.length
    · rw [if_pos paired] at h
      cases h
    · rw [if_neg paired] at h
      cases h
      refine ⟨chunks, sections, ?_, ranked, reads, rfl, not_not.mp paired⟩
      rw [← rest]
      exact congrArg Cursor.rest front
  · rintro ⟨chunks, sections, rfl, ranked, reads, rfl, paired⟩
    obtain ⟨stop, all⟩ := readSections_join ranked reads le_rfl {} (0 + header.length)
    refine ⟨stop,
      bind_ok.mpr ⟨(), _, takes_header 0 _, bind_ok.mpr ⟨_, _, rfl, bind_ok.mpr ⟨_, _, all, ?_⟩⟩⟩⟩
    rw [if_neg (not_not.mpr paired)]
    rfl

/-- What holds of no section and stays when a section that was read is added holds of every parsed
module. -/
theorem parse_induction {b : List UInt8} {P : Module → Prop} (empty : P {})
    (add : ∀ m s, P m → (∃ id c stop, Section.read id c = .ok s stop) → P (s.addTo m))
    (h : parse b = .ok m) : P m := by
  obtain ⟨chunks, sections, -, -, reads, rfl, -⟩ := parse_iff.mp h
  suffices all : ∀ m, P m → P (sections.foldl Section.addTo m) from all {} empty
  clear h
  induction reads with
  | nil => exact fun m h => h
  | cons first _ ih =>
    intro m h
    obtain ⟨stop, read⟩ := Chunk.contents_eq_some.mp first
    exact ih _ (add m _ h ⟨_, _, stop, read⟩)

variable {head rest b : List UInt8} {front : List Chunk} {c : Chunk} {x : Custom}

/-- Chunks after the first eight bytes of a module's binary are the first of its chunks. -/
theorem parse_front (eight : head.length = 8) (h : parse (head ++ (join front ++ rest)) = .ok m) :
    ∃ back before after, head = header ∧ rest = join back ∧ Ranked 0 (front ++ back) ∧
      Reads front before ∧ Reads back after ∧ m = (before ++ after).foldl Section.addTo {} ∧
      m.code.length = m.funcs.length := by
  obtain ⟨chunks, sections, whole, ranked, reads, same, paired⟩ := parse_iff.mp h
  obtain ⟨known, split⟩ := List.append_inj whole eight
  obtain ⟨back, rfl, left⟩ := Chunk.join_front split.symm
  obtain ⟨before, after, rfl, one, two⟩ := Chunk.reads_append.mp reads
  exact ⟨back, before, after, known, left, ranked, one, two, same, paired⟩

theorem parse_insert (eight : head.length = 8) (holds : c.Holds x)
    (h : parse (head ++ (join front ++ rest)) = .ok m) :
    ∃ later, m.customs = front.filterMap Chunk.custom? ++ later ∧
      parse (head ++ (join (front ++ [c]) ++ rest)) =
        .ok { m with customs := front.filterMap Chunk.custom? ++ x :: later } := by
  obtain ⟨back, before, after, rfl, rfl, ranked, one, two, rfl, paired⟩ := parse_front eight h
  have customs := Section.customs_foldl (before ++ after) {}
  have inserted := Section.foldl_insert before after {} x
  rw [List.filterMap_append, ← one.filterMap_custom] at customs
  rw [← one.filterMap_custom] at inserted
  refine ⟨after.filterMap Section.custom?, customs, parse_iff.mpr ?_⟩
  refine ⟨front ++ c :: back, _, by simp, ?_, ?_, inserted.symm, paired⟩
  · exact (Chunk.ranked_insert holds.1).mpr ranked
  · exact Chunk.reads_append.mpr ⟨before, _ :: after, rfl, one, .cons holds.contents two⟩

theorem parse_remove (eight : head.length = 8) (holds : c.Holds x)
    (h : parse (head ++ (join (front ++ [c]) ++ rest)) = .ok m) :
    ∃ m', parse (head ++ (join front ++ rest)) = .ok m' := by
  obtain ⟨back, before, after, rfl, rfl, ranked, one, two, rfl, paired⟩ := parse_front eight h
  obtain ⟨before, _, rfl, first, last⟩ := Chunk.reads_append.mp one
  cases last with
  | cons contents none =>
    cases none
    obtain rfl := Option.some.inj (holds.contents.symm.trans contents)
    rw [List.append_assoc, List.singleton_append] at ranked paired
    rw [Section.foldl_insert] at paired
    have ranked := (Chunk.ranked_insert holds.1).mp ranked
    have reads := Chunk.reads_append.mpr ⟨before, after, rfl, first, two⟩
    exact ⟨_, parse_iff.mpr ⟨front ++ back, before ++ after, by simp, ranked, reads, rfl, paired⟩⟩

/-- A custom section may stand after any section of a binary: what else the module has does not
depend on it. And the other sections of a module's binary come in their fixed order, each at most
once. -/
theorem custom_sections_transparent :
    (∀ head front c x rest, head.length = 8 → Chunk.Holds c x →
      ((parse (head ++ (join (front ++ [c]) ++ rest))).isOk ↔
        (parse (head ++ (join front ++ rest))).isOk) ∧
      ∀ m, parse (head ++ (join front ++ rest)) = .ok m → ∃ later,
          m.customs = front.filterMap Chunk.custom? ++ later ∧
          parse (head ++ (join (front ++ [c]) ++ rest)) =
            .ok { m with customs := front.filterMap Chunk.custom? ++ x :: later }) ∧
    ∀ b m, parse b = .ok m →
      (∃! chunks, b = header ++ join chunks) ∧
      (∀ chunks, b = header ++ join chunks → (Chunk.ids chunks).Sublist Section.canonical ∧
        (Chunk.ids chunks).Nodup ∧ m.customs = chunks.filterMap Chunk.custom?) ∧
      m.funcs.length = m.code.length := by
  have isOk {b : List UInt8} : (parse b).isOk ↔ ∃ m, parse b = .ok m := by
    cases parse b <;> simp [Except.isOk, Except.toBool]
  constructor
  · intro head front c x rest eight holds
    refine ⟨?_, fun m h => parse_insert eight holds h⟩
    rw [isOk, isOk]
    constructor
    · rintro ⟨m, h⟩
      exact parse_remove eight holds h
    · rintro ⟨m, h⟩
      obtain ⟨later, -, more⟩ := parse_insert eight holds h
      exact ⟨_, more⟩
  · intro b m h
    obtain ⟨chunks, sections, rfl, ranked, reads, rfl, paired⟩ := parse_iff.mp h
    have only {others : List Chunk} (same : header ++ join chunks = header ++ join others) :
        others = chunks :=
      Chunk.join_inj (List.append_cancel_left same).symm
    refine ⟨⟨chunks, rfl, fun others same => only same⟩, fun others same => ?_, paired.symm⟩
    obtain rfl := only same
    refine ⟨reads.ids_sublist ranked, ranked.pairwise.2.nodup, ?_⟩
    rw [Section.customs_foldl, reads.filterMap_custom]
    rfl

/-- A custom section with padded numbers between the types and a custom section before the
functions. -/
theorem custom_sections_transparent_sample :
    let head : List UInt8 := [0, 0x61, 0x73, 0x6d, 1, 0, 0, 0]
    let types : Chunk := ⟨1, [0x84, 0], [1, 0x60, 0, 0], by decide, by decide⟩
    let c : Chunk := ⟨0, [0x85, 0x80, 0], [0x82, 0, 0xc3, 0xa9, 7], by decide, by decide⟩
    let rest : List UInt8 := [0, 2, 1, 0x61, 3, 2, 1, 0, 10, 4, 1, 2, 0, 0x0b]
    let m : Module := {
      types := [⟨[], []⟩], funcs := [0], code := [⟨[], some [0, 0x0b], [0x0b], 1⟩],
      customs := [⟨"a", []⟩] }
    c.Holds ⟨"é", [7]⟩ ∧ parse (head ++ (join [types] ++ rest)) = .ok m ∧
    parse (head ++ (join ([types] ++ [c]) ++ rest)) =
      .ok { m with customs := [⟨"é", [7]⟩, ⟨"a", []⟩] } ∧
    ∃ chunks, head ++ (join [types] ++ rest) = header ++ join chunks ∧
      (Chunk.ids chunks).Sublist Section.canonical := by
  intro head types c rest m
  have holds : c.Holds ⟨"é", [7]⟩ := ⟨rfl, [0x82, 0], by decide +kernel, by decide +kernel⟩
  have read : parse (head ++ (join [types] ++ rest)) = .ok m := by decide +kernel
  obtain ⟨transparent, ordered⟩ := custom_sections_transparent
  obtain ⟨later, same, more⟩ := (transparent head [types] c ⟨"é", [7]⟩ rest rfl holds).2 m read
  obtain ⟨⟨chunks, whole, -⟩, order, -⟩ := ordered _ m read
  have none : [types].filterMap Chunk.custom? = [] := by decide +kernel
  rw [none] at same more
  obtain rfl : later = [⟨"a", []⟩] := same.symm
  exact ⟨holds, read, more, chunks, whole, (order chunks whole).1⟩

end Module
end Sidetable
