import Sidetable.Proofs.Advance
import Sidetable.Proofs.Contract

/-!
# Frames and scopes side by side

A walk keeps frames and the generator keeps scopes. `Paired` says that they go together: every open
frame has a scope of the same kind and signature, and a walk that has closed its last frame has
finished the table. Every step keeps this, and while it holds the generator is asked for nothing
that it does not allow.
-/
namespace Sidetable

namespace Generator

variable {g g' : Generator} {op : Op}

def Allows (g : Generator) (op : Op) : Prop :=
  ∀ b, ¬ g.Misuse op b

theorem allows_of_free (scope : op.needsScope = false) (labels : op.labels = [])
    (global : op.global? = none) : g.Allows op := by
  intro b misuse
  cases misuse with
  | noScope needs _ => simp [scope] at needs
  | elseIn _ _ => cases scope
  | catchIn _ _ _ => cases scope
  | delegateIn _ _ _ => cases scope
  | label label _ => simp [labels] at label
  | globalIndex names _ => simp [global] at names

theorem allows_close {s : Scope} {rest : List Scope} (top : g.scopes = s :: rest) :
    g.Allows .close := by
  intro b misuse
  cases misuse with
  | noScope _ none => simp [top] at none
  | label label _ => cases label
  | globalIndex names _ => cases names

theorem allows_global {index : UInt32} (names : op.global? = some index)
    (inside : index.toNat < g.globals.length) : g.Allows op := by
  intro b misuse
  cases misuse with
  | noScope needs _ => cases op <;> simp_all [Op.global?, Op.needsScope]
  | elseIn _ _ => cases names
  | catchIn _ _ _ => cases names
  | delegateIn _ _ _ => cases names
  | label label _ => cases op <;> simp_all [Op.global?, Op.labels]
  | globalIndex names' outside =>
    obtain rfl := Option.some.inj (names.symm.trans names')
    exact absurd inside (Nat.not_lt.mpr outside)

theorem finished_of_close {s : Scope} {rest : List Scope} (top : g.scopes = s :: rest)
    (kind : s.kind = .toplevel) (done : g.apply .close = .done g') : g'.finished := by
  simp only [apply, close, top, kind] at done
  obtain ⟨m, -, more⟩ := Outcome.andThen_done.mp done
  obtain ⟨n, -, last⟩ := Outcome.andThen_done.mp more
  obtain rfl := Outcome.done.inj last
  rfl

end Generator

namespace Walk

variable {w w' : Walk} {i : Instr} {f : Frame} {rest : List Frame}

structure Pairs (shape : FrameKind × FuncType) (s : Scope) : Prop where
  kind : s.kind = shape.1.scope
  sig : s.sig = shape.2
  pending : shape.1 = .cond false → s.pending.isSome

structure Paired (w : Walk) : Prop where
  recorded : ∃ l, w.gen.Records l
  scopes : List.Forall₂ Pairs w.shapes w.gen.scopes
  root : ∀ shape ∈ w.shapes.getLast?, shape.1 = .function
  ended : w.shapes = [] → w.gen.finished

theorem Pairs.await {shape : FrameKind × FuncType} {s : Scope} (h : Pairs shape s) (off : UInt32) :
    Pairs shape (s.await off) :=
  ⟨h.kind, h.sig, h.pending⟩

theorem pairs_await {shapes : List (FrameKind × FuncType)} {scopes : List Scope}
    (h : List.Forall₂ Pairs shapes scopes) (n : Nat) (off : UInt32) :
    List.Forall₂ Pairs shapes (scopes.modify n (·.await off)) := by
  induction h generalizing n with
  | nil => simp
  | cons first later ih =>
    cases n with
    | zero => exact .cons (first.await off) later
    | succ n => exact .cons first (ih n)

theorem pairs_awaitAll {shapes : List (FrameKind × FuncType)} {scopes : List Scope}
    {ds : List UInt32} {pos : Nat} (h : List.Forall₂ Pairs shapes scopes) :
    List.Forall₂ Pairs shapes (Scope.awaitAll pos scopes ds) := by
  induction ds generalizing pos scopes with
  | nil => exact h
  | cons d others ih => exact ih (pairs_await h d.toNat _)

def Reaches (w : Walk) (d : UInt32) (n : Nat) : Prop :=
  ∃ f, w.frames[d.toNat]? = some f ∧ f.arity ≤ n

theorem checkLabel_eq {d : UInt32} {n : Nat} :
    w.checkLabel d n = .done w' ↔ w' = w ∧ w.Reaches d n := by
  unfold checkLabel Reaches
  cases w.frames[d.toNat]? with
  | none => simp
  | some f =>
    by_cases few : n < f.arity
    · simp [few]
    · simp only [if_neg few, Outcome.done.injEq]
      constructor
      · rintro rfl
        exact ⟨rfl, f, rfl, Nat.not_lt.mp few⟩
      · rintro ⟨rfl, -⟩
        rfl

theorem checkLabels_eq {ds : List UInt32} {n : Nat} :
    w.checkLabels n ds = .done w' ↔ w' = w ∧ ∀ d ∈ ds, w.Reaches d n := by
  induction ds generalizing w with
  | nil => simp [checkLabels, eq_comm]
  | cons d others ih =>
    rw [checkLabels, Outcome.andThen_done]
    constructor
    · rintro ⟨m, first, more⟩
      obtain ⟨rfl, reaches⟩ := checkLabel_eq.mp first
      obtain ⟨same, later⟩ := ih.mp more
      exact ⟨same, List.forall_mem_cons.mpr ⟨reaches, later⟩⟩
    · rintro ⟨rfl, all⟩
      obtain ⟨reaches, later⟩ := List.forall_mem_cons.mp all
      exact ⟨w', checkLabel_eq.mpr ⟨rfl, reaches⟩, ih.mpr ⟨rfl, later⟩⟩

namespace Paired

variable (paired : w.Paired)
include paired

theorem congr (gen : w'.gen = w.gen) (shapes : w'.shapes = w.shapes) : w'.Paired := by
  obtain ⟨recorded, scopes, root, ended⟩ := paired
  rw [← gen] at recorded scopes ended
  rw [← shapes] at scopes root ended
  exact ⟨recorded, scopes, root, ended⟩

theorem moveTo (i : Instr.Located) : (w.moveTo i).Paired := by
  obtain ⟨l, records⟩ := paired.recorded
  exact ⟨⟨l, records.moveTo _⟩, paired.scopes, paired.root, paired.ended⟩

theorem top (frames : w.frames = f :: rest) :
    ∃ s scopes, w.gen.scopes = s :: scopes ∧ Pairs (f.kind, f.sig) s := by
  have both := paired.scopes
  rw [shapes, frames, List.map_cons] at both
  obtain ⟨s, scopes, first, -, eq⟩ := List.forall₂_cons_left_iff.mp both
  exact ⟨s, scopes, eq, first⟩

theorem allows_end (frames : w.frames = f :: rest) : w.gen.Allows .close := by
  obtain ⟨s, scopes, top, -⟩ := paired.top frames
  exact Generator.allows_close top

theorem allows_otherwise (frames : w.frames = f :: rest) (kind : f.kind = .cond false) :
    w.gen.Allows .otherwise := by
  obtain ⟨s, scopes, top, pairs⟩ := paired.top frames
  intro b misuse
  cases misuse with
  | noScope _ none => simp [top] at none
  | elseIn top' wrong =>
    obtain ⟨rfl, -⟩ := List.cons.inj (top.symm.trans top')
    rcases wrong with other | none
    · exact other (by rw [pairs.kind, kind]; rfl)
    · have pending := pairs.pending kind
      simp [none] at pending
  | label label _ => cases label
  | globalIndex names _ => cases names

theorem allows_handle (frames : w.frames = f :: rest) (takes : takesHandler f) (handler : Handler) :
    w.gen.Allows (.handle handler) := by
  obtain ⟨s, scopes, top, pairs⟩ := paired.top frames
  intro b misuse
  cases misuse with
  | noScope _ none => simp [top] at none
  | catchIn _ top' wrong =>
    obtain ⟨rfl, -⟩ := List.cons.inj (top.symm.trans top')
    rcases takesHandler_iff.mp takes with kind | kind
    · exact wrong.1 (by rw [pairs.kind, kind]; rfl)
    · exact wrong.2 (by rw [pairs.kind, kind]; rfl)
  | label label _ => cases label
  | globalIndex names _ => cases names

theorem allows_delegate (frames : w.frames = f :: rest) (kind : f.kind = .attempt) (d : UInt32) :
    w.gen.Allows (.delegate d) := by
  obtain ⟨s, scopes, top, pairs⟩ := paired.top frames
  intro b misuse
  cases misuse with
  | noScope _ none => simp [top] at none
  | delegateIn _ top' wrong =>
    obtain ⟨rfl, -⟩ := List.cons.inj (top.symm.trans top')
    exact wrong (by rw [pairs.kind, kind]; rfl)
  | label label _ => cases label
  | globalIndex names _ => cases names

theorem not_badLabel {d : UInt32} {n : Nat} (reaches : w.Reaches d n) (b : Breach) :
    ¬ Generator.BadLabel w.gen.scopes n d b := by
  obtain ⟨f, found, enough⟩ := reaches
  have there : w.shapes[d.toNat]? = some (f.kind, f.sig) := by
    rw [shapes, List.getElem?_map, found]; rfl
  have length := paired.scopes.length_eq
  obtain ⟨inside, at_⟩ := List.getElem?_eq_some_iff.mp there
  rintro (⟨outside⟩ | ⟨s, named, few⟩)
  · omega
  · obtain ⟨inside', rfl⟩ := List.getElem?_eq_some_iff.mp named
    have pairs := paired.scopes.get inside inside'
    rw [List.get_eq_getElem, List.get_eq_getElem, at_] at pairs
    have same : (w.gen.scopes[d.toNat]).branchArity = f.arity := by
      simp only [Scope.branchArity, Scope.branchTypes, Frame.arity, pairs.kind, pairs.sig]
      cases f.kind with
      | cond sawElse => cases sawElse <;> rfl
      | _ => rfl
    omega

theorem allows_branch {d : UInt32} {n : Nat} (reaches : w.Reaches d n) :
    w.gen.Allows (.branch d n) := by
  intro b misuse
  cases misuse with
  | noScope needs _ => cases needs
  | label label bad =>
    obtain rfl := List.mem_singleton.mp label
    exact paired.not_badLabel reaches b bad
  | globalIndex names _ => cases names

theorem allows_branchTable {ds : List UInt32} {d : UInt32} {n : Nat}
    (reaches : ∀ e ∈ ds ++ [d], w.Reaches e n) : w.gen.Allows (.branchTable ds d n) := by
  intro b misuse
  cases misuse with
  | noScope needs _ => cases needs
  | label label bad => exact paired.not_badLabel (reaches _ label) b bad
  | globalIndex names _ => cases names

end Paired

theorem Paired.start (j : Job) : j.start.Paired := by
  obtain ⟨buffer, scopes⟩ := Stands.start_gen j
  refine ⟨⟨_, (Stands.start j).records⟩, ?_, ?_, ?_⟩
  · rw [scopes]
    exact .cons ⟨rfl, rfl, by simp⟩ .nil
  · rintro shape ⟨⟩
    rfl
  · intro none
    cases none

namespace Paired

variable (paired : w.Paired)
include paired

/-- An operation that succeeds leaves frames and scopes side by side. -/
theorem apply {op : Generator.Op} (done : w.gen.apply op = .done w'.gen)
    (scopes : List.Forall₂ Pairs w'.shapes (w.gen.scopesAfter op)) (shapes : w'.shapes ≠ [])
    (root : w'.shapes.getLast? = w.shapes.getLast?) : w'.Paired := by
  obtain ⟨l, records⟩ := paired.recorded
  refine ⟨⟨_, records.apply done⟩, ?_, ?_, fun none => absurd none shapes⟩
  · rwa [(records.did done).scopes]
  · rw [root]
    exact paired.root

theorem serves {height : Nat} (serves : w.gen.Serves w.mod height i w'.gen)
    (shapes : w'.shapes = w.shapes) (inside : w.shapes ≠ []) : w'.Paired := by
  rcases serves with ⟨gen, -, -⟩ | ⟨op, done, asks⟩
  · exact paired.congr gen shapes
  · refine paired.apply done ?_ (shapes ▸ inside) (by rw [shapes])
    rw [asks.scopes, shapes]
    exact pairs_awaitAll paired.scopes

theorem rest_ne_nil {kind : FrameKind} {sig : FuncType} {rest : List (FrameKind × FuncType)}
    (shapes : w.shapes = (kind, sig) :: rest) (inner : kind ≠ .function) : rest ≠ [] := by
  rintro rfl
  exact inner (paired.root (kind, sig) (by rw [shapes]; rfl))

theorem enter {o : Opener} {sig : FuncType} (inside : w.shapes ≠ [])
    (done : w.gen.apply (o.op sig) = .done w'.gen)
    (shapes : w'.shapes = (o.frameKind, sig) :: w.shapes) : w'.Paired := by
  refine paired.apply done ?_ (by simp [shapes])
    (by rw [shapes, List.getLast?_cons_of_ne_nil inside])
  rw [shapes]
  cases o with
  | cond => exact .cons ⟨rfl, rfl, fun _ => rfl⟩ paired.scopes
  | block => exact .cons ⟨rfl, rfl, by rintro ⟨⟩⟩ paired.scopes
  | loop => exact .cons ⟨rfl, rfl, by rintro ⟨⟩⟩ paired.scopes
  | attempt => exact .cons ⟨rfl, rfl, by rintro ⟨⟩⟩ paired.scopes

/-- A part of a structure takes the place of the one before it. -/
theorem replace {op : Generator.Op} {kind kind' : FrameKind} {sig : FuncType}
    {rest : List (FrameKind × FuncType)} (shapes : w.shapes = (kind, sig) :: rest)
    (inner : kind ≠ .function)
    (done : w.gen.apply op = .done w'.gen) (shapes' : w'.shapes = (kind', sig) :: rest)
    (scope : ∀ s scopes, w.gen.scopes = s :: scopes → Pairs (kind, sig) s →
      ∃ s', w.gen.scopesAfter op = s' :: scopes ∧ Pairs (kind', sig) s') : w'.Paired := by
  have more := paired.rest_ne_nil shapes inner
  have both := paired.scopes
  rw [shapes] at both
  obtain ⟨s, scopes, first, others, eq⟩ := List.forall₂_cons_left_iff.mp both
  obtain ⟨s', after, pairs⟩ := scope s scopes eq first
  refine paired.apply done ?_ (by simp [shapes']) ?_
  · rw [shapes', after]
    exact .cons pairs others
  · rw [shapes', shapes, List.getLast?_cons_of_ne_nil more, List.getLast?_cons_of_ne_nil more]

theorem close {kind : FrameKind} {sig : FuncType} {rest : List (FrameKind × FuncType)}
    {mid : Generator} (shapes : w.shapes = (kind, sig) :: rest)
    (completed : if kind = .cond false then w.gen.apply .otherwise = .done mid else mid = w.gen)
    (done : mid.apply .close = .done w'.gen) (shapes' : w'.shapes = rest) : w'.Paired := by
  have both := paired.scopes
  rw [shapes] at both
  obtain ⟨s, scopes, first, others, eq⟩ := List.forall₂_cons_left_iff.mp both
  have ⟨l, records, s', top, same⟩ : ∃ l, mid.Records l ∧ ∃ s', mid.scopes = s' :: scopes ∧
      (kind ≠ .cond false → s' = s) := by
    obtain ⟨l, records⟩ := paired.recorded
    split at completed
    · rename_i kind
      have after := (records.did completed).scopes
      rw [Generator.scopesAfter, eq] at after
      exact ⟨_, records.apply completed, _, after, fun other => absurd kind other⟩
    · subst completed
      exact ⟨l, records, s, eq, fun _ => rfl⟩
  refine ⟨⟨_, records.apply done⟩, ?_, ?_, ?_⟩
  · rw [(records.did done).scopes, shapes', Generator.scopesAfter, top]
    exact others
  · intro shape mem
    rw [shapes'] at mem
    have more : rest ≠ [] := by
      rintro rfl
      cases mem
    exact paired.root shape (by rwa [shapes, List.getLast?_cons_of_ne_nil more])
  · intro none
    have outermost : kind = .function := by
      by_contra inner
      exact paired.rest_ne_nil shapes inner (shapes'.symm.trans none)
    subst outermost
    rw [same (by simp)] at top
    exact Generator.finished_of_close top first.kind done

/-- Every step that succeeds keeps frames and scopes side by side. -/
theorem turn (inside : w.shapes ≠ []) (turn : w.Turn i w') : w'.Paired := by
  cases turn with
  | skip _ _ _ gen shapes _ _ _ => exact paired.congr gen shapes
  | within _ _ _ shapes serves _ => exact paired.serves serves shapes inside
  | enter o _ sig _ _ _ _ done shapes _ => exact paired.enter inside done shapes
  | otherwise sig rest _ _ shapes done shapes' _ =>
    refine paired.replace shapes (by simp) done shapes' fun s scopes eq pairs => ?_
    rw [Generator.scopesAfter, eq]
    exact ⟨_, rfl, rfl, pairs.sig, by simp⟩
  | handle kind last handler sig rest _ _ takes shapes done shapes' _ =>
    refine paired.replace shapes (by rcases takes with rfl | rfl <;> simp) done shapes'
      fun s scopes eq pairs => ?_
    rw [Generator.scopesAfter, eq]
    exact ⟨_, rfl, rfl, pairs.sig, by simp⟩
  | close kind sig rest mid _ _ shapes completed done shapes' _ =>
    exact paired.close shapes completed done shapes'
  | delegate depth sig rest _ _ shapes inner done shapes' _ =>
    refine paired.apply done ?_ (shapes' ▸ inner)
      (by rw [shapes', shapes, List.getLast?_cons_of_ne_nil inner])
    have both := paired.scopes
    rw [shapes] at both
    obtain ⟨s, scopes, -, others, eq⟩ := List.forall₂_cons_left_iff.mp both
    rw [shapes', Generator.scopesAfter, eq]
    exact others

end Paired

end Walk
end Sidetable
