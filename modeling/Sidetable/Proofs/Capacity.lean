import Sidetable.Proofs.Growth
import Sidetable.Proofs.Safety
import Sidetable.Proofs.Stream
import Sidetable.Proofs.Turns

/-!
# The size limit

A run under a limit does what the unlimited run does until the table outgrows the limit, and there
it fails. `Shadows` compares the two outcomes of a step; the sizes are those of the unlimited run.
-/
namespace Sidetable

structure Scale (σ ε : Type) where
  limit : Int64
  size : σ → Nat
  func : σ → UInt32
  free : σ → Prop
  cap : σ → σ
  refusal : ε → Prop

namespace Scale

variable {σ ε : Type} (S : Scale σ ε)

def fits (n : Nat) : Prop :=
  S.limit ≤ 0 ∨ (n : Int) ≤ S.limit.toInt

variable {S}

theorem fits_of_le {n m : Nat} (le : n ≤ m) (h : S.fits m) : S.fits n :=
  h.imp_right fun below => by omega

theorem fits_zero : S.fits 0 := by
  by_cases none : S.limit ≤ 0
  · exact .inl none
  · rw [Int64.le_iff_toInt_le, Int64.toInt_zero] at none
    exact .inr (by omega)

end Scale

namespace Outcome

variable {σ τ ε δ : Type} {S : Scale σ ε} {o o' : Outcome σ ε} {n : Nat} {f : UInt32}

def Fails (o : Outcome σ ε) : Prop :=
  ∃ s e, o = .failed s e

/-- The first outcome is that of a step without a limit from a state of size `n` in function `f`,
the second that of the same step under the limit. A step that succeeds makes nothing smaller. Under
the limit it succeeds in the same way, or is refused if the size that it leads to does not fit; a
step that does not succeed does not succeed under the limit either. -/
def Shadows (S : Scale σ ε) (n : Nat) (f : UInt32) (o o' : Outcome σ ε) : Prop :=
  match o with
  | .done s =>
    S.free s ∧ n ≤ S.size s ∧ S.func s = f ∧
      (S.fits n → (S.fits (S.size s) → o' = .done (S.cap s)) ∧
      (¬ S.fits (S.size s) → ∃ s' e, o' = .failed s' e ∧ S.func s' = f ∧ S.refusal e))
  | .failed _ _ => S.fits n → o'.Fails
  | .breach b => S.fits n → o' = .breach b ∨ o'.Fails

theorem shadows_done {s s' : σ} (free : S.free s) (size : S.size s = n) (func : S.func s = f)
    (cap : s' = S.cap s) : Shadows S n f (.done s) (.done s') := by
  refine ⟨free, Nat.le_of_eq size.symm, func, fun fits => ⟨fun _ => by rw [cap], fun beyond => ?_⟩⟩
  rw [size] at beyond
  exact absurd fits beyond

theorem shadows_failed {s s' : σ} {e e' : ε} : Shadows S n f (.failed s e) (.failed s' e') :=
  fun _ => ⟨s', e', rfl⟩

theorem shadows_breach {b : Breach} : Shadows S n f (.breach b) (.breach b) :=
  fun _ => .inl rfl

theorem Fails.andThen {next : σ → Outcome σ ε} (h : o.Fails) : (o.andThen next).Fails := by
  obtain ⟨s, e, rfl⟩ := h
  exact ⟨s, e, rfl⟩

theorem Shadows.andThen {next next' : σ → Outcome σ ε} (h : Shadows S n f o o')
    (more : ∀ s, S.free s → Shadows S (S.size s) (S.func s) (next s) (next' (S.cap s))) :
    Shadows S n f (o.andThen next) (o'.andThen next') := by
  cases o with
  | failed s e => exact fun fits => (h fits).andThen
  | breach b =>
    intro fits
    rcases h fits with same | fails
    · exact .inl (by rw [same]; rfl)
    · exact .inr fails.andThen
  | done s =>
    obtain ⟨free, grows, rfl, shadow⟩ := h
    have rest := more s free
    -- where the first step stays within the limit the second decides, and otherwise the first has
    -- failed
    have split (fits : S.fits n) : S.fits (S.size s) ∧ o'.andThen next' = next' (S.cap s) ∨
        ¬ S.fits (S.size s) ∧ ∃ s' e, o'.andThen next' = .failed s' e ∧ S.func s' = S.func s ∧
          S.refusal e := by
      by_cases inside : S.fits (S.size s)
      · exact .inl ⟨inside, by rw [(shadow fits).1 inside]; rfl⟩
      · obtain ⟨s', e, failed, refusal⟩ := (shadow fits).2 inside
        exact .inr ⟨inside, s', e, by rw [failed]; rfl, refusal⟩
    change Shadows S n (S.func s) (next s) _
    cases after : next s with
    | done t =>
      rw [after] at rest
      obtain ⟨free', grows', same', shadow'⟩ := rest
      refine ⟨free', Nat.le_trans grows grows', same', fun fits => ?_⟩
      rcases split fits with ⟨inside, same⟩ | ⟨beyond, refused⟩
      · rw [same]
        exact shadow' inside
      · exact ⟨fun fits' => absurd (Scale.fits_of_le grows' fits') beyond, fun _ => refused⟩
    | failed t e =>
      rw [after] at rest
      intro fits
      rcases split fits with ⟨inside, same⟩ | ⟨-, s', e, failed, -⟩
      · rw [same]
        exact rest inside
      · exact ⟨s', e, failed⟩
    | breach b =>
      rw [after] at rest
      intro fits
      rcases split fits with ⟨inside, same⟩ | ⟨-, s', e, failed, -⟩
      · rw [same]
        exact rest inside
      · exact .inr ⟨s', e, failed⟩

theorem Shadows.map {T : Scale τ δ} {state : σ → τ} {error : ε → δ} (h : Shadows S n f o o')
    (limit : T.limit = S.limit) (free : ∀ s, S.free s → T.free (state s))
    (size : ∀ s, T.size (state s) = S.size s) (func : ∀ s, T.func (state s) = S.func s)
    (cap : ∀ s, state (S.cap s) = T.cap (state s))
    (refusal : ∀ e, S.refusal e → T.refusal (error e)) :
    Shadows T n f (o.map state error) (o'.map state error) := by
  have same (n : Nat) : T.fits n ↔ S.fits n := by rw [Scale.fits, Scale.fits, limit]
  have fails {o' : Outcome σ ε} (h : o'.Fails) : (o'.map state error).Fails := by
    obtain ⟨s, e, rfl⟩ := h
    exact ⟨state s, error e, rfl⟩
  cases o with
  | failed s e => exact fun fits => fails (h ((same n).mp fits))
  | breach b =>
    intro fits
    rcases h ((same n).mp fits) with breach | failed
    · exact .inl (by rw [breach]; rfl)
    · exact .inr (fails failed)
  | done s =>
    obtain ⟨isFree, grows, same', shadow⟩ := h
    refine ⟨free s isFree, by rw [size]; exact grows, (func s).trans same', fun fits => ?_⟩
    rw [size]
    obtain ⟨inside, beyond⟩ := shadow ((same n).mp fits)
    refine ⟨fun fits' => ?_, fun out => ?_⟩
    · rw [inside ((same _).mp fits')]
      exact congrArg Outcome.done (cap s)
    · obtain ⟨s', e, failed, same', refused⟩ := beyond (fun fits' => out ((same _).mpr fits'))
      exact ⟨state s', error e, by rw [failed]; rfl, (func s').trans same', refusal e refused⟩

end Outcome

open Outcome (Shadows shadows_done shadows_failed shadows_breach)

namespace Generator

variable {L : Int64} {g : Generator}

def capped (g : Generator) (L : Int64) : Generator :=
  { g with buffer := { g.buffer with limit := L } }

theorem capped_scopes : (g.capped L).scopes = g.scopes :=
  rfl

def scale (L : Int64) : Scale Generator AllocationError where
  limit := L
  size := size
  func := func
  free g := g.buffer.limit = 0
  cap g := g.capped L
  refusal e := ∃ n, e = .refused n

theorem room_free (free : g.buffer.limit = 0) (n : Nat) :
    g.room n ↔ g.size + n ≤ Buffer.maxSize := by
  simp [room, Buffer.admits, free]

theorem room_capped (n : Nat) :
    (g.capped L).room n ↔ g.size + n ≤ Buffer.maxSize ∧ (scale L).fits (g.size + n) := by
  simp only [room, Buffer.admits, Bool.and_eq_true, Bool.or_eq_true, decide_eq_true_eq]
  rfl

theorem shadows_emit (free : g.buffer.limit = 0) (entry : List UInt8) :
    Shadows (scale L) g.size g.func (g.emit entry) ((g.capped L).emit entry) := by
  have refused (full : ¬ (g.capped L).room entry.length) :
      (g.capped L).emit entry = .failed (g.capped L) (.refused entry.length) :=
        emit_failed.mpr ⟨rfl, rfl, full⟩
  by_cases room : g.room entry.length
  · rw [emit_eq_done.mpr ⟨room, rfl⟩]
    rw [room_free free] at room
    have size :
        (scale L).size { g with
        buffer := { g.buffer with data := g.buffer.data ++ entry.toArray } } =
        g.size + entry.length := by simp [scale, Generator.size, Buffer.size]
    refine ⟨free, Nat.le.intro size.symm, rfl, fun _ => ⟨fun fits => ?_, fun beyond => ?_⟩⟩
    · rw [size] at fits
      exact emit_eq_done.mpr ⟨(room_capped _).mpr ⟨room, fits⟩, rfl⟩
    · rw [size] at beyond
      exact ⟨_, _, refused fun fits => beyond ((room_capped _).mp fits).2, rfl, _, rfl⟩
  · rw [emit_failed.mpr ⟨rfl, rfl, room⟩]
    rw [room_free free] at room
    exact fun _ => ⟨_, _, refused fun fits => room ((room_capped _).mp fits).1⟩

theorem put_capped (b : Buffer) (width : Nat) (off : UInt32) (rel : Int64) (v : Nat) :
    ({ b with limit := L } : Buffer).put width off rel v =
      (b.put width off rel v).map fun c => { c with limit := L } := by
  have span : ({ b with limit := L } : Buffer).span off rel width = b.span off rel width := rfl
  unfold Buffer.put
  rw [span]
  cases b.span off rel width <;> rfl

theorem shadows_patch (free : g.buffer.limit = 0) (off : UInt32) (t : Target) :
    Shadows (scale L) g.size g.func (g.patch off t) ((g.capped L).patch off t) := by
  have low := put_capped (L := L) g.buffer 4 off 0 t.pc.toNat
  unfold patch Buffer.putTarget
  rw [show (g.capped L).buffer = { g.buffer with limit := L } from rfl]
  cases first : g.buffer.put 4 off 0 t.pc.toNat with
  | error b =>
    rw [low, first]
    exact shadows_breach
  | ok c =>
    have high := put_capped (L := L) c 4 off 4 t.mc.toNat
    rw [low, first]
    simp only [Except.map]
    cases second : c.put 4 off 4 t.mc.toNat with
    | error b =>
      rw [high, second]
      exact shadows_breach
    | ok c' =>
      rw [high, second]
      obtain ⟨limit, size⟩ := Buffer.put_kept first
      obtain ⟨limit', size'⟩ := Buffer.put_kept second
      exact shadows_done ((limit'.trans limit).trans free) (size'.trans size) rfl rfl

theorem shadows_patchAll (free : g.buffer.limit = 0) (t : Target) (offs : List UInt32) :
    Shadows (scale L) g.size g.func (patchAll t g offs) (patchAll t (g.capped L) offs) := by
  induction offs generalizing g with
  | nil => exact shadows_done free rfl rfl rfl
  | cons off rest ih => exact (shadows_patch free off t).andThen fun _ free => ih free

theorem shadows_resolve (free : g.buffer.limit = 0) (s : Scope) (t : Target) :
    Shadows (scale L) g.size g.func (g.resolve s t) ((g.capped L).resolve s t) :=
  (shadows_patchAll free t s.waiting).andThen fun _ free => shadows_done free rfl rfl rfl

theorem shadows_branch (free : g.buffer.limit = 0) (depth : UInt32) (height : Int) :
    Shadows (scale L) g.size g.func (g.branch depth height) ((g.capped L).branch depth height) := by
  unfold branch
  rw [show (g.capped L).scopeAt depth = g.scopeAt depth from rfl]
  cases g.scopeAt depth with
  | error b => exact shadows_breach
  | ok s =>
    dsimp only
    split
    · exact shadows_breach
    · exact (shadows_emit free _).andThen fun _ free => shadows_done free rfl rfl rfl

theorem shadows_branches (free : g.buffer.limit = 0) (height : Int) (depths : List UInt32) :
    Shadows (scale L) g.size g.func (branches height g depths)
      (branches height (g.capped L) depths) := by
  induction depths generalizing g with
  | nil => exact shadows_done free rfl rfl rfl
  | cons d rest ih => exact (shadows_branch free d height).andThen fun _ free => ih free

theorem shadows_callData (free : g.buffer.limit = 0) (callee : FuncType) :
    Shadows (scale L) g.size g.func (g.callData callee) ((g.capped L).callData callee) :=
  (shadows_emit free _).andThen fun _ free => (shadows_emit free _).andThen fun _ free =>
    shadows_emit free _

theorem shadows_otherwise (free : g.buffer.limit = 0) :
    Shadows (scale L) g.size g.func g.otherwise (g.capped L).otherwise := by
  unfold otherwise
  rw [capped_scopes]
  cases g.scopes.head? with
  | none => exact shadows_breach
  | some s =>
    dsimp only
    split
    · rw [show (g.capped L).site = g.site from rfl]
      split
      · exact (shadows_patch free _ _).andThen fun _ free => shadows_done free rfl rfl rfl
      · refine (shadows_patch free _ _).andThen fun m free => ?_
        exact (shadows_emit (g := m.setTop _) free _).andThen fun _ free =>
          shadows_done free rfl rfl rfl
    · exact shadows_breach

theorem shadows_close (free : g.buffer.limit = 0) :
    Shadows (scale L) g.size g.func g.close (g.capped L).close := by
  unfold close
  rw [capped_scopes]
  cases g.scopes with
  | nil => exact shadows_breach
  | cons s rest =>
    dsimp only
    have outer (t : Target) :
        Shadows (scale L) g.size g.func ({ g with scopes := rest }.resolve s t)
        ({ g.capped L with scopes := rest }.resolve s t) :=
          shadows_resolve (g := { g with scopes := rest }) free s t
    split
    · exact outer _
    · refine (outer _).andThen fun m free => ?_
      exact (shadows_emit (g := { m with bytecodeLength := m.site.stop }) free _).andThen
        fun _ free =>
        shadows_done free rfl rfl rfl
    · exact outer _

theorem shadows_handle (free : g.buffer.limit = 0) (handler : Handler) :
    Shadows (scale L) g.size g.func (g.handle handler) ((g.capped L).handle handler) := by
  unfold handle
  rw [capped_scopes]
  cases g.scopes.head? with
  | none => exact shadows_breach
  | some s =>
    dsimp only
    split
    · exact shadows_done free rfl rfl rfl
    · exact shadows_done free rfl rfl rfl
    · exact shadows_breach

theorem shadows_delegate (free : g.buffer.limit = 0) (depth : UInt32) :
    Shadows (scale L) g.size g.func (g.delegate depth) ((g.capped L).delegate depth) := by
  unfold delegate
  rw [capped_scopes]
  cases g.scopes with
  | nil => exact shadows_breach
  | cons s rest =>
    dsimp only
    split
    · exact shadows_resolve (g := { g with scopes := rest, log := _ }) free s _
    · exact shadows_breach

theorem shadows_globals (free : g.buffer.limit = 0) (entry : GlobalInfo → List UInt8)
    (index : UInt32) :
    Shadows (scale L) g.size g.func
      (match g.globals[index.toNat]? with
        | some info => g.emit (entry info)
        | none => .breach (.globalIndex index g.globals.length))
      (match (g.capped L).globals[index.toNat]? with
        | some info => (g.capped L).emit (entry info)
        | none => .breach (.globalIndex index g.globals.length)) := by
  rw [show (g.capped L).globals = g.globals from rfl]
  cases g.globals[index.toNat]? with
  | none => exact shadows_breach
  | some info => exact shadows_emit free _

/-- Every operation under a limit does what it does without one, or is refused. -/
theorem shadows_apply (free : g.buffer.limit = 0) (op : Op) :
    Shadows (scale L) g.size g.func (g.apply op) ((g.capped L).apply op) := by
  cases op with
  | addLocals count | startCode | attempt sig => exact shadows_done free rfl rfl rfl
  | block sig => exact shadows_emit (g := g.push _) free _
  | loop sig => exact (shadows_emit free _).andThen fun _ free => shadows_done free rfl rfl rfl
  | cond sig =>
    exact (shadows_emit free _).andThen fun m free => shadows_emit (g := m.push _) free _
  | otherwise => exact shadows_otherwise free
  | close => exact shadows_close free
  | handle handler => exact shadows_handle free handler
  | delegate depth => exact shadows_delegate free depth
  | branch depth height => exact shadows_branch free depth height
  | branchTable depths default height =>
    exact (shadows_emit free _).andThen fun _ free => shadows_branches free height _
  | call func callee =>
    exact (shadows_emit free _).andThen fun _ free => shadows_callData free callee
  | callIndirect table type callee =>
    exact (shadows_emit free _).andThen fun _ free => shadows_callData free callee
  | localTee index => exact (shadows_emit free _).andThen fun _ free => shadows_emit free _
  | globalGet index => exact shadows_globals free _ index
  | globalSet index => exact shadows_globals free _ index
  | localSlot index => exact shadows_emit free _
  | value v => exact shadows_emit free _
  | pair a b => exact shadows_emit free _
  | i64Const v => exact shadows_emit free _
  | select => exact shadows_emit free _

end Generator

namespace Walk

variable {L : Int64} {w : Walk} {n : Nat} {func : UInt32}

def capped (w : Walk) (L : Int64) : Walk :=
  { w with gen := w.gen.capped L }

theorem capped_frames : (w.capped L).frames = w.frames :=
  rfl

theorem capped_mod : (w.capped L).mod = w.mod :=
  rfl

def scale (L : Int64) : Scale Walk Rejection where
  limit := L
  size w := w.gen.size
  func w := w.gen.func
  free w := w.gen.buffer.limit = 0
  cap w := w.capped L
  refusal e := ∃ n, e = .allocation (.refused n)

theorem shadows_generate (free : w.gen.buffer.limit = 0) (op : Generator.Op) :
    Shadows (scale L) w.gen.size w.gen.func (w.generate op) ((w.capped L).generate op) := by
  refine (Generator.shadows_apply free op).map rfl (fun _ free => free) (fun _ => rfl)
    (fun _ => rfl) (fun _ => rfl) ?_
  rintro e ⟨n, rfl⟩
  exact ⟨n, rfl⟩

theorem shadows_withTop {next next' : Frame → Walking}
    (h : ∀ f, Shadows (scale L) n func (next f) (next' f)) :
    Shadows (scale L) n func (w.withTop next) ((w.capped L).withTop next') := by
  unfold withTop
  rw [capped_frames]
  cases w.frames with
  | nil => exact shadows_breach
  | cons f rest => exact h f

theorem shadows_pop (free : w.gen.buffer.limit = 0) (k : Nat) :
    Shadows (scale L) w.gen.size w.gen.func (w.pop k) ((w.capped L).pop k) := by
  refine shadows_withTop fun f => ?_
  split
  · exact shadows_failed
  · exact shadows_done free rfl rfl rfl

theorem shadows_push (free : w.gen.buffer.limit = 0) (k : Nat) :
    Shadows (scale L) w.gen.size w.gen.func (.done (w.push k)) (.done ((w.capped L).push k)) := by
  have cap : (w.capped L).push k = (w.push k).capped L := by
    unfold push
    rw [capped_frames]
    cases w.frames <;> rfl
  refine shadows_done ?_ ?_ ?_ cap
  · change (w.push k).gen.buffer.limit = 0
    rw [push_gen, free]
  · change (w.push k).gen.size = w.gen.size
    rw [push_gen]
  · change (w.push k).gen.func = w.gen.func
    rw [push_gen]

theorem shadows_closeFrame (free : w.gen.buffer.limit = 0) :
    Shadows (scale L) w.gen.size w.gen.func (.done w.closeFrame)
      (.done (w.capped L).closeFrame) := by
  unfold closeFrame
  rw [capped_frames]
  cases w.frames with
  | nil => exact shadows_done free rfl rfl rfl
  | cons f rest => exact shadows_push (w := { w with frames := rest, dead := none }) free _

theorem shadows_afterCall (free : w.gen.buffer.limit = 0) (tail : Bool) (results : Nat) :
    Shadows (scale L) w.gen.size w.gen.func (.done (w.afterCall tail results))
      (.done ((w.capped L).afterCall tail results)) := by
  cases tail with
  | true => exact shadows_done free rfl rfl rfl
  | false => exact shadows_push free results

theorem shadows_checkLabel (free : w.gen.buffer.limit = 0) (depth : UInt32) (height : Nat) :
    Shadows (scale L) w.gen.size w.gen.func (w.checkLabel depth height)
      ((w.capped L).checkLabel depth height) := by
  unfold checkLabel
  rw [capped_frames]
  cases w.frames[depth.toNat]? with
  | none => exact shadows_failed
  | some f =>
    dsimp only
    split
    · exact shadows_failed
    · exact shadows_done free rfl rfl rfl

theorem shadows_checkLabels (free : w.gen.buffer.limit = 0) (height : Nat) (depths : List UInt32) :
    Shadows (scale L) w.gen.size w.gen.func (w.checkLabels height depths)
      ((w.capped L).checkLabels height depths) := by
  induction depths generalizing w with
  | nil => exact shadows_done free rfl rfl rfl
  | cons d rest ih => exact (shadows_checkLabel free d height).andThen fun _ free => ih free

theorem shadows_withTag {tag : UInt32} {next next' : List ValType → Walking}
    (h : ∀ params, Shadows (scale L) n func (next params) (next' params)) :
    Shadows (scale L) n func (w.withTag tag next) ((w.capped L).withTag tag next') := by
  unfold withTag
  rw [capped_mod]
  cases w.mod.tagAt tag with
  | none => exact shadows_failed
  | some t =>
    dsimp only
    cases w.mod.typeAt t.typeIndex with
    | none => exact shadows_failed
    | some sig => exact h sig.params

theorem shadows_enter (free : w.gen.buffer.limit = 0) (o : Opener) (type : Int32) :
    Shadows (scale L) w.gen.size w.gen.func (w.enter o type) ((w.capped L).enter o type) := by
  unfold enter
  rw [capped_mod]
  cases w.mod.blockType type with
  | none => exact shadows_failed
  | some sig =>
    exact (shadows_pop free _).andThen fun _ free => (shadows_generate free _).andThen fun _ free =>
      shadows_done free rfl rfl rfl

theorem shadows_otherwise (free : w.gen.buffer.limit = 0) :
    Shadows (scale L) w.gen.size w.gen.func w.otherwise (w.capped L).otherwise := by
  refine shadows_withTop fun f => ?_
  split
  · exact (shadows_generate free _).andThen fun _ free => shadows_done free rfl rfl rfl
  · exact shadows_failed

theorem shadows_close (free : w.gen.buffer.limit = 0) :
    Shadows (scale L) w.gen.size w.gen.func w.close (w.capped L).close := by
  refine shadows_withTop fun f => ?_
  have closed (w : Walk) (free : w.gen.buffer.limit = 0) : Shadows (scale L) w.gen.size w.gen.func
      ((w.generate .close).andThen fun w => .done w.closeFrame)
      (((w.capped L).generate .close).andThen fun w => .done w.closeFrame) :=
    (shadows_generate free _).andThen fun _ free => shadows_closeFrame free
  dsimp only
  split
  · exact (shadows_generate free _).andThen closed
  · exact closed w free

theorem shadows_catchTag (free : w.gen.buffer.limit = 0) (name : String) (tag : UInt32) :
    Shadows (scale L) w.gen.size w.gen.func (w.catchTag name tag)
      ((w.capped L).catchTag name tag) := by
  refine shadows_withTop fun f => ?_
  split
  · exact shadows_withTag fun params => (shadows_generate free _).andThen fun _ free =>
      shadows_done free rfl rfl rfl
  · exact shadows_failed

theorem shadows_catchAll (free : w.gen.buffer.limit = 0) (name : String) :
    Shadows (scale L) w.gen.size w.gen.func (w.catchAll name) ((w.capped L).catchAll name) := by
  refine shadows_withTop fun f => ?_
  split
  · exact (shadows_generate free _).andThen fun _ free => shadows_done free rfl rfl rfl
  · exact shadows_failed

theorem shadows_delegate (free : w.gen.buffer.limit = 0) (depth : UInt32) :
    Shadows (scale L) w.gen.size w.gen.func (w.delegate depth) ((w.capped L).delegate depth) := by
  refine shadows_withTop fun f => ?_
  rw [capped_frames]
  split
  · exact shadows_failed
  · split
    · exact shadows_failed
    · exact (shadows_generate free _).andThen fun _ free => shadows_closeFrame free

theorem shadows_call (free : w.gen.buffer.limit = 0) (tail : Bool) (func : UInt32) :
    Shadows (scale L) w.gen.size w.gen.func (w.call tail func) ((w.capped L).call tail func) := by
  unfold call
  rw [capped_mod]
  cases w.mod.funcType func with
  | none => exact shadows_failed
  | some sig =>
    exact (shadows_pop free _).andThen fun _ free => (shadows_generate free _).andThen fun _ free =>
      shadows_afterCall free tail _

theorem shadows_callIndirect (free : w.gen.buffer.limit = 0) (tail : Bool) (type table : UInt32) :
    Shadows (scale L) w.gen.size w.gen.func (w.callIndirect tail type table)
      ((w.capped L).callIndirect tail type table) := by
  unfold callIndirect
  rw [capped_mod]
  cases w.mod.typeAt type with
  | none => exact shadows_failed
  | some sig =>
    exact (shadows_pop free _).andThen fun _ free => (shadows_generate free _).andThen fun _ free =>
      shadows_afterCall free tail _

theorem shadows_branch (free : w.gen.buffer.limit = 0) (depth : UInt32) :
    Shadows (scale L) w.gen.size w.gen.func (w.branch depth) ((w.capped L).branch depth) :=
  shadows_withTop fun _ => (shadows_checkLabel free depth _).andThen fun _ free =>
    shadows_generate free _

theorem shadows_branchTable (free : w.gen.buffer.limit = 0) (depths : List UInt32)
    (default : UInt32) :
    Shadows (scale L) w.gen.size w.gen.func (w.branchTable depths default)
      ((w.capped L).branchTable depths default) :=
  shadows_withTop fun _ => (shadows_checkLabels free _ _).andThen fun _ free =>
    shadows_generate free _

theorem shadows_rethrow (free : w.gen.buffer.limit = 0) (depth : UInt32) :
    Shadows (scale L) w.gen.size w.gen.func (w.rethrow depth) ((w.capped L).rethrow depth) := by
  unfold rethrow
  rw [capped_frames]
  split
  · exact shadows_done free rfl rfl rfl
  · exact shadows_failed

theorem shadows_miscOperands (free : w.gen.buffer.limit = 0) (sub : UInt32) (list : List UInt32) :
    Shadows (scale L) w.gen.size w.gen.func (w.miscOperands sub list)
      ((w.capped L).miscOperands sub list) := by
  unfold miscOperands
  split
  case h_9 => exact shadows_done free rfl rfl rfl
  all_goals
    split
    · exact shadows_generate free _
    · exact shadows_breach

theorem shadows_operands (free : w.gen.buffer.limit = 0) (i : Instr) :
    Shadows (scale L) w.gen.size w.gen.func (w.operands i) ((w.capped L).operands i) := by
  unfold operands
  rw [show (w.capped L).numLocals = w.numLocals from rfl,
    show (w.capped L).gen.globals = w.gen.globals from rfl]
  split
  · split
    · exact shadows_failed
    · exact shadows_generate free _
  · split
    · exact shadows_failed
    · exact shadows_generate free _
  · exact shadows_generate free _
  · exact shadows_generate free _
  · exact shadows_generate free _
  · exact shadows_generate free _
  · exact shadows_generate free _
  · exact shadows_miscOperands free _ _
  · split
    · exact shadows_generate free _
    · exact shadows_done free rfl rfl rfl

theorem shadows_plain (free : w.gen.buffer.limit = 0) (i : Instr) :
    Shadows (scale L) w.gen.size w.gen.func (w.plain i) ((w.capped L).plain i) := by
  unfold plain
  split
  · exact shadows_failed
  · exact (shadows_pop free _).andThen fun _ free => (shadows_operands free i).andThen fun _ free =>
      shadows_push free _

theorem shadows_stepLive (free : w.gen.buffer.limit = 0) (i : Instr) :
    Shadows (scale L) w.gen.size w.gen.func (w.stepLive i) ((w.capped L).stepLive i) := by
  have killed (w : Walk) (free : w.gen.buffer.limit = 0) :
      Shadows (scale L) w.gen.size w.gen.func (.done w.kill) (.done (w.capped L).kill) :=
    shadows_done free rfl rfl rfl
  unfold stepLive
  cases i.action with
  | leave => exact killed w free
  | enter o type => exact shadows_enter free o type
  | otherwise => exact shadows_otherwise free
  | close =>
    refine shadows_withTop fun f => ?_
    split
    · exact shadows_failed
    · exact shadows_close free
  | branch depth => exact (shadows_branch free depth).andThen killed
  | branchIf depth => exact (shadows_pop free 1).andThen fun _ free => shadows_branch free depth
  | branchTable depths default =>
    exact (shadows_pop free 1).andThen fun _ free =>
      (shadows_branchTable free depths default).andThen killed
  | call tail func => exact shadows_call free tail func
  | callIndirect tail type table => exact shadows_callIndirect free tail type table
  | throwTag tag => exact shadows_withTag fun params => (shadows_pop free _).andThen killed
  | rethrow depth => exact shadows_rethrow free depth
  | catchTag tag => exact shadows_catchTag free _ tag
  | catchAll => exact shadows_catchAll free _
  | delegate depth => exact shadows_delegate free depth
  | plain => exact shadows_plain free i
  | unsupported => exact shadows_failed
  | malformed => exact shadows_breach

theorem shadows_stepDead (free : w.gen.buffer.limit = 0) (depth : Nat) (i : Instr) :
    Shadows (scale L) w.gen.size w.gen.func (w.stepDead depth i)
      ((w.capped L).stepDead depth i) := by
  have passed (dead : Option Nat) : Shadows (scale L) w.gen.size w.gen.func (.done { w with dead })
      (.done { w.capped L with dead }) := shadows_done free rfl rfl rfl
  unfold stepDead
  cases i.action with
  | enter o type => exact passed (some (depth + 1))
  | close =>
    cases depth with
    | zero => exact shadows_close free
    | succ depth => exact passed (some depth)
  | delegate label =>
    cases depth with
    | zero => exact shadows_delegate free label
    | succ depth => exact passed (some depth)
  | otherwise =>
    cases depth with
    | zero => exact shadows_otherwise free
    | succ depth => exact passed w.dead
  | catchTag tag =>
    cases depth with
    | zero => exact shadows_catchTag free _ tag
    | succ depth => exact passed w.dead
  | catchAll =>
    cases depth with
    | zero => exact shadows_catchAll free _
    | succ depth => exact passed w.dead
  | malformed => exact shadows_breach
  | _ => exact passed w.dead

theorem shadows_step (free : w.gen.buffer.limit = 0) (i : Instr) :
    Shadows (scale L) w.gen.size w.gen.func (w.step i) ((w.capped L).step i) := by
  unfold step
  rw [show (w.capped L).dead = w.dead from rfl]
  cases w.dead with
  | some depth => exact shadows_stepDead free depth i
  | none => exact shadows_stepLive free i

/-! ## Runs -/

variable {size fuel : Nat} {c : Cursor} {is : List Instr.Located}

theorem run_step {count : Nat} {w' : Walk} {next : Cursor} {i : Instr.Located}
    (more : ¬ c.rest.isEmpty) (inside : w.frames ≠ []) (read : Instr.read size c = .ok i next)
    (done : (w.moveTo i).step i.toInstr = .done w') :
    run size (fuel + 1) count w c = run size fuel (count + 1) w' next := by
  rw [run, if_neg more, if_neg (by simpa using inside), read]
  simp only [done]

theorem next_capped {i : Instr.Located} (free : w.gen.buffer.limit = 0)
    (done : (w.moveTo i).step i.toInstr = .done (w.next i)) :
    (w.next i).gen.buffer.limit = 0 ∧ w.gen.size ≤ (w.next i).gen.size ∧
    (w.next i).gen.func = w.gen.func ∧
    ((scale L).fits w.gen.size → ((scale L).fits (w.next i).gen.size →
        ((w.capped L).moveTo i).step i.toInstr = .done ((w.next i).capped L)) ∧
      (¬ (scale L).fits (w.next i).gen.size → ∃ w' n,
        ((w.capped L).moveTo i).step i.toInstr = .failed w' (.allocation (.refused n)) ∧
          w'.gen.func = w.gen.func)) := by
  have shadow :
    Shadows (scale L) w.gen.size w.gen.func _ (((w.capped L).moveTo i).step i.toInstr) :=
    shadows_step (w := w.moveTo i) free i.toInstr
  rw [done] at shadow
  obtain ⟨free, grows, func, shadow⟩ := shadow
  refine ⟨free, grows, func, fun fits => ⟨(shadow fits).1, fun beyond => ?_⟩⟩
  obtain ⟨w', e, failed, func, n, rfl⟩ := (shadow fits).2 beyond
  exact ⟨w', n, failed, func⟩

theorem Succeeds.size_le (free : w.gen.buffer.limit = 0) (h : w.Succeeds is) :
    w.gen.size ≤ (is.foldl next w).gen.size := by
  induction is generalizing w with
  | nil => exact Nat.le_refl _
  | cons i rest ih =>
    obtain ⟨-, done, others⟩ := h
    obtain ⟨free', grows, -⟩ := next_capped (L := 0) free done
    exact Nat.le_trans grows (ih free' others)

/-- A run that succeeds is repeated under a limit up to the first instruction that goes beyond
it. -/
theorem run_capped (count : Nat) (free : w.gen.buffer.limit = 0) (fits : (scale L).fits w.gen.size)
    (all : Instr.readAll size fuel c = .ok is) (succeeds : w.Succeeds is) :
    run size fuel count (w.capped L) c = run size fuel count w c ∧
        (scale L).fits (is.foldl next w).gen.size ∨
      ¬ (scale L).fits (is.foldl next w).gen.size ∧ ∃ k i n, is[k]? = some i ∧
        (∀ k' ≤ k, (scale L).fits ((is.take k').foldl next w).gen.size) ∧
        ¬ (scale L).fits ((is.take (k + 1)).foldl next w).gen.size ∧
        (run size fuel count (w.capped L) c).verdict =
          .refused (.rejected w.gen.func i (.allocation (.refused n))) := by
  induction fuel generalizing count w c is with
  | zero =>
    obtain rfl := Except.ok.inj all
    exact .inl ⟨rfl, fits⟩
  | succ fuel ih =>
    rcases Instr.readAll_succ all with ⟨none, rfl⟩ | ⟨more, i, stop, rest, read, others, rfl⟩
    · refine .inl ⟨?_, fits⟩
      rw [run, run, if_pos none, if_pos none]
      rfl
    · obtain ⟨inside, done, follow⟩ := succeeds
      obtain ⟨free', -, func, shadow⟩ := next_capped (L := L) free done
      obtain ⟨same, refused⟩ := shadow fits
      by_cases fits' : (scale L).fits (w.next i).gen.size
      · rw [run_step more inside read done,
          run_step (w := w.capped L) more inside read (same fits')]
        rcases ih (count + 1) free' fits' others follow with
          equal | ⟨beyond, k, j, n, found, before, after, verdict⟩
        · exact .inl equal
        · refine .inr ⟨beyond, k + 1, j, n, found, ?_, after, by rw [verdict, func]⟩
          rintro (_ | k') below
          · exact fits
          · exact before k' (by omega)
      · obtain ⟨w', n, failed, func'⟩ := refused fits'
        refine .inr ⟨fun fits => fits' (Scale.fits_of_le (follow.size_le free') fits), 0, i, n, rfl,
          ?_, fits', ?_⟩
        · rintro k' below
          obtain rfl := Nat.le_zero.mp below
          exact fits
        · rw [run, if_neg more, if_neg (by simpa [capped_frames] using inside), read]
          simp only [failed, refuse, func']

theorem accepted_of_capped {count : Nat} {md : Metadata} (free : w.gen.buffer.limit = 0)
    (fits : (scale L).fits w.gen.size)
    (h : (run size fuel count (w.capped L) c).verdict = .accepted md) :
    ∃ md, (run size fuel count w c).verdict = .accepted md := by
  induction fuel generalizing count w c with
  | zero => exact ⟨md, h⟩
  | succ fuel ih =>
    unfold run at h ⊢
    rw [capped_frames] at h
    split at h
    · rename_i none
      rw [if_pos none]
      exact ⟨md, h⟩
    · rename_i more
      rw [if_neg more]
      split at h
      · cases h
      · rename_i inside
        rw [if_neg inside]
        cases read : Instr.read size c with
        | error f stop =>
          rw [read] at h
          cases h
        | ok i stop =>
          rw [read] at h
          dsimp only at h ⊢
          have shadow :
              Shadows (scale L) w.gen.size w.gen.func _ (((w.capped L).moveTo i).step i.toInstr) :=
            shadows_step (w := w.moveTo i) free i.toInstr
          cases stepped : (w.moveTo i).step i.toInstr with
          | done w' =>
            rw [stepped] at shadow
            obtain ⟨free', -, -, shadow⟩ := shadow
            by_cases fits' : (scale L).fits w'.gen.size
            · rw [(shadow fits).1 fits'] at h
              exact ih free' fits' h
            · obtain ⟨s, e, failed, -⟩ := (shadow fits).2 fits'
              rw [failed] at h
              cases h
          | failed w' e =>
            rw [stepped] at shadow
            obtain ⟨s, e, failed⟩ := shadow fits
            rw [failed] at h
            cases h
          | breach b =>
            rw [stepped] at shadow
            rcases shadow fits with breach | ⟨s, e, failed⟩
            · rw [breach] at h
              cases h
            · rw [failed] at h
              cases h

theorem start_capped (convention : Convention) (host : String) (mod : Module)
    (globals : List GlobalInfo) (func : UInt32) (sig : FuncType) (body : FuncBody) :
    let w := start { convention, host } mod globals func sig body
    start { convention, host, maxSize := L } mod globals func sig body = w.capped L ∧
      w.gen.buffer.limit = 0 ∧ w.gen.size = 0 ∧ w.gen.func = func := by
  simp only [start, Generator.foldl_addLocals]
  exact ⟨rfl, rfl, rfl, rfl⟩

end Walk

namespace Job

variable {mod : Module} {convention : Convention} {host : String} {func : UInt32} {L : Int64}
    {md : Metadata}

/-- The run of a function that has a body and a type, without a limit and under one. -/
theorem compile_capped (convention : Convention) (host : String) (found : (mod.bodyOf func).isSome)
    (typed : (mod.funcType func).isSome) :
    let j : Job := ⟨mod, { convention, host }, func⟩
    mod.compileFunction { convention, host, maxSize := L } false func =
        Walk.run j.body.bytes.length j.body.cursor.rest.length 0 (j.start.capped L) j.body.cursor ∧
      j.start.gen.buffer.limit = 0 ∧ (Walk.scale L).fits j.start.gen.size ∧
        j.start.gen.func = func := by
  intro j
  obtain ⟨cap, free, empty, same⟩ :=
    Walk.start_capped (L := L) convention host mod mod.globalInfos func j.sig j.body
  refine ⟨?_, free, ?_, same⟩
  · rw [(Job.mk mod { convention, host, maxSize := L } func).compile_eq_run found typed]
    exact congrArg (Walk.run j.body.bytes.length j.body.cursor.rest.length 0 · j.body.cursor) cap
  · rw [show j.start.gen.size = 0 from empty]
    exact Scale.fits_zero

theorem accepted_capped (h : (Job.mk mod { convention, host } func).Accepted md) :
    let j : Job := ⟨mod, { convention, host }, func⟩
    let limited := mod.compileFunction { convention, host, maxSize := L } false func
    limited = mod.compileFunction { convention, host } false func ∧ (Walk.scale L).fits md.size ∨
      ¬ (Walk.scale L).fits md.size ∧ ∃ k i n, j.code[k]? = some i ∧
        (∀ k' ≤ k, (Walk.scale L).fits (j.mc k')) ∧ ¬ (Walk.scale L).fits (j.mc (k + 1)) ∧
        limited.verdict = .refused (.rejected func i (.allocation (.refused n))) := by
  intro j limited
  obtain ⟨found, typed⟩ := accepted_found h
  obtain ⟨same, free, fits, func⟩ := compile_capped (L := L) convention host found typed
  obtain ⟨all, succeeds, -, -⟩ := accepted_walk h
  have whole : md.size = (j.code.foldl Walk.next j.start).gen.size := by
    rw [Metadata.size, finalize_bytes h, walk, List.take_length]
    rfl
  have run := Walk.run_capped 0 free fits all succeeds
  rw [← same, func, ← whole, ← compile_eq_run found typed] at run
  exact run

theorem not_accepted_capped
    (h : ∀ md, (mod.compileFunction { convention, host } false func).verdict ≠ .accepted md) :
    (mod.compileFunction { convention, host, maxSize := L } false func).verdict ≠ .accepted md := by
  intro accepted
  obtain ⟨found, typed⟩ :=
    accepted_found (j := ⟨mod, { convention, host, maxSize := L }, func⟩) accepted
  obtain ⟨same, free, fits, -⟩ := compile_capped (L := L) convention host found typed
  rw [same] at accepted
  obtain ⟨md, accepted⟩ := Walk.accepted_of_capped free fits accepted
  refine h md ?_
  rw [(Job.mk mod { convention, host } func).compile_eq_run found typed]
  exact accepted

/-- What compiles without a limit compiles to the same under every limit that its side table keeps
to; a limit that is not positive is none. Under a smaller one the first instruction is refused after
which the table would be too large. What is refused without a limit is refused under every one. -/
theorem size_limit_exact (mod : Module) (convention : Convention) (host : String) (canceled : Bool)
    (func : UInt32) :
    let limited (L : Int64) := mod.compileFunction { convention, host, maxSize := L } canceled func
    let j : Job := ⟨mod, { convention, host }, func⟩
    (∀ md, (limited 0).verdict = .accepted md →
      (∀ L : Int64, L ≤ 0 ∨ (md.size : Int) ≤ L.toInt → limited L = limited 0) ∧
      (∀ L : Int64, 0 < L → L.toInt < md.size → ∃ k i e d, j.code[k]? = some i ∧
        (∀ k' ≤ k, (j.mc k' : Int) ≤ L.toInt) ∧ L.toInt < j.mc (k + 1) ∧
        (limited L).verdict = .refused e ∧ e.problem = .diagnosed d ∧ d.phase = .compile ∧
        d.kind = .allocation ∧ d.path = [Diagnostic.funcPath func] ∧
        d.offset = some (UInt32.ofNat i.start) ∧ d.opcode = i.name)) ∧
    (∀ e, (limited 0).verdict = .refused e → ∀ L, ∃ e', (limited L).verdict = .refused e') := by
  intro limited j
  cases canceled with
  | true =>
    refine ⟨?_, fun e h L => ⟨_, rfl⟩⟩
    rintro md ⟨⟩
  | false =>
    refine ⟨fun md accepted => ⟨fun L fits => ?_, fun L positive below => ?_⟩,
      fun e refused L => ?_⟩
    · rcases accepted_capped (L := L) accepted with ⟨same, -⟩ | ⟨beyond, -⟩
      · exact same
      · exact absurd fits beyond
    · have fits_iff (n : Nat) : (Walk.scale L).fits n ↔ (n : Int) ≤ L.toInt :=
        or_iff_right (Int64.not_le.mpr positive)
      rcases accepted_capped (L := L) accepted with
        ⟨-, fits⟩ | ⟨-, k, i, n, found, before, after, verdict⟩
      · rw [fits_iff] at fits
        omega
      · simp only [fits_iff, Int.not_le] at before after
        exact ⟨k, i, _, _, found, before, after, verdict, rfl, rfl, rfl, rfl, rfl, rfl⟩
    · have proper := mod.proper_compileFunction { convention, host, maxSize := L } false func
      cases verdict : (limited L).verdict with
      | refused e' => exact ⟨e', rfl⟩
      | breach b =>
        rw [show mod.compileFunction _ false func = limited L from rfl, verdict] at proper
        exact proper.elim
      | accepted md =>
        refine absurd verdict (not_accepted_capped fun md accepted => ?_)
        rw [show mod.compileFunction _ false func = limited 0 from rfl, refused] at accepted
        cases accepted

/-- The limit of 100 bytes is passed within the branch table of the sample; there is no function
1. -/
theorem size_limit_exact_sample :
    let limited (L : Int64) :=
      sample.mod.compileFunction { convention := ⟨6, 8⟩, maxSize := L } false
    (limited 0 0).verdict = .accepted sampleTable ∧
    limited (-1) 0 = limited 0 0 ∧ limited 192 0 = limited 0 0 ∧
    (∃ k i e d, sample.code[k]? = some i ∧ (∀ k' ≤ k, (sample.mc k' : Int) ≤ 100) ∧
      100 < (sample.mc (k + 1) : Int) ∧ (limited 100 0).verdict = .refused e ∧
      e.problem = .diagnosed d ∧ d.phase = .compile ∧ d.kind = .allocation ∧
      d.path = [Diagnostic.funcPath 0] ∧ d.offset = some (UInt32.ofNat i.start) ∧
      d.opcode = i.name) ∧
    (limited 0 1).verdict = .refused (.undefined 1) ∧
    ∃ e, (limited 100 1).verdict = .refused e := by
  intro limited
  have accepted : (limited 0 0).verdict = .accepted sampleTable := by decide +kernel
  obtain ⟨inside, beyond⟩ :=
    (size_limit_exact sample.mod ⟨6, 8⟩ "amd64" false 0).1 sampleTable accepted
  refine ⟨accepted, inside (-1) (by decide), inside 192 (by decide +kernel),
    beyond 100 (by decide) (by decide +kernel), by decide +kernel, ?_⟩
  exact (size_limit_exact sample.mod ⟨6, 8⟩ "amd64" false 1).2 (.undefined 1) (by decide +kernel)
    100

end Job
end Sidetable
