import Sidetable.Browser.View

/-!
# The list and its selection

The listed functions, the filter, the selected row and the window change one by one and in any
order. After every message the list is what the filter asks for, the selected row is one of its
rows, and that row is among those drawn. Nothing is assumed of what the widgets make of keys and
text.
-/
namespace Sidetable

structure Trims (text want : List Char) : Prop where
  ends : ∃ front back, text = front ++ want ++ back ∧
    (∀ c ∈ front, isBlank c) ∧ ∀ c ∈ back, isBlank c
  first : ∀ c, want.head? = some c → ¬ isBlank c
  last : ∀ c, want.getLast? = some c → ¬ isBlank c

theorem not_isBlank_head_dropWhile {text : List Char} {c : Char}
    (head : (text.dropWhile isBlank).head? = some c) : ¬ isBlank c := by
  have first := List.head?_dropWhile_not isBlank text
  rw [head] at first
  simpa using first

theorem trims_trimBlank (text : List Char) : Trims text (trimBlank text) := by
  let rest := text.dropWhile isBlank
  have front : text = text.takeWhile isBlank ++ rest := List.takeWhile_append_dropWhile.symm
  have back : rest = trimBlank text ++ (rest.reverse.takeWhile isBlank).reverse := by
    rw [trimBlank, ← List.reverse_append, List.takeWhile_append_dropWhile, List.reverse_reverse]
  refine ⟨⟨_, _, by rw [List.append_assoc, ← back, ← front], ?_, ?_⟩, ?_, ?_⟩
  · intro c member
    exact List.all_eq_true.mp List.all_takeWhile c member
  · intro c member
    exact List.all_eq_true.mp List.all_takeWhile c (List.mem_reverse.mp member)
  · intro c head
    apply not_isBlank_head_dropWhile
    change rest.head? = some c
    rw [back, List.head?_append, head, Option.some_or]
  · intro c last
    rw [trimBlank, List.getLast?_reverse] at last
    exact not_isBlank_head_dropWhile last

namespace Browser

variable {b : Browser} {c : Compilation}

theorem occursIn_iff {part text : List Char} : occursIn part text ↔ part <:+: text := by
  induction text with
  | nil => simp [occursIn]
  | cons ch text ih => simp [occursIn, ih, List.infix_cons_iff]

theorem mem_matching {want : List Char} {i : Nat} :
    i ∈ matching c want ↔
      i < c.functions.length ∧ want <:+: Nat.toDigits 10 (c.mod.numImportedFuncs + i) := by
  have digits : (toString (c.mod.numImportedFuncs + i)).toList =
      Nat.toDigits 10 (c.mod.numImportedFuncs + i) := by
    simp
  rw [matching, List.mem_filter, List.mem_range, digits, Bool.or_eq_true, occursIn_iff,
    List.isEmpty_iff]
  refine and_congr_right fun _ => or_iff_right_of_imp ?_
  rintro rfl
  exact List.nil_infix

theorem pairwise_matching (c : Compilation) (want : List Char) :
    (matching c want).Pairwise (· < ·) :=
  List.pairwise_lt_range.filter _

theorem itemAt_ok {α : Type} {items : List α} {position : Int} {a : α} (nonneg : 0 ≤ position)
    (there : items[position.toNat]? = some a) : itemAt items position = .ok a := by
  simp only [itemAt, there]
  rw [if_neg (by omega)]

structure Sound (b : Browser) : Prop where
  unloaded : b.result = none → b.visible = []
  loaded : ∀ c, b.result = some c → b.visible = matching c (trimBlank b.filter.value)
  nonneg : 0 ≤ b.selected
  inside : b.visible ≠ [] → b.selected < b.visible.length

namespace Sound

theorem selected (h : b.Sound) (loaded : b.result = some c) (some_visible : b.visible ≠ []) :
    ∃ position m, b.visible[b.selected.toNat]? = some position ∧
      c.functions[position]? = some m := by
  have nonneg := h.nonneg
  have inside := h.inside some_visible
  have row : b.selected.toNat < b.visible.length := by omega
  have listed : b.visible[b.selected.toNat] ∈ matching c (trimBlank b.filter.value) :=
    h.loaded c loaded ▸ List.getElem_mem row
  have defined := (mem_matching.mp listed).1
  exact ⟨_, _, List.getElem?_eq_getElem row, List.getElem?_eq_getElem defined⟩

theorem current (h : b.Sound) : ∃ m, b.current = .ok m := by
  unfold Browser.current
  cases loaded : b.result with
  | none => exact ⟨none, rfl⟩
  | some c =>
    by_cases empty : b.visible = []
    · exact ⟨none, by simp [empty]⟩
    · obtain ⟨position, m, row, defined⟩ := h.selected loaded empty
      have first := itemAt_ok h.nonneg row
      have second : itemAt c.functions (position : Int) = .ok m :=
        itemAt_ok (Int.natCast_nonneg _) defined
      refine ⟨m, ?_⟩
      simp [empty, first, second, bind, Except.bind]

end Sound

/-! ## What a message leaves -/

def inputAfter (t : TextInput) : Widgets × Message → TextInput
  | (w, .key k) =>
    if t.focused then
      match k with
      | .enter => { t with focused := false }
      | .escape => { t with focused := false }.clear
      | k => w.press t k
    else
      match Command.ofKey k with
      | some .filter => { t with focused := true }
      | some .clear => t.clear
      | _ => t
  | _ => t

def load? : Message → Option (Option Problem × Option Compilation)
  | .loaded problem result => some (problem, result)
  | _ => none

def GoesOn (input : TextInput) (load : Option Problem × Option Compilation)
    (r : Except Breach Browser) : Prop :=
  ∃ b, r = .ok b ∧ b.Sound ∧ b.filter = input ∧ (b.problem, b.result) = load

variable (w : Widgets)

theorem Sound.goesOn (h : b.Sound) : GoesOn b.filter (b.problem, b.result) (.ok b) :=
  ⟨b, rfl, h, rfl, rfl⟩

theorem Sound.withView (h : b.Sound) (view : Viewport) : Sound { b with view } :=
  ⟨h.unloaded, h.loaded, h.nonneg, h.inside⟩

theorem goesOn_refresh (h : b.Sound) : GoesOn b.filter (b.problem, b.result) (b.refresh w) := by
  obtain ⟨m, found⟩ := h.current
  unfold refresh
  by_cases ready : b.ready
  · rw [if_pos ready, found]
    cases m with
    | none => exact (h.withView _).goesOn
    | some m => exact (h.withView _).goesOn
  · rw [if_neg ready]
    exact h.goesOn

/-- The list is made anew and the selection is put into it, whatever they were before. -/
theorem goesOn_applyFilter (nonneg : 0 ≤ b.selected) :
    GoesOn b.filter (b.problem, b.result) (b.applyFilter w) := by
  unfold applyFilter
  cases b.result with
  | none =>
    refine ⟨_, rfl, ⟨fun _ => rfl, ?_, nonneg, ?_⟩, rfl, rfl⟩
    · rintro c ⟨⟩
    · intro some_visible
      exact absurd rfl some_visible
  | some c =>
    apply goesOn_refresh w (b := { b with result := some c, visible := _, selected := _ })
    refine ⟨?_, ?_, ?_, ?_⟩
    · rintro ⟨⟩
    · rintro c' ⟨⟩
      rfl
    · dsimp only
      omega
    · intro some_visible
      have := List.length_pos_iff.mpr some_visible
      dsimp only at this ⊢
      omega

theorem goesOn_resize (h : b.Sound) (width height : Int64) :
    GoesOn b.filter (b.problem, b.result) (b.resize w width height) :=
  goesOn_refresh w (b := { b with view := _, ready := true })
    ⟨h.unloaded, h.loaded, h.nonneg, h.inside⟩

theorem goesOn_clearFilter (nonneg : 0 ≤ b.selected) :
    GoesOn b.filter.clear (b.problem, b.result) (b.clearFilter w) :=
  goesOn_applyFilter w (b := { b with filter := b.filter.clear }) nonneg

theorem goesOn_selectPrevious (h : b.Sound) :
    GoesOn b.filter (b.problem, b.result) (b.selectPrevious w) := by
  unfold selectPrevious
  by_cases first : 0 < b.selected
  · rw [if_pos first]
    apply goesOn_refresh w (b := { b with selected := b.selected - 1 })
    refine ⟨h.unloaded, h.loaded, ?_, fun some_visible => ?_⟩
    · dsimp only
      omega
    · have := h.inside some_visible
      dsimp only
      omega
  · rw [if_neg first]
    exact h.goesOn

theorem goesOn_selectNext (h : b.Sound) :
    GoesOn b.filter (b.problem, b.result) (b.selectNext w) := by
  unfold selectNext
  by_cases last : b.selected < b.visible.length - 1
  · rw [if_pos last]
    have := h.nonneg
    apply goesOn_refresh w (b := { b with selected := b.selected + 1 })
    refine ⟨h.unloaded, h.loaded, ?_, fun _ => ?_⟩
    · dsimp only
      omega
    · dsimp only
      omega
  · rw [if_neg last]
    exact h.goesOn

theorem Sound.withFocus (h : b.Sound) (focused : Bool) :
    Sound { b with filter := { b.filter with focused } } :=
  ⟨h.unloaded, h.loaded, h.nonneg, h.inside⟩

theorem goesOn_edit (h : b.Sound) (focused : b.filter.focused) (k : Key) :
    GoesOn (inputAfter b.filter (w, .key k)) (b.problem, b.result) (b.edit w k) := by
  simp only [inputAfter, focused, if_true]
  cases k with
  | enter => exact (h.withFocus false).goesOn
  | escape =>
    exact goesOn_clearFilter w (b := { b with filter := { b.filter with focused := false } })
      h.nonneg
  | _ => exact goesOn_applyFilter w (b := { b with filter := w.press b.filter _ }) h.nonneg

theorem goesOn_obey (h : b.Sound) (unfocused : b.filter.focused = false) {k : Key}
    {command : Command} (known : Command.ofKey k = some command) :
    GoesOn (inputAfter b.filter (w, .key k)) (b.problem, b.result) (b.obey w command) := by
  simp only [inputAfter, unfocused, Bool.false_eq_true, if_false, known]
  cases command with
  | previous => exact goesOn_selectPrevious w h
  | next => exact goesOn_selectNext w h
  | pageUp => exact (h.withView _).goesOn
  | pageDown => exact (h.withView _).goesOn
  | filter => exact (h.withFocus true).goesOn
  | clear => exact goesOn_clearFilter w h.nonneg
  | quit => exact h.goesOn

theorem goesOn_update (h : b.Sound) (m : Message) :
    GoesOn (inputAfter b.filter (w, m)) ((load? m).getD (b.problem, b.result)) (b.update w m) := by
  cases m with
  | resized width height => exact goesOn_resize w h width height
  | loaded problem result => exact goesOn_applyFilter w (b := { b with problem, result }) h.nonneg
  | key k =>
    rw [update]
    by_cases focused : b.filter.focused
    · rw [if_pos focused]
      exact goesOn_edit w h focused k
    · rw [if_neg focused]
      rw [Bool.not_eq_true] at focused
      cases known : Command.ofKey k with
      | some command => exact goesOn_obey w h focused known
      | none =>
        simp only [inputAfter, focused, Bool.false_eq_true, if_false, known]
        exact h.goesOn

def updateAll (b : Browser) : List (Widgets × Message) → Except Breach Browser
  | [] => .ok b
  | (w, m) :: rest => do
    let next ← b.update w m
    next.updateAll rest

structure Follows (turns : List (Widgets × Message)) (start b : Browser) : Prop where
  filter : b.filter = turns.foldl inputAfter start.filter
  loaded : (b.problem, b.result) =
    (turns.filterMap (load? ·.2)).getLast?.getD (start.problem, start.result)

theorem Follows.cons {turn : Widgets × Message} {rest : List (Widgets × Message)}
    {next b' : Browser} (input : next.filter = inputAfter b.filter turn)
    (load : (next.problem, next.result) = (load? turn.2).getD (b.problem, b.result))
    (h : Follows rest next b') : Follows (turn :: rest) b b' := by
  constructor
  · rw [h.filter, input, List.foldl_cons]
  · rw [h.loaded, load]
    cases found : load? turn.2 with
    | none => simp only [List.filterMap_cons, found, Option.getD_none]
    | some loaded => simp only [List.filterMap_cons, found, List.getLast?_cons, Option.getD_some]

theorem updateAll_follows (h : b.Sound) (turns : List (Widgets × Message)) :
    ∃ b', b.updateAll turns = .ok b' ∧ b'.Sound ∧ Follows turns b b' := by
  induction turns generalizing b with
  | nil => exact ⟨b, rfl, h, rfl, rfl⟩
  | cons turn rest ih =>
    obtain ⟨w, m⟩ := turn
    obtain ⟨next, done, sound, input, load⟩ := goesOn_update w h m
    obtain ⟨b', rested, sound', follows⟩ := ih sound
    refine ⟨b', ?_, sound', .cons input load follows⟩
    rw [updateAll, done]
    exact rested

theorem sound_start (file : String) : Sound { file } := by
  refine ⟨fun _ => rfl, ?_, Int.le_refl 0, fun some_visible => absurd rfl some_visible⟩
  rintro c ⟨⟩

/-! ## What is drawn -/

theorem mem_drawn {row position : Nat} (there : b.visible[row]? = some position)
    (above : b.firstRow ≤ row) (below : row < b.firstRow + b.rows) : (row, position) ∈ b.drawn := by
  obtain ⟨inside, -⟩ := List.getElem?_eq_some_iff.mp there
  have numbered : ((List.range b.visible.length).zip b.visible)[row]? = some (row, position) :=
    List.getElem?_zip_eq_some.mpr ⟨List.getElem?_range inside, there⟩
  apply List.mem_of_getElem? (i := row - b.firstRow)
  rw [drawn, List.getElem?_take_of_lt (by omega), List.getElem?_drop, Nat.add_sub_cancel' above,
    numbered]

theorem visible_of_mem_drawn {row : Nat × Nat} (member : row ∈ b.drawn) : row.2 ∈ b.visible :=
  (List.of_mem_zip (List.mem_of_mem_drop (List.mem_of_mem_take member))).2

theorem label_ok {position : Nat} {m : Option Metadata}
    (defined : c.functions[position]? = some m) : ∃ text, label c position = .ok text := by
  have found : itemAt c.functions (position : Int) = .ok m :=
    itemAt_ok (Int.natCast_nonneg _) defined
  rw [label, found]
  exact ⟨_, rfl⟩

theorem mapM_ok {α β ε : Type} {f : α → Except ε β} {items : List α}
    (each : ∀ a ∈ items, ∃ y, f a = .ok y) :
    ∃ results, items.mapM f = .ok results ∧ ∀ a ∈ items, ∀ y, f a = .ok y → y ∈ results := by
  induction items with
  | nil => exact ⟨[], rfl, fun a member => by cases member⟩
  | cons a rest ih =>
    obtain ⟨y, first⟩ := each a List.mem_cons_self
    obtain ⟨results, others, found⟩ := ih fun a member => each a (List.mem_cons_of_mem _ member)
    refine ⟨y :: results, ?_, ?_⟩
    · rw [List.mapM_cons, first]
      simp [others, bind, Except.bind, pure, Except.pure]
    · intro a' member z given
      cases member with
      | head =>
        rw [first] at given
        cases given
        exact List.mem_cons_self
      | tail _ member => exact List.mem_cons_of_mem _ (found a' member z given)

namespace Sound

theorem selected_drawn (h : b.Sound) {position : Nat}
    (there : b.visible[b.selected.toNat]? = some position) :
    (b.selected.toNat, position) ∈ b.drawn := by
  have nonneg := h.nonneg
  have rows : 1 ≤ b.rows := Nat.le_max_right _ _
  apply mem_drawn there
  · rw [firstRow]
    omega
  · rw [firstRow]
    omega

theorem line_ok (h : b.Sound) (loaded : b.result = some c) {row : Nat × Nat}
    (member : row ∈ b.drawn) :
    ∃ text, label c row.2 = .ok text ∧
      b.line c row = .ok ((if (row.1 : Int) = b.selected then "> " else "  ") ++ text) := by
  have listed : row.2 ∈ matching c (trimBlank b.filter.value) :=
    h.loaded c loaded ▸ visible_of_mem_drawn member
  have defined := (mem_matching.mp listed).1
  obtain ⟨text, named⟩ := label_ok (List.getElem?_eq_getElem defined)
  refine ⟨text, named, ?_⟩
  rw [line, named]
  rfl

/-- The list can be drawn, and the line of the selected row is in it. -/
theorem lines_ok (h : b.Sound) (loaded : b.result = some c) (some_visible : b.visible ≠ []) :
    ∃ position text lines, b.visible[b.selected.toNat]? = some position ∧
      label c position = .ok text ∧ (b.selected.toNat, position) ∈ b.drawn ∧ b.lines c = .ok lines ∧
      "> " ++ text ∈ lines := by
  obtain ⟨position, m, there, -⟩ := h.selected loaded some_visible
  have drawn := h.selected_drawn there
  obtain ⟨text, named, marked⟩ := h.line_ok loaded drawn
  have each : ∀ row ∈ b.drawn, ∃ line, b.line c row = .ok line := by
    intro row member
    obtain ⟨text, -, given⟩ := h.line_ok loaded member
    exact ⟨_, given⟩
  obtain ⟨lines, all, found⟩ := mapM_ok each
  have here : ((b.selected.toNat : Nat) : Int) = b.selected := Int.toNat_of_nonneg h.nonneg
  rw [if_pos here] at marked
  exact ⟨position, text, lines, there, named, drawn, all, found _ drawn _ marked⟩

end Sound

/-- What holds of the browser between any two messages. -/
structure Consistent (b : Browser) : Prop where
  /-- Nothing is listed unless a module is loaded. -/
  unloaded : b.result = none → b.visible = []
  /-- The list is in order and has exactly the functions whose index contains the trimmed filter. -/
  listed : ∀ c, b.result = some c → b.visible.Pairwise (· < ·) ∧
    ∃ want, Trims b.filter.value want ∧ ∀ i, i ∈ b.visible ↔
      i < c.functions.length ∧ want <:+: Nat.toDigits 10 (c.mod.numImportedFuncs + i)
  selected : 0 ≤ b.selected ∧ (b.visible ≠ [] → b.selected < b.visible.length)
  /-- The selected function is looked up within its lists. -/
  current : ∃ m, b.current = .ok m
  /-- Where there are rows the list can be drawn, and the selected row is drawn and marked. -/
  drawn : ∀ c, b.result = some c → b.visible ≠ [] →
    ∃ position text lines, b.visible[b.selected.toNat]? = some position ∧
    label c position = .ok text ∧ (b.selected.toNat, position) ∈ b.drawn ∧ b.lines c = .ok lines ∧
    "> " ++ text ∈ lines

theorem Sound.consistent (h : b.Sound) : b.Consistent := by
  refine ⟨h.unloaded, ?_, ⟨h.nonneg, h.inside⟩, h.current, fun c => h.lines_ok⟩
  intro c loaded
  rw [h.loaded c loaded]
  exact ⟨pairwise_matching _ _, _, trims_trimBlank _, fun i => mem_matching⟩

/-- No messages, in any order and number, bring the browser to a lookup outside its lists or out of
consistency. The filter is what the text input has made of the keys, and the module is that of the
last load. -/
theorem messages_keep_consistent (file : String) (turns : List (Widgets × Message)) :
    ∃ b, updateAll { file } turns = .ok b ∧ b.Consistent ∧ Follows turns { file } b := by
  obtain ⟨b, done, sound, follows⟩ := updateAll_follows (sound_start file) turns
  exact ⟨b, done, sound.consistent, follows⟩

end Browser
end Sidetable
