import DartKernel.Declaration.Library
import DartKernel.Proofs.Reading
import Mathlib.Data.List.Forall2

namespace DartKernel

theorem bind_eq_ok {x : Except ε α} {f : α → Except ε β} {b : β} :
    x >>= f = .ok b ↔ ∃ a, x = .ok a ∧ f a = .ok b := by
  cases x with
  | error e => simp [bind, Except.bind]
  | ok a => simp [bind, Except.bind]

theorem ok_bind (a : α) (f : α → Except ε β) : Except.ok a >>= f = f a := rfl

/-- A guard is passed by what does not meet its condition. -/
theorem guard_eq_ok_iff {c : Prop} [Decidable c] {e : ε} {x : Except ε α} {a : α} :
    (if c then .error e else x) = .ok a ↔ ¬ c ∧ x = .ok a := by
  by_cases hc : c
  · simp [hc]
  · simp [hc]

theorem toOption_any_iff {x : Except ε α} {p : α → Bool} :
    x.toOption.any p = true ↔ ∃ a, x = .ok a ∧ p a = true := by
  cases x with
  | error e => simp [Except.toOption]
  | ok a => simp [Except.toOption]

theorem mapM_eq_ok {f : α → Except ε β} {xs : List α} {ys : List β} :
    xs.mapM f = .ok ys ↔ List.Forall₂ (fun x y => f x = .ok y) xs ys := by
  induction xs generalizing ys with
  | nil => simp [pure, Except.pure, eq_comm]
  | cons x xs ih =>
    simp only [List.mapM_cons, bind_eq_ok, ih, List.forall₂_cons_left_iff]
    constructor
    · intro h
      rcases h with ⟨y, hy, ys', hys, h⟩
      cases h
      exact ⟨y, ys', hy, hys, rfl⟩
    · intro h
      rcases h with ⟨y, ys', hy, hys, rfl⟩
      exact ⟨y, hy, ys', hys, rfl⟩

/-- Numbered steps all succeed when each of them gives the element of its number. -/
theorem mapM_range_eq_ok {f : Nat → Except ε β} {n : Nat} {ys : List β} :
    (List.range n).mapM f = .ok ys ↔
      ys.length = n ∧ ∀ i (h : i < ys.length), f i = .ok ys[i] := by
  rw [mapM_eq_ok, List.forall₂_iff_get]
  simp only [List.length_range, List.get_eq_getElem, List.getElem_range]
  constructor
  · intro h
    rcases h with ⟨hl, h⟩
    exact ⟨hl.symm, fun i hi => h i (hl ▸ hi) hi⟩
  · intro h
    rcases h with ⟨hl, h⟩
    exact ⟨hl.symm, fun i _ hi => h i hi⟩

theorem mapM_succeeds {f : α → Except ε β} {xs : List α} :
    (∃ ys, xs.mapM f = .ok ys) ↔ ∀ x ∈ xs, ∃ y, f x = .ok y := by
  induction xs with
  | nil => simp [pure, Except.pure]
  | cons x xs ih =>
    rw [List.forall_mem_cons, ← ih]
    simp only [List.mapM_cons, bind_eq_ok]
    constructor
    · intro h
      rcases h with ⟨_, y, hy, ys, hys, -⟩
      exact ⟨⟨y, hy⟩, ys, hys⟩
    · intro h
      obtain ⟨⟨y, hy⟩, ys, hys⟩ := h
      exact ⟨y :: ys, y, hy, ys, hys, rfl⟩

namespace Window

/-- The window with its cursor at a position, at most at its end. -/
def goto (w : Window) (position : Nat) : Window :=
  { w with position := min position w.length, cursor := Nat.min_le_right .. }

theorem advance_eq_goto (w : Window) (n : Nat) : w.advance n = w.goto (w.position + n) := rfl

@[simp] theorem goto_goto (w : Window) (a b : Nat) : (w.goto a).goto b = w.goto b := rfl

@[simp] theorem length_goto (w : Window) (n : Nat) : (w.goto n).length = w.length := rfl

@[simp] theorem bytes_goto (w : Window) (n : Nat) : (w.goto n).bytes = w.bytes := rfl

@[simp] theorem slice_goto (w : Window) (n offset length : Nat) :
    (w.goto n).slice offset length = w.slice offset length := rfl

@[simp] theorem sliceAbsolute_goto (w : Window) (n : Nat) (start stop : UInt32) :
    (w.goto n).sliceAbsolute start stop = w.sliceAbsolute start stop := rfl

@[simp] theorem relative_goto (w : Window) (n : Nat) (absolute : UInt32) :
    (w.goto n).relative absolute = w.relative absolute := rfl

theorem rest_goto (w : Window) (n : Nat) : (w.goto n).rest = w.bytes.drop n := by
  have hb := w.length_bytes
  change w.bytes.drop (min n w.length) = _
  by_cases h : n ≤ w.length
  · rw [Nat.min_eq_left h]
  · rw [Nat.min_eq_right (by omega), List.drop_eq_nil_of_le (by omega),
      List.drop_eq_nil_of_le (by omega)]

end Window

namespace Scan

theorem bind_eq_ok {x : Scan α} {f : α → Scan β} {w w' : Window} {b : β} :
    (x >>= f) w = .ok b w' ↔ ∃ a m, x w = .ok a m ∧ f a m = .ok b w' := by
  constructor
  · exact bind_ok
  · intro h
    rcases h with ⟨a, m, hx, hf⟩
    rw [bind_eq, hx]
    exact hf

theorem get_eq_ok {w w' a : Window} : (get : Scan Window) w = .ok a w' ↔ a = w ∧ w' = w := by
  change EStateM.Result.ok w w = _ ↔ _
  simp [eq_comm]

theorem pure_eq_ok {a b : α} {w w' : Window} :
    (pure a : Scan α) w = .ok b w' ↔ b = a ∧ w' = w := by
  change EStateM.Result.ok a w = _ ↔ _
  simp [eq_comm]

theorem seek_eq_ok {position : Nat} {w w' : Window} {u : Unit} :
    seek position w = .ok u w' ↔ position ≤ w.length ∧ w' = w.goto position := by
  unfold seek
  by_cases h : position ≤ w.length
  · simp [h, Window.goto, eq_comm]
  · simp [h]

theorem ofExcept_eq_ok {x : Except Fault α} {w w' : Window} {a : α} :
    ofExcept x w = .ok a w' ↔ x = .ok a ∧ w' = w := by
  cases x with
  | ok b =>
    change EStateM.Result.ok b w = _ ↔ _
    simp [eq_comm]
  | error fault =>
    change EStateM.Result.error fault w = _ ↔ _
    simp

theorem value_eq_ok {scan : Scan α} {w : Window} {a : α} :
    scan.value w = .ok a ↔ ∃ w', scan w = .ok a w' := by
  unfold Scan.value
  cases scan w <;> simp

end Scan

/-- A node is read somewhere behind the cursor. -/
theorem NodeDecoder.scan_eq_ok {c : Conventions} {decoder : NodeDecoder α} {w w' : Window} {a : α}
    (h : decoder.scan c w = .ok a w') : ∃ n, w' = w.goto n := by
  obtain ⟨n, -, hw', -⟩ := Decoder.run_ok h
  exact ⟨_, hw'⟩

namespace Library

@[simp] theorem classAt_goto (c : Conventions) (w : Window) (n : Nat) (index : LibraryIndex) :
    classAt c (w.goto n) index = classAt c w index := rfl

@[simp] theorem procedureAt_goto (c : Conventions) (w : Window) (n : Nat) (index : LibraryIndex) :
    procedureAt c (w.goto n) index = procedureAt c w index := rfl

/-- A declaration is read in the window of its range. -/
theorem declarationAt_eq_ok_iff {w : Window} {range? : Option (UInt32 × UInt32)} {missing : Fault}
    {scan : Scan α} {a : α} : declarationAt w range? missing scan = .ok a ↔
      ∃ start stop v, range? = some (start, stop) ∧ w.sliceAbsolute start stop = .ok v ∧
        scan.value v = .ok a := by
  unfold declarationAt
  cases range? with
  | none => simp [bind, Except.bind, throw, throwThe, MonadExceptOf.throw]
  | some range =>
    change (do scan.value (← w.sliceAbsolute range.1 range.2)) = .ok a ↔ _
    refine ⟨fun h => ?_, fun h => ?_⟩
    · obtain ⟨v, hv, hvalue⟩ := bind_eq_ok.mp h
      exact ⟨_, _, v, rfl, hv, hvalue⟩
    · obtain ⟨start, stop, v, hrange, hv, hvalue⟩ := h
      cases hrange
      exact bind_eq_ok.mpr ⟨v, hv, hvalue⟩

/-- What a library is made of, read part by part in its window. The cursor stops behind the
fields. -/
theorem scan_eq_ok_iff {c : Conventions} {w w' : Window} {it : Library} :
    scan c w = .ok it w' ↔
      LibraryIndex.ofWindow w = .ok it.index ∧
      (NodeDecoder.libraryHead.scan c).value (w.goto 0) = .ok it.toLibraryHead ∧
      (List.range it.index.classCount).mapM (classAt c w it.index) = .ok it.classes ∧
      (∃ start, w.relative it.index.fieldsStart = .ok start ∧ start ≤ w.length ∧
        NodeDecoder.scan c (Decoder.list (NodeDecoder.field c)) (w.goto start) =
          .ok it.fields w') ∧
      (List.range it.index.procedureCount).mapM (procedureAt c w it.index) =
        .ok it.procedures := by
  simp only [scan, Scan.value_eq_ok, Scan.bind_eq_ok, Scan.get_eq_ok, Scan.ofExcept_eq_ok,
    Scan.seek_eq_ok, Scan.pure_eq_ok]
  constructor
  · intro h
    obtain ⟨_, _, ⟨rfl, rfl⟩, index, _, ⟨hindex, rfl⟩, _, _, ⟨-, rfl⟩, head, m, hhead, _, _,
      ⟨rfl, rfl⟩, classes, _, ⟨hclasses, rfl⟩, start, _, ⟨hstart, rfl⟩, _, _, ⟨hle, rfl⟩, fields,
      m', hfields, _, _, ⟨rfl, rfl⟩, procedures, _, ⟨hprocedures, rfl⟩, rfl, rfl⟩ := h
    obtain ⟨n, rfl⟩ := NodeDecoder.scan_eq_ok hhead
    obtain ⟨n', rfl⟩ := NodeDecoder.scan_eq_ok hfields
    exact ⟨hindex, ⟨_, hhead⟩, hclasses, ⟨start, hstart, hle, hfields⟩, hprocedures⟩
  · intro h
    obtain ⟨hindex, ⟨m, hhead⟩, hclasses, ⟨start, hstart, hle, hfields⟩, hprocedures⟩ := h
    obtain ⟨n, rfl⟩ := NodeDecoder.scan_eq_ok hhead
    obtain ⟨n', rfl⟩ := NodeDecoder.scan_eq_ok hfields
    exact ⟨w, w, ⟨rfl, rfl⟩, it.index, w, ⟨hindex, rfl⟩, (), w.goto 0, ⟨Nat.zero_le _, rfl⟩,
      it.toLibraryHead, _, hhead, _, _, ⟨rfl, rfl⟩, it.classes, _, ⟨hclasses, rfl⟩, start, _,
      ⟨hstart, rfl⟩, (), _, ⟨hle, rfl⟩, it.fields, _, hfields, _, _, ⟨rfl, rfl⟩, it.procedures, _,
      ⟨hprocedures, rfl⟩, rfl, rfl⟩

theorem value_scan_iff {c : Conventions} {w : Window} {it : Library} :
    (scan c).value w = .ok it ↔
      LibraryIndex.ofWindow w = .ok it.index ∧
      (NodeDecoder.libraryHead.scan c).value (w.goto 0) = .ok it.toLibraryHead ∧
      (List.range it.index.classCount).mapM (classAt c w it.index) = .ok it.classes ∧
      (∃ start, w.relative it.index.fieldsStart = .ok start ∧ start ≤ w.length ∧
        (NodeDecoder.scan c (Decoder.list (NodeDecoder.field c))).value (w.goto start) =
          .ok it.fields) ∧
      (List.range it.index.procedureCount).mapM (procedureAt c w it.index) =
        .ok it.procedures := by
  rw [Scan.value_eq_ok]
  constructor
  · intro h
    obtain ⟨w', h⟩ := h
    obtain ⟨hindex, hhead, hclasses, ⟨start, hstart, hle, hfields⟩, hprocedures⟩ :=
      scan_eq_ok_iff.mp h
    exact ⟨hindex, hhead, hclasses, ⟨start, hstart, hle, Scan.value_eq_ok.mpr ⟨w', hfields⟩⟩,
      hprocedures⟩
  · intro h
    obtain ⟨hindex, hhead, hclasses, ⟨start, hstart, hle, hfields⟩, hprocedures⟩ := h
    obtain ⟨w', hfields⟩ := Scan.value_eq_ok.mp hfields
    exact ⟨w', scan_eq_ok_iff.mpr
      ⟨hindex, hhead, hclasses, ⟨start, hstart, hle, hfields⟩, hprocedures⟩⟩

end Library
end DartKernel
