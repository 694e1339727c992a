import DartKernel.Proofs.Extent
import DartKernel.Proofs.Nesting
import DartKernel.Window.Run

namespace DartKernel

namespace Window

/-- The same slice of the same buffer, wherever the cursors stand. -/
structure SameSlice (w u : Window) : Prop where
  data : w.data = u.data
  base : w.base = u.base
  length : w.length = u.length

/-- The child shows a part of what the parent shows, and nothing else. -/
structure CarvedFrom (child parent : Window) : Prop where
  data : child.data = parent.data
  start : parent.base ≤ child.base
  stop : child.base + child.length ≤ parent.base + parent.length
  bytes : child.bytes = (parent.bytes.drop (child.base - parent.base)).take child.length

variable {w u v : Window}

theorem SameSlice.refl (w : Window) : w.SameSlice w := ⟨rfl, rfl, rfl⟩

theorem SameSlice.trans (h : w.SameSlice u) (h' : u.SameSlice v) : w.SameSlice v :=
  ⟨h.data.trans h'.data, h.base.trans h'.base, h.length.trans h'.length⟩

theorem SameSlice.bytes (h : w.SameSlice u) : w.bytes = u.bytes := by
  rw [Window.bytes, Window.bytes, h.data, h.base, h.length]

theorem CarvedFrom.congr {w' u' : Window} (h : w.CarvedFrom u) (hw : w'.SameSlice w)
    (hu : u'.SameSlice u) : w'.CarvedFrom u' where
  data := by rw [hw.data, hu.data, h.data]
  start := by rw [hw.base, hu.base]; exact h.start
  stop := by rw [hw.base, hu.base, hw.length, hu.length]; exact h.stop
  bytes := by rw [hw.bytes, hu.bytes, hw.base, hu.base, hw.length]; exact h.bytes

theorem Between.carvedFrom {start stop : Nat} (h : v.Between w start stop) : v.CarvedFrom w where
  data := h.data
  start := h.base ▸ h.lower
  stop := h.ends ▸ h.upper
  bytes := by
    have hlower := h.lower
    have hupper := h.upper
    have hbase := h.base
    have hends := h.ends
    have hstart : w.base + (v.base - w.base) = v.base := by omega
    rw [← w.extract_eq_take_drop _ _ (by omega), hstart, ← h.data]
    rfl

theorem CarvedFrom.refl (w : Window) : w.CarvedFrom w where
  data := rfl
  start := Nat.le_refl _
  stop := Nat.le_refl _
  bytes := by rw [Nat.sub_self, List.drop_zero, ← w.length_bytes, List.take_length]

end Window

/-- A carved window lies in the one it was carved from. Its cursor starts at zero, unless it is a
copy. -/
theorem Carving.apply_eq_ok {carving : Carving} {w v : Window} (h : carving.apply w = .ok v) :
    v.CarvedFrom w ∧ if carving = .copy then v = w else v.position = 0 := by
  cases carving with
  | slice offset length =>
    have hbetween := Window.slice_eq_ok_iff.mp h
    exact ⟨hbetween.carvedFrom, hbetween.position⟩
  | sliceFrom offset =>
    have hbetween := Window.sliceFrom_eq_ok_iff.mp h
    exact ⟨hbetween.carvedFrom, hbetween.position⟩
  | sliceAbsolute start stop =>
    have hbetween := Window.sliceAbsolute_eq_ok_iff.mp h
    exact ⟨hbetween.carvedFrom, hbetween.position⟩
  | copy =>
    cases h
    exact ⟨Window.CarvedFrom.refl w, rfl⟩

namespace Scan

/-- The scan leaves the cursor alone when it fails. -/
def StaysOnError (scan : Scan α) : Prop := ∀ w w' fault, scan w = .error fault w' → w' = w

theorem StaysOnError.map {scan : Scan α} (h : scan.StaysOnError) (f : α → β) :
    (scan >>= fun a => pure (f a)).StaysOnError := by
  intro w w' fault hw
  rw [bind_eq] at hw
  cases hx : scan w with
  | ok a m =>
    rw [hx] at hw
    cases hw
  | error fault' m =>
    rw [hx] at hw
    cases hw
    exact h _ _ _ hx

theorem seek_stays (position : Nat) : (seek position).StaysOnError := by
  intro w w' fault h
  unfold seek at h
  by_cases hle : position ≤ w.length
  · rw [dif_pos hle] at h
    cases h
  · rw [dif_neg hle] at h
    cases h
    rfl

theorem skip_stays (count : Nat) : (skip count).StaysOnError := by
  intro w w' fault h
  unfold skip at h
  by_cases hle : w.position + count ≤ w.length
  · rw [dif_pos hle] at h
    cases h
  · rw [dif_neg hle] at h
    cases h
    rfl

theorem peek_stays : peek.StaysOnError := by
  intro w w' fault h
  unfold peek at h
  by_cases hlt : w.position < w.length
  · rw [dif_pos hlt] at h
    cases h
  · rw [dif_neg hlt] at h
    cases h
    rfl

/-- Reading a byte fails where peeking does: with a byte ahead the cursor can move on. -/
theorem byte_stays : byte.StaysOnError := by
  intro w w' fault h
  cases hrest : w.rest with
  | nil =>
    rw [byte_eq_error (Window.remaining_eq_zero hrest)] at h
    cases h
    rfl
  | cons b rest =>
    rw [byte_eq_ok hrest] at h
    cases h

theorem bytes_stays (count : Nat) : (bytes count).StaysOnError := by
  intro w w' fault h
  rw [bytes_eq] at h
  by_cases hle : count ≤ w.remaining
  · rw [if_pos hle] at h
    cases h
  · rw [if_neg hle] at h
    cases h
    rfl

theorem words_stays (count : Nat) : (words count).StaysOnError := by
  intro w w' fault h
  unfold words at h
  by_cases hle : w.position + 4 * count ≤ w.length
  · rw [if_pos hle] at h
    exact (bytes_stays _).map _ _ _ _ h
  · rw [if_neg hle] at h
    cases h
    rfl

def after (scan : Scan α) (w : Window) : Window :=
  match scan w with
  | .ok _ w' => w'
  | .error _ w' => w'

def MovesCursor (scan : Scan α) : Prop := ∀ w, (scan.after w).SameSlice w

theorem MovesCursor.bind {x : Scan α} {f : α → Scan β} (hx : x.MovesCursor)
    (hf : ∀ a, (f a).MovesCursor) : (x >>= f).MovesCursor := by
  intro w
  have hw := hx w
  unfold after at hw ⊢
  rw [bind_eq]
  cases h : x w with
  | ok a m =>
    rw [h] at hw
    exact (hf a m).trans hw
  | error fault m =>
    rw [h] at hw
    exact hw

theorem pure_movesCursor (a : α) : (pure a : Scan α).MovesCursor := Window.SameSlice.refl

theorem throw_movesCursor (fault : Fault) : (throw fault : Scan α).MovesCursor :=
  Window.SameSlice.refl

theorem ofExcept_movesCursor (x : Except Fault α) : (ofExcept x).MovesCursor := by
  cases x with
  | ok a => exact pure_movesCursor a
  | error fault => exact throw_movesCursor fault

theorem Reads.movesCursor {scan : Scan α} {p : Reading α} (h : scan.Reads p)
    (hstays : scan.StaysOnError) : scan.MovesCursor := by
  intro w
  unfold after
  cases hw : scan w with
  | ok a w' =>
    obtain ⟨n, -, rfl, -⟩ := h.sound hw
    exact ⟨rfl, rfl, rfl⟩
  | error fault w' =>
    obtain rfl := hstays _ _ _ hw
    exact Window.SameSlice.refl _

theorem seek_movesCursor (position : Nat) : (seek position).MovesCursor := by
  intro w
  unfold after
  cases hw : seek position w with
  | ok a w' =>
    obtain ⟨-, rfl⟩ := seek_eq_ok.mp hw
    exact ⟨rfl, rfl, rfl⟩
  | error fault w' =>
    obtain rfl := seek_stays position _ _ _ hw
    exact Window.SameSlice.refl _

theorem byte_movesCursor : byte.MovesCursor := byte_reads.movesCursor byte_stays

theorem bytes_movesCursor (count : Nat) : (bytes count).MovesCursor :=
  (bytes_reads count).movesCursor (bytes_stays count)

theorem ite_movesCursor {c : Prop} [Decidable c] {x y : Scan α} (hx : x.MovesCursor)
    (hy : y.MovesCursor) : (if c then x else y).MovesCursor :=
  iteInduction (motive := MovesCursor) (fun _ => hx) fun _ => hy

theorem uint_movesCursor : uint.MovesCursor := by
  apply byte_movesCursor.bind
  intro first
  apply ite_movesCursor (pure_movesCursor _)
  apply ite_movesCursor (byte_movesCursor.bind fun _ => pure_movesCursor _)
  exact byte_movesCursor.bind fun _ => byte_movesCursor.bind fun _ => byte_movesCursor.bind
    fun _ => pure_movesCursor _

theorem checkTag_movesCursor (expected : UInt8) : (checkTag expected).MovesCursor :=
  byte_movesCursor.bind fun _ => ite_movesCursor (throw_movesCursor _) (pure_movesCursor _)

end Scan

namespace WindowOperation

theorem scan_movesCursor (operation : WindowOperation) : operation.scan.MovesCursor := by
  cases operation with
  | seek position => exact Scan.seek_movesCursor position
  | skip count => exact (Scan.skip_reads count).movesCursor (Scan.skip_stays count)
  | byte => exact Scan.byte_movesCursor
  | peek => exact Scan.peek_reads.movesCursor Scan.peek_stays
  | word => exact (Scan.bytes_movesCursor 4).bind fun _ => Scan.pure_movesCursor _
  | words count => exact (Scan.words_reads count).movesCursor (Scan.words_stays count)
  | uint => exact Scan.uint_movesCursor
  | double => exact (Scan.bytes_movesCursor 8).bind fun _ => Scan.pure_movesCursor _
  | bytes count => exact Scan.bytes_movesCursor count
  | byteList => exact Scan.uint_movesCursor.bind fun _ => Scan.bytes_movesCursor _
  | checkTag expected => exact Scan.checkTag_movesCursor expected
  | relative absolute =>
    have hget : (get : Scan Window).MovesCursor := Window.SameSlice.refl
    exact hget.bind fun _ => Scan.ofExcept_movesCursor _

/-- The operations that read in one go. The others may fail behind a first byte. -/
def Atomic : WindowOperation → Prop
  | .uint | .byteList | .checkTag _ => False
  | _ => True

theorem Atomic.stays {operation : WindowOperation} (h : operation.Atomic) :
    operation.scan.StaysOnError := by
  cases operation with
  | seek position => exact Scan.seek_stays position
  | skip count => exact Scan.skip_stays count
  | byte => exact Scan.byte_stays
  | peek => exact Scan.peek_stays
  | word => exact (Scan.bytes_stays 4).map _
  | words count => exact Scan.words_stays count
  | double => exact (Scan.bytes_stays 8).map _
  | bytes count => exact Scan.bytes_stays count
  | relative absolute =>
    intro w w' fault hw
    change Scan.ofExcept (w.relative absolute) w = _ at hw
    cases hrelative : w.relative absolute with
    | ok n =>
      rw [hrelative] at hw
      cases hw
    | error fault' =>
      rw [hrelative] at hw
      cases hw
      rfl
  | uint | byteList | checkTag => exact h.elim

end WindowOperation

namespace WindowPool

variable {pool : WindowPool} {i : Nat} {w : Window}

theorem step_carve (h : pool.get? i = some w) (carving : Carving) :
    pool.step (.carve i carving) = ⟨pool.windows ++ (carving.apply w).toOption.toList⟩ := by
  simp [step, carve, h]

theorem step_scan (h : pool.get? i = some w) (operation : WindowOperation) :
    pool.step (.scan i operation) = ⟨pool.windows.set i (operation.scan.after w)⟩ := by
  cases hw : operation.scan w with
  | ok a m => simp [step, scan, Scan.after, h, hw]
  | error fault m => simp [step, scan, Scan.after, h, hw]

theorem step_of_none (h : pool.get? i = none) : (∀ carving, pool.step (.carve i carving) = pool) ∧
    ∀ operation, pool.step (.scan i operation) = pool := by
  simp [step, carve, scan, h]

/-- A window keeps its number and its slice over a step. -/
theorem get?_step (h : pool.get? i = some w) (step : WindowStep) :
    ∃ w', (pool.step step).get? i = some w' ∧ w'.SameSlice w := by
  obtain ⟨hi, hw⟩ := List.getElem?_eq_some_iff.mp h
  cases step with
  | carve j carving =>
    cases hj : pool.get? j with
    | none =>
      rw [(step_of_none hj).1]
      exact ⟨w, h, Window.SameSlice.refl w⟩
    | some parent =>
      rw [step_carve hj]
      refine ⟨w, ?_, Window.SameSlice.refl w⟩
      change (pool.windows ++ _)[i]? = _
      rw [List.getElem?_append_left hi]
      exact h
  | scan j operation =>
    cases hj : pool.get? j with
    | none =>
      rw [(step_of_none hj).2]
      exact ⟨w, h, Window.SameSlice.refl w⟩
    | some moved =>
      rw [step_scan hj]
      by_cases hij : j = i
      · subst hij
        rw [h] at hj
        cases hj
        refine ⟨operation.scan.after w, ?_, operation.scan_movesCursor w⟩
        exact List.getElem?_set_self hi
      · refine ⟨w, ?_, Window.SameSlice.refl w⟩
        change (pool.windows.set j _)[i]? = _
        rw [List.getElem?_set_ne hij]
        exact h

theorem get?_run (h : pool.get? i = some w) (steps : List WindowStep) :
    ∃ w', (pool.run steps).get? i = some w' ∧ w'.SameSlice w := by
  induction steps generalizing pool w with
  | nil => exact ⟨w, h, Window.SameSlice.refl w⟩
  | cons step steps ih =>
    obtain ⟨m, hm, hsame⟩ := get?_step h step
    obtain ⟨w', hw', hsame'⟩ := ih hm
    exact ⟨w', hw', hsame'.trans hsame⟩

def Over (pool : WindowPool) (data : ByteArray) : Prop := ∀ w ∈ pool.windows, w.data = data

theorem Over.step {data : ByteArray} (h : pool.Over data) (step : WindowStep) :
    (pool.step step).Over data := by
  cases step with
  | carve i carving =>
    cases hi : pool.get? i with
    | none =>
      rw [(step_of_none hi).1]
      exact h
    | some parent =>
      rw [step_carve hi]
      intro w hw
      rcases List.mem_append.mp hw with hw | hw
      · exact h w hw
      · cases hchild : carving.apply parent with
        | error fault =>
          rw [hchild] at hw
          cases hw
        | ok child =>
          rw [hchild] at hw
          obtain rfl : w = child := List.mem_singleton.mp hw
          rw [(Carving.apply_eq_ok hchild).1.data]
          exact h parent (List.mem_of_getElem? hi)
  | scan i operation =>
    cases hi : pool.get? i with
    | none =>
      rw [(step_of_none hi).2]
      exact h
    | some moved =>
      rw [step_scan hi]
      intro w hw
      rcases List.mem_or_eq_of_mem_set hw with hw | rfl
      · exact h w hw
      · rw [(operation.scan_movesCursor moved).data]
        exact h moved (List.mem_of_getElem? hi)

theorem Over.run {data : ByteArray} (h : pool.Over data) (steps : List WindowStep) :
    (pool.run steps).Over data := by
  induction steps generalizing pool with
  | nil => exact h
  | cons step steps ih => exact ih (h.step step)

theorem ofWindow_over (data : ByteArray) : (ofWindow (Window.ofBytes data)).Over data := by
  intro w hw
  rw [List.mem_singleton.mp hw]
  rfl

theorem step_carve_ok {carving : Carving} {child : Window} (h : pool.get? i = some w)
    (hchild : carving.apply w = .ok child) :
    pool.step (.carve i carving) = ⟨pool.windows ++ [child]⟩ := by
  rw [step_carve h, hchild]
  rfl

theorem step_carve_error {carving : Carving} {fault : Fault} (h : pool.get? i = some w)
    (hfault : carving.apply w = .error fault) : pool.step (.carve i carving) = pool := by
  rw [step_carve h, hfault]
  exact congrArg WindowPool.mk (List.append_nil _)

/-- A carved window is a part of its parent after any run, wherever the cursors went. -/
theorem carvedFrom_run {carving : Carving} {child : Window} (h : pool.get? i = some w)
    (hchild : carving.apply w = .ok child) (later : List WindowStep) :
    ∃ parent' child', ((pool.step (.carve i carving)).run later).get? i = some parent' ∧
      ((pool.step (.carve i carving)).run later).get? pool.size = some child' ∧
      child'.CarvedFrom parent' := by
  have hnew : (pool.step (.carve i carving)).get? pool.size = some child := by
    rw [step_carve_ok h hchild]
    exact List.getElem?_concat_length
  obtain ⟨m, hm, hsame⟩ := get?_step h (.carve i carving)
  obtain ⟨parent', hparent', hsame'⟩ := get?_run hm later
  obtain ⟨child', hchild', hkept⟩ := get?_run hnew later
  have hcarved := (Carving.apply_eq_ok hchild).1
  exact ⟨parent', child', hparent', hchild', hcarved.congr hkept (hsame'.trans hsame)⟩

theorem step_scan_error {operation : WindowOperation} {fault : Fault} {w' : Window}
    (h : pool.get? i = some w) (hatomic : operation.Atomic)
    (hscan : operation.scan w = .error fault w') : pool.step (.scan i operation) = pool := by
  have hafter : operation.scan.after w = w := by
    rw [Scan.after, hscan]
    exact hatomic.stays _ _ _ hscan
  obtain ⟨hi, hw⟩ := List.getElem?_eq_some_iff.mp h
  rw [step_scan h, hafter, ← hw]
  exact congrArg WindowPool.mk (List.set_getElem_self hi)

/-- What holds of the windows after any run. All of them lie in the buffer with the cursor in
their bounds. A carving that succeeds adds one window, a part of its parent from then on, and moves
no cursor; a scan moves one cursor at most; and what fails in one go moves none. -/
theorem run_bounds (data : ByteArray) (steps : List WindowStep) :
    let pool := (ofWindow (Window.ofBytes data)).run steps
    (∀ w ∈ pool.windows, w.data = data ∧ w.base + w.length ≤ data.size ∧ w.position ≤ w.length) ∧
    (∀ i carving parent, pool.get? i = some parent →
      (∀ child, carving.apply parent = .ok child →
        (pool.step (.carve i carving)).windows = pool.windows ++ [child] ∧
        child.CarvedFrom parent ∧ (if carving = .copy then child = parent else child.position = 0) ∧
        ∀ later, ∃ parent' child',
          ((pool.step (.carve i carving)).run later).get? i = some parent' ∧
          ((pool.step (.carve i carving)).run later).get? pool.size = some child' ∧
          child'.CarvedFrom parent') ∧
      ∀ fault, carving.apply parent = .error fault → pool.step (.carve i carving) = pool) ∧
    ∀ i operation w, pool.get? i = some w →
      (∃ w', (pool.step (.scan i operation)).windows = pool.windows.set i w' ∧ w'.SameSlice w) ∧
      (operation.Atomic → ∀ fault w', operation.scan w = .error fault w' →
        pool.step (.scan i operation) = pool) := by
  intro pool
  have hover : pool.Over data := (ofWindow_over data).run steps
  refine ⟨?_, ?_, ?_⟩
  · intro w hw
    have hdata := hover w hw
    exact ⟨hdata, hdata ▸ w.inside, w.cursor⟩
  · intro i carving parent hparent
    refine ⟨?_, fun fault hfault => step_carve_error hparent hfault⟩
    intro child hchild
    obtain ⟨hcarved, hposition⟩ := Carving.apply_eq_ok hchild
    refine ⟨?_, hcarved, hposition, carvedFrom_run hparent hchild⟩
    rw [step_carve_ok hparent hchild]
  · intro i operation w hw
    refine ⟨⟨_, by rw [step_scan hw], operation.scan_movesCursor w⟩, ?_⟩
    intro hatomic fault w' hscan
    exact step_scan_error hw hatomic hscan

/-- A window in a window stays inside of it while both are read, and too many words are refused
without a move. -/
theorem run_bounds_nested :
    let pool := (ofWindow (Window.ofBytes ⟨#[1, 2, 3, 4]⟩)).run [.carve 0 (.slice 1 3)]
    let final := (pool.step (.carve 1 (.sliceFrom 1))).run [.scan 2 .byte, .scan 1 .uint]
    (∃ parent child, final.get? 1 = some parent ∧ final.get? 2 = some child ∧
      child.CarvedFrom parent) ∧ pool.step (.scan 0 (.words 9)) = pool := by
  intro pool final
  obtain ⟨-, hcarve, hscan⟩ := run_bounds ⟨#[1, 2, 3, 4]⟩ [.carve 0 (.slice 1 3)]
  obtain ⟨-, -, -, hlater⟩ := (hcarve 1 (.sliceFrom 1) _ rfl).1 _ rfl
  exact ⟨hlater [.scan 2 .byte, .scan 1 .uint], (hscan 0 (.words 9) _ rfl).2 trivial _ _ rfl⟩

end WindowPool
end DartKernel
