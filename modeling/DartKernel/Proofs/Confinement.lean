import DartKernel.Component.View
import DartKernel.Proofs.Locality
import DartKernel.Window.Run

namespace DartKernel

namespace Window

/-- The two windows show the same bytes of the same place, with the cursor in the same place. -/
structure Alike (w u : Window) : Prop where
  base : w.base = u.base
  length : w.length = u.length
  position : w.position = u.position
  bytes : w.bytes = u.bytes

/-- The same window carved twice, or the same fault. -/
inductive CarvedAlike : Except Fault Window → Except Fault Window → Prop where
  | ok {w u : Window} : w.Alike u → CarvedAlike (.ok w) (.ok u)
  | error (fault : Fault) : CarvedAlike (.error fault) (.error fault)

namespace Alike

/-- Windows over buffers that agree inside the bounds. -/
theorem of_agree {F G : ByteArray} {b l p : Nat} {hF : b + l ≤ F.size} {hG : b + l ≤ G.size}
    {hp : p ≤ l} (h : ∀ k, b ≤ k → k < b + l → F.data[k]? = G.data[k]?) :
    Alike ⟨F, b, l, p, hF, hp⟩ ⟨G, b, l, p, hG, hp⟩ where
  base := rfl
  length := rfl
  position := rfl
  bytes := by
    simp only [Window.bytes, ByteArray.data_extract]
    congr 1
    apply Array.ext_getElem?
    intro i
    rw [Array.getElem?_extract, Array.getElem?_extract]
    have hFs : F.data.size = F.size := rfl
    have hGs : G.data.size = G.size := rfl
    rw [hFs, hGs, Nat.min_eq_left hF, Nat.min_eq_left hG]
    by_cases hi : i < b + l - b
    · rw [if_pos hi, if_pos hi]
      exact h _ (by omega) (by omega)
    · rw [if_neg hi, if_neg hi]

variable {w u : Window}

theorem rest (h : w.Alike u) : w.rest = u.rest := by
  rw [Window.rest, Window.rest, h.bytes, h.position]

theorem remaining (h : w.Alike u) : w.remaining = u.remaining := by
  rw [Window.remaining, Window.remaining, h.length, h.position]

theorem outOfBounds (h : w.Alike u) (position wanted : Nat) :
    w.outOfBounds position wanted = u.outOfBounds position wanted := by
  rw [Window.outOfBounds, Window.outOfBounds, h.length, h.base]

theorem isEmpty (h : w.Alike u) : w.isEmpty = u.isEmpty := by
  rw [Window.isEmpty, Window.isEmpty, h.length]

theorem summary (h : w.Alike u) : w.summary = u.summary := by
  obtain ⟨hbase, hlength, hposition, -⟩ := h
  unfold Window.summary
  simp only [hbase, hlength, hposition]

theorem goto (h : w.Alike u) (n : Nat) : (w.goto n).Alike (u.goto n) where
  base := h.base
  length := h.length
  position := congrArg (min n) h.length
  bytes := h.bytes

theorem advance (h : w.Alike u) (n : Nat) : (w.advance n).Alike (u.advance n) := by
  rw [advance_eq_goto, advance_eq_goto, h.position]
  exact h.goto _

theorem wordsAt? (h : w.Alike u) (offset count : Nat) :
    w.wordsAt? offset count = u.wordsAt? offset count := by
  unfold Window.wordsAt?
  rw [← h.length]
  by_cases hle : offset + 4 * count ≤ w.length
  · rw [if_pos hle, if_pos hle, extract_eq_take_drop w _ _ hle,
      extract_eq_take_drop u _ _ (h.length ▸ hle), h.bytes]
  · rw [if_neg hle, if_neg hle]

theorem relative (h : w.Alike u) (absolute : UInt32) :
    w.relative absolute = u.relative absolute := by
  unfold Window.relative
  rw [h.base, h.length, h.outOfBounds]

theorem slice (h : w.Alike u) (offset length : Nat) :
    CarvedAlike (w.slice offset length) (u.slice offset length) := by
  unfold Window.slice
  by_cases hle : offset + length ≤ w.length
  · rw [dif_pos hle, dif_pos (h.length ▸ hle)]
    apply CarvedAlike.ok
    refine ⟨?_, rfl, rfl, ?_⟩
    · simp only [h.base]
    · change (w.data.extract (w.base + offset) (w.base + offset + length)).data.toList =
        (u.data.extract (u.base + offset) (u.base + offset + length)).data.toList
      rw [extract_eq_take_drop w _ _ hle, extract_eq_take_drop u _ _ (h.length ▸ hle), h.bytes]
  · rw [dif_neg hle, dif_neg (h.length ▸ hle), h.outOfBounds]
    exact CarvedAlike.error _

theorem sliceFrom (h : w.Alike u) (offset : Nat) :
    CarvedAlike (w.sliceFrom offset) (u.sliceFrom offset) := by
  unfold Window.sliceFrom
  rw [← h.length]
  by_cases hle : offset ≤ w.length
  · rw [if_pos hle, if_pos hle]
    exact h.slice _ _
  · rw [if_neg hle, if_neg hle, h.outOfBounds]
    exact CarvedAlike.error _

theorem sliceAbsolute (h : w.Alike u) (start stop : UInt32) :
    CarvedAlike (w.sliceAbsolute start stop) (u.sliceAbsolute start stop) := by
  unfold Window.sliceAbsolute
  rw [← h.base]
  by_cases hbase : start.toNat < w.base
  · rw [if_pos hbase, if_pos hbase, h.outOfBounds]
    exact CarvedAlike.error _
  · rw [if_neg hbase, if_neg hbase]
    by_cases hstop : stop < start
    · rw [if_pos hstop, if_pos hstop]
      exact CarvedAlike.error _
    · rw [if_neg hstop, if_neg hstop]
      exact h.slice _ _

theorem carving (h : w.Alike u) (carving : Carving) :
    CarvedAlike (carving.apply w) (carving.apply u) := by
  cases carving with
  | slice offset length => exact h.slice offset length
  | sliceFrom offset => exact h.sliceFrom offset
  | sliceAbsolute start stop => exact h.sliceAbsolute start stop
  | copy => exact CarvedAlike.ok h

end Alike

/-- What is done next with carved windows that are alike. -/
theorem CarvedAlike.bind_eq {x y : Except Fault Window} (h : CarvedAlike x y)
    {f : Window → Except Fault α} (hf : ∀ {w u : Window}, w.Alike u → f w = f u) :
    x >>= f = y >>= f := by
  cases h with
  | ok h => exact hf h
  | error fault => rfl

end Window

open Window (Alike)

namespace Scan

/-- The two scans end in the same way: with answers that are related, or with the same fault, and
in windows that are alike. -/
inductive SameOutcome (related : α → α → Prop) :
    EStateM.Result Fault Window α → EStateM.Result Fault Window α → Prop where
  | ok {a b : α} {w u : Window} : related a b → w.Alike u →
      SameOutcome related (.ok a w) (.ok b u)
  | error {fault : Fault} {w u : Window} : w.Alike u →
      SameOutcome related (.error fault w) (.error fault u)

def Agree (related : α → α → Prop) (x y : Scan α) : Prop :=
  ∀ w u : Window, w.Alike u → SameOutcome related (x w) (y u)

abbrev Confined (scan : Scan α) : Prop := Agree Eq scan scan

theorem Agree.bind {related : α → α → Prop} {related' : β → β → Prop} {x y : Scan α}
    {f g : α → Scan β} (h : Agree related x y)
    (hf : ∀ a b, related a b → Agree related' (f a) (g b)) :
    Agree related' (x >>= f) (y >>= g) := by
  intro w u hw
  rw [bind_eq, bind_eq]
  have hxy := h w u hw
  generalize x w = r, y u = r' at hxy ⊢
  cases hxy with
  | ok hab hm => exact hf _ _ hab _ _ hm
  | error hm => exact .error hm

theorem Confined.bind {x : Scan α} {f : α → Scan β} (hx : x.Confined)
    (hf : ∀ a, (f a).Confined) : (x >>= f).Confined := by
  apply Agree.bind hx
  rintro a _ rfl
  exact hf a

theorem pure_confined (a : α) : (pure a : Scan α).Confined := fun _ _ h => .ok rfl h

theorem throw_confined (fault : Fault) : (throw fault : Scan α).Confined := fun _ _ h => .error h

theorem get_agree : Agree Alike get get := fun _ _ h => .ok h h

theorem ofExcept_confined (x : Except Fault α) : (ofExcept x).Confined := by
  cases x with
  | ok a => exact pure_confined a
  | error fault => exact throw_confined fault

theorem ite_confined {c : Prop} [Decidable c] {x y : Scan α} (hx : x.Confined)
    (hy : y.Confined) : (if c then x else y).Confined :=
  iteInduction (motive := Confined) (fun _ => hx) fun _ => hy

/-- Going on unless something is refused. -/
theorem refuse_confined {c : Prop} [Decidable c] (fault : Fault) {x : Scan α}
    (hx : x.Confined) : (if c then (throw fault : Scan Unit) >>= fun _ => x else x).Confined :=
  ite_confined ((throw_confined fault).bind fun _ => hx) hx

/-- Scans that look at their window in such a way that windows that are alike look the same. -/
theorem get_bind_confined {f : Window → Scan α}
    (h : ∀ w u : Window, w.Alike u → Agree Eq (f w) (f u)) : (get >>= f).Confined :=
  get_agree.bind h

theorem value_eq {x y : Scan α} (h : Agree Eq x y) {w u : Window} (hw : w.Alike u) :
    x.value w = y.value u := by
  have hxy := h w u hw
  unfold value
  generalize x w = r, y u = r' at hxy ⊢
  cases hxy with
  | ok hab _ => rw [hab]
  | error _ => rfl

theorem seek_confined (position : Nat) : (seek position).Confined := by
  intro w u h
  unfold seek
  by_cases hle : position ≤ w.length
  · rw [dif_pos hle, dif_pos (h.length ▸ hle)]
    exact .ok rfl ⟨h.base, h.length, rfl, h.bytes⟩
  · rw [dif_neg hle, dif_neg (h.length ▸ hle), h.outOfBounds]
    exact .error h

theorem skip_confined (count : Nat) : (skip count).Confined := by
  intro w u h
  unfold skip
  by_cases hle : w.position + count ≤ w.length
  · rw [dif_pos hle, dif_pos (h.length ▸ h.position ▸ hle)]
    exact .ok rfl ⟨h.base, h.length, by simp only [h.position], h.bytes⟩
  · rw [dif_neg hle, dif_neg (h.length ▸ h.position ▸ hle), h.outOfBounds, h.position]
    exact .error h

theorem peek_confined : peek.Confined := by
  intro w u h
  cases hrest : w.rest with
  | nil =>
    have h0 := Window.remaining_eq_zero hrest
    rw [peek_eq_error h0, peek_eq_error (h.remaining ▸ h0), h.outOfBounds, h.position]
    exact .error h
  | cons b rest =>
    rw [peek_eq_ok hrest, peek_eq_ok (h.rest ▸ hrest)]
    exact .ok rfl h

theorem byte_confined : byte.Confined :=
  peek_confined.bind fun b => (skip_confined 1).bind fun _ => pure_confined b

theorem bytes_confined (count : Nat) : (bytes count).Confined := by
  intro w u h
  rw [bytes_eq, bytes_eq, h.remaining, h.rest, h.outOfBounds, h.position]
  by_cases hle : count ≤ u.remaining
  · rw [if_pos hle, if_pos hle]
    exact .ok rfl (h.advance count)
  · rw [if_neg hle, if_neg hle]
    exact .error h

theorem word_confined : word.Confined := (bytes_confined 4).bind fun _ => pure_confined _

theorem double_confined : double.Confined := (bytes_confined 8).bind fun _ => pure_confined _

theorem words_confined (count : Nat) : (words count).Confined := by
  intro w u h
  have hwords : (wordsOf <$> bytes (4 * count)).Confined :=
    (bytes_confined (4 * count)).bind fun _ => pure_confined _
  unfold words
  rw [← h.length, ← h.position]
  by_cases hle : w.position + 4 * count ≤ w.length
  · rw [if_pos hle, if_pos hle]
    exact hwords w u h
  · rw [if_neg hle, if_neg hle, h.outOfBounds]
    exact .error h

theorem uint_confined : uint.Confined := by
  apply byte_confined.bind
  intro first
  apply ite_confined (pure_confined _)
  apply ite_confined (byte_confined.bind fun _ => pure_confined _)
  exact byte_confined.bind fun _ => byte_confined.bind fun _ => byte_confined.bind fun _ =>
    pure_confined _

theorem byteList_confined : byteList.Confined := uint_confined.bind fun _ => bytes_confined _

theorem checkTag_confined (expected : UInt8) : (checkTag expected).Confined :=
  byte_confined.bind fun _ => ite_confined (throw_confined _) (pure_confined _)

theorem manyOnto_confined {element : Scan α} (h : element.Confined) (count : Nat) (done : List α) :
    (manyOnto element count done).Confined := by
  induction count generalizing done with
  | zero => exact pure_confined _
  | succ count ih => exact h.bind fun x => ih (x :: done)

theorem many_confined {element : Scan α} (h : element.Confined) (count : Nat) :
    (many element count).Confined := manyOnto_confined h count []

theorem list_confined {element : Scan α} (h : element.Confined) : (list element).Confined :=
  uint_confined.bind fun _ => many_confined h _

theorem option_confined {element : Scan α} (h : element.Confined) : (option element).Confined := by
  apply byte_confined.bind
  intro tag
  apply ite_confined (pure_confined none)
  exact ite_confined (h.bind fun _ => pure_confined _) (throw_confined _)

end Scan

theorem WindowOperation.scan_confined (operation : WindowOperation) :
    operation.scan.Confined := by
  cases operation with
  | seek position => exact Scan.seek_confined position
  | skip count => exact Scan.skip_confined count
  | byte => exact Scan.byte_confined
  | peek => exact Scan.peek_confined
  | word => exact Scan.word_confined
  | words count => exact Scan.words_confined count
  | uint => exact Scan.uint_confined
  | double => exact Scan.double_confined
  | bytes count => exact Scan.bytes_confined count
  | byteList => exact Scan.byteList_confined
  | checkTag expected => exact Scan.checkTag_confined expected
  | relative absolute =>
    apply Scan.get_bind_confined
    intro w u h
    rw [h.relative]
    exact Scan.ofExcept_confined _

namespace Decoder

variable {σ : Type} {Tree : σ → Type} {α : Type}

theorem answer_confined {subtree : (sort : σ) → Scan (Tree sort)}
    (h : ∀ sort, (subtree sort).Confined) (query : Query σ) :
    (answer subtree query).Confined := by
  cases query with
  | byte => exact Scan.byte_confined
  | peek => exact Scan.peek_confined
  | uint => exact Scan.uint_confined
  | flag means => exact Scan.byte_confined.bind fun _ => Scan.pure_confined _
  | bytes count => exact Scan.bytes_confined count
  | tree sort => exact h sort

theorem runWith_confined {subtree : (sort : σ) → Scan (Tree sort)}
    (h : ∀ sort, (subtree sort).Confined) (decoder : Decoder Tree α) :
    (runWith subtree decoder).Confined := by
  induction decoder with
  | done a => exact Scan.pure_confined a
  | fail fault => exact Scan.throw_confined fault
  | ask query next ih => exact (answer_confined h query).bind ih

theorem subtree_confined (g : Grammar Tree) (depth : Nat) (sort : σ) :
    (subtree g depth sort).Confined := by
  induction depth generalizing sort with
  | zero =>
    intro w u h
    change Scan.SameOutcome Eq (.error (w.outOfBounds w.position 1) w)
      (.error (u.outOfBounds u.position 1) u)
    rw [h.outOfBounds, h.position]
    exact .error h
  | succ depth ih => exact Scan.byte_confined.bind fun tag => runWith_confined ih (g sort tag)

/-- Whatever a decoder asks for, it learns no more than its window shows. -/
theorem run_confined (g : Grammar Tree) (decoder : Decoder Tree α) : (run g decoder).Confined := by
  intro w u h
  rw [run, run, h.remaining]
  exact runWith_confined (subtree_confined g _) decoder w u h

end Decoder

theorem NodeDecoder.scan_confined (c : Conventions) (decoder : NodeDecoder α) :
    (decoder.scan c).Confined := Decoder.run_confined (grammar c) decoder

theorem Passage.scan_confined (session : Session) (passage : Passage) :
    (passage.scan session).Confined := by
  cases passage with
  | node fragment => exact NodeDecoder.scan_confined _ _
  | _ => exact Decoder.run_confined _ _

theorem Class.scanProcedureIndex_confined (count : Nat) :
    (scanProcedureIndex count).Confined := by
  apply Scan.get_bind_confined
  intro w u h
  rw [h.remaining, h.length]
  apply Scan.ite_confined (Scan.pure_confined none)
  apply Scan.refuse_confined
  apply (Scan.seek_confined _).bind
  intro _
  apply Scan.word_confined.bind
  intro found
  apply Scan.refuse_confined
  apply Scan.refuse_confined
  exact (Scan.seek_confined _).bind fun _ => (Scan.words_confined _).bind fun _ =>
    Scan.pure_confined _

theorem Class.scan_confined (c : Conventions) : (scan c).Confined :=
  (NodeDecoder.scan_confined c _).bind fun _ => (scanProcedureIndex_confined _).bind fun _ =>
    Scan.pure_confined _

namespace LibraryIndex

theorem offsetsBefore?_alike {w u : Window} (h : w.Alike u) (stop : Nat) :
    offsetsBefore? w stop = offsetsBefore? u stop := by
  simp only [offsetsBefore?, h.wordsAt?]

theorem ofWindow_alike {w u : Window} (h : w.Alike u) : ofWindow w = ofWindow u := by
  simp only [ofWindow, offsetsBefore?_alike h, h.length, h.base]

end LibraryIndex

namespace Library

theorem declarationAt_alike {w u : Window} (h : w.Alike u) {scan : Scan α} (hscan : scan.Confined)
    (range? : Option (UInt32 × UInt32)) (missing : Fault) :
    declarationAt w range? missing scan = declarationAt u range? missing scan := by
  cases range? with
  | none => rfl
  | some range =>
    exact (h.sliceAbsolute range.1 range.2).bind_eq fun hw => Scan.value_eq hscan hw

theorem classAt_alike (c : Conventions) {w u : Window} (h : w.Alike u) :
    classAt c w = classAt c u := by
  funext index i
  exact declarationAt_alike h (Class.scan_confined c) _ _

theorem procedureAt_alike (c : Conventions) {w u : Window} (h : w.Alike u) :
    procedureAt c w = procedureAt c u := by
  funext index i
  exact declarationAt_alike h (NodeDecoder.scan_confined c _) _ _

theorem scan_confined (c : Conventions) : (scan c).Confined := by
  apply Scan.get_bind_confined
  intro w u h
  rw [LibraryIndex.ofWindow_alike h]
  apply (Scan.ofExcept_confined _).bind
  intro index
  apply (Scan.seek_confined 0).bind
  intro _
  apply (NodeDecoder.scan_confined c _).bind
  intro head
  apply Scan.get_bind_confined
  intro w u h
  rw [classAt_alike c h, h.relative]
  apply (Scan.ofExcept_confined _).bind
  intro classes
  apply (Scan.ofExcept_confined _).bind
  intro start
  apply (Scan.seek_confined start).bind
  intro _
  apply (NodeDecoder.scan_confined c _).bind
  intro fields
  apply Scan.get_bind_confined
  intro w u h
  rw [procedureAt_alike c h]
  exact (Scan.ofExcept_confined _).bind fun _ => Scan.pure_confined _

end Library

namespace Window

/-- Nothing that is asked of the two windows tells one from the other. -/
structure Indistinguishable (w u : Window) : Prop where
  remaining : w.remaining = u.remaining
  isEmpty : w.isEmpty = u.isEmpty
  bytes : w.bytes = u.bytes
  summary : w.summary = u.summary
  carving (carving : Carving) : CarvedAlike (carving.apply w) (carving.apply u)
  operation (operation : WindowOperation) :
    Scan.SameOutcome Eq (operation.scan w) (operation.scan u)
  many {α : Type} (element : Scan α) (h : element.Confined) (count : Nat) :
    Scan.SameOutcome Eq (Scan.many element count w) (Scan.many element count u)
  list {α : Type} (element : Scan α) (h : element.Confined) :
    Scan.SameOutcome Eq (Scan.list element w) (Scan.list element u)
  option {α : Type} (element : Scan α) (h : element.Confined) :
    Scan.SameOutcome Eq (Scan.option element w) (Scan.option element u)
  decoder (c : Conventions) {α : Type} (decoder : NodeDecoder α) :
    Scan.SameOutcome Eq (decoder.scan c w) (decoder.scan c u)
  passage (session : Session) (passage : Passage) :
    Scan.SameOutcome Eq (passage.scan session w) (passage.scan session u)
  classes (c : Conventions) : Scan.SameOutcome Eq (Class.scan c w) (Class.scan c u)
  libraryIndex : LibraryIndex.ofWindow w = LibraryIndex.ofWindow u
  library (c : Conventions) : Scan.SameOutcome Eq (Library.scan c w) (Library.scan c u)

theorem Alike.indistinguishable {w u : Window} (h : w.Alike u) : w.Indistinguishable u where
  remaining := h.remaining
  isEmpty := h.isEmpty
  bytes := h.bytes
  summary := h.summary
  carving := h.carving
  operation it := it.scan_confined w u h
  many _ helement count := Scan.many_confined helement count w u h
  list _ helement := Scan.list_confined helement w u h
  option _ helement := Scan.option_confined helement w u h
  decoder c _ it := NodeDecoder.scan_confined c it w u h
  passage session it := it.scan_confined session w u h
  classes c := Class.scan_confined c w u h
  libraryIndex := LibraryIndex.ofWindow_alike h
  library c := Library.scan_confined c w u h

/-- Windows between the same offsets of two files that agree in between. -/
theorem sliceAbsolute_ofBytes {F G : ByteArray} {start stop : UInt32} (hF : stop.toNat ≤ F.size)
    (hG : stop.toNat ≤ G.size)
    (h : ∀ k, start.toNat ≤ k → k < stop.toNat → F.data[k]? = G.data[k]?) :
    CarvedAlike ((ofBytes F).sliceAbsolute start stop) ((ofBytes G).sliceAbsolute start stop) := by
  have hbase (H : ByteArray) : ¬ start.toNat < (ofBytes H).base := Nat.not_lt_zero _
  by_cases hstop : stop < start
  · have hfault (H : ByteArray) : (ofBytes H).sliceAbsolute start stop =
        .error (.format (.windowReversed start stop)) := by
      rw [Window.sliceAbsolute, if_neg (hbase H), if_pos hstop]
    rw [hfault, hfault]
    exact CarvedAlike.error _
  · have hle : start.toNat ≤ stop.toNat := UInt32.not_lt.mp hstop
    have hslice (H : ByteArray) (hH : start.toNat + (stop.toNat - start.toNat) ≤ H.size) :
        (ofBytes H).sliceAbsolute start stop =
          .ok ⟨H, start.toNat, stop.toNat - start.toNat, 0, hH, Nat.zero_le _⟩ := by
      rw [Window.sliceAbsolute, if_neg (hbase H), if_neg hstop, Window.slice,
        dif_pos (by simpa [ofBytes] using hH)]
      simp [ofBytes]
    rw [hslice F (by omega), hslice G (by omega)]
    apply CarvedAlike.ok
    apply Alike.of_agree
    intro k hk hlt
    exact h k hk (by omega)

end Window

namespace View

theorem file_openFile {content : ByteArray} {options : DecodeOptions} {view : View}
    (h : openFile content options = .ok view) : view.file = Window.ofBytes content := by
  unfold openFile at h
  simp only [bind_eq_ok] at h
  obtain ⟨_, -, _, -, _, -, _, -, _, -, _, -, _, -, _, -, h⟩ := h
  cases h
  rfl

theorem libraryWindow_alike {view view' : View} {i : Nat}
    (hdirectory : view.directory = view'.directory)
    (h : ∀ start stop, view.directory.libraryRange? i = some (start, stop) →
      Window.CarvedAlike (view.file.sliceAbsolute start stop)
        (view'.file.sliceAbsolute start stop)) :
    Window.CarvedAlike (view.libraryWindow i) (view'.libraryWindow i) := by
  unfold libraryWindow libraryCount
  rw [← hdirectory]
  cases hrange : view.directory.libraryRange? i with
  | none => exact Window.CarvedAlike.error _
  | some range => exact h _ _ hrange

end View

/-- What a window shows is all that can be learned from it. Windows over two buffers that agree
inside the bounds cannot be told apart, and two files with the same header, directory and session
give the same for a library whose bytes they share, whatever else is in them. -/
theorem Window.outside_unseen :
    (∀ (F G : ByteArray) (b l p : Nat) (hF : b + l ≤ F.size) (hG : b + l ≤ G.size) (hp : p ≤ l),
      (∀ k, b ≤ k → k < b + l → F.data[k]? = G.data[k]?) →
      Indistinguishable ⟨F, b, l, p, hF, hp⟩ ⟨G, b, l, p, hG, hp⟩) ∧
    ∀ (F G : ByteArray) (options options' : DecodeOptions) (view view' : View) (i : Nat),
      View.openFile F options = .ok view → View.openFile G options' = .ok view' →
      view.header = view'.header → view.directory = view'.directory →
      view.session = view'.session →
      (∀ start stop, view.directory.libraryRange? i = some (start, stop) →
        stop.toNat ≤ F.size ∧ stop.toNat ≤ G.size ∧
        ∀ k, start.toNat ≤ k → k < stop.toNat → F.data[k]? = G.data[k]?) →
      view.library i = view'.library i ∧ view.libraryIndex i = view'.libraryIndex i ∧
      (∀ j, view.classAt i j = view'.classAt i j) ∧
      ∀ j, view.procedureAt i j = view'.procedureAt i j := by
  refine ⟨?_, ?_⟩
  · intro F G b l p hF hG hp h
    exact (Alike.of_agree h).indistinguishable
  · intro F G options options' view view' i hview hview' _ hdirectory hsession h
    have hwindow : CarvedAlike (view.libraryWindow i) (view'.libraryWindow i) := by
      apply View.libraryWindow_alike hdirectory
      intro start stop hrange
      obtain ⟨hF, hG, hagree⟩ := h start stop hrange
      rw [View.file_openFile hview, View.file_openFile hview']
      exact sliceAbsolute_ofBytes hF hG hagree
    have hindex : view.libraryIndex i = view'.libraryIndex i :=
      hwindow.bind_eq LibraryIndex.ofWindow_alike
    refine ⟨?_, hindex, ?_, ?_⟩
    · unfold View.library
      rw [hsession]
      exact hwindow.bind_eq fun hw => Scan.value_eq (Library.scan_confined _) hw
    · intro j
      unfold View.classAt
      rw [hsession]
      apply hwindow.bind_eq
      intro w u hw
      rw [LibraryIndex.ofWindow_alike hw, Library.classAt_alike _ hw]
    · intro j
      unfold View.procedureAt
      rw [hsession]
      apply hwindow.bind_eq
      intro w u hw
      rw [LibraryIndex.ofWindow_alike hw, Library.procedureAt_alike _ hw]

/-- A file of one library without declarations, with a mark in front of it. -/
def View.markedFile (mark : UInt8) : ByteArray :=
  ⟨(wordsBytes [Header.magic, 16] ++ [mark] ++ List.replicate 10 0 ++ wordsBytes [18, 0, 19, 0] ++
    [0, 1, 0, 0] ++ wordsBytes [8, 35, 35, 35, 36, 38, 0, 9, 35, 1, 83]).toArray⟩

def View.prelude (view : View) : Header × Directory × Session :=
  (view.header, view.directory, view.session)

theorem Window.outside_unseen_marked :
    Indistinguishable ⟨⟨#[1, 2, 3, 4]⟩, 1, 2, 0, by decide, by decide⟩
      ⟨⟨#[9, 2, 3, 7, 8]⟩, 1, 2, 0, by decide, by decide⟩ ∧
    ∃ view view', View.openFile (View.markedFile 7) {} = .ok view ∧
      View.openFile (View.markedFile 200) {} = .ok view' ∧
      view.library 0 = view'.library 0 ∧ ∀ j, view.classAt 0 j = view'.classAt 0 j := by
  have hwindow : ∀ k < 1 + 2, 1 ≤ k → (#[1, 2, 3, 4] : Array UInt8)[k]? = #[9, 2, 3, 7, 8][k]? := by
    decide
  have hshared : ∀ k < 35, 9 ≤ k →
      (View.markedFile 7).data[k]? = (View.markedFile 200).data[k]? := by
    decide +kernel
  have hparts : (View.openFile (View.markedFile 7) {}).toOption.map View.prelude =
      (View.openFile (View.markedFile 200) {}).toOption.map View.prelude := by
    decide +kernel
  have hrange : (View.openFile (View.markedFile 7) {}).toOption.map (·.directory.libraryRange? 0) =
      some (some (9, 35)) := by
    decide +kernel
  refine ⟨outside_unseen.1 _ _ 1 2 0 _ _ _ fun k hk hlt => hwindow k hlt hk, ?_⟩
  cases hview : View.openFile (View.markedFile 7) {} with
  | error fault => simp [hview, Except.toOption] at hrange
  | ok view =>
    cases hview' : View.openFile (View.markedFile 200) {} with
    | error fault => simp [hview, hview', Except.toOption] at hparts
    | ok view' =>
      rw [hview] at hrange hparts
      rw [hview'] at hparts
      simp only [Except.toOption, Option.map_some, Option.some.injEq, Prod.mk.injEq,
        View.prelude] at hrange hparts
      obtain ⟨hheader, hdirectory, hsession⟩ := hparts
      obtain ⟨hlibrary, -, hclass, -⟩ := outside_unseen.2 _ _ _ _ view view' 0 hview hview' hheader
        hdirectory hsession (by
          intro start stop h
          rw [hrange] at h
          cases h
          exact ⟨by decide, by decide, fun k hk hlt => hshared k hlt hk⟩)
      exact ⟨view, view', rfl, rfl, hlibrary, hclass⟩

end DartKernel
