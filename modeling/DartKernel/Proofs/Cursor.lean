import DartKernel.Decoder

namespace DartKernel

namespace Window

theorem length_bytes (w : Window) : w.bytes.length = w.length := by
  have hi := w.inside
  simp only [bytes, Array.length_toList, ByteArray.size_data, ByteArray.size_extract]
  omega

theorem length_rest (w : Window) : w.rest.length = w.remaining := by
  simp [rest, remaining, length_bytes]

def advance (w : Window) (count : Nat) : Window :=
  { w with position := min (w.position + count) w.length, cursor := Nat.min_le_right .. }

@[simp] theorem advance_zero (w : Window) : w.advance 0 = w := by
  have hc := w.cursor
  simp [advance, Nat.min_eq_left hc]

theorem advance_advance (w : Window) (a b : Nat) :
    (w.advance a).advance b = w.advance (a + b) := by
  simp only [advance, Window.mk.injEq, true_and]
  omega

theorem remaining_advance (w : Window) (n : Nat) : (w.advance n).remaining = w.remaining - n := by
  simp only [remaining, advance]
  omega

theorem position_advance_of_le {w : Window} {n : Nat} (h : n ≤ w.remaining) :
    (w.advance n).position = w.position + n := by
  have hc := w.cursor
  simp only [remaining, advance] at *
  omega

/-- The byte at the cursor is the first one that is left. -/
theorem getElem?_bytes_position (w : Window) : w.bytes[w.position]? = w.rest.head? := by
  rw [rest, List.head?_drop]

theorem rest_advance (w : Window) (n : Nat) : (w.advance n).rest = w.rest.drop n := by
  have hb := w.length_bytes
  have hc := w.cursor
  simp only [rest, List.drop_drop]
  change w.bytes.drop (min (w.position + n) w.length) = _
  by_cases h : w.position + n ≤ w.length
  · rw [Nat.min_eq_left h]
  · rw [Nat.min_eq_right (by omega), List.drop_eq_nil_of_le (by omega),
      List.drop_eq_nil_of_le (by omega)]

/-- A slice of the buffer that lies in the window, seen through the window. -/
theorem extract_eq_take_drop (w : Window) (start count : Nat) (h : start + count ≤ w.length) :
    (w.data.extract (w.base + start) (w.base + start + count)).data.toList =
      (w.bytes.drop start).take count := by
  simp only [bytes, ByteArray.data_extract, Array.toList_extract, List.extract_eq_take_drop,
    List.drop_take, List.drop_drop, List.take_take]
  congr 1
  omega

/-- What is left, cut at `count`, is a slice of the buffer. -/
theorem extract_rest (w : Window) (count : Nat) (h : count ≤ w.remaining) :
    (w.data.extract (w.base + w.position) (w.base + w.position + count)).data.toList =
      w.rest.take count := by
  have hc := w.cursor
  simp only [remaining] at h
  rw [extract_eq_take_drop w _ _ (by omega), rest]

end Window

/-- What a reader does to bytes: it answers `a` to the first ones and leaves `rest`. -/
abbrev Reading (α : Type) := (input : List UInt8) → (a : α) → (rest : List UInt8) → Prop

/-- A scan succeeds exactly where a reading of the bytes ahead exists, and moves past what the
reading uses up. -/
structure Scan.Reads (scan : Scan α) (reading : Reading α) : Prop where
  sound {w w' : Window} {a : α} : scan w = .ok a w' →
    ∃ n ≤ w.remaining, w' = w.advance n ∧ reading w.rest a (w.rest.drop n)
  complete {w : Window} {a : α} {rest : List UInt8} : reading w.rest a rest →
    ∃ n ≤ w.remaining, rest = w.rest.drop n ∧ scan w = .ok a (w.advance n)

namespace Scan

theorem Reads.congr {scan : Scan α} {p q : Reading α} (h : scan.Reads p)
    (hpq : ∀ s a r, p s a r ↔ q s a r) : scan.Reads q := by
  obtain rfl : p = q := by
    funext s a r
    exact propext (hpq s a r)
  exact h

theorem pure_reads (a : α) : Reads (pure a) fun s b r => b = a ∧ r = s where
  sound {w w' b} h := by
    cases h
    exact ⟨0, Nat.zero_le _, by simp, rfl, by simp⟩
  complete {w b rest} h := by
    obtain ⟨rfl, rfl⟩ := h
    exact ⟨0, Nat.zero_le _, by simp, by simp; rfl⟩

theorem throw_reads (fault : Fault) : Reads (throw fault : Scan α) fun _ _ _ => False where
  sound h := by cases h
  complete h := h.elim

theorem bind_eq (x : Scan α) (f : α → Scan β) (w : Window) :
    (x >>= f) w = match x w with
      | .ok a w' => f a w'
      | .error fault w' => .error fault w' := by
  change EStateM.bind x f w = _
  unfold EStateM.bind
  cases x w <;> rfl

theorem bind_ok {x : Scan α} {f : α → Scan β} {w w' : Window} {b : β}
    (h : (x >>= f) w = .ok b w') : ∃ a m, x w = .ok a m ∧ f a m = .ok b w' := by
  rw [bind_eq] at h
  cases hx : x w with
  | ok a m => exact ⟨a, m, rfl, by simpa [hx] using h⟩
  | error fault m => simp [hx] at h

theorem bind_reads {x : Scan α} {f : α → Scan β} {p : Reading α} {q : α → Reading β}
    (hx : x.Reads p) (hf : ∀ a, (f a).Reads (q a)) :
    Reads (x >>= f) fun s b r => ∃ a m, p s a m ∧ q a m b r where
  sound {w w' b} h := by
    obtain ⟨a, m, ha, hb⟩ := bind_ok h
    obtain ⟨n, hn, rfl, hp⟩ := hx.sound ha
    obtain ⟨k, hk, rfl, hq⟩ := (hf a).sound hb
    rw [Window.remaining_advance] at hk
    rw [Window.rest_advance, List.drop_drop] at hq
    exact ⟨n + k, by omega, w.advance_advance n k, a, _, hp, hq⟩
  complete {w b rest} h := by
    obtain ⟨a, m, hp, hq⟩ := h
    obtain ⟨n, hn, rfl, ha⟩ := hx.complete hp
    rw [← Window.rest_advance] at hq
    obtain ⟨k, hk, rfl, hb⟩ := (hf a).complete hq
    rw [Window.remaining_advance] at hk
    refine ⟨n + k, by omega, ?_, ?_⟩
    · rw [Window.rest_advance, List.drop_drop]
    · rw [bind_eq, ha, ← Window.advance_advance]
      exact hb

theorem map_reads {x : Scan α} {p : Reading α} (f : α → β) (hx : x.Reads p) :
    Reads (x >>= fun a => pure (f a)) fun s b r => ∃ a, p s a r ∧ b = f a := by
  apply (bind_reads hx fun a => pure_reads (f a)).congr
  intro s b r
  constructor
  · intro h
    rcases h with ⟨a, m, hp, hb, hr⟩
    exact ⟨a, hr ▸ hp, hb⟩
  · intro h
    rcases h with ⟨a, hp, hb⟩
    exact ⟨a, r, hp, hb, rfl⟩

theorem peek_reads : Reads peek fun s b r => r = s ∧ s.head? = some b := by
  have hhead (w : Window) (h : w.position < w.length) (hlt : w.base + w.position < w.data.size) :
      w.rest.head? = some w.data[w.base + w.position] := by
    have hb := w.length_bytes
    rw [Window.rest, List.head?_drop, List.getElem?_eq_getElem (by omega)]
    simp [Window.bytes, ByteArray.data_extract]
    rfl
  constructor
  · intro w w' b h
    unfold peek at h
    split at h
    · rename_i hp
      cases h
      exact ⟨0, Nat.zero_le _, by simp, by simp, hhead w hp _⟩
    · cases h
  · intro w b rest h
    obtain ⟨rfl, hb⟩ := h
    have hp : w.position < w.length := by
      have hl := w.length_rest
      have hne : w.rest ≠ [] := by
        intro he
        simp [he] at hb
      have := List.length_pos_iff.mpr hne
      simp only [Window.remaining] at hl
      omega
    have hlt : w.base + w.position < w.data.size := by
      have := w.inside
      omega
    refine ⟨0, Nat.zero_le _, by simp, ?_⟩
    rw [hhead w hp hlt, Option.some.injEq] at hb
    unfold peek
    simp [hp, hb]

theorem skip_reads (count : Nat) :
    Reads (skip count) fun s _ r => count ≤ s.length ∧ r = s.drop count := by
  have hadvance (w : Window) (h : w.position + count ≤ w.length) :
      ({ w with position := w.position + count, cursor := h } : Window) = w.advance count := by
    simp [Window.advance, Nat.min_eq_left h]
  constructor
  · intro w w' a h
    unfold skip at h
    split at h
    · rename_i hp
      cases h
      have hr : count ≤ w.remaining := by
        simp only [Window.remaining]
        omega
      exact ⟨count, hr, hadvance w hp, by rw [w.length_rest]; exact hr, rfl⟩
    · cases h
  · intro w a rest h
    obtain ⟨hc, rfl⟩ := h
    rw [w.length_rest] at hc
    have hp : w.position + count ≤ w.length := by
      have := w.cursor
      simp only [Window.remaining] at hc
      omega
    refine ⟨count, hc, rfl, ?_⟩
    unfold skip
    simp [hp, hadvance w hp]

theorem byte_reads : Reads byte fun s b r => s = b :: r := by
  apply (bind_reads peek_reads fun b => map_reads (fun _ => b) (skip_reads 1)).congr
  intro s b r
  constructor
  · intro h
    obtain ⟨a, m, ⟨rfl, ha⟩, _, ⟨-, rfl⟩, rfl⟩ := h
    cases m with
    | nil => simp at ha
    | cons c m => simpa using ha
  · rintro rfl
    exact ⟨b, b :: r, ⟨rfl, rfl⟩, (), ⟨by simp, rfl⟩, rfl⟩

theorem bytes_reads (count : Nat) :
    Reads (bytes count) fun s bs r => bs.length = count ∧ s = bs ++ r := by
  constructor
  · intro w w' bs h
    obtain ⟨_, m, hget, h⟩ := bind_ok h
    cases hget
    obtain ⟨_, m, hskip, h⟩ := bind_ok h
    cases h
    obtain ⟨n, hn, rfl, hc, hd⟩ := (skip_reads count).sound hskip
    rw [w.length_rest] at hc
    have hl := w.length_rest
    refine ⟨n, hn, rfl, ?_, ?_⟩
    · rw [w.extract_rest count hc, List.length_take]
      omega
    · rw [w.extract_rest count hc, hd, List.take_append_drop]
  · intro w bs rest h
    obtain ⟨rfl, hs⟩ := h
    have hl := w.length_rest
    have hc : bs.length ≤ w.remaining := by
      rw [← hl, hs, List.length_append]
      omega
    have hd : w.rest.drop bs.length = rest := by rw [hs, List.drop_left]
    obtain ⟨n, hn, hnd, hskip⟩ := (skip_reads bs.length).complete (w := w) (a := ())
      ⟨by omega, rfl⟩
    refine ⟨n, hn, hd.symm.trans hnd, ?_⟩
    unfold bytes
    rw [bind_eq]
    change (skip bs.length >>= _) w = _
    rw [bind_eq, hskip]
    change EStateM.Result.ok _ _ = _
    rw [w.extract_rest _ hc, hs, List.take_left]

end Scan
end DartKernel
