import DartKernel.Proofs.Carving

namespace DartKernel

/-- The window shows these bytes, the first of which lies at `start` in the file, and none of them
is read yet. -/
structure Window.Shows (w : Window) (start : Nat) (content : List UInt8) : Prop where
  base : w.base = start
  position : w.position = 0
  bytes : w.bytes = content

namespace Window

variable {w : Window} {start : Nat} {content pre part post : List UInt8}

theorem shows_ofBytes (content : List UInt8) : (ofBytes ⟨content.toArray⟩).Shows 0 content where
  base := rfl
  position := rfl
  bytes := by
    have hsize : (⟨content.toArray⟩ : ByteArray).size = content.length := rfl
    simp [bytes, ofBytes, hsize]

namespace Shows

theorem length (h : w.Shows start content) : w.length = content.length := by
  rw [← h.bytes, length_bytes]

theorem rest (h : w.Shows start content) : w.rest = content := by
  rw [Window.rest, h.position, h.bytes, List.drop_zero]

theorem slice (h : w.Shows start (pre ++ part ++ post)) :
    ∃ v, w.slice pre.length part.length = .ok v ∧ v.Shows (start + pre.length) part := by
  have hle : pre.length + part.length ≤ w.length := by
    rw [h.length, List.length_append, List.length_append]
    omega
  unfold Window.slice
  rw [dif_pos hle]
  refine ⟨_, rfl, by rw [← h.base], rfl, ?_⟩
  change (w.data.extract (w.base + pre.length) (w.base + pre.length + part.length)).data.toList = _
  rw [extract_eq_take_drop w _ _ hle, h.bytes, List.append_assoc, List.drop_left, List.take_left]

theorem sliceFrom (h : w.Shows start (pre ++ part)) :
    ∃ v, w.sliceFrom pre.length = .ok v ∧ v.Shows (start + pre.length) part := by
  have hlen := h.length
  rw [List.length_append] at hlen
  unfold Window.sliceFrom
  rw [if_pos (by omega), show w.length - pre.length = part.length by omega]
  have h : w.Shows start (pre ++ part ++ []) := by simpa using h
  exact h.slice

theorem sliceAbsolute (h : w.Shows start (pre ++ part ++ post)) {a b : UInt32}
    (ha : a.toNat = start + pre.length) (hb : b.toNat = start + pre.length + part.length) :
    ∃ v, w.sliceAbsolute a b = .ok v ∧ v.Shows (start + pre.length) part := by
  have hab : ¬ b < a := by
    rw [UInt32.lt_iff_toNat_lt]
    omega
  have hbase := h.base
  unfold Window.sliceAbsolute
  rw [if_neg (by omega), if_neg hab, show a.toNat - w.base = pre.length by omega,
    show b.toNat - a.toNat = part.length by omega]
  exact h.slice

theorem relative (h : w.Shows start (pre ++ part)) {a : UInt32}
    (ha : a.toNat = start + pre.length) : w.relative a = .ok pre.length := by
  have hlen := h.length
  have hbase := h.base
  rw [List.length_append] at hlen
  unfold Window.relative
  rw [if_pos (by omega), show a.toNat - w.base = pre.length by omega]

theorem wordsAt? {ws : List UInt32} (h : w.Shows start (pre ++ wordsBytes ws ++ post)) :
    w.wordsAt? pre.length ws.length = some ws := by
  have hle : pre.length + 4 * ws.length ≤ w.length := by
    rw [h.length, List.length_append, List.length_append, length_wordsBytes]
    omega
  unfold Window.wordsAt?
  rw [if_pos hle, extract_eq_take_drop w _ _ hle, h.bytes, List.append_assoc, List.drop_left,
    ← length_wordsBytes, List.take_left, wordsOf_wordsBytes]

end Shows
end Window

section Place

variable (write : Nat → α → List UInt8)

/-- Each part with where it starts. What is written for a part may depend on that. -/
def place : (start : Nat) → List α → List (Nat × α)
  | _, [] => []
  | start, x :: xs => (start, x) :: place (start + (write start x).length) xs

def stretch (start : Nat) (xs : List α) : List UInt8 :=
  (place write start xs).flatMap fun part => write part.1 part.2

/-- Where each part starts, and where the last one ends. -/
def bounds : (start : Nat) → List α → List UInt32
  | start, [] => [start.toUInt32]
  | start, x :: xs => start.toUInt32 :: bounds (start + (write start x).length) xs

variable {write} {start : Nat} {xs : List α}

@[simp] theorem stretch_nil : stretch write start [] = [] := rfl

@[simp] theorem stretch_cons (x : α) : stretch write start (x :: xs) =
    write start x ++ stretch write (start + (write start x).length) xs := rfl

@[simp] theorem length_place : (place write start xs).length = xs.length := by
  induction xs generalizing start with
  | nil => rfl
  | cons x xs ih => rw [place, List.length_cons, ih, List.length_cons]

@[simp] theorem map_snd_place : (place write start xs).map Prod.snd = xs := by
  induction xs generalizing start with
  | nil => rfl
  | cons x xs ih => rw [place, List.map_cons, ih]

theorem snd_mem_of_mem_place {part : Nat × α} (h : part ∈ place write start xs) :
    part.2 ∈ xs := by
  have hmem := List.mem_map_of_mem (f := Prod.snd) h
  rwa [map_snd_place] at hmem

@[simp] theorem length_bounds : (bounds write start xs).length = xs.length + 1 := by
  induction xs generalizing start with
  | nil => rfl
  | cons x xs ih => rw [bounds, List.length_cons, ih, List.length_cons]

theorem bounds_first : (bounds write start xs)[0]? = some start.toUInt32 := by
  cases xs <;> rfl

theorem bounds_last (d : UInt32) :
    (bounds write start xs).getLastD d = (start + (stretch write start xs).length).toUInt32 := by
  induction xs generalizing start d with
  | nil => rfl
  | cons x xs ih =>
    rw [bounds, List.getLastD_cons, ih, stretch_cons, List.length_append, Nat.add_assoc]

/-- The bytes of a part lie between its offset and the next one. -/
theorem exists_stretch_eq {i : Nat} {part : Nat × α} (h : (place write start xs)[i]? = some part) :
    ∃ pre post, stretch write start xs = pre ++ write part.1 part.2 ++ post ∧
      part.1 = start + pre.length ∧ (bounds write start xs)[i]? = some part.1.toUInt32 ∧
      (bounds write start xs)[i + 1]? =
        some (part.1 + (write part.1 part.2).length).toUInt32 := by
  induction xs generalizing start i with
  | nil => simp [place] at h
  | cons x xs ih =>
    cases i with
    | zero =>
      obtain rfl : (start, x) = part := by simpa [place] using h
      exact ⟨[], _, rfl, rfl, rfl, bounds_first⟩
    | succ i =>
      obtain ⟨pre, post, hbytes, hstart, hfirst, hnext⟩ := ih (by simpa [place] using h)
      refine ⟨write start x ++ pre, post, ?_, ?_, hfirst, hnext⟩
      · rw [stretch_cons, hbytes]
        simp
      · rw [hstart, List.length_append, Nat.add_assoc]

/-- In a window, a part is cut out at its offset and the next one. -/
theorem Window.Shows.sliceAbsolute_place {w : Window} {base : Nat} {front back : List UInt8}
    (hw : w.Shows base (front ++ stretch write (base + front.length) xs ++ back))
    (hlt : base + w.length < UInt32.size) {i : Nat} {part : Nat × α}
    (hi : (place write (base + front.length) xs)[i]? = some part) :
    ∃ a b v, (bounds write (base + front.length) xs)[i]? = some a ∧
      (bounds write (base + front.length) xs)[i + 1]? = some b ∧
      w.sliceAbsolute a b = .ok v ∧ v.Shows part.1 (write part.1 part.2) ∧
      part.1 + v.length ≤ base + w.length := by
  obtain ⟨pre, post, hbytes, hstart, hfirst, hnext⟩ := exists_stretch_eq hi
  rw [hbytes] at hw
  have hsplit : w.Shows base ((front ++ pre) ++ write part.1 part.2 ++ (post ++ back)) := by
    simpa using hw
  have hlen := hsplit.length
  simp only [List.length_append] at hlen
  have hpre : base + (front ++ pre).length = part.1 := by
    rw [List.length_append]
    omega
  have ha : part.1.toUInt32.toNat = base + (front ++ pre).length := by
    rw [hpre]
    exact UInt32.toNat_ofNat_of_lt' (by omega)
  have hb : (part.1 + (write part.1 part.2).length).toUInt32.toNat =
      base + (front ++ pre).length + (write part.1 part.2).length := by
    rw [hpre]
    exact UInt32.toNat_ofNat_of_lt' (by omega)
  obtain ⟨v, hv, hshows⟩ := hsplit.sliceAbsolute ha hb
  have hle : part.1 + v.length ≤ base + w.length := by
    rw [hshows.length]
    omega
  exact ⟨_, _, v, hfirst, hnext, hv, hpre ▸ hshows, hle⟩

/-- Reading by number reads the parts in order, when each of them can be read. -/
theorem mapM_place {f : Nat → Except ε β} {value : Nat × α → β}
    (h : ∀ i part, (place write start xs)[i]? = some part → f i = .ok (value part)) :
    (List.range xs.length).mapM f = .ok ((place write start xs).map value) := by
  refine mapM_range_eq_ok.mpr ⟨by simp, ?_⟩
  intro i hi
  rw [List.getElem_map]
  exact h i _ (List.getElem?_eq_getElem (by simpa using hi))

end Place
end DartKernel
