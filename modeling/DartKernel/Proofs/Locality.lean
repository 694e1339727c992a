import DartKernel.Proofs.ComponentLayout
import DartKernel.Proofs.Nesting
import DartKernel.Proofs.NodeRoundTrip

namespace DartKernel

theorem Window.position_advance {w : Window} {bytes : List UInt8} (h : bytes <+: w.rest) :
    (w.advance bytes.length).position = w.position + bytes.length := by
  have hle := h.length_le
  rw [w.length_rest] at hle
  exact position_advance_of_le hle

/-- Only the first of some bytes are left in the window, not all of them. -/
def Window.FallsShort (w : Window) (bytes : List UInt8) : Prop := w.rest <+: bytes ∧ w.rest ≠ bytes

/-- What is left ends in the first bytes or behind them. -/
theorem Window.FallsShort.of_append {w : Window} {used left : List UInt8}
    (h : w.FallsShort (used ++ left)) : w.FallsShort used ∨
      ∃ rest, w.rest = used ++ rest ∧ (w.advance used.length).FallsShort left := by
  obtain ⟨hbegin, hne⟩ := h
  rcases List.prefix_or_prefix_of_prefix hbegin (List.prefix_append used left) with hu | hu
  · by_cases he : w.rest = used
    · refine Or.inr ⟨[], by rw [he, List.append_nil], ?_⟩
      rw [FallsShort, Window.rest_advance, he, List.drop_length]
      refine ⟨List.nil_prefix, ?_⟩
      rintro rfl
      exact hne (by rw [he, List.append_nil])
    · exact Or.inl ⟨hu, he⟩
  · obtain ⟨rest, hrest⟩ := hu
    refine Or.inr ⟨rest, hrest.symm, ?_⟩
    rw [← hrest] at hbegin hne
    rw [FallsShort, Window.rest_advance, ← hrest, List.drop_left]
    refine ⟨(List.prefix_append_right_inj used).mp hbegin, ?_⟩
    rintro rfl
    exact hne rfl

def Reading.Framed (p : Reading α) : Prop :=
  ∀ s a r, p s a r → ∃ bytes, s = bytes ++ r ∧ ∀ r', p (bytes ++ r') a r'

theorem Reading.Framed.many {p : Reading α} (hp : p.Framed) : p.many.Framed := by
  intro s xs r h
  induction xs generalizing s with
  | nil =>
    obtain rfl : r = s := h
    exact ⟨[], rfl, fun _ => rfl⟩
  | cons x xs ih =>
    obtain ⟨m, hx, hxs⟩ := h
    obtain ⟨bytes, rfl, hbytes⟩ := hp _ _ _ hx
    obtain ⟨bytes', rfl, hbytes'⟩ := ih _ hxs
    refine ⟨bytes ++ bytes', (List.append_assoc ..).symm, ?_⟩
    intro r'
    rw [List.append_assoc]
    exact ⟨bytes' ++ r', hbytes _, hbytes' r'⟩

theorem Token.reading_framed (spelling : Spelling) : (Token.reading spelling).Framed := by
  intro s token r h
  cases token with
  | node => exact ⟨[], Eq.symm h, fun _ => rfl⟩
  | name strings it => exact ⟨[], h.2.symm, fun _ => ⟨h.1, rfl⟩⟩
  | byte b => exact ⟨[b], h, fun _ => rfl⟩
  | flag means value sound =>
    obtain ⟨b, hb, hs⟩ := h
    exact ⟨[b], hs, fun _ => ⟨b, hb, rfl⟩⟩
  | uint n =>
    obtain ⟨bytes, hn, hs⟩ := h
    exact ⟨bytes, hs, fun _ => ⟨bytes, hn, rfl⟩⟩
  | bytes content => exact ⟨content, h, fun _ => rfl⟩
  | require condition => exact ⟨[], h.2.symm, fun _ => ⟨h.1, rfl⟩⟩

namespace Scan

/-- The scan gives its answer wherever the bytes stand that it moves past. -/
def Framed (scan : Scan α) : Prop :=
  ∀ w w' a, scan w = .ok a w' → ∃ bytes, w.rest = bytes ++ w'.rest ∧
    w' = w.advance bytes.length ∧
    ∀ u rest, u.rest = bytes ++ rest → scan u = .ok a (u.advance bytes.length)

theorem Reads.framed {scan : Scan α} {p : Reading α} (h : scan.Reads p) (hp : p.Framed) :
    scan.Framed := by
  intro w w' a hw
  obtain ⟨n, hn, rfl, hreads⟩ := h.sound hw
  obtain ⟨bytes, hrest, hbytes⟩ := hp _ _ _ hreads
  obtain rfl := Window.eq_length_of_drop hn rfl hrest
  rw [Window.rest_advance]
  refine ⟨bytes, hrest, rfl, ?_⟩
  intro u rest hu
  obtain ⟨k, hk, hdrop, hscan⟩ := h.complete (w := u) (hu ▸ hbytes rest)
  obtain rfl := Window.eq_length_of_drop hk hdrop hu
  exact hscan

/-- The scan is refused because the window has too few bytes. -/
def RunsOut (scan : Scan α) (w : Window) : Prop :=
  ∃ position wanted w', scan w = .error (w.outOfBounds position wanted) w'

theorem RunsOut.bind {x : Scan α} {w : Window} (h : x.RunsOut w) (f : α → Scan β) :
    (x >>= f).RunsOut w := by
  obtain ⟨position, wanted, w', h⟩ := h
  exact ⟨position, wanted, w', by rw [bind_eq, h]⟩

/-- A refusal after a first step is one of the whole: both are about the same window. -/
theorem RunsOut.bind_of_ok {x : Scan α} {f : α → Scan β} {w : Window} {a : α} {n : Nat}
    (hx : x w = .ok a (w.advance n)) (h : (f a).RunsOut (w.advance n)) : (x >>= f).RunsOut w := by
  obtain ⟨position, wanted, w', h⟩ := h
  exact ⟨position, wanted, w', by rw [bind_eq, hx]; exact h⟩

/-- The scan succeeds from a window, and where only the first of the bytes are left that it moves
past, it runs out. -/
def CutsOff (scan : Scan α) (w : Window) : Prop :=
  ∀ w' u a bytes, scan w = .ok a w' → w.rest = bytes ++ w'.rest → u.FallsShort bytes →
    scan.RunsOut u

theorem byte_runsOut {w : Window} (h : w.rest = []) : byte.RunsOut w :=
  ⟨_, _, _, byte_eq_error (Window.remaining_eq_zero h)⟩

theorem byte_framed : byte.Framed := byte_reads.framed fun _ b _ h => ⟨[b], h, fun _ => rfl⟩

theorem byte_cutsOff (w : Window) : byte.CutsOff w := by
  intro w' u b bytes h hw hu
  obtain ⟨-, hb⟩ := byte_ok h
  obtain rfl : [b] = bytes := List.append_cancel_right (hb.symm.trans hw)
  rcases List.prefix_cons_iff.mp hu.1 with hrest | ⟨rest, hrest, hnil⟩
  · exact byte_runsOut hrest
  · rw [List.prefix_nil.mp hnil] at hrest
    exact absurd hrest hu.2

theorem bytes_framed (count : Nat) : (bytes count).Framed :=
  (bytes_reads count).framed fun _ content _ h => ⟨content, h.2, fun _ => ⟨h.1, rfl⟩⟩

theorem bytes_cutsOff (count : Nat) (w : Window) : (bytes count).CutsOff w := by
  intro w' u content bytes' h hw hu
  obtain ⟨n, -, rfl, rfl, hrest⟩ := (bytes_reads count).sound h
  rw [Window.rest_advance] at hw
  obtain rfl : content = bytes' := List.append_cancel_right (hrest.symm.trans hw)
  have hlt : u.rest.length < content.length :=
    Nat.lt_of_le_of_ne hu.1.length_le fun he => hu.2 (hu.1.eq_of_length he)
  rw [u.length_rest] at hlt
  exact ⟨_, _, _, by rw [bytes_eq, if_neg (Nat.not_le.mpr hlt)]⟩

/-- Reading on from a first byte that is there. -/
theorem byte_bind_runsOut {w : Window} {b : UInt8} {rest : List UInt8} {f : UInt8 → Scan β}
    (hw : w.rest = b :: rest) (h : (f b).RunsOut (w.advance 1)) : (byte >>= f).RunsOut w :=
  RunsOut.bind_of_ok (byte_eq_ok hw) h

/-- The first byte of an integer tells how many there are; fewer are not enough. -/
theorem uint_runsOut_of_first {w : Window} {b : UInt8} {front : List UInt8}
    (hrest : w.rest = b :: front)
    (hlt : front.length + 1 < (Uint.Tier.ofFirst b).width) : uint.RunsOut w := by
  have hleft : (w.advance 1).rest = front := by
    rw [Window.rest_advance, hrest, List.drop_one, List.tail_cons]
  apply byte_bind_runsOut hrest
  simp only [UInt8.lt_iff_toNat_lt, UInt8.reduceToNat]
  by_cases h1 : b.toNat < 0x80
  · rw [Uint.Tier.ofFirst_eq_one_iff.mpr h1] at hlt
    simp only [Uint.Tier.width] at hlt
    omega
  · by_cases h2 : b.toNat < 0xC0
    · rw [Uint.Tier.ofFirst_eq_two_iff.mpr ⟨Nat.le_of_not_lt h1, h2⟩] at hlt
      simp only [Uint.Tier.width] at hlt
      obtain rfl : front = [] := List.length_eq_zero_iff.mp (by omega)
      simp only [h1, h2, if_true, if_false]
      exact (byte_runsOut hleft).bind _
    · rw [Uint.Tier.ofFirst_eq_four_iff.mpr (Nat.le_of_not_lt h2)] at hlt
      simp only [Uint.Tier.width] at hlt
      simp only [h1, h2, if_false]
      rcases front with _ | ⟨c, _ | ⟨d, _ | ⟨e, front⟩⟩⟩
      · exact (byte_runsOut hleft).bind _
      · exact byte_bind_runsOut hleft ((byte_runsOut (by simp [Window.rest_advance, hleft])).bind _)
      · have hlast : ((w.advance 1).advance 1).rest = [d] := by
          rw [Window.rest_advance, hleft, List.drop_one, List.tail_cons]
        refine byte_bind_runsOut hleft (byte_bind_runsOut hlast ?_)
        exact (byte_runsOut (by simp [Window.rest_advance, hleft])).bind _
      · simp only [List.length_cons] at hlt
        omega

theorem uint_runsOut {w : Window} {n : Nat} {spelled : List UInt8} (hn : Uint.Spells n spelled)
    (h : w.FallsShort spelled) : uint.RunsOut w := by
  cases spelled with
  | nil => exact absurd rfl hn.ne_nil
  | cons first tail =>
    cases hrest : w.rest with
    | nil => exact (byte_runsOut hrest).bind _
    | cons b front =>
      obtain ⟨hbegin, hne⟩ := h
      rw [hrest] at hbegin hne
      obtain ⟨rfl, hfront⟩ := List.cons_prefix_cons.mp hbegin
      have hlt : front.length < tail.length :=
        Nat.lt_of_le_of_ne hfront.length_le fun he => hne (by rw [hfront.eq_of_length he])
      have hwidth := (Uint.spells_cons_iff.mp hn).1
      exact uint_runsOut_of_first hrest (by omega)

theorem uint_framed : uint.Framed := by
  apply uint_reads.framed
  intro s n r h
  obtain ⟨bytes, hn, hs⟩ := h
  exact ⟨bytes, hs, fun _ => ⟨bytes, hn, rfl⟩⟩

theorem uint_cutsOff (w : Window) : uint.CutsOff w := by
  intro w' u n bytes h hw hu
  obtain ⟨k, -, rfl, spelled, hn, hrest⟩ := uint_reads.sound h
  rw [Window.rest_advance] at hw
  obtain rfl : spelled = bytes := List.append_cancel_right (hrest.symm.trans hw)
  exact uint_runsOut hn hu

theorem map_framed {x : Scan α} (f : α → β) (h : x.Framed) :
    (x >>= fun a => pure (f a)).Framed := by
  intro w w' b hw
  obtain ⟨a, m, hx, hb⟩ := bind_ok hw
  cases hb
  obtain ⟨bytes, hrest, hadvance, hanswer⟩ := h _ _ _ hx
  refine ⟨bytes, hrest, hadvance, ?_⟩
  intro u rest hu
  rw [bind_eq, hanswer u rest hu]
  rfl

theorem map_cutsOff {x : Scan α} {w : Window} (f : α → β) (h : x.CutsOff w) :
    (x >>= fun a => pure (f a)).CutsOff w := by
  intro w' u b bytes hw hrest hu
  obtain ⟨a, m, hx, hb⟩ := bind_ok hw
  cases hb
  exact (h _ _ _ _ hx hrest hu).bind _

/-- A first step of a run, seen in a window where the bytes of the run are cut short: the step runs
out itself, or it succeeds in the same way and leaves the rest of the run too few bytes. -/
theorem Framed.cut {x : Scan α} (hf : x.Framed) {w m u : Window} {a : α}
    {bytes left r : List UInt8} (hc : x.CutsOff w) (hx : x w = .ok a m) (hw : w.rest = bytes ++ r)
    (hm : m.rest = left ++ r) (hu : u.FallsShort bytes) :
    x.RunsOut u ∨ ∃ n, x u = .ok a (u.advance n) ∧ (u.advance n).FallsShort left := by
  obtain ⟨used, hused, -, hanswer⟩ := hf _ _ _ hx
  have hbytes : bytes = used ++ left := by
    apply (List.append_left_inj r).mp
    rw [← hw, hused, hm, List.append_assoc]
  rcases (hbytes ▸ hu).of_append with hshort | ⟨rest, hrest, hleft⟩
  · exact Or.inl (hc _ _ _ _ hx hused hshort)
  · exact Or.inr ⟨_, hanswer u rest hrest, hleft⟩

end Scan

namespace Decoder

variable {σ : Type} {Tree : σ → Type} {α : Type} {g : Grammar Tree}

/-- A decoder that follows a layout gives its answer wherever the bytes of the answer stand. -/
theorem run_framed {layout : α → Layout Tree} {written : (sort : σ) → Tree sort → List Token}
    (hwritten : Written g written) (decoder : Decoder Tree α) [Laid g decoder layout] :
    (run g decoder).Framed := by
  intro w w' a h
  obtain ⟨n, hn, rfl, htokens⟩ := tokens_of_run hwritten h
  obtain ⟨bytes, hrest, hbytes⟩ := (Token.reading_framed .any).many _ _ _ htokens
  obtain rfl := Window.eq_length_of_drop hn rfl hrest
  rw [Window.rest_advance]
  refine ⟨bytes, hrest, rfl, ?_⟩
  intro u rest hu
  have hreads : decoder.Reads .any (TreeReads .any g u.remaining) u.rest a rest :=
    (reads_iff_tokens hwritten (Nat.le_of_eq u.length_rest)).mpr (hu ▸ hbytes rest)
  obtain ⟨k, hk, hdrop, hrun⟩ := run_complete hreads
  obtain rfl := Window.eq_length_of_drop hk hdrop hu
  exact hrun

/-- A look ahead shows the same byte as long as there is one, and a run goes on behind it. -/
theorem peek_cut {w m u : Window} {b : UInt8} {bytes left r : List UInt8}
    (hx : Scan.peek w = .ok b m) (hw : w.rest = bytes ++ r) (hm : m.rest = left ++ r)
    (hu : u.FallsShort bytes) :
    Scan.peek.RunsOut u ∨
      ∃ n, Scan.peek u = .ok b (u.advance n) ∧ (u.advance n).FallsShort left := by
  obtain ⟨n, -, rfl, hrest, hb⟩ := Scan.peek_reads.sound hx
  rw [Window.rest_advance, hrest, hw] at hm
  obtain rfl := List.append_cancel_right hm
  cases hfront : u.rest with
  | nil => exact Or.inl ⟨_, _, _, Scan.peek_eq_error (Window.remaining_eq_zero hfront)⟩
  | cons c front =>
    obtain ⟨tail, htail⟩ := hu.1
    rw [hw, ← htail, hfront, List.cons_append, List.cons_append, List.head?_cons,
      Option.some.injEq] at hb
    refine Or.inr ⟨0, ?_, ?_⟩
    · rw [Window.advance_zero, ← hb]
      exact Scan.peek_eq_ok hfront
    · rw [Window.advance_zero]
      exact hu

/-- A request of a run, seen in a window where the bytes of the run are cut short. -/
theorem reply_cut (hframed : ∀ sort, (run g (tree sort)).Framed) {query : Query σ}
    {w m u : Window} {x : query.Answer Tree} {bytes left r : List UInt8}
    (hcut : ∀ sort, (run g (tree sort)).CutsOff w) (hx : reply g query w = .ok x m)
    (hw : w.rest = bytes ++ r) (hm : m.rest = left ++ r) (hu : u.FallsShort bytes) :
    (reply g query).RunsOut u ∨
      ∃ n, reply g query u = .ok x (u.advance n) ∧ (u.advance n).FallsShort left := by
  cases query with
  | byte => exact Scan.byte_framed.cut (Scan.byte_cutsOff w) hx hw hm hu
  | peek => exact peek_cut hx hw hm hu
  | uint => exact Scan.uint_framed.cut (Scan.uint_cutsOff w) hx hw hm hu
  | flag means =>
    exact (Scan.map_framed means Scan.byte_framed).cut
      (Scan.map_cutsOff means (Scan.byte_cutsOff w)) hx hw hm hu
  | bytes count =>
    exact (Scan.bytes_framed count).cut (Scan.bytes_cutsOff count w) hx hw hm hu
  | tree sort => exact (hframed sort).cut (hcut sort) hx hw hm hu

/-- A run moves the cursor on, so it leaves the end of what was there. -/
theorem run_advance {decoder : Decoder Tree α} {w w' : Window} {a : α}
    (h : run g decoder w = .ok a w') : ∃ used, w.rest = used ++ w'.rest := by
  obtain ⟨n, -, rfl, -⟩ := run_ok h
  exact ⟨w.rest.take n, by rw [Window.rest_advance, List.take_append_drop]⟩

theorem remaining_reply_le {query : Query σ} {w m : Window} {x : query.Answer Tree}
    (h : reply g query w = .ok x m) : m.remaining ≤ w.remaining := by
  obtain ⟨n, -, rfl⟩ := reply_ok h
  rw [Window.remaining_advance]
  exact Nat.sub_le ..

/-- A run that is cut short runs out, when its trees do. -/
theorem run_cutsOff_of_trees (hframed : ∀ sort, (run g (tree sort)).Framed) {limit : Nat}
    (hcut : ∀ sort w, w.remaining ≤ limit → (run g (tree sort)).CutsOff w)
    (decoder : Decoder Tree α) {w : Window} (hlimit : w.remaining ≤ limit) :
    (run g decoder).CutsOff w := by
  intro w' u a bytes h hw hu
  induction decoder generalizing w u bytes with
  | done b =>
    -- Nothing is used up here, so nothing can be missing.
    cases h
    obtain rfl : [] = bytes := List.append_cancel_right hw
    exact absurd (List.prefix_nil.mp hu.1) hu.2
  | fail fault => cases h
  | ask query next ih =>
    rw [run_ask] at h ⊢
    obtain ⟨x, m, hx, hnext⟩ := Scan.bind_ok h
    obtain ⟨left, hm⟩ := run_advance hnext
    rcases reply_cut hframed (fun sort => hcut sort w hlimit) hx hw hm hu with
      hout | ⟨n, hu', hleft⟩
    · exact hout.bind _
    · have hremaining := Nat.le_trans (remaining_reply_le hx) hlimit
      exact Scan.RunsOut.bind_of_ok hu' (ih x hremaining _ left hnext hm hleft)

/-- A tree that is cut short runs out. The induction is on the bytes at hand: below its tag byte a
tree has fewer of them. -/
theorem tree_cutsOff (hframed : ∀ sort, (run g (tree sort)).Framed) (limit : Nat) (sort : σ)
    (w : Window) (hlimit : w.remaining ≤ limit) : (run g (tree sort)).CutsOff w := by
  induction limit generalizing sort w with
  | zero =>
    intro w' u t bytes h
    rw [run_tree, Scan.bind_eq, Scan.byte_eq_error (Nat.le_zero.mp hlimit)] at h
    cases h
  | succ limit ih =>
    intro w' u t bytes h hw hu
    rw [run_tree] at h ⊢
    obtain ⟨tag, m, htag, hfields⟩ := Scan.bind_ok h
    obtain ⟨left, hm⟩ := run_advance hfields
    rcases Scan.byte_framed.cut (Scan.byte_cutsOff w) htag hw hm hu with hout | ⟨n, hu', hleft⟩
    · exact hout.bind _
    · have hremaining : m.remaining ≤ limit := by
        obtain ⟨rfl, -⟩ := Scan.byte_ok htag
        rw [Window.remaining_advance]
        omega
      have hcut := run_cutsOff_of_trees hframed ih (g sort tag) hremaining
      exact Scan.RunsOut.bind_of_ok hu' (hcut _ _ _ left hfields hm hleft)

theorem run_cutsOff {written : (sort : σ) → Tree sort → List Token} (hwritten : Written g written)
    (decoder : Decoder Tree α) (w : Window) : (run g decoder).CutsOff w := by
  have hframed (sort : σ) : (run g (tree sort)).Framed := run_framed hwritten (tree sort)
  exact run_cutsOff_of_trees hframed (fun sort w => tree_cutsOff hframed _ sort w)
    decoder (Nat.le_refl _)

end Decoder

/-- What is read from its first byte on, without a look at the end of the window: nodes and
tables. -/
inductive Passage where
  | node (fragment : Fragment)
  | header | strings | names | sources
  deriving DecidableEq, Repr

namespace Passage
open Decoder

@[reducible]
def Value : Passage → Type
  | .node fragment => fragment.Value
  | .header => Header
  | .strings => StringTable
  | .names => CanonicalNames
  | .sources => SourceTable

def scan (session : Session) : (passage : Passage) → Scan passage.Value
  | .node fragment => fragment.scan session
  | .header => Header.decoder.run
  | .strings => StringTable.decoder.run
  | .names => CanonicalNames.decoder.run
  | .sources => SourceTable.decoder.run

theorem scan_framed (session : Session) (passage : Passage) : (passage.scan session).Framed := by
  cases passage with
  | node fragment =>
    exact run_framed (NodeLayout.written session) (fragment.decoder session.conventions)
  | header => exact run_framed (TableLayout.written _) Header.decoder
  | strings => exact run_framed (TableLayout.written _) StringTable.decoder
  | names => exact run_framed (TableLayout.written _) CanonicalNames.decoder
  | sources => exact run_framed (TableLayout.written _) SourceTable.decoder

theorem scan_cutsOff (session : Session) (passage : Passage) (w : Window) :
    (passage.scan session).CutsOff w := by
  cases passage with
  | node fragment => exact run_cutsOff (NodeLayout.written session) _ w
  | _ => exact run_cutsOff (TableLayout.written _) _ w

/-- What a reader answers depends on the bytes that it moves past and on nothing else of its
window. Where these bytes stand it gives the same answer, whatever stands around them; where they
are cut short it asks for bytes that are not there. -/
theorem scan_local {session : Session} {passage : Passage} {w w' : Window} {v : passage.Value}
    (h : passage.scan session w = .ok v w') :
    ∃ bytes, w.rest = bytes ++ w'.rest ∧ w' = w.advance bytes.length ∧
      w'.position = w.position + bytes.length ∧
      (∀ u : Window, bytes <+: u.rest → ∃ u', passage.scan session u = .ok v u' ∧
        u' = u.advance bytes.length ∧ u'.position = u.position + bytes.length) ∧
      ∀ u : Window, u.rest <+: bytes → u.rest ≠ bytes → ∃ position wanted u',
        passage.scan session u = .error (u.outOfBounds position wanted) u' := by
  obtain ⟨bytes, hrest, hadvance, hframed⟩ := scan_framed session passage _ _ _ h
  refine ⟨bytes, hrest, hadvance, ?_, ?_, ?_⟩
  · rw [hadvance, Window.position_advance (hrest ▸ List.prefix_append ..)]
  · intro u hu
    obtain ⟨rest, hrest'⟩ := id hu
    exact ⟨_, hframed u rest hrest'.symm, rfl, Window.position_advance hu⟩
  · intro u hbegin hne
    exact scan_cutsOff session passage w _ _ _ _ h hrest ⟨hbegin, hne⟩

/-- An integer literal, and the same literal without its last byte. -/
theorem scan_local_intLiteral :
    (Passage.node .expression).scan ⟨.ofList [], .ofList [], {}, .baseline⟩
        (Window.ofBytes ⟨#[55, 0x80, 5, 9]⟩) =
      .ok (.positiveIntLiteral 5) ((Window.ofBytes ⟨#[55, 0x80, 5, 9]⟩).advance 3) ∧
    ∃ position wanted u', (Passage.node .expression).scan ⟨.ofList [], .ofList [], {}, .baseline⟩
        (Window.ofBytes ⟨#[55, 0x80]⟩) =
      .error ((Window.ofBytes ⟨#[55, 0x80]⟩).outOfBounds position wanted) u' := by
  have h : (Passage.node .expression).scan ⟨.ofList [], .ofList [], {}, .baseline⟩
      (Window.ofBytes ⟨#[55, 0x80, 5, 9]⟩) =
    .ok (.positiveIntLiteral 5) ((Window.ofBytes ⟨#[55, 0x80, 5, 9]⟩).advance 3) := rfl
  obtain ⟨bytes, hrest, -, -, -, hshort⟩ := scan_local h
  have hbytes : bytes = [55, 0x80, 5] := ((List.append_left_inj [9]).mp hrest).symm
  refine ⟨h, hshort _ ?_ ?_⟩
  · rw [hbytes]
    exact ⟨[5], rfl⟩
  · rw [hbytes]
    exact fun he => absurd (congrArg List.length he) (by decide)

end Passage
end DartKernel
