import DartKernel.Proofs.Reading

namespace DartKernel

/-- Moving past bytes that are left is moving on by their number. -/
theorem Window.eq_length_of_drop {w : Window} {n : Nat} {bytes rest : List UInt8}
    (hn : n ≤ w.remaining) (hrest : rest = w.rest.drop n) (hw : w.rest = bytes ++ rest) :
    n = bytes.length := by
  have hl := congrArg List.length hrest
  have hlen := congrArg List.length hw
  rw [List.length_drop, w.length_rest] at hl
  rw [List.length_append, w.length_rest] at hlen
  omega

theorem Window.remaining_eq_zero {w : Window} (h : w.rest = []) : w.remaining = 0 := by
  rw [← w.length_rest, h, List.length_nil]

namespace Scan

theorem peek_eq_error {w : Window} (h : w.remaining = 0) :
    peek w = .error (w.outOfBounds w.position 1) w := by
  have hc := w.cursor
  have hp : ¬ w.position < w.length := by
    simp only [Window.remaining] at h
    omega
  simp [peek, hp]

theorem byte_eq_error {w : Window} (h : w.remaining = 0) :
    byte w = .error (w.outOfBounds w.position 1) w := by
  rw [byte, bind_eq, peek_eq_error h]

theorem peek_eq_ok {w : Window} {b : UInt8} {rest : List UInt8} (h : w.rest = b :: rest) :
    peek w = .ok b w := by
  obtain ⟨n, hn, hrest, hpeek⟩ := peek_reads.complete (w := w) ⟨rfl, by rw [h, List.head?_cons]⟩
  obtain rfl : n = 0 := Window.eq_length_of_drop hn hrest (List.nil_append _).symm
  rw [hpeek, Window.advance_zero]

theorem byte_eq_ok {w : Window} {b : UInt8} {rest : List UInt8} (h : w.rest = b :: rest) :
    byte w = .ok b (w.advance 1) := by
  obtain ⟨n, hn, hrest, hbyte⟩ := byte_reads.complete h
  obtain rfl : n = 1 := Window.eq_length_of_drop hn hrest (show w.rest = [b] ++ rest from h)
  exact hbyte

/-- A byte that is read is the next one. -/
theorem byte_ok {w w' : Window} {b : UInt8} (h : byte w = .ok b w') :
    w' = w.advance 1 ∧ w.rest = b :: w'.rest := by
  obtain ⟨n, -, -, hrest⟩ := byte_reads.sound h
  have hw := byte_eq_ok hrest
  rw [h] at hw
  cases hw
  refine ⟨rfl, ?_⟩
  rw [Window.rest_advance, hrest, List.drop_one, List.tail_cons]

theorem remaining_pos_of_byte {w w' : Window} {b : UInt8} (h : byte w = .ok b w') :
    0 < w.remaining := by
  rw [← w.length_rest, (byte_ok h).2]
  exact Nat.succ_pos _

/-- A byte that is looked at is the next one. -/
theorem peek_ok {w w' : Window} {b : UInt8} (h : peek w = .ok b w') :
    w' = w ∧ w.rest.head? = some b := by
  obtain ⟨n, -, -, -, hb⟩ := peek_reads.sound h
  cases hrest : w.rest with
  | nil =>
    rw [hrest] at hb
    cases hb
  | cons c rest =>
    rw [peek_eq_ok hrest] at h
    cases h
    exact ⟨rfl, rfl⟩

/-- Reading bytes is taking what is left, if that is enough. -/
theorem bytes_eq (count : Nat) (w : Window) : bytes count w =
    if count ≤ w.remaining then .ok (w.rest.take count) (w.advance count)
    else .error (w.outOfBounds w.position count) w := by
  have hlen := w.length_rest
  have hc := w.cursor
  by_cases h : count ≤ w.remaining
  · have htake : (w.rest.take count).length = count := by
      rw [List.length_take]
      omega
    have hsplit := (List.take_append_drop count w.rest).symm
    obtain ⟨n, hn, hdrop, hbytes⟩ := (bytes_reads count).complete ⟨htake, hsplit⟩
    obtain rfl : n = count := (Window.eq_length_of_drop hn hdrop hsplit).trans htake
    rw [if_pos h, hbytes]
  · have hskip : skip count w = .error (w.outOfBounds w.position count) w := by
      rw [skip, dif_neg]
      simp only [Window.remaining] at h
      omega
    rw [if_neg h, bytes, bind_eq]
    change (skip count >>= _) w = _
    rw [bind_eq, hskip]

theorem bytes_eq_ok {count : Nat} {w m : Window} {content : List UInt8} :
    bytes count w = .ok content m ↔
      count ≤ w.remaining ∧ content = w.rest.take count ∧ m = w.advance count := by
  rw [bytes_eq]
  by_cases h : count ≤ w.remaining <;> simp [h, eq_comm]

theorem manyOnto_eq (element : Scan α) (count : Nat) (done : List α) :
    manyOnto element count done = (do return done.reverse ++ (← many element count)) := by
  have hmany (done : List α) : manyOnto element count done =
      (do return done.reverse ++ (← manyOnto element count [])) := by
    induction count generalizing done with
    | zero => simp [manyOnto]
    | succ count ih =>
      simp only [manyOnto, bind_assoc]
      congr 1
      funext x
      rw [ih (x :: done), ih [x]]
      simp
  exact hmany done

/-- Elements are read one by one. -/
theorem many_succ (element : Scan α) (count : Nat) :
    many element (count + 1) = (do return (← element) :: (← many element count)) := by
  simp [many, manyOnto, manyOnto_eq element count [_]]

end Scan

namespace Decoder

variable {σ : Type} {Tree : σ → Type} {α β : Type} {g : Grammar Tree}

theorem runWith_congr {n d d' : Nat}
    (h : ∀ sort u, u.remaining ≤ n → subtree g d sort u = subtree g d' sort u)
    (decoder : Decoder Tree α) {w : Window} (hw : w.remaining ≤ n) :
    runWith (subtree g d) decoder w = runWith (subtree g d') decoder w := by
  induction decoder generalizing w with
  | done a => rfl
  | fail fault => rfl
  | ask query next ih =>
    have hquery : answer (subtree g d) query w = answer (subtree g d') query w := by
      cases query with
      | tree sort => exact h sort w hw
      | _ => rfl
    rw [runWith, runWith, Scan.bind_eq, Scan.bind_eq, ← hquery]
    cases hx : answer (subtree g d) query w with
    | error fault m => rfl
    | ok x m =>
      obtain ⟨k, -, rfl, -⟩ := (answer_reads (subtree_reads g d) query).sound hx
      apply ih x
      rw [Window.remaining_advance]
      omega

/-- Where no byte is left there is no tree, whatever the bound. -/
theorem subtree_eq_error {w : Window} (h : w.remaining = 0) (d : Nat) (sort : σ) :
    subtree g d sort w = .error (w.outOfBounds w.position 1) w := by
  cases d with
  | zero => rfl
  | succ d => rw [subtree, Scan.bind_eq, Scan.byte_eq_error h]

/-- Any two bounds that allow as much nesting as there are bytes give the same tree. -/
theorem subtree_congr {d d' : Nat} {sort : σ} {w : Window} (hd : w.remaining ≤ d)
    (hd' : w.remaining ≤ d') : subtree g d sort w = subtree g d' sort w := by
  induction d generalizing d' sort w with
  | zero =>
    have h0 : w.remaining = 0 := Nat.le_zero.mp hd
    rw [subtree_eq_error h0, subtree_eq_error h0]
  | succ d ih =>
    cases d' with
    | zero =>
      have h0 : w.remaining = 0 := Nat.le_zero.mp hd'
      rw [subtree_eq_error h0, subtree_eq_error h0]
    | succ d' =>
      rw [subtree, subtree, Scan.bind_eq, Scan.bind_eq]
      cases hb : Scan.byte w with
      | error fault m => rfl
      | ok tag m =>
        obtain ⟨rfl, -⟩ := Scan.byte_ok hb
        apply runWith_congr (n := min d d')
        · intro sort u hu
          exact ih (by omega) (by omega)
        · rw [Window.remaining_advance]
          omega

theorem runWith_eq_run {d : Nat} {w : Window} (hd : w.remaining ≤ d) (decoder : Decoder Tree α) :
    runWith (subtree g d) decoder w = run g decoder w := by
  apply runWith_congr (n := w.remaining)
  · intro sort u hu
    exact subtree_congr (by omega) hu
  · exact Nat.le_refl _

/-- What answers a request of a run, trees as runs of their own. -/
def reply (g : Grammar Tree) : (query : Query σ) → Scan (query.Answer Tree) :=
  answer fun sort => run g (tree sort)

theorem run_ask (query : Query σ) (next : query.Answer Tree → Decoder Tree α) :
    run g (ask query next) = (do run g (next (← reply g query))) := by
  have htree (sort : σ) (w : Window) : run g (tree sort) w = subtree g w.remaining sort w := by
    change (subtree g w.remaining sort >>= pure) w = _
    rw [bind_pure]
  funext w
  have hreply : reply g query w = answer (subtree g w.remaining) query w := by
    cases query with
    | tree sort => exact htree sort w
    | _ => rfl
  change (answer (subtree g w.remaining) query >>= _) w = (reply g query >>= _) w
  rw [Scan.bind_eq, Scan.bind_eq, hreply]
  cases hx : answer (subtree g w.remaining) query w with
  | error fault m => rfl
  | ok x m =>
    obtain ⟨k, -, rfl, -⟩ := (answer_reads (subtree_reads g _) query).sound hx
    apply runWith_eq_run
    rw [Window.remaining_advance]
    omega

theorem run_bind (x : Decoder Tree α) (f : α → Decoder Tree β) :
    run g (x >>= f) = (do run g (f (← run g x))) := by
  induction x with
  | done a => rfl
  | fail fault => rfl
  | ask query next ih =>
    change run g (ask query fun answer => next answer >>= f) = _
    simp only [run_ask, ih, bind_assoc]

theorem run_byte : run g (byte : Decoder Tree UInt8) = Scan.byte := by
  rw [byte, run_ask]
  exact bind_pure _

theorem run_peek : run g (peek : Decoder Tree UInt8) = Scan.peek := by
  rw [peek, run_ask]
  exact bind_pure _

theorem run_uint : run g (uint : Decoder Tree UInt32) = Scan.uint := by
  rw [uint, run_ask]
  exact bind_pure _

theorem run_bytes (count : Nat) :
    run g (bytes count : Decoder Tree (List UInt8)) = Scan.bytes count := by
  rw [bytes, run_ask]
  exact bind_pure _

theorem run_byteList : run g (byteList : Decoder Tree (List UInt8)) = Scan.byteList := by
  rw [byteList, run_bind, run_uint, Scan.byteList]
  congr 1
  funext n
  rw [run_bytes]

theorem run_ofExcept (x : Except Fault α) :
    run g (ofExcept x : Decoder Tree α) = Scan.ofExcept x := by
  cases x <;> rfl

theorem run_list (element : Decoder Tree α) :
    run g (list element) = Scan.list (run g element) := by
  have honto (count : Nat) (read : List α) :
      run g (manyOnto element count read) = Scan.manyOnto (run g element) count read := by
    induction count generalizing read with
    | zero => rfl
    | succ count ih => simp only [manyOnto, Scan.manyOnto, run_bind, ih]
  simp only [list, Scan.list, many, Scan.many, run_bind, run_uint, honto]

theorem run_word : run g (word : Decoder Tree UInt32) = Scan.word := by
  rw [word, run_bind, run_bytes, Scan.word]
  rfl

/-- Decoders and scans report a refused request alike as long as a word can count its bytes. -/
theorem run_words {count : Nat} (h : 4 * count < UInt64.size) :
    run g (words count : Decoder Tree (List UInt32)) = Scan.words count := by
  funext w
  have hlimit : min (4 * count) Scan.requestLimit = 4 * count :=
    Nat.min_eq_left (by rw [Scan.requestLimit]; omega)
  rw [words, run_bind, run_bytes, Scan.words]
  by_cases hfits : w.position + 4 * count ≤ w.length
  · rw [if_pos hfits]
    rfl
  · have hcursor := w.cursor
    have hrefused : ¬ 4 * count ≤ w.remaining := by
      rw [Window.remaining]
      omega
    rw [if_neg hfits, hlimit, Scan.bind_eq, Scan.bytes_eq, if_neg hrefused]

theorem run_text (place : TextPlace) : run g (text place : Decoder Tree String) =
    (do Scan.ofExcept (utf8 place (← Scan.byteList))) := by
  rw [text, run_bind, run_byteList]
  congr 1
  funext content
  cases utf8 place content <;> rfl

/-- A request that is answered is answered as it reads. -/
theorem reply_reads {query : Query σ} {x : query.Answer Tree} {w w' : Window}
    (h : reply g query w = .ok x w') : ∃ n ≤ w.remaining, w' = w.advance n ∧
      query.Reads .any (TreeReads .any g w.remaining) w.rest x (w.rest.drop n) := by
  have hrun : run g (ask query done : Decoder Tree (query.Answer Tree)) w = .ok x w' := by
    rw [run_ask, Scan.bind_eq, h]
    rfl
  obtain ⟨n, hn, hw', y, m, hy, rfl, rfl⟩ := run_ok hrun
  exact ⟨n, hn, hw', hy⟩

/-- An answered request moves the cursor on. -/
theorem reply_ok {query : Query σ} {x : query.Answer Tree} {w w' : Window}
    (h : reply g query w = .ok x w') : ∃ n ≤ w.remaining, w' = w.advance n := by
  obtain ⟨n, hn, hw', -⟩ := reply_reads h
  exact ⟨n, hn, hw'⟩

/-- A tree is its tag byte and a run of what the grammar has for the tag. -/
theorem run_tree (sort : σ) :
    run g (tree sort) = (do run g (g sort (← Scan.byte)) : Scan (Tree sort)) := by
  funext w
  change (subtree g w.remaining sort >>= pure) w = _
  rw [bind_pure, subtree_congr (Nat.le_refl _) (Nat.le_succ _), subtree, Scan.bind_eq, Scan.bind_eq]
  cases hb : Scan.byte w with
  | error fault m => rfl
  | ok tag m =>
    obtain ⟨rfl, -⟩ := Scan.byte_ok hb
    apply runWith_eq_run
    rw [Window.remaining_advance]
    omega

end Decoder
end DartKernel
