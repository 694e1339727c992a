import DartKernel.Proofs.Token

namespace DartKernel

variable {σ : Type} {Tree : σ → Type} {α β : Type}

def textBytes (t : String) : List UInt8 := t.toByteArray.data.toList

inductive Item {σ : Type} (Tree : σ → Type) where
  | token (token : Token)
  | tree (sort : σ) (value : Tree sort)

/-- What is written for a value, in order. -/
abbrev Layout {σ : Type} (Tree : σ → Type) := List (Item Tree)

namespace Item

def reading (spelling : Spelling) (trees : (sort : σ) → Reading (Tree sort)) : Reading (Item Tree)
  | s, .token it, r => Token.reading spelling s it r
  | s, .tree sort value, r => trees sort s value r

def tokens (trees : (sort : σ) → Tree sort → List Token) : Item Tree → List Token
  | .token it => [it]
  | .tree sort value => trees sort value

end Item

namespace Layout

def reading (spelling : Spelling) (trees : (sort : σ) → Reading (Tree sort)) :
    Reading (Layout Tree) :=
  Reading.many (Item.reading spelling trees)

def tokens (trees : (sort : σ) → Tree sort → List Token) (layout : Layout Tree) : List Token :=
  layout.flatMap (Item.tokens trees)

/-- The bytes of a layout, given the tokens of its trees. -/
def write (trees : (sort : σ) → Tree sort → List Token) (layout : Layout Tree) : List UInt8 :=
  Token.writeAll (layout.tokens trees)

def Fits (trees : (sort : σ) → Tree sort → List Token) (layout : Layout Tree) : Prop :=
  ∀ token ∈ layout.tokens trees, token.Fits

section Write

variable {trees : (sort : σ) → Tree sort → List Token}

@[simp] theorem write_nil : write trees [] = [] := rfl

@[simp] theorem write_append (l l' : Layout Tree) :
    write trees (l ++ l') = write trees l ++ write trees l' := by
  simp [write, tokens, Token.writeAll]

@[simp] theorem fits_nil : Fits trees [] := nofun

@[simp] theorem fits_append {l l' : Layout Tree} :
    Fits trees (l ++ l') ↔ Fits trees l ∧ Fits trees l' := by
  simp [Fits, tokens, or_imp, forall_and]

theorem fits_flatMap {element : α → Layout Tree} {xs : List α} :
    Fits trees (xs.flatMap element) ↔ ∀ x ∈ xs, Fits trees (element x) := by
  induction xs with
  | nil => simp
  | cons x xs ih => simp [ih]

end Write

/-- A node with its fields. -/
def node (fields : Layout Tree) : Layout Tree := .token .node :: fields

def tagged (tag : UInt8) (fields : Layout Tree) : Layout Tree := node (.token (.byte tag) :: fields)

def byte (b : UInt8) : Layout Tree := [.token (.byte b)]

def uint (n : Nat) : Layout Tree := [.token (.uint n)]

def bytes (content : List UInt8) : Layout Tree := [.token (.bytes content)]

def require (condition : Prop) : Layout Tree := [.token (.require condition)]

def boolean (value : Bool) : Layout Tree :=
  [.token (.flag (· ≠ 0) value (by decide))]

def lowBit (value : Bool) : Layout Tree :=
  [.token (.flag (· &&& 1 ≠ 0) value (by decide))]

def tree (sort : σ) (value : Tree sort) : Layout Tree := [.tree sort value]

def list (element : α → Layout Tree) (xs : List α) : Layout Tree :=
  uint xs.length ++ xs.flatMap element

theorem list_congr {element element' : α → Layout Tree} {xs : List α}
    (h : ∀ x ∈ xs, element x = element' x) : list element xs = list element' xs := by
  rw [list, list, List.flatMap_congr h]

def option (element : α → Layout Tree) : Option α → Layout Tree
  | none => byte 0
  | some x => byte 1 ++ element x

def word (w : UInt32) : Layout Tree := bytes (wordBytes w)

def words (ws : List UInt32) : Layout Tree := bytes (wordsBytes ws)

def byteList (content : List UInt8) : Layout Tree := uint content.length ++ bytes content

def text (t : String) : Layout Tree := byteList (textBytes t)

@[simp] theorem tagged_append (tag : UInt8) (l l' : Layout Tree) :
    tagged tag l ++ l' = tagged tag (l ++ l') := rfl

section Written

variable {trees : (sort : σ) → Tree sort → List Token}

theorem write_token (token : Token) : write trees [.token token] = token.write := by
  simp [write, tokens, Item.tokens, Token.writeAll]

@[simp] theorem write_bytes (content : List UInt8) : write trees (bytes content) = content :=
  write_token _

@[simp] theorem write_require (condition : Prop) : write trees (require condition) = [] :=
  write_token _

theorem fits_token {token : Token} : Fits trees [.token token] ↔ token.Fits := by
  simp [Fits, tokens, Item.tokens]

theorem fits_token_cons {token : Token} {l : Layout Tree} :
    Fits trees (.token token :: l) ↔ token.Fits ∧ Fits trees l := by
  simp [Fits, tokens, Item.tokens]

@[simp] theorem fits_tagged {tag : UInt8} {l : Layout Tree} :
    Fits trees (tagged tag l) ↔ Fits trees l := by
  simp [tagged, node, fits_token_cons, Token.Fits]

@[simp] theorem fits_byte {b : UInt8} : Fits trees (byte b) := fits_token.mpr trivial

@[simp] theorem fits_uint {n : Nat} : Fits trees (uint n) ↔ n < Uint.limit := fits_token

@[simp] theorem fits_bytes {content : List UInt8} : Fits trees (bytes content) :=
  fits_token.mpr trivial

@[simp] theorem fits_require {condition : Prop} : Fits trees (require condition) ↔ condition :=
  fits_token

@[simp] theorem fits_list {element : α → Layout Tree} {xs : List α} :
    Fits trees (list element xs) ↔ xs.length < Uint.limit ∧ ∀ x ∈ xs, Fits trees (element x) := by
  rw [list, fits_append, fits_uint, fits_flatMap]

end Written

variable {spelling : Spelling} {trees : (sort : σ) → Reading (Tree sort)} {s r : List UInt8}

@[simp] theorem reading_append (l l' : Layout Tree) :
    reading spelling trees s (l ++ l') r ↔
      ∃ m, reading spelling trees s l m ∧ reading spelling trees m l' r :=
  Reading.many_append l l'

@[simp] theorem reading_nil : reading spelling trees s [] r ↔ r = s := Iff.rfl

theorem reading_token (token : Token) :
    reading spelling trees s [.token token] r ↔ Token.reading spelling s token r :=
  Reading.many_singleton (p := Item.reading spelling trees) _

@[simp] theorem reading_node (fields : Layout Tree) :
    reading spelling trees s (node fields) r ↔ reading spelling trees s fields r := by
  simp [node, reading, Item.reading, Token.reading]

@[simp] theorem reading_tagged (tag : UInt8) (fields : Layout Tree) :
    reading spelling trees s (tagged tag fields) r ↔
      ∃ m, s = tag :: m ∧ reading spelling trees m fields r := reading_node _

@[simp] theorem reading_byte (b : UInt8) : reading spelling trees s (byte b) r ↔ s = b :: r :=
  reading_token _

@[simp] theorem reading_require (condition : Prop) :
    reading spelling trees s (require condition) r ↔ condition ∧ r = s := reading_token _

theorem reading_uint (n : Nat) : reading spelling trees s (uint n) r ↔
    ∃ bytes, spelling.uint n bytes ∧ s = bytes ++ r := reading_token _

theorem reading_bytes (content : List UInt8) :
    reading spelling trees s (bytes content) r ↔ s = content ++ r := reading_token _

theorem reading_word (w : UInt32) :
    reading spelling trees s (word w) r ↔ s = wordBytes w ++ r := reading_bytes _

theorem reading_words (ws : List UInt32) :
    reading spelling trees s (words ws) r ↔ s = wordsBytes ws ++ r := reading_bytes _

theorem reading_tree (sort : σ) (value : Tree sort) :
    reading spelling trees s (tree sort value) r ↔ trees sort s value r :=
  Reading.many_singleton (p := Item.reading spelling trees) _

/-- A layout is read as its tokens are, when its trees are. -/
theorem reading_iff_tokens {written : (sort : σ) → Tree sort → List Token} {n : Nat}
    (h : ∀ sort t s r, s.length ≤ n →
      (trees sort s t r ↔ Reading.many (Token.reading spelling) s (written sort t) r))
    (layout : Layout Tree) (hs : s.length ≤ n) : reading spelling trees s layout r ↔
      Reading.many (Token.reading spelling) s (layout.tokens written) r := by
  rw [tokens, Reading.many_flatMap]
  refine Reading.many_congr (fun s x r hx => ?_) (fun item _ s r hs => ?_) hs
  · exact (Token.reading_shrinks spelling).many _ _ _ hx
  · cases item with
    | token it => exact (Reading.many_singleton (p := Token.reading spelling) it).symm
    | tree sort value => exact h sort value s r hs

end Layout

namespace Decoder

variable {spelling : Spelling} {trees : (sort : σ) → Reading (Tree sort)} {s r : List UInt8}

/-- The decoder answers something that, with the bytes left over, has a property. -/
def Gives (spelling : Spelling) (trees : (sort : σ) → Reading (Tree sort))
    (decoder : Decoder Tree α) (s : List UInt8) (p : α → List UInt8 → Prop) : Prop :=
  ∃ a m, decoder.Reads spelling trees s a m ∧ p a m

theorem reads_iff_gives {decoder : Decoder Tree α} {a : α} :
    decoder.Reads spelling trees s a r ↔
      decoder.Gives spelling trees s fun b m => a = b ∧ r = m := by
  constructor
  · intro h
    exact ⟨a, r, h, rfl, rfl⟩
  · intro h
    rcases h with ⟨b, m, h, ha, hm⟩
    rw [ha, hm]
    exact h

@[simp] theorem gives_pure (a : α) (p : α → List UInt8 → Prop) :
    (pure a : Decoder Tree α).Gives spelling trees s p ↔ p a s := by
  simp [Gives]

@[simp] theorem gives_map (f : α → β) (x : Decoder Tree α) (p : β → List UInt8 → Prop) :
    (f <$> x).Gives spelling trees s p ↔ x.Gives spelling trees s fun a => p (f a) := by
  simp only [Gives, reads_map]
  constructor
  · intro h
    obtain ⟨b, m, ⟨a, ha, hb⟩, hp⟩ := h
    exact ⟨a, m, ha, hb ▸ hp⟩
  · intro h
    rcases h with ⟨a, m, ha, hp⟩
    exact ⟨f a, m, ⟨a, ha, rfl⟩, hp⟩

@[simp] theorem gives_bind (x : Decoder Tree α) (f : α → Decoder Tree β)
    (p : β → List UInt8 → Prop) : (x >>= f).Gives spelling trees s p ↔
      x.Gives spelling trees s fun a m => (f a).Gives spelling trees m p := by
  simp only [Gives, reads_bind]
  constructor
  · intro h
    obtain ⟨b, r, ⟨a, m, ha, hb⟩, hp⟩ := h
    exact ⟨a, m, ha, b, r, hb, hp⟩
  · intro h
    rcases h with ⟨a, m, ha, b, r, hb, hp⟩
    exact ⟨b, r, ⟨a, m, ha, hb⟩, hp⟩

@[simp] theorem gives_seq (f : Decoder Tree (α → β)) (x : Decoder Tree α)
    (p : β → List UInt8 → Prop) : (f <*> x).Gives spelling trees s p ↔
      f.Gives spelling trees s fun g m => x.Gives spelling trees m fun a => p (g a) := by
  change (f >>= fun g => g <$> x).Gives spelling trees s p ↔ _
  simp only [gives_bind, gives_map]

theorem gives_expected [DecidableEq α] (x : Decoder Tree α) (expected : α) (fault : α → Fault)
    (p : Unit → List UInt8 → Prop) :
    (x >>= fun a => if a ≠ expected then fail (fault a) else pure ()).Gives spelling trees s p ↔
      ∃ m, x.Reads spelling trees s expected m ∧ p () m := by
  simp only [Gives, reads_expected, reads_pure]
  constructor
  · intro h
    obtain ⟨_, r, ⟨m, hx, -, hr⟩, hp⟩ := h
    exact ⟨r, hr ▸ hx, hp⟩
  · intro h
    rcases h with ⟨m, hx, hp⟩
    exact ⟨(), m, ⟨m, hx, trivial, rfl⟩, hp⟩

@[simp] theorem gives_checkTag (expected : UInt8) (p : Unit → List UInt8 → Prop) :
    (checkTag expected : Decoder Tree Unit).Gives spelling trees s p ↔
      ∃ m, s = expected :: m ∧ p () m := by
  rw [checkTag, gives_expected]
  simp only [reads_byte]

/-- What does not depend on the answer holds by itself. -/
@[simp] theorem gives_and_left (x : Decoder Tree α) (q : Prop) (p : α → List UInt8 → Prop) :
    (x.Gives spelling trees s fun a m => q ∧ p a m) ↔ q ∧ x.Gives spelling trees s p := by
  simp only [Gives]
  constructor
  · intro h
    rcases h with ⟨a, m, ha, hq, hp⟩
    exact ⟨hq, a, m, ha, hp⟩
  · intro h
    rcases h with ⟨hq, a, m, ha, hp⟩
    exact ⟨a, m, ha, hq, hp⟩

def Always (decoder : Decoder Tree α) (p : α → Prop) : Prop :=
  ∀ spelling trees s a r, decoder.Reads spelling trees s a r → p a

theorem always_pure {a : α} {p : α → Prop} (h : p a) :
    Always (pure a : Decoder Tree α) p := by
  intro _ _ _ b _ hb
  obtain ⟨rfl, -⟩ := hb
  exact h

theorem always_map {f : α → β} {x : Decoder Tree α} {p : β → Prop} (h : ∀ a, p (f a)) :
    Always (f <$> x) p := by
  intro _ _ _ b _ hb
  obtain ⟨a, -, rfl⟩ := (reads_map ..).mp hb
  exact h a

theorem always_seq {f : Decoder Tree (α → β)} {x : Decoder Tree α} {p : β → Prop}
    (h : Always f fun g => ∀ a, p (g a)) : Always (f <*> x) p := by
  intro _ _ _ b _ hb
  obtain ⟨g, m, a, hg, -, rfl⟩ := (reads_seq ..).mp hb
  exact h _ _ _ _ _ hg a

/-- The decoder reads exactly what the layout of its answer says, at any depth of nesting. -/
class Laid (grammar : Grammar Tree) (decoder : Decoder Tree α)
    (layout : outParam (α → Layout Tree)) : Prop where
  reads_iff (spelling : Spelling) (depth : Nat) (s : List UInt8) (a : α) (r : List UInt8) :
    decoder.Reads spelling (TreeReads spelling grammar depth) s a r ↔
      (Layout.reading spelling (TreeReads spelling grammar depth)) s (layout a) r

section Laid

variable {grammar : Grammar Tree} {depth : Nat} {decoder : Decoder Tree α}
  {layout : α → Layout Tree}

/-- An answer that is known can be read off the layout. -/
@[simp] theorem gives_eq_and [Laid grammar decoder layout] (b : α) (p : α → List UInt8 → Prop) :
    (decoder.Gives spelling (TreeReads spelling grammar depth) s fun a m => b = a ∧ p a m) ↔
      ∃ m, Layout.reading spelling (TreeReads spelling grammar depth) s (layout b) m ∧ p b m := by
  simp only [Gives, Laid.reads_iff]
  constructor
  · intro h
    rcases h with ⟨a, m, ha, hb, hp⟩
    rw [hb]
    exact ⟨m, ha, hp⟩
  · intro h
    rcases h with ⟨m, ha, hp⟩
    exact ⟨b, m, ha, rfl, hp⟩

theorem Laid.of_gives (h : ∀ spelling depth s a r,
    (decoder.Gives spelling (TreeReads spelling grammar depth) s fun b m => a = b ∧ r = m) ↔
      Layout.reading spelling (TreeReads spelling grammar depth) s (layout a) r) :
    Laid grammar decoder layout :=
  ⟨fun spelling depth s a r => reads_iff_gives.trans (h spelling depth s a r)⟩

instance {sort : σ} : Laid grammar (tree sort : Decoder Tree (Tree sort)) (Layout.tree sort) where
  reads_iff spelling depth s t r := by
    simp [tree, Reads, Query.Reads, Layout.reading_tree]

instance : Laid grammar (byte : Decoder Tree UInt8) Layout.byte where
  reads_iff spelling depth s b r := by rw [reads_byte, Layout.reading_byte]

theorem reads_uint (n : UInt32) : (uint : Decoder Tree UInt32).Reads spelling trees s n r ↔
    ∃ bytes, spelling.uint n.toNat bytes ∧ s = bytes ++ r := by
  simp [uint, Reads, Query.Reads]

instance : Laid grammar (uint : Decoder Tree UInt32) (fun n => Layout.uint n.toNat) where
  reads_iff spelling depth s n r := by rw [reads_uint, Layout.reading_uint]

instance : Laid grammar (boolean : Decoder Tree Bool) Layout.boolean where
  reads_iff spelling depth s value r := by
    simp only [boolean, Layout.boolean, Layout.reading_token, Reads, Query.Reads, Token.reading]
    simp

instance : Laid grammar (lowBit : Decoder Tree Bool) Layout.lowBit where
  reads_iff spelling depth s value r := by
    simp only [lowBit, Layout.lowBit, Layout.reading_token, Reads, Query.Reads, Token.reading]
    simp

theorem reads_bytes (count : Nat) (content : List UInt8) :
    (bytes count : Decoder Tree (List UInt8)).Reads spelling trees s content r ↔
      content.length = count ∧ s = content ++ r := by
  simp [bytes, Reads, Query.Reads]

theorem reads_word (w : UInt32) : (word : Decoder Tree UInt32).Reads spelling trees s w r ↔
    s = wordBytes w ++ r := by
  simp only [word, reads_bind, reads_bytes, reads_pure]
  constructor
  · intro h
    obtain ⟨content, m, ⟨hl, hs⟩, hw, hr⟩ := h
    rw [hs, hr, hw, wordBytes_bigEndian hl]
  · intro hs
    exact ⟨wordBytes w, r, ⟨length_wordBytes w, hs⟩, (bigEndian_wordBytes w).symm, rfl⟩

instance : Laid grammar (word : Decoder Tree UInt32) Layout.word where
  reads_iff spelling depth s w r := by rw [reads_word, Layout.reading_word]

theorem reads_words (count : Nat) (ws : List UInt32) :
    (words count : Decoder Tree (List UInt32)).Reads spelling trees s ws r ↔
      ws.length = count ∧ s = wordsBytes ws ++ r := by
  simp only [words, reads_bind, reads_bytes, reads_pure]
  constructor
  · intro h
    obtain ⟨content, m, ⟨hl, hs⟩, hw, hr⟩ := h
    obtain ⟨hcount, hcontent⟩ := wordsBytes_wordsOf hl
    rw [hw, hr, hcontent]
    exact ⟨hcount, hs⟩
  · intro h
    rcases h with ⟨hl, hs⟩
    exact ⟨wordsBytes ws, r, ⟨by rw [length_wordsBytes, hl], hs⟩, (wordsOf_wordsBytes ws).symm,
      rfl⟩

instance : Laid grammar (double : Decoder Tree UInt64) fun bits => Layout.bytes (doubleBytes bits)
    where
  reads_iff spelling depth s bits r := by
    simp only [double, Layout.reading_bytes, reads_bind, reads_bytes, reads_pure]
    constructor
    · intro h
      obtain ⟨content, m, ⟨hl, hs⟩, hb, hr⟩ := h
      rw [hs, hr, (bigEndian_doubleBytes_iff hl).mp hb.symm]
    · intro hs
      have hl : (doubleBytes bits).length = 8 := by simp [doubleBytes]
      exact ⟨doubleBytes bits, r, ⟨hl, hs⟩, ((bigEndian_doubleBytes_iff hl).mpr rfl).symm, rfl⟩

instance {decoder' : Decoder Tree β} {layout' : β → Layout Tree} [Laid grammar decoder layout]
    [Laid grammar decoder' layout'] :
    Laid grammar (Prod.mk <$> decoder <*> decoder') fun p => layout p.1 ++ layout' p.2 := by
  apply Laid.of_gives
  intro spelling depth s p r
  cases p
  simp [and_assoc]

theorem reads_manyOnto (element : Decoder Tree α) (count : Nat) (read ys : List α) :
    (manyOnto element count read).Reads spelling trees s ys r ↔ ∃ xs, ys = read.reverse ++ xs ∧
      xs.length = count ∧ Reading.many (element.Reads spelling trees) s xs r := by
  induction count generalizing s read with
  | zero =>
    change ys = read.reverse ∧ r = s ↔ _
    constructor
    · intro h
      rcases h with ⟨hy, hr⟩
      exact ⟨[], by simp [hy], rfl, hr⟩
    · intro h
      rcases h with ⟨xs, hy, hl, h⟩
      rw [List.length_eq_zero_iff] at hl
      subst hl
      exact ⟨by simpa using hy, h⟩
  | succ count ih =>
    simp only [manyOnto, reads_bind, ih]
    constructor
    · intro h
      rcases h with ⟨x, m, hx, xs, hy, hl, h⟩
      exact ⟨x :: xs, by simp [hy], by simp [hl], m, hx, h⟩
    · intro h
      rcases h with ⟨xs, hy, hl, h⟩
      cases xs with
      | nil => simp at hl
      | cons x xs =>
        obtain ⟨m, hx, hxs⟩ := h
        exact ⟨x, m, hx, xs, by simp [hy], by simpa using hl, hxs⟩

theorem reads_many (element : Decoder Tree α) (count : Nat) (xs : List α) :
    (many element count).Reads spelling trees s xs r ↔
      xs.length = count ∧ Reading.many (element.Reads spelling trees) s xs r := by
  simp [many, reads_manyOnto]

/-- Elements that follow a layout are read as their layouts, one after another. -/
theorem reading_many_iff [Laid grammar decoder layout] (xs : List α) :
    Reading.many (decoder.Reads spelling (TreeReads spelling grammar depth)) s xs r ↔
      Layout.reading spelling (TreeReads spelling grammar depth) s (xs.flatMap layout) r := by
  have hreads : decoder.Reads spelling (TreeReads spelling grammar depth) = fun s x r =>
      Layout.reading spelling (TreeReads spelling grammar depth) s (layout x) r := by
    funext s x r
    exact propext (Laid.reads_iff ..)
  rw [hreads]
  exact (Reading.many_flatMap layout xs).symm

instance [Laid grammar decoder layout] : Laid grammar (list decoder) (Layout.list layout) where
  reads_iff spelling depth s xs r := by
    simp only [list, Layout.list, reads_bind, reads_many, Layout.reading_append, reading_many_iff,
      reads_uint, Layout.reading_uint]
    constructor
    · intro h
      rcases h with ⟨n, m, hn, hl, h⟩
      exact ⟨m, hl ▸ hn, h⟩
    · intro h
      obtain ⟨m, ⟨bytes, hn, hs⟩, h⟩ := h
      obtain ⟨n, hl⟩ := spelling.exists_toNat_eq hn
      exact ⟨n, m, ⟨bytes, hl ▸ hn, hs⟩, hl.symm, h⟩

instance [Laid grammar decoder layout] : Laid grammar (option decoder) (Layout.option layout) where
  reads_iff spelling depth s x? r := by
    simp only [option, reads_bind, reads_byte]
    constructor
    · intro h
      rcases h with ⟨tag, m, hs, h⟩
      by_cases h0 : tag = 0
      · rw [if_pos h0] at h
        obtain ⟨rfl, rfl⟩ := h
        rw [hs, h0]
        exact (Layout.reading_byte 0).mpr rfl
      · by_cases h1 : tag = 1
        · rw [if_neg h0, if_pos h1, reads_bind] at h
          obtain ⟨x, m', hx, rfl, rfl⟩ := h
          rw [hs, h1]
          exact (Layout.reading_append ..).mpr ⟨m, (Layout.reading_byte 1).mpr rfl,
            (Laid.reads_iff ..).mp hx⟩
        · rw [if_neg h0, if_neg h1] at h
          exact h.elim
    · intro h
      cases x? with
      | none => exact ⟨0, r, (Layout.reading_byte 0).mp h, rfl, rfl⟩
      | some x =>
        obtain ⟨m, hm, hx⟩ := (Layout.reading_append ..).mp h
        refine ⟨1, m, (Layout.reading_byte 1).mp hm, ?_⟩
        rw [if_neg (by decide), if_pos rfl, reads_bind]
        exact ⟨x, r, (Laid.reads_iff ..).mpr hx, rfl, rfl⟩

theorem utf8_eq_ok_iff {place : TextPlace} {content : List UInt8} {t : String} :
    utf8 place content = .ok t ↔ content = textBytes t := by
  unfold utf8
  constructor
  · intro h
    cases ht : String.fromUTF8? ⟨content.toArray⟩ with
    | none => rw [ht] at h; cases h
    | some t' =>
      rw [ht] at h
      cases h
      unfold String.fromUTF8? at ht
      split at ht
      · cases ht
        rfl
      · cases ht
  · intro h
    have hbytes : (⟨content.toArray⟩ : ByteArray) = t.toByteArray := by
      rw [h]
      rfl
    have ht : String.fromUTF8? t.toByteArray = some t := by
      unfold String.fromUTF8?
      rw [dif_pos t.isValidUTF8]
      rfl
    rw [hbytes, ht]

theorem reads_ofExcept (x : Except Fault α) (a : α) :
    (ofExcept x : Decoder Tree α).Reads spelling trees s a r ↔ x = .ok a ∧ r = s := by
  cases x with
  | ok b => simp [ofExcept, Reads, eq_comm]
  | error fault => simp [ofExcept]

instance : Laid grammar (byteList : Decoder Tree (List UInt8)) Layout.byteList where
  reads_iff spelling depth s content r := by
    simp only [byteList, Layout.byteList, reads_bind, reads_bytes, reads_uint,
      Layout.reading_append, Layout.reading_uint, Layout.reading_bytes]
    constructor
    · intro h
      rcases h with ⟨n, m, hn, hl, h⟩
      exact ⟨m, hl ▸ hn, h⟩
    · intro h
      obtain ⟨m, ⟨bytes, hn, hs⟩, h⟩ := h
      obtain ⟨n, hl⟩ := spelling.exists_toNat_eq hn
      exact ⟨n, m, ⟨bytes, hl ▸ hn, hs⟩, hl.symm, h⟩

instance {place : TextPlace} : Laid grammar (text place : Decoder Tree String) Layout.text where
  reads_iff spelling depth s t r := by
    simp only [text, reads_bind, reads_ofExcept, utf8_eq_ok_iff, Laid.reads_iff]
    constructor
    · intro h
      rcases h with ⟨content, m, h, ht, hr⟩
      rw [hr, Layout.text, ← ht]
      exact h
    · intro h
      exact ⟨textBytes t, r, h, rfl, rfl⟩

/-- At every depth that the input needs, trees are read as their tokens. -/
def Written (grammar : Grammar Tree) (written : (sort : σ) → Tree sort → List Token) : Prop :=
  ∀ spelling depth sort t s r, s.length ≤ depth → (TreeReads spelling grammar depth sort s t r ↔
    Reading.many (Token.reading spelling) s (written sort t) r)

variable {written : (sort : σ) → Tree sort → List Token} {w w' : Window} {a : α}

theorem reads_iff_tokens [Laid grammar decoder layout] (hw : Written grammar written)
    (hs : s.length ≤ depth) :
    decoder.Reads spelling (TreeReads spelling grammar depth) s a r ↔
      Reading.many (Token.reading spelling) s ((layout a).tokens written) r :=
  (Laid.reads_iff ..).trans
    (Layout.reading_iff_tokens (fun sort t s r => hw spelling depth sort t s r) _ hs)

theorem tokens_of_run [Laid grammar decoder layout] (hw : Written grammar written)
    (h : run grammar decoder w = .ok a w') : ∃ n ≤ w.remaining, w' = w.advance n ∧
      Reading.many (Token.reading .any) w.rest ((layout a).tokens written) (w.rest.drop n) := by
  obtain ⟨n, hn, hw', hreads⟩ := run_ok h
  exact ⟨n, hn, hw', (reads_iff_tokens hw (Nat.le_of_eq w.length_rest)).mp hreads⟩

/-- Where the bytes of an answer stand, the answer is found, and the cursor moves past them. -/
theorem run_of_fits [Laid grammar decoder layout] (hw : Written grammar written)
    (hfits : (layout a).Fits written) {rest : List UInt8}
    (hrest : w.rest = (layout a).write written ++ rest) :
    run grammar decoder w = .ok a (w.advance ((layout a).write written).length) := by
  have hplain := (Token.many_plain_iff ..).mpr ⟨hfits, hrest⟩
  have hreads : decoder.Reads .any (TreeReads .any grammar w.remaining) w.rest a rest :=
    (reads_iff_tokens hw (Nat.le_of_eq w.length_rest)).mpr (Token.many_any_of_plain hplain)
  obtain ⟨n, hn, hdrop, hrun⟩ := run_complete hreads
  have hlen := w.length_rest
  have hl := congrArg List.length hdrop
  rw [hrest, List.length_append] at hlen
  rw [List.length_drop, hrest, List.length_append] at hl
  rw [hrun]
  congr 2
  omega

/-- Two decoders that lay out their answers alike read the same bytes. -/
theorem run_of_layout_eq {decoder' : Decoder Tree β} {layout' : β → Layout Tree}
    [Laid grammar decoder layout] [Laid grammar decoder' layout'] {b : β}
    (hlayout : layout a = layout' b) (h : run grammar decoder w = .ok a w') :
    run grammar decoder' w = .ok b w' := by
  obtain ⟨n, hn, hw', hreads⟩ := run_ok h
  rw [Laid.reads_iff, hlayout] at hreads
  have hreads' : decoder'.Reads .any (TreeReads .any grammar w.remaining) w.rest b
      (w.rest.drop n) := (Laid.reads_iff ..).mpr hreads
  obtain ⟨k, hk, hdrop, hrun⟩ := run_complete hreads'
  have hl := congrArg List.length hdrop
  rw [List.length_drop, List.length_drop, w.length_rest] at hl
  obtain rfl : n = k := by omega
  rw [hrun, hw']

end Laid
end Decoder
end DartKernel
