import DartKernel.Proofs.Reading
import DartKernel.Session

namespace DartKernel

/-- A name carries a library exactly when its text starts with an underscore. -/
def Name.Follows (strings : StringTable) (name : Name) : Prop :=
  ∃ text?, strings.get name.text = .ok text? ∧
    (name.library.isSome ↔ ∃ text, text? = some text ∧ text.front? = some '_')

/-- What stands in the bytes of a value, and what has to hold of it there. -/
inductive Token where
  /-- Where a node starts. It takes no bytes. -/
  | node
  /-- Where a member name starts. It takes no bytes. -/
  | name (strings : StringTable) (name : Name)
  | byte (b : UInt8)
  | flag (means : UInt8 → Bool) (value : Bool) (sound : means 0 = false ∧ means 1 = true)
  /-- A variable-length integer. -/
  | uint (n : Nat)
  | bytes (content : List UInt8)
  /-- A condition on the value. It takes no bytes. -/
  | require (condition : Prop)

namespace Token

def write : Token → List UInt8
  | .node | .name .. | .require _ => []
  | .byte b => [b]
  | .flag _ value _ => [value.toUInt8]
  | .uint n => Uint.encode n
  | .bytes content => content

def Fits : Token → Prop
  | .name strings it => it.Follows strings
  | .uint n => n < Uint.limit
  | .require condition => condition
  | .node | .byte _ | .flag .. | .bytes _ => True

def reading (spelling : Spelling) : Reading Token
  | s, .node, r => r = s
  | s, .name strings it, r => it.Follows strings ∧ r = s
  | s, .byte b, r => s = b :: r
  | s, .flag means value _, r => ∃ b, spelling.flag means value b ∧ s = b :: r
  | s, .uint n, r => ∃ bytes, spelling.uint n bytes ∧ s = bytes ++ r
  | s, .bytes content, r => s = content ++ r
  | s, .require condition, r => condition ∧ r = s

end Token

namespace Reading

variable {p q : Reading α} {s r : List UInt8}

@[simp] theorem many_nil : many p s [] r ↔ r = s := Iff.rfl

@[simp] theorem many_cons (x : α) (xs : List α) :
    many p s (x :: xs) r ↔ ∃ m, p s x m ∧ many p m xs r := Iff.rfl

theorem many_append (xs ys : List α) :
    many p s (xs ++ ys) r ↔ ∃ m, many p s xs m ∧ many p m ys r := by
  induction xs generalizing s with
  | nil => simp
  | cons x xs ih =>
    simp only [List.cons_append, many_cons, ih]
    constructor
    · intro h
      rcases h with ⟨m, hx, m', hxs, hys⟩
      exact ⟨m', ⟨m, hx, hxs⟩, hys⟩
    · intro h
      obtain ⟨m', ⟨m, hx, hxs⟩, hys⟩ := h
      exact ⟨m, hx, m', hxs, hys⟩

theorem many_singleton (x : α) : many p s [x] r ↔ p s x r := by simp

theorem many_flatMap (f : β → List α) (xs : List β) :
    many p s (xs.flatMap f) r ↔ many (fun s x r => many p s (f x) r) s xs r := by
  induction xs generalizing s with
  | nil => rfl
  | cons x xs ih => simp only [List.flatMap_cons, many_append, many_cons, ih]

/-- A reading that never gains bytes. -/
def Shrinks (p : Reading α) : Prop := ∀ s a r, p s a r → r.length ≤ s.length

theorem Shrinks.many (hp : Shrinks p) : Shrinks p.many := by
  intro s xs r h
  induction xs generalizing s with
  | nil => exact Nat.le_of_eq (congrArg List.length h)
  | cons x xs ih =>
    obtain ⟨m, hx, hxs⟩ := h
    exact Nat.le_trans (ih _ hxs) (hp _ _ _ hx)

/-- Two readings that agree on short inputs agree on sequences that start in them. -/
theorem many_congr {n : Nat} (hq : Shrinks q) {xs : List α}
    (hpq : ∀ x ∈ xs, ∀ s r, s.length ≤ n → (p s x r ↔ q s x r)) (hs : s.length ≤ n) :
    many p s xs r ↔ many q s xs r := by
  induction xs generalizing s with
  | nil => rfl
  | cons x xs ih =>
    simp only [many_cons]
    have hx := hpq x (List.mem_cons_self ..) s
    have hxs := fun y hy => hpq y (List.mem_cons_of_mem _ hy)
    constructor
    · intro h
      rcases h with ⟨m, h, ht⟩
      have hm := (hx m hs).mp h
      exact ⟨m, hm, (ih hxs (Nat.le_trans (hq _ _ _ hm) hs)).mp ht⟩
    · intro h
      rcases h with ⟨m, h, ht⟩
      exact ⟨m, (hx m hs).mpr h, (ih hxs (Nat.le_trans (hq _ _ _ h) hs)).mpr ht⟩

end Reading

namespace Token

/-- Read plainly, a token is just its bytes. -/
theorem reading_plain_iff (token : Token) (s r : List UInt8) :
    Token.reading .plain s token r ↔ token.Fits ∧ s = token.write ++ r := by
  cases token with
  | node => simp [reading, Fits, write, eq_comm]
  | name strings it => simp [reading, Fits, write, eq_comm]
  | byte b => simp [reading, Fits, write]
  | flag means value sound =>
    constructor
    · intro h
      obtain ⟨b, ⟨hv, hb⟩, hs⟩ := h
      refine ⟨trivial, ?_⟩
      subst hv
      rcases hb with hb | hb
      · simp [hs, hb, write, sound.1, Bool.toUInt8]
      · simp [hs, hb, write, sound.2, Bool.toUInt8]
    · intro h
      rcases h with ⟨_, hs⟩
      refine ⟨value.toUInt8, ⟨?_, ?_⟩, hs⟩
      · cases value
        · exact sound.1
        · exact sound.2
      · cases value <;> decide
  | uint n =>
    constructor
    · intro h
      obtain ⟨bytes, ⟨hn, rfl⟩, hs⟩ := h
      exact ⟨hn, hs⟩
    · intro h
      rcases h with ⟨hn, hs⟩
      exact ⟨_, ⟨hn, rfl⟩, hs⟩
  | bytes content => simp [reading, Fits, write]
  | require condition => simp [reading, Fits, write, eq_comm]

theorem reading_any_of_plain {token : Token} {s r : List UInt8}
    (h : Token.reading .plain s token r) : Token.reading .any s token r := by
  cases token with
  | flag means value sound =>
    obtain ⟨b, ⟨hb, -⟩, hs⟩ := h
    exact ⟨b, hb, hs⟩
  | uint n =>
    obtain ⟨bytes, ⟨hn, rfl⟩, hs⟩ := h
    exact ⟨_, Uint.spells_encode hn, hs⟩
  | _ => exact h

theorem fits_of_reading {spelling : Spelling} {token : Token} {s r : List UInt8}
    (h : Token.reading spelling s token r) : token.Fits := by
  cases token with
  | name strings it => exact h.1
  | uint n =>
    obtain ⟨bytes, hn, -⟩ := h
    exact spelling.lt_limit hn
  | require condition => exact h.1
  | _ => trivial

/-- However a token is spelled, its plain bytes are no longer. -/
theorem length_write_le {token : Token} {s r : List UInt8} (h : Token.reading .any s token r) :
    token.write.length + r.length ≤ s.length := by
  cases token with
  | node => simp [write, show r = s from h]
  | name strings it => simp [write, h.2]
  | byte b => simp [write, show s = b :: r from h, Nat.add_comm]
  | flag means value sound =>
    obtain ⟨b, -, rfl⟩ := h
    simp [write, Nat.add_comm]
  | uint n =>
    obtain ⟨bytes, hn, rfl⟩ := h
    simpa [write] using hn.length_encode_le
  | bytes content => simp [write, show s = content ++ r from h]
  | require condition => simp [write, h.2]

theorem reading_shrinks (spelling : Spelling) : (Token.reading spelling).Shrinks := by
  intro s token r h
  cases token with
  | node => exact Nat.le_of_eq (congrArg List.length h)
  | name strings it => exact Nat.le_of_eq (congrArg List.length h.2)
  | byte b => simp [show s = b :: r from h]
  | flag means value sound =>
    obtain ⟨b, -, rfl⟩ := h
    simp
  | uint n =>
    obtain ⟨bytes, -, rfl⟩ := h
    simp
  | bytes content => simp [show s = content ++ r from h]
  | require condition => exact Nat.le_of_eq (congrArg List.length h.2)

def writeAll (tokens : List Token) : List UInt8 := tokens.flatMap write

theorem many_plain_iff (tokens : List Token) (s r : List UInt8) :
    Reading.many (Token.reading .plain) s tokens r ↔
      (∀ token ∈ tokens, token.Fits) ∧ s = writeAll tokens ++ r := by
  induction tokens generalizing s with
  | nil => simp [writeAll, eq_comm]
  | cons token tokens ih =>
    simp only [Reading.many_cons, reading_plain_iff, ih, List.forall_mem_cons, writeAll,
      List.flatMap_cons, List.append_assoc]
    constructor
    · intro h
      obtain ⟨m, ⟨ht, rfl⟩, hts, rfl⟩ := h
      exact ⟨⟨ht, hts⟩, rfl⟩
    · intro h
      obtain ⟨⟨ht, hts⟩, rfl⟩ := h
      exact ⟨_, ⟨ht, rfl⟩, hts, rfl⟩

theorem many_any_of_plain {tokens : List Token} {s r : List UInt8}
    (h : Reading.many (Token.reading .plain) s tokens r) :
    Reading.many (Token.reading .any) s tokens r := by
  induction tokens generalizing s with
  | nil => exact h
  | cons token tokens ih =>
    obtain ⟨m, ht, hts⟩ := h
    exact ⟨m, reading_any_of_plain ht, ih hts⟩

theorem fits_of_many {spelling : Spelling} {tokens : List Token} {s r : List UInt8}
    (h : Reading.many (Token.reading spelling) s tokens r) : ∀ token ∈ tokens, token.Fits := by
  induction tokens generalizing s with
  | nil => simp
  | cons token tokens ih =>
    obtain ⟨m, ht, hts⟩ := h
    exact List.forall_mem_cons.mpr ⟨fits_of_reading ht, ih hts⟩

theorem length_writeAll_le {tokens : List Token} {s r : List UInt8}
    (h : Reading.many (Token.reading .any) s tokens r) :
    (writeAll tokens).length + r.length ≤ s.length := by
  induction tokens generalizing s with
  | nil => simp [writeAll, show r = s from h]
  | cons token tokens ih =>
    obtain ⟨m, ht, hts⟩ := h
    have hm := ih hts
    have hs := length_write_le ht
    simp only [writeAll, List.flatMap_cons, List.length_append] at hm ⊢
    omega

end Token
end DartKernel
