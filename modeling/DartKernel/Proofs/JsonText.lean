import DartKernel.Report.Json
import Mathlib.Data.List.Basic

namespace DartKernel.Json

/-- The characters do not go on with a digit, as nothing does that follows a value. -/
def Ends (s : List Char) : Prop := ∀ c ∈ s.head?, c.isDigit = false

/-- The text of `x` is no beginning of another text, wherever both stand. -/
def Legible (text : α → String) (x : α) : Prop :=
  ∀ y s t, Ends s → Ends t → (text x).toList ++ s = (text y).toList ++ t → x = y ∧ s = t

theorem takeWhile_isDigit_toDigits {n : Nat} {s : List Char} (hs : Ends s) :
    (Nat.toDigits 10 n ++ s).takeWhile Char.isDigit = Nat.toDigits 10 n := by
  have hdigits : ∀ c ∈ Nat.toDigits 10 n, c.isDigit = true := by
    intro c hc
    exact Nat.isDigit_of_mem_toDigits (by decide) (by decide) hc
  rw [List.takeWhile_append_of_pos hdigits]
  cases s with
  | nil => simp
  | cons c s => simp [hs c rfl]

theorem legible_number (n : Nat) : Legible (fun n : Nat => toString n) n := by
  intro m s t hs ht h
  simp only [Nat.toString_eq_repr, Nat.toList_repr] at h
  have htake := congrArg (List.takeWhile Char.isDigit) h
  rw [takeWhile_isDigit_toDigits hs, takeWhile_isDigit_toDigits ht] at htake
  have hvalue := congrArg (Nat.ofDigitChars 10 · 0) htake
  simp only [Nat.ofDigitChars_ten_toDigits] at hvalue
  subst hvalue
  exact ⟨rfl, List.append_cancel_left h⟩

def hexValue (c : Char) : Nat :=
  if c.isDigit then c.toNat - '0'.toNat else c.toNat - 'a'.toNat + 10

/-- The character at the front of a quoted text, and what follows it. -/
def unescape : List Char → Option (Char × List Char)
  | '\\' :: 'n' :: rest => some ('\n', rest)
  | '\\' :: 'r' :: rest => some ('\r', rest)
  | '\\' :: 't' :: rest => some ('\t', rest)
  | '\\' :: 'b' :: rest => some ('\x08', rest)
  | '\\' :: 'f' :: rest => some ('\x0c', rest)
  | '\\' :: 'u' :: '0' :: '0' :: high :: low :: rest =>
    some (Char.ofNat (16 * hexValue high + hexValue low), rest)
  | '\\' :: c :: rest => some (c, rest)
  | '"' :: _ => none
  | c :: rest => some (c, rest)
  | [] => none

theorem hexValue_digitChar : ∀ n < 16, hexValue n.digitChar = n := by decide

theorem unescape_escape (c : Char) (rest : List Char) :
    unescape (escape c ++ rest) = some (c, rest) := by
  unfold escape
  split
  case h_8 hquote hbackslash _ _ _ _ _ =>
    by_cases hcontrol : c.toNat < 0x20
    · have hvalue : 16 * (c.toNat / 16) + c.toNat % 16 = c.toNat := by omega
      simp only [hcontrol, if_true, List.cons_append, List.nil_append, unescape,
        hexValue_digitChar _ (show c.toNat / 16 < 16 by omega),
        hexValue_digitChar _ (show c.toNat % 16 < 16 by omega), hvalue, Char.ofNat_toNat]
    · rw [if_neg hcontrol, List.singleton_append]
      unfold unescape
      split
      all_goals simp_all
  all_goals rfl

/-- Quoted characters can be told up to the quote that ends them. -/
theorem escaped_cancel {cs cs' s t : List Char}
    (h : cs.flatMap escape ++ '"' :: s = cs'.flatMap escape ++ '"' :: t) : cs = cs' ∧ s = t := by
  induction cs generalizing cs' with
  | nil =>
    cases cs' with
    | nil => simpa using h
    | cons c' cs' =>
      have hfront := congrArg unescape h
      rw [List.flatMap_cons, List.append_assoc, unescape_escape] at hfront
      cases hfront
  | cons c cs ih =>
    have hfront := congrArg unescape h
    rw [List.flatMap_cons, List.append_assoc, unescape_escape] at hfront
    cases cs' with
    | nil => cases hfront
    | cons c' cs' =>
      rw [List.flatMap_cons, List.append_assoc, unescape_escape] at hfront
      simp only [Option.some.injEq, Prod.mk.injEq] at hfront
      obtain ⟨rfl, hrest⟩ := hfront
      obtain ⟨rfl, rfl⟩ := ih hrest
      exact ⟨rfl, rfl⟩

theorem toList_quote (text : String) :
    (quote text).toList = '"' :: (text.toList.flatMap escape ++ ['"']) := by
  simp [quote]

/-- A quoted text shows its end itself, so anything can follow it. -/
theorem quote_cancel {text text' : String} {s t : List Char}
    (h : (quote text).toList ++ s = (quote text').toList ++ t) : text = text' ∧ s = t := by
  rw [toList_quote, toList_quote, List.cons_append, List.cons_append, List.append_assoc,
    List.append_assoc] at h
  obtain ⟨htext, hrest⟩ := escaped_cancel (List.cons.inj h).2
  exact ⟨String.toList_inj.mp htext, hrest⟩

def indent (levels : Nat) : List Char := List.replicate (2 * levels) ' '

/-- What stands in a block behind its first line. -/
def blockTail (closing : String) (depth : Nat) : List String → List Char
  | [] => '\n' :: (indent depth ++ closing.toList)
  | line :: lines =>
    ',' :: '\n' :: (indent (depth + 1) ++ line.toList ++ blockTail closing depth lines)

theorem toList_block_cons (opening closing : String) (depth : Nat) (line : String)
    (lines : List String) : (block opening closing depth (line :: lines)).toList =
      opening.toList ++ '\n' :: (indent (depth + 1) ++ line.toList
        ++ blockTail closing depth lines) := by
  have htail (line : String) : (String.intercalate ",\n"
      ((line :: lines).map (String.ofList (indent (depth + 1)) ++ ·))).toList
        ++ '\n' :: (indent depth ++ closing.toList) =
      indent (depth + 1) ++ line.toList ++ blockTail closing depth lines := by
    induction lines generalizing line with
    | nil => simp [blockTail]
    | cons next lines ih =>
      have hnext := ih next
      simp only [List.map_cons] at hnext ⊢
      rw [String.intercalate_cons_cons, blockTail, ← hnext]
      simp
  rw [← htail line]
  simp [block, indent]

/-- Lines that can be told make a rest of a block that can. A comma goes on and a line break ends
it. -/
theorem blockTail_cancel {text : α → String} {closing : String} {depth : Nat} {xs ys : List α}
    {s t : List Char} (hxs : ∀ x ∈ xs, Legible text x)
    (h : blockTail closing depth (xs.map text) ++ s = blockTail closing depth (ys.map text) ++ t) :
    xs = ys ∧ s = t := by
  have hends (lines : List String) (s : List Char) : Ends (blockTail closing depth lines ++ s) := by
    cases lines with
    | nil => rintro c ⟨⟩; rfl
    | cons line lines => rintro c ⟨⟩; rfl
  induction xs generalizing ys with
  | nil =>
    cases ys with
    | nil => exact ⟨rfl, List.append_cancel_left h⟩
    | cons y ys => simp [blockTail] at h
  | cons x xs ih =>
    cases ys with
    | nil => simp [blockTail] at h
    | cons y ys =>
      simp only [List.map_cons, blockTail, List.cons_append, List.cons.injEq, true_and,
        List.append_assoc, List.append_cancel_left_eq] at h
      obtain ⟨rfl, hrest⟩ := hxs x (List.mem_cons_self ..) y _ _ (hends _ _) (hends _ _) h
      obtain ⟨rfl, rfl⟩ := ih (fun z hz => hxs z (List.mem_cons_of_mem _ hz)) hrest
      exact ⟨rfl, rfl⟩

/-- Blocks of lines that can be told can be told. -/
theorem legible_block {text : α → String} {opening : String} {closing : String} {depth : Nat}
    {xs : List α} {c : Char} (hclosing : closing.toList = [c]) (hc : c ≠ '\n')
    (hxs : ∀ x ∈ xs, Legible text x) :
    Legible (fun xs => block opening closing depth (xs.map text)) xs := by
  intro ys s t hs ht h
  have hempty : (block opening closing depth []).toList = opening.toList ++ [c] := by
    simp [block, hclosing]
  cases xs with
  | nil =>
    cases ys with
    | nil => exact ⟨rfl, List.append_cancel_left h⟩
    | cons y ys =>
      simp [hempty, toList_block_cons, hc] at h
  | cons x xs =>
    cases ys with
    | nil => simp [hempty, toList_block_cons, hc.symm] at h
    | cons y ys =>
      apply blockTail_cancel hxs
      simpa [toList_block_cons, blockTail] using h

theorem renderItems_eq (depth : Nat) (items : List Json) :
    renderItems depth items = items.map (render depth) := by
  induction items with
  | nil => rfl
  | cons item items ih => rw [renderItems, ih, List.map_cons]

def renderField (depth : Nat) (field : String × Json) : String :=
  quote field.1 ++ ": " ++ render depth field.2

theorem renderFields_eq (depth : Nat) (fields : List (String × Json)) :
    renderFields depth fields = fields.map (renderField depth) := by
  induction fields with
  | nil => rfl
  | cons field fields ih => rw [renderFields, ih, List.map_cons, renderField]

theorem legible_renderField {depth : Nat} {field : String × Json}
    (h : Legible (render depth) field.2) : Legible (renderField depth) field := by
  intro field' s t hs ht heq
  simp only [renderField, String.toList_append, List.append_assoc] at heq
  obtain ⟨hkey, heq⟩ := quote_cancel heq
  obtain ⟨hvalue, hrest⟩ := h field'.2 s t hs ht (List.append_cancel_left heq)
  exact ⟨Prod.ext hkey hvalue, hrest⟩

def kind : Json → Nat
  | null => 0
  | bool _ => 1
  | number _ => 2
  | text _ => 3
  | list _ => 4
  | object _ => 5

def kindOf (c : Char) : Nat :=
  if c = 'n' then 0
  else if c = 't' ∨ c = 'f' then 1
  else if c.isDigit then 2
  else if c = '"' then 3
  else if c = '[' then 4
  else 5

theorem kindOf_digit {c : Char} (h : c.isDigit = true) : kindOf c = 2 := by
  have hne (letter : Char) (hletter : letter.isDigit = false) : c ≠ letter := by
    rintro rfl
    rw [h] at hletter
    cases hletter
  simp [kindOf, h, hne 'n' rfl, hne 't' rfl, hne 'f' rfl]

theorem exists_opening (opening closing : String) (depth : Nat) (lines : List String) :
    ∃ rest, (block opening closing depth lines).toList = opening.toList ++ rest := by
  cases lines with
  | nil => exact ⟨closing.toList, by simp [block]⟩
  | cons line lines => exact ⟨_, toList_block_cons ..⟩

/-- The first character of a text tells the kind of the value. -/
theorem exists_first (value : Json) (depth : Nat) :
    ∃ c rest, (render depth value).toList = c :: rest ∧ kindOf c = value.kind := by
  cases value with
  | null => exact ⟨'n', ['u', 'l', 'l'], by simp [render], rfl⟩
  | bool value =>
    cases value with
    | false => exact ⟨'f', ['a', 'l', 's', 'e'], by simp [render], rfl⟩
    | true => exact ⟨'t', ['r', 'u', 'e'], by simp [render], rfl⟩
  | number n =>
    have hdigits : (render depth (number n)).toList = Nat.toDigits 10 n := by simp [render]
    cases hfirst : Nat.toDigits 10 n with
    | nil => exact absurd hfirst Nat.toDigits_ne_nil
    | cons c rest =>
      have hc : c ∈ Nat.toDigits 10 n := by simp [hfirst]
      refine ⟨c, rest, hdigits.trans hfirst, kindOf_digit ?_⟩
      exact Nat.isDigit_of_mem_toDigits (by decide) (by decide) hc
  | text value => exact ⟨'"', _, by rw [render, toList_quote], rfl⟩
  | list items =>
    obtain ⟨rest, h⟩ := exists_opening "[" "]" depth (renderItems (depth + 1) items)
    exact ⟨'[', rest, by rw [render, h]; rfl, rfl⟩
  | object fields =>
    obtain ⟨rest, h⟩ := exists_opening "\x7b" "\x7d" depth (renderFields (depth + 1) fields)
    exact ⟨'\x7b', rest, by rw [render, h]; rfl, rfl⟩

theorem kind_eq {v w : Json} {depth : Nat} {s t : List Char}
    (h : (render depth v).toList ++ s = (render depth w).toList ++ t) : v.kind = w.kind := by
  obtain ⟨c, rest, hv, hc⟩ := exists_first v depth
  obtain ⟨c', rest', hw, hc'⟩ := exists_first w depth
  rw [hv, hw, List.cons_append, List.cons_append] at h
  rw [← hc, ← hc', (List.cons.inj h).1]

/-- Induction over values, with what holds of all items of a list and of all values of an object. -/
theorem induct {motive : Json → Prop} (null : motive null) (bool : ∀ value, motive (bool value))
    (number : ∀ value, motive (number value)) (text : ∀ value, motive (text value))
    (list : ∀ items, (∀ item ∈ items, motive item) → motive (list items))
    (object : ∀ fields, (∀ field ∈ fields, motive field.2) → motive (object fields)) (v : Json) :
    motive v := by
  match v with
  | .null => exact null
  | .bool value => exact bool value
  | .number value => exact number value
  | .text value => exact text value
  | .list items =>
    exact list items fun item _ => induct null bool number text list object item
  | .object fields =>
    exact object fields fun field _ => induct null bool number text list object field.2
termination_by sizeOf v
decreasing_by
  · have := List.sizeOf_lt_of_mem ‹_›
    simp
    omega
  · have := List.sizeOf_lt_of_mem ‹field ∈ fields›
    cases field
    simp at this ⊢
    omega

/-- The text of a value at any depth can be told. -/
theorem legible_render (v : Json) (depth : Nat) : Legible (render depth) v := by
  intro w s t hs ht h
  have hkind := kind_eq h
  induction v using induct generalizing depth w s t with
  | null =>
    cases w with
    | null => exact ⟨rfl, List.append_cancel_left h⟩
    | _ => cases hkind
  | bool value =>
    cases w with
    | bool value' =>
      cases value <;> cases value' <;> simp [render] at h
      all_goals exact ⟨rfl, h⟩
    | _ => cases hkind
  | number n =>
    cases w with
    | number m =>
      simp only [render] at h
      obtain ⟨rfl, hrest⟩ := legible_number n m s t hs ht h
      exact ⟨rfl, hrest⟩
    | _ => cases hkind
  | text value =>
    cases w with
    | text value' =>
      simp only [render] at h
      obtain ⟨rfl, hrest⟩ := quote_cancel h
      exact ⟨rfl, hrest⟩
    | _ => cases hkind
  | list items ih =>
    cases w with
    | list items' =>
      have hitems : ∀ item ∈ items, Legible (render (depth + 1)) item := by
        intro item hitem w s t hs ht h
        exact ih item hitem (depth + 1) w s t hs ht h (kind_eq h)
      simp only [render, renderItems_eq] at h
      obtain ⟨rfl, hrest⟩ := legible_block rfl (by decide) hitems items' s t hs ht h
      exact ⟨rfl, hrest⟩
    | _ => cases hkind
  | object fields ih =>
    cases w with
    | object fields' =>
      have hfields : ∀ field ∈ fields, Legible (renderField (depth + 1)) field := by
        intro field hfield
        apply legible_renderField
        intro w s t hs ht h
        exact ih field hfield (depth + 1) w s t hs ht h (kind_eq h)
      simp only [render, renderFields_eq] at h
      obtain ⟨rfl, hrest⟩ := legible_block rfl (by decide) hfields fields' s t hs ht h
      exact ⟨rfl, hrest⟩
    | _ => cases hkind

/-- Different values have different texts. -/
theorem pretty_injective {v w : Json} (h : pretty v = pretty w) : v = w := by
  have hnil : Ends [] := nofun
  exact (legible_render v 0 w [] [] hnil hnil (by rw [← pretty, ← pretty, h])).1

end DartKernel.Json
