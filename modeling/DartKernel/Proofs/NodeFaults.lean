import DartKernel.Proofs.SessionDependence
import DartKernel.Proofs.Stopping

namespace DartKernel

/-- A string that is not found has a number that the table does not reach. -/
theorem StringTable.get_eq_error {strings : StringTable} {r : StringRef} {fault : Fault}
    (h : strings.get r = .error fault) :
    strings.size < r.raw.toNat ∧ fault = .invalidReference .string r.raw strings.size := by
  by_cases h0 : r.raw = 0
  · simp [get, Ref.slot?, h0] at h
  · simp only [get, Ref.slot?, h0, if_false] at h
    cases hentry : strings.entries[r.raw.toNat - 1]? with
    | some text => simp [hentry] at h
    | none =>
      have hle := Array.getElem?_eq_none_iff.mp hentry
      have hpos : r.raw.toNat ≠ 0 := fun hz => h0 (UInt32.toNat_inj.mp hz)
      simp only [hentry, Except.error.injEq] at h
      refine ⟨?_, h.symm⟩
      simp only [size]
      omega

theorem Session.isPrivate_eq_error {session : Session} {r : StringRef} {fault : Fault}
    (h : session.isPrivate r = .error fault) : session.strings.size < r.raw.toNat ∧
      fault = .invalidReference .string r.raw session.strings.size := by
  apply StringTable.get_eq_error
  unfold isPrivate at h
  cases hget : session.strings.get r with
  | error found =>
    rw [hget] at h
    cases h
    rfl
  | ok text? =>
    rw [hget] at h
    cases h

namespace NodeDecoder
open Decoder

variable {size : Nat} {session : Session}

instance {target : Target} : (ref : NodeDecoder (Ref target)).Truthful size := by
  unfold ref
  infer_instance

instance : offset.Truthful size := by
  unfold offset
  infer_instance

instance {φ : Type} : (flags : NodeDecoder (Flags φ)).Truthful size := by
  unfold flags
  infer_instance

instance : double.Truthful size := by
  unfold double Decoder.double
  infer_instance

instance : expression.Truthful size := inferInstanceAs ((tree _).Truthful size)

instance : statement.Truthful size := inferInstanceAs ((tree _).Truthful size)

instance : type.Truthful size := inferInstanceAs ((tree _).Truthful size)

theorem coded_truthful {ofCode : UInt8 → Except Fault α}
    (h : ∀ {code fault}, ofCode code = .error fault → fault.IsFormat) :
    (coded ofCode).Truthful size where
  justified := by
    intro code
    change Justified size _ (ofExcept (ofCode code))
    cases hcode : ofCode code with
    | ok a => trivial
    | error fault => exact Or.inr (h hcode)

instance : (coded LogicalOperator.ofCode).Truthful size := by
  apply coded_truthful
  intro code fault h
  unfold LogicalOperator.ofCode at h
  split at h <;> cases h
  exact ⟨_, rfl⟩

instance : (coded AsyncMarker.ofCode).Truthful size := by
  apply coded_truthful
  intro code fault h
  unfold AsyncMarker.ofCode at h
  split at h <;> cases h
  exact ⟨_, rfl⟩

instance : (coded ProcedureKind.ofCode).Truthful size := by
  apply coded_truthful
  intro code fault h
  unfold ProcedureKind.ofCode at h
  split at h <;> cases h
  exact ⟨_, rfl⟩

instance : (name session.conventions).Truthful session.strings.size where
  justified := by
    intro index
    change Justified _ _ (ofExcept (session.isPrivate ⟨index⟩) >>= fun isPrivate : Bool =>
      if isPrivate then ref >>= fun library => pure (⟨⟨index⟩, some library⟩ : Name)
      else pure ⟨⟨index⟩, none⟩)
    cases hprivate : session.isPrivate ⟨index⟩ with
    | error fault =>
      obtain ⟨hlt, hfault⟩ := Session.isPrivate_eq_error hprivate
      exact Or.inl ⟨hlt, hfault⟩
    | ok isPrivate =>
      have hrest : Truthful session.strings.size (if isPrivate then
          ref >>= fun library => pure (⟨⟨index⟩, some library⟩ : Name)
          else pure ⟨⟨index⟩, none⟩ : NodeDecoder Name) := inferInstance
      exact hrest.justified.mono fun _ => Query.justifies_format

instance : typeParameter.Truthful size := by
  unfold typeParameter
  infer_instance

instance : variableDeclaration.Truthful size := by
  unfold variableDeclaration
  infer_instance

instance : functionNode.Truthful size := by
  unfold functionNode
  infer_instance

instance : namedExpression.Truthful size := by
  unfold namedExpression
  infer_instance

instance : arguments.Truthful size := by
  unfold arguments
  infer_instance

instance : mapEntry.Truthful size := by
  unfold mapEntry
  infer_instance

instance : namedType.Truthful size := by
  unfold namedType
  infer_instance

instance : aliasTypeFields.Truthful size := by
  unfold aliasTypeFields
  infer_instance

instance : aliasType.Truthful size := by
  unfold aliasType
  infer_instance

instance : assertStatement.Truthful size := by
  unfold assertStatement
  infer_instance

instance : switchCase.Truthful size := by
  unfold switchCase
  infer_instance

instance : catchClause.Truthful size := by
  unfold catchClause
  infer_instance

theorem typeFields_truthful (kind : TypeKind) : (typeFields kind).Truthful size := by
  cases kind <;> (unfold typeFields; infer_instance)

theorem statementFields_truthful (kind : StatementKind) : (statementFields kind).Truthful size := by
  cases kind <;> (unfold statementFields; infer_instance)

theorem expressionFields_truthful (kind : ExpressionKind) :
    (expressionFields session.conventions kind).Truthful session.strings.size := by
  cases kind <;> (unfold expressionFields; infer_instance)

/-- A tag that belongs to no kind is refused right behind the byte that it was read from. -/
theorem tagged_justified [TaggedFamily κ] {family : NodeFamily} (hfamily : family ≠ .member)
    {fields : κ → NodeDecoder α} (h : ∀ kind, (fields kind).Truthful size) (tag : UInt8) :
    (tagged family fields tag).Justified size fun fault => fault.OverTag tag ∨ fault.IsFormat := by
  unfold tagged
  cases (TaggedFamily.ofTag? tag : Option κ) with
  | some kind => exact (h kind).justified.mono fun _ => Or.inr
  | none => exact Or.inl (.unknown hfamily)

theorem grammar_justified (sort : NodeSort) (tag : UInt8) :
    (grammar session.conventions sort tag).Justified session.strings.size fun fault =>
      fault.OverTag tag ∨ fault.IsFormat := by
  cases sort with
  | expression => exact tagged_justified (by nofun) expressionFields_truthful tag
  | statement => exact tagged_justified (by nofun) statementFields_truthful tag
  | type => exact tagged_justified (by nofun) typeFields_truthful tag

/-- The byte that shows an expression to be no integer literal is looked at only. -/
instance : intLiteral.Truthful size where
  justified := by
    intro tag
    change Justified size _ (if (TaggedFamily.ofTag? tag : Option ExpressionKind).any _
      then expression else fail (.constantPayload tag))
    split
    · exact fun _ => trivial
    · exact Or.inl .payload

theorem constantFields_truthful (kind : ConstantKind) : (constantFields kind).Truthful size := by
  cases kind <;> (unfold constantFields; infer_instance)

instance : constant.Truthful size where
  justified := fun tag => tagged_justified (by nofun) constantFields_truthful tag

instance : wrappedAssert.Truthful size := by
  have hwrapped (s : Statement) : Truthful size (match s with
      | .assertion wrapped => return wrapped
      | other => fail (.format (.assertWraps other.tag)) : NodeDecoder AssertStatement) := by
    cases s <;> infer_instance
  unfold wrappedAssert
  infer_instance

instance {c : Conventions} : (assertIsSynthetic c).Truthful size := by
  unfold assertIsSynthetic
  infer_instance

theorem initializerFields_truthful {c : Conventions} (kind : InitializerKind) :
    (initializerFields c kind).Truthful size := by
  cases kind <;> (unfold initializerFields; infer_instance)

instance {c : Conventions} : (initializer c).Truthful size where
  justified := fun tag => tagged_justified (by nofun) initializerFields_truthful tag

instance : (field session.conventions).Truthful session.strings.size := by
  unfold field
  infer_instance

instance : (constructor session.conventions).Truthful session.strings.size := by
  unfold constructor
  infer_instance

instance : (procedure session.conventions).Truthful session.strings.size := by
  unfold procedure
  infer_instance

instance : (redirectingFactory session.conventions).Truthful session.strings.size := by
  unfold redirectingFactory
  infer_instance

/-- The tag of a member is left for the reader of its kind, so an unknown one is left unread. -/
instance : (member session.conventions).Truthful session.strings.size where
  justified := by
    intro tag
    change Justified _ (fun fault => fault.OverUnread tag ∨ fault.IsFormat) (tagged _ _ tag)
    unfold tagged
    cases (TaggedFamily.ofTag? tag : Option MemberKind) with
    | none => exact Or.inl .unknown
    | some kind =>
      have hkind : Truthful session.strings.size (match kind with
          | .field => .field <$> field session.conventions
          | .constructor => .constructor <$> constructor session.conventions
          | .procedure => .procedure <$> procedure session.conventions
          | .redirectingFactory => .redirectingFactory <$> redirectingFactory session.conventions
          : NodeDecoder Member) := by
        cases kind <;> infer_instance
      exact hkind.justified.mono fun _ => Or.inr

instance : combinator.Truthful size := by
  unfold combinator
  infer_instance

instance : dependency.Truthful size := by
  unfold dependency
  infer_instance

instance : part.Truthful size := by
  unfold part
  infer_instance

instance : typeAlias.Truthful size := by
  unfold typeAlias
  infer_instance

end NodeDecoder

instance {session : Session} {fragment : Fragment} :
    (fragment.decoder session.conventions).Truthful session.strings.size := by
  cases fragment <;> (simp only [Fragment.decoder]; infer_instance)

/-- What a read may be refused for. -/
inductive Blame where
  | missingBytes | tagRead | tagAhead | missingString | brokenRule
  deriving DecidableEq, Repr

/-- The fault is of a kind, and the bytes of the window bear it out: `w` is the window where the
read started, `w'` the one where it stopped. -/
def Blame.Holds (strings : StringTable) (w w' : Window) (fault : Fault) : Blame → Prop
  | .missingBytes => ∃ wanted, fault = .outOfBounds w'.position wanted w.length w.base ∧
      w.length < w'.position + wanted
  | .tagRead => ∃ tag, ((∃ family, family ≠ .member ∧ fault = .unknownTag family tag) ∨
      (∃ expected, fault = .tagMismatch tag expected) ∨ fault = .optionTag tag) ∧
      w.position < w'.position ∧ w.bytes[w'.position - 1]? = some tag
  | .tagAhead => ∃ tag, (fault = .unknownTag .member tag ∨ fault = .constantPayload tag) ∧
      w.bytes[w'.position]? = some tag
  | .missingString => ∃ index, fault = .invalidReference .string index strings.size ∧
      strings.size < index.toNat ∧ ∃ n ≤ w.remaining, Scan.uint (w.advance n) = .ok index w'
  | .brokenRule => ∃ cause, fault = .format cause

def Fault.blame? : Fault → Option Blame
  | .outOfBounds .. => some .missingBytes
  | .unknownTag .member _ | .constantPayload _ => some .tagAhead
  | .unknownTag .. | .tagMismatch .. | .optionTag _ => some .tagRead
  | .invalidReference .string .. => some .missingString
  | .format _ => some .brokenRule
  | _ => none

namespace Blame

variable {strings : StringTable} {w w' : Window} {fault : Fault}

theorem Holds.blame?_eq {blame : Blame} (h : blame.Holds strings w w' fault) :
    fault.blame? = some blame := by
  cases blame with
  | missingBytes =>
    obtain ⟨wanted, rfl, -⟩ := h
    rfl
  | tagRead =>
    obtain ⟨tag, ⟨family, hfamily, rfl⟩ | ⟨expected, rfl⟩ | rfl, -⟩ := h
    · cases family with
      | member => exact absurd rfl hfamily
      | _ => rfl
    · rfl
    · rfl
  | tagAhead =>
    obtain ⟨tag, rfl | rfl, -⟩ := h
    · rfl
    · rfl
  | missingString =>
    obtain ⟨index, rfl, -⟩ := h
    rfl
  | brokenRule =>
    obtain ⟨cause, rfl⟩ := h
    rfl

/-- A tag that was read stands right before the cursor. -/
theorem tagRead_holds {tag : UInt8} {n : Nat} (hn : n ≤ w.remaining) (hover : fault.OverTag tag)
    (h : Scan.byte (w.advance n) = .ok tag w') : tagRead.Holds strings w w' fault := by
  have hstart := Window.position_advance_of_le hn
  have hstop : ((w.advance n).advance 1).position = (w.advance n).position + 1 :=
    Window.position_advance_of_le (Scan.remaining_pos_of_byte h)
  obtain ⟨rfl, hrest⟩ := Scan.byte_ok h
  have htag : w.bytes[(w.advance n).position]? = some tag := by
    have hhead := (w.advance n).getElem?_bytes_position
    rw [hrest, List.head?_cons] at hhead
    exact hhead
  refine ⟨tag, ?_, by omega, ?_⟩
  · cases hover with
    | unknown hfamily => exact Or.inl ⟨_, hfamily, rfl⟩
    | mismatch expected => exact Or.inr (Or.inl ⟨expected, rfl⟩)
    | option => exact Or.inr (Or.inr rfl)
  · rw [hstop, Nat.add_sub_cancel]
    exact htag

/-- A tag that was looked at stands right behind the cursor. -/
theorem tagAhead_holds {tag : UInt8} {n : Nat} (hover : fault.OverUnread tag)
    (h : Scan.peek (w.advance n) = .ok tag w') : tagAhead.Holds strings w w' fault := by
  obtain ⟨rfl, htag⟩ := Scan.peek_ok h
  rw [← Window.getElem?_bytes_position] at htag
  refine ⟨tag, ?_, htag⟩
  cases hover with
  | unknown => exact Or.inl rfl
  | payload => exact Or.inr rfl

/-- The bytes that are wanted from the cursor on would end outside the window. -/
theorem missingBytes_holds {n : Nat} (h : (w.advance n).Lacks fault) :
    missingBytes.Holds strings w (w.advance n) fault := by
  obtain ⟨wanted, hlt, rfl⟩ := h
  refine ⟨wanted, rfl, ?_⟩
  have hcursor := (w.advance n).cursor
  simp only [Window.remaining] at hlt
  change (w.advance n).length < _
  omega

/-- Every way in which a run of nodes comes to fail is one of the reasons. -/
theorem exists_holds {session : Session} {decoder : NodeDecoder α}
    [decoder.Truthful session.strings.size]
    (h : decoder.scan session.conventions w = .error fault w') :
    (∃ blame : Blame, blame.Holds session.strings w w' fault) ∧
      ∃ n ≤ w.remaining, w' = w.advance n := by
  rcases Decoder.run_accounts NodeDecoder.grammar_justified h with ⟨hformat, rfl⟩ | haccounts
  · exact ⟨⟨.brokenRule, hformat⟩, 0, Nat.zero_le _, w'.advance_zero.symm⟩
  refine ⟨?_, haccounts.moves⟩
  cases haccounts with
  | missing hn hw' hlacks =>
    subst hw'
    exact ⟨.missingBytes, missingBytes_holds hlacks⟩
  | @answer n query x hn hreply hjustifies =>
    cases query with
    | byte =>
      rcases hjustifies with hover | hformat
      · exact ⟨.tagRead, tagRead_holds hn hover hreply⟩
      · exact ⟨.brokenRule, hformat⟩
    | peek =>
      rcases hjustifies with hover | hformat
      · exact ⟨.tagAhead, tagAhead_holds hover hreply⟩
      · exact ⟨.brokenRule, hformat⟩
    | uint =>
      rcases hjustifies with ⟨hlt, rfl⟩ | hformat
      · exact ⟨.missingString, x, rfl, hlt, n, hn, hreply⟩
      · exact ⟨.brokenRule, hformat⟩
    | _ => exact ⟨.brokenRule, hjustifies⟩

end Blame

namespace NodeReader

variable {session : Session} {reader : NodeReader} {w w' : Window} {fault : Fault}

/-- Every reader but those of whole declarations is a run of a decoder. -/
theorem exists_holds (hclass : reader ≠ .classes) (hlibrary : reader ≠ .library)
    (h : reader.scan session w = .error fault w') :
    (∃ blame : Blame, blame.Holds session.strings w w' fault) ∧
      ∃ n ≤ w.remaining, w' = w.advance n := by
  cases reader with
  | classes => exact absurd rfl hclass
  | library => exact absurd rfl hlibrary
  | _ => exact Blame.exists_holds h

/-- A read of a node that fails stops where the fault is, and the fault is true of the place: for
exactly one reason, which the bytes of the window bear out. The faults of files, classes and string
tables are never among them. -/
theorem scan_blames (hclass : reader ≠ .classes) (hlibrary : reader ≠ .library)
    (h : reader.scan session w = .error fault w') :
    (∃! blame : Blame, blame.Holds session.strings w w' fault) ∧
    (∃ n ≤ w.remaining, w' = w.advance n) ∧
    (∀ word expected found, fault ≠ .integrity word expected found) ∧
    (∀ expected found, fault ≠ .badMagic expected found) ∧
    fault ≠ .stringTableAttached ∧ ∀ place, fault ≠ .invalidText place := by
  obtain ⟨⟨blame, hblame⟩, hmoves⟩ := exists_holds hclass hlibrary h
  have hsome := hblame.blame?_eq
  refine ⟨⟨blame, hblame, ?_⟩, hmoves, ?_, ?_, ?_, ?_⟩
  · intro other hother
    exact Option.some.inj (hother.blame?_eq.symm.trans hsome)
  · rintro word expected found rfl
    cases hsome
  · rintro expected found rfl
    cases hsome
  · rintro rfl
    cases hsome
  · rintro place rfl
    cases hsome

/-- A name deep in an expression that refers to the ninth of one string. -/
theorem scan_blames_name :
    let session : Session := ⟨.ofList ["x"], .ofList [], {}, .baseline⟩
    let w := Window.ofBytes ⟨#[33, 24, 0, 9, 1, 2]⟩
    (NodeReader.node .expression).scan session w =
      .error (.invalidReference .string 9 1) (w.advance 4) ∧
    ∃! blame : Blame,
      blame.Holds session.strings w (w.advance 4) (.invalidReference .string 9 1) := by
  intro session w
  have h : (NodeReader.node .expression).scan session w =
      .error (.invalidReference .string 9 1) (w.advance 4) := rfl
  exact ⟨h, (scan_blames (by nofun) (by nofun) h).1⟩

end NodeReader
end DartKernel
