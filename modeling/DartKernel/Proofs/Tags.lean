import DartKernel.Node.Member
import DartKernel.Node.TagByte
import Mathlib.Data.List.Nodup

namespace DartKernel

/-- A family that lists all its kinds, no two with the same tag. -/
class LawfulFamily (κ : Type) [TaggedFamily κ] : Prop where
  mem_all (kind : κ) : kind ∈ TaggedFamily.all
  nodup_tags : ((TaggedFamily.all : List κ).map TaggedFamily.tag).Nodup

namespace TaggedFamily

variable {κ : Type} [TaggedFamily κ] [LawfulFamily κ]

theorem tag_injective {a b : κ} (h : tag a = tag b) : a = b :=
  List.inj_on_of_nodup_map LawfulFamily.nodup_tags (LawfulFamily.mem_all a)
    (LawfulFamily.mem_all b) h

theorem ofTag?_eq_some_iff {b : UInt8} {kind : κ} : ofTag? b = some kind ↔ b = tag kind := by
  constructor
  · intro h
    have hb := List.find?_some h
    exact (beq_iff_eq.mp hb).symm
  · intro h
    cases hf : (ofTag? b : Option κ) with
    | none =>
      have := List.find?_eq_none.mp hf kind (LawfulFamily.mem_all kind)
      simp [h] at this
    | some other =>
      have hother := List.find?_some hf
      rw [tag_injective (show tag other = tag kind by simpa [h] using hother)]

/-- A reader looks tags up if it takes each tag for the kind it is the tag of, and no byte for a
kind with another tag. -/
theorem eq_ofTag? {ofByte? : UInt8 → Option κ}
    (h : (∀ kind ∈ all, ofByte? (tag kind) = some kind) ∧
      ∀ b : Fin 256, (ofByte? (.ofFin b)).all (tag · == .ofFin b) = true) : ofByte? = ofTag? := by
  obtain ⟨htags, hbytes⟩ := h
  funext b
  apply Option.ext
  intro kind
  rw [ofTag?_eq_some_iff]
  constructor
  · intro hkind
    have hb : (ofByte? b).all (tag · == b) = true := hbytes b.toFin
    rw [hkind] at hb
    exact (beq_iff_eq.mp hb).symm
  · intro hb
    rw [hb]
    exact htags kind (LawfulFamily.mem_all kind)

end TaggedFamily

theorem mem_packed {kind : Fin 8 → κ} (i : Fin 8) : kind i ∈ packed kind :=
  List.mem_map_of_mem (List.mem_finRange i)

instance : LawfulFamily ExpressionKind where
  mem_all kind := by
    cases kind with
    | staticInvocation isConst => cases isConst <;> simp [TaggedFamily.all]
    | constructorInvocation isConst => cases isConst <;> simp [TaggedFamily.all]
    | boolLiteral value => cases value <;> simp [TaggedFamily.all]
    | listLiteral isConst => cases isConst <;> simp [TaggedFamily.all]
    | setLiteral isConst => cases isConst <;> simp [TaggedFamily.all]
    | mapLiteral isConst => cases isConst <;> simp [TaggedFamily.all]
    | _ => simp [TaggedFamily.all, mem_packed]
  nodup_tags := by decide +kernel

instance : LawfulFamily StatementKind where
  mem_all kind := by
    cases kind with
    | forInLoop isAsync => cases isAsync <;> simp [TaggedFamily.all]
    | _ => simp [TaggedFamily.all]
  nodup_tags := by decide +kernel

instance : LawfulFamily TypeKind where
  mem_all kind := by cases kind <;> simp [TaggedFamily.all]
  nodup_tags := by decide +kernel

instance : LawfulFamily ConstantKind where
  mem_all kind := by cases kind <;> simp [TaggedFamily.all]
  nodup_tags := by decide +kernel

instance : LawfulFamily InitializerKind where
  mem_all kind := by cases kind <;> simp [TaggedFamily.all]
  nodup_tags := by decide +kernel

instance : LawfulFamily MemberKind where
  mem_all kind := by cases kind <;> simp [TaggedFamily.all]
  nodup_tags := by decide +kernel

theorem ExpressionKind.ofByte?_eq : ofByte? = TaggedFamily.ofTag? :=
  TaggedFamily.eq_ofTag? (by decide +kernel)

theorem StatementKind.ofByte?_eq : ofByte? = TaggedFamily.ofTag? :=
  TaggedFamily.eq_ofTag? (by decide +kernel)

theorem TypeKind.ofByte?_eq : ofByte? = TaggedFamily.ofTag? :=
  TaggedFamily.eq_ofTag? (by decide +kernel)

theorem ConstantKind.ofByte?_eq : ofByte? = TaggedFamily.ofTag? :=
  TaggedFamily.eq_ofTag? (by decide +kernel)

end DartKernel
