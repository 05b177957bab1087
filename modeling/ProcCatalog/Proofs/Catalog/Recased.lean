import ProcCatalog.Proofs.Body.Recased
import ProcCatalog.Proofs.Signature.Recased
import ProcCatalog.Script.Block

/-!
# Letter case in scripts

Scripts that differ in no more than the case of ASCII letters are read alike: as blocks, for the
end of the header, and for what is told of the body.
-/

namespace ProcCatalog

open Body Script Signature
open Text (Recased recasing)

theorem Script.isProcedureBlock_recased (s : Text) :
    isProcedureBlock (s.map recasing.apply) = isProcedureBlock s :=
  Pattern.isSome_matchAt_exchanged (e := recasing) (by decide +kernel) (.start s)

/-- What is read in two texts is the same, the names in them but for case. Each text has a name of
its own, that of its procedure. -/
structure ReadAlike (known : KnownTables) (own own' x y : Text) : Prop where
  block : isProcedureBlock x = isProcedureBlock y
  boundary : boundary? x = boundary? y
  profile : Profile.detect x = Profile.detect y
  intent : intentOfBody x = intentOfBody y
  tables : ∀ t, t ∈ (tables known x).map Text.lower ↔ t ∈ (tables known y).map Text.lower
  calls : ∀ t, t ∈ (calls own x).map Text.lower ↔ t ∈ (calls own' y).map Text.lower

theorem readAlike_of_recased (known : KnownTables) {own own' x y : Text} (h : Recased x y)
    (hown : Recased own own') : ReadAlike known own own' x y where
  block := h.apply_eq isProcedureBlock_recased
  boundary := h.apply_eq boundary?_recased
  profile := h.apply_eq detect_recased
  intent := h.apply_eq intentOfBody_recased
  tables := mem_lower_tables_iff h known
  calls := mem_lower_calls_iff h hown

theorem readAlike_deletion :
    Recased "Exec LOAD; Exec Next; Delete Orders".toList
      "exec Load; exec next; DELETE ORDERS".toList ∧
    Recased "Load".toList "lOAD".toList ∧
    ReadAlike (.ofList ["orders".toList]) "Load".toList "lOAD".toList
      "Exec LOAD; Exec Next; Delete Orders".toList
      "exec Load; exec next; DELETE ORDERS".toList :=
  ⟨by decide +kernel, by decide +kernel,
    readAlike_of_recased _ (by decide +kernel) (by decide +kernel)⟩

/-- A name of several parts counts as it is written, so the tables themselves may differ. -/
example : tables .none "FROM dbo.Kunde".toList = ["Kunde".toList] ∧
    tables .none "from DBO.KUNDE".toList = ["KUNDE".toList] := by decide +kernel

end ProcCatalog
