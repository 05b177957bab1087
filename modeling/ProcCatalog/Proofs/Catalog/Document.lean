import ProcCatalog.Catalog.Document
import ProcCatalog.Proofs.Value.Whole
import Mathlib

/-!
# Catalog documents without halves

The names and bodies of procedures are texts. Half of a surrogate pair can only come from a module
code, a display name or the label of a caller.
-/

namespace ProcCatalog

namespace Value

@[simp] theorem isWhole_texts (ts : List Text) : (texts ts).isWhole = true := by
  simp [texts]

@[simp] theorem isWhole_label (s : String) : (label s).isWhole = true := isWhole_text s.toList

@[simp] theorem isWhole_ofNat (n : Nat) : (ofNat n).isWhole = true := rfl

@[simp] theorem isWhole_obj_member (key : String) (v : Value) (ms : List (RawText × Value)) :
    (obj (member key v :: ms)).isWhole = (v.isWhole && (obj ms).isWhole) := by
  rw [member, isWhole, membersWhole, RawText.isWhole_raw, Bool.true_and]
  rfl

end Value

@[simp] theorem Procedure.isWhole_bodyDocument (p : Procedure) :
    p.bodyDocument.isWhole = true := by
  simp [bodyDocument]

@[simp] theorem Signature.Parameter.isWhole_document (p : Signature.Parameter) :
    p.document.isWhole = true := by
  cases h : p.default <;> simp [document, h]

@[simp] theorem Procedure.isWhole_summary (p : Procedure) :
    p.summary.isWhole = p.codeCallers.all Value.isWhole := by
  simp [summary, Body.Profile.entries, Value.isWhole_arr]

@[simp] theorem Tally.isWhole_document (t : Tally) : t.document.isWhole = true := by
  simp [document]

@[simp] theorem Stats.isWhole_document (s : Stats) : s.document.isWhole = true := by
  simp [document]

@[simp] theorem CallGraph.Summary.isWhole_document (s : CallGraph.Summary) :
    s.document.isWhole = true := by
  simp [document, CallGraph.Hotspot.document]

namespace Listing

/-- Neither the code nor the display name nor the label of a caller holds half of a surrogate
pair. -/
def isWhole (l : Listing) : Bool :=
  l.code.isWhole && l.displayName.isWhole && l.procedures.all fun p => p.codeCallers.all (·.isWhole)

@[simp] theorem isWhole_summary (l : Listing) : l.summary.isWhole = l.isWhole := by
  simp [summary, isWhole, Bool.and_assoc]

theorem isWhole_bodies {l : Listing} (h : l.isWhole = true) : l.bodies.isWhole = true := by
  rw [isWhole, Bool.and_eq_true, Bool.and_eq_true] at h
  simp [bodies, h.1.1, h.1.2]

end Listing

theorem Catalog.isWhole_document (c : Catalog) :
    c.document.isWhole = c.listings.all (·.isWhole) := by
  cases hstats : c.stats <;> cases hgraph : c.callGraph <;>
    simp [document, hstats, hgraph]

end ProcCatalog
