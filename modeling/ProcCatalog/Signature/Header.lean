import ProcCatalog.Script.Block
import ProcCatalog.Signature.Boundary
import ProcCatalog.Signature.Parameter

/-!
# Procedure definitions

A definition has a schema-qualified name, parameters and a body. Without a boundary, everything
behind the name is the body.
-/

namespace ProcCatalog.Signature

open Pattern

structure Definition where
  schema : Text
  name : Text
  parameters : List Parameter
  body : Text
  boundary : Option Strategy
  startLine : Int
  deriving DecidableEq, Repr

def Definition.fullName (d : Definition) : Text := d.schema ++ '.' :: d.name

def bracketedWord (mark : String) : Pattern :=
  all [option (char '['), .named mark word1, option (char ']')]

/-- The creation of a procedure, up to the end of its name. -/
def procedureName : Pattern :=
  all [Script.createProcedure, blanks1, bracketedWord "schema", blanks, char '.', blanks,
    bracketedWord "name"]

def Definition.parse? (text : Text) (startLine : Int) : Option Definition :=
  (procedureName.find? text).map fun found =>
    let rest := found.stop.rest
    let boundary := boundary? rest
    { schema := (found.mark? "schema").getD []
      name := (found.mark? "name").getD []
      parameters := parseParameters (rest.take (boundary.elim 0 (·.start)))
      body := rest.drop (boundary.elim 0 (·.stop))
      boundary := boundary.map (·.strategy)
      startLine }

end ProcCatalog.Signature
