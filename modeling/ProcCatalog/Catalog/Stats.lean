import ProcCatalog.Procedure

/-!
# Statistics

How many procedures there are of each schema, intent and tier, and with each anti-pattern. Intents
and tiers are listed even where there are none.
-/

namespace ProcCatalog

def total : List Nat → Nat
  | [] => 0
  | n :: ns => n + total ns

/-- The facts about a procedure that are counted. -/
structure Fact where
  schema : Text
  intent : Text
  tier : Text
  profile : Body.Profile
  nolockCount : Int
  deriving DecidableEq, Repr

def Procedure.fact (p : Procedure) : Fact :=
  ⟨p.schema, p.intent.label.toList, p.tier.label.toList, p.profile, p.profile.nolockCount⟩

/-- Counts by label, in the order of the list. -/
abbrev Tally := List (Text × Nat)

namespace Tally

def count (label : Text) : Tally → Tally
  | [] => [(label, 1)]
  | (l, n) :: rest => if l = label then (l, n + 1) :: rest else (l, n) :: count label rest

def zeros (labels : List String) : Tally := labels.map fun l => (l.toList, 0)

def countAll (tally : Tally) (labels : List Text) : Tally :=
  labels.foldl (fun t label => t.count label) tally

def byLabel (tally : Tally) : Tally := sortBy (fun a b => Text.le a.1 b.1) tally

end Tally

structure Stats where
  bySchema : Tally
  byIntent : Tally
  byTier : Tally
  byFlag : Tally
  nolockOccurrences : Int
  deriving DecidableEq, Repr

def Stats.ofFacts (facts : List Fact) : Stats where
  bySchema := (Tally.countAll [] (facts.map (·.schema))).byLabel
  byIntent := (Tally.zeros (Body.Intent.all.map (·.label))).countAll (facts.map (·.intent))
  byTier := (Tally.zeros (Body.Tier.all.map (·.label))).countAll (facts.map (·.tier))
  byFlag := Body.Flag.all.map fun flag =>
    (flag.label.toList, facts.countP fun f => f.profile.flag flag)
  nolockOccurrences := facts.foldl (fun n f => n + f.nolockCount) 0

end ProcCatalog
