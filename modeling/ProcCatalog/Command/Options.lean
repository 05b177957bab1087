import ProcCatalog.Text.Integer
import ProcCatalog.Text.Line
import ProcCatalog.Text.Quoted
import ProcCatalog.Text.Similar

/-!
# Options of a command

An option has a long name and may have a letter. One that takes a value takes it from the same
argument or from the next one, whatever that is. Letters may share an argument. Of an option that
is given several times the last value counts. Two dashes end the options.
-/

namespace ProcCatalog.Command

inductive Kind where
  | flag
  | text
  | integer
  | choice (labels : List String)
  deriving DecidableEq, Repr

structure OptionSpec where
  name : String
  letter : Option Char := none
  kind : Kind := .text
  required : Bool := false
  deriving DecidableEq, Repr

namespace OptionSpec

def longForm (o : OptionSpec) : Text := '-' :: '-' :: o.name.toList

def forms (o : OptionSpec) : List Text :=
  o.longForm :: (o.letter.elim [] fun c => [['-', c]])

def hint (o : OptionSpec) : Text :=
  Text.joinWith " / ".toList (o.forms.map fun f => '\x27' :: f ++ ['\x27'])

def takesValue (o : OptionSpec) : Bool := o.kind != .flag

end OptionSpec

/-! ## Faults of usage -/

inductive UsageFault where
  | noSuchOption (form : Text) (similar : List Text)
  | valueMissing (form : Text)
  | valueRefused (form : Text)
  | optionMissing (option : OptionSpec)
  | notInteger (option : OptionSpec) (value : Text)
  | notAmong (option : OptionSpec) (value : Text) (labels : List String)
  | unexpected (arguments : List Text)
  | noSuchCommand (name : Text) (similar : List Text)
  | commandMissing
  deriving DecidableEq, Repr

namespace UsageFault

def invalidValue (option : OptionSpec) (value rest : Text) : Text :=
  "Invalid value for ".toList ++ option.hint ++ ": ".toList ++ Text.quoted value ++ rest

def suggestion (similar : List Text) : Text :=
  match (Text.sorted similar).map fun (s : Text) => Text.quoted s with
  | [] => []
  | [name] => " Did you mean ".toList ++ name ++ ['?']
  | names =>
    " (Did you mean one of: ".toList ++ Text.joinWith ", ".toList names ++ ['?', ')']

def text : UsageFault → Text
  | noSuchOption form similar =>
    "No such option ".toList ++ Text.quoted form ++ ['.'] ++ suggestion similar
  | valueMissing form => "Option ".toList ++ Text.quoted form ++ " requires an argument.".toList
  | valueRefused form => "Option ".toList ++ Text.quoted form ++ " does not take a value.".toList
  | optionMissing option => "Missing option ".toList ++ option.hint ++ ['.']
  | notInteger option value => invalidValue option value " is not a valid integer.".toList
  | notAmong option value labels =>
    invalidValue option value (" is not one of ".toList ++
      Text.joinWith ", ".toList (labels.map fun l => Text.quoted l.toList) ++ ['.'])
  | unexpected [argument] => "Got unexpected extra argument (".toList ++ argument ++ [')']
  | unexpected arguments =>
    "Got unexpected extra arguments (".toList ++ Text.joinWith [' '] arguments ++ [')']
  | noSuchCommand name similar =>
    "No such command ".toList ++ Text.quoted name ++ ['.'] ++ suggestion similar
  | commandMissing => "Missing command.".toList

def message (fault : UsageFault) : Text := "Error: ".toList ++ fault.text

/-! ### On the terminal -/

def isBetween (first last : Char) (c : Char) : Bool := first ≤ c && c ≤ last

/-- What follows a control sequence of a terminal, if one stands at the front. -/
def afterSequence? (s : Text) : Option Text :=
  match s with
  | '\x1b' :: '[' :: r =>
    match (r.dropWhile (isBetween '0' '?')).dropWhile (isBetween ' ' '/') with
    | c :: rest => if isBetween '@' '~' c then some rest else none
    | [] => none
  | _ => none

/-- Drops control sequences behind the next `skip` characters. -/
def withoutSequences (skip : Nat) : Text → Text
  | [] => []
  | c :: s =>
    match skip with
    | skip + 1 => withoutSequences skip s
    | 0 =>
      match afterSequence? (c :: s) with
      | some rest => withoutSequences (s.length - rest.length) s
      | none => c :: withoutSequences 0 s

/-- The line of the terminal that tells of the fault. -/
def line (fault : UsageFault) : Text := (Text.bareLines (withoutSequences 0 fault.message)).headD []

end UsageFault

/-! ## Arguments -/

/-- The options as they were given, with their values, and the arguments that are no options. -/
structure Given where
  options : List (OptionSpec × Text) := []
  others : List Text := []
  deriving DecidableEq, Repr

/-- What one argument gives: options with their values, and one whose value is still to come. -/
structure Reading where
  options : List (OptionSpec × Text)
  open? : Option (OptionSpec × Text) := none
  deriving DecidableEq, Repr

def findLong (specs : List OptionSpec) (form : Text) : Option OptionSpec :=
  specs.find? fun o => o.longForm == form

def findLetter (specs : List OptionSpec) (c : Char) : Option OptionSpec :=
  specs.find? fun o => o.letter == some c

def readLong (specs : List OptionSpec) (argument : Text) : Except UsageFault Reading :=
  let form := argument.takeWhile (· != '=')
  let value : Option Text :=
    if argument.contains '=' then some (argument.drop (form.length + 1)) else none
  match findLong specs form with
  | none => .error (.noSuchOption form (Text.similarTo form (specs.map (·.longForm))))
  | some o =>
    match o.takesValue, value with
    | true, some v => .ok ⟨[(o, v)], none⟩
    | true, none => .ok ⟨[], some (o, form)⟩
    | false, some _ => .error (.valueRefused form)
    | false, none => .ok ⟨[(o, [])], none⟩

/-- Letters that share an argument; what stands behind one that takes a value is the value. -/
def readLetters (specs : List OptionSpec) : Text → Except UsageFault Reading
  | [] => .ok ⟨[], none⟩
  | c :: s =>
    match findLetter specs c with
    | none => .error (.noSuchOption ['-', c] [])
    | some o =>
      if o.takesValue then
        if s.isEmpty then .ok ⟨[], some (o, ['-', c])⟩ else .ok ⟨[(o, s)], none⟩
      else (readLetters specs s).map fun r => { r with options := (o, []) :: r.options }

def readArgument (specs : List OptionSpec) (argument : Text) : Except UsageFault Reading :=
  if Text.startsWith ['-', '-'] argument then readLong specs argument
  else readLetters specs (argument.drop 1)

def isOption (argument : Text) : Bool := argument.head? == some '-' && 1 < argument.length

def Given.add (options : List (OptionSpec × Text)) (g : Given) : Given :=
  { g with options := options ++ g.options }

/-- Reads all arguments; if `mixed` is not set, the first that is no option ends the options. -/
def readArguments (specs : List OptionSpec) (mixed : Bool) : List Text → Except UsageFault Given
  | [] => .ok {}
  | argument :: rest =>
    if argument = ['-', '-'] then .ok { others := rest }
    else if isOption argument then
      match readArgument specs argument with
      | .error fault => .error fault
      | .ok ⟨options, none⟩ => (readArguments specs mixed rest).map (Given.add options)
      | .ok ⟨options, some (o, form)⟩ =>
        match rest with
        | [] => .error (.valueMissing form)
        | value :: rest =>
          (readArguments specs mixed rest).map (Given.add (options ++ [(o, value)]))
    else if mixed then
      (readArguments specs mixed rest).map fun g => { g with others := argument :: g.others }
    else .ok { others := argument :: rest }

namespace Given

/-- The last value that was given. -/
def value? (g : Given) (name : String) : Option Text :=
  (g.options.reverse.find? fun e => e.1.name == name).map (·.2)

def has (g : Given) (name : String) : Bool := (g.value? name).isSome

def text (g : Given) (name : String) (standard : Text := []) : Text := (g.value? name).getD standard

def integer (g : Given) (name : String) (standard : Int) : Int :=
  ((g.value? name).bind Text.integer?).getD standard

def check (g : Given) (o : OptionSpec) : Except UsageFault Unit :=
  match g.value? o.name with
  | none => if o.required then .error (.optionMissing o) else .ok ()
  | some v =>
    match o.kind with
    | .integer => if (Text.integer? v).isSome then .ok () else .error (.notInteger o v)
    | .choice labels =>
      if labels.any fun l => l.toList == v then .ok () else .error (.notAmong o v labels)
    | _ => .ok ()

/-- Checks the options in the order in which they were given, then the rest, then the arguments
that are no options. -/
def checkAll (g : Given) (specs : List OptionSpec) : Except UsageFault Unit := do
  let first := distinct (g.options.map (·.1))
  (first ++ specs.filter fun o => !first.contains o).forM g.check
  if g.others.isEmpty then return () else throw (.unexpected g.others)

end Given

end ProcCatalog.Command
