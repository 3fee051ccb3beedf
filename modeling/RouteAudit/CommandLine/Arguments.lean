/-!
# Command-line arguments

`check` takes options with a value, each at most once; `init` takes a flag. A value stands after
its option or, joined to it, after an equals sign; short options may be joined to one another, and
the last of them to its value. A value is not empty, and one that stands alone does not begin with
a dash unless it is a dash. Arguments are read from left to right, and the first one that asks for
help or is wrong decides.
-/

namespace RouteAudit

/-- What `check` is told beyond the configuration. -/
structure CheckOptions where
  config : Option String := none
  appDir : Option String := none
  sourceDir : Option String := none
  output : Option String := none
  verbose : Bool := false
  deriving DecidableEq, Repr

/-- What the program is asked to do. -/
inductive Command where
  | check (options : CheckOptions)
  | init (force : Bool)
  | help
  | version
  deriving DecidableEq, Repr

/-- The options of `check` that have a value. -/
inductive ValueOption where
  | config
  | appDir
  | sourceDir
  | output
  deriving DecidableEq, Repr

/-- What an option of `check` is. -/
inductive CheckOption where
  | value (option : ValueOption)
  | verbose
  | help
  deriving DecidableEq, Repr

namespace CheckOption

def ofLong? (name : String) : Option CheckOption :=
  if name = "config" then some (value .config)
  else if name = "app-dir" then some (value .appDir)
  else if name = "source-dir" then some (value .sourceDir)
  else if name = "output" then some (value .output)
  else if name = "verbose" then some verbose
  else if name = "help" then some help
  else none

def ofShort? : Char → Option CheckOption
  | 'c' => some (value .config)
  | 'o' => some (value .output)
  | 'v' => some verbose
  | 'h' => some help
  | _ => none

end CheckOption

namespace CheckOptions

def get (o : CheckOptions) : ValueOption → Option String
  | .config => o.config
  | .appDir => o.appDir
  | .sourceDir => o.sourceDir
  | .output => o.output

/-- The options with one more value; an option is given once, and not with an empty value. -/
def set? (o : CheckOptions) (option : ValueOption) (v : String) : Option CheckOptions :=
  if v.isEmpty || (o.get option).isSome then none
  else
    match option with
    | .config => some { o with config := some v }
    | .appDir => some { o with appDir := some v }
    | .sourceDir => some { o with sourceDir := some v }
    | .output => some { o with output := some v }

/-- The options with the flag, which is given once. -/
def setVerbose? (o : CheckOptions) : Option CheckOptions :=
  if o.verbose then none else some { o with verbose := true }

end CheckOptions

namespace Command

/-- An argument, as far as it can be told without knowing the options. -/
inductive Argument where
  | separator
  /-- A long option, perhaps with a joined value. -/
  | long (name : String) (value : Option String)
  | short (letters : List Char)
  | plain (text : String)
  deriving DecidableEq, Repr

namespace Argument

/-- The text up to the first equals sign, and the text after it. -/
def cutAtEquals (s : List Char) : List Char × Option (List Char) :=
  match s.dropWhile (· ≠ '=') with
  | [] => (s, none)
  | _ :: v => (s.takeWhile (· ≠ '='), some v)

def ofText (text : String) : Argument :=
  match text.toList with
  | ['-', '-'] => separator
  | '-' :: '-' :: r =>
    let (name, v) := cutAtEquals r
    long (String.ofList name) (v.map String.ofList)
  | '-' :: c :: r => short (c :: r)
  | _ => plain text

end Argument

/-- What is known after some arguments of `check`. -/
inductive Progress where
  | options (o : CheckOptions)
  /-- The next argument is the value of an option. -/
  | awaiting (o : CheckOptions) (option : ValueOption)
  | help
  | wrong
  deriving DecidableEq, Repr

/-- What is known after options that may be wrong. -/
def Progress.ofOptions? : Option CheckOptions → Progress
  | some o => options o
  | none => wrong

/-- The value that is joined to a short option; an equals sign in front of it does not count. -/
def joinedValue : List Char → String
  | '=' :: v => String.ofList v
  | v => String.ofList v

def readShort (o : CheckOptions) : List Char → Progress
  | [] => .options o
  | c :: r =>
    match CheckOption.ofShort? c with
    | none => .wrong
    | some .help => .help
    | some .verbose =>
      match o.setVerbose? with
      | some o => readShort o r
      | none => .wrong
    | some (.value option) =>
      if r = [] then .awaiting o option else .ofOptions? (o.set? option (joinedValue r))

def readLong (o : CheckOptions) (name : String) (v : Option String) : Progress :=
  match CheckOption.ofLong? name, v with
  | some (.value option), some v => .ofOptions? (o.set? option v)
  | some (.value option), none => .awaiting o option
  | some .verbose, none => .ofOptions? o.setVerbose?
  | some .help, none => .help
  | _, _ => .wrong

/-- The command after the arguments that are left, if they are right. -/
def readCheck : Progress → List String → Option Command
  | .wrong, _ => none
  | .help, _ => some .help
  | .options o, [] => some (.check o)
  | .awaiting _ _, [] => none
  | .awaiting o option, arg :: rest =>
    match Argument.ofText arg with
    | .plain v => readCheck (.ofOptions? (o.set? option v)) rest
    | _ => none
  | .options o, arg :: rest =>
    match Argument.ofText arg with
    | .long name v => readCheck (readLong o name v) rest
    | .short letters => readCheck (readShort o letters) rest
    | .separator => if rest = [] then some (.check o) else none
    | .plain _ => none

/-- What joined short options of `init` do to its flag: the flag afterwards, or help. -/
def readInitShort (force : Bool) : List Char → Option Command
  | [] => some (.init force)
  | 'f' :: r => if force then none else readInitShort true r
  | 'h' :: _ => some .help
  | _ :: _ => none

/-- The command after the arguments of `init`, if they are right. -/
def readInit (force : Bool) : List String → Option Command
  | [] => some (.init force)
  | arg :: rest =>
    match Argument.ofText arg with
    | .long "force" none => if force then none else readInit true rest
    | .long "help" none => some .help
    | .short letters =>
      match readInitShort force letters with
      | some (.init force) => readInit force rest
      | other => other
    | .separator => if rest = [] then some (.init force) else none
    | _ => none

/-- Whether help can be had on the given words. -/
def isHelpTopic : List String → Bool
  | [] | ["check"] | ["init"] | ["help"] => true
  | ["help", topic] => topic = "check" || topic = "init" || topic = "help"
  | _ => false

/-- The command that the arguments spell, if they are right. -/
def ofArguments? : List String → Option Command
  | [] => none
  | "check" :: rest => readCheck (.options {}) rest
  | "init" :: rest => readInit false rest
  | "help" :: topic => if isHelpTopic topic then some .help else none
  | arg :: _ =>
    match Argument.ofText arg with
    | .long "help" none | .short ('h' :: _) => some .help
    | .long "version" none | .short ('V' :: _) => some .version
    | _ => none

end Command

end RouteAudit
