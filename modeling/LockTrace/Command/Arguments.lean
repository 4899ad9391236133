import LockTrace.Session.Basic

/-!
# The command line

What the words of a command line ask for. An option is a long name after two dashes or a
letter after one; letters can be joined. The value of an option is the next word, or stands
in the same word. Two dashes alone say that no options follow.
-/

namespace LockTrace.Command

/-- What a run is asked to do. -/
structure Options where
  input : Option String
  output : Option String
  delimiter : Option Char
  keepEmptyTxns : Bool
  kernelDir : Option String
  symbols : Option String
  dataTypes : Option String
  summary : Option String
  errorLog : Option String
  verbose : Nat
  quiet : Bool
deriving DecidableEq, Repr

def Options.none : Options :=
  ⟨Option.none, Option.none, Option.none, false, Option.none, Option.none, Option.none,
    Option.none, Option.none, 0, false⟩

/-- What a command line asks for. -/
inductive Request where
  | convert (options : Options)
  | version
  | help
  /-- The command line is not understood. -/
  | usage
deriving DecidableEq, Repr

/-- An option with a value. -/
inductive Key where
  | output
  | delimiter
  | kernelDir
  | symbols
  | dataTypes
  | summary
  | errorLog
deriving DecidableEq, Repr

/-- An option without a value. -/
inductive Switch where
  | keepEmptyTxns
  | verbose
  | quiet
  | version
  | help
deriving DecidableEq, Repr

/-! ### Names -/

def longNames : List (String × (Key ⊕ Switch)) :=
  [("output", .inl .output), ("delimiter", .inl .delimiter), ("kernel-dir", .inl .kernelDir),
    ("symbols", .inl .symbols), ("data-types", .inl .dataTypes), ("summary", .inl .summary),
    ("error-log", .inl .errorLog), ("keep-empty-txns", .inr .keepEmptyTxns),
    ("verbose", .inr .verbose), ("quiet", .inr .quiet), ("version", .inr .version),
    ("help", .inr .help)]

def letters : List (Char × (Key ⊕ Switch)) :=
  [('o', .inl .output), ('d', .inl .delimiter), ('v', .inr .verbose), ('q', .inr .quiet),
    ('V', .inr .version), ('h', .inr .help)]

/-! ### Setting options -/

/-- Put a path into an option that has none. Empty paths are refused. -/
def onlyPath (old : Option String) (value : String) : Option String :=
  if old.isSome ∨ value = "" then none else some value

/-- Set an option to a value. It can be set only once. -/
def Options.set (o : Options) (key : Key) (value : String) : Option Options :=
  match key with
  | .output => (onlyPath o.output value).map fun v => { o with output := some v }
  | .symbols => (onlyPath o.symbols value).map fun v => { o with symbols := some v }
  | .dataTypes => (onlyPath o.dataTypes value).map fun v => { o with dataTypes := some v }
  | .summary => (onlyPath o.summary value).map fun v => { o with summary := some v }
  | .errorLog => (onlyPath o.errorLog value).map fun v => { o with errorLog := some v }
  | .kernelDir =>
    if o.kernelDir.isSome then Option.none else some { o with kernelDir := some value }
  | .delimiter =>
    match value.toList with
    | [c] => if o.delimiter.isSome then Option.none else some { o with delimiter := some c }
    | _ => Option.none

/-- Take a word that is no option. There is one such word. -/
def Options.setInput (o : Options) (value : String) : Option Options :=
  (onlyPath o.input value).map fun v => { o with input := some v }

/-- What a switch leads to: the options go on, or the request is settled. -/
def Options.turnOn (o : Options) : Switch → Options ⊕ Request
  | .keepEmptyTxns => if o.keepEmptyTxns then .inr .usage else .inl { o with keepEmptyTxns := true }
  | .quiet => if o.quiet then .inr .usage else .inl { o with quiet := true }
  | .verbose => .inl { o with verbose := o.verbose + 1 }
  | .version => .inr .version
  | .help => .inr .help

/-! ### Reading words -/

/-- The letters of one word, read: an option at their end may still wait for its value. -/
inductive Cluster where
  | done (o : Options)
  | waiting (o : Options) (key : Key)
  | settled (r : Request)

/-- Read the letters of a word. What follows the letter of an option with a value is the
    value, after an equals sign if there is one. -/
def readLetters (o : Options) : List Char → Cluster
  | [] => .done o
  | c :: cs =>
    match letters.lookup c with
    | none => .settled .usage
    | some (.inr switch) =>
      match o.turnOn switch with
      | .inl o => readLetters o cs
      | .inr r => .settled r
    | some (.inl key) =>
      match cs with
      | [] => .waiting o key
      | _ =>
        let value := if cs.head? = some '=' then cs.tail else cs
        match o.set key (String.ofList value) with
        | some o => .done o
        | none => .settled .usage

/-- Read a long name, which an equals sign and a value may follow. -/
def readLong (o : Options) (word : List Char) : Cluster :=
  let name := String.ofList (word.takeWhile (· != '='))
  let value := word.dropWhile (· != '=')
  match longNames.lookup name with
  | none => .settled .usage
  | some (.inl key) =>
    match value with
    | [] => .waiting o key
    | _ :: value =>
      match o.set key (String.ofList value) with
      | some o => .done o
      | none => .settled .usage
  | some (.inr switch) =>
    if value.isEmpty then
      match o.turnOn switch with
      | .inl o => .done o
      | .inr r => .settled r
    else .settled .usage

/-- Options that go together and say what to convert. -/
def Options.request (o : Options) : Request :=
  if o.input.isNone ∨ (o.quiet = true ∧ 0 < o.verbose) then .usage else .convert o

/-- Read words of which none is an option. -/
def readInputs (o : Options) : List String → Request
  | [] => o.request
  | word :: words =>
    match o.setInput word with
    | some o => readInputs o words
    | none => .usage

/-- Whether a word can be the value of the option before it. -/
def isValue (word : String) : Bool := word.toList.head? != some '-' || word = "-"

mutual

/-- Read words. -/
def readWords (o : Options) : List String → Request
  | [] => o.request
  | word :: words =>
    match word.toList with
    | ['-', '-'] => readInputs o words
    | '-' :: '-' :: name => readAfter words (readLong o name)
    | '-' :: c :: cs => readAfter words (readLetters o (c :: cs))
    | _ =>
      match o.setInput word with
      | some o => readWords o words
      | none => .usage

/-- Go on reading after a word with options. -/
def readAfter : List String → Cluster → Request
  | words, .done o => readWords o words
  | _, .settled r => r
  | [], .waiting _ _ => .usage
  | word :: words, .waiting o key =>
    if isValue word then
      match o.set key word with
      | some o => readWords o words
      | none => .usage
    else .usage

end

/-- What a command line asks for. -/
def Request.ofWords (words : List String) : Request := readWords .none words

end LockTrace.Command
