import Linkage.Name
/-
Arguments of the command line.  They are read in order, the first fault or
request for information ends the reading, and the input is required.
-/

namespace Linkage

/-- The options that take a value. -/
inductive ValueOption where
  | input
  | baseline
  | systemStubs
  | output
  deriving DecidableEq, Repr

/-- The options that take none. -/
inductive Switch where
  | includeLocalRefs
  | quiet
  | timing
  deriving DecidableEq, Repr

/-- What a run is asked to do. -/
structure CommandOptions where
  input : String
  baseline : List String := []
  systemStubs : Option String := none
  output : Option String := none
  includeLocalRefs : Bool := false
  quiet : Bool := false
  timing : Bool := false
  deriving DecidableEq, Repr

/-- What the arguments ask for. -/
inductive CommandRequest where
  | run (options : CommandOptions)
  | version
  | help
  deriving DecidableEq, Repr

/-- Why arguments are refused. -/
inductive UsageError where
  | unexpected (argument : String)
  | missingValue (option : ValueOption)
  | unneededValue (argument : String)
  | repeated (argument : String)
  | missingInput
  deriving DecidableEq, Repr

def ValueOption.name : ValueOption → String
  | input => "input"
  | baseline => "baseline"
  | systemStubs => "system-stubs"
  | output => "output"

def Switch.name : Switch → String
  | includeLocalRefs => "include-local-refs"
  | quiet => "quiet"
  | timing => "timing"

def ValueOption.ofName? (name : String) : Option ValueOption :=
  [input, baseline, systemStubs, output].find? (fun option => option.name = name)

def Switch.ofName? (name : String) : Option Switch :=
  [includeLocalRefs, quiet, timing].find? (fun switch => switch.name = name)

def UsageError.message : UsageError → String
  | unexpected argument => "unexpected argument '" ++ argument ++ "' found"
  | missingValue option =>
      "a value is required for '--" ++ option.name ++ " <PATH>' but none was supplied"
  | unneededValue argument => "unexpected value in '" ++ argument ++ "' found"
  | repeated argument =>
      "the argument '--" ++ argument ++ "' cannot be used multiple times"
  | missingInput => "the required argument '--input <PATH>' was not provided"

/-- What one argument is, by its own text. -/
inductive Argument where
  /-- Two dashes and a name, with a value after an equals sign or without one. -/
  | long (name : String) (attached : Option String)
  /-- One dash and letters. -/
  | short (first : Char)
  /-- Two dashes alone: no option follows. -/
  | endOfOptions
  | plain (value : String)
  deriving DecidableEq, Repr

/-- Cuts a text at the first equals sign. -/
def cutAtEquals : List Char → List Char × Option (List Char)
  | [] => ([], none)
  | c :: rest =>
      if c = '=' then ([], some rest)
      else
        let (name, value) := cutAtEquals rest
        (c :: name, value)

/-- Reads the form of an argument. -/
def Argument.ofText (text : String) : Argument :=
  match text.toList with
  | ['-', '-'] => .endOfOptions
  | '-' :: '-' :: rest =>
      let (name, value) := cutAtEquals rest
      .long (String.ofList name) (value.map String.ofList)
  | '-' :: first :: _ => .short first
  | _ => .plain text

/-- The options read so far. -/
structure CommandDraft where
  input : Option String := none
  baseline : List String := []
  systemStubs : Option String := none
  output : Option String := none
  includeLocalRefs : Bool := false
  quiet : Bool := false
  timing : Bool := false
  deriving DecidableEq, Repr

namespace CommandDraft

/-- Gives an option that may be used once its value. -/
def once (option : ValueOption) (value : String) :
    Option String → Except UsageError (Option String)
  | none => .ok (some value)
  | some _ => .error (.repeated option.name)

/-- Gives an option a value, which is not empty. -/
def assign (draft : CommandDraft) (option : ValueOption) (value : String) :
    Except UsageError CommandDraft :=
  if value = "" then .error (.missingValue option)
  else
    match option with
    | .input => do return { draft with input := ← once option value draft.input }
    | .baseline => .ok { draft with baseline := draft.baseline ++ [value] }
    | .systemStubs => do
        return { draft with systemStubs := ← once option value draft.systemStubs }
    | .output => do return { draft with output := ← once option value draft.output }

def turnOn (draft : CommandDraft) (switch : Switch) : Except UsageError CommandDraft :=
  match switch with
  | .includeLocalRefs =>
      if draft.includeLocalRefs then .error (.repeated switch.name)
      else .ok { draft with includeLocalRefs := true }
  | .quiet =>
      if draft.quiet then .error (.repeated switch.name)
      else .ok { draft with quiet := true }
  | .timing =>
      if draft.timing then .error (.repeated switch.name)
      else .ok { draft with timing := true }

/-- The run that the options ask for. -/
def finish (draft : CommandDraft) : Except UsageError CommandRequest :=
  match draft.input with
  | none => .error .missingInput
  | some input =>
      .ok (.run
        { input, baseline := draft.baseline, systemStubs := draft.systemStubs,
          output := draft.output, includeLocalRefs := draft.includeLocalRefs,
          quiet := draft.quiet, timing := draft.timing })

end CommandDraft

/-- The switch or request for information that a name stands for, where it is none
of the options with a value. -/
def readSwitch (draft : CommandDraft) (name : String) (attached : Option String) :
    Except UsageError (CommandDraft ⊕ CommandRequest) :=
  let request : Except UsageError (CommandDraft ⊕ CommandRequest) :=
    if name = "version" then .ok (.inr .version)
    else if name = "help" then .ok (.inr .help)
    else
      match Switch.ofName? name with
      | some switch => (draft.turnOn switch).map .inl
      | none => .error (.unexpected ("--" ++ name))
  match request, attached with
  | .error (.unexpected argument), _ => .error (.unexpected argument)
  | _, some _ => .error (.unneededValue ("--" ++ name))
  | request, none => request

/-- Reads arguments in order. -/
def readArguments (draft : CommandDraft) : List String → Except UsageError CommandRequest
  | [] => draft.finish
  | argument :: rest =>
      match Argument.ofText argument with
      | .plain value => .error (.unexpected value)
      | .endOfOptions =>
          match rest with
          | [] => draft.finish
          | value :: _ => .error (.unexpected value)
      | .short 'V' => .ok .version
      | .short 'h' => .ok .help
      | .short _ => .error (.unexpected argument)
      | .long name attached =>
          match ValueOption.ofName? name, attached with
          | some option, some value =>
              match draft.assign option value with
              | .ok next => readArguments next rest
              | .error error => .error error
          | some option, none =>
              match rest with
              | [] => .error (.missingValue option)
              | value :: rest =>
                  match Argument.ofText value with
                  | .plain value =>
                      match draft.assign option value with
                      | .ok next => readArguments next rest
                      | .error error => .error error
                  | _ => .error (.missingValue option)
          | none, attached =>
              match readSwitch draft name attached with
              | .ok (.inl next) => readArguments next rest
              | .ok (.inr request) => .ok request
              | .error error => .error error

/-- What a list of arguments asks for. -/
def CommandRequest.ofArguments (arguments : List String) :
    Except UsageError CommandRequest :=
  readArguments {} arguments

end Linkage
