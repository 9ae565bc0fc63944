/-!
# Command line arguments

What a command line asks for. Options may stand before or behind positional arguments; two dashes end
the options. A value of a custom goal may start with a dash, unless it is an option of its own.
-/

namespace Milestone.Command

/-- What a command line asks for. -/
inductive Request where
  /-- One tick and its summary, with another template if one is given. -/
  | status (template : Option String)
  /-- Ticks until the process is stopped. -/
  | run
  | override (key : String) (clear : Bool)
  | custom (key value : String)
  | reset
  deriving DecidableEq

/-- A command line that is understood asks for something or for information. -/
inductive Parsed where
  | request (r : Request)
  | help
  | version
  deriving DecidableEq

/-- What the arguments of a command may be. -/
structure Form where
  /-- How many positional arguments there are. -/
  positional : Nat
  /-- Whether the last positional argument may start with a dash. -/
  dashedLast : Bool
  /-- Whether a template can be given. -/
  template : Bool
  /-- Whether there is a switch to clear. -/
  clear : Bool

/-- The arguments of a command as far as they are read. -/
structure Taken where
  positional : List String
  template : Option String
  clear : Bool

/-- The end of reading: the arguments, or a wish for help; nothing for a fault. -/
inductive Ending where
  | done (taken : Taken)
  | help

namespace Form

/-- Takes a positional argument, if there is room for one. -/
def takePositional (form : Form) (taken : Taken) (arg : String) : Option Taken :=
  if taken.positional.length < form.positional then
    some { taken with positional := taken.positional ++ [arg] }
  else none

/-- Takes the template, which is given at most once and is not empty. -/
def takeTemplate (form : Form) (taken : Taken) (path : String) : Option Taken :=
  if form.template && taken.template.isNone && !path.isEmpty then
    some { taken with template := some path }
  else none

/-- Takes the switch to clear, which is given at most once. -/
def takeClear (form : Form) (taken : Taken) : Option Taken :=
  if form.clear && !taken.clear then some { taken with clear := true } else none

/-- Whether the next positional argument may start with a dash. -/
def allowsDash (form : Form) (taken : Taken) : Bool :=
  form.dashedLast && taken.positional.length + 1 == form.positional

/-- All that is left are positional arguments. -/
def readPlain (form : Form) (taken : Taken) : List String → Option Taken
  | [] => some taken
  | arg :: rest => (form.takePositional taken arg).bind (form.readPlain · rest)

/-- Whether a text starts with a dash and is more than that. -/
def isDashed (arg : String) : Bool :=
  arg.length > 1 && arg.toList.head? == some '-'

/-- An argument of two dashes and a name. -/
def readLong (form : Form) (taken : Taken) (arg : String) : Option (Ending ⊕ Taken) :=
  let name := (arg.toList.drop 2).takeWhile (· != '=')
  let value := (arg.toList.drop 2).dropWhile (· != '=')
  if name = "help".toList ∧ value.isEmpty then some (.inl .help)
  else if form.template ∧ name = "template".toList then
    (form.takeTemplate taken (String.ofList (value.drop 1))).map .inr
  else if form.clear ∧ name = "clear".toList then
    if value.isEmpty then (form.takeClear taken).map .inr else none
  else if name = "help".toList then none
  else if form.allowsDash taken then (form.takePositional taken arg).map .inr
  else none

/-- An argument of one dash and letters. -/
def readShort (form : Form) (taken : Taken) (arg : String) : Option (Ending ⊕ Taken) :=
  let letters := arg.toList.drop 1
  if form.allowsDash taken && letters.any (· != 'h') then
    (form.takePositional taken arg).map .inr
  else
    match letters with
    | 'h' :: _ => some (.inl .help)
    | 't' :: '=' :: value | 't' :: value =>
      (form.takeTemplate taken (String.ofList value)).map .inr
    | _ => none

/-- Reads the arguments of a command. -/
def read (form : Form) (taken : Taken) : List String → Option Ending
  | [] => some (.done taken)
  | "--" :: rest => (form.readPlain taken rest).map .done
  | arg :: rest =>
    if form.template && (arg = "-t" || arg = "--template") then
      match rest with
      | path :: rest =>
        if isDashed path then none
        else (form.takeTemplate taken path).bind (form.read · rest)
      | [] => none
    else if !isDashed arg then (form.takePositional taken arg).bind (form.read · rest)
    else
      let result :=
        if arg.startsWith "--" then form.readLong taken arg else form.readShort taken arg
      match result with
      | none => none
      | some (.inl ending) => some ending
      | some (.inr taken) => form.read taken rest

end Form

/-- The arguments behind a command, put to use. -/
def readWith (form : Form) (use : Taken → Option Request) (args : List String) : Option Parsed :=
  match form.read ⟨[], none, false⟩ args with
  | some .help => some .help
  | some (.done taken) => (use taken).map .request
  | none => none

/-- The names of the commands. -/
def commandNames : List String :=
  ["status", "run", "override", "custom", "reset"]

/-- What a command line asks for; nothing for one that is not understood. -/
def parse (args : List String) : Option Parsed :=
  match args with
  | [] => none
  | "status" :: rest =>
    readWith ⟨0, false, true, false⟩ (fun t => some (.status t.template)) rest
  | "run" :: rest => readWith ⟨0, false, false, false⟩ (fun _ => some .run) rest
  | "override" :: rest =>
    readWith ⟨1, false, false, true⟩ (fun t => match t.positional with
      | [key] => some (.override key t.clear)
      | _ => none) rest
  | "custom" :: rest =>
    readWith ⟨2, true, false, false⟩ (fun t => match t.positional with
      | [key, value] => some (.custom key value)
      | _ => none) rest
  | "reset" :: rest => readWith ⟨0, false, false, false⟩ (fun _ => some .reset) rest
  | ["help"] => some .help
  | "help" :: name :: rest =>
    if commandNames.contains name || name = "help" then
      if rest.isEmpty then some .help else none
    else none
  | arg :: _ =>
    match arg.toList with
    | ['-', '-', 'h', 'e', 'l', 'p'] => some .help
    | ['-', '-', 'v', 'e', 'r', 's', 'i', 'o', 'n'] => some .version
    | '-' :: 'h' :: _ => some .help
    | '-' :: 'V' :: _ => some .version
    | _ => none

end Milestone.Command
