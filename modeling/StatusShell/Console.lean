import StatusShell.CommandLine
import StatusShell.Text.Plain

/-!
The library that the tool is used with: options may stand anywhere among the
arguments, the outputs are no terminals, and an interrupt ends the tool quietly.
-/

namespace StatusShell.CommandLine

/-- What the arguments say.  Of several notices the first counts. -/
structure Options where
  listing : Bool
  verbose : Bool
  notice : Option Notice
  paths : List String
  deriving DecidableEq, Repr

namespace Options

/-- Nothing was said. -/
def unset : Options := ⟨false, false, none, []⟩

/-- Take in one argument that may be an option.  `none` if it looks like an
option but is not one. -/
def take (options : Options) (arg : String) : Option Options :=
  if arg = listingOption then some { options with listing := true }
  else if arg = "--verbose" then some { options with verbose := true }
  else if arg = "--version" then
    some { options with notice := options.notice.or (some .version) }
  else if arg = "--help" then
    some { options with notice := options.notice.or (some .help) }
  else
    match arg.toList with
    | '-' :: flag :: flags =>
        if (flag :: flags).all (· = 'v') then some { options with verbose := true } else none
    | _ => some { options with paths := options.paths ++ [arg] }

/-- Take in arguments in order.  After a double dash, everything is a path. -/
def takeAll (options : Options) : List String → Option Options
  | [] => some options
  | arg :: args =>
      if arg = "--" then some { options with paths := options.paths ++ args }
      else
        match options.take arg with
        | some options => takeAll options args
        | none => none

/-- The order that is given.  A notice comes before a script, and a script must
be the only one and have a name that a file can have. -/
def order (options : Options) : Order :=
  match options.notice, options.paths with
  | some notice, _ => .tell notice
  | none, [path] =>
      if path.toList.contains '\x00' then .misuse
      else .handle options.listing options.verbose (.ofString path)
  | none, _ => .misuse

end Options

/-- The order that the arguments give.  All of them must be understood before
any counts. -/
def Order.ofArgs (args : List String) : Order :=
  if args.isEmpty then .misuse
  else
    match Options.unset.takeAll args with
    | none => .misuse
    | some options => options.order

/-- The exit code when the tool is interrupted. -/
def interruptedCode : Nat := 130

/-- The library that the tool is used with. -/
def console : Frontend where
  order := Order.ofArgs
  echo := Text.plain
  log events := String.join (events.map fun event => event.logLine ++ "\n")
  settle fault := if fault.isInterrupt then some (interruptedCode, "") else none

/-- The limits that the tool is used with. -/
def Limits.usual : Limits := ⟨nestingLimit, nestingLimit, callLimit⟩

end StatusShell.CommandLine
