import LiveTrip.Text.Numeral

/-!
# Command lines

* `Cli.Command`: what a command line can ask for.
* `Cli.Simulate`: the options of a simulated drive.
* `Cli.parse`: the command of the arguments; `none` is a command line that makes no sense.

An option takes its value from after `=` or from the next argument, which then may not look like an
option. An option given twice is an error. After `--`, nothing is an option or an action.
-/

namespace LiveTrip.Cli

open Text

/-- Options of a simulated drive. -/
structure Simulate where
  /-- Settings file. -/
  config : Option String := none
  /-- Route file, in place of the straight route. -/
  route : Option String := none
  /-- Segments of the straight route. -/
  segments : Nat := 20
  /-- Milliseconds between two fixes. -/
  interval : Nat := 50
  /-- Speed in km/h. -/
  speed : Float := 50.0
  /-- Fixed estimate of congestion, in place of one from the speed. -/
  congestion : Option Nat := none
  verbose : Bool := false
  deriving Inhabited

/-- What a command line can ask for. -/
inductive Command
  | version
  | help
  /-- Prints the settings in effect. -/
  | configShow (config : Option String)
  /-- Writes a settings file. -/
  | configInit (path : String) (force : Bool)
  /-- Checks a settings file. -/
  | configCheck (config : Option String)
  | simulate (options : Simulate)
  deriving Inhabited

/-- The options that are known at one place of a command line. -/
structure Spec where
  /-- Names of options with a value. -/
  valued : List String := []
  /-- Names of options without a value. -/
  flags : List String := []
  /-- One-letter names of the latter. -/
  letters : List (Char × String) := []

/-- One thing on a command line. -/
inductive Item
  | value (name text : String)
  | flag (name : String)
  | word (text : String)
  | help
  deriving DecidableEq, Repr

/-- A text that looks like an option. A lone dash does not. -/
def looksLikeOption (s : String) : Bool := s.startsWith "-" && s ≠ "-"

/-- The letters of a cluster such as `-ab`. -/
def scanLetters (spec : Spec) : List Char → Option (List Item)
  | [] => some []
  | 'h' :: _ => some [.help]
  | c :: rest =>
    match spec.letters.find? (·.1 = c) with
    | some (_, name) => (scanLetters spec rest).map (.flag name :: ·)
    | none => none

/-- The items of the arguments. With `untilWord`, they end at the first word, which is left among
the arguments that remain. -/
def scan (spec : Spec) (untilWord : Bool) : List String → Option (List Item × List String)
  | [] => some ([], [])
  | "--" :: rest => if untilWord then none else some (rest.map .word, [])
  | "--help" :: _ => some ([.help], [])
  | arg :: rest =>
    if !looksLikeOption arg then
      if untilWord then some ([], arg :: rest)
      else (scan spec untilWord rest).map fun (items, left) => (.word arg :: items, left)
    else
      match arg.toList with
      | '-' :: '-' :: long =>
        let name := String.ofList (long.takeWhile (· ≠ '='))
        match long.dropWhile (· ≠ '=') with
        | _ :: text =>
          if spec.valued.contains name then
            (scan spec untilWord rest).map fun (items, left) =>
              (.value name (String.ofList text) :: items, left)
          else none
        | [] =>
          if spec.flags.contains name then
            (scan spec untilWord rest).map fun (items, left) => (.flag name :: items, left)
          else if spec.valued.contains name then
            match rest with
            | text :: rest =>
              if looksLikeOption text then none
              else (scan spec untilWord rest).map fun (items, left) =>
                (.value name text :: items, left)
            | [] => none
          else none
      | _ :: letters =>
        match scanLetters spec letters with
        | some first => (scan spec untilWord rest).map fun (items, left) => (first ++ items, left)
        | none => none
      | [] => none

/-- The value of an option, if it is given; `none` if it is given twice. -/
def valueOf? (items : List Item) (name : String) : Option (Option String) :=
  let given := items.filterMap fun
    | .value n text => if n = name then some text else none
    | _ => none
  match given with
  | [] => some none
  | [text] => some (some text)
  | _ => none

/-- Whether an option is given; `none` if it is given twice. -/
def flagOf? (items : List Item) (name : String) : Option Bool :=
  match items.filter (· = .flag name) with
  | [] => some false
  | [_] => some true
  | _ => none

def wordsOf (items : List Item) : List String :=
  items.filterMap fun
    | .word text => some text
    | _ => none

/-- A path is not empty. -/
def pathOf? (text : Option String) : Option (Option String) :=
  if text = some "" then none else some text

/-- The value of an option read by `read?`, or else a default. -/
def readOr? {α : Type} (default : α) (read? : List Char → Option α) : Option String → Option α
  | none => some default
  | some text => read? text.toList

def parseSimulate (args : List String) : Option Command := do
  let spec : Spec :=
    { valued := ["config", "route", "segments", "interval-ms", "speed-kph", "congestion"]
      flags := ["verbose"]
      letters := [('v', "verbose")] }
  let (items, _) ← scan spec false args
  if items.contains .help then return .help
  let config ← pathOf? (← valueOf? items "config")
  let route ← pathOf? (← valueOf? items "route")
  let segments ← readOr? 20
    (fun s => (signedNatOf? wordBound s).filter fun n => 2 ≤ n && n ≤ 10000)
    (← valueOf? items "segments")
  let interval ← readOr? 50 (natOf? longBound) (← valueOf? items "interval-ms")
  let speed ← readOr? 50.0 floatOf? (← valueOf? items "speed-kph")
  let congestion ← readOr? none (fun s => ((signedNatOf? byteBound s).filter (· ≤ 100)).map some)
    (← valueOf? items "congestion")
  let verbose ← flagOf? items "verbose"
  if (wordsOf items).isEmpty then
    return .simulate { config, route, segments, interval, speed, congestion, verbose }
  else none

/-- The settings file may be named before or after the action; the later one counts. -/
def parseConfig (args : List String) : Option Command := do
  let (before, rest) ← scan { valued := ["config"] } true args
  if before.contains .help then return .help
  let outer ← pathOf? (← valueOf? before "config")
  match rest with
  | [] => none
  | action :: args =>
    let spec : Spec := { valued := ["config"], flags := if action = "init" then ["force"] else [] }
    if action = "help" then return .help
    let (items, _) ← scan spec false args
    if items.contains .help then return .help
    let inner ← pathOf? (← valueOf? items "config")
    let config := inner <|> outer
    match action, wordsOf items with
    | "show", [] => return .configShow config
    | "check", [] => return .configCheck config
    | "init", [path] =>
      if path = "" then none else return .configInit path (← flagOf? items "force")
    | _, _ => none

/-- The command of the arguments. -/
def parse (args : List String) : Option Command :=
  match args with
  | "simulate" :: rest => parseSimulate rest
  | "config" :: rest => parseConfig rest
  | "help" :: _ | "--help" :: _ => some .help
  | "--version" :: _ => some .version
  | arg :: _ =>
    match arg.toList with
    | '-' :: 'V' :: _ => some .version
    | '-' :: 'h' :: _ => some .help
    | _ => none
  | [] => none

end LiveTrip.Cli
