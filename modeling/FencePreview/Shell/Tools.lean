import FencePreview.Shell.Machine
import FencePreview.Shell.Pattern

/-! The tools that scripts call. A tool is given its arguments and changes the machine that runs
it; its exit code is left in the machine. -/

namespace FencePreview

namespace Shell

abbrev Tool := List Text → Machine → Machine

namespace Tools

def natural? (written : Text) : Option Nat :=
  if !written.isEmpty && written.all Char.isDigit then
    some (written.foldl (fun value digit => value * 10 + (digit.toNat - '0'.toNat)) 0)
  else none

/-- Letters of the options in front, and the arguments after them. -/
def splitOptions : List Text → Text × List Text
  | [] => ([], [])
  | argument :: rest =>
      match argument with
      | ['-', '-'] => ([], rest)
      | '-' :: letter :: letters =>
          let (others, operands) := splitOptions rest
          (letter :: letters ++ others, operands)
      | _ => ([], argument :: rest)

def blame (tool argument : Text) (cause : FileError) (machine : Machine) : Machine :=
  (machine.complain (tool ++ ": ".toList ++ argument ++ ": ".toList ++ cause.wording)).exitWith 1

def overSources (tool : Text) (sources : List Text) (handle : Text → ByteArray → Machine → Machine)
    (machine : Machine) : Machine :=
  (if sources.isEmpty then [['-']] else sources).foldl
    (fun machine source =>
      match machine.take source with
      | (machine, .ok content) => handle source content machine
      | (machine, .error cause) => blame tool source cause machine)
    machine

/-- Changes files by one operation, and complains about `argument` if it fails. -/
def changing (tool argument : Text) (operation : Storage → Except FileError Storage)
    (machine : Machine) : Machine :=
  match operation machine.storage with
  | .ok storage => { machine with storage }
  | .error cause => blame tool argument cause machine

/-! Writing -/

def octal : Nat → Nat → Text → Nat × Text
  | 0, value, text => (value, text)
  | _ + 1, value, [] => (value, [])
  | count + 1, value, digit :: rest =>
      if '0' ≤ digit && digit ≤ '7' then octal count (value * 8 + (digit.toNat - '0'.toNat)) rest
      else (value, digit :: rest)

def letterByte? : Char → Option UInt8
  | 'a' => some 7
  | 'b' => some 8
  | 'f' => some 12
  | 'n' => some 10
  | 'r' => some 13
  | 't' => some 9
  | 'v' => some 11
  | '\\' => some 92
  | _ => none

def escape (text : Text) : ByteArray × Text :=
  match text with
  | character :: rest =>
      if '0' ≤ character && character ≤ '7' then
        let (value, rest) := octal 3 0 text
        (⟨#[UInt8.ofNat value]⟩, rest)
      else
        match letterByte? character with
        | some byte => (⟨#[byte]⟩, rest)
        | none => (⟨#[92]⟩, text)
  | [] => (⟨#[92]⟩, [])

/-- A text with its escapes carried out, and whether one of them stops all output. -/
def unescape : Nat → Text → ByteArray × Bool
  | 0, _ => (ByteArray.empty, false)
  | fuel + 1, text =>
      match text with
      | [] => (ByteArray.empty, false)
      | '\\' :: 'c' :: _ => (ByteArray.empty, true)
      | '\\' :: rest =>
          let rest := match rest with
            | '0' :: digit :: more => if '0' ≤ digit && digit ≤ '7' then digit :: more else rest
            | _ => rest
          let (bytes, rest) := escape rest
          let (others, stopped) := unescape fuel rest
          (bytes ++ others, stopped)
      | character :: rest =>
          let (others, stopped) := unescape fuel rest
          (Text.encode [character] ++ others, stopped)

def echo : Tool := fun arguments machine =>
  let (ending, words) : Text × List Text := match arguments with
    | ['-', 'n'] :: rest => ([], rest)
    | words => (['\n'], words)
  let line := Text.joinWith [' '] words
  let (bytes, stopped) := unescape (line.length + 1) line
  (machine.say (if stopped then bytes else bytes ++ Text.encode ending)).exitWith 0

/-- One pass over a format: what it writes, the arguments left, and whether output stops. -/
def format : Nat → Text → List Text → ByteArray × List Text × Bool
  | 0, _, arguments => (ByteArray.empty, arguments, false)
  | fuel + 1, text, arguments =>
      let onward (bytes : ByteArray) (rest : Text) (arguments : List Text) :=
        let (others, left, stopped) := format fuel rest arguments
        (bytes ++ others, left, stopped)
      match text with
      | [] => (ByteArray.empty, arguments, false)
      | '%' :: '%' :: rest => onward (Text.encode ['%']) rest arguments
      | '%' :: 's' :: rest => onward (Text.encode (arguments.headD [])) rest arguments.tail
      | '%' :: 'd' :: rest => onward (Text.encode (arguments.headD ['0'])) rest arguments.tail
      | '%' :: 'c' :: rest => onward (Text.encode ((arguments.headD []).take 1)) rest arguments.tail
      | '%' :: 'b' :: rest =>
          let argument := arguments.headD []
          match unescape (argument.length + 1) argument with
          | (bytes, true) => (bytes, [], true)
          | (bytes, false) => onward bytes rest arguments.tail
      | '\\' :: rest =>
          let (bytes, rest) := escape rest
          onward bytes rest arguments
      | character :: rest => onward (Text.encode [character]) rest arguments

/-- Passes over a format until all arguments are used. `fuel` bounds the passes. -/
def formatAll : Nat → Text → List Text → ByteArray
  | 0, _, _ => ByteArray.empty
  | fuel + 1, text, arguments =>
      let (bytes, left, stopped) := format (text.length + 1) text arguments
      if stopped || left.isEmpty || left.length = arguments.length then bytes
      else bytes ++ formatAll fuel text left

def printf : Tool := fun arguments machine =>
  match arguments with
  | [] => (machine.complainAs "printf: usage: printf format [arg ...]".toList).exitWith 2
  | text :: arguments => (machine.say (formatAll (arguments.length + 1) text arguments)).exitWith 0

def cat : Tool := fun arguments machine =>
  overSources "cat".toList (splitOptions arguments).2 (fun _ content machine => machine.say content)
    (machine.exitWith 0)

def tee : Tool := fun arguments machine =>
  let (options, targets) := splitOptions arguments
  let content := machine.input
  targets.foldl
    (fun machine target =>
      match machine.openSink ('a' ∈ options) target with
      | .ok (machine, sink) => machine.deliver sink content
      | .error cause => blame "tee".toList target cause machine)
    (({ machine with input := ByteArray.empty }).say content |>.exitWith 0)

/-! Looking -/

/-- The lines of a file; a line feed at its end begins no further line. -/
def linesOf (content : ByteArray) : List Text :=
  let pieces := Text.splitAtEach '\n' (Text.decodeLossy content)
  if pieces.getLast? = some [] then pieces.dropLast else pieces

def grep : Tool := fun arguments machine =>
  let (options, operands) := splitOptions arguments
  match operands with
  | [] => (machine.complain "Usage: grep [OPTION]... PATTERNS [FILE]...".toList).exitWith 2
  | written :: sources =>
      let pattern :=
        if 'F' ∈ options then some (Pattern.literal written) else Pattern.read? written
      match pattern with
      | none => (machine.complain "grep: Unmatched [, [^, [:, [., or [=".toList).exitWith 2
      | some pattern =>
          let pattern :=
            if 'x' ∈ options then { pattern with atStart := true, atEnd := true } else pattern
          let selects (line : Text) : Bool := ('v' ∈ options) != pattern.acceptsLine line
          let label (source : Text) : Text :=
            if 1 < sources.length then source ++ [':'] else []
          let handle (source : Text) (content : ByteArray) (machine : Machine) : Machine :=
            let found := (linesOf content).filter selects
            let machine := if found.isEmpty then machine else machine.exitWith 0
            if 'q' ∈ options then machine
            else if 'c' ∈ options then
              machine.say (Text.encode (label source ++ Text.ofNat found.length ++ ['\n']))
            else machine.say (Text.encode (found.flatMap fun line => label source ++ line ++ ['\n']))
          overSources "grep".toList sources handle (machine.exitWith 1)

def head : Tool := fun arguments machine =>
  let (byBytes, count, sources) := match arguments with
    | ['-', 'c'] :: written :: rest => (true, (natural? written).getD 0, rest)
    | ['-', 'n'] :: written :: rest => (false, (natural? written).getD 0, rest)
    | ('-' :: 'c' :: written) :: rest => (true, (natural? written).getD 0, rest)
    | ('-' :: 'n' :: written) :: rest => (false, (natural? written).getD 0, rest)
    | ('-' :: written) :: rest => (false, (natural? written).getD 0, rest)
    | sources => (false, 10, sources)
  let front (content : ByteArray) : ByteArray :=
    if byBytes then content.extract 0 count
    else
      let lines := Text.splitAtEach '\n' (Text.decodeLossy content)
      if lines.length ≤ count then content
      else Text.encode ((lines.take count).flatMap fun line => line ++ ['\n'])
  if sources.isEmpty && byBytes then
    (({ machine with input := machine.input.extract count machine.input.size }).say
      (front machine.input)).exitWith 0
  else
    overSources "head".toList sources (fun _ content machine => machine.say (front content))
      (machine.exitWith 0)

def wc : Tool := fun arguments machine =>
  let (options, sources) := splitOptions arguments
  overSources "wc".toList sources
    (fun source content machine =>
      let count := if 'l' ∈ options then (content.toList.filter (· = 10)).length else content.size
      let label := if sources.isEmpty then [] else ' ' :: source
      machine.say (Text.encode (Text.ofNat count ++ label ++ ['\n'])))
    (machine.exitWith 0)

def holds (storage : Storage) : List Text → Bool
  | [] => false
  | [word] => !word.isEmpty
  | ['!'] :: rest => !holds storage rest
  | [['-', letter], word] =>
      match letter with
      | 'n' => !word.isEmpty
      | 'z' => word.isEmpty
      | 'f' => storage.isFile ⟨word⟩
      | 'd' => storage.isDirectory ⟨word⟩
      | 's' =>
          match storage.read ⟨word⟩ with
          | .ok content => !content.isEmpty
          | .error _ => storage.isDirectory ⟨word⟩
      | 'x' =>
          match storage.entry? ⟨word⟩ with
          | some entry => entry.mode &&& 0o111 ≠ 0
          | none => false
      | _ => storage.exists? ⟨word⟩
  | [first, ['='], second] => first = second
  | [first, ['!', '='], second] => first ≠ second
  | [first, relation, second] =>
      match natural? first, natural? second with
      | some first, some second =>
          if relation = "-eq".toList then first = second
          else if relation = "-ne".toList then first ≠ second
          else if relation = "-lt".toList then first < second
          else if relation = "-le".toList then first ≤ second
          else if relation = "-gt".toList then first > second
          else if relation = "-ge".toList then first ≥ second
          else false
      | _, _ => false
  | _ => false

def test : Tool := fun arguments machine =>
  machine.exitWith (if holds machine.storage arguments then 0 else 1)

/-- A test whose last argument is the closing bracket. -/
def bracket : Tool := fun arguments machine =>
  if arguments.getLast? = some [']'] then test arguments.dropLast machine
  else (machine.complainAs "[: missing ]".toList).exitWith 2

/-! Files -/

/-- A target, seen as the place of `source` inside it if it is a directory. -/
def placeOf (storage : Storage) (source target : Text) : PathName :=
  if storage.isDirectory ⟨target⟩ then
    (⟨target⟩ : PathName).join ⟨(Text.splitAtEach '/' source).getLastD []⟩
  else ⟨target⟩

def copyFile : Tool := fun arguments machine =>
  match (splitOptions arguments).2 with
  | [source, target] =>
      match machine.take source with
      | (machine, .error cause) =>
          (machine.complain ("cp: cannot stat '".toList ++ source ++ "': ".toList ++ cause.wording)).exitWith 1
      | (machine, .ok content) =>
          changing "cp".toList target
            (fun storage => storage.write (placeOf storage source target) content) (machine.exitWith 0)
  | _ => (machine.complain "cp: missing file operand".toList).exitWith 1

def moveFile : Tool := fun arguments machine =>
  match (splitOptions arguments).2 with
  | [source, target] =>
      changing "mv".toList source
        (fun storage => storage.rename ⟨source⟩ (placeOf storage source target)) (machine.exitWith 0)
  | _ => (machine.complain "mv: missing file operand".toList).exitWith 1

def removeFiles : Tool := fun arguments machine =>
  let (options, targets) := splitOptions arguments
  targets.foldl
    (fun machine target =>
      if machine.storage.isDirectory ⟨target⟩ && !('r' ∈ options || 'R' ∈ options) then
        (machine.complain ("rm: cannot remove '".toList ++ target ++ "': Is a directory".toList)).exitWith 1
      else
        match machine.storage.remove ⟨target⟩ with
        | .ok storage => { machine with storage }
        | .error cause =>
            if 'f' ∈ options then machine
            else
              (machine.complain
                ("rm: cannot remove '".toList ++ target ++ "': ".toList ++ cause.wording)).exitWith 1)
    (machine.exitWith 0)

def makeDirectories : Tool := fun arguments machine =>
  let (options, targets) := splitOptions arguments
  targets.foldl
    (fun machine target =>
      let (storage, outcome) :=
        if 'p' ∈ options then machine.storage.makeDirectories ⟨target⟩
        else
          match machine.storage.makeDirectory ⟨target⟩ with
          | .ok storage => (storage, .ok ())
          | .error cause => (machine.storage, .error cause)
      match outcome with
      | .ok () => { machine with storage }
      | .error cause =>
          ({ machine with storage }.complain ("mkdir: cannot create directory '".toList ++ target ++
            "': ".toList ++ cause.wording)).exitWith 1)
    (machine.exitWith 0)

def touch : Tool := fun arguments machine =>
  (splitOptions arguments).2.foldl
    (fun machine target =>
      if machine.storage.exists? ⟨target⟩ then machine
      else changing "touch".toList target (·.write ⟨target⟩ ByteArray.empty) machine)
    (machine.exitWith 0)

def changeMode : Tool := fun arguments machine =>
  match arguments with
  | written :: targets =>
      targets.foldl
        (fun machine target =>
          changing "chmod".toList target
            (fun storage =>
              let current := ((storage.entry? ⟨target⟩).map Entry.mode).getD 0
              let mode := if written = "+x".toList then current ||| 0o111 else (octal 4 0 written).1
              storage.setMode ⟨target⟩ mode)
            machine)
        (machine.exitWith 0)
  | [] => (machine.complain "chmod: missing operand".toList).exitWith 1

/-! The script itself -/

def exit : Tool := fun arguments machine =>
  let status := match arguments with
    | written :: _ => (natural? written).getD 2 % 256
    | [] => machine.status
  { machine with status, ended := some (.code status) }

def shift : Tool := fun arguments machine =>
  let count := ((arguments.head?).bind natural?).getD 1
  { machine with arguments := machine.arguments.drop count, status := 0 }

def signals : List (Text × Nat) :=
  [("HUP".toList, 1), ("INT".toList, 2), ("QUIT".toList, 3), ("ABRT".toList, 6), ("KILL".toList, 9),
    ("USR1".toList, 10), ("SEGV".toList, 11), ("USR2".toList, 12), ("PIPE".toList, 13),
    ("ALRM".toList, 14), ("TERM".toList, 15)]

def signal? (written : Text) : Option Nat :=
  let name := (Text.stripStart? "SIG".toList written).getD written
  match natural? written with
  | some number => some number
  | none => signals.lookup name

/-- Sends a signal; one sent to the script itself ends it. -/
def kill : Tool := fun arguments machine =>
  let (written, targets) := match arguments with
    | ['-', 's'] :: name :: rest => (name, rest)
    | ('-' :: name) :: rest => (name, rest)
    | rest => ("TERM".toList, rest)
  match signal? written with
  | none => (machine.complainAs "kill: invalid signal number or name".toList).exitWith 2
  | some 0 => machine.exitWith 0
  | some number =>
      if targets.contains Machine.ownNumber then { machine with ended := some (.signal number) }
      else (machine.complainAs "kill: No such process".toList).exitWith 1

def table : List (Text × Tool) :=
  [([':'], fun _ machine => machine.exitWith 0), ("true".toList, fun _ machine => machine.exitWith 0),
    ("false".toList, fun _ machine => machine.exitWith 1), ("echo".toList, echo),
    ("printf".toList, printf), ("cat".toList, cat), ("tee".toList, tee), ("grep".toList, grep),
    ("head".toList, head), ("wc".toList, wc), ("test".toList, test), (['['], bracket),
    ("cp".toList, copyFile), ("mv".toList, moveFile), ("rm".toList, removeFiles),
    ("mkdir".toList, makeDirectories), ("touch".toList, touch), ("chmod".toList, changeMode),
    ("sleep".toList, fun _ machine => machine.exitWith 0)]

/-- Tools that act on the script, which have no program of their own. -/
def inner : List (Text × Tool) :=
  [("exit".toList, exit), ("shift".toList, shift), ("kill".toList, kill),
    ("set".toList, fun _ machine => machine.exitWith 0)]

end Tools

end Shell

end FencePreview
