import VirtualShell.Expansion.Word

/-!
# Redirecting streams

Redirections are read from left to right before a command runs. They give its input, and open the
files its output goes to: each file descriptor has a destination, and one descriptor may be given
the destination that another one has at that moment. What cannot be opened keeps the command from
running.

When the command has ended, or is left by a signal, its output is sent to the destinations. Text for
one file goes there at once.
-/

namespace VirtualShell

/-- Where a file descriptor writes. -/
inductive Destination where
  | stdout
  | stderr
  | file (place : Path)
  | nowhere
  deriving DecidableEq, Repr

/-- What keeps a redirection from being set up. The name is the one it was given. -/
inductive RedirectError where
  | ambiguous (name : String)
  | badDescriptor (name : String)
  | unusable (name : String) (reason : FileErrorKind)
  deriving DecidableEq, Repr

/-- The wording of a failed redirection. -/
def RedirectError.message : RedirectError → String
  | .ambiguous name => "bash: " ++ name ++ ": ambiguous redirect"
  | .badDescriptor name => "bash: " ++ name ++ ": Bad file descriptor"
  | .unusable name reason => "bash: " ++ name ++ ": " ++ reason.message

/-- What a command reads, and where each of its file descriptors writes. -/
structure Streams where
  input : String
  outputs : Table Nat Destination

namespace Streams

/-- Setting up redirections, which may fail. -/
abbrev Setup := ExceptT RedirectError Run

/-- The streams of a command that is not redirected. -/
def ofInput (input : String) : Streams := ⟨input, .ofList [(1, .stdout), (2, .stderr)]⟩

/-- The streams with a destination for a file descriptor. -/
def lead (s : Streams) (descriptor : Nat) (destination : Destination) : Streams :=
  { s with outputs := s.outputs.insert descriptor destination }

/-! ## Opening -/

/-- A name that means neither a file nor another stream. -/
def isDiscarding (name : String) : Bool := name = "/dev/null" || name = "/dev/zero"

/-- Change the files for a redirection. -/
def onFiles (name : String) (action : FileAction Unit) : Setup Unit := do
  match ← (Run.onFiles action : Run _) with
  | .ok () => return ()
  | .error e => throw (.unusable name e.kind)

/-- The content of the file that a name means. -/
def contentOf (name : String) : Setup String := do
  if name.isEmpty then throw (.ambiguous name)
  else if isDiscarding name then return ""
  else
    let path ← (Run.pathOf name : Run _)
    match ← (Run.askFiles (·.read path.render) : Run _) with
    | .ok content => return content
    | .error e => throw (.unusable name e.kind)

/-- The destination that a name means. A file is made when it is missing, and emptied unless it is
to be extended. -/
def destinationOf (name : String) (extending : Bool) : Setup Destination := do
  if name.isEmpty then throw (.ambiguous name)
  else if isDiscarding name then return .nowhere
  else if name = "/dev/stdout" then return .stdout
  else if name = "/dev/stderr" then return .stderr
  else
    let path ← (Run.pathOf name : Run _)
    let files := (← (get : Run Shell)).files
    if files.isDirectory path.render then throw (.unusable name .isDirectory)
    else
      if !(extending && files.has path.render) then
        onFiles name (FileSystem.write path.render "")
      return .file path

/-! ## Redirecting -/

/-- A name that means a file descriptor, or that one is to be closed. -/
def isDescriptor (name : String) : Bool := Text.allDigits name || name = "-"

/-- Give a file descriptor the destination of the one that a name means. There is none for a dash,
and reading from the input changes nothing. -/
def duplicate (s : Streams) (descriptor : Nat) (name : String) : Setup Streams := do
  if name = "-" then return s.lead descriptor .nowhere
  else
    let source ← (Run.orFault .numeral (Text.readDecimal name) : Run _)
    match s.outputs.get? source.toNat with
    | some destination => return s.lead descriptor destination
    | none => if source = 0 then return s else throw (.badDescriptor name)

/-- Only what file descriptor 0 reads is the input. -/
def reading (s : Streams) (descriptor : Option Nat) (content : String) : Streams :=
  if descriptor.getD 0 = 0 then { s with input := content } else s

/-- The streams after one redirection to a name. -/
def redirectTo (s : Streams) (op : RedirectOp) (descriptor : Option Nat) (name : String) :
    Setup Streams := do
  match op with
  | .input => return s.reading descriptor (← contentOf name)
  | .hereString => return s.reading descriptor (name ++ "\n")
  | .hereDocument | .hereDocumentTabs => return s.reading descriptor name
  | .output | .clobber => return s.lead (descriptor.getD 1) (← destinationOf name false)
  | .append => return s.lead (descriptor.getD 1) (← destinationOf name true)
  | .bothOutput => both false
  | .bothAppend => both true
  | .duplicateOutput =>
    if isDescriptor name then s.duplicate (descriptor.getD 1) name
    else if descriptor.isNone then both false
    else throw (.ambiguous name)
  | .duplicateInput =>
    if isDescriptor name then s.duplicate (descriptor.getD 0) name
    else throw (.ambiguous name)
where
  both (extending : Bool) : Setup Streams := do
    let destination ← destinationOf name extending
    return (s.lead 1 destination).lead 2 destination

/-- The streams after one redirection. -/
def redirect (x : Expander) (s : Streams) (r : Redirection) : Setup Streams := do
  let word := match r.target with
    | .word word => word
    | .hereDocument _ content _ _ => content
  let name ← (word.text x : Run String)
  s.redirectTo r.op r.descriptor name

/-- **The streams of a command** with some redirections and an input. -/
def ofRedirections (x : Expander) (redirections : List Redirection) (input : String) :
    Setup Streams :=
  redirections.foldlM (redirect x) (ofInput input)

/-! ## Sending output -/

/-- The destination of a file descriptor. -/
def destination (s : Streams) (descriptor : Nat) : Destination :=
  (s.outputs.get? descriptor).getD .nowhere

/-- Texts on the way to the streams and to files. -/
structure Delivery where
  output : Output
  files : Table Path String

/-- Send a text to a destination. -/
def Delivery.send (d : Delivery) (destination : Destination) (text : String) : Delivery :=
  match destination with
  | .stdout => { d with output := d.output ++ ⟨text, ""⟩ }
  | .stderr => { d with output := d.output ++ ⟨"", text⟩ }
  | .file place => { d with files := d.files.insert place ((d.files.get? place).getD "" ++ text) }
  | .nowhere => d

/-- Add a text to a file. -/
def extend (place : Path) (text : String) : Run Unit := do
  if !text.isEmpty then
    Run.orFault .files (← Run.onFiles (FileSystem.append place.render text))

/-- **Send an output to its destinations**; what is left goes on to the streams around. -/
def deliver (s : Streams) (output : Output) : Run Output := do
  let start : Delivery := ⟨.empty, .empty⟩
  let d := (start.send (s.destination 1) output.stdout).send (s.destination 2) output.stderr
  d.files.entries.forM fun (place, text) => extend place text
  return d.output

/-- Run a command and send its output to the destinations, also when a signal leaves it. -/
def around (s : Streams) (run : Run Outcome) : Run Outcome := do
  let outcome ← tryCatch run fun
    | .signal signal output => do Run.signal signal (← s.deliver output)
    | .fault f => Run.fault f
  return { outcome with output := ← s.deliver outcome.output }

end Streams

/-- **Run a command under redirections.** It is given its streams; when they cannot be set up, that
is said and the command does not run. -/
def Run.redirected (x : Expander) (redirections : List Redirection) (input : String)
    (run : Streams → Run Outcome) : Run Outcome := do
  match ← (Streams.ofRedirections x redirections input).run with
  | .ok streams => run streams
  | .error e => return .failure (e.message ++ "\n") 1

end VirtualShell
