import PrefixIntegral.Journal.Account

/-!
A session: work is done while a journal is kept of it. The journal takes no part in the work: what
a request gives is the same whatever is written down about it.
-/

namespace PrefixIntegral

inductive JournalFile where
  | none | namedForTime | named (name : Text)
  deriving DecidableEq, Repr

def JournalFile.resolve (now : Float) : JournalFile → Option Text
  | none => Option.none
  | namedForTime => some (journalFile now)
  | named name => some name

structure RecorderSetup where
  level : Verbosity
  toStream : Bool
  file : JournalFile
  deriving DecidableEq, Repr

def RecorderSetup.recorder (setup : RecorderSetup) (now : Float) : Recorder :=
  ⟨setup.level, setup.toStream, setup.file.resolve now, 0⟩

/-- Something asked of a session: to say something, to do some work, or to change the journal. -/
inductive SessionRequest where
  | info (message : String) (required : Verbosity)
  | progress (message : String) (forced : Bool)
  | milestone (message : String)
  | warning (message : String)
  | debug (message : String)
  | critical (message : String)
  | summary (figures : Summary)
  | read (formula symbol : Text)
  | integrate (formula symbol : Text) (lower upper : Float) (settings : GivenSettings)
      (passes : Passes)
  | integrateTree (tree : Tree Float) (lower upper : Float) (settings : GivenSettings)
      (passes : Passes)
  | configure (setup : RecorderSetup)
  | make (setup : RecorderSetup)
  | forget
  | setLevel (level : Verbosity)
  | setLevelOf (place : Nat) (level : Verbosity)
  | level
  | isEnabled (required : Verbosity)
  | attach (tag : Nat) (sink : Sink)
  | detach (tag : Nat) (sink : Sink)
  | tick (now : Float)

inductive SessionReply where
  | nothing
  | file (name : Option Text)
  | level (level : Verbosity)
  | enabled (answer : Bool)
  | tree (tree : Tree Float)
  | integral (tree : Tree Float) (value : Float)
  | refused (fault : IntegralFault)

/-- Some work: what is said in its course, what comes of it, and what it warns of. -/
structure Work where
  remarks : List Remark
  reply : SessionReply
  warnings : List String

namespace Work

def saying (remark : Remark) : Work := ⟨[remark], .nothing, []⟩

def reading (formula symbol : Text) : Work :=
  match Formula.read formula symbol with
  | .error fault => ⟨[], .refused (.formula fault), []⟩
  | .ok tree => ⟨tree.account, .tree tree, []⟩

def integrating (clock : Nat → Float) (tree : Tree Float) (lower upper : Float)
    (settings : GivenSettings) (passes : Passes) : Work :=
  match Configuration.ofSettings settings with
  | .error fault => ⟨[], .refused (.setting fault), []⟩
  | .ok c =>
    let run := tree.integrate lower upper c passes
    ⟨run.account tree.formula clock,
      match run.result with
      | .ok value => .integral tree value
      | .error fault => .refused (.integration fault),
      run.warnings⟩

def integratingFormula (clock : Nat → Float) (formula symbol : Text) (lower upper : Float)
    (settings : GivenSettings) (passes : Passes) : Work :=
  match Formula.read formula symbol with
  | .error fault => ⟨[], .refused (.formula fault), []⟩
  | .ok tree =>
    let work := integrating clock tree lower upper settings passes
    { work with remarks := tree.account ++ work.remarks }

end Work

structure Session where
  journal : Journal
  now : Float

structure SessionStep where
  session : Session
  reply : SessionReply
  warnings : List String
  written : List (Sink × Entry)

/-- A request, and what the clock shows while it is answered: at its start, and whenever a batch of
an integration is done. -/
structure TimedRequest where
  request : SessionRequest
  clock : Nat → Float

namespace Session

def start (now : Float) : Session := ⟨.empty, now⟩

def rearrange (s : Session) (journal : Journal) : SessionStep :=
  ⟨{ s with journal }, .nothing, [], []⟩

def perform (s : Session) (work : Work) : SessionStep :=
  let (journal, written) := s.journal.noteAll work.remarks
  ⟨{ s with journal }, work.reply, work.warnings, written⟩

def answerAt (s : Session) (clock : Nat → Float) : SessionRequest → SessionStep
  | .info message required => s.perform (.saying (.info message required))
  | .progress message forced => s.perform (.saying (.progress (clock 0) message forced))
  | .milestone message => s.perform (.saying (.milestone message))
  | .warning message => s.perform (.saying (.warning message))
  | .debug message => s.perform (.saying (.debug message))
  | .critical message => s.perform (.saying (.critical message))
  | .summary figures => s.perform (.saying (.summary figures))
  | .read formula symbol => s.perform (.reading formula symbol)
  | .integrate formula symbol lower upper settings passes =>
    s.perform (.integratingFormula clock formula symbol lower upper settings passes)
  | .integrateTree tree lower upper settings passes =>
    s.perform (.integrating clock tree lower upper settings passes)
  | .configure setup =>
    let recorder := setup.recorder (clock 0)
    { s.rearrange (s.journal.configure recorder) with reply := .file recorder.file }
  | .make setup => s.rearrange (s.journal.make (setup.recorder (clock 0)))
  | .forget => s.rearrange s.journal.forget
  | .setLevel level => s.rearrange (s.journal.setLevel level)
  | .setLevelOf place level => s.rearrange (s.journal.setLevelOf place level)
  | .level =>
    let journal := s.journal.ensured
    { s.rearrange journal with reply := .level journal.level }
  | .isEnabled required =>
    let journal := s.journal.ensured
    { s.rearrange journal with reply := .enabled (journal.level.admits required) }
  | .attach tag sink => s.rearrange (s.journal.attach tag sink)
  | .detach tag sink => s.rearrange (s.journal.detach tag sink)
  | .tick now => { s.rearrange s.journal with session := { s with now } }

def answer (s : Session) (request : SessionRequest) : SessionStep :=
  s.answerAt (fun _ => s.now) request

def answerAll (s : Session) : List TimedRequest → List SessionStep
  | [] => []
  | timed :: rest =>
    let step := s.answerAt timed.clock timed.request
    step :: step.session.answerAll rest

def after (s : Session) : List TimedRequest → Session
  | [] => s
  | timed :: rest => (s.answerAt timed.clock timed.request).session.after rest

end Session

end PrefixIntegral
