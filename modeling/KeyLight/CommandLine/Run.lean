import KeyLight.CommandLine.Log
import KeyLight.Environment.Basic
import KeyLight.Json.Printer
import KeyLight.Layout.Json

/-!
# A run from the command line

A run reads the configuration, the layout and the script, in this order, and then draws one frame
after the other onto a render target: the frame at time zero and as many more as fit into the
duration. It ends early with the first thing that goes wrong, except that the failure of a thread is
told and the run goes on.
-/

namespace KeyLight

/-- The environment once its notices have been told. -/
def Environment.hushed (e : Environment) : Environment :=
  e.withRealm { e.world.toRealm with journal := #[] }

namespace CommandLine

/-- The content of a file. -/
structure Document where
  text : String
  /-- The script that it holds, if it is one. -/
  script : Option (List Stmt)

/-- What became of a run. -/
structure Transcript where
  events : List Event
  /-- What went wrong. -/
  error : Option String

/-- A run that is going on. -/
structure Run where
  environment : Environment
  events : Array Event

namespace Run

/-- Adds an event. -/
def tell (r : Run) (e : Event) : Run := { r with events := r.events.push e }

/-- Goes on with an environment, whose notices are told. -/
def goOn (r : Run) (e : Environment) : Run where
  environment := e.hushed
  events := r.events ++ e.world.journal.map Event.ofNotice

/-- Goes on with the answer of a call. -/
def after {α : Type} (r : Run) (answer : Environment.Answer α) : Except HostError α × Run :=
  (answer.1, r.goOn answer.2)

/-- Adds events. -/
def tellAll (r : Run) (events : List Event) : Run := events.foldl tell r

/-- Ends well. -/
def finish (r : Run) : Transcript := ⟨r.events.toList, none⟩

/-- Ends with an error. -/
def fail (r : Run) (error : String) : Transcript := ⟨r.events.toList, some error⟩

/-! ### Reading the files -/

/-- The configuration. -/
def readConfig (files : String → Option Document) (o : Options) : Except String Config :=
  match o.config with
  | none => .ok {}
  | some path =>
    match files path with
    | none => .error ("Failed to read configuration " ++ path)
    | some document =>
      match Config.ofText? document.text with
      | some config => .ok config
      | none => .error Config.invalidMessage

/-- The board of the layout, if one is asked for. -/
def readLayout (files : String → Option Document) (o : Options) : Except String (Option Keyboard) :=
  match o.layout with
  | none => .ok none
  | some path =>
    match files path with
    | none => .error ("Failed to read layout " ++ path)
    | some document =>
      match Keyboard.ofText? document.text with
      | some k => .ok (some k)
      | none => .error ("Invalid layout " ++ path)

/-- What is told of a layout. -/
def layoutEvent (k : Keyboard) : Event :=
  .program .info "Layout loaded"
    [("keys", .integer k.size), ("groups", .integer k.groups.length)]

/-! ### Frames -/

/-- The greatest number of frames. -/
def maxFrames : Nat := UInt64.size - 1

/-- The number of frames after the first one. One that is too great counts as the greatest. -/
def frameCount (o : Options) (fps : Nat) : Nat :=
  let seconds := if 0.0 < o.duration then o.duration else 0.0
  match Binary64.toRat? (seconds * Binary64.ofInt fps) with
  | some q => min q.ceil.toNat maxFrames
  | none => maxFrames

/-- The time of a frame. -/
def frameTime (fps frame : Nat) : Float := Binary64.ofInt frame / Binary64.ofInt fps

/-- What is told before the frames. -/
def renderingEvent (frames fps : Nat) : Event :=
  .program .info "Rendering..." [("frames", .integer frames), ("fps", .integer fps)]

/-- What is told of the failures of threads after a frame. -/
def failureEvent (frame : Nat) (f : Failure) : Event :=
  .program .warn f.line [("frame", .integer frame)]

/-- Draws one frame. If that goes well, the failures of threads are told. -/
def renderFrame (fuel target fps frame : Nat) (r : Run) : Option (Except HostError Bool × Run) := do
  match r.after (← r.environment.render fuel (frameTime fps frame) target) with
  | (.error e, r) => some (.error e, r)
  | (.ok drawn, r) =>
    let (failures, e) := r.environment.takeFailures
    some (.ok drawn, (r.goOn e).tellAll (failures.map (failureEvent frame)))

/-- Draws the frames from the given one on. Answers whether the script draws. -/
def renderAll (fuel target fps : Nat) :
    Nat → Nat → Bool → Run → Option (Except HostError Bool × Run)
  | 0, _, rendered, r => some (.ok rendered, r)
  | count + 1, frame, rendered, r => do
    match ← r.renderFrame fuel target fps frame with
    | (.error e, r) => some (.error e, r)
    | (.ok drawn, r) => renderAll fuel target fps count (frame + 1) (rendered || drawn) r

/-- The colours of a render target as a JSON text. -/
def frameText (t : RenderTarget) : String :=
  (Json.array (t.colors.map fun c => .string c.text)).render

/-- What is told at the end. -/
def completeEvent (r : Run) (target : Nat) : Event :=
  let colors := ((r.environment.world.host.target? target).map (·.target)).getD (.blank 0)
  .program .info "Render complete."
    [("threads", .integer r.environment.threadStates.length), ("frame", .string (frameText colors))]

/-- Draws all frames on a render target and ends. -/
def draw (fuel : Nat) (o : Options) (target : Nat) (r : Run) : Option Transcript := do
  let fps := max o.fps 1
  let frames := frameCount o fps
  let r := r.tell (renderingEvent frames fps)
  match ← renderAll fuel target fps (frames + 1) 0 false r with
  | (.error e, r) => some (r.fail e.report)
  | (.ok rendered, r) =>
    let r := if rendered then r
      else r.tell (.program .warn "Script has no render function; the target was never written" [])
    let r := r.tell (r.completeEvent target)
    some (r.goOn r.environment.detach.2).finish

/-! ### The whole run -/

/-- Sets the stage, with a board or without one, and attaches a controller. Answers with the render
target. -/
def stage (o : Options) (config : Config) (board : Option Keyboard) (events : List Event) :
    Nat × Run :=
  let (controller, host) := Host.empty.addController (.palette config.colors)
  let (target, host) := host.addTarget (.blank ((board.map Keyboard.size).getD o.keys))
  let (boardId, host) := match board with
    | some k => let (id, host) := host.addBoard k; (some id, host)
    | none => (none, host)
  let r : Run := ⟨Environment.start host config, events.toArray⟩
  let r := r.tellAll ((Palette.ignored config.palette).map Event.ofIgnored)
  let r := r.goOn (r.environment.attach controller)
  let r := match boardId with
    | some id => r.goOn (r.environment.setBoard id)
    | none => r
  (target, r)

/-- Loads a script that has been read, and calls the function that it begins with. -/
def launch (fuel : Nat) (script : Option (List Stmt)) (r : Run) :
    Option (Except HostError Unit × Run) :=
  match script with
  | none => some (.error (.fault .interpreter), r)
  | some statements => do
    match r.after (← r.environment.load fuel statements) with
    | (.error e, r) => some (.error e, r)
    | (.ok (), r) =>
      match r.after (← r.environment.invoke fuel "init" []) with
      | (.error e, r) => some (.error e, r)
      | (.ok _, r) => some (.ok (), r)

/-- What is told before the script is read. -/
def heading (o : Options) (board : Option Keyboard) : List Event :=
  (board.map layoutEvent).toList ++ [.program .info ("Script: " ++ Text.quote o.script) []]

/-- What comes before the frames. The run has ended, or it is about to draw on a render target. -/
def opening (fuel : Nat) (files : String → Option Document) (o : Options) :
    Option (Except Transcript (Nat × Run)) :=
  match readConfig files o with
  | .error error => some (.error ⟨[], some error⟩)
  | .ok config =>
    match readLayout files o with
    | .error error => some (.error ⟨[], some error⟩)
    | .ok board =>
      match files o.script with
      | none => some (.error ⟨heading o board, some ("Failed to read script " ++ o.script)⟩)
      | some document =>
        let (target, r) := stage o config board (heading o board)
        (launch fuel document.script r).map fun
          | (.error e, r) => .error (r.fail e.report)
          | (.ok (), r) => .ok (target, r)

/-- A run, told in full. -/
def transcript (fuel : Nat) (files : String → Option Document) (o : Options) :
    Option Transcript := do
  match ← opening fuel files o with
  | .error t => some t
  | .ok (target, r) => r.draw fuel o target

end Run

/-- A run, told at the level that is asked for. -/
def run (fuel : Nat) (files : String → Option Document) (o : Options) : Option Transcript :=
  (Run.transcript fuel files o).map fun t =>
    { t with events := t.events.filter (Event.isToldAt o.level) }

end CommandLine

end KeyLight
